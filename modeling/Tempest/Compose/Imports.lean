import Tempest.Process.Closure
import Tempest.Process.Fallible
import Tempest.Prove.Pipeline

/-!
# Imports — which files a change can reach (`compose/compose.py`, `import_graph` and `affected`)

`importGraph` reads the edges off the import statements of every file, as the composer does.
`ImportNode.loads` is the other side: the files of the repository that Python's import system gives a
statement, with the directory of `sys.path` that each is found under.
-/

namespace Tempest

open Python

/-! ## Statements -/

def ModuleName : Type := { name : PyStr // name ≠ [] ∧ slash ∉ name }

def ModuleName.text (n : ModuleName) : PyStr := n.1

def ModuleName.parts (n : ModuleName) : List PyStr := n.text.splitOn (codePoint 0x2E)

/-- The part of a syntax tree that holds import statements. -/
inductive ImportNode where
  | imports (names : List ModuleName)
  | importFrom (level : Nat) (module : Option ModuleName) (names : List ModuleName)
  | other (parts : List ImportNode)

namespace ImportNode

/-- `ast.iter_child_nodes`. -/
def children : ImportNode → List ImportNode
  | other parts => parts
  | _ => []

mutual

def size : ImportNode → Nat
  | other parts => sizes parts + 1
  | _ => 1

def sizes : List ImportNode → Nat
  | [] => 0
  | node :: nodes => node.size + sizes nodes

end

theorem sizes_eq_weigh (nodes : List ImportNode) : sizes nodes = weigh size nodes := by
  induction nodes with
  | nil => rfl
  | cons node nodes ih =>
    have hcons : weigh size (node :: nodes) = node.size + weigh size nodes := by simp [weigh]
    rw [sizes, ih, hcons]

theorem weigh_children (node : ImportNode) : weigh size node.children < node.size := by
  cases node with
  | other parts => simp [children, size, sizes_eq_weigh]
  | imports _ | importFrom _ _ _ => simp [children, weigh, size]

def walk (node : ImportNode) : List ImportNode := Python.walk children node.size [node]

/-- The names that `import_graph` looks at; the level of a `from` is not one of them. -/
def names : ImportNode → List ModuleName
  | imports names => names
  | importFrom _ (some module) _ => if module.text = [] then [] else [module]
  | importFrom _ none _ => []
  | other _ => []

end ImportNode

/-! ## The graph -/

def pySuffix : PyStr := lit ".py"

def moduleName (path : PyStr) : PyStr :=
  let stem := if pySuffix.isSuffixOf path then path.take (path.length - pySuffix.length) else path
  stem.map fun c => if c = slash then codePoint 0x2E else c

/-- The texts of the files, and what `ast.parse` makes of one. -/
structure Sources where
  texts : Dict PyStr PyStr
  parse : PyStr → Except ParseError ImportNode

def Sources.byModule (s : Sources) : Dict PyStr PyStr :=
  Dict.empty.setAll (s.texts.keys.map fun path => (moduleName path, path))

/-- `name == module or name.startswith(f"{module}.")`. -/
def spells (name : ModuleName) (module : PyStr) : Bool :=
  name.text = module || startsWith (module ++ dot) name.text

def Sources.targets (s : Sources) (name : ModuleName) : List PyStr :=
  (s.byModule.items.filter fun item => spells name item.1).map Prod.snd

def Sources.edges (s : Sources) (tree : ImportNode) : Finset PyStr :=
  (tree.walk.flatMap fun node => node.names.flatMap s.targets).toFinset

/-- The edges of one file; a `SyntaxError` is an edge to every other. -/
def Sources.node (s : Sources) (item : PyStr × PyStr) : Except ParseError (PyStr × Finset PyStr) :=
  match s.parse item.2 with
  | .ok tree => .ok (item.1, s.edges tree)
  | .error .syntaxError => .ok (item.1, s.texts.keys.toFinset.erase item.1)
  | .error .tooDeep => .error .tooDeep

def Sources.importGraph (s : Sources) : Except ParseError (List (PyStr × Finset PyStr)) :=
  s.texts.items.mapM s.node

def affected (dirty : Finset PyStr) (graph : List (PyStr × Finset PyStr)) : Finset PyStr :=
  Graph.closure graph dirty

/-! ## What Python imports -/

/-- A directory below the root of the repository. -/
abbrev Dir := List PyStr

/-- A package, or the top level (`sub` is empty), under a directory of `sys.path`. -/
structure Place where
  root : Dir
  sub : List PyStr
  deriving DecidableEq

def Place.under (p : Place) (name : PyStr) : Place := { p with sub := p.sub ++ [name] }

/-- The module `sub` under `root`, as a plain file or as the `__init__.py` of a package. -/
structure Loaded where
  place : Place
  isInit : Bool
  deriving DecidableEq

def Loaded.path (l : Loaded) : PyStr :=
  join [slash] (l.place.root ++ l.place.sub ++ if l.isInit then [lit "__init__"] else []) ++ pySuffix

def Sources.hasFile (s : Sources) (l : Loaded) : Bool := s.texts.contains l.path

def Sources.hasDir (s : Sources) (p : Place) : Bool :=
  s.texts.keys.any fun path => startsWith (join [slash] (p.root ++ p.sub) ++ [slash]) path

/-- What a name is: a package, which searches its own places and may have an `__init__.py`, a module
that is no package, or nothing. -/
inductive ImportTarget where
  | package (places : List Place) (init : Option Loaded)
  | module (file : Loaded)
  | nothing

/-- The path finder in one directory: a regular package comes before a module. -/
def Sources.findAt (s : Sources) (place : Place) : Option ImportTarget :=
  if s.hasFile ⟨place, true⟩ then some (.package [place] (some ⟨place, true⟩))
  else if s.hasFile ⟨place, false⟩ then some (.module ⟨place, false⟩)
  else none

/-- The path finder: the first directory that has the name, and else every directory with a folder of
that name, which together are a namespace package. -/
def Sources.find (s : Sources) (places : List Place) (name : PyStr) : ImportTarget :=
  match (places.map fun p => p.under name).findSome? s.findAt with
  | some found => found
  | none =>
    match (places.map fun p => p.under name).filter s.hasDir with
    | [] => .nothing
    | p :: ps => .package (p :: ps) none

def Sources.load (s : Sources) : List Place → List PyStr → List Loaded
  | _, [] => []
  | places, name :: rest =>
    match s.find places name with
    | .nothing => []
    | .module file => [file]
    | .package inner init => init.toList ++ s.load inner rest

def Sources.target (s : Sources) : List Place → List PyStr → ImportTarget
  | places, [] => .package places none
  | places, [name] => s.find places name
  | places, name :: rest =>
    match s.find places name with
    | .package inner _ => s.target inner rest
    | _ => .nothing

/-- What running a file says: the names that it binds, and its `__all__`. -/
structure Namespace where
  binds : PyStr → PyStr → Bool
  all : PyStr → List PyStr

/-- The names that a `from` takes out of a package with this `__init__.py`, if it has one. -/
def Namespace.wanted (ns : Namespace) (init : Option Loaded) (names : List ModuleName) : List PyStr :=
  (names.flatMap fun n =>
    if n.text = lit "*" then (init.map fun l => ns.all l.path).getD [] else [n.text]).filter
      fun name => !(init.any fun l => ns.binds l.path name)

/-- The submodules among the names that a `from` takes out of a package. -/
def Sources.submodules (s : Sources) (ns : Namespace) (names : List ModuleName) : ImportTarget → List Loaded
  | .package places init =>
    (ns.wanted init names).flatMap fun name =>
      match s.find places name with
      | .package _ inner => inner.toList
      | .module file => [file]
      | .nothing => []
  | _ => []

/-- A module that Python imports: `direct` is a module on the way to the dotted name of an `import`
or of an absolute `from`. -/
structure Import where
  direct : Bool
  file : Loaded
  deriving DecidableEq

/-- The package of the module that a file is, under the longest directory of `sys.path` above it. -/
def packageOf (roots : List Dir) (path : PyStr) : List PyStr :=
  let dir := (path.splitOn slash).dropLast
  let above := roots.filter fun root => root.isPrefixOf dir
  dir.drop ((above.map List.length).foldl max 0)

/-- What Python loads for a statement of the file at `path`, `roots` being `sys.path`.  A relative name
is one below the package of the file, or below one of those around it. -/
def ImportNode.loads (s : Sources) (ns : Namespace) (roots : List Dir) (path : PyStr) :
    ImportNode → List Import
  | imports names => names.flatMap fun n => (s.load (roots.map (⟨·, []⟩)) n.parts).map (⟨true, ·⟩)
  | importFrom 0 (some module) names =>
    (s.load (roots.map (⟨·, []⟩)) module.parts).map (⟨true, ·⟩) ++
      (s.submodules ns names (s.target (roots.map (⟨·, []⟩)) module.parts)).map (⟨false, ·⟩)
  | importFrom 0 none _ => []
  | importFrom (up + 1) module names =>
    let package := packageOf roots path
    if package.length ≤ up then []
    else
      let name := package.take (package.length - up) ++ (module.map ModuleName.parts).getD []
      (s.load (roots.map (⟨·, []⟩)) name ++
        s.submodules ns names (s.target (roots.map (⟨·, []⟩)) name)).map (⟨false, ·⟩)
  | other _ => []

/-! ## Names and paths -/

theorem join_map (f : CodePoint → CodePoint) (sep : PyStr) (parts : List PyStr) :
    (join sep parts).map f = join (sep.map f) (parts.map (List.map f)) := by
  induction parts with
  | nil => rfl
  | cons part parts ih =>
    cases parts with
    | nil => rfl
    | cons next rest => simp only [join, List.map_append, ih, List.map_cons]

theorem ModuleName.join_parts (n : ModuleName) : join dot n.parts = n.text := by
  rw [join_eq_intercalate]
  exact List.intercalate_splitOn _

/-- The module of a plain file below the root of the repository. -/
theorem moduleName_path {sub : List PyStr} (hslash : ∀ part ∈ sub, slash ∉ part) :
    moduleName (Loaded.path ⟨⟨[], sub⟩, false⟩) = join dot sub := by
  have hpath : Loaded.path ⟨⟨[], sub⟩, false⟩ = join [slash] sub ++ pySuffix := by
    simp [Loaded.path]
  have hparts : sub.map (List.map fun c => if c = slash then codePoint 0x2E else c) = sub := by
    refine (List.map_congr_left fun part hpart => ?_).trans (List.map_id sub)
    refine (List.map_congr_left fun c hc => ?_).trans (List.map_id part)
    refine if_neg fun heq => hslash part hpart ?_
    rwa [heq] at hc
  have hsep : [slash].map (fun c => if c = slash then codePoint 0x2E else c) = dot := by decide
  simp only [moduleName]
  rw [hpath, if_pos (by simp), List.length_append, Nat.add_sub_cancel, List.take_left, join_map, hparts,
    hsep]

theorem ModuleName.slash_notMem (n : ModuleName) {part : PyStr} (h : part ∈ n.parts) : slash ∉ part := by
  intro hslash
  refine n.2.2 ?_
  rw [← ModuleName.text, ← n.join_parts]
  exact subset_join h hslash

theorem spells_prefix {n : ModuleName} {sub : List PyStr} (h : sub <+: n.parts) (hne : sub ≠ []) :
    spells n (join dot sub) := by
  obtain ⟨rest, hrest⟩ := h
  cases rest with
  | nil => simp [spells, ← n.join_parts, ← hrest]
  | cons part rest =>
    have htext : n.text = join dot sub ++ dot ++ join dot (part :: rest) := by
      rw [← join_append dot hne (by simp), hrest, n.join_parts]
    simp [spells, startsWith, htext]

/-! ## What the finder loads -/

section Finder

variable {s : Sources}

/-- What is found is the module `sub`, wherever its root is. -/
def ImportTarget.Names (sub : List PyStr) : ImportTarget → Prop
  | .package places init => (∀ p ∈ places, p.sub = sub) ∧ ∀ l ∈ init, l.place.sub = sub
  | .module file => file.place.sub = sub
  | .nothing => True

theorem names_findAt {place : Place} {found : ImportTarget} (h : s.findAt place = some found) :
    found.Names place.sub := by
  rw [Sources.findAt] at h
  split_ifs at h
  · cases h
    simp [ImportTarget.Names]
  · cases h
    rfl

theorem names_find {places : List Place} {sub : List PyStr} (hplaces : ∀ p ∈ places, p.sub = sub)
    (name : PyStr) : (s.find places name).Names (sub ++ [name]) := by
  have hunder : ∀ p ∈ places.map fun p => p.under name, p.sub = sub ++ [name] := by
    intro p hp
    obtain ⟨q, hq, rfl⟩ := List.mem_map.1 hp
    rw [Place.under, hplaces q hq]
  rw [Sources.find]
  split
  case h_1 found hfound =>
    obtain ⟨p, hp, hfind⟩ := List.exists_of_findSome?_eq_some hfound
    exact hunder p hp ▸ names_findAt hfind
  case h_2 =>
    split
    · trivial
    · rename_i p ps hdirs
      refine ⟨fun q hq => ?_, fun l hl => by cases hl⟩
      rw [← hdirs] at hq
      exact hunder q (List.mem_filter.1 hq).1

/-- Every file that is loaded for a dotted name is a module on the way to it. -/
theorem sub_of_load {places : List Place} {sub names : List PyStr}
    (hplaces : ∀ p ∈ places, p.sub = sub) {l : Loaded} (h : l ∈ s.load places names) :
    ∃ taken, taken ≠ [] ∧ taken <+: names ∧ l.place.sub = sub ++ taken := by
  induction names generalizing places sub with
  | nil => cases h
  | cons name rest ih =>
    have hfound := names_find (s := s) hplaces name
    have hhere : [name] <+: name :: rest := ⟨rest, rfl⟩
    rw [Sources.load] at h
    split at h
    case h_1 => cases h
    case h_2 file hfile =>
      rw [List.mem_singleton] at h
      rw [hfile] at hfound
      exact ⟨[name], by simp, hhere, h ▸ hfound⟩
    case h_3 inner init hpackage =>
      rw [hpackage] at hfound
      rcases List.mem_append.1 h with hinit | hinner
      · exact ⟨[name], by simp, hhere, hfound.2 l (Option.mem_toList.1 hinit)⟩
      · obtain ⟨taken, _, htaken, hsub⟩ := ih hfound.1 hinner
        refine ⟨name :: taken, by simp, List.cons_prefix_cons.2 ⟨rfl, htaken⟩, ?_⟩
        rw [hsub, List.append_assoc, List.singleton_append]

end Finder

/-! ## The edges -/

theorem get?_setAll_eq {κ α : Type} [DecidableEq κ] (d : Dict κ α) (items : List (κ × α)) (key : κ) :
    (d.setAll items).get? key =
      (((items.filter fun item => item.1 = key).getLast?).map Prod.snd).or (d.get? key) := by
  induction items generalizing d with
  | nil => rfl
  | cons item items ih =>
    rw [Dict.setAll, List.foldl_cons, ← Dict.setAll, ih, Dict.get?_set]
    by_cases hkey : item.1 = key
    · rw [List.filter_cons_of_pos (by simpa using hkey), List.getLast?_cons, if_pos hkey.symm]
      cases (items.filter fun item => item.1 = key).getLast? <;> rfl
    · rw [List.filter_cons_of_neg (by simpa using hkey), if_neg (Ne.symm hkey)]

variable {s : Sources}

def Sources.LastNamed (s : Sources) (path : PyStr) : Prop :=
  (s.texts.keys.filter fun p => moduleName p = moduleName path).getLast? = some path

theorem byModule_iff {module path : PyStr} :
    (module, path) ∈ s.byModule.items ↔ module = moduleName path ∧ s.LastNamed path := by
  rw [← Dict.get?_eq_some_iff, Sources.byModule, get?_setAll_eq, Dict.get?_empty, Option.or_none,
    List.filter_map, List.getLast?_map, Option.map_map, Option.map_eq_some_iff]
  constructor
  · rintro ⟨p, hlast, rfl⟩
    have hmem := List.mem_of_getLast? hlast
    have hname : moduleName p = module := by simpa using (List.mem_filter.1 hmem).2
    subst hname
    exact ⟨rfl, hlast⟩
  · rintro ⟨rfl, hlast⟩
    exact ⟨path, hlast, rfl⟩

theorem mem_edges {tree : ImportNode} {path : PyStr} :
    path ∈ s.edges tree ↔ s.LastNamed path ∧
      ∃ node, Python.Within ImportNode.children tree node ∧
        ∃ name ∈ node.names, spells name (moduleName path) := by
  have hwalk : ∀ node, node ∈ tree.walk ↔ Python.Within ImportNode.children tree node := by
    intro node
    have hfuel : weigh ImportNode.size [tree] ≤ tree.size := by simp [weigh]
    simpa [ImportNode.walk] using Python.mem_walk ImportNode.weigh_children hfuel (b := node)
  have htargets : ∀ name, path ∈ s.targets name ↔ s.LastNamed path ∧ spells name (moduleName path) := by
    intro name
    simp only [Sources.targets, List.mem_map, List.mem_filter, Prod.exists, byModule_iff]
    constructor
    · rintro ⟨module, p, ⟨⟨rfl, hlast⟩, hspells⟩, rfl⟩
      exact ⟨hlast, hspells⟩
    · rintro ⟨hlast, hspells⟩
      exact ⟨moduleName path, path, ⟨⟨rfl, hlast⟩, hspells⟩, rfl⟩
  simp only [Sources.edges, List.mem_toFinset, List.mem_flatMap, hwalk, htargets]
  constructor
  · rintro ⟨node, hnode, name, hname, hlast, hspells⟩
    exact ⟨hlast, node, hnode, name, hname, hspells⟩
  · rintro ⟨hlast, node, hnode, name, hname, hspells⟩
    exact ⟨node, hnode, name, hname, hlast, hspells⟩

theorem hasEdge_iff {graph : List (PyStr × Finset PyStr)} (hgraph : s.importGraph = .ok graph)
    {a b text : PyStr} {tree : ImportNode} (hmem : (a, text) ∈ s.texts.items)
    (hparse : s.parse text = .ok tree) : Graph.HasEdge graph a b ↔ b ∈ s.edges tree := by
  constructor
  · rintro ⟨edges, hnode, hb⟩
    obtain ⟨⟨a', text'⟩, hmem', hnode⟩ := (mem_mapM_ok hgraph).1 hnode
    have ha : a' = a := by
      rw [Sources.node] at hnode
      split at hnode <;> cases hnode <;> rfl
    subst ha
    have htext : text' = text := by
      have hget := Dict.get?_eq_some_iff.2 hmem'
      rw [Dict.get?_eq_some_iff.2 hmem] at hget
      exact (Option.some.inj hget).symm
    subst htext
    rw [Sources.node, hparse] at hnode
    cases hnode
    exact hb
  · intro hb
    exact ⟨s.edges tree, (mem_mapM_ok hgraph).2 ⟨(a, text), hmem, by rw [Sources.node, hparse]⟩, hb⟩

/-! ## When every import is an edge -/

/-- Python imports `i` for a statement of the file at `path`. -/
def Sources.Imports (s : Sources) (ns : Namespace) (roots : List Dir) (path : PyStr) (i : Import) : Prop :=
  ∃ text tree node, (path, text) ∈ s.texts.items ∧ s.parse text = .ok tree ∧
    Python.Within ImportNode.children tree node ∧ i ∈ node.loads s ns roots path

/-- The graph is there and has an edge for every import, and `affected` is what gets to the dirty files
along its edges. -/
def Sources.Traced (s : Sources) (ns : Namespace) (roots : List Dir) : Prop :=
  ∃ graph, s.importGraph = .ok graph ∧
    (∀ path i, s.Imports ns roots path i → Graph.HasEdge graph path i.file.path) ∧
    ∀ dirty path, path ∈ affected dirty graph ↔ Graph.Reaches graph dirty path

/-- A dotted name of some statement of the file, read from the root of the repository, is the module of
the target or one below it. -/
def Sources.Spelled (s : Sources) (path target : PyStr) : Prop :=
  ∃ text tree node, (path, text) ∈ s.texts.items ∧ s.parse text = .ok tree ∧
    Python.Within ImportNode.children tree node ∧ ∃ name ∈ node.names, spells name (moduleName target)

/-- A plain module that is on the way to the dotted name of an `import` or an absolute `from` and lies
below the root of the repository itself. -/
def Import.Plain (i : Import) : Prop := i.direct ∧ i.file.place.root = [] ∧ i.file.isInit = false

/-- No file is too deep to parse, and every import is a plain module or spelled by another statement,
under a module name that no later file has. -/
structure Sources.Plainly (s : Sources) (ns : Namespace) (roots : List Dir) : Prop where
  parses : ∀ item ∈ s.texts.items, s.parse item.2 ≠ .error .tooDeep
  last : ∀ path i, s.Imports ns roots path i → s.LastNamed i.file.path
  spelled : ∀ path i, s.Imports ns roots path i → i.Plain ∨ s.Spelled path i.file.path

theorem importGraph_ok_iff :
    (∃ graph, s.importGraph = .ok graph) ↔ ∀ item ∈ s.texts.items, s.parse item.2 ≠ .error .tooDeep := by
  rw [Sources.importGraph, exists_mapM_ok_iff]
  refine forall₂_congr fun item _ => ?_
  rw [Sources.node]
  rcases s.parse item.2 with (_ | _) | tree <;> simp

/-- A direct import comes from a dotted name that `import_graph` looks at. -/
theorem direct_loads {ns : Namespace} {roots : List Dir} {path : PyStr} {node : ImportNode} {l : Loaded}
    (h : ⟨true, l⟩ ∈ node.loads s ns roots path) :
    ∃ name ∈ node.names, l ∈ s.load (roots.map (⟨·, []⟩)) name.parts := by
  have hload : ∀ {loaded : List Loaded}, (⟨true, l⟩ : Import) ∈ loaded.map (⟨true, ·⟩) → l ∈ loaded := by
    intro loaded hmem
    obtain ⟨l', hl', heq⟩ := List.mem_map.1 hmem
    cases heq
    exact hl'
  have hnot : ∀ {loaded : List Loaded}, (⟨true, l⟩ : Import) ∉ loaded.map (⟨false, ·⟩) := by
    intro loaded hmem
    obtain ⟨l', _, heq⟩ := List.mem_map.1 hmem
    cases heq
  cases node with
  | other parts => cases h
  | imports names =>
    obtain ⟨name, hname, hmem⟩ := List.mem_flatMap.1 h
    exact ⟨name, hname, hload hmem⟩
  | importFrom level module names =>
    cases level with
    | zero =>
      cases module with
      | none => cases h
      | some module =>
        refine ⟨module, ?_, hload ((List.mem_append.1 h).resolve_right hnot)⟩
        have hne : module.text ≠ [] := module.2.1
        rw [ImportNode.names, if_neg hne]
        exact List.mem_singleton_self module
    | succ up =>
      simp only [ImportNode.loads] at h
      split_ifs at h
      · cases h
      · exact absurd h hnot

theorem spelled_of_plain {ns : Namespace} {roots : List Dir} {path : PyStr} {node : ImportNode}
    {i : Import}
    (hi : i ∈ node.loads s ns roots path) (hplain : i.Plain) :
    ∃ name ∈ node.names, spells name (moduleName i.file.path) := by
  obtain ⟨direct, ⟨⟨root, sub⟩, isInit⟩⟩ := i
  obtain ⟨rfl, rfl, rfl⟩ := hplain
  obtain ⟨name, hname, hload⟩ := direct_loads hi
  have htop : ∀ p ∈ roots.map fun root => (⟨root, []⟩ : Place), p.sub = [] := by simp
  obtain ⟨taken, hne, hstart, hsub⟩ := sub_of_load htop hload
  obtain rfl : sub = taken := hsub
  have hslash : ∀ part ∈ sub, slash ∉ part := fun part hpart => name.slash_notMem (hstart.subset hpart)
  exact ⟨name, hname, by rw [moduleName_path hslash]; exact spells_prefix hstart hne⟩

theorem traced_iff {ns : Namespace} {roots : List Dir} : s.Traced ns roots ↔ s.Plainly ns roots := by
  constructor
  · rintro ⟨graph, hgraph, hedges, -⟩
    have hedge : ∀ path i, s.Imports ns roots path i →
        s.LastNamed i.file.path ∧ s.Spelled path i.file.path := by
      intro path i hi
      have hhas := hedges path i hi
      obtain ⟨text, tree, node, hmem, hparse, hnode, hloads⟩ := hi
      obtain ⟨hlast, node', hnode', hspelled⟩ := mem_edges.1 ((hasEdge_iff hgraph hmem hparse).1 hhas)
      exact ⟨hlast, text, tree, node', hmem, hparse, hnode', hspelled⟩
    exact ⟨importGraph_ok_iff.1 ⟨graph, hgraph⟩, fun path i hi => (hedge path i hi).1,
      fun path i hi => .inr (hedge path i hi).2⟩
  · intro h
    obtain ⟨graph, hgraph⟩ := importGraph_ok_iff.2 h.parses
    refine ⟨graph, hgraph, fun path i hi => ?_, fun dirty path => Graph.mem_closure⟩
    have hlast := h.last path i hi
    rcases h.spelled path i hi with hplain | ⟨text, tree, node, hmem, hparse, hnode, hspelled⟩
    · obtain ⟨text, tree, node, hmem, hparse, hnode, hloads⟩ := hi
      refine (hasEdge_iff hgraph hmem hparse).2 (mem_edges.2 ⟨hlast, node, hnode, ?_⟩)
      exact spelled_of_plain hloads hplain
    · exact (hasEdge_iff hgraph hmem hparse).2 (mem_edges.2 ⟨hlast, node, hnode, hspelled⟩)

/-! ## A module of a package -/

/-- `from pkg import mod`. -/
def fromPackage : ImportNode :=
  .importFrom 0 (some ⟨lit "pkg", by decide⟩) [⟨lit "mod", by decide⟩]

/-- `pkg/__init__.py`, `pkg/mod.py` and a file that says `from pkg import mod`. -/
def packageUser : Sources where
  texts := ((Dict.empty.set (lit "pkg/__init__.py") []).set (lit "pkg/mod.py") (lit "X = 1")).set
    (lit "user.py") (lit "from pkg import mod")
  parse := fun text => .ok (.other (if text = lit "from pkg import mod" then [fromPackage] else []))

/-- The statement loads the module of the package, and there is no edge to it. -/
theorem package_not_traced : ¬packageUser.Traced ⟨fun _ _ => false, fun _ => []⟩ [[]] := by
  rintro ⟨graph, hgraph, hedges, -⟩
  have hmem : (lit "user.py", lit "from pkg import mod") ∈ packageUser.texts.items := by decide
  have hparse : packageUser.parse (lit "from pkg import mod") = .ok (.other [fromPackage]) := rfl
  have hnode : Python.Within ImportNode.children (.other [fromPackage]) fromPackage :=
    .single List.mem_cons_self
  have hloads : (⟨false, ⟨⟨[], [lit "pkg", lit "mod"]⟩, false⟩⟩ : Import) ∈
      fromPackage.loads packageUser ⟨fun _ _ => false, fun _ => []⟩ [[]] (lit "user.py") := by
    decide
  have hedge := hedges _ _ ⟨_, _, _, hmem, hparse, hnode, hloads⟩
  exact absurd ((hasEdge_iff hgraph hmem hparse).1 hedge) (by decide)

end Tempest
