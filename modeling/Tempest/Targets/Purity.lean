import Tempest.Process.CallScan
import Tempest.Targets.Symbols

/-!
# Purity — what the depth-limited scan for IO sees

`_scan` threads one `seen` set through its recursion, so a def that was met with no calls left is
not looked into again when it is met with one call left.  `scan_two` says exactly what is seen from
a def: its own nodes, the nodes of every def it calls, and the nodes of the defs called by those of
its callees that were not met before (`opened`).  `touches_io_sound_iff` compares this with the
chains of calls the classification stands for.
-/

namespace Tempest

open Python

section ModuleScope

variable (scope : ModuleScope)

def ModuleScope.mentionsIo (fn : Node) : Bool := fn.walk.any scope.isIo

/-- The module defs a def calls by name, in the order the calls are met. -/
def ModuleScope.callees (fn : Node) : List (PyStr × Node) := fn.walk.filterMap scope.callee

/-- The callees that are looked into themselves: those that no callee looked into before calls. -/
def ModuleScope.opened : List (PyStr × Node) → List PyStr → List Node
  | [], _ => []
  | (id, fn) :: rest, seen =>
    if id ∈ seen then ModuleScope.opened rest seen
    else fn :: ModuleScope.opened rest ((scope.callees fn).map Prod.fst ++ id :: seen)

/-- What `_scan` looks at from a def, two calls deep. -/
def ModuleScope.SeesIo (fn : Node) : Prop :=
  scope.mentionsIo fn = true ∨ (∃ p ∈ scope.callees fn, scope.mentionsIo p.2 = true) ∨
    ∃ g ∈ scope.opened (scope.callees fn) [], ∃ p ∈ scope.callees g, scope.mentionsIo p.2 = true

def Node.calledName : Node → Option PyStr
  | .call (.name id) _ => some id
  | _ => none

def ModuleScope.calls : CallGraph Node Node PyStr where
  nodes := Node.walk
  hit := scope.isIo
  called := Node.calledName
  function := scope.moduleDefs.get?

variable {scope}

theorem callee_eq (node : Node) : scope.callee node = scope.calls.callee node := by
  cases node with
  | call func args => cases func <;> rfl
  | _ => rfl

theorem callees_eq (fn : Node) : scope.callees fn = scope.calls.callees fn := by
  have hcallee : scope.callee = scope.calls.callee := funext callee_eq
  rw [ModuleScope.callees, hcallee]
  rfl

theorem opened_eq (callees : List (PyStr × Node)) (seen : List PyStr) :
    scope.opened callees seen = scope.calls.opened callees seen := by
  induction callees generalizing seen with
  | nil => rfl
  | cons p rest ih =>
    rw [ModuleScope.opened, CallGraph.opened, callees_eq]
    split
    · exact ih seen
    · rw [ih]

theorem seesIo_iff (fn : Node) : scope.SeesIo fn ↔ scope.calls.Sees fn := by
  simp only [ModuleScope.SeesIo, CallGraph.Sees, callees_eq, opened_eq]
  exact Iff.rfl

theorem scanNodes_eq (scan : Option (Node → List PyStr → Bool × List PyStr)) (nodes : List Node)
    (seen : List PyStr) : scanNodes scope scan nodes seen = scope.calls.scanNodes scan nodes seen := by
  induction nodes generalizing seen with
  | nil => rfl
  | cons node nodes ih =>
    have hhit : scope.calls.hit node = scope.isIo node := rfl
    cases hcallee : scope.calls.callee node with
    | none => simp [scanNodes, CallGraph.scanNodes, callee_eq, hcallee, hhit, ih]
    | some p =>
      cases scan with
      | none => simp [scanNodes, CallGraph.scanNodes, callee_eq, hcallee, hhit, ih]
      | some scan =>
        cases hfn : scan p.2 (p.1 :: seen) with
        | mk found seen' =>
          cases found <;>
            simp [scanNodes, CallGraph.scanNodes, callee_eq, hcallee, hhit, ih, hfn]

theorem scan_eq (depth : Nat) : scan scope depth = scope.calls.scan depth := by
  induction depth with
  | zero => exact funext fun fn => funext fun seen => scanNodes_eq none fn.walk seen
  | succ depth ih =>
    funext fn seen
    rw [scan, CallGraph.scan, ih]
    exact scanNodes_eq (some (scope.calls.scan depth)) fn.walk seen

theorem scan_two (fn : Node) : (scan scope 2 fn []).1 = true ↔ scope.SeesIo fn := by
  rw [scan_eq, seesIo_iff]
  exact CallGraph.scan_two fn

end ModuleScope

/-! ## Chains of calls -/

/-- A def at the level of the module: among its statements, or inside an `if`, a `try`, a loop or a
`with` there. -/
def levelChildren : Node → List Node
  | .functionDef .. | .classDef .. | .lambda _ => []
  | node => node.children

def ModuleDef (tree : Node) (id : PyStr) (fn : Node) : Prop :=
  Python.Within levelChildren tree fn ∧ fn.defName? = some id

def ImportsIo (tree : Node) (id : PyStr) : Prop :=
  ∃ node ∈ tree.walk, ∃ root, (id, root) ∈ node.imported ∧ root ∈ ioModules

/-- `global`, `nonlocal`, a name imported from an IO module, or an unshadowed IO builtin. -/
def IoNode (tree : Node) : Node → Prop
  | .scopeDecl => True
  | .name id => ImportsIo tree id ∨ id ∈ ioBuiltins ∧ ∀ fn, ¬ ModuleDef tree id fn
  | _ => False

def InBody (fn node : Node) : Prop := ∃ stmt ∈ fn.body, Python.Within Node.children stmt node

def BodyIo (tree fn : Node) : Prop := ∃ node, InBody fn node ∧ IoNode tree node

def BodyCalls (tree fn g : Node) : Prop :=
  ∃ id args, InBody fn (.call (.name id) args) ∧ ModuleDef tree id g

/-- Some chain of at most `depth` calls by name from the def ends in a body with IO. -/
def ChainToIo (tree : Node) (depth : Nat) (fn : Node) : Prop :=
  ReachesIn (BodyCalls tree) (BodyIo tree) depth fn

/-- The same, over the nodes and the calls the scan itself looks at. -/
def ScannedChain (scope : ModuleScope) (depth : Nat) (fn : Node) : Prop :=
  ReachesIn (fun f g => ∃ id, (id, g) ∈ scope.callees f) (fun f => scope.mentionsIo f = true)
    depth fn

/-- A chain to IO makes the def impure, and nothing else about the calls matters. -/
structure SoundlyClassified (tree fn : Node) (answer : Bool) : Prop where
  sound : ChainToIo tree 2 fn → answer = true
  orderFree : answer = true ↔ ScannedChain (scopeOf tree) 2 fn

theorem scannedChain_of_seesIo {scope : ModuleScope} {fn : Node} (h : scope.SeesIo fn) :
    ScannedChain scope 2 fn := by
  have hchain := CallGraph.chain_of_sees ((seesIo_iff fn).1 h)
  rw [ScannedChain]
  simp only [callees_eq]
  exact hchain

def callTo (name : PyStr) : Node := .other [.call (.name name) []]

/-- `def name(): …` on two lines. -/
def defAt (name : PyStr) (line : Nat) (body : List Node) : Node :=
  .functionDef ⟨false, name, line, line + 1, []⟩ [] body [] []

/-- `def d(): global n`, `def c(): d()`, `def a(): c()`, and `f` makes the given calls. -/
def globalModule (calls : List PyStr) : Node :=
  .other
    [defAt (lit "d") 1 [.scopeDecl], defAt (lit "c") 3 [callTo (lit "d")],
      defAt (lit "a") 5 [callTo (lit "c")], defAt (lit "f") 7 (calls.map callTo)]

def spanOfF : SymbolSpan where
  symbol := lit "f"
  span := (7, 8)
  nested := false
  isAsync := false
  isGenerator := false
  ownerClass := none
  isStatic := false
  isClassmethod := false

theorem inBody_call {name f : PyStr} {line : Nat} {calls : List PyStr} (h : name ∈ calls) :
    InBody (defAt f line (calls.map callTo)) (.call (.name name) []) :=
  ⟨callTo name, List.mem_map_of_mem h, Relation.ReflTransGen.single List.mem_cons_self⟩

theorem moduleDef_child {defs : List Node} {name : PyStr} {line : Nat} {body : List Node}
    (h : defAt name line body ∈ defs) : ModuleDef (.other defs) name (defAt name line body) :=
  ⟨Relation.ReflTransGen.single h, rfl⟩

end Tempest
