import Tempest.Python.Walk
import Tempest.Python.Text

/-!
# Structure — the structural index (`index/structure.py`, `index/store.py`)

The tables are lists of rows.  `parseSymbols` lists the symbols of a parsed file with the calls in
them, `build` brings the tables up to date with the files that changed, and `resolveCalls` points a
call at the one symbol that has its name.
-/

namespace Tempest

open Python

/-! ## Syntax -/

abbrev Identifier := { name : PyStr // codePoint 0x2E ∉ name }

inductive DefKind where
  | function
  | asyncFunction
  | classDef
  deriving DecidableEq

/-- What the index reads of a syntax tree.  `args` is `ast.unparse(node.args)` and `doc` is
`ast.get_docstring(node) or ""`. -/
inductive IndexNode where
  | definition (kind : DefKind) (name : Identifier) (lineno endLineno : Nat)
      (decoratorLines : List Nat) (args doc : PyStr) (children : List IndexNode)
  | call (callee : Option Identifier) (lineno : Nat) (children : List IndexNode)
  | other (children : List IndexNode)

namespace IndexNode

/-- `ast.iter_child_nodes`. -/
def children : IndexNode → List IndexNode
  | definition _ _ _ _ _ _ _ children => children
  | call _ _ children => children
  | other children => children

mutual

def size : IndexNode → Nat
  | definition _ _ _ _ _ _ _ children => sizes children + 1
  | call _ _ children => sizes children + 1
  | other children => sizes children + 1

def sizes : List IndexNode → Nat
  | [] => 0
  | node :: nodes => node.size + sizes nodes

end

def walk (node : IndexNode) : List IndexNode := Python.walk children node.size [node]

theorem sizes_eq_weigh (nodes : List IndexNode) : sizes nodes = weigh size nodes := by
  induction nodes with
  | nil => rfl
  | cons node nodes ih => simp [sizes, weigh, ih]

theorem weigh_children (node : IndexNode) : weigh size node.children < node.size := by
  cases node <;> simp [children, size, sizes_eq_weigh]

theorem mem_walk {node descendant : IndexNode} :
    descendant ∈ node.walk ↔ Python.Within children node descendant := by
  have hmem : descendant ∈ Python.walk children node.size [node] ↔
      ∃ a ∈ [node], Python.Within children a descendant :=
    Python.mem_walk weigh_children (by simp [weigh])
  simpa [walk] using hmem

/-- One step of `calls_in`. -/
def calledName : IndexNode → Option (Identifier × Nat)
  | call (some callee) lineno _ => some (callee, lineno)
  | _ => none

def callsIn (node : IndexNode) : List (Identifier × Nat) := node.walk.filterMap calledName

end IndexNode

/-! ## Symbols -/

structure SymbolColumns where
  module : PyStr
  qualname : PyStr
  kind : PyStr
  lineStart : Nat
  lineEnd : Nat
  signature : PyStr
  doc : PyStr
  deriving DecidableEq

/-- `ParsedSymbol`, without its text. -/
structure ParsedSymbol extends SymbolColumns where
  calls : List (Identifier × Nat)

/-- `record`. -/
def recordSymbol (module qualname kind : PyStr) : IndexNode → Option ParsedSymbol
  | node@(.definition defKind _ lineno endLineno decoratorLines args doc _) => some
      { module := module
        qualname := qualname
        kind := kind
        lineStart := decoratorLines.foldl min lineno
        lineEnd := endLineno
        signature := if defKind = .classDef then [] else lit "(" ++ args ++ lit ")"
        doc := doc
        calls := node.callsIn }
  | _ => none

def methodSymbol (module className : PyStr) (member : IndexNode) : Option ParsedSymbol :=
  match member with
  | .definition .classDef _ _ _ _ _ _ _ => none
  | .definition _ name _ _ _ _ _ _ =>
    recordSymbol module (className ++ lit "." ++ name.val) (lit "method") member
  | _ => none

/-- The loop of `parse_symbols`, on one statement of the module. -/
def topSymbols (module : PyStr) (node : IndexNode) : List ParsedSymbol :=
  match node with
  | .definition .function name _ _ _ _ _ _ =>
    (recordSymbol module name.val (lit "function") node).toList
  | .definition .asyncFunction name _ _ _ _ _ _ =>
    (recordSymbol module name.val (lit "async function") node).toList
  | .definition .classDef name _ _ _ _ _ members =>
    (recordSymbol module name.val (lit "class") node).toList ++
      members.filterMap (methodSymbol module name.val)
  | _ => []

/-- `parse_symbols`; a syntax error leaves no symbols. -/
def parseSymbols (parse : PyStr → Option (List IndexNode)) (source module : PyStr) :
    List ParsedSymbol :=
  match parse source with
  | none => []
  | some tree => tree.flatMap (topSymbols module)

/-! ## Tables -/

structure FileRow where
  id : Nat
  path : PyStr
  digest : PyStr
  lines : Nat

structure SymbolRow extends SymbolColumns where
  id : Nat
  fileId : Nat

structure CallRow where
  callerId : Nat
  callee : Identifier
  calleeId : Option Nat
  line : Nat

/-- The tables of the index with their `AUTOINCREMENT` counters. -/
structure Index where
  files : List FileRow
  symbols : List SymbolRow
  calls : List CallRow
  fileSeq : Nat
  symbolSeq : Nat

def Index.empty : Index := ⟨[], [], [], 0, 0⟩

/-- Rows of `symbols` go, with the calls of theirs (`ON DELETE CASCADE`) and their ids in other calls
(`ON DELETE SET NULL`). -/
def Index.deleteSymbols (index : Index) (gone : SymbolRow → Bool) : Index :=
  let ids := (index.symbols.filter gone).map SymbolRow.id
  { index with
    symbols := index.symbols.filter fun s => !gone s
    calls := (index.calls.filter fun c => c.callerId ∉ ids).map fun c =>
      { c with calleeId := c.calleeId.filter fun id => id ∉ ids } }

/-- `DELETE FROM files WHERE id = ?`. -/
def Index.deleteFile (index : Index) (id : Nat) : Index :=
  { index.deleteSymbols fun s => s.fileId = id with
    files := index.files.filter fun f => f.id ≠ id }

/-- `INSERT INTO files`. -/
def Index.insertFile (index : Index) (path digest : PyStr) (lines : Nat) : Index :=
  { index with
    files := index.files ++ [⟨index.fileSeq + 1, path, digest, lines⟩]
    fileSeq := index.fileSeq + 1 }

/-- The `UNIQUE` columns of `symbols`. -/
def SymbolColumns.key (s : SymbolColumns) : PyStr × PyStr := (s.module, s.qualname)

/-- `INSERT OR REPLACE INTO symbols`, and `INSERT INTO calls` for its calls. -/
def Index.insertSymbol (fileId : Nat) (index : Index) (parsed : ParsedSymbol) : Index :=
  let index := index.deleteSymbols fun s => s.key = parsed.key
  let id := index.symbolSeq + 1
  { index with
    symbols := index.symbols ++ [⟨parsed.toSymbolColumns, id, fileId⟩]
    calls := index.calls ++ parsed.calls.map fun c => ⟨id, c.1, none, c.2⟩
    symbolSeq := id }

/-! ## Resolving -/

/-- The one symbol with a qualified name: `GROUP BY qualname HAVING COUNT(*) = 1`. -/
def uniqueId (symbols : List SymbolRow) (name : PyStr) : Option Nat :=
  match symbols.filter fun s => s.qualname = name with
  | [s] => some s.id
  | _ => none

/-- `resolve_calls`, with the number of the calls it resolved. -/
def resolveCalls (index : Index) : Index × Nat :=
  let calls := index.calls.map fun c =>
    { c with calleeId := uniqueId index.symbols c.callee.val }
  ({ index with calls := calls }, (calls.filter fun c => c.calleeId.isSome).length)

/-! ## Building -/

/-- A repository at one time: its Python files in the order of their paths, each with its text or
unreadable, what the configuration ignores and the module it gives a path. -/
structure Snapshot where
  entries : List (PyStr × Option PyStr)
  distinct : (entries.map Prod.fst).Nodup
  ignored : PyStr → Bool
  moduleForPath : PyStr → PyStr

/-- `part in {".git", ".tempest", "__pycache__"}`, for a part of the path. -/
def isInternal (path : PyStr) : Bool :=
  (path.splitOn (codePoint 0x2F)).any fun part =>
    part ∈ [lit ".git", lit ".tempest", lit "__pycache__"]

def Snapshot.pythonFiles (snap : Snapshot) : List (PyStr × Option PyStr) :=
  snap.entries.filter fun e => !snap.ignored e.1 && !isInternal e.1

structure IndexStats where
  filesSeen : Nat
  filesReparsed : Nat
  symbols : Nat
  calls : Nat
  unreadable : List PyStr

/-- What the loop of `build` carries. -/
structure BuildState where
  index : Index
  reparsed : Nat
  symbols : Nat
  calls : Nat
  unreadable : List PyStr

/-- What `build` takes from outside: the parser and the digest of a text. -/
structure IndexTools where
  parse : PyStr → Option (List IndexNode)
  digestOf : PyStr → PyStr

/-- `source.count("\n") + 1`. -/
def lineCount (source : PyStr) : Nat := source.count lineFeed + 1

def reparse (tools : IndexTools) (module path source : PyStr) (existing : Option FileRow)
    (index : Index) : Index :=
  let cleared := match existing with
    | some row => index.deleteFile row.id
    | none => index
  let inserted := cleared.insertFile path (tools.digestOf source) (lineCount source)
  (parseSymbols tools.parse source module).foldl (Index.insertSymbol inserted.fileSeq) inserted

/-- The loop of `build` on one file. -/
def buildFile (tools : IndexTools) (known : List FileRow) (snap : Snapshot) (state : BuildState)
    (entry : PyStr × Option PyStr) : BuildState :=
  match entry with
  | (path, none) => { state with unreadable := state.unreadable ++ [path] }
  | (path, some source) =>
    let existing := known.find? fun f => f.path = path
    if existing.any fun f => f.digest = tools.digestOf source then state
    else
      let parsed := parseSymbols tools.parse source (snap.moduleForPath path)
      { state with
        index := reparse tools (snap.moduleForPath path) path source existing state.index
        reparsed := state.reparsed + 1
        symbols := state.symbols + parsed.length
        calls := state.calls + (parsed.map fun s => s.calls.length).sum }

def build (tools : IndexTools) (index : Index) (snap : Snapshot) : Index × IndexStats :=
  let files := snap.pythonFiles
  let state := files.foldl (buildFile tools index.files snap) ⟨index, 0, 0, 0, []⟩
  let gone := index.files.filter fun f => f.path ∉ files.map Prod.fst
  let cleaned := gone.foldl (fun index f => index.deleteFile f.id) state.index
  ((resolveCalls cleaned).1,
    ⟨files.length, state.reparsed, state.symbols, state.calls, state.unreadable⟩)

end Tempest
