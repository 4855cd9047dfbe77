import Tempest.Model
import Tempest.Targets.Syntax

/-!
# Symbols — the defs of a module, the changed ones and their class (`targets/symbols.py`)

`collectDefs` lists the defs with their dotted names and spans.  `enclosingSymbols` picks for every
changed line the innermost def around it.  `touchesIo` walks a def and the defs it calls by name, at
most two calls deep, looking for the names and statements of `io_surface.py`.

The functions take the tree of the module; parsing is left to the caller.
-/

namespace Tempest

open Python

/-! ## Spans -/

structure SymbolSpan where
  symbol : PyStr
  span : Nat × Nat
  nested : Bool
  isAsync : Bool
  isGenerator : Bool
  ownerClass : Option PyStr
  isStatic : Bool
  isClassmethod : Bool
  deriving DecidableEq

/-- `_full_span`: decorators belong to the def. -/
def fullSpan (info : DefInfo) : Nat × Nat :=
  (info.decoratorLines.foldl min info.lineno, info.endLineno)

mutual

/-- `_is_generator`, on a node of the body: inner defs and lambdas yield for themselves. -/
def Node.hasYield : Node → Bool
  | .yields _ => true
  | .functionDef .. => false
  | .lambda _ => false
  | .classDef _ members => anyYield members
  | .dotted value _ => value.hasYield
  | .call func args => func.hasYield || anyYield args
  | .other parts => anyYield parts
  | _ => false

def anyYield : List Node → Bool
  | [] => false
  | node :: nodes => node.hasYield || anyYield nodes

end

def Node.decoName : Node → PyStr
  | .name id => id
  | .dotted _ attr => attr
  | _ => []

def dot : PyStr := lit "."

mutual

/-- `visit`, on one child. -/
def visitChild (namePath : List PyStr) (classCtx : Option PyStr) (fnDepth : Nat) :
    Node → List SymbolSpan
  | .classDef name members => visit (namePath ++ [name]) (some name) fnDepth members
  | .functionDef info args body decorators rest =>
    let path := namePath ++ [info.name]
    { symbol := join dot path
      span := fullSpan info
      nested := 0 < fnDepth
      isAsync := info.isAsync
      isGenerator := anyYield body
      ownerClass := classCtx
      isStatic := (decorators.map Node.decoName).contains (lit "staticmethod")
      isClassmethod := (decorators.map Node.decoName).contains (lit "classmethod") } ::
      (visit path none (fnDepth + 1) args ++ visit path none (fnDepth + 1) body ++
        visit path none (fnDepth + 1) decorators ++ visit path none (fnDepth + 1) rest)
  | .dotted value _ => visitChild namePath classCtx fnDepth value
  | .call func args =>
    visitChild namePath classCtx fnDepth func ++ visit namePath classCtx fnDepth args
  | .yields value => visit namePath classCtx fnDepth value
  | .lambda parts => visit namePath classCtx fnDepth parts
  | .other parts => visit namePath classCtx fnDepth parts
  | _ => []

def visit (namePath : List PyStr) (classCtx : Option PyStr) (fnDepth : Nat) :
    List Node → List SymbolSpan
  | [] => []
  | child :: nodes =>
    visitChild namePath classCtx fnDepth child ++ visit namePath classCtx fnDepth nodes

end

def collectDefs (tree : Node) : List SymbolSpan := visit [] none 0 tree.children

def allSymbolNames (tree : Node) : List PyStr := (collectDefs tree).map SymbolSpan.symbol

/-! ## Changed defs -/

def SymbolSpan.covers (s : SymbolSpan) (line : Nat) : Bool := s.span.1 ≤ line && line ≤ s.span.2

/-- The inner loop of `enclosing_symbols`: the last def around the line with the greatest start. -/
def innermost (line : Nat) : List SymbolSpan → Option SymbolSpan → Option SymbolSpan
  | [], best => best
  | s :: spans, best =>
    if s.covers line && best.all fun b => b.span.1 ≤ s.span.1 then innermost line spans (some s)
    else innermost line spans best

def choose (spans : List SymbolSpan) (chosen : Dict PyStr SymbolSpan) (line : Nat) :
    Dict PyStr SymbolSpan :=
  match innermost line spans none with
  | some best => chosen.set best.symbol best
  | none => chosen

def enclosingSymbols (tree : Node) (changedLines : Finset Nat) : List SymbolSpan :=
  let chosen := (changedLines.sort (· ≤ ·)).foldl (choose (collectDefs tree)) .empty
  (chosen.items.map Prod.snd).insertionSort fun a b => a.span.1 ≤ b.span.1

/-! ## IO -/

def ioModules : List PyStr :=
  ["os", "io", "sys", "time", "datetime", "random", "secrets", "uuid", "socket", "ssl", "select",
    "selectors", "http", "urllib", "requests", "httpx", "aiohttp", "subprocess", "shutil",
    "tempfile", "pathlib", "glob", "sqlite3", "threading", "multiprocessing", "asyncio", "logging",
    "signal"].map lit

def ioBuiltins : List PyStr := ["open", "input", "exec", "eval", "__import__"].map lit

/-- `name.split(".")[0]`. -/
def rootModule (name : PyStr) : PyStr := name.takeWhile fun c => c ≠ codePoint 0x2E

def Node.imported : Node → List (PyStr × PyStr)
  | .imports names => names.map fun a => (a.asname.getD (rootModule a.name), rootModule a.name)
  | .importFrom (some module) names =>
    names.map fun a => (a.asname.getD a.name, rootModule module)
  | _ => []

/-- What `_touches_io` collects of a module: `aliases` and `module_defs`. -/
structure ModuleScope where
  aliases : Dict PyStr PyStr
  moduleDefs : Dict PyStr Node

def Node.namedDef (node : Node) : Option (PyStr × Node) := node.defName?.map fun name => (name, node)

/-- `_import_aliases`, and the defs among the statements of the module. -/
def scopeOf (tree : Node) : ModuleScope where
  aliases := Dict.empty.setAll (tree.walk.flatMap Node.imported)
  moduleDefs := Dict.empty.setAll (tree.children.filterMap Node.namedDef)

def ModuleScope.isIo (scope : ModuleScope) : Node → Bool
  | .scopeDecl => true
  | .name id =>
    (scope.aliases.get? id).any ioModules.contains ||
      (ioBuiltins.contains id && !scope.moduleDefs.contains id)
  | _ => false

def ModuleScope.callee (scope : ModuleScope) : Node → Option (PyStr × Node)
  | .call (.name id) _ => (scope.moduleDefs.get? id).map fun fn => (id, fn)
  | _ => none

/-- The loop of `_scan`; `scan` is the recursive call, absent at depth 0. -/
def scanNodes (scope : ModuleScope) (scan : Option (Node → List PyStr → Bool × List PyStr)) :
    List Node → List PyStr → Bool × List PyStr
  | [], seen => (false, seen)
  | node :: nodes, seen =>
    if scope.isIo node then (true, seen)
    else
      match scope.callee node, scan with
      | some (id, fn), some scan =>
        if id ∈ seen then scanNodes scope (some scan) nodes seen
        else
          match scan fn (id :: seen) with
          | (true, seen) => (true, seen)
          | (false, seen) => scanNodes scope (some scan) nodes seen
      | _, scan => scanNodes scope scan nodes seen

def scan (scope : ModuleScope) : Nat → Node → List PyStr → Bool × List PyStr
  | 0 => fun fn => scanNodes scope none fn.walk
  | depth + 1 => fun fn => scanNodes scope (some (scan scope depth)) fn.walk

/-- `_find_def`: the first def with the span. -/
def findDef (tree : Node) (span : Nat × Nat) : Option Node :=
  tree.walk.find? fun
    | .functionDef info .. => fullSpan info = span
    | _ => false

def touchesIo (tree : Node) (sym : SymbolSpan) (depth : Nat) : Bool :=
  match findDef tree sym.span with
  | none => true
  | some fn => (scan (scopeOf tree) depth fn []).1

/-! ## Classification -/

structure ClassifiedSymbol where
  symbol : SymbolSpan
  classification : TargetClassification
  reasonCode : Option ReasonCode
  reasonDetail : Option PyStr

def unreachable (sym : SymbolSpan) (detail : PyStr) : ClassifiedSymbol :=
  ⟨sym, .unreachable, some .targetUnreachable, some detail⟩

def classifySymbol (tree : Node) (sym : SymbolSpan) : ClassifiedSymbol :=
  let quoted := lit "`" ++ sym.symbol ++ lit "`"
  if sym.nested then
    unreachable sym (quoted ++ lit " is a closure — it only exists inside its enclosing function and cannot be imported or invoked in isolation.")
  else if sym.isGenerator then
    unreachable sym (quoted ++ lit " is a generator; v1 compares concrete return values, not lazy iteration. Materialize it (e.g. a list-returning wrapper) to make it provable.")
  else
    match sym.ownerClass, sym.isStatic || sym.isClassmethod with
    | some owner, false =>
      unreachable sym (quoted ++ lit " is an instance method — invoking it requires constructing `" ++ owner ++ lit "()`. Tempest attempts that deterministically from the class's `__init__` (or its dataclass fields) and accepts the result only if it really runs; this message means that attempt was not made or did not survive execution. A @staticmethod or module-level function wrapping the logic is always provable.")
    | _, _ =>
      ⟨sym, if touchesIo tree sym 2 then .impureRecordable else .pureCandidate, none, none⟩

end Tempest
