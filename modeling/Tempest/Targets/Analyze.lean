import Tempest.Model
import Tempest.Process.CallScan
import Tempest.Python.Dict
import Tempest.Targets.TsSyntax

/-!
# Analyze — the functions of a TypeScript file, the changed ones and their class (`analyze.ts`)

`collectSymbols` lists the named functions of a file.  `enclosingSymbols` picks one for every changed
line.  `touchesIo` walks a function and the functions it calls by name, at most two calls deep.
`selectTargets` puts them together; which declarations the file exports is the compiler's answer.
-/

namespace Tempest

open Python

namespace Analyze

/-! ## The functions of a file -/

inductive SymbolKind where
  | function
  | arrowConst
  | functionExpressionConst
  | method
  | staticMethod
  | constructor
  | getAccessor
  | setAccessor
  deriving DecidableEq

def SymbolKind.text : SymbolKind → PyStr
  | function => lit "function"
  | arrowConst => lit "arrowConst"
  | functionExpressionConst => lit "functionExpressionConst"
  | method => lit "method"
  | staticMethod => lit "staticMethod"
  | constructor => lit "constructor"
  | getAccessor => lit "getAccessor"
  | setAccessor => lit "setAccessor"

/-- A named function of a file, with the node above it. -/
structure CollectedSymbol where
  node : TsNode
  parent : TsNode
  symbol : PyStr
  kind : SymbolKind
  span : Nat × Nat
  startOffset : Nat
  nested : Bool
  isAsync : Bool
  isGenerator : Bool
  ownerClass : Option TsNode
  isStatic : Bool

def kindOf : FunctionForm → SymbolKind
  | .declaration => .function
  | .arrow => .arrowConst
  | .expression => .functionExpressionConst
  | .constructor => .constructor
  | .getAccessor => .getAccessor
  | .setAccessor => .setAccessor
  | .method isStatic => if isStatic then .staticMethod else .method

def hasBody (info : FunctionInfo) : Bool := info.form = .arrow || info.hasBody

def isVariableDeclaration (n : TsNode) : Bool := n.kind = .variableDeclaration

/-- What a function adds to the paths of the names below it; an anonymous one adds nothing. -/
def nameComponentOf (info : FunctionInfo) (parent : TsNode) : Option PyStr :=
  match info.form with
  | .declaration => some (info.name.getD (lit "default"))
  | .constructor => some (lit "constructor")
  | .method _ | .getAccessor | .setAccessor => info.name
  | .arrow | .expression => if isVariableDeclaration parent then parent.identifierAt .name else none

/-- `spanOf`: a function bound by a variable statement begins with the statement. -/
def spanOf (info : FunctionInfo) (parent : TsNode) (statement : Option (Nat × Nat)) : Nat × Nat :=
  match info.form with
  | .arrow | .expression =>
    if isVariableDeclaration parent then statement.getD info.lines else info.lines
  | _ => info.lines

def isClassDeclaration : TsNode → Bool
  | .node _ (.classDeclaration _) _ => true
  | _ => false

def ownerClassOf (info : FunctionInfo) (parent : TsNode) : Option TsNode :=
  match info.form with
  | .method _ | .constructor | .getAccessor | .setAccessor =>
    if isClassDeclaration parent then some parent else none
  | _ => none

def classNameOf : TsNode → PyStr
  | .node _ (.classDeclaration name) _ => name.getD (lit "default")
  | _ => lit "default"

def collectedOf (path : List PyStr) (nested : Bool) (statement : Option (Nat × Nat)) (parent : TsNode)
    (node : TsNode) (info : FunctionInfo) : List CollectedSymbol :=
  match nameComponentOf info parent with
  | none => []
  | some ownName =>
    if hasBody info then
      [{ node
         parent
         symbol := join (lit ".") (path ++ [ownName])
         kind := kindOf info.form
         span := spanOf info parent statement
         startOffset := info.start
         nested
         isAsync := info.isAsync
         isGenerator := info.isGenerator
         ownerClass := ownerClassOf info parent
         isStatic := info.form = .method true }]
    else []

mutual

/-- A node below the ancestors with these names: its own entry, and those below it. -/
def collectNode (path : List PyStr) (nested : Bool) (statement : Option (Nat × Nat))
    (parent : TsNode) : TsNode → List CollectedSymbol
  | .node role kind children =>
    let node := TsNode.node role kind children
    match kind with
    | .functionLike info =>
      collectedOf path nested statement parent node info ++
        collectAll (path ++ (nameComponentOf info parent).toList) true none node children
    | .classDeclaration name =>
      collectAll (path ++ [name.getD (lit "default")]) nested none node children
    | .variableDeclarationList _ lines => collectAll path nested lines node children
    | .variableDeclaration => collectAll path nested statement node children
    | _ => collectAll path nested none node children

def collectAll (path : List PyStr) (nested : Bool) (statement : Option (Nat × Nat))
    (parent : TsNode) : List TsNode → List CollectedSymbol
  | [] => []
  | child :: children =>
    collectNode path nested statement parent child ++
      collectAll path nested statement parent children

end

def collectSymbols (sourceFile : TsNode) : List CollectedSymbol :=
  collectAll [] false none sourceFile sourceFile.children

/-! ## The changed functions -/

def CollectedSymbol.covers (s : CollectedSymbol) (line : Nat) : Bool :=
  s.span.1 ≤ line && line ≤ s.span.2

/-- The inner loop of `enclosingSymbols`: the last of those around the line that start last. -/
def innermost (line : Nat) : List CollectedSymbol → Option CollectedSymbol → Option CollectedSymbol
  | [], best => best
  | s :: symbols, best =>
    if s.covers line && best.all fun b => b.startOffset ≤ s.startOffset then
      innermost line symbols (some s)
    else innermost line symbols best

def choose (symbols : List CollectedSymbol) (chosen : Dict PyStr CollectedSymbol) (line : Nat) :
    Dict PyStr CollectedSymbol :=
  match innermost line symbols none with
  | some best => chosen.set best.symbol best
  | none => chosen

/-- `a` is not after `b` in the order of the result. -/
def startsBefore (a b : CollectedSymbol) : Prop :=
  a.span.1 < b.span.1 ∨ a.span.1 = b.span.1 ∧ a.startOffset ≤ b.startOffset

instance (a b : CollectedSymbol) : Decidable (startsBefore a b) := by
  unfold startsBefore
  infer_instance

def enclosingSymbols (symbols : List CollectedSymbol) (changedLines : List Nat) :
    List CollectedSymbol :=
  let chosen := (changedLines.insertionSort (· ≤ ·)).foldl (choose symbols) .empty
  (chosen.items.map Prod.snd).insertionSort startsBefore

/-! ## The scan for IO -/

def ioModules : List PyStr := ["fs", "http", "https", "net", "child_process"].map lit

def ioGlobals : List PyStr :=
  ["setTimeout", "setInterval", "fetch", "XMLHttpRequest", "WebSocket"].map lit

def cryptoRandom (imported : PyStr) : Bool :=
  (lit "random").isPrefixOf imported || (lit "getRandomValues").isPrefixOf imported

def calleeScanDepth : Nat := 2

/-- The module a name comes from, and the name it has there, `*` or `default`. -/
structure ImportedBinding where
  root : PyStr
  imported : PyStr
  deriving DecidableEq

structure ScanContext where
  aliases : Dict PyStr ImportedBinding
  moduleFunctions : Dict PyStr TsNode

def rootModule (specifier : PyStr) : PyStr :=
  let bare := if (lit "node:").isPrefixOf specifier then specifier.drop 5 else specifier
  bare.takeWhile fun c => c ≠ codePoint 0x2F

def importAliases : TsNode → List (PyStr × ImportedBinding)
  | .node _ (.importDeclaration specifier defaultImport namespaceImport namedImports) _ =>
    let root := rootModule specifier
    (defaultImport.map fun name => (name, ⟨root, lit "default"⟩)).toList ++
      (namespaceImport.map fun name => (name, ⟨root, lit "*"⟩)).toList ++
        namedImports.map fun (imported, aliased) => (aliased.getD imported, ⟨root, imported⟩)
  | _ => []

/-- An element of a destructured `require`; the text of a nested pattern is no name. -/
def elementAlias (root : PyStr) : TsNode → Option (PyStr × ImportedBinding)
  | n@(.node _ (.bindingElement propertyName) _) =>
    (n.identifierAt .name).map fun name => (name, ⟨root, propertyName.getD name⟩)
  | _ => none

def declarationAliases (declaration : TsNode) : List (PyStr × ImportedBinding) :=
  match (declaration.child? .initializer).bind TsNode.required with
  | none => []
  | some specifier =>
    match declaration.child? .name with
    | some (.node _ (.identifier name) _) => [(name, ⟨rootModule specifier, lit "*"⟩)]
    | some (.node _ .objectPattern elements) =>
      elements.filterMap (elementAlias (rootModule specifier))
    | _ => []

/-- `collectRequireAliases`, on one statement of the file. -/
def requireAliases : TsNode → List (PyStr × ImportedBinding)
  | .node _ (.variableDeclarationList _ (some _)) declarations =>
    (declarations.filter isVariableDeclaration).flatMap declarationAliases
  | _ => []

def buildScanContext (sourceFile : TsNode) (symbols : List CollectedSymbol) : ScanContext where
  aliases := Dict.empty.setAll
    (sourceFile.children.flatMap importAliases ++ sourceFile.children.flatMap requireAliases)
  moduleFunctions := Dict.empty.setAll
    ((symbols.filter fun s => !s.nested && s.ownerClass.isNone).map fun s => (s.symbol, s.node))

def referencesIoSurface (context : ScanContext) : TsNode → Bool
  | .node role (.identifier text) _ =>
    if role = .member then false
    else
      ((context.aliases.get? text).any fun binding =>
          ioModules.contains binding.root ||
            binding.root = lit "crypto" && cryptoRandom binding.imported) ||
        ioGlobals.contains text && !context.moduleFunctions.contains text
  | n@(.node _ .propertyAccess _) =>
    match n.identifierAt .expression with
    | none => false
    | some objectName =>
      let root := ((context.aliases.get? objectName).map ImportedBinding.root).getD objectName
      root = lit "process" && n.identifierAt .member = some (lit "env")
  | n@(.node _ .call _) => n.required.any fun specifier => ioModules.contains (rootModule specifier)
  | _ => false

def calleeName : TsNode → Option PyStr
  | n@(.node _ .call _) => n.identifierAt .expression
  | _ => none

/-- `callsIoCallee`; `touchesIo` is the recursive call. -/
def callsIoCallee (context : ScanContext) (touchesIo : TsNode → List PyStr → Bool × List PyStr)
    (node : TsNode) (seen : List PyStr) : Bool × List PyStr :=
  match calleeName node with
  | none => (false, seen)
  | some name =>
    match context.moduleFunctions.get? name with
    | none => (false, seen)
    | some target => if name ∈ seen then (false, seen) else touchesIo target (name :: seen)

/-- The loop of `touchesIo` over the nodes of a function. -/
def touchesNodes (context : ScanContext) (callee : TsNode → List PyStr → Bool × List PyStr) :
    List TsNode → List PyStr → Bool × List PyStr
  | [], seen => (false, seen)
  | node :: nodes, seen =>
    if referencesIoSurface context node then (true, seen)
    else
      match callee node seen with
      | (true, seen) => (true, seen)
      | (false, seen) => touchesNodes context callee nodes seen

def touchesIo (context : ScanContext) : Nat → TsNode → List PyStr → Bool × List PyStr
  | 0 => fun fn => touchesNodes context (fun _ seen => (false, seen)) fn.descendants
  | depth + 1 => fun fn =>
    touchesNodes context (callsIoCallee context (touchesIo context depth)) fn.descendants

/-! ## Classification -/

structure SelectedTarget where
  symbol : PyStr
  filePath : PyStr
  span : Nat × Nat
  exported : Bool
  kind : SymbolKind
  isAsync : Bool
  isGenerator : Bool
  classification : TargetClassification
  reasonDetail : Option PyStr
  deriving DecidableEq

def CollectedSymbol.declaration (s : CollectedSymbol) : TsNode :=
  match s.ownerClass with
  | some ownerClass => ownerClass
  | none =>
    match s.kind with
    | .arrowConst | .functionExpressionConst => s.parent
    | _ => s.node

def isExportedSymbol (s : CollectedSymbol) (exportedNodes : TsNode → Bool) : Bool :=
  !s.nested && exportedNodes s.declaration

def quoted (name : PyStr) : PyStr := lit "`" ++ name ++ lit "`"

def noInstances (className : PyStr) : PyStr :=
  lit "invoking it requires constructing " ++ quoted className ++
    lit ", and v1 does not synthesize instances. A static method or module-level function wrapping the logic is provable."

/-- Why a function cannot be called from outside, in the order of the checks. -/
def unreachableReason (s : CollectedSymbol) (exported : Bool) : Option PyStr :=
  let className := (s.ownerClass.map classNameOf).getD (lit "default")
  if s.nested then
    some (quoted s.symbol ++ lit " is a closure — it only exists inside its enclosing function and cannot be imported or invoked in isolation.")
  else if s.isGenerator then
    some (quoted s.symbol ++ lit " is a generator; v1 compares concrete return values, not lazy iteration. Materialize it (e.g. an array-returning wrapper) to make it provable.")
  else if s.kind = .constructor then
    some (quoted s.symbol ++ lit " is a constructor — v1 does not synthesize instances. Move the logic into a static method or module-level function to make it provable.")
  else if s.kind = .getAccessor || s.kind = .setAccessor then
    some (quoted s.symbol ++ lit " is a property accessor — " ++ noInstances className)
  else if s.kind = .method then
    some (quoted s.symbol ++ lit " is an instance method — " ++ noInstances className)
  else if !exported then
    some (quoted s.symbol ++ lit " is not exported; cannot be imported in isolation. Export it (or an exported wrapper around it) to make it provable.")
  else none

def classifySymbol (s : CollectedSymbol) (filePath : PyStr) (exportedNodes : TsNode → Bool)
    (context : ScanContext) : SelectedTarget :=
  let exported := isExportedSymbol s exportedNodes
  let reason := unreachableReason s exported
  { symbol := s.symbol
    filePath
    span := s.span
    exported
    kind := s.kind
    isAsync := s.isAsync
    isGenerator := s.isGenerator
    classification :=
      if reason.isSome then .unreachable
      else if (touchesIo context calleeScanDepth s.node []).1 then .impureRecordable
      else .pureCandidate
    reasonDetail := reason }

/-- `selectTargets`, on one file of the project. -/
def selectFile (sourceFile : TsNode) (filePath : PyStr) (exportedNodes : TsNode → Bool)
    (changedLines : List Nat) : List SelectedTarget :=
  let symbols := collectSymbols sourceFile
  let context := buildScanContext sourceFile symbols
  (enclosingSymbols symbols changedLines).map fun s =>
    classifySymbol s filePath exportedNodes context

end Analyze

end Tempest
