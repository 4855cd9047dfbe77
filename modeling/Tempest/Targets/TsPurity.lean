import Tempest.Targets.TsScope

/-!
# TsPurity — what the scan of a TypeScript function sees

The scan reads names through one table of functions and one of imports, and it goes into every name
once.  `touchesIo_two` says what it sees with the two tables.  `purity_iff` compares that with the
chains of calls to IO that lexical scoping gives (`TsScope.ChainToIo`), and with the chains over a
table that has no methods of object literals and class expressions in it.
-/

namespace Tempest

open Python

namespace Analyze

def ScanContext.calls (context : ScanContext) : CallGraph TsNode TsNode PyStr where
  nodes := TsNode.descendants
  hit := referencesIoSurface context
  called := calleeName
  function := context.moduleFunctions.get?

section Scan

variable {context : ScanContext}

theorem callsIoCallee_of_none {touch : TsNode → List PyStr → Bool × List PyStr} {node : TsNode}
    (h : context.calls.callee node = none) (seen : List PyStr) :
    callsIoCallee context touch node seen = (false, seen) := by
  rw [CallGraph.callee, Option.bind_eq_none_iff] at h
  unfold callsIoCallee
  cases hname : calleeName node with
  | none => rfl
  | some name =>
    have hget : context.moduleFunctions.get? name = none := Option.map_eq_none_iff.1 (h name hname)
    simp only [hget]

theorem callsIoCallee_of_some (touch : TsNode → List PyStr → Bool × List PyStr) {node fn : TsNode}
    {name : PyStr} (h : context.calls.callee node = some (name, fn)) (seen : List PyStr) :
    callsIoCallee context touch node seen =
      if name ∈ seen then (false, seen) else touch fn (name :: seen) := by
  obtain ⟨hname, hget⟩ := CallGraph.callee_eq_some.1 h
  have hname' : calleeName node = some name := hname
  have hget' : context.moduleFunctions.get? name = some fn := hget
  simp only [callsIoCallee, hname', hget']

theorem touchesNodes_eq (touch : TsNode → List PyStr → Bool × List PyStr) (nodes : List TsNode)
    (seen : List PyStr) :
    touchesNodes context (callsIoCallee context touch) nodes seen =
      context.calls.scanNodes (some touch) nodes seen := by
  induction nodes generalizing seen with
  | nil => rfl
  | cons node nodes ih =>
    rw [CallGraph.scanNodes_cons]
    have hsame : context.calls.hit node = referencesIoSurface context node := rfl
    rw [hsame]
    cases hhit : referencesIoSurface context node with
    | true => simp [touchesNodes, hhit]
    | false =>
      cases hcallee : context.calls.callee node with
      | none => simp [touchesNodes, hhit, callsIoCallee_of_none hcallee, ih]
      | some p =>
        obtain ⟨name, fn⟩ := p
        have hcalls := callsIoCallee_of_some touch hcallee seen
        by_cases hseen : name ∈ seen
        · simp [touchesNodes, hhit, hcalls, hseen, ih]
        · cases hfn : touch fn (name :: seen) with
          | mk found seen' =>
            cases found <;> simp [touchesNodes, hhit, hcalls, hseen, hfn, ih]

theorem touchesNodes_none (nodes : List TsNode) (seen : List PyStr) :
    touchesNodes context (fun _ seen => (false, seen)) nodes seen =
      context.calls.scanNodes none nodes seen := by
  rw [CallGraph.scanNodes_none]
  induction nodes with
  | nil => rfl
  | cons node nodes ih =>
    have hsame : context.calls.hit node = referencesIoSurface context node := rfl
    cases hhit : referencesIoSurface context node <;> simp [touchesNodes, hsame, hhit, ih]

theorem touchesIo_eq (depth : Nat) : touchesIo context depth = context.calls.scan depth := by
  induction depth with
  | zero => exact funext fun fn => funext fun seen => touchesNodes_none fn.descendants seen
  | succ depth ih =>
    funext fn seen
    rw [touchesIo, CallGraph.scan, ih]
    exact touchesNodes_eq (context.calls.scan depth) fn.descendants seen

theorem touchesIo_two (fn : TsNode) :
    (touchesIo context calleeScanDepth fn []).1 = true ↔ context.calls.Sees fn := by
  rw [calleeScanDepth, touchesIo_eq]
  exact CallGraph.scan_two fn

end Scan

/-! ## Exported functions of a module -/

/-- Functions as declarations and as values of variables, no members of anything. -/
def plainKinds : List SymbolKind := [.function, .arrowConst, .functionExpressionConst]

structure ExportedFunction (sourceFile : TsNode) (exportedNodes : TsNode → Bool) where
  symbol : CollectedSymbol
  collected : symbol ∈ collectSymbols sourceFile
  plain : symbol.kind ∈ plainKinds
  top : symbol.nested = false
  declared : symbol.node ∈ sourceFile.children ∨
    ∃ name, (name, TsScope.Binding.function symbol.node) ∈ TsScope.moduleBindings sourceFile
  exported : exportedNodes symbol.declaration = true

variable {sourceFile : TsNode} {exportedNodes : TsNode → Bool}

def contextOf (sourceFile : TsNode) : ScanContext :=
  buildScanContext sourceFile (collectSymbols sourceFile)

/-- The tables without the methods of object literals and class expressions. -/
def plainContextOf (sourceFile : TsNode) : ScanContext :=
  buildScanContext sourceFile ((collectSymbols sourceFile).filter fun s => s.kind ∈ plainKinds)

def ExportedFunction.classification (f : ExportedFunction sourceFile exportedNodes)
    (filePath : PyStr) : TargetClassification :=
  (classifySymbol f.symbol filePath exportedNodes (contextOf sourceFile)).classification

/-- A chain to IO makes the function impure.  Methods with the name of a function or a global, and the
order of the calls, do not matter: what counts is that there is a chain, over the table without them. -/
structure SoundlyScanned (f : ExportedFunction sourceFile exportedNodes) (filePath : PyStr) :
    Prop where
  sound : TsScope.ChainToIo sourceFile calleeScanDepth f.symbol.node →
    f.classification filePath = .impureRecordable
  unaffected : f.classification filePath = .impureRecordable ↔
    f.symbol.isGenerator = false ∧
      (plainContextOf sourceFile).calls.Chain calleeScanDepth f.symbol.node

structure SeesTheChains (f : ExportedFunction sourceFile exportedNodes) : Prop where
  noGenerator : TsScope.ChainToIo sourceFile calleeScanDepth f.symbol.node →
    f.symbol.isGenerator = false
  chains : f.symbol.isGenerator = false →
    TsScope.ChainToIo sourceFile calleeScanDepth f.symbol.node →
      (contextOf sourceFile).calls.Sees f.symbol.node
  plain : f.symbol.isGenerator = false →
    ((contextOf sourceFile).calls.Sees f.symbol.node ↔
      (plainContextOf sourceFile).calls.Chain calleeScanDepth f.symbol.node)

/-- Of the checks before the scan, only the one for generators can turn the function down. -/
theorem ExportedFunction.unreachableReason_eq_none_iff
    (f : ExportedFunction sourceFile exportedNodes) :
    unreachableReason f.symbol (isExportedSymbol f.symbol exportedNodes) = none ↔
      f.symbol.isGenerator = false := by
  have hexported : isExportedSymbol f.symbol exportedNodes = true := by
    simp [isExportedSymbol, f.top, f.exported]
  have hplain := f.plain
  unfold unreachableReason
  rw [f.top, hexported]
  cases hgenerator : f.symbol.isGenerator with
  | true => simp
  | false =>
    refine iff_of_true ?_ rfl
    cases hkind : f.symbol.kind <;> simp [plainKinds, hkind] at hplain ⊢

theorem ExportedFunction.classification_eq_iff (f : ExportedFunction sourceFile exportedNodes)
    (filePath : PyStr) :
    f.classification filePath = .impureRecordable ↔
      f.symbol.isGenerator = false ∧ (contextOf sourceFile).calls.Sees f.symbol.node := by
  rw [← f.unreachableReason_eq_none_iff, ← touchesIo_two]
  simp only [ExportedFunction.classification, classifySymbol]
  cases hreason : unreachableReason f.symbol (isExportedSymbol f.symbol exportedNodes) with
  | some reason => simp
  | none =>
    cases hio : (touchesIo (contextOf sourceFile) calleeScanDepth f.symbol.node []).1 <;> simp

/-- `fetch() { return 1; }` in an object literal. -/
def fetchMethod : TsNode :=
  .node .part (.functionLike ⟨.method false, some (lit "fetch"), false, false, true, 14, (1, 1)⟩)
    [.node .name (.identifier (lit "fetch")) [], .node .body .block [.node .part .other []]]

/-- `const api = { fetch() { return 1; } };` -/
def apiStatement : TsNode :=
  .node .part (.variableDeclarationList false (some (1, 1)))
    [.node .part .variableDeclaration
      [.node .name (.identifier (lit "api")) [], .node .initializer .other [fetchMethod]]]

/-- `export function load(url) { return fetch(url); }` -/
def loadNode : TsNode :=
  .node .part (.functionLike ⟨.declaration, some (lit "load"), false, false, true, 40, (2, 4)⟩)
    [.node .name (.identifier (lit "load")) [],
      .node .parameter .parameter [.node .name (.identifier (lit "url")) []],
      .node .body .block
        [.node .part .other
          [.node .expression .call
            [.node .expression (.identifier (lit "fetch")) [],
              .node .argument (.identifier (lit "url")) []]]]]

def hidingFile : TsNode := .node .part .varScope [apiStatement, loadNode]

def loadSymbol : CollectedSymbol where
  node := loadNode
  parent := hidingFile
  symbol := lit "load"
  kind := .function
  span := (2, 4)
  startOffset := 40
  nested := false
  isAsync := false
  isGenerator := false
  ownerClass := none
  isStatic := false

def exportsLoad (n : TsNode) : Bool := n.function?.any fun info => info.name = some (lit "load")

def exportedLoad : ExportedFunction hidingFile exportsLoad where
  symbol := loadSymbol
  collected := List.mem_of_getElem? (i := 1) rfl
  plain := by decide
  top := rfl
  declared := Or.inl (List.mem_cons_of_mem _ List.mem_cons_self)
  exported := by decide

end Analyze

end Tempest
