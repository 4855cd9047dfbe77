import Tempest.Targets.Analyze

/-!
# TsScope — lexical scoping of TypeScript

What the identifiers of a function stand for, by the rules of the language and not by the tables of
`analyze.ts`: every scope binds the names declared in it, `var` belongs to the function around it, and
a name belongs to the innermost scope that binds it.  `mentions` lists what a function refers to, each
mention with its binding where a scope inside the function binds the name; the rest is looked up in
the module (`moduleBindings`), and what the module does not bind is an ambient global.
-/

namespace Tempest

open Python

namespace TsScope

inductive Binding where
  | imported (root name : PyStr)
  | function (fn : TsNode)
  | declared

abbrev Bindings := List (PyStr × Binding)

def Bindings.find (bindings : Bindings) (name : PyStr) : Option Binding :=
  (List.find? (fun entry => entry.1 = name) bindings).map Prod.snd

/-! ## Declarations -/

mutual

/-- The names that a pattern or a declaration binds; `taken` is the property a name is taken from. -/
def boundNames (taken : PyStr → PyStr) : TsNode → List (PyStr × PyStr)
  | .node role kind children =>
    match kind with
    | .identifier name => if role = .name then [(name, taken name)] else []
    | .bindingElement propertyName => boundNamesAll propertyName.getD children
    | .objectPattern | .arrayPattern | .variableDeclaration | .parameter =>
      boundNamesAll taken children
    | _ => []

def boundNamesAll (taken : PyStr → PyStr) : List TsNode → List (PyStr × PyStr)
  | [] => []
  | child :: children => boundNames taken child ++ boundNamesAll taken children

end

mutual

/-- The module of a `require`, also inside parentheses and type assertions. -/
def requiring : TsNode → Option PyStr
  | .node role .call children => (TsNode.node role .call children).required
  | .node _ .assertion children => requiringFirst children
  | _ => none

def requiringFirst : List TsNode → Option PyStr
  | [] => none
  | child :: children =>
    if child.role = .expression then requiring child else requiringFirst children

end

def isFunctionValue (n : TsNode) : Bool :=
  n.function?.any fun info => info.form = .arrow || info.form = .expression

def declarationBindings (declaration : TsNode) : Bindings :=
  let names := boundNames (fun _ => lit "*") declaration
  match declaration.child? .initializer with
  | none => names.map fun (name, _) => (name, .declared)
  | some value =>
    match requiring value with
    | some specifier =>
      names.map fun (name, taken) => (name, .imported (Analyze.rootModule specifier) taken)
    | none =>
      if isFunctionValue value && Analyze.isVariableDeclaration declaration &&
          (declaration.identifierAt .name).isSome then
        names.map fun (name, _) => (name, .function value)
      else names.map fun (name, _) => (name, .declared)

def opaqueNames (names : List PyStr) : Bindings := names.map fun name => (name, .declared)

mutual

def declaredBy : TsNode → Bindings
  | .node role kind children =>
    match kind with
    | .variableDeclarationList false _ => children.flatMap declarationBindings
    | .variableDeclaration => declarationBindings (.node role kind children)
    | .functionLike info =>
      if info.form = .declaration && info.hasBody then
        info.name.toList.map fun name => (name, .function (.node role kind children))
      else []
    | .classDeclaration name => opaqueNames name.toList
    | .enumeration name _ => opaqueNames [name]
    | .namespaceBlock name => opaqueNames [name]
    | .importDeclaration _ _ _ _ =>
      (Analyze.importAliases (.node role kind children)).map fun (name, binding) =>
        (name, .imported binding.root binding.imported)
    | .importEquals name (some specifier) =>
      [(name, .imported (Analyze.rootModule specifier) (lit "*"))]
    | .importEquals name none => opaqueNames [name]
    | .clause => declaredByAll children
    | _ => []

def declaredByAll : List TsNode → Bindings
  | [] => []
  | child :: children => declaredBy child ++ declaredByAll children

end

mutual

/-- What `var` binds below a node, up to the functions, classes and namespaces there. -/
def hoistedBy : TsNode → Bindings
  | .node _ kind children =>
    match kind with
    | .functionLike _ | .classDeclaration _ | .classExpression _ | .namespaceBlock _ => []
    | .variableDeclarationList true _ =>
      children.flatMap declarationBindings ++ hoistedByAll children
    | _ => hoistedByAll children

def hoistedByAll : List TsNode → Bindings
  | [] => []
  | child :: children => hoistedBy child ++ hoistedByAll children

end

def moduleBindings (sourceFile : TsNode) : Bindings :=
  declaredByAll sourceFile.children ++ hoistedByAll sourceFile.children

/-! ## Scopes -/

def boundAround (kind : TsKind) (children : List TsNode) (child : TsNode) : Bindings :=
  match kind with
  | .functionLike info =>
    let own := if info.form = .expression then opaqueNames info.name.toList else []
    let parameters := (children.filter fun c => c.role = .parameter).flatMap declarationBindings
    match child.role with
    | .parameter => parameters ++ own
    | .body => hoistedBy child ++ parameters ++ own
    | _ => []
  | .classDeclaration name | .classExpression name =>
    if child.role = .decorator then [] else opaqueNames name.toList
  | .enumeration _ members => opaqueNames members
  | .block => declaredByAll children
  | .varScope | .namespaceBlock _ => declaredByAll children ++ hoistedByAll children
  | _ => []

/-! ## Mentions -/

inductive Use where
  | reference
  | call
  /-- `process.env`. -/
  | environment
  deriving DecidableEq

structure Mention where
  use : Use
  name : PyStr
  binding : Option Binding

def Mention.within (bindings : Bindings) (m : Mention) : Mention :=
  { m with binding := m.binding.or (bindings.find m.name) }

/-- The places where an identifier stands for no value. -/
def isReference (role : TsRole) : Bool :=
  !([.name, .key, .member, .typeName, .label] : List TsRole).contains role

def ownMentions (n : TsNode) : List Mention :=
  match n.kind with
  | .identifier name => if isReference n.role then [⟨.reference, name, none⟩] else []
  | .call => (n.identifierAt .expression).toList.map fun name => ⟨.call, name, none⟩
  | .propertyAccess =>
    if n.identifierAt .expression = some (lit "process") &&
        n.identifierAt .member = some (lit "env") then [⟨.environment, lit "process", none⟩]
    else []
  | _ => []

mutual

def mentions : TsNode → List Mention
  | .node role kind children =>
    ownMentions (.node role kind children) ++ mentionsAll (boundAround kind children) children

def mentionsAll (around : TsNode → Bindings) : List TsNode → List Mention
  | [] => []
  | child :: children =>
    (mentions child).map (Mention.within (around child)) ++ mentionsAll around children

end

/-! ## Chains to IO -/

/-- A name bound by an IO module or as randomness of `crypto`, an ambient global that is IO, or the
environment. -/
def Mention.IsIo (m : Mention) : Prop :=
  match m.binding, m.use with
  | none, .environment => True
  | none, _ => m.name ∈ Analyze.ioGlobals
  | some (.imported root _), .environment => root = lit "process"
  | some (.imported root name), _ =>
    root ∈ Analyze.ioModules ∨ root = lit "crypto" ∧ Analyze.cryptoRandom name = true
  | some _, _ => False

def MentionsIo (sourceFile fn : TsNode) : Prop :=
  ∃ m ∈ (mentions fn).map (Mention.within (moduleBindings sourceFile)), m.IsIo

def Calls (sourceFile fn callee : TsNode) : Prop :=
  ∃ m ∈ mentions fn, m.use = .call ∧ m.binding = none ∧
    (moduleBindings sourceFile).find m.name = some (.function callee)

/-- Some chain of at most `depth` calls from the function ends in one that mentions IO. -/
def ChainToIo (sourceFile : TsNode) (depth : Nat) (fn : TsNode) : Prop :=
  ReachesIn (Calls sourceFile) (MentionsIo sourceFile) depth fn

end TsScope

end Tempest
