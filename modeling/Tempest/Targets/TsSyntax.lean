import Tempest.Python.Text

/-!
# TsSyntax — TypeScript's syntax trees, as far as the sidecar reads them

A node has the place it takes in its parent (`TsRole`), what it is (`TsKind`) and its children in the
order of the source, which is the order of `forEachChild`.  Positions are kept where `analyze.ts`
asks for them.  Every node that the sidecar does not tell apart is `other`.
-/

namespace Tempest

open Python

inductive TsRole where
  | name
  | key
  | member
  | typeName
  | label
  /-- What a property access looks into, a call calls or an assertion is about. -/
  | expression
  | argument
  | parameter
  | body
  | decorator
  | initializer
  | part
  deriving DecidableEq

inductive FunctionForm where
  | declaration
  | method (isStatic : Bool)
  | constructor
  | getAccessor
  | setAccessor
  | arrow
  | expression
  deriving DecidableEq

/-- What a function says about itself; `name` is `getName()`. -/
structure FunctionInfo where
  form : FunctionForm
  name : Option PyStr
  isAsync : Bool
  isGenerator : Bool
  hasBody : Bool
  start : Nat
  lines : Nat × Nat
  deriving DecidableEq

inductive TsKind where
  | identifier (text : PyStr)
  | stringLiteral (text : PyStr)
  | propertyAccess
  | call
  | functionLike (info : FunctionInfo)
  | classDeclaration (name : Option PyStr)
  | classExpression (name : Option PyStr)
  /-- `var` is hoisted; the list of a variable statement has the statement's lines. -/
  | variableDeclarationList (hoisted : Bool) (statement : Option (Nat × Nat))
  | variableDeclaration
  | parameter
  | objectPattern
  | arrayPattern
  | bindingElement (propertyName : Option PyStr)
  | importDeclaration (specifier : PyStr) (defaultImport namespaceImport : Option PyStr)
      (namedImports : List (PyStr × Option PyStr))
  /-- `import name = require(…)`, or of a name of a namespace. -/
  | importEquals (name : PyStr) (required : Option PyStr)
  | enumeration (name : PyStr) (members : List PyStr)
  | namespaceBlock (name : PyStr)
  /-- A file or a `static` block: `var` stays inside. -/
  | varScope
  /-- A block, a loop, a `catch` or the cases of a `switch`. -/
  | block
  /-- A case of a `switch`. -/
  | clause
  /-- Parentheses, `as`, `satisfies` or `!`. -/
  | assertion
  | other
  deriving DecidableEq

inductive TsNode where
  | node (role : TsRole) (kind : TsKind) (children : List TsNode)

namespace TsNode

def role : TsNode → TsRole
  | node role _ _ => role

def kind : TsNode → TsKind
  | node _ kind _ => kind

def children : TsNode → List TsNode
  | node _ _ children => children

mutual

def decEq : (m n : TsNode) → Decidable (m = n)
  | node role kind children, node role' kind' children' =>
    have := decEqAll children children'
    decidable_of_iff (role = role' ∧ kind = kind' ∧ children = children') (by simp)

def decEqAll : (ms ns : List TsNode) → Decidable (ms = ns)
  | [], [] => .isTrue rfl
  | m :: ms, n :: ns =>
    have := decEq m n
    have := decEqAll ms ns
    decidable_of_iff (m = n ∧ ms = ns) (by simp)
  | [], _ :: _ => .isFalse (by simp)
  | _ :: _, [] => .isFalse (by simp)

end

instance : DecidableEq TsNode := decEq

mutual

def preorder : TsNode → List TsNode
  | node role kind children => node role kind children :: preorders children

def preorders : List TsNode → List TsNode
  | [] => []
  | child :: children => child.preorder ++ preorders children

end

/-- `forEachDescendant`. -/
def descendants (n : TsNode) : List TsNode := preorders n.children

def child? (n : TsNode) (role : TsRole) : Option TsNode := n.children.find? fun c => c.role = role

/-- `getArguments()`. -/
def arguments (n : TsNode) : List TsNode := n.children.filter fun c => c.role = .argument

def identifierText : TsNode → Option PyStr
  | node _ (.identifier text) _ => some text
  | _ => none

def literalValue : TsNode → Option PyStr
  | node _ (.stringLiteral text) _ => some text
  | _ => none

def function? : TsNode → Option FunctionInfo
  | node _ (.functionLike info) _ => some info
  | _ => none

def identifierAt (n : TsNode) (role : TsRole) : Option PyStr := (n.child? role).bind identifierText

/-- The module of a call of `require` with a string. -/
def required : TsNode → Option PyStr
  | n@(node _ .call _) =>
    if n.identifierAt .expression = some (lit "require") then
      n.arguments.head?.bind literalValue
    else none
  | _ => none

end TsNode

end Tempest
