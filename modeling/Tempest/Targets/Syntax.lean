import Tempest.Python.Dict
import Tempest.Python.Text
import Tempest.Python.Walk

/-!
# Syntax — the part of Python's syntax trees that target selection reads (`ast`)

`Node` keeps what `symbols.py` looks at: definitions with their lines, names, calls, imports,
`global`/`nonlocal` and `yield`.  Every other node is `other`.  `children` lists the child nodes in
the order of `ast.iter_child_nodes`.
-/

namespace Tempest

open Python

/-- `asname` and `name` of one imported name. -/
structure ImportAlias where
  asname : Option PyStr
  name : PyStr
  deriving DecidableEq

/-- What a `def` says about itself. -/
structure DefInfo where
  isAsync : Bool
  name : PyStr
  lineno : Nat
  endLineno : Nat
  decoratorLines : List Nat
  deriving DecidableEq

inductive Node where
  | functionDef (info : DefInfo) (args body decorators rest : List Node)
  | classDef (name : PyStr) (members : List Node)
  | name (id : PyStr)
  /-- An `Attribute`, `value.attr`. -/
  | dotted (value : Node) (attr : PyStr)
  | call (func : Node) (args : List Node)
  /-- `import`. -/
  | imports (names : List ImportAlias)
  /-- `from module import`; a relative import without a module name has none. -/
  | importFrom (module : Option PyStr) (names : List ImportAlias)
  /-- `global` and `nonlocal`. -/
  | scopeDecl
  /-- `yield` and `yield from`. -/
  | yields (value : List Node)
  | lambda (parts : List Node)
  | other (parts : List Node)

namespace Node

/-- `ast.iter_child_nodes`. -/
def children : Node → List Node
  | functionDef _ args body decorators rest => args ++ body ++ decorators ++ rest
  | classDef _ members => members
  | name _ => []
  | dotted value _ => [value]
  | call func args => func :: args
  | imports _ => []
  | importFrom _ _ => []
  | scopeDecl => []
  | yields value => value
  | lambda parts => parts
  | other parts => parts

mutual

def size : Node → Nat
  | functionDef _ args body decorators rest =>
    sizes args + sizes body + sizes decorators + sizes rest + 1
  | classDef _ members => sizes members + 1
  | name _ => 1
  | dotted value _ => value.size + 1
  | call func args => func.size + sizes args + 1
  | imports _ => 1
  | importFrom _ _ => 1
  | scopeDecl => 1
  | yields value => sizes value + 1
  | lambda parts => sizes parts + 1
  | other parts => sizes parts + 1

def sizes : List Node → Nat
  | [] => 0
  | node :: nodes => node.size + sizes nodes

end

theorem sizes_eq_weigh (nodes : List Node) : sizes nodes = weigh size nodes := by
  induction nodes with
  | nil => rfl
  | cons node nodes ih =>
    have hcons : weigh size (node :: nodes) = node.size + weigh size nodes := by simp [weigh]
    rw [sizes, ih, hcons]

theorem weigh_children (node : Node) : weigh size node.children < node.size := by
  cases node with
  | functionDef info args body decorators rest =>
    simp only [children, weigh_append, size, sizes_eq_weigh]
    omega
  | dotted value attr => simp [children, weigh, size]
  | call func args =>
    have hcons : weigh size (func :: args) = func.size + weigh size args := by simp [weigh]
    simp only [children, size, sizes_eq_weigh, hcons]
    omega
  | classDef name members => simp [children, size, sizes_eq_weigh]
  | name _ | imports _ | importFrom _ _ | scopeDecl => simp [children, weigh, size]
  | yields _ | lambda _ | other _ => simp [children, size, sizes_eq_weigh]

def walk (node : Node) : List Node := Python.walk children node.size [node]

theorem mem_walk {node descendant : Node} :
    descendant ∈ node.walk ↔ Python.Within children node descendant := by
  have hfuel : weigh size [node] ≤ node.size := by simp [weigh]
  have hmem := Python.mem_walk weigh_children hfuel (b := descendant)
  simpa [walk] using hmem

def body : Node → List Node
  | functionDef _ _ body _ _ => body
  | _ => []

/-- The name of a `def`. -/
def defName? : Node → Option PyStr
  | functionDef info _ _ _ _ => some info.name
  | _ => none

end Node

end Tempest
