import Tempest.Python.Float

/-!
# Mining — literal constants of the repository's own code (`generate/mining.py`)

The miner parses every Python file below a worktree and keeps the first 500 distinct constants.  A
file that does not parse is passed over; anything else that goes wrong with one file goes through.
-/

namespace Tempest

open Python

/-- The value of an `ast.Constant`. -/
inductive Constant where
  | none
  | bool (b : Bool)
  | ellipsis
  | int (n : Int)
  | float (x : PyFloat)
  | complex (real imag : PyFloat)
  | str (s : PyStr)
  | bytes (data : Bytes)

/-- How `ast.parse` fails: with a `SyntaxError`, or because the source is too deep for it. -/
inductive ParseError where
  | syntaxError
  | tooDeep
  deriving DecidableEq

structure Raised where
  typeName : PyStr
  deriving DecidableEq

/-- A path `rglob("*.py")` finds, as its parts below the root; a directory or a dangling link of
that name cannot be read. -/
structure TreeEntry where
  parts : List PyStr
  content : Option Bytes

/-- What mining asks of Python: the constants of the tree of a file, in the order of `ast.walk`
(undecodable bytes replaced before parsing), and the `repr` of a constant. -/
structure ConstantReader where
  constants : Bytes → Except ParseError (List Constant)
  repr : Constant → Except Raised PyStr

def mineCap : Nat := 500

def skipDirs : List PyStr := [".git", ".venv", "node_modules", "__pycache__", ".tempest"].map lit

def Constant.skipped : Constant → Bool
  | .none => true
  | .bool _ => true
  | .ellipsis => true
  | .str s => 200 < s.length || s = []
  | _ => false

structure MineState where
  mined : List Constant := []
  seen : List PyStr := []

/-- The constants of one file; the flag says that the cap is reached. -/
def mineConstants (reader : ConstantReader) :
    List Constant → MineState → Except Raised (MineState × Bool)
  | [], s => .ok (s, false)
  | value :: values, s =>
    if value.skipped then mineConstants reader values s
    else
      match reader.repr value with
      | .error e => .error e
      | .ok key =>
        if key ∈ s.seen then mineConstants reader values s
        else
          let s : MineState := ⟨s.mined ++ [value], key :: s.seen⟩
          if mineCap ≤ s.mined.length then .ok (s, true) else mineConstants reader values s

def mineFiles (reader : ConstantReader) : List TreeEntry → MineState → Except Raised (List Constant)
  | [], s => .ok s.mined
  | entry :: entries, s =>
    if entry.parts.any skipDirs.contains then mineFiles reader entries s
    else
      match entry.content with
      | none => .error ⟨lit "OSError"⟩
      | some content =>
        match reader.constants content with
        | .error .syntaxError => mineFiles reader entries s
        | .error .tooDeep => .error ⟨lit "RecursionError"⟩
        | .ok values =>
          match mineConstants reader values s with
          | .error e => .error e
          | .ok (s, true) => .ok s.mined
          | .ok (s, false) => mineFiles reader entries s

/-- `mine_literals`, of the entries in the order of their paths. -/
def mineLiterals (reader : ConstantReader) (entries : List TreeEntry) :
    Except Raised (List Constant) :=
  mineFiles reader entries {}

end Tempest
