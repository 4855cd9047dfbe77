import Tempest.Python.Dict
import Tempest.Python.Text

/-!
# Document — what a JSON file holds

A document is what `json.loads` builds from a file that `json.dumps` wrote.  The keys of its
objects are field names, a type `κ` of constants.  `Document.wire` is the way through the file:
integers longer than the interpreter prints have no text (`hasLongInt`), and a string comes back as
`wireText` of it.
-/

namespace Tempest
namespace Python

inductive Document (κ : Type) where
  | null
  | int (n : Int)
  | float (x : ℚ)
  | str (s : PyStr)
  | arr (items : List (Document κ))
  | obj (fields : List (κ × Document κ))

namespace Document

variable {κ : Type}

inductive ReadError (κ : Type) where
  | missing (key : κ)
  | noFile
  | kind
  | value (text : PyStr)
  | newer (version : Int)
  deriving DecidableEq

/-! ## Reading -/

@[grind =]
def getItem [DecidableEq κ] (key : κ) : Document κ → Except (ReadError κ) (Document κ)
  | .obj fields =>
    match Dict.find key fields with
    | some d => .ok d
    | none => .error (.missing key)
  | _ => .error .kind

/-- `raw.get(key)`. -/
def get? [DecidableEq κ] (key : κ) : Document κ → Option (Document κ)
  | .obj fields => Dict.find key fields
  | _ => none

section Fields

variable [DecidableEq κ] {key k : κ} {value : Document κ} {fields : List (κ × Document κ)}

theorem getItem_here : getItem key (.obj ((key, value) :: fields)) = .ok value := by
  simp [getItem, Dict.find]

theorem getItem_there (h : k ≠ key) :
    getItem key (.obj ((k, value) :: fields)) = getItem key (.obj fields) := by
  simp [getItem, Dict.find, h]

theorem get?_here : get? key (.obj ((key, value) :: fields)) = some value := by
  simp [get?, Dict.find]

theorem get?_there (h : k ≠ key) :
    get? key (.obj ((k, value) :: fields)) = get? key (.obj fields) := by
  simp [get?, Dict.find, h]

end Fields

def asInt : Document κ → Except (ReadError κ) Int
  | .int n => .ok n
  | _ => .error .kind

def asFloat : Document κ → Except (ReadError κ) ℚ
  | .float x => .ok x
  | _ => .error .kind

def asText : Document κ → Except (ReadError κ) PyStr
  | .str s => .ok s
  | _ => .error .kind

def asText? : Document κ → Except (ReadError κ) (Option PyStr)
  | .str s => .ok (some s)
  | .null => .ok none
  | _ => .error .kind

def asList : Document κ → Except (ReadError κ) (List (Document κ))
  | .arr items => .ok items
  | _ => .error .kind

def ofText? : Option PyStr → Document κ
  | some s => .str s
  | none => .null

/-! ## Through the file -/

mutual

@[grind =]
def hasLongInt : Document κ → Bool
  | .int n => intTooLong n
  | .arr items => itemsHaveLongInt items
  | .obj fields => fieldsHaveLongInt fields
  | _ => false

def itemsHaveLongInt : List (Document κ) → Bool
  | [] => false
  | item :: items => item.hasLongInt || itemsHaveLongInt items

def fieldsHaveLongInt : List (κ × Document κ) → Bool
  | [] => false
  | (_, value) :: fields => value.hasLongInt || fieldsHaveLongInt fields

end

mutual

/-- `json.loads(json.dumps(…))` of a document that can be printed. -/
@[grind =]
def wire : Document κ → Document κ
  | .str s => .str (wireText s)
  | .arr items => .arr (wireAll items)
  | .obj fields => .obj (wireFields fields)
  | d => d

def wireAll : List (Document κ) → List (Document κ)
  | [] => []
  | item :: items => item.wire :: wireAll items

def wireFields : List (κ × Document κ) → List (κ × Document κ)
  | [] => []
  | (key, value) :: fields => (key, value.wire) :: wireFields fields

end

theorem itemsHaveLongInt_eq_any (items : List (Document κ)) :
    itemsHaveLongInt items = items.any hasLongInt := by
  induction items with
  | nil => rfl
  | cons item items ih => simp [itemsHaveLongInt, ih]

theorem wireAll_eq_map (items : List (Document κ)) : wireAll items = items.map wire := by
  induction items with
  | nil => rfl
  | cons item items ih => simp [wireAll, ih]

theorem wire_ofText? (s : Option PyStr) : (ofText? s : Document κ).wire = ofText? (s.map wireText) := by
  cases s with
  | none | some _ => simp [ofText?, wire]

@[simp] theorem hasLongInt_ofText? (s : Option PyStr) : (ofText? s : Document κ).hasLongInt = false := by
  cases s with
  | none | some _ => simp [ofText?, hasLongInt]

@[simp] theorem asText?_ofText? (s : Option PyStr) : (ofText? s : Document κ).asText? = .ok s := by
  cases s with
  | none | some _ => rfl

end Document

/-! ## Enumerations -/

/-- A class of constants with their texts, as a `StrEnum` is. -/
class TextEnum (α : Type) where
  all : List α
  text : α → PyStr
  mem_all : ∀ a, a ∈ all
  injective : ∀ a b, text a = text b → a = b
  /-- The texts are ASCII, so JSON leaves them as they are. -/
  plain : ∀ a, noSplitPair (text a) = true

section TextEnum

variable {α κ : Type} [TextEnum α]

/-- `α(text)`. -/
def ofText {κ : Type} (α : Type) [TextEnum α] (text : PyStr) : Except (Document.ReadError κ) α :=
  match (TextEnum.all : List α).find? fun a => TextEnum.text a = text with
  | some a => .ok a
  | none => .error (.value text)

theorem ofText_text (a : α) :
    (ofText α (TextEnum.text a) : Except (Document.ReadError κ) α) = .ok a := by
  unfold ofText
  cases hfind : (TextEnum.all : List α).find? fun b => TextEnum.text b = TextEnum.text a with
  | none =>
    have hnot := List.find?_eq_none.1 hfind a (TextEnum.mem_all a)
    simp at hnot
  | some b =>
    have heq : TextEnum.text b = TextEnum.text a := by simpa using List.find?_some hfind
    rw [TextEnum.injective b a heq]

theorem wireText_text (a : α) : wireText (TextEnum.text a) = TextEnum.text a :=
  wireText_of_noSplitPair (TextEnum.plain a)

end TextEnum

end Python
end Tempest
