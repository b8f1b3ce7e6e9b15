import Mathlib.Data.Rat.Defs
import Mathlib.Tactic.Common

/-!
# JSON values

Values as a JSON library holds them in memory: an integer and a floating point number are
told apart, a floating point number is the exact rational it stands for, an object keeps the
order in which its fields were inserted. The readers return `none` on a value of another kind.
-/

namespace ScrabbleMagyar

inductive Json
  | null
  | bool (b : Bool)
  | int (i : ℤ)
  | float (q : ℚ)
  | str (s : String)
  | arr (items : List Json)
  | obj (fields : List (String × Json))

namespace Json

/-- The field `key` of an object. -/
def get? : Json → String → Option Json
  | obj fields, key => fields.lookup key
  | _, _ => none

/-- The field `key` of an object, `null` where it has none. -/
def field (j : Json) (key : String) : Json := (j.get? key).getD null

def asStr : Json → Option String
  | str s => some s
  | _ => none

def asArray : Json → Option (List Json)
  | arr items => some items
  | _ => none

def asInt : Json → Option ℤ
  | int i => some i
  | _ => none

def asFloat : Json → Option ℚ
  | int i => some i
  | float q => some q
  | _ => none

def isNull : Json → Bool
  | null => true
  | _ => false

def isObj : Json → Bool
  | obj _ => true
  | _ => false

/-- An optional value, `null` where it is absent. -/
def ofOption {α : Type} (f : α → Json) : Option α → Json
  | some a => f a
  | none => null

/-- Set the field `key` of an object: in place when it has one, else at the end. -/
def setField : List (String × Json) → String → Json → List (String × Json)
  | [], key, v => [(key, v)]
  | (k, w) :: rest, key, v => if k = key then (k, v) :: rest else (k, w) :: setField rest key v

/-- The object with the field `key` set; other values stay as they are. -/
def set : Json → String → Json → Json
  | obj fields, key, v => obj (setField fields key v)
  | j, _, _ => j

/-- The object without the field `key`. -/
def remove : Json → String → Json
  | obj fields, key => obj (fields.filter fun e => e.1 ≠ key)
  | j, _ => j

theorem get?_obj_cons (k : String) (v : Json) (fields : List (String × Json)) (key : String) :
    (obj ((k, v) :: fields)).get? key = if key = k then some v else (obj fields).get? key := by
  by_cases h : key = k
  · simp [get?, h]
  · have hb : (key == k) = false := by simpa using h
    simp [get?, List.lookup_cons, hb, h]

@[simp] theorem get?_obj_nil (key : String) : (obj []).get? key = none := rfl

@[simp] theorem asStr_str (s : String) : (str s).asStr = some s := rfl

@[simp] theorem asArray_arr (items : List Json) : (arr items).asArray = some items := rfl

@[simp] theorem asInt_int (i : ℤ) : (int i).asInt = some i := rfl

@[simp] theorem asFloat_float (q : ℚ) : (float q).asFloat = some q := rfl

/-- Removing a field leaves the others. -/
theorem get?_remove (j : Json) {key other : String} (h : key ≠ other) :
    (j.remove other).get? key = j.get? key := by
  cases j with
  | obj fields =>
    induction fields with
    | nil => rfl
    | cons e rest ih =>
      obtain ⟨k, v⟩ := e
      by_cases hk : k = other
      · subst hk
        rw [get?_obj_cons, if_neg h, ← ih]
        simp [remove]
      · have hkeep : (obj ((k, v) :: rest)).remove other =
            obj ((k, v) :: rest.filter fun e => e.1 ≠ other) := by simp [remove, hk]
        rw [hkeep, get?_obj_cons, get?_obj_cons, ← ih]
        rfl
  | _ => rfl

/-- Setting a field of an object: it has the value, and the others stay. -/
theorem get?_setField (fields : List (String × Json)) (key other : String) (v : Json) :
    (obj (setField fields key v)).get? other =
      if other = key then some v else (obj fields).get? other := by
  induction fields with
  | nil => rw [setField, get?_obj_cons]
  | cons e rest ih =>
    obtain ⟨k, w⟩ := e
    rw [setField, get?_obj_cons]
    by_cases hk : k = key
    · subst hk
      rw [if_pos rfl, get?_obj_cons]
      split <;> rfl
    · rw [if_neg hk, get?_obj_cons, ih]
      by_cases ho : other = k
      · rw [if_pos ho, if_pos ho, if_neg (ho ▸ hk)]
      · rw [if_neg ho, if_neg ho]

theorem get?_set {j : Json} {key : String} (h : (j.get? key).isSome) (other : String) (v : Json) :
    (j.set key v).get? other = if other = key then some v else j.get? other := by
  cases j with
  | obj fields => exact get?_setField fields key other v
  | _ => exact absurd h (by simp [get?])

theorem ofOption_map {α : Type} {f : α → Json} {h : α → α} (hf : ∀ a, f (h a) = f a)
    (o : Option α) : ofOption f (o.map h) = ofOption f o := by
  cases o with
  | none => rfl
  | some a => exact hf a

end Json

end ScrabbleMagyar
