import ScrabbleMagyar.Foundations.Json
import Mathlib.Data.List.DropRight
import Mathlib.Data.List.TakeWhile
import Mathlib.Data.Rat.Floor

/-!
# Loose readings of JSON values

The conversions of `util.rs` that saved games are read with: `pyInt` and `truthy` follow
Python's `int(x)` and `bool(x)`, which the stored data was first written for. The casts to
narrower integers are the source's `as i32` and `as u32`.
-/

namespace ScrabbleMagyar

/-- The Unicode white space that `trim` removes. -/
def isWhitespace (c : Char) : Bool :=
  let n := c.toNat
  (9 ≤ n && n ≤ 13) || n == 32 || n == 133 || n == 160 || n == 5760 ||
    (8192 ≤ n && n ≤ 8202) || n == 8232 || n == 8233 || n == 8239 || n == 8287 || n == 12288

def trim (text : List Char) : List Char :=
  ((text.dropWhile isWhitespace).reverse.dropWhile isWhitespace).reverse

/-- The number a list of decimal digits writes. -/
def parseDigits (digits : List Char) : Option ℤ :=
  if digits.isEmpty || digits.any fun c => !c.isDigit then none
  else some (digits.foldl (fun n c => 10 * n + (c.toNat - '0'.toNat : ℕ)) 0)

/-- `parse::<i64>`: an optional sign, then digits, within the range. -/
def parseI64 (text : List Char) : Option ℤ :=
  let value := match text with
    | '-' :: digits => (parseDigits digits).map fun n => -n
    | '+' :: digits => parseDigits digits
    | digits => parseDigits digits
  value.filter fun n => -2 ^ 63 ≤ n ∧ n < 2 ^ 63

/-- `as i64` of a floating point number: towards zero, at most the end of the range. -/
def truncI64 (q : ℚ) : ℤ :=
  let n := if 0 ≤ q then ⌊q⌋ else ⌈q⌉
  max (-2 ^ 63) (min n (2 ^ 63 - 1))

def pyInt : Json → Option ℤ
  | .int i => some i
  | .float q => some (truncI64 q)
  | .bool b => some (if b then 1 else 0)
  | .str s => parseI64 (trim s.toList)
  | _ => none

def truthy : Json → Bool
  | .null => false
  | .bool b => b
  | .int i => i ≠ 0
  | .float q => q ≠ 0
  | .str s => s ≠ ""
  | .arr items => !items.isEmpty
  | .obj fields => !fields.isEmpty

/-- `as i32`. -/
def toI32 (i : ℤ) : ℤ := (i + 2 ^ 31) % 2 ^ 32 - 2 ^ 31

/-- `as u32`. -/
def toU32 (i : ℤ) : ℕ := (i % 2 ^ 32).toNat

@[simp] theorem pyInt_int (i : ℤ) : pyInt (.int i) = some i := rfl

@[simp] theorem truthy_bool (b : Bool) : truthy (.bool b) = b := rfl

theorem trim_eq_self {text : List Char} (h : ∀ c ∈ text, isWhitespace c = false) :
    trim text = text := by
  have hdrop (l : List Char) (hl : ∀ c ∈ l, isWhitespace c = false) :
      l.dropWhile isWhitespace = l := by
    rw [List.dropWhile_eq_self_iff]
    intro hpos
    simp [hl _ (List.getElem_mem hpos)]
  rw [trim, hdrop text h, hdrop text.reverse fun c hc => h c (List.mem_reverse.mp hc),
    List.reverse_reverse]

theorem trim_trim (text : List Char) : trim (trim text) = trim text := by
  have htrim (l : List Char) : trim l = (l.dropWhile isWhitespace).rdropWhile isWhitespace := rfl
  have hdrop : (trim text).dropWhile isWhitespace = trim text := by
    rw [List.dropWhile_eq_self_iff]
    intro hpos
    have hstart : trim text <+: text.dropWhile isWhitespace := List.rdropWhile_prefix _ _
    have hlt : 0 < (text.dropWhile isWhitespace).length := lt_of_lt_of_le hpos hstart.length_le
    rw [hstart.getElem hpos]
    exact List.dropWhile_get_zero_not isWhitespace text hlt
  rw [htrim (trim text), hdrop, htrim text, List.rdropWhile_idempotent]

/-- White space at the end does not count. -/
theorem trim_concat {c : Char} (hc : isWhitespace c = true) (text : List Char) :
    trim (text ++ [c]) = trim text := by
  unfold trim
  by_cases hall : ∀ d ∈ text, isWhitespace d = true
  · have hnil : text.dropWhile isWhitespace = [] := List.dropWhile_eq_nil_iff.mpr hall
    have hnil' : (text ++ [c]).dropWhile isWhitespace = [] := by
      refine List.dropWhile_eq_nil_iff.mpr fun d hd => ?_
      rcases List.mem_append.mp hd with hd | hd
      · exact hall d hd
      · rwa [List.mem_singleton.mp hd]
    rw [hnil, hnil']
  · have hne : (text.dropWhile isWhitespace).isEmpty = false := by
      rw [List.isEmpty_eq_false_iff]
      exact fun hnil => hall (List.dropWhile_eq_nil_iff.mp hnil)
    rw [List.dropWhile_append, hne]
    simp [List.dropWhile_cons_of_pos hc]

theorem toI32_of_range {i : ℤ} (h : -2 ^ 31 ≤ i) (h' : i < 2 ^ 31) : toI32 i = i := by
  unfold toI32
  omega

theorem toU32_natCast {n : ℕ} (h : n < 2 ^ 32) : toU32 n = n := by
  unfold toU32
  omega

end ScrabbleMagyar
