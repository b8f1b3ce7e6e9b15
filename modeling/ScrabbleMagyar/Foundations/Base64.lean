import Mathlib.Data.List.GetD
import Mathlib.Data.List.Nodup
import Mathlib.Data.UInt
import Mathlib.Tactic.Common

/-!
# Base64

The encoding of bytes by the 64 letters that are safe in a URL, without padding, and its strict
decoding: no other letters, no rest of a single letter, and the bits that no byte uses are zero.

* `decode_encode`, `encode_of_decode`: the two are inverse to each other.
-/

namespace ScrabbleMagyar.Base64

/-- The letters, in the order of their values. -/
def alphabet : List Char :=
  "ABCDEFGHIJKLMNOPQRSTUVWXYZabcdefghijklmnopqrstuvwxyz0123456789-_".toList

/-- The letter of a value. -/
def digit (n : ℕ) : Char := alphabet.getD n 'A'

/-- The value of a letter. -/
def value (c : Char) : Option ℕ := if c ∈ alphabet then some (alphabet.idxOf c) else none

/-- Three bytes are four letters. -/
def encode : List UInt8 → List Char
  | [] => []
  | [a] => [digit (a.toNat / 4), digit (a.toNat % 4 * 16)]
  | [a, b] =>
    [digit (a.toNat / 4), digit (a.toNat % 4 * 16 + b.toNat / 16), digit (b.toNat % 16 * 4)]
  | a :: b :: c :: rest =>
    digit (a.toNat / 4) :: digit (a.toNat % 4 * 16 + b.toNat / 16) ::
      digit (b.toNat % 16 * 4 + c.toNat / 64) :: digit (c.toNat % 64) :: encode rest

def decode : List Char → Option (List UInt8)
  | [] => some []
  | [_] => none
  | [p, q] => do
    let x ← value p
    let y ← value q
    if y % 16 = 0 then some [.ofNat (x * 4 + y / 16)] else none
  | [p, q, r] => do
    let x ← value p
    let y ← value q
    let z ← value r
    if z % 4 = 0 then some [.ofNat (x * 4 + y / 16), .ofNat (y % 16 * 16 + z / 4)] else none
  | p :: q :: r :: s :: text => do
    let x ← value p
    let y ← value q
    let z ← value r
    let w ← value s
    let rest ← decode text
    some (.ofNat (x * 4 + y / 16) :: .ofNat (y % 16 * 16 + z / 4) :: .ofNat (z % 4 * 64 + w) :: rest)

theorem length_alphabet : alphabet.length = 64 := by decide

theorem nodup_alphabet : alphabet.Nodup := by decide

theorem digit_mem {n : ℕ} (hn : n < 64) : digit n ∈ alphabet := by
  rw [digit, List.getD_eq_getElem _ _ (by rw [length_alphabet]; exact hn)]
  exact List.getElem_mem _

@[simp] theorem value_digit {n : ℕ} (hn : n < 64) : value (digit n) = some n := by
  rw [value, if_pos (digit_mem hn), digit,
    List.getD_eq_getElem _ _ (by rw [length_alphabet]; exact hn), nodup_alphabet.idxOf_getElem]

theorem digit_of_value {c : Char} {n : ℕ} (h : value c = some n) : n < 64 ∧ digit n = c := by
  unfold value at h
  split at h
  · rename_i hc
    cases h
    have hlt := List.idxOf_lt_length_iff.mpr hc
    refine ⟨by rwa [length_alphabet] at hlt, ?_⟩
    rw [digit, List.getD_eq_getElem _ _ hlt, List.getElem_idxOf]
  · cases h

/-- A byte put together from its parts. -/
theorem ofNat_eq {a : UInt8} {n : ℕ} (h : n = a.toNat) : UInt8.ofNat n = a := by
  rw [h, UInt8.ofNat_toNat]

/-- **What is encoded is decoded.** -/
theorem decode_encode (bytes : List UInt8) : decode (encode bytes) = some bytes := by
  induction bytes using encode.induct with
  | case1 => rfl
  | case2 a =>
    have ha := a.toNat_lt
    rw [encode, decode, value_digit (by omega), value_digit (by omega)]
    simp only [Option.bind_eq_bind, Option.bind_some]
    rw [if_pos (by omega), ofNat_eq (a := a) (by omega)]
  | case3 a b =>
    have ha := a.toNat_lt
    have hb := b.toNat_lt
    rw [encode, decode, value_digit (by omega), value_digit (by omega), value_digit (by omega)]
    simp only [Option.bind_eq_bind, Option.bind_some]
    rw [if_pos (by omega), ofNat_eq (a := a) (by omega), ofNat_eq (a := b) (by omega)]
  | case4 a b c rest ih =>
    have ha := a.toNat_lt
    have hb := b.toNat_lt
    have hc := c.toNat_lt
    rw [encode, decode, value_digit (by omega), value_digit (by omega), value_digit (by omega),
      value_digit (by omega), ih]
    simp only [Option.bind_eq_bind, Option.bind_some]
    rw [ofNat_eq (a := a) (by omega), ofNat_eq (a := b) (by omega), ofNat_eq (a := c) (by omega)]

/-- **What is decoded was encoded**: no other text stands for the bytes. -/
theorem encode_of_decode {text : List Char} {bytes : List UInt8} (h : decode text = some bytes) :
    encode bytes = text := by
  have hnat : ∀ n < 256, (UInt8.ofNat n).toNat = n := fun n hn => UInt8.toNat_ofNat_of_lt' hn
  induction text using decode.induct generalizing bytes with
  | case1 =>
    cases h
    rfl
  | case2 p => cases h
  | case3 p q =>
    simp only [decode, Option.bind_eq_bind, Option.bind_eq_some_iff] at h
    obtain ⟨x, hx, y, hy, h⟩ := h
    obtain ⟨hx64, rfl⟩ := digit_of_value hx
    obtain ⟨hy64, rfl⟩ := digit_of_value hy
    split at h
    · cases h
      have hfirst : (x * 4 + y / 16) / 4 = x := by omega
      have hsecond : (x * 4 + y / 16) % 4 * 16 = y := by omega
      rw [encode, hnat _ (by omega), hfirst, hsecond]
    · cases h
  | case4 p q r =>
    simp only [decode, Option.bind_eq_bind, Option.bind_eq_some_iff] at h
    obtain ⟨x, hx, y, hy, z, hz, h⟩ := h
    obtain ⟨hx64, rfl⟩ := digit_of_value hx
    obtain ⟨hy64, rfl⟩ := digit_of_value hy
    obtain ⟨hz64, rfl⟩ := digit_of_value hz
    split at h
    · cases h
      have hfirst : (x * 4 + y / 16) / 4 = x := by omega
      have hsecond : (x * 4 + y / 16) % 4 * 16 + (y % 16 * 16 + z / 4) / 16 = y := by omega
      have hthird : (y % 16 * 16 + z / 4) % 16 * 4 = z := by omega
      rw [encode, hnat _ (by omega), hnat _ (by omega), hfirst, hsecond, hthird]
    · cases h
  | case5 p q r s text ih =>
    simp only [decode, Option.bind_eq_bind, Option.bind_eq_some_iff] at h
    obtain ⟨x, hx, y, hy, z, hz, w, hw, rest, hrest, h⟩ := h
    obtain ⟨hx64, rfl⟩ := digit_of_value hx
    obtain ⟨hy64, rfl⟩ := digit_of_value hy
    obtain ⟨hz64, rfl⟩ := digit_of_value hz
    obtain ⟨hw64, rfl⟩ := digit_of_value hw
    cases h
    have hfirst : (x * 4 + y / 16) / 4 = x := by omega
    have hsecond : (x * 4 + y / 16) % 4 * 16 + (y % 16 * 16 + z / 4) / 16 = y := by omega
    have hthird : (y % 16 * 16 + z / 4) % 16 * 4 + (z % 4 * 64 + w) / 64 = z := by omega
    have hfourth : (z % 4 * 64 + w) % 64 = w := by omega
    rw [encode, hnat _ (by omega), hnat _ (by omega), hnat _ (by omega), ih hrest, hfirst, hsecond,
      hthird, hfourth]

/-- Every letter is one of the alphabet. -/
theorem mem_alphabet_of_mem_encode {bytes : List UInt8} {c : Char} (h : c ∈ encode bytes) :
    c ∈ alphabet := by
  induction bytes using encode.induct with
  | case1 => cases h
  | case2 a =>
    have ha := a.toNat_lt
    rw [encode] at h
    simp only [List.mem_cons, List.not_mem_nil, or_false] at h
    rcases h with rfl | rfl <;> exact digit_mem (by omega)
  | case3 a b =>
    have ha := a.toNat_lt
    have hb := b.toNat_lt
    rw [encode] at h
    simp only [List.mem_cons, List.not_mem_nil, or_false] at h
    rcases h with rfl | rfl | rfl <;> exact digit_mem (by omega)
  | case4 a b c' rest ih =>
    have ha := a.toNat_lt
    have hb := b.toNat_lt
    have hc := c'.toNat_lt
    rw [encode] at h
    simp only [List.mem_cons] at h
    rcases h with rfl | rfl | rfl | rfl | h
    · exact digit_mem (by omega)
    · exact digit_mem (by omega)
    · exact digit_mem (by omega)
    · exact digit_mem (by omega)
    · exact ih h

end ScrabbleMagyar.Base64
