import Mathlib.Data.Finset.Card
import Mathlib.Data.Finset.Image
import Mathlib.Data.Nat.Digits.Defs

/-!
# Fresh names

Of more numbered names than a list has entries one is not in the list (`exists_fresh`), and
numbers that are written alike are equal (`repr_injective`).
-/

namespace ScrabbleMagyar.Fresh

/-- Among as many names as a list has entries, and one more, there is one that is not in it. -/
theorem exists_fresh {α : Type*} [DecidableEq α] {name : ℕ → α} (hname : Function.Injective name)
    (used : List α) (n : ℕ) : ∃ k ≤ used.length, name (n + k) ∉ used := by
  let names : Finset α := (Finset.range (used.length + 1)).image fun k => name (n + k)
  have hcard : used.toFinset.card < names.card := by
    have hinj : Function.Injective fun k => name (n + k) := fun a b hab =>
      Nat.add_left_cancel (hname hab)
    rw [Finset.card_image_of_injective _ hinj, Finset.card_range]
    exact Nat.lt_succ_of_le used.toFinset_card_le
  obtain ⟨a, ha, hfree⟩ := Finset.exists_mem_notMem_of_card_lt_card hcard
  obtain ⟨k, hk, rfl⟩ := Finset.mem_image.mp ha
  exact ⟨k, Nat.le_of_lt_succ (Finset.mem_range.mp hk), fun hmem => hfree (List.mem_toFinset.mpr hmem)⟩

/-- A number is told by its digits. -/
theorem repr_injective {m n : ℕ} (h : toString m = toString n) : m = n := by
  have hdigits : Nat.toDigits 10 m = Nat.toDigits 10 n := by
    have hlist := congrArg String.toList h
    simpa [Nat.toList_repr] using hlist
  rw [← Nat.ofDigitChars_toDigits (b := 10) (n := m) (by omega) (by omega), hdigits,
    Nat.ofDigitChars_toDigits (by omega) (by omega)]

end ScrabbleMagyar.Fresh
