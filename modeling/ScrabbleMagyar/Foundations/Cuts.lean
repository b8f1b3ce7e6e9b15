import Mathlib.Data.List.Basic
import Mathlib.Order.Lattice
import Mathlib.Order.Nat
import Mathlib.Tactic.Common

/-!
# Cutting a list in two

A search that tries the ends of a list one length after the other, from the empty end up to a
limit and always leaving an element, tries every way to write the list as `base ++ add` within
these bounds (`exists_end_iff`); so does a search of the starts (`exists_start_iff`). An empty
list has one cut, into nothing and nothing.
-/

namespace ScrabbleMagyar.Cuts

variable {α : Type*}

/-- A cut that leaves `left` of a list and takes `taken` off it, of at most `limit` elements.
Something is left, unless the list is empty. -/
def Within (limit : ℕ) (left taken : List α) : Prop :=
  (left ≠ [] ∨ taken = []) ∧ taken.length ≤ limit

theorem Within.length_le {limit : ℕ} {left taken : List α} (h : Within limit left taken) :
    taken.length ≤ min (left.length + taken.length - 1) limit := by
  obtain ⟨hleft, hlimit⟩ := h
  refine le_min ?_ hlimit
  rcases hleft with hleft | rfl
  · have := List.length_pos_iff.mpr hleft
    omega
  · exact Nat.zero_le _

theorem within_of_length_le {limit : ℕ} {left taken : List α}
    (h : taken.length ≤ min (left.length + taken.length - 1) limit) : Within limit left taken := by
  refine ⟨?_, h.trans (min_le_right _ _)⟩
  have hle := h.trans (min_le_left _ _)
  rcases left with _ | ⟨a, left⟩
  · right
    apply List.eq_nil_of_length_eq_zero
    simp only [List.length_nil] at hle
    omega
  · left
    exact List.cons_ne_nil a left

/-- The ends of a list, by their length. -/
theorem exists_end_iff (limit : ℕ) (l : List α) (P : List α → List α → Prop) :
    (∃ k ∈ List.range (min (l.length - 1) limit + 1),
      P (l.take (l.length - k)) (l.drop (l.length - k))) ↔
      ∃ base add, l = base ++ add ∧ Within limit base add ∧ P base add := by
  constructor
  · rintro ⟨k, hk, hP⟩
    have hk := List.mem_range.mp hk
    refine ⟨_, _, (List.take_append_drop (l.length - k) l).symm, ?_, hP⟩
    apply within_of_length_le
    rw [List.length_take, List.length_drop]
    omega
  · rintro ⟨base, add, rfl, hwithin, hP⟩
    have hle := hwithin.length_le
    refine ⟨add.length, ?_, ?_⟩
    · rw [List.mem_range, List.length_append]
      omega
    · simpa using hP

/-- The starts of a list, by their length. -/
theorem exists_start_iff (limit : ℕ) (l : List α) (P : List α → List α → Prop) :
    (∃ k ∈ List.range (min (l.length - 1) limit + 1), P (l.drop k) (l.take k)) ↔
      ∃ rest add, l = add ++ rest ∧ Within limit rest add ∧ P rest add := by
  constructor
  · rintro ⟨k, hk, hP⟩
    have hk := List.mem_range.mp hk
    refine ⟨_, _, (List.take_append_drop k l).symm, ?_, hP⟩
    apply within_of_length_le
    rw [List.length_take, List.length_drop]
    omega
  · rintro ⟨rest, add, rfl, hwithin, hP⟩
    have hle := hwithin.length_le
    refine ⟨add.length, ?_, ?_⟩
    · rw [List.mem_range, List.length_append]
      omega
    · simpa using hP

end ScrabbleMagyar.Cuts
