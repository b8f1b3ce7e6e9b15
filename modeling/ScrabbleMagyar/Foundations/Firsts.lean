import Mathlib.Data.List.Perm.Subperm
import Mathlib.Data.Set.Basic
import Mathlib.Tactic.Common

/-!
# The first elements of a set

`FirstsOf S limit l` says that `l` are the first elements of the set `S` in their order, `limit`
of them or all if there are fewer. A scan of the sorted elements finds them (`firstsOf_take`), and
an element is among them unless `limit` others come before it (`FirstsOf.mem_iff`).
-/

namespace ScrabbleMagyar

variable {α : Type*} [LinearOrder α]

structure FirstsOf (S : Set α) (limit : ℕ) (l : List α) : Prop where
  sorted : l.Pairwise (· < ·)
  mem : ∀ a ∈ l, a ∈ S
  le_limit : l.length ≤ limit
  rest : ∀ a ∈ S, a ∉ l → l.length = limit ∧ ∀ b ∈ l, b < a

/-- So many elements of the set come before an element. -/
def Preceded (S : Set α) (limit : ℕ) (a : α) : Prop :=
  ∃ l : List α, l.Nodup ∧ l.length = limit ∧ ∀ b ∈ l, b ∈ S ∧ b < a

variable {S : Set α} {limit : ℕ} {l : List α} {a : α}

/-- The sorted elements up to the limit. -/
theorem firstsOf_take (hl : l.Pairwise (· < ·)) (hS : ∀ a, a ∈ S ↔ a ∈ l) (limit : ℕ) :
    FirstsOf S limit (l.take limit) where
  sorted := hl.sublist (List.take_sublist limit l)
  mem a ha := (hS a).mpr (List.mem_of_mem_take ha)
  le_limit := List.length_take_le limit l
  rest a ha hnot := by
    have hdrop : a ∈ l.drop limit := by
      have hmem := (hS a).mp ha
      rw [← List.take_append_drop limit l, List.mem_append] at hmem
      exact hmem.resolve_left hnot
    have hlen : 0 < (l.drop limit).length := List.length_pos_of_mem hdrop
    rw [List.length_drop] at hlen
    refine ⟨by rw [List.length_take]; omega, fun b hb => ?_⟩
    rw [← List.take_append_drop limit l] at hl
    exact (List.pairwise_append.mp hl).2.2 b hb a hdrop

/-- An element is among the first ones unless as many come before it. -/
theorem FirstsOf.mem_iff (h : FirstsOf S limit l) (ha : a ∈ S) : a ∈ l ↔ ¬Preceded S limit a := by
  constructor
  · rintro hal ⟨before, hnodup, hlen, hbefore⟩
    have hsub : before ⊆ l.erase a := by
      intro b hb
      obtain ⟨hbS, hlt⟩ := hbefore b hb
      have hbl : b ∈ l := by
        by_contra hnot
        exact absurd ((h.rest b hbS hnot).2 a hal) (not_lt.mpr hlt.le)
      exact (List.mem_erase_of_ne hlt.ne).mpr hbl
    have hcard := (List.subperm_of_subset hnodup hsub).length_le
    have hlimit := h.le_limit
    have hpos := List.length_pos_of_mem hal
    rw [List.length_erase_of_mem hal] at hcard
    omega
  · intro hnot
    by_contra hal
    obtain ⟨hlen, hlt⟩ := h.rest a ha hal
    exact hnot ⟨l, h.sorted.imp ne_of_lt, hlen, fun b hb => ⟨h.mem b hb, hlt b hb⟩⟩

end ScrabbleMagyar
