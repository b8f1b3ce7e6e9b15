import Mathlib.Order.Nat
import Mathlib.Tactic.Common

/-!
# Maximal stretches on a line

A line is a predicate on indices that says which of them are occupied. `IsRun` are its maximal
occupied stretches: two that share an index are equal (`IsRun.eq_of_mem`), and on a bounded line
every occupied index lies in one (`exists_isRun`).
-/

namespace ScrabbleMagyar.Line

variable {occ : ℕ → Bool}

/-- A maximal stretch of occupied indices, both ends included. -/
structure IsRun (occ : ℕ → Bool) (s e : ℕ) : Prop where
  le : s ≤ e
  full : ∀ i, s ≤ i → i ≤ e → occ i = true
  before : ∀ i, i + 1 = s → occ i = false
  after : occ (e + 1) = false

/-- A run does not start inside another one. -/
theorem IsRun.start_le {s e s' e' : ℕ} (h : IsRun occ s e) (h' : IsRun occ s' e') {i : ℕ}
    (hs' : s' ≤ i) (he : i ≤ e) : s' ≤ s := by
  by_contra hlt
  have hfree := h'.before (s' - 1) (by omega)
  have hfull := h.full (s' - 1) (by omega) (by omega)
  exact absurd (hfull.symm.trans hfree) (by simp)

/-- A run does not end inside another one. -/
theorem IsRun.le_end {s e s' e' : ℕ} (h : IsRun occ s e) (h' : IsRun occ s' e') {i : ℕ}
    (hs : s ≤ i) (he' : i ≤ e') : e ≤ e' := by
  by_contra hlt
  have hfull := h.full (e' + 1) (by omega) (by omega)
  exact absurd (hfull.symm.trans h'.after) (by simp)

/-- Runs that share an index are equal. -/
theorem IsRun.eq_of_mem {s e s' e' : ℕ} (h : IsRun occ s e) (h' : IsRun occ s' e') {i : ℕ}
    (hs : s ≤ i) (he : i ≤ e) (hs' : s' ≤ i) (he' : i ≤ e') : s = s' ∧ e = e' :=
  ⟨le_antisymm (h'.start_le h hs he') (h.start_le h' hs' he),
    le_antisymm (h.le_end h' hs he') (h'.le_end h hs' he)⟩

/-- Runs depend on the indices from the one before them to the one after them. -/
theorem IsRun.congr {occ' : ℕ → Bool} {s e : ℕ} (h : IsRun occ s e)
    (heq : ∀ i, s ≤ i + 1 → i ≤ e + 1 → occ' i = occ i) : IsRun occ' s e :=
  ⟨h.le, fun i hs he => (heq i (by omega) (by omega)).trans (h.full i hs he),
    fun i hi => (heq i (by omega) (by have := h.le; omega)).trans (h.before i hi),
    (heq (e + 1) (by have := h.le; omega) le_rfl).trans h.after⟩

/-! ## The run through an index -/

/-- The first index of the occupied stretch that ends just before `s`, or `s` itself. -/
def stretchStart (occ : ℕ → Bool) : ℕ → ℕ
  | 0 => 0
  | s + 1 => if occ s then stretchStart occ s else s + 1

/-- The last index of the occupied stretch that begins just after `e`, looking at `n` indices at
most. -/
def stretchEnd (occ : ℕ → Bool) : ℕ → ℕ → ℕ
  | 0, e => e
  | n + 1, e => if occ (e + 1) then stretchEnd occ n (e + 1) else e

theorem stretchStart_le (occ : ℕ → Bool) (s : ℕ) : stretchStart occ s ≤ s := by
  induction s with
  | zero => exact le_rfl
  | succ s ih =>
    simp only [stretchStart]
    split <;> omega

theorem stretchStart_full {s i : ℕ} (h : stretchStart occ s ≤ i) (hi : i < s) : occ i = true := by
  induction s with
  | zero => omega
  | succ s ih =>
    simp only [stretchStart] at h
    split at h
    · rename_i hs
      by_cases his : i = s
      · exact his ▸ hs
      · exact ih h (by omega)
    · omega

theorem stretchStart_before {s i : ℕ} (h : i + 1 = stretchStart occ s) : occ i = false := by
  induction s with
  | zero => simp [stretchStart] at h
  | succ s ih =>
    simp only [stretchStart] at h
    split at h
    · exact ih h
    · rename_i hs
      obtain rfl : i = s := by omega
      simpa using hs

theorem le_stretchEnd (occ : ℕ → Bool) (n e : ℕ) : e ≤ stretchEnd occ n e := by
  induction n generalizing e with
  | zero => exact le_rfl
  | succ n ih =>
    simp only [stretchEnd]
    split
    · exact (Nat.le_succ e).trans (ih _)
    · exact le_rfl

theorem stretchEnd_full {n e i : ℕ} (hi : e < i) (h : i ≤ stretchEnd occ n e) : occ i = true := by
  induction n generalizing e with
  | zero =>
    simp only [stretchEnd] at h
    omega
  | succ n ih =>
    simp only [stretchEnd] at h
    split at h
    · rename_i he
      by_cases hie : i = e + 1
      · exact hie ▸ he
      · exact ih (by omega) h
    · omega

theorem stretchEnd_after {n e : ℕ} (h : occ (e + n + 1) = false) :
    occ (stretchEnd occ n e + 1) = false := by
  induction n generalizing e with
  | zero => exact h
  | succ n ih =>
    simp only [stretchEnd]
    split
    · exact ih (by rwa [show e + 1 + n + 1 = e + (n + 1) + 1 by omega])
    · rename_i he
      simpa using he

/-- A full stretch, extended on both sides, is a run. -/
theorem isRun_stretch {n s e : ℕ} (hle : s ≤ e) (hfull : ∀ i, s ≤ i → i ≤ e → occ i = true)
    (hend : occ (e + n + 1) = false) :
    IsRun occ (stretchStart occ s) (stretchEnd occ n e) := by
  have hs := stretchStart_le occ s
  have he := le_stretchEnd occ n e
  refine ⟨by omega, fun i hsi hie => ?_, fun i hi => stretchStart_before hi, stretchEnd_after hend⟩
  by_cases h₁ : i < s
  · exact stretchStart_full hsi h₁
  · by_cases h₂ : e < i
    · exact stretchEnd_full h₂ hie
    · exact hfull i (by omega) (by omega)

/-- On a bounded line every occupied index lies in a run. -/
theorem exists_isRun {n i : ℕ} (hbound : ∀ j, n ≤ j → occ j = false) (hi : occ i = true) :
    ∃ s e, IsRun occ s e ∧ s ≤ i ∧ i ≤ e := by
  have hrun := isRun_stretch (n := n) (le_refl i)
    (fun j h₁ h₂ => by rwa [show j = i by omega]) (hbound (i + n + 1) (by omega))
  exact ⟨_, _, hrun, stretchStart_le occ i, le_stretchEnd occ n i⟩

end ScrabbleMagyar.Line
