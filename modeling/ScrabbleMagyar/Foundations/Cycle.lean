import Mathlib.Order.Nat
import Mathlib.Tactic.Common

/-!
# The next index on a cycle

The indices `0, …, n - 1` in a circle. `First n c ready k` says that `k` steps after `c` comes the
first index that is `ready`, looking once around, the last index looked at being `c` itself.
There is one as soon as any index is ready (`exists_first`), and a scan that meets an index that
is not ready goes on from it with one step less (`First.tail`).
-/

namespace ScrabbleMagyar.Cycle

variable {n c : ℕ} {ready r : ℕ → Prop}

/-- The first ready index after `c` is `k` steps away. -/
structure First (n c : ℕ) (ready : ℕ → Prop) (k : ℕ) : Prop where
  pos : 1 ≤ k
  le : k ≤ n
  hit : ready ((c + k) % n)
  before : ∀ j, 1 ≤ j → j < k → ¬ready ((c + j) % n)

/-- The indices passed on the way to the one `k` steps after `c`. -/
def Passed (n c k s : ℕ) : Prop := ∃ j, 1 ≤ j ∧ j < k ∧ s = (c + j) % n

theorem exists_steps {s : ℕ} (hs : s < n) (c : ℕ) : ∃ k, 1 ≤ k ∧ k ≤ n ∧ (c + k) % n = s := by
  have hn : 0 < n := by omega
  have hc := Nat.mod_lt c hn
  by_cases hle : s ≤ c % n
  · refine ⟨s + n - c % n, by omega, by omega, ?_⟩
    have hsum : c + (s + n - c % n) = s + n * (c / n + 1) := by
      have := Nat.mod_add_div c n
      rw [Nat.mul_add, Nat.mul_one]
      omega
    rw [hsum, Nat.add_mul_mod_self_left, Nat.mod_eq_of_lt hs]
  · refine ⟨s - c % n, by omega, by omega, ?_⟩
    have hsum : c + (s - c % n) = s + n * (c / n) := by
      have := Nat.mod_add_div c n
      omega
    rw [hsum, Nat.add_mul_mod_self_left, Nat.mod_eq_of_lt hs]

theorem exists_first {s : ℕ} (hs : s < n) (hready : ready s) (c : ℕ) : ∃ k, First n c ready k := by
  classical
  obtain ⟨k, hpos, hle, hk⟩ := exists_steps hs c
  have hex : ∃ k, 1 ≤ k ∧ ready ((c + k) % n) := ⟨k, hpos, hk ▸ hready⟩
  refine ⟨Nat.find hex, (Nat.find_spec hex).1, ?_, (Nat.find_spec hex).2, fun j hj hlt hr => ?_⟩
  · exact (Nat.find_min' hex ⟨hpos, hk ▸ hready⟩).trans hle
  · exact Nat.find_min hex hlt ⟨hj, hr⟩

/-- Two indices less than a round apart are different. -/
theorem mod_ne {i j : ℕ} (hlt : i < j) (hround : j < i + n) : i % n ≠ j % n := by
  intro h
  have hdvd : n ∣ j - i := Nat.dvd_of_mod_eq_zero (Nat.sub_mod_eq_zero_of_mod_eq h.symm)
  have := Nat.le_of_dvd (by omega) hdvd
  omega

theorem next_add_mod (n c j : ℕ) : ((c + 1) % n + j) % n = (c + (j + 1)) % n := by
  rw [Nat.mod_add_mod, Nat.add_assoc, Nat.add_comm 1 j]

/-- Past an index that is not ready the scan goes on with one step less, also if this index
becomes ready meanwhile. -/
theorem First.tail {k : ℕ} (h : First n c ready k) (hnot : ¬ready ((c + 1) % n))
    (hsame : ∀ s, s ≠ (c + 1) % n → (r s ↔ ready s)) :
    2 ≤ k ∧ First n ((c + 1) % n) r (k - 1) := by
  have hk : 2 ≤ k := by
    have := h.pos
    by_contra hlt
    obtain rfl : k = 1 := by omega
    exact hnot h.hit
  have hne : ∀ j, 2 ≤ j → j ≤ k → (c + j) % n ≠ (c + 1) % n := fun j h₁ h₂ =>
    (mod_ne (by omega) (by have := h.le; omega)).symm
  refine ⟨hk, by omega, by have := h.le; omega, ?_, fun j h₁ h₂ => ?_⟩
  · rw [next_add_mod, show k - 1 + 1 = k by omega, hsame _ (hne k hk le_rfl)]
    exact h.hit
  · rw [next_add_mod, hsame _ (hne (j + 1) (by omega) (by omega))]
    exact h.before (j + 1) (by omega) (by omega)

/-- The indices passed are the next one and those passed from it on. -/
theorem passed_iff {k : ℕ} (hk : 2 ≤ k) (s : ℕ) :
    Passed n c k s ↔ s = (c + 1) % n ∨ Passed n ((c + 1) % n) (k - 1) s := by
  constructor
  · rintro ⟨j, h₁, h₂, rfl⟩
    by_cases hj : j = 1
    · exact .inl (by rw [hj])
    · refine .inr ⟨j - 1, by omega, by omega, ?_⟩
      rw [next_add_mod, show j - 1 + 1 = j by omega]
  · rintro (rfl | ⟨j, h₁, h₂, rfl⟩)
    · exact ⟨1, le_rfl, by omega, rfl⟩
    · exact ⟨j + 1, by omega, by omega, next_add_mod n c j⟩

theorem not_passed_one (s : ℕ) : ¬Passed n c 1 s := by
  rintro ⟨j, h₁, h₂, -⟩
  omega

end ScrabbleMagyar.Cycle
