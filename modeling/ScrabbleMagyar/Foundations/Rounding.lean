import Mathlib.Algebra.Order.Floor.Ring
import Mathlib.Algebra.Order.Ring.Abs
import Mathlib.Algebra.Ring.Int.Parity
import Mathlib.Tactic.Linarith
import Mathlib.Tactic.Push
import Mathlib.Tactic.Ring

/-!
# Rounding to the nearest integer, ties to even

Rounding in an ordered field with a floor. It is determined by two properties
(`eq_roundTiesEven`): the result is within one half, and even where two integers are. From these
it is monotone and odd.
-/

namespace ScrabbleMagyar

variable {R : Type*} [Field R] [LinearOrder R] [FloorRing R]

/-- The nearest integer; of two, the even one. -/
def roundTiesEven (x : R) : ℤ :=
  if 2 * Int.fract x < 1 then ⌊x⌋
  else if 1 < 2 * Int.fract x then ⌊x⌋ + 1
  else if Even ⌊x⌋ then ⌊x⌋
  else ⌊x⌋ + 1

variable [IsStrictOrderedRing R]

theorem abs_roundTiesEven_sub_le (x : R) : |(roundTiesEven x : R) - x| ≤ 1 / 2 := by
  have hsplit := Int.floor_add_fract x
  have hlow := Int.fract_nonneg x
  have hhigh := Int.fract_lt_one x
  rw [abs_le]
  unfold roundTiesEven
  split_ifs <;> push_cast <;> constructor <;> linarith

theorem even_roundTiesEven {x : R} (h : |(roundTiesEven x : R) - x| = 1 / 2) :
    Even (roundTiesEven x) := by
  have hsplit := Int.floor_add_fract x
  have hlow := Int.fract_nonneg x
  have hhigh := Int.fract_lt_one x
  rcases abs_eq (by norm_num : (0 : R) ≤ 1 / 2) |>.mp h with h | h <;>
    unfold roundTiesEven at h ⊢ <;> split_ifs at h ⊢ with hdown hup heven <;>
    push_cast at h <;> first
    | exact heven
    | exact Int.even_add_one.mpr heven
    | exact absurd h (by linarith)

/-- **The rounding is determined**: within one half, and even at a tie. -/
theorem eq_roundTiesEven {x : R} {n : ℤ} (hn : |(n : R) - x| ≤ 1 / 2)
    (heven : |(n : R) - x| = 1 / 2 → Even n) : n = roundTiesEven x := by
  have hround := abs_roundTiesEven_sub_le x
  by_contra hne
  have hnear := abs_le.mp hn
  have hnear' := abs_le.mp hround
  have habove : n ≤ roundTiesEven x + 1 := by
    have hcast : (n : R) ≤ roundTiesEven x + 1 := by linarith [hnear.2, hnear'.1]
    exact_mod_cast hcast
  have hbelow : roundTiesEven x ≤ n + 1 := by
    have hcast : (roundTiesEven x : R) ≤ n + 1 := by linarith [hnear.1, hnear'.2]
    exact_mod_cast hcast
  -- neighbours are both at the distance one half, and one of them is odd
  have hdist : |(n : R) - x| = 1 / 2 ∧ |(roundTiesEven x : R) - x| = 1 / 2 := by
    rw [abs_eq (by norm_num), abs_eq (by norm_num)]
    rcases (by omega : n = roundTiesEven x + 1 ∨ roundTiesEven x = n + 1) with h | h
    · have hcast : (n : R) = roundTiesEven x + 1 := by exact_mod_cast h
      exact ⟨.inl (by linarith), .inr (by linarith)⟩
    · have hcast : (roundTiesEven x : R) = n + 1 := by exact_mod_cast h
      exact ⟨.inr (by linarith), .inl (by linarith)⟩
  obtain ⟨a, ha⟩ := heven hdist.1
  obtain ⟨b, hb⟩ := even_roundTiesEven hdist.2
  omega

@[simp] theorem roundTiesEven_intCast (n : ℤ) : roundTiesEven (n : R) = n :=
  (eq_roundTiesEven (by simp) fun h => by norm_num at h).symm

@[simp] theorem roundTiesEven_neg (x : R) : roundTiesEven (-x) = -roundTiesEven x := by
  have hdist : |((-roundTiesEven x : ℤ) : R) - -x| = |(roundTiesEven x : R) - x| := by
    rw [Int.cast_neg, ← abs_neg]
    congr 1
    ring
  refine (eq_roundTiesEven (hdist ▸ abs_roundTiesEven_sub_le x) fun h => ?_).symm
  exact (even_roundTiesEven (hdist ▸ h)).neg

theorem roundTiesEven_mono {x y : R} (hxy : x ≤ y) : roundTiesEven x ≤ roundTiesEven y := by
  by_contra hlt
  have hx := abs_le.mp (abs_roundTiesEven_sub_le x)
  have hy := abs_le.mp (abs_roundTiesEven_sub_le y)
  have hcast : (roundTiesEven y : R) + 1 ≤ roundTiesEven x := by
    exact_mod_cast (by omega : roundTiesEven y + 1 ≤ roundTiesEven x)
  -- then both are the same midpoint
  obtain rfl : x = y := le_antisymm hxy (by linarith [hx.1, hy.2])
  omega

/-- What lies between two integers is rounded to between them. -/
theorem abs_roundTiesEven_le {x : R} {n : ℤ} (h : |x| ≤ n) : |roundTiesEven x| ≤ n := by
  obtain ⟨hlow, hhigh⟩ := abs_le.mp h
  refine abs_le.mpr ⟨?_, ?_⟩
  · have hmono := roundTiesEven_mono hlow
    rwa [← Int.cast_neg, roundTiesEven_intCast] at hmono
  · have hmono := roundTiesEven_mono hhigh
    rwa [roundTiesEven_intCast] at hmono

/-- Rounding moves a sum by at most one half for each of its terms. -/
theorem abs_sum_roundTiesEven_sub_le {α : Type*} (f : α → R) (l : List α) :
    |((l.map fun a => roundTiesEven (f a)).sum : R) - (l.map f).sum| ≤ l.length / 2 := by
  induction l with
  | nil => simp
  | cons a l ih =>
    have ha := abs_roundTiesEven_sub_le (f a)
    simp only [List.map_cons, List.sum_cons, List.length_cons, Int.cast_add, Nat.cast_add,
      Nat.cast_one]
    rw [abs_le] at ih ha ⊢
    constructor <;> linarith [ih.1, ih.2, ha.1, ha.2]

end ScrabbleMagyar
