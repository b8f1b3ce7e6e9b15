import Mathlib.Logic.Relation
import Mathlib.Tactic.Common

/-!
# Connected sets of squares

Squares of a grid, neighbours along an edge, and sets of squares that hang together. A set is
`Connected` when any two of its squares are linked by a path inside it; what the proofs use is
that a path inside a set is one inside a larger set (`Linked.mono`), that a full stretch of a
line links its ends (`linked_of_line`), and that it is enough to link all squares to one
(`connected_of_linked`).
-/

namespace ScrabbleMagyar.Grid

/-- A square: row and column. -/
abbrev Square := ℕ × ℕ

/-- Two squares share an edge. -/
def Adjacent (s t : Square) : Prop :=
  s.1 = t.1 ∧ (s.2 + 1 = t.2 ∨ t.2 + 1 = s.2) ∨ s.2 = t.2 ∧ (s.1 + 1 = t.1 ∨ t.1 + 1 = s.1)

theorem Adjacent.symm {s t : Square} (h : Adjacent s t) : Adjacent t s := by
  simp only [Adjacent] at h ⊢
  omega

/-- One step inside a set. -/
def Step (S : Square → Prop) (s t : Square) : Prop := S s ∧ S t ∧ Adjacent s t

/-- A path inside a set. -/
def Linked (S : Square → Prop) : Square → Square → Prop := Relation.ReflTransGen (Step S)

def Connected (S : Square → Prop) : Prop := ∀ s t, S s → S t → Linked S s t

variable {S S' : Square → Prop}

theorem Linked.refl (s : Square) : Linked S s s := Relation.ReflTransGen.refl

theorem Linked.trans {s t u : Square} (h : Linked S s t) (h' : Linked S t u) : Linked S s u :=
  Relation.ReflTransGen.trans h h'

theorem Linked.of_step {s t : Square} (hs : S s) (ht : S t) (h : Adjacent s t) : Linked S s t :=
  Relation.ReflTransGen.single ⟨hs, ht, h⟩

theorem Linked.symm {s t : Square} (h : Linked S s t) : Linked S t s := by
  induction h with
  | refl => exact Linked.refl s
  | tail _ hstep ih => exact (Linked.of_step hstep.2.1 hstep.1 hstep.2.2.symm).trans ih

theorem Linked.mono (hS : ∀ s, S s → S' s) {s t : Square} (h : Linked S s t) :
    Linked S' s t := by
  induction h with
  | refl => exact Linked.refl s
  | tail _ hstep ih => exact ih.trans (Linked.of_step (hS _ hstep.1) (hS _ hstep.2.1) hstep.2.2)

/-- A set whose squares are all linked to one of them is connected. -/
theorem connected_of_linked (a : Square) (h : ∀ s, S s → Linked S a s) : Connected S :=
  fun s t hs ht => (h s hs).symm.trans (h t ht)

/-- The squares of a row (`horizontal`) or of a column. -/
def onLine (horizontal : Bool) (fixed i : ℕ) : Square :=
  if horizontal then (fixed, i) else (i, fixed)

theorem adjacent_onLine (horizontal : Bool) (fixed i : ℕ) :
    Adjacent (onLine horizontal fixed i) (onLine horizontal fixed (i + 1)) := by
  cases horizontal <;> simp [Adjacent, onLine]

/-- A full stretch of a line links its first square to the others. -/
theorem linked_of_line {horizontal : Bool} {fixed i n : ℕ}
    (h : ∀ j, i ≤ j → j ≤ i + n → S (onLine horizontal fixed j)) :
    Linked S (onLine horizontal fixed i) (onLine horizontal fixed (i + n)) := by
  induction n with
  | zero => exact Linked.refl _
  | succ n ih =>
    refine (ih fun j h₁ h₂ => h j h₁ (by omega)).trans (Linked.of_step ?_ ?_ (adjacent_onLine _ _ _))
    · exact h _ (by omega) (by omega)
    · exact h _ (by omega) (by omega)

end ScrabbleMagyar.Grid
