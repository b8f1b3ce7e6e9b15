import Mathlib.Algebra.Order.Group.Defs
import Mathlib.Data.List.Basic
import Mathlib.Tactic.Common
import Mathlib.Tactic.Linarith

/-!
# Sliding windows

Stamps of a clock that does not run backwards, oldest first. `within now window` are those that
lie in the window that ends now. Dropping stale stamps from the front leaves just these
(`trim_eq_within`), and a stamp that has left a window never comes back into it, nor into a
shorter one (`within_within`).
-/

namespace ScrabbleMagyar.Window

variable {T : Type*} [AddCommGroup T] [LinearOrder T]

/-- The stamps in the window that ends now; a stamp as old as the window is out. -/
def within (now window : T) (stamps : List T) : List T :=
  stamps.filter fun t => decide (now - t < window)

/-- Drop stale stamps from the front. -/
def trim (now window : T) (stamps : List T) : List T :=
  stamps.dropWhile fun t => decide (window ≤ now - t)

variable {now now' window window' : T} {stamps : List T}

@[simp] theorem within_nil : within now window [] = [] := rfl

theorem within_append (l₁ l₂ : List T) :
    within now window (l₁ ++ l₂) = within now window l₁ ++ within now window l₂ :=
  List.filter_append ..

theorem within_eq_nil (h : ∀ t ∈ stamps, window ≤ now - t) : within now window stamps = [] := by
  refine List.filter_eq_nil_iff.mpr fun t ht => ?_
  simpa using h t ht

theorem trim_sublist (now window : T) (stamps : List T) :
    (trim now window stamps).Sublist stamps := List.dropWhile_sublist _

section

variable [IsOrderedAddMonoid T]

/-- A stamp leaves every window for good. -/
theorem within_within (hnow : now ≤ now') (hwindow : window' ≤ window) (stamps : List T) :
    within now' window' (within now window stamps) = within now' window' stamps := by
  unfold within
  rw [List.filter_filter]
  refine List.filter_congr fun t _ => ?_
  by_cases h : now' - t < window'
  · have hle : now - t ≤ now' - t := sub_le_sub_right hnow t
    have hlt : now - t < window := (hle.trans_lt h).trans_le hwindow
    simp [h, hlt]
  · simp [h]

/-- What two lists have in a window they have in every later and shorter one. -/
theorem within_congr {l l' : List T} (h : within now window l = within now window l')
    (hnow : now ≤ now') (hwindow : window' ≤ window) :
    within now' window' l = within now' window' l' := by
  rw [← within_within hnow hwindow l, h, within_within hnow hwindow l']

/-- Of stamps in order the stale ones come first. -/
theorem trim_eq_within (hsorted : stamps.Pairwise (· ≤ ·)) (now window : T) :
    trim now window stamps = within now window stamps := by
  induction stamps with
  | nil => rfl
  | cons t stamps ih =>
    obtain ⟨hfirst, hrest⟩ := List.pairwise_cons.mp hsorted
    unfold trim within at *
    by_cases h : window ≤ now - t
    · rw [List.dropWhile_cons_of_pos (by simpa using h),
        List.filter_cons_of_neg (by simpa using h)]
      exact ih hrest
    · have hall : ∀ u ∈ t :: stamps, now - u < window := by
        intro u hu
        rcases List.mem_cons.mp hu with rfl | hu
        · exact not_le.mp h
        · exact (sub_le_sub_left (hfirst u hu) now).trans_lt (not_le.mp h)
      rw [List.dropWhile_cons_of_neg (by simpa using h)]
      exact (List.filter_eq_self.mpr fun u hu => by simpa using hall u hu).symm

end

end ScrabbleMagyar.Window
