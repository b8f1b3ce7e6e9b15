import Mathlib.Data.List.Induction

/-!
# What has happened in a run

A run is the list of its inputs. What is said of a step of it is said of the input and of the
inputs before it, so that a statement about the past can speak of the past of that past.

* `Since P Q l`: some step of the run met `P`, and every step after it met `Q`.
* `Once P l`: some step of the run met `P`.

The rules follow the last step of the run, which is how an invariant about the past is proved: a
step meets `P` (`Since.now`), or the invariant carries over a step that meets `Q` (`Since.later`).
-/

namespace ScrabbleMagyar.Past

variable {ι : Type*}

inductive Since (P Q : List ι → ι → Prop) : List ι → Prop
  | now {l : List ι} {i : ι} (h : P l i) : Since P Q (l ++ [i])
  | later {l : List ι} {i : ι} (h : Since P Q l) (hq : Q l i) : Since P Q (l ++ [i])

def Once (P : List ι → ι → Prop) : List ι → Prop := Since P fun _ _ => True

variable {P P' Q Q' : List ι → ι → Prop} {l : List ι} {i : ι}

/-- The step that met `P`, and the steps after it. -/
theorem since_iff : Since P Q l ↔ ∃ l₁ i l₂, l = l₁ ++ i :: l₂ ∧ P l₁ i ∧
    ∀ l₃ j l₄, l₂ = l₃ ++ j :: l₄ → Q (l₁ ++ i :: l₃) j := by
  constructor
  · intro h
    induction h with
    | @now l i h => exact ⟨l, i, [], rfl, h, fun l₃ j l₄ hnil => by simp at hnil⟩
    | @later l k h hq ih =>
      obtain ⟨l₁, i, l₂, rfl, hp, hall⟩ := ih
      refine ⟨l₁, i, l₂ ++ [k], by simp, hp, fun l₃ j l₄ heq => ?_⟩
      induction l₄ using List.reverseRecOn with
      | nil =>
        obtain ⟨rfl, hk⟩ := List.append_inj' heq rfl
        obtain rfl : k = j := by simpa using hk
        exact hq
      | append_singleton l₄ m _ =>
        rw [← List.cons_append, ← List.append_assoc] at heq
        exact hall l₃ j l₄ (List.append_inj' heq rfl).1
  · rintro ⟨l₁, i, l₂, rfl, hp, hall⟩
    induction l₂ using List.reverseRecOn with
    | nil => exact .now hp
    | append_singleton l₂ k ih =>
      have h := ih fun l₃ j l₄ heq => hall l₃ j (l₄ ++ [k]) (by rw [heq]; simp)
      have hlast := Since.later h (hall l₂ k [] rfl)
      rwa [List.append_assoc, List.cons_append] at hlast

theorem Since.mono (h : Since P Q l) (hP : ∀ l i, P l i → P' l i) (hQ : ∀ l i, Q l i → Q' l i) :
    Since P' Q' l := by
  induction h with
  | now h => exact .now (hP _ _ h)
  | later _ hq ih => exact .later ih (hQ _ _ hq)

theorem Once.now (h : P l i) : Once P (l ++ [i]) := Since.now h

theorem Once.later (h : Once P l) (i : ι) : Once P (l ++ [i]) := Since.later h trivial

theorem Once.mono (h : Once P l) (hP : ∀ l i, P l i → P' l i) : Once P' l :=
  Since.mono h hP fun _ _ h => h

end ScrabbleMagyar.Past
