import Mathlib.Data.List.Infix
import Mathlib.Tactic.Common

/-!
# Searches that may be interrupted

A search grows a list; the same search in a program that may be interrupted, at any point between
two of its steps, keeps what it had found so far. `Interrupts quiet f g` compares the two: `g` ends
with the list of `f`, or it was interrupted and has a part of it, and in a quiet run it is never
interrupted. The rules follow the way the program is written.
-/

namespace ScrabbleMagyar.Interrupt

variable {α ε σ : Type}

/-- The program `g` grows the list as `f` does until it is interrupted. -/
structure Interrupts (quiet : Prop) (f : List α → List α) (g : EStateM ε (List α × σ) Unit) :
    Prop where
  grows : ∀ l, l <+: f l
  done : ∀ l c r, g (l, c) = .ok () r → r.1 = f l
  cut : ∀ l c e r, g (l, c) = .error e r → l <+: r.1 ∧ r.1 <+: f l
  ends : quiet → ∀ l c, ∃ c', g (l, c) = .ok () (f l, c')

variable {quiet : Prop} {f f' : List α → List α} {g g' : EStateM ε (List α × σ) Unit}

theorem interrupts_pure : Interrupts quiet id (pure () : EStateM ε (List α × σ) Unit) := by
  refine ⟨fun _ => List.prefix_rfl, fun l c r h => ?_, fun l c e r h => ?_, fun _ l c => ⟨c, rfl⟩⟩
  · cases h
    rfl
  · cases h

/-- A step that is not interrupted. -/
theorem interrupts_modify (hf : ∀ l, l <+: f l) :
    Interrupts quiet f (modify fun s => (f s.1, s.2) : EStateM ε (List α × σ) Unit) := by
  refine ⟨hf, fun l c r h => ?_, fun l c e r h => ?_, fun _ l c => ⟨c, rfl⟩⟩
  · cases h
    rfl
  · cases h

/-- A step that leaves the list alone. -/
theorem interrupts_aside (hok : ∀ s r, g s = .ok () r → r.1 = s.1)
    (herror : ∀ s e r, g s = .error e r → r.1 = s.1)
    (hends : quiet → ∀ s, ∃ c, g s = .ok () (s.1, c)) : Interrupts quiet id g :=
  ⟨fun _ => List.prefix_rfl, fun l c r h => hok (l, c) r h,
    fun l c e r h => by rw [herror (l, c) e r h]; exact ⟨List.prefix_rfl, List.prefix_rfl⟩,
    fun hquiet l c => hends hquiet (l, c)⟩

/-- One program after the other. -/
theorem Interrupts.bind (hf : Interrupts quiet f g) (hf' : Interrupts quiet f' g') :
    Interrupts quiet (fun l => f' (f l)) (g >>= fun _ => g') := by
  have hbind (s : List α × σ) : (g >>= fun _ => g') s = match g s with
    | .ok _ r => g' r
    | .error e r => .error e r := by
    change EStateM.bind g (fun _ => g') s = _
    unfold EStateM.bind
    cases g s <;> rfl
  refine ⟨fun l => (hf.grows l).trans (hf'.grows _), fun l c r h => ?_, fun l c e r h => ?_,
    fun hquiet l c => ?_⟩
  · rw [hbind] at h
    split at h
    · rename_i mid hg
      rw [hf'.done _ _ r h, hf.done l c mid hg]
    · cases h
  · rw [hbind] at h
    split at h
    · rename_i mid hg
      have hmid := hf.done l c mid hg
      obtain ⟨h₁, h₂⟩ := hf'.cut _ _ e r h
      rw [hmid] at h₁ h₂
      exact ⟨(hf.grows l).trans h₁, h₂⟩
    · rename_i hg
      cases h
      obtain ⟨h₁, h₂⟩ := hf.cut l c _ _ hg
      exact ⟨h₁, h₂.trans (hf'.grows _)⟩
  · obtain ⟨c', hc'⟩ := hf.ends hquiet l c
    rw [hbind, hc']
    exact hf'.ends hquiet (f l) c'

/-- A program under a condition. -/
theorem Interrupts.ite {p : Prop} [Decidable p] (hf : p → Interrupts quiet f g)
    (hf' : ¬p → Interrupts quiet f' g') :
    Interrupts quiet (fun l => if p then f l else f' l) (if p then g else g') := by
  by_cases hp : p
  · simpa [hp] using hf hp
  · simpa [hp] using hf' hp

/-- A program for each member of a list, in its order. -/
theorem interrupts_forM {β : Type} {xs : List β} {f : β → List α → List α}
    {g : β → EStateM ε (List α × σ) Unit} (h : ∀ x ∈ xs, Interrupts quiet (f x) (g x)) :
    Interrupts quiet (fun l => xs.foldl (fun l x => f x l) l) (xs.forM g) := by
  induction xs with
  | nil => exact interrupts_pure
  | cons x xs ih =>
    change Interrupts quiet _ (g x >>= fun _ => xs.forM g)
    exact (h x List.mem_cons_self).bind (ih fun y hy => h y (List.mem_cons_of_mem x hy))

/-- What an interrupted program keeps of the list. -/
theorem Interrupts.kept (h : Interrupts quiet f g) (l : List α) (c : σ) :
    match g (l, c) with
    | .ok _ r => r.1 = f l
    | .error _ r => l <+: r.1 ∧ r.1 <+: f l := by
  split
  · rename_i r hg
    exact h.done l c r hg
  · rename_i e r hg
    exact h.cut l c e r hg

end ScrabbleMagyar.Interrupt
