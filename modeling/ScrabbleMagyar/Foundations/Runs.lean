import Mathlib.Data.List.Basic
import Mathlib.Data.List.Induction
import Mathlib.Tactic.Common

/-!
# Runs of a deterministic system with inputs

A system is a step function `step : σ → ι → σ`: an input `ι` carries the operation, its
arguments and whatever the environment supplies (a clock value, a shuffle). A run is the
list of its inputs. Everything a development proves about all runs is proved about one step
and lifted by a rule of this module.

* `run_invariant`: what every allowed step preserves holds at the end of every allowed run.
* `run_history`: the same for what relates a state to the run that led to it.
* `count_add_le`: a measure that no step increases and that every counted step decreases
  bounds the number of counted steps of a run.
-/

namespace ScrabbleMagyar.Runs

variable {σ ι : Type*} (step : σ → ι → σ)

/-- The state after the inputs `l`. -/
def run (s : σ) (l : List ι) : σ := l.foldl step s

@[simp] theorem run_nil (s : σ) : run step s [] = s := rfl

@[simp] theorem run_cons (s : σ) (i : ι) (l : List ι) :
    run step s (i :: l) = run step (step s i) l := rfl

theorem run_append (s : σ) (l₁ l₂ : List ι) :
    run step s (l₁ ++ l₂) = run step (run step s l₁) l₂ := by
  simp [run]

/-- Every step of the run meets `Q` in the state in which it is taken. -/
def Along (Q : σ → ι → Prop) : σ → List ι → Prop
  | _, [] => True
  | s, i :: l => Q s i ∧ Along Q (step s i) l

@[simp] theorem along_nil (Q : σ → ι → Prop) (s : σ) : Along step Q s [] := trivial

@[simp] theorem along_cons (Q : σ → ι → Prop) (s : σ) (i : ι) (l : List ι) :
    Along step Q s (i :: l) ↔ Q s i ∧ Along step Q (step s i) l := Iff.rfl

theorem along_append (Q : σ → ι → Prop) (s : σ) (l₁ l₂ : List ι) :
    Along step Q s (l₁ ++ l₂) ↔ Along step Q s l₁ ∧ Along step Q (run step s l₁) l₂ := by
  induction l₁ generalizing s with
  | nil => simp
  | cons i l₁ ih => simp [ih, and_assoc]

theorem Along.mono {Q Q' : σ → ι → Prop} (h : ∀ s i, Q s i → Q' s i) {s : σ} {l : List ι}
    (hl : Along step Q s l) : Along step Q' s l := by
  induction l generalizing s with
  | nil => trivial
  | cons i l ih => exact ⟨h s i hl.1, ih hl.2⟩

theorem Along.and {Q Q' : σ → ι → Prop} {s : σ} {l : List ι} (hl : Along step Q s l)
    (hl' : Along step Q' s l) : Along step (fun s i => Q s i ∧ Q' s i) s l := by
  induction l generalizing s with
  | nil => trivial
  | cons i l ih => exact ⟨⟨hl.1, hl'.1⟩, ih hl.2 hl'.2⟩

/-- A condition on the inputs alone holds along a run when it holds of every input. -/
theorem along_of_forall {Q : σ → ι → Prop} {l : List ι} (h : ∀ i ∈ l, ∀ s, Q s i) (s : σ) :
    Along step Q s l := by
  induction l generalizing s with
  | nil => trivial
  | cons i l ih =>
    exact ⟨h i (by simp) s, ih (fun j hj => h j (List.mem_cons_of_mem i hj)) _⟩

/-! ## Invariants -/

/-- **The invariant rule**: what every step meeting `Q` preserves holds after every run whose
steps meet `Q`. -/
theorem run_invariant {P : σ → Prop} {Q : σ → ι → Prop}
    (hstep : ∀ s i, P s → Q s i → P (step s i)) {s : σ} (hs : P s) {l : List ι}
    (hl : Along step Q s l) : P (run step s l) := by
  induction l generalizing s with
  | nil => exact hs
  | cons i l ih => exact ih (hstep s i hs hl.1) hl.2

/-- **The history rule**: what relates a state to the inputs that led to it holds after every
run when every further input keeps it. -/
theorem run_history {P : List ι → σ → Prop} {s : σ} (hs : P [] s)
    (hstep : ∀ l i, P l (run step s l) → P (l ++ [i]) (step (run step s l) i)) (l : List ι) :
    P l (run step s l) := by
  induction l using List.reverseRecOn with
  | nil => exact hs
  | append_singleton l i ih =>
    rw [run_append]
    exact hstep l i ih

/-- The states reached from `Init` by steps meeting `Q`. -/
def Reaches (Init : σ → Prop) (Q : σ → ι → Prop) (s : σ) : Prop :=
  ∃ s₀ l, Init s₀ ∧ Along step Q s₀ l ∧ run step s₀ l = s

theorem Reaches.init {Init : σ → Prop} {Q : σ → ι → Prop} {s : σ} (h : Init s) :
    Reaches step Init Q s := ⟨s, [], h, trivial, rfl⟩

theorem Reaches.next {Init : σ → Prop} {Q : σ → ι → Prop} {s : σ}
    (h : Reaches step Init Q s) {i : ι} (hi : Q s i) : Reaches step Init Q (step s i) := by
  obtain ⟨s₀, l, h₀, hl, rfl⟩ := h
  refine ⟨s₀, l ++ [i], h₀, ?_, by simp [run_append]⟩
  rw [along_append]
  exact ⟨hl, hi, trivial⟩

theorem Reaches.run {Init : σ → Prop} {Q : σ → ι → Prop} {s : σ}
    (h : Reaches step Init Q s) {l : List ι} (hl : Along step Q s l) :
    Reaches step Init Q (run step s l) :=
  run_invariant step (fun _ _ hs hi => Reaches.next step hs hi) h hl

theorem Reaches.mono {Init : σ → Prop} {Q Q' : σ → ι → Prop} (hQ : ∀ s i, Q s i → Q' s i)
    {s : σ} (h : Reaches step Init Q s) : Reaches step Init Q' s := by
  obtain ⟨s₀, l, h₀, hl, rfl⟩ := h
  exact ⟨s₀, l, h₀, hl.mono step hQ, rfl⟩

/-- An invariant holds in every reachable state. -/
theorem Reaches.invariant {Init P : σ → Prop} {Q : σ → ι → Prop} (hinit : ∀ s, Init s → P s)
    (hstep : ∀ s i, P s → Q s i → P (step s i)) {s : σ} (h : Reaches step Init Q s) : P s := by
  obtain ⟨s₀, l, h₀, hl, rfl⟩ := h
  exact run_invariant step hstep (hinit s₀ h₀) hl

/-! ## Counting steps -/

/-- The number of steps of a run that are taken in a state in which `p` counts them. -/
def count (p : σ → ι → Bool) : σ → List ι → ℕ
  | _, [] => 0
  | s, i :: l => (if p s i then 1 else 0) + count p (step s i) l

@[simp] theorem count_nil (p : σ → ι → Bool) (s : σ) : count step p s [] = 0 := rfl

theorem count_cons (p : σ → ι → Bool) (s : σ) (i : ι) (l : List ι) :
    count step p s (i :: l) = (if p s i then 1 else 0) + count step p (step s i) l := rfl

theorem count_append (p : σ → ι → Bool) (s : σ) (l₁ l₂ : List ι) :
    count step p s (l₁ ++ l₂) = count step p s l₁ + count step p (run step s l₁) l₂ := by
  induction l₁ generalizing s with
  | nil => simp
  | cons i l₁ ih =>
    rw [List.cons_append, count_cons, count_cons, run_cons, ih]
    omega

/-- **The measure rule**: a measure that no step increases and that every counted step
decreases bounds the number of counted steps of a run, with what is left of it to spare. -/
theorem count_add_le {P : σ → Prop} {Q : σ → ι → Prop} {p : σ → ι → Bool} {μ : σ → ℕ}
    (hP : ∀ s i, P s → Q s i → P (step s i))
    (hle : ∀ s i, P s → Q s i → μ (step s i) ≤ μ s)
    (hlt : ∀ s i, P s → Q s i → p s i = true → μ (step s i) < μ s)
    {s : σ} (hs : P s) {l : List ι} (hl : Along step Q s l) :
    count step p s l + μ (run step s l) ≤ μ s := by
  induction l generalizing s with
  | nil => simp
  | cons i l ih =>
    have htail := ih (hP s i hs hl.1) hl.2
    rw [count_cons, run_cons]
    by_cases hp : p s i = true
    · have := hlt s i hs hl.1 hp
      simp only [hp, if_true]
      omega
    · have := hle s i hs hl.1
      simp only [hp, Bool.false_eq_true, if_false]
      omega

end ScrabbleMagyar.Runs
