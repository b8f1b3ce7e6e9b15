import ScrabbleMagyar.Foundations.Runs

/-!
# Calls that run at the same time

Several calls work on one shared state. Each is a local state that `advance` takes one atomic
step further, a step being what the call does under one lock; a call that has finished leaves
the pool. A run of the pool is a list of `Move`s, so every interleaving of every number of calls
is a run.

* `Owing Good Owes`: for every key, either the shared state is good or a running call still owes
  its repair. Without running calls it says that the shared state is good (`Owing.settled`).
* `owing_step`: what one call has to guarantee about its own step for `Owing` to be kept, whatever
  the other calls are doing.
-/

namespace ScrabbleMagyar.Calls

/-- The shared state and the local states of the calls that are running. -/
structure Pool (σ κ : Type*) where
  shared : σ
  running : List κ

/-- A new call, or the next step of the `n`-th running one. -/
inductive Move (ρ : Type*)
  | call (request : ρ)
  | resume (n : ℕ)

variable {σ κ ρ κey : Type*} (start : ρ → κ) (advance : σ → κ → σ × Option κ)

namespace Pool

/-- The calls other than the `n`-th. -/
def others (p : Pool σ κ) (n : ℕ) : List κ := p.running.eraseIdx n

/-- The pool after a call has taken a step. -/
def settle (p : Pool σ κ) (n : ℕ) (r : σ × Option κ) : Pool σ κ :=
  ⟨r.1, match r.2 with
    | some c => p.running.set n c
    | none => p.running.eraseIdx n⟩

/-- The pool after a move. -/
def step (p : Pool σ κ) : Move ρ → Pool σ κ
  | .call request => ⟨p.shared, p.running ++ [start request]⟩
  | .resume n => match p.running[n]? with
    | some c => p.settle n (advance p.shared c)
    | none => p

theorem step_resume {p : Pool σ κ} {n : ℕ} {c : κ} (hc : p.running[n]? = some c) :
    p.step start advance (.resume n) = p.settle n (advance p.shared c) := by
  simp only [step, hc]

theorem step_resume_none {p : Pool σ κ} {n : ℕ} (hc : p.running[n]? = none) :
    p.step start advance (.resume n) = p := by
  simp only [step, hc]

/-- No call is running. -/
def Quiet (p : Pool σ κ) : Prop := p.running = []

end Pool

theorem mem_set_iff {l : List κ} {n : ℕ} (hn : n < l.length) (c d : κ) :
    d ∈ l.set n c ↔ d = c ∨ d ∈ l.eraseIdx n := by
  rw [List.eraseIdx_eq_take_drop_succ, List.set_eq_take_append_cons_drop, if_pos hn]
  simp only [List.mem_append, List.mem_cons]
  tauto

/-- A running call is the `n`-th or one of the others. -/
theorem mem_running_iff {p : Pool σ κ} {n : ℕ} {c : κ} (hc : p.running[n]? = some c) (d : κ) :
    d ∈ p.running ↔ d = c ∨ d ∈ p.others n := by
  obtain ⟨hn, hget⟩ := List.getElem?_eq_some_iff.mp hc
  have hset : p.running.set n c = p.running := by rw [← hget, List.set_getElem_self]
  conv_lhs => rw [← hset]
  exact mem_set_iff hn c d

/-- The calls after the `n`-th one has taken a step: what is left of it, and the others. -/
theorem mem_settle_iff {p : Pool σ κ} {n : ℕ} {c : κ} (hc : p.running[n]? = some c)
    (r : σ × Option κ) (d : κ) : d ∈ (p.settle n r).running ↔ r.2 = some d ∨ d ∈ p.others n := by
  obtain ⟨hn, -⟩ := List.getElem?_eq_some_iff.mp hc
  unfold Pool.settle
  cases hr : r.2 with
  | none => simp [Pool.others]
  | some c' =>
    simp only [mem_set_iff hn, Option.some.injEq, Pool.others]
    constructor
    · rintro (rfl | h)
      · exact Or.inl rfl
      · exact Or.inr h
    · rintro (rfl | h)
      · exact Or.inl rfl
      · exact Or.inr h

/-! ## Owed repairs -/

variable (Good : σ → κey → Prop) (Owes : κ → κey → Prop)

/-- Every key is good, or a running call owes its repair. -/
def Owing (p : Pool σ κ) : Prop :=
  ∀ k, Good p.shared k ∨ ∃ c ∈ p.running, Owes c k

variable {Good Owes}

/-- Without running calls nothing is owed. -/
theorem Owing.settled {p : Pool σ κ} (h : Owing Good Owes p) (hq : p.Quiet) (k : κey) :
    Good p.shared k := by
  rcases h k with hg | ⟨c, hc, -⟩
  · exact hg
  · rw [hq] at hc
    cases hc

/-- **The debt rule.** A step of a call keeps `Owing` when every key that was good, or whose
repair this call owed, is good after it or owed by what is left of the call, unless another call
owes it anyway. -/
theorem owing_step {p : Pool σ κ} (h : Owing Good Owes p) (m : Move ρ)
    (hstep : ∀ n c, m = .resume n → p.running[n]? = some c → ∀ k,
      (Good p.shared k ∨ Owes c k) → (∀ d ∈ p.others n, ¬ Owes d k) →
        Good (advance p.shared c).1 k ∨ ∃ c', (advance p.shared c).2 = some c' ∧ Owes c' k) :
    Owing Good Owes (p.step start advance m) := by
  intro k
  cases m with
  | call request =>
    rcases h k with hg | ⟨c, hc, ho⟩
    · exact Or.inl hg
    · exact Or.inr ⟨c, List.mem_append_left _ hc, ho⟩
  | resume n =>
    cases hc : p.running[n]? with
    | none =>
      rw [Pool.step_resume_none start advance hc]
      exact h k
    | some c =>
      rw [Pool.step_resume start advance hc]
      by_cases hothers : ∃ d ∈ p.others n, Owes d k
      · obtain ⟨d, hd, ho⟩ := hothers
        exact Or.inr ⟨d, (mem_settle_iff hc _ d).mpr (Or.inr hd), ho⟩
      · have hnone : ∀ d ∈ p.others n, ¬ Owes d k := fun d hd ho => hothers ⟨d, hd, ho⟩
        have hbefore : Good p.shared k ∨ Owes c k := by
          rcases h k with hg | ⟨d, hd, ho⟩
          · exact Or.inl hg
          · rcases (mem_running_iff hc d).mp hd with rfl | hd
            · exact Or.inr ho
            · exact absurd ho (hnone d hd)
        rcases hstep n c rfl hc k hbefore hnone with hg | ⟨c', hc', ho⟩
        · exact Or.inl hg
        · exact Or.inr ⟨c', (mem_settle_iff hc _ c').mpr (Or.inl hc'), ho⟩

end ScrabbleMagyar.Calls
