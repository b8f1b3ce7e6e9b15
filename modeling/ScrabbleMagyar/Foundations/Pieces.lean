import Mathlib.Algebra.BigOperators.Group.List.Basic
import Mathlib.Algebra.Order.Monoid.Unbundled.Basic
import Mathlib.Algebra.Order.Monoid.Defs
import Mathlib.Logic.Function.Basic
import Mathlib.Tactic.Common

/-!
# The cheapest cover by pieces

A row of places is covered by pieces, `arc i s` being the piece for the `s` places after the
first `i`. The table `run` goes over the places once and offers to every place the covers that
end with one more piece; a cover replaces the one found before only if it is cheaper.

* `run_cover`: what the table holds is a cover at its cost.
* `run_le`: the table holds a cover of every place that has one, and none is cheaper.
-/

namespace ScrabbleMagyar.Pieces

variable {τ γ : Type*}

/-- A list of pieces covers the first places. -/
inductive Cover (arc : ℕ → ℕ → Option τ) (sizes : List ℕ) : List τ → ℕ → Prop
  | nil : Cover arc sizes [] 0
  | snoc {l : List τ} {i s : ℕ} {t : τ} (cover : Cover arc sizes l i) (size : s ∈ sizes)
      (piece : arc i s = some t) : Cover arc sizes (l ++ [t]) (i + s)

/-- The best cover of the first places found so far, with its cost. -/
abbrev Best (γ τ : Type*) := ℕ → Option (γ × List τ)

/-- The cost of a cover. -/
def total [AddCommMonoid γ] (cost : τ → γ) (l : List τ) : γ := (l.map cost).sum

@[simp] theorem total_nil [AddCommMonoid γ] (cost : τ → γ) : total cost [] = 0 := rfl

@[simp] theorem total_snoc [AddCommMonoid γ] (cost : τ → γ) (l : List τ) (t : τ) :
    total cost (l ++ [t]) = total cost l + cost t := by
  simp [total]

/-- The table holds a cover of the first `k` places that costs at most `c`. -/
def Reaches [LE γ] (best : Best γ τ) (k : ℕ) (c : γ) : Prop := ∃ r, best k = some r ∧ r.1 ≤ c

theorem Reaches.mono [Preorder γ] {best : Best γ τ} {k : ℕ} {c c' : γ} (h : Reaches best k c)
    (hc : c ≤ c') : Reaches best k c' := by
  obtain ⟨r, hr, hle⟩ := h
  exact ⟨r, hr, hle.trans hc⟩

section

variable [AddCommMonoid γ] [LinearOrder γ]
variable (arc : ℕ → ℕ → Option τ) (sizes : List ℕ) (cost : τ → γ)

/-- Before the first place nothing is needed. -/
def start : Best γ τ := Function.update (fun _ => none) 0 (some (0, []))

/-- Offer a cover of the first `i` places with one more piece of size `s`. -/
def offer (i : ℕ) (found : γ × List τ) (best : Best γ τ) (s : ℕ) : Best γ τ :=
  match arc i s with
  | none => best
  | some t =>
    let cand := found.1 + cost t
    if (best (i + s)).all fun r => decide (cand < r.1) then
      Function.update best (i + s) (some (cand, found.2 ++ [t]))
    else best

/-- Offer the best cover of the first `i` places with every further piece. -/
def relax (best : Best γ τ) (i : ℕ) : Best γ τ :=
  match best i with
  | none => best
  | some found => sizes.foldl (offer arc cost i found) best

def run (n : ℕ) : Best γ τ := (List.range n).foldl (relax arc sizes cost) start

theorem run_succ (n : ℕ) :
    run arc sizes cost (n + 1) = relax arc sizes cost (run arc sizes cost n) n := by
  simp [run, List.range_succ]

/-! ## What the table holds is a cover -/

/-- A found cover is one, and at its cost. -/
def Sound (k : ℕ) (found : γ × List τ) : Prop :=
  Cover arc sizes found.2 k ∧ found.1 = total cost found.2

variable {arc sizes cost}

theorem sound_offer {i s : ℕ} {found : γ × List τ} {best : Best γ τ} (hs : s ∈ sizes)
    (hfound : Sound arc sizes cost i found)
    (h : ∀ k r, best k = some r → Sound arc sizes cost k r) {k : ℕ} {r : γ × List τ}
    (hr : offer arc cost i found best s k = some r) : Sound arc sizes cost k r := by
  cases ht : arc i s with
  | none => exact h k r (by simpa only [offer, ht] using hr)
  | some t =>
    simp only [offer, ht] at hr
    split at hr
    · by_cases hk : k = i + s
      · subst hk
        rw [Function.update_self] at hr
        obtain rfl := Option.some.inj hr
        exact ⟨hfound.1.snoc hs ht, by rw [total_snoc, hfound.2]⟩
      · rw [Function.update_of_ne hk] at hr
        exact h k r hr
    · exact h k r hr

theorem sound_relax {i : ℕ} {best : Best γ τ}
    (h : ∀ k r, best k = some r → Sound arc sizes cost k r) {k : ℕ} {r : γ × List τ}
    (hr : relax arc sizes cost best i k = some r) : Sound arc sizes cost k r := by
  cases hfound : best i with
  | none => exact h k r (by simpa only [relax, hfound] using hr)
  | some found =>
    simp only [relax, hfound] at hr
    have hi := h i found hfound
    -- the sizes offered one after the other
    have hall : ∀ (l : List ℕ), (∀ s ∈ l, s ∈ sizes) → ∀ best : Best γ τ,
        (∀ k r, best k = some r → Sound arc sizes cost k r) →
        ∀ k r, l.foldl (offer arc cost i found) best k = some r → Sound arc sizes cost k r := by
      intro l
      induction l with
      | nil => exact fun _ best hbest => hbest
      | cons s l ih =>
        intro hl best hbest
        refine ih (fun s hs => hl s (List.mem_cons_of_mem _ hs)) _ fun k r hr => ?_
        exact sound_offer (hl s List.mem_cons_self) hi hbest hr
    exact hall sizes (fun _ hs => hs) best h k r hr

/-- **What the table holds is a cover at its cost.** -/
theorem run_cover (n : ℕ) {k : ℕ} {r : γ × List τ} (hr : run arc sizes cost n k = some r) :
    Cover arc sizes r.2 k ∧ r.1 = total cost r.2 := by
  induction n generalizing k r with
  | zero =>
    by_cases hk : k = 0
    · subst hk
      obtain rfl : (0, []) = r := by simpa [run, start] using hr
      exact ⟨.nil, rfl⟩
    · simp [run, start, Function.update_of_ne hk] at hr
  | succ n ih =>
    rw [run_succ] at hr
    exact sound_relax (fun k r h => ih h) hr

/-! ## No cover is cheaper -/

theorem Reaches.offer {best : Best γ τ} {k : ℕ} {c : γ} (h : Reaches best k c) (i s : ℕ)
    (found : γ × List τ) : Reaches (offer arc cost i found best s) k c := by
  obtain ⟨r, hr, hle⟩ := h
  unfold Pieces.offer
  split
  · exact ⟨r, hr, hle⟩
  rename_i t ht
  simp only
  split
  · rename_i hbetter
    by_cases hk : k = i + s
    · subst hk
      rw [hr, Option.all_some, decide_eq_true_eq] at hbetter
      exact ⟨_, Function.update_self .., hbetter.le.trans hle⟩
    · exact ⟨r, by rw [Function.update_of_ne hk, hr], hle⟩
  · exact ⟨r, hr, hle⟩

theorem reaches_offer {i s : ℕ} {t : τ} (ht : arc i s = some t) (found : γ × List τ)
    (best : Best γ τ) : Reaches (offer arc cost i found best s) (i + s) (found.1 + cost t) := by
  unfold offer
  rw [ht]
  simp only
  split
  · exact ⟨_, Function.update_self .., le_rfl⟩
  · rename_i hworse
    cases hbest : best (i + s) with
    | none => simp [hbest] at hworse
    | some r => exact ⟨r, hbest, by simpa [hbest] using hworse⟩

theorem Reaches.foldl_offer {best : Best γ τ} {k : ℕ} {c : γ} (h : Reaches best k c) (i : ℕ)
    (found : γ × List τ) (l : List ℕ) :
    Reaches (l.foldl (Pieces.offer arc cost i found) best) k c := by
  induction l generalizing best with
  | nil => exact h
  | cons s l ih => exact ih (h.offer i s found)

theorem reaches_foldl_offer {i s : ℕ} {t : τ} (ht : arc i s = some t) (found : γ × List τ)
    {l : List ℕ} (hs : s ∈ l) (best : Best γ τ) :
    Reaches (l.foldl (offer arc cost i found) best) (i + s) (found.1 + cost t) := by
  induction l generalizing best with
  | nil => cases hs
  | cons s' l ih =>
    rw [List.foldl_cons]
    obtain rfl | hs := List.mem_cons.mp hs
    · exact (reaches_offer ht found best).foldl_offer i found l
    · exact ih hs _

theorem Reaches.relax {best : Best γ τ} {k : ℕ} {c : γ} (h : Reaches best k c) (i : ℕ) :
    Reaches (relax arc sizes cost best i) k c := by
  unfold Pieces.relax
  split
  · exact h
  · exact h.foldl_offer i _ sizes

theorem Reaches.run_succ {n k : ℕ} {c : γ} (h : Reaches (run arc sizes cost n) k c) :
    Reaches (run arc sizes cost (n + 1)) k c := by
  rw [Pieces.run_succ]
  exact h.relax n

theorem reaches_run_zero (n : ℕ) : Reaches (run arc sizes cost n) 0 0 := by
  induction n with
  | zero => exact ⟨(0, []), rfl, le_rfl⟩
  | succ n ih => exact ih.run_succ

variable [IsOrderedAddMonoid γ]

/-- After `n` places every cover is in the table whose last piece starts at one of them. -/
theorem reaches_snoc (hpos : ∀ s ∈ sizes, 0 < s) {n i s : ℕ} {l : List τ} {t : τ} (hi : i < n)
    (cover : Cover arc sizes l i) (size : s ∈ sizes) (piece : arc i s = some t) :
    Reaches (run arc sizes cost n) (i + s) (total cost (l ++ [t])) := by
  induction n generalizing i s l t with
  | zero => omega
  | succ n ih =>
    by_cases hlast : i = n
    · -- the pieces are not empty, so nothing is offered to this place any more
      subst hlast
      have hfinal : Reaches (run arc sizes cost i) i (total cost l) := by
        cases cover with
        | nil => exact reaches_run_zero 0
        | snoc cover' size' piece' => exact ih (by have := hpos _ size'; omega) cover' size' piece'
      obtain ⟨r, hr, hle⟩ := hfinal
      rw [Pieces.run_succ, Pieces.relax, hr]
      refine (reaches_foldl_offer piece r size _).mono ?_
      rw [total_snoc]
      exact add_le_add hle le_rfl
    · exact (ih (by omega) cover size piece).run_succ

/-- **No cover is cheaper** than the one the table holds. -/
theorem run_le (cost : τ → γ) (hpos : ∀ s ∈ sizes, 0 < s) {n : ℕ} {l : List τ}
    (h : Cover arc sizes l n) :
    Reaches (run arc sizes cost n) n (total cost l) := by
  cases h with
  | nil => exact reaches_run_zero 0
  | snoc cover size piece =>
    have := hpos _ size
    exact reaches_snoc hpos (by omega) cover size piece

end

end ScrabbleMagyar.Pieces
