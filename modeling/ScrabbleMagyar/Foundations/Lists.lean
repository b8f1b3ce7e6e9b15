import Mathlib.Algebra.BigOperators.Group.Finset.Basic
import Mathlib.Algebra.BigOperators.Group.List.Basic
import Mathlib.Data.Multiset.AddSub
import Mathlib.Data.List.GetD
import Mathlib.Tactic.Common

/-!
# Changing one element of a list

Facts about `List.modify` that a record of seats, cells or accounts is reasoned with: what a
map or a sum over the elements makes of the change. And the removal of several indices from a
list, which splits it into what is taken and what is left (`foldl_eraseIdx_perm`). A stock is
given by numbers (`spread`): what is left of it is what was not taken (`perm_spread_sub`).
-/

namespace ScrabbleMagyar.Lists

variable {α β : Type*}

/-- A map that does not see the change sees the list unchanged. -/
theorem map_modify_eq {f : α → α} {h : α → β} (hf : ∀ a, h (f a) = h a) (l : List α) (i : ℕ) :
    (l.modify i f).map h = l.map h := by
  induction l generalizing i with
  | nil => cases i <;> rfl
  | cons a l ih => cases i <;> simp [hf, ih]

theorem mem_modify {f : α → α} {l : List α} {i : ℕ} {b : α} (h : b ∈ l.modify i f) :
    b ∈ l ∨ ∃ a ∈ l, l[i]? = some a ∧ b = f a := by
  induction l generalizing i with
  | nil => simp at h
  | cons a l ih =>
    cases i with
    | zero =>
      rcases List.mem_cons.mp (by simpa using h) with rfl | hb
      · exact Or.inr ⟨a, by simp, rfl, rfl⟩
      · exact Or.inl (by simp [hb])
    | succ i =>
      rcases List.mem_cons.mp (by simpa using h) with rfl | hb
      · exact Or.inl (by simp)
      · rcases ih hb with hb | ⟨c, hc, hi, rfl⟩
        · exact Or.inl (by simp [hb])
        · exact Or.inr ⟨c, by simp [hc], by simpa using hi, rfl⟩

/-- Only what a change makes of the element it meets matters. -/
theorem modify_congr {f h : α → α} {l : List α} {i : ℕ} (hfh : ∀ a, l[i]? = some a → f a = h a) :
    l.modify i f = l.modify i h := by
  refine List.ext_getElem? fun j => ?_
  by_cases hij : i = j
  · subst hij
    cases ha : l[i]? with
    | none => simp [ha]
    | some a => simp [ha, hfh a ha]
  · simp [hij]

/-- Changes that do not touch each other can be made in either order. -/
theorem modify_comm {f h : α → α} (hfh : ∀ a, h (f a) = f (h a)) (l : List α) (i j : ℕ) :
    (l.modify i f).modify j h = (l.modify j h).modify i f := by
  refine List.ext_getElem? fun k => ?_
  simp only [List.getElem?_modify]
  cases l[k]? with
  | none => simp
  | some a => by_cases hi : i = k <;> by_cases hj : j = k <;> simp [hi, hj, hfh]

theorem getD_modify_self {f : α → α} {l : List α} {i : ℕ} (hi : i < l.length) (d : α) :
    (l.modify i f).getD i d = f (l.getD i d) := by
  simp [List.getD_eq_getElem?_getD, hi]

theorem getD_modify_of_ne {f : α → α} {l : List α} {i j : ℕ} (h : i ≠ j) (d : α) :
    (l.modify i f).getD j d = l.getD j d := by
  simp [List.getD_eq_getElem?_getD, h]

theorem getD_mem {l : List α} {i : ℕ} (hi : i < l.length) (d : α) : l.getD i d ∈ l := by
  rw [List.getD_eq_getElem _ _ hi]
  exact List.getElem_mem hi

/-- A sum over a list in which one element is changed. -/
theorem sum_map_modify [AddCommMonoid β] (f : α → α) (h : α → β) {l : List α} {i : ℕ}
    (hi : i < l.length) (d : α) :
    ((l.modify i f).map h).sum + h (l.getD i d) = (l.map h).sum + h (f (l.getD i d)) := by
  induction l generalizing i with
  | nil => simp at hi
  | cons a l ih =>
    cases i with
    | zero => simp [add_comm, add_left_comm]
    | succ i =>
      have := ih (by simpa using hi)
      simp only [List.modify_succ_cons, List.map_cons, List.sum_cons, List.getD_cons_succ,
        add_assoc, this]

/-- The sum of the values of a list, index by index. -/
theorem sum_map_eq_sum_range [AddCommMonoid β] (f : α → β) (l : List α) (d : α) :
    (l.map f).sum = ∑ k ∈ Finset.range l.length, f (l.getD k d) := by
  induction l with
  | nil => simp
  | cons a l ih => simp [Finset.sum_range_succ', ih, add_comm]

/-- The sum of the values but one. -/
theorem sum_map_eq_add_sum_erase [AddCommMonoid β] (f : α → β) {l : List α} (d : α)
    {i : ℕ} (hi : i < l.length) :
    (l.map f).sum =
      f (l.getD i d) + ∑ k ∈ (Finset.range l.length).erase i, f (l.getD k d) := by
  rw [sum_map_eq_sum_range f l d]
  exact (Finset.add_sum_erase _ (fun k => f (l.getD k d)) (Finset.mem_range.mpr hi)).symm

/-- A key is found as before in a list of pairs that has lost those of another key. -/
theorem lookup_filter_ne [DecidableEq α] {a k : α} (h : k ≠ a) (l : List (α × β)) :
    (l.filter fun e => e.1 ≠ a).lookup k = l.lookup k := by
  induction l with
  | nil => rfl
  | cons e l ih =>
    obtain ⟨c, b⟩ := e
    by_cases hc : c = a
    · subst hc
      have hk : (k == c) = false := by simpa using h
      simp only [ne_eq, not_true_eq_false, decide_false, Bool.false_eq_true, not_false_eq_true,
        List.filter_cons_of_neg, List.lookup_cons, hk]
      exact ih
    · simp only [ne_eq, hc, not_false_eq_true, decide_true, List.filter_cons_of_pos,
        List.lookup_cons]
      split
      · rfl
      · exact ih

/-- A sublist of a list without repetitions is what the list has in common with it. -/
theorem filter_mem_of_sublist [DecidableEq α] {l m : List α} (h : l.Sublist m) (hm : m.Nodup) :
    (m.filter fun a => decide (a ∈ l)) = l := by
  induction h with
  | slnil => rfl
  | @cons l m a h ih =>
    obtain ⟨ha, hm⟩ := List.nodup_cons.mp hm
    rw [List.filter_cons_of_neg (by simpa using fun hmem => ha (h.subset hmem)), ih hm]
  | @cons_cons l m a h ih =>
    obtain ⟨ha, hm⟩ := List.nodup_cons.mp hm
    have hrest : (m.filter fun b => decide (b ∈ a :: l)) = m.filter fun b => decide (b ∈ l) := by
      refine List.filter_congr fun b hb => ?_
      have hne : b ≠ a := fun hba => ha (hba ▸ hb)
      simp [hne]
    rw [List.filter_cons_of_pos (by simp), hrest, ih hm]

/-! ## Taking out several indices -/

/-- Taking indices out from the highest down splits the list. -/
theorem foldl_eraseIdx_perm {l : List α} {is : List ℕ} (hlt : ∀ i ∈ is, i < l.length)
    (hdesc : is.Pairwise (· > ·)) (d : α) :
    ((is.map fun i => l.getD i d) ++ is.foldl List.eraseIdx l).Perm l := by
  induction is generalizing l with
  | nil => simp
  | cons i is ih =>
    have hi : i < l.length := hlt i (by simp)
    obtain ⟨hbelow, hdesc⟩ := List.pairwise_cons.mp hdesc
    have hlen : (l.eraseIdx i).length = l.length - 1 := List.length_eraseIdx_of_lt hi
    -- the indices still to come lie below `i`, so the removal does not move them
    have hsame : (is.map fun j => l.getD j d) = is.map fun j => (l.eraseIdx i).getD j d := by
      refine List.map_congr_left fun j hj => ?_
      simp [List.getD_eq_getElem?_getD, List.getElem?_eraseIdx_of_lt (hbelow j hj)]
    have hrest := ih (l := l.eraseIdx i)
      (fun j hj => by have := hbelow j hj; omega) hdesc
    rw [List.map_cons, List.foldl_cons, hsame, List.cons_append, List.getD_eq_getElem _ _ hi]
    exact (hrest.cons _).trans (List.getElem_cons_eraseIdx_perm hi)

/-! ## Stocks -/

/-- The things of a list, each as often as the numbers say. -/
def spread (l : List α) (number : α → ℕ) : List α := l.flatMap fun a => List.replicate (number a) a

theorem count_spread [DecidableEq α] {l : List α} (hl : l.Nodup) (number : α → ℕ) (a : α) :
    (spread l number).count a = if a ∈ l then number a else 0 := by
  induction l with
  | nil => rfl
  | cons b l ih =>
    obtain ⟨hb, hl⟩ := List.nodup_cons.mp hl
    have ih := ih hl
    simp only [spread, List.flatMap_cons, List.count_append, List.count_replicate,
      List.mem_cons] at ih ⊢
    rw [ih]
    by_cases hab : b = a
    · subst hab
      simp [hb]
    · simp [hab, Ne.symm hab]

/-- What is left of a stock, together with what was taken from it, is the stock. -/
theorem perm_spread_sub [DecidableEq α] {l used : List α} (hl : l.Nodup) (hmem : ∀ a, a ∈ l)
    {stock : α → ℕ} (hused : ∀ a, used.count a ≤ stock a) :
    (used ++ spread l fun a => stock a - used.count a).Perm (spread l stock) := by
  refine List.perm_iff_count.mpr fun a => ?_
  rw [List.count_append, count_spread hl, count_spread hl, if_pos (hmem a), if_pos (hmem a)]
  have := hused a
  omega

theorem coe_flatMap (l : List α) (f : α → List β) :
    ((l.flatMap f : List β) : Multiset β) = (l.map fun a => (f a : Multiset β)).sum := by
  induction l with
  | nil => rfl
  | cons a l ih => rw [List.flatMap_cons, ← Multiset.coe_add, ih, List.map_cons, List.sum_cons]

end ScrabbleMagyar.Lists
