import Mathlib.Data.List.Basic
import Mathlib.Order.Lattice
import Mathlib.Tactic.Common

/-!
# The best of a list

`Best.best f l` are the elements of `l` with the greatest value under `f`, in their order. A
filter for the maximum of the values finds them (`filter_eq_best`), a scan that keeps the best
element so far ends with one of them (`foldl_keep`), they exist as soon as the list has an element
(`best_ne_nil`), and they are the same under a map that keeps the values (`best_map`).
-/

namespace ScrabbleMagyar.Best

variable {α β γ : Type*} [LinearOrder γ]

/-- The elements with the greatest value. -/
def best (f : α → γ) (l : List α) : List α := l.filter fun a => decide (∀ b ∈ l, f b ≤ f a)

theorem mem_best {f : α → γ} {l : List α} {a : α} :
    a ∈ best f l ↔ a ∈ l ∧ ∀ b ∈ l, f b ≤ f a := by
  simp [best]

@[simp] theorem best_nil (f : α → γ) : best f [] = [] := rfl

/-- A filter for the greatest value finds the best. -/
theorem filter_eq_best {f : α → γ} {l : List α} {m : γ} (hm : m ∈ l.map f)
    (hmax : ∀ b ∈ l, f b ≤ m) : (l.filter fun a => decide (f a = m)) = best f l := by
  obtain ⟨c, hc, rfl⟩ := List.mem_map.mp hm
  refine List.filter_congr fun a ha => decide_eq_decide.mpr ⟨fun h b hb => ?_, fun h => ?_⟩
  · rw [h]
    exact hmax b hb
  · exact le_antisymm (hmax a ha) (h c hc)

theorem exists_mem_best (f : α → γ) {l : List α} (h : l ≠ []) : ∃ a, a ∈ best f l := by
  induction l with
  | nil => exact absurd rfl h
  | cons c l ih =>
    by_cases hl : l = []
    · subst hl
      exact ⟨c, by simp [mem_best]⟩
    obtain ⟨a, ha⟩ := ih hl
    obtain ⟨hmem, hmax⟩ := mem_best.mp ha
    by_cases hle : f c ≤ f a
    · refine ⟨a, mem_best.mpr ⟨List.mem_cons_of_mem _ hmem, fun b hb => ?_⟩⟩
      obtain rfl | hb := List.mem_cons.mp hb
      · exact hle
      · exact hmax b hb
    · refine ⟨c, mem_best.mpr ⟨List.mem_cons_self, fun b hb => ?_⟩⟩
      obtain rfl | hb := List.mem_cons.mp hb
      · exact le_rfl
      · exact (hmax b hb).trans (not_le.mp hle).le

theorem best_ne_nil (f : α → γ) {l : List α} (h : l ≠ []) : best f l ≠ [] := by
  obtain ⟨a, ha⟩ := exists_mem_best f h
  exact List.ne_nil_of_mem ha

/-- The best under a map that keeps the values. -/
theorem best_map {f : α → γ} {h : β → γ} {e : α → β} {l : List α} (hf : ∀ a ∈ l, h (e a) = f a) :
    best h (l.map e) = (best f l).map e := by
  rw [best, best, List.filter_map]
  refine congrArg (List.map e) (List.filter_congr fun a ha => decide_eq_decide.mpr ?_)
  rw [List.forall_mem_map]
  refine forall₂_congr fun b hb => ?_
  rw [hf a ha, hf b hb]

/-! ## Keeping the best so far -/

/-- Keep an element if nothing is kept yet or it is better. -/
def keep (f : α → γ) (kept : Option α) (a : α) : Option α :=
  if kept.all fun b => decide (f b < f a) then some a else kept

theorem keep_isSome (f : α → γ) (kept : Option α) (a : α) : ∃ b, keep f kept a = some b := by
  unfold keep
  cases kept with
  | none => exact ⟨a, rfl⟩
  | some b =>
    split
    · exact ⟨a, rfl⟩
    · exact ⟨b, rfl⟩

/-- A scan of the list keeps an element that is at least as good as the others. -/
theorem foldl_keep {f : α → γ} {l : List α} {kept : Option α} {r : α}
    (h : l.foldl (keep f) kept = some r) : r ∈ best f (kept.toList ++ l) := by
  induction l generalizing kept with
  | nil =>
    rw [List.foldl_nil] at h
    subst h
    simp [mem_best]
  | cons a l ih =>
    obtain ⟨hmem, hmax⟩ := mem_best.mp (ih h)
    unfold keep at hmem hmax
    cases kept with
    | none => exact mem_best.mpr ⟨hmem, hmax⟩
    | some b =>
      simp only [Option.all_some, decide_eq_true_eq] at hmem hmax
      by_cases hlt : f b < f a
      · rw [if_pos hlt] at hmem hmax
        refine mem_best.mpr ⟨List.mem_cons_of_mem _ hmem, List.forall_mem_cons.mpr ⟨?_, hmax⟩⟩
        exact hlt.le.trans (hmax a List.mem_cons_self)
      · rw [if_neg hlt] at hmem hmax
        obtain ⟨hb, hl⟩ := List.forall_mem_cons.mp hmax
        refine mem_best.mpr ⟨?_, List.forall_mem_cons.mpr ⟨hb, List.forall_mem_cons.mpr
          ⟨(not_lt.mp hlt).trans hb, hl⟩⟩⟩
        rcases List.mem_cons.mp hmem with rfl | hmem
        · exact List.mem_cons_self
        · exact List.mem_cons_of_mem _ (List.mem_cons_of_mem _ hmem)

/-- A scan of a list with an element keeps one. -/
theorem exists_foldl_keep (f : α → γ) {l : List α} (hl : l ≠ []) :
    ∃ r, l.foldl (keep f) none = some r := by
  obtain ⟨a, l, rfl⟩ := List.exists_cons_of_ne_nil hl
  have hsome (l : List α) (b : α) : ∃ r, l.foldl (keep f) (some b) = some r := by
    induction l generalizing b with
    | nil => exact ⟨b, rfl⟩
    | cons c l ih =>
      obtain ⟨b', hb'⟩ := keep_isSome f (some b) c
      rw [List.foldl_cons, hb']
      exact ih b'
  exact hsome l a

end ScrabbleMagyar.Best
