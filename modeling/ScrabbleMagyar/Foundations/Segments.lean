import Mathlib.Data.List.Infix
import Mathlib.Data.List.Sort
import Mathlib.Order.MinMax

/-!
# Segments of lists, and intervals

A segment of a list put together from blocks is one of a list with other blocks, as long as it lies
in blocks that are the same (`isInfix_flatMap`). Intervals sorted by their starts are merged in one
pass (`merge`), and cover the same numbers before and after (`covers_foldl_merge`).
-/

namespace ScrabbleMagyar.Segments

section Blocks

variable {α β : Type*} {f g : α → List β} {good : β → Prop}

/-- The blocks are the same, or the one of the first list is not empty and has nothing good. -/
def SameOrBad (f g : α → List β) (good : β → Prop) (a : α) : Prop :=
  f a = g a ∨ f a ≠ [] ∧ ∀ b ∈ f a, ¬good b

/-- A block with something good in it is the same in both lists. -/
theorem SameOrBad.eq_of_mem {a : α} (h : SameOrBad f g good a) {b : β} (hb : b ∈ f a)
    (hgood : good b) : f a = g a :=
  h.resolve_right fun hbad => hbad.2 b hb hgood

theorem prefix_append_cases {segment l₁ l₂ : List β} (h : segment <+: l₁ ++ l₂) :
    segment <+: l₁ ∨ ∃ more, segment = l₁ ++ more ∧ more <+: l₂ := by
  rcases List.prefix_or_prefix_of_prefix h (List.prefix_append l₁ l₂) with hshort | ⟨more, rfl⟩
  · exact Or.inl hshort
  · exact Or.inr ⟨more, rfl, (List.prefix_append_right_inj l₁).mp h⟩

theorem isPrefix_flatMap {l : List α} (hblocks : ∀ a ∈ l, SameOrBad f g good a) {segment : List β}
    (hgood : ∀ b ∈ segment, good b) (h : segment <+: l.flatMap f) : segment <+: l.flatMap g := by
  induction l generalizing segment with
  | nil => exact h
  | cons a l ih =>
    obtain ⟨hhead, htail⟩ := List.forall_mem_cons.mp hblocks
    rw [List.flatMap_cons] at h ⊢
    rcases prefix_append_cases h with hshort | ⟨more, rfl, hmore⟩
    · -- the segment ends in the block
      cases segment with
      | nil => exact List.nil_prefix
      | cons b segment =>
        have hb : b ∈ f a := hshort.subset List.mem_cons_self
        rw [← hhead.eq_of_mem hb (hgood b List.mem_cons_self)]
        exact hshort.trans (List.prefix_append _ _)
    · have hsame : f a = g a := hhead.resolve_right fun hbad => by
        obtain ⟨b, hb⟩ := List.exists_mem_of_ne_nil _ hbad.1
        exact hbad.2 b hb (hgood b (List.mem_append_left _ hb))
      rw [← hsame, List.prefix_append_right_inj]
      exact ih htail (fun b hb => hgood b (List.mem_append_right _ hb)) hmore

/-- **A segment of good elements** is one of the other list as well. -/
theorem isInfix_flatMap {l : List α} (hblocks : ∀ a ∈ l, SameOrBad f g good a) {segment : List β}
    (hgood : ∀ b ∈ segment, good b) (h : segment <:+: l.flatMap f) : segment <:+: l.flatMap g := by
  induction l with
  | nil => exact h
  | cons a l ih =>
    obtain ⟨hhead, htail⟩ := List.forall_mem_cons.mp hblocks
    obtain ⟨start, rest, hrest⟩ := h
    rw [List.flatMap_cons, List.append_assoc] at hrest
    rw [List.flatMap_cons]
    rcases List.append_eq_append_iff.mp hrest with ⟨more, hfa, hmore⟩ | ⟨more, -, hmore⟩
    · cases segment with
      | nil => exact List.nil_infix
      | cons b segment =>
        cases more with
        | nil =>
          -- the segment begins after the block
          have hprefix := isPrefix_flatMap htail hgood ⟨rest, by simpa using hmore⟩
          exact hprefix.isInfix.trans (List.suffix_append _ _).isInfix
        | cons c more =>
          -- it begins in the block
          have hc : c = b := (List.cons.inj hmore).1.symm
          have hmem : b ∈ f a := by
            rw [hfa, hc]
            exact List.mem_append_right _ List.mem_cons_self
          have hprefix : b :: segment <+: c :: more ++ l.flatMap f := ⟨rest, hmore⟩
          rw [← hhead.eq_of_mem hmem (hgood b List.mem_cons_self), hfa, List.append_assoc]
          refine List.IsInfix.trans ?_ (List.suffix_append _ _).isInfix
          rcases prefix_append_cases hprefix with hshort | ⟨tail, htl, hpre⟩
          · exact (hshort.trans (List.prefix_append _ _)).isInfix
          · rw [htl]
            refine ((List.prefix_append_right_inj _).mpr
              (isPrefix_flatMap htail (fun d hd => hgood d ?_) hpre)).isInfix
            rw [htl]
            exact List.mem_append_right _ hd
    · have hlater := ih htail ⟨more, rest, by rw [List.append_assoc]; exact hmore.symm⟩
      exact hlater.trans (List.suffix_append _ _).isInfix

end Blocks

section Intervals

variable {α : Type*} [LinearOrder α]

/-- Some of the intervals covers a number. The end of an interval is not in it. -/
def Covers (spans : List (α × α)) (i : α) : Prop := ∃ s ∈ spans, s.1 ≤ i ∧ i < s.2

/-- Add an interval behind the others, or to the last of them. -/
def merge (merged : List (α × α)) (span : α × α) : List (α × α) :=
  match merged.getLast? with
  | some last =>
    if span.1 ≤ last.2 then merged.dropLast ++ [(last.1, max last.2 span.2)] else merged ++ [span]
  | none => merged ++ [span]

theorem covers_append (l₁ l₂ : List (α × α)) (i : α) :
    Covers (l₁ ++ l₂) i ↔ Covers l₁ i ∨ Covers l₂ i := by
  simp only [Covers, List.mem_append, or_and_right, exists_or]

theorem covers_singleton (s : α × α) (i : α) : Covers [s] i ↔ s.1 ≤ i ∧ i < s.2 := by
  simp [Covers]

/-- The last interval starts first. -/
theorem covers_merge {merged : List (α × α)} {span : α × α}
    (h : ∀ last, merged.getLast? = some last → last.1 ≤ span.1) (i : α) :
    Covers (merge merged span) i ↔ Covers merged i ∨ Covers [span] i := by
  unfold merge
  cases hlast : merged.getLast? with
  | none => exact covers_append _ _ i
  | some last =>
    by_cases hle : span.1 ≤ last.2
    · obtain ⟨init, rfl⟩ := List.getLast?_eq_some_iff.mp hlast
      have hstart := h last hlast
      simp only [if_pos hle, List.dropLast_concat, covers_append, covers_singleton, or_assoc]
      refine or_congr_right ⟨fun ⟨hlow, hhigh⟩ => ?_, fun hcover => ?_⟩
      · rcases lt_max_iff.mp hhigh with hlt | hlt
        · exact Or.inl ⟨hlow, hlt⟩
        · by_cases hi : i < last.2
          · exact Or.inl ⟨hlow, hi⟩
          · exact Or.inr ⟨hle.trans (not_lt.mp hi), hlt⟩
      · rcases hcover with ⟨hlow, hhigh⟩ | ⟨hlow, hhigh⟩
        · exact ⟨hlow, hhigh.trans_le (le_max_left _ _)⟩
        · exact ⟨hstart.trans hlow, hhigh.trans_le (le_max_right _ _)⟩
    · simp only [if_neg hle]
      exact covers_append _ _ i

/-- The last start after a step is not after that of the interval added. -/
theorem getLast_merge {merged : List (α × α)} {span last : α × α}
    (h : ∀ last, merged.getLast? = some last → last.1 ≤ span.1)
    (hlast : (merge merged span).getLast? = some last) : last.1 ≤ span.1 := by
  unfold merge at hlast
  cases hold : merged.getLast? with
  | none =>
    simp only [hold, List.getLast?_concat] at hlast
    exact (congrArg Prod.fst (Option.some.inj hlast)).ge
  | some old =>
    simp only [hold] at hlast
    split at hlast
    · rw [List.getLast?_concat] at hlast
      rw [← Option.some.inj hlast]
      exact h old hold
    · rw [List.getLast?_concat] at hlast
      exact (congrArg Prod.fst (Option.some.inj hlast)).ge

/-- **Merging keeps what is covered.** -/
theorem covers_foldl_merge {spans : List (α × α)}
    (hsorted : spans.Pairwise fun s s' => s.1 ≤ s'.1) (merged : List (α × α))
    (h : ∀ last, merged.getLast? = some last → ∀ s ∈ spans, last.1 ≤ s.1) (i : α) :
    Covers (spans.foldl merge merged) i ↔ Covers merged i ∨ Covers spans i := by
  induction spans generalizing merged with
  | nil => simp [Covers]
  | cons s spans ih =>
    obtain ⟨hs, hspans⟩ := List.pairwise_cons.mp hsorted
    have hfirst : ∀ last, merged.getLast? = some last → last.1 ≤ s.1 := fun last hlast =>
      h last hlast s List.mem_cons_self
    rw [List.foldl_cons, ih hspans, covers_merge hfirst, or_assoc]
    · refine or_congr_right ?_
      rw [← covers_append, List.singleton_append]
    · exact fun last hlast s' hs' => (getLast_merge hfirst hlast).trans (hs s' hs')

theorem merge_ne_nil (merged : List (α × α)) (span : α × α) : merge merged span ≠ [] := by
  unfold merge
  split
  · split <;> simp
  · simp

/-- Nothing comes of nothing only. -/
theorem foldl_merge_eq_nil {spans merged : List (α × α)} :
    spans.foldl merge merged = [] ↔ merged = [] ∧ spans = [] := by
  induction spans generalizing merged with
  | nil => simp
  | cons s spans ih =>
    rw [List.foldl_cons, ih]
    simp [merge_ne_nil]

end Intervals

end ScrabbleMagyar.Segments
