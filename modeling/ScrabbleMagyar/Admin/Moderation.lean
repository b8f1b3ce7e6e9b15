import ScrabbleMagyar.Admin.Common
import ScrabbleMagyar.Foundations.Segments
import Mathlib.Data.List.GetD
import Mathlib.Data.Prod.Lex

/-!
# Banned words

The filter for banned words in names and in the chat (`admin/moderation.rs`): the list is kept in a
form without capitals and accents, a text is searched in that form, and what is found is starred
out. Lower case and the decomposition of characters are parameters; the asterisk is left alone by
them.

* `maskBanned_clean_iff`: when the masked text has no banned word.
* `clean_of_not_readable`: a condition for it on the words and the text alone.
-/

namespace ScrabbleMagyar.Moderation

open Admin Segments

/-- What of Unicode is used. -/
structure Unicode where
  lowercase : Word → Word
  nfd : Word → Word
  isCombiningMark : Char → Bool
  lowercase_star : lowercase ['*'] = ['*']
  nfd_star : nfd ['*'] = ['*']
  isCombiningMark_star : isCombiningMark '*' = false

/-- A banned word has at least so many characters. -/
def minBannedWord : ℕ := 2

/-- A banned word has at most so many characters. -/
def maxBannedWord : ℕ := 40

section Definitions

variable (unicode : Unicode)

/-- A text without capitals and accents. -/
def fold (text : Word) : Word :=
  (unicode.nfd (unicode.lowercase text)).filter fun c => !unicode.isCombiningMark c

/-- Put a word on the list of banned words. -/
def addBannedWord (words : List Word) (word : Option Word) : Except AdminError (List Word) := do
  let text := fold unicode (← cleanText word "word" maxBannedWord true)
  if text.length < minBannedWord then
    throw ⟨"A tiltott szó legalább 2 karakter legyen.", 400, some "word"⟩
  if text ∈ words then throw ⟨"Ez a szó már szerepel a listán.", 409, some "word"⟩
  return words ++ [text]

/-- The characters of the folded text, each with the place of the character it comes from. -/
def foldWithMap (text : Word) : List (Char × ℕ) :=
  text.zipIdx.flatMap fun e => (fold unicode [e.1]).map fun c => (c, e.2)

/-- Where a word begins and ends in the text, for each of its occurrences in the folded one. -/
def spansOf (folded : List (Char × ℕ)) (word : Word) : List (ℕ × ℕ) :=
  if word.isEmpty ∨ folded.length < word.length then []
  else
    (List.range (folded.length - word.length + 1)).filterMap fun start =>
      if ((folded.drop start).take word.length).map Prod.fst = word then
        some ((folded.getD start ('*', 0)).2,
          (folded.getD (start + word.length - 1) ('*', 0)).2 + 1)
      else none

/-- The places of the banned words in a text, those that overlap as one. -/
def findBanned (words : List Word) (text : Word) : List (ℕ × ℕ) :=
  if words.isEmpty then []
  else
    let spans := words.flatMap (spansOf (foldWithMap unicode text))
    (spans.insertionSort fun s s' => toLex s ≤ toLex s').foldl merge []

/-- Whether a text has a banned word in it. -/
def containsBanned (words : List Word) (text : Word) : Bool := !(findBanned unicode words text).isEmpty

/-- The text with the banned words starred out, and whether there were any. -/
def maskBanned (words : List Word) (text : Word) : Word × Bool :=
  let spans := findBanned unicode words text
  if spans.isEmpty then (text, false)
  else
    (spans.foldl (fun chars span =>
      chars.mapIdx fun i ch => if span.1 ≤ i ∧ i < span.2 then '*' else ch) text, true)

/-- What becomes of a message in the chat; `none` if it is dropped. -/
def filterChat (words : List Word) (dropInsteadOfMask : Bool) (message : Word) :
    Option Word × Bool :=
  let (masked, flagged) := maskBanned unicode words message
  if !flagged then (some message, false)
  else if dropInsteadOfMask then (none, true)
  else (some masked, true)

/-! ## Occurrences -/

/-- A stretch of the folded text that is a banned word. -/
structure Occurs (words : List Word) (text : Word) (stretch : List (Char × ℕ)) : Prop where
  infix_fold : stretch <:+: foldWithMap unicode text
  ne_nil : stretch ≠ []
  mem : stretch.map Prod.fst ∈ words

/-- A place of the text that an occurrence of a banned word covers. -/
def Covered (words : List Word) (text : Word) (i : ℕ) : Prop :=
  ∃ stretch, Occurs unicode words text stretch ∧
    ∃ x ∈ stretch, ∃ y ∈ stretch, x.2 ≤ i ∧ i ≤ y.2

open Classical in
/-- The folded text as it reads with asterisks for what is covered. -/
noncomputable def reading (words : List Word) (text : Word) : Word :=
  text.zipIdx.flatMap fun e =>
    if Covered unicode words text e.2 then ['*'] else fold unicode [e.1]

end Definitions

/-- A span is that of a stretch that is the word. -/
theorem exists_stretch_of_span {folded : List (Char × ℕ)} {word : Word} {s : ℕ × ℕ}
    (h : s ∈ spansOf folded word) :
    ∃ stretch, stretch <:+: folded ∧ stretch ≠ [] ∧ stretch.map Prod.fst = word ∧
      (∃ x ∈ stretch, x.2 = s.1) ∧ ∃ y ∈ stretch, y.2 + 1 = s.2 := by
  unfold spansOf at h
  split at h
  · cases h
  rename_i hword
  obtain ⟨hne, hlen⟩ := not_or.mp hword
  obtain ⟨start, hstart, hspan⟩ := List.mem_filterMap.mp h
  rw [List.mem_range] at hstart
  split at hspan
  · rename_i hmap
    have hpos : 0 < word.length := by
      cases word with
      | nil => exact absurd rfl hne
      | cons _ _ => exact Nat.zero_lt_succ _
    obtain rfl := Option.some.inj hspan
    have hmem : ∀ j < word.length, folded.getD (start + j) ('*', 0) ∈
        (folded.drop start).take word.length := by
      intro j hj
      rw [List.getD_eq_getElem _ _ (by omega), List.mem_take_iff_getElem]
      exact ⟨j, by rw [List.length_drop]; omega, List.getElem_drop⟩
    refine ⟨(folded.drop start).take word.length,
      (List.take_prefix _ _).isInfix.trans (List.drop_suffix _ _).isInfix, fun hnil => ?_, hmap,
      ⟨_, hmem 0 hpos, rfl⟩, ⟨_, hmem (word.length - 1) (by omega), ?_⟩⟩
    · rw [hnil] at hmap
      rw [← hmap] at hpos
      exact absurd hpos (by simp)
    · rw [Nat.add_sub_assoc hpos]
  · cases hspan

/-- A stretch that is the word has a span, from its first place to its last one. -/
theorem exists_span_of_stretch {folded stretch : List (Char × ℕ)}
    (hsorted : folded.Pairwise fun x y => x.2 ≤ y.2) (hstretch : stretch <:+: folded)
    (hne : stretch ≠ []) {x y : Char × ℕ} (hx : x ∈ stretch) (hy : y ∈ stretch) :
    ∃ s ∈ spansOf folded (stretch.map Prod.fst), s.1 ≤ x.2 ∧ y.2 < s.2 := by
  obtain ⟨before, after, rfl⟩ := hstretch
  have hpos := List.length_pos_iff.mpr hne
  have hstretch : stretch.Pairwise fun x y => x.2 ≤ y.2 :=
    hsorted.sublist ((List.sublist_append_right _ _).trans (List.sublist_append_left _ _))
  have hat : ∀ j (hj : j < stretch.length),
      (before ++ stretch ++ after).getD (before.length + j) ('*', 0) = stretch[j] := by
    intro j hj
    rw [List.getD_eq_getElem _ _ (by simp; omega), List.getElem_append_left (by simp; omega),
      List.getElem_append_right (by omega)]
    simp
  have hle : ∀ {i j : ℕ} (hi : i < stretch.length) (hj : j < stretch.length), i ≤ j →
      stretch[i].2 ≤ stretch[j].2 := by
    intro i j hi hj hij
    rcases hij.eq_or_lt with rfl | hlt
    · exact le_rfl
    · exact List.pairwise_iff_getElem.mp hstretch i j hi hj hlt
  obtain ⟨i, hi, rfl⟩ := List.mem_iff_getElem.mp hx
  obtain ⟨j, hj, rfl⟩ := List.mem_iff_getElem.mp hy
  refine ⟨(stretch[0].2, stretch[stretch.length - 1].2 + 1), ?_, hle hpos hi (Nat.zero_le i),
    Nat.lt_succ_of_le (hle hj (by omega) (by omega))⟩
  rw [spansOf, if_neg]
  · refine List.mem_filterMap.mpr ⟨before.length, by simp; omega, ?_⟩
    have hwindow : (((before ++ stretch ++ after).drop before.length).take
        (stretch.map Prod.fst).length) = stretch := by
      simp [List.append_assoc]
    rw [hwindow, if_pos rfl, List.length_map, Nat.add_sub_assoc hpos, hat _ (by omega)]
    have hfirst := hat 0 hpos
    rw [Nat.add_zero] at hfirst
    rw [hfirst]
  · rw [not_or]
    refine ⟨by simpa using hne, ?_⟩
    simp
    omega

section Occurrences

variable {unicode : Unicode} {words : List Word} {text : Word}

theorem pairwise_foldWithMap (unicode : Unicode) (text : Word) :
    (foldWithMap unicode text).Pairwise fun x y => x.2 ≤ y.2 := by
  rw [foldWithMap, List.pairwise_flatMap]
  constructor
  · intro e _
    rw [List.pairwise_map]
    exact List.pairwise_of_forall fun _ _ => le_rfl
  · rw [List.pairwise_iff_getElem]
    intro i j hi hj hij x hx y hy
    obtain ⟨_, -, rfl⟩ := List.mem_map.mp hx
    obtain ⟨_, -, rfl⟩ := List.mem_map.mp hy
    simpa using hij.le

/-- **The places that are found** are those that the occurrences cover. -/
theorem covers_findBanned (i : ℕ) :
    Covers (findBanned unicode words text) i ↔ Covered unicode words text i := by
  have hspans : Covers (words.flatMap (spansOf (foldWithMap unicode text))) i ↔
      Covered unicode words text i := by
    constructor
    · rintro ⟨s, hs, hlow, hhigh⟩
      obtain ⟨word, hword, hs⟩ := List.mem_flatMap.mp hs
      obtain ⟨stretch, hstretch, hne, rfl, ⟨x, hx, hxs⟩, y, hy, hys⟩ := exists_stretch_of_span hs
      exact ⟨stretch, ⟨hstretch, hne, hword⟩, x, hx, y, hy, by omega, by omega⟩
    · rintro ⟨stretch, ⟨hstretch, hne, hmem⟩, x, hx, y, hy, hlow, hhigh⟩
      obtain ⟨s, hs, hsx, hsy⟩ := exists_span_of_stretch (pairwise_foldWithMap unicode text) hstretch
        hne hx hy
      exact ⟨s, List.mem_flatMap.mpr ⟨_, hmem, hs⟩, by omega, by omega⟩
  rw [← hspans, findBanned]
  split
  · rename_i hnil
    rw [List.isEmpty_iff.mp hnil]
    simp [Covers]
  · have hsorted := List.pairwise_insertionSort (fun s s' : ℕ × ℕ => toLex s ≤ toLex s')
      (words.flatMap (spansOf (foldWithMap unicode text)))
    have hfirst : ∀ {s s' : ℕ × ℕ}, toLex s ≤ toLex s' → s.1 ≤ s'.1 := by
      intro s s' h
      rcases Prod.Lex.toLex_le_toLex.mp h with hlt | ⟨heq, -⟩
      · exact hlt.le
      · exact heq.le
    rw [covers_foldl_merge (hsorted.imp hfirst) [] (by simp)]
    have hperm := List.perm_insertionSort (fun s s' : ℕ × ℕ => toLex s ≤ toLex s')
      (words.flatMap (spansOf (foldWithMap unicode text)))
    simp only [Covers, List.not_mem_nil, false_and, exists_false, false_or, hperm.mem_iff]

theorem containsBanned_iff :
    containsBanned unicode words text = true ↔ ∃ stretch, Occurs unicode words text stretch := by
  have hspans : findBanned unicode words text = [] ↔
      words.flatMap (spansOf (foldWithMap unicode text)) = [] := by
    rw [findBanned]
    split
    · rename_i hnil
      simp [List.isEmpty_iff.mp hnil]
    · have hperm := List.perm_insertionSort (fun s s' : ℕ × ℕ => toLex s ≤ toLex s')
        (words.flatMap (spansOf (foldWithMap unicode text)))
      rw [foldl_merge_eq_nil, and_iff_right rfl]
      exact ⟨fun h => List.nil_perm.mp (h ▸ hperm), fun h => by rw [h]; rfl⟩
  rw [containsBanned, Bool.not_eq_true', ← Bool.not_eq_true, List.isEmpty_iff, hspans]
  constructor
  · intro h
    obtain ⟨s, hs⟩ := List.exists_mem_of_ne_nil _ h
    obtain ⟨word, hword, hs⟩ := List.mem_flatMap.mp hs
    obtain ⟨stretch, hstretch, hne, rfl, -⟩ := exists_stretch_of_span hs
    exact ⟨stretch, hstretch, hne, hword⟩
  · rintro ⟨stretch, hstretch, hne, hmem⟩
    obtain ⟨x, hx⟩ := List.exists_mem_of_ne_nil _ hne
    obtain ⟨s, hs, -⟩ := exists_span_of_stretch (pairwise_foldWithMap unicode text) hstretch hne hx hx
    exact List.ne_nil_of_mem (List.mem_flatMap.mpr ⟨_, hmem, hs⟩)

/-- A text without a banned word is left as it is. -/
theorem maskBanned_of_clean (h : containsBanned unicode words text = false) :
    maskBanned unicode words text = (text, false) := by
  rw [containsBanned, Bool.not_eq_false'] at h
  rw [maskBanned, if_pos h]

end Occurrences

/-! ## The masked text -/

section Masked

open Classical

variable (unicode : Unicode) (words : List Word) (text : Word)

theorem foldl_mask (spans : List (ℕ × ℕ)) (text : Word) :
    spans.foldl (fun chars span =>
      chars.mapIdx fun i ch => if span.1 ≤ i ∧ i < span.2 then '*' else ch) text =
        text.mapIdx fun i ch => if Covers spans i then '*' else ch := by
  induction spans generalizing text with
  | nil =>
    refine List.ext_getElem (by simp) fun i _ _ => ?_
    simp [Covers]
  | cons s spans ih =>
    rw [List.foldl_cons, ih]
    refine List.ext_getElem (by simp) fun i _ _ => ?_
    simp only [List.getElem_mapIdx, Covers, List.exists_mem_cons_iff]
    by_cases hs : s.1 ≤ i ∧ i < s.2 <;> by_cases hcover : ∃ s ∈ spans, s.1 ≤ i ∧ i < s.2 <;>
      simp [hs, hcover]

/-- **The masked text** has asterisks for what is covered. -/
theorem maskBanned_eq : (maskBanned unicode words text).1 =
    text.mapIdx fun i ch => if Covered unicode words text i then '*' else ch := by
  have hmask : (maskBanned unicode words text).1 =
      text.mapIdx fun i ch => if Covers (findBanned unicode words text) i then '*' else ch := by
    rw [maskBanned]
    split
    · rename_i hnil
      rw [List.isEmpty_iff.mp hnil]
      refine List.ext_getElem (by simp) fun i _ _ => ?_
      simp [Covers]
    · exact foldl_mask _ text
  rw [hmask]
  simp only [covers_findBanned]

theorem fold_star : fold unicode ['*'] = ['*'] := by
  simp [fold, unicode.lowercase_star, unicode.nfd_star, unicode.isCombiningMark_star]

/-- The folded characters of the masked text. -/
theorem foldWithMap_masked : foldWithMap unicode (maskBanned unicode words text).1 =
    text.zipIdx.flatMap fun e =>
      if Covered unicode words text e.2 then [('*', e.2)]
      else (fold unicode [e.1]).map fun c => (c, e.2) := by
  have hzip : (text.mapIdx fun i ch =>
      if Covered unicode words text i then '*' else ch).zipIdx =
        text.zipIdx.map fun e => (if Covered unicode words text e.2 then '*' else e.1, e.2) :=
    List.ext_getElem (by simp) fun i _ _ => by simp
  rw [maskBanned_eq, foldWithMap, hzip, List.flatMap_map]
  refine List.flatMap_congr fun e _ => ?_
  by_cases hcover : Covered unicode words text e.2
  · simp [hcover, fold_star]
  · simp [hcover]

theorem map_foldWithMap_masked :
    (foldWithMap unicode (maskBanned unicode words text).1).map Prod.fst =
      reading unicode words text := by
  rw [foldWithMap_masked, List.map_flatMap, reading]
  refine List.flatMap_congr fun e _ => ?_
  split
  · rfl
  · simp [Function.comp_def]

variable {unicode words text}

/-- A banned word in the masked text has an asterisk: without one it would have been found. -/
theorem star_mem_of_occurs {stretch : List (Char × ℕ)}
    (h : Occurs unicode words (maskBanned unicode words text).1 stretch) :
    '*' ∈ stretch.map Prod.fst := by
  by_contra hstar
  have hgood : ∀ x ∈ stretch, x.1 ≠ '*' := fun x hx heq =>
    hstar (List.mem_map.mpr ⟨x, hx, heq⟩)
  have hstretch := h.infix_fold
  rw [foldWithMap_masked] at hstretch
  have hfound : Occurs unicode words text stretch := by
    refine ⟨isInfix_flatMap (fun e _ => ?_) hgood hstretch, h.ne_nil,
      h.mem⟩
    by_cases hcover : Covered unicode words text e.2
    · exact Or.inr (by simp [hcover])
    · exact Or.inl (if_neg hcover)
  obtain ⟨x, hx⟩ := List.exists_mem_of_ne_nil _ h.ne_nil
  obtain ⟨e, -, he⟩ := List.mem_flatMap.mp (hstretch.subset hx)
  split at he
  · exact hgood x hx (by rw [List.mem_singleton.mp he])
  · rename_i hcover
    obtain ⟨c, -, rfl⟩ := List.mem_map.mp he
    exact hcover ⟨stretch, hfound, _, hx, _, hx, le_rfl, le_rfl⟩

/-- **The banned words left in the masked text** have an asterisk. -/
theorem containsBanned_masked :
    containsBanned unicode words (maskBanned unicode words text).1 = true ↔
      ∃ word ∈ words, '*' ∈ word ∧ word <:+: reading unicode words text := by
  rw [containsBanned_iff]
  constructor
  · rintro ⟨stretch, h⟩
    refine ⟨_, h.mem, star_mem_of_occurs h, ?_⟩
    rw [← map_foldWithMap_masked]
    exact h.infix_fold.map Prod.fst
  · rintro ⟨word, hword, hstar, hstretch⟩
    rw [← map_foldWithMap_masked] at hstretch
    obtain ⟨stretch, hwithin, rfl⟩ := List.infix_map_iff.mp hstretch
    refine ⟨stretch, hwithin, fun hnil => ?_, hword⟩
    rw [hnil] at hstar
    cases hstar

variable (unicode words text)

/-- Masking has removed every banned word and nothing else: the text is as long as before, it
differs only in what the banned words cover, none of them is left, and another masking changes
nothing. -/
structure Clean (masked : Word) : Prop where
  length : masked.length = text.length
  outside : ∀ i, masked[i]? ≠ text[i]? → Covered unicode words text i
  clean : containsBanned unicode words masked = false
  again : (maskBanned unicode words masked).1 = masked

variable {unicode words text}

theorem clean_of_not_containsBanned
    (h : containsBanned unicode words (maskBanned unicode words text).1 = false) :
    Clean unicode words text (maskBanned unicode words text).1 where
  length := by rw [maskBanned_eq, List.length_mapIdx]
  outside i hne := by
    by_contra hcover
    refine hne ?_
    rw [maskBanned_eq, List.getElem?_mapIdx]
    simp [hcover]
  clean := h
  again := by rw [maskBanned_of_clean h]

/-- As long as no banned word has an asterisk, every text is masked as it should be. -/
theorem clean_of_plain (h : ∀ word ∈ words, '*' ∉ word) :
    Clean unicode words text (maskBanned unicode words text).1 := by
  refine clean_of_not_containsBanned (Bool.eq_false_iff.mpr fun hleft => ?_)
  obtain ⟨word, hword, hstar, -⟩ := containsBanned_masked.mp hleft
  exact h word hword hstar

variable (unicode words text)

/-- **Masking is clean** except where a banned word with an asterisk can be read in the text with
asterisks for what is covered. -/
theorem maskBanned_clean_iff : Clean unicode words text (maskBanned unicode words text).1 ↔
    ¬∃ word ∈ words, '*' ∈ word ∧ word <:+: reading unicode words text := by
  rw [← containsBanned_masked, Bool.not_eq_true]
  exact ⟨Clean.clean, clean_of_not_containsBanned⟩

/-- The word can be read in the folded text once some of its characters are asterisks. -/
def Readable (text word : Word) : Prop :=
  ∃ hidden : ℕ → Bool, word <:+: text.zipIdx.flatMap fun e =>
    if hidden e.2 then ['*'] else fold unicode [e.1]

/-- **Masking is clean** where no banned word occurs, and where none that has an asterisk can be read
in the text with asterisks for any of its characters. -/
theorem clean_of_not_readable (h : (∀ stretch, ¬Occurs unicode words text stretch) ∨
      ∀ word ∈ words, '*' ∈ word → ¬Readable unicode text word) :
    Clean unicode words text (maskBanned unicode words text).1 := by
  refine clean_of_not_containsBanned (Bool.eq_false_iff.mpr fun hleft => ?_)
  rcases h with hnone | hunread
  · have hclean : containsBanned unicode words text = false :=
      Bool.eq_false_iff.mpr fun hfound => (containsBanned_iff.mp hfound).elim hnone
    rw [maskBanned_of_clean hclean, hclean] at hleft
    cases hleft
  · obtain ⟨word, hword, hstar, hread⟩ := containsBanned_masked.mp hleft
    refine hunread word hword hstar ⟨fun i => decide (Covered unicode words text i), ?_⟩
    simpa [reading] using hread

end Masked

/-- Lower case for the letters of ASCII, which have no marks. -/
def ascii : Unicode where
  lowercase text := text.map Char.toLower
  nfd text := text
  isCombiningMark _ := false
  lowercase_star := rfl
  nfd_star := rfl
  isCombiningMark_star := rfl

/-- `x*` cannot be read in `so bad`, whatever is masked in it. -/
theorem clean_so_bad : Clean ascii ["x*".toList, "bad".toList] "so bad".toList
    (maskBanned ascii ["x*".toList, "bad".toList] "so bad".toList).1 := by
  refine clean_of_not_readable _ _ _ (.inr fun word hword hstar => ?_)
  obtain rfl | rfl : word = "x*".toList ∨ word = "bad".toList := by simpa using hword
  · rintro ⟨hidden, hread⟩
    -- the `x` would come from a character of the text or from an asterisk
    obtain ⟨e, he, hx⟩ := List.mem_flatMap.mp (hread.subset (List.mem_cons_self : 'x' ∈ ['x', '*']))
    have hletters : ∀ e ∈ "so bad".toList.zipIdx, 'x' ∉ fold ascii [e.1] := by decide
    split at hx
    · exact absurd hx (by decide)
    · exact hletters e he hx
  · exact absurd hstar (by decide)

/-- A banned word that ends with an asterisk comes about when the letter after it is masked. -/
theorem mask_leaves_star :
    addBannedWord ascii [] (some "a*".toList) = .ok ["a*".toList] ∧
      maskBanned ascii ["a*".toList] "aa*".toList = ("a**".toList, true) ∧
      containsBanned ascii ["a*".toList] "a**".toList = true ∧
      maskBanned ascii ["a*".toList] "a**".toList = ("***".toList, true) := by
  refine ⟨rfl, ?_⟩
  decide

end ScrabbleMagyar.Moderation
