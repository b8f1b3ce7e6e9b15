import ScrabbleMagyar.Engine.Tokenize
import ScrabbleMagyar.Foundations.Firsts
import ScrabbleMagyar.Foundations.Tables
import ScrabbleMagyar.Words.Dictionary
import Mathlib.Data.Char
import Mathlib.Data.List.Sort
import Mathlib.Data.Prod.Lex

/-!
# Suggestions for a misspelt word

The valid words that one edit makes of a word, the likeliest edits first (`edit_candidates` and
`suggest_words` in `words/dictionary.rs`).

* `mem_rankedCandidates`, `rankedCandidates_sorted`: the candidates are the edits of the word,
  each once, by the rank of the edit and then by the letters.
* `suggestWords_iff`: the suggestions are the first valid edits, and all of them can be laid
  exactly if every valid edit with a letter that has no tile comes after `limit` others.
-/

namespace ScrabbleMagyar

def suggestAlphabet : Word :=
  ['a', 'á', 'b', 'c', 'd', 'e', 'é', 'f', 'g', 'h', 'i', 'í', 'j', 'k', 'l', 'm', 'n', 'o', 'ó',
    'ö', 'ő', 'p', 'q', 'r', 's', 't', 'u', 'ú', 'ü', 'ű', 'v', 'w', 'x', 'y', 'z']

/-- The letter without its accent. -/
def accentBase (c : Char) : Char :=
  match c with
  | 'á' => 'a'
  | 'é' => 'e'
  | 'í' => 'i'
  | 'ó' | 'ö' | 'ő' => 'o'
  | 'ú' | 'ü' | 'ű' => 'u'
  | other => other

/-! ## The candidates -/

/-- The edits of a word with their ranks, in the order in which they are added. -/
def editsOf (word : Word) : List (Word × ℕ) :=
  ((List.range word.length).flatMap fun i =>
    (suggestAlphabet.filter fun letter => some letter ≠ word[i]?).map fun letter =>
      (word.set i letter, if word[i]?.map accentBase = some (accentBase letter) then 0 else 2)) ++
  ((List.range (word.length - 1)).map fun i =>
    ((word.set i (word.getD (i + 1) ' ')).set (i + 1) (word.getD i ' '), 1)) ++
  ((List.range word.length).map fun i => (word.eraseIdx i, 3)) ++
  ((List.range (word.length + 1)).flatMap fun i =>
    suggestAlphabet.map fun letter => (word.insertIdx i letter, 4))

/-- Add a candidate that is not the word itself, unless it has a rank already. -/
def addCandidate (word : Word) (ranked : Table Word ℕ) (e : Word × ℕ) : Table Word ℕ :=
  if e.1 ≠ word ∧ (ranked.lookup e.1).isNone then ranked.insert e.1 e.2 else ranked

/-- The candidates with their ranks, sorted by rank and then by their letters. -/
def rankedCandidates (word : Word) : List (ℕ ×ₗ Word) :=
  (((editsOf word).foldl (addCandidate word) ∅).entries.map fun e => toLex (e.2, e.1)).mergeSort
    (· ≤ ·)

def editCandidates (word : Word) : List Word := (rankedCandidates word).map fun e => (ofLex e).2

/-! ## The suggestions -/

/-- Whether a candidate is of the right length and in the dictionary. -/
def suggestible (lookup : Word → Bool) (candidate : Word) : Bool :=
  2 ≤ candidate.length && candidate.length ≤ maxWordLength && lookup candidate

/-- Go through the candidates until there are enough suggestions. -/
def suggest (casing : Casing) (lookup : Word → Bool) (limit : ℕ) :
    List Word → List Word → List Word
  | suggestions, [] => suggestions
  | suggestions, candidate :: rest =>
    if suggestible lookup candidate then
      let suggestions := suggestions ++ [casing.toUppercase candidate]
      if suggestions.length ≥ limit then suggestions
      else suggest casing lookup limit suggestions rest
    else suggest casing lookup limit suggestions rest

/-- The suggestions for a word, at most `limit`. -/
def suggestWords (casing : Casing) (lex : Lexicon) (word : Word) (limit : ℕ) : List Word :=
  if !validWordShape (casing.toUppercase word) || decide (maxWordLength < word.length) then []
  else match lex.checker with
    | none => []
    | some checker =>
      suggest casing (lookupWith checker lex.lists) limit [] (editCandidates (toLowercase word))

/-! ## What an edit is -/

/-- One edit of a word, with its rank: an accent, a swap of neighbours, another letter in place of
one, a deletion, an insertion. -/
inductive Edit (word : Word) : ℕ → Word → Prop
  | replace {i : ℕ} {c letter : Char} (place : word[i]? = some c) (mem : letter ∈ suggestAlphabet)
      (ne : letter ≠ c) :
      Edit word (if accentBase letter = accentBase c then 0 else 2) (word.set i letter)
  | swap {i : ℕ} {c d : Char} (place : word[i]? = some c) (next : word[i + 1]? = some d) :
      Edit word 1 ((word.set i d).set (i + 1) c)
  | delete {i : ℕ} (place : i < word.length) : Edit word 3 (word.eraseIdx i)
  | insert {i : ℕ} {letter : Char} (place : i ≤ word.length) (mem : letter ∈ suggestAlphabet) :
      Edit word 4 (word.insertIdx i letter)

theorem mem_editsOf {word w : Word} {r : ℕ} : (w, r) ∈ editsOf word ↔ Edit word r w := by
  have hget {i : ℕ} (hi : i < word.length) : ∃ c, word[i]? = some c :=
    ⟨_, List.getElem?_eq_getElem hi⟩
  simp only [editsOf, List.mem_append, List.mem_flatMap, List.mem_map, List.mem_range,
    List.mem_filter, decide_eq_true_eq, Prod.mk.injEq]
  constructor
  · rintro (((⟨i, hi, letter, ⟨hmem, hne⟩, rfl, rfl⟩ | ⟨i, hi, rfl, rfl⟩) | ⟨i, hi, rfl, rfl⟩) |
      ⟨i, hi, letter, hmem, rfl, rfl⟩)
    · obtain ⟨c, hc⟩ := hget hi
      have hrank : (word[i]?.map accentBase = some (accentBase letter)) =
          (accentBase letter = accentBase c) := by
        rw [hc, Option.map_some, Option.some.injEq, eq_comm (a := accentBase c)]
      simp only [hrank]
      exact .replace hc hmem fun heq => hne (by rw [hc, heq])
    · obtain ⟨c, hc⟩ := hget (i := i) (by omega)
      obtain ⟨d, hd⟩ := hget (i := i + 1) (by omega)
      rw [List.getD_eq_getElem?_getD, List.getD_eq_getElem?_getD, hc, hd]
      exact .swap hc hd
    · exact .delete hi
    · exact .insert (by omega) hmem
  · intro h
    cases h with
    | @replace i c letter place mem ne =>
      have hi := (List.getElem?_eq_some_iff.mp place).1
      refine Or.inl (Or.inl (Or.inl ⟨i, hi, letter, ⟨mem, ?_⟩, rfl, ?_⟩))
      · rw [place]
        exact fun heq => ne (Option.some.inj heq)
      · rw [place, Option.map_some]
        simp only [Option.some.injEq, eq_comm]
    | @swap i c d place next =>
      have hi := (List.getElem?_eq_some_iff.mp next).1
      refine Or.inl (Or.inl (Or.inr ⟨i, by omega, ?_, rfl⟩))
      rw [List.getD_eq_getElem?_getD, List.getD_eq_getElem?_getD, place, next]
      rfl
    | @delete i place => exact Or.inl (Or.inr ⟨i, place, rfl, rfl⟩)
    | @insert i letter place mem => exact Or.inr ⟨i, by omega, letter, mem, rfl, rfl⟩

theorem Edit.length_eq {word w : Word} {r : ℕ} (h : Edit word r w) :
    (r ≤ 2 ∧ w.length = word.length) ∨ (r = 3 ∧ w.length + 1 = word.length) ∨
      (r = 4 ∧ w.length = word.length + 1) := by
  cases h with
  | replace place mem ne =>
    refine Or.inl ⟨?_, List.length_set⟩
    split <;> omega
  | swap place next => exact Or.inl ⟨by omega, by simp⟩
  | delete place =>
    refine Or.inr (Or.inl ⟨rfl, ?_⟩)
    rw [List.length_eraseIdx_of_lt place]
    omega
  | insert place mem => exact Or.inr (Or.inr ⟨rfl, List.length_insertIdx_of_le_length place _⟩)

theorem set_of_getElem? {α : Type*} {l : List α} {i : ℕ} {a : α} (h : l[i]? = some a) :
    l.set i a = l := by
  obtain ⟨hi, rfl⟩ := List.getElem?_eq_some_iff.mp h
  exact List.set_getElem_self hi

/-- Where an edit that keeps the length changes the word. -/
theorem Edit.changes {word w : Word} {r : ℕ} (h : Edit word r w) (hne : w ≠ word) (hr : r ≤ 2) :
    (∃ i c letter, word[i]? = some c ∧ letter ≠ c ∧ w = word.set i letter ∧
        r = if accentBase letter = accentBase c then 0 else 2) ∨
      r = 1 ∧ ∃ i, w[i]? ≠ word[i]? ∧ w[i + 1]? ≠ word[i + 1]? := by
  cases h with
  | replace place mem ne => exact Or.inl ⟨_, _, _, place, ne, rfl, rfl⟩
  | @swap i c d place next =>
    have hi := (List.getElem?_eq_some_iff.mp place).1
    have hi' := (List.getElem?_eq_some_iff.mp next).1
    have hcd : c ≠ d := by
      rintro rfl
      refine hne ?_
      rw [set_of_getElem? place, set_of_getElem? next]
    refine Or.inr ⟨rfl, i, ?_, ?_⟩
    · rw [List.getElem?_set_ne (by omega), List.getElem?_set_self hi, place]
      exact fun heq => hcd (Option.some.inj heq).symm
    · rw [List.getElem?_set_self (by rwa [List.length_set]), next]
      exact fun heq => hcd (Option.some.inj heq)
  | delete place => omega
  | insert place mem => omega

/-- An edit has one rank. -/
theorem Edit.rank_unique {word w : Word} {r r' : ℕ} (h : Edit word r w) (h' : Edit word r' w)
    (hne : w ≠ word) : r = r' := by
  have hlen := h.length_eq
  have hlen' := h'.length_eq
  by_cases hr : r ≤ 2
  · have hr' : r' ≤ 2 := by omega
    -- a letter put in place of another is seen at one place, a swap at two neighbours
    have hapart {i j : ℕ} {letter : Char} (hset : w = word.set i letter)
        (hj : w[j]? ≠ word[j]?) : j = i := by
      by_contra hji
      rw [hset, List.getElem?_set_ne (Ne.symm hji)] at hj
      exact hj rfl
    rcases h.changes hne hr with ⟨i, c, letter, hc, hletter, hset, hrank⟩ | ⟨hone, i, hi, hi'⟩
    · have hi := (List.getElem?_eq_some_iff.mp hc).1
      have hw : w[i]? = some letter := by rw [hset, List.getElem?_set_self hi]
      rcases h'.changes hne hr' with ⟨j, d, letter', hd, -, hset', hrank'⟩ | ⟨-, j, hj, hj'⟩
      · obtain rfl : i = j := by
          refine hapart hset' ?_
          rw [hw, hc]
          exact fun heq => hletter (Option.some.inj heq)
        obtain rfl := Option.some.inj (hc.symm.trans hd)
        have hw' : w[i]? = some letter' := by rw [hset', List.getElem?_set_self hi]
        obtain rfl := Option.some.inj (hw.symm.trans hw')
        rw [hrank, hrank']
      · have hj := hapart hset hj
        have hj' := hapart hset hj'
        omega
    · rcases h'.changes hne hr' with ⟨j, d, letter', hd, -, hset', hrank'⟩ | ⟨hone', -⟩
      · have hi := hapart hset' hi
        have hi' := hapart hset' hi'
        omega
      · rw [hone, hone']
  · omega

/-! ## The ranked candidates -/

variable {word w : Word} {r : ℕ}

theorem lookup_addCandidate (ranked : Table Word ℕ) (e : Word × ℕ) :
    (addCandidate word ranked e).lookup w =
      if w = e.1 ∧ w ≠ word ∧ ranked.lookup w = none then some e.2 else ranked.lookup w := by
  unfold addCandidate
  by_cases hw : w = e.1
  · subst hw
    by_cases hadd : e.1 ≠ word ∧ ranked.lookup e.1 = none
    · rw [if_pos (by simpa using hadd), Table.lookup_insert, if_pos rfl, if_pos ⟨rfl, hadd⟩]
    · rw [if_neg (by simpa using hadd), if_neg fun h => hadd h.2]
  · have hother : ¬(w = e.1 ∧ w ≠ word ∧ ranked.lookup w = none) := fun h => hw h.1
    rw [if_neg hother]
    split
    · rw [Table.lookup_insert, if_neg hw]
    · rfl

/-- What is ranked was added. -/
theorem of_lookup_foldl_add {l : List (Word × ℕ)} {ranked : Table Word ℕ}
    (h : (l.foldl (addCandidate word) ranked).lookup w = some r) :
    (w, r) ∈ l ∧ w ≠ word ∨ ranked.lookup w = some r := by
  induction l generalizing ranked with
  | nil => exact Or.inr h
  | cons e l ih =>
    rcases ih h with ⟨hmem, hne⟩ | hlookup
    · exact Or.inl ⟨List.mem_cons_of_mem e hmem, hne⟩
    · rw [lookup_addCandidate] at hlookup
      split at hlookup
      · rename_i hadded
        obtain rfl := Option.some.inj hlookup
        rw [hadded.1]
        exact Or.inl ⟨List.mem_cons_self, hadded.1 ▸ hadded.2.1⟩
      · exact Or.inr hlookup

/-- A ranked candidate stays ranked. -/
theorem lookup_foldl_add_of_some (l : List (Word × ℕ)) {ranked : Table Word ℕ}
    (h : ranked.lookup w = some r) : (l.foldl (addCandidate word) ranked).lookup w = some r := by
  induction l generalizing ranked with
  | nil => exact h
  | cons e l ih =>
    refine ih ?_
    rw [lookup_addCandidate, if_neg (by simp [h]), h]

/-- What was added and is not the word itself is ranked. -/
theorem exists_lookup_foldl_add {l : List (Word × ℕ)} (hmem : (w, r) ∈ l) (hne : w ≠ word)
    (ranked : Table Word ℕ) : ∃ r', (l.foldl (addCandidate word) ranked).lookup w = some r' := by
  induction l generalizing ranked with
  | nil => cases hmem
  | cons e l ih =>
    obtain rfl | hmem := List.mem_cons.mp hmem
    · have hadded : ∃ r', (addCandidate word ranked (w, r)).lookup w = some r' := by
        rw [lookup_addCandidate]
        cases ranked.lookup w <;> simp [hne]
      obtain ⟨r', hr'⟩ := hadded
      exact ⟨r', lookup_foldl_add_of_some l hr'⟩
    · exact ih hmem _

/-- The ranked candidates are the edits of the word. -/
theorem mem_rankedCandidates {e : ℕ ×ₗ Word} :
    e ∈ rankedCandidates word ↔ Edit word (ofLex e).1 (ofLex e).2 ∧ (ofLex e).2 ≠ word := by
  have hlookup : e ∈ rankedCandidates word ↔
      ((editsOf word).foldl (addCandidate word) ∅).lookup (ofLex e).2 = some (ofLex e).1 := by
    rw [rankedCandidates, List.mem_mergeSort, List.mem_map, ← Option.mem_def, AList.mem_lookup_iff]
    constructor
    · rintro ⟨⟨w, r⟩, hmem, rfl⟩
      exact hmem
    · intro hmem
      exact ⟨_, hmem, rfl⟩
  rw [hlookup]
  constructor
  · intro h
    rcases of_lookup_foldl_add h with ⟨hmem, hne⟩ | hempty
    · exact ⟨mem_editsOf.mp hmem, hne⟩
    · cases hempty
  · rintro ⟨hedit, hne⟩
    obtain ⟨r', hr'⟩ := exists_lookup_foldl_add (mem_editsOf.mpr hedit) hne ∅
    rcases of_lookup_foldl_add hr' with ⟨hmem, -⟩ | hempty
    · rw [hr', (mem_editsOf.mp hmem).rank_unique hedit hne]
    · cases hempty

/-- The candidates stand in their order, each once. -/
theorem rankedCandidates_sorted (word : Word) : (rankedCandidates word).Pairwise (· < ·) := by
  have hle := List.pairwise_mergeSort' (· ≤ ·)
    (((editsOf word).foldl (addCandidate word) ∅).entries.map fun e => toLex (e.2, e.1))
  have hnodup : (rankedCandidates word).Nodup := by
    refine (List.mergeSort_perm _ _).nodup_iff.mpr (List.Nodup.of_map (fun e => (ofLex e).2) ?_)
    rw [List.map_map]
    exact ((editsOf word).foldl (addCandidate word) ∅).keys_nodup
  refine (hle.and hnodup).imp ?_
  rintro a b ⟨hab, hne⟩
  exact lt_of_le_of_ne hab hne

/-! ## The first valid edits -/

/-- The scan takes the first valid candidates. -/
theorem suggest_eq (casing : Casing) (lookup : Word → Bool) {limit : ℕ} (suggestions : List Word)
    (hroom : suggestions.length < limit) (candidates : List Word) :
    suggest casing lookup limit suggestions candidates = suggestions ++
      (((candidates.filter (suggestible lookup)).take (limit - suggestions.length)).map
        casing.toUppercase) := by
  induction candidates generalizing suggestions with
  | nil => simp [suggest]
  | cons candidate rest ih =>
    rw [suggest]
    split
    · rename_i hvalid
      rw [List.filter_cons_of_pos hvalid]
      obtain ⟨room, hroom'⟩ : ∃ room, limit - suggestions.length = room + 1 :=
        ⟨limit - suggestions.length - 1, by omega⟩
      rw [hroom', List.take_succ_cons, List.map_cons]
      simp only [List.length_append, List.length_singleton]
      split
      · have hzero : room = 0 := by omega
        simp [hzero]
      · rw [ih _ (by rw [List.length_append, List.length_singleton]; omega), List.append_assoc,
          List.singleton_append]
        congr 4
        rw [List.length_append, List.length_singleton]
        omega
    · rename_i hvalid
      rw [List.filter_cons_of_neg hvalid]
      exact ih suggestions hroom

/-- The valid words of 2 to 15 letters that one edit makes of a word, with the rank of the edit. -/
def validEdits (lex : Lexicon) (word : Word) : Set (ℕ ×ₗ Word) :=
  {e | Edit (toLowercase word) (ofLex e).1 (ofLex e).2 ∧ (ofLex e).2 ≠ toLowercase word ∧
    2 ≤ (ofLex e).2.length ∧ (ofLex e).2.length ≤ maxWordLength ∧
      ∃ c, lex.checker = some c ∧ lookupWith c lex.lists (ofLex e).2 = true}

/-- The suggestions are what the word should be: the first valid edits in upper case, each once and
none the word itself, and all of them can be laid. -/
structure Suggested (casing : Casing) (lex : Lexicon) (word : Word) (limit : ℕ)
    (suggestions : List Word) : Prop where
  first : ∃ l, FirstsOf (validEdits lex word) limit l ∧
    suggestions = l.map fun e => casing.toUppercase (ofLex e).2
  nodup : suggestions.Nodup
  other : word ∉ suggestions
  laid : ∀ w ∈ suggestions, (tokenizeWord casing w).isSome = true

variable {casing : Casing} {lex : Lexicon} {limit : ℕ}

/-- The suggestions are the first valid edits. -/
theorem exists_firstsOf (casing : Casing) (lex : Lexicon)
    (hshape : validWordShape word = true) (hlen : word.length ≤ maxWordLength)
    (hlimit : 1 ≤ limit) : ∃ l, FirstsOf (validEdits lex word) limit l ∧
      suggestWords casing lex word limit = l.map fun e => casing.toUppercase (ofLex e).2 := by
  have hupper : casing.toUppercase word = word := by
    rw [validWordShape, Bool.and_eq_true, List.all_eq_true] at hshape
    exact casing.toUppercase_of_upper hshape.2
  have haccepted : ¬(!validWordShape word || decide (maxWordLength < word.length)) = true := by
    simpa [hshape] using hlen
  unfold suggestWords
  rw [hupper, if_neg haccepted]
  cases hchecker : lex.checker with
  | none =>
    refine ⟨[], ⟨List.Pairwise.nil, by simp, Nat.zero_le _, ?_⟩, rfl⟩
    rintro e ⟨-, -, -, -, c, hc, -⟩
    rw [hchecker] at hc
    cases hc
  | some c =>
    have hsorted : ((rankedCandidates (toLowercase word)).filter fun e =>
        suggestible (lookupWith c lex.lists) (ofLex e).2).Pairwise (· < ·) :=
      (rankedCandidates_sorted _).sublist List.filter_sublist
    have hmem : ∀ e, e ∈ validEdits lex word ↔ e ∈ (rankedCandidates (toLowercase word)).filter
        fun e => suggestible (lookupWith c lex.lists) (ofLex e).2 := by
      intro e
      simp only [validEdits, Set.mem_ofPred_eq, hchecker, Option.some.injEq, exists_eq_left',
        List.mem_filter, mem_rankedCandidates, suggestible, Bool.and_eq_true, decide_eq_true_eq,
        and_assoc]
    refine ⟨_, firstsOf_take hsorted hmem limit, ?_⟩
    simp only
    rw [suggest_eq casing _ [] hlimit, editCandidates, List.filter_map, ← List.map_take,
      List.map_map, List.nil_append]
    rfl

/-! ## The letters of the edits -/

theorem Edit.letters {P : Char → Prop} (h : Edit word r w) (hword : ∀ c ∈ word, P c)
    (halphabet : ∀ c ∈ suggestAlphabet, P c) : ∀ c ∈ w, P c := by
  intro c hc
  cases h with
  | replace place mem ne =>
    rcases List.mem_or_eq_of_mem_set hc with hc | rfl
    · exact hword c hc
    · exact halphabet c mem
  | swap place next =>
    rcases List.mem_or_eq_of_mem_set hc with hc | rfl
    · rcases List.mem_or_eq_of_mem_set hc with hc | rfl
      · exact hword c hc
      · exact hword c (List.mem_of_getElem? next)
    · exact hword c (List.mem_of_getElem? place)
  | delete place => exact hword c (List.mem_of_mem_eraseIdx hc)
  | insert place mem =>
    rcases List.eq_or_mem_of_mem_insertIdx hc with rfl | hc
    · exact halphabet c mem
    · exact hword c hc

/-- The upper case form of an edit is a word of letters, and the edit is its lower case form. -/
theorem validEdits_upper (casing : Casing) (hshape : validWordShape word = true) {e : ℕ ×ₗ Word}
    (he : e ∈ validEdits lex word) :
    (∀ c ∈ casing.toUppercase (ofLex e).2, isUpperLetter c = true) ∧
      toLowercase (casing.toUppercase (ofLex e).2) = (ofLex e).2 := by
  rw [validWordShape, Bool.and_eq_true, List.all_eq_true] at hshape
  refine casing.toUppercase_of_lower
    (he.1.letters (fun c hc => ?_) (List.all_eq_true.mp (by decide +kernel)))
  obtain ⟨u, hu, rfl⟩ := List.mem_map.mp hc
  exact Casing.of_alphabet (p := fun c => isLowerLetter (lowerChar c) = true) (by decide +kernel)
    (hshape.2 u hu)

/-- A valid edit that does not come too late is suggested. -/
theorem mem_suggestWords (casing : Casing) (hshape : validWordShape word = true)
    (hlen : word.length ≤ maxWordLength) (hlimit : 1 ≤ limit) {e : ℕ ×ₗ Word}
    (he : e ∈ validEdits lex word) (hnot : ¬Preceded (validEdits lex word) limit e) :
    casing.toUppercase (ofLex e).2 ∈ suggestWords casing lex word limit := by
  obtain ⟨l, hfirst, hl⟩ := exists_firstsOf casing lex hshape hlen hlimit
  rw [hl]
  exact List.mem_map.mpr ⟨e, (hfirst.mem_iff he).mpr hnot, rfl⟩

/-- **When the suggestions are exact and playable.** They are the first valid edits, without
repetition and without the word itself; all of them can be laid exactly if every valid edit whose
letters do not fit comes after `limit` others. -/
theorem suggestWords_iff (casing : Casing) (lex : Lexicon) (word : Word) (limit : ℕ)
    (hshape : validWordShape word = true) (hlen : word.length ≤ maxWordLength)
    (hlimit : 1 ≤ limit) :
    Suggested casing lex word limit (suggestWords casing lex word limit) ↔
      ∀ e ∈ validEdits lex word, lettersFit none (casing.toUppercase (ofLex e).2) = false →
        Preceded (validEdits lex word) limit e := by
  obtain ⟨l, hfirst, hl⟩ := exists_firstsOf casing lex hshape hlen hlimit
  have hlaid (e : ℕ ×ₗ Word) (he : e ∈ validEdits lex word) :
      (tokenizeWord casing (casing.toUppercase (ofLex e).2)).isSome = true ↔
        lettersFit none (casing.toUppercase (ofLex e).2) = true :=
    isSome_tokenizeWord_iff_lettersFit casing (validEdits_upper casing hshape he).1
  constructor
  · intro h e he hunfit
    by_contra hnot
    have hmem := mem_suggestWords casing hshape hlen hlimit he hnot
    rw [(hlaid e he).mp (h.laid _ hmem)] at hunfit
    cases hunfit
  · intro h
    refine ⟨⟨l, hfirst, hl⟩, ?_, ?_, ?_⟩
    · rw [hl]
      refine List.Nodup.map_on (fun e he e' he' heq => ?_) (hfirst.sorted.imp ne_of_lt)
      have hlower := validEdits_upper casing hshape (hfirst.mem e he)
      have hlower' := validEdits_upper casing hshape (hfirst.mem e' he')
      obtain ⟨hedit, hne, -⟩ := hfirst.mem e he
      obtain ⟨hedit', -⟩ := hfirst.mem e' he'
      have hsnd : (ofLex e).2 = (ofLex e').2 := by rw [← hlower.2, heq, hlower'.2]
      rw [← hsnd] at hedit'
      exact Prod.ext (hedit.rank_unique hedit' hne) hsnd
    · rw [hl, List.mem_map]
      rintro ⟨e, he, heq⟩
      have hlower := (validEdits_upper casing hshape (hfirst.mem e he)).2
      rw [heq] at hlower
      exact (hfirst.mem e he).2.1 hlower.symm
    · intro w hw
      rw [hl] at hw
      obtain ⟨e, he, rfl⟩ := List.mem_map.mp hw
      have heS := hfirst.mem e he
      rw [hlaid e heS]
      by_contra hunfit
      exact (hfirst.mem_iff heS).mp he (h e heS (Bool.not_eq_true _ ▸ hunfit))

/-! ## A suggestion that cannot be laid -/

/-- A dictionary of one word. -/
def lexiconOf (word : Word) : Lexicon := ⟨some fun w => w == word, Lists.empty⟩

theorem eq_of_mem_validEdits {known : Word} {e : ℕ ×ₗ Word}
    (he : e ∈ validEdits (lexiconOf known) word) : (ofLex e).2 = known := by
  obtain ⟨-, -, -, -, c, hc, hlookup⟩ := he
  obtain rfl := Option.some.inj hc
  unfold lookupWith at hlookup
  simp only [lexiconOf, Lists.empty, Finset.notMem_empty, if_false, or_self, and_false] at hlookup
  split at hlookup
  · cases hlookup
  · simpa using hlookup

theorem suggestWords_alma : Suggested .hungarian (lexiconOf ['a', 'l', 'm', 'a'])
    ['A', 'L', 'M', 'O'] 3 (suggestWords .hungarian (lexiconOf ['a', 'l', 'm', 'a'])
      ['A', 'L', 'M', 'O'] 3) := by
  refine (suggestWords_iff _ _ _ 3 (by decide) (by decide) (by decide)).mpr fun e he hunfit => ?_
  rw [eq_of_mem_validEdits he] at hunfit
  exact absurd hunfit (by decide)

/-- `TAXI` is suggested for `TAKI`, and no tile has an `X`. -/
theorem taxi_suggested :
    ¬∀ (casing : Casing) (lex : Lexicon) (word : Word) (limit : ℕ), validWordShape word = true →
      word.length ≤ maxWordLength → 1 ≤ limit →
        Suggested casing lex word limit (suggestWords casing lex word limit) := by
  intro h
  have hsuggested := h .hungarian (lexiconOf ['t', 'a', 'x', 'i']) ['T', 'A', 'K', 'I'] 1
    (by decide) (by decide) le_rfl
  have htaxi : toLex (2, ['t', 'a', 'x', 'i']) ∈
      validEdits (lexiconOf ['t', 'a', 'x', 'i']) ['T', 'A', 'K', 'I'] :=
    ⟨@Edit.replace _ 2 'k' 'x' rfl (by decide) (by decide), by decide, by decide, by decide, _,
      rfl, by decide⟩
  have hfirst : ¬Preceded (validEdits (lexiconOf ['t', 'a', 'x', 'i']) ['T', 'A', 'K', 'I']) 1
      (toLex (2, ['t', 'a', 'x', 'i'])) := by
    rintro ⟨l, -, hl, hbefore⟩
    obtain ⟨e, rfl⟩ := List.length_eq_one_iff.mp hl
    obtain ⟨he, hlt⟩ := hbefore e List.mem_cons_self
    -- the only valid edit is the word itself
    have hsnd := eq_of_mem_validEdits he
    have hfst : (ofLex e).1 = 2 := he.1.rank_unique (hsnd ▸ htaxi.1) he.2.1
    exact absurd (Prod.ext hfst hsnd : e = toLex (2, ['t', 'a', 'x', 'i'])) hlt.ne
  have hlaid := hsuggested.laid _ (mem_suggestWords _ (by decide) (by decide) le_rfl htaxi hfirst)
  revert hlaid
  decide +kernel

end ScrabbleMagyar
