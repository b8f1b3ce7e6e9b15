import ScrabbleMagyar.Engine.Tokenize
import ScrabbleMagyar.Foundations.Odometer
import ScrabbleMagyar.Words.ValidCache
import Mathlib.Data.Char
import Mathlib.Data.List.Sort

/-!
# The lists of short words

The words of two and of three tiles (`short_words` in `words/practice.rs`): the rows of letters
that decompose into that many tiles and have a vowel, as far as the dictionary takes them. The
list is kept with the version of the word lists for which it was computed.

* `listing_complete_iff`: the list is complete exactly if a dictionary is loaded and takes no
  interjection without a vowel of that many tiles.
* `shortWords_complete_iff`: the same of what `shortWords` returns after any calls, one after the
  other.
-/

namespace ScrabbleMagyar

/-- `VOWELS`. -/
def vowels : Word := ['A', 'Á', 'E', 'É', 'I', 'Í', 'O', 'Ó', 'Ö', 'Ő', 'U', 'Ú', 'Ü', 'Ű']

def hasVowelUpper (word : Word) : Bool := word.any fun c => vowels.contains c

def shortLengths : List ℕ := [2, 3]

/-- A word of a list, with its base score. -/
structure ShortWord where
  word : Word
  score : Option ℕ
  deriving DecidableEq

/-- The word lists with the cache of verdicts, their version, and the lists of short words by
length, each with its version. -/
structure WordCaches where
  valid : ValidCache
  version : ℕ
  short : Table ℕ (ℕ × List ShortWord)

section

variable (casing : Casing) (checker : Option (Word → Bool))

/-- The word of a row of letters. -/
def wordOfIndices (indices : List ℕ) : Word :=
  indices.flatMap fun i => (letters.getD i Tile.blank).asStr

/-- The rows of letters that decompose into that many tiles and have a vowel. -/
def shortCandidates (length : ℕ) : List Word :=
  ((Odometer.visit letters.length (letters.length ^ length) (List.replicate length 0)).map
    wordOfIndices).filter fun word =>
      decide ((tokenizeWord casing word).map List.length = some length) && hasVowelUpper word

/-- Valid words as a list of short words. -/
def shortList (valid : List Word) : List ShortWord :=
  (valid.mergeSort (· ≤ ·)).map fun w => ⟨w, wordBaseScore casing w⟩

/-- The list of the words of so many tiles, as kept or else computed. -/
def shortWords (s : WordCaches) (length : ℕ) : WordCaches × List ShortWord :=
  match (s.short.lookup length).filter fun e => e.1 == s.version with
  | some e => (s, e.2)
  | none =>
    let (d, valid) := ValidCache.filterValid checker s.valid (shortCandidates casing length)
    let list := shortList casing valid
    ({ s with valid := d, short := s.short.insert length (s.version, list) }, list)

/-- An update of the word lists: a change of the lists raises the version and invalidates verdicts. -/
def updateLists (s : WordCaches) (u : ValidCache.ListUpdate) : WordCaches :=
  match u.write s.valid.lists with
  | some (lists, target) =>
    { s with
      valid := ⟨lists, ValidCache.invalidate s.valid.cache target⟩
      version := s.version + 1 }
  | none => s

/-! ## What the list should be -/

/-- The list that the word lists determine. -/
def listing (lists : Lists) (length : ℕ) : List ShortWord :=
  shortList casing ((shortCandidates casing length).dedup.filter
    (Lexicon.accepts ⟨checker, lists⟩))

/-- A word of so many tiles. -/
def OfTiles (length : ℕ) (word : Word) : Prop :=
  (tokenizeWord casing word).map List.length = some length

/-- The list has, sorted and each once, the words of so many tiles that the dictionary check of
the game accepts, with their base scores. -/
structure Complete (lex : Lexicon) (length : ℕ) (list : List ShortWord) : Prop where
  sorted : (list.map ShortWord.word).Pairwise (· < ·)
  exact_ : ∀ word, word ∈ list.map ShortWord.word ↔
    OfTiles casing length word ∧ (lex.checkWords [word]).1 = true
  scored : ∀ e ∈ list, e.score = wordBaseScore casing e.word

end

/-- A dictionary is loaded, and it takes no interjection without a vowel of so many tiles. -/
def Covered (casing : Casing) (checker : Option (Word → Bool)) (lists : Lists) (length : ℕ) : Prop :=
  ∃ c, checker = some c ∧ ∀ word ∈ vowellessInterjections, OfTiles casing length word →
    lookupWith c lists word = false

/-- The interjections of two tiles and of three. -/
example : (shortLengths.map fun n => vowellessInterjections.filter fun w =>
    decide ((tokenizeWord .hungarian w).map List.length = some n)) =
      [[['h', 'm']], [['b', 'r', 'r'], ['h', 'm', 'm'], ['k', 'h', 'm'], ['p', 's', 'z', 't']]] := by
  decide +kernel

/-! ## The candidates -/

section

variable {casing : Casing}

/-- Every row of letters is among those tried. -/
theorem exists_indices {tiles : List Tile} (h : ∀ t ∈ tiles, t ≠ Tile.blank) :
    ∃ indices, indices.length = tiles.length ∧ Odometer.Digits letters.length indices ∧
      wordOfIndices indices = (tiles.map Tile.asStr).flatten := by
  induction tiles with
  | nil => exact ⟨[], rfl, by simp [Odometer.Digits], rfl⟩
  | cons t tiles ih =>
    obtain ⟨ht, htiles⟩ := List.forall_mem_cons.mp h
    obtain ⟨indices, hlen, hdigits, hword⟩ := ih htiles
    have hmem : t ∈ letters := List.mem_filter.mpr ⟨List.mem_finRange t, by simpa using ht⟩
    obtain ⟨i, hi, hget⟩ := List.mem_iff_getElem.mp hmem
    refine ⟨i :: indices, by simp [hlen], List.forall_mem_cons.mpr ⟨hi, hdigits⟩, ?_⟩
    rw [wordOfIndices] at hword
    rw [wordOfIndices, List.flatMap_cons, hword, List.getD_eq_getElem?_getD,
      List.getElem?_eq_getElem hi, hget]
    rfl

theorem length_letters : letters.length = 38 := by decide +kernel

/-- The candidates of upper case letters are the words of so many tiles with a vowel. -/
theorem mem_shortCandidates {length : ℕ} {word : Word} (hupper : casing.toUppercase word = word) :
    word ∈ shortCandidates casing length ↔
      OfTiles casing length word ∧ hasVowelUpper word = true := by
  simp only [shortCandidates, List.mem_filter, Bool.and_eq_true, decide_eq_true_eq]
  refine ⟨fun h => h.2, fun h => ⟨?_, h⟩⟩
  obtain ⟨tiles, htiles, hlen⟩ := Option.map_eq_some_iff.mp h.1
  have htiling := (bestSplit_of_tokenizeWord htiles).tiling
  rw [hupper] at htiling
  obtain ⟨indices, hindices, hdigits, hword⟩ := exists_indices htiling.lettered
  rw [← hlen, ← hindices]
  refine List.mem_map.mpr ⟨indices, Odometer.mem_visit ?_ hdigits, by rw [hword, htiling.text]⟩
  rw [length_letters]
  decide

end

/-! ## The listing -/

section

variable {casing : Casing} {checker : Option (Word → Bool)} {lists : Lists} {length : ℕ}

theorem upper_of_accepts {lex : Lexicon} {word : Word} (h : lex.accepts word = true) :
    ∀ c ∈ word, isUpperLetter c = true := by
  simp only [Lexicon.accepts, Lexicon.wellShaped, validWordShape, Bool.and_eq_true,
    Bool.not_eq_true', Bool.or_eq_false_iff, Bool.not_eq_false', List.all_eq_true] at h
  exact h.1.2.2

theorem checkWords_singleton {lex : Lexicon} {word : Word} :
    (lex.checkWords [word]).1 = true ↔ lex.accepts word = true := by
  rw [Lexicon.checkWords_fst]
  simp

theorem words_shortList (casing : Casing) (valid : List Word) :
    (shortList casing valid).map ShortWord.word = valid.mergeSort (· ≤ ·) := by
  simp [shortList, Function.comp_def]

theorem mem_words_listing {word : Word} :
    word ∈ (listing casing checker lists length).map ShortWord.word ↔
      OfTiles casing length word ∧ hasVowelUpper word = true ∧
        Lexicon.accepts ⟨checker, lists⟩ word = true := by
  rw [listing, words_shortList, List.mem_mergeSort, List.mem_filter, List.mem_dedup, ← and_assoc]
  refine and_congr_left fun haccepts => mem_shortCandidates ?_
  exact casing.toUppercase_of_upper (upper_of_accepts haccepts)

/-- A sorted list of different words increases. -/
theorem pairwise_lt_shortList {valid : List Word} (h : valid.Nodup) :
    ((shortList casing valid).map ShortWord.word).Pairwise (· < ·) := by
  rw [words_shortList]
  have hne : (valid.mergeSort (· ≤ ·)).Nodup := (List.mergeSort_perm _ _).nodup_iff.mpr h
  refine ((List.pairwise_mergeSort' (· ≤ ·) valid).and hne).imp ?_
  rintro a b ⟨hle, hne⟩
  exact lt_of_le_of_ne hle hne

/-- The list is complete if the accepted words of so many tiles all have a vowel. -/
theorem listing_complete_iff_vowels :
    Complete casing ⟨checker, lists⟩ length (listing casing checker lists length) ↔
      ∀ word, OfTiles casing length word → Lexicon.accepts ⟨checker, lists⟩ word = true →
        hasVowelUpper word = true := by
  constructor
  · intro h word hof haccepts
    have hmem := (h.exact_ word).mpr ⟨hof, checkWords_singleton.mpr haccepts⟩
    exact (mem_words_listing.mp hmem).2.1
  · intro h
    refine ⟨pairwise_lt_shortList ((List.nodup_dedup _).filter _), fun word => ?_, ?_⟩
    · rw [mem_words_listing, checkWords_singleton]
      exact ⟨fun ⟨hof, _, haccepts⟩ => ⟨hof, haccepts⟩,
        fun ⟨hof, haccepts⟩ => ⟨hof, h word hof haccepts, haccepts⟩⟩
    · intro e he
      obtain ⟨w, -, rfl⟩ := List.mem_map.mp he
      rfl

/-! ## The vowels -/

theorem hasVowel_toLowercase {word : Word} (h : ∀ c ∈ word, isUpperLetter c = true) :
    hasVowel (toLowercase word) = hasVowelUpper word := by
  induction word with
  | nil => rfl
  | cons c word ih =>
    have hc : hasVowel [lowerChar c] = vowels.contains c :=
      Casing.of_alphabet (p := fun c => hasVowel [lowerChar c] = vowels.contains c)
        (by decide +kernel) (h c List.mem_cons_self)
    have hword := ih fun d hd => h d (List.mem_cons_of_mem _ hd)
    rw [hasVowel, List.any_cons, List.any_nil, Bool.or_false] at hc
    rw [hasVowel, toLowercase] at hword
    rw [hasVowel, toLowercase, List.map_cons, List.any_cons, hc, hword]
    rfl

/-- The dictionary takes no word without a vowel but the interjections. -/
theorem vowel_of_lookupWith {c : Word → Bool} {word : Word} (h : lookupWith c lists word = true) :
    hasVowel word = true ∨ word ∈ vowellessInterjections := by
  unfold lookupWith at h
  split at h
  · cases h
  · split at h
    · cases h
    · split at h
      · cases h
      · rename_i hvowel
        rw [Bool.and_eq_true, Bool.not_eq_true', Bool.not_eq_true', not_and, Bool.not_eq_false,
          List.contains_iff_mem] at hvowel
        cases hv : hasVowel word
        · exact Or.inr (hvowel hv)
        · exact Or.inl rfl

/-- The upper case form of an interjection is a word without a vowel. -/
theorem interjection_upper (casing : Casing) {word : Word} (h : word ∈ vowellessInterjections) :
    toLowercase (casing.toUppercase word) = word ∧
      casing.toUppercase (casing.toUppercase word) = casing.toUppercase word ∧
      hasVowelUpper (casing.toUppercase word) = false ∧
      Lexicon.wellShaped (casing.toUppercase word) = true := by
  have hall : ∀ word ∈ vowellessInterjections, word.all isLowerLetter = true ∧
      hasVowel word = false ∧ word.length ≤ maxWordLength ∧ word ≠ [] := by
    decide +kernel
  obtain ⟨hletters, hvowel, hlen, hne⟩ := hall word h
  rw [List.all_eq_true] at hletters
  obtain ⟨hupper, hlower⟩ := casing.toUppercase_of_lower hletters
  refine ⟨hlower, casing.toUppercase_of_upper hupper, ?_, ?_⟩
  · rw [← hasVowel_toLowercase hupper, hlower, hvowel]
  · have hlength : (casing.toUppercase word).length = word.length := by
      rw [← congrArg List.length hlower, toLowercase, List.length_map]
    have hne' : casing.toUppercase word ≠ [] := by
      rw [← List.length_pos_iff_ne_nil, hlength]
      exact List.length_pos_iff_ne_nil.mpr hne
    have hshape : validWordShape (casing.toUppercase word) = true := by
      rw [validWordShape, Bool.and_eq_true, Bool.not_eq_true', List.isEmpty_eq_false_iff]
      exact ⟨hne', List.all_eq_true.mpr hupper⟩
    simp [Lexicon.wellShaped, hshape, hlength, hlen]

/-- Some row of consonants has a valid shape. -/
theorem exists_consonants (casing : Casing) (hlength : length ∈ shortLengths) :
    ∃ word, OfTiles casing length word ∧ Lexicon.wellShaped word = true ∧
      hasVowelUpper word = false := by
  have hupper : ∀ c ∈ List.replicate length 'B', isUpperLetter c = true := by
    intro c hc
    rw [List.eq_of_mem_replicate hc]
    decide
  have hcongr := tokenizeWord_congr ((casing.toUppercase_of_upper hupper).trans
    (Casing.hungarian.toUppercase_of_upper hupper).symm)
  have hall : ∀ n ∈ shortLengths,
      (tokenizeWord .hungarian (List.replicate n 'B')).map List.length = some n ∧
        Lexicon.wellShaped (List.replicate n 'B') = true ∧
          hasVowelUpper (List.replicate n 'B') = false := by
    decide +kernel
  obtain ⟨hof, hshape, hvowel⟩ := hall length hlength
  exact ⟨_, by rwa [OfTiles, hcongr], hshape, hvowel⟩

/-- The list is complete exactly if a dictionary is loaded that takes no interjection. -/
theorem listing_complete_iff (hlength : length ∈ shortLengths) :
    Complete casing ⟨checker, lists⟩ length (listing casing checker lists length) ↔
      Covered casing checker lists length := by
  rw [listing_complete_iff_vowels]
  constructor
  · intro h
    cases checker with
    | none =>
      -- without a dictionary any row of consonants is accepted
      obtain ⟨word, hof, hshape, hvowel⟩ := exists_consonants casing hlength
      have hupper := h word hof (by rw [Lexicon.accepts, hshape, Bool.true_and])
      rw [hvowel] at hupper
      cases hupper
    | some c =>
      refine ⟨c, rfl, fun word hword hof => ?_⟩
      obtain ⟨hlower, hidem, hvowel, hshape⟩ := interjection_upper casing hword
      by_contra htaken
      rw [Bool.not_eq_false] at htaken
      have hupper := h (casing.toUppercase word)
        (by rwa [OfTiles, tokenizeWord_congr hidem])
        (by rw [Lexicon.accepts, hshape, hlower, Bool.true_and]; exact htaken)
      rw [hvowel] at hupper
      cases hupper
  · rintro ⟨c, rfl, hnone⟩ word hof haccepts
    have hupper := upper_of_accepts haccepts
    have hlookup : lookupWith c lists (toLowercase word) = true := by
      rw [Lexicon.accepts, Bool.and_eq_true] at haccepts
      exact haccepts.2
    rw [← hasVowel_toLowercase hupper]
    rcases vowel_of_lookupWith hlookup with hvowel | hmem
    · exact hvowel
    · have hof' : OfTiles casing length (toLowercase word) := by
        rwa [OfTiles, tokenizeWord_congr
          ((casing.toUppercase_toLowercase hupper).trans
            (casing.toUppercase_of_upper hupper).symm)]
      rw [hnone _ hmem hof'] at hlookup
      cases hlookup

end

/-! ## The cache of verdicts -/

namespace ValidCache

variable {checker : Option (Word → Bool)} {d : ValidCache}

@[simp] theorem lists_filterValid (words : List Word) :
    (filterValid checker d words).1.lists = d.lists := by
  unfold filterValid
  simp only
  split <;> rfl

/-- Verdicts of the lists as they are may be stored. -/
theorem Coherent.store {lists : Lists} {cache : Table Word Bool}
    (h : Coherent checker ⟨lists, cache⟩) (unknown : List (Word × Word)) :
    Coherent checker ⟨lists, store cache (compute checker lists unknown)⟩ := by
  refine fun key => (h key).store ?_
  rintro e he rfl
  obtain ⟨u, -, rfl⟩ := List.mem_map.mp he
  rfl

theorem Coherent.filterValid (h : Coherent checker d) (words : List Word) :
    Coherent checker (filterValid checker d words).1 := by
  unfold ValidCache.filterValid
  simp only
  split
  · exact h
  · exact h.store _

/-- After a whole update what is left in the cache are verdicts of the new lists. -/
theorem Coherent.write (h : Coherent checker d) {u : ListUpdate} {lists : Lists}
    {target : Option Word} (hu : u.write d.lists = some (lists, target)) :
    Coherent checker ⟨lists, invalidate d.cache target⟩ := by
  exact fun key => right_invalidate (d := ⟨lists, d.cache⟩) fun hall hkey =>
    (h key).write hu hall hkey

/-- The words found in the cache and the accepted ones of the others. -/
theorem snd_filterValid (checker : Option (Word → Bool)) (d : ValidCache) (words : List Word) :
    (filterValid checker d words).2 = (readCache d.cache words).1 ++
      accepted (compute checker d.lists (readCache d.cache words).2) := by
  unfold filterValid
  simp only
  split
  · rename_i hempty
    rw [List.isEmpty_iff.mp hempty]
    simp [compute, accepted]
  · rfl

theorem nodup_filterValid (words : List Word) : (filterValid checker d words).2.Nodup := by
  have hunique : (words.dedup.filter fun w => Lexicon.wellShaped w).Nodup :=
    (List.nodup_dedup _).filter _
  have haccepted : accepted (compute checker d.lists (readCache d.cache words).2) =
      ((words.dedup.filter fun w => Lexicon.wellShaped w).filter fun w =>
        (d.cache.lookup (toLowercase w)).isNone).filter fun w =>
          verdict checker d.lists (toLowercase w) := by
    simp only [accepted, compute, readCache, List.map_map, List.filter_map]
    simp [Function.comp_def]
  rw [snd_filterValid, haccepted, List.nodup_append]
  refine ⟨hunique.filter _, (hunique.filter _).filter _, fun a ha b hb hab => ?_⟩
  subst hab
  simp only [readCache, List.mem_filter, beq_iff_eq, Option.isNone_iff_eq_none] at ha hb
  rw [ha.2] at hb
  exact absurd hb.1.2 (by simp)

/-- Where the cache is right `filter_valid` gives the words that the dictionary accepts. -/
theorem perm_filterValid {words : List Word} (h : ∀ w ∈ words, Right checker d (toLowercase w)) :
    (filterValid checker d words).2.Perm
      (words.dedup.filter (Lexicon.accepts ⟨checker, d.lists⟩)) := by
  refine (List.perm_ext_iff_of_nodup (nodup_filterValid words)
    ((List.nodup_dedup _).filter _)).mpr fun word => ?_
  rw [mem_filterValid_of_right checker h word, List.mem_filter, List.mem_dedup]

end ValidCache

theorem shortList_congr {casing : Casing} {valid valid' : List Word} (h : valid.Perm valid') :
    shortList casing valid = shortList casing valid' := by
  have hsorted (l : List Word) : (l.mergeSort (· ≤ ·)).Pairwise (· ≤ ·) :=
    List.pairwise_mergeSort' (· ≤ ·) l
  have hperm : (valid.mergeSort (· ≤ ·)).Perm (valid'.mergeSort (· ≤ ·)) :=
    ((List.mergeSort_perm _ _).trans h).trans (List.mergeSort_perm _ _).symm
  rw [shortList, hperm.eq_of_pairwise' (hsorted valid) (hsorted valid'), ← shortList]

/-! ## Whole calls -/

section

variable (casing : Casing) (checker : Option (Word → Bool))

/-- A call that nothing comes in between. -/
inductive WordCall
  | shortWords (length : ℕ)
  | filterValid (words : List Word)
  | update (u : ValidCache.ListUpdate)

/-- The caches after a whole call. -/
def WordCaches.call (s : WordCaches) : WordCall → WordCaches
  | .shortWords length => (ScrabbleMagyar.shortWords casing checker s length).1
  | .filterValid words => { s with valid := (ValidCache.filterValid checker s.valid words).1 }
  | .update u => updateLists s u

/-- The server as it starts: nothing is cached. -/
def WordCaches.Initial (s : WordCaches) : Prop := s.valid.cache = ∅ ∧ s.short = ∅

/-- What is cached is what the word lists say, and a list of short words if it has their
version. -/
structure WordCaches.Settled (s : WordCaches) : Prop where
  coherent : ValidCache.Coherent checker s.valid
  seen : ∀ length v list, s.short.lookup length = some (v, list) → v ≤ s.version
  kept : ∀ length list, s.short.lookup length = some (s.version, list) →
    list = listing casing checker s.valid.lists length

end

section

variable {casing : Casing} {checker : Option (Word → Bool)} {s : WordCaches}

/-- A list kept with the version of the word lists is returned. -/
theorem shortWords_of_lookup {length : ℕ} {list : List ShortWord}
    (h : s.short.lookup length = some (s.version, list)) :
    (shortWords casing checker s length).2 = list := by
  have hkept : (s.short.lookup length).filter (fun e => e.1 == s.version) =
      some (s.version, list) := by
    rw [h, Option.filter_some, beq_self_eq_true, if_pos rfl]
  simp only [shortWords, hkept]

namespace WordCaches

/-- From settled caches the list is the one that the word lists determine. -/
theorem Settled.shortWords_snd (h : Settled casing checker s) (length : ℕ) :
    (shortWords casing checker s length).2 = listing casing checker s.valid.lists length := by
  unfold shortWords
  split
  · rename_i e he
    obtain ⟨hlookup, hversion⟩ := Option.filter_eq_some_iff.mp he
    rw [beq_iff_eq] at hversion
    exact h.kept length e.2 (by rw [hlookup, ← hversion])
  · exact shortList_congr (ValidCache.perm_filterValid fun _ _ => h.coherent _)

/-- A call of `short_words` leaves the list that it returns. -/
theorem Settled.shortWords (h : Settled casing checker s) (length : ℕ) :
    Settled casing checker (shortWords casing checker s length).1 := by
  have hlist := h.shortWords_snd length
  unfold ScrabbleMagyar.shortWords at hlist ⊢
  cases hkept : (s.short.lookup length).filter fun e => e.1 == s.version with
  | some e => exact h
  | none =>
    simp only [hkept] at hlist ⊢
    refine ⟨h.coherent.filterValid _, fun length' v list hentry => ?_,
      fun length' list hentry => ?_⟩
    · rw [Table.lookup_insert] at hentry
      split at hentry
      · obtain ⟨rfl, rfl⟩ := Prod.mk.inj (Option.some.inj hentry)
        exact le_rfl
      · exact h.seen length' v list hentry
    · simp only [ValidCache.lists_filterValid]
      rw [Table.lookup_insert] at hentry
      split at hentry
      · rename_i hlength
        obtain ⟨-, rfl⟩ := Prod.mk.inj (Option.some.inj hentry)
        rw [hlist, hlength]
      · exact h.kept length' list hentry

/-- An update that changes the lists outdates every list of short words. -/
theorem Settled.updateLists (h : Settled casing checker s) (u : ValidCache.ListUpdate) :
    Settled casing checker (updateLists s u) := by
  unfold ScrabbleMagyar.updateLists
  split
  · rename_i lists target hu
    refine ⟨h.coherent.write hu, fun length v list hentry => ?_, fun length list hentry => ?_⟩
    · exact Nat.le_succ_of_le (h.seen length v list hentry)
    · exact absurd (h.seen length _ list hentry) (Nat.not_succ_le_self _)
  · exact h

theorem Settled.call (h : Settled casing checker s) (c : WordCall) :
    Settled casing checker (s.call casing checker c) := by
  cases c with
  | shortWords length => exact h.shortWords length
  | filterValid words =>
    refine ⟨h.coherent.filterValid words, h.seen, fun length list hentry => ?_⟩
    rw [h.kept length list hentry]
    simp only [WordCaches.call, ValidCache.lists_filterValid]
  | update u => exact h.updateLists u

theorem settled_of_initial (h : Initial s) : Settled casing checker s := by
  obtain ⟨hcache, hshort⟩ := h
  refine ⟨fun key v hv => ?_, fun length v list hentry => ?_, fun length list hentry => ?_⟩
  · rw [hcache] at hv
    cases hv
  · rw [hshort] at hentry
    cases hentry
  · rw [hshort] at hentry
    cases hentry

/-- After whole calls the caches are settled. -/
theorem settled_of_reaches
    (h : Runs.Reaches (WordCaches.call casing checker) Initial (fun _ _ => True) s) :
    Settled casing checker s :=
  Runs.Reaches.invariant (WordCaches.call casing checker) (P := Settled casing checker)
    (fun _ hs => settled_of_initial hs) (fun _ c hs _ => hs.call c) h

end WordCaches

/-- **When the list of short words is complete.** After any calls, none of them running, the list
has exactly the accepted words of two or three tiles if and only if a dictionary is loaded and
takes none of the interjections without a vowel of that many tiles. -/
theorem shortWords_complete_iff (length : ℕ) (hlength : length ∈ shortLengths)
    (h : Runs.Reaches (WordCaches.call casing checker) WordCaches.Initial (fun _ _ => True) s) :
    Complete casing ⟨checker, s.valid.lists⟩ length (shortWords casing checker s length).2 ↔
      Covered casing checker s.valid.lists length := by
  rw [(WordCaches.settled_of_reaches h).shortWords_snd, listing_complete_iff hlength]

end

/-! ## An interjection that is not listed -/

/-- A dictionary of one word. -/
def dictionaryOf (word : Word) : Option (Word → Bool) := some fun w => w == word

def emptyCaches : WordCaches := ⟨⟨Lists.empty, ∅⟩, 0, ∅⟩

theorem emptyCaches_initial : emptyCaches.Initial := ⟨rfl, rfl⟩

theorem shortWords_complete_ab :
    Complete .hungarian ⟨dictionaryOf ['a', 'b'], Lists.empty⟩ 2
      (shortWords .hungarian (dictionaryOf ['a', 'b']) emptyCaches 2).2 := by
  refine (shortWords_complete_iff 2 (by decide) (Runs.Reaches.init _ emptyCaches_initial)).mpr
    ⟨_, rfl, ?_⟩
  have hnone : ∀ word ∈ vowellessInterjections,
      lookupWith (fun w => w == ['a', 'b']) Lists.empty word = false := by
    decide +kernel
  exact fun word hword _ => hnone word hword

/-- `HM` has two tiles and is accepted, but has no vowel. -/
theorem interjection_missing :
    ¬∀ (casing : Casing) (checker : Option (Word → Bool)) (s : WordCaches) (length : ℕ),
      length ∈ shortLengths →
        Runs.Reaches (WordCaches.call casing checker) WordCaches.Initial (fun _ _ => True) s →
          Complete casing ⟨checker, s.valid.lists⟩ length
            (shortWords casing checker s length).2 := by
  intro h
  have hcomplete := h .hungarian (dictionaryOf ['h', 'm']) emptyCaches 2 (by decide)
    (Runs.Reaches.init _ emptyCaches_initial)
  have hsettled : emptyCaches.Settled .hungarian (dictionaryOf ['h', 'm']) :=
    WordCaches.settled_of_initial emptyCaches_initial
  rw [hsettled.shortWords_snd, listing_complete_iff_vowels] at hcomplete
  have hvowel := hcomplete ['H', 'M'] (by unfold OfTiles; decide +kernel)
    (by decide +kernel)
  cases hvowel

end ScrabbleMagyar
