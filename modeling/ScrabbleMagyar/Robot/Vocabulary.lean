import ScrabbleMagyar.Engine.Tokenize
import ScrabbleMagyar.Foundations.Bisect
import ScrabbleMagyar.Util
import ScrabbleMagyar.Words.Inflection
import Mathlib.Data.Char

/-!
# The vocabulary of the robot

A sorted list of upper case words that is searched for words and for their starts
(`Vocabulary` in `robot/ai.rs`), and how it is built from the lines of the dictionary file. The
source keeps the words in one buffer; here they are a list.

* `Vocabulary.contains_iff`, `Vocabulary.hasPrefix_iff`: what the two searches find.
* `Vocabulary.loaded_spelled`: every word of a loaded vocabulary is made of upper case letters and
  is more than a single tile.
-/

namespace ScrabbleMagyar

structure Vocabulary where
  words : List Word
  sorted : words.Pairwise (· < ·)

namespace Vocabulary

/-- Sort the upper case forms of the words, each once. -/
def new (casing : Casing) (words : List Word) : Vocabulary where
  words := ((words.map casing.toUppercase).mergeSort (· ≤ ·)).dedup
  sorted := by
    have hle := List.pairwise_mergeSort' (· ≤ ·) (words.map casing.toUppercase)
    have hne : ((words.map casing.toUppercase).mergeSort (· ≤ ·)).dedup.Pairwise (· ≠ ·) :=
      List.nodup_dedup _
    refine ((hle.sublist (List.dedup_sublist _)).and hne).imp ?_
    rintro a b ⟨hab, hab'⟩
    exact lt_of_le_of_ne hab hab'

theorem mem_new {casing : Casing} {words : List Word} {w : Word} :
    w ∈ (new casing words).words ↔ ∃ v ∈ words, casing.toUppercase v = w := by
  simp [new]

/-- The index of the first word that is not below `key`. -/
def lowerBound (v : Vocabulary) (key : Word) : ℕ := Bisect.lowerBound v.words key

def hasPrefix (v : Vocabulary) (start : Word) : Bool :=
  v.words[v.lowerBound start]?.any fun w => start.isPrefixOf w

def contains (v : Vocabulary) (word : Word) : Bool :=
  v.words[v.lowerBound word]?.any fun w => w == word

variable {v : Vocabulary} {word : Word}

theorem hasPrefix_iff : v.hasPrefix word = true ↔ ∃ w ∈ v.words, word <+: w := by
  rw [← Bisect.exists_prefix_iff (v.sorted.imp le_of_lt)]
  unfold hasPrefix lowerBound
  cases v.words[Bisect.lowerBound v.words word]? <;> simp

theorem contains_iff : v.contains word = true ↔ word ∈ v.words := by
  rw [← Bisect.getElem?_lowerBound_eq_some (v.sorted.imp le_of_lt)]
  unfold contains lowerBound
  cases v.words[Bisect.lowerBound v.words word]? <;> simp

/-! ## Loading -/

/-- The endings of the inflected forms in the vocabulary. -/
def inflectAdds : List Word :=
  ["k", "ak", "ek", "ok", "ök", "ák", "ék", "t", "at", "et", "ot", "öt", "át", "ét", "ban", "ben",
    "ba", "be", "ból", "ből", "ra", "re", "ról", "ről", "on", "en", "ön", "hoz", "hez", "höz",
    "tól", "től", "nak", "nek", "val", "vel", "ig", "ért", "nál", "nél", "ul", "ül", "ként", "m",
    "d", "a", "e", "ja", "je", "unk", "ünk", "uk", "ük", "om", "em", "öm", "od", "ed", "öd", "ik",
    "sz", "ol", "el", "öl", "tok", "tek", "tök", "ott", "ett", "ött", "tam", "tem", "tál", "tél",
    "tunk", "tünk", "tak", "ni", "va", "ve", "ó", "ő", "ás", "és"].map String.toList

def inflectMaxStem : ℕ := 6

def inflectMaxForm : ℕ := 12

/-- Two to fifteen lower case letters of the Hungarian alphabet. -/
def stemShape (word : Word) : Bool :=
  2 ≤ word.length && word.length ≤ 15 && word.all isLowerLetter

/-- Whether a word can be laid with tiles: there are none for `q`, `w`, `x` and `y`. -/
def placeable (casing : Casing) (word : Word) : Bool := (tokenizeWord casing word).isSome

/-- What of a word may become part of the vocabulary. -/
def suitable (casing : Casing) (word : Word) : Bool :=
  stemShape word && hasVowel word && placeable casing word

/-- The entry of a line of the dictionary file, without its flags and its description. -/
def entryOfLine (line : Word) : Word := ((trim line).takeWhile (· ≠ '\t')).takeWhile (· ≠ '/')

/-- The stems in the lines, in upper case; with a checker only those that can stand alone. -/
def stemsOf (casing : Casing) (checker : Option AffixChecker) (lines : List Word) : List Word :=
  let stems := (((lines.drop 1).map entryOfLine).filter (suitable casing)).map casing.toUppercase
  match checker with
  | none => stems
  | some c => stems.filter fun s => c.hasStem (toLowercase s)

/-- The vocabulary of a dictionary file: the stems, the inflected forms of the short ones that
need no risky derivation, and none of the rejected words. -/
def loadVocabulary (casing : Casing) (checker : Option AffixChecker) (rejected lines : List Word)
    (inflect : Bool) : Vocabulary :=
  let stems := stemsOf casing checker lines
  let forms : List Word := match checker, inflect with
    | some c, true =>
      let short := (stems.filter fun s => s.length ≤ inflectMaxStem).map toLowercase
      ((c.inflectedForms short inflectAdds inflectMaxForm false).filter (suitable casing)).map
        casing.toUppercase
    | _, _ => []
  let words := (stems ++ forms).filter fun w => !(rejected.map casing.toUppercase).contains w
  new casing words

/-! ## The loaded words -/

/-- A word of upper case letters that is more than the text of one tile. -/
structure Spelled (word : Word) : Prop where
  upper : ∀ c ∈ word, isUpperLetter c = true
  several : ∀ t : Tile, t.asStr ≠ word

theorem spelled_of_suitable {casing : Casing} (h : suitable casing word = true) :
    Spelled (casing.toUppercase word) := by
  simp only [suitable, stemShape, Bool.and_eq_true, decide_eq_true_eq, List.all_eq_true] at h
  obtain ⟨⟨⟨⟨htwo, -⟩, hletters⟩, hvowel⟩, -⟩ := h
  obtain ⟨hupper, hlower⟩ := casing.toUppercase_of_lower hletters
  refine ⟨hupper, fun t ht => ?_⟩
  -- a tile of two letters has no vowel
  have hconsonants : ∀ t : Tile, 2 ≤ t.asStr.length → hasVowel (toLowercase t.asStr) = false := by
    decide +kernel
  have hlen : 2 ≤ t.asStr.length := by
    rw [← hlower, toLowercase, List.length_map, ← ht] at htwo
    exact htwo
  rw [← hlower, ← ht, hconsonants t hlen] at hvowel
  cases hvowel

/-- **The words of a loaded vocabulary** are made of upper case letters, and none is a single
tile. -/
theorem loaded_spelled (casing : Casing) (checker : Option AffixChecker) (rejected lines : List Word)
    (inflect : Bool) {w : Word}
    (hw : w ∈ (loadVocabulary casing checker rejected lines inflect).words) : Spelled w := by
  have hstem : ∀ s ∈ stemsOf casing checker lines, Spelled s := by
    have hall : ∀ s ∈ (((lines.drop 1).map entryOfLine).filter (suitable casing)).map
        casing.toUppercase, Spelled s := by
      intro s hs
      obtain ⟨x, hx, rfl⟩ := List.mem_map.mp hs
      exact spelled_of_suitable (List.mem_filter.mp hx).2
    intro s hs
    unfold stemsOf at hs
    cases checker with
    | none => exact hall s hs
    | some c => exact hall s (List.mem_filter.mp hs).1
  obtain ⟨u, hu, rfl⟩ := mem_new.mp hw
  have hspelled : Spelled u := by
    rcases List.mem_append.mp (List.mem_filter.mp hu).1 with hs | hf
    · exact hstem u hs
    · split at hf
      · obtain ⟨x, hx, rfl⟩ := List.mem_map.mp hf
        exact spelled_of_suitable (List.mem_filter.mp hx).2
      · cases hf
  rwa [casing.toUppercase_of_upper hspelled.upper]

end Vocabulary

end ScrabbleMagyar
