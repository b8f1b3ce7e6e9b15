import ScrabbleMagyar.Engine.Tiles
import Mathlib.Data.Finset.Basic

/-!
# The dictionary's verdict

The lists of rejected, overridden and added words, the verdict on one word and the check of
the words of a placement (`words/dictionary.rs`). The affix checker is a parameter of a
`Lexicon`; `none` is a server whose dictionary could not be loaded, which accepts every word
of a valid shape.
-/

namespace ScrabbleMagyar

def vowellessInterjections : List Word :=
  [['b', 'r', 'r'], ['b', 'r', 'r', 'r'], ['h', 'm'], ['h', 'm', 'm'], ['h', 'm', 'm', 'm'],
   ['k', 'h', 'm'], ['k', 'h', 'm', 'm'], ['p', 's', 'z', 't']]

def maxWordLength : ℕ := 15

/-- Lower case of a letter of the Hungarian alphabet; other characters are left alone. -/
def lowerChar (c : Char) : Char :=
  match c with
  | 'Á' => 'á' | 'É' => 'é' | 'Í' => 'í' | 'Ó' => 'ó' | 'Ö' => 'ö'
  | 'Ő' => 'ő' | 'Ú' => 'ú' | 'Ü' => 'ü' | 'Ű' => 'ű'
  | c => c.toLower

def toLowercase (word : Word) : Word := word.map lowerChar

def hasVowel (word : Word) : Bool :=
  word.any fun c => ['a', 'á', 'e', 'é', 'i', 'í', 'o', 'ó', 'ö', 'ő', 'u', 'ú', 'ü', 'ű'].contains c

/-- The word lists that overrule the affix checker, in lower case. -/
structure Lists where
  rejectedListed : Finset Word
  rejectedVoted : Finset Word
  overrideAllow : Finset Word
  overrideReject : Finset Word
  additions : Finset Word

def Lists.empty : Lists := ⟨∅, ∅, ∅, ∅, ∅⟩

/-- The verdict on one lower case word. -/
def lookupWith (checker : Word → Bool) (lists : Lists) (word : Word) : Bool :=
  if word ∈ lists.overrideReject then false
  else if word ∉ lists.overrideAllow ∧ (word ∈ lists.rejectedListed ∨ word ∈ lists.rejectedVoted)
  then false
  else if !hasVowel word && !vowellessInterjections.contains word then false
  else if word ∈ lists.additions then true
  else checker word

/-- Upper case letters of the Hungarian alphabet only, at least one. -/
def validWordShape (word : Word) : Bool :=
  !word.isEmpty && word.all fun c => c.isUpper ||
    ['Á', 'É', 'Í', 'Ó', 'Ö', 'Ő', 'Ú', 'Ü', 'Ű'].contains c

/-- The dictionary at one moment: the loaded affix checker and the word lists. -/
structure Lexicon where
  checker : Option (Word → Bool)
  lists : Lists

namespace Lexicon

/-- The lexicon of a server without a dictionary. -/
def unavailable : Lexicon := ⟨none, Lists.empty⟩

/-- Whether a word is short enough and of a valid shape. -/
def wellShaped (word : Word) : Bool := !(decide (maxWordLength < word.length) || !validWordShape word)

/-- `check_words`: whether all words are valid, and the invalid ones. A word of a bad shape is
reported alone, before any is looked up. -/
def checkWords (lex : Lexicon) (words : List Word) : Bool × List Word :=
  if words.isEmpty then (true, [])
  else match words.find? fun w => !wellShaped w with
    | some w => (false, [w])
    | none => match lex.checker with
      | none => (true, [])
      | some checker =>
        let invalid := words.filter fun w => !lookupWith checker lex.lists (toLowercase w)
        (invalid.isEmpty, invalid)

/-- The verdict on one upper case word. -/
def accepts (lex : Lexicon) (word : Word) : Bool :=
  wellShaped word && match lex.checker with
    | none => true
    | some checker => lookupWith checker lex.lists (toLowercase word)

/-- `filter_valid` with no stale entry in its cache: the accepted ones among the words. -/
def filterValid (lex : Lexicon) (words : List Word) : List Word := words.filter lex.accepts

/-- The check of a list of words is the verdict on each of them. -/
theorem checkWords_fst (lex : Lexicon) (words : List Word) :
    (lex.checkWords words).1 = true ↔ ∀ w ∈ words, lex.accepts w = true := by
  unfold checkWords accepts
  split
  · rename_i h
    simp [List.isEmpty_iff.mp h]
  · split
    · rename_i w hw
      have hmem := List.mem_of_find?_eq_some hw
      have hbad : wellShaped w = false := by simpa using List.find?_some hw
      simp only [Bool.false_eq_true, false_iff, not_forall]
      exact ⟨w, hmem, by simp [hbad]⟩
    · rename_i hnone
      have hshape : ∀ w ∈ words, wellShaped w = true := by simpa using hnone
      cases lex.checker with
      | none => simpa using hshape
      | some checker =>
        simp only [List.isEmpty_iff, List.filter_eq_nil_iff, Bool.and_eq_true]
        constructor
        · intro h w hw
          exact ⟨hshape w hw, by simpa using h w hw⟩
        · intro h w hw
          simpa using (h w hw).2

end Lexicon

end ScrabbleMagyar
