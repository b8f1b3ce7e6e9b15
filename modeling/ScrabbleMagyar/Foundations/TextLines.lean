import Mathlib.Data.List.Basic
import Mathlib.Tactic.Common

/-!
# The lines of a text

A text cut after every line feed (`splitInclusive`), and its lines without their ends (`lines`), as
the standard library of the source has them. Every text is made of lines one after the other
(`line_induction`), and a text of which some lines are left out has the other ones
(`splitInclusive_flatten_filter`).
-/

namespace ScrabbleMagyar.TextLines

/-- A text cut after every line feed. -/
def splitInclusive : List Char → List (List Char)
  | [] => []
  | c :: text =>
    if c = '\n' then [c] :: splitInclusive text
    else
      match splitInclusive text with
      | [] => [[c]]
      | line :: lines => (c :: line) :: lines

/-- A line without the line feed at its end, and the carriage return before that. -/
def stripEnd (line : List Char) : List Char :=
  if line.getLast? = some '\n' then
    let line := line.dropLast
    if line.getLast? = some '\r' then line.dropLast else line
  else line

def lines (text : List Char) : List (List Char) := (splitInclusive text).map stripEnd

theorem splitInclusive_append_line {line : List Char} (h : '\n' ∉ line) (rest : List Char) :
    splitInclusive (line ++ '\n' :: rest) = (line ++ ['\n']) :: splitInclusive rest := by
  induction line with
  | nil => simp [splitInclusive]
  | cons c line ih =>
    obtain ⟨hc, hline⟩ := List.ne_and_not_mem_of_not_mem_cons h
    rw [List.cons_append, splitInclusive, if_neg (Ne.symm hc), ih hline]
    rfl

/-- The last line has no line feed. -/
theorem splitInclusive_last {line : List Char} (h : '\n' ∉ line) (hne : line ≠ []) :
    splitInclusive line = [line] := by
  induction line with
  | nil => exact absurd rfl hne
  | cons c line ih =>
    obtain ⟨hc, hline⟩ := List.ne_and_not_mem_of_not_mem_cons h
    rw [splitInclusive, if_neg (Ne.symm hc)]
    cases line with
    | nil => rfl
    | cons d line => rw [ih hline (by simp)]

/-- **A text is made of lines**, of which the last one may have no line feed. -/
theorem line_induction {P : List Char → Prop} (last : ∀ line, '\n' ∉ line → P line)
    (line : ∀ line rest, '\n' ∉ line → P rest → P (line ++ '\n' :: rest)) (text : List Char) :
    P text := by
  induction hn : text.length using Nat.strongRecOn generalizing text with
  | _ n ih =>
    by_cases h : '\n' ∈ text
    · obtain ⟨first, rest, rfl, hfirst⟩ := List.eq_append_cons_of_mem h
      refine line first rest hfirst (ih rest.length ?_ rest rfl)
      rw [← hn, List.length_append, List.length_cons]
      omega
    · exact last text h

/-- The lines that are kept are those of the text that they make. -/
theorem splitInclusive_flatten_filter (keep : List Char → Bool) (text : List Char) :
    splitInclusive ((splitInclusive text).filter keep).flatten =
      (splitInclusive text).filter keep := by
  induction text using line_induction with
  | last line h =>
    by_cases hne : line = []
    · rw [hne]
      rfl
    · rw [splitInclusive_last h hne, List.filter_cons]
      split
      · simpa using splitInclusive_last h hne
      · rfl
  | line line rest h ih =>
    rw [splitInclusive_append_line h, List.filter_cons]
    split
    · rw [List.flatten_cons, List.append_assoc, List.singleton_append, splitInclusive_append_line h,
        ih]
    · exact ih

end ScrabbleMagyar.TextLines
