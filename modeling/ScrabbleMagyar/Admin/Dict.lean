import ScrabbleMagyar.Admin.Common
import ScrabbleMagyar.Engine.Tokenize
import ScrabbleMagyar.Foundations.Runs
import ScrabbleMagyar.Foundations.TextLines
import ScrabbleMagyar.Foundations.Utf8Decode
import Mathlib.Data.Finset.Dedup
import Mathlib.Data.List.Sort

/-!
# The list of rejected words

The file `dict/hu_rejected.txt` and the calls of the admin panel that change it (`admin/dict.rs`),
with the copy of the list that the dictionary keeps in memory (`words/dictionary.rs`). A call reads
the file, writes it as a whole and enters the change in the log of the administrators; where a step
fails it writes back what it has read. The text that the file is compared with for downloads is left
out.

* `kept_of_run`: while no call works on a file that is not UTF-8, and no reading fails, every call
  does to the list what it says or leaves it as it is.
-/

namespace ScrabbleMagyar.RejectedList

open Admin TextLines

/-- So many words are taken at once (`MAX_BULK_WORDS`). -/
def maxBulkWords : ℕ := 5000

/-- The longest word that is taken (`MAX_WORD_LEN`). -/
def maxWordLen : ℕ := 15

/-- What of Unicode and of the dictionary is used. -/
structure Env where
  casing : Casing
  /-- `to_lowercase`. -/
  lowercase : Word → Word
  lowercase_nil : lowercase [] = []
  lowercase_lowercase : ∀ word, lowercase (lowercase word) = lowercase word
  mem_of_mem_lowercase : ∀ word c, c ∈ lowercase word → isWhitespace c = true ∨ c = '#' → c ∈ word
  /-- The words that are valid while a list of words is rejected. -/
  accepts : Finset Word → Word → Bool

/-- The steps of a call that can fail. -/
inductive Stage
  | readText
  | write
  | rename
  | audit
  | undoWrite
  | undoRename
  | reload
  deriving DecidableEq

/-- The step of a call that fails, with the message of the system. -/
abbrev Fault := Option (Stage × String)

/-- Whether a step of the call fails. -/
def Fault.strikes (fault : Fault) (stage : Stage) : Bool := fault.any fun f => f.1 = stage

/-- A row of the log of the administrators. -/
structure AuditRow where
  action : String
  reason : Word
  count : ℕ
  words : List Word
  skippedInvalid : Option ℕ
  skippedListed : Option ℕ

/-- The file of the list, the list as it is in memory and the log. -/
structure State where
  file : List UInt8
  /-- The list in memory. -/
  listed : Finset Word
  audit : List AuditRow

/-- The words that an administrator has given, by what becomes of them. -/
structure Classification where
  new : List Word
  already : List Word
  invalid : List Word
  bad : List Word

section Definitions

variable (env : Env)

/-! ## Reading the file -/

/-- The word of a line; what comes after a `#` is a comment. -/
def wordOf (line : Word) : Word := env.lowercase (trim (line.takeWhile fun c => c ≠ '#'))

/-- The words of a text. -/
def wordsOf (text : Word) : Finset Word :=
  (((lines text).map (wordOf env)).filter fun word => !word.isEmpty).toFinset

/-- The words of the file, which is read with gaps where it is not UTF-8. -/
def loadRejected (file : List UInt8) : Finset Word := wordsOf env (Utf8.fromUtf8Lossy file)

/-- The list in memory after it is read again; it is empty if that fails. -/
def reloadRejected (fault : Fault) (file : List UInt8) : Finset Word :=
  if fault.strikes .reload then ∅ else loadRejected env file

/-- The text of the file; nothing where it cannot be read or is not UTF-8. -/
def readListText (fault : Fault) (file : List UInt8) : Word :=
  if fault.strikes .readText then [] else (Utf8.fromUtf8 file).getD []

/-! ## Writing it -/

/-- Write a file next to the old one, and put it in its place. The steps by which it can fail are
given. -/
def writeListText (fault : Fault) (first second : Stage) (text : Word) :
    Except String (List UInt8) :=
  match fault with
  | some (stage, message) =>
    if stage = first ∨ stage = second then .error message else .ok (Utf8.encode text)
  | none => .ok (Utf8.encode text)

/-- Write the file and the log in one transaction. -/
def action (st : State) (fault : Fault) (reason : Option Word) (row : Word → AuditRow)
    (text : Word) : State × Except AdminError Unit :=
  match normalizeReason reason with
  | .error e => (st, .error e)
  | .ok reason =>
    match writeListText fault .write .rename text with
    | .error message => (st, .error ⟨s!"A lista nem írható: {message}", 500, none⟩)
    | .ok file =>
      if fault.strikes .audit then ({ st with file }, .error ⟨"Adatbázis-hiba.", 500, none⟩)
      else ({ st with file, audit := st.audit ++ [row reason] }, .ok ())

/-- Change the text of the file, or put the old one back. Either way the list is read again. -/
def replaceText (st : State) (fault : Fault) (reason : Option Word) (row : Word → AuditRow)
    (before text : Word) : State × Except AdminError Unit :=
  match action st fault reason row text with
  | (st, .error e) =>
    let file := ((writeListText fault .undoWrite .undoRename before).toOption).getD st.file
    ({ st with file, listed := reloadRejected env fault file }, .error e)
  | (st, .ok ()) => ({ st with listed := reloadRejected env fault st.file }, .ok ())

/-! ## The calls -/

/-- What stands between the words of a pasted text. -/
def isSeparator (c : Char) : Bool := isWhitespace c || c = ',' || c = ';'

/-- The parts of a pasted text between the separators, without comments. -/
def parts (text : Word) : List Word :=
  (lines text).flatMap fun line => (line.takeWhile fun c => c ≠ '#').splitOnP isSeparator

/-- A word that cannot be laid. -/
def isBad (word : Word) : Bool :=
  decide (maxWordLen < word.length) ||
    (tokenizeWord env.casing (env.casing.toUppercase word)).isNone

/-- Take a part of a pasted text to the words, or to the parts that are none. -/
def takePart (found : List Word × List Word) (part : Word) : List Word × List Word :=
  let part := env.lowercase (trim part)
  if part.isEmpty then found
  else if isBad env part then (found.1, found.2 ++ [part.take 30])
  else if found.1.contains part then found
  else (found.1 ++ [part], found.2)

/-- The words of a pasted text in lower case, each once, and the parts that are none. -/
def parseWords (text : Option Word) : Except AdminError (List Word × List Word) :=
  match text with
  | none => .error ⟨"Érvénytelen kérés.", 400, some "words"⟩
  | some text =>
    let (words, bad) := (parts text).foldl (takePart env) ([], [])
    if maxBulkWords < words.length + bad.length then
      .error ⟨"Túl sok szó egyszerre.", 400, some "words"⟩
    else .ok (words, bad)

/-- The words that can be added, those that are listed and those that no dictionary takes. -/
def classifyWords (listed : Finset Word) (words : List Word) (assumeValid : Bool) :
    Classification :=
  let candidates := words.filter fun w => w ∉ listed
  let valid :=
    if assumeValid then candidates
    else
      ((candidates.map env.casing.toUppercase).filter (env.accepts listed)).map env.lowercase
  { new := candidates.filter valid.contains
    already := words.filter fun w => w ∈ listed
    invalid := candidates.filter fun w => !valid.contains w
    bad := [] }

/-- A number in decimal digits, with zeros in front up to a width. -/
def padded (width n : ℕ) : Word :=
  let digits := Nat.toDigits 10 n
  List.replicate (width - digits.length) '0' ++ digits

/-- A day. -/
structure Date where
  year : ℕ
  month : ℕ
  day : ℕ

/-- A day, in the form of the file. -/
def stamp (today : Date) : Word :=
  padded 4 today.year ++ '-' :: padded 2 today.month ++ '-' :: padded 2 today.day

/-- What is written behind a text to add words to it. -/
def addition (before : Word) (today : Date) (new : List Word) : Word :=
  (if before.getLast? = some '\n' ∨ before.isEmpty then [] else ['\n']) ++
    ("# --- admin panel, ".toList ++ stamp today ++ " ---".toList ++ '\n' ::
      (new.insertionSort fun w w' => w ≤ w').flatMap fun w => w ++ ['\n'])

/-- Put words on the list (`add_rejected`). -/
def addRejected (st : State) (fault : Fault) (text reason : Option Word) (assumeValid : Bool)
    (today : Date) : State × Except AdminError Classification :=
  match parseWords env text with
  | .error e => (st, .error e)
  | .ok (words, bad) =>
    let c := { classifyWords env st.listed words assumeValid with bad }
    if c.new.isEmpty then
      (st, .error ⟨"Nincs felvehető szó (nincs olyan, amely most érvényes és még nincs a listán).",
        409, some "words"⟩)
    else
      let before := readListText fault st.file
      let row reason : AuditRow :=
        { action := "dict.reject_add", reason, count := c.new.length, words := c.new.take 500,
          skippedInvalid := some c.invalid.length, skippedListed := some c.already.length }
      match replaceText env st fault reason row before (before ++ addition before today c.new) with
      | (st, .error e) => (st, .error e)
      | (st, .ok ()) => (st, .ok c)

/-- The text without the lines of some words. -/
def without (before : Word) (drop : List Word) : Word :=
  ((splitInclusive before).filter fun line =>
    (wordOf env line).isEmpty || !drop.contains (wordOf env line)).flatten

/-- Take words off the list (`remove_rejected`). -/
def removeRejected (st : State) (fault : Fault) (text reason : Option Word) :
    State × Except AdminError (List Word) :=
  match parseWords env text with
  | .error e => (st, .error e)
  | .ok (words, _) =>
    let targets := words.filter fun w => w ∈ st.listed
    if targets.isEmpty then
      (st, .error ⟨"Egyik szó sincs a tartós listán.", 404, some "words"⟩)
    else
      let before := readListText fault st.file
      let row reason : AuditRow :=
        { action := "dict.reject_remove", reason, count := targets.length,
          words := targets.take 500, skippedInvalid := none, skippedListed := none }
      match replaceText env st fault reason row before (without env before targets) with
      | (st, .error e) => (st, .error e)
      | (st, .ok ()) => (st, .ok targets)

end Definitions

/-! ## The words of a text -/

section Words

variable {env : Env}

/-- A line feed at the end does not count, nor the carriage return before it. -/
theorem wordOf_concat {c : Char} (hc : isWhitespace c = true) (line : Word) :
    wordOf env (line ++ [c]) = wordOf env line := by
  have hhash : c ≠ '#' := by
    rintro rfl
    exact absurd hc (by decide)
  unfold wordOf
  by_cases h : '#' ∈ line
  · obtain ⟨before, after, rfl, hbefore⟩ := List.eq_append_cons_of_mem h
    have hcut : ∀ rest : Word, (before ++ '#' :: rest).takeWhile (fun c => decide (c ≠ '#')) =
        before := by
      intro rest
      rw [List.takeWhile_append_of_pos fun d hd => by
        simpa using ne_of_mem_of_not_mem hd hbefore]
      simp
    rw [List.append_assoc, List.cons_append, hcut, hcut]
  · have hall : ∀ {l : Word}, '#' ∉ l → l.takeWhile (fun c => decide (c ≠ '#')) = l := by
      intro l hl
      rw [List.takeWhile_eq_self_iff]
      exact fun d hd => by simpa using ne_of_mem_of_not_mem hd hl
    rw [hall h, hall (by simp [h, Ne.symm hhash]), trim_concat hc]

theorem wordOf_stripEnd (line : Word) : wordOf env (stripEnd line) = wordOf env line := by
  have hlast : ∀ {l : Word} {c : Char}, l.getLast? = some c → l = l.dropLast ++ [c] := by
    intro l c h
    obtain ⟨init, rfl⟩ := List.getLast?_eq_some_iff.mp h
    rw [List.dropLast_concat]
  unfold stripEnd
  split
  · rename_i hfeed
    conv_rhs => rw [hlast hfeed, wordOf_concat (by decide)]
    dsimp only
    split
    · rename_i hreturn
      conv_rhs => rw [hlast hreturn, wordOf_concat (by decide)]
    · rfl
  · rfl

theorem wordsOf_eq (text : Word) : wordsOf env text =
    (((splitInclusive text).map (wordOf env)).filter fun word => !word.isEmpty).toFinset := by
  rw [wordsOf, lines, List.map_map]
  simp only [Function.comp_def, wordOf_stripEnd]

/-- The word of a line, if it has one. -/
def wordOfLine (env : Env) (line : Word) : Finset Word :=
  if (wordOf env line).isEmpty then ∅ else {wordOf env line}

@[simp] theorem wordsOf_nil : wordsOf env [] = ∅ := rfl

theorem wordsOf_line {line : Word} (h : '\n' ∉ line) (rest : Word) :
    wordsOf env (line ++ '\n' :: rest) = wordOfLine env line ∪ wordsOf env rest := by
  rw [wordsOf_eq, wordsOf_eq, splitInclusive_append_line h, List.map_cons, wordOf_concat (by decide),
    wordOfLine, List.filter_cons]
  cases hword : (wordOf env line).isEmpty with
  | true => simp
  | false =>
    simp only [Bool.not_false, if_true, List.toFinset_cons, Bool.false_eq_true, if_false]
    rfl

theorem wordsOf_last {line : Word} (h : '\n' ∉ line) : wordsOf env line = wordOfLine env line := by
  by_cases hne : line = []
  · subst hne
    have hnil : wordOf env [] = [] := env.lowercase_nil
    simp [wordOfLine, hnil]
  · rw [wordsOf_eq, splitInclusive_last h hne, wordOfLine]
    cases hword : (wordOf env line).isEmpty <;> simp [hword]

/-- **Words written behind a text** are added to those of the text. -/
theorem wordsOf_append {before : Word} (h : before.getLast? = some '\n' ∨ before = [])
    (rest : Word) : wordsOf env (before ++ rest) = wordsOf env before ∪ wordsOf env rest := by
  induction before using line_induction with
  | last line hline =>
    rcases h with h | rfl
    · exact absurd (List.mem_of_getLast? h) hline
    · simp
  | line line before hline ih =>
    have hlast : before.getLast? = some '\n' ∨ before = [] := by
      rcases h with h | h
      · cases before with
        | nil => exact Or.inr rfl
        | cons c before =>
          left
          rwa [List.getLast?_append_cons, List.getLast?_cons_cons] at h
      · exact absurd h (by simp)
    rw [List.append_assoc, List.cons_append, wordsOf_line hline, wordsOf_line hline, ih hlast,
      Finset.union_assoc]

/-- A line feed behind the last line adds nothing. -/
theorem wordsOf_feed (before : Word) : wordsOf env (before ++ ['\n']) = wordsOf env before := by
  induction before using line_induction with
  | last line hline => rw [wordsOf_line hline, wordsOf_last hline, wordsOf_nil, Finset.union_empty]
  | line line before hline ih =>
    rw [List.append_assoc, List.cons_append, wordsOf_line hline, wordsOf_line hline, ih]

/-- A word that is read from a line as it stands there. -/
structure Plain (env : Env) (word : Word) : Prop where
  ne_nil : word ≠ []
  noSpace : ∀ c ∈ word, isWhitespace c = false
  noHash : '#' ∉ word
  lower : env.lowercase word = word

theorem Plain.notMem_feed {word : Word} (h : Plain env word) : '\n' ∉ word := fun hmem =>
  absurd (h.noSpace _ hmem) (by decide)

theorem Plain.wordOf_eq {word : Word} (h : Plain env word) : wordOf env word = word := by
  have hall : word.takeWhile (fun c => decide (c ≠ '#')) = word := by
    rw [List.takeWhile_eq_self_iff]
    exact fun d hd => by simpa using ne_of_mem_of_not_mem hd h.noHash
  rw [wordOf, hall, trim_eq_self h.noSpace, h.lower]

theorem wordsOf_flatMap {words : List Word} (h : ∀ word ∈ words, Plain env word) :
    wordsOf env (words.flatMap fun w => w ++ ['\n']) = words.toFinset := by
  induction words with
  | nil => rfl
  | cons word words ih =>
    obtain ⟨hword, hwords⟩ := List.forall_mem_cons.mp h
    rw [List.flatMap_cons, List.append_assoc, List.singleton_append,
      wordsOf_line hword.notMem_feed, ih hwords, List.toFinset_cons, wordOfLine, hword.wordOf_eq]
    rw [List.isEmpty_eq_false_iff.mpr hword.ne_nil, if_neg Bool.false_ne_true, Finset.insert_eq]

theorem notMem_padded {c : Char} (hc : c.isDigit = false) (width n : ℕ) : c ∉ padded width n := by
  intro hmem
  rcases List.mem_append.mp hmem with hmem | hmem
  · rw [List.eq_of_mem_replicate hmem] at hc
    exact absurd hc (by decide)
  · rw [Nat.isDigit_of_mem_toDigits (by omega) (by omega) hmem] at hc
    cases hc

theorem notMem_stamp (today : Date) : '\n' ∉ stamp today := by
  simp [stamp, notMem_padded (c := '\n') (by decide)]

/-- **What is added behind a text** are the new words. -/
theorem wordsOf_addition (before : Word) (today : Date) {new : List Word}
    (h : ∀ word ∈ new, Plain env word) :
    wordsOf env (before ++ addition before today new) = wordsOf env before ∪ new.toFinset := by
  have hsorted : (new.insertionSort fun w w' => w ≤ w').toFinset = new.toFinset :=
    List.toFinset_eq_of_perm _ _ (List.perm_insertionSort _ _)
  have hheading : '\n' ∉ "# --- admin panel, ".toList ++ stamp today ++ " ---".toList := by
    have hstamp := notMem_stamp today
    simp only [List.mem_append, not_or]
    exact ⟨⟨by decide, hstamp⟩, by decide⟩
  have hcomment : wordOfLine env ("# --- admin panel, ".toList ++ stamp today ++ " ---".toList) =
      ∅ := by
    have hnil : wordOf env ("# --- admin panel, ".toList ++ stamp today ++ " ---".toList) = [] :=
      env.lowercase_nil
    rw [wordOfLine, hnil]
    rfl
  have hrest : wordsOf env ("# --- admin panel, ".toList ++ stamp today ++ " ---".toList ++ '\n' ::
      (new.insertionSort fun w w' => w ≤ w').flatMap fun w => w ++ ['\n']) = new.toFinset := by
    rw [wordsOf_line hheading, hcomment, Finset.empty_union, wordsOf_flatMap, hsorted]
    exact fun word hword => h word ((List.perm_insertionSort _ _).mem_iff.mp hword)
  rw [addition]
  split
  · rename_i hend
    rw [List.nil_append, wordsOf_append (hend.imp id List.isEmpty_iff.mp), hrest]
  · rw [← List.append_assoc, wordsOf_append (Or.inl (by simp)), wordsOf_feed, hrest]

theorem without_eq (before : Word) (drop : List Word) :
    without env before drop = ((splitInclusive before).filter fun line =>
      (wordOf env line).isEmpty || decide (wordOf env line ∉ drop)).flatten := by
  simp only [without, List.contains_eq_mem, decide_not]

/-- **A text without the lines of some words** has the other words. -/
theorem wordsOf_without (before : Word) (drop : List Word) :
    wordsOf env (without env before drop) = wordsOf env before \ drop.toFinset := by
  rw [without_eq, wordsOf_eq, splitInclusive_flatten_filter, wordsOf_eq]
  ext word
  simp only [List.mem_toFinset, List.mem_filter, List.mem_map, Finset.mem_sdiff,
    Bool.not_eq_true', Bool.or_eq_true, decide_eq_true_eq]
  constructor
  · rintro ⟨⟨line, ⟨hline, hkeep⟩, rfl⟩, hne⟩
    exact ⟨⟨⟨line, hline, rfl⟩, hne⟩, hkeep.resolve_left (by simp [hne])⟩
  · rintro ⟨⟨⟨line, hline, rfl⟩, hne⟩, hdrop⟩
    exact ⟨⟨line, ⟨hline, Or.inr hdrop⟩, rfl⟩, hne⟩

/-! ## The words of a request -/

theorem mem_splitOnP {p : Char → Bool} {text piece : Word} (h : piece ∈ text.splitOnP p) :
    ∀ c ∈ piece, c ∈ text ∧ p c = false := by
  induction text generalizing piece with
  | nil =>
    rw [List.splitOnP_nil, List.mem_singleton] at h
    simp [h]
  | cons d text ih =>
    rw [List.splitOnP_cons_eq_if_modifyHead] at h
    have hlater : ∀ {piece : Word}, piece ∈ text.splitOnP p →
        ∀ c ∈ piece, c ∈ d :: text ∧ p c = false := fun hpiece c hc =>
      ⟨List.mem_cons_of_mem _ (ih hpiece c hc).1, (ih hpiece c hc).2⟩
    split at h
    · rcases List.mem_cons.mp h with rfl | h
      · simp
      · exact hlater h
    · rename_i hd
      cases hsplit : text.splitOnP p with
      | nil => exact absurd hsplit (List.splitOnP_ne_nil p text)
      | cons first rest =>
        rw [hsplit, List.modifyHead_cons] at h
        rcases List.mem_cons.mp h with rfl | h
        · intro c hc
          rcases List.mem_cons.mp hc with rfl | hc
          · exact ⟨List.mem_cons_self, by simpa using hd⟩
          · exact hlater (by rw [hsplit]; exact List.mem_cons_self) c hc
        · exact hlater (by rw [hsplit]; exact List.mem_cons_of_mem _ h)

/-- A part has no white space in it, and no comment. -/
theorem of_mem_parts {text part : Word} (h : part ∈ parts text) :
    (∀ c ∈ part, isWhitespace c = false) ∧ '#' ∉ part := by
  obtain ⟨line, -, hpart⟩ := List.mem_flatMap.mp h
  have hchars := mem_splitOnP hpart
  refine ⟨fun c hc => ?_, fun hmem => ?_⟩
  · have hsep := (hchars c hc).2
    simp only [isSeparator, Bool.or_eq_false_iff] at hsep
    exact hsep.1.1
  · simpa using List.mem_takeWhile_imp (hchars _ hmem).1

theorem plain_of_part {text part : Word} (h : part ∈ parts text)
    (hne : (env.lowercase (trim part)).isEmpty = false) :
    Plain env (env.lowercase (trim part)) := by
  obtain ⟨hspace, hhash⟩ := of_mem_parts h
  rw [trim_eq_self hspace] at hne ⊢
  refine ⟨by simpa using hne, fun c hc => ?_, fun hmem => ?_, env.lowercase_lowercase part⟩
  · by_contra hwhite
    have hwhite : isWhitespace c = true := by simpa using hwhite
    rw [hspace c (env.mem_of_mem_lowercase part c hc (Or.inl hwhite))] at hwhite
    cases hwhite
  · exact hhash (env.mem_of_mem_lowercase part _ hmem (Or.inr rfl))

theorem plain_foldl_takePart {text : Word} {l : List Word} (hl : ∀ part ∈ l, part ∈ parts text)
    {found : List Word × List Word} (hfound : ∀ word ∈ found.1, Plain env word) :
    ∀ word ∈ (l.foldl (takePart env) found).1, Plain env word := by
  induction l generalizing found with
  | nil => exact hfound
  | cons part l ih =>
    obtain ⟨hpart, hl⟩ := List.forall_mem_cons.mp hl
    refine ih hl ?_
    unfold takePart
    dsimp only
    split
    · exact hfound
    · rename_i hne
      split
      · exact hfound
      · split
        · exact hfound
        · intro word hword
          rcases List.mem_append.mp hword with hword | hword
          · exact hfound word hword
          · rw [List.mem_singleton.mp hword]
            exact plain_of_part hpart (by simpa using hne)

/-- **The words of a request** can stand in the file. -/
theorem plain_of_parseWords {text : Option Word} {words bad : List Word}
    (h : parseWords env text = .ok (words, bad)) : ∀ word ∈ words, Plain env word := by
  unfold parseWords at h
  cases text with
  | none => cases h
  | some text =>
    dsimp only at h
    split at h
    · cases h
    · cases h
      exact plain_foldl_takePart (fun _ hpart => hpart) (by simp)

/-! ## A change of the file -/

/-- **A change of the file happens or it does not**: the file has the new text, or all is as it was
before. -/
theorem replaceText_spec {st st' : State} {fault : Fault} {reason : Option Word}
    {row : Word → AuditRow} {before text : Word} {outcome : Except AdminError Unit}
    (hfile : st.file = Utf8.encode before) (hlisted : st.listed = loadRejected env st.file)
    (hread : fault.strikes .reload = false)
    (h : replaceText env st fault reason row before text = (st', outcome)) :
    st'.listed = loadRejected env st'.file ∧
      ((∃ e, outcome = .error e ∧ st'.file = st.file ∧ st'.listed = st.listed) ∨
        (outcome = .ok () ∧ st'.file = Utf8.encode text)) := by
  have hreload : ∀ file, reloadRejected env fault file = loadRejected env file := fun file => by
    rw [reloadRejected, hread, if_neg Bool.false_ne_true]
  -- a call that has changed nothing has nothing to put back
  have hundo : ((writeListText fault .undoWrite .undoRename before).toOption).getD st.file =
      st.file := by
    rw [hfile]
    unfold writeListText
    split
    · split <;> rfl
    · rfl
  unfold replaceText action at h
  split at h
  · rename_i st₁ e haction
    obtain ⟨rfl, rfl⟩ := Prod.mk.inj h
    have hback : ((writeListText fault .undoWrite .undoRename before).toOption).getD st₁.file =
        st.file := by
      split at haction
      · cases haction
        exact hundo
      · split at haction
        · cases haction
          exact hundo
        · split at haction
          · rename_i haudit
            cases haction
            -- the log has failed, so that the old text is written back
            cases fault with
            | none => cases haudit
            | some f =>
              obtain ⟨stage, message⟩ := f
              obtain rfl : stage = .audit := by simpa [Fault.strikes] using haudit
              rw [hfile]
              rfl
          · cases haction
    dsimp only
    rw [hback, hreload]
    exact ⟨rfl, Or.inl ⟨e, rfl, rfl, hlisted.symm⟩⟩
  · rename_i st₁ haction
    obtain ⟨rfl, rfl⟩ := Prod.mk.inj h
    refine ⟨hreload _, Or.inr ⟨rfl, ?_⟩⟩
    split at haction
    · cases haction
    · split at haction
      · cases haction
      · rename_i file hwrite
        split at haction
        · cases haction
        · cases haction
          unfold writeListText at hwrite
          split at hwrite
          · split at hwrite
            · cases hwrite
            · exact (Except.ok.inj hwrite).symm
          · exact (Except.ok.inj hwrite).symm

end Words

/-! ## Runs -/

/-- A call of the panel, with the step of it that fails. -/
inductive Call
  | add (fault : Fault) (text reason : Option Word) (assumeValid : Bool) (today : Date)
  | remove (fault : Fault) (text reason : Option Word)

/-- What a call that succeeds has done. -/
inductive Effect
  | added (c : Classification)
  | removed (targets : List Word)

section Runs

variable (env : Env)

/-- What a call does and what it answers. -/
def perform (st : State) : Call → State × Except AdminError Effect
  | .add fault text reason assumeValid today =>
    let (st, outcome) := addRejected env st fault text reason assumeValid today
    (st, outcome.map Effect.added)
  | .remove fault text reason =>
    let (st, outcome) := removeRejected env st fault text reason
    (st, outcome.map Effect.removed)

/-- The state after a call. -/
def step (st : State) (c : Call) : State := (perform env st c).1

/-- The step of a call that fails. -/
def Call.fault : Call → Fault
  | .add fault .. => fault
  | .remove fault .. => fault

/-- Whether a call gets as far as the file: there are words to add or to remove. -/
def Call.reaches (st : State) : Call → Bool
  | .add _ text _ assumeValid _ =>
    match parseWords env text with
    | .error _ => false
    | .ok (words, _) => !(classifyWords env st.listed words assumeValid).new.isEmpty
  | .remove _ text _ =>
    match parseWords env text with
    | .error _ => false
    | .ok (words, _) => !(words.filter fun w => w ∈ st.listed).isEmpty

/-- A call that gets as far as the file finds it in UTF-8, and its readings of it do not fail. -/
def Sound (st : State) (c : Call) : Prop :=
  c.reaches env st = true → (Utf8.fromUtf8 st.file).isSome = true ∧
    c.fault.strikes .readText = false ∧ c.fault.strikes .reload = false

/-- What a call does to the list is what it says, and all is as before where it fails. -/
structure Faithful (st st' : State) (outcome : Except AdminError Effect) : Prop where
  added : ∀ c, outcome = .ok (.added c) →
    loadRejected env st'.file = loadRejected env st.file ∪ c.new.toFinset
  removed : ∀ targets, outcome = .ok (.removed targets) →
    loadRejected env st'.file = loadRejected env st.file \ targets.toFinset ∧
      ∃ before after, Utf8.fromUtf8 st.file = some before ∧ Utf8.fromUtf8 st'.file = some after ∧
        splitInclusive after = (splitInclusive before).filter fun line =>
          (wordOf env line).isEmpty || decide (wordOf env line ∉ targets)
  failed : ∀ e, outcome = .error e → st'.file = st.file ∧ st'.listed = st.listed
  listed : st'.listed = loadRejected env st'.file

variable {env}

/-- A call that is refused before it gets to the file. -/
theorem Faithful.refused {st : State} (hlisted : st.listed = loadRejected env st.file)
    (e : AdminError) : Faithful env st st (.error e) where
  added _ h := nomatch h
  removed _ h := nomatch h
  failed _ _ := ⟨rfl, rfl⟩
  listed := hlisted

theorem loadRejected_encode (text : Word) :
    loadRejected env (Utf8.encode text) = wordsOf env text := by
  rw [loadRejected, Utf8.fromUtf8Lossy_encode]

theorem readListText_eq {fault : Fault} (h : fault.strikes .readText = false) {file : List UInt8}
    {text : Word} (htext : Utf8.fromUtf8 file = some text) : readListText fault file = text := by
  rw [readListText, h, if_neg Bool.false_ne_true, htext, Option.getD_some]

/-- A change of the file is faithful if the new text is what the call says. -/
theorem faithful_replaceText {st st' : State} {fault : Fault} {before text : Word}
    {effect : Effect} {reason : Option Word} {row : Word → AuditRow}
    {outcome : Except AdminError Unit} (hbefore : Utf8.fromUtf8 st.file = some before)
    (hlisted : st.listed = loadRejected env st.file) (hread : fault.strikes .reload = false)
    (hadded : ∀ c, effect = .added c → wordsOf env text = wordsOf env before ∪ c.new.toFinset)
    (hremoved : ∀ targets, effect = .removed targets → text = without env before targets)
    (h : replaceText env st fault reason row before text = (st', outcome)) :
    Faithful env st st' (outcome.map fun _ => effect) := by
  have hfile := Utf8.fromUtf8_eq_some_iff.mp hbefore
  obtain ⟨hload, ⟨e, rfl, hsame⟩ | ⟨rfl, hfile'⟩⟩ := replaceText_spec hfile hlisted hread h
  · exact ⟨fun _ h => (nomatch h), fun _ h => (nomatch h), fun _ _ => hsame, hload⟩
  · refine ⟨fun c hc => ?_, fun targets hc => ?_, fun _ h => (nomatch h), hload⟩
    · rw [hfile', hfile, loadRejected_encode, loadRejected_encode, hadded c (Except.ok.inj hc)]
    · obtain rfl := hremoved targets (Except.ok.inj hc)
      refine ⟨?_, before, _, hbefore, Utf8.fromUtf8_eq_some_iff.mpr hfile',
        by rw [without_eq, splitInclusive_flatten_filter]⟩
      rw [hfile', hfile, loadRejected_encode, loadRejected_encode, wordsOf_without]

/-- **A call does what it says** to a file in UTF-8 that can be read. -/
theorem faithful_perform {st : State} (hlisted : st.listed = loadRejected env st.file) {c : Call}
    (hsound : Sound env st c) :
    Faithful env st (perform env st c).1 (perform env st c).2 := by
  cases c with
  | add fault text reason assumeValid today =>
    unfold Sound Call.reaches Call.fault at hsound
    rw [perform, addRejected]
    cases hparse : parseWords env text with
    | error e => exact Faithful.refused hlisted e
    | ok found =>
      simp only [hparse] at hsound
      dsimp only
      split
      · exact Faithful.refused hlisted _
      · rename_i hnew
        obtain ⟨hutf8, hread, hreload⟩ := hsound (by simpa using hnew)
        obtain ⟨before, hbefore⟩ := Option.isSome_iff_exists.mp hutf8
        have hplain : ∀ word ∈ (classifyWords env st.listed found.1 assumeValid).new,
            Plain env word := fun word hword =>
          plain_of_parseWords hparse word
            (List.mem_of_mem_filter (List.mem_of_mem_filter hword))
        have hadded : ∀ c, Effect.added { classifyWords env st.listed found.1 assumeValid with
            bad := found.2 } = .added c → wordsOf env (before ++ addition before today
              (classifyWords env st.listed found.1 assumeValid).new) =
                wordsOf env before ∪ c.new.toFinset := by
          intro c hc
          cases hc
          exact wordsOf_addition before today hplain
        rw [readListText_eq hread hbefore]
        have hremoved : ∀ targets, Effect.added { classifyWords env st.listed found.1 assumeValid with
            bad := found.2 } = .removed targets → (before ++ addition before today
              (classifyWords env st.listed found.1 assumeValid).new) =
                without env before targets :=
          fun _ h => (nomatch h)
        split <;> rename_i hreplace <;>
          exact faithful_replaceText hbefore hlisted hreload hadded hremoved hreplace
  | remove fault text reason =>
    unfold Sound Call.reaches Call.fault at hsound
    rw [perform, removeRejected]
    cases hparse : parseWords env text with
    | error e => exact Faithful.refused hlisted e
    | ok found =>
      simp only [hparse] at hsound
      dsimp only
      split
      · exact Faithful.refused hlisted _
      · rename_i htargets
        obtain ⟨hutf8, hread, hreload⟩ := hsound (by simpa using htargets)
        obtain ⟨before, hbefore⟩ := Option.isSome_iff_exists.mp hutf8
        have hremoved : ∀ targets, Effect.removed (found.1.filter fun w => w ∈ st.listed) =
            .removed targets → without env before (found.1.filter fun w => w ∈ st.listed) =
              without env before targets := by
          intro targets hc
          cases hc
          rfl
        rw [readListText_eq hread hbefore]
        have hadded : ∀ c, Effect.removed (found.1.filter fun w => w ∈ st.listed) = .added c →
            wordsOf env (without env before (found.1.filter fun w => w ∈ st.listed)) =
              wordsOf env before ∪ c.new.toFinset :=
          fun _ h => (nomatch h)
        split <;> rename_i hreplace <;>
          exact faithful_replaceText hbefore hlisted hreload hadded hremoved hreplace

/-- **The list is never damaged** while every call that gets to the file finds it in UTF-8 and can
read it: after any calls the next one is faithful, and the list in memory is that of the file. -/
theorem kept_of_run {st : State} (hlisted : st.listed = loadRejected env st.file)
    {calls : List Call} {c : Call}
    (hsound : Runs.Along (step env) (Sound env) st (calls ++ [c])) :
    Faithful env (Runs.run (step env) st calls) (perform env (Runs.run (step env) st calls) c).1
      (perform env (Runs.run (step env) st calls) c).2 := by
  rw [Runs.along_append] at hsound
  obtain ⟨hcalls, hc, -⟩ := hsound
  have hinv := Runs.run_invariant (step env)
    (P := fun st => st.listed = loadRejected env st.file) (Q := Sound env)
    (fun st c hst hsound => (faithful_perform hst hsound).listed) hlisted hcalls
  exact faithful_perform hinv hc

/-- Letters that are all small, and a dictionary that takes every word. -/
def smallLetters : Env where
  casing := Casing.hungarian
  lowercase := id
  lowercase_nil := rfl
  lowercase_lowercase _ := rfl
  mem_of_mem_lowercase _ _ h _ := h
  accepts _ _ := true

/-- An administrator adds `korte`, a word that is no word. -/
def addKorte : Call :=
  .add none (some "korte".toList) (some "nem szó".toList) true ⟨2026, 1, 2⟩

/-- An administrator takes `alma` off the list. -/
def removeAlma : Call := .remove none (some "alma".toList) (some "jó szó".toList)

/-- The state of a server that has read a file. -/
def loaded (file : List UInt8) : State := ⟨file, loadRejected smallLetters file, []⟩

/-- A list of one word below a comment. -/
def oneWord : State := loaded (Utf8.encode "# lista\nalma\n".toList)

theorem kept_of_run_removeAlma :
    Faithful smallLetters (Runs.run (step smallLetters) oneWord [addKorte])
      (perform smallLetters (Runs.run (step smallLetters) oneWord [addKorte]) removeAlma).1
      (perform smallLetters (Runs.run (step smallLetters) oneWord [addKorte]) removeAlma).2 := by
  have hadd : Sound smallLetters oneWord addKorte :=
    fun _ => ⟨Option.isSome_iff_exists.mpr ⟨_, Utf8.fromUtf8_eq_some_iff.mpr rfl⟩, rfl, rfl⟩
  have hremove : Sound smallLetters (step smallLetters oneWord addKorte) removeAlma :=
    fun _ => ⟨by decide +kernel, rfl, rfl⟩
  exact kept_of_run rfl ⟨hadd, hremove, trivial⟩

/-- A byte that is not UTF-8 is a word to the dictionary and the end of the list to the panel: to
add a word puts it in the place of all others. -/
theorem addKorte_empties_list :
    ¬ ∀ (st : State) (calls : List Call) (c : Call),
      st.listed = loadRejected smallLetters st.file →
        Faithful smallLetters (Runs.run (step smallLetters) st calls)
          (perform smallLetters (Runs.run (step smallLetters) st calls) c).1
          (perform smallLetters (Runs.run (step smallLetters) st calls) c).2 := by
  intro h
  have hkept := (h (loaded (Utf8.encode "alma\n".toList ++ [0xF6, 0x0A])) [] addKorte rfl).added
    ⟨["korte".toList], [], [], []⟩ (by rfl)
  have halma : "alma".toList ∉ loadRejected smallLetters (perform smallLetters
      (loaded (Utf8.encode "alma\n".toList ++ [0xF6, 0x0A])) addKorte).1.file := by
    decide +kernel
  refine halma ?_
  rw [Runs.run_nil] at hkept
  rw [hkept]
  decide +kernel

end Runs

end ScrabbleMagyar.RejectedList
