import ScrabbleMagyar.Foundations.Gather
import ScrabbleMagyar.Robot.Generator

/-!
# What a search finds in a row

A search grows a word along a row of a grid, over the letters that stand there and over tiles laid
on the squares between them. `Searcher.Walk` is such a growth without the search, and
`Searcher.Payable` says that the hand pays for the tiles.

* `Searcher.gathers_extendRight`, `Searcher.gathers_leftPart`: the search to the right and the one
  to the left find exactly the walks that end in a word of the vocabulary.
* `gathers_search`: what all anchors of a grid find.
-/

namespace ScrabbleMagyar

namespace Robot

open Gather

theorem perm_placementKey (tiles : List Placed) : (placementKey tiles).Perm tiles :=
  List.perm_insertionSort _ _

theorem Placed.key_injective : Function.Injective Placed.key := by
  rintro ⟨r, c, t, b⟩ ⟨r', c', t', b'⟩ h
  simpa [Placed.key] using h

/-- Two placements have the same key if they are the same tiles. -/
theorem placementKey_eq_iff {tiles tiles' : List Placed} :
    placementKey tiles = placementKey tiles' ↔ tiles.Perm tiles' := by
  constructor
  · exact fun h => (perm_placementKey tiles).symm.trans (h ▸ perm_placementKey tiles')
  · intro h
    let le (p q : Placed) : Prop := p.key ≤ q.key
    have htotal : Std.Total le := ⟨fun p q => le_total p.key q.key⟩
    have htrans : IsTrans Placed le := ⟨fun p q r hpq hqr => le_trans hpq hqr⟩
    have hanti : Std.Antisymm le := ⟨fun p q hpq hqr => Placed.key_injective (le_antisymm hpq hqr)⟩
    refine List.Perm.eq_of_pairwise' (r := le) ?_ ?_
      (((perm_placementKey tiles).trans h).trans (perm_placementKey tiles').symm)
    · exact List.pairwise_insertionSort le tiles
    · exact List.pairwise_insertionSort le tiles'

/-! ## Paying for tiles -/

/-- The letter of a laying, and whether a blank stands for it. -/
def Laying.kind (l : Laying) : Tile × Bool := (l.letter, l.isBlank)

/-- The hand pays for the tiles: letters of its types as often as it has them, and blanks for any
letters. -/
structure Payable (types : List Tile) (counts : Counts) (freeBlanks : ℕ)
    (tiles : List (Tile × Bool)) : Prop where
  lettered : ∀ t ∈ tiles, t.1 ∈ if t.2 then letters else types
  enough : ∀ t, tiles.count (t, false) ≤ counts t
  blanks : tiles.countP Prod.snd ≤ freeBlanks

theorem payable_nil (types : List Tile) (counts : Counts) (freeBlanks : ℕ) :
    Payable types counts freeBlanks [] :=
  ⟨by simp, by simp, by simp⟩

variable {types : List Tile} {counts : Counts} {freeBlanks : ℕ} {letter : Tile}
  {tiles : List (Tile × Bool)}

theorem payable_cons_letter : Payable types counts freeBlanks ((letter, false) :: tiles) ↔
    letter ∈ types ∧ counts letter ≠ 0 ∧ Payable types (counts.take letter) freeBlanks tiles := by
  constructor
  · intro h
    have hfirst := h.enough letter
    rw [List.count_cons_self] at hfirst
    refine ⟨by simpa using h.lettered _ List.mem_cons_self, by omega,
      fun t ht => h.lettered t (List.mem_cons_of_mem _ ht), fun t => ?_, by simpa using h.blanks⟩
    by_cases hsame : t = letter
    · subst hsame
      rw [Counts.take, Function.update_self]
      omega
    · have ht := h.enough t
      rw [List.count_cons_of_ne (by simpa using Ne.symm hsame)] at ht
      rwa [Counts.take, Function.update_of_ne hsame]
  · rintro ⟨htype, hleft, h⟩
    refine ⟨?_, fun t => ?_, by simpa using h.blanks⟩
    · exact List.forall_mem_cons.mpr ⟨by simpa using htype, h.lettered⟩
    · have ht := h.enough t
      by_cases hsame : t = letter
      · subst hsame
        rw [Counts.take, Function.update_self] at ht
        rw [List.count_cons_self]
        omega
      · rw [Counts.take, Function.update_of_ne hsame] at ht
        rwa [List.count_cons_of_ne (by simpa using Ne.symm hsame)]

theorem payable_cons_blank : Payable types counts freeBlanks ((letter, true) :: tiles) ↔
    letter ∈ letters ∧ freeBlanks ≠ 0 ∧ Payable types counts (freeBlanks - 1) tiles := by
  have hcount (t : Tile) : ((letter, true) :: tiles).count (t, false) = tiles.count (t, false) :=
    List.count_cons_of_ne (by simp)
  have hblanks : ((letter, true) :: tiles).countP Prod.snd = tiles.countP Prod.snd + 1 :=
    List.countP_cons_of_pos rfl
  constructor
  · intro h
    have hle := h.blanks
    rw [hblanks] at hle
    exact ⟨by simpa using h.lettered _ List.mem_cons_self, by omega,
      fun t ht => h.lettered t (List.mem_cons_of_mem _ ht), fun t => hcount t ▸ h.enough t, by omega⟩
  · rintro ⟨hletter, hfree, h⟩
    have hle := h.blanks
    exact ⟨List.forall_mem_cons.mpr ⟨by simpa using hletter, h.lettered⟩,
      fun t => (hcount t).symm ▸ h.enough t, by omega⟩

namespace Searcher

variable {s : Searcher} {col last : ℕ} {word text : Word} {ext : List Laying}

/-! ## Walks -/

/-- **A walk along the row**, from a column with a text to a later one with the text grown: over the
letters that stand there, and laying tiles on the empty squares. -/
inductive Walk (s : Searcher) : ℕ → Word → List Laying → ℕ → Word → Prop
  | stop (col : ℕ) (word : Word) : Walk s col word [] col word
  | pass {col last : ℕ} {word text : Word} {ext : List Laying} {existing : Tile}
      (hrow : s.row col = some existing)
      (rest : Walk s (col + 1) (word ++ existing.asStr) ext last text) :
      Walk s col word ext last text
  | lay {col last : ℕ} {word text : Word} {ext : List Laying} (letter : Tile) (isBlank : Bool)
      (hon : col < boardSize) (hrow : s.row col = none) (hallows : s.allows col letter = true)
      (rest : Walk s (col + 1) (word ++ letter.asStr) ext last text) :
      Walk s col word (⟨col, letter, isBlank⟩ :: ext) last text

theorem Walk.starts (h : s.Walk col word ext last text) : word <+: text := by
  induction h with
  | stop => exact List.prefix_rfl
  | pass _ _ ih => exact (List.prefix_append _ _).trans ih
  | lay _ _ _ _ _ _ ih => exact (List.prefix_append _ _).trans ih

theorem Walk.le (h : s.Walk col word ext last text) : col ≤ last := by
  induction h with
  | stop => exact le_rfl
  | pass _ _ ih => omega
  | lay _ _ _ _ _ _ ih => omega

/-- What is grown ends with a word of the vocabulary, past the anchor and before an empty square. -/
structure Ends (s : Searcher) (last : ℕ) (text : Word) : Prop where
  free : s.row last = none
  past : s.anchor < last
  long : 2 ≤ text.length
  known : text ∈ s.vocab.words

theorem Ends.hasPrefix (h : s.Ends last text) (hstart : word <+: text) :
    s.vocab.hasPrefix word = true :=
  Vocabulary.hasPrefix_iff.mpr ⟨text, h.known, hstart⟩

/-- What is found to the right of a column. -/
def Finds (s : Searcher) (col : ℕ) (word : Word) (counts : Counts) (placed : List Laying)
    (freeBlanks : ℕ) (key : List Placed) : Prop :=
  ∃ ext last text, s.Walk col word ext last text ∧ s.Ends last text ∧
    Payable s.rackTypes counts freeBlanks (ext.map Laying.kind) ∧
    key = placementKey ((placed ++ ext).map s.placed)

theorem gathers_record (s : Searcher) (placed : List Laying) :
    Gathers placementKey (s.record placed) fun k => k = placementKey (placed.map s.placed) :=
  gathers_note placementKey (placed.map s.placed)

theorem gathers_recordWord (s : Searcher) (col : ℕ) (word : Word) (placed : List Laying) :
    Gathers placementKey (s.recordWord col word placed) fun k =>
      (s.anchor < col ∧ 2 ≤ word.length ∧ word ∈ s.vocab.words) ∧
        k = placementKey (placed.map s.placed) := by
  have h := Gathers.ite (c := (s.anchor < col && decide (2 ≤ word.length) && s.vocab.contains word) =
    true) fun _ => s.gathers_record placed
  refine h.congr fun k => and_congr_left fun _ => ?_
  simp only [Bool.and_eq_true, decide_eq_true_eq, Vocabulary.contains_iff, and_assoc]

variable {may : Tile → Bool} {grow : Tile → Found → Found} {P : Tile → List Placed → Prop}

theorem gathers_tryRack (s : Searcher) (counts : Counts) (may : Tile → Bool)
    (h : ∀ letter, Gathers placementKey (grow letter) (P letter)) :
    Gathers placementKey (s.tryRack counts may grow) fun k =>
      ∃ letter ∈ s.rackTypes, (counts letter ≠ 0 ∧ may letter = true) ∧ P letter k := by
  refine gathers_foldl fun letter _ => ?_
  have hstep := Gathers.ite (c := counts letter ≠ 0 ∧ may letter = true) fun _ => h letter
  have heq : (fun found => if counts letter = 0 || !may letter then found else grow letter found) =
      fun found => if counts letter ≠ 0 ∧ may letter = true then grow letter found else found := by
    funext found
    by_cases hzero : counts letter = 0 <;> cases hmay : may letter <;> simp [hzero]
  rwa [heq]

theorem gathers_tryBlank (freeBlanks : ℕ) (may : Tile → Bool)
    (h : ∀ letter, Gathers placementKey (grow letter) (P letter)) :
    Gathers placementKey (tryBlank freeBlanks may grow) fun k =>
      freeBlanks ≠ 0 ∧ ∃ letter ∈ letters, may letter = true ∧ P letter k := by
  have hall : Gathers placementKey
      (fun found => letters.foldl (fun found letter => if may letter then grow letter found else found)
        found) fun k => ∃ letter ∈ letters, may letter = true ∧ P letter k :=
    gathers_foldl fun letter _ => Gathers.ite fun _ => h letter
  have hif := Gathers.ite (c := freeBlanks ≠ 0) fun _ => hall
  have heq : tryBlank freeBlanks may grow = fun found => if freeBlanks ≠ 0 then
      letters.foldl (fun found letter => if may letter then grow letter found else found) found
      else found := by
    funext found
    by_cases hzero : freeBlanks = 0 <;> simp [tryBlank, hzero]
  rwa [heq]

/-! ## The search to the right -/

/-- Past the end of the row there is only the end of a walk. -/
theorem finds_boardSize (hedge : ∀ c, boardSize ≤ c → s.row c = none) {placed : List Laying}
    {key : List Placed} : s.Finds boardSize word counts placed freeBlanks key ↔
      (s.anchor < boardSize ∧ 2 ≤ word.length ∧ word ∈ s.vocab.words) ∧
        key = placementKey (placed.map s.placed) := by
  constructor
  · rintro ⟨ext, last, text, hwalk, hends, -, rfl⟩
    cases hwalk with
    | stop => exact ⟨⟨hends.past, hends.long, hends.known⟩, by rw [List.append_nil]⟩
    | pass hrow => exact absurd hrow (by simp [hedge boardSize le_rfl])
    | lay _ _ hon => exact absurd hon (lt_irrefl _)
  · rintro ⟨⟨hpast, hlong, hknown⟩, rfl⟩
    exact ⟨[], boardSize, word, .stop _ _, ⟨hedge _ le_rfl, hpast, hlong, hknown⟩, payable_nil _ _ _,
      by rw [List.append_nil]⟩

/-- On a letter of the row the walk passes over it. -/
theorem finds_of_some {existing : Tile} (hrow : s.row col = some existing) {placed : List Laying}
    {key : List Placed} : s.Finds col word counts placed freeBlanks key ↔
      s.vocab.hasPrefix (word ++ existing.asStr) = true ∧
        s.Finds (col + 1) (word ++ existing.asStr) counts placed freeBlanks key := by
  constructor
  · rintro ⟨ext, last, text, hwalk, hends, hpay, rfl⟩
    cases hwalk with
    | stop => exact absurd hends.free (by simp [hrow])
    | pass hrow' rest =>
      obtain rfl := Option.some_inj.mp (hrow.symm.trans hrow')
      exact ⟨hends.hasPrefix rest.starts, ext, last, text, rest, hends, hpay, rfl⟩
    | lay _ _ _ hrow' => exact absurd hrow' (by simp [hrow])
  · rintro ⟨-, ext, last, text, hwalk, hends, hpay, rfl⟩
    exact ⟨ext, last, text, .pass hrow hwalk, hends, hpay, rfl⟩

/-- On an empty square the walk ends, or a letter of the hand is laid, or a blank. -/
theorem finds_of_none (hon : col < boardSize) (hrow : s.row col = none) {placed : List Laying}
    {key : List Placed} : s.Finds col word counts placed freeBlanks key ↔
      (((s.anchor < col ∧ 2 ≤ word.length ∧ word ∈ s.vocab.words) ∧
          key = placementKey (placed.map s.placed)) ∨
        ∃ letter ∈ s.rackTypes, (counts letter ≠ 0 ∧
          (s.allows col letter && s.vocab.hasPrefix (word ++ letter.asStr)) = true) ∧
          s.Finds (col + 1) (word ++ letter.asStr) (counts.take letter)
            (placed ++ [⟨col, letter, false⟩]) freeBlanks key) ∨
      freeBlanks ≠ 0 ∧ ∃ letter ∈ letters,
        (s.allows col letter && s.vocab.hasPrefix (word ++ letter.asStr)) = true ∧
        s.Finds (col + 1) (word ++ letter.asStr) counts (placed ++ [⟨col, letter, true⟩])
          (freeBlanks - 1) key := by
  constructor
  · rintro ⟨ext, last, text, hwalk, hends, hpay, rfl⟩
    cases hwalk with
    | stop => exact .inl (.inl ⟨⟨hends.past, hends.long, hends.known⟩, by rw [List.append_nil]⟩)
    | pass hrow' => exact absurd hrow' (by simp [hrow])
    | @lay _ _ _ _ ext letter isBlank _ _ hallows rest =>
      have hmay : (s.allows col letter && s.vocab.hasPrefix (word ++ letter.asStr)) = true := by
        rw [hallows, hends.hasPrefix rest.starts]
        rfl
      rw [List.map_cons, Laying.kind] at hpay
      cases isBlank with
      | false =>
        obtain ⟨htype, hleft, hpay⟩ := payable_cons_letter.mp hpay
        exact .inl (.inr ⟨letter, htype, ⟨hleft, hmay⟩, ext, last, text, rest, hends, hpay, by
          rw [List.append_assoc, List.singleton_append]⟩)
      | true =>
        obtain ⟨hletter, hfree, hpay⟩ := payable_cons_blank.mp hpay
        exact .inr ⟨hfree, letter, hletter, hmay, ext, last, text, rest, hends, hpay, by
          rw [List.append_assoc, List.singleton_append]⟩
  · rintro ((⟨⟨hpast, hlong, hknown⟩, rfl⟩ |
      ⟨letter, htype, ⟨hleft, hmay⟩, ext, last, text, hwalk, hends, hpay, rfl⟩) |
      ⟨hfree, letter, hletter, hmay, ext, last, text, hwalk, hends, hpay, rfl⟩)
    · exact ⟨[], col, word, .stop _ _, ⟨hrow, hpast, hlong, hknown⟩, payable_nil _ _ _, by
        rw [List.append_nil]⟩
    · exact ⟨_, last, text, .lay letter false hon hrow (Bool.and_eq_true_iff.mp hmay).1 hwalk, hends,
        payable_cons_letter.mpr ⟨htype, hleft, hpay⟩, by
          rw [List.append_assoc, List.singleton_append]⟩
    · exact ⟨_, last, text, .lay letter true hon hrow (Bool.and_eq_true_iff.mp hmay).1 hwalk, hends,
        payable_cons_blank.mpr ⟨hletter, hfree, hpay⟩, by
          rw [List.append_assoc, List.singleton_append]⟩

/-- **The search to the right** finds exactly the walks from its column. -/
theorem gathers_extendRight (hedge : ∀ c, boardSize ≤ c → s.row c = none) {n : ℕ}
    (hn : n ≤ boardSize) (word : Word) (counts : Counts) (placed : List Laying) (freeBlanks : ℕ) :
    Gathers placementKey (s.extendRight n word counts placed freeBlanks)
      (s.Finds (boardSize - n) word counts placed freeBlanks) := by
  induction n generalizing word counts placed freeBlanks with
  | zero =>
    refine (s.gathers_recordWord boardSize word placed).congr fun k => ?_
    exact (finds_boardSize hedge).symm
  | succ n ih =>
    have hnext : boardSize - (n + 1) + 1 = boardSize - n := by omega
    have ih' := ih (by omega)
    simp only [← hnext] at ih'
    cases hrow : s.row (boardSize - (n + 1)) with
    | some existing =>
      have heq : s.extendRight (n + 1) word counts placed freeBlanks = fun found =>
          if s.vocab.hasPrefix (word ++ existing.asStr) = true then
            s.extendRight n (word ++ existing.asStr) counts placed freeBlanks found else found := by
        funext found
        simp only [extendRight, hrow]
      rw [heq]
      exact (Gathers.ite fun _ => ih' _ _ _ _).congr fun k => (finds_of_some hrow).symm
    | none =>
      have heq : s.extendRight (n + 1) word counts placed freeBlanks = fun found =>
          tryBlank freeBlanks
            (fun letter => s.allows (boardSize - (n + 1)) letter &&
              s.vocab.hasPrefix (word ++ letter.asStr))
            (fun letter => s.extendRight n (word ++ letter.asStr) counts
              (placed ++ [⟨boardSize - (n + 1), letter, true⟩]) (freeBlanks - 1))
            (s.tryRack counts
              (fun letter => s.allows (boardSize - (n + 1)) letter &&
                s.vocab.hasPrefix (word ++ letter.asStr))
              (fun letter => s.extendRight n (word ++ letter.asStr) (counts.take letter)
                (placed ++ [⟨boardSize - (n + 1), letter, false⟩]) freeBlanks)
              (s.recordWord (boardSize - (n + 1)) word placed found)) := by
        funext found
        simp only [extendRight, hrow]
      rw [heq]
      refine (((s.gathers_recordWord _ word placed).comp
        (s.gathers_tryRack counts _ fun letter => ih' _ _ _ _)).comp
        (gathers_tryBlank freeBlanks _ fun letter => ih' _ _ _ _)).congr fun k => ?_
      exact (finds_of_none (by omega) hrow).symm

/-! ## The search to the left -/

/-- The text of tiles. -/
def textOf (tiles : List (Tile × Bool)) : Word := tiles.flatMap fun t => t.1.asStr

theorem textOf_cons (t : Tile × Bool) (tiles : List (Tile × Bool)) :
    textOf (t :: tiles) = t.1.asStr ++ textOf tiles := rfl

/-- What is found with at most `n` more tiles to the left of the anchor. -/
def FindsLeft (s : Searcher) (n : ℕ) (word : Word) (counts : Counts) (left : List (Tile × Bool))
    (freeBlanks : ℕ) (key : List Placed) : Prop :=
  ∃ more ext last text, more.length ≤ n ∧ s.Walk s.anchor (word ++ textOf more) ext last text ∧
    s.Ends last text ∧ Payable s.rackTypes counts freeBlanks (more ++ ext.map Laying.kind) ∧
    key = placementKey ((s.leftPlaced (left ++ more) ++ ext).map s.placed)

theorem findsLeft_zero {left : List (Tile × Bool)} {key : List Placed} :
    s.FindsLeft 0 word counts left freeBlanks key ↔
      s.Finds s.anchor word counts (s.leftPlaced left) freeBlanks key := by
  constructor
  · rintro ⟨more, ext, last, text, hlen, hwalk, hends, hpay, rfl⟩
    obtain rfl := List.length_eq_zero_iff.mp (Nat.le_zero.mp hlen)
    exact ⟨ext, last, text, by simpa [textOf] using hwalk, hends, hpay, by rw [List.append_nil]⟩
  · rintro ⟨ext, last, text, hwalk, hends, hpay, rfl⟩
    exact ⟨[], ext, last, text, le_rfl, by simpa [textOf] using hwalk, hends, hpay, by
      rw [List.append_nil]⟩

/-- Either no more tile is laid to the left, or a letter of the hand is, or a blank. -/
theorem findsLeft_succ {n : ℕ} {left : List (Tile × Bool)} {key : List Placed} :
    s.FindsLeft (n + 1) word counts left freeBlanks key ↔
      (s.Finds s.anchor word counts (s.leftPlaced left) freeBlanks key ∨
        ∃ letter ∈ s.rackTypes,
          (counts letter ≠ 0 ∧ s.vocab.hasPrefix (word ++ letter.asStr) = true) ∧
          s.FindsLeft n (word ++ letter.asStr) (counts.take letter) (left ++ [(letter, false)])
            freeBlanks key) ∨
      freeBlanks ≠ 0 ∧ ∃ letter ∈ letters, s.vocab.hasPrefix (word ++ letter.asStr) = true ∧
        s.FindsLeft n (word ++ letter.asStr) counts (left ++ [(letter, true)]) (freeBlanks - 1)
          key := by
  have htext (letter : Tile) (isBlank : Bool) (more : List (Tile × Bool)) :
      word ++ textOf ((letter, isBlank) :: more) = word ++ letter.asStr ++ textOf more := by
    rw [textOf_cons, List.append_assoc]
  constructor
  · rintro ⟨more, ext, last, text, hlen, hwalk, hends, hpay, rfl⟩
    cases more with
    | nil =>
      exact .inl (.inl (findsLeft_zero.mp ⟨[], ext, last, text, le_rfl, hwalk, hends, hpay, rfl⟩))
    | cons t more =>
      obtain ⟨letter, isBlank⟩ := t
      rw [htext] at hwalk
      have hstart := hends.hasPrefix ((List.prefix_append (word ++ letter.asStr) _).trans hwalk.starts)
      have hlen' : more.length ≤ n := by simpa using hlen
      rw [List.cons_append] at hpay
      cases isBlank with
      | false =>
        obtain ⟨htype, hleft, hpay⟩ := payable_cons_letter.mp hpay
        exact .inl (.inr ⟨letter, htype, ⟨hleft, hstart⟩, more, ext, last, text, hlen', hwalk, hends,
          hpay, by rw [List.append_assoc left, List.singleton_append]⟩)
      | true =>
        obtain ⟨hletter, hfree, hpay⟩ := payable_cons_blank.mp hpay
        exact .inr ⟨hfree, letter, hletter, hstart, more, ext, last, text, hlen', hwalk, hends, hpay,
          by rw [List.append_assoc left, List.singleton_append]⟩
  · rintro ((hfinds |
      ⟨letter, htype, ⟨hleft, -⟩, more, ext, last, text, hlen, hwalk, hends, hpay, rfl⟩) |
      ⟨hfree, letter, hletter, -, more, ext, last, text, hlen, hwalk, hends, hpay, rfl⟩)
    · obtain ⟨more, ext, last, text, hlen, hrest⟩ := findsLeft_zero.mpr hfinds
      exact ⟨more, ext, last, text, by omega, hrest⟩
    · refine ⟨(letter, false) :: more, ext, last, text, by simpa using hlen, ?_, hends,
        payable_cons_letter.mpr ⟨htype, hleft, hpay⟩, ?_⟩
      · rwa [htext]
      · rw [List.append_assoc left, List.singleton_append]
    · refine ⟨(letter, true) :: more, ext, last, text, by simpa using hlen, ?_, hends,
        payable_cons_blank.mpr ⟨hletter, hfree, hpay⟩, ?_⟩
      · rwa [htext]
      · rw [List.append_assoc left, List.singleton_append]

/-- **The search to the left** finds exactly the walks with so many tiles before the anchor. -/
theorem gathers_leftPart (hedge : ∀ c, boardSize ≤ c → s.row c = none) (hanchor : s.anchor < boardSize)
    (n : ℕ) (word : Word) (counts : Counts) (left : List (Tile × Bool)) (freeBlanks : ℕ) :
    Gathers placementKey (s.leftPart n word counts left freeBlanks)
      (s.FindsLeft n word counts left freeBlanks) := by
  have hright (word : Word) (counts : Counts) (left : List (Tile × Bool)) (freeBlanks : ℕ) :
      Gathers placementKey (s.extendRight (boardSize - s.anchor) word counts (s.leftPlaced left)
        freeBlanks) (s.Finds s.anchor word counts (s.leftPlaced left) freeBlanks) := by
    have h := gathers_extendRight hedge (Nat.sub_le boardSize s.anchor) word counts
      (s.leftPlaced left) freeBlanks
    rwa [Nat.sub_sub_self hanchor.le] at h
  induction n generalizing word counts left freeBlanks with
  | zero => exact (hright word counts left freeBlanks).congr fun k => findsLeft_zero.symm
  | succ n ih =>
    exact (((hright word counts left freeBlanks).comp
      (s.gathers_tryRack counts _ fun letter => ih _ _ _ _)).comp
      (gathers_tryBlank freeBlanks _ fun letter => ih _ _ _ _)).congr fun k => findsLeft_succ.symm

/-! ## Walks in pieces -/

theorem Walk.congr {s' : Searcher} (hrow : s'.row = s.row) (hallowed : s'.allowed = s.allowed)
    (h : s.Walk col word ext last text) : s'.Walk col word ext last text := by
  induction h with
  | stop => exact .stop _ _
  | pass hcol _ ih => exact .pass (hrow ▸ hcol) ih
  | lay letter isBlank hon hcol hallows _ ih =>
    exact .lay letter isBlank hon (hrow ▸ hcol) (by rwa [allows, hallowed]) ih

theorem Walk.trans {middle : ℕ} {between : Word} {ext' : List Laying}
    (h : s.Walk col word ext middle between) (h' : s.Walk middle between ext' last text) :
    s.Walk col word (ext ++ ext') last text := by
  induction h with
  | stop => exact h'
  | pass hrow _ ih => exact .pass hrow (ih h')
  | lay letter isBlank hon hrow hallows _ ih => exact .lay letter isBlank hon hrow hallows (ih h')

/-- A walk can be cut at every column on its way. -/
theorem Walk.cut (h : s.Walk col word ext last text) {middle : ℕ} (hcol : col ≤ middle)
    (hlast : middle ≤ last) : ∃ before after between, s.Walk col word before middle between ∧
      s.Walk middle between after last text ∧ ext = before ++ after := by
  obtain rfl | hlt := Nat.eq_or_lt_of_le hcol
  · exact ⟨[], ext, word, .stop _ _, h, rfl⟩
  induction h with
  | stop => omega
  | @pass col last word text ext existing hrow rest ih =>
    obtain rfl | hlt' := Nat.eq_or_lt_of_le (show col + 1 ≤ middle from hlt)
    · exact ⟨[], ext, _, .pass hrow (.stop _ _), rest, rfl⟩
    · obtain ⟨before, after, between, h₁, h₂, rfl⟩ := ih hlt hlast hlt'
      exact ⟨before, after, between, .pass hrow h₁, h₂, rfl⟩
  | @lay col last word text ext letter isBlank hon hrow hallows rest ih =>
    obtain rfl | hlt' := Nat.eq_or_lt_of_le (show col + 1 ≤ middle from hlt)
    · exact ⟨[⟨col, letter, isBlank⟩], ext, _, .lay letter isBlank hon hrow hallows (.stop _ _), rest,
        rfl⟩
    · obtain ⟨before, after, between, h₁, h₂, rfl⟩ := ih hlt hlast hlt'
      exact ⟨⟨col, letter, isBlank⟩ :: before, after, between, .lay letter isBlank hon hrow hallows h₁,
        h₂, rfl⟩

/-- The letters of the row in some columns. -/
def fixedText (row : ℕ → Option Tile) (col n : ℕ) : Word :=
  (List.range' col n).flatMap fun c => ((row c).map Tile.asStr).getD []

/-- Over letters a walk lays nothing. -/
theorem walk_letters_iff (s : Searcher) (col : ℕ) (word : Word) {n : ℕ}
    (hfull : ∀ c, col ≤ c → c < col + n → (s.row c).isSome = true) :
    s.Walk col word ext (col + n) text ↔ ext = [] ∧ text = word ++ fixedText s.row col n := by
  induction n generalizing col word with
  | zero =>
    constructor
    · intro h
      cases h with
      | stop => exact ⟨rfl, by simp [fixedText]⟩
      | pass _ rest => exact absurd rest.le (by omega)
      | lay _ _ _ _ _ rest => exact absurd rest.le (by omega)
    · rintro ⟨rfl, rfl⟩
      simpa [fixedText] using Walk.stop (s := s) col word
  | succ n ih =>
    obtain ⟨existing, hrow⟩ := Option.isSome_iff_exists.mp (hfull col le_rfl (by omega))
    have hnext := ih (col + 1) (word ++ existing.asStr) fun c h₁ h₂ => hfull c (by omega) (by omega)
    rw [show col + 1 + n = col + (n + 1) by omega] at hnext
    have htext : word ++ fixedText s.row col (n + 1) =
        word ++ existing.asStr ++ fixedText s.row (col + 1) n := by
      simp [fixedText, List.range'_succ, hrow]
    rw [htext, ← hnext]
    constructor
    · intro h
      cases h with
      | pass hrow' rest =>
        obtain rfl := Option.some_inj.mp (hrow.symm.trans hrow')
        exact rest
      | lay _ _ _ hrow' => exact absurd hrow' (by simp [hrow])
    · exact .pass hrow

/-- Tiles laid from a column on, one after the other. -/
def layFrom (col : ℕ) : List (Tile × Bool) → List Laying
  | [] => []
  | t :: rest => ⟨col, t.1, t.2⟩ :: layFrom (col + 1) rest

theorem map_kind_layFrom (col : ℕ) (tiles : List (Tile × Bool)) :
    (layFrom col tiles).map Laying.kind = tiles := by
  induction tiles generalizing col with
  | nil => rfl
  | cons t rest ih => rw [layFrom, List.map_cons, ih, Laying.kind]

theorem zipIdx_eq_layFrom (col n : ℕ) (tiles : List (Tile × Bool)) :
    (tiles.zipIdx n).map (fun (t, i) => (⟨col + i, t.1, t.2⟩ : Laying)) = layFrom (col + n) tiles := by
  induction tiles generalizing n with
  | nil => rfl
  | cons t rest ih =>
    rw [List.zipIdx_cons, List.map_cons, ih, layFrom]
    rfl

theorem leftPlaced_eq (s : Searcher) (left : List (Tile × Bool)) :
    s.leftPlaced left = layFrom (s.anchor - left.length) left :=
  zipIdx_eq_layFrom _ 0 left

/-- Over empty squares a walk lays a tile on each. -/
theorem walk_free_iff (s : Searcher) (col : ℕ) (word : Word) (ext : List Laying) {n : ℕ}
    (hfree : ∀ c, col ≤ c → c < col + n → s.row c = none ∧ s.allowed c = none ∧ c < boardSize) :
    s.Walk col word ext (col + n) text ↔ ∃ tiles : List (Tile × Bool), tiles.length = n ∧
      ext = layFrom col tiles ∧ text = word ++ textOf tiles := by
  induction n generalizing col word ext with
  | zero =>
    constructor
    · intro h
      cases h with
      | stop => exact ⟨[], rfl, rfl, by simp [textOf]⟩
      | pass _ rest => exact absurd rest.le (by omega)
      | lay _ _ _ _ _ rest => exact absurd rest.le (by omega)
    · rintro ⟨tiles, hlen, rfl, rfl⟩
      obtain rfl := List.length_eq_zero_iff.mp hlen
      simpa [textOf, layFrom] using Walk.stop (s := s) col word
  | succ n ih =>
    obtain ⟨hrow, hopen, hon⟩ := hfree col le_rfl (by omega)
    have hnext (letter : Tile) (ext : List Laying) := ih (col + 1) (word ++ letter.asStr) ext
      fun c h₁ h₂ => hfree c (by omega) (by omega)
    rw [show col + 1 + n = col + (n + 1) by omega] at hnext
    constructor
    · intro h
      cases h with
      | pass hrow' => exact absurd hrow' (by simp [hrow])
      | @lay _ _ _ _ ext letter isBlank _ _ _ rest =>
        obtain ⟨tiles, hlen, rfl, rfl⟩ := (hnext letter ext).mp rest
        exact ⟨(letter, isBlank) :: tiles, by simpa using hlen, rfl, by
          rw [textOf_cons, List.append_assoc]⟩
    · rintro ⟨tiles, hlen, rfl, rfl⟩
      cases tiles with
      | nil => cases hlen
      | cons t tiles =>
        refine .lay t.1 t.2 hon hrow (by simp [allows, hopen]) ((hnext t.1 _).mpr
          ⟨tiles, by simpa using hlen, rfl, ?_⟩)
        rw [textOf_cons, List.append_assoc]

/-! ## What an anchor finds -/

/-- What the search from the anchor finds: after the letters that stand before it, or with tiles to
its left. -/
def FindsFrom (s : Searcher) (isAnchor : ℕ → Bool) (counts : Counts) (freeBlanks : ℕ)
    (key : List Placed) : Prop :=
  let start := wordStart s.row s.anchor
  if start < s.anchor then
    s.Finds s.anchor (fixedText s.row start (s.anchor - start)) counts [] freeBlanks key
  else s.FindsLeft (leftLimit s.row isAnchor s.anchor 0) [] counts [] freeBlanks key

/-- A walk from the first column of a word to the end of it, with the anchor on its way. -/
structure Crosses (s : Searcher) (first : ℕ) (ext : List Laying) (last : ℕ) (text : Word) :
    Prop where
  walk : s.Walk first [] ext last text
  opens : ∀ c, c + 1 = first → s.row c = none
  reach : first ≤ s.anchor
  ends : s.Ends last text

/-- What the words through the anchor give. -/
def FindsAcross (s : Searcher) (counts : Counts) (freeBlanks : ℕ) (key : List Placed) : Prop :=
  ∃ first ext last text, s.Crosses first ext last text ∧
    Payable s.rackTypes counts freeBlanks (ext.map Laying.kind) ∧ key = placementKey (ext.map s.placed)

/-- Away from the anchors an empty square has no neighbours. -/
structure Quiet (s : Searcher) (isAnchor : ℕ → Bool) : Prop where
  edge : ∀ c, boardSize ≤ c → s.row c = none
  anchorFree : ∀ c, isAnchor c = true → s.row c = none ∧ c < boardSize
  nextFree : ∀ c, c < boardSize → s.row c = none → isAnchor c = false → s.row (c + 1) = none
  prevFree : ∀ c, c + 1 < boardSize → s.row (c + 1) = none → isAnchor (c + 1) = false →
    s.row c = none
  opened : ∀ c, c < boardSize → s.row c = none → isAnchor c = false → s.allowed c = none

theorem wordStart_eq (row : ℕ → Option Tile) (c : ℕ) :
    wordStart row c = Line.stretchStart (fun i => (row i).isSome) c := by
  induction c with
  | zero => rfl
  | succ c ih => simp only [wordStart, Line.stretchStart, ih]

theorem wordStart_le (row : ℕ → Option Tile) (c : ℕ) : wordStart row c ≤ c :=
  wordStart_eq row c ▸ Line.stretchStart_le _ _

theorem isSome_of_wordStart_le (row : ℕ → Option Tile) {c i : ℕ} (h : wordStart row c ≤ i)
    (hi : i < c) : (row i).isSome = true :=
  Line.stretchStart_full (wordStart_eq row c ▸ h) hi

theorem eq_none_of_wordStart (row : ℕ → Option Tile) (c : ℕ) {i : ℕ} (h : i + 1 = wordStart row c) :
    row i = none := by
  rw [wordStart_eq] at h
  simpa using Line.stretchStart_before h

/-- The start of the word is where the letters before the column begin. -/
theorem wordStart_eq_of {row : ℕ → Option Tile} {c n : ℕ} (hn : n ≤ c)
    (hfull : ∀ i, n ≤ i → i < c → (row i).isSome = true) (hfree : ∀ i, i + 1 = n → row i = none) :
    wordStart row c = n := by
  have hle := wordStart_le row c
  refine le_antisymm ?_ ?_
  · by_contra hlt
    obtain ⟨m, hm⟩ : ∃ m, m + 1 = wordStart row c := ⟨wordStart row c - 1, by omega⟩
    exact absurd (hfull m (by omega) (by omega)) (by simp [eq_none_of_wordStart row c hm])
  · by_contra hlt
    have hsome := isSome_of_wordStart_le row (c := c) (i := n - 1) (by omega) (by omega)
    rw [hfree (n - 1) (by omega)] at hsome
    cases hsome

/-- The squares that the limit counts are empty and no anchors. -/
theorem leftLimit_spec (row : ℕ → Option Tile) (isAnchor : ℕ → Bool) (c limit : ℕ) :
    limit ≤ leftLimit row isAnchor c limit ∧ leftLimit row isAnchor c limit ≤ limit + c ∧
      ∀ i, c + limit ≤ i + leftLimit row isAnchor c limit → i < c →
        row i = none ∧ isAnchor i = false := by
  induction c generalizing limit with
  | zero => exact ⟨le_rfl, le_rfl, fun i _ hi => absurd hi (Nat.not_lt_zero i)⟩
  | succ c ih =>
    simp only [leftLimit]
    split
    · rename_i hcount
      simp only [Bool.and_eq_true, Option.isNone_iff_eq_none, Bool.not_eq_true',
        decide_eq_true_eq] at hcount
      obtain ⟨hle, hge, hfree⟩ := ih (limit + 1)
      refine ⟨by omega, by omega, fun i hi hlt => ?_⟩
      by_cases hic : i = c
      · exact hic ▸ hcount.1
      · exact hfree i (by omega) (by omega)
    · exact ⟨le_rfl, by omega, fun i _ _ => by omega⟩

/-- As many empty squares as fit the hand are counted. -/
theorem le_leftLimit (row : ℕ → Option Tile) (isAnchor : ℕ → Bool) {c limit k : ℕ} (hk : k ≤ c)
    (hhand : limit + k ≤ handSize - 1)
    (hfree : ∀ i, c ≤ i + k → i < c → row i = none ∧ isAnchor i = false) :
    limit + k ≤ leftLimit row isAnchor c limit := by
  induction c generalizing limit k with
  | zero => simp only [leftLimit]; omega
  | succ c ih =>
    cases k with
    | zero => exact (leftLimit_spec row isAnchor (c + 1) limit).1
    | succ k =>
      obtain ⟨hrow, hanchor⟩ := hfree c (by omega) (by omega)
      have hcount : ((row c).isNone && !isAnchor c && decide (limit < handSize - 1)) = true := by
        simp [hrow, hanchor, show limit < handSize - 1 by omega]
      rw [leftLimit, if_pos hcount]
      have : limit + 1 + k ≤ leftLimit row isAnchor c (limit + 1) :=
        ih (by omega) (by omega) fun i h₁ h₂ => hfree i (by omega) (by omega)
      omega

variable {isAnchor : ℕ → Bool}

/-- What is found from the anchor is a word through it. -/
theorem FindsFrom.across (hquiet : s.Quiet isAnchor) (hanchor : isAnchor s.anchor = true)
    {key : List Placed} (h : s.FindsFrom isAnchor counts freeBlanks key) :
    s.FindsAcross counts freeBlanks key := by
  obtain ⟨-, hon⟩ := hquiet.anchorFree _ hanchor
  have hle := wordStart_le s.row s.anchor
  unfold FindsFrom at h
  dsimp only at h
  split at h
  · -- the letters before the anchor are the start of the word
    obtain ⟨ext, last, text, hwalk, hends, hpay, rfl⟩ := h
    have hfixed := (walk_letters_iff s (wordStart s.row s.anchor) []
      (n := s.anchor - wordStart s.row s.anchor)
      fun c h₁ h₂ => isSome_of_wordStart_le s.row h₁ (by omega)).mpr ⟨rfl, rfl⟩
    rw [Nat.add_sub_cancel' hle, List.nil_append] at hfixed
    exact ⟨_, ext, last, text,
      ⟨hfixed.trans hwalk, fun _ => eq_none_of_wordStart s.row s.anchor, hle, hends⟩, hpay,
      by rw [List.nil_append]⟩
  · rename_i hstart
    obtain ⟨more, ext, last, text, hlen, hwalk, hends, hpay, rfl⟩ := h
    obtain ⟨-, hlimit, hfree⟩ := leftLimit_spec s.row isAnchor s.anchor 0
    have hquiets : ∀ c, s.anchor - more.length ≤ c → c < s.anchor →
        s.row c = none ∧ isAnchor c = false := fun c h₁ h₂ => hfree c (by omega) h₂
    have hleft := (walk_free_iff s (s.anchor - more.length) [] _ (n := more.length) fun c h₁ h₂ => by
        obtain ⟨hrow, hno⟩ := hquiets c h₁ (by omega)
        exact ⟨hrow, hquiet.opened c (by omega) hrow hno, by omega⟩).mpr ⟨more, rfl, rfl, rfl⟩
    rw [Nat.sub_add_cancel (by omega)] at hleft
    refine ⟨_, _, last, text, ⟨hleft.trans hwalk, fun c hc => ?_, Nat.sub_le _ _, hends⟩, ?_, ?_⟩
    · -- nothing stands before the first of the tiles
      by_cases hnone : more.length = 0
      · exact eq_none_of_wordStart s.row s.anchor (by omega)
      · obtain ⟨hrow, hno⟩ := hquiets (c + 1) (by omega) (by omega)
        exact hquiet.prevFree c (by omega) hrow hno
    · rwa [List.map_append, map_kind_layFrom]
    · rw [List.nil_append, leftPlaced_eq]

/-- A word through the anchor is found from the first anchor on its way. -/
theorem FindsAcross.exists_findsFrom (hquiet : s.Quiet isAnchor) (hanchor : isAnchor s.anchor = true)
    (hfew : ∀ tiles, Payable s.rackTypes counts freeBlanks tiles → tiles.length ≤ handSize)
    {key : List Placed} (h : s.FindsAcross counts freeBlanks key) :
    ∃ a, isAnchor a = true ∧
      { s with anchor := a }.FindsFrom isAnchor counts freeBlanks key := by
  obtain ⟨first, ext, last, text, ⟨hwalk, hopens, hreach, hends⟩, hpay, rfl⟩ := h
  classical
  have hexists : ∃ a, first ≤ a ∧ isAnchor a = true := ⟨s.anchor, hreach, hanchor⟩
  obtain ⟨a, ⟨hfirst, ha⟩, hleast⟩ := Nat.findX hexists
  have hlast : a < last := by
    refine lt_of_le_of_lt ?_ hends.past
    by_contra hlt
    exact hleast _ (not_le.mp hlt) ⟨hreach, hanchor⟩
  obtain ⟨hrow, hon⟩ := hquiet.anchorFree a ha
  have hno : ∀ c, first ≤ c → c < a → isAnchor c = false := fun c h₁ h₂ => by
    simpa [h₁] using hleast c h₂
  obtain ⟨before, after, between, hbefore, hafter, rfl⟩ := hwalk.cut hfirst hlast.le
  have hends' : { s with anchor := a }.Ends last text := ⟨hends.free, hlast, hends.long, hends.known⟩
  have hafter' : { s with anchor := a }.Walk a between after last text := by
    refine Walk.congr ?_ ?_ hafter <;> rfl
  refine ⟨a, ha, ?_⟩
  -- before the first anchor either all squares hold letters or all are empty
  have hsame : (∀ c, first ≤ c → c < a → (s.row c).isSome = true) ∨
      ∀ c, first ≤ c → c < a → s.row c = none := by
    by_cases hstart : ∃ c, first ≤ c ∧ c < a ∧ s.row c = none
    · obtain ⟨c, h₁, h₂, hc⟩ := hstart
      right
      intro d h₃ h₄
      obtain hcd | hdc := Nat.le_total c d
      · induction d, hcd using Nat.le_induction with
        | base => exact hc
        | succ d hcd ih =>
          exact hquiet.nextFree d (by omega) (ih (by omega) (by omega)) (hno d (by omega) (by omega))
      · induction hdc using Nat.decreasingInduction with
        | self => exact hc
        | of_succ d hdc ih =>
          exact hquiet.prevFree d (by omega) (ih (by omega) (by omega))
            (hno (d + 1) (by omega) (by omega))
    · left
      intro c h₁ h₂
      rw [Option.isSome_iff_ne_none]
      exact fun hc => hstart ⟨c, h₁, h₂, hc⟩
  unfold FindsFrom
  dsimp only
  by_cases hletters : first < a ∧ ∀ c, first ≤ c → c < a → (s.row c).isSome = true
  · obtain ⟨hlt, hfull⟩ := hletters
    rw [wordStart_eq_of hfirst hfull hopens, if_pos hlt]
    have hfixed := (walk_letters_iff s first [] (n := a - first) fun c h₁ h₂ =>
      hfull c h₁ (by omega)).mp (by rwa [Nat.add_sub_cancel' hfirst])
    obtain ⟨rfl, rfl⟩ := hfixed
    exact ⟨after, last, text, hafter', hends', hpay, rfl⟩
  · have hfree : ∀ c, first ≤ c → c < a → s.row c = none := by
      obtain hfull | hfree := hsame
      · intro c h₁ h₂
        exact absurd ⟨by omega, hfull⟩ hletters
      · exact hfree
    have hstart : wordStart s.row a = a := by
      refine wordStart_eq_of le_rfl (fun c h₁ h₂ => absurd h₁ (by omega)) fun c hc => ?_
      by_cases hfc : first ≤ c
      · exact hfree c hfc (by omega)
      · exact hopens c (by omega)
    rw [hstart, if_neg (lt_irrefl a)]
    obtain ⟨more, hlen, rfl, rfl⟩ := (walk_free_iff s first [] _ (n := a - first) fun c h₁ h₂ =>
      have hc := hfree c h₁ (by omega)
      ⟨hc, hquiet.opened c (by omega) hc (hno c h₁ (by omega)), by omega⟩).mp
        (by rwa [Nat.add_sub_cancel' hfirst])
    -- one tile of the hand lies on the anchor
    have hone : 1 ≤ after.length := by
      cases hafter with
      | stop => omega
      | pass hrow' => exact absurd hrow' (by simp [hrow])
      | lay => simp
    have hmany := hfew _ hpay
    rw [List.map_append, map_kind_layFrom, List.length_append, List.length_map] at hmany
    have hlimit : more.length ≤ leftLimit s.row isAnchor a 0 := by
      have : 0 + more.length ≤ leftLimit s.row isAnchor a 0 :=
        le_leftLimit s.row isAnchor (by omega) (by omega) fun i h₁ h₂ =>
          ⟨hfree i (by omega) h₂, hno i (by omega) h₂⟩
      omega
    refine ⟨more, after, last, text, hlimit, hafter', hends', ?_, ?_⟩
    · rwa [List.map_append, map_kind_layFrom] at hpay
    · rw [List.nil_append, leftPlaced_eq]
      have : a - more.length = first := by omega
      simp only [this]
      rfl

end Searcher

/-! ## What a search finds -/

/-- The search from one anchor of a grid. -/
def searcherAt (grid : Letters) (allowed : ℕ → ℕ → Option (List Tile)) (rackCounts : Counts)
    (vocab : Vocabulary) (transposed : Bool) (a : ℕ × ℕ) : Searcher where
  vocab := vocab
  allowed := allowed a.1
  transposed := transposed
  row := grid a.1
  r := a.1
  anchor := a.2
  rackTypes := letters.filter fun t => 0 < rackCounts t

variable {grid : Letters} {allowed : ℕ → ℕ → Option (List Tile)} {rackCounts : Counts} {blanks : ℕ}
  {vocab : Vocabulary} {transposed : Bool} {anchorList : List (ℕ × ℕ)}

theorem gathers_search (hedge : ∀ r c, boardSize ≤ c → grid r c = none)
    (hanchors : ∀ a ∈ anchorList, a.2 < boardSize) :
    Gathers placementKey (search grid allowed anchorList rackCounts blanks vocab transposed) fun k =>
      ∃ a ∈ anchorList, (searcherAt grid allowed rackCounts vocab transposed a).FindsFrom
        (fun c => anchorList.contains (a.1, c)) rackCounts blanks k := by
  refine gathers_foldl fun a ha => ?_
  obtain ⟨r, anchor⟩ := a
  have hon := hanchors _ ha
  dsimp only
  unfold Searcher.FindsFrom
  dsimp only
  by_cases hstart : wordStart (grid r) anchor < anchor
  · simp only [searcherAt, hstart, if_true]
    have h := Searcher.gathers_extendRight
      (s := searcherAt grid allowed rackCounts vocab transposed (r, anchor)) (hedge r)
      (Nat.sub_le boardSize anchor)
      (Searcher.fixedText (grid r) (wordStart (grid r) anchor) (anchor - wordStart (grid r) anchor))
      rackCounts [] blanks
    rwa [Nat.sub_sub_self (show anchor ≤ boardSize from le_of_lt hon)] at h
  · simp only [searcherAt, hstart, if_false]
    exact Searcher.gathers_leftPart
      (s := searcherAt grid allowed rackCounts vocab transposed (r, anchor))
      (hedge r) hon _ [] rackCounts
      [] blanks

theorem mem_anchors {r c : ℕ} : (r, c) ∈ anchors grid false ↔
    (r < boardSize ∧ c < boardSize ∧ grid r c = none) ∧
      ((0 < r ∧ (grid (r - 1) c).isSome = true) ∨
        (r + 1 < boardSize ∧ (grid (r + 1) c).isSome = true) ∨
        (0 < c ∧ (grid r (c - 1)).isSome = true) ∨
        (c + 1 < boardSize ∧ (grid r (c + 1)).isSome = true)) := by
  simp only [anchors, Bool.false_eq_true, if_false, List.mem_flatMap, List.mem_range, List.mem_map,
    List.mem_filter, Prod.mk.injEq, Bool.and_eq_true, Bool.or_eq_true, decide_eq_true_eq,
    Option.isNone_iff_eq_none]
  constructor
  · rintro ⟨r', hr, c', ⟨hc, hfree, hnext⟩, rfl, rfl⟩
    exact ⟨⟨hr, hc, hfree⟩, by tauto⟩
  · rintro ⟨⟨hr, hc, hfree⟩, hnext⟩
    exact ⟨r, hr, c, ⟨hc, hfree, by tauto⟩, rfl, rfl⟩

theorem above_eq_nil {c r : ℕ} (h : ∀ r', r' + 1 = r → grid r' c = none) : above grid c r = [] := by
  cases r with
  | zero => rfl
  | succ r => simp only [above, h r rfl]

theorem below_eq_nil {c n r : ℕ} (h : 0 < n → grid r c = none) : below grid c n r = [] := by
  cases n with
  | zero => rfl
  | succ n => simp only [below, h (Nat.succ_pos n)]

/-- The empty squares that are no anchors have no letters around them. -/
theorem quiet_anchors {lex : Lexicon} {crossLetters : List Tile} {emptyBoard : Bool} {a : ℕ × ℕ}
    (hedge : ∀ r c, boardSize ≤ c → grid r c = none)
    (hempty : emptyBoard = true → ∀ r c, grid r c = none) (ha : a ∈ anchors grid emptyBoard) :
    (searcherAt grid (allowedLetters lex vocab crossLetters grid) rackCounts vocab transposed a).Quiet
      fun c => (anchors grid emptyBoard).contains (a.1, c) := by
  obtain ⟨r, anchor⟩ := a
  have hclosed {c : ℕ} (hup : ∀ r', r' + 1 = r → grid r' c = none)
      (hdown : r + 1 < boardSize → grid (r + 1) c = none) :
      allowedLetters lex vocab crossLetters grid r c = none := by
    have hbelow : below grid c (boardSize - (r + 1)) (r + 1) = [] :=
      below_eq_nil fun hpos => hdown (by omega)
    simp [allowedLetters, contexts, above_eq_nil hup, hbelow]
  cases emptyBoard with
  | true =>
    have hnone := hempty rfl
    refine ⟨hedge r, fun c hc => ⟨hnone r c, ?_⟩, fun c _ _ _ => hnone r _, fun c _ _ _ => hnone r c,
      fun c _ _ _ => hclosed (fun r' _ => hnone r' c) fun _ => hnone _ c⟩
    simp only [anchors, if_true, List.contains_eq_mem, List.mem_singleton, Prod.mk.injEq,
      decide_eq_true_eq] at hc
    rw [hc.2]
    decide
  | false =>
    obtain ⟨⟨hr, -, -⟩, -⟩ := mem_anchors.mp ha
    have hno {c : ℕ} (hc : c < boardSize) (hfree : grid r c = none)
        (h : (anchors grid false).contains (r, c) = false) :
        ¬((0 < r ∧ (grid (r - 1) c).isSome = true) ∨
          (r + 1 < boardSize ∧ (grid (r + 1) c).isSome = true) ∨
          (0 < c ∧ (grid r (c - 1)).isSome = true) ∨
          (c + 1 < boardSize ∧ (grid r (c + 1)).isSome = true)) := by
      intro hnext
      have hmem := mem_anchors.mpr ⟨⟨hr, hc, hfree⟩, hnext⟩
      rw [List.contains_eq_mem] at h
      simp [hmem] at h
    have hnone {x : Option Tile} (h : ¬x.isSome = true) : x = none := by simpa using h
    refine ⟨hedge r, fun c hc => ?_, fun c hc hfree h => ?_, fun c hc hfree h => ?_,
      fun c hc hfree h => ?_⟩
    · rw [List.contains_iff_mem] at hc
      obtain ⟨⟨-, hc', hfree⟩, -⟩ := mem_anchors.mp hc
      exact ⟨hfree, hc'⟩
    · have hquiet := hno hc hfree h
      by_cases hlt : c + 1 < boardSize
      · exact hnone fun hsome => hquiet (.inr (.inr (.inr ⟨hlt, hsome⟩)))
      · exact hedge r _ (by omega)
    · have hquiet := hno hc hfree h
      exact hnone fun hsome => hquiet (.inr (.inr (.inl ⟨Nat.succ_pos c, hsome⟩)))
    · have hquiet := hno hc hfree h
      refine hclosed (fun r' hr' => hnone fun hsome => hquiet (.inl ⟨by omega, ?_⟩)) fun hlt =>
        hnone fun hsome => hquiet (.inr (.inl ⟨hlt, hsome⟩))
      rwa [show r - 1 = r' by omega]

/-- **The search from all anchors** finds exactly the words through them. -/
theorem gathers_anchors {lex : Lexicon} {crossLetters : List Tile} {emptyBoard : Bool}
    (hedge : ∀ r c, boardSize ≤ c → grid r c = none)
    (hempty : emptyBoard = true → ∀ r c, grid r c = none)
    (hfew : ∀ tiles, Payable (letters.filter fun t => 0 < rackCounts t) rackCounts blanks tiles →
      tiles.length ≤ handSize) :
    Gathers placementKey
      (search grid (allowedLetters lex vocab crossLetters grid) (anchors grid emptyBoard) rackCounts
        blanks vocab transposed) fun k => ∃ a ∈ anchors grid emptyBoard,
      (searcherAt grid (allowedLetters lex vocab crossLetters grid) rackCounts vocab transposed
        a).FindsAcross rackCounts blanks k := by
  have hquiet : ∀ a ∈ anchors grid emptyBoard, (searcherAt grid
      (allowedLetters lex vocab crossLetters grid) rackCounts vocab transposed a).Quiet
      fun c => (anchors grid emptyBoard).contains (a.1, c) := fun a => quiet_anchors hedge hempty
  have hself {a : ℕ × ℕ} (ha : a ∈ anchors grid emptyBoard) :
      (anchors grid emptyBoard).contains (a.1, a.2) = true := List.contains_iff_mem.mpr ha
  refine (gathers_search hedge fun a ha => ((hquiet a ha).anchorFree a.2 (hself ha)).2).congr fun k =>
    ⟨?_, ?_⟩
  · rintro ⟨a, ha, h⟩
    exact ⟨a, ha, h.across (hquiet a ha) (hself ha)⟩
  · rintro ⟨a, ha, h⟩
    obtain ⟨c, hc, hfrom⟩ := h.exists_findsFrom (hquiet a ha) (hself ha) hfew
    exact ⟨(a.1, c), List.contains_iff_mem.mp hc, hfrom⟩

end Robot

end ScrabbleMagyar
