import ScrabbleMagyar.Foundations.Interrupt
import ScrabbleMagyar.Robot.Hints

/-!
# The search with a limit on its time

The search of `robot/ai.rs` as it runs: every call counts a tick, every 512th tick looks at the
clock, and when the time is up the search is left with what it has found. `generateMovesIn_starts`:
the moves found in time are the first ones of the full search, all of them if the time does not run
out.
-/

namespace ScrabbleMagyar

namespace Robot

open Interrupt

inductive OutOfTime
  | outOfTime

/-- A search that carries what it has found and the ticks counted, and may run out of time. -/
abbrev Timed := EStateM OutOfTime (Found × ℕ) Unit

/-- Count a tick; every 512th looks whether the time is up at it. -/
def tick (clock : ℕ → Bool) : Timed := fun s =>
  let ticks := s.2 + 1
  if ticks % 512 = 0 && clock ticks then .error .outOfTime (s.1, ticks) else .ok () (s.1, ticks)

/-- A part of the search that does not count. -/
def untimed (f : Found → Found) : Timed := modify fun s => (f s.1, s.2)

namespace Searcher

def tryRackIn (s : Searcher) (counts : Counts) (may : Tile → Bool) (grow : Tile → Timed) : Timed :=
  s.rackTypes.forM fun letter =>
    if counts letter = 0 || !may letter then pure () else grow letter

def tryBlankIn (freeBlanks : ℕ) (may : Tile → Bool) (grow : Tile → Timed) : Timed :=
  if freeBlanks = 0 then pure ()
  else letters.forM fun letter => if may letter then grow letter else pure ()

def extendRightIn (s : Searcher) (clock : ℕ → Bool) :
    ℕ → Word → Counts → List Laying → ℕ → Timed
  | 0, word, _, placed, _ => do
    tick clock
    untimed (s.recordWord boardSize word placed)
  | n + 1, word, counts, placed, freeBlanks => do
    tick clock
    let col := boardSize - (n + 1)
    match s.row col with
    | some existing =>
      if s.vocab.hasPrefix (word ++ existing.asStr) then
        extendRightIn s clock n (word ++ existing.asStr) counts placed freeBlanks
      else pure ()
    | none =>
      let may letter := s.allows col letter && s.vocab.hasPrefix (word ++ letter.asStr)
      untimed (s.recordWord col word placed)
      s.tryRackIn counts may fun letter =>
        extendRightIn s clock n (word ++ letter.asStr) (counts.take letter)
          (placed ++ [⟨col, letter, false⟩]) freeBlanks
      tryBlankIn freeBlanks may fun letter =>
        extendRightIn s clock n (word ++ letter.asStr) counts (placed ++ [⟨col, letter, true⟩])
          (freeBlanks - 1)

def leftPartIn (s : Searcher) (clock : ℕ → Bool) :
    ℕ → Word → Counts → List (Tile × Bool) → ℕ → Timed
  | 0, word, counts, left, freeBlanks => do
    tick clock
    s.extendRightIn clock (boardSize - s.anchor) word counts (s.leftPlaced left) freeBlanks
  | n + 1, word, counts, left, freeBlanks => do
    tick clock
    s.extendRightIn clock (boardSize - s.anchor) word counts (s.leftPlaced left) freeBlanks
    let may letter := s.vocab.hasPrefix (word ++ letter.asStr)
    s.tryRackIn counts may fun letter =>
      leftPartIn s clock n (word ++ letter.asStr) (counts.take letter) (left ++ [(letter, false)])
        freeBlanks
    tryBlankIn freeBlanks may fun letter =>
      leftPartIn s clock n (word ++ letter.asStr) counts (left ++ [(letter, true)]) (freeBlanks - 1)

end Searcher

/-- The search of the rows of a grid, in time. -/
def searchIn (clock : ℕ → Bool) (grid : Letters) (allowed : ℕ → ℕ → Option (List Tile))
    (anchorList : List (ℕ × ℕ)) (rackCounts : Counts) (blanks : ℕ) (vocab : Vocabulary)
    (transposed : Bool) : Timed :=
  let rackTypes := letters.filter fun t => 0 < rackCounts t
  anchorList.forM fun (r, anchor) =>
    let s : Searcher :=
      { vocab, allowed := allowed r, transposed, row := grid r, r, anchor, rackTypes }
    let start := wordStart s.row anchor
    if start < anchor then
      let fixed := (List.range' start (anchor - start)).flatMap fun c =>
        ((s.row c).map Tile.asStr).getD []
      s.extendRightIn clock (boardSize - anchor) fixed rackCounts [] blanks
    else
      let limit := leftLimit s.row (fun c => anchorList.contains (r, c)) anchor 0
      s.leftPartIn clock limit [] rackCounts [] blanks

/-- What is found when the search ends or the time is up. -/
def findPlacementsIn (clock : ℕ → Bool) (lex : Lexicon) (vocab : Vocabulary) (board : Board)
    (rackCounts : Counts) (blanks : ℕ) : Found :=
  let grid := Letters.ofBoard board
  let crossLetters := if 0 < blanks then letters else letters.filter fun t => 0 < rackCounts t
  let program : Timed := do
    searchIn clock grid (allowedLetters lex vocab crossLetters grid) (anchors grid board.isEmpty)
      rackCounts blanks vocab false
    if board.isEmpty then pure ()
    else
      searchIn clock grid.transposed (allowedLetters lex vocab crossLetters grid.transposed)
        (anchors grid.transposed false) rackCounts blanks vocab true
  match program ([], 0) with
  | .ok _ (found, _) => found
  | .error _ (found, _) => found

/-- `generate_moves` with a clock. -/
def generateMovesIn (clock : ℕ → Bool) (lex : Lexicon) (vocab : Vocabulary) (board : Board)
    (rack : List Tile) (allowBlanks : Bool) (maxTiles : ℕ) : List Move :=
  let counts := rackCounts rack
  let blanks := rackBlanks rack allowBlanks
  if (letters.all fun t => counts t = 0) && blanks = 0 then []
  else
    ((findPlacementsIn clock lex vocab board counts blanks).filter fun tiles =>
      tiles.length ≤ maxTiles).filterMap (scored lex board)

/-! ## What is found in time -/

/-- The time never runs out. -/
def Ample (clock : ℕ → Bool) : Prop := ∀ ticks, clock ticks = false

variable {clock : ℕ → Bool}

theorem interrupts_tick (clock : ℕ → Bool) : Interrupts (Ample clock) id (tick clock) := by
  refine interrupts_aside (fun s r h => ?_) (fun s e r h => ?_) fun hample s => ⟨s.2 + 1, ?_⟩
  · unfold tick at h
    dsimp only at h
    split at h <;> cases h
    rfl
  · unfold tick at h
    dsimp only at h
    split at h <;> cases h
    rfl
  · simp [tick, hample s.2.succ]

namespace Searcher

variable {s : Searcher} {freeBlanks : ℕ} {may : Tile → Bool} {grow : Tile → Found → Found}
  {growIn : Tile → Timed}

theorem interrupts_recordWord (clock : ℕ → Bool) (s : Searcher) (col : ℕ) (word : Word)
    (placed : List Laying) :
    Interrupts (Ample clock) (s.recordWord col word placed) (untimed (s.recordWord col word placed)) :=
  interrupts_modify (s.gathers_recordWord col word placed).grows

theorem interrupts_tryRack (counts : Counts)
    (h : ∀ letter, Interrupts (Ample clock) (grow letter) (growIn letter)) :
    Interrupts (Ample clock) (s.tryRack counts may grow) (s.tryRackIn counts may growIn) :=
  interrupts_forM fun letter _ => Interrupts.ite (fun _ => interrupts_pure) fun _ => h letter

theorem interrupts_tryBlank
    (h : ∀ letter, Interrupts (Ample clock) (grow letter) (growIn letter)) :
    Interrupts (Ample clock) (tryBlank freeBlanks may grow) (tryBlankIn freeBlanks may growIn) := by
  have hall : Interrupts (Ample clock)
      (fun found => letters.foldl (fun found letter =>
        if may letter then grow letter found else found) found)
      (letters.forM fun letter => if may letter then growIn letter else pure ()) :=
    interrupts_forM fun letter _ => Interrupts.ite (fun _ => h letter) fun _ => interrupts_pure
  exact Interrupts.ite (fun _ => interrupts_pure) fun _ => hall

theorem interrupts_extendRight (clock : ℕ → Bool) (s : Searcher) (n : ℕ) (word : Word)
    (counts : Counts) (placed : List Laying) (freeBlanks : ℕ) :
    Interrupts (Ample clock) (s.extendRight n word counts placed freeBlanks)
      (s.extendRightIn clock n word counts placed freeBlanks) := by
  induction n generalizing word counts placed freeBlanks with
  | zero => exact (interrupts_tick clock).bind (interrupts_recordWord clock s _ _ _)
  | succ n ih =>
    let col := boardSize - (n + 1)
    cases hrow : s.row col with
    | some existing =>
      have hplain : s.extendRight (n + 1) word counts placed freeBlanks = fun found =>
          if s.vocab.hasPrefix (word ++ existing.asStr) then
            s.extendRight n (word ++ existing.asStr) counts placed freeBlanks found
          else found := by
        funext found
        simp only [extendRight, col, hrow]
      have hin : s.extendRightIn clock (n + 1) word counts placed freeBlanks = (do
          tick clock
          if s.vocab.hasPrefix (word ++ existing.asStr) then
            s.extendRightIn clock n (word ++ existing.asStr) counts placed freeBlanks
          else pure ()) := by
        simp only [extendRightIn, col, hrow]
      rw [hplain, hin]
      exact (interrupts_tick clock).bind
        (Interrupts.ite (fun _ => ih _ _ _ _) fun _ => interrupts_pure)
    | none =>
      let may (letter : Tile) := s.allows col letter && s.vocab.hasPrefix (word ++ letter.asStr)
      have hplain : s.extendRight (n + 1) word counts placed freeBlanks = fun found =>
          tryBlank freeBlanks may
            (fun letter => s.extendRight n (word ++ letter.asStr) counts
              (placed ++ [⟨col, letter, true⟩]) (freeBlanks - 1))
            (s.tryRack counts may
              (fun letter => s.extendRight n (word ++ letter.asStr) (counts.take letter)
                (placed ++ [⟨col, letter, false⟩]) freeBlanks)
              (s.recordWord col word placed found)) := by
        funext found
        simp only [extendRight, col, may, hrow]
      have hin : s.extendRightIn clock (n + 1) word counts placed freeBlanks = (do
          tick clock
          untimed (s.recordWord col word placed)
          s.tryRackIn counts may fun letter =>
            s.extendRightIn clock n (word ++ letter.asStr) (counts.take letter)
              (placed ++ [⟨col, letter, false⟩]) freeBlanks
          tryBlankIn freeBlanks may fun letter =>
            s.extendRightIn clock n (word ++ letter.asStr) counts
              (placed ++ [⟨col, letter, true⟩]) (freeBlanks - 1)) := by
        simp only [extendRightIn, col, may, hrow]
      rw [hplain, hin]
      exact (interrupts_tick clock).bind ((interrupts_recordWord clock s col word placed).bind
        ((interrupts_tryRack counts fun letter => ih _ _ _ _).bind
          (interrupts_tryBlank fun letter => ih _ _ _ _)))

theorem interrupts_leftPart (clock : ℕ → Bool) (s : Searcher) (n : ℕ) (word : Word)
    (counts : Counts) (left : List (Tile × Bool)) (freeBlanks : ℕ) :
    Interrupts (Ample clock) (s.leftPart n word counts left freeBlanks)
      (s.leftPartIn clock n word counts left freeBlanks) := by
  have hright (word : Word) (counts : Counts) (left : List (Tile × Bool)) (freeBlanks : ℕ) :=
    interrupts_extendRight clock s (boardSize - s.anchor) word counts (s.leftPlaced left) freeBlanks
  induction n generalizing word counts left freeBlanks with
  | zero => exact (interrupts_tick clock).bind (hright word counts left freeBlanks)
  | succ n ih =>
    exact (interrupts_tick clock).bind ((hright word counts left freeBlanks).bind
      ((interrupts_tryRack counts fun letter => ih _ _ _ _).bind
        (interrupts_tryBlank fun letter => ih _ _ _ _)))

end Searcher

theorem interrupts_search (clock : ℕ → Bool) (grid : Letters)
    (allowed : ℕ → ℕ → Option (List Tile)) (anchorList : List (ℕ × ℕ)) (rackCounts : Counts)
    (blanks : ℕ) (vocab : Vocabulary) (transposed : Bool) :
    Interrupts (Ample clock) (search grid allowed anchorList rackCounts blanks vocab transposed)
      (searchIn clock grid allowed anchorList rackCounts blanks vocab transposed) := by
  refine interrupts_forM fun a _ => ?_
  obtain ⟨r, anchor⟩ := a
  exact Interrupts.ite (fun _ => Searcher.interrupts_extendRight clock _ _ _ _ _ _)
    fun _ => Searcher.interrupts_leftPart clock _ _ _ _ _ _

variable {lex : Lexicon} {vocab : Vocabulary} {board : Board}

/-- **What is found in time** is the first part of what the full search finds. -/
theorem findPlacementsIn_starts (clock : ℕ → Bool) (lex : Lexicon) (vocab : Vocabulary)
    (board : Board) (rackCounts : Counts) (blanks : ℕ) :
    findPlacementsIn clock lex vocab board rackCounts blanks <+:
        findPlacements lex vocab board rackCounts blanks ∧
      (Ample clock → findPlacementsIn clock lex vocab board rackCounts blanks =
        findPlacements lex vocab board rackCounts blanks) := by
  let grid := Letters.ofBoard board
  let crossLetters := if 0 < blanks then letters else letters.filter fun t => 0 < rackCounts t
  have hacross := interrupts_search clock grid (allowedLetters lex vocab crossLetters grid)
    (anchors grid board.isEmpty) rackCounts blanks vocab false
  have hdown := interrupts_search clock grid.transposed
    (allowedLetters lex vocab crossLetters grid.transposed) (anchors grid.transposed false) rackCounts
    blanks vocab true
  have hboth : Interrupts (Ample clock) (fun found =>
      if board.isEmpty then found
      else search grid.transposed (allowedLetters lex vocab crossLetters grid.transposed)
        (anchors grid.transposed false) rackCounts blanks vocab true found)
      (if board.isEmpty then pure ()
      else searchIn clock grid.transposed (allowedLetters lex vocab crossLetters grid.transposed)
        (anchors grid.transposed false) rackCounts blanks vocab true) :=
    Interrupts.ite (fun _ => interrupts_pure) fun _ => hdown
  have h := hacross.bind hboth
  constructor
  · have hkept := h.kept [] 0
    unfold findPlacementsIn
    dsimp only
    split at hkept
    · rename_i r hr
      rw [hr]
      exact (show r.1 = findPlacements lex vocab board rackCounts blanks from hkept) ▸
        List.prefix_rfl
    · rename_i e r hr
      rw [hr]
      exact hkept.2
  · intro hample
    obtain ⟨ticks, hticks⟩ := h.ends hample [] 0
    unfold findPlacementsIn
    dsimp only
    rw [hticks]
    rfl

/-- **The moves found in time** are the first moves of the full search, and all of them if the time
does not run out. -/
theorem generateMovesIn_starts (clock : ℕ → Bool) (lex : Lexicon) (vocab : Vocabulary)
    (board : Board) (rack : List Tile) (allowBlanks : Bool) (maxTiles : ℕ) :
    generateMovesIn clock lex vocab board rack allowBlanks maxTiles <+:
        generateMoves lex vocab board rack allowBlanks maxTiles ∧
      (Ample clock → generateMovesIn clock lex vocab board rack allowBlanks maxTiles =
        generateMoves lex vocab board rack allowBlanks maxTiles) := by
  obtain ⟨hstarts, hample⟩ := findPlacementsIn_starts clock lex vocab board (rackCounts rack)
    (rackBlanks rack allowBlanks)
  unfold generateMovesIn generateMoves
  dsimp only
  split
  · exact ⟨List.prefix_rfl, fun _ => rfl⟩
  · refine ⟨(hstarts.filter _).filterMap _, fun h => ?_⟩
    rw [hample h]

end Robot

end ScrabbleMagyar
