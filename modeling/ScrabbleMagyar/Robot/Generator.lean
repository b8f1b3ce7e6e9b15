import ScrabbleMagyar.Engine.Coherence
import ScrabbleMagyar.Engine.Placement
import ScrabbleMagyar.Robot.Move
import ScrabbleMagyar.Robot.Vocabulary

/-!
# The search for placements

How a robot, and the analysis of a game, find the placements of a hand (`robot/ai.rs`). From every
anchor square a word of the vocabulary is grown tile by tile, first to the left and then to the
right; what is found is laid on the board by the rules of the game and put in order of its score.
The limit on the time of a search is not part of the model.

* `fits_of_mem_bestMoves`: the moves found are held by the hand, fit the board and are accepted by
  the dictionary.
-/

namespace ScrabbleMagyar

namespace Robot

/-! ## The squares around a word -/

/-- The letters on the squares, by row and column. -/
abbrev Letters := ℕ → ℕ → Option Tile

def Letters.ofBoard (board : Board) : Letters := fun r c => (board.cell r c).map Cell.letter

def Letters.transposed (grid : Letters) : Letters := fun r c => grid c r

/-- The text that ends above the row `r`, from the top. -/
def above (grid : Letters) (c : ℕ) : ℕ → Word
  | 0 => []
  | r + 1 => match grid r c with
    | some letter => above grid c r ++ letter.asStr
    | none => []

/-- The text that begins in a row, at most as many letters of it. -/
def below (grid : Letters) (c : ℕ) : ℕ → ℕ → Word
  | 0, _ => []
  | n + 1, r => match grid r c with
    | some letter => letter.asStr ++ below grid c n (r + 1)
    | none => []

/-- What stands above and below an empty square, if anything does. -/
def contexts (grid : Letters) (r c : ℕ) : Option (Word × Word) :=
  if (grid r c).isSome then none
  else
    let up := above grid c r
    let down := below grid c (boardSize - (r + 1)) (r + 1)
    if up.isEmpty && down.isEmpty then none else some (up, down)

/-- The letters that make a valid word across, on the squares that have one. What the vocabulary
does not know goes to the dictionary. -/
def allowedLetters (lex : Lexicon) (vocab : Vocabulary) (letters : List Tile) (grid : Letters)
    (r c : ℕ) : Option (List Tile) :=
  (contexts grid r c).map fun (up, down) => letters.filter fun letter =>
    let word := up ++ letter.asStr ++ down
    vocab.contains word || lex.accepts word

/-- The empty squares next to a letter; on an empty board the centre. -/
def anchors (grid : Letters) (emptyBoard : Bool) : List (ℕ × ℕ) :=
  if emptyBoard then [(center, center)]
  else (List.range boardSize).flatMap fun r =>
    ((List.range boardSize).filter fun c => (grid r c).isNone &&
      ((decide (0 < r) && (grid (r - 1) c).isSome) ||
        (decide (r + 1 < boardSize) && (grid (r + 1) c).isSome) ||
        (decide (0 < c) && (grid r (c - 1)).isSome) ||
        (decide (c + 1 < boardSize) && (grid r (c + 1)).isSome))).map fun c => (r, c)

/-! ## The search in a row -/

/-- A tile laid in a column of the row that is searched. -/
structure Laying where
  col : ℕ
  letter : Tile
  isBlank : Bool

def Laying.tile (l : Laying) : Tile := if l.isBlank then Tile.blank else l.letter

/-- The search from one anchor of a row. -/
structure Searcher where
  vocab : Vocabulary
  allowed : ℕ → Option (List Tile)
  transposed : Bool
  row : ℕ → Option Tile
  r : ℕ
  anchor : ℕ
  rackTypes : List Tile

/-- The placements found, each set of tiles once. -/
abbrev Found := List (List Placed)

/-- How many of each letter are left in the hand. -/
abbrev Counts := Tile → ℕ

def Counts.take (counts : Counts) (letter : Tile) : Counts :=
  Function.update counts letter (counts letter - 1)

namespace Searcher

def placed (s : Searcher) (l : Laying) : Placed :=
  if s.transposed then ⟨l.col, s.r, l.letter, l.isBlank⟩ else ⟨s.r, l.col, l.letter, l.isBlank⟩

def record (s : Searcher) (placed : List Laying) (found : Found) : Found :=
  let tiles := placed.map s.placed
  if found.any fun t => placementKey t = placementKey tiles then found else found ++ [tiles]

/-- Record what is laid when the word that ends before the column is a word of the vocabulary. -/
def recordWord (s : Searcher) (col : ℕ) (word : Word) (placed : List Laying) (found : Found) :
    Found :=
  if s.anchor < col && decide (2 ≤ word.length) && s.vocab.contains word then s.record placed found
  else found

def allows (s : Searcher) (col : ℕ) (letter : Tile) : Bool :=
  (s.allowed col).all fun mask => mask.contains letter

/-- Try the letters of the hand that may come next. -/
def tryRack (s : Searcher) (counts : Counts) (may : Tile → Bool) (grow : Tile → Found → Found)
    (found : Found) : Found :=
  s.rackTypes.foldl (fun found letter =>
    if counts letter = 0 || !may letter then found else grow letter found) found

/-- Try a blank, if one is left, as every letter that may come next. -/
def tryBlank (freeBlanks : ℕ) (may : Tile → Bool) (grow : Tile → Found → Found) (found : Found) :
    Found :=
  if freeBlanks = 0 then found
  else letters.foldl (fun found letter => if may letter then grow letter found else found) found

/-- Grow the word to the right, over the last `n` columns of the row. -/
def extendRight (s : Searcher) : ℕ → Word → Counts → List Laying → ℕ → Found → Found
  | 0, word, _, placed, _, found => s.recordWord boardSize word placed found
  | n + 1, word, counts, placed, freeBlanks, found =>
    let col := boardSize - (n + 1)
    match s.row col with
    | some existing =>
      if s.vocab.hasPrefix (word ++ existing.asStr) then
        extendRight s n (word ++ existing.asStr) counts placed freeBlanks found
      else found
    | none =>
      let may letter := s.allows col letter && s.vocab.hasPrefix (word ++ letter.asStr)
      tryBlank freeBlanks may
        (fun letter => extendRight s n (word ++ letter.asStr) counts (placed ++ [⟨col, letter, true⟩])
          (freeBlanks - 1))
        (s.tryRack counts may
          (fun letter => extendRight s n (word ++ letter.asStr) (counts.take letter)
            (placed ++ [⟨col, letter, false⟩]) freeBlanks)
          (s.recordWord col word placed found))

/-- The tiles laid to the left of the anchor, in their columns. -/
def leftPlaced (s : Searcher) (left : List (Tile × Bool)) : List Laying :=
  left.zipIdx.map fun (t, i) => ⟨s.anchor - left.length + i, t.1, t.2⟩

/-- Grow the word from the left of the anchor, by at most `n` more tiles. -/
def leftPart (s : Searcher) : ℕ → Word → Counts → List (Tile × Bool) → ℕ → Found → Found
  | 0, word, counts, left, freeBlanks, found =>
    s.extendRight (boardSize - s.anchor) word counts (s.leftPlaced left) freeBlanks found
  | n + 1, word, counts, left, freeBlanks, found =>
    let may letter := s.vocab.hasPrefix (word ++ letter.asStr)
    tryBlank freeBlanks may
      (fun letter => leftPart s n (word ++ letter.asStr) counts (left ++ [(letter, true)])
        (freeBlanks - 1))
      (s.tryRack counts may
        (fun letter => leftPart s n (word ++ letter.asStr) (counts.take letter)
          (left ++ [(letter, false)]) freeBlanks)
        (s.extendRight (boardSize - s.anchor) word counts (s.leftPlaced left) freeBlanks found))

end Searcher

/-- The first of the columns whose letters end before a column. -/
def wordStart (row : ℕ → Option Tile) : ℕ → ℕ
  | 0 => 0
  | c + 1 => if (row c).isSome then wordStart row c else c + 1

/-- How many tiles may stand to the left of a column: as many as there are empty squares that are
no anchors, but one of the hand stays for the anchor. -/
def leftLimit (row : ℕ → Option Tile) (isAnchor : ℕ → Bool) : ℕ → ℕ → ℕ
  | 0, limit => limit
  | c + 1, limit =>
    if (row c).isNone && !isAnchor c && decide (limit < handSize - 1) then
      leftLimit row isAnchor c (limit + 1)
    else limit

/-- Search the rows of a grid from its anchors. -/
def search (grid : Letters) (allowed : ℕ → ℕ → Option (List Tile)) (anchorList : List (ℕ × ℕ))
    (rackCounts : Counts) (blanks : ℕ) (vocab : Vocabulary) (transposed : Bool) (found : Found) :
    Found :=
  let rackTypes := letters.filter fun t => 0 < rackCounts t
  anchorList.foldl (fun found (r, anchor) =>
    let s : Searcher :=
      { vocab, allowed := allowed r, transposed, row := grid r, r, anchor, rackTypes }
    let start := wordStart s.row anchor
    if start < anchor then
      let fixed := (List.range' start (anchor - start)).flatMap fun c =>
        ((s.row c).map Tile.asStr).getD []
      s.extendRight (boardSize - anchor) fixed rackCounts [] blanks found
    else
      let limit := leftLimit s.row (fun c => anchorList.contains (r, c)) anchor 0
      s.leftPart limit [] rackCounts [] blanks found) found

/-! ## The moves -/

/-- All placements of the words of the vocabulary with the tiles of a hand. -/
def findPlacements (lex : Lexicon) (vocab : Vocabulary) (board : Board) (rackCounts : Counts)
    (blanks : ℕ) : Found :=
  let grid := Letters.ofBoard board
  let crossLetters := if 0 < blanks then letters else letters.filter fun t => 0 < rackCounts t
  let found := search grid (allowedLetters lex vocab crossLetters grid)
    (anchors grid board.isEmpty) rackCounts blanks vocab false []
  if board.isEmpty then found
  else search grid.transposed (allowedLetters lex vocab crossLetters grid.transposed)
    (anchors grid.transposed false) rackCounts blanks vocab true found

/-- A placement with its words and its score by the rules of the board; the words are not looked
up. -/
def scored (lex : Lexicon) (board : Board) (tiles : List Placed) : Option Move :=
  match board.validatePlacement lex tiles true with
  | .error _ => none
  | .ok formed =>
    let score := (formed.map fun w => (w.score : ℤ)).sum +
      if tiles.length = handSize then bonusAllTiles else 0
    some ⟨tiles, formed.map FormedWord.word, score⟩

def rackCounts (rack : List Tile) : Counts := fun t => if t = Tile.blank then 0 else rack.count t

def rackBlanks (rack : List Tile) (allowBlanks : Bool) : ℕ :=
  if allowBlanks then rack.count Tile.blank else 0

def generateMoves (lex : Lexicon) (vocab : Vocabulary) (board : Board) (rack : List Tile)
    (allowBlanks : Bool) (maxTiles : ℕ) : List Move :=
  let counts := rackCounts rack
  let blanks := rackBlanks rack allowBlanks
  if (letters.all fun t => counts t = 0) && blanks = 0 then []
  else
    ((findPlacements lex vocab board counts blanks).filter fun tiles =>
      tiles.length ≤ maxTiles).filterMap (scored lex board)

def batch : ℕ := 8

/-- A list in pieces of the size, the last of which may be shorter. -/
def chunks {α : Type*} (size : ℕ) (l : List α) : List (List α) :=
  (List.range ((l.length + size - 1) / size)).map fun k => (l.drop (size * k)).take size

/-- The first so many of the moves whose words are all valid. The words of a batch are looked up
together. -/
def firstValid (lex : Lexicon) (candidates : List Move) (wanted : ℕ) : List Move :=
  (chunks batch candidates).foldl (fun chosen chunk =>
    if wanted ≤ chosen.length then chosen
    else
      let valid := lex.filterValid (chunk.flatMap Move.words)
      chunk.foldl (fun chosen m =>
        if chosen.length < wanted ∧ m.words.all valid.contains then chosen ++ [m] else chosen)
        chosen) []

/-- The moves with the highest scores that the dictionary accepts. -/
def bestMoves (lex : Lexicon) (vocab : Vocabulary) (board : Board) (rack : List Tile)
    (count : ℕ) : List Move :=
  let moves := generateMoves lex vocab board rack true handSize
  firstValid lex (moves.insertionSort fun m m' => m'.score ≤ m.score) count

/-! ## The tiles of the hand -/

/-- The tiles taken and those left to take are those of the hand. -/
def Affords (rack : List Tile) (counts : Counts) (freeBlanks : ℕ) (taken : List Tile) : Prop :=
  ∀ t, taken.count t + (if t = Tile.blank then freeBlanks else counts t) ≤ rack.count t

variable {rack : List Tile} {counts : Counts} {freeBlanks : ℕ} {taken : List Tile}

theorem Affords.subperm (h : Affords rack counts freeBlanks taken) : taken.Subperm rack :=
  List.subperm_ext_iff.mpr fun t _ => (Nat.le_add_right _ _).trans (h t)

theorem Affords.letter (h : Affords rack counts freeBlanks taken) {letter : Tile}
    (hletter : letter ≠ Tile.blank) (hleft : counts letter ≠ 0) :
    Affords rack (counts.take letter) freeBlanks (taken ++ [letter]) := by
  intro t
  have ht := h t
  rw [List.count_append, List.count_singleton]
  by_cases hblank : t = Tile.blank
  · subst hblank
    simpa [hletter] using ht
  rw [if_neg hblank] at ht ⊢
  by_cases hsame : t = letter
  · subst hsame
    simp only [Counts.take, Function.update_self, beq_self_eq_true, if_true]
    omega
  · rw [Counts.take, Function.update_of_ne hsame]
    simpa [Ne.symm hsame] using ht

theorem Affords.blank (h : Affords rack counts freeBlanks taken) (hfree : freeBlanks ≠ 0) :
    Affords rack counts (freeBlanks - 1) (taken ++ [Tile.blank]) := by
  intro t
  have ht := h t
  rw [List.count_append, List.count_singleton]
  by_cases hblank : t = Tile.blank
  · subst hblank
    simp only [if_true, beq_self_eq_true] at ht ⊢
    omega
  · rw [if_neg hblank] at ht ⊢
    simpa [Ne.symm hblank] using ht

/-- Before anything is taken the whole hand is left. -/
theorem affords_nil (rack : List Tile) (allowBlanks : Bool) :
    Affords rack (rackCounts rack) (rackBlanks rack allowBlanks) [] := by
  intro t
  rw [List.count_nil, Nat.zero_add, rackCounts]
  by_cases hblank : t = Tile.blank
  · subst hblank
    rw [if_pos rfl, rackBlanks]
    split
    · exact le_rfl
    · exact Nat.zero_le _
  · rw [if_neg hblank, if_neg hblank]

/-- The tiles of a placement are in the hand. -/
def Held (rack : List Tile) (tiles : List Placed) : Prop :=
  (tiles.map Placed.handTile).Subperm rack

theorem Held.perm {rack' : List Tile} {tiles : List Placed} (h : Held rack tiles)
    (hperm : rack.Perm rack') : Held rack' tiles :=
  h.trans hperm.subperm

theorem Held.validateHand {tiles : List Placed} (h : Held rack tiles) :
    Game.validateHand rack tiles = .ok () := by
  induction tiles generalizing rack with
  | nil => rfl
  | cons p tiles ih =>
    rw [Held, List.map_cons] at h
    have hmem : p.handTile ∈ rack := h.subset List.mem_cons_self
    have hrest : Held (rack.erase p.handTile) tiles := by
      simpa [Held] using h.erase p.handTile
    simp only [Game.validateHand, if_pos hmem]
    exact ih hrest

/-! ## What a search finds -/

namespace Searcher

variable {s : Searcher} {found : Found}

/-- Only letters are tried from the rack, and what is found is in the hand. -/
structure Honest (rack : List Tile) (s : Searcher) (found : Found) : Prop where
  types : ∀ t ∈ s.rackTypes, t ≠ Tile.blank
  held : ∀ tiles ∈ found, Held rack tiles

theorem handTile_placed (l : Laying) : (s.placed l).handTile = l.tile := by
  unfold placed
  split <;> rfl

theorem Honest.record (h : Honest rack s found) {placed : List Laying}
    (ha : Affords rack counts freeBlanks (placed.map Laying.tile)) :
    Honest rack s (s.record placed found) := by
  refine ⟨h.types, fun tiles htiles => ?_⟩
  unfold Searcher.record at htiles
  dsimp only at htiles
  split at htiles
  · exact h.held tiles htiles
  rcases List.mem_append.mp htiles with hold | hnew
  · exact h.held tiles hold
  · rw [List.mem_singleton.mp hnew, Held, List.map_map]
    have htile : Placed.handTile ∘ s.placed = Laying.tile := funext fun l => handTile_placed l
    rw [htile]
    exact ha.subperm

theorem Honest.recordWord (h : Honest rack s found) (col : ℕ) (word : Word) {placed : List Laying}
    (ha : Affords rack counts freeBlanks (placed.map Laying.tile)) :
    Honest rack s (s.recordWord col word placed found) := by
  unfold Searcher.recordWord
  split
  · exact h.record ha
  · exact h

theorem Honest.tryRack {may : Tile → Bool} {grow : Tile → Found → Found}
    (hgrow : ∀ letter, letter ≠ Tile.blank → counts letter ≠ 0 → ∀ found, Honest rack s found →
      Honest rack s (grow letter found)) (h : Honest rack s found) :
    Honest rack s (s.tryRack counts may grow found) := by
  unfold Searcher.tryRack
  refine List.foldlRecOn s.rackTypes _ h fun found hfound letter hletter => ?_
  split
  · exact hfound
  · rename_i htry
    have hleft : counts letter ≠ 0 := fun hzero => htry (by simp [hzero])
    exact hgrow letter (h.types letter hletter) hleft found hfound

theorem Honest.tryBlank {may : Tile → Bool} {grow : Tile → Found → Found}
    (hgrow : ∀ letter, freeBlanks ≠ 0 → ∀ found, Honest rack s found →
      Honest rack s (grow letter found)) (h : Honest rack s found) :
    Honest rack s (tryBlank freeBlanks may grow found) := by
  unfold Searcher.tryBlank
  split
  · exact h
  rename_i hfree
  refine List.foldlRecOn letters _ h fun found hfound letter _ => ?_
  split
  · exact hgrow letter hfree found hfound
  · exact hfound

/-- **The search to the right** takes no more than the hand holds. -/
theorem Honest.extendRight {n : ℕ} {word : Word} {placed : List Laying} (h : Honest rack s found)
    (ha : Affords rack counts freeBlanks (placed.map Laying.tile)) :
    Honest rack s (s.extendRight n word counts placed freeBlanks found) := by
  induction n generalizing word counts placed freeBlanks found with
  | zero => exact h.recordWord _ _ ha
  | succ n ih =>
    unfold Searcher.extendRight
    dsimp only
    split
    · split
      · exact ih h ha
      · exact h
    refine Honest.tryBlank (fun letter hfree found hfound => ih hfound ?_)
      (Honest.tryRack (fun letter hletter hleft found hfound => ih hfound ?_)
        (h.recordWord _ word ha)) <;>
      rw [List.map_append]
    · exact ha.blank hfree
    · exact ha.letter hletter hleft

/-- The tiles to the left of the anchor. -/
def leftTiles (left : List (Tile × Bool)) : List Tile :=
  left.map fun t => if t.2 then Tile.blank else t.1

theorem map_tile_leftPlaced (left : List (Tile × Bool)) :
    (s.leftPlaced left).map Laying.tile = leftTiles left := by
  rw [leftPlaced, List.map_map, leftTiles]
  conv_rhs => rw [← List.zipIdx_map_fst 0 left, List.map_map]
  rfl

/-- **The search to the left** takes no more than the hand holds. -/
theorem Honest.leftPart {n : ℕ} {word : Word} {left : List (Tile × Bool)} (h : Honest rack s found)
    (ha : Affords rack counts freeBlanks (leftTiles left)) :
    Honest rack s (s.leftPart n word counts left freeBlanks found) := by
  induction n generalizing word counts left freeBlanks found with
  | zero => exact h.extendRight (map_tile_leftPlaced (s := s) left ▸ ha)
  | succ n ih =>
    have hright : Honest rack s (s.extendRight (boardSize - s.anchor) word counts (s.leftPlaced left)
        freeBlanks found) :=
      h.extendRight (map_tile_leftPlaced (s := s) left ▸ ha)
    unfold Searcher.leftPart
    refine Honest.tryBlank (fun letter hfree found hfound => ih hfound ?_)
      (Honest.tryRack (fun letter hletter hleft found hfound => ih hfound ?_) hright) <;>
      rw [leftTiles, List.map_append]
    · exact ha.blank hfree
    · exact ha.letter hletter hleft

end Searcher

theorem ne_blank_of_mem_letters {t : Tile} (h : t ∈ letters) : t ≠ Tile.blank := by
  simpa [letters] using h

/-- A search adds only what the hand holds. -/
theorem held_of_search {grid : Letters} {allowed : ℕ → ℕ → Option (List Tile)}
    {anchorList : List (ℕ × ℕ)} {vocab : Vocabulary} {transposed : Bool} {found : Found}
    (ha : Affords rack counts freeBlanks []) (h : ∀ tiles ∈ found, Held rack tiles) :
    ∀ tiles ∈ search grid allowed anchorList counts freeBlanks vocab transposed found,
      Held rack tiles := by
  unfold search
  dsimp only
  refine List.foldlRecOn (motive := fun found => ∀ tiles ∈ found, Held rack tiles) anchorList _ h
    fun found hfound anchor _ => ?_
  have hhonest : Searcher.Honest rack
      { vocab, allowed := allowed anchor.1, transposed, row := grid anchor.1, r := anchor.1
        anchor := anchor.2, rackTypes := letters.filter fun t => 0 < counts t } found :=
    ⟨fun t ht => ne_blank_of_mem_letters (List.mem_filter.mp ht).1, hfound⟩
  split
  · exact (hhonest.extendRight ha).held
  · exact (hhonest.leftPart ha).held

theorem held_of_mem_findPlacements {lex : Lexicon} {vocab : Vocabulary} {board : Board}
    (ha : Affords rack counts freeBlanks []) {tiles : List Placed}
    (h : tiles ∈ findPlacements lex vocab board counts freeBlanks) : Held rack tiles := by
  unfold findPlacements at h
  dsimp only at h
  have hnone : ∀ tiles ∈ ([] : Found), Held rack tiles := fun _ hmem => absurd hmem List.not_mem_nil
  split at h
  · exact held_of_search ha hnone _ h
  · exact held_of_search ha (held_of_search ha hnone) _ h

/-- **What is found** is held by the hand and fits the board, with the words and the score of the
board. -/
structure Move.Fits (lex : Lexicon) (board : Board) (rack : List Tile) (m : Move)
    (formed : List FormedWord) : Prop where
  held : Held rack m.tiles
  valid : board.validatePlacement lex m.tiles true = .ok formed
  words : m.words = formed.map FormedWord.word
  score : m.score = Game.lerakasTotal formed m.tiles.length

variable {lex : Lexicon} {vocab : Vocabulary} {board : Board} {m : Move}

theorem fits_of_mem_generateMoves {allowBlanks : Bool} {maxTiles : ℕ}
    (h : m ∈ generateMoves lex vocab board rack allowBlanks maxTiles) :
    ∃ formed, m.Fits lex board rack formed := by
  unfold generateMoves at h
  dsimp only at h
  split at h
  · exact absurd h List.not_mem_nil
  obtain ⟨tiles, htiles, hscored⟩ := List.mem_filterMap.mp h
  have hheld := held_of_mem_findPlacements (affords_nil rack allowBlanks) (List.mem_filter.mp htiles).1
  unfold scored at hscored
  split at hscored
  · cases hscored
  · rename_i formed hvalid
    cases hscored
    exact ⟨formed, hheld, hvalid, rfl, rfl⟩

theorem mem_of_mem_chunks {α : Type*} {size : ℕ} {l chunk : List α} (h : chunk ∈ chunks size l)
    {a : α} (ha : a ∈ chunk) : a ∈ l := by
  obtain ⟨k, -, rfl⟩ := List.mem_map.mp h
  exact List.mem_of_mem_drop (List.mem_of_mem_take ha)

theorem mem_firstValid {candidates : List Move} {wanted : ℕ}
    (h : m ∈ firstValid lex candidates wanted) :
    m ∈ candidates ∧ ∀ w ∈ m.words, lex.accepts w = true := by
  let Chosen (chosen : List Move) : Prop :=
    ∀ m ∈ chosen, m ∈ candidates ∧ ∀ w ∈ m.words, lex.accepts w = true
  have hall : Chosen (firstValid lex candidates wanted) := by
    unfold firstValid
    refine List.foldlRecOn (motive := Chosen) _ _ (fun _ hm => absurd hm List.not_mem_nil)
      fun chosen hchosen chunk hchunk => ?_
    dsimp only
    split
    · exact hchosen
    refine List.foldlRecOn (motive := Chosen) _ _ hchosen fun chosen hchosen m hm => ?_
    split
    · rename_i hvalid
      rintro m' hm'
      rcases List.mem_append.mp hm' with hm' | hm'
      · exact hchosen m' hm'
      rw [List.mem_singleton.mp hm']
      refine ⟨mem_of_mem_chunks hchunk hm, fun w hw => ?_⟩
      have hfound := List.all_eq_true.mp hvalid.2 w hw
      rw [List.contains_iff_mem] at hfound
      exact (List.mem_filter.mp hfound).2
    · exact hchosen
  exact hall m h

theorem fits_of_mem_bestMoves {count : ℕ} (h : m ∈ bestMoves lex vocab board rack count) :
    ∃ formed, m.Fits lex board rack formed ∧ ∀ w ∈ formed, lex.accepts w.word = true := by
  obtain ⟨hmem, hvalid⟩ := mem_firstValid h
  obtain ⟨formed, hfits⟩ := fits_of_mem_generateMoves
    ((List.perm_insertionSort _ _).mem_iff.mp hmem)
  refine ⟨formed, hfits, fun w hw => hvalid w.word ?_⟩
  rw [hfits.words]
  exact List.mem_map_of_mem hw

end Robot

end ScrabbleMagyar
