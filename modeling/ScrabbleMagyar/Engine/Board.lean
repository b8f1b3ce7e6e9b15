import ScrabbleMagyar.Util
import ScrabbleMagyar.Words.Dictionary
import ScrabbleMagyar.Foundations.Line
import ScrabbleMagyar.Foundations.Grid

/-!
# The board

The 15×15 board with its premium squares, the validation of a placement and the words it
forms with their scores (`engine/board.rs`). Coordinates of a placement are signed, those of
the board are not; `Board.cell` reads a square and is `none` off the board.

* `Board.validatePlacement`: the phases of the validation in the source's order, with the
  source's messages.
* `Board.applyPlacement`: write the tiles on the board.
* `Board.toJson`, `Board.fromJson`: the stored form.
-/

namespace ScrabbleMagyar

def boardSize : ℕ := 15

def center : ℕ := 7

inductive Premium
  | none
  | dl
  | tl
  | dw
  | tw
  | star
  deriving DecidableEq

/-- The factor by which a premium multiplies the value of a tile newly laid on it. -/
def Premium.letterFactor : Premium → ℕ
  | .dl => 2
  | .tl => 3
  | _ => 1

/-- The factor by which a premium multiplies the score of a word newly covering it. -/
def Premium.wordFactor : Premium → ℕ
  | .dw => 2
  | .star => 2
  | .tw => 3
  | _ => 1

/-- The premium squares of one quarter of the board. -/
def premiumQuarter : List (ℕ × ℕ × Premium) :=
  [(0, 0, .tw), (0, 3, .dl), (0, 7, .tw), (1, 1, .dw), (1, 5, .tl), (2, 2, .dw), (2, 6, .dl),
   (3, 0, .dl), (3, 3, .dw), (3, 7, .dl), (4, 4, .dw), (5, 1, .tl), (5, 5, .tl), (6, 2, .dl),
   (6, 6, .dl), (7, 0, .tw), (7, 3, .dl), (7, 7, .star)]

/-- The premium of a square: a quarter mirrored along both axes. -/
def premiumAt (row col : ℕ) : Premium :=
  if row < boardSize ∧ col < boardSize then
    premiumQuarter.foldl (fun kind (e : ℕ × ℕ × Premium) =>
      if (row = e.1 ∨ row = 14 - e.1) ∧ (col = e.2.1 ∨ col = 14 - e.2.1) then e.2.2 else kind)
      .none
  else .none

/-- The content of a square: the letter (of a blank, the chosen one) and whether it is a
blank. -/
structure Cell where
  letter : Tile
  isBlank : Bool
  deriving DecidableEq

/-- A tile of a placement. -/
structure Placed where
  row : ℤ
  col : ℤ
  letter : Tile
  isBlank : Bool
  deriving DecidableEq

namespace Placed

/-- The tile the hand gives for it. -/
def handTile (p : Placed) : Tile := if p.isBlank then Tile.blank else p.letter

def cell (p : Placed) : Cell := ⟨p.letter, p.isBlank⟩

/-- The square as unsigned coordinates, used once the coordinates are known to be on the
board. -/
def square (p : Placed) : ℕ × ℕ := (p.row.toNat, p.col.toNat)

def toJson (p : Placed) : Json :=
  .obj [("row", .int p.row), ("col", .int p.col), ("letter", .str (String.ofList p.letter.asStr)),
    ("is_blank", .bool p.isBlank)]

end Placed

/-- A formed word: its text, its squares and its score. -/
structure FormedWord where
  word : Word
  positions : List (ℕ × ℕ)
  score : ℕ
  deriving DecidableEq

structure Board where
  cells : Fin 15 → Fin 15 → Option Cell
  isEmpty : Bool
  deriving DecidableEq

/-- The newly covered squares. -/
abbrev Mask := ℕ → ℕ → Bool

def maskOf (positions : List (ℕ × ℕ)) : Mask := fun r c => decide ((r, c) ∈ positions)

/-- Whether signed coordinates are on the board. -/
def onBoard (row col : ℤ) : Bool := decide (0 ≤ row ∧ row < 15 ∧ 0 ≤ col ∧ col < 15)

namespace Board

def new : Board := ⟨fun _ _ => none, true⟩

/-- The content of a square; `none` off the board. -/
def cell (b : Board) (r c : ℕ) : Option Cell :=
  if h : r < 15 ∧ c < 15 then b.cells ⟨r, h.1⟩ ⟨c, h.2⟩ else none

/-- The content of a square given by signed coordinates. -/
def get (b : Board) (row col : ℤ) : Option Cell :=
  if onBoard row col then b.cell row.toNat col.toNat else none

/-- Write one square. -/
def setCell (b : Board) (r c : ℕ) (cell : Cell) : Board :=
  { b with cells := fun r' c' => if r'.val = r ∧ c'.val = c then some cell else b.cells r' c' }

/-- Write the tiles of a placement, leaving the emptiness flag alone. -/
def place (b : Board) (placed : List Placed) : Board :=
  placed.foldl (fun b p => b.setCell p.square.1 p.square.2 p.cell) b

def hasLetter (b : Board) (row col : ℤ) : Bool := (b.get row col).isSome

/-! ## Extracting words -/

/-- The squares of a row or of a column. -/
def line (b : Board) (horizontal : Bool) (fixed i : ℕ) : Option Cell :=
  if horizontal then b.cell fixed i else b.cell i fixed

/-- Extend the bounds of a word by the letters before and after it. -/
def findWordBounds (b : Board) (fixed start end_ : ℕ) (horizontal : Bool) : ℕ × ℕ :=
  let occ i := (b.line horizontal fixed i).isSome
  (Line.stretchStart occ start, Line.stretchEnd occ (boardSize - 1 - end_) end_)

/-- What the scan of a word has gathered so far. -/
structure WordScan where
  word : Word
  positions : List (ℕ × ℕ)
  letterScore : ℕ
  wordMultiplier : ℕ

/-- Scan one square of a word. The source panics on a free one; the words it extracts have
none. -/
def scanSquare (b : Board) (fixed : ℕ) (horizontal : Bool) (newPositions : Mask)
    (scan : WordScan) (i : ℕ) : WordScan :=
  match b.line horizontal fixed i with
  | none => scan
  | some cell =>
    let (r, c) := Grid.onLine horizontal fixed i
    let tileValue := if cell.isBlank then 0 else cell.letter.value
    let premium := if newPositions r c then premiumAt r c else Premium.none
    { word := scan.word ++ cell.letter.asStr
      positions := scan.positions ++ [(r, c)]
      letterScore := scan.letterScore + tileValue * Premium.letterFactor premium
      wordMultiplier := scan.wordMultiplier * Premium.wordFactor premium }

/-- The word on the squares `start..=end_` of a line, with its score. -/
def extractWord (b : Board) (fixed start end_ : ℕ) (horizontal : Bool) (newPositions : Mask) :
    FormedWord :=
  let scan := (List.range' start (end_ + 1 - start)).foldl
    (b.scanSquare fixed horizontal newPositions) ⟨[], [], 0, 1⟩
  ⟨scan.word, scan.positions, scan.letterScore * scan.wordMultiplier⟩

/-! ## The phases of the validation -/

/-- Every tile lies on the board, on a free square that no earlier tile has taken. -/
def validatePositions (b : Board) : List Placed → List (ℤ × ℤ) → Except String Unit
  | [], _ => .ok ()
  | p :: rest, seen =>
    if !onBoard p.row p.col then .error s!"A ({p.row},{p.col}) pozíció a táblán kívül van."
    else if b.hasLetter p.row p.col then .error s!"A ({p.row},{p.col}) mező már foglalt."
    else if (p.row, p.col) ∈ seen then
      .error s!"A ({p.row},{p.col}) mezőre több zseton került."
    else validatePositions b rest ((p.row, p.col) :: seen)

/-- Whether the letters lie in one row or one column; the answer is whether it is a row. -/
def validateAlignment (positions : List (ℕ × ℕ)) : Except String Bool :=
  let rows := (positions.map Prod.fst).dedup
  let cols := (positions.map Prod.snd).dedup
  if rows.length > 1 ∧ cols.length > 1 then
    .error "A betűknek egy sorban vagy egy oszlopban kell lenniük."
  else .ok (rows.length == 1 || positions.length == 1)

/-- The direction of a single letter by its neighbours: whether the main word is horizontal,
and whether it has a neighbour at all. -/
def determineDirectionSingle (b : Board) (r c : ℤ) : Bool × Bool :=
  let hasH := b.hasLetter r (c - 1) || b.hasLetter r (c + 1)
  let hasV := b.hasLetter (r - 1) c || b.hasLetter (r + 1) c
  if !b.isEmpty && !hasH && !hasV then (true, false)
  else (hasH || !hasV, true)

/-- The line on which all positions lie, else the one given. -/
def mainLine (across : List ℕ) (other : ℕ) : ℕ :=
  match across.dedup with
  | [x] => x
  | _ => other

/-- The fixed coordinate of the main direction, and the first and last index on it. -/
def getMainBounds (positions : List (ℕ × ℕ)) (horizontal : Bool) : ℕ × ℕ × ℕ :=
  let first := positions.headD (0, 0)
  let along := positions.map fun p => if horizontal then p.2 else p.1
  let across := positions.map fun p => if horizontal then p.1 else p.2
  let fixed := mainLine across (if horizontal then first.1 else first.2)
  (fixed, along.min?.getD 0, along.max?.getD 0)

def checkContinuity (b : Board) (fixed start end_ : ℕ) (horizontal : Bool) : Bool :=
  (List.range' start (end_ + 1 - start)).all fun i => (b.line horizontal fixed i).isSome

/-- Whether a placed letter touches a letter that was there before. -/
def checkAdjacency (b : Board) (positions : List (ℕ × ℕ)) (newPositions : Mask) : Bool :=
  positions.any fun (r, c) =>
    ([(-1, 0), (1, 0), (0, -1), (0, 1)] : List (ℤ × ℤ)).any fun (dr, dc) =>
      let nr := (r : ℤ) + dr
      let nc := (c : ℤ) + dc
      onBoard nr nc && !newPositions nr.toNat nc.toNat && b.hasLetter nr nc

/-- The word across the main direction through a square, if it has two letters. -/
def crossWord (b : Board) (newPositions : Mask) (horizontal : Bool) (square : ℕ × ℕ) :
    Option FormedWord :=
  let (r, c) := square
  if horizontal then
    let (cs, ce) := b.findWordBounds c r r false
    if ce > cs then some (b.extractWord c cs ce false newPositions) else none
  else
    let (cs, ce) := b.findWordBounds r c c true
    if ce > cs then some (b.extractWord r cs ce true newPositions) else none

/-- All formed words: the main one, then those across it. -/
def collectWords (b : Board) (positions : List (ℕ × ℕ)) (newPositions : Mask)
    (horizontal : Bool) (fixed start end_ : ℕ) : List FormedWord :=
  (if end_ > start then [b.extractWord fixed start end_ horizontal newPositions] else []) ++
    positions.filterMap (b.crossWord newPositions horizontal)

/-- The text on a square, empty on a free one. -/
def textAt (b : Board) (square : ℕ × ℕ) : Word :=
  match b.cell square.1 square.2 with
  | none => []
  | some cell => cell.letter.asStr

/-- The first pair of neighbouring single letters in a word that spells a digraph, one of the
two being newly laid. -/
def splitDigraphIn (b : Board) (newPositions : Mask) (word : FormedWord) : Option Word :=
  (word.positions.zip word.positions.tail).findSome? fun (first, second) =>
    if !newPositions first.1 first.2 && !newPositions second.1 second.2 then none
    else if formsDigraph (b.textAt first) (b.textAt second) then
      some (b.textAt first ++ b.textAt second)
    else none

def findSplitDigraph (b : Board) (formed : List FormedWord) (newPositions : Mask) :
    Option Word :=
  formed.findSome? (b.splitDigraphIn newPositions)

def validateFirstMove (placed : List Placed) (newPositions : Mask) : Option String :=
  if !newPositions center center then
    some "Az első szónak a középső mezőt (csillagot) kell fednie."
  else if placed.length < 2 then some "Az első szónak legalább 2 betűből kell állnia."
  else none

/-- The message about a digraph laid with two tiles. -/
def digraphMessage (digraph : Word) : String :=
  let text := String.ofList digraph
  let a := String.ofList (digraph.take 1)
  let b := String.ofList ((digraph.drop 1).take 1)
  s!"Kétjegyű betű ({text}) csak a saját zsetonjával rakható ki, {a} + {b} külön zsetonnal nem."

/-- Words joined for a message. -/
def joinWords (words : List Word) : String := ", ".intercalate (words.map String.ofList)

/-- The checks on the formed words themselves. -/
def checkFormed (lex : Lexicon) (b : Board) (formed : List FormedWord) (newPositions : Mask)
    (skipDictionary : Bool) : Except String (List FormedWord) :=
  if formed.isEmpty then .error "Legalább egy szót kell alkotni."
  else match b.findSplitDigraph formed newPositions with
    | some digraph => .error (digraphMessage digraph)
    | none =>
      if !skipDictionary && !(lex.checkWords (formed.map FormedWord.word)).1 then
        .error s!"Érvénytelen szó(k): {joinWords (lex.checkWords (formed.map FormedWord.word)).2}"
      else .ok formed

def validateWords (lex : Lexicon) (b : Board) (positions : List (ℕ × ℕ)) (newPositions : Mask)
    (horizontal skipDictionary : Bool) : Except String (List FormedWord) :=
  let (fixed, start, end_) := getMainBounds positions horizontal
  let (start, end_) := b.findWordBounds fixed start end_ horizontal
  if !b.checkContinuity fixed start end_ horizontal then
    .error "A betűknek folytonos sort kell alkotniuk."
  else if !b.isEmpty && !b.checkAdjacency positions newPositions then
    .error "A szónak csatlakoznia kell meglévő betűkhöz."
  else
    let formed := b.collectWords positions newPositions horizontal fixed start end_
    checkFormed lex b formed newPositions skipDictionary

/-- Check a placement. The answer is the formed words, or the message. -/
def validatePlacement (lex : Lexicon) (b : Board) (placed : List Placed)
    (skipDictionary : Bool) : Except String (List FormedWord) :=
  if placed.isEmpty then .error "Legalább egy zsetont le kell rakni."
  else match b.validatePositions placed [] with
    | .error e => .error e
    | .ok () =>
      let positions := placed.map Placed.square
      let newPositions := maskOf positions
      match validateAlignment positions with
      | .error e => .error e
      | .ok aligned =>
        let temp := b.place placed
        match if b.isEmpty then validateFirstMove placed newPositions else none with
        | some e => .error e
        | none =>
          match placed with
          | [p] =>
            let (horizontal, hasNeighbor) := temp.determineDirectionSingle p.row p.col
            if !b.isEmpty && !hasNeighbor then
              .error "A betűnek csatlakoznia kell meglévő szóhoz."
            else validateWords lex temp positions newPositions horizontal skipDictionary
          | _ => validateWords lex temp positions newPositions aligned skipDictionary

/-- Lay the tiles for good. -/
def applyPlacement (b : Board) (placed : List Placed) : Board :=
  { b.place placed with isEmpty := false }

/-! ## The stored form -/

def cellToJson : Option Cell → Json
  | none => .null
  | some c => .obj [("letter", .str (String.ofList c.letter.asStr)), ("is_blank", .bool c.isBlank)]

def toJson (b : Board) : Json :=
  .arr ((List.finRange 15).map fun r =>
    .arr ((List.finRange 15).map fun c => cellToJson (b.cells r c)))

/-- A stored square; anything without a known letter is free. -/
def cellFromJson (cell : Json) : Option Cell :=
  ((cell.get? "letter").bind Json.asStr).bind fun text =>
    (Tile.fromStr text.toList).map fun letter =>
      ⟨letter, ((cell.get? "is_blank").map truthy).getD false⟩

/-- Rebuild a board from its stored form; what is not an array reads as free squares. -/
def fromJson (rows : Json) : Board :=
  match rows.asArray with
  | none => new
  | some rows =>
    let cells : Fin 15 → Fin 15 → Option Cell := fun r c =>
      (rows[r.val]?.bind Json.asArray).bind fun row => row[c.val]?.bind cellFromJson
    ⟨cells, (List.finRange 15).all fun r => (List.finRange 15).all fun c => (cells r c).isNone⟩

end Board

end ScrabbleMagyar
