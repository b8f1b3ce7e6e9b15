import ScrabbleMagyar.Engine.Player
import Mathlib.Data.List.Sort
import Mathlib.Data.Prod.Lex

/-!
# The state of a game

The state of a game with its seats, turns, end and move log (`engine/game.rs`); the moves
themselves are in `Engine/Operations.lean`. An operation takes the state and returns the state
it leaves behind together with its result, also when the result is an error.

What the source takes from outside the game is the `Env` of a call: the clock, the dictionary
and the shuffle.

Indexing with a seat that does not exist panics in the source; here it reads a default player
and writes nothing. `Engine/Coherence.lean` shows that reachable games never do it.
-/

namespace ScrabbleMagyar

def handSize : ℕ := 7

def bonusAllTiles : ℤ := 50

/-- The game ends after so many turns without a score in a row. -/
def scorelessTurnsLimit : ℕ := 6

/-- A player of a correspondence game resigns with so many missed deadlines in a row. -/
def maxTimeouts : ℕ := 3

def allowedHintLimits : List ℤ := [0, 1, 3, 5, 10]

def defaultHintLimit : ℤ := 3

inductive VoteResult
  | recorded
  | accepted
  | rejected
  deriving DecidableEq

/-- An entry of the move log. -/
structure MoveLog where
  moveNumber : ℤ
  playerName : String
  actionType : String
  details : Json
  board : Board

/-- The score an entry records. -/
def MoveLog.score (m : MoveLog) : ℤ := ((m.details.get? "score").bind Json.asInt).getD 0

/-- The daily puzzle: one player, one placement. -/
structure Puzzle where
  date : String
  score : Option ℤ
  deriving DecidableEq

structure Game where
  id : String
  players : List Player
  board : Board
  bag : TileBag
  currentPlayerIdx : ℕ
  started : Bool
  finished : Bool
  /-- The winners as they were at the end of the game; more than one at a draw. -/
  winners : List Player
  puzzle : Option Puzzle
  asyncMode : Bool
  turnHours : ℤ
  turnDeadline : Option ℚ
  scorelessTurns : ℕ
  turnNumber : ℤ
  lastAction : Option String
  challengeMode : Bool
  turnTimeLimit : ℤ
  hintLimit : ℤ
  hintsUsed : ℤ
  pendingChallenge : Option Challenge
  moveLog : List MoveLog
  lastActionInfo : Option Json
  /-- Placements voted down on the current board, in canonical order. -/
  rejectedPlacements : Finset (List Placed)
  botSeq : ℕ

/-- What a call takes from outside the game. -/
structure Env where
  now : ℚ
  lexicon : Lexicon
  shuffle : Shuffle

/-- The order on placed tiles: by row, column, letter, then blanks last. -/
def Placed.key (p : Placed) : ℤ ×ₗ ℤ ×ₗ Tile ×ₗ Bool :=
  toLex (p.row, toLex (p.col, toLex (p.letter, p.isBlank)))

/-- The canonical (sorted) form of a placement. -/
def placementKey (tiles : List Placed) : List Placed :=
  tiles.insertionSort fun p q => p.key ≤ q.key

/-- The result of an operation that can fail. -/
abbrev Fallible := Except String

namespace Game

def new (env : Env) (gameId : String) (challengeMode : Bool) (turnTimeLimit hintLimit : ℤ) :
    Game :=
  { id := gameId, players := [], board := Board.new, bag := TileBag.new env.shuffle,
    currentPlayerIdx := 0, started := false, finished := false, winners := [], puzzle := none,
    asyncMode := false, turnHours := 0, turnDeadline := none, scorelessTurns := 0,
    turnNumber := 0, lastAction := none, challengeMode, turnTimeLimit,
    hintLimit := if hintLimit ∈ allowedHintLimits then hintLimit else defaultHintLimit,
    hintsUsed := 0, pendingChallenge := none, moveLog := [], lastActionInfo := none,
    rejectedPlacements := ∅, botSeq := 0 }

/-- The player at a seat. -/
def playerAt (g : Game) (idx : ℕ) : Player := g.players.getD idx default

/-- Change the player at a seat. -/
def modifyPlayer (g : Game) (idx : ℕ) (f : Player → Player) : Game :=
  { g with players := g.players.modify idx f }

def currentPlayer (g : Game) : Option Player := g.players[g.currentPlayerIdx]?

def findPlayer (g : Game) (playerId : String) : Option Player :=
  g.players.find? fun p => p.id = playerId

/-- The seat of a player. -/
def seatOf (g : Game) (playerId : String) : Option ℕ :=
  g.players.findIdx? fun p => p.id = playerId

/-! ## Before the start -/

def addPlayer (g : Game) (playerId name : String) : Game × Fallible String :=
  if g.players.any fun p => p.id = playerId then (g, .error "Ez a játékos már csatlakozott.")
  else if g.players.length ≥ 4 then (g, .error "Maximum 4 játékos lehet.")
  else if g.started then (g, .error "A játék már elkezdődött.")
  else ({ g with players := g.players ++ [Player.new playerId name] }, .ok "Csatlakozás sikeres.")

def botId (g : Game) (seq : ℕ) : String := s!"bot-{g.id}-{seq}"

/-- The first number from `seq` on whose bot identifier is free; at most every seated player
takes one. -/
def freeBotSeq (g : Game) : ℕ → ℕ → ℕ
  | 0, seq => seq
  | n + 1, seq =>
    if g.players.any fun p => p.id = g.botId seq then freeBotSeq g n (seq + 1) else seq

def addBot (g : Game) (name : String) (difficulty : Json) : Game × Fallible String :=
  if g.players.length ≥ 4 then (g, .error "Maximum 4 játékos lehet.")
  else if g.started then (g, .error "A játék már elkezdődött.")
  else
    let seq := g.freeBotSeq g.players.length (g.botSeq + 1)
    ({ g with
        botSeq := seq
        players := g.players ++ [Player.newBot (g.botId seq) name difficulty] },
      .ok "Robot hozzáadva.")

/-- Deal a full hand to each player in turn. -/
def deal : TileBag → List Player → TileBag × List Player
  | bag, [] => (bag, [])
  | bag, p :: rest =>
    let (bag, hand) := bag.draw handSize
    let (bag, rest) := deal bag rest
    (bag, { p with hand } :: rest)

/-- The deadline of a turn that begins now. -/
def resetDeadline (env : Env) (g : Game) : Game :=
  { g with
    turnDeadline :=
      if g.asyncMode ∧ g.turnHours ≠ 0 then some (env.now + (g.turnHours * 3600 : ℤ)) else none }

/-- The game with its hands dealt. -/
def dealt (env : Env) (g : Game) : Game :=
  resetDeadline env
    { g with started := true, bag := (deal g.bag g.players).1, players := (deal g.bag g.players).2 }

def start (env : Env) (g : Game) : Game × Fallible String :=
  if g.players.isEmpty then (g, .error "Legalább 1 játékos kell.")
  else if g.started then (g, .error "A játék már elkezdődött.")
  else (g.dealt env, .ok "A játék elkezdődött!")

/-! ## Hints and connections -/

def hintsLeft (g : Game) : ℤ := max (g.hintLimit - g.hintsUsed) 0

def useHint (g : Game) : Game × Bool :=
  if g.hintsLeft ≤ 0 then (g, false) else ({ g with hintsUsed := g.hintsUsed + 1 }, true)

/-- Mark a player as disconnected for the time being. -/
def markDisconnected (g : Game) (playerId : String) : Game × Bool :=
  match g.seatOf playerId with
  | none => (g, false)
  | some idx => (g.modifyPlayer idx fun p => { p with disconnected := true }, true)

/-- A player at a new connection. -/
def Player.reconnect (newId : String) (p : Player) : Player :=
  { p with id := newId, disconnected := false }

/-- Give a seat to its player's new connection; a vote and a place among the winners move
along. -/
def reconnectSeat (g : Game) (idx : ℕ) (oldId newId : String) : Game :=
  let g := g.modifyPlayer idx (Player.reconnect newId)
  { g with
    pendingChallenge := g.pendingChallenge.map fun pc => pc.updatePlayerSid oldId newId
    winners := g.winners.map fun w => if w.id = oldId then Player.reconnect newId w else w }

/-- Replace the identifier of a player who reconnects. -/
def replacePlayerSid (g : Game) (oldId newId : String) : Game × Bool :=
  match g.seatOf oldId with
  | none => (g, false)
  | some idx => (g.reconnectSeat idx oldId newId, true)

/-- Take a seat out of the game. A placement of its player is dropped; the indices of the turn
and of a pending placement follow their players. -/
def removeSeat (g : Game) (removedIdx : ℕ) : Game :=
  let pending := g.pendingChallenge.filter fun pc => pc.playerIdx ≠ removedIdx
  let players := g.players.eraseIdx removedIdx
  if players.isEmpty then
    { g with players, pendingChallenge := pending, currentPlayerIdx := 0 }
  else
    { g with
      players
      currentPlayerIdx :=
        if removedIdx < g.currentPlayerIdx then g.currentPlayerIdx - 1
        else if removedIdx = g.currentPlayerIdx ∧ g.currentPlayerIdx ≥ players.length then 0
        else g.currentPlayerIdx
      pendingChallenge := pending.map fun pc =>
        if removedIdx < pc.playerIdx then { pc with playerIdx := pc.playerIdx - 1 } else pc }

/-- Remove a player. The answer is whether the turn has to be passed on. -/
def removePlayer (g : Game) (playerId : String) : Game × Bool :=
  match g.seatOf playerId with
  | none => (g, false)
  | some removedIdx =>
    (g.removeSeat removedIdx,
      decide (removedIdx = g.currentPlayerIdx) && !(g.players.eraseIdx removedIdx).isEmpty &&
        g.started && !g.finished)

/-! ## Turns -/

/-- The text of the last action and its structured form. -/
def setLastAction (g : Game) (text : String) (info : Json) : Game :=
  { g with
    lastAction := some text
    lastActionInfo := match info with
      | .obj [] => none
      | .null => none
      | other => some other }

/-- Pay the penalty of a player, who misses this turn. -/
def paySkip (g : Game) (idx : ℕ) : Game :=
  let name := (g.playerAt idx).name
  let g := g.modifyPlayer idx fun p => { p with skipNextTurn := false }
  g.setLastAction s!"{name} kihagy egy kört (sikertelen megtámadás)"
    (.obj [("type", .str "skip"), ("player", .str name)])

/-- Pass the turn on by at most `n` seats, over disconnected players (unless all are, or the
game is a correspondence game) and over penalised ones, whose penalty this pays. -/
def advance (g : Game) : ℕ → Game
  | 0 => g
  | n + 1 =>
    let idx := (g.currentPlayerIdx + 1) % g.players.length
    let g := { g with currentPlayerIdx := idx }
    let p := g.playerAt idx
    if p.disconnected && !g.asyncMode then
      if g.players.any fun q => !q.disconnected then advance g n else g
    else if p.skipNextTurn then advance (g.paySkip idx) n
    else g

def nextTurn (env : Env) (g : Game) : Game :=
  let g := g.advance g.players.length
  resetDeadline env { g with turnNumber := g.turnNumber + 1 }

/-- Pass the turn on when the player whose turn it is has left. -/
def skipDisconnectedCurrent (env : Env) (g : Game) : Game × Bool :=
  if !g.started || g.finished || g.pendingChallenge.isSome || g.asyncMode then (g, false)
  else match g.currentPlayer with
    | none => (g, false)
    | some current =>
      if !current.disconnected then (g, false)
      else if g.players.all fun p => p.disconnected then (g, false)
      else (g.nextTurn env, true)

/-! ## The end of the game -/

/-- The final scores: the tiles in hand count against their players, and the finisher gets the
value of all of them. -/
def settle (players : List Player) (finisher : Option ℕ) : List Player :=
  let remainingTotal := (players.map Player.handValue).sum
  let players := players.map fun p => { p with score := p.score - p.handValue }
  match finisher with
  | some i => players.modify i fun p => { p with score := p.score + remainingTotal }
  | none => players

/-- The last action at the end of a game. -/
def setGameOver (g : Game) (winners : List Player) (topScore : ℤ) : Game :=
  match winners with
  | [w] =>
    let name := w.name
    g.setLastAction s!"Játék vége! Győztes: {name} ({topScore} pont)"
      (.obj [("type", .str "game_over"), ("player", .str name), ("score", .int topScore)])
  | _ =>
    let names := winners.map Player.name
    let joined := ", ".intercalate names
    g.setLastAction s!"Játék vége! Döntetlen: {joined} ({topScore} pont)"
      (.obj [("type", .str "game_over_draw"), ("players", .arr (names.map Json.str)),
        ("score", .int topScore)])

/-- End the game with the final scores; everybody with the top score wins. -/
def endGame (g : Game) (finisher : Option ℕ) : Game :=
  let players := settle g.players finisher
  let topScore := (players.map Player.score).max?.getD 0
  let winners := players.filter fun p => p.score = topScore
  let g := { g with finished := true, pendingChallenge := none, players, winners }
  g.setGameOver winners topScore

/-- Count a turn without a score; the answer is whether it ended the game. -/
def registerScorelessTurn (g : Game) : Game × Bool :=
  let g := { g with scorelessTurns := g.scorelessTurns + 1 }
  if g.scorelessTurns ≥ scorelessTurnsLimit then (g.endGame none, true) else (g, false)

/-- Count a turn without a score and, unless it ended the game, pass the turn on. -/
def scorelessNextTurn (env : Env) (g : Game) : Game :=
  match g.registerScorelessTurn with
  | (g, true) => g
  | (g, false) => g.nextTurn env

/-! ## The move log -/

/-- The details of a log entry. -/
def moveDetails (tiles : Option (List Placed)) (formed : Option (List FormedWord)) (score : ℤ)
    (rack : Option (List Tile)) : Json :=
  .obj <|
    (match rack with
      | some rack => [("rack", tilesToJson rack)]
      | none => []) ++
    (match tiles.filter fun t => !t.isEmpty with
      | some tiles => [("tiles", .arr (tiles.map Placed.toJson))]
      | none => []) ++
    (match formed.filter fun f => !f.isEmpty with
      | some formed => [("words", .arr (formed.map fun w => .str (String.ofList w.word)))]
      | none => []) ++
    [("score", .int score)]

/-- Append an entry to the move log, with the board as it is now. -/
def recordMove (g : Game) (playerName actionType : String) (tiles : Option (List Placed))
    (formed : Option (List FormedWord)) (score : ℤ) (rack : Option (List Tile)) : Game :=
  { g with
    moveLog := g.moveLog ++
      [{ moveNumber := g.moveLog.length + 1, playerName, actionType,
         details := moveDetails tiles formed score rack, board := g.board }] }

end Game

end ScrabbleMagyar
