import ScrabbleMagyar.Engine.Board
import Mathlib.Data.Finset.Card

/-!
# Players and challenges

A player's state with its client view (`engine/player.rs`), the strength of a bot as it is
stored (`robot/ai.rs`), and the vote on a pending placement (`engine/challenge.rs`).

The votes are a hash map in the source; here they are a list of pairs in which a key occurs
once, the latest vote in front.
-/

namespace ScrabbleMagyar

/-! ## The strength of a bot -/

inductive Difficulty
  | level (n : ℕ)
  | auto
  deriving DecidableEq

def minLevel : ℕ := 1

def maxLevel : ℕ := 10

def defaultLevel : ℕ := 6

namespace Difficulty

def toJson : Difficulty → Json
  | level n => .int n
  | auto => .str "auto"

/-- The names of the former scale. -/
def legacyLevel (text : List Char) : Option ℕ :=
  if text = ['e', 'a', 's', 'y'] then some 3
  else if text = ['m', 'e', 'd', 'i', 'u', 'm'] then some 6
  else if text = ['h', 'a', 'r', 'd'] then some 10
  else none

/-- A level within the scale. -/
def levelInRange (n : ℤ) : Option ℕ :=
  if (minLevel : ℤ) ≤ n ∧ n ≤ maxLevel then some n.toNat else none

def parseLevel : Json → Option ℕ
  | .int i => levelInRange i
  | .float q => if q.den = 1 then levelInRange (truncI64 q) else none
  | .str s =>
    let text := (trim s.toList).map Char.toLower
    (legacyLevel text).or
      (((parseI64 text).filter fun n => (toString n).toList = text).bind levelInRange)
  | _ => none

def parseDifficulty (value : Json) : Option Difficulty :=
  let named : Bool := match value with
    | .str s =>
      let text := (trim s.toList).map Char.toLower
      text == ['a', 'u', 't', 'o'] || text == ['a', 'd', 'a', 'p', 't', 'i', 'v', 'e']
    | _ => false
  if named then some auto else (parseLevel value).map level

def normalizeDifficulty (value : Json) : Difficulty :=
  (parseDifficulty value).getD (level defaultLevel)

end Difficulty

/-! ## Players -/

structure Player where
  id : String
  name : String
  hand : List Tile
  score : ℤ
  skipNextTurn : Bool
  disconnected : Bool
  /-- Missed deadlines in a row, in a correspondence game. -/
  timeouts : ℕ
  resigned : Bool
  isBot : Bool
  difficulty : Option Difficulty
  deriving DecidableEq

/-- Tiles as JSON; the blank is the empty text. -/
def tilesToJson (tiles : List Tile) : Json :=
  .arr (tiles.map fun t => .str (String.ofList t.asStr))

/-- Tiles from JSON; unknown letters are left out. -/
def tilesFromJson (value : Json) : List Tile :=
  match value.asArray with
  | none => []
  | some items => items.filterMap fun v => v.asStr.bind fun text => Tile.fromStr text.toList

namespace Player

def new (id name : String) : Player :=
  { id, name, hand := [], score := 0, skipNextTurn := false, disconnected := false,
    timeouts := 0, resigned := false, isBot := false, difficulty := none }

def newBot (id name : String) (difficulty : Json) : Player :=
  { new id name with
    isBot := true, difficulty := some (Difficulty.normalizeDifficulty difficulty) }

instance : Inhabited Player := ⟨new "" ""⟩

def handJson (p : Player) : Json := tilesToJson p.hand

def difficultyJson (p : Player) : Json := Json.ofOption Difficulty.toJson p.difficulty

/-- A player as clients see it; the hand itself only with `revealHand`. -/
def toJson (p : Player) (revealHand : Bool) : Json :=
  let data : Json := .obj
    [("id", .str p.id), ("name", .str p.name), ("score", .int p.score),
     ("hand_count", .int p.hand.length), ("skip_next_turn", .bool p.skipNextTurn),
     ("disconnected", .bool p.disconnected), ("resigned", .bool p.resigned),
     ("is_bot", .bool p.isBot), ("difficulty", p.difficultyJson)]
  if revealHand then data.set "hand" p.handJson else data

/-- The value of the tiles in hand. -/
def handValue (p : Player) : ℤ := (p.hand.map fun t => (t.value : ℤ)).sum

end Player

/-! ## Challenges -/

inductive Vote
  | accept
  | reject
  deriving DecidableEq

def Vote.asStr : Vote → String
  | accept => "accept"
  | reject => "reject"

/-- A placement that waits for the votes of the other players. -/
structure Challenge where
  tilesPlaced : List Placed
  formedWords : List FormedWord
  wordStrs : List Word
  score : ℤ
  playerIdx : ℕ
  removedFromHand : List Tile
  votes : List (String × Vote)
  expiresAt : ℚ
  deriving DecidableEq

namespace Challenge

def new (now : ℚ) (tilesPlaced : List Placed) (formedWords : List FormedWord)
    (wordStrs : List Word) (score : ℤ) (playerIdx : ℕ) (removedFromHand : List Tile) :
    Challenge :=
  { tilesPlaced, formedWords, wordStrs, score, playerIdx, removedFromHand, votes := [],
    expiresAt := now + 30 }

def hasVote (c : Challenge) (playerId : String) : Bool := (c.votes.lookup playerId).isSome

def addVote (c : Challenge) (playerId : String) (vote : Vote) : Challenge :=
  { c with votes := (playerId, vote) :: c.votes.filter fun e => e.1 ≠ playerId }

/-- Whether all voters have voted. -/
def allVoted (c : Challenge) (voterIds : Finset String) : Bool :=
  decide (∀ id ∈ voterIds, c.hasVote id = true)

/-- The outcome of the vote: accepted unless more than half of the voters reject. -/
def resolveVotes (c : Challenge) (voterIds : Finset String) : Bool :=
  let total := voterIds.card
  if total = 0 then true
  else
    let acceptCount := (voterIds.filter fun id => c.votes.lookup id ≠ some .reject).card
    decide (acceptCount * 2 ≥ total)

/-- Move a vote to the new identifier of a player who reconnects. -/
def updatePlayerSid (c : Challenge) (oldId newId : String) : Challenge :=
  match c.votes.lookup oldId with
  | some vote =>
    ({ c with votes := c.votes.filter fun e => e.1 ≠ oldId } : Challenge).addVote newId vote
  | none => c

/-- The pending placement as clients see it. -/
def toState (c : Challenge) (players : List Player) : Json :=
  let placer := players.getD c.playerIdx default
  .obj
    [("player_id", .str placer.id), ("player_name", .str placer.name),
     ("words", .arr (c.wordStrs.map fun w => .str (String.ofList w))), ("score", .int c.score),
     ("tiles", .arr (c.tilesPlaced.map Placed.toJson)),
     ("votes", .obj (c.votes.map fun e => (e.1, .str e.2.asStr))),
     ("player_count", .int players.length), ("expires_at", .float c.expiresAt)]

end Challenge

end ScrabbleMagyar
