import ScrabbleMagyar.Engine.Operations
import ScrabbleMagyar.Engine.Save
import ScrabbleMagyar.Foundations.Runs

/-!
# Operations as inputs

The public operations of a game as inputs of a deterministic system (`Foundations/Runs.lean`),
each with what it takes from outside, and the games that can be reached with them from a new
game.

A restart of the server is an operation too: the game is saved and read back. A correspondence
game is created and started in one go, with a starting player drawn at random
(`async_games.rs`); `Op.startAsync` is that start.
-/

namespace ScrabbleMagyar

inductive Op
  | addPlayer (playerId name : String)
  | addBot (name : String) (difficulty : Json)
  | start
  | startAsync (starter : ℕ)
  | placeTiles (playerId : String) (tiles : List Placed)
  | exchangeTiles (playerId : String) (tileIndices : List ℤ)
  | passTurn (playerId : String) (timeout : Bool)
  | acceptPendingByPlayer (playerId : String)
  | rejectPendingByPlayer (playerId : String)
  | withdrawPending (playerId : String)
  | acceptPending
  | forceResolvePending (accept : Bool)
  | expireTurn
  | resign (playerId : String)
  | forceEnd
  | useHint
  | markDisconnected (playerId : String)
  | replacePlayerSid (oldId newId : String)
  | removePlayer (playerId : String)
  | skipDisconnectedCurrent
  | saveRestore

/-- The operations of a running game: the moves, the votes, time-outs, resignation and the
interventions of an administrator. -/
def Op.isPlay : Op → Bool
  | .placeTiles _ _ => true
  | .exchangeTiles _ _ => true
  | .passTurn _ _ => true
  | .acceptPendingByPlayer _ => true
  | .rejectPendingByPlayer _ => true
  | .withdrawPending _ => true
  | .acceptPending => true
  | .forceResolvePending _ => true
  | .expireTurn => true
  | .resign _ => true
  | .forceEnd => true
  | _ => false

/-- An operation with the environment of its call. -/
abbrev Input := Env × Op

namespace Game

/-- A new correspondence game. -/
def newAsync (env : Env) (gameId : String) (turnHours : ℤ) : Game :=
  { new env gameId false 0 0 with asyncMode := true, turnHours }

/-- The start of a correspondence game: the deal, then a starting player drawn at random. -/
def startAsync (env : Env) (g : Game) (starter : ℕ) : Game :=
  match g.start env with
  | (g, .error _) => g
  | (g, .ok _) =>
    if g.asyncMode ∧ starter < g.players.length then
      resetDeadline env { g with currentPlayerIdx := starter }
    else g

/-- Save the game and read it back. -/
def saveRestore (env : Env) (g : Game) : Game :=
  match fromSaveDict env g.toSaveDict with
  | .ok g' => g'
  | .error _ => g

/-- The state an operation leaves behind. -/
def step (g : Game) (i : Input) : Game :=
  let env := i.1
  match i.2 with
  | .addPlayer playerId name => (g.addPlayer playerId name).1
  | .addBot name difficulty => (g.addBot name difficulty).1
  | .start => (g.start env).1
  | .startAsync starter => g.startAsync env starter
  | .placeTiles playerId tiles => (g.placeTiles env playerId tiles).1
  | .exchangeTiles playerId tileIndices => (g.exchangeTiles env playerId tileIndices).1
  | .passTurn playerId timeout => (g.passTurn env playerId timeout).1
  | .acceptPendingByPlayer playerId => (g.acceptPendingByPlayer env playerId).1
  | .rejectPendingByPlayer playerId => (g.rejectPendingByPlayer env playerId).1
  | .withdrawPending playerId => (g.withdrawPending playerId).1
  | .acceptPending => (g.acceptPending env).1
  | .forceResolvePending accept => (g.forceResolvePending env accept).1
  | .expireTurn => (g.expireTurn env).1
  | .resign playerId => (g.resign playerId).1
  | .forceEnd => g.forceEnd.1
  | .useHint => g.useHint.1
  | .markDisconnected playerId => (g.markDisconnected playerId).1
  | .replacePlayerSid oldId newId => (g.replacePlayerSid oldId newId).1
  | .removePlayer playerId => (g.removePlayer playerId).1
  | .skipDisconnectedCurrent => (g.skipDisconnectedCurrent env).1
  | .saveRestore => g.saveRestore env

/-- The games as they are created. -/
def Initial (g : Game) : Prop :=
  (∃ env gameId challengeMode turnTimeLimit hintLimit,
    g = new env gameId challengeMode turnTimeLimit hintLimit) ∨
  ∃ env gameId turnHours, g = newAsync env gameId turnHours

/-- The games reached from a new game by operations each meeting `Q` where it is made. -/
abbrev ReachableBy (Q : Game → Input → Prop) : Game → Prop := Runs.Reaches step Initial Q

/-- The games reached from a new game by any operations. -/
abbrev Reachable : Game → Prop := ReachableBy fun _ _ => True

/-- A call without a dictionary, which leaves the bag in the order of the table. -/
def stillEnv : Env := ⟨0, Lexicon.unavailable, Shuffle.id⟩

/-- A game of two as it starts. -/
def duel (challengeMode : Bool) : Game :=
  Runs.run step (new stillEnv "duel" challengeMode 0 3)
    [(stillEnv, .addPlayer "a" "Anna"), (stillEnv, .addPlayer "b" "Béla"), (stillEnv, .start)]

theorem reachable_duel (challengeMode : Bool) : Reachable (duel challengeMode) :=
  ⟨_, _, .inl ⟨_, _, _, _, _, rfl⟩, Runs.along_of_forall step (fun _ _ _ => trivial) _, rfl⟩

/-- The first placement of a duel: `CS` and `Ő` on the centre. -/
def duelOpening : List Placed :=
  [⟨7, 7, ⟨32, by decide⟩, false⟩, ⟨7, 8, ⟨33, by decide⟩, false⟩]

/-- The hand of the first player of a duel: the last seven tiles of the table. -/
example : ((duel true).playerAt 0).hand = [32, 33, 34, 35, 36, 37, 38] := by decide +kernel

end Game

end ScrabbleMagyar
