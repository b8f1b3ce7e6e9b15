import ScrabbleMagyar.Engine.Game

/-!
# What clients see

The state of a game as it is sent to the players and to spectators: a part that all share,
and the list of players, in which only the hand of the addressee is shown.
-/

namespace ScrabbleMagyar

namespace Game

/-- A log entry as clients see it; of the placed tiles only their squares. -/
def historyEntry (m : MoveLog) : Json :=
  let tiles := match (m.details.get? "tiles").bind Json.asArray with
    | some items => items.map fun t => Json.obj [("row", t.field "row"), ("col", t.field "col")]
    | none => []
  .obj
    [("n", .int m.moveNumber), ("player", .str m.playerName), ("type", .str m.actionType),
     ("words", (m.details.get? "words").getD (.arr [])),
     ("score", (m.details.get? "score").getD (.int 0)), ("tiles", .arr tiles)]

def history (g : Game) : List Json := g.moveLog.map historyEntry

/-- The squares of the last move, if it was a placement. -/
def lastMoveTiles (history : List Json) : Json :=
  match history.getLast? with
  | some last =>
    match (last.field "type").asStr with
    | some "place" => last.field "tiles"
    | some "challenge_accept" => last.field "tiles"
    | _ => .arr []
  | none => .arr []

/-- The winner as seated now, or as at the end of the game when no longer seated. -/
def liveWinner (g : Game) (w : Player) : Player :=
  (g.players.find? fun p => p.name = w.name).getD w

/-- The winner, when there is exactly one. -/
def soleWinner : List Player → Json
  | [w] => w.toJson false
  | _ => .null

/-- The part of the state that is the same for all. -/
def sharedState (g : Game) : List (String × Json) :=
  let current := g.currentPlayer
  let winners := g.winners.map g.liveWinner
  [("game_id", .str g.id), ("started", .bool g.started), ("finished", .bool g.finished),
   ("board", g.board.toJson),
   ("current_player", Json.ofOption (fun p => .str p.id) current),
   ("current_player_name", Json.ofOption (fun p => .str p.name) current),
   ("turn_number", .int g.turnNumber), ("tiles_remaining", .int g.bag.remaining),
   ("last_action", Json.ofOption Json.str g.lastAction),
   ("last_action_info", Json.ofOption (fun j => j) g.lastActionInfo),
   ("last_move_tiles", lastMoveTiles g.history),
   ("history", .arr (g.history.map fun h => h.remove "tiles")),
   ("winner", soleWinner winners),
   ("winners", .arr (winners.map fun w => w.toJson false)),
   ("puzzle", Json.ofOption (fun p : Puzzle =>
     .obj [("date", .str p.date), ("score", Json.ofOption Json.int p.score)]) g.puzzle),
   ("challenge_mode", .bool g.challengeMode), ("turn_time_limit", .int g.turnTimeLimit),
   ("async_mode", .bool g.asyncMode), ("turn_hours", .int g.turnHours),
   ("turn_deadline", Json.ofOption Json.float g.turnDeadline), ("hint_limit", .int g.hintLimit),
   ("hints_left", .int g.hintsLeft),
   ("pending_challenge", Json.ofOption (fun pc => pc.toState g.players) g.pendingChallenge)]

/-- The shared part with the players added, the hand of `forPlayerId` shown. -/
def stateFromShared (g : Game) (shared : List (String × Json)) (forPlayerId : Option String) :
    Json :=
  .obj (shared ++
    [("players", .arr (g.players.map fun p => p.toJson (decide (some p.id = forPlayerId))))])

/-- The state as a player sees it, or as anybody does with `none`. -/
def getState (g : Game) (forPlayerId : Option String) : Json :=
  g.stateFromShared g.sharedState forPlayerId

/-- The states of all human players. -/
def getAllStates (g : Game) : List (String × Json) :=
  let shared := g.sharedState
  (g.players.filter fun p => !p.isBot).map fun p => (p.id, g.stateFromShared shared (some p.id))

/-- The state as a spectator sees it. -/
def getSpectatorState (g : Game) : Json := (g.getState none).set "spectator" (.bool true)

end Game

end ScrabbleMagyar
