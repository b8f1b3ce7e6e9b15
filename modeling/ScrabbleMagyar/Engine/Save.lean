import ScrabbleMagyar.Engine.Game

/-!
# Saving and restoring a game

`Game.toSaveDict` writes the state that is stored, `Game.fromSaveDict` reads it back, with the
source's defaults for absent fields. A pending placement is not stored: its tiles are written
back into the placer's hand.
-/

namespace ScrabbleMagyar

namespace Game

/-- The stored form of a player whose hand is written as `hand`. -/
def playerToSave (p : Player) (hand : List Tile) : Json :=
  .obj
    [("id", .str p.id), ("name", .str p.name), ("hand", tilesToJson hand), ("score", .int p.score),
     ("skip_next_turn", .bool p.skipNextTurn), ("disconnected", .bool p.disconnected),
     ("timeouts", .int p.timeouts), ("resigned", .bool p.resigned), ("is_bot", .bool p.isBot),
     ("difficulty", p.difficultyJson)]

/-- The hand that is stored for a seat: the placer of a pending placement has its tiles back. -/
def savedHand (g : Game) (idx : ℕ) (p : Player) : List Tile :=
  match g.pendingChallenge with
  | some pc => if idx = pc.playerIdx then p.hand ++ pc.removedFromHand else p.hand
  | none => p.hand

/-- The last action that is stored: a pending placement is reported as taken back. -/
def savedLastAction (g : Game) : Option String × Option Json :=
  match g.pendingChallenge with
  | some pc =>
    let name := (g.playerAt pc.playerIdx).name
    (some s!"{name} lerakása a mentés miatt visszavonva.",
      some (.obj [("type", .str "save_revert"), ("player", .str name)]))
  | none => (g.lastAction, g.lastActionInfo)

def toSaveDict (g : Game) : Json :=
  .obj
    [("id", .str g.id), ("challenge_mode", .bool g.challengeMode),
     ("turn_time_limit", .int g.turnTimeLimit), ("hint_limit", .int g.hintLimit),
     ("hints_used", .int g.hintsUsed), ("started", .bool g.started),
     ("finished", .bool g.finished), ("current_player_idx", .int g.currentPlayerIdx),
     ("turn_number", .int g.turnNumber), ("scoreless_turns", .int g.scorelessTurns),
     ("async_mode", .bool g.asyncMode), ("turn_hours", .int g.turnHours),
     ("turn_deadline", Json.ofOption Json.float g.turnDeadline),
     ("last_action", Json.ofOption Json.str g.savedLastAction.1),
     ("last_action_info", Json.ofOption (fun j => j) g.savedLastAction.2),
     ("board", g.board.toJson), ("board_is_empty", .bool g.board.isEmpty),
     ("bag_tiles", tilesToJson g.bag.tiles),
     ("players", .arr (g.players.zipIdx.map fun e => playerToSave e.1 (g.savedHand e.2 e.1))),
     ("winner_names", .arr (g.winners.map fun w => .str w.name))]

/-- Read a stored player. -/
def playerFromSave (pd : Json) : Fallible Player :=
  match (pd.get? "id").bind Json.asStr with
  | none => .error "hiányzó játékosazonosító"
  | some id =>
    match (pd.get? "name").bind Json.asStr with
    | none => .error "hiányzó játékosnév"
    | some name =>
      let flag (key : String) : Bool := ((pd.get? key).map truthy).getD false
      let player :=
        if flag "is_bot" then Player.newBot id name (pd.field "difficulty") else Player.new id name
      .ok { player with
        hand := tilesFromJson (pd.field "hand")
        score := toI32 (((pd.get? "score").bind pyInt).getD 0)
        skipNextTurn := flag "skip_next_turn"
        timeouts := toU32 (max (((pd.get? "timeouts").bind pyInt).getD 0) 0)
        resigned := flag "resigned"
        disconnected := if player.isBot then false else flag "disconnected" }

/-- Read the stored players, up to the first that is malformed. -/
def playersFromSave : List Json → Fallible (List Player)
  | [] => .ok []
  | pd :: rest =>
    match playerFromSave pd with
    | .error e => .error e
    | .ok p =>
      match playersFromSave rest with
      | .error e => .error e
      | .ok players => .ok (p :: players)

/-- The stored names of the winners; an old save has at most one. -/
def winnerNamesFromSave (data : Json) : List String :=
  match (data.get? "winner_names").bind Json.asArray with
  | some names => names.filterMap Json.asStr
  | none =>
    match ((data.get? "winner_name").bind Json.asStr).filter fun s => s ≠ "" with
    | some name => [name]
    | none => []

def fromSaveDict (env : Env) (data : Json) : Fallible Game :=
  match (data.get? "id").bind Json.asStr with
  | none => .error "hiányzó játékazonosító"
  | some id =>
    let int (key : String) (default : ℤ) : ℤ := ((data.get? key).bind pyInt).getD default
    let flag (key : String) : Bool := ((data.get? key).map truthy).getD false
    let playersData := ((data.get? "players").bind Json.asArray).getD []
    -- an old save has no counter of the game, the longest row of passes of a player stands in
    let legacyPasses :=
      (playersData.map fun pd => ((pd.get? "consecutive_passes").bind pyInt).getD 0).max?.getD 0
    let board := match data.get? "board" with
      | some b => Board.fromJson b
      | none => Board.new
    match playersFromSave playersData with
    | .error e => .error e
    | .ok players =>
      let winnerNames := winnerNamesFromSave data
      .ok { Game.new env id (flag "challenge_mode") (int "turn_time_limit" 0)
          (int "hint_limit" defaultHintLimit) with
        hintsUsed := max (int "hints_used" 0) 0
        started := flag "started"
        finished := flag "finished"
        currentPlayerIdx := (max (int "current_player_idx" 0) 0).toNat
        turnNumber := int "turn_number" 0
        scorelessTurns := toU32 (max (int "scoreless_turns" legacyPasses) 0)
        asyncMode := flag "async_mode"
        turnHours := int "turn_hours" 0
        turnDeadline := (data.get? "turn_deadline").bind Json.asFloat
        lastAction := (data.get? "last_action").bind Json.asStr
        lastActionInfo := (data.get? "last_action_info").filter fun v => !v.isNull
        board := { board with isEmpty := ((data.get? "board_is_empty").map truthy).getD true }
        bag := ⟨tilesFromJson (data.field "bag_tiles")⟩
        players
        winners := players.filter fun p => p.name ∈ winnerNames }

end Game

end ScrabbleMagyar
