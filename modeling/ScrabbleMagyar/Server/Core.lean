import ScrabbleMagyar.Engine.Operations
import ScrabbleMagyar.Robot.Move
import ScrabbleMagyar.Server.State

/-!
# Timers, robots, saving and the life of a room

The operations that the handlers of the server share (`server/core.rs`). A task that is spawned
to act later is an entry of the lists of waiting tasks; the functions that such a task runs in
the end are here too.

Sending the state to the clients shows here only in the saving of correspondence games
(`persistAsync`). Errors of the database are left out.
-/

namespace ScrabbleMagyar

namespace Game

def humanPlayers (g : Game) : List Player := g.players.filter fun p => !p.isBot

/-- Whether a human player is still connected. -/
def hasConnectedHuman (g : Game) : Bool := g.players.any fun p => !p.isBot && !p.disconnected

end Game

namespace Server

/-- Whether the player whose turn it is is a robot that has to move now. Robots do not play among
themselves without a human who watches. -/
def botShouldMove (room : Room) : Bool :=
  let game := room.game
  if !game.started || game.finished || game.pendingChallenge.isSome then false
  else match game.currentPlayer with
    | none => false
    | some current =>
      if !current.isBot then false
      else game.hasConnectedHuman || decide (room.spectators ≠ ∅)

/-! ## Saving -/

/-- The account of a player: that of the connection, or the one known from the save. -/
def userIdForPlayer (room : Room) (player : Player) (playerAuth : Table String AuthInfo) :
    Option UserId :=
  ((playerAuth.lookup player.id).bind AuthInfo.userId).or
    ((room.knownUserIds.lookup player.name).bind id)

/-- The results of the players of a room as they are stored. -/
def gamePlayerData (room : Room) (playerAuth : Table String AuthInfo) : List GamePlayerData :=
  let winners := room.game.winners.map Player.name
  room.game.players.map fun p =>
    { playerName := p.name, userId := userIdForPlayer room p playerAuth, score := p.score,
      isWinner := winners.contains p.name, resigned := p.resigned }

variable (st : Server)

/-- Save the game of a room, or record its result when it has ended. The answer is whether that
succeeded. -/
def saveGameToDb (roomId : RoomId) : Server × Bool :=
  match st.rooms.lookup roomId with
  | none => (st, false)
  | some room =>
    let game := room.game
    if game.puzzle.isSome then (st, true)
    else if !game.started then (st, false)
    else if game.finished && room.resultSaved then (st, true)
    else
      let ownerName := (room.owner.bind st.playerNames.lookup).getD room.ownerName
      let players := gamePlayerData room st.playerAuth
      let saved :=
        if game.finished then st.db.finishGame roomId game.toSaveDict players room.origin
        else st.db.saveGame roomId game.toSaveDict players ownerName room.isAsync room.origin
      ({ st with
          db := saved.1
          rooms := st.rooms.insert roomId
            { room with
              dbGameId := some saved.2
              resultSaved := room.resultSaved || game.finished
              origin := (saved.1.getGameById saved.2).map SavedGame.origin } }, true)

/-- Save the game of a room for good: giving it up does not close the save. -/
def saveManually (roomId : RoomId) : Server :=
  match st.saveGameToDb roomId with
  | (st, true) => st.modifyRoom roomId fun room => { room with manuallySaved := true }
  | (st, false) => st

/-- Save a correspondence game when it has changed. -/
def persistAsync (roomId : RoomId) : Server :=
  match st.rooms.lookup roomId with
  | none => st
  | some room =>
    if !room.isAsync || !room.game.started then st
    else
      let signature := (room.game.moveLog.length, room.game.finished, room.game.turnNumber)
      if room.persistedSig = some signature then st
      else ((st.modifyRoom roomId fun room =>
        { room with persistedSig := some signature }).saveGameToDb roomId).1

/-- Send every player and spectator the state of a room. -/
def emitAllStates (roomId : RoomId) : Server := st.persistAsync roomId

/-! ## Timers and robots -/

def startChallengeTimer (roomId : RoomId) : Server :=
  match st.rooms.lookup roomId with
  | none => st
  | some room =>
    let room := room.invalidateChallengeTimer
    { st with
      rooms := st.rooms.insert roomId room
      challengeTimers := ⟨roomId, room.challengeTimerId⟩ :: st.challengeTimers }

/-- Start the timer of the turn, unless turns are not limited or a vote is running. -/
def startTurnTimer (roomId : RoomId) : Server :=
  match st.rooms.lookup roomId with
  | none => st
  | some room =>
    if room.game.turnTimeLimit = 0 || room.game.pendingChallenge.isSome then st
    else
      let room := room.invalidateTurnTimer
      let current := room.game.playerAt room.game.currentPlayerIdx
      { st with
        rooms := st.rooms.insert roomId room
        turnTimers := ⟨roomId, room.turnTimerId, room.game.turnNumber, current.name⟩ ::
          st.turnTimers }

/-- Start the move of a robot whose turn it is. -/
def scheduleBotTurn (roomId : RoomId) : Server :=
  match st.rooms.lookup roomId with
  | none => st
  | some room =>
    if !botShouldMove room then st
    else
      let room := room.invalidateBotTurn
      { st with
        rooms := st.rooms.insert roomId room
        botTurns := ⟨roomId, room.botTurnId, room.game.turnNumber, none⟩ :: st.botTurns }

/-- What follows the end of a vote by time-out and of a turn: the result is recorded, or the next
turn begins. -/
def beginTurn (roomId : RoomId) (finished : Bool) : Server :=
  if finished then ((st.emitAllStates roomId).saveGameToDb roomId).1
  else ((st.startTurnTimer roomId).emitAllStates roomId).scheduleBotTurn roomId

/-- The time for a vote is over. -/
def challengeTimeout (env : Env) (roomId : RoomId) (timerId : ℕ) : Server :=
  match st.rooms.lookup roomId with
  | none => st
  | some room =>
    if room.challengeTimerId ≠ timerId || room.game.pendingChallenge.isNone then st
    else match room.game.acceptPending env with
      | (_, .error _) => st
      | (game, .ok _) =>
        (st.modifyRoom roomId fun room => { room with game }).beginTurn roomId game.finished

/-- The time of a turn is over: a pass for the player whose turn it is. -/
def turnTimeout (env : Env) (roomId : RoomId) (timerId : ℕ) : Server :=
  match st.rooms.lookup roomId with
  | none => st
  | some room =>
    if room.turnTimerId ≠ timerId then st
    else if room.game.finished || !room.game.started then st
    else match room.game.currentPlayer with
      | none => st
      | some current =>
        match room.game.passTurn env current.id false with
        | (_, .error _) => st
        | (game, .ok _) =>
          let st := st.modifyRoom roomId fun room => { room with game }
          if game.finished then
            (st.modifyRoom roomId Room.invalidateTurnTimer).beginTurn roomId true
          else st.beginTurn roomId false

/-- What follows a vote. -/
def handleChallengeResult (roomId : RoomId) (result : VoteResult) : Server :=
  let st := if result ≠ .recorded then st.modifyRoom roomId Room.invalidateChallengeTimer else st
  let finished := match st.rooms.lookup roomId with
    | some room => room.game.finished
    | none => false
  let st := if finished then (st.saveGameToDb roomId).1 else st.startTurnTimer roomId
  (st.emitAllStates roomId).scheduleBotTurn roomId

/-- What follows a move: the vote on it, the record of the result, or the next turn. -/
def afterMove (roomId : RoomId) : Server :=
  match st.rooms.lookup roomId with
  | none => st
  | some room =>
    let st := st.modifyRoom roomId Room.invalidateTurnTimer
    let st :=
      if room.game.pendingChallenge.isSome then st.startChallengeTimer roomId
      else if room.game.finished then (st.saveGameToDb roomId).1
      else st.startTurnTimer roomId
    (st.emitAllStates roomId).scheduleBotTurn roomId

/-- A robot looks at the table: unless its move has become void, the search is under way for it. -/
def takeSnapshot (turn : BotTurn) : Server :=
  match st.rooms.lookup turn.roomId with
  | none => st
  | some room =>
    if room.botTurnId ≠ turn.turnId || !botShouldMove room then st
    else match room.game.currentPlayer with
      | none => st
      | some bot =>
        if room.game.turnNumber ≠ turn.turnNumber then st
        else { st with botTurns := { turn with botId := some bot.id } :: st.botTurns }

/-- A robot does what it has decided on, or passes where that fails. -/
def botAct (env : Env) (game : Game) (botId : String) (action : Robot.Action) :
    Game × Fallible String :=
  let tried : Game × Bool := match action with
    | .place tiles _ _ => match game.placeTiles env botId tiles with
      | (game, .ok _) => (game, true)
      | (_, .error _) => (game, false)
    | .exchange indices => match game.exchangeTiles env botId (indices.map fun i => (i : ℤ)) with
      | (game, .ok _) => (game, true)
      | (_, .error _) => (game, false)
    | .pass => (game, false)
  if tried.2 then (tried.1, .ok "") else game.passTurn env botId false

/-- The search of a robot has ended: its action is carried out unless the table has changed. -/
def playBotTurn (env : Env) (turn : BotTurn) (botId : String) (action : Robot.Action) : Server :=
  match st.rooms.lookup turn.roomId with
  | none => st
  | some room =>
    let unchanged := !room.game.finished && room.game.pendingChallenge.isNone &&
      (match room.game.currentPlayer with
        | some p => p.id == botId
        | none => false) &&
      room.game.turnNumber == turn.turnNumber && room.botTurnId == turn.turnId
    if !unchanged then st
    else match botAct env room.game botId action with
      | (_, .error _) => st
      | (game, .ok _) =>
        (st.modifyRoom turn.roomId fun room => { room with game }).afterMove turn.roomId

/-! ## The life of a room -/

/-- The first connected human, who becomes the owner. -/
def newOwner (game : Game) : Option Player :=
  let candidates := if game.humanPlayers.isEmpty then game.players else game.humanPlayers
  (candidates.find? fun p => !p.disconnected).or candidates.head?

def transferOwnership (roomId : RoomId) : Server :=
  match st.rooms.lookup roomId with
  | none => st
  | some room => match newOwner room.game with
    | none => st
    | some p =>
      st.modifyRoom roomId fun room =>
        room.transferOwnership p.id p.name (st.sidToToken.lookup p.id)

/-- Pass the turn of a disconnected player on. -/
def advanceTurnIfNeeded (env : Env) (roomId : RoomId) : Server :=
  match st.rooms.lookup roomId with
  | none => st
  | some room => match room.game.skipDisconnectedCurrent env with
    | (_, false) => st
    | (game, true) =>
      let st := st.modifyRoom roomId fun room => { room with game }.invalidateTurnTimer
      (st.startTurnTimer roomId).scheduleBotTurn roomId

/-- Close the save of a game that is given up, unless its owner wanted it. -/
def abandonSave (roomId : RoomId) (room : Room) : Server :=
  if room.isRunning && !room.manuallySaved then
    { st with
      db := match room.dbGameId with
        | some id => st.db.abandonGameById id
        | none => st.db.abandonGame roomId }
  else st

/-- A player of a room that is given up plays nowhere. -/
def dropPlayer (sid : String) : Server := (st.exitRoom sid).cleanupPlayerToken sid

/-- Give up the game of a room; `ownerSid` is left to the caller. -/
def disbandActiveRoom (roomId : RoomId) (ownerSid : Option String) : Server :=
  match st.rooms.lookup roomId with
  | none => st
  | some room =>
    let dropped := room.game.humanPlayers.filter fun p => some p.id ≠ ownerSid
    let st := dropped.foldl (fun st p => st.dropPlayer p.id) st
    ((st.cleanupRoomTokens roomId).abandonSave roomId room).cleanupRoom roomId

end Server

end ScrabbleMagyar
