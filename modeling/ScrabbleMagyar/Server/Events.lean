import ScrabbleMagyar.Server.Core
import ScrabbleMagyar.Words.Dictionary

/-!
# Connections, rooms and saves

The handlers of `server/events.rs`: broken connections and the grace period, identity,
reconnection, the rooms before a game, leaving them, the start of a game, saving and restoring.

A handler with several outcomes first works out which one it is (`Break`, `Leave`, `Join`). A
request that is refused changes nothing; the limits that the settings of the server impose, and
which refuse more, are left out. The moves of a restored game that only its replay shows are left
out as well.
-/

namespace ScrabbleMagyar

def casefold (text : String) : String := String.ofList (toLowercase text.toList)

/-- A table from its entries; of several for one key the last counts. -/
def Table.ofList {κ ν : Type*} [DecidableEq κ] (l : List (κ × ν)) : Table κ ν :=
  l.foldl (fun t e => t.insert e.1 e.2) ∅

namespace Server

def allowedTurnTimeLimits : List ℤ := [0, 60, 90, 120, 180, 300]

def maxBots : ℕ := 3

/-- The name of a connection that has not given one. -/
def anonymous : String := "Névtelen"

variable (st : Server) (env : Env)

/-- Whether a connection is that of the owner of a room. -/
def isOwner (room : Room) (sid : String) : Bool :=
  (room.ownerToken.isSome && room.ownerToken == st.sidToToken.lookup sid) || room.owner == some sid

/-- Stop watching a game. -/
def leaveSpectate (sid : String) : Server :=
  match st.spectatorRooms.lookup sid with
  | none => st
  | some roomId => (st.removeSpectator sid).emitAllStates roomId

/-! ## Leaving a seat -/

/-- A player leaves the seat for the time being; with a token it can be taken again. -/
def seatAway (sid : String) (roomId : RoomId) (token : Option Token) : Server :=
  let name := (st.playerNames.lookup sid).getD "?"
  let auth := st.playerAuth.lookup sid
  let st := st.modifyGame roomId fun g => (g.markDisconnected sid).1
  match token with
  | some token => (st.markDisconnected token sid roomId name auth).1
  | none => st

/-- What follows the removal of a seat: a room without humans is released, and an owner who has
left is replaced. -/
def afterRemoval (sid : String) (roomId : RoomId) : Server :=
  match st.rooms.lookup roomId with
  | none => st
  | some room =>
    if room.game.humanPlayers.isEmpty || (room.isAsync && !room.game.hasConnectedHuman) then
      st.cleanupRoom roomId
    else
      let st := if room.owner = some sid then st.transferOwnership roomId else st
      st.emitAllStates roomId

/-- What becomes of the seat of a connection that breaks. -/
inductive Break
  | unseated
  /-- A correspondence game keeps it. -/
  | kept (roomId : RoomId) (token : Option Token)
  /-- It is kept for the grace period. -/
  | grace (roomId : RoomId) (token : Token)
  | removed (roomId : RoomId)

def breakOf (sid : String) : Break :=
  match st.roomForPlayer sid with
  | none => .unseated
  | some (roomId, room) =>
    if room.isAsync && room.isRunning then .kept roomId (st.sidToToken.lookup sid)
    else match st.sidToToken.lookup sid with
      | some token => if room.game.finished then .removed roomId else .grace roomId token
      | none => .removed roomId

/-- The seat of a connection that breaks. -/
def breakSeat (sid : String) : Break → Server
  | .unseated => st.cleanupPlayerToken sid
  | .kept roomId token => ((st.seatAway sid roomId token).emitAllStates roomId).exitRoom sid
  | .grace roomId token =>
    let st := st.seatAway sid roomId (some token)
    let st := { st with graceTimers := (token, st.disconnectSeq) :: st.graceTimers }
    (st.emitAllStates roomId).exitRoom sid
  | .removed roomId =>
    let st := st.modifyGame roomId fun g => (g.removePlayer sid).1
    ((st.afterRemoval sid roomId).exitRoom sid).cleanupPlayerToken sid

/-- A connection breaks. Its account stays known only during the grace period. -/
def handleDisconnect (sid : String) : Server :=
  let st := st.leaveSpectate sid
  let broken := st.breakOf sid
  let st := st.breakSeat sid broken
  { st with
    playerNames := st.playerNames.erase sid
    playerAuth := match broken with
      | .grace _ _ => st.playerAuth
      | _ => st.playerAuth.erase sid
    closed := insert sid st.closed }

/-- The grace period of a token is over: the player is gone for good. -/
def finalizePlayerDisconnect (token : Token) : Server :=
  match st.finalizeDisconnect token with
  | (_, none) => st
  | (st, some info) =>
    let st := { st with playerAuth := st.playerAuth.erase info.sid }
    match st.rooms.lookup info.roomId with
    | none => st
    | some room =>
      if room.owner = some info.sid ∧ room.isRunning = true ∧ room.game.players ≠ [] then
        (st.saveManually info.roomId).disbandActiveRoom info.roomId (some info.sid)
      else
        -- the seat of a running game is kept for its save
        let game := if room.isRunning then room.game else (room.game.removePlayer info.sid).1
        let st := st.modifyRoom info.roomId fun room => { room with game }
        if !game.hasConnectedHuman then
          (st.abandonSave info.roomId room).cleanupRoom info.roomId
        else
          let st := if room.owner = some info.sid then st.transferOwnership info.roomId else st
          let st := if room.isRunning then st.advanceTurnIfNeeded env info.roomId else st
          st.emitAllStates info.roomId

/-- A grace period ends, unless the disconnection it was for is no longer in force. -/
def graceTimeout (token : Token) (seq : ℕ) : Server :=
  if st.disconnectIsCurrent token seq then st.finalizePlayerDisconnect env token else st

/-- What becomes of the seat of a player who leaves. -/
inductive Leave
  | unseated
  /-- A correspondence game keeps it. -/
  | kept (roomId : RoomId) (token : Option Token)
  /-- The owner ends the running game. -/
  | disbanded (roomId : RoomId)
  /-- A running game keeps it. -/
  | paused (roomId : RoomId) (token : Token)
  | removed (roomId : RoomId)

def leaveOf (sid : String) : Leave :=
  match st.roomForPlayer sid with
  | none => .unseated
  | some (roomId, room) =>
    if room.isAsync && room.isRunning then .kept roomId (st.sidToToken.lookup sid)
    else if room.owner = some sid ∧ room.isRunning = true then .disbanded roomId
    else match st.sidToToken.lookup sid with
      | some token => if room.isRunning then .paused roomId token else .removed roomId
      | none => .removed roomId

def leaveRoom (sid : String) : Server :=
  match st.leaveOf sid with
  | .unseated => st
  | .kept roomId token => ((st.seatAway sid roomId token).exitRoom sid).emitAllStates roomId
  | .disbanded roomId =>
    ((st.disbandActiveRoom roomId (some sid)).exitRoom sid).cleanupPlayerToken sid
  | .paused roomId token =>
    let st := (st.seatAway sid roomId (some token)).advanceTurnIfNeeded env roomId
    (st.emitAllStates roomId).exitRoom sid
  | .removed roomId =>
    let st := st.modifyGame roomId fun g => (g.removePlayer sid).1
    ((st.cleanupPlayerToken sid).exitRoom sid).afterRemoval sid roomId

/-! ## Identity -/

/-- A connection takes a name and, with `auth`, an account. -/
def setName (sid name : String) (auth : AuthInfo) : Server := st.registerPlayer sid name auth

def logout (sid : String) : Server :=
  let st := if (st.playerRooms.lookup sid).isSome then st.leaveRoom env sid else st
  let st := st.leaveSpectate sid
  { st with playerAuth := st.playerAuth.erase sid, playerNames := st.playerNames.erase sid }

/-! ## Reconnection -/

/-- Disconnect the connection that still holds the seat of a token, so that another one can take
it over. -/
def releaseLiveSession (token : Token) : Server :=
  match st.reconnectTokens.lookup token with
  | none => st
  | some info => match st.rooms.lookup info.roomId with
    | none => st
    | some room =>
      if room.game.finished ∨ st.playerRooms.lookup info.sid ≠ some info.roomId then st
      else
        let name := (st.playerNames.lookup info.sid).getD info.playerName
        let auth := (st.playerAuth.lookup info.sid).or info.authInfo
        let st := st.modifyGame info.roomId fun g => (g.markDisconnected info.sid).1
        ((st.exitRoom info.sid).markDisconnected token info.sid info.roomId name auth).1

/-- Seat a connection with a token; `room` is the room of the token, `info` its
disconnection. -/
def takeSeatBack (sid : String) (token : Token) (info : DisconnectedInfo) (auth : AuthInfo)
    (room : Room) (game : Game) : Server :=
  let owns := room.owner == some info.sid || room.ownerToken == some token
  let room := { room with
    game
    owner := if owns then some sid else room.owner
    ownerToken := if owns then some token else room.ownerToken }
  let st := { st with rooms := st.rooms.insert info.roomId room }
  let st := (st.completeRejoin token sid).enterRoom sid info.roomId
  let st := { st with
    playerNames := st.playerNames.insert sid info.playerName
    playerAuth := (st.playerAuth.erase info.sid).insert sid auth }
  (st.emitAllStates info.roomId).scheduleBotTurn info.roomId

/-- The state in which a token is looked up: a connection that still holds its seat has been
released. -/
def rejoinRelease (token : Token) : Server :=
  if (st.disconnectedPlayers.lookup token).isNone ∧ (st.reconnectTokens.lookup token).isSome then
    st.releaseLiveSession token
  else st

/-- A connection comes back with a token; `banned` says that its account is. -/
def rejoinRoom (sid : String) (token : Token) (banned : Bool) : Server :=
  let st := st.rejoinRelease token
  match st.disconnectedPlayers.lookup token, st.reconnectTokens.lookup token with
  | some info, some entry =>
    if banned ∧ (entry.authInfo.bind AuthInfo.registeredId).isSome then st
    else match st.rooms.lookup info.roomId with
      | none =>
        { st with
          disconnectedPlayers := st.disconnectedPlayers.erase token
          reconnectTokens := st.reconnectTokens.erase token }
      | some room => match room.game.replacePlayerSid info.sid sid with
        | (_, false) => st
        | (game, true) =>
          st.takeSeatBack sid token info (entry.authInfo.getD AuthInfo.guest) room game
  | _, _ => st

/-! ## Rooms -/

/-- What a request for a new room asks for. -/
structure RoomOptions where
  maxPlayers : ℤ
  challengeMode : Bool
  isPrivate : Bool
  turnTimeLimit : ℤ
  hintLimit : ℤ
  levels : List Difficulty

/-- The names of robots of a strength. -/
def botNamePool (difficulty : Difficulty) : List String :=
  let level := match difficulty with
    | .level n => n
    | .auto => defaultLevel
  if level ≤ 3 then ["Robi", "Rozi", "Rudi"]
  else if level ≤ 7 then ["Rita", "Ricsi", "Réka"]
  else ["Rezső", "Róbert", "Rómeó"]

/-- The first numbered name that is free; at most every seated player takes one. -/
def numberedName (taken : List String) (name : String) : ℕ → ℕ → String
  | 0, n => s!"{name} {n}"
  | fuel + 1, n =>
    if casefold s!"{name} {n}" ∈ taken then numberedName taken name fuel (n + 1)
    else s!"{name} {n}"

/-- A free name for a robot. -/
def botName (game : Game) (difficulty : Difficulty) : String :=
  let taken := game.players.map fun p => casefold p.name
  let pool := botNamePool difficulty
  match pool.find? fun name => casefold name ∉ taken with
  | some name => name
  | none => numberedName taken (pool.headD "") taken.length 2

def addBots (game : Game) : List Difficulty → Game
  | [] => game
  | level :: levels => addBots (game.addBot (botName game level) level.toJson).1 levels

/-- Seat a connection in a new room. -/
def openRoom (sid playerName : String) (room : Token → Room) : Server :=
  let roomId := st.roomSeq
  let granted := st.generateReconnectToken sid roomId playerName (st.playerAuth.lookup sid)
  ((granted.1.addRoom (room granted.2)).enterRoom sid roomId).emitAllStates roomId

def createRoom (sid : String) (o : RoomOptions) : Server :=
  if (st.roomForPlayer sid).isSome then st
  else
    let maxPlayers := (max 2 (min o.maxPlayers 4)).toNat
    let turnTimeLimit := if o.turnTimeLimit ∈ allowedTurnTimeLimits then o.turnTimeLimit else 0
    let playerName := (st.playerNames.lookup sid).getD anonymous
    let game := Game.new env (toString st.roomSeq) o.challengeMode turnTimeLimit o.hintLimit
    let game := addBots (game.addPlayer sid playerName).1
      ((o.levels.take maxBots).take (maxPlayers - 1))
    st.openRoom sid playerName fun token =>
      Room.new game (some sid) playerName maxPlayers o.isPrivate (some token)

/-- Whether a seat of a saved game may go to an account. -/
def identityMatches (expected : Identity) (auth : Option AuthInfo) : Bool :=
  match expected with
  | .any => true
  | .guest => ((auth.bind AuthInfo.userId).filter fun u => u ≠ 0).isNone
  | .user uid => match auth with
    | some a => a.userId == some uid && !a.isGuest
    | none => false

/-- Whose a seat of a restored game is. -/
def knownIdentity (room : Room) (name : String) : Identity :=
  match room.knownUserIds.lookup name with
  | none => .any
  | some userId => .fromUserId userId

/-- Whether a player may enter a lobby: that of a restored game is for its players. -/
def admits (room : Room) (playerName : String) (auth : Option AuthInfo) : Bool :=
  match room.expectedPlayers with
  | none => true
  | some expected =>
    if !room.isRestored || expected.isEmpty then true
    else expected.contains playerName && !(room.game.players.any fun p => p.name = playerName) &&
      identityMatches (knownIdentity room playerName) auth

/-- The seat of a running restored game that is free for one of its players. -/
def lateSeat (room : Room) (playerName : String) (auth : Option AuthInfo) : Option Player :=
  if room.game.finished then none
  else match room.lateJoinNames.lookup playerName with
    | none => none
    | some expected =>
      (room.game.players.find? fun p => p.name = playerName ∧ p.disconnected = true).filter
        fun _ => identityMatches expected auth

/-- The outcome of a request to join a room. -/
inductive Join
  | refused
  /-- The free seat of a running game. -/
  | late (oldId : String)
  | seat

def joinOf (sid : String) (roomId : RoomId) (byCode : Bool) : Join :=
  let playerName := (st.playerNames.lookup sid).getD anonymous
  let auth := st.playerAuth.lookup sid
  if (st.roomForPlayer sid).isSome then .refused
  else match st.rooms.lookup roomId with
    | none => .refused
    | some room =>
      if room.isPrivate && !byCode then .refused
      else if !admits room playerName auth then .refused
      else if room.game.started then
        match lateSeat room playerName auth with
        | some p => .late p.id
        | none => .refused
      else if room.game.players.length ≥ room.maxPlayers then .refused
      else if room.game.players.any fun p => casefold p.name = casefold playerName then .refused
      else match room.game.addPlayer sid playerName with
        | (_, .error _) => .refused
        | (_, .ok _) => .seat

def joinRoom (sid : String) (roomId : RoomId) (byCode : Bool) : Server :=
  let playerName := (st.playerNames.lookup sid).getD anonymous
  let auth := st.playerAuth.lookup sid
  match st.joinOf sid roomId byCode with
  | .refused => st
  | .late oldId =>
    let st := st.modifyRoom roomId fun room => { room with
      game := (room.game.replacePlayerSid oldId sid).1
      lateJoinNames := room.lateJoinNames.erase playerName }
    let st := ((st.enterRoom sid roomId).generateReconnectToken sid roomId playerName auth).1
    (st.emitAllStates roomId).scheduleBotTurn roomId
  | .seat =>
    let st := st.modifyGame roomId fun g => (g.addPlayer sid playerName).1
    let st := ((st.enterRoom sid roomId).generateReconnectToken sid roomId playerName auth).1
    st.emitAllStates roomId

/-! ## Starting, saving and restoring a game -/

/-- A saved player in the restored game: connected when somebody of that name is in the lobby,
whose seat it becomes. -/
def pairSeat (lobby : List Player) (player : Player) : Player :=
  if player.isBot then { player with disconnected := false }
  else match lobby.reverse.find? fun p => p.name = player.name with
    | some p => { player with id := p.id, disconnected := false }
    | none => { player with disconnected := true }

/-- The game of a save with the players of the lobby in their seats. -/
def restoredGame (save : SavedGame) (lobby : List Player) : Option Game :=
  match Game.fromSaveDict env save.stateJson with
  | .error _ => none
  | .ok game =>
    let players := game.players.map (pairSeat lobby)
    let idx := if game.currentPlayerIdx ≥ players.length then 0 else game.currentPlayerIdx
    let game := { game with players, currentPlayerIdx := idx }
    if game.hasConnectedHuman then some (game.skipDisconnectedCurrent env).1 else none

/-- The players who are missing from a restored game. -/
def missingPlayers (room : Room) (game : Game) : Table String Identity :=
  Table.ofList ((game.players.filter fun p => p.disconnected).map fun p =>
    (p.name, knownIdentity room p.name))

/-- Start a restored game. Its old save is closed, it is played on in a new room. -/
def restoreStart (roomId : RoomId) (room : Room) (save : SavedGame) : Server :=
  match restoredGame env save room.game.players with
  | none => st
  | some game =>
    let st := st.modifyRoom roomId fun room => { room with
      lateJoinNames := missingPlayers room game
      game
      restoreSaveData := none
      isRestored := false
      dbGameId := none
      origin := some save.origin }
    let st := { st with db := st.db.abandonGameById save.id }
    let st := ((st.startTurnTimer roomId).emitAllStates roomId).scheduleBotTurn roomId
    (st.saveGameToDb roomId).1

def startGame (sid : String) : Server :=
  match st.roomForPlayer sid with
  | none => st
  | some (roomId, room) =>
    if !st.isOwner room sid then st
    else match room.restoreSaveData with
      | some save => st.restoreStart env roomId room save
      | none => match room.game.start env with
        | (_, .error _) => st
        | (game, .ok _) =>
          let st := st.modifyRoom roomId fun room => { room with game }
          let st := ((st.startTurnTimer roomId).emitAllStates roomId).scheduleBotTurn roomId
          (st.saveGameToDb roomId).1

/-- The owner saves the game. -/
def saveGame (sid : String) : Server :=
  match st.roomForPlayer sid with
  | none => st
  | some (roomId, room) =>
    if !st.isOwner room sid || !room.isRunning then st else st.saveManually roomId

/-- The names of the human players of a save. -/
def expectedNames (savedPlayers : List Json) : List String :=
  (savedPlayers.filter fun p => !((p.get? "is_bot").map truthy).getD false).filterMap fun p =>
    (p.get? "name").bind Json.asStr

/-- The save that a connection may restore. -/
def restorable (sid : String) (gameId : ℕ) : Option SavedGame :=
  if (st.roomForPlayer sid).isSome then none
  else match ((st.playerAuth.lookup sid).bind AuthInfo.userId).filter fun u => u ≠ 0 with
    | none => none
    | some userId => match st.db.getGameById gameId with
      | none => none
      | some row =>
        let playerName := (st.playerNames.lookup sid).getD anonymous
        let savedPlayers := ((row.stateJson.get? "players").bind Json.asArray).getD []
        if row.status ≠ .active || row.isAsync || !Db.isUserInGame row userId then none
        else if row.ownerName ≠ "" && row.ownerName ≠ playerName then none
        else if (expectedNames savedPlayers).isEmpty then none
        else some row

/-- Open the lobby of a saved game. -/
def restoreGame (sid : String) (gameId : ℕ) : Server :=
  match st.restorable sid gameId with
  | none => st
  | some row =>
    let playerName := (st.playerNames.lookup sid).getD anonymous
    let savedPlayers := ((row.stateJson.get? "players").bind Json.asArray).getD []
    let challengeMode := ((row.stateJson.get? "challenge_mode").map truthy).getD false
    let hintLimit := ((row.stateJson.get? "hint_limit").bind pyInt).getD defaultHintLimit
    let game := Game.new env (toString st.roomSeq) challengeMode 0 hintLimit
    st.openRoom sid playerName fun token =>
      { Room.new (game.addPlayer sid playerName).1 (some sid) playerName
          (max savedPlayers.length 2) true (some token) with
        isRestored := true
        restoreSaveData := some row
        expectedPlayers := some (expectedNames savedPlayers)
        knownUserIds := Table.ofList row.players }

end Server

end ScrabbleMagyar
