import ScrabbleMagyar.Engine.Save
import ScrabbleMagyar.Foundations.Tables

/-!
# The state of the server

Rooms, connections, reconnect tokens and the grace period of disconnected players
(`server/state.rs`, `server/room.rs`), with the saved games of the database (`db/games.rs`) and
the tasks that wait for their time.

The identifiers the source draws at random (rooms, tokens of guests) are numbers given out in
order here, so that they do not repeat. Chat, invitations, the online list, the join codes (a
room is joined by its identifier here) and what is sent to the clients are left out, and so is
every field that no modelled function reads.

A connection is named by a `Sid`, which is not an identifier the server itself gives to a robot
or to a player of a correspondence game who has not come yet.
-/

namespace ScrabbleMagyar

namespace Server

/-- A registered user; 0 is not one. -/
abbrev UserId := ℕ

abbrev RoomId := ℕ

/-- Not an identifier of a robot (`Game.botId`) or of an absent player
(`Server.placeholderId`). -/
def isSid (id : String) : Bool :=
  !"bot-".toList.isPrefixOf id.toList && !"async-".toList.isPrefixOf id.toList

/-- A connection. -/
abbrev Sid := { id : String // isSid id = true }

/-- A reconnect token: the lasting one of a registered user, or a random one. -/
inductive Token
  | user (id : UserId)
  | guest (n : ℕ)
  deriving DecidableEq

instance : LawfulBEq (Token × ℕ) := inferInstance

/-- Who a connection belongs to. -/
structure AuthInfo where
  userId : Option UserId
  isGuest : Bool
  deriving DecidableEq

namespace AuthInfo

def guest : AuthInfo := ⟨none, true⟩

/-- The registered user; `none` for a guest. -/
def registeredId (a : AuthInfo) : Option UserId :=
  if a.isGuest then none else a.userId.filter fun u => u ≠ 0

end AuthInfo

structure TokenInfo where
  roomId : RoomId
  playerName : String
  sid : String
  authInfo : Option AuthInfo
  deriving DecidableEq

structure DisconnectedInfo where
  roomId : RoomId
  sid : String
  playerName : String
  authInfo : Option AuthInfo
  seq : ℕ
  deriving DecidableEq

/-- Whose a seat of a saved game is: not known from the save, a guest's, or a user's. -/
inductive Identity
  | any
  | guest
  | user (id : UserId)
  deriving DecidableEq

def Identity.fromUserId (userId : Option UserId) : Identity :=
  match userId.filter fun u => u ≠ 0 with
  | some id => user id
  | none => guest

/-! ## Saved games -/

inductive Status
  | active
  | finished
  | abandoned
  deriving DecidableEq

/-- The result of a player as it is stored. -/
structure GamePlayerData where
  playerName : String
  userId : Option UserId
  score : ℤ
  isWinner : Bool
  resigned : Bool
  deriving DecidableEq

/-- A row of `saved_games` with its rows of `game_players`. `origin` is not a column: it is the
first save of the line of saves and restorations the row belongs to. -/
structure SavedGame where
  id : ℕ
  roomId : RoomId
  stateJson : Json
  status : Status
  ownerName : String
  isAsync : Bool
  players : List (String × Option UserId)
  origin : ℕ

/-- A call of `finish_game`: the row it closed and the results it recorded. -/
structure Finish where
  gameId : ℕ
  roomId : RoomId
  players : List GamePlayerData
  origin : ℕ

structure Db where
  games : List SavedGame
  finishes : List Finish

namespace Db

def empty : Db := ⟨[], []⟩

/-- The active row of a room. -/
def activeOf (db : Db) (roomId : RoomId) : Option SavedGame :=
  db.games.find? fun g => g.roomId = roomId ∧ g.status = .active

def getGameById (db : Db) (id : ℕ) : Option SavedGame := db.games.find? fun g => g.id = id

/-- Rows are numbered in the order of their insertion. -/
def nextId (db : Db) : ℕ := db.games.length + 1

/-- A player's row with a new account, unless that is unknown. -/
def upsertPlayer (players : List (String × Option UserId)) (pd : GamePlayerData) :
    List (String × Option UserId) :=
  if players.any fun e => e.1 = pd.playerName then
    players.map fun e => if e.1 = pd.playerName then (e.1, pd.userId.or e.2) else e
  else players ++ [(pd.playerName, pd.userId)]

def upsertGamePlayers (players : List (String × Option UserId)) (data : List GamePlayerData) :
    List (String × Option UserId) := data.foldl upsertPlayer players

/-- Change the row of an identifier. -/
def modifyGame (db : Db) (id : ℕ) (f : SavedGame → SavedGame) : Db :=
  { db with games := db.games.map fun g => if g.id = id then f g else g }

/-- Save a game: into the active row of its room, or a new one. -/
def saveGame (db : Db) (roomId : RoomId) (stateJson : Json) (players : List GamePlayerData)
    (ownerName : String) (isAsync : Bool) (origin : Option ℕ) : Db × ℕ :=
  match db.activeOf roomId with
  | some row =>
    (db.modifyGame row.id fun g =>
      { g with stateJson, ownerName, players := upsertGamePlayers g.players players }, row.id)
  | none =>
    ({ db with games := db.games ++
        [{ id := db.nextId, roomId, stateJson, status := .active, ownerName, isAsync,
           players := upsertGamePlayers [] players, origin := origin.getD db.nextId }] },
      db.nextId)

/-- Record the result of a game: in the active row of its room, or a new one. -/
def finishGame (db : Db) (roomId : RoomId) (stateJson : Json) (players : List GamePlayerData)
    (origin : Option ℕ) : Db × ℕ :=
  match db.activeOf roomId with
  | some row =>
    let db := db.modifyGame row.id fun g =>
      { g with stateJson, status := .finished, players := upsertGamePlayers g.players players }
    ({ db with finishes := db.finishes ++ [⟨row.id, roomId, players, row.origin⟩] }, row.id)
  | none =>
    let origin := origin.getD db.nextId
    ({ games := db.games ++
        [{ id := db.nextId, roomId, stateJson, status := .finished, ownerName := "",
           isAsync := false, players := upsertGamePlayers [] players, origin }]
       finishes := db.finishes ++ [⟨db.nextId, roomId, players, origin⟩] }, db.nextId)

def abandonGameById (db : Db) (id : ℕ) : Db :=
  db.modifyGame id fun g => if g.status = .active then { g with status := .abandoned } else g

def abandonGame (db : Db) (roomId : RoomId) : Db :=
  { db with games := db.games.map fun g =>
      if g.roomId = roomId ∧ g.status = .active then { g with status := .abandoned } else g }

/-- Whether a user has a seat in a saved game. -/
def isUserInGame (row : SavedGame) (userId : UserId) : Bool :=
  row.players.any fun e => e.2 = some userId

end Db

/-! ## Rooms -/

/-- A room. `origin` is not a field of the source: it is the origin of the save the game
continues, once there is one. -/
structure Room where
  game : Game
  /-- The connection of the owner; a reloaded correspondence game has none. -/
  owner : Option String
  ownerToken : Option Token
  ownerName : String
  maxPlayers : ℕ
  isPrivate : Bool
  isRestored : Bool
  /-- A correspondence game. -/
  isAsync : Bool
  /-- The state of a correspondence game that was saved last. -/
  persistedSig : Option (ℕ × Bool × ℤ)
  challengeTimerId : ℕ
  turnTimerId : ℕ
  botTurnId : ℕ
  spectators : Finset String
  dbGameId : Option ℕ
  manuallySaved : Bool
  resultSaved : Bool
  /-- The accounts of a restored game by player name; `none` for a guest. -/
  knownUserIds : Table String (Option UserId)
  /-- The players missing from a restored game, who may still join. -/
  lateJoinNames : Table String Identity
  restoreSaveData : Option SavedGame
  expectedPlayers : Option (List String)
  origin : Option ℕ

namespace Room

def new (game : Game) (owner : Option String) (ownerName : String) (maxPlayers : ℕ)
    (isPrivate : Bool) (ownerToken : Option Token) : Room :=
  { game, owner, ownerToken, ownerName, maxPlayers, isPrivate, isRestored := false,
    isAsync := false, persistedSig := none, challengeTimerId := 0, turnTimerId := 0,
    botTurnId := 0, spectators := ∅, dbGameId := none, manuallySaved := false,
    resultSaved := false, knownUserIds := ∅, lateJoinNames := ∅, restoreSaveData := none,
    expectedPlayers := none, origin := none }

def invalidateChallengeTimer (room : Room) : Room :=
  { room with challengeTimerId := room.challengeTimerId + 1 }

def invalidateTurnTimer (room : Room) : Room := { room with turnTimerId := room.turnTimerId + 1 }

def invalidateBotTurn (room : Room) : Room := { room with botTurnId := room.botTurnId + 1 }

def transferOwnership (room : Room) (newOwner newOwnerName : String) (token : Option Token) :
    Room :=
  { room with owner := some newOwner, ownerName := newOwnerName, ownerToken := token }

/-- A game has been started and has not ended. -/
def isRunning (room : Room) : Bool := room.game.started && !room.game.finished

end Room

/-! ## Tasks that wait for their time -/

/-- The waiting end of a turn: the room, the number it was started under, and (for the
statements) the turn and the player it was started for. -/
structure TurnTimer where
  roomId : RoomId
  timerId : ℕ
  turnNumber : ℤ
  playerName : String
  deriving DecidableEq

/-- The waiting end of a vote. -/
structure ChallengeTimer where
  roomId : RoomId
  timerId : ℕ
  deriving DecidableEq

/-- A scheduled move of a bot: before its search, or (`botId` is set) after the snapshot the
search works on has been taken. -/
structure BotTurn where
  roomId : RoomId
  turnId : ℕ
  turnNumber : ℤ
  botId : Option String
  deriving DecidableEq

end Server

open Server

/-- The state of the server with its database, its waiting tasks and the connections that have
broken. -/
structure Server where
  rooms : Table RoomId Room
  playerRooms : Table String RoomId
  playerNames : Table String String
  playerAuth : Table String AuthInfo
  reconnectTokens : Table Token TokenInfo
  sidToToken : Table String Token
  disconnectedPlayers : Table Token DisconnectedInfo
  disconnectSeq : ℕ
  spectatorRooms : Table String RoomId
  roomSeq : ℕ
  tokenSeq : ℕ
  db : Db
  graceTimers : List (Token × ℕ)
  turnTimers : List TurnTimer
  challengeTimers : List ChallengeTimer
  botTurns : List BotTurn
  closed : Finset String

namespace Server

/-- A server as it starts, over a database; the identifiers of its rooms are new there. -/
def start (db : Db) : Server :=
  { rooms := ∅, playerRooms := ∅, playerNames := ∅, playerAuth := ∅, reconnectTokens := ∅,
    sidToToken := ∅, disconnectedPlayers := ∅, disconnectSeq := 0, spectatorRooms := ∅,
    roomSeq := (db.games.map fun g => g.roomId + 1).max?.getD 0, tokenSeq := 0, db,
    graceTimers := [], turnTimers := [], challengeTimers := [],
    botTurns := [], closed := ∅ }

variable (st : Server)

/-! ## Players -/

/-- Note the name and the account of a connection. -/
def registerPlayer (sid name : String) (auth : AuthInfo) : Server :=
  { st with
    playerNames := st.playerNames.insert sid name
    playerAuth := st.playerAuth.insert sid auth }

/-! ## Reconnection -/

/-- A token for a seat: the user's own, or a new one. An entry the token still has is cleared. -/
def generateReconnectToken (sid : String) (roomId : RoomId) (playerName : String)
    (auth : Option AuthInfo) : Server × Token :=
  let (st, token) : Server × Token := match auth.bind AuthInfo.registeredId with
    | some uid => (st, .user uid)
    | none => ({ st with tokenSeq := st.tokenSeq + 1 }, .guest st.tokenSeq)
  let st := match st.reconnectTokens.lookup token with
    | some old => { st with
        sidToToken := st.sidToToken.erase old.sid
        disconnectedPlayers := st.disconnectedPlayers.erase token }
    | none => st
  ({ st with
      reconnectTokens := st.reconnectTokens.insert token ⟨roomId, playerName, sid, auth⟩
      sidToToken := st.sidToToken.insert sid token }, token)

/-- Note that a player is disconnected; the answer is the number of the disconnection. -/
def markDisconnected (token : Token) (sid : String) (roomId : RoomId) (playerName : String)
    (auth : Option AuthInfo) : Server × ℕ :=
  let seq := st.disconnectSeq + 1
  ({ st with
      disconnectSeq := seq
      disconnectedPlayers :=
        st.disconnectedPlayers.insert token ⟨roomId, sid, playerName, auth, seq⟩ },
    seq)

/-- Whether the disconnection of a token is still the one of that number. -/
def disconnectIsCurrent (token : Token) (seq : ℕ) : Bool :=
  match st.disconnectedPlayers.lookup token with
  | some info => info.seq = seq
  | none => false

/-- Give the token of a disconnected player to a new connection. -/
def completeRejoin (token : Token) (newSid : String) : Server :=
  match st.disconnectedPlayers.lookup token with
  | none => st
  | some info => { st with
      disconnectedPlayers := st.disconnectedPlayers.erase token
      reconnectTokens := match st.reconnectTokens.lookup token with
        | some entry => st.reconnectTokens.insert token { entry with sid := newSid }
        | none => st.reconnectTokens
      sidToToken := (st.sidToToken.erase info.sid).insert newSid token }

/-- Forget a disconnected player whose grace period is over. -/
def finalizeDisconnect (token : Token) : Server × Option DisconnectedInfo :=
  match st.disconnectedPlayers.lookup token with
  | none => (st, none)
  | some info =>
    ({ st with
        disconnectedPlayers := st.disconnectedPlayers.erase token
        reconnectTokens := st.reconnectTokens.erase token
        sidToToken := st.sidToToken.erase info.sid }, some info)

/-- Forget the token of a connection. -/
def cleanupPlayerToken (sid : String) : Server :=
  match st.sidToToken.lookup sid with
  | none => st
  | some token => { st with
      sidToToken := st.sidToToken.erase sid
      reconnectTokens := st.reconnectTokens.erase token
      disconnectedPlayers := st.disconnectedPlayers.erase token }

/-! ## Rooms -/

/-- A new room under the next identifier. -/
def addRoom (room : Room) : Server :=
  { st with rooms := st.rooms.insert st.roomSeq room, roomSeq := st.roomSeq + 1 }

/-- Forget one disconnected player with the token. -/
def dropDisconnected (token : Token) (info : DisconnectedInfo) : Server :=
  { st with
    disconnectedPlayers := st.disconnectedPlayers.erase token
    sidToToken := st.sidToToken.erase info.sid
    reconnectTokens := st.reconnectTokens.erase token }

/-- Forget the disconnected players of a room with their tokens. -/
def cleanupRoomTokens (roomId : RoomId) : Server :=
  (st.disconnectedPlayers.entries.filter fun e => e.2.roomId = roomId).foldl
    (fun st e => st.dropDisconnected e.1 e.2) st

/-- Release everything a room holds. -/
def cleanupRoom (roomId : RoomId) : Server :=
  let st := st.cleanupRoomTokens roomId
  { st with
    spectatorRooms := st.spectatorRooms.retain fun _ r => r ≠ roomId
    rooms := st.rooms.erase roomId }

/-- The room a connection plays in, with its identifier. -/
def roomForPlayer (sid : String) : Option (RoomId × Room) :=
  (st.playerRooms.lookup sid).bind fun roomId =>
    (st.rooms.lookup roomId).map fun room => (roomId, room)

/-- Change a room. -/
def modifyRoom (roomId : RoomId) (f : Room → Room) : Server :=
  match st.rooms.lookup roomId with
  | some room => { st with rooms := st.rooms.insert roomId (f room) }
  | none => st

/-- Change the game of a room. -/
def modifyGame (roomId : RoomId) (f : Game → Game) : Server :=
  st.modifyRoom roomId fun room => { room with game := f room.game }

/-- Take a connection out of the spectators. -/
def removeSpectator (sid : String) : Server :=
  match st.spectatorRooms.lookup sid with
  | none => st
  | some roomId =>
    { st with spectatorRooms := st.spectatorRooms.erase sid }.modifyRoom roomId fun room =>
      { room with spectators := room.spectators.erase sid }

/-- Seat a connection in a room. -/
def enterRoom (sid : String) (roomId : RoomId) : Server :=
  { st with playerRooms := st.playerRooms.insert sid roomId }

/-- Note that a connection plays in no room. -/
def exitRoom (sid : String) : Server := { st with playerRooms := st.playerRooms.erase sid }

end Server

end ScrabbleMagyar
