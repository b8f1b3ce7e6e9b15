import ScrabbleMagyar.Engine.Step
import ScrabbleMagyar.Server.Events

/-!
# Playing and watching

The handlers of `server/play.rs` (moves and votes) and `server/extras.rs` (the daily puzzle,
correspondence games, spectators), the deadlines of correspondence games (`server/core.rs`) and
the interventions of an administrator (`admin/live.rs`).

The two halves of `start_daily`, between which the puzzle is looked up, show here as one: the
first half only refuses.
-/

namespace ScrabbleMagyar

namespace Server

variable (st : Server) (env : Env)

/-! ## Moves and votes -/

/-- The placements that pass the check of the input. -/
def validTilesInput (tiles : List Placed) : Bool :=
  !tiles.isEmpty && decide (tiles.length ≤ 7) && tiles.all fun p =>
    decide (0 ≤ p.row ∧ p.row ≤ 14 ∧ 0 ≤ p.col ∧ p.col ≤ 14) && !p.letter.isBlank

/-- A move of a connection in its room: what follows a move follows if it succeeds. -/
def actInRoom {α : Type} (sid : String) (move : Game → Game × Fallible α) : Server :=
  match st.roomForPlayer sid with
  | none => st
  | some (roomId, room) => match move room.game with
    | (_, .error _) => st
    | (game, .ok _) => (st.modifyRoom roomId fun room => { room with game }).afterMove roomId

def placeTiles (sid : String) (tiles : List Placed) : Server :=
  if validTilesInput tiles then st.actInRoom sid fun g => g.placeTiles env sid tiles else st

def exchangeTiles (sid : String) (indices : List ℤ) : Server :=
  if indices.length ≤ 7 then st.actInRoom sid fun g => g.exchangeTiles env sid indices else st

def passTurn (sid : String) : Server := st.actInRoom sid fun g => g.passTurn env sid false

/-- A vote, or the decision of an administrator on one. -/
def resolveInRoom (roomId : RoomId) (move : Game → Game × Fallible (VoteResult × String)) :
    Server :=
  match st.rooms.lookup roomId with
  | none => st
  | some room => match move room.game with
    | (_, .error _) => st
    | (game, .ok (result, _)) =>
      (st.modifyRoom roomId fun room => { room with game }).handleChallengeResult roomId result

def vote (sid : String) (accept : Bool) : Server :=
  match st.roomForPlayer sid with
  | none => st
  | some (roomId, _) => st.resolveInRoom roomId fun g =>
    if accept then g.acceptPendingByPlayer env sid else g.rejectPendingByPlayer env sid

/-- The placer takes the placement back, and the turn goes on. -/
def withdrawWords (sid : String) : Server :=
  match st.roomForPlayer sid with
  | none => st
  | some (roomId, room) => match room.game.withdrawPending sid with
    | (_, .error _) => st
    | (game, .ok _) =>
      let st := st.modifyRoom roomId fun room => { room with game }.invalidateChallengeTimer
      (st.startTurnTimer roomId).emitAllStates roomId

/-! ## The daily puzzle -/

/-- A daily puzzle: the board, the tiles in hand and those left in the bag. -/
structure DailyPuzzle where
  date : String
  board : Board
  rack : List Tile
  bag : List Tile

/-- The state a puzzle begins in. -/
def resetGame (game : Game) (puzzle : DailyPuzzle) : Game :=
  { game with
    board := puzzle.board
    bag := ⟨puzzle.bag⟩
    players := game.players.modify 0 fun p => { p with hand := puzzle.rack, score := 0 }
    currentPlayerIdx := 0
    finished := false
    winners := []
    moveLog := []
    turnNumber := 0
    scorelessTurns := 0
    pendingChallenge := none
    lastAction := none
    lastActionInfo := none
    puzzle := some ⟨puzzle.date, none⟩ }

/-- The game of one player that begins with a puzzle. -/
def puzzleGame (gameId sid name : String) (puzzle : DailyPuzzle) : Game :=
  let game := ((Game.new env gameId false 0 0).addPlayer sid name).1
  resetGame (game.start env).1 puzzle

/-- Open the daily puzzle. The connection may have broken while the puzzle was looked up. -/
def startDaily (sid : String) (puzzle : DailyPuzzle) : Server :=
  if (st.roomForPlayer sid).isSome then st
  else
    let playerName := (st.playerNames.lookup sid).getD anonymous
    let game := puzzleGame env (toString st.roomSeq) sid playerName puzzle
    st.openRoom sid playerName fun token =>
      Room.new game (some sid) playerName 1 true (some token)

/-- A new attempt at the same puzzle. -/
def retryDaily (sid : String) (puzzle : DailyPuzzle) : Server :=
  match st.roomForPlayer sid with
  | none => st
  | some (roomId, room) => match room.game.puzzle with
    | none => st
    | some p =>
      if room.game.finished ∧ p.date = puzzle.date then
        (st.modifyGame roomId fun g => resetGame g puzzle).emitAllStates roomId
      else st

/-! ## Correspondence games -/

/-- The identifier of a player who has not come yet. -/
def placeholderId (roomId : RoomId) (userId : UserId) : String := s!"async-{roomId}-{userId}"

/-- A name that differs from those taken: the name itself or the first free numbered one. -/
def uniqueName (name : String) (taken : List String) : String :=
  let taken := taken.map casefold
  if casefold name ∉ taken then name
  else
    let numbered (n : ℕ) : String := s!"{name} ({n})"
    match (List.range taken.length).find? fun i => casefold (numbered (i + 2)) ∉ taken with
    | some i => numbered (i + 2)
    | none => numbered (taken.length + 2)

/-- Add the invited players, who are absent, and note their accounts. -/
def inviteFriends (roomId : RoomId) (game : Game) (known : List (String × Option UserId)) :
    List (UserId × String) → Game × List (String × Option UserId)
  | [] => (game, known)
  | (userId, friendName) :: friends =>
    let name := uniqueName friendName (known.map Prod.fst)
    let game := (game.addPlayer (placeholderId roomId userId) name).1
    let game := { game with
      players := game.players.modify (game.players.length - 1) fun p =>
        { p with disconnected := true } }
    inviteFriends roomId game (known ++ [(name, some userId)]) friends

/-- Start a correspondence game with friends; `starter` is drawn at random. -/
def createAsyncGame (sid : String) (friends : List (UserId × String)) (turnHours : ℤ)
    (starter : ℕ) : Server :=
  match (st.playerAuth.lookup sid).bind AuthInfo.registeredId with
  | none => st
  | some userId =>
    if (st.roomForPlayer sid).isSome then st
    else if friends = [] ∨ 3 < friends.length ∨ ¬ (userId :: friends.map Prod.fst).Nodup then st
    else
      let playerName := (st.playerNames.lookup sid).getD anonymous
      let game := (Game.newAsync env (toString st.roomSeq) turnHours).addPlayer sid playerName
      let invited := inviteFriends st.roomSeq game.1 [(playerName, some userId)] friends
      let game := invited.1.startAsync env (starter % invited.1.players.length)
      st.openRoom sid playerName fun token =>
        { Room.new game (some sid) playerName game.players.length true (some token) with
          isAsync := true
          knownUserIds := Table.ofList invited.2 }

/-- The server with a correspondence game opened for an account. -/
def asyncOpened (sid : String) (userId : UserId) (friends : List (UserId × String))
    (turnHours : ℤ) (starter : ℕ) : Server :=
  let playerName := (st.playerNames.lookup sid).getD anonymous
  let game := (Game.newAsync env (toString st.roomSeq) turnHours).addPlayer sid playerName
  let invited := inviteFriends st.roomSeq game.1 [(playerName, some userId)] friends
  let game := invited.1.startAsync env (starter % invited.1.players.length)
  st.openRoom sid playerName fun token =>
    { Room.new game (some sid) playerName game.players.length true (some token) with
      isAsync := true
      knownUserIds := Table.ofList invited.2 }

/-- A correspondence game is refused without a trace, or opened. -/
theorem createAsyncGame_cases (sid : String) (friends : List (UserId × String)) (turnHours : ℤ)
    (starter : ℕ) :
    st.createAsyncGame env sid friends turnHours starter = st ∨
      ∃ userId, (st.playerAuth.lookup sid).bind AuthInfo.registeredId = some userId ∧
        ¬(st.roomForPlayer sid).isSome = true ∧
          st.createAsyncGame env sid friends turnHours starter =
            st.asyncOpened env sid userId friends turnHours starter := by
  unfold createAsyncGame
  cases hauth : (st.playerAuth.lookup sid).bind AuthInfo.registeredId with
  | none => exact .inl rfl
  | some userId =>
    by_cases hfree : (st.roomForPlayer sid).isSome = true
    · exact .inl (if_pos hfree)
    by_cases hfriends : friends = [] ∨ 3 < friends.length ∨
        ¬(userId :: friends.map Prod.fst).Nodup
    · exact .inl ((if_neg hfree).trans (if_pos hfriends))
    · exact .inr ⟨userId, rfl, hfree, (if_neg hfree).trans (if_neg hfriends)⟩

/-- A player of a correspondence game as it is loaded: absent, under a placeholder where the
account is known. -/
def absentPlayer (roomId : RoomId) (known : Table String (Option UserId)) (player : Player) :
    Player :=
  if player.isBot then player
  else match (known.lookup player.name).bind id with
    | some userId => { player with disconnected := true, id := placeholderId roomId userId }
    | none => { player with disconnected := true }

/-- The room of a saved correspondence game. -/
def asyncRoom (row : SavedGame) : Option Room :=
  match Game.fromSaveDict env row.stateJson with
  | .error _ => none
  | .ok game =>
    let known := Table.ofList row.players
    let game := { game with
      asyncMode := true, players := game.players.map (absentPlayer row.roomId known) }
    some { Room.new game none row.ownerName game.players.length true none with
      isAsync := true
      dbGameId := some row.id
      knownUserIds := known
      persistedSig := some (game.moveLog.length, game.finished, game.turnNumber)
      origin := some row.origin }

/-- The room of a correspondence game: the one in memory, or built from the database. -/
def asyncRoomForDbGame (row : SavedGame) : Server × Option RoomId :=
  match st.rooms.entries.find? fun e => e.2.isAsync ∧ e.2.dbGameId = some row.id with
  | some e => (st, some e.1)
  | none => match asyncRoom env row with
    | none => (st, none)
    | some room => ({ st with rooms := st.rooms.insert row.roomId room }, some row.roomId)

/-- The save of a correspondence game that a connection may open, with its account. -/
def openable (sid : String) (gameId : ℕ) : Option (UserId × SavedGame) :=
  match (st.playerAuth.lookup sid).bind AuthInfo.registeredId with
  | none => none
  | some userId =>
    if (st.roomForPlayer sid).isSome then none
    else match st.db.getGameById gameId with
      | none => none
      | some row =>
        if row.isAsync && decide (row.status = .active) && Db.isUserInGame row userId then
          some (userId, row)
        else none

/-- The seat of an account in a correspondence game. -/
def asyncSeat (room : Room) (userId : UserId) : Option Player :=
  match room.knownUserIds.entries.find? fun e => e.2 = some userId with
  | none => none
  | some e => room.game.players.find? fun p => p.name = e.1

/-- The player plays the game somewhere else already, and gives the seat up there. -/
def takeOver (roomId : RoomId) (player : Player) : Server :=
  if !player.disconnected ∧ st.playerRooms.lookup player.id = some roomId then
    (st.exitRoom player.id).cleanupPlayerToken player.id
  else st

def openAsyncGame (sid : String) (gameId : ℕ) : Server :=
  match st.openable sid gameId with
  | none => st
  | some (userId, row) =>
    match st.asyncRoomForDbGame env row with
    | (st, none) => st
    | (st, some roomId) => match st.rooms.lookup roomId with
      | none => st
      | some room => match asyncSeat room userId with
        | none => st
        | some player =>
          let st := st.takeOver roomId player
          let st := st.modifyGame roomId fun g => (g.replacePlayerSid player.id sid).1
          let st := st.enterRoom sid roomId
          let auth := st.playerAuth.lookup sid
          let st := (st.generateReconnectToken sid roomId player.name auth).1
          st.emitAllStates roomId

/-- A player of a correspondence game resigns. -/
def resignGame (sid : String) : Server :=
  match st.roomForPlayer sid with
  | none => st
  | some (roomId, room) =>
    if !room.isAsync then st
    else match room.game.resign sid with
      | (_, .error _) => st
      | (game, .ok _) =>
        (st.modifyRoom roomId fun room => { room with game }).emitAllStates roomId

/-- Release the room of a correspondence game that has ended, unless somebody is watching it. -/
def cleanupFinishedAsync (roomId : RoomId) : Server :=
  match st.rooms.lookup roomId with
  | none => st
  | some room =>
    if room.isAsync && room.game.finished && !room.game.hasConnectedHuman then
      st.cleanupRoom roomId
    else st

/-- The deadline of a turn has passed: the body of the loop over the rooms, which takes one room
after the other. -/
def expireAsyncTurn (roomId : RoomId) : Server :=
  match st.rooms.lookup roomId with
  | none => st
  | some room =>
    let late := match room.game.turnDeadline with
      | some deadline => decide (deadline < env.now)
      | none => false
    if !room.isAsync || !room.game.started || room.game.finished || !late then st
    else match room.game.expireTurn env with
      | (_, false) => st
      | (game, true) =>
        let st := st.modifyRoom roomId fun room => { room with game }
        (st.emitAllStates roomId).cleanupFinishedAsync roomId

/-! ## Spectators -/

def spectateRoom (sid : String) (roomId : RoomId) (byCode : Bool) : Server :=
  let watches := match st.spectatorRooms.lookup sid with
    | some r => (st.rooms.lookup r).isSome
    | none => false
  if (st.roomForPlayer sid).isSome || watches then st
  else match st.rooms.lookup roomId with
    | none => st
    | some room =>
      if room.isPrivate && !byCode then st
      else if !room.isRunning then st
      else
        let st := st.modifyRoom roomId fun room =>
          { room with spectators := insert sid room.spectators }
        let st := { st with spectatorRooms := st.spectatorRooms.insert sid roomId }
        (st.emitAllStates roomId).scheduleBotTurn roomId

/-! ## Interventions of an administrator -/

/-- The tokens of a user that wait for a player to come back. -/
def staleTokens (userId : UserId) : List Token :=
  (st.reconnectTokens.entries.filter fun e =>
    (match e.2.authInfo with
      | some a => a.userId == some userId && !a.isGuest
      | none => false) && (st.disconnectedPlayers.lookup e.1).isSome).map Sigma.fst

/-- A user is banned or logged out everywhere: the tokens that wait are void. The connections
break, which are events of their own. -/
def kickUser (userId : UserId) : Server :=
  (st.staleTokens userId).foldl (fun st token => { st with
    disconnectedPlayers := st.disconnectedPlayers.erase token
    reconnectTokens := st.reconnectTokens.erase token }) st

/-- Remove a player from a room: from a running game as if disconnected, else with the seat. -/
def removePlayer (roomId : RoomId) (playerName : String) : Server :=
  match st.rooms.lookup roomId with
  | none => st
  | some room =>
    match room.game.players.find? fun p => p.name = playerName ∧ p.isBot = false with
    | none => st
    | some player =>
      let st := st.dropPlayer player.id
      let game :=
        if room.isRunning then (room.game.markDisconnected player.id).1
        else (room.game.removePlayer player.id).1
      let st := st.modifyRoom roomId fun room => { room with game }
      if game.humanPlayers.isEmpty || (!room.isAsync && !game.hasConnectedHuman) then
        (st.abandonSave roomId room).cleanupRoom roomId
      else
        let st :=
          if room.owner = some player.id ∧ room.isAsync = false then st.transferOwnership roomId
          else st
        let st := if room.isRunning then st.advanceTurnIfNeeded env roomId else st
        st.emitAllStates roomId

/-- What follows an intervention in a game. -/
def afterChange (roomId : RoomId) (restartTimer : Bool) : Server :=
  match st.rooms.lookup roomId with
  | none => st
  | some room =>
    let st := st.modifyRoom roomId Room.invalidateTurnTimer
    let st :=
      if room.game.pendingChallenge.isSome then st.startChallengeTimer roomId
      else if room.game.finished then
        ((st.modifyRoom roomId Room.invalidateChallengeTimer).saveGameToDb roomId).1
      else if restartTimer then st.startTurnTimer roomId
      else st
    let st := st.emitAllStates roomId
    let st :=
      if room.game.finished && room.isAsync then st.cleanupFinishedAsync roomId else st
    st.scheduleBotTurn roomId

/-- Pass the turn in place of its player. -/
def skipTurn (roomId : RoomId) : Server :=
  match st.rooms.lookup roomId with
  | none => st
  | some room =>
    if !room.isRunning || room.game.puzzle.isSome || room.game.pendingChallenge.isSome then st
    else match room.game.currentPlayer with
      | none => st
      | some current => match room.game.passTurn env current.id room.isAsync with
        | (_, .error _) => st
        | (game, .ok _) =>
          (st.modifyRoom roomId fun room => { room with game }).afterChange roomId true

/-- Decide on a pending placement. -/
def resolveVote (roomId : RoomId) (accept : Bool) : Server :=
  st.resolveInRoom roomId fun g => g.forceResolvePending env accept

/-- End a game as it stands. -/
def endGame (roomId : RoomId) : Server :=
  match st.rooms.lookup roomId with
  | none => st
  | some room =>
    if !room.isRunning || room.game.puzzle.isSome then st
    else
      let st := st.modifyRoom roomId fun room =>
        ({ room with game := room.game.forceEnd.1 }.invalidateChallengeTimer).invalidateBotTurn
      st.afterChange roomId false

/-- Give up a room, after saving its game where that is asked for. -/
def disbandRoom (roomId : RoomId) (save : Bool) : Server :=
  match st.rooms.lookup roomId with
  | none => st
  | some room =>
    let st :=
      if save && room.isRunning && room.game.puzzle.isNone then st.saveManually roomId else st
    st.disbandActiveRoom roomId none

end Server

end ScrabbleMagyar
