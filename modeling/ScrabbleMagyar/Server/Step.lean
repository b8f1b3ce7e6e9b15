import ScrabbleMagyar.Foundations.Runs
import ScrabbleMagyar.Server.Play

/-!
# The server as a system of events

The events of the server as inputs of a deterministic system (`Foundations/Runs.lean`): the
messages of the connections, broken connections, waiting tasks whose time has come, and the
interventions of an administrator. A run is any interleaving of them.

A broken connection sends nothing any more; only the puzzle it asked for before may still come. A
waiting task runs at most once, whenever it is named.
-/

namespace ScrabbleMagyar

namespace Server

/-- What a connection sends. -/
inductive Message
  | setName (name : String) (auth : AuthInfo)
  | logout
  | rejoinRoom (token : Token) (banned : Bool)
  | createRoom (options : RoomOptions)
  | joinRoom (roomId : RoomId) (byCode : Bool)
  | leaveRoom
  | startGame
  | saveGame
  | restoreGame (gameId : ℕ)
  | placeTiles (tiles : List Placed)
  | exchangeTiles (indices : List ℤ)
  | passTurn
  | vote (accept : Bool)
  | withdrawWords
  | retryDaily (puzzle : DailyPuzzle)
  | createAsyncGame (friends : List (UserId × String)) (turnHours : ℤ) (starter : ℕ)
  | openAsyncGame (gameId : ℕ)
  | resignGame
  | spectateRoom (roomId : RoomId) (byCode : Bool)
  | leaveSpectate

inductive Event
  | message (sid : Sid) (message : Message)
  | startDaily (sid : Sid) (puzzle : DailyPuzzle)
  | disconnect (sid : Sid)
  | graceTimeout (token : Token) (seq : ℕ)
  | challengeTimeout (timer : ChallengeTimer)
  | turnTimeout (timer : TurnTimer)
  /-- A robot begins its move. -/
  | botSnapshot (turn : BotTurn)
  /-- The search of a robot ends. -/
  | botAction (turn : BotTurn) (action : Robot.Action)
  | expireAsyncTurn (roomId : RoomId)
  | kickUser (userId : UserId)
  | removePlayer (roomId : RoomId) (playerName : String)
  | skipTurn (roomId : RoomId)
  | resolveVote (roomId : RoomId) (accept : Bool)
  | endGame (roomId : RoomId)
  | disbandRoom (roomId : RoomId) (save : Bool)

/-- The handling of a message. -/
def handle (st : Server) (env : Env) (sid : String) : Message → Server
  | .setName name auth => st.setName sid name auth
  | .logout => st.logout env sid
  | .rejoinRoom token banned => st.rejoinRoom sid token banned
  | .createRoom options => st.createRoom env sid options
  | .joinRoom roomId byCode => st.joinRoom sid roomId byCode
  | .leaveRoom => st.leaveRoom env sid
  | .startGame => st.startGame env sid
  | .saveGame => st.saveGame sid
  | .restoreGame gameId => st.restoreGame env sid gameId
  | .placeTiles tiles => st.placeTiles env sid tiles
  | .exchangeTiles indices => st.exchangeTiles env sid indices
  | .passTurn => st.passTurn env sid
  | .vote accept => st.vote env sid accept
  | .withdrawWords => st.withdrawWords sid
  | .retryDaily puzzle => st.retryDaily sid puzzle
  | .createAsyncGame friends turnHours starter =>
    st.createAsyncGame env sid friends turnHours starter
  | .openAsyncGame gameId => st.openAsyncGame env sid gameId
  | .resignGame => st.resignGame sid
  | .spectateRoom roomId byCode => st.spectateRoom sid roomId byCode
  | .leaveSpectate => st.leaveSpectate sid

/-- The state an event leaves behind. -/
def step (st : Server) (i : Env × Event) : Server :=
  let env := i.1
  match i.2 with
  | .message sid message => if sid.1 ∈ st.closed then st else st.handle env sid message
  | .startDaily sid puzzle => st.startDaily env sid puzzle
  | .disconnect sid => if sid.1 ∈ st.closed then st else st.handleDisconnect sid
  | .graceTimeout token seq =>
    if (token, seq) ∈ st.graceTimers then
      ({ st with graceTimers := st.graceTimers.erase (token, seq) }).graceTimeout env token seq
    else st
  | .challengeTimeout timer =>
    if timer ∈ st.challengeTimers then
      ({ st with challengeTimers := st.challengeTimers.erase timer }).challengeTimeout env
        timer.roomId timer.timerId
    else st
  | .turnTimeout timer =>
    if timer ∈ st.turnTimers then
      ({ st with turnTimers := st.turnTimers.erase timer }).turnTimeout env timer.roomId
        timer.timerId
    else st
  | .botSnapshot turn =>
    if turn ∈ st.botTurns ∧ turn.botId = none then
      ({ st with botTurns := st.botTurns.erase turn }).takeSnapshot turn
    else st
  | .botAction turn action =>
    match turn.botId with
    | none => st
    | some botId =>
      if turn ∈ st.botTurns then
        ({ st with botTurns := st.botTurns.erase turn }).playBotTurn env turn botId action
      else st
  | .expireAsyncTurn roomId => st.expireAsyncTurn env roomId
  | .kickUser userId => st.kickUser userId
  | .removePlayer roomId playerName => st.removePlayer env roomId playerName
  | .skipTurn roomId => st.skipTurn env roomId
  | .resolveVote roomId accept => st.resolveVote env roomId accept
  | .endGame roomId => st.endGame roomId
  | .disbandRoom roomId save => st.disbandRoom roomId save

end Server

end ScrabbleMagyar
