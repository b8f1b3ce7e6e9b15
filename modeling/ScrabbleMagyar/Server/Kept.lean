import ScrabbleMagyar.Server.Reach

/-!
# What the handlers leave alone

A restored game and a correspondence game know from the save whose the seats are, and three
records of a room say what follows from it: the accounts by name, the players a lobby waits for,
and the missing players who may still join. Only the handlers that open, load or start a stored
game and the one that lets a missing player in write them; the others leave them as they are
(`Kept`).
-/

namespace ScrabbleMagyar

namespace Server

/-! ## What is left as it is -/

/-- The accounts of the seats stay, and no missing player is added. -/
structure Room.Kept (room room' : Room) : Prop where
  known : room'.knownUserIds = room.knownUserIds
  missing : ∀ name expected, room'.lateJoinNames.lookup name = some expected →
    room.lateJoinNames.lookup name = some expected
  isRestored : room'.isRestored = room.isRestored
  expected : room'.expectedPlayers = room.expectedPlayers
  save : room'.restoreSaveData = room.restoreSaveData
  started : room.game.started = true → room'.game.started = true

/-- Every room was there before, with the same accounts. -/
def Kept (st st' : Server) : Prop :=
  ∀ r room', st'.rooms.lookup r = some room' →
    ∃ room, st.rooms.lookup r = some room ∧ Room.Kept room room'

variable {st st₁ st₂ st' : Server} {roomId : RoomId}

theorem Room.Kept.refl (room : Room) : Room.Kept room room :=
  ⟨rfl, fun _ _ h => h, rfl, rfl, rfl, id⟩

theorem Room.Kept.trans {a b c : Room} (h : Room.Kept a b) (h' : Room.Kept b c) :
    Room.Kept a c where
  known := h'.known.trans h.known
  missing := fun name expected hn => h.missing name expected (h'.missing name expected hn)
  isRestored := h'.isRestored.trans h.isRestored
  expected := h'.expected.trans h.expected
  save := h'.save.trans h.save
  started := fun hs => h'.started (h.started hs)

/-- Another game of the same room that has been started if the old one has. -/
theorem Room.Kept.game {room : Room} {game : Game}
    (h : room.game.started = true → game.started = true) :
    Room.Kept room { room with game } := ⟨rfl, fun _ _ h => h, rfl, rfl, rfl, h⟩

namespace Kept

theorem refl (st : Server) : Kept st st := fun _ room hroom => ⟨room, hroom, .refl room⟩

theorem trans (h₁ : Kept st st₁) (h₂ : Kept st₁ st₂) : Kept st st₂ := by
  intro r room₂ hroom₂
  obtain ⟨room₁, hroom₁, hk₂⟩ := h₂ r room₂ hroom₂
  obtain ⟨room, hroom, hk₁⟩ := h₁ r room₁ hroom₁
  exact ⟨room, hroom, hk₁.trans hk₂⟩

theorem of_rooms (h : st'.rooms = st.rooms) : Kept st st' := fun _ room hroom =>
  ⟨room, h ▸ hroom, .refl room⟩

/-- What follows touches no room. -/
theorem rest (h : Kept st st₁) (heq : st'.rooms = st₁.rooms) : Kept st st' :=
  h.trans (.of_rooms heq)

theorem erase (h : st'.rooms = st.rooms.erase roomId) : Kept st st' := by
  intro r room hroom
  rw [h, Table.lookup_erase] at hroom
  split at hroom
  · cases hroom
  · exact ⟨room, hroom, .refl room⟩

theorem insert {room room' : Room} (hroom : st.rooms.lookup roomId = some room)
    (h : st'.rooms = st.rooms.insert roomId room') (hk : Room.Kept room room') : Kept st st' := by
  intro r room₁ hroom₁
  rw [h, Table.lookup_insert] at hroom₁
  split at hroom₁
  · rename_i heq
    subst heq
    cases hroom₁
    exact ⟨room, hroom, hk⟩
  · exact ⟨room₁, hroom₁, .refl room₁⟩

theorem modifyRoom {f : Room → Room}
    (hf : ∀ room, st.rooms.lookup roomId = some room → Room.Kept room (f room)) :
    Kept st (st.modifyRoom roomId f) := by
  unfold Server.modifyRoom
  split
  · rename_i room hroom
    exact .insert hroom rfl (hf room hroom)
  · exact .refl st

theorem modifyGame {f : Game → Game}
    (hf : ∀ room, st.rooms.lookup roomId = some room →
      room.game.started = true → (f room.game).started = true) :
    Kept st (st.modifyGame roomId f) :=
  .modifyRoom fun room hroom => .game (hf room hroom)

end Kept

/-! ## Connections and tokens -/

theorem rooms_cleanupPlayerToken (st : Server) (sid : String) :
    (st.cleanupPlayerToken sid).rooms = st.rooms := by
  unfold cleanupPlayerToken
  split <;> rfl

theorem rooms_completeRejoin (st : Server) (token : Token) (sid : String) :
    (st.completeRejoin token sid).rooms = st.rooms := by
  unfold completeRejoin
  split <;> rfl

theorem rooms_foldl_dropPlayer (st : Server) (l : List Player) :
    (l.foldl (fun st p => st.dropPlayer p.id) st).rooms = st.rooms := by
  induction l generalizing st with
  | nil => rfl
  | cons p l ih =>
    rw [List.foldl_cons, ih, dropPlayer, rooms_cleanupPlayerToken]
    rfl

theorem rooms_cleanupRoomTokens (st : Server) (roomId : RoomId) :
    (st.cleanupRoomTokens roomId).rooms = st.rooms :=
  (rest_foldl_dropDisconnected st _).1

theorem rooms_abandonSave (st : Server) (roomId : RoomId) (room : Room) :
    (st.abandonSave roomId room).rooms = st.rooms := by
  rw [abandonSave_rest]

/-! ## The operations that the handlers share -/

variable (st)

theorem kept_saveGameToDb (roomId : RoomId) : Kept st (st.saveGameToDb roomId).1 := by
  unfold saveGameToDb
  split
  · exact .refl st
  · rename_i room hroom
    dsimp only
    split_ifs
    · exact .refl st
    · exact .refl st
    · exact .refl st
    · exact .insert hroom rfl ⟨rfl, fun _ _ h => h, rfl, rfl, rfl, id⟩
    · exact .insert hroom rfl ⟨rfl, fun _ _ h => h, rfl, rfl, rfl, id⟩

theorem kept_saveManually (roomId : RoomId) : Kept st (st.saveManually roomId) := by
  have hsaved := kept_saveGameToDb st roomId
  unfold saveManually
  rcases h : st.saveGameToDb roomId with ⟨st₁, saved⟩
  rw [h] at hsaved
  cases saved
  · exact hsaved
  · exact hsaved.trans (.modifyRoom fun _ _ => ⟨rfl, fun _ _ h => h, rfl, rfl, rfl, id⟩)

theorem kept_emitAllStates (roomId : RoomId) : Kept st (st.emitAllStates roomId) := by
  unfold emitAllStates persistAsync
  split
  · exact .refl st
  · dsimp only
    split_ifs
    · exact .refl st
    · exact .refl st
    · refine Kept.trans ?_ (kept_saveGameToDb _ roomId)
      exact .modifyRoom fun _ _ => ⟨rfl, fun _ _ h => h, rfl, rfl, rfl, id⟩

theorem kept_startChallengeTimer (roomId : RoomId) : Kept st (st.startChallengeTimer roomId) := by
  unfold startChallengeTimer
  split
  · exact .refl st
  · rename_i room hroom
    exact .insert hroom rfl ⟨rfl, fun _ _ h => h, rfl, rfl, rfl, id⟩

theorem kept_startTurnTimer (roomId : RoomId) : Kept st (st.startTurnTimer roomId) := by
  unfold startTurnTimer
  split
  · exact .refl st
  · rename_i room hroom
    split
    · exact .refl st
    · exact .insert hroom rfl ⟨rfl, fun _ _ h => h, rfl, rfl, rfl, id⟩

theorem kept_scheduleBotTurn (roomId : RoomId) : Kept st (st.scheduleBotTurn roomId) := by
  unfold scheduleBotTurn
  split
  · exact .refl st
  · rename_i room hroom
    split
    · exact .refl st
    · exact .insert hroom rfl ⟨rfl, fun _ _ h => h, rfl, rfl, rfl, id⟩

variable {st}

theorem Kept.saved (h : Kept st st₁) : Kept st (st₁.saveGameToDb roomId).1 :=
  h.trans (kept_saveGameToDb st₁ roomId)

theorem Kept.emit (h : Kept st st₁) : Kept st (st₁.emitAllStates roomId) :=
  h.trans (kept_emitAllStates st₁ roomId)

theorem Kept.turn (h : Kept st st₁) : Kept st (st₁.startTurnTimer roomId) :=
  h.trans (kept_startTurnTimer st₁ roomId)

theorem Kept.bots (h : Kept st st₁) : Kept st (st₁.scheduleBotTurn roomId) :=
  h.trans (kept_scheduleBotTurn st₁ roomId)

theorem Kept.exit (h : Kept st st₁) (sid : String) : Kept st (st₁.exitRoom sid) := h.rest rfl

/-- A change of what does not say whose the seats are. -/
theorem Kept.marks (h : Kept st st₁) {f : Room → Room}
    (hf : ∀ room : Room, Room.Kept room (f room)) : Kept st (st₁.modifyRoom roomId f) :=
  h.trans (.modifyRoom fun room _ => hf room)

theorem kept_invalidateTurnTimer (room : Room) : Room.Kept room room.invalidateTurnTimer :=
  ⟨rfl, fun _ _ h => h, rfl, rfl, rfl, id⟩

theorem kept_invalidateChallengeTimer (room : Room) :
    Room.Kept room room.invalidateChallengeTimer := ⟨rfl, fun _ _ h => h, rfl, rfl, rfl, id⟩

variable (st)

theorem kept_beginTurn (roomId : RoomId) (finished : Bool) :
    Kept st (st.beginTurn roomId finished) := by
  unfold beginTurn
  split
  · exact (kept_emitAllStates st roomId).saved
  · exact (kept_startTurnTimer st roomId).emit.bots

theorem kept_handleChallengeResult (roomId : RoomId) (result : VoteResult) :
    Kept st (st.handleChallengeResult roomId result) := by
  have hvoid : Kept st (st.modifyRoom roomId Room.invalidateChallengeTimer) :=
    (Kept.refl st).marks kept_invalidateChallengeTimer
  unfold handleChallengeResult
  dsimp only
  split_ifs
  · exact hvoid.saved.emit.bots
  · exact hvoid.turn.emit.bots
  · exact (Kept.refl st).saved.emit.bots
  · exact (Kept.refl st).turn.emit.bots

theorem kept_afterMove (roomId : RoomId) : Kept st (st.afterMove roomId) := by
  have hvoid : Kept st (st.modifyRoom roomId Room.invalidateTurnTimer) :=
    (Kept.refl st).marks kept_invalidateTurnTimer
  unfold afterMove
  split
  · exact .refl st
  · dsimp only
    split_ifs
    · exact (hvoid.trans (kept_startChallengeTimer _ roomId)).emit.bots
    · exact hvoid.saved.emit.bots
    · exact hvoid.turn.emit.bots

theorem kept_transferOwnership (roomId : RoomId) : Kept st (st.transferOwnership roomId) := by
  unfold transferOwnership
  split
  · exact .refl st
  · split
    · exact .refl st
    · exact .modifyRoom fun _ _ => ⟨rfl, fun _ _ h => h, rfl, rfl, rfl, id⟩

theorem kept_removeSpectator (sid : String) : Kept st (st.removeSpectator sid) := by
  unfold removeSpectator
  split
  · exact .refl st
  · have htable : Kept st { st with spectatorRooms := st.spectatorRooms.erase sid } :=
      .of_rooms rfl
    exact htable.trans (.modifyRoom fun _ _ => ⟨rfl, fun _ _ h => h, rfl, rfl, rfl, id⟩)

theorem kept_leaveSpectate (sid : String) : Kept st (st.leaveSpectate sid) := by
  unfold leaveSpectate
  split
  · exact .refl st
  · exact (kept_removeSpectator st sid).emit

theorem kept_advanceTurnIfNeeded (env : Env) (roomId : RoomId) :
    Kept st (st.advanceTurnIfNeeded env roomId) := by
  unfold advanceTurnIfNeeded
  split
  · exact .refl st
  · rename_i room hroom
    split
    · exact .refl st
    · rename_i game hskip
      have hgame : game = (room.game.skipDisconnectedCurrent env).1 := by rw [hskip]
      have hstarted := (skipDisconnectedCurrent_rest env room.game).1
      rw [← hgame] at hstarted
      refine Kept.bots (Kept.turn (.modifyRoom fun room' hroom' => ?_))
      obtain rfl := Option.some.inj (hroom.symm.trans hroom')
      exact ⟨rfl, fun _ _ h => h, rfl, rfl, rfl, fun hs => hstarted.trans hs⟩

theorem kept_cleanupRoom (roomId : RoomId) : Kept st (st.cleanupRoom roomId) :=
  .erase (congrArg (·.erase roomId) (rooms_cleanupRoomTokens st roomId))

theorem kept_disbandActiveRoom (roomId : RoomId) (owner : Option String) :
    Kept st (st.disbandActiveRoom roomId owner) := by
  unfold disbandActiveRoom
  split
  · exact .refl st
  · refine Kept.trans (.of_rooms ?_) (kept_cleanupRoom _ roomId)
    rw [rooms_abandonSave, rooms_cleanupRoomTokens, rooms_foldl_dropPlayer]

/-! ## Leaving and coming back -/

theorem started_markDisconnected (g : Game) (id : String) :
    (g.markDisconnected id).1.started = g.started := by
  unfold Game.markDisconnected
  split <;> rfl

theorem started_replacePlayerSid (g : Game) (old new : String) :
    (g.replacePlayerSid old new).1.started = g.started := by
  unfold Game.replacePlayerSid
  split <;> rfl

theorem kept_flag (roomId : RoomId) (sid : String) :
    Kept st (st.modifyGame roomId fun g => (g.markDisconnected sid).1) :=
  .modifyGame fun room _ hs => (started_markDisconnected room.game sid).trans hs

theorem kept_unseat (roomId : RoomId) (sid : String) :
    Kept st (st.modifyGame roomId fun g => (g.removePlayer sid).1) :=
  .modifyGame fun room _ hs => (removePlayer_rest room.game sid).1.trans hs

theorem kept_reseat (roomId : RoomId) (old new : String) :
    Kept st (st.modifyGame roomId fun g => (g.replacePlayerSid old new).1) :=
  .modifyGame fun room _ hs => (started_replacePlayerSid room.game old new).trans hs

theorem kept_seatAway (sid : String) (roomId : RoomId) (token : Option Token) :
    Kept st (st.seatAway sid roomId token) := by
  have hflag := kept_flag st roomId sid
  unfold seatAway
  cases token with
  | none => exact hflag
  | some token => exact hflag.rest rfl

theorem kept_afterRemoval (sid : String) (roomId : RoomId) :
    Kept st (st.afterRemoval sid roomId) := by
  unfold afterRemoval
  split
  · exact .refl st
  · split
    · exact kept_cleanupRoom st roomId
    · dsimp only
      split_ifs
      · exact (kept_transferOwnership st roomId).emit
      · exact kept_emitAllStates st roomId

theorem kept_breakSeat (sid : String) (broken : Break) : Kept st (st.breakSeat sid broken) := by
  cases broken with
  | unseated => exact .of_rooms (rooms_cleanupPlayerToken st sid)
  | kept roomId token => exact (kept_seatAway st sid roomId token).emit.exit sid
  | grace roomId token =>
    refine Kept.exit (Kept.emit ?_) sid
    exact (kept_seatAway st sid roomId (some token)).rest rfl
  | removed roomId =>
    refine ((kept_unseat st roomId sid).trans (kept_afterRemoval _ sid roomId)).rest ?_
    exact rooms_cleanupPlayerToken _ sid

theorem kept_handleDisconnect (sid : String) : Kept st (st.handleDisconnect sid) :=
  ((kept_leaveSpectate st sid).trans (kept_breakSeat _ sid _)).rest rfl

theorem kept_leaveRoom (env : Env) (sid : String) : Kept st (st.leaveRoom env sid) := by
  unfold leaveRoom
  split
  · exact .refl st
  · rename_i roomId token _
    exact ((kept_seatAway st sid roomId token).exit sid).emit
  · rename_i roomId _
    exact (kept_disbandActiveRoom st roomId (some sid)).rest (rooms_cleanupPlayerToken _ sid)
  · rename_i roomId token _
    exact ((kept_seatAway st sid roomId (some token)).trans
      (kept_advanceTurnIfNeeded _ env roomId)).emit.exit sid
  · rename_i roomId _
    refine Kept.trans (.rest (kept_unseat st roomId sid) ?_) (kept_afterRemoval _ sid roomId)
    exact rooms_cleanupPlayerToken _ sid

theorem kept_logout (env : Env) (sid : String) : Kept st (st.logout env sid) := by
  unfold logout
  dsimp only
  split_ifs
  · exact ((kept_leaveRoom st env sid).trans (kept_leaveSpectate _ sid)).rest rfl
  · exact (kept_leaveSpectate st sid).rest rfl

theorem kept_finalizePlayerDisconnect (env : Env) (token : Token) :
    Kept st (st.finalizePlayerDisconnect env token) := by
  unfold finalizePlayerDisconnect
  rcases hfin : st.finalizeDisconnect token with ⟨st₁, info⟩
  have hrooms : st₁.rooms = st.rooms := by
    rw [show st₁ = (st.finalizeDisconnect token).1 by rw [hfin]]
    unfold finalizeDisconnect
    split <;> rfl
  cases info with
  | none => exact .refl st
  | some info =>
    have hforgot : Kept st { st₁ with playerAuth := st₁.playerAuth.erase info.sid } :=
      .of_rooms hrooms
    dsimp only
    split
    · exact hforgot
    rename_i room hroom
    split
    · exact (hforgot.trans (kept_saveManually _ _)).trans (kept_disbandActiveRoom _ _ _)
    have hgame : (if room.isRunning = true then room.game else
        (room.game.removePlayer info.sid).1).started = room.game.started := by
      split
      · rfl
      · exact (removePlayer_rest room.game info.sid).1
    generalize (if room.isRunning = true then room.game else
      (room.game.removePlayer info.sid).1) = game at hgame ⊢
    have hset : Kept st ({ st₁ with playerAuth := st₁.playerAuth.erase info.sid }.modifyRoom
        info.roomId fun room => { room with game }) := by
      refine hforgot.trans (.modifyRoom fun room' hroom' => .game fun hs => ?_)
      obtain rfl := Option.some.inj (hroom.symm.trans hroom')
      exact hgame.trans hs
    split
    · exact (hset.rest (rooms_abandonSave _ _ room)).trans (kept_cleanupRoom _ _)
    · refine Kept.emit ?_
      split_ifs
      · exact (hset.trans (kept_transferOwnership _ _)).trans (kept_advanceTurnIfNeeded _ env _)
      · exact hset.trans (kept_advanceTurnIfNeeded _ env _)
      · exact hset.trans (kept_transferOwnership _ _)
      · exact hset

theorem kept_graceTimeout (env : Env) (token : Token) (seq : ℕ) :
    Kept st (st.graceTimeout env token seq) := by
  unfold graceTimeout
  split
  · exact kept_finalizePlayerDisconnect st env token
  · exact .refl st

theorem kept_rejoinRelease (token : Token) : Kept st (st.rejoinRelease token) := by
  unfold rejoinRelease releaseLiveSession
  split
  · split
    · exact .refl st
    · split
      · exact .refl st
      · split
        · exact .refl st
        · exact (kept_flag st _ _).rest rfl
  · exact .refl st

theorem kept_rejoinRoom (sid : String) (token : Token) (banned : Bool) :
    Kept st (st.rejoinRoom sid token banned) := by
  have hreleased := kept_rejoinRelease st token
  unfold rejoinRoom
  dsimp only
  split
  · rename_i info entry _ _
    split
    · exact hreleased
    split
    · exact hreleased.rest rfl
    rename_i room hroom
    split
    · exact hreleased
    rename_i game hgame
    have hstarted : game.started = room.game.started := by
      rw [show game = (room.game.replacePlayerSid info.sid sid).1 by rw [hgame]]
      exact started_replacePlayerSid room.game info.sid sid
    unfold takeSeatBack
    refine ((hreleased.trans ?_).emit).bots
    refine .insert hroom (rooms_completeRejoin _ token sid) ?_
    exact ⟨rfl, fun _ _ h => h, rfl, rfl, rfl, fun hs => hstarted.trans hs⟩
  · exact hreleased

/-! ## Playing and watching -/

variable {st}

/-- A move changes the game of a room. -/
theorem kept_move {room : Room} (hroom : st.rooms.lookup roomId = some room) {i : Input}
    (hop : i.2.isPlay = true) {game : Game} (hgame : room.game.step i = game) :
    Kept st (st.modifyRoom roomId fun room => { room with game }) := by
  refine .modifyRoom fun room' hroom' => .game fun hs => ?_
  obtain rfl := Option.some.inj (hroom.symm.trans hroom')
  rw [← hgame, Game.started_step hop, hs]

theorem kept_actInRoom {α : Type} {sid : String} {move : Game → Game × Fallible α} {env : Env}
    (op : Op) (hop : op.isPlay = true) (hmove : ∀ g : Game, g.step (env, op) = (move g).1) :
    Kept st (st.actInRoom sid move) := by
  unfold actInRoom
  cases hplaced : st.roomForPlayer sid with
  | none => exact .refl st
  | some e =>
    obtain ⟨roomId, room⟩ := e
    have hroom := (placed_of_roomForPlayer hplaced).2
    dsimp only
    rcases hcase : move room.game with ⟨game, e | a⟩
    · exact .refl st
    · refine (kept_move hroom (i := (env, op)) hop ?_).trans (kept_afterMove _ roomId)
      rw [hmove, hcase]

theorem kept_resolveInRoom {move : Game → Game × Fallible (VoteResult × String)} {env : Env}
    (op : Op) (hop : op.isPlay = true) (hmove : ∀ g : Game, g.step (env, op) = (move g).1) :
    Kept st (st.resolveInRoom roomId move) := by
  unfold resolveInRoom
  cases hroom : st.rooms.lookup roomId with
  | none => exact .refl st
  | some room =>
    dsimp only
    rcases hcase : move room.game with ⟨game, e | ⟨result, text⟩⟩
    · exact .refl st
    · refine (kept_move hroom (i := (env, op)) hop ?_).trans (kept_handleChallengeResult _ roomId _)
      rw [hmove, hcase]

variable (st)

theorem kept_placeTiles (env : Env) (sid : String) (tiles : List Placed) :
    Kept st (st.placeTiles env sid tiles) := by
  unfold placeTiles
  split
  · exact kept_actInRoom (.placeTiles sid tiles) rfl fun _ => rfl
  · exact .refl st

theorem kept_exchangeTiles (env : Env) (sid : String) (indices : List ℤ) :
    Kept st (st.exchangeTiles env sid indices) := by
  unfold exchangeTiles
  split
  · exact kept_actInRoom (.exchangeTiles sid indices) rfl fun _ => rfl
  · exact .refl st

theorem kept_vote (env : Env) (sid : String) (accept : Bool) :
    Kept st (st.vote env sid accept) := by
  unfold vote
  split
  · exact .refl st
  · cases accept with
    | true => exact kept_resolveInRoom (.acceptPendingByPlayer sid) rfl fun _ => rfl
    | false => exact kept_resolveInRoom (.rejectPendingByPlayer sid) rfl fun _ => rfl

theorem kept_withdrawWords (sid : String) : Kept st (st.withdrawWords sid) := by
  unfold withdrawWords
  cases hplaced : st.roomForPlayer sid with
  | none => exact .refl st
  | some e =>
    obtain ⟨roomId, room⟩ := e
    have hroom := (placed_of_roomForPlayer hplaced).2
    dsimp only
    rcases hcase : room.game.withdrawPending sid with ⟨game, e | a⟩
    · exact .refl st
    · have hgame : (room.game.withdrawPending sid).1 = game := by rw [hcase]
      refine Kept.emit (Kept.turn (.modifyRoom fun room' hroom' => ?_))
      obtain rfl := Option.some.inj (hroom.symm.trans hroom')
      refine ⟨rfl, fun _ _ h => h, rfl, rfl, rfl, fun hs => ?_⟩
      rw [← Game.started_step (g := room.game) (i := (Game.stillEnv, .withdrawPending sid)) rfl] at hs
      exact (congrArg Game.started hgame.symm).trans hs

theorem kept_retryDaily (sid : String) (puzzle : DailyPuzzle) :
    Kept st (st.retryDaily sid puzzle) := by
  unfold retryDaily
  split
  · exact .refl st
  · split
    · exact .refl st
    · split
      · exact Kept.emit (.modifyGame fun _ _ hs => hs)
      · exact .refl st

theorem kept_resignGame (sid : String) : Kept st (st.resignGame sid) := by
  unfold resignGame
  cases hplaced : st.roomForPlayer sid with
  | none => exact .refl st
  | some e =>
    obtain ⟨roomId, room⟩ := e
    have hroom := (placed_of_roomForPlayer hplaced).2
    dsimp only
    split
    · exact .refl st
    · rcases hcase : room.game.resign sid with ⟨game, e | a⟩
      · exact .refl st
      · refine Kept.emit (kept_move hroom (i := (Game.stillEnv, .resign sid)) rfl ?_)
        change (room.game.resign sid).1 = game
        rw [hcase]

theorem kept_saveGame (sid : String) : Kept st (st.saveGame sid) := by
  unfold saveGame
  split
  · exact .refl st
  · split
    · exact .refl st
    · exact kept_saveManually st _

theorem kept_spectateRoom (sid : String) (roomId : RoomId) (byCode : Bool) :
    Kept st (st.spectateRoom sid roomId byCode) := by
  have hwatch : Kept st (st.modifyRoom roomId fun room =>
      { room with spectators := insert sid room.spectators }) :=
    .modifyRoom fun _ _ => ⟨rfl, fun _ _ h => h, rfl, rfl, rfl, id⟩
  unfold spectateRoom
  dsimp only
  split_ifs
  · exact .refl st
  · split
    · exact .refl st
    · split_ifs
      · exact .refl st
      · exact .refl st
      · exact Kept.bots (Kept.emit (hwatch.rest rfl))

theorem kept_challengeTimeout (env : Env) (roomId : RoomId) (timerId : ℕ) :
    Kept st (st.challengeTimeout env roomId timerId) := by
  unfold challengeTimeout
  cases hroom : st.rooms.lookup roomId with
  | none => exact .refl st
  | some room =>
    dsimp only
    split
    · exact .refl st
    rcases hcase : room.game.acceptPending env with ⟨game, e | a⟩
    · exact .refl st
    · refine (kept_move hroom (i := (env, .acceptPending)) rfl ?_).trans (kept_beginTurn _ roomId _)
      change (room.game.acceptPending env).1 = game
      rw [hcase]

theorem kept_turnTimeout (env : Env) (roomId : RoomId) (timerId : ℕ) :
    Kept st (st.turnTimeout env roomId timerId) := by
  unfold turnTimeout
  cases hroom : st.rooms.lookup roomId with
  | none => exact .refl st
  | some room =>
    dsimp only
    split_ifs
    · exact .refl st
    · exact .refl st
    cases room.game.currentPlayer with
    | none => exact .refl st
    | some current =>
      dsimp only
      rcases hcase : room.game.passTurn env current.id false with ⟨game, e | a⟩
      · exact .refl st
      · have hmove : Kept st (st.modifyRoom roomId fun room => { room with game }) := by
          refine kept_move hroom (i := (env, .passTurn current.id false)) rfl ?_
          change (room.game.passTurn env current.id false).1 = game
          rw [hcase]
        dsimp only
        split
        · exact (hmove.marks kept_invalidateTurnTimer).trans (kept_beginTurn _ roomId _)
        · exact hmove.trans (kept_beginTurn _ roomId _)

theorem kept_takeSnapshot (turn : BotTurn) : Kept st (st.takeSnapshot turn) := by
  unfold takeSnapshot
  split
  · exact .refl st
  split
  · exact .refl st
  split
  · exact .refl st
  split
  · exact .refl st
  · exact .of_rooms rfl

theorem kept_playBotTurn (env : Env) (turn : BotTurn) (botId : String) (action : Robot.Action) :
    Kept st (st.playBotTurn env turn botId action) := by
  unfold playBotTurn
  cases hroom : st.rooms.lookup turn.roomId with
  | none => exact .refl st
  | some room =>
    obtain ⟨op, hop, hstep⟩ := botAct_step env room.game botId action
    rcases hcase : botAct env room.game botId action with ⟨game, e | a⟩
    · dsimp only
      split_ifs
      · exact .refl st
      · simp only [hcase]
        exact .refl st
    · rw [hcase] at hstep
      have hmove := (kept_move hroom hop hstep).trans (kept_afterMove _ turn.roomId)
      dsimp only
      split_ifs
      · exact .refl st
      · simp only [hcase]
        exact hmove

/-! ## Rooms that end -/

theorem kept_cleanupFinishedAsync (roomId : RoomId) : Kept st (st.cleanupFinishedAsync roomId) := by
  unfold cleanupFinishedAsync
  split
  · exact .refl st
  · split
    · exact kept_cleanupRoom st roomId
    · exact .refl st

theorem kept_expireAsyncTurn (env : Env) (roomId : RoomId) :
    Kept st (st.expireAsyncTurn env roomId) := by
  unfold expireAsyncTurn
  cases hroom : st.rooms.lookup roomId with
  | none => exact .refl st
  | some room =>
    dsimp only
    refine iteInduction (motive := Kept st) (fun _ => .refl st) fun _ => ?_
    rcases hcase : room.game.expireTurn env with ⟨game, changed⟩
    cases changed with
    | false => exact .refl st
    | true =>
      refine Kept.trans (Kept.emit ?_) (kept_cleanupFinishedAsync _ roomId)
      refine kept_move hroom (i := (env, .expireTurn)) rfl ?_
      change (room.game.expireTurn env).1 = game
      rw [hcase]

theorem kept_afterChange (roomId : RoomId) (restart : Bool) :
    Kept st (st.afterChange roomId restart) := by
  have hvoid : Kept st (st.modifyRoom roomId Room.invalidateTurnTimer) :=
    (Kept.refl st).marks kept_invalidateTurnTimer
  have hclean : ∀ (st₁ : Server) (c : Prop) [Decidable c], Kept st st₁ →
      Kept st (if c then st₁.cleanupFinishedAsync roomId else st₁) := fun st₁ c _ h =>
    iteInduction (motive := Kept st) (fun _ => h.trans (kept_cleanupFinishedAsync st₁ roomId))
      fun _ => h
  unfold afterChange
  split
  · exact .refl st
  · dsimp only
    refine Kept.bots (hclean _ _ (Kept.emit ?_))
    split_ifs
    · exact hvoid.trans (kept_startChallengeTimer _ roomId)
    · exact (hvoid.marks kept_invalidateChallengeTimer).saved
    · exact hvoid.turn
    · exact hvoid

theorem kept_skipTurn (env : Env) (roomId : RoomId) : Kept st (st.skipTurn env roomId) := by
  unfold skipTurn
  cases hroom : st.rooms.lookup roomId with
  | none => exact .refl st
  | some room =>
    dsimp only
    split_ifs
    · exact .refl st
    cases room.game.currentPlayer with
    | none => exact .refl st
    | some current =>
      dsimp only
      rcases hcase : room.game.passTurn env current.id room.isAsync with ⟨game, e | a⟩
      · exact .refl st
      · refine Kept.trans (kept_move hroom (i := (env, .passTurn current.id room.isAsync)) rfl ?_)
          (kept_afterChange _ roomId true)
        change (room.game.passTurn env current.id room.isAsync).1 = game
        rw [hcase]

theorem kept_endGame (roomId : RoomId) : Kept st (st.endGame roomId) := by
  unfold endGame
  split
  · exact .refl st
  · split
    · exact .refl st
    · refine Kept.trans (.modifyRoom fun room _ => ?_) (kept_afterChange _ roomId false)
      have hstarted := Game.started_step (g := room.game) (i := (Game.stillEnv, .forceEnd)) rfl
      exact ⟨rfl, fun _ _ h => h, rfl, rfl, rfl, fun hs => hstarted.trans hs⟩

theorem kept_kickUser (userId : UserId) : Kept st (st.kickUser userId) := by
  have hrooms : ∀ (tokens : List Token) (st : Server), (tokens.foldl (fun st token => { st with
      disconnectedPlayers := st.disconnectedPlayers.erase token
      reconnectTokens := st.reconnectTokens.erase token }) st).rooms = st.rooms := by
    intro tokens
    induction tokens with
    | nil => exact fun _ => rfl
    | cons token tokens ih => exact fun st => (ih _).trans rfl
  exact .of_rooms (hrooms _ st)

theorem kept_removePlayer (env : Env) (roomId : RoomId) (playerName : String) :
    Kept st (st.removePlayer env roomId playerName) := by
  unfold removePlayer
  split
  · exact .refl st
  rename_i room hroom
  split
  · exact .refl st
  rename_i player _
  dsimp only
  have hrooms : (st.dropPlayer player.id).rooms = st.rooms := rooms_cleanupPlayerToken _ _
  have hgame : (if room.isRunning = true then (room.game.markDisconnected player.id).1 else
      (room.game.removePlayer player.id).1).started = room.game.started := by
    split
    · exact started_markDisconnected room.game player.id
    · exact (removePlayer_rest room.game player.id).1
  generalize (if room.isRunning = true then (room.game.markDisconnected player.id).1 else
    (room.game.removePlayer player.id).1) = game at hgame ⊢
  have hset : Kept st ((st.dropPlayer player.id).modifyRoom roomId fun room =>
      { room with game }) := by
    refine (Kept.of_rooms hrooms).trans (.modifyRoom fun room' hroom' => .game fun hs => ?_)
    rw [hrooms] at hroom'
    obtain rfl := Option.some.inj (hroom.symm.trans hroom')
    exact hgame.trans hs
  split
  · exact (hset.rest (rooms_abandonSave _ _ room)).trans (kept_cleanupRoom _ roomId)
  · refine Kept.emit ?_
    split_ifs
    · exact (hset.trans (kept_transferOwnership _ _)).trans (kept_advanceTurnIfNeeded _ env _)
    · exact hset.trans (kept_advanceTurnIfNeeded _ env _)
    · exact hset.trans (kept_transferOwnership _ _)
    · exact hset

theorem kept_disbandRoom (roomId : RoomId) (save : Bool) :
    Kept st (st.disbandRoom roomId save) := by
  unfold disbandRoom
  split
  · exact .refl st
  · dsimp only
    split_ifs
    · exact (kept_saveManually st roomId).trans (kept_disbandActiveRoom _ roomId none)
    · exact kept_disbandActiveRoom st roomId none

end Server

end ScrabbleMagyar
