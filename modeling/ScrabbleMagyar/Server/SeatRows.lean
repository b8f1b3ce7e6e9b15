import ScrabbleMagyar.Server.Kept

/-!
# Whose the seats of a room are

The records of a room that say whose its seats are agree in every state that is reached
(`Room.Told`, `told_step`): a missing player is expected under the account of the seat, and a room
that knows whose its seats are admits their players only, or has been started.
-/

namespace ScrabbleMagyar

namespace Server

variable {st st' : Server} {roomId : RoomId}

/-! ## What the records of a room say -/

/-- A missing player is expected under the account of the seat, and a room that knows whose its
seats are has been started or is a lobby that admits their players only. -/
structure Room.Told (room : Room) : Prop where
  missing : ∀ name expected, room.lateJoinNames.lookup name = some expected →
    expected = knownIdentity room name
  lobby : room.game.started = false → ∀ name, (room.knownUserIds.lookup name).isSome = true →
    room.isRestored = true ∧ ∃ names, room.expectedPlayers = some names ∧ names.isEmpty = false

/-- The records of every room agree. -/
def Told (st : Server) : Prop := ∀ r room, st.rooms.lookup r = some room → room.Told

theorem Room.Told.kept {room room' : Room} (h : room.Told) (hk : Room.Kept room room') :
    room'.Told where
  missing := fun name expected hn => by
    have heq := h.missing name expected (hk.missing name expected hn)
    rw [heq, knownIdentity, knownIdentity, hk.known]
  lobby := fun hwait name hn => by
    rw [hk.known] at hn
    rw [hk.isRestored, hk.expected]
    refine h.lobby ?_ name hn
    cases hs : room.game.started with
    | false => rfl
    | true => exact (hk.started hs).symm.trans hwait

theorem Room.Told.of_started {room : Room} (hs : room.game.started = true)
    (hmissing : room.lateJoinNames = ∅) : room.Told where
  missing := fun name expected hn => by simp [hmissing] at hn
  lobby := fun hwait => by simp [hs] at hwait

theorem Room.Told.of_unknown {room : Room} (hknown : room.knownUserIds = ∅)
    (hmissing : room.lateJoinNames = ∅) : room.Told where
  missing := fun name expected hn => by simp [hmissing] at hn
  lobby := fun _ name hn => by simp [hknown] at hn

theorem Told.kept (h : st.Told) (hk : Kept st st') : st'.Told := by
  intro r room' hroom'
  obtain ⟨room, hroom, hkept⟩ := hk r room' hroom'
  exact (h r room hroom).kept hkept

theorem Told.insert (h : st.Told) {room : Room} (hroom : room.Told)
    (hrooms : st'.rooms = st.rooms.insert roomId room) : st'.Told := by
  intro r room' hroom'
  rw [hrooms, Table.lookup_insert] at hroom'
  split at hroom'
  · cases hroom'
    exact hroom
  · exact h r room' hroom'

theorem Told.modifyRoom (h : st.Told) {f : Room → Room}
    (hf : ∀ room, st.rooms.lookup roomId = some room → (f room).Told) :
    (st.modifyRoom roomId f).Told := by
  unfold Server.modifyRoom
  split
  · rename_i room hroom
    exact h.insert (hf room hroom) rfl
  · exact h

/-! ## Rooms that are opened, loaded or started -/

theorem Told.openRoom (h : st.Told) (sid name : String) {room : Token → Room}
    (hroom : ∀ token, (room token).Told) : (st.openRoom sid name room).Told := by
  unfold Server.openRoom
  refine Told.kept ?_ (kept_emitAllStates _ st.roomSeq)
  refine h.insert (hroom _) (congrArg (AList.insert _ _) ?_)
  exact (generateReconnectToken_rest st sid st.roomSeq name _).1

theorem told_createRoom (h : st.Told) (env : Env) (sid : String) (o : RoomOptions) :
    (st.createRoom env sid o).Told := by
  unfold createRoom
  split
  · exact h
  · exact h.openRoom sid _ fun _ => .of_unknown rfl rfl

theorem told_startDaily (h : st.Told) (env : Env) (sid : String) (puzzle : DailyPuzzle) :
    (st.startDaily env sid puzzle).Told := by
  unfold startDaily
  split
  · exact h
  · exact h.openRoom sid _ fun _ => .of_unknown rfl rfl

theorem expected_of_restorable {sid : String} {gameId : ℕ} {row : SavedGame}
    (h : st.restorable sid gameId = some row) :
    (expectedNames (((row.stateJson.get? "players").bind Json.asArray).getD [])).isEmpty =
      false := by
  unfold restorable at h
  split at h
  · cases h
  split at h
  · cases h
  split at h
  · cases h
  dsimp only at h
  split_ifs at h with h₁ h₂ h₃
  cases h
  exact Bool.not_eq_true _ ▸ h₃

theorem told_restoreGame (h : st.Told) (env : Env) (sid : String) (gameId : ℕ) :
    (st.restoreGame env sid gameId).Told := by
  unfold restoreGame
  cases hrow : st.restorable sid gameId with
  | none => exact h
  | some row =>
    refine h.openRoom sid _ fun token => ⟨fun name expected hn => ?_, fun _ _ _ => ⟨rfl, _, rfl, ?_⟩⟩
    · simp [Room.new] at hn
    · exact expected_of_restorable hrow

theorem started_startAsync (env : Env) {g : Game} (hs : g.started = false) (hne : g.players ≠ [])
    (starter : ℕ) : (g.startAsync env starter).started = true := by
  obtain ⟨e, hstart⟩ | ⟨-, -, text, hstart⟩ := Game.start_cases env g
  · simp [Game.start, hs, hne] at hstart
  · unfold Game.startAsync
    simp only [hstart]
    split_ifs <;> rfl

theorem told_createAsyncGame (h : st.Told) (env : Env) {sid : String} (hsid : isSid sid = true)
    (friends : List (UserId × String)) (turnHours : ℤ) (starter : ℕ) :
    (st.createAsyncGame env sid friends turnHours starter).Told := by
  obtain heq | ⟨userId, -, -, heq⟩ := createAsyncGame_cases st env sid friends turnHours starter <;>
    rw [heq]
  · exact h
  · obtain ⟨hs, -, p, rest, hplayers, -⟩ := (invites_newAsync env (toString st.roomSeq) turnHours
      sid ((st.playerNames.lookup sid).getD anonymous)).inviteFriends hsid st.roomSeq
        [((st.playerNames.lookup sid).getD anonymous, some userId)] friends
    exact h.openRoom sid _ fun _ => .of_started
      (started_startAsync env hs (by rw [hplayers]; exact List.cons_ne_nil p rest) _) rfl

/-- The room of a correspondence game as it is loaded. -/
theorem told_asyncRoomForDbGame (h : st.Told) (ha : st.Archive) {env : Env} {row : SavedGame}
    (hrow : row ∈ st.db.games) (hactive : row.status = .active) {roomId : Option RoomId}
    (heq : st.asyncRoomForDbGame env row = (st', roomId)) : st'.Told := by
  unfold asyncRoomForDbGame at heq
  split at heq
  · cases heq
    exact h
  · split at heq
    · cases heq
      exact h
    · rename_i room hroom
      cases heq
      refine h.insert ?_ rfl
      unfold asyncRoom at hroom
      obtain ⟨g, hload, hstarted, -⟩ := (ha.saves row hrow hactive).load env
      simp only [hload] at hroom
      obtain rfl := Option.some.inj hroom
      exact .of_started hstarted rfl

theorem told_openAsyncGame (h : st.Told) (ha : st.Archive) (env : Env) (sid : String)
    (gameId : ℕ) : (st.openAsyncGame env sid gameId).Told := by
  unfold openAsyncGame
  cases hopen : st.openable sid gameId with
  | none => exact h
  | some e =>
    obtain ⟨userId, row⟩ := e
    obtain ⟨-, -, hrow, -, hactive⟩ := openable_cases hopen
    dsimp only
    rcases hload : st.asyncRoomForDbGame env row with ⟨st₁, roomId⟩
    have htold := told_asyncRoomForDbGame h ha hrow hactive hload
    cases roomId with
    | none => exact htold
    | some roomId =>
      dsimp only
      split
      · exact htold
      · split
        · exact htold
        · rename_i room hroom player hseat
          have hover : Kept st₁ (st₁.takeOver roomId player) := by
            rw [takeOver_eq]
            split
            · exact .of_rooms (rooms_cleanupPlayerToken _ _)
            · exact .refl st₁
          refine htold.kept (Kept.emit ?_)
          exact (hover.trans (kept_reseat _ roomId player.id sid)).rest
            (generateReconnectToken_rest _ sid roomId player.name _).1

theorem kept_joinRoom (sid : String) (roomId : RoomId) (byCode : Bool) :
    Kept st (st.joinRoom sid roomId byCode) := by
  unfold joinRoom
  dsimp only
  split
  · exact .refl st
  · rename_i oldId _
    refine Kept.bots (Kept.emit (Kept.rest ?_ (generateReconnectToken_rest _ sid roomId _ _).1))
    refine Kept.rest (.modifyRoom fun room _ => ?_) rfl
    refine ⟨rfl, fun name expected hn => ?_, rfl, rfl, rfl, fun hs => ?_⟩
    · rw [Table.lookup_erase] at hn
      split at hn
      · cases hn
      · exact hn
    · exact (started_replacePlayerSid room.game oldId sid).trans hs
  · refine Kept.emit (Kept.rest ?_ (generateReconnectToken_rest _ sid roomId _ _).1)
    refine Kept.rest (.modifyGame fun room _ hs => ?_) rfl
    unfold Game.addPlayer
    split_ifs <;> exact hs

theorem mem_of_lookup_foldl {κ ν : Type*} [DecidableEq κ] {l : List (κ × ν)} {t : Table κ ν}
    {k : κ} {v : ν} (h : (l.foldl (fun t e => t.insert e.1 e.2) t).lookup k = some v) :
    (k, v) ∈ l ∨ t.lookup k = some v := by
  induction l generalizing t with
  | nil => exact .inr h
  | cons e l ih =>
    rcases ih h with hmem | hlookup
    · exact .inl (List.mem_cons_of_mem e hmem)
    · rw [Table.lookup_insert] at hlookup
      split at hlookup
      · rename_i hk
        cases hlookup
        exact .inl (by simp [hk])
      · exact .inr hlookup

theorem mem_of_lookup_ofList {κ ν : Type*} [DecidableEq κ] {l : List (κ × ν)} {k : κ} {v : ν}
    (h : (Table.ofList l).lookup k = some v) : (k, v) ∈ l := by
  rcases mem_of_lookup_foldl h with hmem | hnone
  · exact hmem
  · simp at hnone

/-- A player who is missing at the start is expected under the account of the seat. -/
theorem told_restoreStart (h : st.Told) {env : Env} {room : Room} {save : SavedGame}
    (hroom : st.rooms.lookup roomId = some room) (hsound : save.Sound)
    (hplayers : ∀ q ∈ room.game.players, isBotId q.id = false) :
    (st.restoreStart env roomId room save).Told := by
  unfold restoreStart
  split
  · exact h
  · rename_i game hgame
    obtain ⟨hstarted, -⟩ := restoredGame_cases hsound hgame hplayers
    refine Told.kept ?_ (Kept.saved (Kept.bots (Kept.emit (Kept.turn (.refl _)))))
    refine h.modifyRoom fun room' hroom' => ⟨fun name expected hn => ?_, fun hwait => ?_⟩
    · obtain rfl := Option.some.inj (hroom.symm.trans hroom')
      obtain ⟨q, -, heq⟩ := List.mem_map.mp (mem_of_lookup_ofList hn)
      cases heq
      rfl
    · simp [hstarted] at hwait

theorem told_startGame (h : st.Told) (ha : st.Archive) (env : Env) (sid : String) :
    (st.startGame env sid).Told := by
  unfold startGame
  cases hplaced : st.roomForPlayer sid with
  | none => exact h
  | some e =>
    obtain ⟨roomId, room⟩ := e
    have hroom := (placed_of_roomForPlayer hplaced).2
    dsimp only
    split
    · exact h
    split
    · rename_i save hsave
      have hlobby := ha.lobbies roomId room save hroom hsave
      refine told_restoreStart h hroom hlobby.sound fun q hq => ?_
      have hseat := List.mem_map_of_mem (f := Player.seat) hq
      exact ((ha.rooms roomId room hroom).proper q.seat hseat).bot.symm.trans
        (hlobby.human q.seat hseat)
    · split
      · exact h
      · rename_i game text hstart
        refine h.kept (Kept.saved (Kept.bots (Kept.emit (Kept.turn (.modifyRoom fun room _ => ?_)))))
        exact .game fun _ => (start_rest hstart).1

/-! ## Every event -/

theorem told_handle (h : st.Told) (ha : st.Archive) (env : Env) {sid : String}
    (hsid : isSid sid = true) (message : Message) : (st.handle env sid message).Told := by
  cases message with
  | setName name auth => exact h
  | logout => exact h.kept (kept_logout st env sid)
  | rejoinRoom token banned => exact h.kept (kept_rejoinRoom st sid token banned)
  | createRoom options => exact told_createRoom h env sid options
  | joinRoom roomId byCode => exact h.kept (kept_joinRoom sid roomId byCode)
  | leaveRoom => exact h.kept (kept_leaveRoom st env sid)
  | startGame => exact told_startGame h ha env sid
  | saveGame => exact h.kept (kept_saveGame st sid)
  | restoreGame gameId => exact told_restoreGame h env sid gameId
  | placeTiles tiles => exact h.kept (kept_placeTiles st env sid tiles)
  | exchangeTiles indices => exact h.kept (kept_exchangeTiles st env sid indices)
  | passTurn => exact h.kept (kept_actInRoom (.passTurn sid false) rfl fun _ => rfl)
  | vote accept => exact h.kept (kept_vote st env sid accept)
  | withdrawWords => exact h.kept (kept_withdrawWords st sid)
  | retryDaily puzzle => exact h.kept (kept_retryDaily st sid puzzle)
  | createAsyncGame friends turnHours starter =>
    exact told_createAsyncGame h env hsid friends turnHours starter
  | openAsyncGame gameId => exact told_openAsyncGame h ha env sid gameId
  | resignGame => exact h.kept (kept_resignGame st sid)
  | spectateRoom roomId byCode => exact h.kept (kept_spectateRoom st sid roomId byCode)
  | leaveSpectate => exact h.kept (kept_leaveSpectate st sid)

/-- **The records of the rooms agree after every event.** -/
theorem told_step (h : st.Told) (ha : st.Archive) (i : Env × Event) : (st.step i).Told := by
  obtain ⟨env, event⟩ := i
  unfold step
  cases event with
  | message sid message =>
    dsimp only
    split
    · exact h
    · exact told_handle h ha env sid.2 message
  | startDaily sid puzzle => exact told_startDaily h env sid puzzle
  | disconnect sid =>
    dsimp only
    split
    · exact h
    · exact h.kept (kept_handleDisconnect st sid)
  | graceTimeout token seq =>
    dsimp only
    split
    · exact h.kept (Kept.trans (.of_rooms rfl) (kept_graceTimeout _ env token seq))
    · exact h
  | challengeTimeout timer =>
    dsimp only
    split
    · exact h.kept (Kept.trans (.of_rooms rfl) (kept_challengeTimeout _ env _ _))
    · exact h
  | turnTimeout timer =>
    dsimp only
    split
    · exact h.kept (Kept.trans (.of_rooms rfl) (kept_turnTimeout _ env _ _))
    · exact h
  | botSnapshot turn =>
    dsimp only
    split
    · exact h.kept (Kept.trans (.of_rooms rfl) (kept_takeSnapshot _ turn))
    · exact h
  | botAction turn action =>
    dsimp only
    split
    · exact h
    · split
      · exact h.kept (Kept.trans (.of_rooms rfl) (kept_playBotTurn _ env turn _ action))
      · exact h
  | expireAsyncTurn roomId => exact h.kept (kept_expireAsyncTurn st env roomId)
  | kickUser userId => exact h.kept (kept_kickUser st userId)
  | removePlayer roomId playerName => exact h.kept (kept_removePlayer st env roomId playerName)
  | skipTurn roomId => exact h.kept (kept_skipTurn st env roomId)
  | resolveVote roomId accept =>
    exact h.kept (kept_resolveInRoom (.forceResolvePending accept) rfl fun _ => rfl)
  | endGame roomId => exact h.kept (kept_endGame st roomId)
  | disbandRoom roomId save => exact h.kept (kept_disbandRoom st roomId save)

theorem told_start (db : Db) : (start db).Told := fun r room hroom => by
  simp [start] at hroom

end Server

end ScrabbleMagyar
