import ScrabbleMagyar.Server.Starting
import ScrabbleMagyar.Server.Step

/-!
# Every event is a deed

The interventions of an administrator and the moves of the players (`Acts`), and with them every
event: `acts_step`.
-/

namespace ScrabbleMagyar

namespace Server

variable {K : Server → RoomId → SavedGame → Prop} {C : Finish → Prop} {st st₁ st₂ st' : Server}
  {p p₁ : Presence}

/-! ## Interventions -/

theorem staleTokens_away {userId : UserId} {token : Token} (h : token ∈ st.staleTokens userId) :
    (st.presence.away token).isSome = true := by
  obtain ⟨e, he, rfl⟩ := List.mem_map.mp h
  have hp := (List.mem_filter.mp he).2
  rw [Bool.and_eq_true] at hp
  simpa [Server.presence] using hp.2

theorem presence_foldl_void (st : Server) (tokens : List Token) :
    (tokens.foldl (fun (st : Server) token => { st with
      disconnectedPlayers := st.disconnectedPlayers.erase token
      reconnectTokens := st.reconnectTokens.erase token }) st).presence =
      st.presence.act (.kicked tokens) := by
  induction tokens generalizing st with
  | nil =>
    refine Presence.ext rfl rfl ?_ rfl ?_ rfl rfl rfl rfl rfl <;> funext t <;> simp [Presence.act]
  | cons token tokens ih =>
    rw [List.foldl_cons, ih]
    refine Presence.ext rfl rfl ?_ rfl ?_ rfl rfl rfl rfl rfl
    · funext t
      by_cases ht : t = token <;>
        simp [Server.presence, Presence.act, Table.lookup_erase, ht]
    · funext t
      by_cases ht : t = token <;>
        simp [Server.presence, Presence.act, Table.lookup_erase, ht]

theorem acts_kickUser (st : Server) (userId : UserId) :
    Acts K st (st.kickUser userId) (.kicked (st.staleTokens userId)) := by
  have hrest : ∀ (tokens : List Token) (st : Server),
      let st' := tokens.foldl (fun (st : Server) token => { st with
        disconnectedPlayers := st.disconnectedPlayers.erase token
        reconnectTokens := st.reconnectTokens.erase token }) st
      st'.rooms = st.rooms ∧ st'.db = st.db ∧ st'.roomSeq = st.roomSeq := by
    intro tokens
    induction tokens with
    | nil => exact fun st => ⟨rfl, rfl, rfl⟩
    | cons token tokens ih => exact fun st => ih _
  obtain ⟨hrooms, hdb, hseq⟩ := hrest (st.staleTokens userId) st
  have hpres : (st.kickUser userId).presence = st.presence.act (.kicked (st.staleTokens userId)) :=
    presence_foldl_void st (st.staleTokens userId)
  refine ⟨.of_moved (.tables hrooms hdb hseq fun hn => ?_) hpres, fun t ht => staleTokens_away ht⟩
  rw [hpres]
  exact hn.of_sub (fun _ _ => some_of_ite) fun _ _ => some_of_ite

theorem Does.dropPlayer (h : Does K C st st₁ p) (sid : String) :
    Does K C st (st₁.dropPlayer sid) ((p.exit [sid]).revoke [sid]) :=
  (h.exitRoom sid).cleanupPlayerToken sid

theorem acts_removePlayer (ha : st.Archive) (env : Env) (roomId : RoomId) (playerName : String) :
    Acts K st (st.removePlayer env roomId playerName) (st.removeDeed roomId playerName) := by
  unfold removePlayer removeDeed
  cases hroom : st.rooms.lookup roomId with
  | none => exact acts_refl st
  | some room =>
    dsimp only
    cases hfind : room.game.players.find? fun p => p.name = playerName ∧ p.isBot = false with
    | none => exact acts_refl st
    | some player =>
      dsimp only
      have hmem : player.seat ∈ room.hall.seats :=
        List.mem_map_of_mem (List.mem_of_find?_eq_some hfind)
      have hbot : player.isBot = false := by
        have hp := List.find?_some hfind
        simp only [decide_eq_true_eq] at hp
        exact hp.2
      have hid : isBotId player.id = false :=
        ((ha.rooms roomId room hroom).proper player.seat hmem).bot.symm.trans hbot
      refine ⟨?_, room.hall, hall_of_lookup hroom, player.seat, hmem, rfl, hbot⟩
      have hdrop : ∀ C, Does K C st (st.dropPlayer player.id)
          ((st.presence.exit [player.id]).revoke [player.id]) := fun C =>
        (Does.refl st).dropPlayer player.id
      have hroom₁ : (st.dropPlayer player.id).rooms.lookup roomId = some room := by
        rw [← hroom, dropPlayer, Server.cleanupPlayerToken]
        split <;> rfl
      generalize st.dropPlayer player.id = st₁ at hdrop hroom₁ ⊢
      have hseat : ∀ C, Does K C st (st₁.modifyRoom roomId fun room₁ => { room₁ with
          game := if room.isRunning then (room.game.markDisconnected player.id).1
            else (room.game.removePlayer player.id).1 })
          (((st.presence.exit [player.id]).revoke [player.id]).modifyHall roomId
            (if room.isRunning then Hall.flag player.id else Hall.unseat player.id)) := by
        intro C
        have hp := (hdrop C).presence
        refine (hdrop C).trans ?_
        rw [← hp]
        refine does_modifyRoom fun room' hroom' => ?_
        obtain rfl := Option.some.inj (hroom₁.symm.trans hroom')
        split
        · exact ⟨.flag room hid, by simp only [Room.hall, Hall.flag, Game.seats_markDisconnected]⟩
        · exact ⟨.unseat room _, by simp only [Room.hall, Hall.unseat, Game.seats_removePlayer]⟩
      generalize (if room.isRunning then (room.game.markDisconnected player.id).1
        else (room.game.removePlayer player.id).1) = game at hseat ⊢
      refine (hseat _).dropOr ha (lookup_modifyRoom_self hroom₁ _) ?_ room
        (tail_goOn _ env roomId _ _) fun f hf => ⟨_, .tail _ (.head _), hf⟩
      rw [hasConnected_hall, humans_hall]
      simp [Room.hall]

theorem acts_disbandRoom (ha : st.Archive) (roomId : RoomId) (save : Bool) :
    Acts K st (st.disbandRoom roomId save)
      (if (st.rooms.lookup roomId).isSome then .disbanded roomId else .nothing) := by
  unfold disbandRoom
  cases hroom : st.rooms.lookup roomId with
  | none => exact acts_refl st
  | some room =>
    dsimp only
    simp only [Option.isSome_some, if_true]
    refine ⟨?_, by simp [Presence.Can, hall_of_lookup hroom]⟩
    have hsave : ∀ C, Does K C st (if (save && room.isRunning && room.game.puzzle.isNone) = true
        then st.saveManually roomId else st) st.presence := by
      intro C
      split
      · rename_i hc
        simp only [Bool.and_eq_true] at hc
        have htail := tail_saveManually st roomId
        have hfin := ((room.isRunning_iff).mp hc.1.2).2
        exact ⟨htail.course K, htail.presence ha, fun f hf =>
          .inl (saveManually_finishes ha hroom hfin ▸ hf)⟩
      · exact .refl st
    have hend := does_disbandActiveRoom (K := K) (C := fun f => ∃ p ∈ st.presence.stages
      (.disbanded roomId), p.Credits f) (if (save && room.isRunning && room.game.puzzle.isNone) =
        true then st.saveManually roomId else st) roomId none
    rw [(hsave fun _ => False).presence] at hend
    exact (hsave _).trans hend

/-! ## Playing -/

/-- A move changes the game of a room. -/
theorem tail_move {roomId : RoomId} {room : Room} (hroom : st.rooms.lookup roomId = some room)
    {i : Input} (hop : i.2.isPlay = true) {game : Game} (hgame : room.game.step i = game) :
    Tail st (st.modifyRoom roomId fun room => { room with game }) := by
  subst hgame
  refine .modifyRoom fun room' hroom' => ?_
  obtain rfl := Option.some.inj (hroom.symm.trans hroom')
  refine ⟨.step room hop, ?_⟩
  simp only [Room.hall, Game.seats_step hop]

theorem tail_actInRoom {α : Type} {sid : String} {move : Game → Game × Fallible α} {env : Env}
    (op : Op) (hop : op.isPlay = true) (hmove : ∀ g : Game, g.step (env, op) = (move g).1) :
    Tail st (st.actInRoom sid move) := by
  unfold actInRoom
  cases hplaced : st.roomForPlayer sid with
  | none => exact .refl st
  | some e =>
    obtain ⟨roomId, room⟩ := e
    have hroom := (placed_of_roomForPlayer hplaced).2
    dsimp only
    rcases hcase : move room.game with ⟨game, e | a⟩
    · exact .refl st
    · refine (tail_move hroom (i := (env, op)) hop ?_).trans (tail_afterMove _ roomId)
      rw [hmove, hcase]

theorem tail_resolveInRoom {roomId : RoomId} {move : Game → Game × Fallible (VoteResult × String)}
    {env : Env} (op : Op) (hop : op.isPlay = true)
    (hmove : ∀ g : Game, g.step (env, op) = (move g).1) : Tail st (st.resolveInRoom roomId move) := by
  unfold resolveInRoom
  cases hroom : st.rooms.lookup roomId with
  | none => exact .refl st
  | some room =>
    dsimp only
    rcases hcase : move room.game with ⟨game, e | ⟨result, text⟩⟩
    · exact .refl st
    · refine (tail_move hroom (i := (env, op)) hop ?_).trans (tail_handleChallengeResult _ roomId _)
      rw [hmove, hcase]

theorem tail_placeTiles (st : Server) (env : Env) (sid : String) (tiles : List Placed) :
    Tail st (st.placeTiles env sid tiles) := by
  unfold placeTiles
  split
  · exact tail_actInRoom (.placeTiles sid tiles) rfl fun _ => rfl
  · exact .refl st

theorem tail_exchangeTiles (st : Server) (env : Env) (sid : String) (indices : List ℤ) :
    Tail st (st.exchangeTiles env sid indices) := by
  unfold exchangeTiles
  split
  · exact tail_actInRoom (.exchangeTiles sid indices) rfl fun _ => rfl
  · exact .refl st

theorem tail_passTurn (st : Server) (env : Env) (sid : String) : Tail st (st.passTurn env sid) :=
  tail_actInRoom (.passTurn sid false) rfl fun _ => rfl

theorem tail_vote (st : Server) (env : Env) (sid : String) (accept : Bool) :
    Tail st (st.vote env sid accept) := by
  unfold vote
  split
  · exact .refl st
  · cases accept with
    | true => exact tail_resolveInRoom (.acceptPendingByPlayer sid) rfl fun _ => rfl
    | false => exact tail_resolveInRoom (.rejectPendingByPlayer sid) rfl fun _ => rfl

theorem tail_resolveVote (st : Server) (env : Env) (roomId : RoomId) (accept : Bool) :
    Tail st (st.resolveVote env roomId accept) :=
  tail_resolveInRoom (.forceResolvePending accept) rfl fun _ => rfl

theorem tail_withdrawWords (st : Server) (sid : String) : Tail st (st.withdrawWords sid) := by
  unfold withdrawWords
  cases hplaced : st.roomForPlayer sid with
  | none => exact .refl st
  | some e =>
    obtain ⟨roomId, room⟩ := e
    have hroom := (placed_of_roomForPlayer hplaced).2
    dsimp only
    rcases hcase : room.game.withdrawPending sid with ⟨game, e | a⟩
    · exact .refl st
    · have hgame : room.game.step (Game.stillEnv, .withdrawPending sid) = game := by
        change (room.game.withdrawPending sid).1 = game
        rw [hcase]
      refine Tail.trans ?_ ((tail_startTurnTimer _ roomId).trans (tail_emitAllStates _ roomId))
      refine .modifyRoom fun room' hroom' => ?_
      obtain rfl := Option.some.inj (hroom.symm.trans hroom')
      have hm := Room.Moved.step room (i := (Game.stillEnv, .withdrawPending sid)) rfl
      have hseats := Game.seats_step (g := room.game) (i := (Game.stillEnv, .withdrawPending sid)) rfl
      rw [hgame] at hm hseats
      refine ⟨⟨hm.1, hm.2, hm.3, hm.4, hm.5, hm.6, rfl, rfl, rfl, rfl, rfl⟩, ?_⟩
      simp only [Room.hall, Room.invalidateChallengeTimer, hseats]

theorem tail_retryDaily (st : Server) (sid : String) (puzzle : DailyPuzzle) :
    Tail st (st.retryDaily sid puzzle) := by
  unfold retryDaily
  cases hplaced : st.roomForPlayer sid with
  | none => exact .refl st
  | some e =>
    obtain ⟨roomId, room⟩ := e
    have hroom := (placed_of_roomForPlayer hplaced).2
    dsimp only
    cases hpuzzle : room.game.puzzle with
    | none => exact .refl st
    | some q =>
      dsimp only
      split
      · refine Tail.trans (.modifyRoom fun room' hroom' => ?_) (tail_emitAllStates _ roomId)
        obtain rfl := Option.some.inj (hroom.symm.trans hroom')
        have hseats := seats_resetGame room.game puzzle
        refine ⟨.game rfl (by rw [hpuzzle]; rfl) (fun h => ?_) hseats, ?_⟩
        · rw [hpuzzle] at h
          cases h
        · simp only [Room.hall, hseats]
      · exact .refl st

theorem tail_resignGame (st : Server) (sid : String) : Tail st (st.resignGame sid) := by
  unfold resignGame
  cases hplaced : st.roomForPlayer sid with
  | none => exact .refl st
  | some e =>
    obtain ⟨roomId, room⟩ := e
    have hroom := (placed_of_roomForPlayer hplaced).2
    dsimp only
    split
    · exact .refl st
    · rcases hcase : room.game.resign sid with ⟨game, e | a⟩
      · exact .refl st
      · refine (tail_move hroom (i := (Game.stillEnv, .resign sid)) rfl ?_).trans
          (tail_emitAllStates _ roomId)
        change (room.game.resign sid).1 = game
        rw [hcase]

theorem tail_saveGame (st : Server) (sid : String) : Tail st (st.saveGame sid) := by
  unfold saveGame
  split
  · exact .refl st
  · split
    · exact .refl st
    · exact tail_saveManually st _

theorem tail_spectateRoom (st : Server) (sid : String) (roomId : RoomId) (byCode : Bool) :
    Tail st (st.spectateRoom sid roomId byCode) := by
  have hwatch : Tail st (st.modifyRoom roomId fun room =>
      { room with spectators := insert sid room.spectators }) :=
    .modifyRoom fun _ _ => ⟨.same rfl rfl rfl rfl rfl rfl, rfl⟩
  have htable : ∀ (st : Server) (t : Table String RoomId), Tail st { st with spectatorRooms := t } :=
    fun st t => .moved ⟨Moved.refl_rooms st.rooms, rfl, rfl, id⟩ rfl
  have hend := ((hwatch.trans (htable _
    ((st.modifyRoom roomId fun room => { room with spectators := insert sid room.spectators
      }).spectatorRooms.insert sid roomId))).trans (tail_emitAllStates _ roomId)).trans
    (tail_scheduleBotTurn _ roomId)
  unfold spectateRoom
  dsimp only
  split_ifs
  · exact .refl st
  · split
    · exact .refl st
    · split_ifs
      · exact .refl st
      · exact .refl st
      · exact hend

/-! ## Tasks whose time has come -/

/-- Tasks are started or struck out. -/
theorem tail_tasks (st : Server) (turnTimers : List TurnTimer)
    (challengeTimers : List ChallengeTimer) (botTurns : List BotTurn) :
    Tail st { st with turnTimers, challengeTimers, botTurns } :=
  .moved ⟨Moved.refl_rooms st.rooms, rfl, rfl, id⟩ rfl

theorem tail_challengeTimeout (st : Server) (env : Env) (roomId : RoomId) (timerId : ℕ) :
    Tail st (st.challengeTimeout env roomId timerId) := by
  unfold challengeTimeout
  cases hroom : st.rooms.lookup roomId with
  | none => exact .refl st
  | some room =>
    dsimp only
    split
    · exact .refl st
    rcases hcase : room.game.acceptPending env with ⟨game, e | a⟩
    · exact .refl st
    · refine (tail_move hroom (i := (env, .acceptPending)) rfl ?_).trans (tail_beginTurn _ roomId _)
      change (room.game.acceptPending env).1 = game
      rw [hcase]

theorem tail_turnTimeout (st : Server) (env : Env) (roomId : RoomId) (timerId : ℕ) :
    Tail st (st.turnTimeout env roomId timerId) := by
  unfold turnTimeout
  cases hroom : st.rooms.lookup roomId with
  | none => exact .refl st
  | some room =>
    dsimp only
    split
    · exact .refl st
    split
    · exact .refl st
    cases room.game.currentPlayer with
    | none => exact .refl st
    | some current =>
      dsimp only
      rcases hcase : room.game.passTurn env current.id false with ⟨game, e | a⟩
      · exact .refl st
      · have hmove : Tail st (st.modifyRoom roomId fun room => { room with game }) := by
          refine tail_move hroom (i := (env, .passTurn current.id false)) rfl ?_
          change (room.game.passTurn env current.id false).1 = game
          rw [hcase]
        dsimp only
        split
        · exact (hmove.trans (tail_invalidateTurnTimer _ roomId)).trans (tail_beginTurn _ roomId _)
        · exact hmove.trans (tail_beginTurn _ roomId _)

theorem tail_takeSnapshot (st : Server) (turn : BotTurn) : Tail st (st.takeSnapshot turn) := by
  unfold takeSnapshot
  split
  · exact .refl st
  split
  · exact .refl st
  split
  · exact .refl st
  split
  · exact .refl st
  · exact tail_tasks st st.turnTimers st.challengeTimers _

/-- What a robot does is a move. -/
theorem botAct_step (env : Env) (game : Game) (botId : String) (action : Robot.Action) :
    ∃ op : Op, op.isPlay = true ∧ game.step (env, op) = (botAct env game botId action).1 := by
  have hpass : ∃ op : Op, op.isPlay = true ∧
      game.step (env, op) = (game.passTurn env botId false).1 := ⟨.passTurn botId false, rfl, rfl⟩
  unfold botAct
  cases action with
  | place tiles words score =>
    dsimp only
    rcases hcase : game.placeTiles env botId tiles with ⟨game', e | a⟩
    · simpa using hpass
    · refine ⟨.placeTiles botId tiles, rfl, ?_⟩
      change (game.placeTiles env botId tiles).1 = _
      rw [hcase]
      rfl
  | exchange indices =>
    dsimp only
    rcases hcase : game.exchangeTiles env botId (indices.map fun i => (i : ℤ)) with ⟨game', e | a⟩
    · simpa using hpass
    · refine ⟨.exchangeTiles botId (indices.map fun i => (i : ℤ)), rfl, ?_⟩
      change (game.exchangeTiles env botId _).1 = _
      rw [hcase]
      rfl
  | pass => simpa using hpass

theorem tail_playBotTurn (st : Server) (env : Env) (turn : BotTurn) (botId : String)
    (action : Robot.Action) : Tail st (st.playBotTurn env turn botId action) := by
  unfold playBotTurn
  cases hroom : st.rooms.lookup turn.roomId with
  | none => exact .refl st
  | some room =>
    obtain ⟨op, hop, hstep⟩ := botAct_step env room.game botId action
    rcases hcase : botAct env room.game botId action with ⟨game, e | a⟩
    · dsimp only
      split_ifs
      · exact .refl st
      · simp only [hcase]
        exact .refl st
    · rw [hcase] at hstep
      have hmove := (tail_move hroom hop hstep).trans (tail_afterMove _ turn.roomId)
      dsimp only
      split_ifs
      · exact .refl st
      · simp only [hcase]
        exact hmove

/-! ## Rooms that are released -/

/-- Nothing is released. -/
theorem acts_kept (ha : st.Archive) {roomId : RoomId} (h : Tail st st') :
    Acts K st st' (st.closedDeed st' roomId) := by
  have hhall := congrFun (congrArg Presence.halls (h.presence ha)) roomId
  have hsame : (st'.rooms.lookup roomId).isSome = (st.rooms.lookup roomId).isSome := by
    have := congrArg Option.isSome hhall
    simpa [Server.presence] using this
  have hdeed : st.closedDeed st' roomId = .nothing := by
    unfold closedDeed
    cases h : st.rooms.lookup roomId <;> cases h' : st'.rooms.lookup roomId <;> simp_all
  rw [hdeed]
  exact acts_nothing ha h

/-- The room of a correspondence game that has ended is released, or it stays. -/
theorem acts_closing (ha : st.Archive) {roomId : RoomId} (h₁ : Tail st st₁)
    (h₂ : Tail (st₁.cleanupFinishedAsync roomId) st') :
    Acts K st st' (st.closedDeed st' roomId) := by
  have ha₁ := h₁.archive ha
  have hp₁ := h₁.presence ha
  have hstays : st₁.cleanupFinishedAsync roomId = st₁ →
      Acts K st st' (st.closedDeed st' roomId) := by
    intro heq
    rw [heq] at h₂
    exact acts_kept ha (h₁.trans h₂)
  cases hroom : st₁.rooms.lookup roomId with
  | none => exact hstays (by simp only [cleanupFinishedAsync, hroom])
  | some room =>
    by_cases hc : (room.isAsync && room.game.finished && !room.game.hasConnectedHuman) = true
    · have hclean : st₁.cleanupFinishedAsync roomId = st₁.cleanupRoom roomId := by
        simp only [cleanupFinishedAsync, hroom, if_pos hc]
      rw [hclean] at h₂
      have hhall : st.presence.halls roomId = some room.hall := hp₁ ▸ hall_of_lookup hroom
      have hdoes : ∀ C, (∀ f, (st.presence.drop roomId).Credits f → C f) →
          (∀ f, st.presence.Credits f → C f) → Does K C st st' (st.presence.drop roomId) := by
        intro C hC hC'
        have hdrop : Does K C st (st₁.cleanupRoom roomId) (st.presence.drop roomId) :=
          (Does.of_tail h₁ ha hC').trans (.of_course (course_cleanupRoom_self st₁ roomId)
            (by rw [cleanupRoom_db]) (by rw [presence_cleanupRoom, hp₁]))
        exact hdrop.tail ha h₂ hC
      have hgone : st'.rooms.lookup roomId = none := by
        have hp := (hdoes (fun _ => True) (fun _ _ => trivial) fun _ _ => trivial).presence
        have hnone : st'.presence.halls roomId = none := by
          rw [hp]
          exact Function.update_self ..
        simpa [Server.presence] using hnone
      have hthere : (st.rooms.lookup roomId).isSome = true := by
        have := congrArg Option.isSome hhall
        simpa [Server.presence] using this
      have hdeed : st.closedDeed st' roomId = .closed roomId := by
        simp [closedDeed, hthere, hgone]
      rw [hdeed]
      simp only [Bool.and_eq_true, Bool.not_eq_true'] at hc
      exact ⟨hdoes _ (fun f hf => ⟨_, .tail _ (.head _), hf⟩) fun f hf => ⟨_, .head _, hf⟩,
        room.hall, hhall, hc.1.1, (hasConnected_hall room).trans hc.2⟩
    · exact hstays (by simp only [cleanupFinishedAsync, hroom, if_neg hc])

theorem acts_expireAsyncTurn (ha : st.Archive) (env : Env) (roomId : RoomId) :
    Acts K st (st.expireAsyncTurn env roomId)
      (st.closedDeed (st.expireAsyncTurn env roomId) roomId) := by
  unfold expireAsyncTurn
  cases hroom : st.rooms.lookup roomId with
  | none => exact acts_kept ha (.refl st)
  | some room =>
    dsimp only
    refine iteInduction (motive := fun st' => Acts K st st' (st.closedDeed st' roomId))
      (fun _ => acts_kept ha (.refl st)) fun _ => ?_
    rcases hcase : room.game.expireTurn env with ⟨game, changed⟩
    cases changed with
    | false => exact acts_kept ha (.refl st)
    | true =>
      have hmove : Tail st (st.modifyRoom roomId fun room => { room with game }) := by
        refine tail_move hroom (i := (env, .expireTurn)) rfl ?_
        change (room.game.expireTurn env).1 = game
        rw [hcase]
      exact acts_closing ha (hmove.trans (tail_emitAllStates _ roomId)) (.refl _)

theorem acts_afterChange (ha : st.Archive) {roomId : RoomId} (h : Tail st st₁) (restart : Bool) :
    Acts K st (st₁.afterChange roomId restart)
      (st.closedDeed (st₁.afterChange roomId restart) roomId) := by
  unfold afterChange
  cases hroom : st₁.rooms.lookup roomId with
  | none => exact acts_kept ha h
  | some room =>
    dsimp only
    have hvoid := h.trans (tail_invalidateTurnTimer st₁ roomId)
    have htimers : Tail st (if room.game.pendingChallenge.isSome = true then
        (st₁.modifyRoom roomId Room.invalidateTurnTimer).startChallengeTimer roomId
      else if room.game.finished = true then
        (((st₁.modifyRoom roomId Room.invalidateTurnTimer).modifyRoom roomId
          Room.invalidateChallengeTimer).saveGameToDb roomId).1
      else if restart = true then
        (st₁.modifyRoom roomId Room.invalidateTurnTimer).startTurnTimer roomId
      else st₁.modifyRoom roomId Room.invalidateTurnTimer) := by
      split_ifs
      · exact hvoid.trans (tail_startChallengeTimer _ roomId)
      · exact (hvoid.trans (tail_invalidateChallengeTimer _ roomId)).trans (.saved _ roomId)
      · exact hvoid.trans (tail_startTurnTimer _ roomId)
      · exact hvoid
    have hshown := htimers.trans (tail_emitAllStates _ roomId)
    by_cases hend : (room.game.finished && room.isAsync) = true
    · rw [if_pos hend]
      exact acts_closing ha hshown (tail_scheduleBotTurn _ roomId)
    · rw [if_neg hend]
      exact acts_kept ha (hshown.trans (tail_scheduleBotTurn _ roomId))

theorem acts_skipTurn (ha : st.Archive) (env : Env) (roomId : RoomId) :
    Acts K st (st.skipTurn env roomId) (st.closedDeed (st.skipTurn env roomId) roomId) := by
  unfold skipTurn
  cases hroom : st.rooms.lookup roomId with
  | none => exact acts_kept ha (.refl st)
  | some room =>
    dsimp only
    split_ifs
    · exact acts_kept ha (.refl st)
    cases room.game.currentPlayer with
    | none => exact acts_kept ha (.refl st)
    | some current =>
      dsimp only
      rcases hcase : room.game.passTurn env current.id room.isAsync with ⟨game, e | a⟩
      · exact acts_kept ha (.refl st)
      · refine acts_afterChange ha (tail_move hroom
          (i := (env, .passTurn current.id room.isAsync)) rfl ?_) true
        change (room.game.passTurn env current.id room.isAsync).1 = game
        rw [hcase]

theorem acts_endGame (ha : st.Archive) (roomId : RoomId) :
    Acts K st (st.endGame roomId) (st.closedDeed (st.endGame roomId) roomId) := by
  unfold endGame
  cases hroom : st.rooms.lookup roomId with
  | none => exact acts_kept ha (.refl st)
  | some room =>
    dsimp only
    split_ifs
    · exact acts_kept ha (.refl st)
    · refine acts_afterChange ha (.modifyRoom fun room' hroom' => ?_) false
      have hm := Room.Moved.step room' (i := (Game.stillEnv, .forceEnd)) rfl
      have hseats : room'.game.forceEnd.1.seats = room'.game.seats :=
        Game.seats_step (i := (Game.stillEnv, .forceEnd)) rfl
      refine ⟨⟨hm.1, hm.2, hm.3, hm.4, hm.5, hm.6, rfl, rfl, rfl, rfl, rfl⟩, ?_⟩
      simp only [Room.hall, Room.invalidateChallengeTimer, Room.invalidateBotTurn, hseats]

/-! ## Events -/

theorem acts_handle (ha : st.Archive) (env : Env) {sid : String} (hopen : sid ∉ st.closed)
    (hsid : isSid sid = true) (message : Message) (hK : Admits K st (st.messageDeed env sid message)) :
    Acts K st (st.handle env sid message) (st.messageDeed env sid message) := by
  cases message with
  | setName name auth => exact acts_setName hopen name auth
  | logout => exact acts_logout ha env hopen hsid
  | rejoinRoom token banned => exact acts_rejoinRoom ha hopen hsid token banned
  | createRoom options => exact acts_createRoom ha env hsid options
  | joinRoom roomId byCode => exact acts_joinRoom ha hopen hsid roomId byCode
  | leaveRoom => exact acts_leaveRoom ha env hopen hsid
  | startGame => exact acts_startGame ha env hK
  | saveGame => exact acts_nothing ha (tail_saveGame st sid)
  | restoreGame gameId => exact acts_restoreGame ha env hsid gameId
  | placeTiles tiles => exact acts_nothing ha (tail_placeTiles st env sid tiles)
  | exchangeTiles indices => exact acts_nothing ha (tail_exchangeTiles st env sid indices)
  | passTurn => exact acts_nothing ha (tail_passTurn st env sid)
  | vote accept => exact acts_nothing ha (tail_vote st env sid accept)
  | withdrawWords => exact acts_nothing ha (tail_withdrawWords st sid)
  | retryDaily puzzle => exact acts_nothing ha (tail_retryDaily st sid puzzle)
  | createAsyncGame friends turnHours starter =>
    exact acts_createAsyncGame ha env hsid friends turnHours starter
  | openAsyncGame gameId => exact acts_openAsyncGame ha env hopen hsid gameId
  | resignGame => exact acts_nothing ha (tail_resignGame st sid)
  | spectateRoom roomId byCode => exact acts_nothing ha (tail_spectateRoom st sid roomId byCode)
  | leaveSpectate => exact acts_nothing ha (tail_leaveSpectate st sid)

/-- **Every event is a deed.** -/
theorem acts_step (ha : st.Archive) (i : Env × Event) (hK : Admits K st (st.deed i)) :
    Acts K st (st.step i) (st.deed i) := by
  obtain ⟨env, event⟩ := i
  unfold step deed at *
  dsimp only at hK ⊢
  cases event with
  | message sid message =>
    dsimp only at hK ⊢
    by_cases hclosed : sid.1 ∈ st.closed
    · rw [if_pos hclosed, if_pos hclosed]
      exact acts_refl st
    · rw [if_neg hclosed] at hK ⊢
      rw [if_neg hclosed]
      exact acts_handle ha env hclosed sid.2 message hK
  | startDaily sid puzzle => exact acts_startDaily ha env sid.2 puzzle
  | disconnect sid =>
    dsimp only
    by_cases hclosed : sid.1 ∈ st.closed
    · rw [if_pos hclosed, if_pos hclosed]
      exact acts_refl st
    · rw [if_neg hclosed, if_neg hclosed]
      exact acts_handleDisconnect ha hclosed sid.2
  | graceTimeout token seq =>
    dsimp only
    by_cases hmem : (token, seq) ∈ st.graceTimers
    · rw [if_pos hmem, if_pos hmem]
      exact acts_graceTimeout ha env hmem
    · rw [if_neg hmem, if_neg hmem]
      exact acts_refl st
  | challengeTimeout timer =>
    dsimp only
    split
    · exact acts_nothing ha ((tail_tasks st st.turnTimers _ st.botTurns).trans
        (tail_challengeTimeout _ env timer.roomId timer.timerId))
    · exact acts_refl st
  | turnTimeout timer =>
    dsimp only
    split
    · exact acts_nothing ha ((tail_tasks st _ st.challengeTimers st.botTurns).trans
        (tail_turnTimeout _ env timer.roomId timer.timerId))
    · exact acts_refl st
  | botSnapshot turn =>
    dsimp only
    split
    · exact acts_nothing ha ((tail_tasks st st.turnTimers st.challengeTimers _).trans
        (tail_takeSnapshot _ turn))
    · exact acts_refl st
  | botAction turn action =>
    dsimp only
    split
    · exact acts_refl st
    · split
      · exact acts_nothing ha ((tail_tasks st st.turnTimers st.challengeTimers _).trans
          (tail_playBotTurn _ env turn _ action))
      · exact acts_refl st
  | expireAsyncTurn roomId => exact acts_expireAsyncTurn ha env roomId
  | kickUser userId => exact acts_kickUser st userId
  | removePlayer roomId playerName => exact acts_removePlayer ha env roomId playerName
  | skipTurn roomId => exact acts_skipTurn ha env roomId
  | resolveVote roomId accept => exact acts_nothing ha (tail_resolveVote st env roomId accept)
  | endGame roomId => exact acts_endGame ha roomId
  | disbandRoom roomId save => exact acts_disbandRoom ha roomId save

/-! ## The start of a restored game -/

theorem startDeed_restored {st : Server} {env : Env} {sid : String} {roomId : RoomId}
    {seats : List Seat} (h : st.startDeed env sid = .restored roomId seats) :
    ∃ room save game, st.roomForPlayer sid = some (roomId, room) ∧
      room.restoreSaveData = some save ∧
      restoredGame env save room.game.players = some game ∧ seats = game.seats := by
  unfold startDeed at h
  cases hplaced : st.roomForPlayer sid with
  | none =>
    rw [hplaced] at h
    cases h
  | some e =>
    obtain ⟨r, room⟩ := e
    simp only [hplaced] at h
    split at h
    · cases h
    · split at h
      · cases h
      · rename_i save hsave
        split at h
        · cases h
        · rename_i game hgame
          cases h
          exact ⟨room, save, game, rfl, hsave, hgame, rfl⟩

theorem openedDeed_cases (st st' : Server) (sid : String) :
    st.openedDeed st' sid = .nothing ∨
      ∃ token hall, st.openedDeed st' sid = .opened sid token hall := by
  unfold openedDeed
  split
  · exact .inr ⟨_, _, rfl⟩
  · exact .inl rfl

theorem startDeed_cases (st : Server) (env : Env) (sid : String) :
    st.startDeed env sid = .nothing ∨
      ∃ roomId seats, st.startDeed env sid = .restored roomId seats := by
  unfold startDeed
  split
  · exact .inl rfl
  · split
    · exact .inl rfl
    · split
      · exact .inl rfl
      · split
        · exact .inl rfl
        · exact .inr ⟨_, _, rfl⟩

/-- A deed that restores no game and closes no connection. -/
structure Deed.Plain (d : Deed) : Prop where
  restored : ∀ r seats, d ≠ .restored r seats
  breaks : ∀ sid how forgets, d ≠ .departed sid how forgets true

theorem plain_openedDeed (st st' : Server) (sid : String) : (st.openedDeed st' sid).Plain := by
  rcases st.openedDeed_cases st' sid with heq | ⟨token, hall, heq⟩ <;> rw [heq] <;>
    exact ⟨by simp, by simp⟩

/-- What restores a game or closes a connection. -/
theorem deed_cases (st : Server) (i : Env × Event) :
    (st.deed i).Plain ∨
      (∃ sid : Sid, i.2 = .message sid .startGame ∧ st.deed i = st.startDeed i.1 sid) ∨
      ∃ sid : Sid, i.2 = .disconnect sid ∧ sid.1 ∉ st.closed ∧
        st.deed i = .departed sid ((st.leaveSpectate sid).breakOf sid).departure
          ((st.leaveSpectate sid).breakOf sid).forgets true := by
  obtain ⟨env, event⟩ := i
  unfold deed
  cases event with
  | message sid message =>
    simp only
    split
    · exact .inl ⟨by simp, by simp⟩
    · cases message with
      | startGame => exact .inr (.inl ⟨sid, rfl, rfl⟩)
      | rejoinRoom token banned =>
        simp only [messageDeed, rejoinDeed]
        repeat' split
        all_goals exact .inl ⟨by simp, by simp⟩
      | joinRoom r byCode =>
        simp only [messageDeed, joinDeed]
        split <;> exact .inl ⟨by simp, by simp⟩
      | openAsyncGame gameId =>
        simp only [messageDeed, openAsyncDeed]
        repeat' split
        all_goals exact .inl ⟨by simp, by simp⟩
      | createRoom options => exact .inl (plain_openedDeed ..)
      | restoreGame gameId => exact .inl (plain_openedDeed ..)
      | createAsyncGame friends turnHours starter => exact .inl (plain_openedDeed ..)
      | _ => exact .inl ⟨by simp [messageDeed], by simp [messageDeed]⟩
  | startDaily sid puzzle => exact .inl (plain_openedDeed ..)
  | disconnect sid =>
    simp only
    split
    · exact .inl ⟨by simp, by simp⟩
    · exact .inr (.inr ⟨sid, rfl, ‹_›, rfl⟩)
  | removePlayer r name =>
    simp only [removeDeed]
    repeat' split
    all_goals exact .inl ⟨by simp, by simp⟩
  | _ =>
    simp only [closedDeed]
    repeat' split
    all_goals exact .inl ⟨by simp, by simp⟩

/-- Only the start of a game restores one. -/
theorem startGame_of_deed {st : Server} {i : Env × Event} {roomId : RoomId} {seats : List Seat}
    (h : st.deed i = .restored roomId seats) :
    ∃ sid : Sid, i.2 = .message sid .startGame ∧
      st.startDeed i.1 sid = .restored roomId seats := by
  rcases st.deed_cases i with hplain | ⟨sid, hevent, hdeed⟩ | ⟨sid, -, -, hdeed⟩
  · exact absurd h (hplain.restored _ _)
  · exact ⟨sid, hevent, hdeed.symm.trans h⟩
  · cases hdeed.symm.trans h

theorem restored_of_deed {st : Server} {i : Env × Event} {roomId : RoomId} {seats : List Seat}
    (h : st.deed i = .restored roomId seats) :
    ∃ room save game, st.rooms.lookup roomId = some room ∧ room.restoreSaveData = some save ∧
      restoredGame i.1 save room.game.players = some game ∧ seats = game.seats := by
  obtain ⟨sid, -, hstart⟩ := startGame_of_deed h
  obtain ⟨room, save, game, hplaced, hsave, hgame, hseats⟩ := startDeed_restored hstart
  exact ⟨room, save, game, (placed_of_roomForPlayer hplaced).2, hsave, hgame, hseats⟩

end Server

end ScrabbleMagyar
