import ScrabbleMagyar.Server.Entering

/-!
# Games that start and correspondence games that are opened

The start of a game, that of a restored one, and the seat of a correspondence game that a
connection takes, for which the game may have to be loaded (`Acts`).
-/

namespace ScrabbleMagyar

namespace Server

variable {K : Server → RoomId → SavedGame → Prop} {C : Finish → Prop} {st st₁ st' : Server}
  {p p₁ : Presence}

/-- The condition on the restorations that an event makes. -/
def Admits (K : Server → RoomId → SavedGame → Prop) (st : Server) (d : Deed) : Prop :=
  ∀ roomId seats room save, d = .restored roomId seats → st.rooms.lookup roomId = some room →
    room.restoreSaveData = some save → K st roomId save

/-! ## Restored games -/

/-- What is read back from a save that can be played on. -/
theorem SavedGame.Sound.load {row : SavedGame} (h : row.Sound) (env : Env) :
    ∃ game : Game, Game.fromSaveDict env row.stateJson = .ok game ∧ game.started = true ∧
      game.puzzle = none ∧ (∀ q ∈ game.players, q.isBot = isBotId q.id) ∧
      (row.isAsync = true → ∀ q ∈ game.players, q.isBot = false) := by
  obtain ⟨g, hjson, hstarted, hproper, hhuman⟩ := h.game
  refine ⟨g.restored env, by rw [hjson, Game.fromSaveDict_toSaveDict], hstarted, rfl, ?_, ?_⟩
  · intro q hq
    obtain ⟨e, he, rfl⟩ := List.mem_map.mp hq
    obtain ⟨-, -, hmem⟩ := List.mem_zipIdx he
    exact (hproper e.1.seat (List.mem_map_of_mem (hmem ▸ List.getElem_mem _))).bot
  · intro hasync q hq
    obtain ⟨e, he, rfl⟩ := List.mem_map.mp hq
    obtain ⟨-, -, hmem⟩ := List.mem_zipIdx he
    exact hhuman hasync e.1.seat (List.mem_map_of_mem (hmem ▸ List.getElem_mem _))

theorem pairSeat_cases (lobby : List Player) (q : Player) :
    q.isBot = true ∧ pairSeat lobby q = { q with disconnected := false } ∨
      q.isBot = false ∧ ((∀ q' ∈ lobby, q'.name ≠ q.name) ∧
          pairSeat lobby q = { q with disconnected := true } ∨
        ∃ q' ∈ lobby, q'.name = q.name ∧
          pairSeat lobby q = { q with id := q'.id, disconnected := false }) := by
  unfold pairSeat
  split
  · exact .inl ⟨‹_›, rfl⟩
  · rename_i hbot
    refine .inr ⟨by simpa using hbot, ?_⟩
    split
    · rename_i q' hq'
      exact .inr ⟨q', List.mem_reverse.mp (List.mem_of_find?_eq_some hq'),
        by simpa using List.find?_some hq', rfl⟩
    · rename_i hnone
      exact .inl ⟨fun q' hq' => by simpa using List.find?_eq_none.mp hnone q' (by simpa using hq'),
        rfl⟩

/-- The seats of a restored game are those of the save. -/
theorem restoredGame_seats {env : Env} {save : SavedGame} {lobby : List Player} {game : Game}
    (h : restoredGame env save lobby = some game) :
    ∃ g, Game.fromSaveDict env save.stateJson = .ok g ∧
      game.seats = (g.players.map (pairSeat lobby)).map Player.seat := by
  unfold restoredGame at h
  cases hload : Game.fromSaveDict env save.stateJson with
  | error e =>
    rw [hload] at h
    cases h
  | ok g =>
    simp only [hload] at h
    generalize (if g.currentPlayerIdx ≥ (g.players.map (pairSeat lobby)).length then 0
      else g.currentPlayerIdx) = idx at h
    split at h
    · obtain rfl := Option.some.inj h
      exact ⟨g, rfl, Game.seats_skipDisconnectedCurrent env _⟩
    · cases h

/-- The seats of a restored game: a player of the lobby has the seat of the same name. -/
theorem restoredGame_cases {env : Env} {save : SavedGame} {lobby : List Player} {game : Game}
    (hsound : save.Sound) (h : restoredGame env save lobby = some game)
    (hproper : ∀ q ∈ lobby, isBotId q.id = false) :
    game.started = true ∧ game.puzzle = none ∧ (∀ x ∈ game.seats, x.Proper) ∧
      Hall.Paired (lobby.map Player.seat) game.seats ∧ ∃ x ∈ game.seats, x.occupied = true := by
  obtain ⟨g, hload, hstarted, hpuzzle, hbots, -⟩ := hsound.load env
  unfold restoredGame at h
  simp only [hload] at h
  generalize (if g.currentPlayerIdx ≥ (g.players.map (pairSeat lobby)).length then 0
    else g.currentPlayerIdx) = idx at h
  split at h
  · rename_i hon
    obtain rfl := Option.some.inj h
    obtain ⟨hskip, hpuz, -⟩ := skipDisconnectedCurrent_rest env
      { g with players := g.players.map (pairSeat lobby), currentPlayerIdx := idx }
    have hseats : (Game.skipDisconnectedCurrent env
        { g with players := g.players.map (pairSeat lobby), currentPlayerIdx := idx }).1.seats =
        (g.players.map (pairSeat lobby)).map Player.seat :=
      Game.seats_skipDisconnectedCurrent env _
    refine ⟨hskip.trans hstarted, hpuz.trans hpuzzle, ?_⟩
    rw [hseats]
    refine ⟨fun x hx => ?_, fun x hx hno => ?_, ?_⟩
    · obtain ⟨q', hq', rfl⟩ := List.mem_map.mp hx
      obtain ⟨q, hq, rfl⟩ := List.mem_map.mp hq'
      obtain ⟨hbot, heq⟩ | ⟨hbot, ⟨-, heq⟩ | ⟨q', hq', -, heq⟩⟩ := pairSeat_cases lobby q <;> rw [heq]
      · exact ⟨hbots q hq, fun _ => rfl⟩
      · exact ⟨hbots q hq, fun hb => absurd (hbot.symm.trans hb) (by simp)⟩
      · exact ⟨hbot.trans (hproper q' hq').symm, fun hb => absurd (hbot.symm.trans hb) (by simp)⟩
    · obtain ⟨q', hq', rfl⟩ := List.mem_map.mp hx
      obtain ⟨q, hq, rfl⟩ := List.mem_map.mp hq'
      obtain ⟨hbot, heq⟩ | ⟨hbot, ⟨-, heq⟩ | ⟨q', hq', -, heq⟩⟩ := pairSeat_cases lobby q <;>
        rw [heq] at hno ⊢
      · exact absurd (hbot.symm.trans hno) (by simp)
      · exact .inl rfl
      · exact .inr ⟨q'.seat, List.mem_map_of_mem hq', rfl⟩
    · obtain ⟨q, hq, hocc⟩ := List.any_eq_true.mp hon
      exact ⟨q.seat, List.mem_map_of_mem hq, hocc⟩
  · cases h

theorem start_rest {env : Env} {g g' : Game} {text : String} (h : g.start env = (g', .ok text)) :
    g'.started = true ∧ g'.puzzle = g.puzzle ∧ g'.finished = g.finished ∧ g'.seats = g.seats := by
  have hseats := Game.seats_start env g
  rw [h] at hseats
  unfold Game.start at h
  split_ifs at h
  all_goals cases h
  exact ⟨rfl, rfl, rfl, hseats⟩

/-- A game begins: its first turn, and its first save. -/
theorem tail_begin (st : Server) (roomId : RoomId) :
    Tail st (((st.startTurnTimer roomId).emitAllStates roomId).scheduleBotTurn roomId
      |>.saveGameToDb roomId).1 :=
  (((tail_startTurnTimer st roomId).trans (tail_emitAllStates _ roomId)).trans
    (tail_scheduleBotTurn _ roomId)).trans (.saved _ roomId)

theorem acts_startGame (ha : st.Archive) (env : Env) {sid : String}
    (hK : Admits K st (st.startDeed env sid)) :
    Acts K st (st.startGame env sid) (st.startDeed env sid) := by
  unfold startGame startDeed at *
  cases hplaced : st.roomForPlayer sid with
  | none => exact acts_refl st
  | some e =>
    obtain ⟨roomId, room⟩ := e
    have hroom := (placed_of_roomForPlayer hplaced).2
    simp only [hplaced] at hK ⊢
    by_cases hown : st.isOwner room sid = true
    · simp only [hown, Bool.not_true, Bool.false_eq_true, if_false] at hK ⊢
      cases hsave : room.restoreSaveData with
      | none =>
        rcases hstart : room.game.start env with ⟨game, e | text⟩
        · exact acts_refl st
        · obtain ⟨hstarted, hpuzzle, hfin, hseats⟩ := start_rest hstart
          refine acts_nothing ha (Tail.trans (.modifyRoom fun room' hroom' => ?_)
            (tail_begin _ roomId))
          obtain rfl := Option.some.inj (hroom.symm.trans hroom')
          refine ⟨⟨fun _ => hstarted, fun _ => .inr hsave, congrArg _ hpuzzle,
            fun _ h => hfin.trans h, fun h => ?_, fun h => ?_, rfl, rfl, rfl, rfl, rfl⟩, ?_⟩
          · exact fun x hx => h x (show x ∈ room.game.seats from hseats ▸ hx)
          · exact fun x hx => h x (show x ∈ room.game.seats from hseats ▸ hx)
          · simp only [Room.hall, hseats]
      | some save =>
        simp only [hsave] at hK ⊢
        unfold restoreStart
        cases hgame : restoredGame env save room.game.players with
        | none => exact acts_refl st
        | some game =>
          simp only [hgame] at hK ⊢
          have hlobby := ha.lobbies roomId room save hroom hsave
          obtain ⟨hstarted, hpuzzle, hproper, hpaired, hocc⟩ := restoredGame_cases hlobby.sound hgame
            fun q hq => by
              have hx : q.seat ∈ room.hall.seats := List.mem_map_of_mem hq
              exact ((ha.rooms roomId room hroom).proper q.seat hx).bot.symm.trans (hlobby.human _ hx)
          have hrestart : ∀ C, Does K C st
              { st.modifyRoom roomId fun room => { room with
                  lateJoinNames := missingPlayers room game
                  game
                  restoreSaveData := none
                  isRestored := false
                  dbGameId := none
                  origin := some save.origin } with db := st.db.abandonGameById save.id }
              (st.presence.act (.restored roomId game.seats)) := by
            intro C
            have hpres : (st.modifyRoom roomId fun room => { room with
              lateJoinNames := missingPlayers room game, game, restoreSaveData := none,
              isRestored := false, dbGameId := none, origin := some save.origin }).presence =
                st.presence.modifyHall roomId fun h => { h with seats := game.seats } :=
              st.presence_modifyRoom fun room _ => rfl
            refine .of_course (.single ?_) rfl hpres
            have hrestarts : Restarts room save { room with
                lateJoinNames := missingPlayers room game, game, restoreSaveData := none,
                isRestored := false, dbGameId := none, origin := some save.origin } :=
              ⟨hstarted, hpuzzle, hproper, rfl, rfl, rfl, rfl, rfl⟩
            have hinsert := Change.restarted hroom hsave
              (hK roomId game.seats room save rfl hroom hsave) hrestarts
            simpa only [modifyRoom, hroom] using hinsert
          refine ⟨(hrestart _).tail ha ?_ fun f hf => ⟨_, .tail _ (.head _), hf⟩, room.hall,
            hall_of_lookup hroom, hpaired, hocc⟩
          have hdb : (st.modifyRoom roomId fun room => { room with
              lateJoinNames := missingPlayers room game, game, restoreSaveData := none,
              isRestored := false, dbGameId := none, origin := some save.origin }).db = st.db := by
            rw [modifyRoom_rest]
          dsimp only
          rw [hdb]
          exact tail_begin _ roomId
    · simp only [hown, Bool.not_false, if_true]
      exact acts_refl st

/-! ## Correspondence games -/

/-- A save of a correspondence game that may be opened. -/
theorem openable_cases {sid : String} {gameId : ℕ} {userId : UserId} {row : SavedGame}
    (h : st.openable sid gameId = some (userId, row)) :
    (st.playerAuth.lookup sid).bind AuthInfo.registeredId = some userId ∧
      st.roomForPlayer sid = none ∧ row ∈ st.db.games ∧ row.isAsync = true ∧
      row.status = .active := by
  unfold openable at h
  split at h
  · cases h
  rename_i userId' hauth
  split at h
  · cases h
  rename_i hfree
  split at h
  · cases h
  rename_i row' hrow
  split at h
  · rename_i hc
    cases h
    simp only [Bool.and_eq_true, decide_eq_true_eq] at hc
    exact ⟨hauth, by simpa using hfree, List.mem_of_find?_eq_some hrow, hc.1.1, hc.1.2⟩
  · cases h

theorem seat_absentPlayer (roomId : RoomId) (known : Table String (Option UserId)) {q : Player}
    (hbot : q.isBot = false) (hq : isBotId q.id = false) :
    ∃ id, isBotId id = false ∧ (absentPlayer roomId known q).seat = ⟨id, q.name, false, true⟩ := by
  unfold absentPlayer
  simp only [hbot, Bool.false_eq_true, if_false]
  split
  · exact ⟨_, isBotId_placeholderId _ _, rfl⟩
  · refine ⟨q.id, hq, ?_⟩
    rw [← hbot]
    rfl

/-- The room of a correspondence game as it is loaded. -/
theorem asyncRoom_loads (ha : st.Archive) {env : Env} {row : SavedGame} (hrow : row ∈ st.db.games)
    (hasync : row.isAsync = true) (hactive : row.status = .active)
    (hfree : st.rooms.lookup row.roomId = none) {room : Room} (h : asyncRoom env row = some room) :
    Loads st row room ∧ room.isAsync = true ∧ room.hall.Absent := by
  obtain ⟨g, hload, hstarted, hpuzzle, hids, hhuman⟩ := (ha.saves row hrow hactive).load env
  have hbots := hhuman hasync
  unfold asyncRoom at h
  simp only [hload] at h
  obtain rfl := Option.some.inj h
  have habsent : ∀ x ∈ (g.players.map (absentPlayer row.roomId (Table.ofList row.players))).map
      Player.seat, x.Proper ∧ x.isBot = false ∧ x.disconnected = true := by
    intro x hx
    obtain ⟨q', hq', rfl⟩ := List.mem_map.mp hx
    obtain ⟨q, hq, rfl⟩ := List.mem_map.mp hq'
    obtain ⟨id, hid, hseat⟩ := seat_absentPlayer row.roomId (Table.ofList row.players) (hbots q hq)
      ((hids q hq).symm.trans (hbots q hq))
    rw [hseat]
    exact ⟨⟨hid.symm, fun hb => by cases hb⟩, rfl, rfl⟩
  refine ⟨⟨hrow, hactive, hfree, hstarted, hpuzzle, fun x hx => (habsent x hx).1,
    fun x hx => (habsent x hx).2.1, hasync.symm, rfl, rfl, rfl, rfl, hasync⟩, rfl,
    fun x hx => (habsent x hx).2⟩

/-- The room of a correspondence game is in memory, or it is loaded. -/
theorem asyncRoomForDbGame_cases (ha : st.Archive) {env : Env} {row : SavedGame}
    (hrow : row ∈ st.db.games) (hasync : row.isAsync = true) (hactive : row.status = .active)
    {roomId : RoomId} (h : st.asyncRoomForDbGame env row = (st', some roomId)) :
    (st' = st ∧ ∃ room, st.rooms.lookup roomId = some room ∧ room.isAsync = true) ∨
      ∃ room, st' = { st with rooms := st.rooms.insert row.roomId room } ∧ roomId = row.roomId ∧
        Loads st row room ∧ room.isAsync = true ∧ room.hall.Absent ∧
          asyncRoom env row = some room := by
  unfold asyncRoomForDbGame at h
  split at h
  · rename_i e he
    cases h
    have hmem := List.mem_of_find?_eq_some he
    have hp := List.find?_some he
    simp only [decide_eq_true_eq] at hp
    exact .inl ⟨rfl, e.2, AList.mem_lookup_iff.mpr hmem, hp.1⟩
  · rename_i hnone
    split at h
    · cases h
    · rename_i room hroom
      cases h
      have hfree : st.rooms.lookup row.roomId = none := by
        cases hlookup : st.rooms.lookup row.roomId with
        | none => rfl
        | some room' =>
          have hfiled := ha.filed row hrow hactive room' hlookup
          have := List.find?_eq_none.mp hnone ⟨row.roomId, room'⟩ (AList.mem_lookup_iff.mp hlookup)
          exact absurd (by simp [hfiled.isAsync, hfiled.dbGameId, hasync]) this
      obtain ⟨hloads, hroomAsync, habsent⟩ := asyncRoom_loads ha hrow hasync hactive hfree hroom
      exact .inr ⟨room, rfl, rfl, hloads, hroomAsync, habsent, hroom⟩

theorem takeOver_eq (st : Server) (roomId : RoomId) (player : Player) :
    st.takeOver roomId player = if st.ousts roomId player = true then
      (st.exitRoom player.id).cleanupPlayerToken player.id else st := by
  unfold takeOver ousts
  simp only [Bool.and_eq_true, decide_eq_true_eq, Bool.not_eq_true']

/-- A connection has the seat of a correspondence game, which another one may have to give up. -/
theorem does_takeSeat {sid : String} (hsid : isSid sid = true) {userId : UserId}
    (hauth : (st.playerAuth.lookup sid).bind AuthInfo.registeredId = some userId) (roomId : RoomId)
    {player : Player} (hold : isBotId player.id = false) :
    let st₁ := (st.takeOver roomId player).modifyGame roomId fun g =>
      (g.replacePlayerSid player.id sid).1
    let st₂ := st₁.enterRoom sid roomId
    Does K C st
      (st₂.generateReconnectToken sid roomId player.name (st₂.playerAuth.lookup sid)).1
      (((((if st.ousts roomId player then (st.presence.exit [player.id]).revoke [player.id]
        else st.presence).modifyHall roomId (Hall.reseat player.id sid)).enter sid
          roomId).grant (.user userId) sid roomId)) := by
  intro st₁ st₂
  have hover : Does K C st (st.takeOver roomId player)
      (if st.ousts roomId player then (st.presence.exit [player.id]).revoke [player.id]
        else st.presence) := by
    rw [takeOver_eq]
    split
    · exact ((Does.refl st).exitRoom player.id).cleanupPlayerToken player.id
    · exact .refl st
  have hauth₁ : (st.takeOver roomId player).playerAuth = st.playerAuth := by
    rw [takeOver_eq]
    split
    · unfold Server.cleanupPlayerToken
      split <;> rfl
    · rfl
  have hauth₂ : st₂.playerAuth = st.playerAuth := by
    rw [← hauth₁]
    change ((st.takeOver roomId player).modifyGame roomId _).playerAuth = _
    rw [Server.modifyGame, modifyRoom_rest]
  have hreseat : Does K C (st.takeOver roomId player)
      ((st.takeOver roomId player).modifyGame roomId fun g => (g.replacePlayerSid player.id sid).1)
      ((st.takeOver roomId player).presence.modifyHall roomId (Hall.reseat player.id sid)) :=
    does_modifyGame (fun room _ => .reseat room hold (isBotId_of_isSid hsid))
    fun room => by simp only [Room.hall, Hall.reseat, Game.seats_replacePlayerSid]
  have htoken : st₂.tokenFor (st₂.playerAuth.lookup sid) = .user userId := by
    rw [hauth₂, tokenFor, hauth]
  rw [hover.presence] at hreseat
  rw [← htoken]
  exact ((hover.trans hreseat).enterRoom sid roomId).generateReconnectToken hsid roomId player.name _

theorem asyncSeat_mem {room : Room} {userId : UserId} {player : Player}
    (h : asyncSeat room userId = some player) : player ∈ room.game.players := by
  unfold asyncSeat at h
  split at h
  · cases h
  · exact List.mem_of_find?_eq_some h

theorem ousts_iff (st : Server) (roomId : RoomId) (player : Player) :
    st.ousts roomId player = true ↔
      player.seat.disconnected = false ∧ st.presence.roomOf player.id = some roomId := by
  simp only [ousts, Bool.and_eq_true, Bool.not_eq_true', decide_eq_true_eq]
  rfl

theorem acts_openAsyncGame (ha : st.Archive) (env : Env) {sid : String} (hopen : sid ∉ st.closed)
    (hsid : isSid sid = true) (gameId : ℕ) :
    Acts K st (st.openAsyncGame env sid gameId) (st.openAsyncDeed env sid gameId) := by
  unfold openAsyncGame openAsyncDeed
  cases hcase : st.openable sid gameId with
  | none => exact acts_refl st
  | some e =>
    obtain ⟨userId, row⟩ := e
    obtain ⟨hauth, hfree, hrow, hasync, hactive⟩ := openable_cases hcase
    have hplaced := placed_of_roomForPlayer_none hfree
    dsimp only
    rcases hload : st.asyncRoomForDbGame env row with ⟨st₁, none | roomId⟩
    · have hst₁ : st₁ = st := by
        unfold asyncRoomForDbGame at hload
        split at hload
        · cases hload
        · split at hload <;> cases hload
          rfl
      rw [hst₁]
      exact acts_refl st
    dsimp only
    obtain ⟨rfl, room, hroom, hroomAsync⟩ | ⟨room, rfl, rfl, hloads, hroomAsync, habsent, -⟩ :=
      asyncRoomForDbGame_cases ha hrow hasync hactive hload
    · simp only [hroom, Option.isSome_some, if_true]
      cases hseat : asyncSeat room userId with
      | none => exact acts_refl _
      | some player =>
        have hmem : player.seat ∈ room.hall.seats := List.mem_map_of_mem (asyncSeat_mem hseat)
        have hsound := ha.rooms roomId room hroom
        have hbot : player.isBot = false := hsound.human (.inl hroomAsync) player.seat hmem
        have hold : isBotId player.id = false := (hsound.proper player.seat hmem).bot.symm.trans hbot
        refine ⟨?_, hopen, hsid, hplaced, room.hall, hall_of_lookup hroom,
          ⟨player.seat, hmem, rfl, hbot, ousts_iff _ roomId player⟩, fun _ => hroomAsync⟩
        exact (does_takeSeat hsid hauth roomId hold).tail ha (tail_emitAllStates _ roomId)
          fun f hf => ⟨_, .tail _ (.head _), hf⟩
    · have hload : ∀ C, Does K C st { st with rooms := st.rooms.insert row.roomId room }
          { st.presence with
            halls := Function.update st.presence.halls row.roomId (some room.hall) } := by
        refine fun C => .of_course (.single (.loaded hloads)) rfl ?_
        refine Presence.ext ?_ rfl rfl rfl rfl rfl rfl rfl rfl rfl
        funext r
        by_cases hr : r = row.roomId <;> simp [Server.presence, Table.lookup_insert, hr]
      have hlookup : (AList.insert row.roomId room st.rooms).lookup row.roomId = some room :=
        AList.lookup_insert _
      have hvacant : (st.rooms.lookup row.roomId).isSome = false := by simp [hloads.free]
      simp only [hlookup, hvacant, Bool.false_eq_true, if_false]
      have hnone := hall_of_lookup_none hloads.free
      have hfresh : row.roomId < st.presence.fresh := ha.rowIds row hrow
      cases hseat : asyncSeat room userId with
      | none => exact ⟨hload _, hnone, hfresh, hroomAsync, habsent⟩
      | some player =>
        have hmem : player.seat ∈ room.hall.seats := List.mem_map_of_mem (asyncSeat_mem hseat)
        have hbot : player.isBot = false := (habsent player.seat hmem).1
        have hold : isBotId player.id = false :=
          (hloads.proper player.seat hmem).bot.symm.trans hbot
        refine ⟨?_, hopen, hsid, hplaced, hnone, hfresh, hroomAsync, habsent, player.seat, hmem, rfl,
          hbot, ousts_iff st row.roomId player⟩
        have htake := @does_takeSeat K (fun f => ∃ p ∈ st.presence.stages (.took sid row.roomId
          player.id (.user userId) (some room.hall) (st.ousts row.roomId player)), p.Credits f)
          { st with rooms := st.rooms.insert row.roomId room } sid hsid userId hauth
          row.roomId player hold
        have hp := (hload fun _ => False).presence
        rw [hp] at htake
        exact ((hload _).trans htake).tail ha (tail_emitAllStates _ row.roomId)
          fun f hf => ⟨_, .tail _ (.head _), hf⟩

end Server

end ScrabbleMagyar
