import ScrabbleMagyar.Server.Deeds

/-!
# Players who leave

The handlers that take players out of their seats (`Acts`): a player leaves the room, logs out or
breaks the connection, and the grace period of one who is away ends.
-/

namespace ScrabbleMagyar

open Function (update)

namespace Server

variable {K : Server → RoomId → SavedGame → Prop} {C : Finish → Prop} {st st₁ st' : Server}
  {p p₁ : Presence}

/-! ## Leaving and breaking -/

theorem placed_of_roomForPlayer {sid : String} {roomId : RoomId} {room : Room}
    (h : st.roomForPlayer sid = some (roomId, room)) :
    st.presence.placed sid = some roomId ∧ st.rooms.lookup roomId = some room := by
  unfold roomForPlayer at h
  cases hr : st.playerRooms.lookup sid with
  | none =>
    rw [hr] at h
    cases h
  | some r =>
    rw [hr] at h
    obtain ⟨room', hroom, heq⟩ := Option.map_eq_some_iff.mp h
    cases heq
    refine ⟨?_, hroom⟩
    simp [Presence.placed, Server.presence, hr, hroom]

theorem placed_of_roomForPlayer_none {sid : String} (h : st.roomForPlayer sid = none) :
    st.presence.placed sid = none := by
  unfold roomForPlayer at h
  cases hr : st.playerRooms.lookup sid with
  | none => simp [Presence.placed, Server.presence, hr]
  | some r =>
    rw [hr] at h
    have hroom : st.rooms.lookup r = none := by simpa using h
    simp [Presence.placed, Server.presence, hr, hroom]

theorem presence_seatAway (sid : String) (roomId : RoomId) (token : Option Token) :
    (st.seatAway sid roomId token).presence =
      match token with
      | some token => (st.presence.modifyHall roomId (Hall.flag sid)).note token sid roomId
      | none => st.presence.modifyHall roomId (Hall.flag sid) := by
  cases token with
  | none => exact st.presence_flag roomId sid
  | some token =>
    rw [← presence_flag]
    exact presence_markDisconnected _ token sid roomId _ _

theorem named_markDisconnected {token : Token} {sid : String} (hsid : isSid sid = true)
    (roomId : RoomId) (name : String) (auth : Option AuthInfo) (h : st.presence.Named) :
    (st.markDisconnected token sid roomId name auth).1.presence.Named := by
  rw [presence_markDisconnected]
  refine ⟨h.holder, fun t a ha => ?_⟩
  by_cases ht : t = token
  · rw [Presence.note, ht] at ha
    obtain rfl : _ = a := by simpa using ha
    exact hsid
  · exact h.away t a (by simpa [Presence.note, ht] using ha)

theorem Moved.seatAway {sid : String} (hsid : isSid sid = true) (roomId : RoomId)
    (token : Option Token) : Moved st (st.seatAway sid roomId token) := by
  have hflag : Moved st (st.modifyGame roomId fun g => (g.markDisconnected sid).1) :=
    .modifyGame fun room _ => .flag room (isBotId_of_isSid hsid)
  cases token with
  | none => exact hflag
  | some token =>
    exact ⟨hflag.rooms, hflag.db, hflag.roomSeq, fun h =>
      named_markDisconnected hsid roomId _ _ (hflag.named h)⟩

/-- Tokens and absences that are only forgotten keep their names. -/
theorem Presence.Named.of_sub {p q : Presence} (h : p.Named)
    (hholder : ∀ t e, q.holder t = some e → p.holder t = some e)
    (haway : ∀ t a, q.away t = some a → p.away t = some a) : q.Named :=
  ⟨fun t r s hs => h.holder t r s (hholder t _ hs), fun t a ha => h.away t a (haway t a ha)⟩

theorem some_of_ite {α : Type*} {c : Prop} [Decidable c] {v : Option α} {a : α}
    (h : (if c then none else v) = some a) : v = some a := by
  split at h
  · cases h
  · exact h

theorem Presence.Named.revoke {p : Presence} (h : p.Named) (sids : List String) :
    (p.revoke sids).Named :=
  h.of_sub (fun _ _ => some_of_ite) fun _ _ => some_of_ite

theorem Presence.Named.drop {p : Presence} (h : p.Named) (roomId : RoomId) :
    (p.drop roomId).Named :=
  h.of_sub (fun _ _ => some_of_ite) fun _ _ ha => (Option.filter_eq_some_iff.mp ha).1

theorem Moved.exitRoom (st : Server) (sid : String) : Moved st (st.exitRoom sid) :=
  .tables rfl rfl rfl fun h => ⟨h.holder, h.away⟩

theorem Moved.enterRoom (st : Server) (sid : String) (roomId : RoomId) :
    Moved st (st.enterRoom sid roomId) :=
  .tables rfl rfl rfl fun h => ⟨h.holder, h.away⟩

theorem Moved.cleanupPlayerToken (st : Server) (sid : String) :
    Moved st (st.cleanupPlayerToken sid) := by
  refine .tables ?_ ?_ ?_ fun h => by
    rw [presence_cleanupPlayerToken]
    exact h.revoke [sid]
  all_goals
    unfold Server.cleanupPlayerToken
    split <;> rfl

theorem course_dropPlayer (st : Server) (sid : String) : Course K st (st.dropPlayer sid) :=
  .tail (.single (.moved (.exitRoom st sid))) (.moved (.cleanupPlayerToken _ sid))

theorem course_foldl_dropPlayer (st : Server) (l : List Player) :
    Course K st (l.foldl (fun st p => st.dropPlayer p.id) st) := by
  induction l generalizing st with
  | nil => exact .refl
  | cons p l ih => exact (course_dropPlayer st p.id).trans (ih _)

theorem db_foldl_dropPlayer (st : Server) (l : List Player) :
    (l.foldl (fun st p => st.dropPlayer p.id) st).db = st.db := by
  induction l generalizing st with
  | nil => rfl
  | cons p l ih =>
    rw [List.foldl_cons, ih, dropPlayer, Server.cleanupPlayerToken]
    split <;> rfl

theorem rest_foldl_dropDisconnected (st : Server) (l : List (Σ _ : Token, DisconnectedInfo)) :
    (l.foldl (fun st e => st.dropDisconnected e.1 e.2) st).rooms = st.rooms ∧
      (l.foldl (fun st e => st.dropDisconnected e.1 e.2) st).db = st.db ∧
      (l.foldl (fun st e => st.dropDisconnected e.1 e.2) st).roomSeq = st.roomSeq := by
  induction l generalizing st with
  | nil => exact ⟨rfl, rfl, rfl⟩
  | cons e l ih => exact ih (st.dropDisconnected e.1 e.2)

theorem Moved.cleanupRoomTokens (st : Server) (roomId : RoomId) :
    Moved st (st.cleanupRoomTokens roomId) := by
  obtain ⟨hrooms, hdb, hseq⟩ := rest_foldl_dropDisconnected st
    (st.disconnectedPlayers.entries.filter fun e => e.2.roomId = roomId)
  refine .tables hrooms hdb hseq fun h => ?_
  rw [presence_cleanupRoomTokens]
  exact ⟨(h.drop roomId).holder, (h.drop roomId).away⟩

/-- A room is released, with its save closed or not. -/
theorem course_cleanupRoom (st : Server) (roomId : RoomId) {db : Db} (hc : Closes st.db db) :
    Course K st { st.cleanupRoom roomId with db } := by
  have hmoved := Moved.cleanupRoomTokens st roomId
  have hwatch : Moved (st.cleanupRoomTokens roomId) { st.cleanupRoomTokens roomId with
      spectatorRooms := (st.cleanupRoomTokens roomId).spectatorRooms.retain fun _ r => r ≠ roomId } :=
    .tables rfl rfl rfl id
  refine .tail (.tail (.single (.moved hmoved)) (.moved hwatch)) ?_
  exact Change.released roomId (show Closes (st.cleanupRoomTokens roomId).db db from hmoved.db ▸ hc)

theorem cleanupRoom_db (st : Server) (roomId : RoomId) : (st.cleanupRoom roomId).db = st.db :=
  (Moved.cleanupRoomTokens st roomId).db

theorem course_cleanupRoom_self (st : Server) (roomId : RoomId) :
    Course K st (st.cleanupRoom roomId) := by
  have h := course_cleanupRoom (K := K) st roomId (Closes.refl st.db)
  rwa [← cleanupRoom_db st roomId] at h

theorem abandonSave_closes (st : Server) (roomId : RoomId) (room : Room) :
    Closes st.db (st.abandonSave roomId room).db := by
  unfold abandonSave
  split
  · cases room.dbGameId with
    | none => exact .abandonGame st.db roomId
    | some id => exact .abandonGameById st.db id
  · exact .refl st.db

theorem abandonSave_rest (st : Server) (roomId : RoomId) (room : Room) :
    st.abandonSave roomId room = { st with db := (st.abandonSave roomId room).db } := by
  unfold abandonSave
  split <;> rfl

/-- The database plays no part in forgetting absences. -/
theorem foldl_dropDisconnected_db (st : Server) (db : Db)
    (l : List (Σ _ : Token, DisconnectedInfo)) :
    l.foldl (fun st e => st.dropDisconnected e.1 e.2) { st with db } =
      { l.foldl (fun st e => st.dropDisconnected e.1 e.2) st with db } := by
  induction l generalizing st with
  | nil => rfl
  | cons e l ih => exact ih (st.dropDisconnected e.1 e.2)

theorem cleanupRoom_with_db (st : Server) (db : Db) (roomId : RoomId) :
    ({ st with db } : Server).cleanupRoom roomId = { st.cleanupRoom roomId with db } := by
  have htokens : ({ st with db } : Server).cleanupRoomTokens roomId =
      { st.cleanupRoomTokens roomId with db } := foldl_dropDisconnected_db st db _
  unfold cleanupRoom
  rw [htokens]

/-- The save of a room is closed, and the room released. -/
theorem does_abandon (st : Server) (roomId : RoomId) (room : Room) :
    Does K C st ((st.abandonSave roomId room).cleanupRoom roomId) (st.presence.drop roomId) := by
  have hc := abandonSave_closes st roomId room
  refine ⟨?_, ?_, fun f hf => .inl ?_⟩
  · have h := course_cleanupRoom (K := K) st roomId hc
    rw [abandonSave_rest, cleanupRoom_with_db]
    exact h
  · rw [presence_cleanupRoom, presence_abandonSave]
  · rw [cleanupRoom_db] at hf
    exact hc.1 ▸ hf

theorem presence_disbandActiveRoom (st : Server) (roomId : RoomId) (owner : Option String) :
    (st.disbandActiveRoom roomId owner).presence = st.presence.disband roomId owner := by
  unfold disbandActiveRoom Presence.disband
  cases hroom : st.rooms.lookup roomId with
  | none => simp [Server.presence, hroom]
  | some room =>
    have hhall : st.presence.halls roomId = some room.hall := by
      simp [Server.presence, hroom]
    have hdropped : (room.game.humanPlayers.filter fun p => decide (some p.id ≠ owner)).map
        Player.id = room.hall.humans.filter fun s => decide (some s ≠ owner) := by
      simp only [Hall.humans, Room.hall, Game.seats, Game.humanPlayers, List.filter_map,
        List.map_map, List.filter_filter]
      rfl
    rw [hhall]
    simp only
    rw [presence_cleanupRoom, presence_abandonSave, presence_cleanupRoomTokens,
      drop_of_forgotten, presence_foldl_dropPlayer, hdropped]

theorem does_disbandActiveRoom (st : Server) (roomId : RoomId) (owner : Option String) :
    Does K C st (st.disbandActiveRoom roomId owner) (st.presence.disband roomId owner) := by
  refine ⟨?_, presence_disbandActiveRoom st roomId owner, fun f hf => .inl ?_⟩
  · unfold disbandActiveRoom
    split
    · exact .refl
    · exact (course_foldl_dropPlayer st _).trans
        ((Relation.ReflTransGen.single (.moved (.cleanupRoomTokens _ roomId))).trans
          (does_abandon (C := fun _ => False) _ roomId _).course)
  · unfold disbandActiveRoom at hf
    split at hf
    · exact hf
    · rw [cleanupRoom_db, (abandonSave_closes _ _ _).1, (Moved.cleanupRoomTokens _ roomId).db,
        db_foldl_dropPlayer] at hf
      exact hf

theorem hall_of_lookup {roomId : RoomId} {room : Room} (h : st.rooms.lookup roomId = some room) :
    st.presence.halls roomId = some room.hall := by
  simp [Server.presence, h]

theorem hall_of_lookup_none {roomId : RoomId} (h : st.rooms.lookup roomId = none) :
    st.presence.halls roomId = none := by
  simp [Server.presence, h]

theorem hasConnected_hall (room : Room) : room.hall.hasConnected = room.game.hasConnectedHuman := by
  simp only [Hall.hasConnected, Room.hall, Game.seats, Game.hasConnectedHuman, List.any_map]
  rfl

theorem humans_hall (room : Room) : room.hall.humans = room.game.humanPlayers.map Player.id := by
  simp only [Hall.humans, Room.hall, Game.seats, Game.humanPlayers, List.filter_map, List.map_map]
  rfl

theorem deserted_iff (room : Room) :
    (room.game.humanPlayers.isEmpty || (room.isAsync && !room.game.hasConnectedHuman)) = true ↔
      Presence.deserted room.hall := by
  rw [Presence.deserted, humans_hall, hasConnected_hall]
  simp [Room.hall]

theorem tail_leaveSpectate (st : Server) (sid : String) : Tail st (st.leaveSpectate sid) := by
  unfold leaveSpectate
  split
  · exact .refl st
  · exact (tail_removeSpectator st sid).trans (tail_emitAllStates _ _)

theorem does_afterRemoval (ha : st.Archive) (sid : String) (roomId : RoomId)
    (hC : ∀ f, st.presence.Credits f → st.presence.dropIf roomId Presence.deserted = st.presence →
      C f) :
    Does K C st (st.afterRemoval sid roomId) (st.presence.dropIf roomId Presence.deserted) := by
  unfold afterRemoval
  cases hroom : st.rooms.lookup roomId with
  | none =>
    rw [Presence.dropIf, hall_of_lookup_none hroom]
    exact .refl st
  | some room =>
    by_cases hdes : Presence.deserted room.hall
    · rw [Presence.dropIf, hall_of_lookup hroom]
      simp only [if_pos ((deserted_iff room).mpr hdes), if_pos hdes]
      exact .of_course (course_cleanupRoom_self st roomId) (by rw [cleanupRoom_db])
        (presence_cleanupRoom st roomId)
    · have hdrop : st.presence.dropIf roomId Presence.deserted = st.presence := by
        rw [Presence.dropIf, hall_of_lookup hroom]
        simp only [if_neg hdes]
      rw [hdrop]
      simp only [if_neg (hdes ∘ (deserted_iff room).mp)]
      refine .of_tail (Tail.trans ?_ (tail_emitAllStates _ roomId)) ha fun f hf => hC f hf hdrop
      split
      · exact tail_transferOwnership st roomId
      · exact .refl st

theorem Moved.unseat (st : Server) (roomId : RoomId) (sid : String) :
    Moved st (st.modifyGame roomId fun g => (g.removePlayer sid).1) :=
  .modifyGame fun room _ => .unseat room sid

theorem does_seatAway {sid : String} (hsid : isSid sid = true) (roomId : RoomId)
    (token : Option Token) :
    Does K C st (st.seatAway sid roomId token) (match token with
      | some token => (st.presence.modifyHall roomId (Hall.flag sid)).note token sid roomId
      | none => st.presence.modifyHall roomId (Hall.flag sid)) :=
  .of_moved (.seatAway hsid roomId token) (presence_seatAway sid roomId token)

theorem Does.exitRoom (h : Does K C st st₁ p) (sid : String) :
    Does K C st (st₁.exitRoom sid) (p.exit [sid]) :=
  h.moved (.exitRoom st₁ sid) (by rw [presence_exitRoom, h.presence])

theorem Does.cleanupPlayerToken (h : Does K C st st₁ p) (sid : String) :
    Does K C st (st₁.cleanupPlayerToken sid) (p.revoke [sid]) :=
  h.moved (.cleanupPlayerToken st₁ sid) (by rw [presence_cleanupPlayerToken, h.presence])

theorem does_unseat (st : Server) (roomId : RoomId) (sid : String) :
    Does K C st (st.modifyGame roomId fun g => (g.removePlayer sid).1)
      (st.presence.modifyHall roomId (Hall.unseat sid)) :=
  .of_moved (.unseat st roomId sid) (presence_unseat st roomId sid)

theorem does_leaveRoom (ha : st.Archive) (env : Env) {sid : String} (hsid : isSid sid = true)
    (hC : ∀ f, (st.presence.quit sid (st.leaveOf sid).departure).Credits f → C f) :
    Does K C st (st.leaveRoom env sid) (st.presence.quit sid (st.leaveOf sid).departure) := by
  unfold leaveRoom
  cases hleave : st.leaveOf sid with
  | unseated => exact .refl st
  | kept roomId token =>
    rw [hleave] at hC
    cases token with
    | none =>
      exact ((does_seatAway hsid roomId none).exitRoom sid).tail ha (tail_emitAllStates _ roomId) hC
    | some token =>
      exact ((does_seatAway hsid roomId (some token)).exitRoom sid).tail ha
        (tail_emitAllStates _ roomId) hC
  | disbanded roomId =>
    exact ((does_disbandActiveRoom st roomId (some sid)).exitRoom sid).cleanupPlayerToken sid
  | paused roomId token =>
    rw [hleave] at hC
    have haway := @does_seatAway K C st sid hsid roomId (some token)
    exact (haway.tail ha ((tail_advanceTurnIfNeeded _ env roomId).trans
      (tail_emitAllStates _ roomId)) fun f hf => hC f (hf.congr rfl rfl)).exitRoom sid
  | removed roomId =>
    rw [hleave] at hC
    have hout := ((does_unseat (K := K) (C := C) st roomId sid).cleanupPlayerToken sid).exitRoom sid
    have hp := hout.presence
    have hend := hout.trans (does_afterRemoval (C := C) (hout.archive ha) sid roomId fun f hf hdrop =>
      hC f (by
        rw [hp] at hf hdrop
        change ((((st.presence.modifyHall roomId (Hall.unseat sid)).revoke [sid]).exit
          [sid]).dropIf roomId Presence.deserted).Credits f
        rw [hdrop]
        exact hf))
    rw [hp] at hend
    exact hend

theorem does_breakSeat (ha : st.Archive) {sid : String} (hsid : isSid sid = true) (broken : Break)
    (hC : ∀ f, (st.presence.quit sid broken.departure).Credits f → C f) :
    Does K C st (st.breakSeat sid broken) (st.presence.quit sid broken.departure) := by
  cases broken with
  | unseated => exact (Does.refl st).cleanupPlayerToken sid
  | kept roomId token =>
    cases token with
    | none =>
      exact ((does_seatAway hsid roomId none).tail ha (tail_emitAllStates _ roomId) fun f hf =>
        hC f (hf.congr rfl rfl)).exitRoom sid
    | some token =>
      exact ((does_seatAway hsid roomId (some token)).tail ha (tail_emitAllStates _ roomId)
        fun f hf => hC f (hf.congr rfl rfl)).exitRoom sid
  | grace roomId token =>
    have haway := @does_seatAway K C st sid hsid roomId (some token)
    have hmoved : Moved (st.seatAway sid roomId (some token))
        { st.seatAway sid roomId (some token) with
        graceTimers := (token, (st.seatAway sid roomId (some token)).disconnectSeq) ::
          (st.seatAway sid roomId (some token)).graceTimers } :=
      .tables rfl rfl rfl fun h => ⟨h.holder, h.away⟩
    have htimer := haway.moved hmoved rfl
    have hp : ({ st.seatAway sid roomId (some token) with
        graceTimers := (token, (st.seatAway sid roomId (some token)).disconnectSeq) ::
          (st.seatAway sid roomId (some token)).graceTimers } : Server).presence =
        { (st.seatAway sid roomId (some token)).presence with
          timers := (token, (st.seatAway sid roomId (some token)).presence.seq) ::
            (st.seatAway sid roomId (some token)).presence.timers } := rfl
    rw [hp, haway.presence] at htimer
    exact (htimer.tail ha (tail_emitAllStates _ roomId) fun f hf =>
      hC f (hf.congr rfl rfl)).exitRoom sid
  | removed roomId =>
    have hout := does_unseat (K := K) (C := C) st roomId sid
    have hp := hout.presence
    have hend := hout.trans (does_afterRemoval (C := C) (hout.archive ha) sid roomId fun f hf hdrop =>
      hC f (by
        rw [hp] at hf hdrop
        refine Presence.Credits.congr (p := (st.presence.modifyHall roomId (Hall.unseat sid)).dropIf
          roomId Presence.deserted) ?_ rfl rfl
        rw [hdrop]
        exact hf))
    rw [hp] at hend
    exact (hend.exitRoom sid).cleanupPlayerToken sid

theorem can_leaveOf {sid : String} (hopen : sid ∉ st.closed) (hsid : isSid sid = true)
    (forgets : Bool) :
    st.presence.Can (.departed sid (st.leaveOf sid).departure forgets false) := by
  refine ⟨hopen, hsid, ?_⟩
  cases h : st.roomForPlayer sid with
  | none =>
    rw [show st.leaveOf sid = .unseated by rw [leaveOf, h]]
    exact placed_of_roomForPlayer_none h
  | some e =>
    obtain ⟨r, room⟩ := e
    have hplaced := (placed_of_roomForPlayer h).1
    by_cases hasync : (room.isAsync && room.isRunning) = true
    · rw [show st.leaveOf sid = .kept r (st.sidToToken.lookup sid) by
        simp only [leaveOf, h, if_pos hasync]]
      exact ⟨hplaced, rfl⟩
    by_cases hown : room.owner = some sid ∧ room.isRunning = true
    · rw [show st.leaveOf sid = .disbanded r by
        simp only [leaveOf, h, if_neg hasync, if_pos hown]]
      exact hplaced
    cases htoken : st.sidToToken.lookup sid with
    | none =>
      rw [show st.leaveOf sid = .removed r by
        simp only [leaveOf, h, if_neg hasync, if_neg hown, htoken]]
      exact hplaced
    | some token =>
      by_cases hrun : room.isRunning = true
      · rw [show st.leaveOf sid = .paused r token by
          simp only [leaveOf, h, if_neg hasync, if_neg hown, htoken, if_pos hrun]]
        exact ⟨hplaced, htoken.symm⟩
      · rw [show st.leaveOf sid = .removed r by
          simp only [leaveOf, h, if_neg hasync, if_neg hown, htoken, if_neg hrun]]
        exact hplaced

theorem acts_leaveRoom (ha : st.Archive) (env : Env) {sid : String} (hopen : sid ∉ st.closed)
    (hsid : isSid sid = true) :
    Acts K st (st.leaveRoom env sid) (.departed sid (st.leaveOf sid).departure false false) :=
  ⟨does_leaveRoom ha env hsid fun _ hf => ⟨_, by simp [Presence.stages], hf⟩,
    can_leaveOf hopen hsid false⟩

/-- The account of a connection is set or forgotten. -/
theorem Does.setAccount (h : Does K C st st₁ p) (sid : String) (auth : Option AuthInfo)
    (names : Table String String) (auths : Table String AuthInfo)
    (hauths : ∀ s, auths.lookup s = if s = sid then auth else st₁.playerAuth.lookup s) :
    Does K C st { st₁ with playerNames := names, playerAuth := auths } (p.setAccount sid auth) := by
  refine h.moved (.tables rfl rfl rfl fun hn => ⟨hn.holder, hn.away⟩) ?_
  rw [← h.presence]
  refine Presence.ext rfl rfl rfl rfl rfl ?_ rfl rfl rfl rfl
  funext s
  change auths.lookup s = update st₁.presence.account sid auth s
  rw [hauths, Function.update_apply]
  rfl

theorem acts_setName {sid : String} (hopen : sid ∉ st.closed) (name : String) (auth : AuthInfo) :
    Acts K st (st.setName sid name auth) (.named sid (some auth)) :=
  ⟨(Does.refl st).setAccount _ _ _ _ fun _ => Table.lookup_insert .., hopen⟩

theorem acts_logout (ha : st.Archive) (env : Env) {sid : String} (hopen : sid ∉ st.closed)
    (hsid : isSid sid = true) :
    Acts K st (st.logout env sid) (.departed sid (st.leaveOf sid).departure true false) := by
  refine ⟨?_, can_leaveOf hopen hsid true⟩
  have hleave : (if (st.playerRooms.lookup sid).isSome then st.leaveRoom env sid else st) =
      st.leaveRoom env sid := by
    split
    · rfl
    · rename_i h
      have hnone : st.roomForPlayer sid = none := by
        have hroom : st.playerRooms.lookup sid = none := by simpa using h
        simp [roomForPlayer, hroom]
      unfold leaveRoom leaveOf
      rw [hnone]
  unfold logout
  rw [hleave]
  have hout := does_leaveRoom (K := K)
    (C := fun f => ∃ p ∈ st.presence.stages (.departed sid (st.leaveOf sid).departure true false),
      p.Credits f) ha env hsid fun _ hf => ⟨_, by simp [Presence.stages], hf⟩
  exact (hout.tail ha (tail_leaveSpectate _ sid) fun _ hf =>
    ⟨_, by simp [Presence.stages], hf⟩).setAccount _ _ _ _ fun _ => Table.lookup_erase ..

theorem can_breakOf {sid : String} (hopen : sid ∉ st.closed) (hsid : isSid sid = true)
    (forgets : Bool) :
    st.presence.Can (.departed sid (st.breakOf sid).departure forgets true) := by
  refine ⟨hopen, hsid, ?_⟩
  cases h : st.roomForPlayer sid with
  | none =>
    rw [show st.breakOf sid = .unseated by rw [breakOf, h]]
    exact ⟨placed_of_roomForPlayer_none h, rfl⟩
  | some e =>
    obtain ⟨r, room⟩ := e
    have hplaced := (placed_of_roomForPlayer h).1
    by_cases hasync : (room.isAsync && room.isRunning) = true
    · rw [show st.breakOf sid = .kept r (st.sidToToken.lookup sid) by
        simp only [breakOf, h, if_pos hasync]]
      exact ⟨hplaced, rfl⟩
    cases htoken : st.sidToToken.lookup sid with
    | none =>
      rw [show st.breakOf sid = .removed r by
        simp only [breakOf, h, if_neg hasync, htoken]]
      exact hplaced
    | some token =>
      by_cases hfin : room.game.finished = true
      · rw [show st.breakOf sid = .removed r by
          simp only [breakOf, h, if_neg hasync, htoken, if_pos hfin]]
        exact hplaced
      · rw [show st.breakOf sid = .grace r token by
          simp only [breakOf, h, if_neg hasync, htoken, if_neg hfin]]
        exact ⟨hplaced, htoken.symm, rfl⟩

/-- A connection is closed, and its account forgotten or not. -/
theorem Does.close (h : Does K C st st₁ p) {sid : String} {names : Table String String}
    {auths : Table String AuthInfo} (forgets : Bool)
    (hauths : ∀ s, auths.lookup s =
      if forgets = true ∧ s = sid then none else st₁.playerAuth.lookup s) :
    Does K C st
      { st₁ with playerNames := names, playerAuth := auths, closed := insert sid st₁.closed }
      { (if forgets then p.setAccount sid none else p) with
        closed := insert sid (if forgets then p.setAccount sid none else p).closed } := by
  refine h.moved (.tables rfl rfl rfl fun hn => ⟨hn.holder, hn.away⟩) ?_
  rw [← h.presence]
  cases forgets with
  | false =>
    refine Presence.ext rfl rfl rfl rfl rfl ?_ rfl rfl rfl rfl
    funext s
    simpa [Server.presence] using hauths s
  | true =>
    refine Presence.ext rfl rfl rfl rfl rfl ?_ rfl rfl rfl rfl
    funext s
    simpa [Server.presence, Presence.setAccount, Function.update_apply] using hauths s

theorem acts_handleDisconnect (ha : st.Archive) {sid : String} (hopen : sid ∉ st.closed)
    (hsid : isSid sid = true) :
    Acts K st (st.handleDisconnect sid)
      (.departed sid ((st.leaveSpectate sid).breakOf sid).departure
        ((st.leaveSpectate sid).breakOf sid).forgets true) := by
  have htail := tail_leaveSpectate st sid
  have hpresence := htail.presence ha
  have hcan := @can_breakOf (st.leaveSpectate sid) sid
    (by
      have hclosed := congrArg Presence.closed hpresence
      rw [show (st.leaveSpectate sid).closed = st.closed from hclosed]
      exact hopen) hsid ((st.leaveSpectate sid).breakOf sid).forgets
  rw [hpresence] at hcan
  refine ⟨?_, hcan⟩
  have hstart : Does K (fun f => ∃ p ∈ st.presence.stages
      (.departed sid ((st.leaveSpectate sid).breakOf sid).departure
        ((st.leaveSpectate sid).breakOf sid).forgets true), p.Credits f) st
      (st.leaveSpectate sid) st.presence :=
    .of_tail htail ha fun _ hf => ⟨st.presence, by simp [Presence.stages], hf⟩
  have hseat := hstart.trans (does_breakSeat (hstart.archive ha) hsid
    ((st.leaveSpectate sid).breakOf sid) fun f hf =>
      ⟨_, by simp [Presence.stages], hpresence ▸ hf⟩)
  rw [hpresence] at hseat
  unfold handleDisconnect
  dsimp only
  refine hseat.close _ ?_
  intro s
  cases (st.leaveSpectate sid).breakOf sid with
  | grace roomId token => simp [Break.forgets]
  | unseated => simpa [Break.forgets] using Table.lookup_erase ..
  | kept roomId token => simpa [Break.forgets] using Table.lookup_erase ..
  | removed roomId => simpa [Break.forgets] using Table.lookup_erase ..

/-! ## The end of a grace period -/

/-- A game that is not over has no result to record. -/
theorem saveManually_finishes (ha : st.Archive) {roomId : RoomId} {room : Room}
    (hroom : st.rooms.lookup roomId = some room) (hfin : room.game.finished = false) :
    (st.saveManually roomId).db.finishes = st.db.finishes := by
  have hsaved : (st.saveGameToDb roomId).1.db.finishes = st.db.finishes := by
    obtain heq | ⟨room', db, row, hroom', -, hrec, heq⟩ := st.saveGameToDb_cases ha.numbered roomId
    · rw [heq]
    · obtain rfl := Option.some.inj (hroom.symm.trans hroom')
      rw [heq]
      exact hrec.finishes.trans (by rw [if_neg (by simp [hfin])])
  unfold saveManually
  rcases hcase : st.saveGameToDb roomId with ⟨st₁, saved⟩
  rw [hcase] at hsaved
  cases saved
  · exact hsaved
  · rw [← hsaved]
    dsimp only
    rw [modifyRoom_rest]

theorem Room.isRunning_iff (room : Room) :
    room.isRunning = true ↔ room.game.started = true ∧ room.game.finished = false := by
  simp [Room.isRunning]

/-- The seat of a running game is kept, another one is given up. -/
theorem moved_settle {roomId : RoomId} {room : Room} (hroom : st.rooms.lookup roomId = some room)
    (sid : String) :
    let game := if room.isRunning then room.game else (room.game.removePlayer sid).1
    Moved st (st.modifyRoom roomId fun room => { room with game }) ∧
      (st.modifyRoom roomId fun room => { room with game }).presence =
        if !room.isRunning then st.presence.modifyHall roomId (Hall.unseat sid) else st.presence := by
  have hpres : ∀ (game : Game) (F : Hall → Hall), Room.hall { room with game } = F room.hall →
      (st.modifyRoom roomId fun room => { room with game }).presence =
        st.presence.modifyHall roomId F := fun game F hF =>
    st.presence_modifyRoom fun room' hroom' => by
      obtain rfl := Option.some.inj (hroom.symm.trans hroom')
      exact hF
  have hmoved : ∀ game : Game, Room.Moved room { room with game } →
      Moved st (st.modifyRoom roomId fun room => { room with game }) := fun game hm =>
    ⟨rel_modifyRoom fun room' hroom' => by
      obtain rfl := Option.some.inj (hroom.symm.trans hroom')
      exact hm, by rw [modifyRoom_rest], by rw [modifyRoom_rest], named_modifyRoom⟩
  by_cases hrun : room.isRunning = true
  · simp only [hrun, if_true, Bool.not_true, Bool.false_eq_true, if_false]
    exact ⟨hmoved _ (.refl room), (hpres _ id rfl).trans (modifyHall_self fun _ _ => rfl)⟩
  · simp only [hrun, Bool.false_eq_true, if_false, Bool.not_false, if_true]
    refine ⟨hmoved _ (.unseat room sid), hpres _ _ ?_⟩
    simp only [Room.hall, Hall.unseat, Game.seats_removePlayer]

/-- A room is released with its save closed, or it goes on. -/
theorem Does.dropOr (h : Does K C st st₁ p) (ha : st.Archive) {roomId : RoomId} {room₁ : Room}
    (hroom : st₁.rooms.lookup roomId = some room₁) {cond : Bool} {c : Hall → Prop}
    [DecidablePred c] (hcond : cond = true ↔ c room₁.hall) (room : Room)
    (htail : Tail st₁ st') (hC : ∀ f, (p.dropIf roomId c).Credits f → C f) :
    Does K C st (if cond then (st₁.abandonSave roomId room).cleanupRoom roomId else st')
      (p.dropIf roomId c) := by
  have hp := h.presence
  subst hp
  have hhall := hall_of_lookup hroom
  by_cases hc : c room₁.hall
  · have hdrop : st₁.presence.dropIf roomId c = st₁.presence.drop roomId := by
      rw [Presence.dropIf, hhall]
      exact if_pos hc
    rw [if_pos (hcond.mpr hc), hdrop]
    exact h.trans (does_abandon st₁ roomId room)
  · have hdrop : st₁.presence.dropIf roomId c = st₁.presence := by
      rw [Presence.dropIf, hhall]
      exact if_neg hc
    rw [hdrop] at hC
    rw [if_neg (hc ∘ hcond.mp), hdrop]
    exact h.tail ha htail hC

/-- A game goes on after a seat was left or given up. -/
theorem tail_goOn (st : Server) (env : Env) (roomId : RoomId) (inherits : Prop)
    [Decidable inherits] (running : Bool) :
    Tail st (let st := if inherits then st.transferOwnership roomId else st
      let st := if running then st.advanceTurnIfNeeded env roomId else st
      st.emitAllStates roomId) := by
  refine Tail.trans ?_ (tail_emitAllStates _ roomId)
  have hinherits : Tail st (if inherits then st.transferOwnership roomId else st) := by
    split
    · exact tail_transferOwnership st roomId
    · exact .refl st
  split
  · exact hinherits.trans (tail_advanceTurnIfNeeded _ env roomId)
  · exact hinherits

theorem lookup_modifyRoom_self {roomId : RoomId} {room : Room}
    (hroom : st.rooms.lookup roomId = some room) (f : Room → Room) :
    (st.modifyRoom roomId f).rooms.lookup roomId = some (f room) := by
  rw [lookup_modifyRoom, if_pos rfl, hroom, Option.map_some]

theorem expiryOf_eq {token : Token} {info : DisconnectedInfo} {room : Room}
    (hinfo : st.disconnectedPlayers.lookup token = some info)
    (hroom : st.rooms.lookup info.roomId = some room) :
    st.expiryOf token info.seq =
      if room.owner = some info.sid ∧ room.isRunning = true ∧ room.game.players ≠ [] then .disbanded
      else .settled (!room.isRunning) := by
  simp only [expiryOf, hinfo, hroom, ne_eq, not_true_eq_false, if_false]

theorem does_finalizeDisconnect {token : Token} {info : DisconnectedInfo}
    (hinfo : st.disconnectedPlayers.lookup token = some info) :
    Does K C st (st.finalizeDisconnect token).1
      (st.presence.forget token ⟨info.roomId, info.sid, info.seq⟩) := by
  refine .of_moved (.tables ?_ ?_ ?_ fun h => ?_) (presence_finalizeDisconnect _ hinfo)
  · simp only [Server.finalizeDisconnect, hinfo]
  · simp only [Server.finalizeDisconnect, hinfo]
  · simp only [Server.finalizeDisconnect, hinfo]
  · rw [presence_finalizeDisconnect _ hinfo]
    refine h.of_sub (fun t e he => ?_) fun t a ha => ?_
    · exact some_of_ite (c := t = token) (by rwa [← Function.update_apply])
    · exact some_of_ite (c := t = token) (by rwa [← Function.update_apply])

theorem does_finalize (ha : st.Archive) (env : Env) {token : Token} {info : DisconnectedInfo}
    (hinfo : st.disconnectedPlayers.lookup token = some info)
    (hC : ∀ f, (st.presence.expire token ⟨info.roomId, info.sid, info.seq⟩
      (st.expiryOf token info.seq)).Credits f → C f) :
    Does K C st (st.finalizePlayerDisconnect env token)
      (st.presence.expire token ⟨info.roomId, info.sid, info.seq⟩ (st.expiryOf token info.seq)) := by
  have hforget := (does_finalizeDisconnect (K := K) (C := C) hinfo).setAccount info.sid none
    (st.finalizeDisconnect token).1.playerNames
    ((st.finalizeDisconnect token).1.playerAuth.erase info.sid) fun s => Table.lookup_erase ..
  have hfst : (st.finalizeDisconnect token).1.rooms = st.rooms := by
    simp only [Server.finalizeDisconnect, hinfo]
  have hsnd : (st.finalizeDisconnect token).2 = some info := by
    simp only [Server.finalizeDisconnect, hinfo]
  unfold finalizePlayerDisconnect
  rcases hcase : st.finalizeDisconnect token with ⟨st₁, o⟩
  rw [hcase] at hforget hfst hsnd
  subst hsnd
  dsimp only at hforget hfst ⊢
  have hrooms : ({ st₁ with playerAuth := st₁.playerAuth.erase info.sid } : Server).rooms = st.rooms :=
    hfst
  generalize ({ st₁ with playerAuth := st₁.playerAuth.erase info.sid } : Server) = st₂
    at hforget hrooms ⊢
  have ha₂ := hforget.archive ha
  have hp₂ := hforget.presence
  cases hroom : st.rooms.lookup info.roomId with
  | none =>
    rw [show st.expiryOf token info.seq = .gone by simp only [expiryOf, hinfo, hroom, ne_eq,
      not_true_eq_false, if_false]]
    simp only [hfst, hroom]
    exact hforget
  | some room =>
    rw [expiryOf_eq hinfo hroom] at hC ⊢
    have hroom₂ : st₂.rooms.lookup info.roomId = some room := by rw [hrooms, hroom]
    simp only [hfst, hroom]
    by_cases hown : room.owner = some info.sid ∧ room.isRunning = true ∧ room.game.players ≠ []
    · rw [if_pos hown, if_pos hown]
      have hfin : room.game.finished = false := ((room.isRunning_iff).mp hown.2.1).2
      have htail := tail_saveManually st₂ info.roomId
      have hsave : Does K C st (st₂.saveManually info.roomId) st₂.presence :=
        (hp₂ ▸ hforget).trans ⟨htail.course K, htail.presence ha₂, fun f hf =>
          .inl (saveManually_finishes ha₂ hroom₂ hfin ▸ hf)⟩
      have hend := hsave.trans (does_disbandActiveRoom (K := K) (C := C)
        (st₂.saveManually info.roomId) info.roomId (some info.sid))
      rw [htail.presence ha₂, hp₂] at hend
      exact hend
    · rw [if_neg hown] at hC ⊢
      rw [if_neg hown]
      obtain ⟨hmoved, hpres⟩ := moved_settle hroom₂ info.sid
      have hsettle := hforget.moved hmoved hpres
      rw [hp₂] at hsettle
      refine hsettle.dropOr ha (lookup_modifyRoom_self hroom₂ _) ?_ room ?_ hC
      · rw [hasConnected_hall]
        simp
      · exact tail_goOn _ env _ _ _

theorem acts_graceTimeout (ha : st.Archive) (env : Env) {token : Token} {seq : ℕ}
    (hmem : (token, seq) ∈ st.graceTimers) :
    Acts K st (({ st with graceTimers := st.graceTimers.erase (token, seq) } : Server).graceTimeout
      env token seq) (.expired token seq (st.expiryOf token seq)) := by
  have htimer : ∀ C, Does K C st { st with graceTimers := st.graceTimers.erase (token, seq) }
      { st.presence with timers := st.presence.timers.erase (token, seq) } := fun C =>
    .of_moved (.tables rfl rfl rfl fun hn => ⟨hn.holder, hn.away⟩) rfl
  cases hinfo : st.disconnectedPlayers.lookup token with
  | none =>
    have haway : st.presence.away token = none := by simp [Server.presence, hinfo]
    have hstale : st.expiryOf token seq = .stale := by simp only [expiryOf, hinfo]
    rw [hstale]
    refine ⟨?_, hmem, fun a h => by simp [haway] at h⟩
    simp only [graceTimeout, disconnectIsCurrent, hinfo, Bool.false_eq_true, if_false,
      Presence.act, haway]
    exact htimer _
  | some info =>
    have haway : st.presence.away token = some ⟨info.roomId, info.sid, info.seq⟩ := by
      simp [Server.presence, hinfo]
    by_cases hseq : info.seq = seq
    · subst hseq
      refine ⟨?_, hmem, ?_⟩
      · simp only [graceTimeout, disconnectIsCurrent, hinfo, decide_true, if_true, Presence.act,
          haway]
        have hend := does_finalize (K := K) (C := fun f => ∃ p ∈ st.presence.stages
            (.expired token info.seq (st.expiryOf token info.seq)), p.Credits f)
          ((htimer fun _ => False).archive ha) env hinfo fun f hf =>
            ⟨st.presence.act (.expired token info.seq (st.expiryOf token info.seq)),
              by simp [Presence.stages], by
                simp only [Presence.act, haway]
                exact hf⟩
        exact (htimer _).trans hend
      · cases hroom : st.rooms.lookup info.roomId with
        | none =>
          rw [show st.expiryOf token info.seq = .gone by simp only [expiryOf, hinfo, hroom, ne_eq,
            not_true_eq_false, if_false]]
          exact ⟨_, haway, rfl, hall_of_lookup_none hroom⟩
        | some room =>
          rw [expiryOf_eq hinfo hroom]
          have hhall : (st.presence.halls info.roomId).isSome = true := by
            simp [hall_of_lookup hroom]
          by_cases hown : room.owner = some info.sid ∧ room.isRunning = true ∧
              room.game.players ≠ []
          · rw [if_pos hown]
            exact ⟨_, haway, rfl, hhall⟩
          · rw [if_neg hown]
            exact ⟨_, haway, rfl, hhall⟩
    · have hstale : st.expiryOf token seq = .stale := by
        simp only [expiryOf, hinfo, ne_eq, hseq, not_false_eq_true, if_true]
      rw [hstale]
      refine ⟨?_, hmem, fun a h => ?_⟩
      · simp only [graceTimeout, disconnectIsCurrent, hinfo, hseq, decide_false, Bool.false_eq_true,
          if_false, Presence.act, haway]
        exact htimer _
      · rw [haway] at h
        cases h
        exact hseq

end Server

end ScrabbleMagyar
