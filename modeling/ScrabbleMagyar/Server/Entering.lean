import ScrabbleMagyar.Server.Leaving

/-!
# Players who come

The handlers that seat a connection (`Acts`): a player comes back with a token, opens a room,
joins one, or takes a seat that waits.
-/

namespace ScrabbleMagyar

open Function (update)

namespace Server

variable {K : Server → RoomId → SavedGame → Prop} {C : Finish → Prop} {st st₁ st' : Server}
  {p p₁ : Presence}

/-- A room is replaced by what has become of it. -/
theorem does_insert {roomId : RoomId} {room room' : Room}
    (hroom : st.rooms.lookup roomId = some room) (hm : Room.Moved room room') {F : Hall → Hall}
    (hF : room'.hall = F room.hall) :
    Does K C st { st with rooms := st.rooms.insert roomId room' }
      (st.presence.modifyHall roomId F) := by
  have heq : ({ st with rooms := st.rooms.insert roomId room' } : Server) =
      st.modifyRoom roomId fun _ => room' := by
    simp only [modifyRoom, hroom]
  refine .of_moved ⟨rel_insert hroom hm, rfl, rfl, fun hn => ⟨hn.holder, hn.away⟩⟩ ?_
  rw [heq]
  refine st.presence_modifyRoom fun room₁ hroom₁ => ?_
  obtain rfl := Option.some.inj (hroom.symm.trans hroom₁)
  exact hF

theorem does_modifyGame {roomId : RoomId} {f : Game → Game} {F : Hall → Hall}
    (hm : ∀ room, st.rooms.lookup roomId = some room →
      Room.Moved room { room with game := f room.game })
    (hF : ∀ room : Room, Room.hall { room with game := f room.game } = F room.hall) :
    Does K C st (st.modifyGame roomId f) (st.presence.modifyHall roomId F) :=
  .of_moved (.modifyGame hm) (st.presence_modifyGame hF)

theorem Does.enterRoom (h : Does K C st st₁ p) (sid : String) (roomId : RoomId) :
    Does K C st (st₁.enterRoom sid roomId) (p.enter sid roomId) :=
  h.moved (.enterRoom st₁ sid roomId) (by rw [presence_enterRoom, h.presence])

/-! ## Coming back -/

theorem releasable_of_releases {token : Token} (h : st.releases token = true) :
    st.presence.Releasable token := by
  unfold releases at h
  rw [Bool.and_eq_true] at h
  obtain ⟨haway, h⟩ := h
  cases hinfo : st.reconnectTokens.lookup token with
  | none => simp [hinfo] at h
  | some info =>
    cases hroom : st.rooms.lookup info.roomId with
    | none => simp [hinfo, hroom] at h
    | some room =>
      have hplays : st.playerRooms.lookup info.sid = some info.roomId := by
        simpa [hinfo, hroom] using (show _ ∧ _ by simpa [hinfo, hroom] using h).2
      refine ⟨by simpa [Server.presence] using haway, info.roomId, info.sid, ?_, ?_⟩
      · simp [Server.presence, hinfo]
      · simp [Presence.placed, Server.presence, hplays, hroom]

/-- The connection that holds a token is released if it sits in the room of the token. -/
theorem does_rejoinRelease (ha : st.Archive) (token : Token) :
    Does K C st (st.rejoinRelease token)
      (if st.releases token then st.presence.release token else st.presence) := by
  unfold rejoinRelease releases releaseLiveSession
  cases haway : st.disconnectedPlayers.lookup token with
  | some info => simpa using Does.refl st
  | none =>
    cases hinfo : st.reconnectTokens.lookup token with
    | none => simpa using Does.refl st
    | some info =>
      cases hroom : st.rooms.lookup info.roomId with
      | none => simpa [hroom] using Does.refl st
      | some room =>
        by_cases hfin : room.game.finished = true
        · simpa [hroom, hfin] using Does.refl st
        by_cases hplays : st.playerRooms.lookup info.sid = some info.roomId
        · have hholder : st.presence.holder token = some (info.roomId, info.sid) := by
            simp [Server.presence, hinfo]
          have hsid : isSid info.sid = true := ha.named.holder token _ _ hholder
          simp only [hroom, hfin, hplays, Presence.release, hholder]
          simp only [Option.isNone_none, Option.isSome_some, and_self, if_true,
            Bool.false_eq_true, ne_eq, not_true_eq_false, or_self, if_false, Bool.not_false,
            decide_true, Bool.and_self]
          have hflag : Does K C st (st.modifyGame info.roomId fun g => (g.markDisconnected info.sid).1)
              (st.presence.modifyHall info.roomId (Hall.flag info.sid)) :=
            .of_moved (.modifyGame fun room _ => .flag room (isBotId_of_isSid hsid))
              (st.presence_flag info.roomId info.sid)
          refine (hflag.exitRoom info.sid).moved (.tables rfl rfl rfl fun hn =>
            named_markDisconnected hsid _ _ _ hn) ?_
          rw [presence_markDisconnected, (hflag.exitRoom info.sid).presence]
        · simpa [hroom, hplays] using Does.refl st

theorem Moved.completeRejoin (st : Server) (token : Token) {sid : String} (hsid : isSid sid = true) :
    Moved st (st.completeRejoin token sid) := by
  cases hinfo : st.disconnectedPlayers.lookup token with
  | none =>
    rw [show st.completeRejoin token sid = st by simp only [Server.completeRejoin, hinfo]]
    exact .tables rfl rfl rfl id
  | some info =>
    refine .tables ?_ ?_ ?_ fun hn => ?_
    · simp only [Server.completeRejoin, hinfo]
    · simp only [Server.completeRejoin, hinfo]
    · simp only [Server.completeRejoin, hinfo]
    · rw [presence_completeRejoin _ hinfo]
      refine ⟨fun t r s ht => ?_, fun t a ha => hn.away t a ?_⟩
      · by_cases htoken : t = token
        · simp only [Presence.complete, htoken, Function.update_self, Option.map_eq_some_iff] at ht
          obtain ⟨e, -, he⟩ := ht
          cases he
          exact hsid
        · simp only [Presence.complete, Function.update_of_ne htoken] at ht
          exact hn.holder t r s ht
      · exact some_of_ite (c := t = token) (by rwa [← Function.update_apply])

theorem Does.completeRejoin (h : Does K C st st₁ p) {token : Token} {info : DisconnectedInfo}
    (hinfo : st₁.disconnectedPlayers.lookup token = some info) {sid : String}
    (hsid : isSid sid = true) :
    Does K C st (st₁.completeRejoin token sid)
      (p.complete token ⟨info.roomId, info.sid, info.seq⟩ sid) :=
  h.moved (.completeRejoin st₁ token hsid) (by rw [presence_completeRejoin _ hinfo, h.presence])

/-- Where a player who comes back sits. -/
def Presence.returned (p : Presence) (sid : String) (token : Token) (a : Absence)
    (auth : AuthInfo) : Presence :=
  ((((p.modifyHall a.roomId (Hall.reseat a.sid sid)).complete token a sid).enter sid
    a.roomId).setAccount a.sid none).setAccount sid (some auth)

theorem does_takeSeatBack (ha : st.Archive) {sid : String} (hsid : isSid sid = true) {token : Token}
    {info : DisconnectedInfo} (hinfo : st.disconnectedPlayers.lookup token = some info)
    (auth : AuthInfo) {room : Room} (hroom : st.rooms.lookup info.roomId = some room)
    (hC : ∀ f, (st.presence.returned sid token ⟨info.roomId, info.sid, info.seq⟩ auth).Credits f →
      C f) :
    Does K C st
      (st.takeSeatBack sid token info auth room (room.game.replacePlayerSid info.sid sid).1)
      (st.presence.returned sid token ⟨info.roomId, info.sid, info.seq⟩ auth) := by
  have haway : st.presence.away token = some ⟨info.roomId, info.sid, info.seq⟩ := by
    simp [Server.presence, hinfo]
  have hold : isSid info.sid = true := ha.named.away token _ haway
  have hreseat := Room.Moved.reseat room (isBotId_of_isSid hold) (isBotId_of_isSid hsid)
  have hseat : Does K C st { st with rooms := st.rooms.insert info.roomId { room with
      game := (room.game.replacePlayerSid info.sid sid).1
      owner := if (room.owner == some info.sid || room.ownerToken == some token) = true
        then some sid else room.owner
      ownerToken := if (room.owner == some info.sid || room.ownerToken == some token) = true
        then some token else room.ownerToken } }
      (st.presence.modifyHall info.roomId (Hall.reseat info.sid sid)) := by
    refine does_insert hroom ?_ ?_
    · exact ⟨hreseat.started, hreseat.starts, hreseat.puzzle, hreseat.finished, hreseat.proper,
        hreseat.human, rfl, rfl, rfl, rfl, rfl⟩
    · simp only [Room.hall, Hall.reseat, Game.seats_replacePlayerSid]
  have hback := hseat.completeRejoin hinfo hsid
  have hentered := hback.enterRoom sid info.roomId
  have hleft :=
    hentered.setAccount info.sid none st.playerNames (st.playerAuth.erase info.sid) fun s => by
      simp only [Server.enterRoom, Server.completeRejoin, hinfo]
      exact Table.lookup_erase ..
  have hnamed := hleft.setAccount sid (some auth) (st.playerNames.insert sid info.playerName)
    ((st.playerAuth.erase info.sid).insert sid auth) fun s => Table.lookup_insert ..
  have hend := hnamed.tail ha ((tail_emitAllStates _ info.roomId).trans
    (tail_scheduleBotTurn _ info.roomId)) hC
  unfold takeSeatBack
  simp only [Server.enterRoom, Server.completeRejoin, hinfo] at hend ⊢
  exact hend

theorem seat_of_replacePlayerSid {g : Game} {old new : String}
    (h : (g.replacePlayerSid old new).2 = true) : ∃ x ∈ g.seats, x.id = old := by
  unfold Game.replacePlayerSid at h
  cases hseat : g.seatOf old with
  | none => simp [hseat] at h
  | some idx =>
    obtain ⟨hlt, hid, -⟩ := List.findIdx?_eq_some_iff_getElem.mp hseat
    exact ⟨_, List.mem_map_of_mem (List.getElem_mem hlt), by simpa [Player.seat] using hid⟩

theorem presence_voided (st : Server) (token : Token) :
    ({ st with
      disconnectedPlayers := st.disconnectedPlayers.erase token
      reconnectTokens := st.reconnectTokens.erase token } : Server).presence =
      st.presence.act (.voided token) := by
  refine Presence.ext rfl rfl ?_ rfl ?_ rfl rfl rfl rfl rfl
  · funext t
    by_cases ht : t = token <;> simp [Server.presence, Presence.act, Table.lookup_erase, ht]
  · funext t
    by_cases ht : t = token <;> simp [Server.presence, Presence.act, Table.lookup_erase, ht]

/-- The room of a token that is released exists. -/
theorem Presence.Releasable.halls {p : Presence} {token : Token} (h : p.Releasable token)
    {a : Absence} (haway : (p.release token).away token = some a) :
    ((p.release token).halls a.roomId).isSome = true := by
  obtain ⟨-, r, s, hholder, hplaced⟩ := h
  have hroom := (Option.filter_eq_some_iff.mp hplaced).2
  simp only [Presence.release, hholder, Presence.note, Function.update_self,
    Option.some.injEq] at haway ⊢
  subst haway
  simpa [Presence.exit, Presence.modifyHall] using hroom

theorem acts_rejoinRoom (ha : st.Archive) {sid : String} (hopen : sid ∉ st.closed)
    (hsid : isSid sid = true) (token : Token) (banned : Bool) :
    Acts K st (st.rejoinRoom sid token banned) (st.rejoinDeed sid token banned) := by
  have hrel : ∀ C, Does K C st (st.rejoinRelease token)
      (if st.releases token then st.presence.release token else st.presence) :=
    fun C => does_rejoinRelease ha token
  have hreleasable : st.releases token = true → st.presence.Releasable token :=
    fun h => releasable_of_releases h
  have hidle : Acts K st (st.rejoinRelease token)
      (if st.releases token then .released token else .nothing) := by
    cases hcase : st.releases token with
    | true => exact ⟨by simpa [hcase, Presence.act] using hrel _, hreleasable hcase⟩
    | false => exact ⟨by simpa [hcase, Presence.act] using hrel _, trivial⟩
  unfold rejoinRoom rejoinDeed
  dsimp only
  generalize st.releases token = releases at hrel hreleasable hidle ⊢
  generalize st.rejoinRelease token = st₁ at hrel hidle ⊢
  have hp := (hrel fun _ => False).presence
  have ha₁ := (hrel fun _ => False).archive ha
  cases hinfo : st₁.disconnectedPlayers.lookup token with
  | none => exact hidle
  | some info =>
    have haway : st₁.presence.away token = some ⟨info.roomId, info.sid, info.seq⟩ := by
      simp [Server.presence, hinfo]
    cases hentry : st₁.reconnectTokens.lookup token with
    | none => exact hidle
    | some entry =>
      by_cases hban : banned = true ∧ (entry.authInfo.bind AuthInfo.registeredId).isSome = true
      · simp only [if_pos hban]
        exact hidle
      simp only [if_neg hban]
      cases hroom : st₁.rooms.lookup info.roomId with
      | none =>
        -- a connection that is released has a room
        have hfree : releases = false := by
          cases releases with
          | false => rfl
          | true =>
            have hhall := (hreleasable rfl).halls (by simpa [hp] using haway)
            rw [if_pos rfl] at hp
            rw [← hp, hall_of_lookup_none hroom] at hhall
            cases hhall
        subst hfree
        simp only [Bool.false_eq_true, if_false] at hp
        refine ⟨(hrel _).moved (.tables rfl rfl rfl fun hn => ?_) ?_, ?_⟩
        · rw [presence_voided]
          exact hn.of_sub
            (fun t e he => some_of_ite (c := t = token) (by rwa [← Function.update_apply]))
            fun t a ha => some_of_ite (c := t = token) (by rwa [← Function.update_apply])
        · rw [presence_voided, hp]
        · exact ⟨_, hp ▸ haway, hp ▸ hall_of_lookup_none hroom⟩
      | some room =>
        dsimp only
        cases hreplace : room.game.replacePlayerSid info.sid sid with
        | mk game found =>
          cases found with
          | false => simpa using hidle
          | true =>
            simp only [if_true]
            have hgame : game = (room.game.replacePlayerSid info.sid sid).1 := by rw [hreplace]
            have hback : st.presence.act
                (.cameBack sid token (entry.authInfo.getD AuthInfo.guest) releases) =
                st₁.presence.returned sid token ⟨info.roomId, info.sid, info.seq⟩
                  (entry.authInfo.getD AuthInfo.guest) := by
              simp only [Presence.act, ← hp, haway]
              rfl
            refine ⟨?_, hopen, hsid, hreleasable, ?_⟩
            · rw [hback, hgame]
              exact (hp ▸ hrel _).trans (does_takeSeatBack ha₁ hsid hinfo _ hroom fun f hf =>
                ⟨_, by simp [Presence.stages], hback ▸ hf⟩)
            · rw [← hp]
              exact ⟨_, _, haway, hall_of_lookup hroom,
                seat_of_replacePlayerSid (by rw [hreplace])⟩

/-! ## Opening a room -/

theorem generateReconnectToken_snd (st : Server) (sid : String) (roomId : RoomId) (name : String)
    (auth : Option AuthInfo) :
    (st.generateReconnectToken sid roomId name auth).2 = st.tokenFor auth := by
  unfold generateReconnectToken tokenFor
  cases auth.bind AuthInfo.registeredId <;> rfl

/-- A new token leaves the rooms and the database alone. -/
theorem generateReconnectToken_rest (st : Server) (sid : String) (roomId : RoomId) (name : String)
    (auth : Option AuthInfo) :
    (st.generateReconnectToken sid roomId name auth).1.rooms = st.rooms ∧
      (st.generateReconnectToken sid roomId name auth).1.db = st.db ∧
      (st.generateReconnectToken sid roomId name auth).1.roomSeq = st.roomSeq := by
  unfold generateReconnectToken
  cases auth.bind AuthInfo.registeredId <;> dsimp only <;> split <;> exact ⟨rfl, rfl, rfl⟩

theorem Presence.Named.grant {p : Presence} (h : p.Named) (token : Token) {sid : String}
    (hsid : isSid sid = true) (roomId : RoomId) : (p.grant token sid roomId).Named := by
  refine ⟨fun t r s ht => ?_, fun t a ha => h.away t a (some_of_ite ha)⟩
  by_cases htoken : t = token
  · rw [Presence.grant, htoken] at ht
    simp only [Function.update_self, Option.some.injEq, Prod.mk.injEq] at ht
    exact ht.2 ▸ hsid
  · rw [Presence.grant] at ht
    simp only [Function.update_of_ne htoken] at ht
    exact h.holder t r s ht

theorem Does.generateReconnectToken (h : Does K C st st₁ p) {sid : String} (hsid : isSid sid = true)
    (roomId : RoomId) (name : String) (auth : Option AuthInfo) :
    Does K C st (st₁.generateReconnectToken sid roomId name auth).1
      (p.grant (st₁.tokenFor auth) sid roomId) := by
  have hp : (st₁.generateReconnectToken sid roomId name auth).1.presence =
      st₁.presence.grant (st₁.tokenFor auth) sid roomId := by
    rw [presence_generateReconnectToken, generateReconnectToken_snd]
  obtain ⟨hrooms, hdb, hseq⟩ := generateReconnectToken_rest st₁ sid roomId name auth
  exact h.moved (.tables hrooms hdb hseq fun hn => hp ▸ hn.grant _ hsid roomId)
    (hp.trans (by rw [h.presence]))

theorem openedDeed_eq {sid : String} (hall : Hall)
    (h : st'.presence.halls st.roomSeq = some hall) :
    st.openedDeed st' sid = .opened sid (st.tokenFor (st.playerAuth.lookup sid)) hall := by
  obtain ⟨room, hroom, rfl⟩ := Option.map_eq_some_iff.mp h
  simp only [openedDeed, hroom]

theorem openedDeed_self (ha : st.Archive) (sid : String) : st.openedDeed st sid = .nothing := by
  have hfree : st.rooms.lookup st.roomSeq = none := by
    cases hroom : st.rooms.lookup st.roomSeq with
    | none => rfl
    | some room => exact absurd (ha.roomIds _ room hroom) (lt_irrefl _)
  simp only [openedDeed, hfree]

theorem acts_unopened (ha : st.Archive) (sid : String) :
    Acts K st st (st.openedDeed st sid) := by
  rw [openedDeed_self ha]
  exact acts_refl st

theorem acts_openRoom (ha : st.Archive) {sid : String} (hsid : isSid sid = true)
    (hfree : st.presence.placed sid = none) (name : String) {room : Token → Room}
    (ho : ∀ token, Opens st.db (room token))
    (hseats : ∀ token, ∃ name seats,
      (room token).hall.seats = ⟨sid, name, false, false⟩ :: seats ∧
        ∀ x ∈ seats, isSid x.id = false ∧ (x.isBot = true ∨ x.disconnected = true)) :
    Acts K st (st.openRoom sid name room) (st.openedDeed (st.openRoom sid name room) sid) := by
  have hgrant : ∀ C, Does K C st
      (st.generateReconnectToken sid st.roomSeq name (st.playerAuth.lookup sid)).1
      (st.presence.grant (st.tokenFor (st.playerAuth.lookup sid)) sid st.roomSeq) := fun C =>
    (Does.refl st).generateReconnectToken hsid st.roomSeq name (st.playerAuth.lookup sid)
  obtain ⟨hrooms, hdb, hseq⟩ :=
    generateReconnectToken_rest st sid st.roomSeq name (st.playerAuth.lookup sid)
  unfold openRoom
  dsimp only
  rw [generateReconnectToken_snd]
  generalize htoken : st.tokenFor (st.playerAuth.lookup sid) = token at hgrant
  generalize (st.generateReconnectToken sid st.roomSeq name (st.playerAuth.lookup sid)).1 = st₁
    at hgrant hrooms hdb hseq
  have hadd : ∀ C, Does K C st ((st₁.addRoom (room token)).enterRoom sid st.roomSeq)
      (st.presence.act (.opened sid token (room token).hall)) := by
    intro C
    have hnew : Does K C st (st₁.addRoom (room token))
        { st.presence.grant token sid st.roomSeq with
          halls := update st.presence.halls st.roomSeq (some (room token).hall)
          fresh := st.roomSeq + 1 } := by
      refine (hgrant C).trans (.of_course (.single (.opened (hdb ▸ ho token))) rfl ?_)
      rw [← (hgrant C).presence]
      refine Presence.ext ?_ rfl rfl rfl rfl rfl rfl ?_ rfl rfl
      · funext r
        by_cases hr : r = st.roomSeq <;>
          simp [Server.presence, addRoom, hseq, hrooms, Table.lookup_insert, hr]
      · change st₁.roomSeq + 1 = _
        rw [hseq]
    exact hnew.enterRoom sid st.roomSeq
  generalize (st₁.addRoom (room token)).enterRoom sid st.roomSeq = st₂ at hadd
  have htail := tail_emitAllStates st₂ st.roomSeq
  have ha₂ := (hadd fun _ => False).archive ha
  rw [openedDeed_eq (room token).hall, htoken]
  · exact ⟨(hadd _).tail ha htail fun f hf => ⟨_, by simp [Presence.stages], hf⟩, hsid, hfree,
      hseats token⟩
  · rw [htail.presence ha₂, (hadd fun _ => False).presence]
    exact Function.update_self ..

/-! ## New games -/

theorem isBotId_botId (g : Game) (seq : ℕ) : isBotId (g.botId seq) = true := by
  rw [isBotId, List.isPrefixOf_iff_prefix, Game.botId]
  simp only [toString, String.toList_append, List.append_assoc]
  exact List.prefix_append _ _

theorem isSid_of_isBotId {id : String} (h : isBotId id = true) : isSid id = false := by
  rw [isSid, show "bot-".toList.isPrefixOf id.toList = true from h]
  rfl

/-- A robot has a seat of its own. -/
theorem seats_addBots (g : Game) (levels : List Difficulty) :
    (addBots g levels).started = g.started ∧ (addBots g levels).puzzle = g.puzzle ∧
      ∃ bots, (addBots g levels).seats = g.seats ++ bots ∧
        ∀ x ∈ bots, x.isBot = true ∧ isBotId x.id = true ∧ x.disconnected = false := by
  induction levels generalizing g with
  | nil => exact ⟨rfl, rfl, [], by simp [addBots], by simp⟩
  | cons level levels ih =>
    obtain ⟨hstarted, hpuzzle, bots, hseats, hbots⟩ := ih (g.addBot (botName g level) level.toJson).1
    have hone : (g.addBot (botName g level) level.toJson).1.started = g.started ∧
        (g.addBot (botName g level) level.toJson).1.puzzle = g.puzzle ∧
        ∃ bots, (g.addBot (botName g level) level.toJson).1.seats = g.seats ++ bots ∧
          ∀ x ∈ bots, x.isBot = true ∧ isBotId x.id = true ∧ x.disconnected = false := by
      unfold Game.addBot
      split_ifs
      · exact ⟨rfl, rfl, [], by simp, by simp⟩
      · exact ⟨rfl, rfl, [], by simp, by simp⟩
      · refine ⟨rfl, rfl, [_], by simp [Game.seats]; rfl, ?_⟩
        intro x hx
        obtain rfl := List.mem_singleton.mp hx
        exact ⟨rfl, isBotId_botId g _, rfl⟩
    obtain ⟨hstarted', hpuzzle', bot, hseats', hbot⟩ := hone
    refine ⟨hstarted.trans hstarted', hpuzzle.trans hpuzzle', bot ++ bots, ?_, ?_⟩
    · rw [addBots, hseats, hseats', List.append_assoc]
    · intro x hx
      rcases List.mem_append.mp hx with hx | hx
      · exact hbot x hx
      · exact hbots x hx

/-- The first player of a game. -/
theorem addPlayer_first {g : Game} (hg : g.players = []) (hstarted : g.started = false)
    (hpuzzle : g.puzzle = none) (sid name : String) :
    (g.addPlayer sid name).1.seats = [⟨sid, name, false, false⟩] ∧
      (g.addPlayer sid name).1.started = false ∧ (g.addPlayer sid name).1.puzzle = none := by
  have hadd : (g.addPlayer sid name).1 = { g with players := [Player.new sid name] } := by
    simp [Game.addPlayer, hg, hstarted]
  rw [hadd]
  exact ⟨rfl, hstarted, hpuzzle⟩

/-- The seats of a room that a connection opens: its own, and others that nobody can leave. -/
structure FirstSeat (sid : String) (seats : List Seat) (human : Bool) : Prop where
  seat : ∃ name rest, seats = ⟨sid, name, false, false⟩ :: rest ∧ ∀ x ∈ rest, x.Proper ∧
    isSid x.id = false ∧ (x.isBot = true ∧ human = false ∨ x.isBot = false ∧ x.disconnected = true)

theorem Opens.new {db : Db} {room : Room} {sid : String} {human : Bool} (hsid : isSid sid = true)
    (hseats : FirstSeat sid room.game.seats human)
    (hhuman : room.isAsync = true ∨ room.game.puzzle.isSome = true → human = true)
    (horigin : room.origin = none) (hsaved : room.resultSaved = false)
    (hlobby : ∀ save, room.restoreSaveData = some save →
      Lobby db room save ∧ save ∈ db.games ∧ save.status = .active) : Opens db room where
  sound := by
    obtain ⟨name, rest, hseats, hrest⟩ := hseats.seat
    refine ⟨fun x hx => ?_, fun h x hx => ?_, fun h => ?_, fun _ => horigin⟩
    · rw [Room.hall, hseats] at hx
      rcases List.mem_cons.mp hx with rfl | hx
      · exact ⟨(isBotId_of_isSid hsid).symm, by simp⟩
      · exact (hrest x hx).1
    · rw [Room.hall, hseats] at hx
      rcases List.mem_cons.mp hx with rfl | hx
      · rfl
      · obtain ⟨-, -, ⟨-, hno⟩ | ⟨hbot, -⟩⟩ := hrest x hx
        · rw [hhuman h] at hno
          cases hno
        · exact hbot
    · rw [hsaved] at h
      cases h
  origin := horigin
  resultSaved := hsaved
  lobby := fun save hsave => (hlobby save hsave).1
  active := fun save hsave => (hlobby save hsave).2

theorem acts_opened (human : Bool) (ha : st.Archive) {sid : String} (hsid : isSid sid = true)
    (hfree : ¬ (st.roomForPlayer sid).isSome = true) (name : String) {room : Token → Room}
    (hseats : ∀ token, FirstSeat sid (room token).game.seats human)
    (hhuman : ∀ token, (room token).isAsync = true ∨ (room token).game.puzzle.isSome = true →
      human = true)
    (horigin : ∀ token, (room token).origin = none)
    (hsaved : ∀ token, (room token).resultSaved = false)
    (hlobby : ∀ token save, (room token).restoreSaveData = some save →
      Lobby st.db (room token) save ∧ save ∈ st.db.games ∧ save.status = .active) :
    Acts K st (st.openRoom sid name room) (st.openedDeed (st.openRoom sid name room) sid) := by
  refine acts_openRoom ha hsid (placed_of_roomForPlayer_none (by simpa using hfree)) name
    (fun token => .new hsid (hseats token) (hhuman token) (horigin token) (hsaved token)
      (hlobby token)) fun token => ?_
  obtain ⟨name, rest, heq, hrest⟩ := (hseats token).seat
  refine ⟨name, rest, heq, fun x hx => ⟨(hrest x hx).2.1, ?_⟩⟩
  exact (hrest x hx).2.2.imp And.left And.right

theorem acts_createRoom (ha : st.Archive) (env : Env) {sid : String} (hsid : isSid sid = true)
    (o : RoomOptions) :
    Acts K st (st.createRoom env sid o) (st.openedDeed (st.createRoom env sid o) sid) := by
  unfold createRoom
  split
  · exact acts_unopened ha sid
  · rename_i hfree
    have hplaced : st.presence.placed sid = none :=
      placed_of_roomForPlayer_none (by simpa using hfree)
    dsimp only
    generalize (st.playerNames.lookup sid).getD anonymous = name
    obtain ⟨hfirst, -, hnone⟩ := addPlayer_first (g := Game.new env (toString st.roomSeq)
      o.challengeMode (if o.turnTimeLimit ∈ allowedTurnTimeLimits then o.turnTimeLimit else 0)
      o.hintLimit) rfl rfl rfl sid name
    generalize ((Game.new env _ _ _ _).addPlayer sid name).1 = game at hfirst hnone
    generalize List.take _ (List.take maxBots o.levels) = levels
    obtain ⟨-, hpuzzle, bots, hseats, hbots⟩ := seats_addBots game levels
    rw [hfirst] at hseats
    rw [hnone] at hpuzzle
    refine acts_opened false ha hsid hfree _ (fun token => ⟨name, bots, hseats, ?_⟩)
      (fun token h => ?_) (fun _ => rfl) (fun _ => rfl) fun _ save hsave => by cases hsave
    · intro x hx
      obtain ⟨hbot, hid, hon⟩ := hbots x hx
      exact ⟨⟨hbot.trans hid.symm, fun _ => hon⟩, isSid_of_isBotId hid, .inl ⟨hbot, rfl⟩⟩
    · rcases h with h | h
      · cases h
      · simp [Room.new, hpuzzle] at h

theorem FirstSeat.alone (sid name : String) : FirstSeat sid [⟨sid, name, false, false⟩] true :=
  ⟨name, [], rfl, by simp⟩

/-- A save that can be restored is active, and no correspondence game. -/
theorem restorable_cases {sid : String} {gameId : ℕ} {row : SavedGame}
    (h : st.restorable sid gameId = some row) :
    st.roomForPlayer sid = none ∧ row ∈ st.db.games ∧ row.status = .active ∧
      row.isAsync = false := by
  unfold restorable at h
  split at h
  · cases h
  rename_i hfree
  split at h
  · cases h
  split at h
  · cases h
  rename_i row' hrow
  dsimp only at h
  split_ifs at h with h₁ h₂ h₃
  cases h
  simp only [ne_eq, Bool.or_eq_true, decide_eq_true_eq, Bool.not_eq_eq_eq_not, not_or,
    Decidable.not_not, Bool.not_eq_true] at h₁
  exact ⟨by simpa using hfree, List.mem_of_find?_eq_some hrow, h₁.1.1, h₁.1.2⟩

theorem acts_restoreGame (ha : st.Archive) (env : Env) {sid : String} (hsid : isSid sid = true)
    (gameId : ℕ) :
    Acts K st (st.restoreGame env sid gameId)
      (st.openedDeed (st.restoreGame env sid gameId) sid) := by
  unfold restoreGame
  cases hrow : st.restorable sid gameId with
  | none => exact acts_unopened ha sid
  | some row =>
    obtain ⟨hfree, hmem, hactive, hasync⟩ := restorable_cases hrow
    dsimp only
    generalize (st.playerNames.lookup sid).getD anonymous = name
    obtain ⟨hfirst, hwait, -⟩ := addPlayer_first (g := Game.new env (toString st.roomSeq)
      (((row.stateJson.get? "challenge_mode").map truthy).getD false) 0
      (((row.stateJson.get? "hint_limit").bind pyInt).getD defaultHintLimit)) rfl rfl rfl sid name
    generalize ((Game.new env _ _ _ _).addPlayer sid name).1 = game at hfirst hwait
    refine acts_opened true ha hsid (by simp [hfree]) _
      (fun _ => hfirst ▸ FirstSeat.alone sid name) (fun _ _ => rfl) (fun _ => rfl) (fun _ => rfl)
      fun _ save hsave => ?_
    obtain rfl : row = save := by simpa [Room.new] using hsave
    refine ⟨⟨hwait, rfl, fun x hx => ?_, hasync, ha.saves row hmem hactive, row, hmem, rfl, rfl⟩,
      hmem, hactive⟩
    rw [show Room.hall _ = ⟨game.seats, false, _⟩ from rfl, hfirst] at hx
    obtain rfl := List.mem_singleton.mp hx
    rfl

theorem seats_resetGame (g : Game) (puzzle : DailyPuzzle) : (resetGame g puzzle).seats = g.seats :=
  @Game.seats_modify g 0 (fun p => { p with hand := puzzle.rack, score := 0 }) _ rfl fun _ => rfl

theorem acts_startDaily (ha : st.Archive) (env : Env) {sid : String} (hsid : isSid sid = true)
    (puzzle : DailyPuzzle) :
    Acts K st (st.startDaily env sid puzzle) (st.openedDeed (st.startDaily env sid puzzle) sid) := by
  unfold startDaily
  split
  · exact acts_unopened ha sid
  rename_i hfree
  dsimp only
  generalize (st.playerNames.lookup sid).getD anonymous = name
  refine acts_opened true ha hsid hfree _ (fun token => ?_) (fun _ _ => rfl)
    (fun _ => rfl) (fun _ => rfl) fun _ save hsave => by cases hsave
  have hseats : (puzzleGame env (toString st.roomSeq) sid name puzzle).seats =
      [⟨sid, name, false, false⟩] := by
    rw [puzzleGame, seats_resetGame, Game.seats_start]
    exact (addPlayer_first rfl rfl rfl sid name).1
  change FirstSeat sid (puzzleGame env (toString st.roomSeq) sid name puzzle).seats true
  rw [hseats]
  exact .alone sid name

/-! ## Correspondence games -/

theorem isSid_placeholderId (roomId : RoomId) (userId : UserId) :
    isSid (placeholderId roomId userId) = false := by
  have h : "async-".toList.isPrefixOf (placeholderId roomId userId).toList = true := by
    rw [List.isPrefixOf_iff_prefix, placeholderId]
    simp only [toString, String.toList_append, List.append_assoc]
    exact List.prefix_append _ _
  rw [isSid, h]
  exact Bool.and_false _

theorem isBotId_placeholderId (roomId : RoomId) (userId : UserId) :
    isBotId (placeholderId roomId userId) = false := by
  rw [isBotId, placeholderId]
  simp only [toString, String.toList_append, List.append_assoc]
  rfl

theorem modify_append_last {α : Type*} (l : List α) (a : α) (f : α → α) :
    (l ++ [a]).modify ((l ++ [a]).length - 1) f = l ++ [f a] := by
  rw [show (l ++ [a]).length - 1 = l.length by simp]
  induction l with
  | nil => rfl
  | cons b l ih => rw [List.cons_append, List.length_cons, List.modify_succ_cons, ih, List.cons_append]

/-- The invited players have a seat each behind the one who invites them. -/
def Invites (x : Seat) (game : Game) : Prop :=
  game.started = false ∧ game.puzzle = none ∧ ∃ (p : Player) (rest : List Player),
    game.players = p :: rest ∧ p.seat = x ∧ ∀ q ∈ rest, q.seat.Proper ∧ isSid q.id = false ∧
      q.isBot = false ∧ q.disconnected = true

theorem Invites.invite {x : Seat} (hx : isSid x.id = true) {game : Game} (h : Invites x game)
    {id : String} (hid : isSid id = false) (hbot : isBotId id = false) (name : String) :
    Invites x { (game.addPlayer id name).1 with
      players := (game.addPlayer id name).1.players.modify
        ((game.addPlayer id name).1.players.length - 1)
        fun p => { p with disconnected := true } } := by
  obtain ⟨hstarted, hpuzzle, p, rest, hplayers, hp, hrest⟩ := h
  -- a player who cannot be added leaves others behind the first
  have hkeep : rest ≠ [] → Invites x { game with
      players := game.players.modify (game.players.length - 1) fun p =>
        { p with disconnected := true } } := by
    intro hne
    obtain ⟨n, hn⟩ := Nat.exists_eq_succ_of_ne_zero (List.length_pos_iff.mpr hne).ne'
    refine ⟨hstarted, hpuzzle, p, rest.modify n fun p => { p with disconnected := true }, ?_, hp, ?_⟩
    · change game.players.modify (game.players.length - 1) _ = _
      rw [hplayers, List.length_cons, hn]
      rfl
    · intro q hq
      obtain hq | ⟨q', hq', -, rfl⟩ := Lists.mem_modify hq
      · exact hrest q hq
      · obtain ⟨hproper, hsid, hno, -⟩ := hrest q' hq'
        exact ⟨⟨hproper.bot, fun hb => absurd (hno.symm.trans hb) (by simp)⟩, hsid, hno, rfl⟩
  unfold Game.addPlayer
  split_ifs with h₁ h₂ h₃
  · refine hkeep fun hnil => ?_
    rw [hplayers, hnil] at h₁
    have hpid : p.id = id := by simpa using h₁
    rw [← hpid, show p.id = x.id from congrArg Seat.id hp, hx] at hid
    cases hid
  · refine hkeep fun hnil => ?_
    rw [hplayers, hnil] at h₂
    simp at h₂
  · exact absurd h₃ (by simp [hstarted])
  · refine ⟨hstarted, hpuzzle, p, rest ++ [{ Player.new id name with disconnected := true }], ?_,
      hp, ?_⟩
    · rw [hplayers]
      exact modify_append_last (p :: rest) (Player.new id name) _
    · intro q hq
      rcases List.mem_append.mp hq with hq | hq
      · exact hrest q hq
      · obtain rfl := List.mem_singleton.mp hq
        exact ⟨⟨hbot.symm, fun hb => by cases hb⟩, hid, rfl, rfl⟩

theorem Invites.inviteFriends {x : Seat} {game : Game} (h : Invites x game)
    (hx : isSid x.id = true) (roomId : RoomId) (known : List (String × Option UserId))
    (friends : List (UserId × String)) :
    Invites x (inviteFriends roomId game known friends).1 := by
  induction friends generalizing game known with
  | nil => exact h
  | cons friend friends ih =>
    exact ih (h.invite hx (isSid_placeholderId roomId friend.1)
      (isBotId_placeholderId roomId friend.1) _) _

theorem invites_newAsync (env : Env) (gameId : String) (turnHours : ℤ) (sid name : String) :
    Invites ⟨sid, name, false, false⟩
      ((Game.newAsync env gameId turnHours).addPlayer sid name).1 := by
  have hadd : ((Game.newAsync env gameId turnHours).addPlayer sid name).1 =
      { Game.newAsync env gameId turnHours with players := [Player.new sid name] } := by
    simp [Game.addPlayer, Game.newAsync, Game.new]
  rw [hadd]
  exact ⟨rfl, rfl, Player.new sid name, [], rfl, rfl, by simp⟩

theorem seats_startAsync (env : Env) (g : Game) (starter : ℕ) :
    (g.startAsync env starter).seats = g.seats := by
  have h := Game.seats_start env g
  unfold Game.startAsync
  split
  · rename_i g' e hstart
    rw [hstart] at h
    exact h
  · rename_i g' t hstart
    rw [hstart] at h
    split_ifs
    · exact h
    · exact h

theorem acts_createAsyncGame (ha : st.Archive) (env : Env) {sid : String} (hsid : isSid sid = true)
    (friends : List (UserId × String)) (turnHours : ℤ) (starter : ℕ) :
    Acts K st (st.createAsyncGame env sid friends turnHours starter)
      (st.openedDeed (st.createAsyncGame env sid friends turnHours starter) sid) := by
  obtain heq | ⟨userId, -, hfree, heq⟩ :=
    createAsyncGame_cases st env sid friends turnHours starter <;> rw [heq]
  · exact acts_unopened ha sid
  · unfold asyncOpened
    dsimp only
    generalize (st.playerNames.lookup sid).getD anonymous = name
    have hall := (invites_newAsync env (toString st.roomSeq) turnHours sid name).inviteFriends hsid
      st.roomSeq [(name, some userId)] friends
    generalize inviteFriends st.roomSeq _ [(name, some userId)] friends = invited at hall
    obtain ⟨-, -, p, rest, hplayers, hp, hrest⟩ := hall
    refine acts_opened true ha hsid hfree _
      (fun _ => ⟨name, rest.map Player.seat, ?_, fun x hx => ?_⟩) (fun _ _ => rfl) (fun _ => rfl)
      (fun _ => rfl) fun _ save hsave => by cases hsave
    · rw [← hp, ← List.map_cons, ← hplayers]
      exact seats_startAsync env _ _
    · obtain ⟨q, hq, rfl⟩ := List.mem_map.mp hx
      obtain ⟨hproper, hid, hno, hoff⟩ := hrest q hq
      exact ⟨hproper, hid, .inr ⟨hno, hoff⟩⟩

/-! ## Joining a room -/

theorem does_modifyRoom {roomId : RoomId} {f : Room → Room} {F : Hall → Hall}
    (hm : ∀ room, st.rooms.lookup roomId = some room →
      Room.Moved room (f room) ∧ (f room).hall = F room.hall) :
    Does K C st (st.modifyRoom roomId f) (st.presence.modifyHall roomId F) := by
  refine .of_moved ⟨rel_modifyRoom fun room hroom => (hm room hroom).1, ?_, ?_, named_modifyRoom⟩
    (st.presence_modifyRoom fun room hroom => (hm room hroom).2)
  · rw [modifyRoom_rest]
  · rw [modifyRoom_rest]

/-- A connection takes a seat in a room and gets a token for it. -/
theorem Does.seat (h : Does K C st st₁ p) (hseq : st₁.tokenSeq = st.tokenSeq) {sid : String}
    (hsid : isSid sid = true) (roomId : RoomId) (name : String) (auth : Option AuthInfo) :
    Does K C st
      ((st₁.enterRoom sid roomId).generateReconnectToken sid roomId name auth).1
      ((p.enter sid roomId).grant (st.tokenFor auth) sid roomId) := by
  have htoken : (st₁.enterRoom sid roomId).tokenFor auth = st.tokenFor auth := by
    simp only [tokenFor, Server.enterRoom, hseq]
  rw [← htoken]
  exact (h.enterRoom sid roomId).generateReconnectToken hsid roomId name auth

theorem tokenSeq_modifyRoom (st : Server) (roomId : RoomId) (f : Room → Room) :
    (st.modifyRoom roomId f).tokenSeq = st.tokenSeq := by
  rw [modifyRoom_rest]

/-- The free seat of a player is found under the name, and the account matches. -/
theorem lateSeat_cases {room : Room} {name : String} {auth : Option AuthInfo} {q : Player}
    (h : lateSeat room name auth = some q) :
    q ∈ room.game.players ∧ q.name = name ∧ q.disconnected = true ∧
      ∃ expected, room.lateJoinNames.lookup name = some expected ∧
        identityMatches expected auth = true := by
  unfold lateSeat at h
  split_ifs at h
  split at h
  · cases h
  · rename_i expected hexpected
    obtain ⟨hfind, hmatch⟩ := Option.filter_eq_some_iff.mp h
    have hq := List.find?_some hfind
    simp only [decide_eq_true_eq] at hq
    exact ⟨List.mem_of_find?_eq_some hfind, hq.1, hq.2, expected, hexpected, hmatch⟩

/-- A connection may join a room when it plays nowhere, and the room has a seat for it. -/
theorem joinOf_late {sid : String} {roomId : RoomId} {byCode : Bool} {oldId : String}
    (h : st.joinOf sid roomId byCode = .late oldId) :
    st.roomForPlayer sid = none ∧ ∃ room, st.rooms.lookup roomId = some room ∧
      ∃ q, lateSeat room ((st.playerNames.lookup sid).getD anonymous) (st.playerAuth.lookup sid) =
        some q ∧ q.id = oldId := by
  unfold joinOf at h
  dsimp only at h
  split at h
  · cases h
  rename_i hfree
  refine ⟨by simpa using hfree, ?_⟩
  split at h
  · cases h
  rename_i room hroom
  refine ⟨room, hroom, ?_⟩
  split_ifs at h
  split at h
  · rename_i q hq
    cases h
    exact ⟨q, hq, rfl⟩
  · cases h
  · split at h <;> cases h

theorem joinOf_seat {sid : String} {roomId : RoomId} {byCode : Bool}
    (h : st.joinOf sid roomId byCode = .seat) :
    st.roomForPlayer sid = none ∧ ∃ room, st.rooms.lookup roomId = some room ∧
      room.game.started = false ∧
      admits room ((st.playerNames.lookup sid).getD anonymous) (st.playerAuth.lookup sid) = true ∧
      (∀ q ∈ room.game.players, q.id ≠ sid) ∧
      (room.game.addPlayer sid ((st.playerNames.lookup sid).getD anonymous)).1 =
        { room.game with players := room.game.players ++
          [Player.new sid ((st.playerNames.lookup sid).getD anonymous)] } := by
  unfold joinOf at h
  dsimp only at h
  split at h
  · cases h
  rename_i hfree
  refine ⟨by simpa using hfree, ?_⟩
  split at h
  · cases h
  rename_i room hroom
  refine ⟨room, hroom, ?_⟩
  split_ifs at h with _ hadmits hwaits
  · split at h <;> cases h
  · generalize (st.playerNames.lookup sid).getD anonymous = name at h hadmits ⊢
    unfold Game.addPlayer at h ⊢
    split_ifs at h ⊢ with hid
    exact ⟨by simpa using hwaits, by simpa using hadmits, by simpa using hid, rfl⟩

theorem acts_joinRoom (ha : st.Archive) {sid : String} (hopen : sid ∉ st.closed)
    (hsid : isSid sid = true) (roomId : RoomId) (byCode : Bool) :
    Acts K st (st.joinRoom sid roomId byCode) (st.joinDeed sid roomId byCode) := by
  unfold joinRoom joinDeed
  cases hjoin : st.joinOf sid roomId byCode with
  | refused => exact acts_refl st
  | late oldId =>
    obtain ⟨hfree, room, hroom, q, hlate, rfl⟩ := joinOf_late hjoin
    obtain ⟨hq, -, hoff, -⟩ := lateSeat_cases hlate
    have hproper := (ha.rooms roomId room hroom).proper q.seat (List.mem_map_of_mem hq)
    have hbot : q.isBot = false := by
      cases hb : q.isBot with
      | false => rfl
      | true => exact absurd (hproper.present hb) (by simp [Player.seat, hoff])
    have hold : isBotId q.id = false := hproper.bot.symm.trans hbot
    refine ⟨?_, hopen, hsid, placed_of_roomForPlayer_none hfree, room.hall, hall_of_lookup hroom,
      ⟨q.seat, List.mem_map_of_mem hq, rfl, hbot, by simp [Player.seat, hoff]⟩, by simp⟩
    have hseat : ∀ C, Does K C st (st.modifyRoom roomId fun room => { room with
        game := (room.game.replacePlayerSid q.id sid).1
        lateJoinNames := room.lateJoinNames.erase ((st.playerNames.lookup sid).getD anonymous) })
        (st.presence.modifyHall roomId (Hall.reseat q.id sid)) := by
      refine fun C => does_modifyRoom fun room _ => ?_
      have hm := Room.Moved.reseat room hold (isBotId_of_isSid hsid)
      refine ⟨⟨hm.started, hm.starts, hm.puzzle, hm.finished, hm.proper, hm.human, rfl, rfl, rfl,
        rfl, rfl⟩, ?_⟩
      simp only [Room.hall, Hall.reseat, Game.seats_replacePlayerSid]
    have hjoined := fun C => (hseat C).seat (tokenSeq_modifyRoom ..) hsid roomId
      ((st.playerNames.lookup sid).getD anonymous) (st.playerAuth.lookup sid)
    exact (hjoined _).tail ha ((tail_emitAllStates _ roomId).trans (tail_scheduleBotTurn _ roomId))
      fun f hf => ⟨_, .tail _ (.head _), hf⟩
  | seat =>
    obtain ⟨hfree, room, hroom, -, -, hid, hadd⟩ := joinOf_seat hjoin
    refine ⟨?_, hopen, hsid, placed_of_roomForPlayer_none hfree, room.hall, hall_of_lookup hroom,
      fun x hx => ?_⟩
    · generalize (st.playerNames.lookup sid).getD anonymous = name at hadd ⊢
      have hseat : ∀ C, Does K C st (st.modifyGame roomId fun g => (g.addPlayer sid name).1)
          (st.presence.modifyHall roomId (Hall.add ⟨sid, name, false, false⟩)) := by
        refine fun C => does_modifyRoom fun room' hroom' => ?_
        obtain rfl := Option.some.inj (hroom.symm.trans hroom')
        have hseats : (room.game.addPlayer sid name).1.seats =
            room.game.seats ++ [⟨sid, name, false, false⟩] := by
          rw [hadd]
          simp [Game.seats, Player.seat, Player.new]
        obtain ⟨hstarted, hpuzzle, hfin⟩ :
            (room.game.addPlayer sid name).1.started = room.game.started ∧
              (room.game.addPlayer sid name).1.puzzle = room.game.puzzle ∧
              (room.game.addPlayer sid name).1.finished = room.game.finished := by
          rw [hadd]
          exact ⟨rfl, rfl, rfl⟩
        refine ⟨.seats hstarted hpuzzle hfin
          (fun h => hseats ▸ h.add hsid) (fun h => hseats ▸ h.add sid name), ?_⟩
        simp only [Room.hall, Hall.add, hseats]
      have hjoined := fun C => (hseat C).seat (tokenSeq_modifyRoom ..) hsid roomId name
        (st.playerAuth.lookup sid)
      exact (hjoined _).tail ha (tail_emitAllStates _ roomId)
        fun f hf => ⟨_, .tail _ (.head _), hf⟩
    · obtain ⟨q, hq, rfl⟩ := List.mem_map.mp hx
      exact hid q hq

end Server

end ScrabbleMagyar
