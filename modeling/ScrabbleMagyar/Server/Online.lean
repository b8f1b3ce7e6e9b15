import ScrabbleMagyar.Server.OneSeat

/-!
# Who is online

The accounts of the connections and what the connections of administrators may see, beside the
state of the server: the two tables of the users online (`server/state.rs`) and the three records
of the rights of administrators (`admin_sids`, the socket room `admin` and the `admin_watchers` of
the rooms; `server/extras.rs`). A `Portal` runs the events of the server together with the
subscriptions of administrators.

Whether a signed token is genuine and whether its account is barred are inputs, and so is the set
of the accounts of administrators.

* `Portal.server_step`: on its events the portal is the server.
* `Portal.online_of_plain`: the two tables of the users online are inverse to each other in every
  run in which no connection of one account takes a seat of another one back.
* `Portal.exact_rejoin_iff`: a connection that does that is left in the table under both accounts.
-/

namespace ScrabbleMagyar

open Server

/-- The server with the accounts that are online and the rights of administrators. -/
structure Portal where
  server : Server
  sidToUserId : Table String UserId
  onlineUsers : Table UserId (Finset String)
  /-- The connections that came with a token of an administrator. -/
  adminSids : Table String UserId
  /-- The members of the socket room of the administrators. -/
  adminRoom : Finset String
  /-- The rooms with the connections that follow them. -/
  adminWatchers : Finset (RoomId × String)

namespace Server

/-- Forget a connection; the seat is left to the caller. -/
def unregisterPlayer (st : Server) (sid : String) : Server :=
  { st with
    playerNames := st.playerNames.erase sid
    playerAuth := st.playerAuth.erase sid
    sidToToken := st.sidToToken.erase sid
    reconnectTokens := match st.sidToToken.lookup sid with
      | some token => st.reconnectTokens.erase token
      | none => st.reconnectTokens }

/-- The account that a rejoin gives to the connection; `none` where it fails. -/
def rejoinAuth (st : Server) (sid : String) (token : Token) (banned : Bool) : Option AuthInfo :=
  let st := st.rejoinRelease token
  match st.disconnectedPlayers.lookup token, st.reconnectTokens.lookup token with
  | some info, some entry =>
    if banned ∧ (entry.authInfo.bind AuthInfo.registeredId).isSome then none
    else match st.rooms.lookup info.roomId with
      | none => none
      | some room =>
        if (room.game.replacePlayerSid info.sid sid).2 then
          some (entry.authInfo.getD AuthInfo.guest)
        else none
  | _, _ => none

/-! ## Connections that break -/

namespace Presence

@[simp] theorem closed_dropIf (p : Presence) (roomId : RoomId) (c : Hall → Prop)
    [DecidablePred c] : (p.dropIf roomId c).closed = p.closed := by
  unfold dropIf
  split
  · rfl
  · split <;> rfl

@[simp] theorem closed_disband (p : Presence) (roomId : RoomId) (owner : Option String) :
    (p.disband roomId owner).closed = p.closed := by
  unfold disband
  split <;> rfl

@[simp] theorem closed_quit (p : Presence) (sid : String) (how : Departure) :
    (p.quit sid how).closed = p.closed := by
  unfold quit
  split
  · rfl
  · rfl
  · rfl
  · rfl
  · rfl
  · exact closed_dropIf ..
  · exact closed_dropIf ..
  · exact closed_disband ..

@[simp] theorem closed_release (p : Presence) (token : Token) :
    (p.release token).closed = p.closed := by
  unfold release
  split <;> rfl

@[simp] theorem closed_expire (p : Presence) (token : Token) (a : Absence) (how : Expiry) :
    (p.expire token a how).closed = p.closed := by
  cases how with
  | stale => rfl
  | gone => rfl
  | disbanded => exact closed_disband ..
  | settled removes =>
    cases removes with
    | true => exact closed_dropIf ..
    | false => exact closed_dropIf ..

/-- Only a departure breaks a connection. -/
theorem mem_closed_act {p : Presence} {d : Deed} {s : String} (h : s ∈ (p.act d).closed) :
    s ∈ p.closed ∨ ∃ how forgets, d = .departed s how forgets true := by
  cases d with
  | departed sid how forgets breaks =>
    have hcut : (if forgets then (p.quit sid how).setAccount sid none else p.quit sid how).closed =
        p.closed := by
      cases forgets with
      | true => exact closed_quit p sid how
      | false => exact closed_quit p sid how
    cases breaks with
    | false => exact .inl (hcut ▸ h)
    | true =>
      rcases Finset.mem_insert.mp h with rfl | h
      · exact .inr ⟨how, forgets, rfl⟩
      · exact .inl (hcut ▸ h)
  | expired token seq how =>
    refine .inl ?_
    simp only [act] at h
    split at h
    · exact h
    · rwa [closed_expire] at h
  | cameBack sid token auth releases =>
    refine .inl ?_
    have hcut : (if releases then p.release token else p).closed = p.closed := by
      split
      · exact closed_release p token
      · rfl
    simp only [act] at h
    split at h
    · rwa [hcut] at h
    · rw [← hcut]
      exact h
  | released token => exact .inl (by rwa [act, closed_release] at h)
  | took sid roomId old token loads ousts =>
    refine .inl ?_
    cases loads <;> cases ousts <;> exact h
  | expelled roomId id running =>
    refine .inl ?_
    cases running <;> rwa [act, closed_dropIf] at h
  | disbanded roomId => exact .inl (by rwa [act, closed_disband] at h)
  | _ => exact .inl h

end Presence

/-- Only the event that says so breaks a connection. -/
theorem event_of_departed {st : Server} {i : Env × Event} {sid : String} {how : Departure}
    {forgets : Bool} (h : st.deed i = .departed sid how forgets true) :
    ∃ s : Sid, s.1 = sid ∧ i.2 = .disconnect s := by
  obtain ⟨env, event⟩ := i
  have hopened : ∀ (st' : Server) (s : String),
      st.openedDeed st' s ≠ .departed sid how forgets true := by
    intro st' s
    rcases st.openedDeed_cases st' s with heq | ⟨token, hall, heq⟩ <;> rw [heq] <;> nofun
  unfold deed at h
  cases event with
  | message s message =>
    simp only at h
    split at h
    · cases h
    · cases message with
      | rejoinRoom token banned =>
        simp only [messageDeed, rejoinDeed] at h
        repeat (first | (split at h) | cases h)
      | joinRoom r byCode =>
        simp only [messageDeed, joinDeed] at h
        split at h <;> cases h
      | startGame =>
        simp only [messageDeed, startDeed] at h
        repeat (first | (split at h) | cases h)
      | openAsyncGame gameId =>
        simp only [messageDeed, openAsyncDeed] at h
        repeat (first | (split at h) | cases h)
      | createRoom options => exact absurd h (hopened _ s)
      | restoreGame gameId => exact absurd h (hopened _ s)
      | createAsyncGame friends turnHours starter => exact absurd h (hopened _ s)
      | _ => cases h
  | startDaily s puzzle => exact absurd h (hopened _ s)
  | disconnect s =>
    simp only at h
    split at h
    · cases h
    · cases h
      exact ⟨s, rfl, rfl⟩
  | removePlayer r name =>
    simp only [removeDeed] at h
    repeat (first | (split at h) | cases h)
  | _ =>
    first
    | cases h
    | (simp only [closedDeed] at h
       split at h <;> cases h)

theorem mem_closed_step {st : Server} (ha : st.Archive) {i : Env × Event} {sid : String}
    (h : sid ∈ (st.step i).closed) :
    sid ∈ st.closed ∨ ∃ s : Sid, s.1 = sid ∧ i.2 = .disconnect s := by
  have hpresence := (acts_of_archive ha i).does.presence
  have hclosed : sid ∈ (st.presence.act (st.deed i)).closed := by
    rw [← hpresence]
    exact h
  rcases Presence.mem_closed_act hclosed with h | ⟨how, forgets, h⟩
  · exact .inl h
  · exact .inr (event_of_departed h)

theorem Archive.unregisterPlayer {st : Server} (ha : st.Archive) (sid : String) :
    (st.unregisterPlayer sid).Archive where
  numbered := ha.numbered
  roomIds := ha.roomIds
  rowIds := ha.rowIds
  single := ha.single
  rooms := ha.rooms
  lobbies := ha.lobbies
  filed := ha.filed
  saves := ha.saves
  named := by
    have hsub : ∀ t info, (st.unregisterPlayer sid).reconnectTokens.lookup t = some info →
        st.reconnectTokens.lookup t = some info := by
      intro t info h
      unfold Server.unregisterPlayer at h
      dsimp only at h
      split at h
      · rw [Table.lookup_erase] at h
        split_ifs at h
        exact h
      · exact h
    refine ⟨fun t r s h => ?_, ha.named.away⟩
    obtain ⟨info, hinfo, heq⟩ := Option.map_eq_some_iff.mp h
    exact ha.named.holder t r s (Option.map_eq_some_iff.mpr ⟨info, hsub t info hinfo, heq⟩)

end Server

namespace Portal

/-- A server as it starts, with nobody online. -/
def opened (db : Db) : Portal := ⟨.start db, ∅, ∅, ∅, ∅, ∅⟩

variable (p : Portal)

/-! ## The users online -/

def removeOnlineUser (sid : String) : Portal :=
  match p.sidToUserId.lookup sid with
  | none => p
  | some userId =>
    { p with
      sidToUserId := p.sidToUserId.erase sid
      onlineUsers := match p.onlineUsers.lookup userId with
        | none => p.onlineUsers
        | some sids =>
          if sids.erase sid = ∅ then p.onlineUsers.erase userId
          else p.onlineUsers.insert userId (sids.erase sid) }

def addOnlineUser (sid : String) (userId : UserId) : Portal :=
  { p with
    sidToUserId := p.sidToUserId.insert sid userId
    onlineUsers := p.onlineUsers.insert userId
      (insert sid ((p.onlineUsers.lookup userId).getD ∅)) }

def isUserOnline (userId : UserId) : Bool := (p.onlineUsers.lookup userId).isSome

/-- Put a connection online under the registered user of an account, if there is one. -/
def addRegistered (sid : String) (auth : Option AuthInfo) : Portal :=
  match auth.bind AuthInfo.registeredId with
  | some userId => p.addOnlineUser sid userId
  | none => p

/-- A connection takes a name and an account; it drops the one it had. -/
def registerPlayer (sid name : String) (auth : AuthInfo) : Portal :=
  { (p.removeOnlineUser sid).addRegistered sid (some auth) with
    server := p.server.registerPlayer sid name auth }

def unregisterPlayer (sid : String) : Portal :=
  { p.removeOnlineUser sid with server := p.server.unregisterPlayer sid }

/-! ## Handlers -/

/-- Another account is no longer told what administrators are told. -/
def setName (sid name : String) (auth : AuthInfo) : Portal :=
  { p.registerPlayer sid name auth with
    adminRoom :=
      if p.sidToUserId.lookup sid ≠ auth.userId then p.adminRoom.erase sid else p.adminRoom }

def logout (env : Env) (sid : String) : Portal :=
  { p.removeOnlineUser sid with
    server := p.server.logout env sid
    adminRoom := p.adminRoom.erase sid }

/-- A connection comes back with a token and goes online under its account. -/
def rejoinRoom (sid : String) (token : Token) (banned : Bool) : Portal :=
  { p.addRegistered sid (p.server.rejoinAuth sid token banned) with
    server := p.server.rejoinRoom sid token banned }

/-- Take a connection out of the rooms it follows. -/
def unwatch (sid : String) : Portal :=
  { p with adminWatchers := p.adminWatchers.filter fun w => w.2 ≠ sid }

/-- A connection breaks; it is no member of a socket room any more. -/
def handleDisconnect (sid : String) : Portal :=
  { (p.unwatch sid).removeOnlineUser sid with
    server := p.server.handleDisconnect sid
    adminSids := p.adminSids.erase sid
    adminRoom := p.adminRoom.erase sid }

section

variable (isAdmin : UserId → Bool)

/-- Whether a connection has the rights of an administrator. -/
def isAdminSid (sid : String) : Bool :=
  (p.adminSids.lookup sid).isSome || (p.sidToUserId.lookup sid).any isAdmin

/-- The administrator a connection belongs to: by its account, or by a token, which is noted. -/
def adminUserIdForSid (sid : String) (verified : Option UserId) (barred : Bool) :
    Portal × Option UserId :=
  match (p.sidToUserId.lookup sid).filter isAdmin with
  | some userId => (p, some userId)
  | none => match verified.filter fun userId => isAdmin userId && !barred with
    | some userId => ({ p with adminSids := p.adminSids.insert sid userId }, some userId)
    | none => (p, none)

def adminSubscribe (sid : String) (verified : Option UserId) (barred : Bool) : Portal :=
  match p.adminUserIdForSid isAdmin sid verified barred with
  | (p, some _) => { p with adminRoom := insert sid p.adminRoom }
  | (p, none) => p

/-- Follow a room, or none. -/
def adminWatchRoom (sid : String) (roomId : Option RoomId) : Portal :=
  if !p.isAdminSid isAdmin sid then p
  else match roomId.filter fun roomId => (p.server.rooms.lookup roomId).isSome with
    | some roomId =>
      { p.unwatch sid with
        adminWatchers := insert (roomId, sid) (p.unwatch sid).adminWatchers }
    | none => p.unwatch sid

inductive Event
  | server (i : Env × Server.Event)
  | unregisterPlayer (sid : Sid)
  | adminSubscribe (sid : Sid) (verified : Option UserId) (barred : Bool)
  | adminWatchRoom (sid : Sid) (roomId : Option RoomId)

/-- The handling of a message, where it does more than the server knows of. -/
def handle (env : Env) (sid : Sid) (message : Message) : Portal :=
  match message with
  | .setName name auth => p.setName sid name auth
  | .logout => p.logout env sid
  | .rejoinRoom token banned => p.rejoinRoom sid token banned
  | _ => { p with server := p.server.step (env, .message sid message) }

/-- The state an event leaves behind, before the watchers of a released room are gone. -/
def perform : Event → Portal
  | .server (env, event) => match event with
    | .message sid message => if sid.1 ∈ p.server.closed then p else p.handle env sid message
    | .disconnect sid => if sid.1 ∈ p.server.closed then p else p.handleDisconnect sid
    | _ => { p with server := p.server.step (env, event) }
  | .unregisterPlayer sid => if sid.1 ∈ p.server.closed then p else p.unregisterPlayer sid
  | .adminSubscribe sid verified barred =>
    if sid.1 ∈ p.server.closed then p else p.adminSubscribe isAdmin sid verified barred
  | .adminWatchRoom sid roomId =>
    if sid.1 ∈ p.server.closed then p else p.adminWatchRoom isAdmin sid roomId

/-- The state an event leaves behind. -/
def step (isAdmin : UserId → Bool) (p : Portal) (i : Event) : Portal :=
  let p := p.perform isAdmin i
  { p with adminWatchers := p.adminWatchers.filter fun w => (p.server.rooms.lookup w.1).isSome }

end

/-! ## What the parts change -/

variable {p} {isAdmin : UserId → Bool}

@[simp] theorem server_removeOnlineUser (sid : String) :
    (p.removeOnlineUser sid).server = p.server := by
  unfold removeOnlineUser
  split <;> rfl

@[simp] theorem server_addRegistered (sid : String) (auth : Option AuthInfo) :
    (p.addRegistered sid auth).server = p.server := by
  unfold addRegistered
  split <;> rfl

@[simp] theorem server_adminSubscribe (sid : String) (verified : Option UserId) (barred : Bool) :
    (p.adminSubscribe isAdmin sid verified barred).server = p.server := by
  unfold adminSubscribe adminUserIdForSid
  cases (p.sidToUserId.lookup sid).filter isAdmin with
  | some userId => rfl
  | none => cases verified.filter fun userId => isAdmin userId && !barred <;> rfl

@[simp] theorem server_adminWatchRoom (sid : String) (roomId : Option RoomId) :
    (p.adminWatchRoom isAdmin sid roomId).server = p.server := by
  unfold adminWatchRoom
  split
  · rfl
  · split <;> rfl

theorem server_handle (env : Env) (sid : Sid) (message : Message)
    (h : sid.1 ∉ p.server.closed) :
    (p.handle env sid message).server = p.server.step (env, .message sid message) := by
  have hstep : p.server.step (env, .message sid message) =
      p.server.handle env sid message := if_neg h
  cases message with
  | setName name auth => rw [hstep]; rfl
  | logout => rw [hstep]; rfl
  | rejoinRoom token banned => rw [hstep]; rfl
  | _ => rfl

/-- **The portal runs the server**: on the events of the server it does what the server does. -/
theorem server_step (i : Env × Server.Event) :
    (p.step isAdmin (.server i)).server = p.server.step i := by
  obtain ⟨env, event⟩ := i
  change (p.perform isAdmin (.server (env, event))).server = _
  cases event with
  | message sid message =>
    dsimp only [perform]
    split_ifs with hclosed
    · exact (if_pos hclosed).symm
    · exact server_handle env sid message hclosed
  | disconnect sid =>
    dsimp only [perform]
    split_ifs with hclosed
    · exact (if_pos hclosed).symm
    · exact (if_neg hclosed).symm
  | _ => rfl

/-! ## The two tables -/

/-- A connection is in the table of the users online. -/
def Listed (p : Portal) (sid : String) (userId : UserId) : Prop :=
  ∃ sids, p.onlineUsers.lookup userId = some sids ∧ sid ∈ sids

/-- **The online table is exact**: the two tables are inverse to each other, no user has an empty
entry, and only connections that have not broken are in them. -/
structure Exact (p : Portal) : Prop where
  inverse : ∀ sid userId, p.sidToUserId.lookup sid = some userId ↔ p.Listed sid userId
  nonempty : ∀ userId sids, p.onlineUsers.lookup userId = some sids → sids ≠ ∅
  live : ∀ sid userId, p.sidToUserId.lookup sid = some userId → sid ∉ p.server.closed

theorem Exact.once (h : p.Exact) {sid : String} {u v : UserId} (hu : p.Listed sid u)
    (hv : p.Listed sid v) : u = v :=
  Option.some.inj (((h.inverse sid u).mpr hu).symm.trans ((h.inverse sid v).mpr hv))

theorem Exact.isUserOnline_iff (h : p.Exact) (userId : UserId) :
    p.isUserOnline userId = true ↔
      ∃ sid, sid ∉ p.server.closed ∧ p.sidToUserId.lookup sid = some userId := by
  unfold isUserOnline
  rw [Option.isSome_iff_exists]
  constructor
  · rintro ⟨sids, hsids⟩
    obtain ⟨sid, hsid⟩ := Finset.nonempty_iff_ne_empty.mpr (h.nonempty userId sids hsids)
    have hmap := (h.inverse sid userId).mpr ⟨sids, hsids, hsid⟩
    exact ⟨sid, h.live sid userId hmap, hmap⟩
  · rintro ⟨sid, -, hmap⟩
    obtain ⟨sids, hsids, -⟩ := (h.inverse sid userId).mp hmap
    exact ⟨sids, hsids⟩

theorem exact_opened (db : Db) : (opened db).Exact := by
  refine ⟨fun sid userId => ⟨fun h => ?_, ?_⟩, fun _ _ h => ?_, fun _ _ h => ?_⟩
  · simp [opened] at h
  · rintro ⟨sids, h, -⟩
    simp [opened] at h
  · simp [opened] at h
  · simp [opened] at h

/-- What is said of the two tables does not depend on the rest, as long as no connection of
theirs breaks. -/
theorem Exact.congr (h : p.Exact) {q : Portal} (hsids : q.sidToUserId = p.sidToUserId)
    (husers : q.onlineUsers = p.onlineUsers)
    (hclosed : ∀ sid userId, p.sidToUserId.lookup sid = some userId → sid ∉ q.server.closed) :
    q.Exact := by
  refine ⟨fun sid userId => ?_, fun userId sids hl => ?_, fun sid userId hl => ?_⟩
  · rw [hsids, Listed, husers]
    exact h.inverse sid userId
  · exact h.nonempty userId sids (husers ▸ hl)
  · exact hclosed sid userId (hsids ▸ hl)

theorem lookup_removeOnlineUser (sid s : String) :
    (p.removeOnlineUser sid).sidToUserId.lookup s =
      if s = sid then none else p.sidToUserId.lookup s := by
  unfold removeOnlineUser
  cases h : p.sidToUserId.lookup sid with
  | some userId => exact Table.lookup_erase ..
  | none =>
    split_ifs with hs
    · rw [hs, h]
    · rfl

theorem Exact.listed_removeOnlineUser (h : p.Exact) (sid s : String) (u : UserId) :
    (p.removeOnlineUser sid).Listed s u ↔ s ≠ sid ∧ p.Listed s u := by
  unfold removeOnlineUser
  cases hmap : p.sidToUserId.lookup sid with
  | none =>
    refine ⟨fun hl => ⟨?_, hl⟩, And.right⟩
    rintro rfl
    rw [(h.inverse s u).mpr hl] at hmap
    cases hmap
  | some userId =>
    obtain ⟨sids, hsids, hmem⟩ := (h.inverse sid userId).mp hmap
    simp only [hsids, Listed]
    -- the entries of the other users stay, and `sid` is in none of them
    have hother : u ≠ userId → p.Listed s u → s ≠ sid := by
      rintro hne hl rfl
      exact hne (h.once hl ⟨sids, hsids, hmem⟩)
    split_ifs with hempty
    · rw [Table.lookup_erase]
      split_ifs with hu
      · subst hu
        constructor
        · rintro ⟨_, h, -⟩
          cases h
        · rintro ⟨hne, sids', hs', hin⟩
          obtain rfl := Option.some.inj (hsids.symm.trans hs')
          exact absurd (Finset.mem_erase.mpr ⟨hne, hin⟩) (hempty ▸ Finset.notMem_empty s)
      · exact ⟨fun hl => ⟨hother hu hl, hl⟩, And.right⟩
    · rw [Table.lookup_insert]
      split_ifs with hu
      · subst hu
        constructor
        · rintro ⟨sids', hs', hin⟩
          obtain rfl := Option.some.inj hs'
          obtain ⟨hne, hin⟩ := Finset.mem_erase.mp hin
          exact ⟨hne, sids, hsids, hin⟩
        · rintro ⟨hne, sids', hs', hin⟩
          obtain rfl := Option.some.inj (hsids.symm.trans hs')
          exact ⟨_, rfl, Finset.mem_erase.mpr ⟨hne, hin⟩⟩
      · exact ⟨fun hl => ⟨hother hu hl, hl⟩, And.right⟩

theorem Exact.removeOnlineUser (h : p.Exact) (sid : String) : (p.removeOnlineUser sid).Exact := by
  refine ⟨fun s u => ?_, fun u sids hl => ?_, fun s u hl => ?_⟩
  · rw [h.listed_removeOnlineUser, lookup_removeOnlineUser, ← h.inverse]
    split_ifs with hs <;> simp [hs]
  · unfold Portal.removeOnlineUser at hl
    cases hmap : p.sidToUserId.lookup sid with
    | none => exact h.nonempty u sids (by simpa [hmap] using hl)
    | some userId =>
      obtain ⟨old, hold, -⟩ := (h.inverse sid userId).mp hmap
      simp only [hmap, hold] at hl
      split_ifs at hl with hempty
      · rw [Table.lookup_erase] at hl
        split_ifs at hl
        exact h.nonempty u sids hl
      · rw [Table.lookup_insert] at hl
        split_ifs at hl
        · obtain rfl := Option.some.inj hl
          exact hempty
        · exact h.nonempty u sids hl
  · rw [lookup_removeOnlineUser] at hl
    split_ifs at hl
    rw [server_removeOnlineUser]
    exact h.live s u hl

theorem listed_addOnlineUser (sid s : String) (u v : UserId) :
    (p.addOnlineUser sid u).Listed s v ↔ (s = sid ∧ v = u) ∨ p.Listed s v := by
  unfold addOnlineUser Listed
  rw [Table.lookup_insert]
  split_ifs with hv
  · subst hv
    simp only [Option.some.injEq, and_true]
    constructor
    · rintro ⟨_, rfl, hin⟩
      rcases Finset.mem_insert.mp hin with rfl | hin
      · exact .inl rfl
      · cases hold : p.onlineUsers.lookup v with
        | none =>
          rw [hold] at hin
          exact absurd hin (Finset.notMem_empty s)
        | some sids =>
          rw [hold] at hin
          exact .inr ⟨sids, rfl, hin⟩
    · rintro (rfl | ⟨sids, hsids, hin⟩)
      · exact ⟨_, rfl, Finset.mem_insert_self ..⟩
      · refine ⟨_, rfl, Finset.mem_insert_of_mem ?_⟩
        rw [hsids]
        exact hin
  · simp [hv]

/-- A connection goes online as it should when it is not online yet, or is so as the same user. -/
theorem Exact.addOnlineUser (h : p.Exact) {sid : String} {u : UserId}
    (hlive : sid ∉ p.server.closed)
    (hsid : ∀ v, p.sidToUserId.lookup sid = some v → v = u) : (p.addOnlineUser sid u).Exact := by
  refine ⟨fun s v => ?_, fun v sids hl => ?_, fun s v hl => ?_⟩
  · rw [listed_addOnlineUser, ← h.inverse]
    change (p.sidToUserId.insert sid u).lookup s = some v ↔ _
    rw [Table.lookup_insert]
    split_ifs with hs
    · subst hs
      simp only [Option.some.injEq, true_and]
      exact ⟨fun h => .inl h.symm, fun h' => h'.elim Eq.symm fun hv => (hsid v hv).symm⟩
    · simp [hs]
  · change (p.onlineUsers.insert u _).lookup v = some sids at hl
    rw [Table.lookup_insert] at hl
    split_ifs at hl
    · obtain rfl := Option.some.inj hl
      exact (Finset.insert_nonempty _ _).ne_empty
    · exact h.nonempty v sids hl
  · change (p.sidToUserId.insert sid u).lookup s = some v at hl
    rw [Table.lookup_insert] at hl
    split_ifs at hl with hs
    · rw [hs]
      exact hlive
    · exact h.live s v hl

/-! ## Runs -/

open Runs

/-- The event does not put a connection of one account online under another one as well. -/
def Plain (p : Portal) (i : Event) : Prop :=
  ∀ env sid token banned, i = .server (env, .message sid (.rejoinRoom token banned)) →
    sid.1 ∉ p.server.closed → ∀ u,
      (p.server.rejoinAuth sid token banned).bind AuthInfo.registeredId = some u →
        ∀ v, p.sidToUserId.lookup sid.1 = some v → v = u

theorem Exact.addRegistered (h : p.Exact) {sid : String} {auth : Option AuthInfo}
    (hlive : sid ∉ p.server.closed)
    (hsid : ∀ u, auth.bind AuthInfo.registeredId = some u →
      ∀ v, p.sidToUserId.lookup sid = some v → v = u) : (p.addRegistered sid auth).Exact := by
  unfold Portal.addRegistered
  cases hauth : auth.bind AuthInfo.registeredId with
  | none => exact h
  | some u => exact h.addOnlineUser hlive (hsid u hauth)

/-- The tables are exact again when the server has moved on without a connection of theirs. -/
theorem Exact.server (h : p.Exact) {q : Portal} (hsids : q.sidToUserId = p.sidToUserId)
    (husers : q.onlineUsers = p.onlineUsers)
    (hclosed : ∀ sid ∈ q.server.closed, sid ∈ p.server.closed) : q.Exact :=
  h.congr hsids husers fun sid u hl hmem => h.live sid u hl (hclosed sid hmem)

theorem closed_handle (ha : p.server.Archive) (env : Env) {sid : Sid}
    (hlive : sid.1 ∉ p.server.closed) (message : Message) {s : String}
    (h : s ∈ (p.handle env sid message).server.closed) : s ∈ p.server.closed := by
  rw [server_handle env sid message hlive] at h
  rcases mem_closed_step ha h with h | ⟨_, -, h⟩
  · exact h
  · cases h

/-- A connection that comes back is in the table of the users online as it should be exactly when
it was not there under another account. -/
theorem exact_rejoin_iff (h : p.Exact) (ha : p.server.Archive) (env : Env) {sid : Sid}
    (hlive : sid.1 ∉ p.server.closed) (token : Token) (banned : Bool) :
    (p.handle env sid (.rejoinRoom token banned)).Exact ↔
      ∀ u, (p.server.rejoinAuth sid token banned).bind AuthInfo.registeredId = some u →
        ∀ v, p.sidToUserId.lookup sid.1 = some v → v = u := by
  constructor
  · intro hexact u hu v hv
    -- the old entry stays, the new one is made
    have hlisted : (p.addOnlineUser sid u).Listed sid v :=
      (listed_addOnlineUser sid.1 sid.1 u v).mpr (.inr ((h.inverse sid v).mp hv))
    have hmap : (p.addOnlineUser sid u).sidToUserId.lookup sid.1 = some u := by
      change (p.sidToUserId.insert sid.1 u).lookup sid.1 = some u
      rw [Table.lookup_insert, if_pos rfl]
    have hadd : p.addRegistered sid (p.server.rejoinAuth sid token banned) =
        p.addOnlineUser sid u := by
      unfold Portal.addRegistered
      rw [hu]
    have hboth := (hexact.inverse sid v).mpr (by
      change (p.addRegistered sid (p.server.rejoinAuth sid token banned)).Listed sid v
      rw [hadd]
      exact hlisted)
    change (p.addRegistered sid (p.server.rejoinAuth sid token banned)).sidToUserId.lookup sid.1 =
      some v at hboth
    rw [hadd, hmap] at hboth
    exact (Option.some.inj hboth).symm
  · intro hsid
    refine (h.addRegistered hlive hsid).server rfl rfl fun s hs => ?_
    rw [server_addRegistered]
    exact closed_handle ha env hlive _ hs

theorem exact_perform (isAdmin : UserId → Bool) (h : p.Exact) (ha : p.server.Archive) {i : Event}
    (hi : p.Plain i) :
    (p.perform isAdmin i).Exact ∧ (p.perform isAdmin i).server.Archive := by
  cases i with
  | server i =>
    have harchive : (p.perform isAdmin (.server i)).server.Archive := by
      change (p.step isAdmin (.server i)).server.Archive
      rw [server_step]
      exact archive_step ha i
    refine ⟨?_, harchive⟩
    obtain ⟨env, event⟩ := i
    have hother : (∀ s, event ≠ .disconnect s) →
        Exact { p with server := p.server.step (env, event) } := by
      refine fun hne => h.server rfl rfl fun s hs => ?_
      rcases mem_closed_step ha hs with hs | ⟨t, -, ht⟩
      · exact hs
      · exact absurd ht (hne t)
    cases event with
    | message sid message =>
      dsimp only [perform]
      split_ifs with hclosed
      · exact h
      · have hremoved : ∀ s ∈ (p.handle env sid message).server.closed,
            s ∈ (p.removeOnlineUser sid.1).server.closed := by
          rw [server_removeOnlineUser]
          exact fun s hs => closed_handle ha env hclosed message hs
        cases message with
        | setName name auth =>
          have hadded : ((p.removeOnlineUser sid.1).addRegistered sid.1 (some auth)).Exact := by
            refine (h.removeOnlineUser sid.1).addRegistered ?_ fun u _ v hv => ?_
            · rwa [server_removeOnlineUser]
            · rw [lookup_removeOnlineUser, if_pos rfl] at hv
              cases hv
          refine hadded.server rfl rfl ?_
          rw [server_addRegistered]
          exact hremoved
        | logout => exact (h.removeOnlineUser sid.1).server rfl rfl hremoved
        | rejoinRoom token banned =>
          exact (exact_rejoin_iff h ha env hclosed token banned).mpr
            (hi env sid token banned rfl hclosed)
        | _ => exact hother nofun
    | disconnect sid =>
      dsimp only [perform]
      split_ifs with hclosed
      · exact h
      · have hremoved := (h.congr (q := p.unwatch sid) rfl rfl h.live).removeOnlineUser sid.1
        refine hremoved.congr rfl rfl fun s u hl hs => ?_
        have hlive := hremoved.live s u hl
        rw [server_removeOnlineUser] at hlive
        have hs' : s ∈ (p.server.step (env, .disconnect sid)).closed := by
          rw [show p.server.step (env, .disconnect sid) = p.server.handleDisconnect sid from
            if_neg hclosed]
          exact hs
        rcases mem_closed_step ha hs' with hs' | ⟨t, ht, heq⟩
        · exact hlive hs'
        · obtain rfl : sid = t := by simpa using heq
          rw [lookup_removeOnlineUser, if_pos ht.symm] at hl
          cases hl
    | _ => exact hother nofun
  | unregisterPlayer sid =>
    dsimp only [perform]
    split_ifs
    · exact ⟨h, ha⟩
    · refine ⟨(h.removeOnlineUser sid.1).server rfl rfl fun s hs => ?_, ha.unregisterPlayer sid⟩
      rw [server_removeOnlineUser]
      exact hs
  | adminSubscribe sid verified barred =>
    dsimp only [perform]
    split_ifs
    · exact ⟨h, ha⟩
    · rw [server_adminSubscribe]
      refine ⟨h.server ?_ ?_ ?_, ha⟩
      · unfold adminSubscribe adminUserIdForSid
        cases (p.sidToUserId.lookup sid.1).filter isAdmin with
        | some userId => rfl
        | none => cases verified.filter fun userId => isAdmin userId && !barred <;> rfl
      · unfold adminSubscribe adminUserIdForSid
        cases (p.sidToUserId.lookup sid.1).filter isAdmin with
        | some userId => rfl
        | none => cases verified.filter fun userId => isAdmin userId && !barred <;> rfl
      · rw [server_adminSubscribe]
        exact fun _ hs => hs
  | adminWatchRoom sid roomId =>
    dsimp only [perform]
    split_ifs
    · exact ⟨h, ha⟩
    · rw [server_adminWatchRoom]
      refine ⟨h.server ?_ ?_ ?_, ha⟩
      · unfold adminWatchRoom
        split
        · rfl
        · split <;> rfl
      · unfold adminWatchRoom
        split
        · rfl
        · split <;> rfl
      · rw [server_adminWatchRoom]
        exact fun _ hs => hs

/-- The step keeps the tables exact, and the server in order. -/
theorem exact_step (h : p.Exact) (ha : p.server.Archive) {i : Event} (hi : p.Plain i) :
    (p.step isAdmin i).Exact ∧ (p.step isAdmin i).server.Archive := by
  obtain ⟨hexact, harchive⟩ := exact_perform isAdmin h ha hi
  exact ⟨hexact.server rfl rfl fun _ hs => hs, harchive⟩

/-- **The online table is exact** in every run in which no connection of one account takes a seat
of another one back: every connection is listed under the user it is identified as and under no
other, and a user is online when a live connection is identified as that user. -/
theorem online_of_plain (isAdmin : UserId → Bool) {db : Db} (hdb : Past (fun _ _ => True) db)
    {l : List Event} (hl : Along (step isAdmin) Plain (opened db) l) :
    let p := run (step isAdmin) (opened db) l
    p.Exact ∧ (∀ sid u v, p.Listed sid u → p.Listed sid v → u = v) ∧
      ∀ u, p.isUserOnline u = true ↔
        ∃ sid, sid ∉ p.server.closed ∧ p.sidToUserId.lookup sid = some u := by
  have h := (run_invariant (P := fun p => p.Exact ∧ p.server.Archive) (step isAdmin)
    (fun p i hp hi => exact_step hp.1 hp.2 hi) ⟨exact_opened db, .start hdb.sound⟩ hl).1
  exact ⟨h, fun sid u v hu hv => h.once hu hv, h.isUserOnline_iff⟩

/-! ## Two accounts -/

def account (userId : UserId) : AuthInfo := ⟨some userId, false⟩

/-- Some events of the server, in the time of the clock at rest. -/
def eventsOf (events : List Server.Event) : List Event :=
  events.map fun e => .server (Game.stillEnv, e)

/-- A user with a room and another user; the connection of the second one comes back with the
token of the first one. -/
def borrowedToken : List Event :=
  eventsOf [.message anna (.setName "Anna" (account 1)), .message bela (.setName "Béla" (account 2)),
    .message anna (.createRoom casual), .message bela (.rejoinRoom (.user 1) false)]

/-- A user who comes back with the own token, from a connection that has no account yet. -/
theorem exact_of_return : (run (step fun _ => false) (opened Db.empty)
    [.server (Game.stillEnv, .message anna (.setName "Anna" (account 1))),
      .server (Game.stillEnv, .message anna (.createRoom casual)),
      .server (Game.stillEnv, .message bela (.rejoinRoom (.user 1) false))]).Exact := by
  refine (online_of_plain (fun _ => false) .new (l :=
    [.server (Game.stillEnv, .message anna (.setName "Anna" (account 1))),
      .server (Game.stillEnv, .message anna (.createRoom casual)),
      .server (Game.stillEnv, .message bela (.rejoinRoom (.user 1) false))])
    ⟨nofun, nofun, fun env sid token banned h _ u _ v hv => ?_, trivial⟩).1
  cases h
  have hnone : (run (step fun _ => false) (opened Db.empty)
      [.server (Game.stillEnv, .message anna (.setName "Anna" (account 1))),
        .server (Game.stillEnv, .message anna (.createRoom casual))]).sidToUserId.lookup "b" =
      none := by decide +kernel
  exact absurd (hnone.symm.trans hv) (Option.some_ne_none v).symm

/-- **Two accounts.** The second user is still listed as online by a connection that is now
identified as the first one. -/
theorem listed_under_two : ¬ ∀ l, (run (step fun _ => false) (opened Db.empty) l).Exact := by
  intro h
  have hone : (run (step fun _ => false) (opened Db.empty) borrowedToken).sidToUserId.lookup "b" =
      some 1 := by decide +kernel
  have htwo : (run (step fun _ => false) (opened Db.empty) borrowedToken).onlineUsers.lookup 2 =
      some {"b"} := by decide +kernel
  have hlisted := ((h borrowedToken).inverse "b" 2).mpr ⟨_, htwo, Finset.mem_singleton_self _⟩
  rw [hone] at hlisted
  cases hlisted

end Portal

end ScrabbleMagyar
