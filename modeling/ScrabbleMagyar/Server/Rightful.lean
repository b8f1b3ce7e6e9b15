import Mathlib.Tactic.IntervalCases
import ScrabbleMagyar.Foundations.Fresh
import ScrabbleMagyar.Server.SeatRows
import ScrabbleMagyar.Server.Sitting

/-!
# Rightful steps

The names of the players tell the handlers whose a seat of a saved game is. In a run whose steps
are `Rightful` the tokens that connections hold, or have been away with, fit the seats that these
tokens stand for (`fitting_of_rightful`).
-/

namespace ScrabbleMagyar

namespace Server

open Runs

/-- The user of a lasting token. -/
def Token.userId : Token → Option UserId
  | .user id => some id
  | .guest _ => none

/-- Whose a seat of a save is, by the accounts that are stored with it. -/
def SavedGame.identity (row : SavedGame) (name : String) : Identity :=
  match (Table.ofList row.players).lookup name with
  | none => .any
  | some userId => .fromUserId userId

/-! ## The condition on the steps -/

/-- The seats of an identifier have one name. -/
def Hall.Sole (h : Hall) (id : String) : Prop :=
  ∀ x ∈ h.seats, ∀ y ∈ h.seats, x.isBot = false → y.isBot = false → x.id = id → y.id = id →
    x.name = y.name

/-- A step in which a connection that takes a seat has no other token in the room, and in which
neither its identifier nor that of the seat is the identifier of another seat. -/
def Presence.Unmixed (p : Presence) : Deed → Prop
  | .cameBack sid token _ _ => ∀ r s, p.stands token = some (r, s) → p.Lone r sid token ∧
      ∀ h, p.halls r = some h → sid ∈ h.humans → s = sid
  | .joined sid _ r token => p.Lone r sid token
  | .took sid r old token _ _ => p.Lone r sid token ∧
      ∀ h, p.halls r = some h → h.Sole old ∧ (sid ∈ h.humans → old = sid)
  | _ => True

/-- A lobby whose connections still have the accounts of their tokens, and where nobody goes by the
identifier of a missing player. -/
structure Convened (st : Server) (env : Env) (roomId : RoomId) (room : Room) (save : SavedGame) :
    Prop where
  account : ∀ s, st.playerRooms.lookup s = some roomId → ∃ token,
    st.sidToToken.lookup s = some token ∧
      token.userId = (st.playerAuth.lookup s).bind AuthInfo.registeredId
  missing : ∀ saved, Game.fromSaveDict env save.stateJson = .ok saved → ∀ x ∈ saved.players,
    x.isBot = false → (∀ y ∈ room.game.players, y.name ≠ x.name) →
      st.playerRooms.lookup x.id ≠ some roomId ∧
        ∀ token info, st.disconnectedPlayers.lookup token = some info → info.roomId = roomId →
          info.sid ≠ x.id

/-- A step that mixes no seats up, in which a save is restored by the player whose seat has the
name of the connection, its game is started by a lobby that is convened, and a correspondence game
is loaded with an account for every player. -/
structure Rightful (st : Server) (i : Env × Event) : Prop where
  unmixed : st.presence.Unmixed (st.deed i)
  restores : ∀ (sid : Sid) gameId row, i.2 = .message sid (.restoreGame gameId) →
    st.restorable sid.1 gameId = some row →
      identityMatches (row.identity ((st.playerNames.lookup sid.1).getD anonymous))
        (st.playerAuth.lookup sid.1) = true
  starts : ∀ (sid : Sid) roomId room save, i.2 = .message sid .startGame →
    st.roomForPlayer sid.1 = some (roomId, room) → room.restoreSaveData = some save →
      st.Convened i.1 roomId room save
  loads : ∀ (sid : Sid) gameId userId row, i.2 = .message sid (.openAsyncGame gameId) →
    st.openable sid.1 gameId = some (userId, row) → st.rooms.lookup row.roomId = none →
      ∀ e ∈ row.players, e.2.isSome = true

/-! ## Accounts and tokens -/

/-- The account that a seat is given to gets a token that fits the seat. -/
theorem fits_of_matches (st : Server) {h : Hall} {name : String} {auth : Option AuthInfo}
    (hmatch : identityMatches (h.identity name) auth = true) :
    (h.identity name).fits (st.tokenFor auth) = true := by
  unfold Hall.identity Identity.fromUserId at *
  cases hlookup : h.known.lookup name with
  | none => rfl
  | some userId =>
    simp only [hlookup] at hmatch ⊢
    cases huser : userId.filter fun u => u ≠ 0 with
    | none =>
      simp only [huser] at hmatch ⊢
      have hguest : auth.bind AuthInfo.registeredId = none := by
        cases auth with
        | none => rfl
        | some a =>
          simp only [identityMatches, Option.bind_some, Option.isNone_iff_eq_none] at hmatch
          simp only [Option.bind_some, AuthInfo.registeredId, hmatch]
          split <;> rfl
      rw [tokenFor, hguest]
      rfl
    | some id =>
      simp only [huser] at hmatch ⊢
      obtain ⟨-, hid⟩ := Option.filter_eq_some_iff.mp huser
      have huser : auth.bind AuthInfo.registeredId = some id := by
        cases auth with
        | none => cases hmatch
        | some a =>
          simp only [identityMatches, Bool.and_eq_true, beq_iff_eq, Bool.not_eq_true'] at hmatch
          simp only [Option.bind_some, AuthInfo.registeredId, hmatch.1, hmatch.2]
          simpa using hid
      rw [tokenFor, huser]
      simp [Identity.fits]

/-! ## Connections that take a seat -/

variable {st : Server} {sid : String} {roomId : RoomId} {token : Token}

theorem rejoinDeed_cases (st : Server) (sid : String) (token : Token) (banned : Bool) :
    (∃ auth releases, st.rejoinDeed sid token banned = .cameBack sid token auth releases) ∨
      st.rejoinDeed sid token banned = .nothing ∨
      st.rejoinDeed sid token banned = .released token ∨
      st.rejoinDeed sid token banned = .voided token := by
  have hidle : (if st.releases token then Deed.released token else .nothing) = .nothing ∨
      (if st.releases token then Deed.released token else .nothing) = .released token := by
    split
    · exact .inr rfl
    · exact .inl rfl
  unfold rejoinDeed
  dsimp only
  split
  · split
    · exact .inr (hidle.imp_right .inl)
    · split
      · exact .inr (.inr (.inr rfl))
      · split
        · exact .inl ⟨_, _, rfl⟩
        · exact .inr (hidle.imp_right .inl)
  · exact .inr (hidle.imp_right .inl)

theorem suits_rejoinRoom {banned : Bool}
    (hmix : st.presence.Unmixed (st.rejoinDeed sid token banned)) :
    st.presence.Suits (st.rejoinDeed sid token banned) := by
  rcases st.rejoinDeed_cases sid token banned with ⟨auth, releases, heq⟩ | heq | heq | heq <;>
    rw [heq] at hmix ⊢
  · intro r s hstands
    obtain ⟨hlone, hnew⟩ := hmix r s hstands
    refine ⟨fun hne h hh x hx hbot hid => ?_, hlone⟩
    have hmem : sid ∈ h.humans :=
      List.mem_map.mpr ⟨x, List.mem_filter.mpr ⟨hx, by simp [hbot]⟩, hid⟩
    exact absurd (hnew h hh hmem) hne
  · trivial
  · trivial
  · trivial

/-- The seats that a connection takes over, and those that have its identifier, are the seat of one
name. -/
theorem Hall.Sole.name {h : Hall} {old : String} {x y : Seat} (hsole : h.Sole old)
    (hnew : sid ∈ h.humans → old = sid) (hy : y ∈ h.seats) (hybot : y.isBot = false)
    (hyid : y.id = old) (hx : x ∈ h.seats) (hbot : x.isBot = false)
    (hid : x.id = old ∨ x.id = sid) : x.name = y.name := by
  have hold : x.id = old := hid.elim id fun hxs => hxs.trans
    (hnew (List.mem_map.mpr ⟨x, List.mem_filter.mpr ⟨hx, by simp [hbot]⟩, hxs⟩)).symm
  exact hsole x hx y hy hbot hybot hold hyid

/-- The lobby of a restored game admits its players only. -/
theorem fits_of_admits {room : Room} (htold : room.Told) (hwaits : room.game.started = false)
    {name : String} {auth : Option AuthInfo} (hadmits : admits room name auth = true) :
    (room.hall.identity name).fits (st.tokenFor auth) = true := by
  cases hknown : room.knownUserIds.lookup name with
  | none =>
    have hany : room.hall.identity name = .any := by simp [Hall.identity, Room.hall, hknown]
    rw [hany]
    rfl
  | some userId =>
    obtain ⟨hrestored, names, hexpected, hne⟩ :=
      htold.lobby hwaits name (by rw [hknown]; rfl)
    simp only [admits, hexpected, hrestored, hne, Bool.not_true, Bool.or_self, Bool.false_eq_true,
      if_false, Bool.and_eq_true] at hadmits
    exact fits_of_matches st hadmits.2

theorem suits_joinRoom (ha : st.Archive) (ht : st.Told) {byCode : Bool}
    (hmix : st.presence.Unmixed (st.joinDeed sid roomId byCode))
    (hcan : st.presence.Can (st.joinDeed sid roomId byCode)) :
    st.presence.Suits (st.joinDeed sid roomId byCode) := by
  unfold joinDeed at *
  cases hjoin : st.joinOf sid roomId byCode with
  | refused => trivial
  | late oldId =>
    simp only [hjoin] at hmix
    obtain ⟨-, room, hroom, q, hlate, rfl⟩ := joinOf_late hjoin
    obtain ⟨hq, hname, hoff, expected, hexpected, hmatch⟩ := lateSeat_cases hlate
    obtain ⟨hlone, hhalls⟩ := hmix
    have hseat : q.seat ∈ room.hall.seats := List.mem_map_of_mem hq
    have hproper := (ha.rooms roomId room hroom).proper q.seat hseat
    have hbot : q.isBot = false := by
      cases hb : q.isBot with
      | false => rfl
      | true => exact absurd (hproper.present hb) (by simp [Player.seat, hoff])
    obtain ⟨hsole, hnew⟩ := hhalls room.hall (hall_of_lookup hroom)
    refine ⟨hlone, fun h hh => (Option.some_ne_none h hh.symm).elim, ?_⟩
    intro h hh x hx hxbot hid
    have hh : st.presence.halls roomId = some h := hh
    obtain rfl := Option.some.inj ((hall_of_lookup hroom).symm.trans hh)
    have hxname : x.name = (st.playerNames.lookup sid).getD anonymous :=
      (hsole.name hnew hseat hbot rfl hx hxbot hid).trans hname
    rw [hxname]
    rw [(ht roomId room hroom).missing _ expected hexpected] at hmatch
    exact fits_of_matches st hmatch
  | seat =>
    simp only [hjoin] at hmix hcan
    obtain ⟨-, room, hroom, hwaits, hadmits, -, -⟩ := joinOf_seat hjoin
    obtain ⟨-, -, -, hall, hhall, hother⟩ := hcan
    refine ⟨fun h hh x hx _ hid => ?_, hmix, fun h hh => ?_⟩
    · obtain rfl := Option.some.inj (hhall.symm.trans hh)
      exact absurd hid (hother x hx)
    · obtain rfl := Option.some.inj ((hall_of_lookup hroom).symm.trans hh)
      exact fits_of_admits (ht roomId room hroom) hwaits hadmits

/-! ## Correspondence games -/

theorem registered_ne_zero {auth : Option AuthInfo} {userId : UserId}
    (h : auth.bind AuthInfo.registeredId = some userId) : userId ≠ 0 := by
  obtain ⟨a, -, ha⟩ := Option.bind_eq_some_iff.mp h
  unfold AuthInfo.registeredId at ha
  split at ha
  · cases ha
  · simpa using (Option.filter_eq_some_iff.mp ha).2

theorem placeholderId_injective {userId userId' : UserId}
    (h : placeholderId roomId userId = placeholderId roomId userId') : userId = userId' :=
  Fresh.repr_injective ((String.append_right_inj _).mp h)

/-- The seat of an account is known to be that account's. -/
theorem known_of_asyncSeat {room : Room} {userId : UserId} {player : Player}
    (h : asyncSeat room userId = some player) :
    room.knownUserIds.lookup player.name = some (some userId) := by
  unfold asyncSeat at h
  split at h
  · cases h
  · rename_i e he
    have hname : player.name = e.1 := by simpa using List.find?_some h
    have huser : e.2 = some userId := by simpa using List.find?_some he
    rw [hname, AList.mem_lookup_iff.mpr (List.mem_of_find?_eq_some he), huser]

theorem Hall.identity_of_known {h : Hall} {name : String} {userId : UserId}
    (hknown : h.known.lookup name = some (some userId)) :
    h.identity name = .fromUserId (some userId) := by
  simp only [Hall.identity, hknown]

theorem fits_user {userId : UserId} (hid : userId ≠ 0) :
    (Identity.fromUserId (some userId)).fits (.user userId) = true := by
  simp [Identity.fromUserId, Option.filter, hid, Identity.fits]

/-- A seat of a correspondence game that has been loaded is that of an account, under a placeholder,
or not known to be anybody's. -/
theorem seat_asyncRoom {env : Env} {row : SavedGame} {room : Room}
    (h : asyncRoom env row = some room) (hknown : ∀ e ∈ row.players, e.2.isSome = true) {x : Seat}
    (hx : x ∈ room.hall.seats) (hbot : x.isBot = false) :
    room.hall.identity x.name = .any ∨ ∃ userId, x.id = placeholderId row.roomId userId ∧
      room.hall.known.lookup x.name = some (some userId) := by
  unfold asyncRoom at h
  split at h
  · cases h
  rename_i game hload
  cases h
  obtain ⟨p, hp, rfl⟩ := List.mem_map.mp hx
  obtain ⟨q, hq, rfl⟩ := List.mem_map.mp hp
  cases hb : q.isBot with
  | true =>
    have hq : absentPlayer row.roomId (Table.ofList row.players) q = q := if_pos hb
    rw [hq] at hbot
    exact absurd (hbot.symm.trans hb) (by simp)
  | false =>
    have hname : (absentPlayer row.roomId (Table.ofList row.players) q).name = q.name := by
      unfold absentPlayer
      split
      · rfl
      · split <;> rfl
    rw [show (absentPlayer row.roomId (Table.ofList row.players) q).seat.name = q.name from hname]
    cases hlookup : (Table.ofList row.players).lookup q.name with
    | none => exact .inl (by simp only [Hall.identity, Room.hall, hlookup])
    | some account =>
      obtain ⟨userId, rfl⟩ := Option.isSome_iff_exists.mp (hknown _ (mem_of_lookup_ofList hlookup))
      refine .inr ⟨userId, ?_, hlookup⟩
      simp [absentPlayer, hb, hlookup, Player.seat]

/-- A seat of a loaded game that goes by the identifier of an account's seat is that account's, or
not known to be anybody's. -/
theorem fits_asyncRoom {env : Env} {row : SavedGame} {room : Room} {userId : UserId}
    {player : Player} (h : asyncRoom env row = some room)
    (hknown : ∀ e ∈ row.players, e.2.isSome = true) (hhuman : room.hall.Human) (hid : userId ≠ 0)
    (hsid : isSid sid = true) (hseat : asyncSeat room userId = some player) {x : Seat}
    (hx : x ∈ room.hall.seats) (hxid : x.id = player.id ∨ x.id = sid) :
    (room.hall.identity x.name).fits (.user userId) = true := by
  rcases seat_asyncRoom h hknown hx (hhuman x hx) with hany | ⟨u, hxplace, hxknown⟩
  · rw [hany]
    rfl
  have hmem : player.seat ∈ room.hall.seats := List.mem_map_of_mem (asyncSeat_mem hseat)
  have hplayer := known_of_asyncSeat hseat
  -- both are placeholders, so that they are the seats of one account
  have hplace : player.id = placeholderId row.roomId userId := by
    rcases seat_asyncRoom h hknown hmem (hhuman _ hmem) with hany | ⟨u', hplace, hknown'⟩
    · rw [show player.seat.name = player.name from rfl,
        Hall.identity_of_known (h := room.hall) hplayer] at hany
      simp [Identity.fromUserId, Option.filter, hid] at hany
    · have hu : some (some userId) = some (some u') := hplayer.symm.trans hknown'
      cases hu
      exact hplace
  have hu : u = userId := by
    rcases hxid with hxid | hxid
    · exact placeholderId_injective (hxplace.symm.trans (hxid.trans hplace))
    · rw [← hxid, hxplace, isSid_placeholderId] at hsid
      cases hsid
  subst hu
  exact Hall.identity_of_known hxknown ▸ fits_user hid

/-- The seats that are not known to be anybody's are the only ones of a loaded game that a
connection may go by. -/
theorem unclaimed_asyncRoom {env : Env} {row : SavedGame} {room : Room}
    (h : asyncRoom env row = some room) (hknown : ∀ e ∈ row.players, e.2.isSome = true) :
    room.hall.Unclaimed := by
  intro x hx hbot hxsid
  rcases seat_asyncRoom h hknown hx hbot with hany | ⟨u, hid, -⟩
  · exact hany
  · rw [hid, isSid_placeholderId] at hxsid
    cases hxsid

theorem suits_openAsyncGame (ha : st.Archive) {env : Env} {gameId : ℕ}
    (hmix : st.presence.Unmixed (st.openAsyncDeed env sid gameId)) (hsid : isSid sid = true)
    (hloads : ∀ userId row, st.openable sid gameId = some (userId, row) →
      st.rooms.lookup row.roomId = none → ∀ e ∈ row.players, e.2.isSome = true) :
    st.presence.Suits (st.openAsyncDeed env sid gameId) := by
  unfold openAsyncDeed at *
  cases hopen : st.openable sid gameId with
  | none => trivial
  | some e =>
    obtain ⟨userId, row⟩ := e
    obtain ⟨hauth, -, hrow, hasync, hactive⟩ := openable_cases hopen
    have hid := registered_ne_zero hauth
    simp only [hopen] at hmix ⊢
    rcases hload : st.asyncRoomForDbGame env row with ⟨st₁, none | roomId⟩
    · trivial
    simp only [hload] at hmix
    dsimp only
    obtain ⟨rfl, room, hroom, hroomAsync⟩ | ⟨room, rfl, rfl, hloaded, -, -, hasyncRoom⟩ :=
      asyncRoomForDbGame_cases ha hrow hasync hactive hload
    · simp only [hroom, Option.isSome_some, if_true] at hmix ⊢
      cases hseat : asyncSeat room userId with
      | none => trivial
      | some player =>
        simp only [hseat] at hmix
        obtain ⟨hlone, hhalls⟩ := hmix
        obtain ⟨hsole, hnew⟩ := hhalls room.hall (hall_of_lookup hroom)
        have hmem : player.seat ∈ room.hall.seats := List.mem_map_of_mem (asyncSeat_mem hseat)
        have hbot : player.isBot = false :=
          (ha.rooms roomId room hroom).human (.inl hroomAsync) player.seat hmem
        refine ⟨hlone, fun h hh => (Option.some_ne_none h hh.symm).elim, ?_⟩
        intro h hh x hx hxbot hxid
        have hh : st₁.presence.halls roomId = some h := hh
        obtain rfl := Option.some.inj ((hall_of_lookup hroom).symm.trans hh)
        rw [hsole.name hnew hmem hbot rfl hx hxbot hxid]
        exact Hall.identity_of_known (h := room.hall) (known_of_asyncSeat hseat) ▸ fits_user hid
    · have hlookup : (AList.insert row.roomId room st.rooms).lookup row.roomId = some room :=
        AList.lookup_insert _
      have hvacant : (st.rooms.lookup row.roomId).isSome = false := by simp [hloaded.free]
      have hknown := hloads userId row hopen hloaded.free
      have hunclaimed := unclaimed_asyncRoom hasyncRoom hknown
      simp only [hlookup, hvacant, Bool.false_eq_true, if_false] at hmix ⊢
      cases hseat : asyncSeat room userId with
      | none => exact hunclaimed
      | some player =>
        simp only [hseat] at hmix
        refine ⟨hmix.1, fun h hh => by cases hh; exact hunclaimed, ?_⟩
        intro h hh x hx _ hxid
        obtain rfl := Option.some.inj hh
        exact fits_asyncRoom hasyncRoom hknown hloaded.human hid hsid hseat hx hxid

/-! ## Restored games -/

theorem suits_startGame (ha : st.Archive) {env : Env}
    (hconvened : ∀ roomId room save, st.roomForPlayer sid = some (roomId, room) →
      room.restoreSaveData = some save → st.Convened env roomId room save) :
    st.presence.Suits (st.startDeed env sid) := by
  rcases st.startDeed_cases env sid with heq | ⟨roomId, seats, heq⟩
  · rw [heq]
    trivial
  · obtain ⟨room, save, game, hplaced, hsave, hgame, hseats⟩ := startDeed_restored heq
    have hroom := (placed_of_roomForPlayer hplaced).2
    have hmissing := (hconvened roomId room save hplaced hsave).missing
    obtain ⟨saved, hload, hgame⟩ := restoredGame_seats hgame
    rw [heq]
    intro h hh x hx hbot
    obtain rfl := Option.some.inj ((hall_of_lookup hroom).symm.trans hh)
    rw [hseats, hgame, List.map_map] at hx
    obtain ⟨q, hq, rfl⟩ := List.mem_map.mp hx
    change (pairSeat room.game.players q).isBot = false at hbot
    obtain ⟨hqbot, hpair⟩ | ⟨hqbot, ⟨hnone, hpair⟩ | ⟨q', hq', hname, hpair⟩⟩ :=
      pairSeat_cases room.game.players q
    · rw [hpair] at hbot
      exact absurd (hbot.symm.trans hqbot) (by simp)
    · obtain ⟨hroomOf, haway⟩ := hmissing saved hload q hq hqbot hnone
      refine .inr ?_
      simp only [Function.comp_apply, hpair]
      refine ⟨hroomOf, fun t a ha hr => ?_⟩
      obtain ⟨info, hinfo, rfl⟩ := Option.map_eq_some_iff.mp ha
      exact haway t info hinfo hr
    · have hq'bot : q'.isBot = false :=
        (ha.lobbies roomId room save hroom hsave).human q'.seat (List.mem_map_of_mem hq')
      refine .inl ⟨q'.seat, List.mem_map_of_mem hq', hq'bot, ?_, ?_⟩
      · simp only [Function.comp_apply, hpair, Player.seat]
      · simp only [Function.comp_apply, hpair, Player.seat, hname]

/-! ## Rooms that are opened -/

theorem hall_saveGameToDb (st : Server) (roomId r : RoomId) :
    (st.saveGameToDb roomId).1.presence.halls r = st.presence.halls r := by
  unfold saveGameToDb
  split
  · rfl
  · rename_i room hroom
    dsimp only
    have hinsert : ∀ room' : Room, room'.hall = room.hall →
        ((st.rooms.insert roomId room').lookup r).map Room.hall =
          (st.rooms.lookup r).map Room.hall := by
      intro room' hhall
      rw [Table.lookup_insert]
      split
      · rename_i hr
        rw [hr, hroom, Option.map_some, Option.map_some, hhall]
      · rfl
    split_ifs
    · rfl
    · rfl
    · rfl
    · exact hinsert _ rfl
    · exact hinsert _ rfl

theorem hall_emitAllStates (st : Server) (roomId r : RoomId) :
    (st.emitAllStates roomId).presence.halls r = st.presence.halls r := by
  unfold emitAllStates persistAsync
  split
  · rfl
  · dsimp only
    split_ifs
    · rfl
    · rfl
    · have hsame : ∀ f : Room → Room, (∀ room, (f room).hall = room.hall) →
          (st.modifyRoom roomId f).presence = st.presence := by
        intro f hf
        have hmod : (st.modifyRoom roomId f).presence = st.presence.modifyHall roomId fun h => h :=
          st.presence_modifyRoom fun room _ => hf room
        rw [hmod, modifyHall_self fun _ _ => rfl]
      rw [hall_saveGameToDb]
      exact congrArg (fun p : Presence => p.halls r) (hsame _ fun _ => rfl)

/-- The room that a connection opens. -/
theorem openedDeed_openRoom (st : Server) (sid name : String) (room : Token → Room) :
    st.openedDeed (st.openRoom sid name room) sid =
      .opened sid (st.tokenFor (st.playerAuth.lookup sid))
        (room (st.tokenFor (st.playerAuth.lookup sid))).hall := by
  refine openedDeed_eq _ ?_
  unfold openRoom
  dsimp only
  rw [hall_emitAllStates, generateReconnectToken_snd]
  obtain ⟨-, -, hseq⟩ := generateReconnectToken_rest st sid st.roomSeq name (st.playerAuth.lookup sid)
  simp only [presence, Server.enterRoom, addRoom, hseq, AList.lookup_insert, Option.map_some]

theorem suits_openRoom {name : String} {room : Token → Room}
    (hroom : ∀ x ∈ (room (st.tokenFor (st.playerAuth.lookup sid))).game.seats, x.isBot = false →
      x.id = sid → ((room (st.tokenFor (st.playerAuth.lookup sid))).hall.identity x.name).fits
        (st.tokenFor (st.playerAuth.lookup sid)) = true) :
    st.presence.Suits (st.openedDeed (st.openRoom sid name room) sid) := by
  rw [openedDeed_openRoom]
  exact hroom

theorem suits_unopened (ha : st.Archive) : st.presence.Suits (st.openedDeed st sid) := by
  rw [openedDeed_self ha]
  trivial

theorem suits_createRoom (ha : st.Archive) (env : Env) (o : RoomOptions) :
    st.presence.Suits (st.openedDeed (st.createRoom env sid o) sid) := by
  unfold createRoom
  split
  · exact suits_unopened ha
  · exact suits_openRoom fun _ _ _ _ => rfl

theorem suits_startDaily (ha : st.Archive) (env : Env) (puzzle : DailyPuzzle) :
    st.presence.Suits (st.openedDeed (st.startDaily env sid puzzle) sid) := by
  unfold startDaily
  split
  · exact suits_unopened ha
  · exact suits_openRoom fun _ _ _ _ => rfl

theorem suits_restoreGame (ha : st.Archive) (env : Env) {gameId : ℕ}
    (hrestores : ∀ row, st.restorable sid gameId = some row →
      identityMatches (row.identity ((st.playerNames.lookup sid).getD anonymous))
        (st.playerAuth.lookup sid) = true) :
    st.presence.Suits (st.openedDeed (st.restoreGame env sid gameId) sid) := by
  unfold restoreGame
  cases hrow : st.restorable sid gameId with
  | none => exact suits_unopened ha
  | some row =>
    dsimp only
    have hmatch := hrestores row hrow
    refine suits_openRoom fun x hx _ _ => ?_
    generalize (st.playerNames.lookup sid).getD anonymous = name at hx hmatch ⊢
    obtain ⟨hfirst, -, -⟩ := addPlayer_first (g := Game.new env (toString st.roomSeq)
      (((row.stateJson.get? "challenge_mode").map truthy).getD false) 0
      (((row.stateJson.get? "hint_limit").bind pyInt).getD defaultHintLimit)) rfl rfl rfl sid name
    have hx : x ∈ ((Game.new env _ _ _ _).addPlayer sid name).1.seats := hx
    rw [hfirst] at hx
    obtain rfl := List.mem_singleton.mp hx
    exact fits_of_matches st hmatch

/-! ## Names of invited players -/

theorem lowerChar_of_isDigit {c : Char} (h : c.isDigit = true) : lowerChar c = c := by
  obtain ⟨hlow, hhigh⟩ := Char.isDigit_iff_toNat.mp h
  rw [← Char.ofNat_toNat c]
  change 48 ≤ c.toNat at hlow
  change c.toNat ≤ 57 at hhigh
  generalize c.toNat = n at hlow hhigh
  interval_cases n <;> rfl

theorem casefold_numbered_injective (name : String) :
    Function.Injective fun n : ℕ => casefold s!"{name} ({n})" := by
  intro m n h
  have hdigits : ∀ n : ℕ, (Nat.toDigits 10 n).map lowerChar = Nat.toDigits 10 n := by
    intro n
    conv_rhs => rw [← List.map_id (Nat.toDigits 10 n)]
    exact List.map_congr_left fun c hc =>
      lowerChar_of_isDigit (Nat.isDigit_of_mem_toDigits (by omega) (by omega) hc)
  have hlist := congrArg String.toList h
  simp [casefold, toLowercase, hdigits] at hlist
  exact Fresh.repr_injective (String.toList_injective (by simpa using hlist))

theorem uniqueName_ne {name friendName : String} {taken : List String} (h : name ∈ taken) :
    uniqueName friendName taken ≠ name := by
  have hmem : casefold name ∈ taken.map casefold := List.mem_map_of_mem h
  rintro rfl
  revert hmem
  unfold uniqueName
  dsimp only
  split_ifs with hused
  · split
    · rename_i i hi
      simpa using List.find?_some hi
    · rename_i hnone
      intro hlast
      obtain ⟨k, hk, hkfree⟩ := Fresh.exists_fresh (casefold_numbered_injective friendName)
        (taken.map casefold) 2
      rcases hk.lt_or_eq with hlt | rfl
      · have hused := List.find?_eq_none.mp hnone k (List.mem_range.mpr hlt)
        exact hused (decide_eq_true (Nat.add_comm k 2 ▸ hkfree))
      · exact hkfree (Nat.add_comm _ 2 ▸ hlast)
  · exact hused

/-- The name of a player who is invited later differs from those known before. -/
theorem mem_inviteFriends (roomId : RoomId) (game : Game) {known : List (String × Option UserId)}
    {friends : List (UserId × String)} {e : String × Option UserId}
    (h : e ∈ (inviteFriends roomId game known friends).2) :
    e ∈ known ∨ ∀ k ∈ known, e.1 ≠ k.1 := by
  induction friends generalizing game known with
  | nil => exact .inl h
  | cons friend friends ih =>
    rcases ih _ h with hmem | hnew
    · rcases List.mem_append.mp hmem with hmem | hmem
      · exact .inl hmem
      · obtain rfl := List.mem_singleton.mp hmem
        exact .inr fun k hk => uniqueName_ne (List.mem_map_of_mem hk)
    · exact .inr fun k hk => hnew k (List.mem_append_left _ hk)

theorem suits_createAsyncGame (ha : st.Archive) (env : Env) (hsid : isSid sid = true)
    (friends : List (UserId × String)) (turnHours : ℤ) (starter : ℕ) :
    st.presence.Suits
      (st.openedDeed (st.createAsyncGame env sid friends turnHours starter) sid) := by
  obtain heq | ⟨userId, hauth, -, heq⟩ :=
    createAsyncGame_cases st env sid friends turnHours starter <;> rw [heq]
  · exact suits_unopened ha
  · unfold asyncOpened
    dsimp only
    refine suits_openRoom fun x hx _ hid => ?_
    have htoken : st.tokenFor (st.playerAuth.lookup sid) = .user userId := by rw [tokenFor, hauth]
    rw [htoken]
    generalize (st.playerNames.lookup sid).getD anonymous = name at hx ⊢
    obtain ⟨-, -, p, rest, hplayers, hp, hrest⟩ := (invites_newAsync env (toString st.roomSeq)
      turnHours sid name).inviteFriends hsid st.roomSeq [(name, some userId)] friends
    have hmem : ∀ e ∈ (inviteFriends st.roomSeq
        ((Game.newAsync env (toString st.roomSeq) turnHours).addPlayer sid name).1
        [(name, some userId)] friends).2, e.1 = name → e.2 = some userId := fun e he hname => by
      rcases mem_inviteFriends st.roomSeq _ he with hfirst | hnew
      · rw [List.mem_singleton.mp hfirst]
      · exact absurd hname (hnew (name, some userId) (List.mem_singleton_self _))
    generalize inviteFriends st.roomSeq _ [(name, some userId)] friends = invited
      at hx hplayers hmem ⊢
    have hx : x ∈ (invited.1.startAsync env (starter % invited.1.players.length)).seats := hx
    rw [seats_startAsync, Game.seats, hplayers] at hx
    rcases List.mem_cons.mp hx with rfl | hx
    · rw [hp]
      change ((Hall.mk _ true (Table.ofList invited.2)).identity name).fits _ = true
      cases hlookup : (Table.ofList invited.2).lookup name with
      | none =>
        simp only [Hall.identity, hlookup]
        rfl
      | some account =>
        have haccount : account = some userId := hmem _ (mem_of_lookup_ofList hlookup) rfl
        simp only [Hall.identity, hlookup, haccount]
        exact fits_user (registered_ne_zero hauth)
    · obtain ⟨q, hq, rfl⟩ := List.mem_map.mp hx
      have hno := (hrest q hq).2.1
      rw [show q.id = sid from hid, hsid] at hno
      cases hno

/-! ## Every step -/

/-- Rightful steps suit the tokens. -/
theorem suits_of_rightful {i : Env × Event} (ha : st.Archive) (ht : st.Told) (h : st.Rightful i)
    (hcan : st.presence.Can (st.deed i)) : st.presence.Suits (st.deed i) := by
  obtain ⟨env, event⟩ := i
  obtain ⟨hmix, hrestores, hstarts, hloads⟩ := h
  have hclosed : ∀ r, ∀ st' : Server, st.presence.Suits (st.closedDeed st' r) := fun r st' => by
    unfold closedDeed
    split <;> trivial
  unfold deed at *
  dsimp only at hmix hcan hrestores hstarts hloads ⊢
  cases event with
  | message sid message =>
    dsimp only at hmix hcan ⊢
    by_cases hgone : sid.1 ∈ st.closed
    · rw [if_pos hgone]
      trivial
    rw [if_neg hgone] at hmix hcan ⊢
    cases message with
    | rejoinRoom token banned => exact suits_rejoinRoom hmix
    | joinRoom roomId byCode => exact suits_joinRoom ha ht hmix hcan
    | createRoom options => exact suits_createRoom ha env options
    | restoreGame gameId =>
      exact suits_restoreGame ha env fun row hrow => hrestores sid gameId row rfl hrow
    | createAsyncGame friends turnHours starter =>
      exact suits_createAsyncGame ha env sid.2 friends turnHours starter
    | openAsyncGame gameId =>
      exact suits_openAsyncGame ha hmix sid.2 fun userId row hopen =>
        hloads sid gameId userId row rfl hopen
    | startGame =>
      exact suits_startGame ha fun roomId room save hplaced hsave =>
        hstarts sid roomId room save rfl hplaced hsave
    | _ => trivial
  | startDaily sid puzzle => exact suits_startDaily ha env puzzle
  | disconnect sid =>
    dsimp only
    split <;> trivial
  | graceTimeout token seq =>
    dsimp only
    split <;> trivial
  | expireAsyncTurn roomId => exact hclosed roomId _
  | skipTurn roomId => exact hclosed roomId _
  | endGame roomId => exact hclosed roomId _
  | removePlayer roomId playerName =>
    dsimp only [removeDeed]
    split
    · trivial
    · split <;> trivial
  | disbandRoom roomId save =>
    dsimp only
    split <;> trivial
  | _ => trivial

/-- **The tokens of rightful runs** fit the seats that they stand for. -/
theorem fitting_of_rightful (h : ReachableBy Rightful st) : st.presence.Fitting := by
  refine (Reaches.invariant (P := fun st => st.Archive ∧ st.Told ∧ st.presence.Fitting) step
    (fun st hst => ?_) (fun st i hP hi => ?_) h).2.2
  · obtain ⟨db, hdb, rfl⟩ := hst
    exact ⟨.start hdb.sound, told_start db, .of_vacant (vacant_start db)⟩
  · obtain ⟨ha, ht, hfit⟩ := hP
    have hacts := acts_of_archive ha i
    refine ⟨archive_step ha i, told_step ht ha i, ?_⟩
    rw [hacts.does.presence]
    exact hfit.act ha.sane hacts.can (suits_of_rightful ha ht hi hacts.can)

end Server

end ScrabbleMagyar
