import ScrabbleMagyar.Server.Rightful
import ScrabbleMagyar.Server.Tokens

/-!
# Saved seats

A seat of a restored or correspondence game should be taken only by the player whose it is
(`Entitled`). It is in the runs whose steps are rightful (`entitled_of_attaches`); a registered
user who restores a game under the name of another player takes that player's seat
(`guest_seat_taken`).
-/

namespace ScrabbleMagyar

namespace Server

open Runs

/-! ## Whose a seat is -/

/-- A connection plays on the seat of a name. -/
def PlaysOn (st : Server) (sid : Sid) (roomId : RoomId) (name : String) : Prop :=
  st.playerRooms.lookup sid.1 = some roomId ∧ ∃ room, st.rooms.lookup roomId = some room ∧
    ∃ p ∈ room.game.players, p.id = sid.1 ∧ p.name = name ∧ p.disconnected = false

/-- An event asks for the start of the restored game of a room. -/
def Starts (st : Server) (i : Env × Event) (roomId : RoomId) : Prop :=
  ∃ (sid : Sid) (room : Room), i.2 = .message sid .startGame ∧
    st.roomForPlayer sid.1 = some (roomId, room) ∧ room.restoreSaveData.isSome = true

/-- An event attaches a connection to a seat: it did not play on it before, or only in the lobby
of the game that is started. -/
def Attaches (st : Server) (i : Env × Event) (sid : Sid) (roomId : RoomId) (name : String) : Prop :=
  (st.step i).PlaysOn sid roomId name ∧ (¬ st.PlaysOn sid roomId name ∨ st.Starts i roomId)

/-- A connection presents a token that stands for the seat of a name. -/
def Presents (st : Server) (i : Env × Event) (sid : Sid) (roomId : RoomId) (name : String)
    (token : Token) : Prop :=
  (∃ banned, i.2 = .message sid (.rejoinRoom token banned)) ∧
    ∃ s room, st.presence.stands token = some (roomId, s) ∧ st.rooms.lookup roomId = some room ∧
      ∃ p ∈ room.game.players, p.id = s ∧ p.name = name

/-- A connection may be attached to a seat: it is authenticated as the user whose the seat is, or
presents the token of the seat; on that of a guest it is not registered, or presents the token. -/
def Entitled (st : Server) (i : Env × Event) (sid : Sid) (roomId : RoomId) (name : String) :
    Identity → Prop
  | .any => True
  | .guest => (st.playerAuth.lookup sid.1).bind AuthInfo.registeredId = none ∨
      ∃ n, st.Presents i sid roomId name (.guest n)
  | .user id => (st.playerAuth.lookup sid.1).bind AuthInfo.registeredId = some id ∨
      st.Presents i sid roomId name (.user id)

/-! ## Connections that are attached -/

variable {st : Server} {sid : String} {roomId : RoomId} {token : Token}

theorem userId_tokenFor (st : Server) (auth : Option AuthInfo) :
    (st.tokenFor auth).userId = auth.bind AuthInfo.registeredId := by
  unfold tokenFor
  cases auth.bind AuthInfo.registeredId <;> rfl

theorem seated_openedDeed {st' : Server} {s : String}
    (h : st.presence.seated (st.openedDeed st' sid) = some (s, roomId, token)) :
    token = st.tokenFor (st.playerAuth.lookup s) := by
  unfold openedDeed at h
  split at h
  · cases h
    rfl
  · cases h

/-- A connection that is given a seat gets the token of its account, or has presented it. -/
theorem seated_cases {i : Env × Event} {s : String}
    (h : st.presence.seated (st.deed i) = some (s, roomId, token)) :
    token.userId = (st.playerAuth.lookup s).bind AuthInfo.registeredId ∨
      ∃ (sid : Sid) (banned : Bool) (auth : AuthInfo) (releases : Bool),
        i.2 = .message sid (.rejoinRoom token banned) ∧ sid.1 = s ∧
          st.deed i = .cameBack s token auth releases := by
  obtain ⟨env, event⟩ := i
  have hgranted : token = st.tokenFor (st.playerAuth.lookup s) →
      token.userId = (st.playerAuth.lookup s).bind AuthInfo.registeredId := fun heq =>
    heq ▸ st.userId_tokenFor _
  have hclosed : ∀ r, ∀ st' : Server, st.presence.seated (st.closedDeed st' r) = none := by
    intro r st'
    unfold closedDeed
    split <;> rfl
  unfold deed at *
  dsimp only at h ⊢
  cases event with
  | message sid message =>
    dsimp only at h ⊢
    by_cases hgone : sid.1 ∈ st.closed
    · rw [if_pos hgone] at h
      cases h
    rw [if_neg hgone] at h ⊢
    cases message with
    | rejoinRoom presented banned =>
      rcases st.rejoinDeed_cases sid presented banned with ⟨auth, releases, heq⟩ | heq | heq | heq <;>
        · have hdeed : st.presence.seated (st.rejoinDeed sid presented banned) =
            some (s, roomId, token) := h
          rw [heq] at hdeed
          first
          | cases hdeed
          | (obtain ⟨a, -, ha⟩ := Option.map_eq_some_iff.mp hdeed
             cases ha
             exact .inr ⟨sid, banned, auth, releases, rfl, rfl, heq⟩)
    | joinRoom r byCode =>
      refine .inl (hgranted ?_)
      simp only [messageDeed, joinDeed] at h
      split at h <;> cases h <;> rfl
    | createRoom options => exact .inl (hgranted (seated_openedDeed h))
    | restoreGame gameId => exact .inl (hgranted (seated_openedDeed h))
    | createAsyncGame friends turnHours starter => exact .inl (hgranted (seated_openedDeed h))
    | openAsyncGame gameId =>
      simp only [messageDeed, openAsyncDeed] at h
      cases hopen : st.openable sid gameId with
      | none =>
        rw [hopen] at h
        cases h
      | some e =>
        obtain ⟨userId, row⟩ := e
        have hauth := (openable_cases hopen).1
        simp only [hopen] at h
        split at h
        · cases h
        split at h
        · cases h
        split at h
        · split at h <;> cases h
        · cases h
          exact .inl hauth.symm
    | startGame =>
      rcases st.startDeed_cases env sid with heq | ⟨r, seats, heq⟩ <;>
        · have hdeed : st.presence.seated (st.startDeed env sid) = some (s, roomId, token) := h
          rw [heq] at hdeed
          cases hdeed
    | _ => cases h
  | startDaily sid puzzle => exact .inl (hgranted (seated_openedDeed h))
  | disconnect sid =>
    dsimp only at h
    split at h <;> cases h
  | graceTimeout token seq =>
    dsimp only at h
    split at h <;> cases h
  | expireAsyncTurn r =>
    rw [hclosed] at h
    cases h
  | skipTurn r =>
    rw [hclosed] at h
    cases h
  | endGame r =>
    rw [hclosed] at h
    cases h
  | removePlayer r playerName =>
    dsimp only [removeDeed] at h
    split at h
    · cases h
    · split at h <;> cases h
  | disbandRoom r save =>
    dsimp only at h
    split at h <;> cases h
  | _ => cases h

variable {i : Env × Event} {s : Sid} {name : String} {identity : Identity}

/-- A connection whose token fits a seat has the account of the token. -/
theorem entitled_of_account (hfits : identity.fits token = true)
    (huser : token.userId = (st.playerAuth.lookup s.1).bind AuthInfo.registeredId) :
    st.Entitled i s roomId name identity := by
  cases identity with
  | any => trivial
  | guest =>
    cases token with
    | guest n => exact .inl huser.symm
    | user id => cases hfits
  | user id =>
    obtain rfl : token = .user id := of_decide_eq_true hfits
    exact .inl huser.symm

theorem entitled_of_presents (hfits : identity.fits token = true)
    (h : st.Presents i s roomId name token) : st.Entitled i s roomId name identity := by
  cases identity with
  | any => trivial
  | guest =>
    cases token with
    | guest n => exact .inr ⟨n, h⟩
    | user id => cases hfits
  | user id =>
    obtain rfl : token = .user id := of_decide_eq_true hfits
    exact .inr h

theorem playsOn_iff : st.PlaysOn s roomId name ↔ st.presence.Holds s.1 roomId name := by
  constructor
  · rintro ⟨hr, room, hroom, p, hp, hid, hname, hon⟩
    exact ⟨hr, room.hall, hall_of_lookup hroom, p.seat, List.mem_map_of_mem hp, hid, hname, hon⟩
  · rintro ⟨hr, hall, hhall, x, hx, hid, hname, hon⟩
    obtain ⟨room, hroom, rfl⟩ := Option.map_eq_some_iff.mp hhall
    obtain ⟨p, hp, rfl⟩ := List.mem_map.mp hx
    exact ⟨hr, room, hroom, p, hp, hid, hname, hon⟩

/-- The token that a connection comes back with stands for its seat. -/
theorem presents_of_cameBack {auth : AuthInfo} {releases banned : Bool} (ha : st.Archive)
    (hi : st.Rightful i) (hevent : i.2 = .message s (.rejoinRoom token banned))
    (hdeed : st.deed i = .cameBack s.1 token auth releases)
    (hcan : st.presence.Can (.cameBack s.1 token auth releases))
    (hq : (st.presence.act (.cameBack s.1 token auth releases)).Holds s.1 roomId name)
    (hseated : st.presence.seated (.cameBack s.1 token auth releases) = some (s.1, roomId, token)) :
    st.Presents i s roomId name token := by
  obtain ⟨-, -, hreleases, -⟩ := hcan
  obtain ⟨a, haway, heq⟩ := Option.map_eq_some_iff.mp hseated
  cases heq
  have hstands := Presence.Fitting.stands_of_met hreleases haway
  obtain ⟨hall, hhall, y, hy, hname, hid⟩ := Presence.seat_of_cameBack haway hq
  have hmix := hi.unmixed
  rw [hdeed] at hmix
  -- a seat that had the identifier of the connection is that of the absence
  have hsame : y.id = a.sid := by
    refine hid.elim id fun hself => ?_
    have hbot : y.isBot = false := by
      rw [(ha.sane.proper _ hall hhall y hy).bot, hself]
      exact isBotId_of_isSid s.2
    have hmem : s.1 ∈ hall.humans :=
      List.mem_map.mpr ⟨y, List.mem_filter.mpr ⟨hy, by simp [hbot]⟩, hself⟩
    exact hself.trans ((hmix _ _ hstands).2 hall hhall hmem).symm
  obtain ⟨room, hroom, rfl⟩ := Option.map_eq_some_iff.mp hhall
  obtain ⟨p, hp, rfl⟩ := List.mem_map.mp hy
  exact ⟨⟨banned, hevent⟩, a.sid, room, hstands, hroom, p, hp, hsame, hname⟩

/-- The start of a game leaves the players and their tokens alone. -/
theorem presence_starts (ha : st.Archive) (h : st.Starts i roomId) :
    (st.step i).presence.roomOf = st.presence.roomOf ∧
      (st.step i).presence.tokenOf = st.presence.tokenOf := by
  obtain ⟨sid, -, hevent, -⟩ := h
  obtain ⟨env, event⟩ := i
  obtain rfl : event = .message sid .startGame := hevent
  rw [(acts_of_archive ha _).does.presence]
  by_cases hgone : sid.1 ∈ st.closed
  · rw [show st.deed (env, .message sid .startGame) = .nothing from if_pos hgone]
    exact ⟨rfl, rfl⟩
  · rw [show st.deed (env, .message sid .startGame) = st.startDeed env sid from if_neg hgone]
    rcases st.startDeed_cases env sid with heq | ⟨r, seats, heq⟩ <;> rw [heq] <;> exact ⟨rfl, rfl⟩

/-- **A saved seat is only taken by its owner**: in a run of rightful steps, whoever is attached to
a seat of a restored or correspondence game is entitled to it. -/
theorem entitled_of_attaches {room : Room} (h : ReachableBy Rightful st) (hi : st.Rightful i)
    (hattach : st.Attaches i s roomId name) (hroom : (st.step i).rooms.lookup roomId = some room) :
    st.Entitled i s roomId name (knownIdentity room name) := by
  have ha : st.Archive := Reaches.archive h
  have hacts := acts_of_archive ha i
  have hfit := fitting_of_rightful (Reaches.next step h hi)
  obtain ⟨hplays, hnew⟩ := hattach
  have hholds := playsOn_iff.mp hplays
  -- the token of the connection fits the seat
  have hfits : ∀ token, (st.step i).presence.tokenOf s.1 = some token →
      (knownIdentity room name).fits token = true := by
    intro token htoken
    obtain ⟨hr, hall, hhall, x, hx, hid, hname, -⟩ := hholds
    obtain rfl := Option.some.inj ((hall_of_lookup hroom).symm.trans hhall)
    have hbot : x.isBot = false := by
      rw [((archive_step ha i).sane.proper _ _ hhall x hx).bot, hid]
      exact isBotId_of_isSid s.2
    have hfits := hfit.token s.1 token roomId htoken hr _ hhall x hx hbot hid
    rwa [hname] at hfits
  have hstart : st.Starts i roomId → st.Entitled i s roomId name (knownIdentity room name) := by
    intro hstarts
    obtain ⟨hroomOf, htokenOf⟩ := presence_starts ha hstarts
    obtain ⟨sid, lobby, hevent, hplaced, hsave⟩ := hstarts
    obtain ⟨save, hsave⟩ := Option.isSome_iff_exists.mp hsave
    obtain ⟨token, htoken, huser⟩ := (hi.starts sid roomId lobby save hevent hplaced hsave).account
      s.1 ((congrFun hroomOf s.1).symm.trans hholds.1)
    exact entitled_of_account (hfits token (htokenOf ▸ htoken)) huser
  rcases hnew with hnew | hstarts
  · have hpresence := hacts.does.presence
    rw [hpresence] at hholds hfits
    rcases Presence.holds_act hacts.can s.2 hholds with hp | ⟨token, hseated, htoken⟩ | ⟨seats, hd⟩
    · exact absurd (playsOn_iff.mpr hp) hnew
    · have hseat := hfits token htoken
      rcases seated_cases hseated with huser | ⟨sid, banned, auth, releases, hevent, hsid, hdeed⟩
      · exact entitled_of_account hseat huser
      · obtain rfl : sid = s := Subtype.ext hsid
        rw [hdeed] at hholds hseated
        exact entitled_of_presents hseat (presents_of_cameBack ha hi hevent hdeed
          (hdeed ▸ hacts.can) hholds hseated)
    · obtain ⟨sid, hevent, hstartDeed⟩ := startGame_of_deed hd
      obtain ⟨lobby, save, -, hplaced, hsave, -⟩ := startDeed_restored hstartDeed
      exact hstart ⟨sid, lobby, hevent, hplaced, hsave ▸ rfl⟩
  · exact hstart hstarts

/-! ## A seat that is taken -/

instance (st : Server) (s : Sid) (roomId : RoomId) (name : String) :
    Decidable (st.PlaysOn s roomId name) :=
  decidable_of_iff ((decide (st.playerRooms.lookup s.1 = some roomId) &&
      (st.rooms.lookup roomId).any fun room =>
        room.game.players.any fun p => p.id = s.1 ∧ p.name = name ∧ p.disconnected = false) = true)
    <| by cases h : st.rooms.lookup roomId <;> simp [PlaysOn, h]

/-- A registered user and a guest begin a game. -/
def begun : List Event :=
  [.message anna (.setName "Anna" registered), .message bela (.setName "Béla" .guest),
   .message anna (.createRoom casual), .message bela (.joinRoom 0 false),
   .message anna .startGame]

/-- The server is started again, and the registered user logs in. -/
def startedAgain : Server :=
  step (start (lifeOf begun).db) (Game.stillEnv, .message anna (.setName "Anna" registered))

theorem rightful_setName (st : Server) (env : Env) (s : Sid) (name : String) (auth : AuthInfo) :
    st.Rightful (env, .message s (.setName name auth)) where
  unmixed := by
    by_cases hgone : s.1 ∈ st.closed
    · rw [show st.deed (env, .message s (.setName name auth)) = .nothing from if_pos hgone]
      trivial
    · rw [show st.deed (env, .message s (.setName name auth)) = .named s (some auth) from
        if_neg hgone]
      trivial
  restores := fun _ _ _ h => by cases h
  starts := fun _ _ _ _ h => by cases h
  loads := fun _ _ _ _ h => by cases h

theorem rightful_restoreGame {st : Server} {env : Env} {s : Sid} {gameId : ℕ}
    (h : ((st.restorable s.1 gameId).all fun row =>
      identityMatches (row.identity ((st.playerNames.lookup s.1).getD anonymous))
        (st.playerAuth.lookup s.1)) = true) :
    st.Rightful (env, .message s (.restoreGame gameId)) where
  unmixed := by
    by_cases hgone : s.1 ∈ st.closed
    · rw [show st.deed (env, .message s (.restoreGame gameId)) = .nothing from if_pos hgone]
      trivial
    · rw [show st.deed (env, .message s (.restoreGame gameId)) =
        st.openedDeed (st.restoreGame env s gameId) s from if_neg hgone]
      rcases st.openedDeed_cases (st.restoreGame env s gameId) s with heq | ⟨token, hall, heq⟩ <;>
        · rw [heq]
          trivial
  restores := fun sid gameId' row hevent hrow => by
    cases hevent
    rw [hrow] at h
    exact h
  starts := fun _ _ _ _ h => by cases h
  loads := fun _ _ _ _ h => by cases h

theorem reachable_startedAgain : ReachableBy Rightful startedAgain :=
  ⟨start (lifeOf begun).db, [(Game.stillEnv, .message anna (.setName "Anna" registered))],
    ⟨_, .lived .new (along_of_forall step (fun _ _ _ => trivial) _), rfl⟩,
    ⟨rightful_setName _ _ _ _ _, trivial⟩, rfl⟩

/-- The user restores the game and has the seat that is stored as the user's. -/
theorem restorer_entitled :
    startedAgain.Attaches (Game.stillEnv, .message anna (.restoreGame 1)) anna 1 "Anna" ∧
      startedAgain.Entitled (Game.stillEnv, .message anna (.restoreGame 1)) anna 1 "Anna"
        (.user 1) := by
  have hattach : startedAgain.Attaches (Game.stillEnv, .message anna (.restoreGame 1)) anna 1
      "Anna" := ⟨by decide +kernel, .inl (by decide +kernel)⟩
  obtain ⟨room, hroom⟩ := Option.isSome_iff_exists.mp (show ((startedAgain.step
    (Game.stillEnv, .message anna (.restoreGame 1))).rooms.lookup 1).isSome = true by
      decide +kernel)
  have hseat : ((startedAgain.step (Game.stillEnv, .message anna (.restoreGame 1))).rooms.lookup
      1).map (fun room => knownIdentity room "Anna") = some (.user 1) := by decide +kernel
  rw [hroom] at hseat
  have hentitled := entitled_of_attaches reachable_startedAgain
    (rightful_restoreGame (by decide +kernel)) hattach hroom
  have hseat : knownIdentity room "Anna" = .user 1 := Option.some.inj hseat
  rw [hseat] at hentitled
  exact ⟨hattach, hentitled⟩

/-- The accounts that connections take are those of guests or of users who keep their names. -/
def Genuine (names : UserId → String) (_ : Server) (i : Env × Event) : Prop :=
  ∀ (sid : Sid) (name : String) (auth : AuthInfo), i.2 = .message sid (.setName name auth) →
    auth = .guest ∨ ∃ id, id ≠ 0 ∧ auth = ⟨some id, false⟩ ∧ name = names id

/-- A guest joins the game of another one and logs in then, under the name that the other one has;
this user leaves the game, and restores it. -/
def underAnotherName : List Event :=
  [.message anna (.setName "Anna" .guest), .message bela (.setName "Béla" .guest),
   .message anna (.createRoom casual), .message bela (.joinRoom 0 false),
   .message bela (.setName "Anna" registered), .message anna .startGame,
   .message bela .leaveRoom]

/-- **A guest's seat is taken** by a registered user, though nobody has been renamed and no token
is presented. -/
theorem guest_seat_taken : ¬ ∀ names st, ReachableBy (Genuine names) st →
    ∀ i s roomId name room, Genuine names st i → st.Attaches i s roomId name →
      (st.step i).rooms.lookup roomId = some room →
        st.Entitled i s roomId name (knownIdentity room name) := by
  intro h
  have hreach : ReachableBy (Genuine fun _ => "Anna") (lifeOf underAnotherName) := by
    refine ⟨start Db.empty, _, ⟨Db.empty, .new, rfl⟩, along_of_forall step (fun i hi st => ?_) _, rfl⟩
    intro sid name auth hevent
    obtain ⟨e, he, rfl⟩ := List.mem_map.mp hi
    simp only [underAnotherName, List.mem_cons, List.not_mem_nil, or_false] at he
    rcases he with rfl | rfl | rfl | rfl | rfl | rfl | rfl <;> cases hevent
    · exact .inl rfl
    · exact .inl rfl
    · exact .inr ⟨1, by decide, rfl, rfl⟩
  obtain ⟨room, hroom⟩ := Option.isSome_iff_exists.mp (show (((lifeOf underAnotherName).step
    (Game.stillEnv, .message bela (.restoreGame 1))).rooms.lookup 1).isSome = true by
      decide +kernel)
  have hseat : (((lifeOf underAnotherName).step
      (Game.stillEnv, .message bela (.restoreGame 1))).rooms.lookup 1).map
        (fun room => knownIdentity room "Anna") = some .guest := by decide +kernel
  rw [hroom] at hseat
  have hentitled := h (fun _ => "Anna") _ hreach (Game.stillEnv, .message bela (.restoreGame 1))
    bela 1 "Anna" room (fun _ _ _ hevent => by cases hevent)
    ⟨by decide +kernel, .inl (by decide +kernel)⟩ hroom
  have hseat : knownIdentity room "Anna" = .guest := Option.some.inj hseat
  rw [hseat] at hentitled
  rcases hentitled with hguest | ⟨n, ⟨banned, hevent⟩, -⟩
  · revert hguest
    decide +kernel
  · cases hevent

end Server

end ScrabbleMagyar
