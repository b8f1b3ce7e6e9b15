import ScrabbleMagyar.Server.Seating

/-!
# One connection, one seat

A connection should have a connected seat in the room it plays in and nowhere else (`OneSeat`).
It does as long as nobody is given a seat who has another one, and no room is given up whose
players play elsewhere (`Seemly`, `oneSeat_of_seemly`); a player who opens a second room and then
comes back with the token of a first one has two (`two_seats`).
-/

namespace ScrabbleMagyar

namespace Server

open Runs

/-- A connected seat of a connection in a room. -/
def SeatedIn (st : Server) (s : Sid) (r : RoomId) : Prop :=
  ∃ room, st.rooms.lookup r = some room ∧
    ∃ p ∈ room.game.players, p.id = s.1 ∧ p.disconnected = false

instance (st : Server) (s : Sid) (r : RoomId) : Decidable (st.SeatedIn s r) :=
  decidable_of_iff (((st.rooms.lookup r).any fun room =>
      room.game.players.any fun p => p.id = s.1 ∧ p.disconnected = false) = true) <| by
    cases h : st.rooms.lookup r <;> simp [SeatedIn, h]

/-- A connection sits where it plays, once, and acts on that seat. -/
structure OneSeat (st : Server) (s : Sid) : Prop where
  seat : ∀ r, st.SeatedIn s r ↔ st.playerRooms.lookup s.1 = some r
  once : ∀ r room, st.rooms.lookup r = some room →
    (room.game.players.filter fun p => p.id = s.1 ∧ p.disconnected = false).length ≤ 1
  acts : ∀ r, st.SeatedIn s r → ∃ room p, st.roomForPlayer s.1 = some (r, room) ∧
    room.game.players.find? (fun p => p.id = s.1) = some p ∧ p.disconnected = false

/-! ## The players of a lobby -/

/-- The saved seats that have the name of a player of the lobby, and those of its identifier
whose players are missing. -/
def claimed (lobby saved : List Player) (y : Player) : List Player :=
  saved.filter fun x => !x.isBot &&
    (x.name == y.name || x.id == y.id && lobby.all fun z => z.name != x.name)

/-- A lobby whose connected players, and no others, have a seat in the saved game. -/
structure Gathered (lobby saved : List Player) : Prop where
  names : (lobby.map Player.name).Nodup
  present : ∀ y ∈ lobby, y.disconnected = true → ∀ x ∈ saved, x.isBot = false → x.name ≠ y.name
  seat : ∀ y ∈ lobby, y.disconnected = false →
    ∃ x l, claimed lobby saved y = x :: l ∧ x.name = y.name ∧ ∀ z ∈ l, z.name ≠ y.name

/-- A step that seats nobody who sits elsewhere, and gives up no room whose players sit
elsewhere. -/
structure Seemly (st : Server) (i : Env × Event) : Prop where
  fair : st.presence.Fair (fun s => isSid s = true) (fun s => isSid s = true) (st.deed i)
  gathered : ∀ r seats room save saved, st.deed i = .restored r seats →
    st.rooms.lookup r = some room → room.restoreSaveData = some save →
      Game.fromSaveDict i.1 save.stateJson = .ok saved → Gathered room.game.players saved.players

section

variable {lobby saved : List Player} {x y : Player} {s : String}

theorem pairSeat_of_bot (h : x.isBot = true) : (pairSeat lobby x).id = x.id := by
  rw [pairSeat, if_pos h]

theorem pairSeat_of_mem (hnames : (lobby.map Player.name).Nodup) (hx : x.isBot = false)
    (hy : y ∈ lobby) (hname : x.name = y.name) :
    pairSeat lobby x = { x with id := y.id, disconnected := false } := by
  have hfind : lobby.reverse.find? (fun p => p.name = x.name) = some y := by
    cases hfind : lobby.reverse.find? fun p => p.name = x.name with
    | none =>
      have := List.find?_eq_none.mp hfind y (List.mem_reverse.mpr hy)
      simp [hname] at this
    | some p =>
      have hp : p ∈ lobby := List.mem_reverse.mp (List.mem_of_find?_eq_some hfind)
      have hpname : p.name = x.name := by simpa using List.find?_some hfind
      rw [List.inj_on_of_nodup_map hnames hp hy (hpname.trans hname)]
  rw [pairSeat, if_neg (by simp [hx]), hfind]

theorem pairSeat_of_missing (hx : x.isBot = false) (h : ∀ y ∈ lobby, y.name ≠ x.name) :
    pairSeat lobby x = { x with disconnected := true } := by
  have hfind : lobby.reverse.find? (fun p => p.name = x.name) = none :=
    List.find?_eq_none.mpr fun y hy => by simpa using h y (List.mem_reverse.mp hy)
  rw [pairSeat, if_neg (by simp [hx]), hfind]

/-- A connected seat of a connection in a restored game is that of a connected player of the
lobby. -/
theorem Gathered.connected (h : Gathered lobby saved) (hs : isSid s = true)
    (hbots : ∀ x ∈ saved, x.isBot = isBotId x.id) (hx : x ∈ saved)
    (hid : (pairSeat lobby x).id = s) (hon : (pairSeat lobby x).disconnected = false) :
    ∃ y ∈ lobby, y.id = s ∧ y.disconnected = false ∧ x.name = y.name := by
  have hbot : x.isBot = false := by
    cases hb : x.isBot with
    | false => rfl
    | true =>
      rw [pairSeat_of_bot hb] at hid
      have := (hbots x hx).symm.trans hb
      rw [hid, isBotId_of_isSid hs] at this
      cases this
  by_cases hy : ∃ y ∈ lobby, y.name = x.name
  · obtain ⟨y, hy, hname⟩ := hy
    rw [pairSeat_of_mem h.names hbot hy hname.symm] at hid
    refine ⟨y, hy, hid, ?_, hname.symm⟩
    cases hoff : y.disconnected with
    | false => rfl
    | true => exact absurd hname.symm (h.present y hy hoff x hx hbot)
  · rw [pairSeat_of_missing hbot fun y hy' hname => hy ⟨y, hy', hname⟩] at hon
    cases hon

/-- The seats of a connected player of the lobby in the restored game are the claimed ones. -/
theorem Gathered.own_eq (h : Gathered lobby saved) (hs : isSid s = true)
    (hbots : ∀ x ∈ saved, x.isBot = isBotId x.id) (hy : y ∈ lobby) (hid : y.id = s)
    (hone : ∀ z ∈ lobby, z.id = s → z.disconnected = false → z.name = y.name) :
    Hall.own s ((saved.map (pairSeat lobby)).map Player.seat) =
      (claimed lobby saved y).map fun x => (pairSeat lobby x).seat := by
  rw [Hall.own, List.map_map, List.filter_map, claimed]
  refine congrArg (List.map _) (List.filter_congr fun x hx => ?_)
  change decide ((pairSeat lobby x).id = s) = _
  cases hbot : x.isBot with
  | true =>
    have hne : x.id ≠ s := by
      rintro rfl
      have := (hbots x hx).symm.trans hbot
      rw [isBotId_of_isSid hs] at this
      cases this
    rw [pairSeat_of_bot hbot]
    simp [hne]
  | false =>
    by_cases hz : ∃ z ∈ lobby, z.name = x.name
    · obtain ⟨z, hz, hname⟩ := hz
      have hpair := pairSeat_of_mem h.names hbot hz hname.symm
      have hall : (lobby.all fun z => z.name != x.name) = false :=
        List.all_eq_false.mpr ⟨z, hz, by simp [hname]⟩
      have hon : z.disconnected = false := by
        cases hoff : z.disconnected with
        | false => rfl
        | true => exact absurd hname.symm (h.present z hz hoff x hx hbot)
      rw [hpair, hall]
      simp only [Bool.not_false, Bool.and_false, Bool.or_false, Bool.true_and]
      have hiff : z.id = s ↔ x.name = y.name := by
        constructor
        · exact fun hzid => hname.symm.trans (hone z hz hzid hon)
        · intro hxy
          rw [List.inj_on_of_nodup_map h.names hz hy (hname.trans hxy), hid]
      simp [hiff, beq_eq_decide]
    · have hmiss : ∀ z ∈ lobby, z.name ≠ x.name := fun z hz' hname => hz ⟨z, hz', hname⟩
      have hall : (lobby.all fun z => z.name != x.name) = true :=
        List.all_eq_true.mpr fun z hz => by simpa using hmiss z hz
      have hxy : x.name ≠ y.name := fun heq => hmiss y hy heq.symm
      rw [pairSeat_of_missing hbot hmiss, hall]
      simp [beq_eq_decide, hxy, hid]

/-- A lobby that is gathered keeps its seats. -/
theorem Gathered.keeps (h : Gathered lobby saved) (hbots : ∀ x ∈ saved, x.isBot = isBotId x.id)
    {p : Presence} {r : RoomId} {hall : Hall} (hhall : p.halls r = some hall)
    (hseats : hall.seats = lobby.map Player.seat) (honce : ∀ s, isSid s = true → p.Once s r) :
    p.Keeps (fun s => isSid s = true) (fun s => isSid s = true) r
      ((saved.map (pairSeat lobby)).map Player.seat) := by
  intro s hs
  have hone : ∀ y ∈ lobby, y.id = s → y.disconnected = false →
      ∀ z ∈ lobby, z.id = s → z.disconnected = false → z.name = y.name := by
    intro y hy hyid hyon z hz hzid hzon
    have hfirst := honce s hs hall hhall
    rw [Hall.FirstOnly] at hfirst
    have hown : ∀ w ∈ lobby, w.id = s → w.seat ∈ Hall.own s hall.seats := fun w hw hwid =>
      List.mem_filter.mpr ⟨hseats ▸ List.mem_map_of_mem hw,
        decide_eq_true (show w.seat.id = s from hwid)⟩
    cases hl : Hall.own s hall.seats with
    | nil => simpa [hl] using hown y hy hyid
    | cons a l =>
      rw [hl] at hfirst hown
      have hhead : ∀ w ∈ lobby, w.id = s → w.disconnected = false → w.seat = a := by
        intro w hw hwid hwon
        rcases List.mem_cons.mp (hown w hw hwid) with heq | htail
        · exact heq
        · have hoff : w.disconnected = true := hfirst w.seat htail
          rw [hwon] at hoff
          cases hoff
      exact congrArg Seat.name ((hhead z hz hzid hzon).trans (hhead y hy hyid hyon).symm)
  refine ⟨?_, ?_, ?_⟩
  · rintro ⟨x', hx', hid, hon⟩
    rw [List.map_map] at hx'
    obtain ⟨x, hx, rfl⟩ := List.mem_map.mp hx'
    obtain ⟨y, hy, hyid, hyon, -⟩ := h.connected hs hbots hx hid hon
    exact ⟨hall, hhall, y.seat, hseats ▸ List.mem_map_of_mem hy, hyid, hyon⟩
  · by_cases hsits : ∃ y ∈ lobby, y.id = s ∧ y.disconnected = false
    · obtain ⟨y, hy, hyid, hyon⟩ := hsits
      obtain ⟨x, l, hclaimed, -, hothers⟩ := h.seat y hy hyon
      rw [Hall.FirstOnly, h.own_eq hs hbots hy hyid (hone y hy hyid hyon), hclaimed, List.map_cons,
        List.tail_cons]
      intro z' hz'
      obtain ⟨z, hz, rfl⟩ := List.mem_map.mp hz'
      have hmem : z ∈ claimed lobby saved y := hclaimed ▸ List.mem_cons_of_mem x hz
      obtain ⟨-, hz'⟩ := List.mem_filter.mp hmem
      simp only [Bool.and_eq_true, Bool.or_eq_true, Bool.not_eq_true', beq_iff_eq, bne_iff_ne,
        List.all_eq_true, hothers z hz, false_or] at hz'
      obtain ⟨hbot, -, hmiss⟩ := hz'
      exact congrArg Player.disconnected (pairSeat_of_missing hbot hmiss)
    · intro x' hx'
      have hx'' := List.mem_of_mem_filter (List.mem_of_mem_tail hx')
      have hid : x'.id = s := by simpa using (List.mem_filter.mp (List.mem_of_mem_tail hx')).2
      rw [List.map_map] at hx''
      obtain ⟨x, hx, rfl⟩ := List.mem_map.mp hx''
      cases hoff : ((Player.seat ∘ pairSeat lobby) x).disconnected with
      | true => rfl
      | false =>
        obtain ⟨y, hy, hyid, hyon, -⟩ := h.connected hs hbots hx hid hoff
        exact absurd ⟨y, hy, hyid, hyon⟩ hsits
  · rintro - ⟨hall', hhall', y', hy', hid, hon⟩
    obtain rfl := Option.some.inj (hhall.symm.trans hhall')
    rw [hseats] at hy'
    obtain ⟨y, hy, rfl⟩ := List.mem_map.mp hy'
    obtain ⟨x, l, hclaimed, hname, -⟩ := h.seat y hy hon
    have hmem : x ∈ claimed lobby saved y := hclaimed ▸ List.mem_cons_self
    obtain ⟨hx, hbot⟩ := List.mem_filter.mp hmem
    rw [Bool.and_eq_true, Bool.not_eq_true'] at hbot
    have hpair := pairSeat_of_mem h.names hbot.1 hy hname
    refine ⟨(pairSeat lobby x).seat, List.mem_map_of_mem (List.mem_map_of_mem hx), ?_, ?_⟩
    · exact (congrArg Player.id hpair).trans hid
    · exact congrArg Player.disconnected hpair

end

/-! ## Runs of seemly steps -/

theorem seatedIn_iff {st : Server} {s : Sid} {r : RoomId} :
    st.SeatedIn s r ↔ st.presence.Sits s.1 r := by
  constructor
  · rintro ⟨room, hroom, p, hp, hid, hon⟩
    exact ⟨room.hall, hall_of_lookup hroom, p.seat, List.mem_map_of_mem hp, hid, hon⟩
  · rintro ⟨hall, hhall, x, hx, hid, hon⟩
    obtain ⟨room, hroom, rfl⟩ := Option.map_eq_some_iff.mp hhall
    obtain ⟨p, hp, rfl⟩ := List.mem_map.mp hx
    exact ⟨room, hroom, p, hp, hid, hon⟩

/-- Only the first seat of a connection is connected: there is one, which is found by its
identifier. -/
theorem firstOnly_players {s : String} {l : List Player}
    (h : Hall.FirstOnly s (l.map Player.seat)) :
    (l.filter fun p => p.id = s ∧ p.disconnected = false).length ≤ 1 ∧
      ((∃ p ∈ l, p.id = s ∧ p.disconnected = false) →
        ∃ p, l.find? (fun p => p.id = s) = some p ∧ p.disconnected = false) := by
  have hown : Hall.own s (l.map Player.seat) = (l.filter fun p => p.id = s).map Player.seat := by
    rw [Hall.own, List.filter_map]
    rfl
  have hfilter : (l.filter fun p => p.id = s ∧ p.disconnected = false) =
      (l.filter fun p => p.id = s).filter fun p => p.disconnected = false := by
    rw [List.filter_filter]
    exact List.filter_congr fun p _ => by simp [and_comm]
  have hfind : l.find? (fun p => p.id = s) = (l.filter fun p => p.id = s).head? :=
    (List.head?_filter ..).symm
  rw [Hall.FirstOnly, hown] at h
  rw [hfilter, hfind]
  cases hl : l.filter fun p => p.id = s with
  | nil =>
    refine ⟨by simp, ?_⟩
    rintro ⟨p, hp, hid, -⟩
    have := List.filter_eq_nil_iff.mp hl p hp
    simp [hid] at this
  | cons q tail =>
    rw [hl, List.map_cons, List.tail_cons] at h
    have hoff : ∀ p ∈ tail, p.disconnected = true := fun p hp =>
      h p.seat (List.mem_map_of_mem hp)
    have htail : tail.filter (fun p => p.disconnected = false) = [] :=
      List.filter_eq_nil_iff.mpr fun p hp => by simp [hoff p hp]
    refine ⟨?_, ?_⟩
    · rw [List.filter_cons, htail]
      split <;> simp
    · rintro ⟨p, hp, hid, hon⟩
      refine ⟨q, rfl, ?_⟩
      have hmem : p ∈ q :: tail := hl ▸ List.mem_filter.mpr ⟨hp, by simpa using hid⟩
      rcases List.mem_cons.mp hmem with rfl | hmem
      · exact hon
      · rw [hoff p hmem] at hon
        cases hon

/-- **Seemly steps keep the connections seated.** -/
theorem seated_of_seemly {st : Server} (h : ReachableBy Seemly st) :
    st.presence.Seated (fun s => isSid s = true) (fun s => isSid s = true) ∧ st.presence.Timed := by
  refine presence_invariant (P := fun p => p.Seated (fun s => isSid s = true)
    (fun s => isSid s = true) ∧ p.Timed) (Q := Seemly) (fun p hp => ?_)
    (fun st i ha hP hs hcan hQ => ?_) h
  · exact ⟨.of_vacant hp, .of_vacant hp⟩
  · obtain ⟨hseated, htimed⟩ := hP
    have hfresh := ha.sane.fresh_hall
    refine ⟨hseated.act ha.sane htimed (fun _ hs => hs) (fun _ hs => hs) (fun _ hs _ => hs) hcan
      hQ.fair fun r seats hdeed => ?_, htimed.act hcan hfresh⟩
    obtain ⟨room, save, game, hroom, hsave, hgame, rfl⟩ := restored_of_deed hdeed
    obtain ⟨saved, hload, hseats⟩ := restoredGame_seats hgame
    obtain ⟨saved', hload', -, -, hbots, -⟩ := (ha.lobbies r room save hroom hsave).sound.load i.1
    obtain rfl := Except.ok.inj (hload.symm.trans hload')
    rw [hseats]
    exact (hQ.gathered r _ room save saved hdeed hroom hsave hload).keeps hbots
      (hall_of_lookup hroom) rfl fun s hs => hseated.once s r hs

/-- **One connection, one seat**, in every state that is reached by seemly steps. -/
theorem oneSeat_of_seemly {st : Server} (h : ReachableBy Seemly st) (s : Sid) : st.OneSeat s := by
  obtain ⟨hseated, -⟩ := seated_of_seemly h
  have hiff : ∀ r, st.SeatedIn s r ↔ st.playerRooms.lookup s.1 = some r := fun r =>
    seatedIn_iff.trans ⟨hseated.room s.1 r s.2, hseated.seat s.1 r s.2⟩
  refine ⟨hiff, fun r room hroom => ?_, fun r hsits => ?_⟩
  · exact (firstOnly_players (hseated.once s.1 r s.2 room.hall (hall_of_lookup hroom))).1
  · have hr := (hiff r).mp hsits
    obtain ⟨room, hroom, hseat⟩ := hsits
    obtain ⟨p, hp, hon⟩ :=
      (firstOnly_players (hseated.once s.1 r s.2 room.hall (hall_of_lookup hroom))).2 hseat
    exact ⟨room, p, by rw [roomForPlayer, hr, Option.bind_some, hroom, Option.map_some], hp, hon⟩

/-! ## Seemly events -/

section Events

variable {st : Server} {env : Env} {s : Sid}

/-- Only the start of a saved game has to gather its players. -/
theorem seemly_of_fair {i : Env × Event} (hstart : ∀ s, i.2 ≠ .message s .startGame)
    (hfair : st.presence.Fair (fun s => isSid s = true) (fun s => isSid s = true) (st.deed i)) :
    Seemly st i where
  fair := hfair
  gathered r seats room save saved hdeed := by
    obtain ⟨s, hevent, -⟩ := startGame_of_deed hdeed
    exact absurd hevent (hstart s)

/-- Nothing comes of the message of a broken connection. -/
theorem fair_message {message : Message}
    (hfair : st.presence.Fair (fun s => isSid s = true) (fun s => isSid s = true)
      (st.messageDeed env s message)) :
    st.presence.Fair (fun s => isSid s = true) (fun s => isSid s = true)
      (st.deed (env, .message s message)) := by
  by_cases hs : s.1 ∈ st.closed
  · rw [show st.deed (env, .message s message) = .nothing from if_pos hs]
    trivial
  · rwa [show st.deed (env, .message s message) = st.messageDeed env s message from if_neg hs]

theorem seemly_setName (name : String) (auth : AuthInfo) :
    Seemly st (env, .message s (.setName name auth)) :=
  seemly_of_fair (by simp) (fair_message trivial)

theorem seemly_createRoom (options : RoomOptions) :
    Seemly st (env, .message s (.createRoom options)) := by
  refine seemly_of_fair (by simp) (fair_message ?_)
  rcases st.openedDeed_cases (st.createRoom env s options) s with heq | ⟨token, hall, heq⟩ <;>
    rw [messageDeed, heq] <;> trivial

/-- Nobody joins a game late that has not started. -/
theorem joinOf_ne_late {roomId : RoomId} {byCode : Bool}
    (hwaiting : (st.rooms.lookup roomId).all (fun room => !room.game.started) = true) (old : String) :
    st.joinOf s roomId byCode ≠ .late old := by
  intro hjoin
  unfold joinOf at hjoin
  cases hroom : st.rooms.lookup roomId with
  | none => simp [hroom] at hjoin
  | some room =>
    have hstarted : room.game.started = false := by simpa [hroom] using hwaiting
    simp only [hroom, hstarted, Bool.false_eq_true, if_false] at hjoin
    repeat' split at hjoin
    all_goals cases hjoin

/-- A connection that joins a room whose game has not started has a new seat. -/
theorem seemly_joinRoom {roomId : RoomId} {byCode : Bool}
    (hwaiting : (st.rooms.lookup roomId).all (fun room => !room.game.started) = true) :
    Seemly st (env, .message s (.joinRoom roomId byCode)) := by
  refine seemly_of_fair (by simp) (fair_message ?_)
  rw [messageDeed, joinDeed]
  cases hjoin : st.joinOf s roomId byCode with
  | refused => trivial
  | late old => exact absurd hjoin (joinOf_ne_late hwaiting old)
  | seat => trivial

/-- A connection that breaks gives up no room. -/
theorem seemly_disconnect : Seemly st (env, .disconnect s) := by
  refine seemly_of_fair (by simp) ?_
  unfold deed
  dsimp only
  split
  · trivial
  · cases (st.leaveSpectate s).breakOf s <;> trivial

theorem leaveOf_ne_disbanded
    (howner : ∀ e ∈ st.roomForPlayer s, e.2.owner = some s.1 → e.2.isRunning = false) (r : RoomId) :
    st.leaveOf s ≠ .disbanded r := by
  intro hleave
  unfold leaveOf at hleave
  split at hleave
  · cases hleave
  · rename_i roomId room hroom
    split at hleave
    · cases hleave
    split at hleave
    · rename_i howns
      exact absurd (howns.2.symm.trans (howner _ hroom howns.1)) (by simp)
    · repeat' split at hleave
      all_goals cases hleave

/-- A player who leaves gives up no room but as the owner of a running game. -/
theorem seemly_leaveRoom
    (howner : ∀ e ∈ st.roomForPlayer s, e.2.owner = some s.1 → e.2.isRunning = false) :
    Seemly st (env, .message s .leaveRoom) := by
  refine seemly_of_fair (by simp) (fair_message ?_)
  rw [messageDeed]
  cases hleave : st.leaveOf s with
  | disbanded r => exact absurd hleave (leaveOf_ne_disbanded howner r)
  | _ => trivial

/-- A new connection may take the seat that another one has left. -/
theorem seemly_rejoinRoom {token : Token} {banned : Bool} (hreleases : st.releases token = false)
    (hnew : ∀ e ∈ st.rooms.entries, ∀ p ∈ e.2.game.players, p.id ≠ s.1)
    (hleft : ∀ info ∈ st.disconnectedPlayers.lookup token,
      ∀ e ∈ st.rooms.entries, ∀ p ∈ e.2.game.players, p.id = info.sid → p.disconnected = true) :
    Seemly st (env, .message s (.rejoinRoom token banned)) := by
  have hentry {r : RoomId} {h : Hall} (hhall : st.presence.halls r = some h) :
      ∃ room, ⟨r, room⟩ ∈ st.rooms.entries ∧ h.seats = room.game.players.map Player.seat := by
    obtain ⟨room, hroom, rfl⟩ := Option.map_eq_some_iff.mp hhall
    exact ⟨room, AList.mem_lookup_iff.mp hroom, rfl⟩
  refine seemly_of_fair (by simp) (fair_message ?_)
  rw [messageDeed, rejoinDeed, hreleases]
  repeat' split
  all_goals try trivial
  refine ⟨fun r hsits => ?_, fun a h haway hhall => ⟨fun hbefore => ?_, fun _ _ hsits => ?_⟩⟩
  · obtain ⟨h, hhall, x, hx, hid, -⟩ := hsits
    obtain ⟨room, hroom, hseats⟩ := hentry hhall
    rw [hseats] at hx
    obtain ⟨p, hp, rfl⟩ := List.mem_map.mp hx
    exact hnew _ hroom p hp hid
  · obtain ⟨room, hroom, hseats⟩ := hentry hhall
    obtain ⟨x, hx, hid⟩ := hbefore
    rw [hseats] at hx
    obtain ⟨p, hp, rfl⟩ := List.mem_map.mp (List.takeWhile_subset _ hx)
    exact hnew _ hroom p hp hid
  · obtain ⟨info, hinfo, rfl⟩ := Option.map_eq_some_iff.mp haway
    obtain ⟨h, hhall, x, hx, hid, hon⟩ := hsits
    obtain ⟨room, hroom, hseats⟩ := hentry hhall
    rw [hseats] at hx
    obtain ⟨p, hp, rfl⟩ := List.mem_map.mp hx
    exact absurd ((hleft info hinfo _ hroom p hp hid).symm.trans hon) (by simp)

end Events

/-! ## Two seats -/

def anna : Sid := ⟨"a", by decide⟩

def bela : Sid := ⟨"b", by decide⟩

/-- What a room is opened with that does not limit its turns. -/
def casual : RoomOptions := ⟨4, false, false, 0, 3, []⟩

/-- Two guests have a room each; the second one breaks, and the first one comes back with its
token. -/
def twoRooms : List Event :=
  [.message anna (.setName "Anna" .guest), .message bela (.setName "Béla" .guest),
   .message anna (.createRoom casual), .message bela (.createRoom casual), .disconnect bela,
   .message anna (.rejoinRoom (.guest 1) false)]

/-- Another connection of the second player. -/
def belaToo : Sid := ⟨"b2", by decide⟩

/-- A guest joins the room of another one, breaks, comes back with a new connection and leaves. -/
def cameAndWent : List Event :=
  [.message anna (.setName "Anna" .guest), .message bela (.setName "Béla" .guest),
   .message anna (.createRoom casual), .message bela (.joinRoom 0 false), .disconnect bela,
   .message belaToo (.rejoinRoom (.guest 1) false), .message belaToo .leaveRoom]

theorem seemly_cameAndWent : Along step Seemly (start Db.empty)
    (cameAndWent.map fun e => (Game.stillEnv, e)) :=
  ⟨seemly_setName .., seemly_setName .., seemly_createRoom .., seemly_joinRoom (by decide +kernel),
    seemly_disconnect, seemly_rejoinRoom (by decide +kernel) (by decide +kernel) (by decide +kernel),
    seemly_leaveRoom (by decide +kernel), trivial⟩

theorem cameAndWent_oneSeat :
    (lifeOf cameAndWent).OneSeat anna ∧ (lifeOf cameAndWent).OneSeat belaToo := by
  have hreach : ReachableBy Seemly (lifeOf cameAndWent) :=
    ⟨start Db.empty, _, ⟨Db.empty, .new, rfl⟩, seemly_cameAndWent, rfl⟩
  exact ⟨oneSeat_of_seemly hreach anna, oneSeat_of_seemly hreach belaToo⟩

/-- **Two seats.** A player who has a room comes back into another one, and sits in both. -/
theorem two_seats : ¬ ∀ st, Reachable st → ∀ (s : Sid) (r : RoomId),
    st.SeatedIn s r ↔ st.playerRooms.lookup s.1 = some r := by
  intro h
  have hboth := h (lifeOf twoRooms) (reachable_lifeOf twoRooms) anna 0
  revert hboth
  decide +kernel

end Server

end ScrabbleMagyar
