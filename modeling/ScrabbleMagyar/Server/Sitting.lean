import ScrabbleMagyar.Server.Fitting

/-!
# Who sits down

A deed gives a seat to one connection at most, with a token (`Presence.seated`); only the start of
a restored game may give seats to others, the players of its lobby (`Presence.sitsAs_act`,
`Presence.holds_act`).
-/

namespace ScrabbleMagyar

namespace Server

open Function (update)

namespace Presence

/-- A connected seat of an identifier and a name. -/
def SitsAs (p : Presence) (sid : String) (roomId : RoomId) (name : String) : Prop :=
  ∃ h, p.halls roomId = some h ∧ ∃ x ∈ h.seats, x.id = sid ∧ x.name = name ∧ x.disconnected = false

/-- A connection plays on the seat of a name. -/
def Holds (p : Presence) (sid : String) (roomId : RoomId) (name : String) : Prop :=
  p.roomOf sid = some roomId ∧ ∃ h, p.halls roomId = some h ∧
    ∃ x ∈ h.seats, x.id = sid ∧ x.name = name ∧ x.disconnected = false

/-- Nobody sits down. -/
structure Settles (p q : Presence) : Prop where
  thins : p.Thins q
  roomOf : ∀ s r, q.roomOf s = some r → p.roomOf s = some r

variable {p q q' : Presence} {r roomId : RoomId} {s sid name : String} {token : Token}

theorem Thins.sitsAs (h : p.Thins q) (hq : q.SitsAs s r name) : p.SitsAs s r name := by
  obtain ⟨hall', hhall', x, hx, hid, hname, hon⟩ := hq
  obtain ⟨hall, hhall, -, hseats⟩ := h r hall' hhall'
  obtain ⟨y, hy, hwas⟩ := hseats x hx
  exact ⟨hall, hhall, y, hy, hwas.id.trans hid, hwas.name.trans hname, hwas.connected hon⟩

theorem Shrinks.settles (h : p.Shrinks q) : p.Settles q := ⟨h.thins, h.roomOf⟩

namespace Settles

theorem of_eq (hhalls : q.halls = p.halls) (hroomOf : q.roomOf = p.roomOf) : p.Settles q :=
  ⟨.of_halls hhalls, fun _ _ hr => hroomOf ▸ hr⟩

theorem refl (p : Presence) : p.Settles p := .of_eq rfl rfl

theorem trans (h : p.Settles q) (h' : q.Settles q') : p.Settles q' :=
  ⟨h.thins.trans h'.thins, fun s r hr => h.roomOf s r (h'.roomOf s r hr)⟩

theorem exit (p : Presence) (sids : List String) : p.Settles (p.exit sids) :=
  (Shrinks.exit p sids).settles

theorem flag (p : Presence) (roomId : RoomId) (sid : String) :
    p.Settles (p.modifyHall roomId (Hall.flag sid)) :=
  (Shrinks.of_thins (.flag p roomId sid)).settles

theorem note (p : Presence) (token : Token) (sid : String) (roomId : RoomId) :
    p.Settles (p.note token sid roomId) := .of_eq rfl rfl

theorem release (p : Presence) (token : Token) : p.Settles (p.release token) := by
  unfold Presence.release
  split
  · exact .refl p
  · exact ((flag p _ _).trans (exit _ _)).trans (note _ _ _ _)

theorem met (p : Presence) (token : Token) (releases : Bool) :
    p.Settles (p.met token releases) := by
  cases releases with
  | false => exact .refl p
  | true => exact release p token

theorem quit (p : Presence) (sid : String) (how : Departure) : p.Settles (p.quit sid how) := by
  cases how with
  | stays => exact .refl p
  | clears => exact (Shrinks.revoke p [sid]).settles
  | kept r token =>
    cases token with
    | none => exact (flag p r sid).trans (exit _ [sid])
    | some token => exact ((flag p r sid).trans (note _ token sid r)).trans (exit _ [sid])
  | grace r token =>
    refine ((flag p r sid).trans (note _ token sid r)).trans (Settles.trans ?_ (exit _ [sid]))
    exact .of_eq rfl rfl
  | removed r =>
    exact ((((Shrinks.of_thins (.unseat p r sid)).trans (.revoke _ [sid])).trans
      (.exit _ [sid])).trans (.dropIf _ r _)).settles
  | lost r =>
    exact ((((Shrinks.of_thins (.unseat p r sid)).trans (.dropIf _ r _)).trans
      (.exit _ [sid])).trans (.revoke _ [sid])).settles
  | disbanded r =>
    exact (((Shrinks.disband p r (some sid)).trans (.exit _ [sid])).trans
      (.revoke _ [sid])).settles

end Settles

/-! ## A connection sits down -/

/-- The connection that a deed gives a seat to, the room and the token. -/
def seated (p : Presence) : Deed → Option (String × RoomId × Token)
  | .cameBack sid token _ releases =>
      ((p.met token releases).away token).map fun a => (sid, a.roomId, token)
  | .opened sid token _ => some (sid, p.fresh, token)
  | .joined sid _ r token => some (sid, r, token)
  | .took sid r _ token _ _ => some (sid, r, token)
  | _ => none

/-- The connection that a deed seats plays in the room, with the token. -/
theorem roomOf_of_seated {d : Deed} (h : p.seated d = some (s, r, token)) :
    (p.act d).roomOf s = some r ∧ (p.act d).tokenOf s = some token := by
  cases d with
  | cameBack sid token' auth releases =>
    obtain ⟨a, ha, heq⟩ := Option.map_eq_some_iff.mp h
    cases heq
    rw [Fitting.act_cameBack ha]
    exact ⟨Function.update_self .., Function.update_self ..⟩
  | opened sid token' hall =>
    cases h
    exact ⟨Function.update_self .., if_pos rfl⟩
  | joined sid name roomId token' =>
    cases h
    exact ⟨Function.update_self .., if_pos rfl⟩
  | took sid roomId old token' loads ousts =>
    cases h
    exact ⟨Function.update_self .., if_pos rfl⟩
  | _ => cases h

theorem sitsAs_reseat {old : String} (hne : s ≠ sid)
    (hq : (p.modifyHall roomId (Hall.reseat old sid)).SitsAs s r name) : p.SitsAs s r name := by
  obtain ⟨h', hh, x, hx, hid, hname, hon⟩ := hq
  obtain ⟨h, hh₀, -, hseats⟩ := Fitting.halls_reseat hh
  obtain ⟨y, hy, hwas⟩ := (hseats x hx).resolve_right fun hc => hne (hid.symm.trans hc.2)
  exact ⟨h, hh₀, y, hy, hwas.id.trans hid, hwas.name.trans hname, hwas.connected hon⟩

theorem sitsAs_opened {hall : Hall} (hcan : p.Can (.opened sid token hall)) (hs : isSid s = true)
    (hne : s ≠ sid) (hq : (p.act (.opened sid token hall)).SitsAs s r name) :
    p.SitsAs s r name := by
  obtain ⟨-, -, name', seats, hseats, hothers⟩ := hcan
  obtain ⟨h', hh, x, hx, rfl, hname, hon⟩ := hq
  simp only [Presence.act, Function.update_apply] at hh
  split at hh
  · cases hh
    rw [hseats] at hx
    rcases List.mem_cons.mp hx with rfl | hx
    · exact absurd rfl hne
    · have hno := (hothers x hx).1
      rw [hs] at hno
      cases hno
  · exact ⟨h', hh, x, hx, rfl, hname, hon⟩

theorem sitsAs_add {name' : String} (hne : s ≠ sid)
    (hq : (p.modifyHall roomId (Hall.add ⟨sid, name', false, false⟩)).SitsAs s r name) :
    p.SitsAs s r name := by
  obtain ⟨h', hh, x, hx, rfl, hname, hon⟩ := hq
  rw [halls_modifyHall] at hh
  split at hh
  · obtain ⟨h, hh₀, rfl⟩ := Option.map_eq_some_iff.mp hh
    rcases List.mem_append.mp hx with hx | hx
    · exact ⟨h, hh₀, x, hx, rfl, hname, hon⟩
    · obtain rfl := List.mem_singleton.mp hx
      exact absurd rfl hne
  · exact ⟨h', hh, x, hx, rfl, hname, hon⟩

/-- A room that is loaded seats nobody. -/
theorem SitsAs.of_load {hall : Hall} (habsent : hall.Absent)
    (hq : SitsAs { p with halls := update p.halls roomId (some hall) } s r name) :
    p.SitsAs s r name := by
  obtain ⟨h', hh, x, hx, hid, hname, hon⟩ := hq
  simp only [Function.update_apply] at hh
  split at hh
  · cases hh
    exact absurd hon (by simp [(habsent x hx).2])
  · exact ⟨h', hh, x, hx, hid, hname, hon⟩

/-- A seat is taken in a room that may have been loaded, and from which a player may have been
ousted. -/
theorem act_took {old : String} {loads : Option Hall} {ousts : Bool}
    (hcan : p.Can (.took sid roomId old token loads ousts)) :
    ∃ q : Presence, (∀ s r, q.roomOf s = some r → p.roomOf s = some r) ∧
      (∀ s r name, q.SitsAs s r name → p.SitsAs s r name) ∧
      p.act (.took sid roomId old token loads ousts) =
        (((q.modifyHall roomId (Hall.reseat old sid)).enter sid roomId).grant token sid roomId) := by
  obtain ⟨-, -, -, hcan⟩ := hcan
  have hout : ∀ q : Presence, q.Settles (if ousts then (q.exit [old]).revoke [old] else q) := by
    intro q
    split
    · exact ((Shrinks.exit q [old]).trans (.revoke _ [old])).settles
    · exact .refl q
  cases loads with
  | none =>
    exact ⟨_, (hout p).roomOf, fun _ _ _ => (hout p).thins.sitsAs, rfl⟩
  | some hall =>
    have hq := hout { p with halls := update p.halls roomId (some hall) }
    exact ⟨_, hq.roomOf, fun _ _ _ h => .of_load hcan.2.2.2.1 (hq.thins.sitsAs h), rfl⟩

theorem sitsAs_cameBack {auth : AuthInfo} {releases : Bool} {a : Absence}
    (ha : (p.met token releases).away token = some a) (hne : s ≠ sid)
    (hq : (p.act (.cameBack sid token auth releases)).SitsAs s r name) : p.SitsAs s r name := by
  rw [Fitting.act_cameBack ha] at hq
  exact (Settles.met p token releases).thins.sitsAs (sitsAs_reseat hne hq)

theorem roomOf_cameBack {auth : AuthInfo} {releases : Bool} {a : Absence}
    (ha : (p.met token releases).away token = some a) (hne : s ≠ sid)
    (hr : (p.act (.cameBack sid token auth releases)).roomOf s = some r) :
    p.roomOf s = some r := by
  rw [Fitting.act_cameBack ha] at hr
  simp only [Presence.setAccount, Presence.enter, Presence.complete, Presence.modifyHall,
    Function.update_of_ne hne] at hr
  exact (Settles.met p token releases).roomOf s r hr

/-- The seat that a player has come back to is that of the absence, or had the identifier of the
player before. -/
theorem seat_of_cameBack {auth : AuthInfo} {releases : Bool} {a : Absence}
    (ha : (p.met token releases).away token = some a)
    (hq : (p.act (.cameBack sid token auth releases)).Holds s a.roomId name) :
    ∃ h, p.halls a.roomId = some h ∧
      ∃ y ∈ h.seats, y.name = name ∧ (y.id = a.sid ∨ y.id = s) := by
  rw [Fitting.act_cameBack ha] at hq
  obtain ⟨-, h', hh, x, hx, hid, hname, -⟩ := hq
  have hh : ((p.met token releases).modifyHall a.roomId (Hall.reseat a.sid sid)).halls a.roomId =
    some h' := hh
  rw [halls_modifyHall, if_pos rfl] at hh
  obtain ⟨h₁, hh₁, rfl⟩ := Option.map_eq_some_iff.mp hh
  obtain ⟨h, hh₀, -, hseats⟩ := (Settles.met p token releases).thins a.roomId h₁ hh₁
  refine ⟨h, hh₀, ?_⟩
  rcases Fitting.was_or_taken hx with hx | ⟨z, hz, hzid, rfl⟩
  · obtain ⟨y, hy, hwas⟩ := hseats x hx
    exact ⟨y, hy, hwas.name.trans hname, .inr (hwas.id.trans hid)⟩
  · obtain ⟨y, hy, hwas⟩ := hseats z hz
    exact ⟨y, hy, hwas.name.trans hname, .inl (hwas.id.trans hzid)⟩

/-! ## Every step -/

/-- A deed that seats nobody, loads no room and starts no restored game. -/
theorem settles_act {d : Deed} (hcan : p.Can d) (hseated : p.seated d = none)
    (hload : ∀ r h, d ≠ .loaded r h) (hrestored : ∀ r seats, d ≠ .restored r seats) :
    p.Settles (p.act d) := by
  cases d with
  | departed sid how forgets breaks =>
    refine (Settles.quit p sid how).trans (.of_eq ?_ ?_) <;>
      · simp only [Presence.act]
        cases forgets <;> cases breaks <;> rfl
  | expired token seq how =>
    have hrung : p.Settles { p with timers := p.timers.erase (token, seq) } := .of_eq rfl rfl
    simp only [Presence.act]
    split
    · exact hrung
    · exact hrung.trans (Shrinks.expire _ token _ how).settles
  | cameBack sid token auth releases =>
    obtain ⟨-, -, -, a, -, ha, -⟩ := hcan
    have ha : (p.met token releases).away token = some a := ha
    simp [seated, ha] at hseated
  | released token => exact .release p token
  | loaded roomId hall => exact absurd rfl (hload roomId hall)
  | restored roomId seats => exact absurd rfl (hrestored roomId seats)
  | expelled roomId id running =>
    refine Shrinks.settles (Shrinks.trans ?_ (.dropIf _ roomId _))
    refine ((Shrinks.exit p [id]).trans (.revoke _ [id])).trans (.of_thins ?_)
    split
    · exact .flag _ roomId id
    · exact .unseat _ roomId id
  | disbanded roomId => exact (Shrinks.disband p roomId none).settles
  | closed roomId => exact (Shrinks.drop p roomId).settles
  | opened => cases hseated
  | joined => cases hseated
  | took => cases hseated
  | _ => exact .of_eq rfl rfl

/-- **Whose seat is connected**: a seat that is connected after a deed was so before, is that of
the connection that the deed seats, or belongs to a restored game that starts. -/
theorem sitsAs_act {d : Deed} (hcan : p.Can d) (hs : isSid s = true)
    (hq : (p.act d).SitsAs s r name) :
    p.SitsAs s r name ∨ (∃ r' token, p.seated d = some (s, r', token)) ∨
      ∃ seats, d = .restored r seats := by
  cases d with
  | cameBack sid token auth releases =>
    obtain ⟨-, -, -, a, -, ha, -⟩ := hcan
    have ha : (p.met token releases).away token = some a := ha
    by_cases hne : s = sid
    · exact .inr (.inl ⟨a.roomId, token, by simp only [seated, ha, Option.map_some, hne]⟩)
    · exact .inl (sitsAs_cameBack ha hne hq)
  | opened sid token hall =>
    by_cases hne : s = sid
    · exact .inr (.inl ⟨p.fresh, token, by rw [seated, hne]⟩)
    · exact .inl (sitsAs_opened hcan hs hne hq)
  | joined sid name' roomId token =>
    by_cases hne : s = sid
    · exact .inr (.inl ⟨roomId, token, by rw [seated, hne]⟩)
    · exact .inl (sitsAs_add hne hq)
  | took sid roomId old token loads ousts =>
    by_cases hne : s = sid
    · exact .inr (.inl ⟨roomId, token, by rw [seated, hne]⟩)
    · obtain ⟨q, -, hsits, hact⟩ := act_took hcan
      rw [hact] at hq
      exact .inl (hsits s r name (sitsAs_reseat hne hq))
  | loaded roomId hall => exact .inl (.of_load hcan.2.2.2 hq)
  | restored roomId seats =>
    by_cases hr : r = roomId
    · subst hr
      exact .inr (.inr ⟨seats, rfl⟩)
    · obtain ⟨h', hh, hseat⟩ := hq
      have hh : (p.modifyHall roomId fun h => { h with seats }).halls r = some h' := hh
      rw [halls_modifyHall, if_neg hr] at hh
      exact .inl ⟨h', hh, hseat⟩
  | _ => exact .inl ((settles_act hcan rfl (by simp) (by simp)).thins.sitsAs hq)

/-- Whoever plays in a room after a deed did so before or is the connection that the deed seats. -/
theorem roomOf_act {d : Deed} (hcan : p.Can d) (hr : (p.act d).roomOf s = some r) :
    p.roomOf s = some r ∨ ∃ r' token, p.seated d = some (s, r', token) := by
  cases d with
  | cameBack sid token auth releases =>
    obtain ⟨-, -, -, a, -, ha, -⟩ := hcan
    have ha : (p.met token releases).away token = some a := ha
    by_cases hne : s = sid
    · exact .inr ⟨a.roomId, token, by simp only [seated, ha, Option.map_some, hne]⟩
    · exact .inl (roomOf_cameBack ha hne hr)
  | opened sid token hall =>
    by_cases hne : s = sid
    · exact .inr ⟨p.fresh, token, by rw [seated, hne]⟩
    · exact .inl (by simpa only [Presence.act, Presence.enter, Presence.grant,
        Function.update_of_ne hne] using hr)
  | joined sid name' roomId token =>
    by_cases hne : s = sid
    · exact .inr ⟨roomId, token, by rw [seated, hne]⟩
    · exact .inl (by simpa only [Presence.act, Presence.enter, Presence.grant, Presence.modifyHall,
        Function.update_of_ne hne] using hr)
  | took sid roomId old token loads ousts =>
    by_cases hne : s = sid
    · exact .inr ⟨roomId, token, by rw [seated, hne]⟩
    · obtain ⟨q, hroomOf, -, hact⟩ := act_took hcan
      simp only [hact, Presence.enter, Presence.grant, Presence.modifyHall,
        Function.update_of_ne hne] at hr
      exact .inl (hroomOf s r hr)
  | loaded roomId hall => exact .inl hr
  | restored roomId seats => exact .inl hr
  | _ => exact .inl ((settles_act hcan rfl (by simp) (by simp)).roomOf s r hr)

/-- **Who sits down**: whoever plays on a seat after a deed did so before, is the connection that
the deed seats, which has the token now, or plays in a room whose seats become those of a restored
game. -/
theorem holds_act {d : Deed} (hcan : p.Can d) (hs : isSid s = true)
    (hq : (p.act d).Holds s r name) :
    p.Holds s r name ∨ (∃ token, p.seated d = some (s, r, token) ∧
      (p.act d).tokenOf s = some token) ∨ ∃ seats, d = .restored r seats := by
  obtain ⟨hroom, hsits⟩ := hq
  have hown : ∀ r' token, p.seated d = some (s, r', token) →
      ∃ token, p.seated d = some (s, r, token) ∧ (p.act d).tokenOf s = some token := by
    intro r' token hseated
    obtain ⟨hroom', htoken⟩ := roomOf_of_seated hseated
    obtain rfl := Option.some.inj (hroom'.symm.trans hroom)
    exact ⟨token, hseated, htoken⟩
  rcases roomOf_act hcan hroom with hroom | ⟨r', token, hseated⟩
  · rcases sitsAs_act hcan hs hsits with hsits | ⟨r', token, hseated⟩ | hrestored
    · exact .inl ⟨hroom, hsits⟩
    · exact .inr (.inl (hown r' token hseated))
    · exact .inr (.inr hrestored)
  · exact .inr (.inl (hown r' token hseated))

end Presence

end Server

end ScrabbleMagyar
