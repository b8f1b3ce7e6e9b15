import ScrabbleMagyar.Server.Reach
import ScrabbleMagyar.Server.Whereabouts

/-!
# Tokens and the seats they stand for

A token stands for the seats that have the identifier of its connection. It should be one that
the player of the seat may have (`Identity.fits`), whether the connection plays there, holds the
token or is away (`Presence.Fitting`). It is, as long as every connection that takes a seat leaves
no other token behind in the room, and takes no second seat that its token does not fit
(`Presence.Suits`, `Fitting.act`).
-/

namespace ScrabbleMagyar

/-- A seat as it was, or left in the meantime. -/
structure Seat.Was (y x : Seat) : Prop where
  id : y.id = x.id
  name : y.name = x.name
  isBot : y.isBot = x.isBot
  connected : x.disconnected = false → y.disconnected = false

theorem Seat.Was.refl (x : Seat) : x.Was x := ⟨rfl, rfl, rfl, fun h => h⟩

theorem Seat.Was.trans {x y z : Seat} (h : x.Was y) (h' : y.Was z) : x.Was z :=
  ⟨h.id.trans h'.id, h.name.trans h'.name, h.isBot.trans h'.isBot, h.connected ∘ h'.connected⟩

namespace Server

open Function (update)

/-- Whether the player of a seat may have a token: the seat of a user is taken with the user's
own, that of a guest with a random one. -/
def Identity.fits : Identity → Token → Bool
  | .any, _ => true
  | .guest, .guest _ => true
  | .guest, .user _ => false
  | .user id, token => decide (token = .user id)

/-- Whose a seat is. -/
def Hall.identity (h : Hall) (name : String) : Identity :=
  match h.known.lookup name with
  | none => .any
  | some userId => .fromUserId userId

/-- The seats that have the identifier of a connection are anybody's. -/
def Hall.Unclaimed (h : Hall) : Prop :=
  ∀ x ∈ h.seats, x.isBot = false → isSid x.id = true → h.identity x.name = .any

namespace Presence

/-- A token is one that the player of every seat of an identifier may have. -/
def Fits (p : Presence) (token : Token) (roomId : RoomId) (sid : String) : Prop :=
  ∀ h, p.halls roomId = some h → ∀ x ∈ h.seats, x.isBot = false → x.id = sid →
    (h.identity x.name).fits token = true

/-- No other token stands for a connection in a room. -/
def Lone (p : Presence) (roomId : RoomId) (sid : String) (token : Token) : Prop :=
  ∀ t, t ≠ token → p.holder t ≠ some (roomId, sid) ∧
    ∀ a, p.away t = some a → a.roomId = roomId → a.sid ≠ sid

/-- Every token fits the seats that it stands for. -/
structure Fitting (p : Presence) : Prop where
  token : ∀ s t r, p.tokenOf s = some t → p.roomOf s = some r → p.Fits t r s
  holder : ∀ t r s, p.holder t = some (r, s) → p.roomOf s = some r → p.Fits t r s
  away : ∀ t a, p.away t = some a → p.Fits t a.roomId a.sid
  sids : ∀ s r, p.roomOf s = some r → isSid s = true
  placed : ∀ s r, p.roomOf s = some r → r < p.fresh
  held : ∀ t r s, p.holder t = some (r, s) → r < p.fresh
  gone : ∀ t a, p.away t = some a → a.roomId < p.fresh

variable {p q q' : Presence} {roomId : RoomId} {sid : String} {token : Token}

/-! ## Nobody sits down -/

/-- Every seat was there before, under the same accounts. -/
def Thins (p q : Presence) : Prop :=
  ∀ r h', q.halls r = some h' → ∃ h, p.halls r = some h ∧ h'.known = h.known ∧
    ∀ x ∈ h'.seats, ∃ y ∈ h.seats, y.Was x

/-- Every seat and every entry of a table was there before. -/
structure Shrinks (p q : Presence) : Prop where
  thins : p.Thins q
  roomOf : ∀ s r, q.roomOf s = some r → p.roomOf s = some r
  tokenOf : ∀ s t, q.tokenOf s = some t → p.tokenOf s = some t
  holder : ∀ t e, q.holder t = some e → p.holder t = some e
  away : ∀ t a, q.away t = some a → p.away t = some a
  fresh : p.fresh = q.fresh

theorem Thins.of_halls (h : q.halls = p.halls) : p.Thins q := fun _ hall hhall =>
  ⟨hall, h ▸ hhall, rfl, fun x hx => ⟨x, hx, .refl x⟩⟩

theorem Thins.trans (h : p.Thins q) (h' : q.Thins q') : p.Thins q' := by
  intro r hall'' hhall''
  obtain ⟨hall', hhall', hknown', hseats'⟩ := h' r hall'' hhall''
  obtain ⟨hall, hhall, hknown, hseats⟩ := h r hall' hhall'
  refine ⟨hall, hhall, hknown'.trans hknown, fun x hx => ?_⟩
  obtain ⟨y, hy, hyx⟩ := hseats' x hx
  obtain ⟨z, hz, hzy⟩ := hseats y hy
  exact ⟨z, hz, hzy.trans hyx⟩

theorem Thins.modifyHall (p : Presence) (roomId : RoomId) {f : Hall → Hall}
    (hf : ∀ h, (f h).known = h.known ∧ ∀ x ∈ (f h).seats, ∃ y ∈ h.seats, y.Was x) :
    p.Thins (p.modifyHall roomId f) := by
  intro r hall' hhall'
  rw [halls_modifyHall] at hhall'
  split at hhall'
  · obtain ⟨hall, hhall, rfl⟩ := Option.map_eq_some_iff.mp hhall'
    exact ⟨hall, hhall, hf hall⟩
  · exact ⟨hall', hhall', rfl, fun x hx => ⟨x, hx, .refl x⟩⟩

theorem Thins.flag (p : Presence) (roomId : RoomId) (sid : String) :
    p.Thins (p.modifyHall roomId (Hall.flag sid)) := by
  refine .modifyHall p roomId fun h => ⟨rfl, ?_⟩
  refine Hall.forall_changeSeat (P := fun x => ∃ y ∈ h.seats, y.Was x)
    (fun x hx => ⟨x, hx, .refl x⟩) fun x hx _ => ⟨x, hx, rfl, rfl, rfl, fun hon => ?_⟩
  cases hon

theorem Thins.unseat (p : Presence) (roomId : RoomId) (sid : String) :
    p.Thins (p.modifyHall roomId (Hall.unseat sid)) :=
  .modifyHall p roomId fun _ => ⟨rfl, fun x hx => ⟨x, List.mem_of_mem_eraseP hx, .refl x⟩⟩

namespace Shrinks

theorem refl (p : Presence) : p.Shrinks p :=
  ⟨.of_halls rfl, fun _ _ h => h, fun _ _ h => h, fun _ _ h => h, fun _ _ h => h, rfl⟩

theorem trans (h : p.Shrinks q) (h' : q.Shrinks q') : p.Shrinks q' where
  thins := h.thins.trans h'.thins
  roomOf := fun s r hr => h.roomOf s r (h'.roomOf s r hr)
  tokenOf := fun s t ht => h.tokenOf s t (h'.tokenOf s t ht)
  holder := fun t e he => h.holder t e (h'.holder t e he)
  away := fun t a ha => h.away t a (h'.away t a ha)
  fresh := h.fresh.trans h'.fresh

/-- Only seats are left or given up. -/
theorem of_thins {f : Hall → Hall} (h : p.Thins (p.modifyHall roomId f)) :
    p.Shrinks (p.modifyHall roomId f) :=
  ⟨h, fun _ _ h => h, fun _ _ h => h, fun _ _ h => h, fun _ _ h => h, rfl⟩

theorem setAccount (p : Presence) (sid : String) (auth : Option AuthInfo) :
    p.Shrinks (p.setAccount sid auth) :=
  ⟨.of_halls rfl, fun _ _ h => h, fun _ _ h => h, fun _ _ h => h, fun _ _ h => h, rfl⟩

theorem exit (p : Presence) (sids : List String) : p.Shrinks (p.exit sids) where
  thins := .of_halls rfl
  roomOf := fun s r hr => by
    simp only [Presence.exit] at hr
    split at hr
    · cases hr
    · exact hr
  tokenOf := fun _ _ h => h
  holder := fun _ _ h => h
  away := fun _ _ h => h
  fresh := rfl

theorem revoke (p : Presence) (sids : List String) : p.Shrinks (p.revoke sids) where
  thins := .of_halls rfl
  roomOf := fun _ _ h => h
  tokenOf := fun s t ht => by
    simp only [Presence.revoke] at ht
    split at ht
    · cases ht
    · exact ht
  holder := fun t e he => by
    simp only [Presence.revoke] at he
    split at he
    · cases he
    · exact he
  away := fun t a ha => by
    simp only [Presence.revoke] at ha
    split at ha
    · cases ha
    · exact ha
  fresh := rfl

theorem drop (p : Presence) (roomId : RoomId) : p.Shrinks (p.drop roomId) where
  thins := fun r hall hhall => by
    simp only [Presence.drop, Function.update_apply] at hhall
    split at hhall
    · cases hhall
    · exact ⟨hall, hhall, rfl, fun x hx => ⟨x, hx, .refl x⟩⟩
  roomOf := fun _ _ h => h
  tokenOf := fun s t ht => by
    simp only [Presence.drop] at ht
    split at ht
    · cases ht
    · exact ht
  holder := fun t e he => by
    simp only [Presence.drop] at he
    split at he
    · cases he
    · exact he
  away := fun t a ha => (Option.filter_eq_some_iff.mp ha).1
  fresh := rfl

theorem dropIf (p : Presence) (roomId : RoomId) (c : Hall → Prop) [DecidablePred c] :
    p.Shrinks (p.dropIf roomId c) := by
  rcases p.dropIf_cases roomId c with ⟨heq, -⟩ | ⟨heq, -⟩ <;> rw [heq]
  · exact .refl p
  · exact .drop p roomId

theorem disband (p : Presence) (roomId : RoomId) (owner : Option String) :
    p.Shrinks (p.disband roomId owner) := by
  unfold Presence.disband
  split
  · exact .refl p
  · exact ((exit p _).trans (revoke _ _)).trans (drop _ roomId)

theorem forget (p : Presence) (token : Token) (a : Absence) : p.Shrinks (p.forget token a) where
  thins := .of_halls rfl
  roomOf := fun _ _ h => h
  tokenOf := fun s t ht => by
    simp only [Presence.forget, Function.update_apply] at ht
    split at ht
    · cases ht
    · exact ht
  holder := fun t e he => by
    simp only [Presence.forget, Function.update_apply] at he
    split at he
    · cases he
    · exact he
  away := fun t b hb => by
    simp only [Presence.forget, Function.update_apply] at hb
    split at hb
    · cases hb
    · exact hb
  fresh := rfl

theorem expire (p : Presence) (token : Token) (a : Absence) (how : Expiry) :
    p.Shrinks (p.expire token a how) := by
  have hgone := (forget p token a).trans (setAccount _ a.sid none)
  cases how with
  | stale => exact .refl p
  | gone => exact hgone
  | disbanded => exact hgone.trans (disband _ a.roomId _)
  | settled removes =>
    refine .trans ?_ (dropIf _ a.roomId _)
    cases removes with
    | false => exact hgone
    | true => exact hgone.trans (of_thins (.unseat _ a.roomId a.sid))

end Shrinks

theorem Fits.thins (h : p.Fits token roomId sid) (ht : p.Thins q) : q.Fits token roomId sid := by
  intro hall' hhall' x hx hbot hid
  obtain ⟨hall, hhall, hknown, hseats⟩ := ht roomId hall' hhall'
  obtain ⟨y, hy, hwas⟩ := hseats x hx
  have hfits := h hall hhall y hy (hwas.isBot.trans hbot) (hwas.id.trans hid)
  rwa [hwas.name, Hall.identity, ← hknown] at hfits

namespace Fitting

theorem shrink (h : p.Fitting) (hs : p.Shrinks q) : q.Fitting where
  token := fun s t r ht hr => (h.token s t r (hs.tokenOf s t ht) (hs.roomOf s r hr)).thins hs.thins
  holder := fun t r s ht hr =>
    (h.holder t r s (hs.holder t (r, s) ht) (hs.roomOf s r hr)).thins hs.thins
  away := fun t a ha => (h.away t a (hs.away t a ha)).thins hs.thins
  sids := fun s r hr => h.sids s r (hs.roomOf s r hr)
  placed := fun s r hr => hs.fresh ▸ h.placed s r (hs.roomOf s r hr)
  held := fun t r s ht => hs.fresh ▸ h.held t r s (hs.holder t (r, s) ht)
  gone := fun t a ha => hs.fresh ▸ h.gone t a (hs.away t a ha)

/-- An absence begins from seats that the token fits. -/
theorem note (h : p.Fitting) (hfits : p.Fits token roomId sid) (hroom : roomId < p.fresh) :
    (p.note token sid roomId).Fitting where
  token := h.token
  holder := h.holder
  away := fun t a ha => by
    simp only [Presence.note, Function.update_apply] at ha
    split at ha
    · rename_i ht
      cases ha
      exact ht ▸ hfits
    · exact h.away t a ha
  sids := h.sids
  placed := h.placed
  held := h.held
  gone := fun t a ha => by
    simp only [Presence.note, Function.update_apply] at ha
    split at ha
    · cases ha
      exact hroom
    · exact h.gone t a ha

theorem roomOf_of_placed {r : RoomId} (h : p.placed sid = some r) : p.roomOf sid = some r :=
  (Option.filter_eq_some_iff.mp h).1

/-- A connection leaves its seat with its token. -/
theorem leave (h : p.Fitting) (htoken : p.tokenOf sid = some token)
    (hroom : p.roomOf sid = some roomId) :
    ((p.modifyHall roomId (Hall.flag sid)).note token sid roomId).Fitting :=
  (h.shrink (.of_thins (.flag p roomId sid))).note
    ((h.token sid token roomId htoken hroom).thins (.flag p roomId sid))
    (h.placed sid roomId hroom)

theorem release (h : p.Fitting) (hcan : p.Releasable token) : (p.release token).Fitting := by
  obtain ⟨-, r, s, hholder, hplaced⟩ := hcan
  have hroom := roomOf_of_placed hplaced
  unfold Presence.release
  simp only [hholder]
  have hs : p.Shrinks ((p.modifyHall r (Hall.flag s)).exit [s]) :=
    (Shrinks.of_thins (.flag p r s)).trans (.exit _ [s])
  exact (h.shrink hs).note ((h.holder token r s hholder hroom).thins hs.thins)
    (h.placed s r hroom)

theorem quit (h : p.Fitting) {how : Departure} {forgets breaks : Bool}
    (hcan : p.Can (.departed sid how forgets breaks)) : (p.quit sid how).Fitting := by
  obtain ⟨-, -, hcan⟩ := hcan
  cases how with
  | stays => exact h
  | clears => exact h.shrink (.revoke p [sid])
  | kept r token =>
    obtain ⟨hplaced, htoken⟩ := hcan
    cases token with
    | none => exact h.shrink ((Shrinks.of_thins (.flag p r sid)).trans (.exit _ [sid]))
    | some token => exact (h.leave htoken.symm (roomOf_of_placed hplaced)).shrink (.exit _ [sid])
  | grace r token =>
    obtain ⟨hplaced, htoken, -⟩ := hcan
    have hleft := h.leave htoken.symm (roomOf_of_placed hplaced)
    have htimers : Fitting { (p.modifyHall r (Hall.flag sid)).note token sid r with
        timers := (token, p.seq + 1) :: p.timers } :=
      ⟨hleft.token, hleft.holder, hleft.away, hleft.sids, hleft.placed, hleft.held, hleft.gone⟩
    exact htimers.shrink (.exit _ [sid])
  | removed r =>
    exact h.shrink ((((Shrinks.of_thins (.unseat p r sid)).trans (.revoke _ [sid])).trans
      (.exit _ [sid])).trans (.dropIf _ r _))
  | lost r =>
    exact h.shrink ((((Shrinks.of_thins (.unseat p r sid)).trans (.dropIf _ r _)).trans
      (.exit _ [sid])).trans (.revoke _ [sid]))
  | disbanded r =>
    exact h.shrink (((Shrinks.disband p r (some sid)).trans (.exit _ [sid])).trans
      (.revoke _ [sid]))

/-! ## A connection sits down -/

/-- A connection takes a seat in a room, and its token with it. -/
theorem enter (h : p.Fitting) (hsid : isSid sid = true) (hroom : roomId < p.fresh)
    (hhalls : ∀ r h', q.halls r = some h' → ∃ h, p.halls r = some h ∧ h'.known = h.known ∧
      ∀ x ∈ h'.seats, (∃ y ∈ h.seats, y.Was x) ∨ r = roomId ∧ x.id = sid)
    (hroomOf : ∀ s, q.roomOf s = if s = sid then some roomId else p.roomOf s)
    (htokenOf : ∀ s t, q.tokenOf s = some t → s = sid ∧ t = token ∨
      s ≠ sid ∧ p.tokenOf s = some t)
    (hholder : ∀ t r s, q.holder t = some (r, s) →
      t = token ∧ s = sid ∧ r < p.fresh ∨ t ≠ token ∧ p.holder t = some (r, s))
    (haway : ∀ t a, q.away t = some a → p.away t = some a) (hfresh : q.fresh = p.fresh)
    (hfits : q.Fits token roomId sid) (hlone : p.Lone roomId sid token) : q.Fitting := by
  -- what stands for the seats of others stands for them as before
  have hothers : ∀ t r s, p.Fits t r s → (r = roomId → s ≠ sid) → q.Fits t r s := by
    intro t r s hp hne hall' hhall' x hx hbot hid
    obtain ⟨hall, hhall, hknown, hseats⟩ := hhalls r hall' hhall'
    rcases hseats x hx with ⟨y, hy, hwas⟩ | ⟨hr, hxs⟩
    · have hf := hp hall hhall y hy (hwas.isBot.trans hbot) (hwas.id.trans hid)
      rwa [hwas.name, Hall.identity, ← hknown] at hf
    · exact absurd (hid.symm.trans hxs) (hne hr)
  have hplace : ∀ s r, q.roomOf s = some r →
      s = sid ∧ r = roomId ∨ s ≠ sid ∧ p.roomOf s = some r := by
    intro s r hr
    rw [hroomOf] at hr
    split at hr
    · cases hr
      exact .inl ⟨‹_›, rfl⟩
    · exact .inr ⟨‹_›, hr⟩
  refine ⟨fun s t r ht hr => ?_, fun t r s ht hr => ?_, fun t a ha => ?_, fun s r hr => ?_,
    fun s r hr => ?_, fun t r s ht => ?_, fun t a ha => ?_⟩
  · rcases hplace s r hr with ⟨rfl, rfl⟩ | ⟨hs, hr⟩
    · rcases htokenOf s t ht with ⟨-, rfl⟩ | ⟨hs, -⟩
      · exact hfits
      · exact absurd rfl hs
    · rcases htokenOf s t ht with ⟨hs', -⟩ | ⟨-, ht⟩
      · exact absurd hs' hs
      · exact hothers t r s (h.token s t r ht hr) fun _ => hs
  · rcases hplace s r hr with ⟨rfl, rfl⟩ | ⟨hs, hr⟩
    · rcases hholder t r s ht with ⟨rfl, -, -⟩ | ⟨hne, ht⟩
      · exact hfits
      · exact absurd ht (hlone t hne).1
    · rcases hholder t r s ht with ⟨-, hs', -⟩ | ⟨-, ht⟩
      · exact absurd hs' hs
      · exact hothers t r s (h.holder t r s ht hr) fun _ => hs
  · have hp := haway t a ha
    by_cases hself : a.roomId = roomId ∧ a.sid = sid
    · by_cases ht : t = token
      · rw [ht, hself.1, hself.2]
        exact hfits
      · exact absurd hself.2 ((hlone t ht).2 a hp hself.1)
    · exact hothers t a.roomId a.sid (h.away t a hp) fun hr hs => hself ⟨hr, hs⟩
  · rcases hplace s r hr with ⟨rfl, -⟩ | ⟨-, hr⟩
    · exact hsid
    · exact h.sids s r hr
  · rw [hfresh]
    rcases hplace s r hr with ⟨-, rfl⟩ | ⟨-, hr⟩
    · exact hroom
    · exact h.placed s r hr
  · rw [hfresh]
    rcases hholder t r s ht with ⟨-, -, hr⟩ | ⟨-, ht⟩
    · exact hr
    · exact h.held t r s ht
  · rw [hfresh]
    exact h.gone t a (haway t a ha)

end Fitting

/-! ## The condition on the steps -/

/-- The room and the identifier that a token stands for. -/
def stands (p : Presence) (token : Token) : Option (RoomId × String) :=
  match p.away token with
  | some a => some (a.roomId, a.sid)
  | none => p.holder token

/-- A step in which a connection that takes a seat has no other token in the room, and there all
seats of its identifier are such as its token fits. -/
def Suits (p : Presence) : Deed → Prop
  | .cameBack sid token _ _ => ∀ r s, p.stands token = some (r, s) →
      (s ≠ sid → p.Fits token r sid) ∧ p.Lone r sid token
  | .opened sid token hall => ∀ x ∈ hall.seats, x.isBot = false → x.id = sid →
      (hall.identity x.name).fits token = true
  | .joined sid name r token => p.Fits token r sid ∧ p.Lone r sid token ∧
      ∀ h, p.halls r = some h → (h.identity name).fits token = true
  | .took sid r old token loads _ => p.Lone r sid token ∧
      (∀ h, loads = some h → h.Unclaimed) ∧
      ∀ h, loads.or (p.halls r) = some h → ∀ x ∈ h.seats, x.isBot = false →
        x.id = old ∨ x.id = sid → (h.identity x.name).fits token = true
  | .loaded _ h => h.Unclaimed
  | .restored r seats => ∀ h, p.halls r = some h → ∀ x ∈ seats, x.isBot = false →
      (∃ y ∈ h.seats, y.isBot = false ∧ y.id = x.id ∧ y.name = x.name) ∨
        p.roomOf x.id ≠ some r ∧ ∀ t a, p.away t = some a → a.roomId = r → a.sid ≠ x.id
  | _ => True

namespace Fitting

theorem of_vacant (h : p.Vacant) : p.Fitting where
  token := fun s t r _ hr => by simp [h.roomOf] at hr
  holder := fun t r s ht => by simp [h.holder] at ht
  away := fun t a ha => by simp [h.away] at ha
  sids := fun s r hr => by simp [h.roomOf] at hr
  placed := fun s r hr => by simp [h.roomOf] at hr
  held := fun t r s ht => by simp [h.holder] at ht
  gone := fun t a ha => by simp [h.away] at ha

/-- A room is loaded in which no seat has the identifier of a connection. -/
theorem load (h : p.Fitting) (hnamed : p.Named) {hall : Hall} (hplain : hall.Unclaimed)
    (roomId : RoomId) : Fitting { p with halls := update p.halls roomId (some hall) } := by
  have hfits : ∀ t r s, isSid s = true → p.Fits t r s →
      Fits { p with halls := update p.halls roomId (some hall) } t r s := by
    intro t r s hs hp hall' hhall' x hx hbot hid
    simp only [Function.update_apply] at hhall'
    split at hhall'
    · cases hhall'
      rw [hplain x hx hbot (hid ▸ hs)]
      rfl
    · exact hp hall' hhall' x hx hbot hid
  exact ⟨fun s t r ht hr => hfits t r s (h.sids s r hr) (h.token s t r ht hr),
    fun t r s ht hr => hfits t r s (h.sids s r hr) (h.holder t r s ht hr),
    fun t a ha => hfits t a.roomId a.sid (hnamed.away t a ha) (h.away t a ha),
    h.sids, h.placed, h.held, h.gone⟩

theorem was_or_taken {old new : String} {h : Hall} {x : Seat} (hx : x ∈ (h.reseat old new).seats) :
    x ∈ h.seats ∨ ∃ y ∈ h.seats, y.id = old ∧ x = y.reconnect new :=
  Hall.forall_changeSeat (P := fun x => x ∈ h.seats ∨ ∃ y ∈ h.seats, y.id = old ∧ x = y.reconnect new)
    (fun _ hx => .inl hx) (fun y hy hid => .inr ⟨y, hy, hid, rfl⟩) x hx

theorem halls_reseat {old new : String} {r : RoomId} {h' : Hall}
    (hhall : (p.modifyHall roomId (Hall.reseat old new)).halls r = some h') :
    ∃ h, p.halls r = some h ∧ h'.known = h.known ∧
      ∀ x ∈ h'.seats, (∃ y ∈ h.seats, y.Was x) ∨ r = roomId ∧ x.id = new := by
  rw [halls_modifyHall] at hhall
  split at hhall
  · rename_i hr
    obtain ⟨h, hh, rfl⟩ := Option.map_eq_some_iff.mp hhall
    refine ⟨h, hh, rfl, fun x hx => ?_⟩
    rcases was_or_taken hx with hx | ⟨y, -, -, rfl⟩
    · exact .inl ⟨x, hx, .refl x⟩
    · exact .inr ⟨hr, rfl⟩
  · exact ⟨h', hhall, rfl, fun x hx => .inl ⟨x, hx, .refl x⟩⟩

/-- After a seat has passed on, a token fits the seats of the new identifier if it fitted these and
those of the old one. -/
theorem fits_reseat {old new : String}
    (hfits : ∀ h, p.halls roomId = some h → ∀ x ∈ h.seats, x.isBot = false →
      x.id = old ∨ x.id = new → (h.identity x.name).fits token = true) :
    (p.modifyHall roomId (Hall.reseat old new)).Fits token roomId new := by
  intro h' hhall x hx hbot hid
  rw [halls_modifyHall, if_pos rfl] at hhall
  obtain ⟨h, hh, rfl⟩ := Option.map_eq_some_iff.mp hhall
  rcases was_or_taken hx with hx | ⟨y, hy, hyid, rfl⟩
  · exact hfits h hh x hx hbot (.inr hid)
  · exact hfits h hh y hy hbot (.inl hyid)

/-- A connection takes a seat in a room, and is given a token. -/
theorem seat (h : p.Fitting) (hsid : isSid sid = true) (hroom : roomId < p.fresh) {f : Hall → Hall}
    (hhalls : ∀ r h', (p.modifyHall roomId f).halls r = some h' →
      ∃ h, p.halls r = some h ∧ h'.known = h.known ∧
        ∀ x ∈ h'.seats, (∃ y ∈ h.seats, y.Was x) ∨ r = roomId ∧ x.id = sid)
    (hfits : (p.modifyHall roomId f).Fits token roomId sid) (hlone : p.Lone roomId sid token) :
    (((p.modifyHall roomId f).enter sid roomId).grant token sid roomId).Fitting := by
  refine h.enter hsid hroom hhalls (fun s => ?_) (fun s t ht => ?_) (fun t r s ht => ?_)
    (fun t a ha => ?_) rfl hfits hlone
  · simp only [Presence.grant, Presence.enter, Function.update_apply]
    rfl
  · simp only [Presence.grant] at ht
    split at ht
    · cases ht
      exact .inl ⟨‹_›, rfl⟩
    · split at ht
      · cases ht
      · exact .inr ⟨‹_›, ht⟩
  · simp only [Presence.grant, Function.update_apply] at ht
    split at ht
    · cases ht
      exact .inl ⟨‹_›, rfl, hroom⟩
    · exact .inr ⟨‹_›, ht⟩
  · simp only [Presence.grant] at ha
    split at ha
    · cases ha
    · exact ha

/-- A room is opened, which no token stands for. -/
theorem found (h : p.Fitting) (hall : Hall) :
    Fitting { p with halls := update p.halls p.fresh (some hall), fresh := p.fresh + 1 } := by
  have hfits : ∀ t r s, r < p.fresh → p.Fits t r s →
      Fits { p with halls := update p.halls p.fresh (some hall), fresh := p.fresh + 1 } t r s := by
    intro t r s hr hp hall' hhall'
    simp only [Function.update_apply] at hhall'
    rw [if_neg hr.ne] at hhall'
    exact hp hall' hhall'
  exact ⟨fun s t r ht hr => hfits t r s (h.placed s r hr) (h.token s t r ht hr),
    fun t r s ht hr => hfits t r s (h.placed s r hr) (h.holder t r s ht hr),
    fun t a ha => hfits t a.roomId a.sid (h.gone t a ha) (h.away t a ha),
    h.sids, fun s r hr => (h.placed s r hr).trans (Nat.lt_succ_self _),
    fun t r s ht => (h.held t r s ht).trans (Nat.lt_succ_self _),
    fun t a ha => (h.gone t a ha).trans (Nat.lt_succ_self _)⟩

theorem opened (h : p.Fitting) (hsid : isSid sid = true) {hall : Hall}
    (hsuits : p.Suits (.opened sid token hall)) : (p.act (.opened sid token hall)).Fitting := by
  have hlone : Lone { p with halls := update p.halls p.fresh (some hall), fresh := p.fresh + 1 }
      p.fresh sid token := fun t _ =>
    ⟨fun ht => absurd (h.held t p.fresh sid ht) (lt_irrefl _),
      fun a ha hr => absurd (hr ▸ h.gone t a ha) (lt_irrefl _)⟩
  refine (h.found hall).enter hsid (Nat.lt_succ_self p.fresh)
    (fun r h' hh => ⟨h', hh, rfl, fun x hx => .inl ⟨x, hx, .refl x⟩⟩) (fun s => ?_)
    (fun s t ht => ?_) (fun t r s ht => ?_) (fun t a ha => ?_) rfl ?_ hlone
  · simp only [Presence.act, Presence.grant, Presence.enter, Function.update_apply]
  · simp only [Presence.act, Presence.grant, Presence.enter] at ht
    split at ht
    · cases ht
      exact .inl ⟨‹_›, rfl⟩
    · split at ht
      · cases ht
      · exact .inr ⟨‹_›, ht⟩
  · simp only [Presence.act, Presence.grant, Presence.enter, Function.update_apply] at ht
    split at ht
    · cases ht
      exact .inl ⟨‹_›, rfl, Nat.lt_succ_self _⟩
    · exact .inr ⟨‹_›, ht⟩
  · simp only [Presence.act, Presence.grant, Presence.enter] at ha
    split at ha
    · cases ha
    · exact ha
  · intro h' hh x hx hbot hid
    simp only [Presence.act, Function.update_self, Option.some.injEq] at hh
    subst hh
    exact hsuits x hx hbot hid

theorem joined (h : p.Fitting) (hs : p.Sane) {name : String}
    (hcan : p.Can (.joined sid name roomId token)) (hsuits : p.Suits (.joined sid name roomId token)) :
    (p.act (.joined sid name roomId token)).Fitting := by
  obtain ⟨-, hsid, -, hall, hhall, -⟩ := hcan
  obtain ⟨hfits, hlone, hname⟩ := hsuits
  refine h.seat hsid (hs.fresh roomId hall hhall) (fun r h' hh => ?_) (fun h' hh x hx hbot hid => ?_)
    hlone
  · rw [halls_modifyHall] at hh
    split at hh
    · rename_i hr
      obtain ⟨h₀, hh₀, rfl⟩ := Option.map_eq_some_iff.mp hh
      refine ⟨h₀, hh₀, rfl, fun x hx => ?_⟩
      rcases List.mem_append.mp hx with hx | hx
      · exact .inl ⟨x, hx, .refl x⟩
      · obtain rfl := List.mem_singleton.mp hx
        exact .inr ⟨hr, rfl⟩
    · exact ⟨h', hh, rfl, fun x hx => .inl ⟨x, hx, .refl x⟩⟩
  · rw [halls_modifyHall, if_pos rfl] at hh
    obtain ⟨h₀, hh₀, rfl⟩ := Option.map_eq_some_iff.mp hh
    rcases List.mem_append.mp hx with hx | hx
    · exact hfits h₀ hh₀ x hx hbot hid
    · obtain rfl := List.mem_singleton.mp hx
      exact hname h₀ hh₀

theorem took (h : p.Fitting) (hs : p.Sane) {old : String} {loads : Option Hall} {ousts : Bool}
    (hcan : p.Can (.took sid roomId old token loads ousts))
    (hsuits : p.Suits (.took sid roomId old token loads ousts)) :
    (p.act (.took sid roomId old token loads ousts)).Fitting := by
  obtain ⟨-, hsid, -, hcan⟩ := hcan
  obtain ⟨hlone, hplain, hfits⟩ := hsuits
  -- the room as it is when the seat is taken
  have hbase : ∃ p₀ : Presence, p₀.Fitting ∧ p₀.holder = p.holder ∧ p₀.away = p.away ∧
      p₀.fresh = p.fresh ∧ roomId < p.fresh ∧ p₀.halls roomId = loads.or (p.halls roomId) ∧
      p.act (.took sid roomId old token loads ousts) =
        ((((if ousts then (p₀.exit [old]).revoke [old] else p₀).modifyHall roomId
          (Hall.reseat old sid)).enter sid roomId).grant token sid roomId) := by
    cases loads with
    | none =>
      obtain ⟨hall, hhall, -⟩ := hcan
      exact ⟨p, h, rfl, rfl, rfl, hs.fresh roomId hall hhall, rfl, rfl⟩
    | some hall =>
      obtain ⟨-, hr, -⟩ := hcan
      refine ⟨_, h.load hs.named (hplain hall rfl) roomId, rfl, rfl, rfl, hr, ?_, rfl⟩
      exact Function.update_self ..
  obtain ⟨p₀, h₀, hholder, haway, hfresh, hroom, hhalls, hact⟩ := hbase
  rw [hact]
  have hshrinks : p₀.Shrinks (if ousts then (p₀.exit [old]).revoke [old] else p₀) ∧
      (if ousts then (p₀.exit [old]).revoke [old] else p₀).halls = p₀.halls := by
    split
    · exact ⟨(Shrinks.exit p₀ [old]).trans (.revoke _ [old]), rfl⟩
    · exact ⟨.refl p₀, rfl⟩
  generalize (if ousts then (p₀.exit [old]).revoke [old] else p₀) = p₁ at hshrinks ⊢
  obtain ⟨hshrinks, hhalls₁⟩ := hshrinks
  refine (h₀.shrink hshrinks).seat hsid (hshrinks.fresh ▸ hfresh ▸ hroom)
    (fun r h' => halls_reseat) (fits_reseat fun hall hhall => ?_) fun t ht => ?_
  · exact hfits hall (hhalls ▸ hhalls₁ ▸ hhall)
  · obtain ⟨hno, hgone⟩ := hlone t ht
    exact ⟨fun hh => hno (hholder ▸ hshrinks.holder t _ hh),
      fun a ha => hgone a (haway ▸ hshrinks.away t a ha)⟩

theorem restored (h : p.Fitting) {seats : List Seat} (hsuits : p.Suits (.restored roomId seats)) :
    (p.act (.restored roomId seats)).Fitting := by
  have hfits : ∀ t r s, p.Fits t r s →
      (r = roomId → p.roomOf s = some r ∨ ∃ t a, p.away t = some a ∧ a.roomId = r ∧ a.sid = s) →
      (p.act (.restored roomId seats)).Fits t r s := by
    intro t r s hp hstands h' hh x hx hbot hid
    rw [show (p.act (.restored roomId seats)).halls r =
      (p.modifyHall roomId fun h => { h with seats }).halls r from rfl, halls_modifyHall] at hh
    split at hh
    · rename_i hr
      obtain ⟨h₀, hh₀, rfl⟩ := Option.map_eq_some_iff.mp hh
      subst hr
      rcases hsuits h₀ hh₀ x hx hbot with ⟨y, hy, hybot, hyid, hyname⟩ | ⟨hno, hnone⟩
      · have := hp h₀ hh₀ y hy hybot (hyid.trans hid)
        rwa [hyname] at this
      · rw [hid] at hno hnone
        rcases hstands rfl with hin | ⟨t', a, ha, har, has⟩
        · exact absurd hin hno
        · exact absurd has (hnone t' a ha har)
    · exact hp h' hh x hx hbot hid
  exact ⟨fun s t r ht hr => hfits t r s (h.token s t r ht hr) fun _ => .inl hr,
    fun t r s ht hr => hfits t r s (h.holder t r s ht hr) fun _ => .inl hr,
    fun t a ha => hfits t a.roomId a.sid (h.away t a ha) fun _ => .inr ⟨t, a, ha, rfl, rfl⟩,
    h.sids, h.placed, h.held, h.gone⟩

/-- The seat that a player comes back to. -/
theorem stands_of_met {releases : Bool} {a : Absence}
    (hcan : releases = true → p.Releasable token) (ha : (p.met token releases).away token = some a) :
    p.stands token = some (a.roomId, a.sid) := by
  cases releases with
  | false =>
    have ha : p.away token = some a := ha
    simp only [stands, ha]
  | true =>
    obtain ⟨hnone, r, s, hholder, -⟩ := hcan rfl
    have ha : (p.release token).away token = some a := ha
    simp only [Presence.release, hholder, Presence.note, Function.update_self, Option.some.injEq]
      at ha
    subst ha
    simp only [stands, hnone, hholder]

/-- Releasing a connection leaves the other tokens alone, and gives up no seat. -/
theorem met_rest (p : Presence) (token : Token) (releases : Bool) :
    p.Thins (p.met token releases) ∧ (p.met token releases).holder = p.holder ∧
      (∀ t, t ≠ token → (p.met token releases).away t = p.away t) ∧
      (p.met token releases).fresh = p.fresh := by
  have hself : p.Thins p ∧ p.holder = p.holder ∧ (∀ t, t ≠ token → p.away t = p.away t) ∧
      p.fresh = p.fresh := ⟨.of_halls rfl, rfl, fun _ _ => rfl, rfl⟩
  cases releases with
  | false => exact hself
  | true =>
    change p.Thins (p.release token) ∧ (p.release token).holder = p.holder ∧
      (∀ t, t ≠ token → (p.release token).away t = p.away t) ∧ (p.release token).fresh = p.fresh
    unfold Presence.release
    split
    · exact hself
    · exact ⟨.flag p _ _, rfl, fun t ht => Function.update_of_ne ht .., rfl⟩

theorem met (h : p.Fitting) {releases : Bool} (hcan : releases = true → p.Releasable token) :
    (p.met token releases).Fitting := by
  cases releases with
  | false => exact h
  | true => exact h.release (hcan rfl)

/-- What the return of a player leaves behind. -/
theorem act_cameBack {auth : AuthInfo} {releases : Bool} {a : Absence}
    (ha : (p.met token releases).away token = some a) :
    p.act (.cameBack sid token auth releases) =
      ((((((p.met token releases).modifyHall a.roomId (Hall.reseat a.sid sid)).complete token a
        sid).enter sid a.roomId).setAccount a.sid none).setAccount sid (some auth)) := by
  have ha : (if releases then p.release token else p).away token = some a := ha
  simp only [Presence.act, ha, Presence.met]

theorem cameBack (h : p.Fitting) {auth : AuthInfo} {releases : Bool}
    (hcan : p.Can (.cameBack sid token auth releases))
    (hsuits : p.Suits (.cameBack sid token auth releases)) :
    (p.act (.cameBack sid token auth releases)).Fitting := by
  obtain ⟨-, hsid, hreleases, a, hall, ha, hhall, -⟩ := hcan
  obtain ⟨hfits, hlone⟩ := hsuits a.roomId a.sid (stands_of_met hreleases ha)
  obtain ⟨hthins, hholder, haway, hfresh⟩ := met_rest p token releases
  have h₁ := h.met hreleases
  replace ha : (p.met token releases).away token = some a := ha
  rw [act_cameBack ha]
  generalize p.met token releases = p₁ at h₁ hthins hholder haway hfresh ha
  have hlone₁ : p₁.Lone a.roomId sid token := fun t ht =>
    ⟨hholder ▸ (hlone t ht).1, fun b hb => (hlone t ht).2 b (haway t ht ▸ hb)⟩
  refine Fitting.shrink ?_ ((Shrinks.setAccount _ a.sid none).trans (.setAccount _ sid (some auth)))
  refine h₁.enter hsid (h₁.gone token a ha) (fun r h' => halls_reseat) (fun s => ?_)
    (fun s t ht => ?_) (fun t r s ht => ?_) (fun t b hb => ?_) rfl ?_ hlone₁
  · simp only [Presence.enter, Presence.complete, Function.update_apply]
    rfl
  · simp only [Presence.enter, Presence.complete, Function.update_apply] at ht
    split at ht
    · cases ht
      exact .inl ⟨‹_›, rfl⟩
    · split at ht
      · cases ht
      · exact .inr ⟨‹_›, ht⟩
  · simp only [Presence.enter, Presence.complete, Function.update_apply] at ht
    split at ht
    · obtain ⟨e, he, heq⟩ := Option.map_eq_some_iff.mp ht
      cases heq
      exact .inl ⟨‹_›, rfl, h₁.held token e.1 e.2 he⟩
    · exact .inr ⟨‹_›, ht⟩
  · simp only [Presence.enter, Presence.complete, Function.update_apply] at hb
    split at hb
    · cases hb
    · exact hb
  · refine fits_reseat fun hall hhall x hx hbot hid => ?_
    by_cases hself : x.id = a.sid
    · exact h₁.away token a ha hall hhall x hx hbot hself
    · have hne : a.sid ≠ sid := fun heq => hid.elim hself fun hxs => hself (hxs.trans heq.symm)
      exact (hfits hne).thins hthins hall hhall x hx hbot (hid.resolve_left hself)

/-! ## Every step -/

/-- **Every token keeps fitting the seats that it stands for.** -/
theorem act (h : p.Fitting) (hs : p.Sane) {d : Deed} (hcan : p.Can d) (hsuits : p.Suits d) :
    (p.act d).Fitting := by
  cases d with
  | nothing => exact h
  | named sid auth => exact h.shrink (.setAccount p sid auth)
  | departed sid how forgets breaks =>
    have hquit := h.quit hcan
    have hforgot : (if forgets then (p.quit sid how).setAccount sid none
        else p.quit sid how).Fitting := by
      split
      · exact hquit.shrink (.setAccount _ sid none)
      · exact hquit
    cases breaks with
    | false => exact hforgot
    | true =>
      exact ⟨hforgot.token, hforgot.holder, hforgot.away, hforgot.sids, hforgot.placed,
        hforgot.held, hforgot.gone⟩
  | expired token seq how =>
    have htimers : Fitting { p with timers := p.timers.erase (token, seq) } :=
      ⟨h.token, h.holder, h.away, h.sids, h.placed, h.held, h.gone⟩
    simp only [Presence.act]
    split
    · exact htimers
    · exact htimers.shrink (.expire _ token _ how)
  | cameBack sid token auth releases => exact h.cameBack hcan hsuits
  | released token => exact h.release hcan
  | voided token =>
    refine h.shrink ⟨.of_halls rfl, fun _ _ h => h, fun _ _ h => h, fun t e he => ?_,
      fun t a ha => ?_, rfl⟩
    · simp only [Presence.act, Function.update_apply] at he
      split at he
      · cases he
      · exact he
    · simp only [Presence.act, Function.update_apply] at ha
      split at ha
      · cases ha
      · exact ha
  | opened sid token hall => exact h.opened hcan.1 hsuits
  | joined sid name roomId token => exact h.joined hs hcan hsuits
  | took sid roomId old token loads ousts => exact h.took hs hcan hsuits
  | loaded roomId hall => exact h.load hs.named hsuits roomId
  | restored roomId seats => exact h.restored hsuits
  | kicked tokens =>
    refine h.shrink ⟨.of_halls rfl, fun _ _ h => h, fun _ _ h => h, fun t e he => ?_,
      fun t a ha => ?_, rfl⟩
    · simp only [Presence.act] at he
      split at he
      · cases he
      · exact he
    · simp only [Presence.act] at ha
      split at ha
      · cases ha
      · exact ha
  | expelled roomId id running =>
    refine h.shrink (Shrinks.trans ?_ (.dropIf _ roomId _))
    refine ((Shrinks.exit p [id]).trans (.revoke _ [id])).trans (.of_thins ?_)
    split
    · exact .flag _ roomId id
    · exact .unseat _ roomId id
  | disbanded roomId => exact h.shrink (.disband p roomId none)
  | closed roomId => exact h.shrink (.drop p roomId)

end Fitting

end Presence

end Server

end ScrabbleMagyar
