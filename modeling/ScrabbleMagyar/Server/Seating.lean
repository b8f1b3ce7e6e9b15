import ScrabbleMagyar.Server.Reach
import ScrabbleMagyar.Server.Whereabouts

/-!
# Connections and their seats

Whether the connected seats of a connection and the room it plays in agree (`Presence.Seated`),
and under what condition on the steps they do (`Presence.Fair`).
-/

namespace ScrabbleMagyar

namespace Server

open Function (update)

namespace Presence

/-- The connections of `E` sit only in the room they play in, on the first seat of their
identifier; those of `F` do sit there. -/
structure Seated (E F : String → Prop) (p : Presence) : Prop where
  room : ∀ s r, E s → p.Sits s r → p.roomOf s = some r
  once : ∀ s r, E s → p.Once s r
  seat : ∀ s r, F s → p.roomOf s = some r → p.Sits s r

/-- The players of a room that is given up, but for its owner, sit nowhere else. -/
def Alone (E : String → Prop) (p : Presence) (roomId : RoomId) (owner : Option String) : Prop :=
  ∀ h, p.halls roomId = some h → ∀ s ∈ h.humans, some s ≠ owner → E s → ∀ r, p.Sits s r → r = roomId

/-- The players of a lobby that sit there, and no others, have a seat in the restored game. -/
def Keeps (E F : String → Prop) (p : Presence) (roomId : RoomId) (seats : List Seat) : Prop :=
  ∀ s, E s → (Hall.Connected s seats → p.Sits s roomId) ∧ Hall.FirstOnly s seats ∧
    (F s → p.Sits s roomId → Hall.Connected s seats)

/-- A step that seats connections of `E` and of `F` where they sit nowhere else, and gives up
rooms whose players sit nowhere else. -/
def Fair (E F : String → Prop) (p : Presence) : Deed → Prop
  | .departed sid (.disbanded r) _ _ => p.Alone E r (some sid)
  | .expired token _ .disbanded => ∀ a, p.away token = some a → p.Alone E a.roomId (some a.sid)
  | .cameBack sid token _ releases => (∀ r, ¬ (p.met token releases).Sits sid r) ∧
      ∀ a h, (p.met token releases).away token = some a →
        (p.met token releases).halls a.roomId = some h → ¬ Hall.Before sid a.sid h.seats ∧
          (F a.sid → a.sid ≠ sid → ¬ (p.met token releases).Sits a.sid a.roomId)
  | .took sid r old _ loads ousts =>
      (∀ h, loads.or (p.halls r) = some h → ¬ Hall.Before sid old h.seats) ∧
        (F old → ousts = false → ¬ p.Sits old r)
  | .expelled r id _ => E id → ∀ r', p.Sits id r' → r' = r
  | .disbanded r => p.Alone E r none
  | _ => True

variable {E F : String → Prop} {p q : Presence} {s : String} {r roomId : RoomId}

/-- Nobody sits down. -/
theorem Seated.shrink (h : p.Seated E F)
    (hroom : ∀ s r, E s → q.Sits s r → p.Sits s r ∧ q.roomOf s = p.roomOf s)
    (honce : ∀ s r, E s → p.Once s r → q.Once s r)
    (hseat : ∀ s r, F s → q.roomOf s = some r → p.roomOf s = some r ∧ (p.Sits s r → q.Sits s r)) :
    q.Seated E F where
  room := fun s r hs hsits => by
    obtain ⟨hp, heq⟩ := hroom s r hs hsits
    exact heq.trans (h.room s r hs hp)
  once := fun s r hs => honce s r hs (h.once s r hs)
  seat := fun s r hs hr => by
    obtain ⟨hp, hq⟩ := hseat s r hs hr
    exact hq (h.seat s r hs hp)

/-- The seats and the rooms of the connections are the same. -/
theorem Seated.congr (h : p.Seated E F) (hhalls : q.halls = p.halls) (hroomOf : q.roomOf = p.roomOf) :
    q.Seated E F := by
  have hsits : ∀ s r, (q.Sits s r ↔ p.Sits s r) ∧ (q.Once s r ↔ p.Once s r) := fun s r =>
    sits_congr (by rw [hhalls])
  exact h.shrink (fun s r _ hq => ⟨(hsits s r).1.mp hq, by rw [hroomOf]⟩)
    (fun s r _ => (hsits s r).2.mpr) fun s r _ hr => ⟨hroomOf ▸ hr, (hsits s r).1.mpr⟩

/-- A connected seat of a connection is that of a human player. -/
theorem humans_of_connected {h : Hall} (hh : h.Proper) (hs : isSid s = true)
    (hc : Hall.Connected s h.seats) : s ∈ h.humans ∧ h.hasConnected = true := by
  obtain ⟨x, hx, rfl, hon⟩ := hc
  have hbot : x.isBot = false := (hh x hx).bot.trans (isBotId_of_isSid hs)
  refine ⟨List.mem_map_of_mem (List.mem_filter.mpr ⟨hx, by simp [hbot]⟩), ?_⟩
  exact List.any_eq_true.mpr ⟨x, hx, by simp [Seat.occupied, hbot, hon]⟩

theorem roomOf_exit (p : Presence) (sids : List String) (s : String) :
    (p.exit sids).roomOf s = if s ∈ sids then none else p.roomOf s := rfl

/-- A seat is left or given up by the connection that has it. -/
theorem Seated.vacate (h : p.Seated E F) {sid : String} {f : Hall → Hall}
    (hf : ∀ s r, p.Once s r → ((p.modifyHall roomId f).Sits s r ↔
      p.Sits s r ∧ ¬ (s = sid ∧ r = roomId)) ∧ (p.modifyHall roomId f).Once s r)
    (hsid : E sid → ∀ r, p.Sits sid r → r = roomId) (hFE : ∀ s, F s → E s) :
    ((p.modifyHall roomId f).exit [sid]).Seated E F := by
  refine h.shrink (fun s r hs hq => ?_) (fun s r hs hone => (hf s r hone).2) fun s r hs hr => ?_
  · obtain ⟨hp, hne⟩ := ((hf s r (h.once s r hs)).1).mp hq
    refine ⟨hp, ?_⟩
    have hs' : s ≠ sid := by
      rintro rfl
      exact hne ⟨rfl, hsid hs r hp⟩
    rw [roomOf_exit, if_neg (by simpa using hs')]
    rfl
  · rw [roomOf_exit] at hr
    split at hr
    · cases hr
    · rename_i hs'
      have hs'' : s ≠ sid := by simpa using hs'
      exact ⟨hr, fun hp => ((hf s r (h.once s r (hFE s hs))).1).mpr ⟨hp, fun hc => hs'' hc.1⟩⟩

/-- A room is released in which no connection of `F` sits. -/
theorem Seated.drop (h : p.Seated E F) (hno : ∀ s, F s → p.roomOf s ≠ some roomId) :
    (p.drop roomId).Seated E F := by
  refine h.shrink (fun s r _ hq => ⟨((p.sits_drop roomId).1.mp hq).1, rfl⟩)
    (fun s r _ => (p.sits_drop roomId).2) fun s r hs hr => ⟨hr, fun hp => ?_⟩
  refine (p.sits_drop roomId).1.mpr ⟨hp, ?_⟩
  rintro rfl
  exact hno s hs hr

/-- A room is released if nobody is left in it. -/
theorem Seated.dropIf (h : p.Seated E F) {c : Hall → Prop} [DecidablePred c]
    (hF : ∀ s, F s → isSid s = true) (hproper : ∀ h, p.halls roomId = some h → h.Proper)
    (hc : ∀ h, c h → h.humans = [] ∨ h.hasConnected = false) :
    (p.dropIf roomId c).Seated E F := by
  rcases p.dropIf_cases roomId c with ⟨heq, -⟩ | ⟨heq, hall, hhall, hcond⟩ <;> rw [heq]
  · exact h
  · refine h.drop fun s hs hr => ?_
    obtain ⟨hall', hhall', hconn⟩ := h.seat s roomId hs hr
    obtain rfl := Option.some.inj (hhall.symm.trans hhall')
    obtain ⟨hhuman, hon⟩ := humans_of_connected (hproper hall hhall) (hF s hs) hconn
    rcases hc hall hcond with hnil | hoff
    · rw [hnil] at hhuman
      cases hhuman
    · rw [hoff] at hon
      cases hon

/-- A room is given up, and connections that sit nowhere else play nowhere. -/
theorem Seated.abandon (h : p.Seated E F) (gone : String → Prop)
    (hhalls : q.halls = update p.halls roomId none)
    (hroomOf : ∀ s, q.roomOf s = p.roomOf s ∨ q.roomOf s = none ∧ gone s)
    (hgone : ∀ s, E s → gone s → ∀ r, p.Sits s r → r = roomId)
    (hF : ∀ s, F s → p.Sits s roomId → q.roomOf s ≠ some roomId) : q.Seated E F := by
  have hsits : ∀ s r, (q.Sits s r ↔ p.Sits s r ∧ r ≠ roomId) ∧ (p.Once s r → q.Once s r) := by
    intro s r
    have hdrop := p.sits_drop (s := s) (r := r) roomId
    obtain ⟨hq, honce⟩ := sits_congr (p := p.drop roomId) (q := q) (s := s) (r := r)
      (by rw [hhalls]; rfl)
    exact ⟨hq.trans hdrop.1, fun hone => honce.mpr (hdrop.2 hone)⟩
  refine h.shrink (fun s r hs hq => ?_) (fun s r _ => (hsits s r).2) fun s r hs hr => ?_
  · obtain ⟨hp, hne⟩ := (hsits s r).1.mp hq
    rcases hroomOf s with hsame | ⟨-, hout⟩
    · exact ⟨hp, hsame⟩
    · exact absurd (hgone s hs hout r hp) hne
  · rcases hroomOf s with hsame | ⟨hnone, -⟩
    · refine ⟨hsame ▸ hr, fun hp => (hsits s r).1.mpr ⟨hp, ?_⟩⟩
      rintro rfl
      exact hF s hs hp hr
    · rw [hnone] at hr
      cases hr

/-- What giving up a room does to the rooms and the connections. -/
theorem disband_halls (owner : Option String) {hall : Hall} (hhall : p.halls roomId = some hall) :
    (p.disband roomId owner).halls = update p.halls roomId none ∧
      ∀ s, (p.disband roomId owner).roomOf s =
        if s ∈ hall.humans ∧ some s ≠ owner then none else p.roomOf s := by
  unfold Presence.disband
  rw [hhall]
  refine ⟨rfl, fun s => ?_⟩
  change (if s ∈ hall.humans.filter (fun s => some s ≠ owner) then none else p.roomOf s) = _
  simp only [List.mem_filter, decide_eq_true_eq]

/-- A room is given up whose players sit nowhere else; its owner, who plays elsewhere, stays
there. -/
theorem Seated.disband (h : p.Seated E F) {owner : Option String} (halone : p.Alone E roomId owner)
    (hF : ∀ s, F s → isSid s = true) (hproper : ∀ h, p.halls roomId = some h → h.Proper)
    (howner : ∀ s, owner = some s → F s → p.roomOf s ≠ some roomId) :
    (p.disband roomId owner).Seated E F := by
  cases hhall : p.halls roomId with
  | none =>
    unfold Presence.disband
    rw [hhall]
    exact h
  | some hall =>
    obtain ⟨hhalls, hroomOf⟩ := disband_halls owner hhall
    refine h.abandon (fun s => s ∈ hall.humans ∧ some s ≠ owner) hhalls (fun s => ?_)
      (fun s hs hout r hp => halone hall hhall s hout.1 hout.2 hs r hp) fun s hs hp hr => ?_
    · rw [hroomOf]
      split
      · exact .inr ⟨rfl, ‹_›⟩
      · exact .inl rfl
    · rw [hroomOf] at hr
      split at hr
      · cases hr
      rename_i hstays
      obtain ⟨hall', hhall', hconn⟩ := hp
      obtain rfl := Option.some.inj (hhall.symm.trans hhall')
      have hhuman := (humans_of_connected (hproper hall hhall) (hF s hs) hconn).1
      exact hstays ⟨hhuman, fun ho => howner s ho.symm hs hr⟩

/-- The owner leaves, and the room is given up. -/
theorem Seated.quit_disband (h : p.Seated E F) {sid : String} (halone : p.Alone E roomId (some sid))
    (hF : ∀ s, F s → isSid s = true) (hproper : ∀ h, p.halls roomId = some h → h.Proper)
    (hplaced : p.placed sid = some roomId) :
    ((p.disband roomId (some sid)).exit [sid]).Seated E F := by
  obtain ⟨hroom, hsome⟩ := isSome_of_placed hplaced
  obtain ⟨hall, hhall⟩ := Option.isSome_iff_exists.mp hsome
  obtain ⟨hhalls, hroomOf⟩ := disband_halls (some sid) hhall
  have hroomOf' : ∀ s, ((p.disband roomId (some sid)).exit [sid]).roomOf s =
      if s ∈ hall.humans ∨ s = sid then none else p.roomOf s := by
    intro s
    rw [roomOf_exit, hroomOf]
    by_cases hs : s = sid
    · simp [hs]
    · by_cases hh : s ∈ hall.humans <;> simp [hs, hh]
  refine h.abandon (fun s => s ∈ hall.humans ∨ s = sid) hhalls (fun s => ?_)
    (fun s hs hout r hp => ?_) fun s hs hp hr => ?_
  · rw [hroomOf']
    split
    · exact .inr ⟨rfl, ‹_›⟩
    · exact .inl rfl
  · by_cases heq : s = sid
    · subst heq
      exact Option.some.inj ((h.room s r hs hp).symm.trans hroom)
    · exact halone hall hhall s (hout.resolve_right heq) (by simpa using heq) hs r hp
  · rw [hroomOf'] at hr
    split at hr
    · cases hr
    rename_i hstays
    obtain ⟨hall', hhall', hconn⟩ := hp
    obtain rfl := Option.some.inj (hhall.symm.trans hhall')
    exact hstays (.inl (humans_of_connected (hproper hall hhall) (hF s hs) hconn).1)

/-- A connection sits down. -/
theorem Seated.take (h : p.Seated E F) (sid : String) (roomId : RoomId)
    (henter : q.roomOf sid = some roomId) (hsits : F sid → q.Sits sid roomId)
    (hsid : ∀ r, E sid → q.Sits sid r → r = roomId) (honce : ∀ s r, E s → p.Once s r → q.Once s r)
    (hroom : ∀ s r, E s → s ≠ sid → q.Sits s r → p.Sits s r ∧ q.roomOf s = p.roomOf s)
    (hseat : ∀ s r, F s → s ≠ sid → q.roomOf s = some r →
      p.roomOf s = some r ∧ (p.Sits s r → q.Sits s r)) :
    q.Seated E F where
  room := fun s r hs hq => by
    by_cases heq : s = sid
    · subst heq
      rw [henter, hsid r hs hq]
    · obtain ⟨hp, hsame⟩ := hroom s r hs heq hq
      exact hsame.trans (h.room s r hs hp)
  once := fun s r hs => honce s r hs (h.once s r hs)
  seat := fun s r hs hr => by
    by_cases heq : s = sid
    · subst heq
      obtain rfl := Option.some.inj (henter.symm.trans hr)
      exact hsits hs
    · obtain ⟨hp, hq⟩ := hseat s r hs heq hr
      exact hq (h.seat s r hs hp)

/-- A connection of `E` that plays nowhere sits nowhere. -/
theorem Seated.not_sits (h : p.Seated E F) {sid : String} (hE : E sid)
    (hplaced : p.placed sid = none) (r : RoomId) : ¬ p.Sits sid r := by
  intro hsits
  have hroom := h.room sid r hE hsits
  obtain ⟨hall, hhall, -⟩ := hsits
  simp [placed, hroom, hhall] at hplaced

theorem Seated.quit_kept (h : p.Seated E F) {sid : String} (hFE : ∀ s, F s → E s)
    (hplaced : p.placed sid = some roomId) :
    ((p.modifyHall roomId (Hall.flag sid)).exit [sid]).Seated E F := by
  have hroom := (isSome_of_placed hplaced).1
  refine h.vacate (fun s r => sits_flag) (fun hE r hsits => ?_) hFE
  exact Option.some.inj ((h.room sid r hE hsits).symm.trans hroom)

theorem Seated.quit_unseat (h : p.Seated E F) {sid : String} (hFE : ∀ s, F s → E s)
    (hplaced : p.placed sid = some roomId) :
    ((p.modifyHall roomId (Hall.unseat sid)).exit [sid]).Seated E F := by
  have hroom := (isSome_of_placed hplaced).1
  refine h.vacate (fun s r => sits_unseat) (fun hE r hsits => ?_) hFE
  exact Option.some.inj ((h.room sid r hE hsits).symm.trans hroom)

theorem Seated.release (h : p.Seated E F) {token : Token} (hFE : ∀ s, F s → E s)
    (hcan : p.Releasable token) : (p.release token).Seated E F := by
  obtain ⟨-, r, s, hholder, hplaced⟩ := hcan
  simp only [Presence.release, hholder]
  exact (h.quit_kept hFE hplaced).congr rfl rfl

theorem proper_unseat (hs : p.Sane) (id : String) {h : Hall}
    (hh : (p.modifyHall roomId (Hall.unseat id)).halls r = some h) : h.Proper := by
  rw [halls_modifyHall] at hh
  split at hh
  · obtain ⟨h', hh', rfl⟩ := Option.map_eq_some_iff.mp hh
    exact (hs.proper r h' hh').unseat id
  · exact hs.proper r h hh

theorem proper_flag (hs : p.Sane) {id : String} (hid : isBotId id = false) {h : Hall}
    (hh : (p.modifyHall roomId (Hall.flag id)).halls r = some h) : h.Proper := by
  rw [halls_modifyHall] at hh
  split at hh
  · obtain ⟨h', hh', rfl⟩ := Option.map_eq_some_iff.mp hh
    exact (hs.proper r h' hh').flag hid
  · exact hs.proper r h hh

theorem dropIf_exit (p : Presence) (roomId : RoomId) (sids : List String) (c : Hall → Prop)
    [DecidablePred c] :
    ((p.dropIf roomId c).exit sids).halls = ((p.exit sids).dropIf roomId c).halls ∧
      ((p.dropIf roomId c).exit sids).roomOf = ((p.exit sids).dropIf roomId c).roomOf := by
  rcases p.dropIf_cases roomId c with ⟨heq, hno⟩ | ⟨heq, hall, hhall, hc⟩ <;>
    rcases (p.exit sids).dropIf_cases roomId c with ⟨heq', hno'⟩ | ⟨heq', hall', hhall', hc'⟩ <;>
      rw [heq, heq']
  · exact ⟨rfl, rfl⟩
  · exact absurd hc' (hno hall' hhall')
  · exact absurd hc (hno' hall hhall)
  · exact ⟨rfl, rfl⟩

theorem Seated.quit (h : p.Seated E F) (hs : p.Sane) (hF : ∀ s, F s → isSid s = true)
    (hFE : ∀ s, F s → E s) {sid : String} {how : Departure} {forgets breaks : Bool}
    (hcan : p.Can (.departed sid how forgets breaks))
    (hfair : p.Fair E F (.departed sid how forgets breaks)) : (p.quit sid how).Seated E F := by
  obtain ⟨-, -, hcan⟩ := hcan
  have hdeserted : ∀ h : Hall, deserted h → h.humans = [] ∨ h.hasConnected = false :=
    fun h hd => hd.imp id And.right
  cases how with
  | stays => exact h
  | clears => exact h.congr rfl rfl
  | kept r token =>
    have hkept := h.quit_kept hFE hcan.1
    cases token with
    | none => exact hkept
    | some token => exact hkept.congr rfl rfl
  | grace r token => exact (h.quit_kept hFE hcan.1).congr rfl rfl
  | removed r =>
    have hout : ((((p.modifyHall r (Hall.unseat sid)).revoke [sid]).exit [sid])).Seated E F :=
      (h.quit_unseat hFE hcan).congr rfl rfl
    exact hout.dropIf hF (fun h hh => proper_unseat hs sid hh) hdeserted
  | lost r =>
    have hout : (((p.modifyHall r (Hall.unseat sid)).exit [sid]).dropIf r deserted).Seated E F :=
      (h.quit_unseat hFE hcan).dropIf hF (fun h hh => proper_unseat hs sid hh) hdeserted
    obtain ⟨hhalls, hroomOf⟩ := dropIf_exit (p.modifyHall r (Hall.unseat sid)) r [sid]
      deserted
    exact hout.congr hhalls hroomOf
  | disbanded r =>
    exact (h.quit_disband hfair hF (hs.proper r) hcan).congr rfl rfl

theorem Seated.expire (h : p.Seated E F) (hs : p.Sane) (hF : ∀ s, F s → isSid s = true)
    (hFE : ∀ s, F s → E s) {token : Token} {a : Absence} {how : Expiry}
    (hno : p.roomOf a.sid ≠ some a.roomId)
    (halone : how = .disbanded → p.Alone E a.roomId (some a.sid)) :
    (p.expire token a how).Seated E F := by
  have hforget : ((p.forget token a).setAccount a.sid none).Seated E F := h.congr rfl rfl
  have hoff : ∀ h : Hall, h.hasConnected = false → h.humans = [] ∨ h.hasConnected = false :=
    fun _ => .inr
  cases how with
  | stale => exact h
  | gone => exact hforget
  | disbanded =>
    refine hforget.disband (halone rfl) hF (hs.proper _) fun s ho _ => ?_
    obtain rfl := Option.some.inj ho
    exact hno
  | settled removes =>
    cases removes with
    | false => exact hforget.dropIf hF (hs.proper _) hoff
    | true =>
      have hunseat : (p.modifyHall a.roomId (Hall.unseat a.sid)).Seated E F := by
        refine h.shrink (fun s r hE hq => ?_) (fun s r _ hone => (sits_unseat hone).2)
          fun s r hsF hr => ⟨hr, fun hp => ?_⟩
        · exact ⟨((sits_unseat (h.once s r hE)).1.mp hq).1, rfl⟩
        · refine (sits_unseat (h.once s r (hFE s hsF))).1.mpr ⟨hp, ?_⟩
          rintro ⟨rfl, rfl⟩
          exact hno hr
      have hout : (((p.forget token a).setAccount a.sid none).modifyHall a.roomId
          (Hall.unseat a.sid)).Seated E F := hunseat.congr rfl rfl
      exact hout.dropIf hF (fun h hh => proper_unseat hs a.sid hh) hoff

/-- A connection takes the first seat of an identifier. -/
theorem Seated.reseat (h : p.Seated E F) {sid old : String} {hall : Hall}
    (hhall : p.halls roomId = some hall) (hseat : ∃ x ∈ hall.seats, x.id = old)
    (hbefore : ¬ Hall.Before sid old hall.seats) (hfree : ∀ r, ¬ p.Sits sid r)
    (hold : F old → old ≠ sid → ¬ p.Sits old roomId) (hFE : ∀ s, F s → E s) :
    ((p.modifyHall roomId (Hall.reseat old sid)).enter sid roomId).Seated E F := by
  have hnew := fun r => sits_reseat_new (p := p) (r := r) hhall hseat hbefore fun _ => hfree roomId
  have hroomOf : ∀ s, s ≠ sid →
      ((p.modifyHall roomId (Hall.reseat old sid)).enter sid roomId).roomOf s = p.roomOf s :=
    fun s hs => Function.update_of_ne hs ..
  refine h.take sid roomId (Function.update_self ..)
    (fun _ => (hnew roomId).1.mpr (.inl rfl)) (fun r _ hq => ?_) (fun s r _ hone => ?_)
    (fun s r hE hs hq => ?_) fun s r hsF hs hr => ?_
  · exact ((hnew r).1.mp hq).resolve_right (hfree r)
  · by_cases hs : s = sid
    · subst hs
      exact (hnew r).2 hone
    · exact (sits_reseat_old hs hone).2
  · exact ⟨((sits_reseat_old hs (h.once s r hE)).1.mp hq).1, hroomOf s hs⟩
  · rw [hroomOf s hs] at hr
    refine ⟨hr, fun hp => (sits_reseat_old hs (h.once s r (hFE s hsF))).1.mpr ⟨hp, ?_⟩⟩
    rintro ⟨rfl, rfl⟩
    exact hold hsF hs hp

theorem Seated.insertHall (h : p.Seated E F) {hall : Hall} (hnone : p.halls roomId = none)
    (hconn : ∀ s, E s → ¬ Hall.Connected s hall.seats) (honce : ∀ s, E s → Hall.FirstOnly s hall.seats)
    (hhalls : q.halls = update p.halls roomId (some hall)) (hroomOf : q.roomOf = p.roomOf) :
    q.Seated E F := by
  have hother : ∀ s r, r ≠ roomId → (q.Sits s r ↔ p.Sits s r) ∧ (q.Once s r ↔ p.Once s r) :=
    fun s r hr => sits_congr (by rw [hhalls, Function.update_of_ne hr])
  have hq : q.halls roomId = some hall := by rw [hhalls, Function.update_self]
  refine h.shrink (fun s r hs hsits => ?_) (fun s r hs hone => ?_)
    fun s r _ hr => ⟨hroomOf ▸ hr, fun hp => ?_⟩
  · by_cases hr : r = roomId
    · subst hr
      obtain ⟨hall', hhall', hc⟩ := hsits
      obtain rfl := Option.some.inj (hq.symm.trans hhall')
      exact absurd hc (hconn s hs)
    · exact ⟨(hother s r hr).1.mp hsits, by rw [hroomOf]⟩
  · by_cases hr : r = roomId
    · subst hr
      intro hall' hhall'
      obtain rfl := Option.some.inj (hq.symm.trans hhall')
      exact honce s hs
    · exact (hother s r hr).2.mpr hone
  · refine (hother s r ?_).1.mpr hp
    rintro rfl
    obtain ⟨hall', hhall', -⟩ := hp
    rw [hnone] at hhall'
    cases hhall'

theorem not_connected_of_absent {hall : Hall} (h : hall.Absent) (s : String) :
    ¬ Hall.Connected s hall.seats ∧ Hall.FirstOnly s hall.seats := by
  refine ⟨fun ⟨x, hx, _, hon⟩ => ?_, fun x hx => ?_⟩
  · rw [(h x hx).2] at hon
    cases hon
  · exact (h x (List.mem_of_mem_filter (List.mem_of_mem_tail hx))).2

/-- A room that is loaded seats nobody. -/
theorem sits_insertAbsent {hall : Hall} (hnone : p.halls roomId = none) (h : hall.Absent)
    (s : String) (r : RoomId) :
    Sits { p with halls := update p.halls roomId (some hall) } s r ↔ p.Sits s r := by
  by_cases hr : r = roomId
  · subst hr
    simp [Sits, hnone, (not_connected_of_absent h s).1]
  · exact (sits_congr (Function.update_of_ne hr ..)).1

/-- A connection takes the seat of another one, which is ousted. -/
theorem Seated.takeFrom (h : p.Seated E F) (sid : String) {old : String} {ousts : Bool} {hall : Hall}
    (hhall : p.halls roomId = some hall) (hv : p.Vacates roomId hall old ousts)
    (hbefore : ¬ Hall.Before sid old hall.seats) (hfree : ∀ r, ¬ p.Sits sid r)
    (hold : F old → ousts = false → ¬ p.Sits old roomId) (hFE : ∀ s, F s → E s) :
    (((if ousts then (p.exit [old]).revoke [old] else p).modifyHall roomId
      (Hall.reseat old sid)).enter sid roomId).Seated E F := by
  obtain ⟨x, hx, hid, -, hiff⟩ := hv
  cases ousts with
  | false => exact h.reseat hhall ⟨x, hx, hid⟩ hbefore hfree (fun hsF _ => hold hsF rfl) hFE
  | true =>
    obtain ⟨hon, hroom⟩ := hiff.mp rfl
    have hne : old ≠ sid := by
      rintro rfl
      exact hfree roomId ⟨hall, hhall, x, hx, hid, hon⟩
    have hnew := fun r => sits_reseat_new (p := p) (r := r) hhall ⟨x, hx, hid⟩ hbefore
      fun _ => hfree roomId
    have hgone : ∀ s r, E s → s ≠ sid → (p.modifyHall roomId (Hall.reseat old sid)).Sits s r →
        p.Sits s r ∧ s ≠ old := by
      intro s r hE hs hq
      obtain ⟨hp, hout⟩ := (sits_reseat_old hs (h.once s r hE)).1.mp hq
      refine ⟨hp, ?_⟩
      rintro rfl
      exact hout ⟨rfl, Option.some.inj ((h.room s r hE hp).symm.trans hroom)⟩
    have hroomOf : ∀ s, s ≠ sid → s ≠ old → (((p.exit [old]).revoke [old]).modifyHall roomId
        (Hall.reseat old sid) |>.enter sid roomId).roomOf s = p.roomOf s := by
      intro s hs hso
      simp [Presence.enter, Presence.modifyHall, Presence.revoke, Presence.exit, hs, hso]
    refine h.take sid roomId (Function.update_self ..)
      (fun _ => (hnew roomId).1.mpr (.inl rfl)) (fun r _ hq => ?_) (fun s r _ hone => ?_)
      (fun s r hE hs hq => ?_) fun s r hsF hs hr => ?_
    · exact ((hnew r).1.mp hq).resolve_right (hfree r)
    · by_cases hs : s = sid
      · subst hs
        exact (hnew r).2 hone
      · exact (sits_reseat_old hs hone).2
    · obtain ⟨hp, hso⟩ := hgone s r hE hs hq
      exact ⟨hp, hroomOf s hs hso⟩
    · by_cases hso : s = old
      · subst hso
        simp [Presence.enter, Presence.modifyHall, Presence.revoke, Presence.exit, hs] at hr
      · refine ⟨(hroomOf s hs hso).symm.trans hr, fun hp => ?_⟩
        exact (sits_reseat_old hs (h.once s r (hFE s hsF))).1.mpr ⟨hp, fun hc => hso hc.1⟩

/-- A connection opens a room. -/
theorem Seated.open (h : p.Seated E F) (hE : ∀ s, E s → isSid s = true) {sid name : String}
    {hall : Hall} {seats : List Seat} (hnone : p.halls roomId = none)
    (hseats : hall.seats = ⟨sid, name, false, false⟩ :: seats)
    (hothers : ∀ x ∈ seats, isSid x.id = false) (hfree : E sid → ∀ r, ¬ p.Sits sid r)
    (hhalls : q.halls = update p.halls roomId (some hall))
    (hroomOf : q.roomOf = update p.roomOf sid (some roomId)) : q.Seated E F := by
  have hq : q.halls roomId = some hall := by rw [hhalls, Function.update_self]
  have hown : ∀ s, E s → Hall.own s hall.seats =
      if sid = s then [⟨sid, name, false, false⟩] else [] := by
    intro s hs
    have hnil : Hall.own s seats = [] := Hall.own_eq_nil.mpr fun x hx hid => by
      have := hothers x hx
      rw [hid, hE s hs] at this
      cases this
    rw [hseats, Hall.own_cons, hnil]
  have hconn : ∀ s, E s → (Hall.Connected s hall.seats ↔ s = sid) := by
    intro s hs
    rw [Hall.connected_iff_own, hown s hs]
    by_cases hsid : sid = s
    · simp [hsid]
    · simp [hsid, Ne.symm hsid]
  have hother : ∀ s r, r ≠ roomId → (q.Sits s r ↔ p.Sits s r) ∧ (q.Once s r ↔ p.Once s r) :=
    fun s r hr => sits_congr (by rw [hhalls, Function.update_of_ne hr])
  have hsits : ∀ s r, E s → q.Sits s r → s = sid ∧ r = roomId ∨ p.Sits s r := by
    intro s r hs hqs
    by_cases hr : r = roomId
    · subst hr
      obtain ⟨hall', hhall', hc⟩ := hqs
      obtain rfl := Option.some.inj (hq.symm.trans hhall')
      exact .inl ⟨(hconn s hs).mp hc, rfl⟩
    · exact .inr ((hother s r hr).1.mp hqs)
  refine h.take sid roomId (by rw [hroomOf, Function.update_self])
    (fun _ => ⟨hall, hq, ⟨sid, name, false, false⟩, by rw [hseats]; exact List.mem_cons_self,
      rfl, rfl⟩)
    (fun r hs hqs => ?_) (fun s r hs hone => ?_) (fun s r hs hne hqs => ?_) fun s r _ hne hr => ?_
  · exact (hsits sid r hs hqs).elim And.right fun hp => absurd hp (hfree hs r)
  · by_cases hr : r = roomId
    · subst hr
      intro hall' hhall'
      obtain rfl := Option.some.inj (hq.symm.trans hhall')
      rw [Hall.FirstOnly, hown s hs]
      split <;> simp
    · exact (hother s r hr).2.mpr hone
  · refine ⟨(hsits s r hs hqs).resolve_left fun hc => hne hc.1, ?_⟩
    rw [hroomOf, Function.update_of_ne hne]
  · refine ⟨?_, fun hp => (hother s r ?_).1.mpr hp⟩
    · rw [hroomOf, Function.update_of_ne hne] at hr
      exact hr
    · rintro rfl
      obtain ⟨hall', hhall', -⟩ := hp
      rw [hnone] at hhall'
      cases hhall'

theorem Seated.of_vacant (h : p.Vacant) : p.Seated E F where
  room := fun s r _ ⟨hall, hhall, _⟩ => by
    rw [h.halls] at hhall
    cases hhall
  once := fun s r _ hall hhall => by
    rw [h.halls] at hhall
    cases hhall
  seat := fun s r _ hr => by
    rw [h.roomOf] at hr
    cases hr

theorem Timed.of_vacant (h : p.Vacant) : p.Timed where
  housed := fun t a ha => by
    rw [h.away] at ha
    cases ha
  seq := fun e he => by
    rw [h.timers] at he
    cases he
  closed := fun t a ha => by
    rw [h.away] at ha
    cases ha

theorem Sane.fresh_hall (hs : p.Sane) : p.halls p.fresh = none := by
  cases hhall : p.halls p.fresh with
  | none => rfl
  | some h => exact absurd (hs.fresh _ h hhall) (lt_irrefl _)

/-- **Every fair deed seats the connections in order.** -/
theorem Seated.act (h : p.Seated E F) (hs : p.Sane) (ht : p.Timed) (hE : ∀ s, E s → isSid s = true)
    (hFE : ∀ s, F s → E s) (hopen : ∀ s, isSid s = true → s ∉ p.closed → E s) {d : Deed}
    (hcan : p.Can d) (hfair : p.Fair E F d)
    (hkeeps : ∀ r seats, d = .restored r seats → p.Keeps E F r seats) : (p.act d).Seated E F := by
  have hF : ∀ s, F s → isSid s = true := fun s hsF => hE s (hFE s hsF)
  have hfresh := hs.fresh_hall
  cases d with
  | nothing => exact h
  | named sid auth => exact h.congr rfl rfl
  | departed sid how forgets breaks =>
    have hquit := h.quit hs hF hFE hcan hfair
    refine hquit.congr ?_ ?_ <;>
      · simp only [Presence.act]
        cases forgets <;> cases breaks <;> rfl
  | expired token seq how =>
    obtain ⟨hmem, hcan⟩ := hcan
    have herase : Seated E F { p with timers := p.timers.erase (token, seq) } := h.congr rfl rfl
    simp only [Presence.act]
    split
    · exact herase
    · rename_i a haway
      by_cases hseq : a.seq = seq
      · subst hseq
        refine herase.expire ⟨hs.proper, ⟨hs.named.holder, hs.named.away⟩, hs.fresh⟩ hF hFE
          (ht.closed token a haway hmem).2 ?_
        rintro rfl
        exact hfair a haway
      · cases how with
        | stale => exact herase
        | _ =>
          obtain ⟨b, hb, hbseq, -⟩ := hcan
          obtain rfl := Option.some.inj (haway.symm.trans hb)
          exact absurd hbseq hseq
  | cameBack sid token auth releases =>
    obtain ⟨-, -, hrel, a, hall, haway, hhall, hseat⟩ := hcan
    obtain ⟨hfree, hbefore⟩ := hfair
    have hmet : (p.met token releases).Seated E F := by
      cases releases with
      | false => exact h
      | true => exact h.release hFE (hrel rfl)
    have heq : p.met token releases = if releases then p.release token else p := rfl
    rw [← heq] at haway hhall
    simp only [Presence.act, ← heq, haway]
    obtain ⟨hbefore, hold⟩ := hbefore a hall haway hhall
    exact (hmet.reseat hhall hseat hbefore hfree hold hFE).congr rfl rfl
  | released token => exact h.release hFE hcan
  | voided token => exact h.congr rfl rfl
  | opened sid token hall =>
    obtain ⟨hsid, hplaced, name, seats, hseats, hothers⟩ := hcan
    exact h.open hE hfresh hseats (fun x hx => (hothers x hx).1)
      (fun hsidE => h.not_sits hsidE hplaced) rfl rfl
  | joined sid name roomId token =>
    obtain ⟨hclosed, hsid, hplaced, hall, hhall, hnone⟩ := hcan
    have hadd := fun s r => sits_add (p := p) (s := s) (r := r) (x := ⟨sid, name, false, false⟩) hhall
      rfl hnone
    have hfree := h.not_sits (hopen sid hsid hclosed) hplaced
    have hseated : ((p.modifyHall roomId (Hall.add ⟨sid, name, false, false⟩)).enter sid
        roomId).Seated E F := by
      refine h.take sid roomId (Function.update_self ..)
        (fun _ => (hadd sid roomId).1.mpr (.inl ⟨rfl, rfl⟩)) (fun r _ hq => ?_)
        (fun s r _ => (hadd s r).2) (fun s r _ hne hq => ?_) fun s r _ hne hr => ?_
      · exact ((hadd sid r).1.mp hq).elim And.right fun hp => absurd hp (hfree r)
      · refine ⟨((hadd s r).1.mp hq).resolve_left fun hc => hne hc.1, ?_⟩
        exact Function.update_of_ne hne ..
      · refine ⟨(Function.update_of_ne hne ..).symm.trans hr, fun hp => (hadd s r).1.mpr (.inr hp)⟩
    exact hseated.congr rfl rfl
  | took sid roomId old token loads ousts =>
    obtain ⟨hclosed, hsid, hplaced, hcan⟩ := hcan
    obtain ⟨hbefore, hold⟩ := hfair
    have hfree := h.not_sits (hopen sid hsid hclosed) hplaced
    cases loads with
    | none =>
      obtain ⟨hall, hhall, hv, -⟩ := hcan
      exact (h.takeFrom sid hhall hv (hbefore hall (by simp [hhall])) hfree hold hFE).congr rfl rfl
    | some hall =>
      obtain ⟨hnone, -, -, habsent, hv⟩ := hcan
      have hload := sits_insertAbsent (p := p) hnone habsent
      have hseated : Seated E F { p with halls := update p.halls roomId (some hall) } :=
        h.insertHall hnone (fun s _ => (not_connected_of_absent habsent s).1)
          (fun s _ => (not_connected_of_absent habsent s).2) rfl rfl
      have htake := hseated.takeFrom sid (Function.update_self ..) hv
        (hbefore hall (by simp)) (fun r hq => hfree r ((hload sid r).mp hq))
        (fun hsF hno hq => hold hsF hno ((hload old roomId).mp hq)) hFE
      exact htake.congr rfl rfl
  | loaded roomId hall =>
    obtain ⟨hnone, -, -, habsent⟩ := hcan
    exact h.insertHall hnone (fun s _ => (not_connected_of_absent habsent s).1)
      (fun s _ => (not_connected_of_absent habsent s).2) rfl rfl
  | restored roomId seats =>
    obtain ⟨hall, hhall, -, -⟩ := hcan
    have hfair := hkeeps roomId seats rfl
    have hq : (p.act (.restored roomId seats)).halls roomId = some { hall with seats } := by
      simp [Presence.act, Presence.modifyHall, hhall]
    have hother : ∀ s r, r ≠ roomId → ((p.act (.restored roomId seats)).Sits s r ↔ p.Sits s r) ∧
        ((p.act (.restored roomId seats)).Once s r ↔ p.Once s r) := fun s r hr =>
      sits_congr (Function.update_of_ne hr ..)
    refine h.shrink (fun s r hsE hsits => ?_) (fun s r hsE hone => ?_)
      fun s r hsF hr => ⟨hr, fun hp => ?_⟩
    · by_cases hr : r = roomId
      · subst hr
        obtain ⟨hall', hhall', hc⟩ := hsits
        obtain rfl := Option.some.inj (hq.symm.trans hhall')
        exact ⟨(hfair s hsE).1 hc, rfl⟩
      · exact ⟨(hother s r hr).1.mp hsits, rfl⟩
    · by_cases hr : r = roomId
      · subst hr
        intro hall' hhall'
        obtain rfl := Option.some.inj (hq.symm.trans hhall')
        exact (hfair s hsE).2.1
      · exact (hother s r hr).2.mpr hone
    · by_cases hr : r = roomId
      · subst hr
        exact ⟨_, hq, (hfair s (hFE s hsF)).2.2 hsF hp⟩
      · exact (hother s r hr).1.mpr hp
  | kicked tokens => exact h.congr rfl rfl
  | expelled roomId id running =>
    obtain ⟨hall, hhall, x, hx, rfl, hbot⟩ := hcan
    have hid : isBotId x.id = false := ((hs.proper roomId hall hhall x hx).bot).symm.trans hbot
    have hc : ∀ h : Hall, h.humans = [] ∨ (h.isAsync = false ∧ h.hasConnected = false) →
        h.humans = [] ∨ h.hasConnected = false := fun h => Or.imp_right And.right
    cases running with
    | true =>
      have hout : ((p.modifyHall roomId (Hall.flag x.id)).exit [x.id]).Seated E F :=
        h.vacate (fun s r => sits_flag) hfair hFE
      have hout' : (((p.exit [x.id]).revoke [x.id]).modifyHall roomId (Hall.flag x.id)).Seated E F :=
        hout.congr rfl rfl
      exact hout'.dropIf hF (fun h hh => proper_flag hs hid hh) hc
    | false =>
      have hout : ((p.modifyHall roomId (Hall.unseat x.id)).exit [x.id]).Seated E F :=
        h.vacate (fun s r => sits_unseat) hfair hFE
      have hout' : (((p.exit [x.id]).revoke [x.id]).modifyHall roomId (Hall.unseat x.id)).Seated E F :=
        hout.congr rfl rfl
      exact hout'.dropIf hF (fun h hh => proper_unseat hs x.id hh) hc
  | disbanded roomId => exact h.disband hfair hF (hs.proper roomId) fun s hs => by cases hs
  | closed roomId =>
    obtain ⟨hall, hhall, -, hoff⟩ := hcan
    refine h.drop fun s hsF hr => ?_
    obtain ⟨hall', hhall', hconn⟩ := h.seat s roomId hsF hr
    obtain rfl := Option.some.inj (hhall.symm.trans hhall')
    rw [(humans_of_connected (hs.proper roomId hall hhall) (hF s hsF) hconn).2] at hoff
    cases hoff

end Presence

end Server

end ScrabbleMagyar
