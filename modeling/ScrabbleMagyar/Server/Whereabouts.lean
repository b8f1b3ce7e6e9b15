import ScrabbleMagyar.Server.Presence

/-!
# Who sits where

The seats of an identifier in a room, and what the operations of a presence do to them. A
connection should have one connected seat of its identifier, the first one, since the seats are
looked up by their identifiers.

* `Presence.Sits`: an identifier has a connected seat in a room.
* `Presence.Once`: only the first seat of an identifier may be connected.
-/

namespace ScrabbleMagyar

namespace Server

open Function (update)

/-! ## The seats of an identifier -/

namespace Hall

/-- The seats of an identifier. -/
def own (s : String) (l : List Seat) : List Seat := l.filter fun x => x.id = s

/-- A connected seat of an identifier. -/
def Connected (s : String) (l : List Seat) : Prop := ∃ x ∈ l, x.id = s ∧ x.disconnected = false

/-- Only the first seat of an identifier may be connected. -/
def FirstOnly (s : String) (l : List Seat) : Prop := ∀ x ∈ (own s l).tail, x.disconnected = true

theorem connected_iff_own {s : String} {l : List Seat} :
    Connected s l ↔ ∃ x ∈ own s l, x.disconnected = false := by
  simp [Connected, own, and_assoc]

theorem own_cons (s : String) (x : Seat) (l : List Seat) :
    own s (x :: l) = if x.id = s then x :: own s l else own s l := by
  by_cases h : x.id = s <;> simp [own, h]

theorem own_append (s : String) (l l' : List Seat) : own s (l ++ l') = own s l ++ own s l' :=
  List.filter_append ..

theorem own_leave (id s : String) (l : List Seat) :
    own s (changeSeat id Seat.leave l) =
      if s = id then (own s l).modifyHead Seat.leave else own s l := by
  induction l with
  | nil => simp [changeSeat, own]
  | cons x l ih =>
    by_cases hx : x.id = id
    · rw [changeSeat, if_pos hx, own_cons, own_cons]
      by_cases hs : s = id
      · simp [hs, hx, Seat.leave]
      · have hne : x.id ≠ s := fun h => hs (h.symm.trans hx)
        simp [hs, hne, Seat.leave]
    · rw [changeSeat, if_neg hx, own_cons, own_cons, ih]
      by_cases hs : s = id
      · have hne : x.id ≠ s := fun h => hx (h.trans hs)
        simp [hs, hx]
      · simp [hs]

theorem own_eraseP (id s : String) (l : List Seat) :
    own s (l.eraseP fun x => x.id = id) = if s = id then (own s l).tail else own s l := by
  induction l with
  | nil => simp [own]
  | cons x l ih =>
    by_cases hx : x.id = id
    · rw [List.eraseP_cons_of_pos (by simpa using hx), own_cons]
      by_cases hs : s = id
      · simp [hs, hx]
      · have hne : x.id ≠ s := fun h => hs (h.symm.trans hx)
        simp [hs, hne]
    · rw [List.eraseP_cons_of_neg (by simpa using hx), own_cons, own_cons, ih]
      by_cases hs : s = id
      · simp [hs, hx]
      · simp [hs]

/-- Other identifiers keep their seats when one passes to another. -/
theorem own_reconnect_of_ne {old new s : String} (hold : s ≠ old) (hnew : s ≠ new) (l : List Seat) :
    own s (changeSeat old (Seat.reconnect new) l) = own s l := by
  induction l with
  | nil => rfl
  | cons x l ih =>
    by_cases hx : x.id = old
    · rw [changeSeat, if_pos hx, own_cons, own_cons]
      have hne : x.id ≠ s := fun h => hold (h.symm.trans hx)
      simp [Seat.reconnect, Ne.symm hnew, hne]
    · rw [changeSeat, if_neg hx, own_cons, own_cons, ih]

theorem own_reconnect_old {old new : String} (hne : old ≠ new) (l : List Seat) :
    own old (changeSeat old (Seat.reconnect new) l) = (own old l).tail := by
  induction l with
  | nil => rfl
  | cons x l ih =>
    by_cases hx : x.id = old
    · rw [changeSeat, if_pos hx, own_cons, own_cons]
      simp [Seat.reconnect, hx, Ne.symm hne]
    · rw [changeSeat, if_neg hx, own_cons, own_cons, ih]
      simp [hx]

/-- No seat of an identifier comes before the first seat of another one. -/
def Before (new old : String) (l : List Seat) : Prop :=
  ∃ x ∈ l.takeWhile fun x => x.id ≠ old, x.id = new

theorem own_reconnect_new {old new : String} {l : List Seat} (hold : own old l ≠ [])
    (hbefore : ¬ Before new old l) (hne : new ≠ old) :
    ∃ x, x.disconnected = false ∧
      own new (changeSeat old (Seat.reconnect new) l) = x :: own new l := by
  induction l with
  | nil => exact absurd rfl hold
  | cons x l ih =>
    by_cases hx : x.id = old
    · refine ⟨x.reconnect new, rfl, ?_⟩
      have hxn : x.id ≠ new := fun h => hne (h.symm.trans hx)
      rw [changeSeat, if_pos hx, own_cons, own_cons, if_neg hxn]
      simp [Seat.reconnect]
    · have htake :
          (x :: l).takeWhile (fun y => y.id ≠ old) = x :: l.takeWhile fun y => y.id ≠ old := by
        simp [hx]
      have hxn : x.id ≠ new := fun h => hbefore ⟨x, by rw [htake]; simp, h⟩
      rw [own_cons, if_neg hx] at hold
      have hbefore' : ¬ Before new old l := by
        rintro ⟨z, hz, hid⟩
        exact hbefore ⟨z, by rw [htake]; exact List.mem_cons_of_mem x hz, hid⟩
      obtain ⟨y, hy, heq⟩ := ih hold hbefore'
      refine ⟨y, hy, ?_⟩
      rw [changeSeat, if_neg hx, own_cons, own_cons, if_neg hxn, if_neg hxn, heq]

theorem own_reconnect_self {s : String} {l : List Seat} (h : own s l ≠ []) :
    ∃ x, x.disconnected = false ∧
      own s (changeSeat s (Seat.reconnect s) l) = x :: (own s l).tail := by
  induction l with
  | nil => exact absurd rfl h
  | cons x l ih =>
    by_cases hx : x.id = s
    · refine ⟨x.reconnect s, rfl, ?_⟩
      rw [changeSeat, if_pos hx, own_cons, own_cons]
      simp [Seat.reconnect, hx]
    · rw [own_cons, if_neg hx] at h
      obtain ⟨y, hy, heq⟩ := ih h
      refine ⟨y, hy, ?_⟩
      rw [changeSeat, if_neg hx, own_cons, own_cons, if_neg hx, if_neg hx, heq]

theorem own_ne_nil {s : String} {l : List Seat} : own s l ≠ [] ↔ ∃ x ∈ l, x.id = s := by
  simp [own, List.filter_eq_nil_iff]

theorem own_eq_nil {s : String} {l : List Seat} : own s l = [] ↔ ∀ x ∈ l, x.id ≠ s := by
  simp [own, List.filter_eq_nil_iff]

/-- Of the seats of an identifier, the first one is given up or left: what is left of them is not
connected. -/
theorem not_connected_of_tail {s : String} {l l' : List Seat} (h : FirstOnly s l)
    (hown : own s l' = (own s l).tail ∨ own s l' = (own s l).modifyHead Seat.leave) :
    ¬ Connected s l' ∧ FirstOnly s l' := by
  rw [connected_iff_own, FirstOnly]
  rw [FirstOnly] at h
  cases hl : own s l with
  | nil =>
    rw [hl] at hown
    have hnil : own s l' = [] := hown.elim id id
    simp [hnil]
  | cons x rest =>
    rw [hl] at h hown
    simp only [List.tail_cons] at h hown
    rcases hown with hown | hown <;> rw [hown]
    · refine ⟨fun ⟨y, hy, hon⟩ => ?_, fun y hy => h y (List.mem_of_mem_tail hy)⟩
      rw [h y hy] at hon
      cases hon
    · refine ⟨fun ⟨y, hy, hon⟩ => ?_, fun y hy => h y hy⟩
      rcases List.mem_cons.mp hy with rfl | hy
      · cases hon
      · rw [h y hy] at hon
        cases hon

theorem connected_congr {s : String} {l l' : List Seat} (h : own s l' = own s l) :
    (Connected s l' ↔ Connected s l) ∧ (FirstOnly s l' ↔ FirstOnly s l) := by
  rw [connected_iff_own, connected_iff_own, FirstOnly, FirstOnly, h]
  exact ⟨Iff.rfl, Iff.rfl⟩

end Hall

/-! ## Connected seats -/

namespace Presence

/-- A connected seat of an identifier in a room. -/
def Sits (p : Presence) (s : String) (r : RoomId) : Prop :=
  ∃ h, p.halls r = some h ∧ Hall.Connected s h.seats

/-- Only the first seat of an identifier in a room may be connected. -/
def Once (p : Presence) (s : String) (r : RoomId) : Prop :=
  ∀ h, p.halls r = some h → Hall.FirstOnly s h.seats

/-- The state in which a player who comes back takes the seat. -/
def met (p : Presence) (token : Token) (releases : Bool) : Presence :=
  if releases then p.release token else p

variable {p q : Presence} {s id : String} {r roomId : RoomId}

theorem halls_modifyHall (p : Presence) (roomId r : RoomId) (f : Hall → Hall) :
    (p.modifyHall roomId f).halls r = if r = roomId then (p.halls r).map f else p.halls r := by
  by_cases hr : r = roomId
  · subst hr
    simp [modifyHall]
  · simp [modifyHall, hr]

/-- The other rooms are as they were. -/
theorem sits_congr (h : q.halls r = p.halls r) :
    (q.Sits s r ↔ p.Sits s r) ∧ (q.Once s r ↔ p.Once s r) := by
  rw [Sits, Sits, Once, Once, h]
  exact ⟨Iff.rfl, Iff.rfl⟩

/-- The first seat of an identifier is left or given up. -/
theorem sits_vacate {f : Hall → Hall}
    (hf : ∀ h, Hall.own s (f h).seats = Hall.own s h.seats ∧ s ≠ id ∨
      s = id ∧ (Hall.own s (f h).seats = (Hall.own s h.seats).tail ∨
        Hall.own s (f h).seats = (Hall.own s h.seats).modifyHead Seat.leave))
    (hone : p.Once s r) :
    ((p.modifyHall roomId f).Sits s r ↔ p.Sits s r ∧ ¬ (s = id ∧ r = roomId)) ∧
      (p.modifyHall roomId f).Once s r := by
  by_cases hr : r = roomId
  · subst hr
    rw [Sits, Sits, Once, halls_modifyHall, if_pos rfl]
    rw [Once] at hone
    cases hhall : p.halls r with
    | none => simp
    | some h =>
      have hfirst := hone h hhall
      simp only [Option.map_some, Option.some.injEq, exists_eq_left', forall_eq']
      obtain ⟨hown, hs⟩ | ⟨hs, hown⟩ := hf h
      · obtain ⟨hsits, honce⟩ := Hall.connected_congr hown
        refine ⟨?_, honce.mpr hfirst⟩
        rw [hsits]
        simp [hs]
      · obtain ⟨hno, honce⟩ := Hall.not_connected_of_tail hfirst hown
        refine ⟨?_, honce⟩
        simp [hs, hs ▸ hno]
  · obtain ⟨hsits, honce⟩ := sits_congr (p := p) (q := p.modifyHall roomId f) (s := s)
      (by rw [halls_modifyHall, if_neg hr])
    refine ⟨?_, honce.mpr hone⟩
    rw [hsits]
    simp [hr]

theorem sits_flag (hone : p.Once s r) :
    ((p.modifyHall roomId (Hall.flag id)).Sits s r ↔ p.Sits s r ∧ ¬ (s = id ∧ r = roomId)) ∧
      (p.modifyHall roomId (Hall.flag id)).Once s r := by
  refine sits_vacate (fun h => ?_) hone
  have hown := Hall.own_leave id s h.seats
  by_cases hs : s = id
  · exact .inr ⟨hs, .inr (hown.trans (if_pos hs))⟩
  · exact .inl ⟨hown.trans (if_neg hs), hs⟩

theorem sits_unseat (hone : p.Once s r) :
    ((p.modifyHall roomId (Hall.unseat id)).Sits s r ↔ p.Sits s r ∧ ¬ (s = id ∧ r = roomId)) ∧
      (p.modifyHall roomId (Hall.unseat id)).Once s r := by
  refine sits_vacate (fun h => ?_) hone
  have hown := Hall.own_eraseP id s h.seats
  by_cases hs : s = id
  · exact .inr ⟨hs, .inl (hown.trans (if_pos hs))⟩
  · exact .inl ⟨hown.trans (if_neg hs), hs⟩

theorem sits_drop (p : Presence) (roomId : RoomId) :
    ((p.drop roomId).Sits s r ↔ p.Sits s r ∧ r ≠ roomId) ∧
      (p.Once s r → (p.drop roomId).Once s r) := by
  by_cases hr : r = roomId
  · subst hr
    have hnone : (p.drop r).halls r = none := Function.update_self ..
    simp [Sits, Once, hnone]
  · obtain ⟨hsits, honce⟩ := sits_congr (p := p) (q := p.drop roomId) (s := s) (r := r)
      (Function.update_of_ne hr ..)
    exact ⟨by rw [hsits]; simp [hr], honce.mpr⟩

/-- A room that is given up when its seats meet a condition. -/
theorem dropIf_cases (p : Presence) (roomId : RoomId) (c : Hall → Prop) [DecidablePred c] :
    p.dropIf roomId c = p ∧ (∀ h, p.halls roomId = some h → ¬ c h) ∨
      p.dropIf roomId c = p.drop roomId ∧ ∃ h, p.halls roomId = some h ∧ c h := by
  unfold dropIf
  cases hhall : p.halls roomId with
  | none => exact .inl ⟨rfl, by simp⟩
  | some h =>
    by_cases hc : c h
    · exact .inr ⟨if_pos hc, h, rfl, hc⟩
    · exact .inl ⟨if_neg hc, by simpa using hc⟩

/-- The first seat of an identifier passes to another one, which takes it. -/
theorem sits_reseat_new {old new : String} {h : Hall} (hhall : p.halls roomId = some h)
    (hseat : ∃ x ∈ h.seats, x.id = old) (hbefore : ¬ Hall.Before new old h.seats)
    (hfree : new ≠ old → ¬ p.Sits new roomId) :
    ((p.modifyHall roomId (Hall.reseat old new)).Sits new r ↔ r = roomId ∨ p.Sits new r) ∧
      (p.Once new r → (p.modifyHall roomId (Hall.reseat old new)).Once new r) := by
  by_cases hr : r = roomId
  · subst hr
    have hown : ∃ x l, x.disconnected = false ∧
        Hall.own new (Hall.changeSeat old (Seat.reconnect new) h.seats) = x :: l ∧
        (Hall.FirstOnly new h.seats → ∀ y ∈ l, y.disconnected = true) := by
      by_cases hne : new = old
      · subst hne
        obtain ⟨x, hx, heq⟩ := Hall.own_reconnect_self (Hall.own_ne_nil.mpr hseat)
        exact ⟨x, _, hx, heq, id⟩
      · obtain ⟨x, hx, heq⟩ := Hall.own_reconnect_new (Hall.own_ne_nil.mpr hseat) hbefore hne
        refine ⟨x, _, hx, heq, fun _ y hy => ?_⟩
        cases hoff : y.disconnected with
        | true => rfl
        | false => exact absurd ⟨h, hhall, Hall.connected_iff_own.mpr ⟨y, hy, hoff⟩⟩ (hfree hne)
    obtain ⟨x, l, hx, heq, hl⟩ := hown
    have hq : (p.modifyHall r (Hall.reseat old new)).halls r = some (Hall.reseat old new h) := by
      rw [halls_modifyHall, if_pos rfl, hhall, Option.map_some]
    refine ⟨iff_of_true ⟨_, hq, Hall.connected_iff_own.mpr ⟨x, ?_, hx⟩⟩ (.inl rfl),
      fun honce h' hh' y hy => ?_⟩
    · change x ∈ Hall.own new (Hall.changeSeat old (Seat.reconnect new) h.seats)
      rw [heq]
      exact List.mem_cons_self
    · obtain rfl := Option.some.inj (hq.symm.trans hh')
      change y ∈ (Hall.own new (Hall.changeSeat old (Seat.reconnect new) h.seats)).tail at hy
      rw [heq] at hy
      exact hl (honce h hhall) y hy
  · obtain ⟨hsits, honce⟩ := sits_congr (p := p) (q := p.modifyHall roomId (Hall.reseat old new))
      (s := new) (by rw [halls_modifyHall, if_neg hr])
    exact ⟨by rw [hsits]; simp [hr], honce.mpr⟩

/-- The first seat of an identifier passes to another one: it is given up. -/
theorem sits_reseat_old {old new : String} (hs : s ≠ new) (hone : p.Once s r) :
    ((p.modifyHall roomId (Hall.reseat old new)).Sits s r ↔ p.Sits s r ∧ ¬ (s = old ∧ r = roomId)) ∧
      (p.modifyHall roomId (Hall.reseat old new)).Once s r := by
  refine sits_vacate (fun h => ?_) hone
  by_cases hold : s = old
  · subst hold
    exact .inr ⟨rfl, .inl (Hall.own_reconnect_old hs h.seats)⟩
  · exact .inl ⟨Hall.own_reconnect_of_ne hold hs h.seats, hold⟩

/-- A new seat is added behind the others. -/
theorem sits_add {x : Seat} {h : Hall} (hhall : p.halls roomId = some h)
    (hx : x.disconnected = false) (hfree : ∀ y ∈ h.seats, y.id ≠ x.id) :
    ((p.modifyHall roomId (Hall.add x)).Sits s r ↔ s = x.id ∧ r = roomId ∨ p.Sits s r) ∧
      (p.Once s r → (p.modifyHall roomId (Hall.add x)).Once s r) := by
  by_cases hr : r = roomId
  · subst hr
    rw [Sits, Sits, Once, Once, halls_modifyHall, if_pos rfl, hhall]
    simp only [Option.map_some, Option.some.injEq, exists_eq_left', forall_eq', and_true]
    constructor
    · simp only [Hall.Connected, Hall.add, List.mem_append, List.mem_singleton]
      constructor
      · rintro ⟨y, hy | rfl, hid, hon⟩
        · exact .inr ⟨y, hy, hid, hon⟩
        · exact .inl hid.symm
      · rintro (rfl | ⟨y, hy, hid, hon⟩)
        · exact ⟨x, .inr rfl, rfl, hx⟩
        · exact ⟨y, .inl hy, hid, hon⟩
    · rw [Hall.FirstOnly, Hall.FirstOnly, Hall.add, Hall.own_append]
      intro hone
      by_cases hs : s = x.id
      · subst hs
        rw [Hall.own_eq_nil.mpr hfree]
        simp [Hall.own]
      · have hnil : Hall.own s [x] = [] := Hall.own_eq_nil.mpr (by simpa using Ne.symm hs)
        rw [hnil, List.append_nil]
        exact hone
  · obtain ⟨hsits, honce⟩ := sits_congr (p := p) (q := p.modifyHall roomId (Hall.add x)) (s := s)
      (by rw [halls_modifyHall, if_neg hr])
    exact ⟨by rw [hsits]; simp [hr], honce.mpr⟩

/-! ## Absences and their timers -/

/-- The room of an absence exists. A grace timer in force waits for a broken connection, which
does not play in that room. -/
structure Timed (p : Presence) : Prop where
  housed : ∀ t a, p.away t = some a → (p.halls a.roomId).isSome = true
  seq : ∀ e ∈ p.timers, e.2 ≤ p.seq
  closed : ∀ t a, p.away t = some a → (t, a.seq) ∈ p.timers →
    a.sid ∈ p.closed ∧ p.roomOf a.sid ≠ some a.roomId

/-- No absence begins. -/
theorem Timed.sub (h : p.Timed)
    (haway : ∀ t a, q.away t = some a → p.away t = some a ∧ (q.halls a.roomId).isSome = true)
    (htimers : ∀ e ∈ q.timers, e ∈ p.timers) (hseq : q.seq = p.seq) (hclosed : p.closed ⊆ q.closed)
    (hroom : ∀ s r, s ∈ p.closed → q.roomOf s = some r → p.roomOf s = some r ∨ p.halls r = none) :
    q.Timed where
  housed := fun t a ha => (haway t a ha).2
  seq := fun e he => hseq ▸ h.seq e (htimers e he)
  closed := fun t a ha he => by
    obtain ⟨hbroken, hno⟩ := h.closed t a (haway t a ha).1 (htimers _ he)
    refine ⟨hclosed hbroken, fun hr => ?_⟩
    rcases hroom a.sid a.roomId hbroken hr with hr | hr
    · exact hno hr
    · have := h.housed t a (haway t a ha).1
      rw [hr] at this
      cases this

/-- An absence begins that no timer is for. -/
theorem Timed.note (h : p.Timed) {token : Token} {sid : String}
    (hroom : (p.halls roomId).isSome = true) : (p.note token sid roomId).Timed where
  housed := fun t a ha => by
    simp only [Presence.note, Function.update_apply] at ha
    split at ha
    · cases ha
      exact hroom
    · exact h.housed t a ha
  seq := fun e he => (h.seq e he).trans (Nat.le_succ _)
  closed := fun t a ha he => by
    simp only [Presence.note, Function.update_apply] at ha
    split at ha
    · cases ha
      exact absurd (h.seq _ he) (Nat.not_succ_le_self _)
    · exact h.closed t a ha he

theorem modifyHall_isSome (p : Presence) (roomId r : RoomId) (f : Hall → Hall) :
    ((p.modifyHall roomId f).halls r).isSome = (p.halls r).isSome := by
  rw [halls_modifyHall]
  split
  · rw [Option.isSome_map]
  · rfl

theorem Timed.modifyHall (h : p.Timed) (roomId : RoomId) (f : Hall → Hall) :
    (p.modifyHall roomId f).Timed :=
  h.sub (fun t a ha => ⟨ha, (modifyHall_isSome p roomId a.roomId f).trans (h.housed t a ha)⟩)
    (fun _ he => he) rfl (fun _ hs => hs) fun _ _ _ hr => .inl hr

theorem Timed.exit (h : p.Timed) (sids : List String) : (p.exit sids).Timed :=
  h.sub (fun t a ha => ⟨ha, h.housed t a ha⟩) (fun _ he => he) rfl (fun _ hs => hs)
    fun _ _ _ hr => .inl (by
      simp only [Presence.exit] at hr
      split at hr
      · cases hr
      · exact hr)

theorem Timed.revoke (h : p.Timed) (sids : List String) : (p.revoke sids).Timed :=
  h.sub (fun t a ha => by
    simp only [Presence.revoke] at ha
    split at ha
    · cases ha
    · exact ⟨ha, h.housed t a ha⟩) (fun _ he => he) rfl (fun _ hs => hs) fun _ _ _ hr => .inl hr

theorem Timed.drop (h : p.Timed) (roomId : RoomId) : (p.drop roomId).Timed :=
  h.sub (fun t a ha => by
    obtain ⟨ha, hne⟩ := Option.filter_eq_some_iff.mp ha
    have hr : a.roomId ≠ roomId := by simpa using hne
    refine ⟨ha, ?_⟩
    rw [show (p.drop roomId).halls a.roomId = p.halls a.roomId from Function.update_of_ne hr ..]
    exact h.housed t a ha) (fun _ he => he) rfl (fun _ hs => hs) fun _ _ _ hr => .inl hr

theorem Timed.dropIf (h : p.Timed) (roomId : RoomId) (c : Hall → Prop) [DecidablePred c] :
    (p.dropIf roomId c).Timed := by
  rcases p.dropIf_cases roomId c with ⟨heq, -⟩ | ⟨heq, -⟩ <;> rw [heq]
  · exact h
  · exact h.drop roomId

theorem Timed.disband (h : p.Timed) (roomId : RoomId) (owner : Option String) :
    (p.disband roomId owner).Timed := by
  unfold Presence.disband
  split
  · exact h
  · exact ((h.exit _).revoke _).drop roomId

theorem Timed.setAccount (h : p.Timed) (sid : String) (auth : Option AuthInfo) :
    (p.setAccount sid auth).Timed := ⟨h.housed, h.seq, h.closed⟩

theorem Timed.forget (h : p.Timed) (token : Token) (a : Absence) : (p.forget token a).Timed :=
  h.sub (fun t b hb => by
    simp only [Presence.forget, Function.update_apply] at hb
    split at hb
    · cases hb
    · exact ⟨hb, h.housed t b hb⟩) (fun _ he => he) rfl (fun _ hs => hs) fun _ _ _ hr => .inl hr

/-- A connection that is not broken takes a place. -/
theorem Timed.enter (h : p.Timed) {sid : String} (hopen : sid ∉ p.closed ∨ p.halls roomId = none) :
    (p.enter sid roomId).Timed :=
  h.sub (fun t a ha => ⟨ha, h.housed t a ha⟩) (fun _ he => he) rfl (fun _ hs => hs)
    fun s r hs hr => by
      simp only [Presence.enter, Function.update_apply] at hr
      split at hr
      · rename_i heq
        cases hr
        rcases hopen with hopen | hopen
        · exact absurd (heq ▸ hs) hopen
        · exact .inr hopen
      · exact .inl hr

theorem Timed.grant (h : p.Timed) (token : Token) (sid : String) (roomId : RoomId) :
    (p.grant token sid roomId).Timed :=
  h.sub (fun t a ha => by
    simp only [Presence.grant] at ha
    split at ha
    · cases ha
    · exact ⟨ha, h.housed t a ha⟩) (fun _ he => he) rfl (fun _ hs => hs) fun _ _ _ hr => .inl hr

theorem Timed.complete (h : p.Timed) (token : Token) (a : Absence) (sid : String) :
    (p.complete token a sid).Timed :=
  h.sub (fun t b hb => by
    simp only [Presence.complete, Function.update_apply] at hb
    split at hb
    · cases hb
    · exact ⟨hb, h.housed t b hb⟩) (fun _ he => he) rfl (fun _ hs => hs) fun _ _ _ hr => .inl hr

theorem isSome_of_placed {sid : String} (h : p.placed sid = some r) :
    p.roomOf sid = some r ∧ (p.halls r).isSome = true := by
  obtain ⟨hroom, hhall⟩ := Option.filter_eq_some_iff.mp h
  exact ⟨hroom, hhall⟩

theorem Timed.release (h : p.Timed) {token : Token} (hcan : p.Releasable token) :
    (p.release token).Timed := by
  obtain ⟨-, r, s, hholder, hplaced⟩ := hcan
  simp only [Presence.release, hholder]
  refine ((h.modifyHall r (Hall.flag s)).exit [s]).note ?_
  exact (modifyHall_isSome p r r _).trans (isSome_of_placed hplaced).2

theorem Timed.quit (h : p.Timed) {sid : String} {how : Departure} {forgets breaks : Bool}
    (hcan : p.Can (.departed sid how forgets breaks)) (hno : ∀ r t, how ≠ .grace r t) :
    (p.quit sid how).Timed := by
  obtain ⟨-, -, hcan⟩ := hcan
  cases how with
  | stays => exact h
  | clears => exact h.revoke [sid]
  | kept r token =>
    have hhall := (isSome_of_placed hcan.1).2
    cases token with
    | none => exact (h.modifyHall r _).exit [sid]
    | some token =>
      exact ((h.modifyHall r _).note ((modifyHall_isSome p r r _).trans hhall)).exit [sid]
  | grace r t => exact absurd rfl (hno r t)
  | removed r => exact (((h.modifyHall r _).revoke [sid]).exit [sid]).dropIf r _
  | lost r => exact (((h.modifyHall r _).dropIf r _).exit [sid]).revoke [sid]
  | disbanded r => exact ((h.disband r (some sid)).exit [sid]).revoke [sid]

/-- A connection breaks, and a grace timer for it is started. -/
theorem Timed.grace (h : p.Timed) (sid : String) (token : Token)
    (hroom : (p.halls roomId).isSome = true) :
    Timed { p.quit sid (.grace roomId token) with
      closed := insert sid (p.quit sid (.grace roomId token)).closed } := by
  have hnote : ((p.modifyHall roomId (Hall.flag sid)).note token sid roomId).Timed :=
    (h.modifyHall roomId _).note ((modifyHall_isSome p roomId roomId _).trans hroom)
  refine ⟨hnote.housed, fun e he => ?_, fun t a ha he => ?_⟩
  · rcases List.mem_cons.mp he with rfl | he
    · exact le_rfl
    · exact (h.seq e he).trans (Nat.le_succ _)
  · by_cases ht : t = token
    · have haway : ((p.modifyHall roomId (Hall.flag sid)).note token sid roomId).away t = some a := ha
      rw [ht] at haway
      simp only [Presence.note, Function.update_self, Option.some.injEq] at haway
      subst haway
      exact ⟨Finset.mem_insert_self .., by simp [Presence.quit, Presence.exit]⟩
    · have hold : (t, a.seq) ∈ p.timers := by
        rcases List.mem_cons.mp he with heq | he
        · exact absurd (congrArg Prod.fst heq) ht
        · exact he
      obtain ⟨hbroken, hno⟩ := hnote.closed t a ha hold
      refine ⟨Finset.mem_insert_of_mem hbroken, fun hr => ?_⟩
      simp only [Presence.quit, Presence.exit] at hr
      split at hr
      · cases hr
      · exact hno hr

theorem Timed.close (h : p.Timed) (sid : String) : Timed { p with closed := insert sid p.closed } :=
  ⟨h.housed, h.seq, fun t a ha he =>
    ⟨Finset.mem_insert_of_mem (h.closed t a ha he).1, (h.closed t a ha he).2⟩⟩

/-- A room is there that was not there before. -/
theorem Timed.insertHall (h : p.Timed) (hall : Hall) (fresh : RoomId) :
    Timed { p with halls := update p.halls roomId (some hall), fresh } :=
  h.sub (fun t a ha => ⟨ha, by
    have hhall := h.housed t a ha
    by_cases hr : a.roomId = roomId
    · simp [hr]
    · simpa [hr] using hhall⟩) (fun _ he => he) rfl (fun _ hs => hs) fun _ _ _ hr => .inl hr

theorem Timed.expire (h : p.Timed) (token : Token) (a : Absence) (how : Expiry) :
    (p.expire token a how).Timed := by
  have hforget := (h.forget token a).setAccount a.sid none
  cases how with
  | stale => exact h
  | gone => exact hforget
  | disbanded => exact hforget.disband a.roomId _
  | settled removes =>
    cases removes with
    | false => exact hforget.dropIf a.roomId _
    | true => exact (hforget.modifyHall a.roomId _).dropIf a.roomId _

/-- **Every deed keeps the timers in order.** -/
theorem Timed.act (h : p.Timed) {d : Deed} (hcan : p.Can d) (hfresh : p.halls p.fresh = none) :
    (p.act d).Timed := by
  cases d with
  | nothing => exact h
  | named sid auth => exact h.setAccount sid auth
  | departed sid how forgets breaks =>
    have hclose : ∀ q : Presence, q.Timed → Timed (if breaks then
        { (if forgets then q.setAccount sid none else q) with
          closed := insert sid (if forgets then q.setAccount sid none else q).closed }
        else if forgets then q.setAccount sid none else q) := by
      intro q hq
      cases forgets <;> cases breaks
      · exact hq
      · exact hq.close sid
      · exact hq.setAccount sid none
      · exact (hq.setAccount sid none).close sid
    by_cases hgrace : ∃ r t, how = .grace r t
    · obtain ⟨r, t, rfl⟩ := hgrace
      obtain ⟨-, -, hplaced, -, rfl⟩ := hcan
      have hq := h.grace sid t (isSome_of_placed hplaced).2
      cases forgets
      · exact hq
      · exact hq.setAccount sid none
    · exact hclose _ (h.quit hcan fun r t heq => hgrace ⟨r, t, heq⟩)
  | expired token seq how =>
    have herase : Timed { p with timers := p.timers.erase (token, seq) } :=
      h.sub (fun t a ha => ⟨ha, h.housed t a ha⟩) (fun _ he => List.mem_of_mem_erase he) rfl
        (fun _ hs => hs) fun _ _ _ hr => .inl hr
    simp only [Presence.act]
    split
    · exact herase
    · exact herase.expire token _ how
  | cameBack sid token auth releases =>
    obtain ⟨hopen, -, hrel, -⟩ := hcan
    have hq : (if releases then p.release token else p).Timed ∧
        (if releases then p.release token else p).closed = p.closed := by
      cases releases with
      | false => exact ⟨h, rfl⟩
      | true =>
        refine ⟨h.release (hrel rfl), ?_⟩
        simp only [if_true, Presence.release]
        split <;> rfl
    simp only [Presence.act]
    generalize (if releases then p.release token else p) = q at hq ⊢
    split
    · exact hq.1
    · rename_i a ha
      exact ((((hq.1.modifyHall a.roomId _).complete token a sid).enter
        (.inl (show sid ∉ q.closed from hq.2 ▸ hopen))).setAccount a.sid none).setAccount sid _
  | released token => exact h.release hcan
  | voided token =>
    obtain ⟨a, ha, hnone⟩ := hcan
    have := h.housed token a ha
    rw [hnone] at this
    cases this
  | opened sid token hall =>
    exact ((h.grant token sid p.fresh).enter (.inr hfresh)).insertHall hall (p.fresh + 1)
  | joined sid name roomId token =>
    exact ((h.modifyHall roomId _).enter (.inl hcan.1)).grant token sid roomId
  | took sid roomId old token loads ousts =>
    have hopen := hcan.1
    have hload : ∀ q : Presence, q.Timed → q.closed = p.closed →
        ((((if ousts then (q.exit [old]).revoke [old] else q).modifyHall roomId
          (Hall.reseat old sid)).enter sid roomId).grant token sid roomId).Timed := by
      intro q hq hclosed
      cases ousts with
      | false =>
        exact ((hq.modifyHall roomId _).enter (.inl (show sid ∉ q.closed from hclosed ▸ hopen))).grant
          token sid roomId
      | true =>
        exact ((((hq.exit [old]).revoke [old]).modifyHall roomId _).enter
          (.inl (show sid ∉ q.closed from hclosed ▸ hopen))).grant token sid roomId
    cases loads with
    | none => exact hload p h rfl
    | some hall => exact hload _ (h.insertHall hall p.fresh) rfl
  | loaded roomId hall => exact h.insertHall hall p.fresh
  | restored roomId seats => exact h.modifyHall roomId _
  | kicked tokens =>
    refine h.sub (fun t a ha => ?_) (fun _ he => he) rfl (fun _ hs => hs) fun _ _ _ hr => .inl hr
    simp only [Presence.act] at ha
    split at ha
    · cases ha
    · exact ⟨ha, h.housed t a ha⟩
  | expelled roomId id running =>
    exact (((h.exit [id]).revoke [id]).modifyHall roomId _).dropIf roomId _
  | disbanded roomId => exact h.disband roomId none
  | closed roomId => exact h.drop roomId

end Presence

end Server

end ScrabbleMagyar
