import ScrabbleMagyar.Server.State
import Mathlib.Logic.Function.Basic

/-!
# Who is where

An abstract model of the server: the seats of every room, the room and the token of every
connection, the absences that are in force and the grace timers that wait. Boards, turns, votes
and saves do not occur in it. What an event of the server does to this state is a `Deed`, and
`Presence.act` is its effect; that every event of the server acts in this way is proved in
`Server/Reflection.lean`.

The tables of the server are functions here, and a change of several entries at once is written
as one function.
-/

namespace ScrabbleMagyar

/-- A seat of a game without what is played on it. -/
structure Seat where
  id : String
  name : String
  isBot : Bool
  disconnected : Bool
  deriving DecidableEq

namespace Seat

def occupied (x : Seat) : Bool := !x.isBot && !x.disconnected

def leave (x : Seat) : Seat := { x with disconnected := true }

def reconnect (newId : String) (x : Seat) : Seat := { x with id := newId, disconnected := false }

end Seat

namespace Server

/-- The seats of a room. -/
structure Hall where
  seats : List Seat
  isAsync : Bool
  /-- The accounts known from a save. -/
  known : Table String (Option UserId)

namespace Hall

/-- Change the first seat of an identifier. -/
def changeSeat (id : String) (f : Seat → Seat) : List Seat → List Seat
  | [] => []
  | x :: seats => if x.id = id then f x :: seats else x :: changeSeat id f seats

/-- The first seat of an identifier is left. -/
def flag (id : String) (h : Hall) : Hall := { h with seats := changeSeat id Seat.leave h.seats }

/-- The first seat of an identifier passes to another one. -/
def reseat (old new : String) (h : Hall) : Hall :=
  { h with seats := changeSeat old (Seat.reconnect new) h.seats }

/-- The first seat of an identifier is given up. -/
def unseat (id : String) (h : Hall) : Hall :=
  { h with seats := h.seats.eraseP fun x => x.id = id }

def add (x : Seat) (h : Hall) : Hall := { h with seats := h.seats ++ [x] }

/-- The identifiers of the human players. -/
def humans (h : Hall) : List String := (h.seats.filter fun x => !x.isBot).map Seat.id

def hasConnected (h : Hall) : Bool := h.seats.any Seat.occupied

end Hall

/-- A player away from a seat. -/
structure Absence where
  roomId : RoomId
  sid : String
  seq : ℕ

/-- The seats of the rooms and the whereabouts of the connections. -/
@[ext]
structure Presence where
  halls : RoomId → Option Hall
  roomOf : String → Option RoomId
  /-- The room and the connection of a token. -/
  holder : Token → Option (RoomId × String)
  tokenOf : String → Option Token
  away : Token → Option Absence
  account : String → Option AuthInfo
  /-- The number of the latest absence. -/
  seq : ℕ
  /-- The identifier of the next room. -/
  fresh : RoomId
  /-- The grace timers that wait. -/
  timers : List (Token × ℕ)
  closed : Finset String

/-- What becomes of the seat of a connection that leaves or breaks. -/
inductive Departure
  /-- It has none. -/
  | stays
  /-- It has none, and its token is cleared. -/
  | clears
  /-- It is kept without a time limit. -/
  | kept (roomId : RoomId) (token : Option Token)
  /-- It is kept for the grace period. -/
  | grace (roomId : RoomId) (token : Token)
  /-- It is given up by a player who leaves. -/
  | removed (roomId : RoomId)
  /-- It is given up by a connection that breaks. -/
  | lost (roomId : RoomId)
  /-- The room is given up. -/
  | disbanded (roomId : RoomId)

/-- What a grace timer does when its time has come. -/
inductive Expiry
  /-- Its absence is no longer in force. -/
  | stale
  /-- The room is gone. -/
  | gone
  /-- The room is given up. -/
  | disbanded
  /-- The seat is kept or given up. -/
  | settled (removes : Bool)

/-- What an event does to the seats and the connections. -/
inductive Deed
  | nothing
  /-- A connection has an account, or none any more. -/
  | named (sid : String) (auth : Option AuthInfo)
  | departed (sid : String) (how : Departure) (forgets breaks : Bool)
  | expired (token : Token) (seq : ℕ) (how : Expiry)
  /-- A connection comes back with a token, which another one may hold. -/
  | cameBack (sid : String) (token : Token) (auth : AuthInfo) (releases : Bool)
  /-- The connection that holds a token is released, but nobody takes its seat. -/
  | released (token : Token)
  /-- The room of a token is gone. -/
  | voided (token : Token)
  /-- A connection has a seat in a new room. -/
  | opened (sid : String) (token : Token) (hall : Hall)
  /-- A connection has a new seat. -/
  | joined (sid name : String) (roomId : RoomId) (token : Token)
  /-- A connection has the seat of an identifier; the room may have to be loaded first, and the
  seat to be taken from another connection. -/
  | took (sid : String) (roomId : RoomId) (old : String) (token : Token) (loads : Option Hall)
      (ousts : Bool)
  | loaded (roomId : RoomId) (hall : Hall)
  /-- The seats of a lobby become those of a restored game. -/
  | restored (roomId : RoomId) (seats : List Seat)
  | kicked (tokens : List Token)
  /-- A player is removed from a room, which may be playing. -/
  | expelled (roomId : RoomId) (id : String) (running : Bool)
  | disbanded (roomId : RoomId)
  /-- A room that nobody is in is released. -/
  | closed (roomId : RoomId)

namespace Presence

open Function (update)

variable (p : Presence)

def modifyHall (roomId : RoomId) (f : Hall → Hall) : Presence :=
  { p with halls := update p.halls roomId ((p.halls roomId).map f) }

def setAccount (sid : String) (auth : Option AuthInfo) : Presence :=
  { p with account := update p.account sid auth }

def enter (sid : String) (roomId : RoomId) : Presence :=
  { p with roomOf := update p.roomOf sid (some roomId) }

def exit (sids : List String) : Presence :=
  { p with roomOf := fun s => if s ∈ sids then none else p.roomOf s }

/-- Give a token to a connection. -/
def grant (token : Token) (sid : String) (roomId : RoomId) : Presence :=
  { p with
    away := fun t => if t = token ∧ (p.holder token).isSome then none else p.away t
    holder := update p.holder token (some (roomId, sid))
    tokenOf := fun s =>
      if s = sid then some token
      else if (p.holder token).map Prod.snd = some s then none else p.tokenOf s }

/-- Clear the tokens of connections. -/
def revoke (sids : List String) : Presence :=
  { p with
    tokenOf := fun s => if s ∈ sids then none else p.tokenOf s
    holder := fun t => if ∃ s ∈ sids, p.tokenOf s = some t then none else p.holder t
    away := fun t => if ∃ s ∈ sids, p.tokenOf s = some t then none else p.away t }

/-- An absence begins. -/
def note (token : Token) (sid : String) (roomId : RoomId) : Presence :=
  { p with
    seq := p.seq + 1
    away := update p.away token (some ⟨roomId, sid, p.seq + 1⟩) }

/-- An absence ends with the return of the player. -/
def complete (token : Token) (a : Absence) (sid : String) : Presence :=
  { p with
    away := update p.away token none
    holder := update p.holder token ((p.holder token).map fun e => (e.1, sid))
    tokenOf := update (update p.tokenOf a.sid none) sid (some token) }

/-- An absence ends for good. -/
def forget (token : Token) (a : Absence) : Presence :=
  { p with
    away := update p.away token none
    holder := update p.holder token none
    tokenOf := update p.tokenOf a.sid none }

open Classical in
/-- Release a room with the absences from it. -/
noncomputable def drop (roomId : RoomId) : Presence :=
  { p with
    halls := update p.halls roomId none
    away := fun t => (p.away t).filter fun a => a.roomId ≠ roomId
    holder := fun t => if ∃ a, p.away t = some a ∧ a.roomId = roomId then none else p.holder t
    tokenOf := fun s =>
      if ∃ t a, p.away t = some a ∧ a.roomId = roomId ∧ a.sid = s then none else p.tokenOf s }

/-- Release a room when its seats meet a condition. -/
noncomputable def dropIf (roomId : RoomId) (c : Hall → Prop) [DecidablePred c] : Presence :=
  match p.halls roomId with
  | none => p
  | some h => if c h then p.drop roomId else p

/-- Give up a room: its human players play nowhere. -/
noncomputable def disband (roomId : RoomId) (owner : Option String) : Presence :=
  match p.halls roomId with
  | none => p
  | some h =>
    let dropped := h.humans.filter fun s => some s ≠ owner
    ((p.exit dropped).revoke dropped).drop roomId

/-- Nobody can be expected to go on in a room after a seat was given up. -/
abbrev deserted (h : Hall) : Prop := h.humans = [] ∨ (h.isAsync = true ∧ h.hasConnected = false)

noncomputable def quit (sid : String) : Departure → Presence
  | .stays => p
  | .clears => p.revoke [sid]
  | .kept roomId none => (p.modifyHall roomId (Hall.flag sid)).exit [sid]
  | .kept roomId (some token) =>
    ((p.modifyHall roomId (Hall.flag sid)).note token sid roomId).exit [sid]
  | .grace roomId token =>
    let p := (p.modifyHall roomId (Hall.flag sid)).note token sid roomId
    { p with timers := (token, p.seq) :: p.timers }.exit [sid]
  | .removed roomId =>
    (((p.modifyHall roomId (Hall.unseat sid)).revoke [sid]).exit [sid]).dropIf roomId deserted
  | .lost roomId =>
    (((p.modifyHall roomId (Hall.unseat sid)).dropIf roomId deserted).exit [sid]).revoke [sid]
  | .disbanded roomId => ((p.disband roomId (some sid)).exit [sid]).revoke [sid]

/-- Disconnect the connection that holds a token. -/
def release (token : Token) : Presence :=
  match p.holder token with
  | none => p
  | some (roomId, sid) =>
    ((p.modifyHall roomId (Hall.flag sid)).exit [sid]).note token sid roomId

noncomputable def expire (token : Token) (a : Absence) : Expiry → Presence
  | .stale => p
  | .gone => (p.forget token a).setAccount a.sid none
  | .disbanded => ((p.forget token a).setAccount a.sid none).disband a.roomId (some a.sid)
  | .settled removes =>
    let p := (p.forget token a).setAccount a.sid none
    let p := if removes then p.modifyHall a.roomId (Hall.unseat a.sid) else p
    p.dropIf a.roomId fun h => h.hasConnected = false

/-- The effect of a deed. -/
noncomputable def act : Deed → Presence
  | .nothing => p
  | .named sid auth => p.setAccount sid auth
  | .departed sid how forgets breaks =>
    let p := p.quit sid how
    let p := if forgets then p.setAccount sid none else p
    if breaks then { p with closed := insert sid p.closed } else p
  | .expired token seq how =>
    let p := { p with timers := p.timers.erase (token, seq) }
    match p.away token with
    | none => p
    | some a => p.expire token a how
  | .cameBack sid token auth releases =>
    let p := if releases then p.release token else p
    match p.away token with
    | none => p
    | some a =>
      let p := p.modifyHall a.roomId (Hall.reseat a.sid sid)
      let p := (p.complete token a sid).enter sid a.roomId
      (p.setAccount a.sid none).setAccount sid (some auth)
  | .released token => p.release token
  | .voided token =>
    { p with
      away := update p.away token none
      holder := update p.holder token none }
  | .opened sid token hall =>
    let p' := (p.grant token sid p.fresh).enter sid p.fresh
    { p' with halls := update p.halls p.fresh (some hall), fresh := p.fresh + 1 }
  | .joined sid name roomId token =>
    let p := p.modifyHall roomId (Hall.add ⟨sid, name, false, false⟩)
    (p.enter sid roomId).grant token sid roomId
  | .took sid roomId old token loads ousts =>
    let p := match loads with
      | some h => { p with halls := update p.halls roomId (some h) }
      | none => p
    let p := if ousts then (p.exit [old]).revoke [old] else p
    ((p.modifyHall roomId (Hall.reseat old sid)).enter sid roomId).grant token sid roomId
  | .loaded roomId hall => { p with halls := update p.halls roomId (some hall) }
  | .restored roomId seats => p.modifyHall roomId fun h => { h with seats }
  | .kicked tokens =>
    { p with
      away := fun t => if t ∈ tokens then none else p.away t
      holder := fun t => if t ∈ tokens then none else p.holder t }
  | .expelled roomId id running =>
    let p := (p.exit [id]).revoke [id]
    let p := p.modifyHall roomId (if running then Hall.flag id else Hall.unseat id)
    p.dropIf roomId fun h => h.humans = [] ∨ (h.isAsync = false ∧ h.hasConnected = false)
  | .disbanded roomId => p.disband roomId none
  | .closed roomId => p.drop roomId

end Presence

/-! ## Proper seats -/

def isBotId (id : String) : Bool := "bot-".toList.isPrefixOf id.toList

theorem isBotId_of_isSid {id : String} (h : isSid id = true) : isBotId id = false := by
  rw [isSid, Bool.and_eq_true] at h
  simpa [isBotId] using h.1

end Server

open Server

/-- The identifiers and the flags that go together. -/
structure Seat.Proper (x : Seat) : Prop where
  bot : x.isBot = isBotId x.id
  present : x.isBot = true → x.disconnected = false

namespace Server

namespace Hall

def Proper (h : Hall) : Prop := ∀ x ∈ h.seats, x.Proper

/-- No robot has a seat. -/
def Human (h : Hall) : Prop := ∀ x ∈ h.seats, x.isBot = false

/-- What holds of all seats, and of a changed one, holds after the change of a seat. -/
theorem forall_changeSeat {id : String} {f : Seat → Seat} {P : Seat → Prop} {l : List Seat}
    (h : ∀ x ∈ l, P x) (hf : ∀ x ∈ l, x.id = id → P (f x)) : ∀ x ∈ changeSeat id f l, P x := by
  induction l with
  | nil => exact h
  | cons y l ih =>
    rw [changeSeat]
    split
    · rename_i hy
      rintro x (_ | ⟨_, hx⟩)
      · exact hf y (by simp) hy
      · exact h x (List.mem_cons_of_mem y hx)
    · rintro x (_ | ⟨_, hx⟩)
      · exact h y (by simp)
      · exact ih (fun z hz => h z (List.mem_cons_of_mem y hz))
          (fun z hz => hf z (List.mem_cons_of_mem y hz)) x hx

variable {h : Hall}

theorem Proper.flag (hh : h.Proper) {id : String} (hid : isBotId id = false) :
    (h.flag id).Proper :=
  forall_changeSeat hh fun x hx hxid =>
    ⟨(hh x hx).bot, fun hb => absurd ((hh x hx).bot.symm.trans hb) (by simp [hxid, hid])⟩

theorem Proper.reseat (hh : h.Proper) {old new : String} (hold : isBotId old = false)
    (hnew : isBotId new = false) : (h.reseat old new).Proper :=
  forall_changeSeat hh fun x hx hxid => by
    have hbot : x.isBot = false := by rw [(hh x hx).bot, hxid, hold]
    exact ⟨hbot.trans hnew.symm, fun hb => absurd (hbot.symm.trans hb) (by simp)⟩

theorem Proper.unseat (hh : h.Proper) (id : String) : (h.unseat id).Proper :=
  fun x hx => hh x (List.mem_of_mem_eraseP hx)

theorem Proper.add (hh : h.Proper) {sid name : String} (hsid : isSid sid = true) :
    (h.add ⟨sid, name, false, false⟩).Proper := by
  intro x hx
  rcases List.mem_append.mp hx with hx | hx
  · exact hh x hx
  · obtain rfl := List.mem_singleton.mp hx
    exact ⟨(isBotId_of_isSid hsid).symm, by simp⟩

theorem Human.flag (hh : h.Human) (id : String) : (h.flag id).Human :=
  forall_changeSeat (P := fun x => x.isBot = false) hh fun x hx _ => hh x hx

theorem Human.reseat (hh : h.Human) (old new : String) : (h.reseat old new).Human :=
  forall_changeSeat (P := fun x => x.isBot = false) hh fun x hx _ => hh x hx

theorem Human.unseat (hh : h.Human) (id : String) : (h.unseat id).Human :=
  fun x hx => hh x (List.mem_of_mem_eraseP hx)

theorem Human.add (hh : h.Human) (sid name : String) :
    (h.add ⟨sid, name, false, false⟩).Human := by
  intro x hx
  rcases List.mem_append.mp hx with hx | hx
  · exact hh x hx
  · obtain rfl := List.mem_singleton.mp hx
    rfl

end Hall

/-- Tokens are held, and absences begun, by connections only. -/
structure Presence.Named (p : Presence) : Prop where
  holder : ∀ t r s, p.holder t = some (r, s) → isSid s = true
  away : ∀ t a, p.away t = some a → isSid a.sid = true

/-! ## When a deed is done -/

namespace Hall

/-- Nobody has come yet. -/
def Absent (h : Hall) : Prop := ∀ x ∈ h.seats, x.isBot = false ∧ x.disconnected = true

/-- The seats of a restored game: a player of the lobby has the seat of that name, the other
players are missing. -/
def Paired (lobby seats : List Seat) : Prop :=
  ∀ x ∈ seats, x.isBot = false → x.disconnected = true ∨ ∃ y ∈ lobby, y.id = x.id

end Hall

namespace Presence

variable (p : Presence)

/-- Where a connection plays. -/
def placed (sid : String) : Option RoomId := (p.roomOf sid).filter fun r => (p.halls r).isSome

/-- A connection holds the token and sits in its room. -/
def Releasable (token : Token) : Prop :=
  p.away token = none ∧ ∃ r s, p.holder token = some (r, s) ∧ p.placed s = some r

/-- The seat of an identifier that a connection can have; another one that sits there is
ousted. -/
def Vacates (roomId : RoomId) (h : Hall) (old : String) (ousts : Bool) : Prop :=
  ∃ x ∈ h.seats, x.id = old ∧ x.isBot = false ∧
    (ousts = true ↔ x.disconnected = false ∧ p.roomOf old = some roomId)

/-- The state in which a deed is done. -/
def Can : Deed → Prop
  | .nothing => True
  | .named sid _ => sid ∉ p.closed
  | .departed sid how _ breaks => sid ∉ p.closed ∧ isSid sid = true ∧
    match how with
    | .stays => p.placed sid = none
    | .clears => p.placed sid = none ∧ breaks = true
    | .kept r token => p.placed sid = some r ∧ token = p.tokenOf sid
    | .grace r token => p.placed sid = some r ∧ some token = p.tokenOf sid ∧ breaks = true
    | .removed r => p.placed sid = some r
    | .lost r => p.placed sid = some r
    | .disbanded r => p.placed sid = some r
  | .expired token seq how => (token, seq) ∈ p.timers ∧
    match how with
    | .stale => ∀ a, p.away token = some a → a.seq ≠ seq
    | .gone => ∃ a, p.away token = some a ∧ a.seq = seq ∧ p.halls a.roomId = none
    | _ => ∃ a, p.away token = some a ∧ a.seq = seq ∧ (p.halls a.roomId).isSome = true
  | .cameBack sid token _ releases => sid ∉ p.closed ∧ isSid sid = true ∧
    (releases = true → p.Releasable token) ∧
    ∃ a h, (if releases then p.release token else p).away token = some a ∧
      (if releases then p.release token else p).halls a.roomId = some h ∧
      ∃ x ∈ h.seats, x.id = a.sid
  | .released token => p.Releasable token
  | .voided token => ∃ a, p.away token = some a ∧ p.halls a.roomId = none
  | .opened sid _ hall => isSid sid = true ∧ p.placed sid = none ∧
    ∃ name seats, hall.seats = ⟨sid, name, false, false⟩ :: seats ∧
      ∀ x ∈ seats, isSid x.id = false ∧ (x.isBot = true ∨ x.disconnected = true)
  | .joined sid _ roomId _ => sid ∉ p.closed ∧ isSid sid = true ∧ p.placed sid = none ∧
    ∃ h, p.halls roomId = some h ∧ ∀ x ∈ h.seats, x.id ≠ sid
  | .took sid roomId old _ loads ousts => sid ∉ p.closed ∧ isSid sid = true ∧
    p.placed sid = none ∧
    match loads with
    | some h => p.halls roomId = none ∧ roomId < p.fresh ∧ h.isAsync = true ∧ h.Absent ∧
      p.Vacates roomId h old ousts
    | none => ∃ h, p.halls roomId = some h ∧ p.Vacates roomId h old ousts ∧
      (ousts = true → h.isAsync = true)
  | .loaded roomId h => p.halls roomId = none ∧ roomId < p.fresh ∧ h.isAsync = true ∧ h.Absent
  | .restored roomId seats => ∃ h, p.halls roomId = some h ∧ Hall.Paired h.seats seats ∧
    ∃ x ∈ seats, x.occupied = true
  | .kicked tokens => ∀ t ∈ tokens, (p.away t).isSome = true
  | .expelled roomId id _ => ∃ h, p.halls roomId = some h ∧ ∃ x ∈ h.seats, x.id = id ∧ x.isBot = false
  | .disbanded roomId => (p.halls roomId).isSome = true
  | .closed roomId => ∃ h, p.halls roomId = some h ∧ h.isAsync = true ∧ h.hasConnected = false

/-- The states in which a deed may record results. -/
noncomputable def stages : Deed → List Presence
  | .departed sid how _ _ => [p, p.quit sid how]
  | d => [p, p.act d]

end Presence

end Server

end ScrabbleMagyar
