import ScrabbleMagyar.Server.Reflection

/-!
# The states a server reaches

A server starts over the database that an earlier life of it has left behind, and handles events
in any order (`ReachableBy`). In every state it reaches the archive is in order, so that every
step is a deed (`acts_of_reachable`), and what every deed keeps holds of the presence
(`presence_invariant`).
-/

namespace ScrabbleMagyar

namespace Server

open Runs

/-- The databases that earlier lives have left behind, whose steps meet `Q`. -/
inductive Past (Q : Server → Env × Event → Prop) : Db → Prop
  | new : Past Q Db.empty
  | lived {db : Db} {l : List (Env × Event)} (h : Past Q db) (hl : Along step Q (start db) l) :
      Past Q (run step (start db) l).db

/-- A server as it starts. -/
def Initial (Q : Server → Env × Event → Prop) (st : Server) : Prop := ∃ db, Past Q db ∧ st = start db

/-- The states reached by steps that meet `Q`, after an earlier life of any kind. -/
abbrev ReachableBy (Q : Server → Env × Event → Prop) : Server → Prop :=
  Reaches step (Initial fun _ _ => True) Q

/-- The states reached by any steps. -/
abbrev Reachable : Server → Prop := ReachableBy fun _ _ => True

/-! ## The archive -/

theorem le_max?_getD {l : List ℕ} {n : ℕ} (h : n ∈ l) : n ≤ l.max?.getD 0 := by
  cases hmax : l.max? with
  | none =>
    rw [List.max?_eq_none_iff.mp hmax] at h
    cases h
  | some m => exact (List.max?_eq_some_iff.mp hmax).2 n h

/-- A database that can be started over. -/
structure Db.Sound (db : Db) : Prop where
  numbered : db.Numbered
  single : ∀ row ∈ db.games, ∀ row' ∈ db.games, row.status = .active → row'.status = .active →
    row.roomId = row'.roomId → row = row'
  saves : ∀ row ∈ db.games, row.status = .active → row.Sound

theorem Archive.start {db : Db} (h : db.Sound) : Archive (Server.start db) where
  numbered := h.numbered
  roomIds := fun r room hroom => by simp [Server.start] at hroom
  rowIds := fun row hrow => by
    refine Nat.lt_of_succ_le (le_max?_getD ?_)
    exact List.mem_map_of_mem (f := fun g : SavedGame => g.roomId + 1) hrow
  single := h.single
  rooms := fun r room hroom => by simp [Server.start] at hroom
  lobbies := fun r room save hroom => by simp [Server.start] at hroom
  filed := fun row hrow hactive room hroom => by simp [Server.start] at hroom
  saves := h.saves
  named := ⟨fun t r s h => by simp [presence, Server.start] at h,
    fun t a h => by simp [presence, Server.start] at h⟩

theorem Archive.sound {st : Server} (h : st.Archive) : st.db.Sound :=
  ⟨h.numbered, h.single, h.saves⟩

theorem archive_step {st : Server} (ha : st.Archive) (i : Env × Event) : (st.step i).Archive :=
  (acts_step (K := fun _ _ _ => True) ha i fun _ _ _ _ _ _ _ => trivial).does.archive ha

theorem archive_run {st : Server} (ha : st.Archive) (l : List (Env × Event)) :
    (run step st l).Archive :=
  run_invariant (P := Archive) (Q := fun _ _ => True) step (fun _ i h _ => archive_step h i) ha
    (along_of_forall step (fun _ _ _ => trivial) st)

theorem Past.sound {Q : Server → Env × Event → Prop} {db : Db} (h : Past Q db) : db.Sound := by
  induction h with
  | new => exact ⟨fun i row hrow => by simp [Db.empty] at hrow, by simp [Db.empty], by simp [Db.empty]⟩
  | lived h hl ih => exact (archive_run (.start ih) _).sound

/-- **In every state that is reached the archive is in order.** -/
theorem Reaches.archive {Q Q' : Server → Env × Event → Prop} {st : Server}
    (h : Reaches step (Initial Q) Q' st) : st.Archive := by
  refine Reaches.invariant (P := Archive) step (fun st hst => ?_)
    (fun st i ha _ => archive_step ha i) h
  obtain ⟨db, hdb, rfl⟩ := hst
  exact .start hdb.sound

/-- **Every step is a deed.** -/
theorem acts_of_archive {st : Server} (ha : st.Archive) (i : Env × Event) :
    Acts (fun _ _ _ => True) st (st.step i) (st.deed i) :=
  acts_step ha i fun _ _ _ _ _ _ _ => trivial

/-! ## The presence -/

namespace Presence

/-- A presence whose tables make sense. -/
structure Sane (p : Presence) : Prop where
  proper : ∀ r h, p.halls r = some h → h.Proper
  named : p.Named
  fresh : ∀ r h, p.halls r = some h → r < p.fresh

/-- Nobody has come yet. -/
structure Vacant (p : Presence) : Prop where
  halls : ∀ r, p.halls r = none
  roomOf : ∀ s, p.roomOf s = none
  holder : ∀ t, p.holder t = none
  tokenOf : ∀ s, p.tokenOf s = none
  away : ∀ t, p.away t = none
  timers : p.timers = []
  closed : p.closed = ∅

end Presence

theorem Archive.sane {st : Server} (h : st.Archive) : st.presence.Sane where
  proper := fun r hall hhall => by
    obtain ⟨room, hroom, rfl⟩ := Option.map_eq_some_iff.mp hhall
    exact (h.rooms r room hroom).proper
  named := h.named
  fresh := fun r hall hhall => by
    obtain ⟨room, hroom, rfl⟩ := Option.map_eq_some_iff.mp hhall
    exact h.roomIds r room hroom

theorem vacant_start (db : Db) : (start db).presence.Vacant := by
  constructor <;> simp [presence, start]

/-- **The invariant rule for the presence**: what every deed that may be done in a step meeting
`Q` keeps holds in every state that is reached by such steps. -/
theorem presence_invariant {P : Presence → Prop} {Q : Server → Env × Event → Prop}
    (hinit : ∀ p : Presence, p.Vacant → P p)
    (hstep : ∀ (st : Server) (i : Env × Event), st.Archive → P st.presence →
      (st.presence.act (st.deed i)).Sane → st.presence.Can (st.deed i) → Q st i →
        P (st.presence.act (st.deed i))) {st : Server} (h : ReachableBy Q st) : P st.presence := by
  refine (Reaches.invariant (P := fun st => st.Archive ∧ P st.presence) step (fun st hst => ?_)
    (fun st i hP hQ => ?_) h).2
  · obtain ⟨db, hdb, rfl⟩ := hst
    exact ⟨.start hdb.sound, hinit _ (vacant_start db)⟩
  · obtain ⟨ha, hP⟩ := hP
    have hacts := acts_of_archive ha i
    have ha' := archive_step ha i
    refine ⟨ha', ?_⟩
    rw [hacts.does.presence]
    exact hstep st i ha hP (hacts.does.presence ▸ ha'.sane) hacts.can hQ

/-! ## Lives of a server -/

/-- The state after some events of a server that starts over an empty database. -/
def lifeOf (events : List Event) : Server :=
  run step (start Db.empty) (events.map fun e => (Game.stillEnv, e))

theorem reachable_lifeOf (events : List Event) : Reachable (lifeOf events) :=
  ⟨start Db.empty, _, ⟨Db.empty, .new, rfl⟩, along_of_forall step (fun _ _ _ => trivial) _, rfl⟩

end Server

end ScrabbleMagyar
