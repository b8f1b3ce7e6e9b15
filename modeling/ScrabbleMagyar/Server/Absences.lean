import ScrabbleMagyar.Server.Sitting

/-!
# Absences and their numbers

Every absence has a number of its own, and every timer that of the absence it was started for
(`Presence.Paced`). So an absence whose timer waits is the one that began when the connection broke
(`Paced.before`); nobody sits on the seat in the meantime (`not_sits_act`).
-/

namespace ScrabbleMagyar

namespace Server

open Function (update)

namespace Presence

/-- Absences that begin have new numbers, and no timer is started or rung. -/
structure Ages (p q : Presence) : Prop where
  away : ∀ t a, q.away t = some a → p.away t = some a ∨ p.seq < a.seq ∧ a.seq ≤ q.seq
  seq : p.seq ≤ q.seq
  timers : q.timers = p.timers
  closed : p.closed ⊆ q.closed

variable {p q q' : Presence} {r roomId : RoomId} {sid : String} {token : Token} {a : Absence}

namespace Ages

/-- No absence begins. -/
theorem of_away (haway : ∀ t a, q.away t = some a → p.away t = some a) (hseq : q.seq = p.seq)
    (htimers : q.timers = p.timers) (hclosed : q.closed = p.closed) : p.Ages q :=
  ⟨fun t a ha => .inl (haway t a ha), hseq.ge, htimers, hclosed.ge⟩

theorem refl (p : Presence) : p.Ages p := .of_away (fun _ _ h => h) rfl rfl rfl

theorem trans (h : p.Ages q) (h' : q.Ages q') : p.Ages q' where
  away := fun t a ha => by
    rcases h'.away t a ha with ha | ⟨hlt, hle⟩
    · exact (h.away t a ha).imp_right fun ⟨hlt, hle⟩ => ⟨hlt, hle.trans h'.seq⟩
    · exact .inr ⟨h.seq.trans_lt hlt, hle⟩
  seq := h.seq.trans h'.seq
  timers := h'.timers.trans h.timers
  closed := h.closed.trans h'.closed

theorem note (p : Presence) (token : Token) (sid : String) (roomId : RoomId) :
    p.Ages (p.note token sid roomId) where
  away := fun t a ha => by
    simp only [Presence.note, Function.update_apply] at ha
    split at ha
    · cases ha
      exact .inr ⟨Nat.lt_succ_self _, le_rfl⟩
    · exact .inl ha
  seq := Nat.le_succ _
  timers := rfl
  closed := fun _ h => h

theorem modifyHall (p : Presence) (roomId : RoomId) (f : Hall → Hall) :
    p.Ages (p.modifyHall roomId f) := .of_away (fun _ _ h => h) rfl rfl rfl

theorem exit (p : Presence) (sids : List String) : p.Ages (p.exit sids) :=
  .of_away (fun _ _ h => h) rfl rfl rfl

theorem enter (p : Presence) (sid : String) (roomId : RoomId) : p.Ages (p.enter sid roomId) :=
  .of_away (fun _ _ h => h) rfl rfl rfl

theorem setAccount (p : Presence) (sid : String) (auth : Option AuthInfo) :
    p.Ages (p.setAccount sid auth) := .of_away (fun _ _ h => h) rfl rfl rfl

theorem revoke (p : Presence) (sids : List String) : p.Ages (p.revoke sids) :=
  .of_away (Shrinks.revoke p sids).away rfl rfl rfl

theorem grant (p : Presence) (token : Token) (sid : String) (roomId : RoomId) :
    p.Ages (p.grant token sid roomId) :=
  .of_away (fun t a ha => by
    simp only [Presence.grant] at ha
    split at ha
    · cases ha
    · exact ha) rfl rfl rfl

theorem drop (p : Presence) (roomId : RoomId) : p.Ages (p.drop roomId) :=
  .of_away (Shrinks.drop p roomId).away rfl rfl rfl

theorem dropIf (p : Presence) (roomId : RoomId) (c : Hall → Prop) [DecidablePred c] :
    p.Ages (p.dropIf roomId c) := by
  rcases p.dropIf_cases roomId c with ⟨heq, -⟩ | ⟨heq, -⟩ <;> rw [heq]
  · exact .refl p
  · exact .drop p roomId

theorem disband (p : Presence) (roomId : RoomId) (owner : Option String) :
    p.Ages (p.disband roomId owner) := by
  unfold Presence.disband
  split
  · exact .refl p
  · exact ((exit p _).trans (revoke _ _)).trans (drop _ roomId)

theorem release (p : Presence) (token : Token) : p.Ages (p.release token) := by
  unfold Presence.release
  split
  · exact .refl p
  · exact ((modifyHall p _ _).trans (exit _ _)).trans (note _ _ _ _)

theorem forget (p : Presence) (token : Token) (a : Absence) : p.Ages (p.forget token a) :=
  .of_away (Shrinks.forget p token a).away rfl rfl rfl

theorem complete (p : Presence) (token : Token) (a : Absence) (sid : String) :
    p.Ages (p.complete token a sid) :=
  .of_away (fun t b hb => by
    simp only [Presence.complete, Function.update_apply] at hb
    split at hb
    · cases hb
    · exact hb) rfl rfl rfl

theorem expire (p : Presence) (token : Token) (a : Absence) (how : Expiry) :
    p.Ages (p.expire token a how) := by
  have hgone := (forget p token a).trans (setAccount _ a.sid none)
  cases how with
  | stale => exact .refl p
  | gone => exact hgone
  | disbanded => exact hgone.trans (disband _ a.roomId _)
  | settled removes =>
    refine .trans ?_ (dropIf _ a.roomId _)
    cases removes with
    | false => exact hgone
    | true => exact hgone.trans (modifyHall _ a.roomId _)

theorem quit (p : Presence) (sid : String) {how : Departure} (hno : ∀ r t, how ≠ .grace r t) :
    p.Ages (p.quit sid how) := by
  cases how with
  | stays => exact .refl p
  | clears => exact revoke p [sid]
  | kept r token =>
    cases token with
    | none => exact (modifyHall p r _).trans (exit _ [sid])
    | some token => exact ((modifyHall p r _).trans (note _ token sid r)).trans (exit _ [sid])
  | grace r token => exact absurd rfl (hno r token)
  | removed r =>
    exact (((modifyHall p r _).trans (revoke _ [sid])).trans (exit _ [sid])).trans (dropIf _ r _)
  | lost r =>
    exact (((modifyHall p r _).trans (dropIf _ r _)).trans (exit _ [sid])).trans (revoke _ [sid])
  | disbanded r => exact ((disband p r _).trans (exit _ [sid])).trans (revoke _ [sid])

/-- A connection is forgotten, or closed. -/
theorem leave (p : Presence) (sid : String) (forgets breaks : Bool) :
    p.Ages (if breaks then
        { (if forgets then p.setAccount sid none else p) with
          closed := insert sid (if forgets then p.setAccount sid none else p).closed }
        else if forgets then p.setAccount sid none else p) := by
  cases forgets <;> cases breaks
  · exact refl p
  · exact ⟨fun _ _ h => .inl h, le_rfl, rfl, Finset.subset_insert sid p.closed⟩
  · exact setAccount p sid none
  · exact ⟨fun _ _ h => .inl h, le_rfl, rfl, Finset.subset_insert sid p.closed⟩

end Ages

/-- The player of a token comes back or is taken over, or an absence with it begins. -/
def Renews (token : Token) : Deed → Prop
  | .departed _ (.kept _ (some t)) _ _ => t = token
  | .departed _ (.grace _ t) _ _ => t = token
  | .cameBack _ t _ _ => t = token
  | .released t => t = token
  | _ => False

/-- What a deed does to the absences and the timers. -/
structure Passes (p : Presence) (d : Deed) (q : Presence) : Prop where
  away : ∀ t a, q.away t = some a → p.away t = some a ∨ p.seq < a.seq ∧ a.seq ≤ q.seq
  seq : p.seq ≤ q.seq
  closed : p.closed ⊆ q.closed
  timers : q.timers = p.timers ∨
    (∃ t n how, d = .expired t n how ∧ q.timers = p.timers.erase (t, n)) ∨
      ∃ s r t forgets, d = .departed s (.grace r t) forgets true ∧ q.seq = p.seq + 1 ∧
        q.timers = (t, p.seq + 1) :: p.timers ∧ q.away t = some ⟨r, s, p.seq + 1⟩

theorem Ages.passes (h : p.Ages q) (d : Deed) : p.Passes d q :=
  ⟨h.away, h.seq, h.closed, .inl h.timers⟩

/-- A connection breaks, and a timer is started. -/
theorem passes_grace (p : Presence) (sid : String) (r : RoomId) (token : Token) (forgets : Bool) :
    p.Passes (.departed sid (.grace r token) forgets true)
      (p.act (.departed sid (.grace r token) forgets true)) := by
  have hnote := (Ages.modifyHall p r (Hall.flag sid)).trans (.note _ token sid r)
  refine ⟨?_, ?_, ?_, .inr (.inr ⟨sid, r, token, forgets, rfl, ?_, ?_, ?_⟩)⟩ <;> cases forgets
  · exact hnote.away
  · exact hnote.away
  · exact hnote.seq
  · exact hnote.seq
  · exact hnote.closed.trans (Finset.subset_insert sid _)
  · exact hnote.closed.trans (Finset.subset_insert sid _)
  all_goals first | rfl | exact Function.update_self ..

/-- A timer rings. -/
theorem ages_expired (p : Presence) (token : Token) (seq : ℕ) (how : Expiry) :
    ({ p with timers := p.timers.erase (token, seq) } : Presence).Ages
      (p.act (.expired token seq how)) := by
  simp only [Presence.act]
  split
  · exact .refl _
  · exact .expire _ token _ how

/-- **What every deed does to the absences and the timers.** -/
theorem passes_act {d : Deed} (hcan : p.Can d) : p.Passes d (p.act d) := by
  cases d with
  | departed sid how forgets breaks =>
    by_cases hgrace : ∃ r t, how = .grace r t
    · obtain ⟨r, t, rfl⟩ := hgrace
      obtain ⟨-, -, -, -, rfl⟩ := hcan
      exact passes_grace p sid r t forgets
    · exact ((Ages.quit p sid fun r t heq => hgrace ⟨r, t, heq⟩).trans
        (.leave _ sid forgets breaks)).passes _
  | expired token seq how =>
    have hexpire := ages_expired p token seq how
    exact ⟨hexpire.away, hexpire.seq, hexpire.closed, .inr (.inl ⟨token, seq, how, rfl,
      hexpire.timers⟩)⟩
  | cameBack sid token auth releases =>
    obtain ⟨-, -, -, a, -, ha, -⟩ := hcan
    have ha : (p.met token releases).away token = some a := ha
    have hmet : p.Ages (p.met token releases) := by
      cases releases with
      | false => exact .refl p
      | true => exact .release p token
    refine Ages.passes (d := _) ?_
    rw [Fitting.act_cameBack ha]
    exact ((((hmet.trans (.modifyHall _ _ _)).trans (.complete _ token a sid)).trans
      (.enter _ sid _)).trans (.setAccount _ _ _)).trans (.setAccount _ _ _)
  | released token => exact (Ages.release p token).passes _
  | voided token =>
    refine ⟨fun t b hb => .inl ?_, le_rfl, fun _ h => h, .inl rfl⟩
    simp only [Presence.act, Function.update_apply] at hb
    split at hb
    · cases hb
    · exact hb
  | opened sid token hall =>
    have hseat := (Ages.grant p token sid p.fresh).trans (.enter _ sid p.fresh)
    exact ⟨hseat.away, hseat.seq, hseat.closed, .inl hseat.timers⟩
  | joined sid name roomId token =>
    exact (((Ages.modifyHall p roomId _).trans (.enter _ sid roomId)).trans
      (.grant _ token sid roomId)).passes _
  | took sid roomId old token loads ousts =>
    have hload : ∀ q : Presence, p.Ages q → p.Ages (((((if ousts then (q.exit [old]).revoke [old]
        else q).modifyHall roomId (Hall.reseat old sid)).enter sid roomId).grant token sid
          roomId)) := by
      intro q hq
      have hout : p.Ages (if ousts then (q.exit [old]).revoke [old] else q) := by
        split
        · exact (hq.trans (.exit _ _)).trans (.revoke _ _)
        · exact hq
      exact ((hout.trans (.modifyHall _ _ _)).trans (.enter _ sid roomId)).trans
        (.grant _ token sid roomId)
    cases loads with
    | none => exact (hload p (.refl p)).passes _
    | some hall =>
      exact (hload { p with halls := update p.halls roomId (some hall) }
        (.of_away (fun _ _ h => h) rfl rfl rfl)).passes _
  | kicked tokens =>
    refine ⟨fun t b hb => .inl ?_, le_rfl, fun _ h => h, .inl rfl⟩
    simp only [Presence.act] at hb
    split at hb
    · cases hb
    · exact hb
  | expelled roomId id running =>
    exact ((((Ages.exit p [id]).trans (.revoke _ [id])).trans (.modifyHall _ roomId _)).trans
      (.dropIf _ roomId _)).passes _
  | disbanded roomId => exact (Ages.disband p roomId none).passes _
  | closed roomId => exact (Ages.drop p roomId).passes _
  | named sid auth => exact (Ages.setAccount p sid auth).passes _
  | _ => exact ⟨fun _ _ h => .inl h, le_rfl, fun _ h => h, .inl rfl⟩

/-- A timer was there before, or has the next number. -/
theorem Passes.mem_timers {d : Deed} (h : p.Passes d q) {e : Token × ℕ} (he : e ∈ q.timers) :
    e ∈ p.timers ∨ e.2 = p.seq + 1 ∧ q.seq = p.seq + 1 := by
  rcases h.timers with htimers | ⟨t, n, how, -, htimers⟩ | ⟨s, r, t, f, -, hseq, htimers, -⟩
  · exact .inl (htimers ▸ he)
  · exact .inl (List.mem_of_mem_erase (htimers ▸ he))
  · rw [htimers] at he
    rcases List.mem_cons.mp he with rfl | he
    · exact .inr ⟨rfl, hseq⟩
    · exact .inl he

/-- Every absence and every timer has a number that was given before, no two timers the same. -/
structure Paced (p : Presence) : Prop where
  away : ∀ t a, p.away t = some a → a.seq ≤ p.seq
  timers : ∀ e ∈ p.timers, e.2 ≤ p.seq
  distinct : (p.timers.map Prod.snd).Nodup

theorem Paced.of_vacant (h : p.Vacant) : p.Paced where
  away := fun t a ha => by simp [h.away] at ha
  timers := by simp [h.timers]
  distinct := by simp [h.timers]

theorem Paced.act (h : p.Paced) {d : Deed} (hcan : p.Can d) : (p.act d).Paced := by
  have hpasses := passes_act hcan
  refine ⟨fun t a ha => ?_, fun e he => ?_, ?_⟩
  · exact (hpasses.away t a ha).elim (fun ha => (h.away t a ha).trans hpasses.seq) And.right
  · rcases hpasses.mem_timers he with he | ⟨he, hseq⟩
    · exact (h.timers e he).trans hpasses.seq
    · exact he.trans_le hseq.ge
  · rcases hpasses.timers with htimers | ⟨t, n, how, -, htimers⟩ | ⟨s, r, t, f, -, -, htimers, -⟩
    · exact htimers ▸ h.distinct
    · rw [htimers]
      exact h.distinct.sublist (List.erase_sublist.map Prod.snd)
    · rw [htimers, List.map_cons, List.nodup_cons]
      refine ⟨fun hmem => ?_, h.distinct⟩
      obtain ⟨e, he, heq⟩ := List.mem_map.mp hmem
      have hle := h.timers e he
      omega

/-- A deed that leaves an absence as it was is none with its token. -/
theorem Paced.not_renews (h : p.Paced) {d : Deed} (hcan : p.Can d) (ha : p.away token = some a)
    (ha' : (p.act d).away token = some a) : ¬ Renews token d := by
  have hle := h.away token a ha
  intro hrenews
  cases d with
  | departed sid how forgets breaks =>
    -- an absence begins, which has another number
    have hnew : ∀ r : RoomId, (p.act (.departed sid how forgets breaks)).away token =
        some ⟨r, sid, p.seq + 1⟩ → False := by
      intro r heq
      obtain rfl := Option.some.inj (heq.symm.trans ha')
      exact Nat.not_succ_le_self _ hle
    cases how with
    | kept r token' =>
      cases token' with
      | none => exact hrenews
      | some token' =>
        obtain rfl : token' = token := hrenews
        refine hnew r ?_
        cases forgets <;> cases breaks <;> exact Function.update_self ..
    | grace r token' =>
      obtain rfl : token' = token := hrenews
      refine hnew r ?_
      cases forgets <;> cases breaks <;> exact Function.update_self ..
    | _ => exact hrenews
  | cameBack sid token' auth releases =>
    obtain rfl : token' = token := hrenews
    obtain ⟨-, -, hrel, b, -, hb, -⟩ := hcan
    have hb : (p.met token' releases).away token' = some b := hb
    rw [Fitting.act_cameBack hb] at ha'
    simp [Presence.setAccount, Presence.enter, Presence.complete] at ha'
  | released token' =>
    obtain rfl : token' = token := hrenews
    rw [hcan.1] at ha
    cases ha
  | _ => exact hrenews

/-- An absence whose timer waits begins with the deed, or was there before. -/
theorem Paced.before (h : p.Paced) {d : Deed} (hcan : p.Can d)
    (ha : (p.act d).away token = some a) (he : (token, a.seq) ∈ (p.act d).timers) :
    (∃ forgets, d = .departed a.sid (.grace a.roomId token) forgets true ∧ a.seq = p.seq + 1) ∨
      p.away token = some a ∧ (token, a.seq) ∈ p.timers ∧ ¬ Renews token d := by
  have hpasses := passes_act hcan
  have hold : (token, a.seq) ∈ p.timers →
      p.away token = some a ∧ (token, a.seq) ∈ p.timers ∧ ¬ Renews token d := by
    intro he
    have hle := h.timers _ he
    rcases hpasses.away token a ha with hp | ⟨hlt, -⟩
    · exact ⟨hp, he, h.not_renews hcan hp ha⟩
    · exact absurd hle hlt.not_ge
  rcases hpasses.timers with htimers | ⟨t, n, how, -, htimers⟩ | ⟨s, r, t, f, hd, -, htimers, hnew⟩
  · exact .inr (hold (htimers ▸ he))
  · exact .inr (hold (List.mem_of_mem_erase (htimers ▸ he)))
  · rw [htimers] at he
    rcases List.mem_cons.mp he with heq | he
    · obtain ⟨rfl, -⟩ := Prod.mk.inj heq
      obtain rfl := Option.some.inj (hnew.symm.trans ha)
      exact .inl ⟨f, hd, rfl⟩
    · exact .inr (hold he)

end Presence

end Server

end ScrabbleMagyar
