import ScrabbleMagyar.Server.OneSeat

/-!
# Reconnect tokens

The tables of the tokens should be inverse to each other, and a connection that plays should have
a token. Both hold as long as a connection that takes a seat leaves no other token behind, takes
none from a connection that plays, and no room or player is given up with the token of a
connection that plays elsewhere (`Orderly`, `tokens_of_orderly`). A guest who leaves a
running game and opens a room has two tokens, and loses the new one with the old room
(`tokens_lost`).
-/

namespace ScrabbleMagyar

namespace Server

open Function (update)
open Runs

/-- The room that a connection leaves. -/
def Departure.roomId : Departure → Option RoomId
  | .stays => none
  | .clears => none
  | .kept roomId _ => some roomId
  | .grace roomId _ => some roomId
  | .removed roomId => some roomId
  | .lost roomId => some roomId
  | .disbanded roomId => some roomId

namespace Presence

/-- The token of a connection is the one that names it; an open connection that plays has one,
one that is away plays nowhere. -/
structure Tokened (p : Presence) : Prop where
  inverse : ∀ s t, p.tokenOf s = some t ↔ ∃ r, p.holder t = some (r, s)
  owned : ∀ s r, s ∉ p.closed → p.roomOf s = some r → (p.tokenOf s).isSome = true
  held : ∀ t a, p.away t = some a → ∃ r, p.holder t = some (r, a.sid)
  gone : ∀ t a, p.away t = some a → a.sid ∉ p.closed → p.roomOf a.sid = none

variable {p q : Presence} {s sid : String} {r roomId : RoomId} {token : Token}

namespace Tokened

/-- The token of a player who is away. -/
theorem tokenOf_away (h : p.Tokened) {a : Absence} (ha : p.away token = some a) :
    p.tokenOf a.sid = some token := (h.inverse a.sid token).mpr (h.held token a ha)

/-- Nobody takes a place. -/
theorem leave (h : p.Tokened) (hholder : q.holder = p.holder) (htokenOf : q.tokenOf = p.tokenOf)
    (haway : q.away = p.away) (hclosed : p.closed ⊆ q.closed)
    (hroom : ∀ s r, s ∉ q.closed → q.roomOf s = some r → p.roomOf s = some r) : q.Tokened where
  inverse := by
    rw [hholder, htokenOf]
    exact h.inverse
  owned := fun s r hs hr => by
    rw [htokenOf]
    exact h.owned s r (fun hc => hs (hclosed hc)) (hroom s r hs hr)
  held := by
    rw [hholder, haway]
    exact h.held
  gone := fun t a ha hs => by
    rw [haway] at ha
    cases hr : q.roomOf a.sid with
    | none => rfl
    | some r =>
      have hnone := h.gone t a ha fun hc => hs (hclosed hc)
      rw [hroom a.sid r hs hr] at hnone
      cases hnone

theorem exit (h : p.Tokened) (sids : List String) : (p.exit sids).Tokened :=
  h.leave rfl rfl rfl (fun _ hs => hs) fun s r _ hr => by
    rw [roomOf_exit] at hr
    split at hr
    · cases hr
    · exact hr

theorem modifyHall (h : p.Tokened) (roomId : RoomId) (f : Hall → Hall) :
    (p.modifyHall roomId f).Tokened :=
  h.leave rfl rfl rfl (fun _ hs => hs) fun _ _ _ hr => hr

theorem setAccount (h : p.Tokened) (sid : String) (auth : Option AuthInfo) :
    (p.setAccount sid auth).Tokened :=
  h.leave rfl rfl rfl (fun _ hs => hs) fun _ _ _ hr => hr

theorem insertHall (h : p.Tokened) (roomId : RoomId) (hall : Hall) :
    Tokened { p with halls := update p.halls roomId (some hall) } :=
  h.leave rfl rfl rfl (fun _ hs => hs) fun _ _ _ hr => hr

/-- Connections that play nowhere lose their tokens. -/
theorem revoke (h : p.Tokened) (sids : List String)
    (hsids : ∀ s ∈ sids, s ∉ p.closed → p.roomOf s = none) : (p.revoke sids).Tokened where
  inverse := fun s t => by
    simp only [Presence.revoke]
    constructor
    · intro ht
      split at ht
      · cases ht
      · rename_i hs
        obtain ⟨r, hholder⟩ := (h.inverse s t).mp ht
        refine ⟨r, ?_⟩
        rw [if_neg]
        · exact hholder
        · rintro ⟨s', hs', ht'⟩
          obtain ⟨r', hholder'⟩ := (h.inverse s' t).mp ht'
          have heq : s = s' := congrArg Prod.snd (Option.some.inj (hholder.symm.trans hholder'))
          exact hs (heq ▸ hs')
    · rintro ⟨r, hr⟩
      split at hr
      · cases hr
      · rename_i hno
        have ht := (h.inverse s t).mpr ⟨r, hr⟩
        rw [if_neg fun hs => hno ⟨s, hs, ht⟩]
        exact ht
  owned := fun s r hs hr => by
    simp only [Presence.revoke]
    rw [if_neg]
    · exact h.owned s r hs hr
    · intro hmem
      have hnone := hsids s hmem hs
      rw [show p.roomOf s = some r from hr] at hnone
      cases hnone
  held := fun t a ha => by
    simp only [Presence.revoke] at ha ⊢
    split at ha
    · cases ha
    · rename_i hno
      rw [if_neg hno]
      exact h.held t a ha
  gone := fun t a ha hs => by
    simp only [Presence.revoke] at ha
    split at ha
    · cases ha
    · exact h.gone t a ha hs

/-- An absence begins. -/
theorem note (h : p.Tokened) (htoken : p.tokenOf sid = some token)
    (hout : sid ∉ p.closed → p.roomOf sid = none) (roomId : RoomId) :
    (p.note token sid roomId).Tokened where
  inverse := h.inverse
  owned := h.owned
  held := fun t a ha => by
    simp only [Presence.note, Function.update_apply] at ha
    split at ha
    · rename_i heq
      cases ha
      exact heq ▸ (h.inverse sid token).mp htoken
    · exact h.held t a ha
  gone := fun t a ha hs => by
    simp only [Presence.note, Function.update_apply] at ha
    split at ha
    · cases ha
      exact hout hs
    · exact h.gone t a ha hs

/-- A room is released with the tokens of the players who are away from it. -/
theorem drop (h : p.Tokened) (roomId : RoomId) : (p.drop roomId).Tokened where
  inverse := fun s t => by
    simp only [Presence.drop]
    constructor
    · intro ht
      split at ht
      · cases ht
      · rename_i hs
        obtain ⟨r, hholder⟩ := (h.inverse s t).mp ht
        refine ⟨r, ?_⟩
        rw [if_neg]
        · exact hholder
        · rintro ⟨a, ha, hroom⟩
          obtain ⟨r', hholder'⟩ := h.held t a ha
          have heq : s = a.sid := congrArg Prod.snd (Option.some.inj (hholder.symm.trans hholder'))
          exact hs ⟨t, a, ha, hroom, heq.symm⟩
    · rintro ⟨r, hr⟩
      split at hr
      · cases hr
      · rename_i hno
        have ht := (h.inverse s t).mpr ⟨r, hr⟩
        rw [if_neg]
        · exact ht
        · rintro ⟨t', a, ha, hroom, rfl⟩
          have heq : t' = t := Option.some.inj ((h.tokenOf_away ha).symm.trans ht)
          exact hno ⟨a, heq ▸ ha, hroom⟩
  owned := fun s r hs hr => by
    simp only [Presence.drop]
    rw [if_neg]
    · exact h.owned s r hs hr
    · rintro ⟨t, a, ha, -, rfl⟩
      have hnone := h.gone t a ha hs
      rw [show p.roomOf a.sid = some r from hr] at hnone
      cases hnone
  held := fun t a ha => by
    obtain ⟨ha, hne⟩ := Option.filter_eq_some_iff.mp ha
    simp only [Presence.drop]
    rw [if_neg]
    · exact h.held t a ha
    · rintro ⟨b, hb, hroom⟩
      obtain rfl := Option.some.inj (ha.symm.trans hb)
      simp [hroom] at hne
  gone := fun t a ha hs => h.gone t a (Option.filter_eq_some_iff.mp ha).1 hs

theorem dropIf (h : p.Tokened) (roomId : RoomId) (c : Hall → Prop) [DecidablePred c] :
    (p.dropIf roomId c).Tokened := by
  rcases p.dropIf_cases roomId c with ⟨heq, -⟩ | ⟨heq, -⟩ <;> rw [heq]
  · exact h
  · exact h.drop roomId

theorem disband (h : p.Tokened) (roomId : RoomId) (owner : Option String) :
    (p.disband roomId owner).Tokened := by
  unfold Presence.disband
  split
  · exact h
  · refine ((h.exit _).revoke _ fun s hs _ => ?_).drop roomId
    rw [roomOf_exit, if_pos hs]

/-- An absence ends for good. -/
theorem forget (h : p.Tokened) {a : Absence} (ha : p.away token = some a) :
    (p.forget token a).Tokened where
  inverse := fun s t => by
    have htoken := h.tokenOf_away ha
    simp only [Presence.forget, Function.update_apply]
    by_cases hs : s = a.sid
    · subst hs
      by_cases ht : t = token
      · simp [ht]
      · simp only [if_true, if_neg ht, reduceCtorEq, false_iff]
        intro hr
        exact ht (Option.some.inj ((h.inverse a.sid t).mpr hr |>.symm.trans htoken))
    · by_cases ht : t = token
      · subst ht
        simp only [if_neg hs, if_true, reduceCtorEq, exists_const, iff_false]
        intro hst
        obtain ⟨r, hr⟩ := (h.inverse s t).mp hst
        obtain ⟨r', hr'⟩ := h.held t a ha
        exact hs (congrArg Prod.snd (Option.some.inj (hr.symm.trans hr')))
      · simp only [if_neg hs, if_neg ht]
        exact h.inverse s t
  owned := fun s r hs hr => by
    simp only [Presence.forget, Function.update_apply]
    split
    · rename_i heq
      have hnone := h.gone token a ha (heq ▸ hs)
      rw [← heq, show p.roomOf s = some r from hr] at hnone
      cases hnone
    · exact h.owned s r hs hr
  held := fun t b hb => by
    simp only [Presence.forget, Function.update_apply] at hb ⊢
    split at hb
    · cases hb
    · rename_i ht
      rw [if_neg ht]
      exact h.held t b hb
  gone := fun t b hb hs => by
    simp only [Presence.forget, Function.update_apply] at hb
    split at hb
    · cases hb
    · exact h.gone t b hb hs

/-- A connection with no other token, sitting down with one, takes it over. -/
theorem grant (h : p.Tokened) (hown : ∀ t, p.tokenOf sid = some t → t = token)
    (hfree : ∀ r' s', p.holder token = some (r', s') → s' ≠ sid → s' ∉ p.closed →
      p.roomOf s' = none) (r roomId : RoomId) : ((p.grant token sid r).enter sid roomId).Tokened where
  inverse := fun s t => by
    simp only [Presence.enter, Presence.grant, Function.update_apply]
    by_cases hs : s = sid
    · subst hs
      by_cases ht : t = token
      · simp [ht]
      · simp only [if_true, if_neg ht, Option.some.injEq, Ne.symm ht, false_iff]
        intro hr
        exact ht (hown t ((h.inverse s t).mpr hr))
    · by_cases ht : t = token
      · subst ht
        simp only [if_neg hs, if_true, Option.some.injEq, Prod.mk.injEq, Ne.symm hs, and_false,
          exists_const, iff_false]
        split
        · simp
        · rename_i hno
          intro hst
          obtain ⟨r', hr'⟩ := (h.inverse s t).mp hst
          exact hno (by rw [hr']; rfl)
      · simp only [if_neg hs, if_neg ht]
        split
        · rename_i hold
          obtain ⟨⟨r', s'⟩, hr', rfl⟩ := Option.map_eq_some_iff.mp hold
          simp only [reduceCtorEq, false_iff]
          intro hr
          have ht' := (h.inverse s' t).mpr hr
          exact ht (Option.some.inj (ht'.symm.trans ((h.inverse s' token).mpr ⟨r', hr'⟩)))
        · exact h.inverse s t
  owned := fun s r' hs hr => by
    simp only [Presence.enter, Presence.grant, Function.update_apply] at hr ⊢
    by_cases heq : s = sid
    · simp [heq]
    · rw [if_neg heq] at hr ⊢
      rw [if_neg]
      · exact h.owned s r' hs hr
      · intro hold
        obtain ⟨⟨r'', s'⟩, hr', rfl⟩ := Option.map_eq_some_iff.mp hold
        have hnone := hfree r'' s' hr' heq hs
        rw [hr] at hnone
        cases hnone
  held := fun t a ha => by
    simp only [Presence.enter, Presence.grant, Function.update_apply] at ha ⊢
    split at ha
    · cases ha
    · rename_i hno
      obtain ⟨r', hr'⟩ := h.held t a ha
      rw [if_neg]
      · exact ⟨r', hr'⟩
      · rintro rfl
        exact hno ⟨rfl, by rw [hr']; rfl⟩
  gone := fun t a ha hs => by
    simp only [Presence.enter, Presence.grant, Function.update_apply] at ha ⊢
    split at ha
    · cases ha
    · rename_i hno
      split
      · rename_i heq
        have htoken := h.tokenOf_away ha
        rw [heq] at htoken
        obtain rfl := hown t htoken
        obtain ⟨r', hr'⟩ := h.held t a ha
        exact absurd ⟨rfl, by rw [hr']; rfl⟩ hno
      · exact h.gone t a ha hs

/-- A player with no other token comes back. -/
theorem complete (h : p.Tokened) {a : Absence} (ha : p.away token = some a)
    (hown : ∀ t, p.tokenOf sid = some t → t = token) (roomId : RoomId) :
    ((p.complete token a sid).enter sid roomId).Tokened where
  inverse := fun s t => by
    obtain ⟨r, hr⟩ := h.held token a ha
    have htoken := h.tokenOf_away ha
    simp only [Presence.enter, Presence.complete, Function.update_apply]
    by_cases hs : s = sid
    · subst hs
      by_cases ht : t = token
      · simp [ht, hr]
      · simp only [if_true, if_neg ht, Option.some.injEq, Ne.symm ht, false_iff]
        exact fun hholder => ht (hown t ((h.inverse s t).mpr hholder))
    · by_cases ht : t = token
      · subst ht
        simp only [if_neg hs, if_true, hr, Option.map_some, Option.some.injEq, Prod.mk.injEq,
          Ne.symm hs, and_false, exists_const, iff_false]
        split
        · simp
        · rename_i hsa
          intro hst
          obtain ⟨r', hr'⟩ := (h.inverse s t).mp hst
          exact hsa (congrArg Prod.snd (Option.some.inj (hr'.symm.trans hr)))
      · simp only [if_neg hs, if_neg ht]
        split
        · rename_i hsa
          simp only [reduceCtorEq, false_iff]
          intro hholder
          have hst := (h.inverse s t).mpr hholder
          exact ht (Option.some.inj (hst.symm.trans (hsa ▸ htoken)))
        · exact h.inverse s t
  owned := fun s r' hs hr => by
    simp only [Presence.enter, Presence.complete, Function.update_apply] at hr ⊢
    by_cases heq : s = sid
    · simp [heq]
    · rw [if_neg heq] at hr ⊢
      split
      · rename_i hsa
        have hnone := h.gone token a ha (hsa ▸ hs)
        rw [← hsa, hr] at hnone
        cases hnone
      · exact h.owned s r' hs hr
  held := fun t b hb => by
    simp only [Presence.enter, Presence.complete, Function.update_apply] at hb ⊢
    split at hb
    · cases hb
    · rename_i ht
      rw [if_neg ht]
      exact h.held t b hb
  gone := fun t b hb hs => by
    simp only [Presence.enter, Presence.complete, Function.update_apply] at hb ⊢
    split at hb
    · cases hb
    · rename_i ht
      split
      · rename_i heq
        exact absurd (hown t (heq ▸ h.tokenOf_away hb)) ht
      · exact h.gone t b hb hs

theorem release (h : p.Tokened) (token : Token) : (p.release token).Tokened := by
  unfold Presence.release
  split
  · exact h
  · rename_i r sid hholder
    refine ((h.modifyHall r _).exit [sid]).note ?_ (fun _ => ?_) r
    · exact (h.inverse sid token).mpr ⟨r, hholder⟩
    · rw [roomOf_exit, if_pos (List.mem_singleton_self sid)]

theorem close (h : p.Tokened) (sid : String) :
    Tokened { p with closed := insert sid p.closed } :=
  h.leave rfl rfl rfl (fun _ hs => Finset.mem_insert_of_mem hs) fun _ _ _ hr => hr

/-- What becomes of the seat of a connection that does not break with no seat. -/
theorem quit (h : p.Tokened) {how : Departure} {forgets breaks : Bool}
    (hcan : p.Can (.departed sid how forgets breaks)) (hno : how ≠ .clears) :
    (p.quit sid how).Tokened := by
  obtain ⟨-, -, hcan⟩ := hcan
  have hout : ∀ q : Presence, sid ∉ (q.exit [sid]).closed → (q.exit [sid]).roomOf sid = none :=
    fun q _ => by rw [roomOf_exit, if_pos (List.mem_singleton_self sid)]
  have hrevoke : ∀ q : Presence, q.Tokened → ((q.exit [sid]).revoke [sid]).Tokened := fun q hq =>
    (hq.exit [sid]).revoke [sid] fun s hs => by
      obtain rfl := List.mem_singleton.mp hs
      exact hout q
  cases how with
  | stays => exact h
  | clears => exact absurd rfl hno
  | kept r token =>
    cases token with
    | none => exact (h.modifyHall r _).exit [sid]
    | some token => exact ((h.modifyHall r _).exit [sid]).note hcan.2.symm (hout _) r
  | grace r token =>
    exact (((h.modifyHall r (Hall.flag sid)).exit [sid]).note hcan.2.1.symm (hout _) r).leave rfl rfl
      rfl (fun _ hs => hs) fun _ _ _ hr => hr
  | removed r => exact (hrevoke _ (h.modifyHall r _)).dropIf r _
  | lost r => exact hrevoke _ ((h.modifyHall r _).dropIf r _)
  | disbanded r => exact hrevoke _ (h.disband r _)

theorem expire (h : p.Tokened) {a : Absence} (ha : p.away token = some a) (how : Expiry) :
    (p.expire token a how).Tokened := by
  have hforget := (h.forget ha).setAccount a.sid none
  cases how with
  | stale => exact h
  | gone => exact hforget
  | disbanded => exact hforget.disband a.roomId _
  | settled removes =>
    cases removes with
    | false => exact hforget.dropIf a.roomId _
    | true => exact (hforget.modifyHall a.roomId _).dropIf a.roomId _

end Tokened

/-! ## Orderly steps -/

/-- A connection takes a seat with a token: it has no other one, and no open connection that
plays has that token. -/
structure Takes (p : Presence) (sid : String) (token : Token) : Prop where
  own : ∀ t, p.tokenOf sid = some t → t = token
  free : ∀ r s, p.holder token = some (r, s) → s ≠ sid → s ∉ p.closed → p.roomOf s = none

/-- The human players of a room, but for its owner, play nowhere else. -/
def Clear (p : Presence) (roomId : RoomId) (owner : Option String) : Prop :=
  ∀ h, p.halls roomId = some h → ∀ s ∈ h.humans, some s ≠ owner → s ∉ p.closed →
    ∀ r, p.placed s = some r → r = roomId

/-- A step that keeps the tokens in order. -/
def Ordered (p : Presence) : Deed → Prop
  | .departed sid (.disbanded r) _ _ => p.Clear r (some sid)
  | .expired token _ .disbanded => ∀ a, p.away token = some a → p.Clear a.roomId (some a.sid)
  | .cameBack sid token _ releases => ∀ t, (p.met token releases).tokenOf sid = some t → t = token
  | .opened sid token _ => p.Takes sid token
  | .joined sid _ _ token => p.Takes sid token
  | .took sid _ old token _ ousts =>
      if ousts then ((p.exit [old]).revoke [old]).Takes sid token else p.Takes sid token
  | .kicked tokens => tokens = []
  | .expelled r id _ => id ∉ p.closed → ∀ r', p.placed id = some r' → r' = r
  | .disbanded r => p.Clear r none
  | _ => True

/-- **Every orderly deed keeps the tokens in order.** -/
theorem Tokened.act (h : p.Tokened) (ht : p.Timed) {d : Deed} (hcan : p.Can d) (ho : p.Ordered d) :
    (p.act d).Tokened := by
  cases d with
  | nothing => exact h
  | named sid auth => exact h.setAccount sid auth
  | departed sid how forgets breaks =>
    have hquit : ∀ q : Presence, q.Tokened → Tokened (if breaks then
        { (if forgets then q.setAccount sid none else q) with
          closed := insert sid (if forgets then q.setAccount sid none else q).closed }
        else if forgets then q.setAccount sid none else q) := by
      intro q hq
      cases forgets <;> cases breaks
      · exact hq
      · exact hq.close sid
      · exact hq.setAccount sid none
      · exact (hq.setAccount sid none).close sid
    by_cases hclears : how = .clears
    · subst hclears
      obtain ⟨-, -, -, rfl⟩ := hcan
      have hrevoke : ((Presence.revoke { p with closed := insert sid p.closed } [sid])).Tokened :=
        (h.close sid).revoke [sid] fun s hs hopen => by
          obtain rfl := List.mem_singleton.mp hs
          exact absurd (Finset.mem_insert_self ..) hopen
      cases forgets with
      | false => exact hrevoke
      | true => exact hrevoke.setAccount sid none
    · exact hquit _ (h.quit hcan hclears)
  | expired token seq how =>
    have herase : Tokened { p with timers := p.timers.erase (token, seq) } :=
      h.leave rfl rfl rfl (fun _ hs => hs) fun _ _ _ hr => hr
    simp only [Presence.act]
    split
    · exact herase
    · exact herase.expire ‹_› how
  | cameBack sid token auth releases =>
    obtain ⟨-, -, -, a, hall, haway, -⟩ := hcan
    have hmet : (p.met token releases).Tokened := by
      cases releases with
      | false => exact h
      | true => exact h.release token
    have heq : p.met token releases = if releases then p.release token else p := rfl
    rw [← heq] at haway
    simp only [Presence.act, ← heq, haway]
    exact (((hmet.modifyHall a.roomId _).complete haway ho a.roomId).setAccount a.sid none).setAccount
      sid _
  | released token => exact h.release token
  | voided token =>
    obtain ⟨a, ha, hnone⟩ := hcan
    have hhoused := ht.housed token a ha
    rw [hnone] at hhoused
    cases hhoused
  | opened sid token hall =>
    exact (h.grant ho.own ho.free p.fresh p.fresh).leave rfl rfl rfl (fun _ hs => hs)
      fun _ _ _ hr => hr
  | joined sid name roomId token =>
    exact (h.modifyHall roomId _).grant ho.own ho.free roomId roomId
  | took sid roomId old token loads ousts =>
    have hout : ((p.exit [old]).revoke [old]).Tokened := (h.exit [old]).revoke [old] fun s hs _ => by
      rw [roomOf_exit, if_pos hs]
    cases loads with
    | none =>
      cases ousts with
      | false => exact (h.modifyHall roomId _).grant ho.own ho.free roomId roomId
      | true => exact (hout.modifyHall roomId _).grant ho.own ho.free roomId roomId
    | some hall =>
      cases ousts with
      | false =>
        exact ((h.insertHall roomId hall).modifyHall roomId _).grant ho.own ho.free roomId roomId
      | true =>
        exact ((hout.insertHall roomId hall).modifyHall roomId _).grant ho.own ho.free roomId roomId
  | loaded roomId hall => exact h.insertHall roomId hall
  | restored roomId seats => exact h.modifyHall roomId _
  | kicked tokens =>
    obtain rfl : tokens = [] := ho
    refine ⟨fun s t => ?_, h.owned, fun t a ha => ?_, fun t a ha => ?_⟩
    · simpa [Presence.act] using h.inverse s t
    · simpa [Presence.act] using h.held t a (by simpa [Presence.act] using ha)
    · exact h.gone t a (by simpa [Presence.act] using ha)
  | expelled roomId id running =>
    have hout : ((p.exit [id]).revoke [id]).Tokened := (h.exit [id]).revoke [id] fun s hs _ => by
      rw [roomOf_exit, if_pos hs]
    exact (hout.modifyHall roomId _).dropIf roomId _
  | disbanded roomId => exact h.disband roomId none
  | closed roomId => exact h.drop roomId

/-! ## Players of other rooms -/

/-- The room a deed is about. -/
def about (p : Presence) : Deed → Option RoomId
  | .departed _ how _ _ => how.roomId
  | .expired token _ _ => (p.away token).map Absence.roomId
  | .cameBack _ token _ releases => ((p.met token releases).away token).map Absence.roomId
  | .released token => (p.holder token).map Prod.fst
  | .opened _ _ _ => some p.fresh
  | .joined _ _ roomId _ => some roomId
  | .took _ roomId _ _ _ _ => some roomId
  | .loaded roomId _ => some roomId
  | .restored roomId _ => some roomId
  | .expelled roomId _ _ => some roomId
  | .disbanded roomId => some roomId
  | .closed roomId => some roomId
  | _ => none

theorem tokenOf_revoke {sids : List String} (hs : s ∉ sids) :
    (p.revoke sids).tokenOf s = p.tokenOf s :=
  if_neg hs

theorem Tokened.tokenOf_drop (h : p.Tokened) (hs : s ∉ p.closed) (hr : p.roomOf s ≠ none)
    (roomId : RoomId) : (p.drop roomId).tokenOf s = p.tokenOf s := by
  simp only [Presence.drop]
  rw [if_neg]
  rintro ⟨t, a, ha, -, rfl⟩
  exact hr (h.gone t a ha hs)

theorem Tokened.tokenOf_dropIf (h : p.Tokened) (hs : s ∉ p.closed) (hr : p.roomOf s ≠ none)
    (roomId : RoomId) (c : Hall → Prop) [DecidablePred c] :
    (p.dropIf roomId c).tokenOf s = p.tokenOf s := by
  rcases p.dropIf_cases roomId c with ⟨heq, -⟩ | ⟨heq, -⟩ <;> rw [heq]
  exact h.tokenOf_drop hs hr roomId

theorem Tokened.tokenOf_disband (h : p.Tokened) (hs : s ∉ p.closed) (hr : p.placed s = some r)
    (hne : r ≠ roomId) {owner : Option String} (hclear : p.Clear roomId owner)
    (howner : some s ≠ owner) : (p.disband roomId owner).tokenOf s = p.tokenOf s := by
  unfold Presence.disband
  split
  · rfl
  · rename_i hall hhall
    have hmem : s ∉ hall.humans.filter fun s => some s ≠ owner := fun hmem =>
      hne (hclear hall hhall s (List.mem_of_mem_filter hmem) howner hs r hr)
    have hout := (h.exit (hall.humans.filter fun s => some s ≠ owner)).revoke
      (hall.humans.filter fun s => some s ≠ owner) fun s hs _ => by
        rw [roomOf_exit, if_pos hs]
    dsimp only
    rw [hout.tokenOf_drop hs, tokenOf_revoke hmem]
    · rfl
    · change (p.exit _).roomOf s ≠ none
      rw [roomOf_exit, if_neg hmem, (isSome_of_placed hr).1]
      simp

theorem tokenOf_grant (hsid : s ≠ sid)
    (hfree : ∀ r' s', p.holder token = some (r', s') → s' ≠ sid → s' ∉ p.closed → p.roomOf s' = none)
    (hs : s ∉ p.closed) (hr : p.roomOf s ≠ none) (roomId : RoomId) :
    (p.grant token sid roomId).tokenOf s = p.tokenOf s := by
  simp only [Presence.grant]
  rw [if_neg hsid, if_neg]
  intro hold
  obtain ⟨⟨r', s'⟩, hr', rfl⟩ := Option.map_eq_some_iff.mp hold
  exact hr (hfree r' s' hr' hsid hs)

theorem Tokened.spared_quit (h : p.Tokened) {how : Departure} {forgets breaks : Bool}
    (hcan : p.Can (.departed sid how forgets breaks))
    (ho : p.Ordered (.departed sid how forgets breaks)) (hs : s ∉ p.closed)
    (hr : p.placed s = some r) (habout : how.roomId ≠ some r) :
    (p.quit sid how).tokenOf s = p.tokenOf s := by
  obtain ⟨-, -, hcan⟩ := hcan
  obtain ⟨hroom, -⟩ := isSome_of_placed hr
  have hne : how ≠ .stays → s ≠ sid := by
    rintro hstays rfl
    cases how with
    | stays => exact hstays rfl
    | clears => simp [hr] at hcan
    | kept r' token => exact habout (hcan.1.symm.trans hr)
    | grace r' token => exact habout (hcan.1.symm.trans hr)
    | removed r' => exact habout (hcan.symm.trans hr)
    | lost r' => exact habout (hcan.symm.trans hr)
    | disbanded r' => exact habout (hcan.symm.trans hr)
  have hmem : how ≠ .stays → s ∉ [sid] := fun hstays hmem =>
    hne hstays (List.mem_singleton.mp hmem)
  cases how with
  | stays => rfl
  | clears => exact tokenOf_revoke (hmem (by simp))
  | kept r' token => cases token <;> rfl
  | grace r' token => rfl
  | removed r' =>
    have hs' := hmem (by simp)
    have hout := (((h.modifyHall r' (Hall.unseat sid)).exit [sid]).revoke [sid]
      fun s hs _ => by rw [roomOf_exit, if_pos hs])
    have hdrop := hout.tokenOf_dropIf hs (by
      change ((p.modifyHall r' (Hall.unseat sid)).exit [sid]).roomOf s ≠ none
      rw [roomOf_exit, if_neg hs']
      change p.roomOf s ≠ none
      simp [hroom]) r' deserted
    exact hdrop.trans (tokenOf_revoke hs')
  | lost r' =>
    have hdrop := (h.modifyHall r' (Hall.unseat sid)).tokenOf_dropIf hs (by
      change p.roomOf s ≠ none
      simp [hroom]) r' deserted
    exact (tokenOf_revoke (hmem (by simp))).trans hdrop
  | disbanded r' =>
    have hdisband := h.tokenOf_disband hs hr (fun heq => habout (congrArg some heq.symm)) ho
      fun heq => hne (by simp) (Option.some.inj heq)
    exact (tokenOf_revoke (hmem (by simp))).trans hdisband

/-- **An orderly deed about another room leaves a player the token.** -/
theorem Tokened.spared (h : p.Tokened) {d : Deed} (hcan : p.Can d) (ho : p.Ordered d)
    (hs : s ∉ p.closed) (hr : p.placed s = some r) (habout : p.about d ≠ some r) :
    (p.act d).tokenOf s = p.tokenOf s := by
  obtain ⟨hroom, hhall⟩ := isSome_of_placed hr
  have hplays : p.roomOf s ≠ none := by simp [hroom]
  cases d with
  | departed sid how forgets breaks =>
    refine Eq.trans ?_ (h.spared_quit hcan ho hs hr habout)
    simp only [Presence.act]
    cases forgets <;> cases breaks <;> rfl
  | expired token seq how =>
    simp only [Presence.act]
    split
    · rfl
    · rename_i a ha
      have hne : s ≠ a.sid := by
        rintro rfl
        exact hplays (h.gone token a ha hs)
      have hroomId : r ≠ a.roomId := by
        rintro rfl
        exact habout (by simp [about, show p.away token = some a from ha])
      have herase : Tokened { p with timers := p.timers.erase (token, seq) } :=
        h.leave rfl rfl rfl (fun _ hs => hs) fun _ _ _ hr => hr
      have hforget := (herase.forget ha).setAccount a.sid none
      have hkept : ((Presence.forget { p with timers := p.timers.erase (token, seq) } token
          a).setAccount a.sid none).tokenOf s = p.tokenOf s := Function.update_of_ne hne ..
      cases how with
      | stale => rfl
      | gone => exact hkept
      | disbanded =>
        exact (hforget.tokenOf_disband hs hr hroomId (ho a ha)
          fun heq => hne (Option.some.inj heq)).trans hkept
      | settled removes =>
        cases removes with
        | false => exact (hforget.tokenOf_dropIf hs hplays a.roomId _).trans hkept
        | true =>
          exact ((hforget.modifyHall a.roomId (Hall.unseat a.sid)).tokenOf_dropIf hs hplays
            a.roomId _).trans hkept
  | cameBack sid token auth releases =>
    obtain ⟨-, -, hrel, a, hall, haway, -⟩ := hcan
    have heq : p.met token releases = if releases then p.release token else p := rfl
    rw [← heq] at haway
    have hmet : (p.met token releases).Tokened ∧ (p.met token releases).roomOf s ≠ none ∧
        (p.met token releases).closed = p.closed ∧
        (p.met token releases).tokenOf s = p.tokenOf s := by
      cases releases with
      | false => exact ⟨h, hplays, rfl, rfl⟩
      | true =>
        refine ⟨h.release token, ?_⟩
        obtain ⟨-, r', s', hholder, hplaced⟩ := hrel rfl
        have hrelease : p.met token true =
            ((p.modifyHall r' (Hall.flag s')).exit [s']).note token s' r' := by
          rw [heq, if_pos rfl, Presence.release, hholder]
        have hne : s ∉ [s'] := by
          rw [List.mem_singleton]
          rintro rfl
          obtain rfl : r = r' := Option.some.inj (hr.symm.trans hplaced)
          refine habout ?_
          simp [about, hrelease, Presence.note]
        rw [hrelease]
        refine ⟨?_, rfl, rfl⟩
        change ((p.modifyHall r' (Hall.flag s')).exit [s']).roomOf s ≠ none
        rw [roomOf_exit, if_neg hne]
        exact hplays
    obtain ⟨htokened, hplaysMet, hclosed, hsame⟩ := hmet
    simp only [Presence.act, ← heq, haway]
    have hsMet : s ∉ (p.met token releases).closed := hclosed ▸ hs
    have hne : s ≠ a.sid := by
      rintro rfl
      exact hplaysMet (htokened.gone token a haway hsMet)
    have hsid : s ≠ sid := by
      rintro rfl
      obtain ⟨r', hr'⟩ := Option.ne_none_iff_exists'.mp hplaysMet
      obtain ⟨t, htoken⟩ := Option.isSome_iff_exists.mp (htokened.owned s r' hsMet hr')
      obtain rfl := ho t htoken
      obtain ⟨r₁, h₁⟩ := (htokened.inverse s t).mp htoken
      obtain ⟨r₂, h₂⟩ := htokened.held t a haway
      exact hne (congrArg Prod.snd (Option.some.inj (h₁.symm.trans h₂)))
    rw [← hsame]
    exact (Function.update_of_ne hsid ..).trans (Function.update_of_ne hne ..)
  | released token =>
    simp only [Presence.act, Presence.release]
    split <;> rfl
  | opened sid token hall =>
    refine tokenOf_grant ?_ ho.free hs hplays p.fresh
    rintro rfl
    exact Option.some_ne_none r (hr.symm.trans hcan.2.1)
  | joined sid name roomId token =>
    refine tokenOf_grant ?_ ho.free hs hplays roomId
    rintro rfl
    exact Option.some_ne_none r (hr.symm.trans hcan.2.2.1)
  | took sid roomId old token loads ousts =>
    have hsid : s ≠ sid := by
      rintro rfl
      exact Option.some_ne_none r (hr.symm.trans hcan.2.2.1)
    have hroomId : r ≠ roomId := fun heq => habout (congrArg some heq.symm)
    cases ousts with
    | false =>
      have hgrant := tokenOf_grant hsid ho.free hs hplays roomId
      cases loads <;> exact hgrant
    | true =>
      have hold : s ∉ [old] := by
        rw [List.mem_singleton]
        rintro rfl
        obtain ⟨-, -, -, hcan⟩ := hcan
        cases loads with
        | none =>
          obtain ⟨hall, -, ⟨x, -, -, -, hiff⟩, -⟩ := hcan
          exact hroomId (Option.some.inj (hroom.symm.trans (hiff.mp rfl).2))
        | some hall =>
          obtain ⟨-, -, -, -, x, -, -, -, hiff⟩ := hcan
          exact hroomId (Option.some.inj (hroom.symm.trans (hiff.mp rfl).2))
      have hgrant := tokenOf_grant (p := (p.exit [old]).revoke [old]) hsid ho.free hs
        (by
          change (p.exit [old]).roomOf s ≠ none
          rw [roomOf_exit, if_neg hold]
          exact hplays) roomId
      have hkept := hgrant.trans (tokenOf_revoke hold)
      cases loads <;> exact hkept
  | expelled roomId id running =>
    have hid : s ∉ [id] := by
      rw [List.mem_singleton]
      rintro rfl
      exact habout (congrArg some (ho hs r hr).symm)
    have hout : ((p.exit [id]).revoke [id]).Tokened := (h.exit [id]).revoke [id] fun s hs _ => by
      rw [roomOf_exit, if_pos hs]
    have hdrop := (hout.modifyHall roomId
      (if running then Hall.flag id else Hall.unseat id)).tokenOf_dropIf hs (by
        change (p.exit [id]).roomOf s ≠ none
        rw [roomOf_exit, if_neg hid]
        exact hplays) roomId fun h => h.humans = [] ∨ (h.isAsync = false ∧ h.hasConnected = false)
    exact hdrop.trans (tokenOf_revoke hid)
  | disbanded roomId =>
    exact h.tokenOf_disband hs hr (fun heq => habout (congrArg some heq.symm)) ho (by simp)
  | closed roomId => exact h.tokenOf_drop hs hplays roomId
  | _ => rfl

end Presence

/-! ## Runs of orderly steps -/

/-- A step that keeps the tokens in order. -/
abbrev Orderly (st : Server) (i : Env × Event) : Prop := st.presence.Ordered (st.deed i)

/-- The tables of the tokens are inverse to each other. -/
def Inverse (st : Server) : Prop :=
  ∀ s t, st.sidToToken.lookup s = some t ↔
    ∃ info, st.reconnectTokens.lookup t = some info ∧ info.sid = s

/-- Everybody who plays has a token. -/
def Equipped (st : Server) : Prop :=
  ∀ s, s ∉ st.closed → (st.roomForPlayer s).isSome = true → (st.sidToToken.lookup s).isSome = true

theorem tokened_of_orderly {st : Server} (h : ReachableBy Orderly st) :
    st.presence.Tokened ∧ st.presence.Timed := by
  refine presence_invariant (P := fun p => p.Tokened ∧ p.Timed) (Q := Orderly) (fun p hp => ?_)
    (fun st i ha hP hs hcan hQ => ?_) h
  · refine ⟨⟨fun s t => ?_, fun s r _ hr => ?_, fun t a ha => ?_, fun t a ha => ?_⟩, .of_vacant hp⟩
    · simp [hp.tokenOf, hp.holder]
    · rw [hp.roomOf] at hr
      cases hr
    · rw [hp.away] at ha
      cases ha
    · rw [hp.away] at ha
      cases ha
  · exact ⟨hP.1.act hP.2 hcan hQ, hP.2.act hcan ha.sane.fresh_hall⟩

/-- **The tokens of orderly runs**: the tables are inverse to each other, everybody who plays has
a token, and an event about another room leaves it alone. -/
theorem tokens_of_orderly {st : Server} (h : ReachableBy Orderly st) :
    st.Inverse ∧ st.Equipped ∧
      ∀ i s r room, Orderly st i → s ∉ st.closed → st.roomForPlayer s = some (r, room) →
        st.presence.about (st.deed i) ≠ some r →
          (st.step i).sidToToken.lookup s = st.sidToToken.lookup s := by
  obtain ⟨htokened, htimed⟩ := tokened_of_orderly h
  refine ⟨fun s t => ?_, fun s hs hroom => ?_, fun i s r room hi hs hroom habout => ?_⟩
  · refine (htokened.inverse s t).trans ⟨?_, ?_⟩
    · rintro ⟨r, hr⟩
      obtain ⟨info, hinfo, heq⟩ := Option.map_eq_some_iff.mp hr
      exact ⟨info, hinfo, congrArg Prod.snd heq⟩
    · rintro ⟨info, hinfo, rfl⟩
      exact ⟨info.roomId, by simp [presence, hinfo]⟩
  · obtain ⟨⟨r, room⟩, hroom⟩ := Option.isSome_iff_exists.mp hroom
    exact htokened.owned s r hs (Presence.isSome_of_placed (placed_of_roomForPlayer hroom).1).1
  · have ha : st.Archive := Reaches.archive h
    have hacts := acts_of_archive ha i
    have hspared := htokened.spared hacts.can hi hs (placed_of_roomForPlayer hroom).1 habout
    rw [← hacts.does.presence] at hspared
    exact hspared

/-! ## Orderly events -/

section Events

variable {st : Server} {env : Env} {s : Sid}

/-- Nothing comes of the message of a broken connection. -/
theorem orderly_message {message : Message} (h : st.presence.Ordered (st.messageDeed env s message)) :
    Orderly st (env, .message s message) := by
  by_cases hs : s.1 ∈ st.closed
  · rw [Orderly, show st.deed (env, .message s message) = .nothing from if_pos hs]
    trivial
  · rwa [Orderly, show st.deed (env, .message s message) = st.messageDeed env s message from if_neg hs]

theorem orderly_setName (name : String) (auth : AuthInfo) :
    Orderly st (env, .message s (.setName name auth)) := orderly_message trivial

theorem orderly_disconnect : Orderly st (env, .disconnect s) := by
  unfold Orderly deed
  dsimp only
  split
  · trivial
  · cases (st.leaveSpectate s).breakOf s <;> trivial

/-- A connection without a token takes a new one. -/
theorem takes_of_none {token : Token} (hnone : st.sidToToken.lookup s.1 = none)
    (hnew : st.reconnectTokens.lookup token = none) : st.presence.Takes s token where
  own t ht := absurd (hnone.symm.trans ht) (by simp)
  free r s' hholder := by
    obtain ⟨info, hinfo, -⟩ := Option.map_eq_some_iff.mp hholder
    exact absurd (hnew.symm.trans hinfo) (by simp)

theorem orderly_createRoom (options : RoomOptions) (hnone : st.sidToToken.lookup s.1 = none)
    (hnew : st.reconnectTokens.lookup (st.tokenFor (st.playerAuth.lookup s.1)) = none) :
    Orderly st (env, .message s (.createRoom options)) := by
  refine orderly_message ?_
  rw [messageDeed, openedDeed]
  split
  · exact takes_of_none hnone hnew
  · trivial

theorem orderly_joinRoom {roomId : RoomId} {byCode : Bool}
    (hwaiting : (st.rooms.lookup roomId).all (fun room => !room.game.started) = true)
    (hnone : st.sidToToken.lookup s.1 = none)
    (hnew : st.reconnectTokens.lookup (st.tokenFor (st.playerAuth.lookup s.1)) = none) :
    Orderly st (env, .message s (.joinRoom roomId byCode)) := by
  refine orderly_message ?_
  rw [messageDeed, joinDeed]
  cases hjoin : st.joinOf s roomId byCode with
  | refused => trivial
  | late old => exact absurd hjoin (joinOf_ne_late hwaiting old)
  | seat => exact takes_of_none hnone hnew

theorem orderly_leaveRoom
    (howner : ∀ e ∈ st.roomForPlayer s, e.2.owner = some s.1 → e.2.isRunning = false) :
    Orderly st (env, .message s .leaveRoom) := by
  refine orderly_message ?_
  rw [messageDeed]
  cases hleave : st.leaveOf s with
  | disbanded r => exact absurd hleave (leaveOf_ne_disbanded howner r)
  | _ => trivial

/-- A connection without a token comes back with that of a seat that was left. -/
theorem orderly_rejoinRoom {token : Token} {banned : Bool} (hreleases : st.releases token = false)
    (hnone : st.sidToToken.lookup s.1 = none) :
    Orderly st (env, .message s (.rejoinRoom token banned)) := by
  refine orderly_message ?_
  rw [messageDeed, rejoinDeed, hreleases]
  repeat' split
  all_goals first
    | trivial
    | exact fun t ht => absurd (hnone.symm.trans ht) (by simp)

/-- To leave is about the room that is left. -/
theorem about_leaveRoom (hs : s.1 ∉ st.closed) :
    st.presence.about (st.deed (env, .message s .leaveRoom)) = (st.leaveOf s).departure.roomId := by
  rw [show st.deed (env, .message s .leaveRoom) =
    .departed s (st.leaveOf s).departure false false from if_neg hs]
  rfl

end Events

/-- A third player. -/
def cili : Sid := ⟨"c", by decide⟩

/-- A guest joins the room of another one, breaks and comes back with a new connection; a third
guest opens a room. -/
def cameBackToo : List Event :=
  [.message anna (.setName "Anna" .guest), .message bela (.setName "Béla" .guest),
   .message anna (.createRoom casual), .message bela (.joinRoom 0 false), .disconnect bela,
   .message belaToo (.rejoinRoom (.guest 1) false), .message cili (.createRoom casual)]

/-- The token of the third guest is still there when the second one leaves. -/
theorem cameBackToo_tokens :
    (lifeOf cameBackToo).Inverse ∧ (lifeOf cameBackToo).Equipped ∧
      ((lifeOf cameBackToo).step (Game.stillEnv, .message belaToo .leaveRoom)).sidToToken.lookup
          cili.1 = (lifeOf cameBackToo).sidToToken.lookup cili.1 := by
  have hreach : ReachableBy Orderly (lifeOf cameBackToo) :=
    ⟨start Db.empty, cameBackToo.map fun e => (Game.stillEnv, e), ⟨Db.empty, .new, rfl⟩,
      ⟨orderly_setName .., orderly_setName ..,
        orderly_createRoom _ (by decide +kernel) (by decide +kernel),
        orderly_joinRoom (by decide +kernel) (by decide +kernel) (by decide +kernel),
        orderly_disconnect, orderly_rejoinRoom (by decide +kernel) (by decide +kernel),
        orderly_createRoom _ (by decide +kernel) (by decide +kernel), trivial⟩, rfl⟩
  obtain ⟨hinverse, hequipped, hother⟩ := tokens_of_orderly hreach
  obtain ⟨⟨r, room⟩, hroom⟩ := Option.isSome_iff_exists.mp
    (show ((lifeOf cameBackToo).roomForPlayer cili).isSome = true by decide +kernel)
  have hr : ((lifeOf cameBackToo).roomForPlayer cili).map Prod.fst = some 1 := by decide +kernel
  rw [hroom] at hr
  obtain rfl : r = 1 := Option.some.inj hr
  refine ⟨hinverse, hequipped, hother _ cili.1 1 room (orderly_leaveRoom (by decide +kernel))
    (by decide +kernel) hroom ?_⟩
  rw [about_leaveRoom (by decide +kernel),
    show ((lifeOf cameBackToo).leaveOf belaToo).departure.roomId = some 0 by decide +kernel]
  simp

/-- Another connection of the first player. -/
def annaToo : Sid := ⟨"a2", by decide⟩

def registered : AuthInfo := ⟨some 1, false⟩

/-- A guest leaves a running game and opens a room. -/
def twoTokens : List Event :=
  [.message anna (.setName "Anna" .guest), .message bela (.setName "Béla" .guest),
   .message anna (.createRoom casual), .message bela (.joinRoom 0 false), .message anna .startGame,
   .message bela .leaveRoom, .message bela (.createRoom casual)]

/-- A registered user opens a room in each of two tabs. -/
def twoTabs : List Event :=
  [.message anna (.setName "Anna" registered), .message anna (.createRoom casual),
   .message annaToo (.setName "Anna" registered), .message annaToo (.createRoom casual)]

/-- **Tokens lost.** Two tokens name the guest, and the end of the old room takes the one of the
new room; the second tab takes the token of the first one. -/
theorem tokens_lost :
    (¬ ∀ st, Reachable st → st.Inverse) ∧ (¬ ∀ st, Reachable st → st.Equipped) ∧
      ¬ ∀ st, Reachable st → ∀ i s r room, s ∉ st.closed → st.roomForPlayer s = some (r, room) →
        st.presence.about (st.deed i) ≠ some r →
          (st.step i).sidToToken.lookup s = st.sidToToken.lookup s := by
  refine ⟨fun h => ?_, fun h => ?_, fun h => ?_⟩
  · have hguest := (h _ (reachable_lifeOf twoTokens) bela.1 (.guest 1)).mpr
      ⟨((lifeOf twoTokens).reconnectTokens.lookup (.guest 1)).get (by decide +kernel),
        by simp, by decide +kernel⟩
    revert hguest
    decide +kernel
  · have htoken := h _ (reachable_lifeOf twoTabs) anna.1 (by decide +kernel) (by decide +kernel)
    revert htoken
    decide +kernel
  · obtain ⟨⟨r, room⟩, hroom⟩ := Option.isSome_iff_exists.mp
      (show ((lifeOf twoTokens).roomForPlayer bela).isSome = true by decide +kernel)
    have hr : ((lifeOf twoTokens).roomForPlayer bela).map Prod.fst = some 1 := by decide +kernel
    rw [hroom] at hr
    obtain rfl : r = 1 := Option.some.inj hr
    have hsame := h _ (reachable_lifeOf twoTokens) (Game.stillEnv, .message anna .leaveRoom) bela.1 1
      room (by decide +kernel) hroom (by decide +kernel)
    revert hsame
    decide +kernel

end Server

end ScrabbleMagyar
