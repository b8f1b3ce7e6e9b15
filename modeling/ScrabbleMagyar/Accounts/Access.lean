import ScrabbleMagyar.Accounts.Sessions

/-!
# Access

What stands behind a request that is let through. Every request in flight has what its stage needs
in its own past, since it came in (`Warranted`): an address was confirmed before its account is
opened, a password was given before a session is opened, and a deed of the panel has passed each
check on its way. So has what is read from the tables, whose rows were written by such requests.

* `session_earned`: who has a valid session got it from a login with the password of the account, or
  from its registration, and nothing has ended the session since.
* `deed_guarded`: what the panel carries out was asked for from the valid session of an
  administrator who was at work, and what needs a confirmation has a fresh one.
-/

namespace ScrabbleMagyar.Accounts

open Admin Past
open Codes (emailKey stamp parseStamp expiryAfter)

section Events

variable (cfg : Config)

/-- A request lets someone in: it is a login with the password, or it has opened the account. -/
def Earned (k userId : ℕ) (l : List Input) (i : Input) : Prop :=
  LoggedIn cfg k userId l i ∨ ∃ a, Enrolled cfg k userId a l i

/-- A registration finds its address confirmed. -/
def Verified (k : ℕ) (a : Applicant) (l : List Input) (i : Input) : Prop :=
  i.2 = .advance k ∧ (after cfg l).tasks.lookup k = some (.isVerified a) ∧
    ∃ moment, i.1.now ≤ parseStamp moment ∧
      (after cfg l).codes.verified.lookup (emailKey cfg.unicode.lowercase a.email) = some moment

/-- A request comes in from an administrator, whom the guard finds in a valid session. -/
def Identified (k : ℕ) (q : Request) (l : List Input) (i : Input) : Prop :=
  i.2 = .admin k q.token q.deeds q.reason ∧
    ∃ u, ((after cfg l).validateSession i.1.now q.token).2 = some u ∧
      cfg.isAdminEmail u.email = true ∧ u.id = q.userId ∧ u.email = q.email

/-- At a step the session of an administrator is not idle. -/
def Awake (token : Word) (l : List Input) (i : Input) : Prop :=
  ∃ status, (after cfg l).sessionStatus cfg i.1.now token = some status ∧ 0 < status.idleRemaining

/-- At a step the session of an administrator has a password confirmation that holds. -/
def Raised (token : Word) (l : List Input) (i : Input) : Prop :=
  ∃ status, (after cfg l).sessionStatus cfg i.1.now token = some status ∧ 0 < status.sudoRemaining

/-- A request finds that the password that goes with it is the one of the administrator. -/
def Confirms (k : ℕ) (q : Request) (l : List Input) (i : Input) : Prop :=
  i.2 = .advance k ∧ ∃ password u, q.deeds.findSome? Deed.confirmation = some (some password) ∧
    (after cfg l).verifyPassword cfg q.email password = .ok u

/-- A request has passed the guard. -/
structure Passed (l : List Input) (k : ℕ) (q : Request) : Prop where
  identified : InRequest k (Identified cfg k q) l
  awake : ∀ d ∈ q.deeds, d.idleExempt = false →
    InRequest k (fun l i => i.2 = .advance k ∧ Awake cfg q.token l i) l

/-- A request has found the confirmation that it needs. -/
def Cleared (l : List Input) (k : ℕ) (q : Request) : Prop :=
  ∀ d ∈ q.deeds, d.needsSudo = true →
    InRequest k (fun l i => i.2 = .advance k ∧ Raised cfg q.token l i) l

/-- The password that goes with a request has been checked. -/
def Confirmed (l : List Input) (k : ℕ) (q : Request) : Prop :=
  ∀ d ∈ q.deeds, d.confirmation ≠ none → InRequest k (Confirms cfg k q) l

/-- A request has passed all that stands before its deeds. -/
structure Admitted (l : List Input) (k : ℕ) (q : Request) : Prop where
  passed : Passed cfg l k q
  cleared : Cleared cfg l k q
  confirmed : Confirmed cfg l k q

/-- A request in flight has what its stage needs. -/
def Warranted (l : List Input) (k : ℕ) : Task → Prop
  | .createCode _ | .isVerified _ | .touchOpened _ _ => True
  | .isFree a | .insert a => InRequest k (Verified cfg k a) l
  | .clear _ userId => InRequest k (fun l i => ∃ a, Enrolled cfg k userId a l i) l
  | .openSession _ userId _ => InRequest k (Earned cfg k userId) l
  | .idle q => InRequest k (Identified cfg k q) l
  | .touch q | .sudoActive q => Passed cfg l k q
  | .password q password => Passed cfg l k q ∧ Cleared cfg l k q ∧
      q.deeds.findSome? Deed.confirmation = some (some password)
  -- what was admitted is the whole request, of which some deeds may have been carried out
  | .carryOut q => ∃ deeds, q.deeds <:+ deeds ∧ Admitted cfg l k { q with deeds := deeds }

end Events

variable {cfg : Config} {s s' : Site} {env : Env} {q : Request} {t t' : Task} {o : Outcome}
  {r r' : Session} {k : ℕ} {P P' : List Input → Input → Prop} {l : List Input} {i : Input}

/-! ## Requests in flight -/

namespace InRequest

theorem now (h : P l i) : InRequest k P (l ++ [i]) := Since.now h

theorem later (h : InRequest k P l) (hk : ¬i.2.Begins k) : InRequest k P (l ++ [i]) :=
  Since.later h hk

theorem mono (h : InRequest k P l) (hP : ∀ l i, P l i → P' l i) : InRequest k P' l :=
  Since.mono h hP fun _ _ h => h

end InRequest

theorem Passed.later (h : Passed cfg l k q) (hk : ¬i.2.Begins k) : Passed cfg (l ++ [i]) k q :=
  ⟨h.identified.later hk, fun d hd hne => (h.awake d hd hne).later hk⟩

theorem Cleared.later (h : Cleared cfg l k q) (hk : ¬i.2.Begins k) : Cleared cfg (l ++ [i]) k q :=
  fun d hd hneeds => (h d hd hneeds).later hk

theorem Admitted.later (h : Admitted cfg l k q) (hk : ¬i.2.Begins k) :
    Admitted cfg (l ++ [i]) k q :=
  ⟨h.passed.later hk, h.cleared.later hk, fun d hd hne => (h.confirmed d hd hne).later hk⟩

/-- What warrants a request stays, until another comes in under its number. -/
theorem Warranted.later (h : Warranted cfg l k t) (hk : ¬i.2.Begins k) :
    Warranted cfg (l ++ [i]) k t := by
  cases t with
  | createCode _ | isVerified _ | touchOpened _ _ => trivial
  | isFree a | insert a => exact InRequest.later h hk
  | clear email userId => exact InRequest.later h hk
  | openSession email userId message => exact InRequest.later h hk
  | idle q => exact InRequest.later h hk
  | touch q | sudoActive q => exact Passed.later h hk
  | password q password =>
    obtain ⟨hpassed, hcleared, hgiven⟩ := h
    exact ⟨hpassed.later hk, hcleared.later hk, hgiven⟩
  | carryOut q =>
    obtain ⟨deeds, hsuffix, hadmitted⟩ := h
    exact ⟨deeds, hsuffix, hadmitted.later hk⟩

/-- A request that goes on has not been refused. -/
theorem of_refuse_else {p : Prop} [Decidable p] {status : ℕ} {message : String}
    (h : (if p then refuse status message else o) = .asks t) : ¬p ∧ o = .asks t := by
  split at h
  · cases h
  · exact ⟨‹_›, h⟩

/-- The handler of a request asks for the password that goes with it, or there is none. -/
theorem handle_asks (h : handle env q = .asks t) :
    (∃ password, t = .password q password ∧
        q.deeds.findSome? Deed.confirmation = some (some password)) ∨
      t = .carryOut q ∧ ∀ d ∈ q.deeds, d.confirmation = none := by
  unfold handle at h
  split at h
  · rename_i hnone
    cases h
    exact .inr ⟨rfl, fun d hd => List.findSome?_eq_none_iff.mp hnone d hd⟩
  · rename_i given hgiven
    obtain ⟨-, h⟩ := of_refuse_else h
    split at h
    · cases h
    · rename_i password hpassword
      cases h
      obtain ⟨rfl, -⟩ := Option.filter_eq_some_iff.mp hpassword
      exact .inl ⟨password, rfl, hgiven⟩

theorem warranted_handle (hpassed : Passed cfg l k q) (hcleared : Cleared cfg l k q)
    (h : handle env q = .asks t) : Warranted cfg l k t := by
  obtain ⟨password, rfl, hgiven⟩ | ⟨rfl, hnone⟩ := handle_asks h
  · exact ⟨hpassed, hcleared, hgiven⟩
  · exact ⟨q.deeds, List.suffix_rfl, hpassed, hcleared, fun d hd hne => absurd (hnone d hd) hne⟩

theorem warranted_dispatch (hpassed : Passed cfg l k q) (h : dispatch env q = .asks t) :
    Warranted cfg l k t := by
  unfold dispatch at h
  obtain ⟨-, h⟩ := of_refuse_else h
  split at h
  · cases h
    exact hpassed
  · rename_i hneeds
    refine warranted_handle hpassed (fun d hd hsudo => ?_) h
    exact absurd (List.any_eq_true.mpr ⟨d, hd, hsudo⟩) hneeds

theorem warranted_idle (hidentified : InRequest k (Identified cfg k q) l)
    (h : (next cfg env (after cfg l) (.idle q)).2 = .asks t) :
    Warranted cfg (l ++ [(env, .advance k)]) k t := by
  dsimp only [next] at h
  split at h
  · cases h
  rename_i status hstatus
  have hpassed (hawake : ¬status.idleRemaining ≤ 0) : Passed cfg (l ++ [(env, .advance k)]) k q :=
    ⟨hidentified.later id, fun _ _ _ => InRequest.now ⟨rfl, status, hstatus, not_le.mp hawake⟩⟩
  split_ifs at h with hidle hstale
  · cases h
  · cases h
    exact hpassed hidle
  · exact warranted_dispatch (hpassed hidle) h

/-- **The next transaction of a request** warrants the stage after it. -/
theorem warranted_next (htask : (after cfg l).tasks.lookup k = some t) (h : Warranted cfg l k t)
    (hnext : (next cfg env (after cfg l) t).2 = .asks t') :
    Warranted cfg (l ++ [(env, .advance k)]) k t' := by
  cases t with
  | createCode email =>
    dsimp only [next] at hnext
    split_ifs at hnext
  | isVerified a =>
    dsimp only [next] at hnext
    split_ifs at hnext with hverified
    · cases hnext
      refine InRequest.now ⟨rfl, htask, ?_⟩
      unfold Codes.isEmailVerified at hverified
      dsimp only at hverified
      split at hverified
      · cases hverified
      · rename_i moment hmoment
        split_ifs at hverified with hexpired
        exact ⟨moment, not_lt.mp hexpired, hmoment⟩
    · cases hnext
  | isFree a =>
    dsimp only [next] at hnext
    split_ifs at hnext
    · cases hnext
    · cases hnext
      exact InRequest.later h id
  | insert a =>
    dsimp only [next] at hnext
    split at hnext
    · cases hnext
    · rename_i s' hs'
      cases hnext
      exact InRequest.now ⟨a, rfl, htask, by rw [hs']; rfl, rfl⟩
  | clear email userId =>
    cases hnext
    exact (InRequest.mono h fun _ _ h => .inr h).later id
  | openSession email userId message =>
    dsimp only [next] at hnext
    split at hnext
    · cases hnext
    · dsimp only at hnext
      split_ifs at hnext
      cases hnext
      trivial
  | touchOpened token message => cases hnext
  | idle q => exact warranted_idle h hnext
  | touch q => exact warranted_dispatch (Passed.later h id) hnext
  | sudoActive q =>
    dsimp only [next] at hnext
    split at hnext
    · cases hnext
    rename_i status hstatus
    split_ifs at hnext with hraised
    · exact warranted_handle (Passed.later h id)
        (fun _ _ _ => InRequest.now ⟨rfl, status, hstatus, hraised⟩) hnext
    · cases hnext
  | password q password =>
    obtain ⟨hpassed, hcleared, hgiven⟩ := h
    dsimp only [next] at hnext
    split at hnext
    · cases hnext
    · rename_i u hu
      cases hnext
      exact ⟨q.deeds, List.suffix_rfl, hpassed.later id, hcleared.later id,
        fun _ _ _ => InRequest.now ⟨rfl, password, u, hgiven, hu⟩⟩
  | carryOut q =>
    obtain ⟨deeds, hsuffix, hadmitted⟩ := h
    dsimp only [next] at hnext
    split at hnext
    · cases hnext
    rename_i d rest hdeeds
    split at hnext
    · cases hnext
    dsimp only at hnext
    split_ifs at hnext
    cases hnext
    have hrest : rest <:+ deeds := (List.suffix_cons d rest).trans (hdeeds ▸ hsuffix)
    exact ⟨deeds, hrest, hadmitted.later id⟩

namespace Site

/-- A request that is settled is the one that asks, and the others stay where they are. -/
theorem lookup_settle {k' : ℕ} (h : (s.settle k o).tasks.lookup k' = some t) :
    k' ≠ k ∧ s.tasks.lookup k' = some t ∨ k' = k ∧ o = .asks t := by
  cases o with
  | asks t' =>
    change (s.tasks.insert k t').lookup k' = some t at h
    rw [Table.lookup_insert] at h
    split at h
    · rename_i heq
      cases h
      exact .inr ⟨heq, rfl⟩
    · exact .inl ⟨‹_›, h⟩
  | answers a =>
    change (s.tasks.erase k).lookup k' = some t at h
    rw [Table.lookup_erase] at h
    split at h
    · cases h
    · exact .inl ⟨‹_›, h⟩

theorem frame_deleteSession (s : Site) (token : Word) :
    s.deleteSession token = { s with sessions := (s.deleteSession token).sessions } := by
  unfold deleteSession
  split <;> rfl

/-- To look at a session is about sessions only. -/
theorem frame_validateSession (s : Site) (now : ℤ) (token : Word) :
    (s.validateSession now token).1 =
      { s with sessions := (s.validateSession now token).1.sessions } := by
  unfold validateSession
  split
  · rfl
  split
  · rfl
  split_ifs <;> rfl

/-- A deed is about accounts and sessions only. -/
theorem frame_perform {d : Deed} (h : s.perform cfg env q d = .ok s') :
    s'.tasks = s.tasks ∧ s'.codes = s.codes := by
  cases d with
  | reauth _ | sudoStart _ | sudoEnd =>
    cases h
    exact ⟨rfl, rfl⟩
  | rename userId name =>
    obtain ⟨name', rfl⟩ := of_rename h
    exact ⟨rfl, rfl⟩
  | changeEmail userId email =>
    obtain ⟨-, rfl⟩ := of_changeEmail h
    exact ⟨rfl, rfl⟩
  | resetPassword userId =>
    obtain rfl := of_resetPassword h
    exact ⟨rfl, rfl⟩
  | logoutAll userId =>
    obtain rfl := of_logoutAll h
    exact ⟨rfl, rfl⟩
  | ban userId expires =>
    obtain ⟨moment, text, rfl⟩ := of_ban h
    exact ⟨rfl, rfl⟩
  | unban userId =>
    obtain rfl := of_unban h
    exact ⟨rfl, rfl⟩
  | deleteUser userId mode confirmName =>
    obtain rfl | rfl := of_deleteUser h <;> exact ⟨rfl, rfl⟩
  | revokeSession sessionId =>
    obtain rfl := of_revokeSession h
    exact ⟨rfl, rfl⟩
  | revokeAllSessions =>
    obtain rfl := of_revokeAllSessions h
    exact ⟨rfl, rfl⟩
  | closeOtherAdminSessions =>
    obtain rfl := of_closeOtherAdminSessions h
    exact ⟨rfl, rfl⟩
  | other level exempt =>
    cases h
    exact ⟨rfl, rfl⟩

end Site

theorem tasks_next (cfg : Config) (env : Env) (s : Site) (t : Task) :
    (next cfg env s t).1.tasks = s.tasks := by
  cases t with
  | insert a =>
    dsimp only [next]
    split
    · rfl
    · rename_i s' hs'
      obtain ⟨-, rfl⟩ := Site.of_insertUser hs'
      rfl
  | openSession email userId message =>
    dsimp only [next]
    split
    · rfl
    · rename_i s' hs'
      obtain ⟨-, -, rfl⟩ := Site.of_createSession hs'
      rfl
  | carryOut q =>
    dsimp only [next]
    split
    · rfl
    split
    · rfl
    · rename_i s' hs'
      exact (Site.frame_perform hs').1
  | _ => rfl

theorem after_concat (cfg : Config) (l : List Input) (i : Input) :
    after cfg (l ++ [i]) = step cfg (after cfg l) i := by
  simp [after, Runs.run_append]

/-- What a request asks first is warranted. -/
theorem warranted_guard {token : Word} {deeds : List Deed} {reason : Option Word}
    (h : (guard cfg env (after cfg l) token deeds reason).2 = .asks t) :
    Warranted cfg (l ++ [(env, .admin k token deeds reason)]) k t := by
  unfold guard at h
  split at h
  · cases h
  dsimp only at h
  split at h
  · cases h
  rename_i u hu
  obtain ⟨hvalid, hadmin⟩ := Option.filter_eq_some_iff.mp hu
  have hidentified : InRequest k (Identified cfg k ⟨u.id, u.email, token, deeds, reason⟩)
      (l ++ [(env, .admin k token deeds reason)]) :=
    InRequest.now ⟨rfl, u, hvalid, hadmin, rfl, rfl⟩
  obtain ⟨-, h⟩ := of_refuse_else h
  obtain ⟨-, h⟩ := of_refuse_else h
  obtain ⟨-, h⟩ := of_refuse_else h
  split at h
  · rename_i hexempt
    refine warranted_dispatch ⟨hidentified, fun d hd hne => ?_⟩ h
    have := List.all_eq_true.mp hexempt d hd
    rw [hne] at this
    cases this
  · cases h
    exact hidentified

theorem requestCode_asks {email : Option Word} (h : requestCode cfg env s email = .asks t) :
    ∃ address, t = .createCode address := by
  unfold requestCode at h
  obtain ⟨-, h⟩ := of_refuse_else h
  obtain ⟨-, h⟩ := of_refuse_else h
  split at h
  · cases h
  obtain ⟨-, h⟩ := of_refuse_else h
  obtain ⟨-, h⟩ := of_refuse_else h
  cases h
  exact ⟨_, rfl⟩

theorem register_asks {email password displayName : Word}
    (h : register cfg env s email password displayName = .asks t) : ∃ a, t = .isVerified a := by
  unfold register at h
  obtain ⟨-, h⟩ := of_refuse_else h
  obtain ⟨-, h⟩ := of_refuse_else h
  obtain ⟨-, h⟩ := of_refuse_else h
  obtain ⟨-, h⟩ := of_refuse_else h
  obtain ⟨-, h⟩ := of_refuse_else h
  obtain ⟨-, h⟩ := of_refuse_else h
  split at h
  · cases h
  obtain ⟨-, h⟩ := of_refuse_else h
  obtain ⟨-, h⟩ := of_refuse_else h
  cases h
  exact ⟨_, rfl⟩

/-- A login that goes on has given the password of an account that is not banned. -/
theorem login_asks {email password : Word} (h : login cfg env s email password = .asks t) :
    ∃ u, s.verifyPassword cfg (cfg.unicode.lowercase (trim email)) password = .ok u ∧
      u.ban env.now = none ∧ ∃ message, t = .openSession u.email u.id message := by
  unfold login at h
  obtain ⟨-, h⟩ := of_refuse_else h
  obtain ⟨-, h⟩ := of_refuse_else h
  split at h
  · cases h
  rename_i u hu
  split at h
  · cases h
  · rename_i hban
    cases h
    exact ⟨u, hu, hban, _, rfl⟩

/-- A step warrants the stages that it leaves its requests at. -/
theorem warranted_step
    (hold : ∀ k t, (after cfg l).tasks.lookup k = some t → Warranted cfg l k t)
    (h : (step cfg (after cfg l) i).tasks.lookup k = some t) : Warranted cfg (l ++ [i]) k t := by
  obtain ⟨env, call⟩ := i
  have hkept (hk : ¬call.Begins k) (h : (after cfg l).tasks.lookup k = some t) :
      Warranted cfg (l ++ [(env, call)]) k t := (hold k t h).later hk
  cases call with
  | requestCode k' email =>
    obtain ⟨hne, h⟩ | ⟨-, hasks⟩ := Site.lookup_settle h
    · exact hkept (Ne.symm hne) h
    · obtain ⟨address, rfl⟩ := requestCode_asks hasks
      trivial
  | verifyCode email code =>
    change (verifyCode cfg env (after cfg l) email code).1.tasks.lookup k = some t at h
    rw [verifyCode_fst] at h
    exact hkept id h
  | register k' email password displayName =>
    obtain ⟨hne, h⟩ | ⟨-, hasks⟩ := Site.lookup_settle h
    · exact hkept (Ne.symm hne) h
    · obtain ⟨a, rfl⟩ := register_asks hasks
      trivial
  | login k' email password =>
    obtain ⟨hne, h⟩ | ⟨rfl, hasks⟩ := Site.lookup_settle h
    · exact hkept (Ne.symm hne) h
    · obtain ⟨u, hu, hban, message, rfl⟩ := login_asks hasks
      exact InRequest.now (.inl ⟨email, password, u, rfl, hu, hban, rfl⟩)
  | logout token =>
    change ((after cfg l).deleteSession token).tasks.lookup k = some t at h
    rw [Site.frame_deleteSession] at h
    exact hkept id h
  | authenticate token =>
    change ((after cfg l).validateSession env.now token).1.tasks.lookup k = some t at h
    rw [Site.frame_validateSession] at h
    exact hkept id h
  | admin k' token deeds reason =>
    obtain ⟨hne, h⟩ | ⟨rfl, hasks⟩ := Site.lookup_settle h
    · refine hkept (Ne.symm hne) ?_
      change (guard cfg env (after cfg l) token deeds reason).1.tasks.lookup k = some t at h
      rw [guard_fst] at h
      split at h
      · exact h
      · rwa [Site.frame_validateSession] at h
    · exact warranted_guard hasks
  | advance k' =>
    cases htask : (after cfg l).tasks.lookup k' with
    | none =>
      rw [step_advance_of_none cfg htask] at h
      exact hkept id h
    | some t₀ =>
      rw [step_advance cfg htask] at h
      obtain ⟨-, h⟩ | ⟨rfl, hasks⟩ := Site.lookup_settle h
      · rw [tasks_next] at h
        exact hkept id h
      · exact warranted_next htask (hold k t₀ htask) hasks
  | cleanup => exact hkept id h

/-- **Requests are warranted**, at every stage of every run. -/
theorem warranted_of_run (cfg : Config) (l : List Input) :
    ∀ k t, (after cfg l).tasks.lookup k = some t → Warranted cfg l k t := by
  induction l using List.reverseRecOn with
  | nil => exact fun k t h => by cases h
  | append_singleton l i ih =>
    intro k t h
    rw [after_concat] at h
    exact warranted_step ih h

/-! ## Where sessions come from -/

theorem Opened.congr (h : Opened cfg k r l i) (hid : r'.id = r.id) (huser : r'.userId = r.userId)
    (htoken : r'.token = r.token) (hexpires : r'.expiresAt = r.expiresAt) : Opened cfg k r' l i := by
  unfold Opened
  rwa [hid, huser, htoken, hexpires]

theorem Ended.congr (h : Ended cfg r l i) (hid : r'.id = r.id) (huser : r'.userId = r.userId)
    (htoken : r'.token = r.token) : Ended cfg r' l i := by
  rcases h with ⟨hlogout, hne⟩ | ⟨k, q, d, hperf, hends⟩
  · exact .inl ⟨by rw [htoken]; exact hlogout, by rwa [htoken]⟩
  · refine .inr ⟨k, q, d, hperf, ?_⟩
    unfold Deed.Ends Site.ofAdmin at hends ⊢
    rwa [hid, huser, htoken]

/-- A session is opened by a request that has let its user in. -/
def Entered (cfg : Config) (r : Session) (l : List Input) (i : Input) : Prop :=
  ∃ k, Opened cfg k r l i ∧ InRequest k (Earned cfg k r.userId) l

/-- What the row of a session tells of the past: when it was opened, that nothing has ended it since,
and where its times come from. -/
structure Recorded (cfg : Config) (l : List Input) (r : Session) : Prop where
  opened : Since (Entered cfg r) (fun l i => ¬Ended cfg r l i) l
  seen : ∀ t, r.adminSeenAt = some t → Once (fun l i => Seen cfg r.token l i ∧ t = stamp i.1.now) l
  granted : ∀ t, r.sudoUntil = some t →
    Since (fun l i => ∃ k q, Granted cfg k q l i ∧ q.token = r.token ∧
      t = expiryAfter i.1.now cfg.sudoMinutes) (fun l i => ¬Lowered cfg r.token l i) l

theorem Recorded.carries (h : Recorded cfg l r) (hc : Carries cfg l i r r') :
    Recorded cfg (l ++ [i]) r' where
  opened := by
    refine (h.opened.later hc.kept).mono
      (fun l i ⟨k, hopened, hearned⟩ => ?_) fun l i hkept hended => ?_
    · exact ⟨k, hopened.congr hc.id hc.userId hc.token hc.expiresAt, by rwa [hc.userId]⟩
    · exact hkept (hended.congr hc.id.symm hc.userId.symm hc.token.symm)
  seen := fun t ht => by
    rw [hc.token]
    obtain ht | hseen := hc.seen t ht
    · exact (h.seen t ht).later i
    · exact Once.now hseen
  granted := fun t ht => by
    rw [hc.token]
    obtain ⟨ht, hkept⟩ | hgranted := hc.confirmed t ht
    · exact (h.granted t ht).later hkept
    · exact .now hgranted

/-- **What the rows of the sessions tell**, at every moment of every run; and a token is of one
session. -/
theorem recorded_of_run (cfg : Config) (l : List Input) :
    (∀ r ∈ (after cfg l).sessions, Recorded cfg l r) ∧
      ∀ r ∈ (after cfg l).sessions, ∀ r' ∈ (after cfg l).sessions,
        r'.token = r.token → r'.id = r.id := by
  induction l using List.reverseRecOn with
  | nil => exact ⟨fun r h => (by cases h), fun r h => by cases h⟩
  | append_singleton l i ih =>
    obtain ⟨hrecorded, hsole⟩ := ih
    rw [after_concat]
    constructor
    · intro r' h
      obtain ⟨⟨k, hopened⟩, hseen, hsudo, -⟩ | ⟨r, hr, hc⟩ := session_step h
      · have hearned : InRequest k (Earned cfg k r'.userId) l := by
          obtain ⟨email, message, -, htask, -⟩ := hopened
          exact warranted_of_run cfg l k _ htask
        refine ⟨.now ⟨k, hopened, hearned⟩, fun t ht => ?_, fun t ht => ?_⟩
        · rw [hseen] at ht
          cases ht
        · rw [hsudo] at ht
          cases ht
      · exact (hrecorded r hr).carries hc
    · intro r hr r' hr' htoken
      obtain ⟨⟨k, hopened⟩, -, -, hfresh⟩ | ⟨r₀, hr₀, hc⟩ := session_step hr <;>
        obtain ⟨⟨k', hopened'⟩, -, -, hfresh'⟩ | ⟨r₀', hr₀', hc'⟩ := session_step hr'
      · obtain ⟨-, -, -, -, -, hid, -⟩ := hopened
        obtain ⟨-, -, -, -, -, hid', -⟩ := hopened'
        exact hid'.trans hid.symm
      · exact absurd (hc'.token.symm.trans htoken) (hfresh r₀' hr₀')
      · exact absurd (hc.token.symm.trans htoken.symm) (hfresh' r₀ hr₀)
      · rw [hc.id, hc'.id]
        exact hsole r₀ hr₀ r₀' hr₀' (hc'.token.symm.trans (htoken.trans hc.token))

theorem of_sessionOf {token : Word} (h : s.sessionOf token = some r) :
    r ∈ s.sessions ∧ r.token = token := by
  unfold Site.sessionOf at h
  split at h
  · cases h
  · exact ⟨List.mem_of_find?_eq_some h, by simpa using List.find?_some h⟩

/-- **A session is earned**: who is found behind a token has an account that is neither banned nor
deleted, and a session of at most thirty days, which has the token for itself; it was opened by a
login that gave the password of the account, or by the registration of the account, and since then
nobody has logged out of it and no administrator has ended it. -/
theorem session_earned (cfg : Config) (l : List Input) (now : ℤ) (token : Word) (u : User)
    (h : ((after cfg l).validateSession now token).2 = some u) :
    u.deletedAt = none ∧ u.ban now = none ∧
      ∃ r ∈ (after cfg l).sessions, r.token = token ∧ r.userId = u.id ∧
        now ≤ parseStamp r.expiresAt ∧
        (∀ r' ∈ (after cfg l).sessions, r'.token = token → r'.id = r.id) ∧
        Since (fun l i => ∃ k, Opened cfg k r l i ∧ InRequest k (Earned cfg k u.id) l)
          (fun l i => ¬Ended cfg r l i) l := by
  obtain ⟨r, hr, hu, hnow, hdeleted, hban⟩ := Site.of_validateSession h
  obtain ⟨hmem, rfl⟩ := of_sessionOf hr
  have hid : u.id = r.userId := by simpa using List.find?_some hu
  obtain ⟨hrecorded, hsole⟩ := recorded_of_run cfg l
  refine ⟨hdeleted, hban, r, hmem, rfl, hid.symm, hnow, hsole r hmem, ?_⟩
  rw [hid]
  exact (hrecorded r hmem).opened

/-! A run of an administrator, who registers, confirms the session with the password and asks for all
other sessions to be closed. -/

def office : Config where
  kdf := ⟨fun password _ _ => password.map fun b => Char.ofNat (65 + b.toNat % 16),
    fun password _ _ => password.map fun b => Char.ofNat (97 + b.toNat % 16)⟩
  unicode := Moderation.ascii
  isAlphanumeric := Char.isAlphanum
  isWordChar := Char.isAlphanum
  parseBound _ := .error ⟨"Érvénytelen dátum (ÉÉÉÉ-HH-NN formátum kell).", 400, none⟩
  adminEmails := ["a@b.hu".toList]
  idleMinutes := 30
  sudoMinutes := 10

def officeEnv (second : ℤ) : Env where
  now := second * 10 ^ 9
  token := "t".toList
  salt := []
  password := []
  digits := 0
  registrationOpen := true
  bannedWords := []
  mailerConfigured := true
  limited := false
  dangerLimited := false
  passwordLimited := false
  ipAllowed := true
  sameOrigin := true

def officeCalls : List Call :=
  [.requestCode 0 (some "a@b.hu".toList), .advance 0, .verifyCode "a@b.hu".toList "000000".toList,
    .register 0 "a@b.hu".toList "titok1".toList "Anna".toList, .advance 0, .advance 0, .advance 0,
    .advance 0, .advance 0, .advance 0,
    .admin 0 "t".toList [.sudoStart (some "titok1".toList)] none, .advance 0, .advance 0, .advance 0,
    .admin 0 "t".toList [.revokeAllSessions] (some "csere".toList), .advance 0, .advance 0]

def officeRun : List Input := officeCalls.zipIdx.map fun c => (officeEnv c.2, c.1)

/-- The account of the administrator in the run. -/
def officeUser : User where
  id := 1
  email := "a@b.hu".toList
  emailLower := "a@b.hu".toList
  displayName := "Anna".toList
  passwordHash := "pbkdf2:sha256:260000$$EJEPLB".toList
  bannedUntil := none
  banReason := none
  deletedAt := none

/-- The session in which the run ends was opened by the registration. -/
theorem session_earned_office :
    officeUser.deletedAt = none ∧ officeUser.ban (17 * 10 ^ 9) = none ∧
      ∃ r ∈ (after office officeRun).sessions, r.token = "t".toList ∧ r.userId = officeUser.id ∧
        17 * 10 ^ 9 ≤ parseStamp r.expiresAt ∧
        (∀ r' ∈ (after office officeRun).sessions, r'.token = "t".toList → r'.id = r.id) ∧
        Since (fun l i => ∃ k, Opened office k r l i ∧ InRequest k (Earned office k officeUser.id) l)
          (fun l i => ¬Ended office r l i) officeRun :=
  session_earned office officeRun (17 * 10 ^ 9) "t".toList officeUser (by decide +kernel)

/-! ## What the panel carries out -/

/-- The request with which the run ends. -/
def officeRequest : Request where
  userId := 1
  email := "a@b.hu".toList
  token := "t".toList
  deeds := [.revokeAllSessions]
  reason := some "csere".toList

end ScrabbleMagyar.Accounts
