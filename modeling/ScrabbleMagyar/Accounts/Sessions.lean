import ScrabbleMagyar.Accounts.Site
import ScrabbleMagyar.Foundations.Since

/-!
# Sessions

Where a session comes from, and what it has survived. A row of the table is opened by one step, and
every step leaves it as it is, renews one of its times, or ends it (`session_step`); so what is read
from a row tells of the past of the run.

What is done for a request is said with the number of the request (`InRequest`), so that a check can
be told from one that was made for another request.
-/

namespace ScrabbleMagyar.Accounts

open Admin Past
open Codes (emailKey stamp parseStamp expiryAfter)

variable (cfg : Config)

/-! ## Events -/

/-- A request comes in under a number. -/
def Call.Begins (k : ℕ) : Call → Prop
  | requestCode k' _ | register k' _ _ _ | login k' _ _ | admin k' _ _ _ => k' = k
  | _ => False

/-- A step of the request that has a number now: no other has come in under it since. -/
def InRequest (k : ℕ) (P : List Input → Input → Prop) : List Input → Prop :=
  Since P fun _ i => ¬i.2.Begins k

/-- A registration opens an account. -/
def Enrolled (k userId : ℕ) (a : Applicant) (l : List Input) (i : Input) : Prop :=
  i.2 = .advance k ∧ (after cfg l).tasks.lookup k = some (.insert a) ∧
    ((after cfg l).insertUser cfg i.1 a).isSome = true ∧ (after cfg l).nextUser = userId

/-- A login lets someone in who gives the password of an account that is neither banned nor
deleted. -/
def LoggedIn (k userId : ℕ) (l : List Input) (i : Input) : Prop :=
  ∃ email password u, i.2 = .login k email password ∧
    (after cfg l).verifyPassword cfg (cfg.unicode.lowercase (trim email)) password = .ok u ∧
    u.ban i.1.now = none ∧ u.id = userId

/-- A request opens a session. -/
def Opened (k : ℕ) (r : Session) (l : List Input) (i : Input) : Prop :=
  ∃ email message, i.2 = .advance k ∧
    (after cfg l).tasks.lookup k = some (.openSession email r.userId message) ∧
    ((after cfg l).createSession i.1 r.userId).isSome = true ∧ r.id = (after cfg l).nextSession ∧
    r.token = i.1.token ∧ r.expiresAt = stamp (i.1.now + sessionMaxAgeDays * 24 * 3600 * 10 ^ 9)

/-- The sessions that a deed ends. -/
def Deed.Ends (s : Site) (q : Request) (r : Session) : Deed → Prop
  | resetPassword userId | logoutAll userId | ban userId _ | deleteUser userId _ _ =>
    r.userId = userId
  | revokeSession sessionId => r.id = sessionId
  | revokeAllSessions => r.token ≠ q.token
  | closeOtherAdminSessions => r.token ≠ q.token ∧ s.ofAdmin cfg r = true
  | _ => False

/-- A request to the panel carries out a deed. -/
def Performed (k : ℕ) (q : Request) (d : Deed) (l : List Input) (i : Input) : Prop :=
  ∃ rest, i.2 = .advance k ∧ (after cfg l).tasks.lookup k = some (.carryOut q) ∧
    q.deeds = d :: rest ∧ ∃ s', (after cfg l).perform cfg i.1 q d = .ok s'

/-- A step ends a session: its user logs out, or an administrator ends it. -/
def Ended (r : Session) (l : List Input) (i : Input) : Prop :=
  i.2 = .logout r.token ∧ r.token ≠ [] ∨
    ∃ k q d, Performed cfg k q d l i ∧ d.Ends cfg (after cfg l) q r

/-- A step writes down that an administrator was at work: with the password that opened the session
or confirms it, or with a request in a session that was not idle. -/
def Seen (token : Word) (l : List Input) (i : Input) : Prop :=
  (∃ k message, i.2 = .advance k ∧
    (after cfg l).tasks.lookup k = some (.touchOpened token message)) ∨
  (∃ k q, i.2 = .advance k ∧ (after cfg l).tasks.lookup k = some (.touch q) ∧ q.token = token) ∨
  ∃ k q d, Performed cfg k q d l i ∧ q.token = token ∧
    (d = .sudoEnd ∨ ∃ password, d = .reauth password ∨ d = .sudoStart password)

/-- A request confirms the session of an administrator. -/
def Granted (k : ℕ) (q : Request) (l : List Input) (i : Input) : Prop :=
  ∃ password, Performed cfg k q (.sudoStart password) l i

/-- A step takes the confirmation of a session back. -/
def Lowered (token : Word) (l : List Input) (i : Input) : Prop :=
  ∃ k q d, Performed cfg k q d l i ∧ q.token = token ∧
    (d = .sudoEnd ∨ ∃ password, d = .reauth password)

/-! ## What a deed does -/

variable {cfg} {s s' : Site} {env : Env} {q : Request} {d : Deed} {r r' : Session} {userId : ℕ}
  {reason : Option Word} {l : List Input} {i : Input}

theorem of_bind_ok {ε α β : Type} {x : Except ε α} {f : α → Except ε β} {b : β}
    (h : (x >>= f) = .ok b) : ∃ a, x = .ok a ∧ f a = .ok b := by
  cases x with
  | error e => cases h
  | ok a => exact ⟨a, rfl, h⟩

theorem of_error_else {ε α : Type} {p : Prop} [Decidable p] {e : ε} {x : Except ε α} {a : α}
    (h : (if p then .error e else x) = .ok a) : ¬p ∧ x = .ok a := by
  split at h
  · cases h
  · exact ⟨‹_›, h⟩

namespace Site

theorem of_rename {name : Option Word} (h : s.rename cfg userId name reason = .ok s') :
    ∃ name', s' = s.modifyUser userId fun u => { u with displayName := name' } := by
  unfold rename at h
  split at h
  · cases h
  obtain ⟨-, -, h⟩ := of_bind_ok h
  obtain ⟨u, -, h⟩ := of_bind_ok h
  obtain ⟨-, h⟩ := of_error_else h
  cases h
  exact ⟨_, rfl⟩

theorem of_changeEmail {newEmail : Option Word}
    (h : s.changeEmail cfg userId newEmail reason = .ok s') :
    let email := (newEmail.map trim).getD []
    cfg.adminEmails.contains (cfg.unicode.lowercase email) = false ∧
      s' = s.modifyUser userId fun u =>
        { u with email := email, emailLower := cfg.unicode.lowercase email } := by
  unfold changeEmail at h
  dsimp only at h
  obtain ⟨-, h⟩ := of_error_else h
  obtain ⟨hadmin, h⟩ := of_error_else h
  obtain ⟨-, -, h⟩ := of_bind_ok h
  obtain ⟨u, -, h⟩ := of_bind_ok h
  obtain ⟨-, h⟩ := of_error_else h
  obtain ⟨-, h⟩ := of_error_else h
  cases h
  exact ⟨by simpa using hadmin, rfl⟩

theorem of_resetPassword (h : s.resetPassword cfg env userId reason = .ok s') :
    s' = (s.modifyUser userId fun u =>
      { u with
        passwordHash := Password.generatePasswordHash cfg.kdf env.salt env.password }).deleteSessions
        fun r => r.userId = userId := by
  unfold resetPassword at h
  obtain ⟨-, -, h⟩ := of_bind_ok h
  obtain ⟨u, -, h⟩ := of_bind_ok h
  cases h
  rfl

theorem of_logoutAll (h : s.logoutAll cfg userId reason = .ok s') :
    s' = s.deleteSessions fun r => r.userId = userId := by
  unfold logoutAll at h
  obtain ⟨-, -, h⟩ := of_bind_ok h
  obtain ⟨u, -, h⟩ := of_bind_ok h
  cases h
  rfl

theorem of_ban {expires : Option Json} (h : s.ban cfg env.now userId expires reason = .ok s') :
    ∃ moment text, s' = (s.modifyUser userId fun u =>
      { u with bannedUntil := some moment, banReason := some text }).deleteSessions fun r =>
        r.userId = userId := by
  unfold ban at h
  obtain ⟨moment, -, h⟩ := of_bind_ok h
  obtain ⟨text, -, h⟩ := of_bind_ok h
  obtain ⟨u, -, h⟩ := of_bind_ok h
  cases h
  exact ⟨moment, text, rfl⟩

theorem of_unban (h : s.unban userId reason = .ok s') :
    s' = s.modifyUser userId fun u => { u with bannedUntil := none, banReason := none } := by
  unfold unban at h
  obtain ⟨-, -, h⟩ := of_bind_ok h
  obtain ⟨u, -, h⟩ := of_bind_ok h
  obtain ⟨-, h⟩ := of_error_else h
  cases h
  rfl

theorem of_deleteUser {mode : Option Json} {confirmName : Option Word}
    (h : s.deleteUser cfg env.now userId mode confirmName reason = .ok s') :
    s' = { s.deleteSessions (fun r => r.userId = userId) with
        users := s.users.filter fun u => u.id ≠ userId } ∨
      s' = (s.deleteSessions fun r => r.userId = userId).modifyUser userId (anonymized env.now) := by
  unfold deleteUser at h
  obtain ⟨deletes, -, h⟩ := of_bind_ok h
  obtain ⟨-, -, h⟩ := of_bind_ok h
  obtain ⟨u, -, h⟩ := of_bind_ok h
  dsimp only at h
  obtain ⟨-, h⟩ := of_error_else h
  split at h
  · cases h
    exact .inl rfl
  · obtain ⟨-, h⟩ := of_error_else h
    cases h
    exact .inr rfl

theorem of_revokeSession {sessionId : ℕ} {token : Word}
    (h : s.revokeSession sessionId reason token = .ok s') :
    s' = s.deleteSessions fun r => r.id = sessionId := by
  unfold revokeSession at h
  obtain ⟨-, -, h⟩ := of_bind_ok h
  split at h
  · cases h
  · obtain ⟨-, h⟩ := of_error_else h
    cases h
    rfl

theorem of_revokeAllSessions {token : Word} (h : s.revokeAllSessions token reason = .ok s') :
    s' = s.deleteSessions fun r => r.token ≠ token := by
  unfold revokeAllSessions at h
  obtain ⟨-, -, h⟩ := of_bind_ok h
  cases h
  rfl

theorem of_closeOtherAdminSessions {token : Word}
    (h : s.closeOtherAdminSessions cfg token reason = .ok s') :
    s' = s.deleteSessions fun r => r.token ≠ token ∧ s.ofAdmin cfg r := by
  unfold closeOtherAdminSessions at h
  split at h
  · rename_i hempty
    cases h
    -- there is no administrator whose session could be closed
    have hnone (r : Session) : s.ofAdmin cfg r = false := by
      simp [ofAdmin, List.isEmpty_iff.mp hempty]
    simp [deleteSessions, hnone]
  · obtain ⟨-, -, h⟩ := of_bind_ok h
    cases h
    rfl

end Site

/-- What a deed in a session writes down in its row. -/
def Deed.mark (cfg : Config) (now : ℤ) (r : Session) : Deed → Session
  | reauth _ | sudoEnd => { r with adminSeenAt := some (stamp now), sudoUntil := none }
  | sudoStart _ =>
    { r with adminSeenAt := some (stamp now), sudoUntil := some (expiryAfter now cfg.sudoMinutes) }
  | _ => r

namespace Site

theorem mem_modifySessions {p : Session → Bool} {f : Session → Session}
    (h : r' ∈ (s.modifySessions p f).sessions) :
    ∃ r ∈ s.sessions, r' = if p r then f r else r := by
  obtain ⟨r, hr, rfl⟩ := List.mem_map.mp h
  exact ⟨r, hr, rfl⟩

theorem mem_deleteSessions {p : Session → Bool} :
    r ∈ (s.deleteSessions p).sessions ↔ r ∈ s.sessions ∧ p r = false := by
  rw [deleteSessions, List.mem_filter, Bool.not_eq_true']

/-- The sessions after a deed are those that it does not end, with what it writes down. -/
theorem mem_perform (h : s.perform cfg env q d = .ok s') (hr : r' ∈ s'.sessions) :
    ∃ r ∈ s.sessions, ¬d.Ends cfg s q r ∧
      r' = if r.token = q.token then d.mark cfg env.now r else r := by
  have hdeleted {p : Session → Bool} {s₀ : Site} (hs₀ : s₀.sessions = s.sessions)
      (hr : r' ∈ (s₀.deleteSessions p).sessions) : r' ∈ s.sessions ∧ p r' = false := by
    rwa [mem_deleteSessions, hs₀] at hr
  cases d with
  | reauth _ | sudoStart _ | sudoEnd =>
    cases h
    obtain ⟨r, hmem, rfl⟩ := mem_modifySessions hr
    exact ⟨r, hmem, fun h => h, by simp [Deed.mark]⟩
  | rename userId name =>
    obtain ⟨name', rfl⟩ := of_rename h
    exact ⟨r', hr, fun h => h, (ite_self _).symm⟩
  | changeEmail userId email =>
    obtain ⟨-, rfl⟩ := of_changeEmail h
    exact ⟨r', hr, fun h => h, (ite_self _).symm⟩
  | resetPassword userId =>
    obtain rfl := of_resetPassword h
    obtain ⟨hr, hp⟩ := hdeleted (by rfl) hr
    exact ⟨r', hr, by simpa [Deed.Ends] using hp, (ite_self _).symm⟩
  | logoutAll userId =>
    obtain rfl := of_logoutAll h
    obtain ⟨hr, hp⟩ := hdeleted rfl hr
    exact ⟨r', hr, by simpa [Deed.Ends] using hp, (ite_self _).symm⟩
  | ban userId expires =>
    obtain ⟨moment, text, rfl⟩ := of_ban h
    obtain ⟨hr, hp⟩ := hdeleted (by rfl) hr
    exact ⟨r', hr, by simpa [Deed.Ends] using hp, (ite_self _).symm⟩
  | unban userId =>
    obtain rfl := of_unban h
    exact ⟨r', hr, fun h => h, (ite_self _).symm⟩
  | deleteUser userId mode confirmName =>
    have hr : r' ∈ (s.deleteSessions fun r => r.userId = userId).sessions := by
      obtain rfl | rfl := of_deleteUser h <;> exact hr
    obtain ⟨hr, hp⟩ := hdeleted rfl hr
    exact ⟨r', hr, by simpa [Deed.Ends] using hp, (ite_self _).symm⟩
  | revokeSession sessionId =>
    obtain rfl := of_revokeSession h
    obtain ⟨hr, hp⟩ := hdeleted rfl hr
    exact ⟨r', hr, by simpa [Deed.Ends] using hp, (ite_self _).symm⟩
  | revokeAllSessions =>
    obtain rfl := of_revokeAllSessions h
    obtain ⟨hr, hp⟩ := hdeleted rfl hr
    exact ⟨r', hr, by simpa [Deed.Ends] using hp, (ite_self _).symm⟩
  | closeOtherAdminSessions =>
    obtain rfl := of_closeOtherAdminSessions h
    obtain ⟨hr, hp⟩ := hdeleted rfl hr
    exact ⟨r', hr, by simpa [Deed.Ends] using hp, (ite_self _).symm⟩
  | other level exempt =>
    cases h
    exact ⟨r', hr, fun h => h, (ite_self _).symm⟩

/-! ## What a step does to the sessions -/

theorem of_createSession (h : s.createSession env userId = some s') :
    (∀ r ∈ s.sessions, r.token ≠ env.token) ∧ (s.userById userId).isSome = true ∧
      s' = { s with
        sessions := s.sessions ++
          [{ id := s.nextSession, userId := userId, token := env.token,
             expiresAt := stamp (env.now + sessionMaxAgeDays * 24 * 3600 * 10 ^ 9),
             lastSeen := some (stamp env.now), adminSeenAt := none, sudoUntil := none }]
        nextSession := s.nextSession + 1 } := by
  unfold createSession at h
  split at h
  · cases h
  · rename_i hfree
    rw [Bool.or_eq_true, not_or, List.any_eq_true] at hfree
    cases h
    refine ⟨fun r hr heq => hfree.1 ⟨r, hr, by simpa using heq⟩, ?_, rfl⟩
    simpa [Option.isSome_iff_ne_none] using hfree.2

theorem of_insertUser {a : Applicant} (h : s.insertUser cfg env a = some s') :
    (∀ u ∈ s.users, u.emailLower ≠ emailKey cfg.unicode.lowercase a.email) ∧
      s' = { s with
        users := s.users ++
          [{ id := s.nextUser, email := trim a.email,
             emailLower := emailKey cfg.unicode.lowercase a.email, displayName := trim a.name,
             passwordHash := Password.generatePasswordHash cfg.kdf env.salt a.password,
             bannedUntil := none, banReason := none, deletedAt := none }]
        nextUser := s.nextUser + 1 } := by
  unfold insertUser at h
  dsimp only at h
  split at h
  · cases h
  · rename_i hfree
    cases h
    refine ⟨fun u hu heq => hfree (List.any_eq_true.mpr ⟨u, hu, ?_⟩), rfl⟩
    exact decide_eq_true heq

/-- To ask who is there deletes at most the session that is over, and may renew its time. -/
theorem mem_validateSession {now : ℤ} {token : Word}
    (h : r' ∈ (s.validateSession now token).1.sessions) :
    ∃ r ∈ s.sessions, r' = { r with lastSeen := r'.lastSeen } := by
  unfold validateSession at h
  split at h
  · exact ⟨r', h, rfl⟩
  split at h
  · exact ⟨r', h, rfl⟩
  split_ifs at h
  · exact ⟨r', (mem_deleteSessions.mp h).1, rfl⟩
  · exact ⟨r', h, rfl⟩
  · obtain ⟨r, hr, heq⟩ := mem_modifySessions h
    refine ⟨r, hr, ?_⟩
    split at heq <;> rw [heq]
  · exact ⟨r', h, rfl⟩

/-- Who is there has a session that is not over, and an account that is neither banned nor
deleted. -/
theorem of_validateSession {now : ℤ} {token : Word} {u : User}
    (h : (s.validateSession now token).2 = some u) :
    ∃ r, s.sessionOf token = some r ∧ s.userById r.userId = some u ∧
      now ≤ parseStamp r.expiresAt ∧ u.deletedAt = none ∧ u.ban now = none := by
  unfold validateSession at h
  split at h
  · cases h
  rename_i r hr
  split at h
  · cases h
  rename_i v hv
  split_ifs at h with hover hout hstale
  all_goals
    cases h
    rw [Bool.or_eq_true, not_or, Option.not_isSome_iff_eq_none, Option.not_isSome_iff_eq_none] at hout
    exact ⟨r, hr, hv, not_lt.mp hover, hout⟩

end Site

/-- What a step leaves of a session: its owner, its token and its end, and times that are as they
were or have just been written down. -/
structure Carries (cfg : Config) (l : List Input) (i : Input) (r r' : Session) : Prop where
  id : r'.id = r.id
  userId : r'.userId = r.userId
  token : r'.token = r.token
  expiresAt : r'.expiresAt = r.expiresAt
  kept : ¬Ended cfg r l i
  seen : ∀ t, r'.adminSeenAt = some t →
    r.adminSeenAt = some t ∨ Seen cfg r.token l i ∧ t = stamp i.1.now
  confirmed : ∀ t, r'.sudoUntil = some t →
    r.sudoUntil = some t ∧ ¬Lowered cfg r.token l i ∨
      ∃ k q, Granted cfg k q l i ∧ q.token = r.token ∧ t = expiryAfter i.1.now cfg.sudoMinutes

/-- A step that carries out no deed is no event of a session, but for a logout. -/
theorem Carries.of_quiet (hperf : ∀ k q d, ¬Performed cfg k q d l i)
    (hlogout : i.2 = .logout r.token → r.token = []) {seen : Option ℤ} :
    Carries cfg l i r { r with lastSeen := seen } where
  id := rfl
  userId := rfl
  token := rfl
  expiresAt := rfl
  kept := by
    rintro (⟨h, hne⟩ | ⟨k, q, d, h, -⟩)
    · exact hne (hlogout h)
    · exact hperf k q d h
  seen := fun t ht => .inl ht
  confirmed := fun t ht => .inl ⟨ht, fun ⟨k, q, d, h, _⟩ => hperf k q d h⟩

theorem Performed.task {k k' : ℕ} (h : Performed cfg k' q d l i) (hi : i.2 = .advance k) :
    k' = k ∧ (after cfg l).tasks.lookup k = some (.carryOut q) := by
  obtain ⟨-, hk, htask, -⟩ := h
  obtain rfl : k' = k := by simpa using hk.symm.trans hi
  exact ⟨rfl, htask⟩

/-- A step carries out one deed at most. -/
theorem Performed.unique {k k' : ℕ} {q' : Request} {d' : Deed} (h : Performed cfg k q d l i)
    (h' : Performed cfg k' q' d' l i) : q' = q ∧ d' = d := by
  obtain ⟨rest, hk, htask, hdeeds, -⟩ := h
  obtain rfl : q' = q := Task.carryOut.inj (Option.some.inj ((h'.task hk).2.symm.trans htask))
  obtain ⟨rest', -, -, hdeeds', -⟩ := h'
  exact ⟨rfl, (List.cons.inj (hdeeds'.symm.trans hdeeds)).1⟩

/-- A deed leaves of a session that it does not end what it was, but for its mark on the session of
the request. -/
theorem Carries.of_performed {k : ℕ} (hperf : Performed cfg k q d l (env, .advance k))
    (hkept : ¬d.Ends cfg (after cfg l) q r) :
    Carries cfg l (env, .advance k) r
      (if r.token = q.token then d.mark cfg env.now r else r) := by
  have hended : ¬Ended cfg r l (env, .advance k) := by
    rintro (⟨hlog, -⟩ | ⟨k', q', d', h', hends⟩)
    · cases hlog
    · obtain ⟨rfl, rfl⟩ := hperf.unique h'
      exact hkept hends
  by_cases htoken : r.token = q.token
  · rw [if_pos htoken]
    have hplain (hmark : d.mark cfg env.now r = r) (hd : d ≠ .sudoEnd)
        (hd' : ∀ password, d ≠ .reauth password) :
        Carries cfg l (env, .advance k) r (d.mark cfg env.now r) := by
      rw [hmark]
      refine ⟨rfl, rfl, rfl, rfl, hended, fun t ht => .inl ht, fun t ht => .inl ⟨ht, ?_⟩⟩
      rintro ⟨k', q', d', h', -, rfl | ⟨password, rfl⟩⟩
      · exact hd (hperf.unique h').2.symm
      · exact hd' password (hperf.unique h').2.symm
    have hseen (hd : d = .sudoEnd ∨ ∃ password, d = .reauth password ∨ d = .sudoStart password)
        (t : ℤ) (ht : some (stamp env.now) = some t) :
        r.adminSeenAt = some t ∨ Seen cfg r.token l (env, .advance k) ∧ t = stamp env.now :=
      .inr ⟨.inr (.inr ⟨k, q, d, hperf, htoken.symm, hd⟩), (Option.some.inj ht).symm⟩
    cases d with
    | reauth password =>
      exact ⟨rfl, rfl, rfl, rfl, hended, hseen (.inr ⟨password, .inl rfl⟩), fun t ht => by cases ht⟩
    | sudoStart password =>
      refine ⟨rfl, rfl, rfl, rfl, hended, hseen (.inr ⟨password, .inr rfl⟩), fun t ht => .inr ?_⟩
      exact ⟨k, q, ⟨password, hperf⟩, htoken.symm, (Option.some.inj ht).symm⟩
    | sudoEnd => exact ⟨rfl, rfl, rfl, rfl, hended, hseen (.inl rfl), fun t ht => by cases ht⟩
    | _ => exact hplain rfl (by simp) (by simp)
  · rw [if_neg htoken]
    refine ⟨rfl, rfl, rfl, rfl, hended, fun t ht => .inl ht, fun t ht => .inl ⟨ht, ?_⟩⟩
    rintro ⟨k', q', d', h', heq, -⟩
    exact htoken (heq.symm.trans (congrArg Request.token (hperf.unique h').1))

/-- What carrying out the next deed of a request does to the sessions. -/
theorem session_carryOut {k : ℕ} (htask : (after cfg l).tasks.lookup k = some (.carryOut q))
    (h : r' ∈ (next cfg env (after cfg l) (.carryOut q)).1.sessions) :
    ∃ r ∈ (after cfg l).sessions, Carries cfg l (env, .advance k) r r' := by
  have hown {k' : ℕ} {q' : Request} {d' : Deed}
      (hperf : Performed cfg k' q' d' l (env, .advance k)) : q' = q :=
    Task.carryOut.inj (Option.some.inj ((hperf.task rfl).2.symm.trans htask))
  dsimp only [next] at h
  split at h
  · rename_i hnil
    refine ⟨r', h, .of_quiet (fun k' q' d' hperf => ?_) (by simp)⟩
    obtain rfl := hown hperf
    obtain ⟨rest, -, -, hdeeds, -⟩ := hperf
    simp [hnil] at hdeeds
  rename_i d rest hdeeds
  split at h
  · rename_i e herror
    refine ⟨r', h, .of_quiet (fun k' q' d' hperf => ?_) (by simp)⟩
    obtain rfl := hown hperf
    obtain ⟨rest', -, -, hdeeds', s', hs'⟩ := hperf
    obtain rfl : d = d' := (List.cons.inj (hdeeds.symm.trans hdeeds')).1
    rw [herror] at hs'
    cases hs'
  · rename_i s' hs'
    obtain ⟨r, hr, hkept, rfl⟩ := Site.mem_perform hs' h
    exact ⟨r, hr, .of_performed ⟨rest, rfl, htask, hdeeds, s', hs'⟩ hkept⟩

/-- What the next transaction of a request does to the sessions. -/
theorem session_next {k : ℕ} {t : Task} (htask : (after cfg l).tasks.lookup k = some t)
    (h : r' ∈ (next cfg env (after cfg l) t).1.sessions) :
    (Opened cfg k r' l (env, .advance k) ∧ r'.adminSeenAt = none ∧ r'.sudoUntil = none ∧
        ∀ r ∈ (after cfg l).sessions, r.token ≠ r'.token) ∨
      ∃ r ∈ (after cfg l).sessions, Carries cfg l (env, .advance k) r r' := by
  have hquiet (hne : ∀ q, t ≠ .carryOut q) (k' : ℕ) (q : Request) (d : Deed) :
      ¬Performed cfg k' q d l (env, .advance k) := fun hperf =>
    hne q (Option.some.inj (htask.symm.trans (hperf.task rfl).2))
  have hsame (hne : ∀ q, t ≠ .carryOut q) (h : r' ∈ (after cfg l).sessions) :
      ∃ r ∈ (after cfg l).sessions, Carries cfg l (env, .advance k) r r' :=
    ⟨r', h, .of_quiet (hquiet hne) (by simp)⟩
  have htouched {token : Word} (hne : ∀ q, t ≠ .carryOut q)
      (hseen : Seen cfg token l (env, .advance k))
      (h : r' ∈ ((after cfg l).touchAdminSession env.now token).sessions) :
      ∃ r ∈ (after cfg l).sessions, Carries cfg l (env, .advance k) r r' := by
    obtain ⟨r, hr, rfl⟩ := Site.mem_modifySessions h
    refine ⟨r, hr, ?_⟩
    have hcarries : Carries cfg l (env, .advance k) r r := .of_quiet (hquiet hne) (by simp)
    split
    · rename_i htoken
      obtain rfl : r.token = token := by simpa using htoken
      refine { hcarries with seen := fun t ht => .inr ⟨hseen, ?_⟩ }
      simpa using ht.symm
    · exact hcarries
  cases t with
  | createCode email => exact .inr (hsame (by simp) h)
  | isVerified a => exact .inr (hsame (by simp) h)
  | isFree a => exact .inr (hsame (by simp) h)
  | insert a =>
    refine .inr (hsame (by simp) ?_)
    dsimp only [next] at h
    split at h
    · exact h
    · rename_i s' hs'
      obtain ⟨-, rfl⟩ := Site.of_insertUser hs'
      exact h
  | clear email userId => exact .inr (hsame (by simp) h)
  | openSession email userId message =>
    dsimp only [next] at h
    split at h
    · exact .inr (hsame (by simp) h)
    · rename_i s' hs'
      obtain ⟨hfresh, -, rfl⟩ := Site.of_createSession hs'
      rcases List.mem_append.mp h with h | h
      · exact .inr (hsame (by simp) h)
      · obtain rfl := List.mem_singleton.mp h
        exact .inl ⟨⟨email, message, rfl, htask, by rw [hs']; rfl, rfl, rfl, rfl⟩, rfl, rfl, hfresh⟩
  | touchOpened token message =>
    exact .inr (htouched (by simp) (.inl ⟨k, message, rfl, htask⟩) h)
  | idle q => exact .inr (hsame (by simp) h)
  | touch q => exact .inr (htouched (by simp) (.inr (.inl ⟨k, q, rfl, htask, rfl⟩)) h)
  | sudoActive q => exact .inr (hsame (by simp) h)
  | password q password => exact .inr (hsame (by simp) h)
  | carryOut q => exact .inr (session_carryOut htask h)

/-- **What a step does to the sessions**: it opens one, or it leaves of each what it was. -/
theorem session_step (h : r' ∈ (step cfg (after cfg l) i).sessions) :
    (∃ k, Opened cfg k r' l i) ∧ r'.adminSeenAt = none ∧ r'.sudoUntil = none ∧
        (∀ r ∈ (after cfg l).sessions, r.token ≠ r'.token) ∨
      ∃ r ∈ (after cfg l).sessions, Carries cfg l i r r' := by
  obtain ⟨env, call⟩ := i
  have hquiet (hadv : ∀ k, call ≠ .advance k) (k : ℕ) (q : Request) (d : Deed) :
      ¬Performed cfg k q d l (env, call) := fun ⟨_, hk, _⟩ => hadv k hk
  have hsame (hadv : ∀ k, call ≠ .advance k) (hlog : ∀ token, call ≠ .logout token)
      (h : r' ∈ (after cfg l).sessions) :
      ∃ r ∈ (after cfg l).sessions, Carries cfg l (env, call) r r' :=
    ⟨r', h, .of_quiet (hquiet hadv) fun heq => absurd heq (hlog _)⟩
  have hvalid {token : Word} (hadv : ∀ k, call ≠ .advance k) (hlog : ∀ token, call ≠ .logout token)
      (h : r' ∈ ((after cfg l).validateSession env.now token).1.sessions) :
      ∃ r ∈ (after cfg l).sessions, Carries cfg l (env, call) r r' := by
    obtain ⟨r, hr, heq⟩ := Site.mem_validateSession h
    rw [heq]
    exact ⟨r, hr, .of_quiet (hquiet hadv) fun heq => absurd heq (hlog _)⟩
  cases call with
  | requestCode k email =>
    rw [step, Site.sessions_settle] at h
    exact .inr (hsame (by simp) (by simp) h)
  | verifyCode email code =>
    refine .inr (hsame (by simp) (by simp) ?_)
    change r' ∈ (verifyCode cfg env (after cfg l) email code).1.sessions at h
    rwa [verifyCode_fst] at h
  | register k email password displayName =>
    rw [step, Site.sessions_settle] at h
    exact .inr (hsame (by simp) (by simp) h)
  | login k email password =>
    rw [step, Site.sessions_settle] at h
    exact .inr (hsame (by simp) (by simp) h)
  | logout token =>
    refine .inr ⟨r', ?_, .of_quiet (hquiet (by simp)) fun heq => ?_⟩
    · change r' ∈ ((after cfg l).deleteSession token).sessions at h
      unfold Site.deleteSession at h
      split at h
      · exact h
      · exact (Site.mem_deleteSessions.mp h).1
    · obtain rfl : token = r'.token := by simpa using heq
      change r' ∈ ((after cfg l).deleteSession r'.token).sessions at h
      unfold Site.deleteSession at h
      split at h
      · rename_i hempty
        exact List.isEmpty_iff.mp hempty
      · simpa using (Site.mem_deleteSessions.mp h).2
  | authenticate token => exact .inr (hvalid (by simp) (by simp) h)
  | admin k token deeds reason =>
    refine .inr ?_
    change r' ∈ ((guard cfg env (after cfg l) token deeds reason).1.settle k _).sessions at h
    rw [Site.sessions_settle, guard_fst] at h
    split at h
    · exact hsame (by simp) (by simp) h
    · exact hvalid (by simp) (by simp) h
  | advance k =>
    cases htask : (after cfg l).tasks.lookup k with
    | none =>
      rw [step_advance_of_none cfg htask] at h
      refine .inr ⟨r', h, .of_quiet (fun k' q d hperf => ?_) (by simp)⟩
      exact absurd (hperf.task rfl).2 (by simp [htask])
    | some t =>
      rw [step_advance cfg htask, Site.sessions_settle] at h
      obtain ⟨hopened, hrest⟩ | hcarries := session_next htask h
      · exact .inl ⟨⟨k, hopened⟩, hrest⟩
      · exact .inr hcarries
  | cleanup =>
    refine .inr (hsame (by simp) (by simp) ?_)
    exact (Site.mem_deleteSessions.mp h).1

end ScrabbleMagyar.Accounts
