import ScrabbleMagyar.Accounts.Access

/-!
# The addresses of administrators

Who registers with the address of an administrator becomes one, and the panel gives such an address
to nobody. So everything rests on the confirmation of the address, which is followed here through
the tables: an account is opened or continues (`user_step`), and an address stays confirmed or is
confirmed by a code (`verified_step`).

* `admin_confirmed`: the account of an administrator was opened by a registration that found its
  address confirmed, by a code that had been accepted.
-/

namespace ScrabbleMagyar.Accounts

open Admin Past
open Codes (emailKey parseStamp expiryAfter)

/-- A guess at the code of an address is accepted, which confirms the address until some time. -/
def Accepted (cfg : Config) (key : Word) (moment : ℤ) (l : List Input) (i : Input) : Prop :=
  ∃ email code, i.2 = .verifyCode email code ∧
    emailKey cfg.unicode.lowercase (cfg.unicode.lowercase (trim email)) = key ∧
    (Codes.verifyCode cfg.unicode.lowercase (after cfg l).codes i.1.now
      (cfg.unicode.lowercase (trim email)) (trim code)).2.1 = true ∧
    moment = expiryAfter i.1.now Codes.verifiedWindowMinutes

variable {cfg : Config} {s s' : Site} {env : Env} {q : Request} {t : Task} {k : ℕ} {l : List Input}
  {i : Input}

/-! ## Accounts -/

/-- What a step leaves of an account: its number, and its address, unless the account is deleted or
gets an address that is no administrator's. -/
def Continues (cfg : Config) (u u' : User) : Prop :=
  u'.id = u.id ∧ (u'.email = u.email ∧ u'.deletedAt = u.deletedAt ∨
    cfg.isAdminEmail u'.email = false ∨ u'.deletedAt ≠ none)

theorem Continues.refl (u : User) : Continues cfg u u := ⟨rfl, .inl ⟨rfl, rfl⟩⟩

namespace Site

theorem mem_modifyUser {userId : ℕ} {f : User → User} {u' : User}
    (h : u' ∈ (s.modifyUser userId f).users) : ∃ u ∈ s.users, u' = f u ∨ u' = u := by
  obtain ⟨u, hu, rfl⟩ := List.mem_map.mp h
  refine ⟨u, hu, ?_⟩
  split
  · exact .inl rfl
  · exact .inr rfl

/-- A deed leaves the addresses of administrators alone, and gives them to nobody. -/
theorem mem_users_perform {d : Deed} {u' : User} (h : s.perform cfg env q d = .ok s')
    (hu : u' ∈ s'.users) : ∃ u ∈ s.users, Continues cfg u u' := by
  have hmodified {userId : ℕ} {f : User → User} (hu : u' ∈ (s.modifyUser userId f).users)
      (hf : ∀ u, Continues cfg u (f u)) : ∃ u ∈ s.users, Continues cfg u u' := by
    obtain ⟨u, hmem, rfl | rfl⟩ := mem_modifyUser hu
    · exact ⟨u, hmem, hf u⟩
    · exact ⟨u', hmem, .refl u'⟩
  cases d with
  | reauth _ | sudoStart _ | sudoEnd =>
    cases h
    exact ⟨u', hu, .refl u'⟩
  | rename userId name =>
    obtain ⟨name', rfl⟩ := of_rename h
    exact hmodified hu fun u => ⟨rfl, .inl ⟨rfl, rfl⟩⟩
  | changeEmail userId email =>
    obtain ⟨hadmin, rfl⟩ := of_changeEmail h
    refine hmodified hu fun u => ⟨rfl, .inr (.inl ?_)⟩
    have htrim : trim ((email.map trim).getD []) = (email.map trim).getD [] := by
      cases email with
      | none => rfl
      | some text => exact trim_trim text
    rw [Config.isAdminEmail, htrim, hadmin, Bool.and_false]
  | resetPassword userId =>
    obtain rfl := of_resetPassword h
    exact hmodified hu fun u => ⟨rfl, .inl ⟨rfl, rfl⟩⟩
  | logoutAll userId =>
    obtain rfl := of_logoutAll h
    exact ⟨u', hu, .refl u'⟩
  | ban userId expires =>
    obtain ⟨moment, text, rfl⟩ := of_ban h
    exact hmodified hu fun u => ⟨rfl, .inl ⟨rfl, rfl⟩⟩
  | unban userId =>
    obtain rfl := of_unban h
    exact hmodified hu fun u => ⟨rfl, .inl ⟨rfl, rfl⟩⟩
  | deleteUser userId mode confirmName =>
    obtain rfl | rfl := of_deleteUser h
    · exact ⟨u', List.mem_of_mem_filter hu, .refl u'⟩
    · exact hmodified hu fun u => ⟨rfl, .inr (.inr (by simp [anonymized]))⟩
  | revokeSession sessionId =>
    obtain rfl := of_revokeSession h
    exact ⟨u', hu, .refl u'⟩
  | revokeAllSessions =>
    obtain rfl := of_revokeAllSessions h
    exact ⟨u', hu, .refl u'⟩
  | closeOtherAdminSessions =>
    obtain rfl := of_closeOtherAdminSessions h
    exact ⟨u', hu, .refl u'⟩
  | other level exempt =>
    cases h
    exact ⟨u', hu, .refl u'⟩

end Site

/-! ## Confirmed addresses -/

namespace Site

/-- A guess at a code confirms its address, or it leaves the confirmed addresses alone. -/
theorem verified_verifyCode (lowercase : Word → Word) (db : Codes.Store) (now : ℤ)
    (email code : Word) :
    (Codes.verifyCode lowercase db now email code).2.1 = true ∧
        (Codes.verifyCode lowercase db now email code).1.verified = db.verified.insert
          (emailKey lowercase email) (expiryAfter now Codes.verifiedWindowMinutes) ∨
      (Codes.verifyCode lowercase db now email code).1.verified = db.verified := by
  unfold Codes.verifyCode
  dsimp only
  split
  · exact .inr rfl
  split_ifs
  · exact .inr rfl
  · exact .inr rfl
  · exact .inr rfl
  · exact .inl ⟨rfl, rfl⟩

theorem lookup_isEmailVerified {lowercase : Word → Word} {db : Codes.Store} {now moment : ℤ}
    {email key : Word}
    (h : (Codes.isEmailVerified lowercase db now email).1.verified.lookup key = some moment) :
    db.verified.lookup key = some moment := by
  unfold Codes.isEmailVerified at h
  dsimp only at h
  split at h
  · exact h
  split_ifs at h
  · rw [Table.lookup_erase] at h
    split at h
    · cases h
    · exact h
  · exact h

end Site

/-- What the next transaction of a request does to the accounts: it opens one, or it leaves of each
what it was. -/
theorem user_next {u' : User} (htask : (after cfg l).tasks.lookup k = some t)
    (h : u' ∈ (next cfg env (after cfg l) t).1.users) :
    (∃ a, Enrolled cfg k u'.id a l (env, .advance k) ∧ u'.email = trim a.email) ∨
      ∃ u ∈ (after cfg l).users, Continues cfg u u' := by
  have hsame (h : u' ∈ (after cfg l).users) : ∃ u ∈ (after cfg l).users, Continues cfg u u' :=
    ⟨u', h, .refl u'⟩
  cases t with
  | insert a =>
    dsimp only [next] at h
    split at h
    · exact .inr (hsame h)
    · rename_i s' hs'
      obtain ⟨-, rfl⟩ := Site.of_insertUser hs'
      rcases List.mem_append.mp h with h | h
      · exact .inr (hsame h)
      · obtain rfl := List.mem_singleton.mp h
        exact .inl ⟨a, ⟨rfl, htask, by rw [hs']; rfl, rfl⟩, rfl⟩
  | openSession email userId message =>
    dsimp only [next] at h
    split at h
    · exact .inr (hsame h)
    · rename_i s' hs'
      obtain ⟨-, -, rfl⟩ := Site.of_createSession hs'
      exact .inr (hsame h)
  | carryOut q =>
    dsimp only [next] at h
    split at h
    · exact .inr (hsame h)
    split at h
    · exact .inr (hsame h)
    · rename_i s' hs'
      exact .inr (Site.mem_users_perform hs' h)
  | _ => exact .inr (hsame h)

/-- What the next transaction of a request does to the confirmed addresses: it may take some
away. -/
theorem verified_next {key : Word} {moment : ℤ}
    (h : (next cfg env s t).1.codes.verified.lookup key = some moment) :
    s.codes.verified.lookup key = some moment := by
  cases t with
  | isVerified a => exact Site.lookup_isEmailVerified h
  | insert a =>
    dsimp only [next] at h
    split at h
    · exact h
    · rename_i s' hs'
      obtain ⟨-, rfl⟩ := Site.of_insertUser hs'
      exact h
  | clear email userId =>
    change (s.codes.verified.erase _).lookup key = some moment at h
    rw [Table.lookup_erase] at h
    split at h
    · cases h
    · exact h
  | openSession email userId message =>
    dsimp only [next] at h
    split at h
    · exact h
    · rename_i s' hs'
      obtain ⟨-, -, rfl⟩ := Site.of_createSession hs'
      exact h
  | carryOut q =>
    dsimp only [next] at h
    split at h
    · exact h
    split at h
    · exact h
    · rename_i s' hs'
      rwa [(Site.frame_perform hs').2] at h
  | _ => exact h

/-- **What a step does to the accounts**. -/
theorem user_step {u' : User} (h : u' ∈ (step cfg (after cfg l) i).users) :
    (∃ k a, Enrolled cfg k u'.id a l i ∧ u'.email = trim a.email) ∨
      ∃ u ∈ (after cfg l).users, Continues cfg u u' := by
  obtain ⟨env, call⟩ := i
  have hsame (h : u' ∈ (after cfg l).users) : ∃ u ∈ (after cfg l).users, Continues cfg u u' :=
    ⟨u', h, .refl u'⟩
  cases call with
  | requestCode k email | register k email password displayName | login k email password =>
    rw [step, Site.users_settle] at h
    exact .inr (hsame h)
  | verifyCode email code =>
    change u' ∈ (verifyCode cfg env (after cfg l) email code).1.users at h
    rw [verifyCode_fst] at h
    exact .inr (hsame h)
  | logout token =>
    change u' ∈ ((after cfg l).deleteSession token).users at h
    rw [Site.frame_deleteSession] at h
    exact .inr (hsame h)
  | authenticate token =>
    change u' ∈ ((after cfg l).validateSession env.now token).1.users at h
    rw [Site.frame_validateSession] at h
    exact .inr (hsame h)
  | admin k token deeds reason =>
    change u' ∈ ((guard cfg env (after cfg l) token deeds reason).1.settle k _).users at h
    rw [Site.users_settle, guard_fst] at h
    refine .inr (hsame ?_)
    split at h
    · exact h
    · rwa [Site.frame_validateSession] at h
  | advance k =>
    cases htask : (after cfg l).tasks.lookup k with
    | none =>
      rw [step_advance_of_none cfg htask] at h
      exact .inr (hsame h)
    | some t =>
      rw [step_advance cfg htask, Site.users_settle] at h
      exact (user_next htask h).imp_left fun h => ⟨k, h⟩
  | cleanup => exact .inr (hsame h)

/-- **What a step does to the confirmed addresses**: one is confirmed by a code that is accepted. -/
theorem verified_step {key : Word} {moment : ℤ}
    (h : (step cfg (after cfg l) i).codes.verified.lookup key = some moment) :
    (after cfg l).codes.verified.lookup key = some moment ∨ Accepted cfg key moment l i := by
  obtain ⟨env, call⟩ := i
  cases call with
  | requestCode k email | register k email password displayName | login k email password =>
    rw [step, Site.codes_settle] at h
    exact .inl h
  | verifyCode email code =>
    change (verifyCode cfg env (after cfg l) email code).1.codes.verified.lookup key = some moment at h
    unfold verifyCode at h
    dsimp only at h
    split at h
    · exact .inl h
    split at h
    · exact .inl h
    dsimp only at h
    obtain ⟨haccepted, heq⟩ | heq := Site.verified_verifyCode cfg.unicode.lowercase (after cfg l).codes
      env.now (cfg.unicode.lowercase (trim email)) (trim code)
    · rw [heq, Table.lookup_insert] at h
      split at h
      · rename_i hkey
        exact .inr ⟨email, code, rfl, hkey.symm, haccepted, (Option.some.inj h).symm⟩
      · exact .inl h
    · rw [heq] at h
      exact .inl h
  | logout token =>
    change ((after cfg l).deleteSession token).codes.verified.lookup key = some moment at h
    rw [Site.frame_deleteSession] at h
    exact .inl h
  | authenticate token =>
    change ((after cfg l).validateSession env.now token).1.codes.verified.lookup key = some moment at h
    rw [Site.frame_validateSession] at h
    exact .inl h
  | admin k token deeds reason =>
    change ((guard cfg env (after cfg l) token deeds reason).1.settle k _).codes.verified.lookup key =
      some moment at h
    rw [Site.codes_settle, guard_fst] at h
    split at h
    · exact .inl h
    · rw [Site.frame_validateSession] at h
      exact .inl h
  | advance k =>
    cases htask : (after cfg l).tasks.lookup k with
    | none =>
      rw [step_advance_of_none cfg htask] at h
      exact .inl h
    | some t =>
      rw [step_advance cfg htask, Site.codes_settle] at h
      exact .inl (verified_next h)
  | cleanup =>
    change ((after cfg l).codes.verified.retain _).lookup key = some moment at h
    rw [Table.lookup_retain] at h
    exact .inl (Option.filter_eq_some_iff.mp h).1

theorem once_accepted_of_run (cfg : Config) (l : List Input) (key : Word) (moment : ℤ) :
    (after cfg l).codes.verified.lookup key = some moment → Once (Accepted cfg key moment) l := by
  induction l using List.reverseRecOn with
  | nil => exact fun h => by cases h
  | append_singleton l i ih =>
    intro h
    rw [after_concat] at h
    obtain h | h := verified_step h
    · exact (ih h).later i
    · exact Once.now h

theorem enrolled_of_run (cfg : Config) (l : List Input) : ∀ u ∈ (after cfg l).users,
    u.deletedAt = none → cfg.isAdminEmail u.email = true →
      ∃ a, trim a.email = u.email ∧ Once (fun l i => ∃ k, Enrolled cfg k u.id a l i) l := by
  induction l using List.reverseRecOn with
  | nil => exact fun u h => by cases h
  | append_singleton l i ih =>
    intro u' h hdeleted hadmin
    rw [after_concat] at h
    obtain ⟨k, a, henrolled, hemail⟩ | ⟨u, hu, hid, ⟨hemail, hdel⟩ | hother | hgone⟩ := user_step h
    · exact ⟨a, hemail.symm, Once.now ⟨k, henrolled⟩⟩
    · rw [hemail] at hadmin
      rw [hdel] at hdeleted
      obtain ⟨a, ha, hpast⟩ := ih u hu hdeleted hadmin
      rw [hid, hemail]
      exact ⟨a, ha, hpast.later i⟩
    · rw [hother] at hadmin
      cases hadmin
    · exact absurd hdeleted hgone

/-- **An administrator is who confirmed the address**: the account of an administrator whom the guard
finds was opened by a registration with that address, which had found the address confirmed, not
longer before than it stays so after the code that was sent there had been accepted. -/
theorem admin_confirmed (cfg : Config) (l : List Input) (i : Input) (k : ℕ) (q : Request)
    (h : Identified cfg k q l i) :
    ∃ a, trim a.email = q.email ∧
      Once (fun l j => ∃ k', Enrolled cfg k' q.userId a l j ∧
        InRequest k' (fun l j => j.2 = .advance k' ∧
          (after cfg l).tasks.lookup k' = some (.isVerified a) ∧
          ∃ moment, j.1.now ≤ parseStamp moment ∧
            Once (Accepted cfg (emailKey cfg.unicode.lowercase a.email) moment) l) l) l := by
  obtain ⟨-, u, hvalid, hadmin, hid, hemail⟩ := h
  obtain ⟨r, -, hu, -, hdeleted, -⟩ := Site.of_validateSession hvalid
  obtain ⟨a, ha, hpast⟩ := enrolled_of_run cfg l u (List.mem_of_find?_eq_some hu) hdeleted hadmin
  rw [hid] at hpast
  refine ⟨a, ha.trans hemail, hpast.mono fun l j ⟨k', henrolled⟩ => ⟨k', henrolled, ?_⟩⟩
  have hverified : InRequest k' (Verified cfg k' a) l := warranted_of_run cfg l k' _ henrolled.2.1
  refine hverified.mono fun l j ⟨hj, htask, moment, hnow, hlookup⟩ => ⟨hj, htask, moment, hnow, ?_⟩
  exact once_accepted_of_run cfg l _ moment hlookup

/-- The administrator of the run has confirmed the address. -/
theorem admin_confirmed_office : ∃ a, trim a.email = officeRequest.email ∧
    Once (fun l j => ∃ k', Enrolled office k' officeRequest.userId a l j ∧
      InRequest k' (fun l j => j.2 = .advance k' ∧
        (after office l).tasks.lookup k' = some (.isVerified a) ∧
        ∃ moment, j.1.now ≤ parseStamp moment ∧
          Once (Accepted office (emailKey office.unicode.lowercase a.email) moment) l) l)
      (officeRun.take 14) :=
  admin_confirmed office (officeRun.take 14)
    (officeEnv 14, .admin 0 "t".toList [.revokeAllSessions] (some "csere".toList)) 0 officeRequest
    ⟨rfl, officeUser, by decide +kernel, by decide +kernel, rfl, rfl⟩

end ScrabbleMagyar.Accounts
