import ScrabbleMagyar.Server.Online

/-!
# The rights of administrators

Who is told what only administrators are told: the connections that `isAdminSid` accepts, the
members of the socket room of the administrators, and those that follow a room
(`server/extras.rs`, `server/events.rs`). A connection belongs to an administrator from a
`set_name` or an `admin_subscribe` that has shown so until it logs out, breaks, or takes another
name (`Portal.identified`); a subscription that is refused changes nothing.

* `Portal.identified_of_discreet`: only connections of administrators are told anything in a run
  in which no connection with rights that outlast its account logs out or becomes somebody else.
* `Portal.rights_after_logout`: a connection that came with a token keeps its rights when it logs
  out.
-/

namespace ScrabbleMagyar

open Server

namespace Portal

open Runs

variable (isAdmin : UserId → Bool) (p : Portal)

/-- A connection follows a room. -/
def Watches (sid : String) : Prop := ∃ w ∈ p.adminWatchers, w.2 = sid

/-- A connection is told what administrators are told. -/
def Sees (sid : String) : Prop :=
  p.isAdminSid isAdmin sid = true ∨ sid ∈ p.adminRoom ∨ p.Watches sid

/-- A connection has rights that only its end takes away. -/
def Lasting (sid : String) : Prop := (p.adminSids.lookup sid).isSome = true ∨ p.Watches sid

instance (sid : String) : Decidable (p.Watches sid) := by
  unfold Watches
  infer_instance

instance (sid : String) : Decidable (p.Sees isAdmin sid) := by
  unfold Sees
  infer_instance

instance (sid : String) : Decidable (p.Lasting sid) := by
  unfold Lasting
  infer_instance

/-- What an event shows of a connection: that it belongs to an administrator, or that it does
not. -/
def shows (i : Event) (sid : String) : Option Bool :=
  match i with
  | .server (_, .message s message) =>
    if s.1 ≠ sid ∨ sid ∈ p.server.closed then none
    else match message with
      | .setName _ auth => some (auth.registeredId.any isAdmin)
      | .logout => some false
      | _ => none
  | .server (_, .disconnect s) =>
    if s.1 = sid ∧ sid ∉ p.server.closed then some false else none
  | .adminSubscribe s verified barred =>
    if s.1 = sid ∧ sid ∉ p.server.closed ∧
        (p.adminUserIdForSid isAdmin s verified barred).2.isSome = true then some true
    else none
  | _ => none

/-- Whether a connection belongs to an administrator after some events; `known` says whether it
did before. -/
def identifiedFrom (sid : String) : Bool → Portal → List Event → Bool
  | known, _, [] => known
  | known, p, i :: l =>
    identifiedFrom sid ((p.shows isAdmin i sid).getD known) (step isAdmin p i) l

/-- Whether a connection belongs to an administrator after the events of a run. -/
def identified (db : Db) (l : List Event) (sid : String) : Bool :=
  identifiedFrom isAdmin sid false (opened db) l

/-- A connection comes back with a token. -/
def Rejoins (i : Event) : Prop :=
  ∃ env sid token banned, i = .server (env, .message sid (.rejoinRoom token banned))

/-- No connection with lasting rights logs out or becomes somebody else, and none that is in the
room of the administrators becomes somebody else under the account it already has. -/
structure Discreet (i : Event) : Prop where
  logout : ∀ env (sid : Sid), i = .server (env, .message sid .logout) →
    sid.1 ∉ p.server.closed → ¬ p.Lasting sid
  setName : ∀ env (sid : Sid) name auth, i = .server (env, .message sid (.setName name auth)) →
    sid.1 ∉ p.server.closed → auth.registeredId.any isAdmin = false →
      ¬ p.Lasting sid ∧ (sid.1 ∈ p.adminRoom → p.sidToUserId.lookup sid.1 ≠ auth.userId)

variable {isAdmin p}

theorem identifiedFrom_append (sid : String) (known : Bool) (p : Portal) (l : List Event)
    (i : Event) :
    identifiedFrom isAdmin sid known p (l ++ [i]) =
      ((run (step isAdmin) p l).shows isAdmin i sid).getD
        (identifiedFrom isAdmin sid known p l) := by
  induction l generalizing known p with
  | nil => rfl
  | cons j l ih => exact ih _ _

/-! ## What an event does to the rights -/

/-- Rights that were there before. -/
theorem Sees.mono {q : Portal} {sid : String} (h : q.Sees isAdmin sid)
    (huser : ∀ u, q.sidToUserId.lookup sid = some u → p.sidToUserId.lookup sid = some u)
    (htoken : ∀ u, q.adminSids.lookup sid = some u → p.adminSids.lookup sid = some u)
    (hroom : sid ∈ q.adminRoom → sid ∈ p.adminRoom) (hwatch : q.Watches sid → p.Watches sid) :
    p.Sees isAdmin sid := by
  rcases h with h | h | h
  · refine .inl ?_
    simp only [isAdminSid, Bool.or_eq_true] at h ⊢
    rcases h with h | h
    · obtain ⟨u, hu⟩ := Option.isSome_iff_exists.mp h
      exact .inl (Option.isSome_iff_exists.mpr ⟨u, htoken u hu⟩)
    · obtain ⟨u, hu, hadmin⟩ := (Option.any_eq_true _ _).mp h
      exact .inr ((Option.any_eq_true _ _).mpr ⟨u, huser u hu, hadmin⟩)
  · exact .inr (.inl (hroom h))
  · exact .inr (.inr (hwatch h))

@[simp] theorem adminSids_removeOnlineUser (sid : String) :
    (p.removeOnlineUser sid).adminSids = p.adminSids := by
  unfold removeOnlineUser
  split <;> rfl

@[simp] theorem adminWatchers_removeOnlineUser (sid : String) :
    (p.removeOnlineUser sid).adminWatchers = p.adminWatchers := by
  unfold removeOnlineUser
  split <;> rfl

@[simp] theorem adminRoom_removeOnlineUser (sid : String) :
    (p.removeOnlineUser sid).adminRoom = p.adminRoom := by
  unfold removeOnlineUser
  split <;> rfl

@[simp] theorem adminSids_addRegistered (sid : String) (auth : Option AuthInfo) :
    (p.addRegistered sid auth).adminSids = p.adminSids := by
  unfold addRegistered
  split <;> rfl

@[simp] theorem adminWatchers_addRegistered (sid : String) (auth : Option AuthInfo) :
    (p.addRegistered sid auth).adminWatchers = p.adminWatchers := by
  unfold addRegistered
  split <;> rfl

/-- Whatever a connection was identified as, it is identified as the account it takes. -/
theorem lookup_setName (s name : String) (auth : AuthInfo) (sid : String) :
    (p.setName s name auth).sidToUserId.lookup sid =
      if sid = s then auth.registeredId else p.sidToUserId.lookup sid := by
  change ((p.removeOnlineUser s).addRegistered s (some auth)).sidToUserId.lookup sid = _
  unfold addRegistered
  rw [Option.bind_some]
  cases hauth : auth.registeredId with
  | none => exact lookup_removeOnlineUser s sid
  | some u =>
    change ((p.removeOnlineUser s).sidToUserId.insert s u).lookup sid = _
    rw [Table.lookup_insert, lookup_removeOnlineUser]
    split_ifs <;> rfl

theorem adminSids_setName (s name : String) (auth : AuthInfo) :
    (p.setName s name auth).adminSids = p.adminSids := by
  simp [setName, registerPlayer]

theorem adminWatchers_setName (s name : String) (auth : AuthInfo) :
    (p.setName s name auth).adminWatchers = p.adminWatchers := by
  simp [setName, registerPlayer]

theorem mem_adminRoom_setName {s name : String} {auth : AuthInfo} {sid : String}
    (h : sid ∈ (p.setName s name auth).adminRoom) :
    sid ∈ p.adminRoom ∧ (sid = s → p.sidToUserId.lookup s = auth.userId) := by
  simp only [setName] at h
  split_ifs at h with hsame
  · obtain ⟨hne, hmem⟩ := Finset.mem_erase.mp h
    exact ⟨hmem, fun heq => absurd heq hne⟩
  · exact ⟨h, fun _ => not_not.mp hsame⟩

theorem watches_unwatch {s sid : String} (h : (p.unwatch s).Watches sid) :
    sid ≠ s ∧ p.Watches sid := by
  obtain ⟨w, hw, rfl⟩ := h
  obtain ⟨hw, hne⟩ := Finset.mem_filter.mp hw
  exact ⟨hne, w, hw, rfl⟩

/-- The rights of a connection after a message of another one were there before. -/
theorem sees_handle_other {env : Env} {s : Sid} {message : Message} {sid : String}
    (hmessage : ∀ token banned, message ≠ .rejoinRoom token banned) (hne : sid ≠ s.1)
    (h : (p.handle env s message).Sees isAdmin sid) : p.Sees isAdmin sid := by
  cases message with
  | setName name auth =>
    refine h.mono (fun u hu => ?_) (fun u hu => ?_) (fun hr => (mem_adminRoom_setName hr).1)
      fun hw => ?_
    · have := lookup_setName (p := p) s.1 name auth sid
      rw [if_neg hne] at this
      exact this ▸ hu
    · exact adminSids_setName (p := p) s.1 name auth ▸ hu
    · exact (show (p.setName s.1 name auth).Watches sid ↔ p.Watches sid by
        rw [Watches, adminWatchers_setName, Watches]).mp hw
  | logout =>
    refine h.mono (fun u hu => ?_) (fun u hu => ?_) (fun hr => Finset.mem_of_mem_erase hr)
      fun hw => ?_
    · have := lookup_removeOnlineUser (p := p) s.1 sid
      rw [if_neg hne] at this
      exact this ▸ hu
    · exact adminSids_removeOnlineUser (p := p) s.1 ▸ hu
    · obtain ⟨w, hw, rfl⟩ := hw
      exact ⟨w, adminWatchers_removeOnlineUser (p := p) s.1 ▸ hw, rfl⟩
  | rejoinRoom token banned => exact absurd rfl (hmessage token banned)
  | _ => exact h

/-- A subscription is refused and changes nothing, or it gives rights to one connection. -/
theorem adminSubscribe_cases (isAdmin : UserId → Bool) (p : Portal) (s : String)
    (verified : Option UserId) (barred : Bool) :
    ((p.adminUserIdForSid isAdmin s verified barred).2 = none ∧
        p.adminSubscribe isAdmin s verified barred = p) ∨
      ((p.adminUserIdForSid isAdmin s verified barred).2.isSome = true ∧
        (p.adminSubscribe isAdmin s verified barred).sidToUserId = p.sidToUserId ∧
        (p.adminSubscribe isAdmin s verified barred).adminWatchers = p.adminWatchers ∧
        (p.adminSubscribe isAdmin s verified barred).adminRoom = insert s p.adminRoom ∧
        ∀ sid, sid ≠ s → (p.adminSubscribe isAdmin s verified barred).adminSids.lookup sid =
          p.adminSids.lookup sid) := by
  unfold adminSubscribe adminUserIdForSid
  cases (p.sidToUserId.lookup s).filter isAdmin with
  | some userId => exact .inr ⟨rfl, rfl, rfl, rfl, fun _ _ => rfl⟩
  | none => cases verified.filter fun userId => isAdmin userId && !barred with
    | some userId =>
      refine .inr ⟨rfl, rfl, rfl, rfl, fun sid hne => ?_⟩
      change (p.adminSids.insert s userId).lookup sid = _
      rw [Table.lookup_insert, if_neg hne]
    | none => exact .inl ⟨rfl, rfl⟩

/-- Only an administrator follows a room. -/
theorem adminWatchRoom_cases (isAdmin : UserId → Bool) (p : Portal) (s : String)
    (roomId : Option RoomId) :
    p.adminWatchRoom isAdmin s roomId = p ∨
      (p.isAdminSid isAdmin s = true ∧
        (p.adminWatchRoom isAdmin s roomId).sidToUserId = p.sidToUserId ∧
        (p.adminWatchRoom isAdmin s roomId).adminSids = p.adminSids ∧
        (p.adminWatchRoom isAdmin s roomId).adminRoom = p.adminRoom ∧
        ∀ sid, sid ≠ s → (p.adminWatchRoom isAdmin s roomId).Watches sid → p.Watches sid) := by
  unfold adminWatchRoom
  cases hadmin : p.isAdminSid isAdmin s with
  | false => exact .inl rfl
  | true =>
    refine .inr ⟨rfl, ?_⟩
    simp only [Bool.not_true, Bool.false_eq_true, if_false]
    split
    · refine ⟨rfl, rfl, rfl, fun sid hne hw => ?_⟩
      obtain ⟨w, hw, rfl⟩ := hw
      rcases Finset.mem_insert.mp hw with rfl | hw
      · exact absurd rfl hne
      · exact (watches_unwatch ⟨w, hw, rfl⟩).2
    · exact ⟨rfl, rfl, rfl, fun sid _ hw => (watches_unwatch hw).2⟩

/-- The rights of a connection after an event that shows nothing of it were there before. -/
theorem sees_of_shows_none {i : Event} {sid : String} (hdomain : ¬ Rejoins i)
    (hshows : p.shows isAdmin i sid = none) (h : (p.perform isAdmin i).Sees isAdmin sid) :
    p.Sees isAdmin sid := by
  cases i with
  | server i =>
    obtain ⟨env, event⟩ := i
    cases event with
    | message s message =>
      have hmessage : ∀ token banned, message ≠ .rejoinRoom token banned :=
        fun token banned heq => hdomain ⟨env, s, token, banned, by rw [heq]⟩
      simp only [perform] at h
      split_ifs at h with hclosed
      · exact h
      · by_cases hne : sid = s.1
        · subst hne
          cases message with
          | setName name auth => simp [shows, hclosed] at hshows
          | logout => simp [shows, hclosed] at hshows
          | rejoinRoom token banned => exact absurd rfl (hmessage token banned)
          | _ => exact h
        · exact sees_handle_other hmessage hne h
    | disconnect s =>
      simp only [perform] at h
      split_ifs at h with hclosed
      · exact h
      · have hne : sid ≠ s.1 := by
          rintro rfl
          simp [shows, hclosed] at hshows
        refine h.mono (fun u hu => ?_) (fun u hu => ?_) (fun hr => Finset.mem_of_mem_erase hr)
          fun hw => ?_
        · have := lookup_removeOnlineUser (p := p.unwatch s.1) s.1 sid
          rw [if_neg hne] at this
          exact this ▸ hu
        · change (p.adminSids.erase s.1).lookup sid = some u at hu
          rwa [Table.lookup_erase, if_neg hne] at hu
        · obtain ⟨w, hw, rfl⟩ := hw
          refine (watches_unwatch (s := s.1) ⟨w, ?_, rfl⟩).2
          exact adminWatchers_removeOnlineUser (p := p.unwatch s.1) s.1 ▸ hw
    | _ => exact h
  | unregisterPlayer s =>
    simp only [perform] at h
    split_ifs at h
    · exact h
    · refine h.mono (fun u hu => ?_) (fun u hu => ?_) (fun hr => ?_) fun hw => ?_
      · change (p.removeOnlineUser s.1).sidToUserId.lookup sid = some u at hu
        rw [lookup_removeOnlineUser] at hu
        split_ifs at hu
        exact hu
      · exact adminSids_removeOnlineUser (p := p) s.1 ▸ hu
      · exact adminRoom_removeOnlineUser (p := p) s.1 ▸ hr
      · obtain ⟨w, hw, rfl⟩ := hw
        exact ⟨w, adminWatchers_removeOnlineUser (p := p) s.1 ▸ hw, rfl⟩
  | adminSubscribe s verified barred =>
    simp only [perform] at h
    split_ifs at h with hclosed
    · exact h
    · rcases adminSubscribe_cases isAdmin p s.1 verified barred with
        ⟨-, heq⟩ | ⟨hsome, huser, hwatch, hroom, htoken⟩
      · exact heq ▸ h
      · have hne : sid ≠ s.1 := by
          rintro rfl
          simp [shows, hclosed, hsome] at hshows
        refine h.mono (fun u hu => huser ▸ hu) (fun u hu => htoken sid hne ▸ hu) (fun hr => ?_)
          fun hw => ?_
        · rw [hroom] at hr
          exact Finset.mem_of_mem_insert_of_ne hr hne
        · rwa [Watches, hwatch] at hw
  | adminWatchRoom s roomId =>
    simp only [perform] at h
    split_ifs at h
    · exact h
    · rcases adminWatchRoom_cases isAdmin p s.1 roomId with
        heq | ⟨hadmin, huser, htoken, hroom, hwatch⟩
      · exact heq ▸ h
      · by_cases hne : sid = s.1
        · exact .inl (hne ▸ hadmin)
        · exact h.mono (fun u hu => huser ▸ hu) (fun u hu => htoken ▸ hu)
            (fun hr => hroom ▸ hr) (hwatch sid hne)

/-- A connection that an event shows not to be of an administrator has no rights after it. -/
theorem not_sees_of_shows_false {i : Event} {sid : String} (hdiscreet : p.Discreet isAdmin i)
    (hshows : p.shows isAdmin i sid = some false) :
    ¬ (p.perform isAdmin i).Sees isAdmin sid := by
  intro h
  cases i with
  | server i =>
    obtain ⟨env, event⟩ := i
    cases event with
    | message s message =>
      simp only [shows] at hshows
      split_ifs at hshows with hcond
      obtain ⟨rfl, hclosed⟩ : s.1 = sid ∧ sid ∉ p.server.closed := by simpa using hcond
      simp only [perform, if_neg hclosed] at h
      cases message with
      | setName name auth =>
        have hnot : auth.registeredId.any isAdmin = false := Option.some.inj hshows
        obtain ⟨hlasting, hroom⟩ := hdiscreet.setName env s name auth rfl hclosed hnot
        rcases h with h | h | h
        · simp only [isAdminSid, Bool.or_eq_true] at h
          change ((p.setName s.1 name auth).adminSids.lookup s.1).isSome = true ∨
            ((p.setName s.1 name auth).sidToUserId.lookup s.1).any isAdmin = true at h
          rw [adminSids_setName, lookup_setName, if_pos rfl, hnot] at h
          exact hlasting (.inl (h.resolve_right Bool.false_ne_true))
        · obtain ⟨hmem, hsame⟩ := mem_adminRoom_setName h
          exact hroom hmem (hsame rfl)
        · exact hlasting (.inr ((show (p.setName s.1 name auth).Watches s.1 ↔ p.Watches s.1 by
            rw [Watches, adminWatchers_setName, Watches]).mp h))
      | logout =>
        have hlasting := hdiscreet.logout env s rfl hclosed
        rcases h with h | h | h
        · simp only [isAdminSid, Bool.or_eq_true] at h
          change ((p.removeOnlineUser s.1).adminSids.lookup s.1).isSome = true ∨
            ((p.removeOnlineUser s.1).sidToUserId.lookup s.1).any isAdmin = true at h
          rw [adminSids_removeOnlineUser, lookup_removeOnlineUser, if_pos rfl] at h
          exact hlasting (.inl (h.resolve_right Bool.false_ne_true))
        · exact Finset.notMem_erase s.1 _ h
        · obtain ⟨w, hw, heq⟩ := h
          exact hlasting (.inr ⟨w, adminWatchers_removeOnlineUser (p := p) s.1 ▸ hw, heq⟩)
      | _ => cases hshows
    | disconnect s =>
      simp only [shows] at hshows
      split_ifs at hshows with hcond
      obtain ⟨rfl, hclosed⟩ := hcond
      simp only [perform, if_neg hclosed] at h
      rcases h with h | h | h
      · simp only [isAdminSid, Bool.or_eq_true] at h
        change ((p.adminSids.erase s.1).lookup s.1).isSome = true ∨
          (((p.unwatch s.1).removeOnlineUser s.1).sidToUserId.lookup s.1).any isAdmin = true at h
        rw [Table.lookup_erase, if_pos rfl, lookup_removeOnlineUser, if_pos rfl] at h
        exact h.elim Bool.false_ne_true Bool.false_ne_true
      · exact Finset.notMem_erase s.1 _ h
      · obtain ⟨w, hw, heq⟩ := h
        have hw : w ∈ (p.unwatch s.1).adminWatchers :=
          adminWatchers_removeOnlineUser (p := p.unwatch s.1) s.1 ▸ hw
        exact (watches_unwatch ⟨w, hw, heq⟩).1 rfl
    | _ => cases hshows
  | unregisterPlayer s => cases hshows
  | adminSubscribe s verified barred =>
    simp only [shows] at hshows
    split_ifs at hshows
    cases hshows
  | adminWatchRoom s roomId => cases hshows

/-! ## Runs -/

theorem sees_perform_of_step {i : Event} {sid : String} (h : (p.step isAdmin i).Sees isAdmin sid) :
    (p.perform isAdmin i).Sees isAdmin sid := by
  refine h.mono (fun _ hu => hu) (fun _ hu => hu) id ?_
  rintro ⟨w, hw, rfl⟩
  exact ⟨w, Finset.mem_of_mem_filter w hw, rfl⟩

/-- **The rights of an administrator end with the account** in every run without reconnections in
which no connection with lasting rights logs out or becomes somebody else. -/
theorem identified_of_discreet (isAdmin : UserId → Bool) (db : Db) {l : List Event}
    (hdomain : ∀ i ∈ l, ¬ Rejoins i)
    (hl : Along (step isAdmin) (Discreet isAdmin) (opened db) l) {sid : String}
    (h : (run (step isAdmin) (opened db) l).Sees isAdmin sid) :
    identified isAdmin db l sid = true := by
  induction l using List.reverseRecOn generalizing sid with
  | nil =>
    rcases h with h | h | ⟨w, hw, -⟩
    · simp [opened, isAdminSid] at h
    · simp [opened] at h
    · simp [opened] at hw
  | append_singleton l i ih =>
    obtain ⟨hl, hi, -⟩ := (along_append (step isAdmin) _ _ _ _).mp hl
    have hknown := @ih (fun j hj => hdomain j (List.mem_append_left _ hj)) hl
    rw [run_append] at h
    have h := sees_perform_of_step h
    rw [identified, identifiedFrom_append]
    cases hshows : (run (step isAdmin) (opened db) l).shows isAdmin i sid with
    | none => exact hknown (sees_of_shows_none (hdomain i (by simp)) hshows h)
    | some known => cases known with
      | true => rfl
      | false => exact absurd h (not_sees_of_shows_false hi hshows)

/-! ## Rights that outlast the account -/

/-- An administrator comes with a token, follows the room of a guest and takes a name with the same
account; another connection logs out. -/
def watched : List Event :=
  [.adminSubscribe anna (some 1) false,
   .server (Game.stillEnv, .message bela (.setName "Béla" .guest)),
   .server (Game.stillEnv, .message bela (.createRoom casual)), .adminWatchRoom anna (some 0),
   .server (Game.stillEnv, .message anna (.setName "Anna" ⟨some 1, false⟩)),
   .server (Game.stillEnv, .message belaToo .logout)]

/-- A message that is about no account is discreet. -/
theorem discreet_message {env : Env} {sid : Sid} {message : Message} (hlogout : message ≠ .logout)
    (hsetName : ∀ name auth, message ≠ .setName name auth) :
    p.Discreet isAdmin (.server (env, .message sid message)) where
  logout _ _ heq := by
    cases heq
    exact absurd rfl hlogout
  setName _ _ name auth heq := by
    cases heq
    exact absurd rfl (hsetName name auth)

/-- A logout of a connection without lasting rights is discreet. -/
theorem discreet_logout {env : Env} {sid : Sid} (h : ¬ p.Lasting sid.1) :
    p.Discreet isAdmin (.server (env, .message sid .logout)) where
  logout _ _ heq _ := by
    cases heq
    exact h
  setName := nofun

/-- So is it to take a name as an administrator. -/
theorem discreet_setName {env : Env} {sid : Sid} {name : String} {auth : AuthInfo}
    (h : auth.registeredId.any isAdmin = true ∨ ¬ p.Lasting sid.1 ∧ sid.1 ∉ p.adminRoom) :
    p.Discreet isAdmin (.server (env, .message sid (.setName name auth))) where
  logout := nofun
  setName _ _ _ _ heq _ hnot := by
    cases heq
    rcases h with h | ⟨hlasting, hroom⟩
    · exact absurd (h.symm.trans hnot) (by simp)
    · exact ⟨hlasting, fun hmem => absurd hmem hroom⟩

/-- The administrator sees what happens, and is one. -/
theorem identified_watched :
    (run (step fun userId => userId = 1) (opened Db.empty) watched).Watches "a" ∧
      identified (fun userId => userId = 1) Db.empty watched "a" = true := by
  have hwatches : (run (step fun userId => userId = 1) (opened Db.empty) watched).Watches "a" := by
    decide +kernel
  refine ⟨hwatches, identified_of_discreet (fun userId => userId = 1) Db.empty (fun i hi => ?_) ?_
    (.inr (.inr hwatches))⟩
  · rintro ⟨env, sid, token, banned, rfl⟩
    simp [watched] at hi
  · exact ⟨⟨nofun, nofun⟩, discreet_setName (.inr (by decide +kernel)),
      discreet_message nofun nofun, ⟨nofun, nofun⟩, discreet_setName (.inl (by decide)),
      discreet_logout (by decide +kernel), trivial⟩

/-- **Rights after a logout.** A connection that came with the token of an administrator is still
accepted as one after it has logged out. -/
theorem rights_after_logout : ¬ ∀ l, (∀ i ∈ l, ¬ Rejoins i) → ∀ sid,
    (run (step fun userId => userId = 1) (opened Db.empty) l).Sees (fun userId => userId = 1) sid →
      identified (fun userId => userId = 1) Db.empty l sid = true := by
  intro h
  have hleft := h [.adminSubscribe anna (some 1) false,
    .server (Game.stillEnv, .message anna .logout)] (fun i hi => by
      rintro ⟨env, sid, token, banned, rfl⟩
      simp at hi) "a" (by decide +kernel)
  revert hleft
  decide +kernel

end Portal

end ScrabbleMagyar
