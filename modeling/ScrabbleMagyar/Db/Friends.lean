import ScrabbleMagyar.Foundations.Runs
import Mathlib.Data.Int.Notation
import Mathlib.Data.List.Pairwise

/-!
# Friends

The requests for friendship between users and the list of friends (`db/misc.rs`). A row of the
table `friendships` is directed, from the user who asked to the one who was asked; the friendship
it stands for is not. A call is one transaction, and a run is any interleaving of the calls of all
users.

The number of a row and the time of its insertion are left out, since none of these functions
reads them.

* `Friends.agreed_of_run`: in every run the table holds at most one row for two users and none
  for one, an accepted row was asked for by one of the two and accepted by the other since they
  were last separated, a call of a user leaves the requests of that user open, and to be in the
  list of friends is mutual.
-/

namespace ScrabbleMagyar

namespace Friends

abbrev UserId := ℤ

/-- What the column `status` holds. -/
inductive Status
  | pending
  | accepted
  deriving DecidableEq

structure User where
  id : UserId
  displayName : String
  deriving DecidableEq

/-- A row of `friendships`: `userId` has asked `friendId`. -/
structure Friendship where
  userId : UserId
  friendId : UserId
  status : Status
  deriving DecidableEq

structure Store where
  users : List User
  friendships : List Friendship

/-- Whether a call succeeded, and the message for the user. -/
abbrev Reply := Bool × String

namespace Friendship

/-- The row is one of the two users, whoever asked. -/
def Between (f : Friendship) (a b : UserId) : Prop :=
  (f.userId = a ∧ f.friendId = b) ∨ (f.userId = b ∧ f.friendId = a)

instance (f : Friendship) (a b : UserId) : Decidable (f.Between a b) := by
  unfold Between
  infer_instance

theorem between_comm {f : Friendship} {a b : UserId} : f.Between a b ↔ f.Between b a := or_comm

theorem between_self (f : Friendship) : f.Between f.userId f.friendId := .inl ⟨rfl, rfl⟩

theorem Between.swap {f g : Friendship} (h : f.Between g.userId g.friendId) :
    g.Between f.userId f.friendId := by
  rcases h with ⟨h₁, h₂⟩ | ⟨h₁, h₂⟩
  · exact .inl ⟨h₁.symm, h₂.symm⟩
  · exact .inr ⟨h₂.symm, h₁.symm⟩

theorem Between.trans {f g : Friendship} {a b : UserId} (hf : f.Between a b)
    (hg : g.Between a b) : f.Between g.userId g.friendId := by
  rcases hf with ⟨h₁, h₂⟩ | ⟨h₁, h₂⟩ <;> rcases hg with ⟨h₃, h₄⟩ | ⟨h₃, h₄⟩
  · exact .inl ⟨h₁.trans h₃.symm, h₂.trans h₄.symm⟩
  · exact .inr ⟨h₁.trans h₄.symm, h₂.trans h₃.symm⟩
  · exact .inr ⟨h₁.trans h₄.symm, h₂.trans h₃.symm⟩
  · exact .inl ⟨h₁.trans h₃.symm, h₂.trans h₄.symm⟩

/-- An open request of `userId` to `friendId`. -/
def isRequest (f : Friendship) (userId friendId : UserId) : Bool :=
  f.userId = userId ∧ f.friendId = friendId ∧ f.status = .pending

theorem isRequest_iff {f : Friendship} {userId friendId : UserId} :
    f.isRequest userId friendId = true ↔
      f.userId = userId ∧ f.friendId = friendId ∧ f.status = .pending := by
  simp [isRequest]

/-- Two users are friends by this row. -/
def isAccepted (f : Friendship) (userId friendId : UserId) : Bool :=
  f.Between userId friendId ∧ f.status = .accepted

theorem isAccepted_iff {f : Friendship} {userId friendId : UserId} :
    f.isAccepted userId friendId = true ↔ f.Between userId friendId ∧ f.status = .accepted := by
  simp [isAccepted]

end Friendship

/-! ## The calls -/

/-- A database with these accounts in which nobody has asked anybody. -/
def opened (users : List User) : Store := ⟨users, []⟩

variable (db : Store)

def hasUser (userId : UserId) : Bool := db.users.any fun u => u.id = userId

/-- The insertion of a row, within the constraints of the table: both ends are users, and no row
has the same two ends in the same order. -/
def insertFriendship (f : Friendship) : Option Store :=
  if hasUser db f.userId && hasUser db f.friendId &&
      !(db.friendships.any fun g => g.userId = f.userId ∧ g.friendId = f.friendId) then
    some { db with friendships := db.friendships ++ [f] }
  else none

def sendFriendRequest (userId friendId : UserId) : Store × Reply :=
  if userId = friendId then (db, false, "Nem küldhetsz magadnak barátkérést.")
  else if !hasUser db friendId then (db, false, "Felhasználó nem található.")
  else match db.friendships.find? fun f => f.Between userId friendId with
    | some row =>
      (db, false,
        if row.status = .accepted then "Már barátok vagytok."
        else if row.userId = userId then "Már küldtél barátkérést ennek a felhasználónak."
        else "Ez a felhasználó már küldött neked barátkérést. Fogadd el!")
    | none => match insertFriendship db ⟨userId, friendId, .pending⟩ with
      | some db => (db, true, "Barátkérés elküldve.")
      | none => (db, false, "Hiba történt a barátkérés során.")

/-- The request of `requesterId` to `userId` is accepted. -/
def acceptFriendRequest (userId requesterId : UserId) : Store × Reply :=
  ({ db with friendships := db.friendships.map fun f =>
      if f.isRequest requesterId userId then { f with status := .accepted } else f },
    if db.friendships.any fun f => f.isRequest requesterId userId then
      (true, "Barátkérés elfogadva.")
    else (false, "Barátkérés nem található vagy már elfogadtad."))

/-- The request of `requesterId` to `userId` is refused. -/
def declineFriendRequest (userId requesterId : UserId) : Store × Reply :=
  ({ db with friendships := db.friendships.filter fun f => !f.isRequest requesterId userId },
    if db.friendships.any fun f => f.isRequest requesterId userId then
      (true, "Barátkérés elutasítva.")
    else (false, "Barátkérés nem található."))

def removeFriend (userId friendId : UserId) : Store × Reply :=
  ({ db with friendships := db.friendships.filter fun f => !f.isAccepted userId friendId },
    if db.friendships.any fun f => f.isAccepted userId friendId then (true, "Barát törölve.")
    else (false, "Nem vagytok barátok."))

/-- The friends of a user by name. -/
def getFriends (userId : UserId) : List User :=
  (db.friendships.flatMap fun f => db.users.filter fun u =>
    (f.userId = u.id ∨ f.friendId = u.id) ∧ (f.userId = userId ∨ f.friendId = userId) ∧
      f.status = .accepted ∧ u.id ≠ userId).mergeSort fun u v => u.displayName ≤ v.displayName

inductive Call
  | send (userId friendId : UserId)
  | accept (userId requesterId : UserId)
  | decline (userId requesterId : UserId)
  | remove (userId friendId : UserId)

def perform : Call → Store × Reply
  | .send userId friendId => sendFriendRequest db userId friendId
  | .accept userId requesterId => acceptFriendRequest db userId requesterId
  | .decline userId requesterId => declineFriendRequest db userId requesterId
  | .remove userId friendId => removeFriend db userId friendId

/-- The database after a call. -/
def step (call : Call) : Store := (perform db call).1

/-- The call is reported to have succeeded. -/
def Succeeds (call : Call) : Prop := (perform db call).2.1 = true

/-- The call ends what there is between two users: it refuses a request of one to the other, or
ends their friendship. -/
def Separates (a b : UserId) (call : Call) : Prop :=
  Succeeds db call ∧ ∃ x y, (call = .decline x y ∨ call = .remove x y) ∧
    ((x = a ∧ y = b) ∨ (x = b ∧ y = a))

/-! ## What a call does -/

variable {db}

/-- A request is made in one way only: for another user, with no row for the two. -/
theorem send_cases (db : Store) (a b : UserId) :
    (step db (.send a b) = db ∧ ¬ Succeeds db (.send a b)) ∨
      (Succeeds db (.send a b) ∧ a ≠ b ∧ hasUser db a = true ∧ hasUser db b = true ∧
        (∀ f ∈ db.friendships, ¬ f.Between a b) ∧
        step db (.send a b) =
          { db with friendships := db.friendships ++ [⟨a, b, .pending⟩] }) := by
  unfold step Succeeds
  dsimp only [perform, sendFriendRequest]
  split
  · exact .inl ⟨rfl, Bool.false_ne_true⟩
  · rename_i hne
    split
    · exact .inl ⟨rfl, Bool.false_ne_true⟩
    · split
      · exact .inl ⟨rfl, Bool.false_ne_true⟩
      · rename_i hfind
        unfold insertFriendship
        by_cases hins : (hasUser db a && hasUser db b &&
            !(db.friendships.any fun g => g.userId = a ∧ g.friendId = b)) = true
        · rw [if_pos hins]
          simp only [Bool.and_eq_true] at hins
          refine .inr ⟨rfl, hne, hins.1.1, hins.1.2, fun f hf hb => ?_, rfl⟩
          have := List.find?_eq_none.mp hfind f hf
          simp [hb] at this
        · rw [if_neg hins]
          exact .inl ⟨rfl, Bool.false_ne_true⟩

theorem succeeds_accept {a b : UserId} :
    Succeeds db (.accept a b) ↔ ∃ f ∈ db.friendships, f.isRequest b a = true := by
  unfold Succeeds
  rw [← List.any_eq_true]
  simp only [perform, acceptFriendRequest]
  split <;> simp_all

theorem succeeds_decline {a b : UserId} :
    Succeeds db (.decline a b) ↔ ∃ f ∈ db.friendships, f.isRequest b a = true := by
  unfold Succeeds
  rw [← List.any_eq_true]
  simp only [perform, declineFriendRequest]
  split <;> simp_all

theorem succeeds_remove {a b : UserId} :
    Succeeds db (.remove a b) ↔ ∃ f ∈ db.friendships, f.isAccepted a b = true := by
  unfold Succeeds
  rw [← List.any_eq_true]
  simp only [perform, removeFriend]
  split <;> simp_all

@[simp] theorem users_step (call : Call) : (step db call).users = db.users := by
  cases call with
  | send a b =>
    rcases send_cases db a b with ⟨h, -⟩ | ⟨-, -, -, -, -, h⟩ <;> rw [h]
  | _ => rfl

theorem mem_accept {a b : UserId} {f : Friendship} :
    f ∈ (step db (.accept a b)).friendships ↔
      (f ∈ db.friendships ∧ f.isRequest b a = false) ∨
        (∃ g ∈ db.friendships, g.isRequest b a = true ∧ { g with status := .accepted } = f) := by
  change f ∈ List.map _ _ ↔ _
  rw [List.mem_map]
  constructor
  · rintro ⟨g, hg, rfl⟩
    cases hr : g.isRequest b a with
    | true => exact .inr ⟨g, hg, hr, by simp⟩
    | false => exact .inl ⟨by simpa using hg, by simpa using hr⟩
  · rintro (⟨hf, hr⟩ | ⟨g, hg, hr, rfl⟩)
    · exact ⟨f, hf, by simp [hr]⟩
    · exact ⟨g, hg, by simp [hr]⟩

theorem mem_decline {a b : UserId} {f : Friendship} :
    f ∈ (step db (.decline a b)).friendships ↔ f ∈ db.friendships ∧ f.isRequest b a = false := by
  change f ∈ List.filter _ _ ↔ _
  simp

theorem mem_remove {a b : UserId} {f : Friendship} :
    f ∈ (step db (.remove a b)).friendships ↔ f ∈ db.friendships ∧ f.isAccepted a b = false := by
  change f ∈ List.filter _ _ ↔ _
  simp

/-- A call of a user leaves the requests of that user as they are. -/
theorem own_request_kept {f : Friendship} (hproper : f.userId ≠ f.friendId)
    (hf : f ∈ db.friendships) (requesterId : UserId) :
    f ∈ (step db (.accept f.userId requesterId)).friendships := by
  refine mem_accept.mpr (.inl ⟨hf, ?_⟩)
  rw [Bool.eq_false_iff, Ne, Friendship.isRequest_iff]
  rintro ⟨-, h, -⟩
  exact hproper h.symm

/-! ## The table -/

/-- What holds of the rows at every moment. -/
structure Sound (db : Store) : Prop where
  distinct : db.friendships.Pairwise fun f g => ¬ f.Between g.userId g.friendId
  proper : ∀ f ∈ db.friendships, f.userId ≠ f.friendId
  known : ∀ f ∈ db.friendships, hasUser db f.userId = true ∧ hasUser db f.friendId = true

namespace Sound

theorem opened (users : List User) : Sound (opened users) :=
  ⟨List.Pairwise.nil, fun _ h => absurd h List.not_mem_nil, fun _ h => absurd h List.not_mem_nil⟩

theorem unique (h : Sound db) {f g : Friendship} (hf : f ∈ db.friendships)
    (hg : g ∈ db.friendships) (hb : f.Between g.userId g.friendId) : f = g := by
  by_contra hne
  have : Std.Symm fun f g : Friendship => ¬ f.Between g.userId g.friendId :=
    ⟨fun _ _ h h' => h h'.swap⟩
  exact h.distinct.forall hf hg hne hb

/-- Fewer rows. -/
theorem filter (h : Sound db) (p : Friendship → Bool) :
    Sound { db with friendships := db.friendships.filter p } where
  distinct := h.distinct.sublist List.filter_sublist
  proper := fun f hf => h.proper f (List.mem_of_mem_filter hf)
  known := fun f hf => h.known f (List.mem_of_mem_filter hf)

theorem step (h : Sound db) (call : Call) : Sound (step db call) := by
  cases call with
  | send a b =>
    rcases send_cases db a b with ⟨heq, -⟩ | ⟨-, hne, ha, hb, hnone, heq⟩
    · rw [heq]
      exact h
    · rw [heq]
      refine ⟨?_, fun f hf => ?_, fun f hf => ?_⟩
      · rw [List.pairwise_append]
        refine ⟨h.distinct, List.pairwise_singleton _ _, fun f hf g hg => ?_⟩
        rw [List.mem_singleton] at hg
        subst hg
        exact hnone f hf
      · rcases List.mem_append.mp hf with hf | hf
        · exact h.proper f hf
        · rw [List.mem_singleton] at hf
          subst hf
          exact hne
      · rcases List.mem_append.mp hf with hf | hf
        · exact h.known f hf
        · rw [List.mem_singleton] at hf
          subst hf
          exact ⟨ha, hb⟩
  | accept a b =>
    have hends : ∀ f : Friendship,
        (if f.isRequest b a then { f with status := .accepted } else f).userId = f.userId ∧
          (if f.isRequest b a then { f with status := .accepted } else f).friendId = f.friendId := by
      intro f
      split <;> exact ⟨rfl, rfl⟩
    refine ⟨?_, fun f hf => ?_, fun f hf => ?_⟩
    · refine List.pairwise_map.mpr (h.distinct.imp fun {f g} hfg hb => hfg ?_)
      simpa only [Friendship.Between, (hends f).1, (hends f).2, (hends g).1, (hends g).2] using hb
    · obtain ⟨g, hg, rfl⟩ := List.mem_map.mp hf
      rw [(hends g).1, (hends g).2]
      exact h.proper g hg
    · obtain ⟨g, hg, rfl⟩ := List.mem_map.mp hf
      rw [(hends g).1, (hends g).2]
      exact h.known g hg
  | decline a b => exact h.filter _
  | remove a b => exact h.filter _

/-- After a call that separates two users there is no row for them. -/
theorem separated (h : Sound db) {a b : UserId} {call : Call} (hs : Separates db a b call)
    {f : Friendship} (hf : f ∈ (Friends.step db call).friendships) : ¬ f.Between a b := by
  intro hb
  obtain ⟨hok, x, y, rfl | rfl, hxy⟩ := hs
  · obtain ⟨g, hg, hreq⟩ := succeeds_decline.mp hok
    obtain ⟨hf, hnot⟩ := mem_decline.mp hf
    obtain ⟨h₁, h₂, -⟩ := Friendship.isRequest_iff.mp hreq
    have hgb : g.Between a b := by
      rcases hxy with ⟨rfl, rfl⟩ | ⟨rfl, rfl⟩
      · exact .inr ⟨h₁, h₂⟩
      · exact .inl ⟨h₁, h₂⟩
    obtain rfl := h.unique hf hg (hb.trans hgb)
    simp [hreq] at hnot
  · obtain ⟨g, hg, hacc⟩ := succeeds_remove.mp hok
    obtain ⟨hf, hnot⟩ := mem_remove.mp hf
    obtain ⟨hgxy, -⟩ := Friendship.isAccepted_iff.mp hacc
    have hgb : g.Between a b := by
      rcases hxy with ⟨rfl, rfl⟩ | ⟨rfl, rfl⟩
      · exact hgxy
      · exact Friendship.between_comm.mp hgxy
    obtain rfl := h.unique hf hg (hb.trans hgb)
    simp [hacc] at hnot

end Sound

/-! ## How a row came about -/

open Runs

variable {users : List User} {l : List Call} {a b : UserId}

/-- `a` has asked `b`, and the two have not been separated since. -/
def Asked (users : List User) (l : List Call) (a b : UserId) : Prop :=
  ∃ l₁ l₂, l = l₁ ++ .send a b :: l₂ ∧
    Succeeds (run step (opened users) l₁) (.send a b) ∧
    Along step (fun db call => ¬ Separates db a b call)
      (step (run step (opened users) l₁) (.send a b)) l₂

/-- `b` has accepted a request of `a`, and the two have not been separated since the request. -/
def Agreed (users : List User) (l : List Call) (a b : UserId) : Prop :=
  ∃ l₁ l₂, l = l₁ ++ .accept b a :: l₂ ∧ Asked users l₁ a b ∧
    Succeeds (run step (opened users) l₁) (.accept b a) ∧
    Along step (fun db call => ¬ Separates db a b call)
      (step (run step (opened users) l₁) (.accept b a)) l₂

theorem Asked.extend (h : Asked users l a b) {call : Call}
    (hcall : ¬ Separates (run step (opened users) l) a b call) : Asked users (l ++ [call]) a b := by
  obtain ⟨l₁, l₂, rfl, hsend, hl₂⟩ := h
  refine ⟨l₁, l₂ ++ [call], by simp, hsend, ?_⟩
  rw [run_append, run_cons] at hcall
  exact (along_append step _ _ _ _).mpr ⟨hl₂, hcall, trivial⟩

theorem Agreed.extend (h : Agreed users l a b) {call : Call}
    (hcall : ¬ Separates (run step (opened users) l) a b call) :
    Agreed users (l ++ [call]) a b := by
  obtain ⟨l₁, l₂, rfl, hasked, hacc, hl₂⟩ := h
  refine ⟨l₁, l₂ ++ [call], by simp, hasked, hacc, ?_⟩
  rw [run_append, run_cons] at hcall
  exact (along_append step _ _ _ _).mpr ⟨hl₂, hcall, trivial⟩

/-- What holds of the table after the calls `l`. -/
structure Recorded (users : List User) (l : List Call) (db : Store) : Prop where
  sound : Sound db
  asked : ∀ f ∈ db.friendships, Asked users l f.userId f.friendId
  agreed : ∀ f ∈ db.friendships, f.status = .accepted → Agreed users l f.userId f.friendId

/-- A row that a call leaves in place keeps its past: the call does not separate its users. -/
theorem Recorded.kept {db : Store} (h : Recorded users l db)
    (hdb : run step (opened users) l = db) {call : Call} {f : Friendship}
    (hf : f ∈ db.friendships) (hf' : f ∈ (step db call).friendships) :
    Asked users (l ++ [call]) f.userId f.friendId ∧
      (f.status = .accepted → Agreed users (l ++ [call]) f.userId f.friendId) := by
  have hcall : ¬ Separates (run step (opened users) l) f.userId f.friendId call := by
    rw [hdb]
    exact fun hs => h.sound.separated hs hf' f.between_self
  exact ⟨(h.asked f hf).extend hcall, fun hacc => (h.agreed f hf hacc).extend hcall⟩

theorem not_separates_accept {db : Store} {x y : UserId} : ¬ Separates db a b (.accept x y) := by
  rintro ⟨-, _, _, h | h, -⟩ <;> cases h

/-- An accepted request has been made, and is accepted with this call. -/
theorem Recorded.accepted {db : Store} (h : Recorded users l db)
    (hdb : run step (opened users) l = db) {f : Friendship} (hf : f ∈ db.friendships)
    (hreq : f.isRequest b a = true) :
    Asked users (l ++ [.accept a b]) b a ∧ Agreed users (l ++ [.accept a b]) b a := by
  obtain ⟨rfl, rfl, -⟩ := Friendship.isRequest_iff.mp hreq
  have hasked := h.asked f hf
  have hok : Succeeds (run step (opened users) l) (.accept f.friendId f.userId) := by
    rw [hdb]
    exact succeeds_accept.mpr ⟨f, hf, hreq⟩
  exact ⟨hasked.extend not_separates_accept, l, [], rfl, hasked, hok, trivial⟩

theorem recorded_of_run (users : List User) (l : List Call) :
    Recorded users l (run step (opened users) l) := by
  refine run_history step (P := Recorded users)
    ⟨.opened users, fun _ h => absurd h List.not_mem_nil, fun _ h => absurd h List.not_mem_nil⟩
    (fun l call h => ?_) l
  generalize hdb : run step (opened users) l = db at h ⊢
  have hrows : ∀ f ∈ (step db call).friendships, Asked users (l ++ [call]) f.userId f.friendId ∧
      (f.status = .accepted → Agreed users (l ++ [call]) f.userId f.friendId) := by
    intro f hf
    cases call with
    | send a b =>
      rcases send_cases db a b with ⟨heq, -⟩ | ⟨hok, -, -, -, -, heq⟩
      · exact h.kept hdb (by rwa [heq] at hf) hf
      · have hf' := hf
        rw [heq] at hf'
        rcases List.mem_append.mp hf' with hold | hnew
        · exact h.kept hdb hold hf
        · rw [List.mem_singleton] at hnew
          subst hnew
          refine ⟨⟨l, [], rfl, ?_, trivial⟩, fun hacc => by cases hacc⟩
          rw [hdb]
          exact hok
    | accept a b =>
      rcases mem_accept.mp hf with ⟨hold, -⟩ | ⟨g, hg, hreq, rfl⟩
      · exact h.kept hdb hold hf
      · obtain ⟨hasked, hagreed⟩ := h.accepted hdb hg hreq
        obtain ⟨rfl, rfl, -⟩ := Friendship.isRequest_iff.mp hreq
        exact ⟨hasked, fun _ => hagreed⟩
    | decline a b => exact h.kept hdb (mem_decline.mp hf).1 hf
    | remove a b => exact h.kept hdb (mem_remove.mp hf).1 hf
  exact ⟨h.sound.step call, fun f hf => (hrows f hf).1, fun f hf => (hrows f hf).2⟩

/-! ## The list of friends -/

/-- The friends of a user are the other ends of the accepted rows. -/
theorem mem_getFriends {db : Store} (h : Sound db) {userId friendId : UserId} :
    (∃ u ∈ getFriends db userId, u.id = friendId) ↔
      ∃ f ∈ db.friendships, f.isAccepted userId friendId = true := by
  constructor
  · rintro ⟨u, hu, rfl⟩
    simp only [getFriends, List.mem_mergeSort, List.mem_flatMap, List.mem_filter,
      decide_eq_true_eq] at hu
    obtain ⟨f, hf, -, hu, huser, hacc, hne⟩ := hu
    refine ⟨f, hf, Friendship.isAccepted_iff.mpr ⟨?_, hacc⟩⟩
    rcases hu with hu | hu <;> rcases huser with huser | huser
    · exact absurd (hu.symm.trans huser) hne
    · exact .inr ⟨hu, huser⟩
    · exact .inl ⟨huser, hu⟩
    · exact absurd (hu.symm.trans huser) hne
  · rintro ⟨f, hf, hacc⟩
    obtain ⟨hb, hstatus⟩ := Friendship.isAccepted_iff.mp hacc
    have hother : hasUser db friendId = true ∧ friendId ≠ userId := by
      rcases hb with ⟨rfl, rfl⟩ | ⟨rfl, rfl⟩
      · exact ⟨(h.known f hf).2, (h.proper f hf).symm⟩
      · exact ⟨(h.known f hf).1, h.proper f hf⟩
    obtain ⟨u, hu, hid⟩ := List.any_eq_true.mp hother.1
    simp only [decide_eq_true_eq] at hid
    subst hid
    refine ⟨u, ?_, rfl⟩
    simp only [getFriends, List.mem_mergeSort, List.mem_flatMap, List.mem_filter,
      decide_eq_true_eq]
    refine ⟨f, hf, hu, ?_, ?_, hstatus, hother.2⟩
    · rcases hb with ⟨-, h⟩ | ⟨h, -⟩
      · exact .inr h
      · exact .inl h
    · rcases hb with ⟨h, -⟩ | ⟨-, h⟩
      · exact .inl h
      · exact .inr h

theorem getFriends_comm {db : Store} (h : Sound db) (userId friendId : UserId) :
    (∃ u ∈ getFriends db userId, u.id = friendId) ↔
      ∃ u ∈ getFriends db friendId, u.id = userId := by
  rw [mem_getFriends h, mem_getFriends h]
  simp only [Friendship.isAccepted, Friendship.between_comm (a := userId)]

/-- **Friendship needs both sides**, in every run of the calls. -/
theorem agreed_of_run (users : List User) (l : List Call) :
    let db := run step (opened users) l
    db.friendships.Pairwise (fun f g => ¬ f.Between g.userId g.friendId) ∧
      (∀ f ∈ db.friendships, f.userId ≠ f.friendId) ∧
      (∀ f ∈ db.friendships, f.status = .accepted → Agreed users l f.userId f.friendId) ∧
      (∀ f ∈ db.friendships, ∀ requesterId,
        f ∈ (acceptFriendRequest db f.userId requesterId).1.friendships) ∧
      ∀ userId friendId, (∃ u ∈ getFriends db userId, u.id = friendId) ↔
        ∃ u ∈ getFriends db friendId, u.id = userId := by
  have h := recorded_of_run users l
  exact ⟨h.sound.distinct, h.sound.proper, h.agreed,
    fun f hf requesterId => own_request_kept (h.sound.proper f hf) hf requesterId,
    getFriends_comm h.sound⟩

/-- Of two users who ask each other the second is told to accept, and then both are friends. -/
example :
    let db := run step (opened [⟨1, "Anna"⟩, ⟨2, "Béla"⟩]) [.send 1 2, .send 2 1, .accept 1 2,
      .accept 2 1]
    db.friendships = [⟨1, 2, .accepted⟩] := by decide +kernel

end Friends

end ScrabbleMagyar
