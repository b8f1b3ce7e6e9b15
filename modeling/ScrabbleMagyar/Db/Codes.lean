import ScrabbleMagyar.Engine.Tiles
import ScrabbleMagyar.Foundations.Runs
import ScrabbleMagyar.Foundations.Tables
import ScrabbleMagyar.Util

/-!
# Verification codes

The codes that confirm an e-mail address (`db/users.rs`): a six digit number is sent to the
address, and a limited number of guesses is taken for it within ten minutes. A call is one
transaction, and a run is any interleaving of the calls with the times at which they are made.

A time is in nanoseconds; the database keeps the whole seconds of it, and of a text in its form
only the time that it writes matters here. How the standard library puts a text in lower case is a
parameter.

* `Codes.accepted_of_run`: an e-mail has at most one unused code at any moment, and a code is
  accepted only as the newest one of its e-mail, before it has expired, with fewer than
  `maxAttempts` wrong guesses at it, and once.
-/

namespace ScrabbleMagyar

namespace Codes

def codeExpiryMinutes : ℤ := 10

def maxAttempts : ℕ := 5

def verifiedWindowMinutes : ℤ := 30

/-- A row of `verification_codes`. -/
structure Code where
  id : ℕ
  email : Word
  code : Word
  createdAt : ℤ
  expiresAt : ℤ
  attempts : ℕ
  used : Bool
  deriving DecidableEq

/-- The codes, and the addresses that have been confirmed with the time until when that holds. -/
structure Store where
  codes : List Code
  verified : Table Word ℤ

def empty : Store := ⟨[], ∅⟩

/-- Whether a call succeeded, and the message for the user. -/
abbrev Reply := Bool × String

/-- A time as it is stored, in seconds. -/
def stamp (now : ℤ) : ℤ := now / 10 ^ 9

/-- The time that is stored, in nanoseconds. -/
def parseStamp (seconds : ℤ) : ℤ := seconds * 10 ^ 9

def expiryAfter (now minutes : ℤ) : ℤ := stamp (now + minutes * 60 * 10 ^ 9)

/-- The number of a code in six digits. -/
def sixDigits (n : Fin 1000000) : Word :=
  let digits := Nat.toDigits 10 n
  List.replicate (6 - digits.length) '0' ++ digits

namespace Code

def isUnused (c : Code) (email : Word) : Bool := c.email = email ∧ c.used = false

def isExpired (c : Code) (now : ℤ) : Bool := parseStamp c.expiresAt < now

theorem isUnused_iff {c : Code} {email : Word} :
    c.isUnused email = true ↔ c.email = email ∧ c.used = false := by
  simp [isUnused]

/-- The row once there is a new code for an e-mail. -/
def replaced (email : Word) (c : Code) : Code :=
  if c.isUnused email then { c with used := true } else c

theorem replaced_id (email : Word) (c : Code) : (c.replaced email).id = c.id := by
  unfold replaced
  split <;> rfl

theorem replaced_email (email : Word) (c : Code) : (c.replaced email).email = c.email := by
  unfold replaced
  split <;> rfl

/-- A row that is still unused is as it was, and of another e-mail. -/
theorem eq_of_replaced {email : Word} {c : Code} (h : (c.replaced email).used = false) :
    c.replaced email = c ∧ c.used = false ∧ c.email ≠ email := by
  unfold replaced at h ⊢
  split_ifs at h ⊢ with hu
  refine ⟨rfl, h, fun hmail => hu ?_⟩
  exact isUnused_iff.mpr ⟨hmail, h⟩

end Code

variable (lowercase : Word → Word) (db : Store)

/-- The address under which the rows of an e-mail are kept. -/
def emailKey (email : Word) : Word := trim (lowercase email)

/-- Rows are numbered in the order of their insertion. -/
def Store.nextId : ℕ := db.codes.length + 1

def Store.modifyCode (id : ℕ) (f : Code → Code) : Store :=
  { db with codes := db.codes.map fun c => if c.id = id then f c else c }

/-- Use up the code of an address. -/
def Store.expire (id : ℕ) : Store := db.modifyCode id fun c => { c with used := true }

/-- A new code for an e-mail takes the place of the one before. -/
def createVerificationCode (now : ℤ) (email : Word) (n : Fin 1000000) : Store × Word :=
  let key := emailKey lowercase email
  ({ db with codes := db.codes.map (Code.replaced key) ++
      [{ id := db.nextId, email := key, code := sixDigits n, createdAt := stamp now,
         expiresAt := expiryAfter now codeExpiryMinutes, attempts := 0, used := false }] },
    sixDigits n)

/-- The row that a guess at the code of an address is compared with: the last one created. -/
def currentCode (key : Word) : Option Code :=
  ((db.codes.filter fun c => c.isUnused key).mergeSort fun c d => d.createdAt ≤ c.createdAt).head?

def verifyCode (now : ℤ) (email code : Word) : Store × Reply :=
  let key := emailKey lowercase email
  match currentCode db key with
  | none => (db, false, "Nincs érvényes verifikációs kód. Kérj újat.")
  | some row =>
    if row.isExpired now then (db.expire row.id, false, "A kód lejárt. Kérj újat.")
    else if maxAttempts ≤ row.attempts then
      (db.expire row.id, false, "Túl sok próbálkozás. Kérj új kódot.")
    else if row.code ≠ code then
      -- the update repeats the test of the attempts, which nothing changes in between
      let remaining := maxAttempts - row.attempts - 1
      (db.modifyCode row.id fun c => { c with attempts := c.attempts + 1 }, false,
        s!"Hibás kód. Még {remaining} próbálkozásod van.")
    else
      ({ db.expire row.id with
          verified := db.verified.insert key (expiryAfter now verifiedWindowMinutes) }, true,
        "Kód elfogadva.")

/-- Whether an address has been confirmed of late; a confirmation that is too old is deleted. -/
def isEmailVerified (now : ℤ) (email : Word) : Store × Bool :=
  let key := emailKey lowercase email
  match db.verified.lookup key with
  | none => (db, false)
  | some expires =>
    if parseStamp expires < now then ({ db with verified := db.verified.erase key }, false)
    else (db, true)

/-- A registration uses the confirmation of its address up. -/
def clearEmailVerification (email : Word) : Store :=
  { db with verified := db.verified.erase (emailKey lowercase email) }

inductive Call
  | create (email : Word) (n : Fin 1000000)
  | verify (email code : Word)
  | isVerified (email : Word)
  | clear (email : Word)

/-- The database after a call at some time. -/
def step (i : ℤ × Call) : Store :=
  match i.2 with
  | .create email n => (createVerificationCode lowercase db i.1 email n).1
  | .verify email code => (verifyCode lowercase db i.1 email code).1
  | .isVerified email => (isEmailVerified lowercase db i.1 email).1
  | .clear email => clearEmailVerification lowercase db email

/-- A call is told that its code, which is the one of a row, is accepted. -/
def Accepts (i : ℤ × Call) (row : Code) : Prop :=
  ∃ email code, i.2 = .verify email code ∧
    currentCode db (emailKey lowercase email) = some row ∧
    (verifyCode lowercase db i.1 email code).2.1 = true

/-- A call submits a wrong code against the row of a number. -/
def isWrongGuess (id : ℕ) (i : ℤ × Call) : Bool :=
  match i.2 with
  | .verify email code => match currentCode db (emailKey lowercase email) with
    | some row => row.id = id ∧ row.code ≠ code
    | none => false
  | _ => false

/-! ## What a call does -/

variable {lowercase db}

theorem currentCode_mem {key : Word} {row : Code} (h : currentCode db key = some row) :
    row ∈ db.codes ∧ row.isUnused key = true := by
  have := List.mem_of_mem_head? (Option.mem_def.mpr h)
  rwa [List.mem_mergeSort, List.mem_filter] at this

/-- A guess meets no code, uses one up, counts as wrong, or is accepted. -/
theorem verify_cases (lowercase : Word → Word) (db : Store) (now : ℤ) (email code : Word) :
    (currentCode db (emailKey lowercase email) = none ∧
        verifyCode lowercase db now email code =
          (db, false, "Nincs érvényes verifikációs kód. Kérj újat.")) ∨
      ∃ row, currentCode db (emailKey lowercase email) = some row ∧
        (((verifyCode lowercase db now email code).1.codes = (db.expire row.id).codes ∧
            (verifyCode lowercase db now email code).2.1 = false) ∨
          ((verifyCode lowercase db now email code).1.codes =
              (db.modifyCode row.id fun c => { c with attempts := c.attempts + 1 }).codes ∧
            (verifyCode lowercase db now email code).2.1 = false ∧ row.code ≠ code) ∨
          ((verifyCode lowercase db now email code).1.codes = (db.expire row.id).codes ∧
            (verifyCode lowercase db now email code).2.1 = true ∧ row.code = code ∧
            row.isExpired now = false ∧ row.attempts < maxAttempts)) := by
  unfold verifyCode
  dsimp only
  cases hrow : currentCode db (emailKey lowercase email) with
  | none => exact .inl ⟨rfl, rfl⟩
  | some row =>
    refine .inr ⟨row, rfl, ?_⟩
    dsimp only
    split_ifs with hexp hatt hcode
    · exact .inl ⟨rfl, rfl⟩
    · exact .inl ⟨rfl, rfl⟩
    · exact .inr (.inl ⟨rfl, rfl, hcode⟩)
    · exact .inr (.inr ⟨rfl, rfl, not_not.mp hcode, Bool.eq_false_iff.mpr hexp,
        Nat.lt_of_not_le hatt⟩)

theorem codes_isEmailVerified (lowercase : Word → Word) (db : Store) (now : ℤ) (email : Word) :
    (isEmailVerified lowercase db now email).1.codes = db.codes := by
  unfold isEmailVerified
  dsimp only
  cases db.verified.lookup (emailKey lowercase email) with
  | none => rfl
  | some expires =>
    dsimp only
    split_ifs <;> rfl

theorem mem_modifyCode {id : ℕ} {f : Code → Code} {c : Code}
    (h : c ∈ (db.modifyCode id f).codes) :
    ∃ c₀ ∈ db.codes, (c₀.id = id ∧ c = f c₀) ∨ (c₀.id ≠ id ∧ c = c₀) := by
  obtain ⟨c₀, h₀, rfl⟩ := List.mem_map.mp h
  refine ⟨c₀, h₀, ?_⟩
  by_cases hid : c₀.id = id
  · exact .inl ⟨hid, if_pos hid⟩
  · exact .inr ⟨hid, if_neg hid⟩

/-- A code that is still unused after a call is a new one, or it was unused before; then the call
created none for its e-mail, and what it counts is a wrong guess. -/
theorem unused_step {i : ℤ × Call} {c : Code} (hc : c ∈ (step lowercase db i).codes)
    (hu : c.used = false) :
    (∃ email n, i.2 = .create email n ∧ c =
        { id := db.nextId, email := emailKey lowercase email, code := sixDigits n,
          createdAt := stamp i.1, expiresAt := expiryAfter i.1 codeExpiryMinutes, attempts := 0,
          used := false }) ∨
      ∃ c₀ ∈ db.codes, c₀.used = false ∧ c.id = c₀.id ∧ c.email = c₀.email ∧ c.code = c₀.code ∧
        c.expiresAt = c₀.expiresAt ∧
        (∀ email n, i.2 = .create email n → emailKey lowercase email ≠ c₀.email) ∧
        c.attempts = c₀.attempts + if isWrongGuess lowercase db c₀.id i then 1 else 0 := by
  obtain ⟨now, call⟩ := i
  cases call with
  | create email n =>
    rcases List.mem_append.mp hc with hold | hnew
    · obtain ⟨c₀, h₀, rfl⟩ := List.mem_map.mp hold
      obtain ⟨heq, hu₀, hmail⟩ := Code.eq_of_replaced hu
      rw [heq]
      refine .inr ⟨c₀, h₀, hu₀, rfl, rfl, rfl, rfl, fun e m he => ?_, rfl⟩
      cases he
      exact hmail.symm
    · exact .inl ⟨email, n, rfl, List.mem_singleton.mp hnew⟩
  | verify email code =>
    refine .inr ?_
    change c ∈ (verifyCode lowercase db now email code).1.codes at hc
    -- a row used up by the call is not unused
    have hexpire : ∀ row, currentCode db (emailKey lowercase email) = some row →
        c ∈ (db.expire row.id).codes → ∃ c₀ ∈ db.codes, c₀.used = false ∧ c = c₀ ∧
          isWrongGuess lowercase db c₀.id (now, .verify email code) = false := by
      intro row hrow hc
      obtain ⟨c₀, h₀, ⟨-, rfl⟩ | ⟨hid, rfl⟩⟩ := mem_modifyCode hc
      · cases hu
      · exact ⟨c, h₀, hu, rfl, by simp [isWrongGuess, hrow, Ne.symm hid]⟩
    rcases verify_cases lowercase db now email code with
      ⟨hnone, heq⟩ | ⟨row, hrow, ⟨heq, -⟩ | ⟨heq, -, hwrong⟩ | ⟨heq, -⟩⟩
    · rw [heq] at hc
      exact ⟨c, hc, hu, rfl, rfl, rfl, rfl, fun _ _ h => (by cases h),
        by simp [isWrongGuess, hnone]⟩
    · obtain ⟨c₀, h₀, hu₀, rfl, hnot⟩ := hexpire row hrow (heq ▸ hc)
      exact ⟨c, h₀, hu₀, rfl, rfl, rfl, rfl, fun _ _ h => (by cases h), by simp [hnot]⟩
    · obtain ⟨c₀, h₀, ⟨hid, rfl⟩ | ⟨hid, rfl⟩⟩ := mem_modifyCode (heq ▸ hc)
      · exact ⟨c₀, h₀, hu, rfl, rfl, rfl, rfl, fun _ _ h => (by cases h),
          by simp [isWrongGuess, hrow, hid, hwrong]⟩
      · exact ⟨c, h₀, hu, rfl, rfl, rfl, rfl, fun _ _ h => (by cases h),
          by simp [isWrongGuess, hrow, Ne.symm hid]⟩
    · obtain ⟨c₀, h₀, hu₀, rfl, hnot⟩ := hexpire row hrow (heq ▸ hc)
      exact ⟨c, h₀, hu₀, rfl, rfl, rfl, rfl, fun _ _ h => (by cases h), by simp [hnot]⟩
  | isVerified email =>
    have hc : c ∈ db.codes := by
      rw [← codes_isEmailVerified lowercase db now email]
      exact hc
    exact .inr ⟨c, hc, hu, rfl, rfl, rfl, rfl, fun _ _ h => (by cases h), rfl⟩
  | clear email => exact .inr ⟨c, hc, hu, rfl, rfl, rfl, rfl, fun _ _ h => (by cases h), rfl⟩

/-! ## The table -/

/-- What holds of the rows at every moment: they are in the order of their numbers, and an unused
one is the last of its e-mail. -/
structure Sound (db : Store) : Prop where
  ordered : db.codes.Pairwise fun c d => c.id < d.id
  bounded : ∀ c ∈ db.codes, c.id < db.nextId
  latest : ∀ c ∈ db.codes, c.used = false → ∀ d ∈ db.codes, d.email = c.email → d.id ≤ c.id

namespace Sound

theorem empty : Sound empty :=
  ⟨List.Pairwise.nil, fun _ h => absurd h List.not_mem_nil, fun _ h => absurd h List.not_mem_nil⟩

theorem congr (h : Sound db) {db' : Store} (heq : db'.codes = db.codes) : Sound db' := by
  obtain ⟨codes, verified⟩ := db'
  subst heq
  exact ⟨h.ordered, h.bounded, h.latest⟩

/-- A change of the rows that makes none unused. -/
theorem map (h : Sound db) {f : Code → Code} (hid : ∀ c, (f c).id = c.id)
    (hemail : ∀ c, (f c).email = c.email) (hused : ∀ c, (f c).used = false → c.used = false) :
    Sound { db with codes := db.codes.map f } where
  ordered := List.pairwise_map.mpr (h.ordered.imp fun {c d} hcd => by rwa [hid c, hid d])
  bounded := fun c hc => by
    obtain ⟨c₀, h₀, rfl⟩ := List.mem_map.mp hc
    rw [hid c₀]
    simpa [Store.nextId] using h.bounded c₀ h₀
  latest := fun c hc hu d hd hmail => by
    obtain ⟨c₀, h₀, rfl⟩ := List.mem_map.mp hc
    obtain ⟨d₀, hd₀, rfl⟩ := List.mem_map.mp hd
    rw [hemail, hemail] at hmail
    rw [hid, hid]
    exact h.latest c₀ h₀ (hused c₀ hu) d₀ hd₀ hmail

theorem modifyCode (h : Sound db) (id : ℕ) {f : Code → Code} (hid : ∀ c, (f c).id = c.id)
    (hemail : ∀ c, (f c).email = c.email) (hused : ∀ c, (f c).used = false → c.used = false) :
    Sound (db.modifyCode id f) := by
  refine h.map (fun c => ?_) (fun c => ?_) fun c hu => ?_
  · split
    · exact hid c
    · rfl
  · split
    · exact hemail c
    · rfl
  · split at hu
    · exact hused c hu
    · exact hu

theorem expire (h : Sound db) (id : ℕ) : Sound (db.expire id) :=
  h.modifyCode id (fun _ => rfl) (fun _ => rfl) fun _ hu => by cases hu

theorem create (h : Sound db) (now : ℤ) (email : Word) (n : Fin 1000000) :
    Sound (createVerificationCode lowercase db now email n).1 := by
  have hmap : Sound { db with codes := db.codes.map (Code.replaced (emailKey lowercase email)) } :=
    h.map (Code.replaced_id _) (Code.replaced_email _) fun c hu => (Code.eq_of_replaced hu).2.1
  have hold : ∀ c ∈ db.codes.map (Code.replaced (emailKey lowercase email)),
      c.id < db.nextId ∧ (c.used = false → c.email ≠ emailKey lowercase email) := by
    intro c hc
    obtain ⟨c₀, h₀, rfl⟩ := List.mem_map.mp hc
    refine ⟨by rw [Code.replaced_id]; exact h.bounded c₀ h₀, fun hu => ?_⟩
    rw [Code.replaced_email]
    exact (Code.eq_of_replaced hu).2.2
  refine ⟨?_, fun c hc => ?_, fun c hc hu d hd hmail => ?_⟩
  · refine List.pairwise_append.mpr ⟨hmap.ordered, List.pairwise_singleton _ _, ?_⟩
    intro c hc d hd
    rw [List.mem_singleton] at hd
    subst hd
    exact (hold c hc).1
  · have hlen : (createVerificationCode lowercase db now email n).1.nextId = db.nextId + 1 := by
      simp [createVerificationCode, Store.nextId]
    rw [hlen]
    rcases List.mem_append.mp hc with hc | hc
    · have := (hold c hc).1
      omega
    · rw [List.mem_singleton] at hc
      subst hc
      exact Nat.lt_succ_self _
  · rcases List.mem_append.mp hc with hc | hc <;> rcases List.mem_append.mp hd with hd | hd
    · exact hmap.latest c hc hu d hd hmail
    · rw [List.mem_singleton] at hd
      subst hd
      exact absurd hmail.symm ((hold c hc).2 hu)
    · rw [List.mem_singleton] at hc
      subst hc
      exact (hold d hd).1.le
    · rw [List.mem_singleton] at hc hd
      rw [hc, hd]

theorem step (h : Sound db) (i : ℤ × Call) : Sound (step lowercase db i) := by
  obtain ⟨now, call⟩ := i
  cases call with
  | create email n => exact h.create now email n
  | verify email code =>
    change Sound (verifyCode lowercase db now email code).1
    rcases verify_cases lowercase db now email code with
      ⟨-, heq⟩ | ⟨row, -, ⟨heq, -⟩ | ⟨heq, -⟩ | ⟨heq, -⟩⟩
    · rw [heq]
      exact h
    · exact (h.expire row.id).congr heq
    · exact (h.modifyCode row.id (f := fun c => { c with attempts := c.attempts + 1 })
        (fun _ => rfl) (fun _ => rfl) fun _ hu => hu).congr heq
    · exact (h.expire row.id).congr heq
  | isVerified email => exact h.congr (codes_isEmailVerified lowercase _ now email)
  | clear email => exact h.congr rfl

/-- An e-mail has at most one unused code. -/
theorem single (h : Sound db) (key : Word) :
    (db.codes.filter fun c => c.isUnused key).length ≤ 1 := by
  have hordered := h.ordered.sublist (List.filter_sublist (p := fun c => c.isUnused key))
  generalize hl : db.codes.filter (fun c => c.isUnused key) = l at hordered ⊢
  have hmem : ∀ c ∈ l, c ∈ db.codes ∧ c.email = key ∧ c.used = false := fun c hc => by
    rw [← hl, List.mem_filter] at hc
    exact ⟨hc.1, Code.isUnused_iff.mp hc.2⟩
  rcases l with - | ⟨c, - | ⟨d, l⟩⟩
  · exact Nat.zero_le 1
  · exact le_rfl
  · obtain ⟨hc, hcmail, hcu⟩ := hmem c (by simp)
    obtain ⟨hd, hdmail, -⟩ := hmem d (by simp)
    have hlt : c.id < d.id := (List.pairwise_cons.mp hordered).1 d (by simp)
    have hle := h.latest c hc hcu d hd (hdmail.trans hcmail.symm)
    omega

end Sound

theorem nextId_le_step (i : ℤ × Call) : db.nextId ≤ (step lowercase db i).nextId := by
  obtain ⟨now, call⟩ := i
  cases call with
  | create email n => simp [step, createVerificationCode, Store.nextId]
  | verify email code =>
    change db.nextId ≤ (verifyCode lowercase db now email code).1.nextId
    rcases verify_cases lowercase db now email code with
      ⟨-, heq⟩ | ⟨row, -, ⟨heq, -⟩ | ⟨heq, -⟩ | ⟨heq, -⟩⟩
    · rw [heq]
    all_goals simp [Store.nextId, heq, Store.expire, Store.modifyCode]
  | isVerified email => simp [step, Store.nextId, codes_isEmailVerified]
  | clear email => exact le_rfl

/-! ## How a row came about -/

open Runs

variable {l : List (ℤ × Call)}

/-- The row was created by a call of the run, and none was created for its e-mail since. -/
def Newest (lowercase : Word → Word) (l : List (ℤ × Call)) (c : Code) : Prop :=
  ∃ l₁ now email n l₂, l = l₁ ++ (now, .create email n) :: l₂ ∧
    c.id = (run (step lowercase) empty l₁).nextId ∧ c.email = emailKey lowercase email ∧
    c.code = sixDigits n ∧ c.expiresAt = expiryAfter now codeExpiryMinutes ∧
    ∀ i ∈ l₂, ∀ email' m, i.2 = .create email' m → emailKey lowercase email' ≠ c.email

/-- What holds of the table after the calls `l`. -/
structure Recorded (lowercase : Word → Word) (l : List (ℤ × Call)) (db : Store) : Prop where
  sound : Sound db
  newest : ∀ c ∈ db.codes, c.used = false → Newest lowercase l c
  attempts : ∀ c ∈ db.codes, c.used = false →
    c.attempts = count (step lowercase) (fun db i => isWrongGuess lowercase db c.id i) empty l
  fresh : ∀ id, db.nextId ≤ id →
    count (step lowercase) (fun db i => isWrongGuess lowercase db id i) empty l = 0

theorem isWrongGuess_of_fresh (h : Sound db) {id : ℕ} (hid : db.nextId ≤ id) (i : ℤ × Call) :
    isWrongGuess lowercase db id i = false := by
  obtain ⟨now, call⟩ := i
  cases call with
  | verify email code =>
    dsimp only [isWrongGuess]
    cases hrow : currentCode db (emailKey lowercase email) with
    | none => rfl
    | some row =>
      have := h.bounded row (currentCode_mem hrow).1
      have hne : row.id ≠ id := by omega
      simp [hne]
  | _ => rfl

theorem recorded_of_run (lowercase : Word → Word) (l : List (ℤ × Call)) :
    Recorded lowercase l (run (step lowercase) empty l) := by
  refine run_history (step lowercase) (P := Recorded lowercase)
    ⟨.empty, fun _ h => absurd h List.not_mem_nil, fun _ h => absurd h List.not_mem_nil,
      fun _ _ => rfl⟩ (fun l i h => ?_) l
  generalize hdb : run (step lowercase) empty l = db at h ⊢
  have hcount : ∀ id, count (step lowercase) (fun db i => isWrongGuess lowercase db id i) empty
      (l ++ [i]) = count (step lowercase) (fun db i => isWrongGuess lowercase db id i) empty l +
        if isWrongGuess lowercase db id i then 1 else 0 := by
    intro id
    rw [count_append, hdb, count_cons, count_nil, Nat.add_zero]
  refine ⟨h.sound.step i, fun c hc hu => ?_, fun c hc hu => ?_, fun id hid => ?_⟩
  · rcases unused_step hc hu with ⟨email, n, hi, rfl⟩ |
      ⟨c₀, h₀, hu₀, hid, hmail, hcode, hexp, hother, -⟩
    · exact ⟨l, i.1, email, n, [], by rw [← hi], by rw [hdb], rfl, rfl, rfl,
        fun _ hj => absurd hj List.not_mem_nil⟩
    · obtain ⟨l₁, now, email, n, l₂, rfl, hnum, hkey, hdigits, hexp₀, hlast⟩ := h.newest c₀ h₀ hu₀
      refine ⟨l₁, now, email, n, l₂ ++ [i], by simp, hid.trans hnum, hmail.trans hkey,
        hcode.trans hdigits, hexp.trans hexp₀, fun j hj => ?_⟩
      rw [hmail]
      rcases List.mem_append.mp hj with hj | hj
      · exact hlast j hj
      · rw [List.mem_singleton] at hj
        subst hj
        exact hother
  · rw [hcount]
    rcases unused_step hc hu with ⟨email, n, hi, rfl⟩ | ⟨c₀, h₀, hu₀, hid, -, -, -, -, hatt⟩
    · rw [h.fresh db.nextId le_rfl, isWrongGuess_of_fresh h.sound le_rfl]
      rfl
    · rw [hatt, hid, h.attempts c₀ h₀ hu₀]
  · have hid : db.nextId ≤ id := (nextId_le_step i).trans hid
    rw [hcount, h.fresh id hid, isWrongGuess_of_fresh h.sound hid]
    rfl

/-! ## Acceptance -/

theorem Accepts.spec {i : ℤ × Call} {row : Code} (h : Accepts lowercase db i row) :
    (∃ email, i.2 = .verify email row.code ∧ row.email = emailKey lowercase email) ∧
      row ∈ db.codes ∧ row.used = false ∧ row.isExpired i.1 = false ∧
      row.attempts < maxAttempts ∧
      (step lowercase db i).codes = (db.expire row.id).codes := by
  obtain ⟨now, call⟩ := i
  obtain ⟨email, code, hcall, hrow, hok⟩ := h
  obtain rfl : call = .verify email code := hcall
  obtain ⟨hmem, hunused⟩ := currentCode_mem hrow
  obtain ⟨hmail, hu⟩ := Code.isUnused_iff.mp hunused
  rcases verify_cases lowercase db now email code with
    ⟨hnone, -⟩ | ⟨row', hrow', ⟨-, hno⟩ | ⟨-, hno, -⟩ | ⟨hcodes, -, hcode, hexp, hatt⟩⟩
  · rw [hnone] at hrow
    cases hrow
  · rw [hno] at hok
    cases hok
  · rw [hno] at hok
    cases hok
  · obtain rfl := Option.some.inj (hrow.symm.trans hrow')
    exact ⟨⟨email, by rw [hcode], hmail⟩, hmem, hu, hexp, hatt, hcodes⟩

/-- The code of a number has been used up. -/
def Spent (id : ℕ) (db : Store) : Prop :=
  id < db.nextId ∧ ∀ c ∈ db.codes, c.id = id → c.used = true

theorem Spent.step {id : ℕ} (h : Spent id db) (i : ℤ × Call) :
    Spent id (step lowercase db i) := by
  refine ⟨lt_of_lt_of_le h.1 (nextId_le_step i), fun c hc hid => ?_⟩
  by_contra hu
  rw [Bool.not_eq_true] at hu
  rcases unused_step hc hu with ⟨email, n, -, rfl⟩ | ⟨c₀, h₀, hu₀, hid₀, -⟩
  · exact absurd h.1 (by rw [← hid]; exact lt_irrefl _)
  · rw [h.2 c₀ h₀ (hid₀.symm.trans hid)] at hu₀
    cases hu₀

theorem Accepts.spent (hs : Sound db) {i : ℤ × Call} {row : Code}
    (h : Accepts lowercase db i row) : Spent row.id (Codes.step lowercase db i) := by
  obtain ⟨-, hmem, -, -, -, hcodes⟩ := h.spec
  refine ⟨lt_of_lt_of_le (hs.bounded row hmem) (nextId_le_step i), fun c hc hid => ?_⟩
  rw [hcodes] at hc
  obtain ⟨c₀, -, ⟨-, rfl⟩ | ⟨hne, rfl⟩⟩ := mem_modifyCode hc
  · rfl
  · exact absurd hid hne

/-- **Codes are single-use and guess-limited**, in every run of the calls: an e-mail has at most
one unused code, and a code that is accepted is the newest one of its e-mail, has not expired,
has had fewer than `maxAttempts` wrong guesses, and is never accepted again. -/
theorem accepted_of_run (lowercase : Word → Word) (l : List (ℤ × Call)) :
    (∀ key, ((run (step lowercase) empty l).codes.filter fun c => c.isUnused key).length ≤ 1) ∧
      ∀ i row, Accepts lowercase (run (step lowercase) empty l) i row →
        (∃ email, i.2 = .verify email row.code ∧ row.email = emailKey lowercase email) ∧
          row.isExpired i.1 = false ∧ Newest lowercase l row ∧
          count (step lowercase) (fun db j => isWrongGuess lowercase db row.id j) empty l <
            maxAttempts ∧
          ∀ l', Along (step lowercase)
            (fun db j => ∀ row', Accepts lowercase db j row' → row'.id ≠ row.id)
            (step lowercase (run (step lowercase) empty l) i) l' := by
  have h := recorded_of_run lowercase l
  refine ⟨h.sound.single, fun i row hacc => ?_⟩
  obtain ⟨hcall, hmem, hu, hexp, hatt, -⟩ := hacc.spec
  refine ⟨hcall, hexp, h.newest row hmem hu, h.attempts row hmem hu ▸ hatt, fun l' => ?_⟩
  have hspent := hacc.spent h.sound
  clear hacc
  generalize step lowercase (run (step lowercase) empty l) i = db at hspent
  induction l' generalizing db with
  | nil => trivial
  | cons j l' ih =>
    refine ⟨fun row' hacc hid => ?_, ih _ (hspent.step j)⟩
    obtain ⟨-, hmem', hu', -⟩ := hacc.spec
    rw [hspent.2 row' hmem' hid] at hu'
    cases hu'

end Codes

end ScrabbleMagyar
