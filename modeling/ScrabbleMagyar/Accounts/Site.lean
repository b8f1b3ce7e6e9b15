import ScrabbleMagyar.Accounts.Password
import ScrabbleMagyar.Admin.Moderation
import ScrabbleMagyar.Db.Codes

/-!
# Accounts and sessions

An account is registered with an address that a code has confirmed, a session is opened with the
password of an account, and administrators look after both from sessions of their own
(`db/users.rs`, `admin/users.rs`, `admin/security.rs`, `admin/session.rs`, and the handlers of
`server/http.rs` and `admin/routes.rs`).

A request asks the database one transaction after the other, and those of other requests may come in
between. So the requests in flight are part of the state, each by what it asks next (`Task`), and a
step is one transaction (`next`). Times are in nanoseconds and stored in seconds, as in `Db.Codes`.
-/

namespace ScrabbleMagyar.Accounts

open Admin Password
open Codes (emailKey stamp parseStamp expiryAfter createVerificationCode isEmailVerified
  clearEmailVerification)

/-- For how many days a login holds (`SESSION_MAX_AGE_DAYS`). -/
def sessionMaxAgeDays : ℤ := 30

/-- After how many seconds the time of the last request of a session is written down again. -/
def sessionSeenInterval : ℤ := 300

/-- The same for the requests of an administrator. -/
def touchIntervalSeconds : ℤ := 15

/-- The end of the year 9999. -/
def permanentUntil : ℤ := 253402300799

/-- A row of `users`. -/
structure User where
  id : ℕ
  email : Word
  emailLower : Word
  displayName : Word
  passwordHash : Word
  bannedUntil : Option ℤ
  banReason : Option Word
  deletedAt : Option ℤ
  deriving DecidableEq

/-- A row of `sessions`. -/
structure Session where
  id : ℕ
  userId : ℕ
  token : Word
  expiresAt : ℤ
  lastSeen : Option ℤ
  adminSeenAt : Option ℤ
  sudoUntil : Option ℤ
  deriving DecidableEq

/-- A ban, as a login that it refuses is told of it. -/
structure Ban where
  reason : Word
  expires : Option ℤ
  permanent : Bool
  deriving DecidableEq

/-- What a request is answered: the status, the message, and what else depends on the case. -/
structure Answer where
  status : ℕ
  message : String
  field : Option String := none
  token : Option Word := none
  banned : Option Ban := none
  devCode : Option Word := none
  deriving DecidableEq

/-- What the server is set up with, and what it takes from other packages. -/
structure Config where
  kdf : Pbkdf2
  unicode : Moderation.Unicode
  isAlphanumeric : Char → Bool
  isWordChar : Char → Bool
  parseBound : Word → Except AdminError ℤ
  adminEmails : List Word
  idleMinutes : ℕ
  sudoMinutes : ℕ

/-- What a step finds outside the database: the time, what is drawn, the settings, and what the
limits say of the sender. -/
structure Env where
  now : ℤ
  token : Word
  salt : List (Fin 62)
  password : Word
  digits : Fin 1000000
  registrationOpen : Bool
  bannedWords : List Word
  mailerConfigured : Bool
  limited : Bool
  dangerLimited : Bool
  passwordLimited : Bool
  ipAllowed : Bool
  sameOrigin : Bool

/-! ## What the panel is asked to do -/

/-- How much of a confirmation a deed of an administrator takes. -/
inductive Level
  | normal
  | danger
  | withSudo
  deriving DecidableEq

/-- What an administrator asks for. What leaves accounts and sessions as they are is `other`. -/
inductive Deed
  | reauth (password : Option Word)
  | sudoStart (password : Option Word)
  | sudoEnd
  | rename (userId : ℕ) (name : Option Word)
  | changeEmail (userId : ℕ) (email : Option Word)
  | resetPassword (userId : ℕ)
  | logoutAll (userId : ℕ)
  | ban (userId : ℕ) (expires : Option Json)
  | unban (userId : ℕ)
  | deleteUser (userId : ℕ) (mode : Option Json) (confirmName : Option Word)
  | revokeSession (sessionId : ℕ)
  | revokeAllSessions
  | closeOtherAdminSessions
  | other (level : Level) (exempt : Bool)

namespace Deed

/-- The level at which the route of a deed is registered. -/
def level : Deed → Level
  | ban _ _ | resetPassword _ | deleteUser _ _ _ | revokeAllSessions => .withSudo
  | logoutAll _ | revokeSession _ | closeOtherAdminSessions => .danger
  | other level _ => level
  | _ => .normal

/-- A change of the address asks for the confirmation itself. -/
def needsSudo : Deed → Bool
  | changeEmail _ _ => true
  | d => d.level = .withSudo

/-- What can be done in a session that has been idle. -/
def idleExempt : Deed → Bool
  | reauth _ => true
  | other _ exempt => exempt
  | _ => false

/-- The password that goes with a deed, where there must be one. -/
def confirmation : Deed → Option (Option Word)
  | reauth password | sudoStart password => some password
  | _ => none

end Deed

/-- A request to the panel, from the session of an administrator. A name and an address can be
changed by one request; any other asks for one deed. -/
structure Request where
  userId : ℕ
  email : Word
  token : Word
  deeds : List Deed
  reason : Option Word

/-- What a registration gives. -/
structure Applicant where
  email : Word
  name : Word
  password : Word

/-- A request in flight, by the transaction that comes next. -/
inductive Task
  | createCode (email : Word)
  | isVerified (a : Applicant)
  | isFree (a : Applicant)
  | insert (a : Applicant)
  | clear (email : Word) (userId : ℕ)
  | openSession (email : Word) (userId : ℕ) (message : String)
  | touchOpened (token : Word) (message : String)
  | idle (q : Request)
  | touch (q : Request)
  | sudoActive (q : Request)
  | password (q : Request) (password : Word)
  | carryOut (q : Request)

/-- A request asks for another transaction, or it is answered. -/
inductive Outcome
  | asks (t : Task)
  | answers (a : Answer)

/-- The tables, with the numbers of their next rows, and the requests in flight. -/
structure Site where
  users : List User
  sessions : List Session
  codes : Codes.Store
  nextUser : ℕ
  nextSession : ℕ
  tasks : Table ℕ Task

/-- The database of a new installation. -/
def Site.empty : Site := ⟨[], [], Codes.empty, 1, 1, ∅⟩

/-! ## Bans and addresses -/

/-- Whether a moment is still to come. -/
def untilActive (moment : Option ℤ) (now : ℤ) : Bool := moment.any fun t => now < parseStamp t

/-- The ban in two columns of a row, if it is not over. -/
def banFromParts (bannedUntil : Option ℤ) (banReason : Option Word) (now : ℤ) : Option Ban :=
  if untilActive bannedUntil now then
    let permanent := bannedUntil = some permanentUntil
    some ⟨banReason.getD [], if permanent then none else bannedUntil, permanent⟩
  else none

/-- The ban of an account at a time. -/
def User.ban (u : User) (now : ℤ) : Option Ban := banFromParts u.bannedUntil u.banReason now

/-- `EMAIL_RE`. -/
def isEmail (text : Word) : Bool :=
  let isHost (c : Char) := c.isAlphanum || c = '-'
  match text.splitOn '@' with
  | [user, host] =>
    match (host.splitOn '.').reverse with
    | top :: rest =>
      !user.isEmpty && user.all (fun c => c.isAlphanum || "._%+-".toList.contains c) &&
        2 ≤ top.length && top.all Char.isAlpha && !rest.isEmpty && rest ≠ [[]] &&
        rest.all fun label => label.all isHost
    | [] => false
  | _ => false

section Definitions

variable (cfg : Config)

/-- Whether an address is one of an administrator. -/
def Config.isAdminEmail (email : Word) : Bool :=
  !cfg.adminEmails.isEmpty && cfg.adminEmails.contains (cfg.unicode.lowercase (trim email))

/-- A name of a player, as it is registered. -/
def sanitizeName (name : Word) : Option Word :=
  let text := trim name
  if text.isEmpty || 20 < text.length then none
  else if text.all fun c =>
      cfg.isAlphanumeric c || c = '_' || isWhitespace c || ".-".toList.contains c then
    some text
  else none

/-- `NAME_RE`, which the panel looks at. -/
def nameRe (text : Word) : Bool :=
  !text.isEmpty && text.length ≤ 20 &&
    text.all fun c => cfg.isWordChar c || isWhitespace c || "._-".toList.contains c

/-- A name of a player, as the panel takes it. -/
def validName (value : Option Word) : Option Word :=
  (value.map trim).filter fun name => !name.isEmpty && name.length ≤ 20 && nameRe cfg name

/-- When a ban ends. -/
def parseUntil (value : Option Json) (permanentOk : Bool) (now : ℤ) : Except AdminError ℤ :=
  let hour : ℤ := 3600 * 10 ^ 9
  let permanent : Except AdminError ℤ :=
    if permanentOk then .ok permanentUntil
    else .error ⟨"Érvénytelen időtartam.", 400, some "until"⟩
  match value with
  | none | some .null => permanent
  | some (.str text) =>
    if text = "permanent" then permanent
    else if text = "1h" then .ok (stamp (now + hour))
    else if text = "1d" then .ok (stamp (now + 24 * hour))
    else if text = "7d" then .ok (stamp (now + 7 * 24 * hour))
    else if text = "30d" then .ok (stamp (now + 30 * 24 * hour))
    else do
      let moment ← cfg.parseBound text.toList
      if parseStamp moment ≤ now then .error ⟨"A lejárat nem lehet a múltban.", 400, some "until"⟩
      else .ok moment
  | some _ => .error ⟨"Érvénytelen időtartam.", 400, some "until"⟩

/-- The name that a deleted account is shown under. -/
def deletedName (id : ℕ) : Word := s!"Törölt felhasználó #{id}".toList

/-- The address that is put in the place of the one of a deleted account. -/
def deletedEmail (id : ℕ) : Word := s!"deleted-{id}@deleted.invalid".toList

namespace Site

variable (s : Site)

/-! ## The tables -/

/-- The account of an address. -/
def userByEmail (email : Word) : Option User :=
  s.users.find? fun u => u.emailLower = emailKey cfg.unicode.lowercase email

/-- The account of a number. -/
def userById (id : ℕ) : Option User := s.users.find? fun u => u.id = id

/-- The session of a token; a missing cookie is the empty token. -/
def sessionOf (token : Word) : Option Session :=
  if token.isEmpty then none else s.sessions.find? fun r => r.token = token

/-- Change some of the sessions. -/
def modifySessions (p : Session → Bool) (f : Session → Session) : Site :=
  { s with sessions := s.sessions.map fun r => if p r then f r else r }

/-- Delete some of the sessions. -/
def deleteSessions (p : Session → Bool) : Site :=
  { s with sessions := s.sessions.filter fun r => !p r }

/-- Change the row of an account. -/
def modifyUser (id : ℕ) (f : User → User) : Site :=
  { s with users := s.users.map fun u => if u.id = id then f u else u }

/-- A new account; `none` if its address is taken. -/
def insertUser (env : Env) (a : Applicant) : Option Site :=
  let key := emailKey cfg.unicode.lowercase a.email
  if s.users.any fun u => u.emailLower = key then none
  else
    some { s with
      users := s.users ++
        [{ id := s.nextUser, email := trim a.email, emailLower := key, displayName := trim a.name,
           passwordHash := generatePasswordHash cfg.kdf env.salt a.password,
           bannedUntil := none, banReason := none, deletedAt := none }]
      nextUser := s.nextUser + 1 }

/-- A new session; `none` if its token is in use or its account is gone. -/
def createSession (env : Env) (userId : ℕ) : Option Site :=
  if s.sessions.any (fun r => r.token = env.token) || (s.userById userId).isNone then none
  else
    some { s with
      sessions := s.sessions ++
        [{ id := s.nextSession, userId := userId, token := env.token,
           expiresAt := stamp (env.now + sessionMaxAgeDays * 24 * 3600 * 10 ^ 9),
           lastSeen := some (stamp env.now), adminSeenAt := none, sudoUntil := none }]
      nextSession := s.nextSession + 1 }

/-- The account of an address with this password. -/
def verifyPassword (email password : Word) : Except String User :=
  match s.userByEmail cfg email with
  | none => .error "Hibás email cím vagy jelszó."
  | some u =>
    if u.deletedAt.isSome || u.passwordHash.isEmpty then .error "Hibás email cím vagy jelszó."
    else if checkPasswordHash cfg.kdf u.passwordHash password then .ok u
    else .error "Hibás email cím vagy jelszó."

/-- Whole seconds, towards zero. -/
def seconds (span : ℤ) : ℤ := span.tdiv (10 ^ 9)

/-- The user of a token, if its session is valid: neither over nor of an account that is banned or
deleted. -/
def validateSession (now : ℤ) (token : Word) : Site × Option User :=
  match s.sessionOf token with
  | none => (s, none)
  | some r =>
    match s.userById r.userId with
    | none => (s, none)
    | some u =>
      if parseStamp r.expiresAt < now then (s.deleteSessions fun r' => r'.id = r.id, none)
      else if u.deletedAt.isSome || (u.ban now).isSome then (s, none)
      else if r.lastSeen.all fun seen => sessionSeenInterval < seconds (now - parseStamp seen) then
        (s.modifySessions (fun r' => r'.id = r.id) fun r => { r with lastSeen := some (stamp now) },
          some u)
      else (s, some u)

/-- Delete a session (`logout`). -/
def deleteSession (token : Word) : Site :=
  if token.isEmpty then s else s.deleteSessions fun r => r.token = token

/-- Write down the time of a request of an administrator. -/
def touchAdminSession (now : ℤ) (token : Word) : Site :=
  s.modifySessions (fun r => r.token = token) fun r => { r with adminSeenAt := some (stamp now) }

/-- What is over is deleted. The rows of codes that are over stay, since the numbers of `Db.Codes`
count on them; nothing accepts them any more. -/
def cleanupExpired (now : ℤ) : Site :=
  { s.deleteSessions fun r => r.expiresAt < stamp now with
    codes := { s.codes with verified := s.codes.verified.retain fun _ t => stamp now ≤ t } }

/-! ## The session of an administrator -/

/-- How long a session may still be idle, and for how long its password confirmation still holds. -/
structure SessionStatus where
  idleRemaining : ℤ
  sudoRemaining : ℤ
  seenAt : Option ℤ

/-- The seconds until a moment, none if it is over. -/
def secondsUntil (moment : Option ℤ) (now : ℤ) : ℤ :=
  match moment with
  | some t => max 0 (seconds (parseStamp t - now))
  | none => 0

/-- How long the session of a token may still be used in the panel. -/
def sessionStatus (now : ℤ) (token : Word) : Option SessionStatus :=
  (s.sessionOf token).map fun r =>
    let idleRemaining := match r.adminSeenAt with
      | none => 0
      | some seen => max 0 ((cfg.idleMinutes : ℤ) * 60 - seconds (now - parseStamp seen))
    { idleRemaining := idleRemaining
      -- a confirmation does not outlive the idle time
      sudoRemaining := if idleRemaining ≤ 0 then 0 else secondsUntil r.sudoUntil now
      seenAt := r.adminSeenAt }

/-- Whether the time of the last request is written down again. -/
def SessionStatus.isStale (status : SessionStatus) (now : ℤ) : Bool :=
  status.seenAt.all fun seen => touchIntervalSeconds ≤ seconds (now - parseStamp seen)

/-- The session of an administrator begins anew; its password confirmation is over. -/
def reauth (now : ℤ) (token : Word) : Site :=
  s.modifySessions (fun r => r.token = token) fun r =>
    { r with adminSeenAt := some (stamp now), sudoUntil := none }

/-- The password has been confirmed for the deeds that take it. -/
def grantSudo (now : ℤ) (token : Word) : Site :=
  s.modifySessions (fun r => r.token = token) fun r =>
    { r with sudoUntil := some (expiryAfter now cfg.sudoMinutes), adminSeenAt := some (stamp now) }

/-- The confirmation of the password is over. -/
def endSudo (now : ℤ) (token : Word) : Site :=
  s.modifySessions (fun r => r.token = token) fun r =>
    { r with sudoUntil := none, adminSeenAt := some (stamp now) }

/-! ## Accounts in the panel -/

/-- The row of an account that the panel names. -/
def getRow (userId : ℕ) : Except AdminError User :=
  match s.userById userId with
  | some u => .ok u
  | none => .error ⟨"Felhasználó nem található.", 404, none⟩

/-- The row of an account that can be looked after: not one of an administrator, nor a deleted
one. -/
def manageable (userId : ℕ) : Except AdminError User := do
  let u ← s.getRow userId
  if cfg.isAdminEmail u.emailLower then
    .error ⟨"Admin fiókon ez a művelet nem végezhető.", 403, none⟩
  else if u.deletedAt.isSome then .error ⟨"A fiók törölve van.", 409, none⟩
  else .ok u

/-- Give an account another name. -/
def rename (userId : ℕ) (name reason : Option Word) : Except AdminError Site :=
  match validName cfg name with
  | none =>
    .error ⟨"Érvénytelen megjelenítési név (1-20 karakter, betűk és számok).", 400,
      some "display_name"⟩
  | some name => do
    let _ ← normalizeReason reason
    let u ← s.manageable cfg userId
    if u.displayName = name then .error ⟨"A név nem változott.", 409, some "display_name"⟩
    else .ok (s.modifyUser userId fun u => { u with displayName := name })

/-- Give an account another address. -/
def changeEmail (userId : ℕ) (newEmail reason : Option Word) : Except AdminError Site :=
  let email := (newEmail.map trim).getD []
  let lowered := cfg.unicode.lowercase email
  if !isEmail email || 254 < email.length then
    .error ⟨"Érvénytelen email cím.", 400, some "email"⟩
  else if cfg.adminEmails.contains lowered then
    .error ⟨"Ez a cím védett, más fiók nem veheti fel.", 403, some "email"⟩
  else do
    let _ ← normalizeReason reason
    let u ← s.manageable cfg userId
    if lowered = u.emailLower then .error ⟨"Az e-mail cím nem változott.", 409, some "email"⟩
    else if s.users.any fun u => u.emailLower = lowered then
      .error ⟨"Ez az email cím már regisztrálva van.", 409, some "email"⟩
    else .ok (s.modifyUser userId fun u => { u with email := email, emailLower := lowered })

/-- Give an account a drawn password; its sessions are closed. -/
def resetPassword (env : Env) (userId : ℕ) (reason : Option Word) : Except AdminError Site := do
  let hash := generatePasswordHash cfg.kdf env.salt env.password
  let _ ← normalizeReason reason
  let _ ← s.manageable cfg userId
  return (s.modifyUser userId fun u => { u with passwordHash := hash }).deleteSessions fun r =>
    r.userId = userId

/-- Close the sessions of an account. -/
def logoutAll (userId : ℕ) (reason : Option Word) : Except AdminError Site := do
  let _ ← normalizeReason reason
  let _ ← s.manageable cfg userId
  return s.deleteSessions fun r => r.userId = userId

/-- Ban an account and close its sessions. -/
def ban (now : ℤ) (userId : ℕ) (expires : Option Json) (reason : Option Word) :
    Except AdminError Site := do
  let moment ← parseUntil cfg expires true now
  let text ← normalizeReason reason
  let _ ← s.manageable cfg userId
  return (s.modifyUser userId fun u =>
    { u with bannedUntil := some moment, banReason := some text }).deleteSessions fun r =>
      r.userId = userId

/-- Lift the ban of an account. -/
def unban (userId : ℕ) (reason : Option Word) : Except AdminError Site := do
  let _ ← normalizeReason reason
  let u ← s.getRow userId
  if u.bannedUntil.isNone then .error ⟨"A felhasználó nincs kitiltva.", 409, none⟩
  else .ok (s.modifyUser userId fun u => { u with bannedUntil := none, banReason := none })

/-- Whether the row is deleted with the account. -/
def deletionMode (mode : Option Json) : Except AdminError Bool :=
  match mode with
  | none | some .null => .ok false
  | some (.str m) =>
    if m = "anonymize" then .ok false
    else if m = "delete" then .ok true
    else .error ⟨"Érvénytelen kérés.", 400, some "mode"⟩
  | some _ => .error ⟨"Érvénytelen kérés.", 400, some "mode"⟩

/-- The row of an account without what tells whose it was. -/
def anonymized (now : ℤ) (u : User) : User :=
  { u with
    displayName := deletedName u.id, email := deletedEmail u.id, emailLower := deletedEmail u.id
    passwordHash := [], bannedUntil := none, banReason := none, deletedAt := some (stamp now) }

/-- Delete an account or take from it what tells whose it was, and close its sessions. -/
def deleteUser (now : ℤ) (userId : ℕ) (mode : Option Json) (confirmName reason : Option Word) :
    Except AdminError Site := do
  let deletes ← deletionMode mode
  let _ ← normalizeReason reason
  let u ← s.manageable cfg userId
  let closed := s.deleteSessions fun r => r.userId = userId
  if confirmName.map trim ≠ some u.displayName then
    .error ⟨"A megerősítő név nem egyezik.", 400, some "confirm_name"⟩
  else if deletes then .ok { closed with users := s.users.filter fun u => u.id ≠ userId }
  -- another account may have the address that is put in the place of the deleted one
  else if s.users.any fun u => u.id ≠ userId ∧ u.emailLower = deletedEmail userId then
    .error ⟨"Adatbázis-hiba.", 500, none⟩
  else .ok (closed.modifyUser userId (anonymized now))

/-! ## Sessions in the panel -/

/-- Close a session other than one's own. -/
def revokeSession (sessionId : ℕ) (reason : Option Word) (token : Word) :
    Except AdminError Site := do
  let _ ← normalizeReason reason
  match s.sessions.find? fun r => r.id = sessionId with
  | none => .error ⟨"A munkamenet nem található.", 404, none⟩
  | some r =>
    if !token.isEmpty && token = r.token then
      .error ⟨"A saját munkameneted nem zárható be.", 409, none⟩
    else .ok (s.deleteSessions fun r => r.id = sessionId)

/-- Close all sessions but one's own. -/
def revokeAllSessions (keepToken : Word) (reason : Option Word) : Except AdminError Site := do
  let _ ← normalizeReason reason
  return s.deleteSessions fun r => r.token ≠ keepToken

/-- Whether the account of a session is one of an administrator. -/
def ofAdmin (r : Session) : Bool :=
  s.users.any fun u => u.id = r.userId && cfg.adminEmails.contains u.emailLower

/-- Close the other sessions of administrators. -/
def closeOtherAdminSessions (keepToken : Word) (reason : Option Word) : Except AdminError Site :=
  if cfg.adminEmails.isEmpty then .ok s
  else do
    let _ ← normalizeReason reason
    return s.deleteSessions fun r => r.token ≠ keepToken ∧ s.ofAdmin cfg r

/-- The database after a deed of a request. -/
def perform (env : Env) (q : Request) : Deed → Except AdminError Site
  | .reauth _ => .ok (s.reauth env.now q.token)
  | .sudoStart _ => .ok (s.grantSudo cfg env.now q.token)
  | .sudoEnd => .ok (s.endSudo env.now q.token)
  | .rename userId name => s.rename cfg userId name q.reason
  | .changeEmail userId email => s.changeEmail cfg userId email q.reason
  | .resetPassword userId => s.resetPassword cfg env userId q.reason
  | .logoutAll userId => s.logoutAll cfg userId q.reason
  | .ban userId expires => s.ban cfg env.now userId expires q.reason
  | .unban userId => s.unban userId q.reason
  | .deleteUser userId mode confirmName => s.deleteUser cfg env.now userId mode confirmName q.reason
  | .revokeSession sessionId => s.revokeSession sessionId q.reason q.token
  | .revokeAllSessions => s.revokeAllSessions q.token q.reason
  | .closeOtherAdminSessions => s.closeOtherAdminSessions cfg q.token q.reason
  | .other _ _ => .ok s

end Site

/-! ## Requests -/

/-- An answer with a status and a message. -/
def refuse (status : ℕ) (message : String) : Outcome :=
  .answers { status := status, message := message }

/-- An error of the panel, as it is answered. -/
def AdminError.answer (e : AdminError) : Answer :=
  { status := e.status, message := e.message, field := e.field }

/-- What the panel answers when it does not want to be found. -/
def notFound : Outcome := refuse 404 "Not Found"

/-- The handler of a request. -/
def handle (env : Env) (q : Request) : Outcome :=
  match q.deeds.findSome? Deed.confirmation with
  | none => .asks (.carryOut q)
  | some given =>
    if env.passwordLimited then refuse 429 "Túl sok jelszópróbálkozás. Próbáld újra 5 perc múlva."
    else
      match given.filter fun p => !p.isEmpty && p.length ≤ 128 with
      | none => refuse 400 "A jelszó megadása kötelező."
      | some password => .asks (.password q password)

/-- The route of a request: the limit of what is dangerous, and the password confirmation. -/
def dispatch (env : Env) (q : Request) : Outcome :=
  if env.dangerLimited && q.deeds.any fun d => d.level ≠ .normal then
    refuse 429 "Túl sok kérés. Várj egy kicsit."
  else if q.deeds.any Deed.needsSudo then .asks (.sudoActive q)
  else handle env q

/-- The database after the next transaction of a request, and how the request goes on. -/
def next (env : Env) (s : Site) : Task → Site × Outcome
  | .createCode email =>
    let (codes, code) := createVerificationCode cfg.unicode.lowercase s.codes env.now email env.digits
    ({ s with codes := codes },
      if env.mailerConfigured then
        .answers { status := 200, message := "Verifikációs kód elküldve." }
      else
        -- the code of an administrator is not shown: it would make one of anybody
        .answers { status := 200, message := "Fejlesztői mód: SMTP nincs konfigurálva.",
                   devCode := if cfg.isAdminEmail email then none else some code })
  | .isVerified a =>
    let (codes, verified) := isEmailVerified cfg.unicode.lowercase s.codes env.now a.email
    ({ s with codes := codes },
      if verified then .asks (.isFree a)
      else refuse 403 "Az email címet előbb meg kell erősíteni a kóddal.")
  | .isFree a =>
    (s, if (s.userByEmail cfg a.email).isSome then refuse 409 "Ez az email cím már regisztrálva van."
      else .asks (.insert a))
  | .insert a =>
    match s.insertUser cfg env a with
    | none => (s, refuse 409 "Ez az email cím már regisztrálva van.")
    | some s' => (s', .asks (.clear a.email s.nextUser))
  | .clear email userId =>
    ({ s with codes := clearEmailVerification cfg.unicode.lowercase s.codes email },
      .asks (.openSession email userId "Fiók létrehozva!"))
  | .openSession email userId message =>
    match s.createSession env userId with
    | none => (s, refuse 500 "Belső hiba.")
    | some s' =>
      (s', if cfg.isAdminEmail email then .asks (.touchOpened env.token message)
        else .answers { status := 200, message := message, token := some env.token })
  | .touchOpened token message =>
    (s.touchAdminSession env.now token,
      .answers { status := 200, message := message, token := some token })
  | .idle q =>
    (s, match s.sessionStatus cfg env.now q.token with
      | none => refuse 401 "A munkamenet lejárt, add meg újra a jelszavad."
      | some status =>
        if status.idleRemaining ≤ 0 then refuse 401 "A munkamenet lejárt, add meg újra a jelszavad."
        else if status.isStale env.now then .asks (.touch q)
        else dispatch env q)
  | .touch q => (s.touchAdminSession env.now q.token, dispatch env q)
  | .sudoActive q =>
    (s, match s.sessionStatus cfg env.now q.token with
      | none => refuse 401 "Ehhez a művelethez jelszó-megerősítés (sudo) szükséges."
      | some status =>
        if 0 < status.sudoRemaining then handle env q
        else refuse 401 "Ehhez a művelethez jelszó-megerősítés (sudo) szükséges.")
  | .password q password =>
    (s, match s.verifyPassword cfg q.email password with
      | .error _ => refuse 403 "Hibás jelszó."
      | .ok _ => .asks (.carryOut q))
  | .carryOut q =>
    match q.deeds with
    | [] => (s, .answers { status := 200, message := "" })
    | d :: rest =>
      match s.perform cfg env q d with
      | .error e => (s, .answers (AdminError.answer e))
      | .ok s' =>
        (s', if rest.isEmpty then .answers { status := 200, message := "" }
          else .asks (.carryOut { q with deeds := rest }))

/-- A code is asked for, to confirm an address (`/api/auth/request-code`). -/
def requestCode (env : Env) (s : Site) (email : Option Word) : Outcome :=
  if env.limited then refuse 429 "Túl sok kérés. Próbáld újra 5 perc múlva."
  else if !env.registrationOpen then refuse 403 "A regisztráció jelenleg le van zárva."
  else
    match email with
    | none => refuse 400 "Email cím megadása kötelező."
    | some raw =>
      let email := cfg.unicode.lowercase (trim raw)
      if !isEmail email || 254 < email.length then refuse 400 "Érvénytelen email cím."
      else if (s.userByEmail cfg email).isSome then
        refuse 409 "Ez az email cím már regisztrálva van."
      else .asks (.createCode email)

/-- A code is given (`/api/auth/verify-code`). -/
def verifyCode (env : Env) (s : Site) (email code : Word) : Site × Outcome :=
  let email := cfg.unicode.lowercase (trim email)
  let code := trim code
  if email.isEmpty || code.isEmpty then (s, refuse 400 "Email és kód megadása kötelező.")
  else if code.length ≠ 6 || !code.all Char.isDigit then
    (s, refuse 400 "A kód 6 számjegyből áll.")
  else
    let (codes, success, message) := Codes.verifyCode cfg.unicode.lowercase s.codes env.now email code
    ({ s with codes := codes }, refuse (if success then 200 else 400) message)

/-- What is checked of a registration before its address (`/api/auth/register`). -/
def register (env : Env) (s : Site) (email password displayName : Word) : Outcome :=
  let email := cfg.unicode.lowercase (trim email)
  if env.limited then refuse 429 "Túl sok regisztráció. Próbáld újra később."
  else if !env.registrationOpen then refuse 403 "A regisztráció jelenleg le van zárva."
  else if email.isEmpty || password.isEmpty || (trim displayName).isEmpty then
    refuse 400 "Minden mező kitöltése kötelező."
  else if !isEmail email || 254 < email.length then refuse 400 "Érvénytelen email cím."
  else if password.length < 6 then refuse 400 "A jelszó legalább 6 karakter legyen."
  else if 128 < password.length then refuse 400 "A jelszó maximum 128 karakter lehet."
  else
    match sanitizeName cfg displayName with
    | none => refuse 400 "Érvénytelen megjelenítési név (1-20 karakter, betűk és számok)."
    | some name =>
      if Moderation.containsBanned cfg.unicode env.bannedWords name then
        refuse 400 "Ez a név nem engedélyezett."
      else if (s.userByEmail cfg email).isSome then
        refuse 409 "Ez az email cím már regisztrálva van."
      else .asks (.isVerified ⟨email, name, password⟩)

/-- A login up to its session (`/api/auth/login`). -/
def login (env : Env) (s : Site) (email password : Word) : Outcome :=
  let email := cfg.unicode.lowercase (trim email)
  if env.passwordLimited then refuse 429 "Túl sok bejelentkezési kísérlet. Próbáld újra 5 perc múlva."
  else if email.isEmpty || password.isEmpty then
    refuse 400 "Email és jelszó megadása kötelező."
  else
    match s.verifyPassword cfg email password with
    | .error message => refuse 401 message
    | .ok u =>
      match u.ban env.now with
      | some ban =>
        .answers { status := 403, message := "A fiókod ki van tiltva.", banned := some ban }
      | none => .asks (.openSession u.email u.id "Sikeres bejelentkezés!")

/-- The guard before the panel: who asks, from where, how often, and whether on purpose. What comes
after it, the idle time, is another transaction. -/
def guard (env : Env) (s : Site) (token : Word) (deeds : List Deed) (reason : Option Word) :
    Site × Outcome :=
  if cfg.adminEmails.isEmpty then (s, notFound)
  else
    let (s', user) := s.validateSession env.now token
    (s', match user.filter fun u => cfg.isAdminEmail u.email with
      | none => notFound
      | some u =>
        if !env.ipAllowed then notFound
        else if env.limited then refuse 429 "Túl sok kérés. Várj egy kicsit."
        else if !env.sameOrigin then refuse 403 "Érvénytelen kérés."
        else
          let q : Request := ⟨u.id, u.email, token, deeds, reason⟩
          if deeds.all Deed.idleExempt then dispatch env q else .asks (.idle q))

theorem guard_fst (env : Env) (s : Site) (token : Word) (deeds : List Deed) (reason : Option Word) :
    (guard cfg env s token deeds reason).1 =
      if cfg.adminEmails.isEmpty then s else (s.validateSession env.now token).1 := by
  unfold guard
  split <;> rfl

theorem verifyCode_fst (env : Env) (s : Site) (email code : Word) :
    (verifyCode cfg env s email code).1 =
      { s with codes := (verifyCode cfg env s email code).1.codes } := by
  unfold verifyCode
  dsimp only
  split_ifs <;> rfl

/-! ## Steps -/

/-- A request comes in under a number, or the one of a number asks its next transaction. -/
inductive Call
  | requestCode (k : ℕ) (email : Option Word)
  | verifyCode (email code : Word)
  | register (k : ℕ) (email password displayName : Word)
  | login (k : ℕ) (email password : Word)
  | logout (token : Word)
  | authenticate (token : Word)
  | admin (k : ℕ) (token : Word) (deeds : List Deed) (reason : Option Word)
  | advance (k : ℕ)
  | cleanup

/-- A call with the circumstances that it finds. -/
abbrev Input := Env × Call

/-- A request goes on, or it is answered and done with. -/
def Site.settle (s : Site) (k : ℕ) : Outcome → Site
  | .asks t => { s with tasks := s.tasks.insert k t }
  | .answers _ => { s with tasks := s.tasks.erase k }

@[simp] theorem Site.users_settle (s : Site) (k : ℕ) (o : Outcome) :
    (s.settle k o).users = s.users := by
  cases o <;> rfl

@[simp] theorem Site.sessions_settle (s : Site) (k : ℕ) (o : Outcome) :
    (s.settle k o).sessions = s.sessions := by
  cases o <;> rfl

@[simp] theorem Site.codes_settle (s : Site) (k : ℕ) (o : Outcome) :
    (s.settle k o).codes = s.codes := by
  cases o <;> rfl

/-- The database after a call. -/
def step (s : Site) (i : Input) : Site :=
  let env := i.1
  match i.2 with
  | .requestCode k email => s.settle k (requestCode cfg env s email)
  | .verifyCode email code => (verifyCode cfg env s email code).1
  | .register k email password displayName =>
    s.settle k (register cfg env s email password displayName)
  | .login k email password => s.settle k (login cfg env s email password)
  | .logout token => s.deleteSession token
  | .authenticate token => (s.validateSession env.now token).1
  | .admin k token deeds reason =>
    let (s', outcome) := guard cfg env s token deeds reason
    s'.settle k outcome
  | .advance k =>
    match s.tasks.lookup k with
    | none => s
    | some t =>
      let (s', outcome) := next cfg env s t
      s'.settle k outcome
  | .cleanup => s.cleanupExpired env.now

theorem step_advance_of_none {s : Site} {env : Env} {k : ℕ} (h : s.tasks.lookup k = none) :
    step cfg s (env, .advance k) = s := by
  simp [step, h]

theorem step_advance {s : Site} {env : Env} {k : ℕ} {t : Task} (h : s.tasks.lookup k = some t) :
    step cfg s (env, .advance k) = (next cfg env s t).1.settle k (next cfg env s t).2 := by
  simp [step, h]

/-- The database after a run. -/
def after (l : List Input) : Site := Runs.run (step cfg) .empty l

end Definitions

end ScrabbleMagyar.Accounts
