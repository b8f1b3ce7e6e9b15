import ScrabbleMagyar.Engine.Tiles
import ScrabbleMagyar.Foundations.Base64
import ScrabbleMagyar.Foundations.Fresh
import ScrabbleMagyar.Foundations.Utf8
import ScrabbleMagyar.Util

/-!
# Socket tokens

The signed tokens of short life by which a socket tells who it belongs to
(`accounts/socket_auth.rs`): the user in JSON and base64, the time, and a signature of both, with
dots between them. What comes from other packages is a parameter: the message authentication code
`mac`, the encoding `base64` with what is said of it, and the JSON parser `fromSlice`.

* `verified_of_signed`: a token is accepted only for a user and at a time for which it has been
  made, if its signature is not forged, and every token made is accepted while it is young.
-/

namespace ScrabbleMagyar.SocketAuth

/-- A reading of the clock, in seconds; the system counts them in a signed number. -/
abbrev Seconds := Fin (2 ^ 63)

/-- Strict base64 that is safe in a URL, without padding. -/
structure Base64Engine where
  encode : List UInt8 → Word
  decode : Word → Option (List UInt8)
  decode_encode : ∀ bytes, decode (encode bytes) = some bytes
  encode_of_decode : ∀ text bytes, decode text = some bytes → encode bytes = text
  dot_notMem : ∀ bytes, '.' ∉ encode bytes

/-- Such an encoding. -/
def urlSafeNoPad : Base64Engine where
  encode := Base64.encode
  decode := Base64.decode
  decode_encode := Base64.decode_encode
  encode_of_decode _ _ := Base64.encode_of_decode
  dot_notMem _ h := absurd (Base64.mem_alphabet_of_mem_encode h) (by decide)

/-- What the key of the signatures begins with (`SALT`). -/
def salt : Word := "socket-auth".toList

/-- For how many seconds a token is good (`TOKEN_MAX_AGE`). -/
def tokenMaxAge : ℕ := 300

/-- `parse::<u64>`: a sign may stand before the digits. -/
def parseU64 (text : Word) : Option ℕ :=
  let value := match text with
    | '+' :: digits => parseDigits digits
    | digits => parseDigits digits
  (value.map Int.toNat).filter fun n => n < 2 ^ 64

/-- A number in decimal digits. -/
def decimal (n : ℕ) : Word := Nat.toDigits 10 n

/-- What comes before the first dot of a text, and what comes after it. -/
def splitDot (text : Word) : Option (Word × Word) :=
  match text.dropWhile fun c => c ≠ '.' with
  | [] => none
  | _ :: rest => some (text.takeWhile fun c => c ≠ '.', rest)

/-- The first three parts of a text at its dots; the third one is all the rest. -/
def splitThree (text : Word) : Option (Word × Word × Word) := do
  let (first, rest) ← splitDot text
  let (second, third) ← splitDot rest
  some (first, second, third)

/-- `as_i64`. -/
def asI64 (j : Json) : Option ℤ := j.asInt.filter fun i => -2 ^ 63 ≤ i ∧ i < 2 ^ 63

section Definitions

variable (mac : List UInt8 → List UInt8 → List UInt8) (base64 : Base64Engine)
  (fromSlice : List UInt8 → Option Json)

/-- The key of the signatures. -/
def macKey (secretKey : Word) : List UInt8 := Utf8.encode (salt ++ ':' :: secretKey)

/-- The signature of a message. -/
def sign (secretKey message : Word) : List UInt8 := mac (macKey secretKey) (Utf8.encode message)

/-- The JSON text of a user. -/
def body (userId : Int64) : List UInt8 :=
  Utf8.encode ("\x7b\"uid\":".toList ++ (toString userId.toInt).toList ++ "\x7d".toList)

/-- What is signed for a user at a time. -/
def messageAt (userId : Int64) (timestamp : Seconds) : Word :=
  base64.encode (body userId) ++ '.' :: decimal timestamp

/-- The token of a user that is made at a time (`create_socket_token`). -/
def tokenAt (secretKey : Word) (userId : Int64) (timestamp : Seconds) : Word :=
  let message := messageAt base64 userId timestamp
  message ++ '.' :: base64.encode (sign mac secretKey message)

/-- The user of a token that is valid. The clock is read for each of the two comparisons. -/
def verifySocketToken (secretKey : Word) (token : Option Word) (maxAge : ℕ)
    (now later : Seconds) : Option ℤ := do
  let token ← token.filter fun t => !t.isEmpty
  let (payload, timestamp, signature) ← splitThree token
  let message := payload ++ '.' :: timestamp
  let given ← base64.decode signature
  if given ≠ sign mac secretKey message then none
  else
    let issued ← parseU64 timestamp
    if (now : ℕ) - issued > maxAge ∨ issued > (later : ℕ) + 5 then none
    else
      let body ← fromSlice (← base64.decode payload)
      (body.get? "uid").bind asI64

end Definitions

/-! ## Parts of a text -/

theorem splitDot_append {first : Word} (h : '.' ∉ first) (rest : Word) :
    splitDot (first ++ '.' :: rest) = some (first, rest) := by
  have hall : ∀ c ∈ first, decide (c ≠ '.') = true := fun c hc => by
    simpa using ne_of_mem_of_not_mem hc h
  rw [splitDot, List.dropWhile_append_of_pos hall, List.takeWhile_append_of_pos hall]
  simp

theorem of_splitDot {text first rest : Word} (h : splitDot text = some (first, rest)) :
    text = first ++ '.' :: rest ∧ '.' ∉ first := by
  unfold splitDot at h
  cases hdrop : text.dropWhile fun c => decide (c ≠ '.') with
  | nil =>
    rw [hdrop] at h
    cases h
  | cons c rest' =>
    rw [hdrop] at h
    cases h
    have hc : c = '.' := by
      have hhead := List.head?_dropWhile_not (fun c => decide (c ≠ '.')) text
      rw [hdrop] at hhead
      simpa using hhead
    have hall := List.all_takeWhile (p := fun c => decide (c ≠ '.')) (l := text)
    refine ⟨?_, fun hmem => by simpa using List.all_eq_true.mp hall _ hmem⟩
    conv_lhs => rw [← List.takeWhile_append_dropWhile (p := fun c => decide (c ≠ '.')) (l := text)]
    rw [hdrop, hc]

theorem splitThree_append {first second : Word} (hfirst : '.' ∉ first) (hsecond : '.' ∉ second)
    (third : Word) :
    splitThree (first ++ '.' :: second ++ '.' :: third) = some (first, second, third) := by
  rw [List.append_assoc, List.cons_append, splitThree, splitDot_append hfirst]
  simp [splitDot_append hsecond]

theorem of_splitThree {text first second third : Word}
    (h : splitThree text = some (first, second, third)) :
    text = first ++ '.' :: second ++ '.' :: third ∧ '.' ∉ first ∧ '.' ∉ second := by
  rw [splitThree] at h
  obtain ⟨⟨first', rest⟩, h₁, h⟩ := Option.bind_eq_some_iff.mp h
  obtain ⟨⟨second', third'⟩, h₂, h⟩ := Option.bind_eq_some_iff.mp h
  cases h
  obtain ⟨rfl, hfirst⟩ := of_splitDot h₁
  obtain ⟨rfl, hsecond⟩ := of_splitDot h₂
  exact ⟨by simp, hfirst, hsecond⟩

/-- **The parts of a message are told from it**: no cut of it gives another user or time. -/
theorem parts_unique {first first' second second' : Word} (h : '.' ∉ first) (h' : '.' ∉ first')
    (heq : first ++ '.' :: second = first' ++ '.' :: second') :
    first = first' ∧ second = second' := by
  have hsplit := splitDot_append h second
  rw [heq, splitDot_append h'] at hsplit
  cases hsplit
  exact ⟨rfl, rfl⟩

/-! ## Numbers -/

theorem dot_notMem_decimal (n : ℕ) : '.' ∉ decimal n := fun h =>
  absurd (Nat.isDigit_of_mem_toDigits (by omega) (by omega) h) (by decide)

theorem parseDigits_decimal (n : ℕ) : parseDigits (decimal n) = some (n : ℤ) := by
  have hdigits : ∀ c ∈ decimal n, c.isDigit = true := fun c hc =>
    Nat.isDigit_of_mem_toDigits (by omega) (by omega) hc
  have hfold : ∀ (l : List Char) (k : ℕ),
      l.foldl (fun (n : ℤ) c => 10 * n + (c.toNat - '0'.toNat : ℕ)) (k : ℤ) =
        (Nat.ofDigitChars 10 l k : ℤ) := by
    intro l
    induction l with
    | nil => exact fun k => by rw [Nat.ofDigitChars_nil, List.foldl_nil]
    | cons c l ih =>
      intro k
      rw [List.foldl_cons, Nat.ofDigitChars_cons, ← ih]
      push_cast
      rfl
  have hempty : (decimal n).isEmpty = false := by
    simp [decimal]
  have hany : ((decimal n).any fun c => !c.isDigit) = false := by
    rw [List.any_eq_false]
    intro c hc
    simp [hdigits c hc]
  have hvalue := hfold (decimal n) 0
  rw [decimal, Nat.ofDigitChars_toDigits (by omega) (by omega)] at hvalue
  rw [parseDigits, hempty, hany]
  exact congrArg some hvalue

theorem parseU64_decimal {n : ℕ} (hn : n < 2 ^ 64) : parseU64 (decimal n) = some n := by
  unfold parseU64
  split
  · rename_i digits heq
    have hplus : '+' ∈ decimal n := by
      rw [heq]
      exact List.mem_cons_self
    exact absurd (Nat.isDigit_of_mem_toDigits (by omega) (by omega) hplus) (by decide)
  · rw [parseDigits_decimal]
    exact Option.filter_eq_some_iff.mpr ⟨rfl, decide_eq_true hn⟩

/-! ## Tokens -/

variable {mac : List UInt8 → List UInt8 → List UInt8} {base64 : Base64Engine}
  {fromSlice : List UInt8 → Option Json}

/-- A call for a token. -/
structure Created where
  secretKey : Word
  userId : Int64
  timestamp : Seconds

/-- The JSON texts of the users with a token are read back. -/
def ReadsBack (fromSlice : List UInt8 → Option Json) (calls : List Created) : Prop :=
  ∀ c ∈ calls, fromSlice (body c.userId) = some (.obj [("uid", .int c.userId.toInt)])

/-- No signature in a text is forged: one that verifies for a key and a message is of a message that
has been signed with that key. -/
def Unforged (mac : List UInt8 → List UInt8 → List UInt8) (base64 : Base64Engine)
    (calls : List Created) (text : Word) : Prop :=
  ∀ start signature given key message, text = start ++ '.' :: signature →
    base64.decode signature = some given → given = mac key message →
      ∃ c ∈ calls, key = macKey c.secretKey ∧
        message = Utf8.encode (messageAt base64 c.userId c.timestamp)

/-- The keys of the signatures are as different as those they are made from. -/
theorem macKey_injective : Function.Injective macKey := fun _ _ h =>
  (List.cons.inj (List.append_cancel_left (Utf8.encode_strictMono.injective h))).2

theorem dot_notMem_messageAt (userId : Int64) : '.' ∉ base64.encode (body userId) :=
  base64.dot_notMem _

theorem asI64_toInt (userId : Int64) : asI64 (.int userId.toInt) = some userId.toInt :=
   Option.filter_eq_some_iff.mpr
    ⟨rfl, decide_eq_true ⟨userId.le_toInt, userId.toInt_lt⟩⟩

theorem filter_nonempty {token : Word} (h : token.isEmpty = false) :
    ((some token).filter fun t => !t.isEmpty) = some token :=
  Option.filter_eq_some_iff.mpr ⟨rfl, by rw [h]; rfl⟩

/-- **What verifies has been created**, for the user and at a time that is neither too early nor too
late. -/
theorem created_of_verify {calls : List Created} (hjson : ReadsBack fromSlice calls)
    {token secretKey : Word} (htoken : Unforged mac base64 calls token) {maxAge : ℕ}
    {now later : Seconds} {uid : ℤ}
    (h : verifySocketToken mac base64 fromSlice secretKey (some token) maxAge now later = some uid) :
    ∃ c ∈ calls, c.secretKey = secretKey ∧ c.userId.toInt = uid ∧
      (now : ℕ) - c.timestamp ≤ maxAge ∧ (c.timestamp : ℕ) ≤ later + 5 := by
  have hne : token.isEmpty = false := by
    cases hempty : token.isEmpty with
    | false => rfl
    | true =>
      have hnone : ((some token).filter fun t => !t.isEmpty) = none :=
        Option.filter_eq_none_iff.mpr fun t ht => by simpa [← Option.some.inj ht] using hempty
      rw [verifySocketToken, hnone] at h
      cases h
  rw [verifySocketToken, filter_nonempty hne, Option.bind_eq_bind, Option.bind_some] at h
  obtain ⟨⟨payload, timestamp, signature⟩, hparts, h⟩ := Option.bind_eq_some_iff.mp h
  obtain ⟨given, hgiven, h⟩ := Option.bind_eq_some_iff.mp h
  obtain ⟨htext, hpayload, -⟩ := of_splitThree hparts
  split at h
  · cases h
  rename_i hsign
  obtain ⟨issued, hissued, h⟩ := Option.bind_eq_some_iff.mp h
  split at h
  · cases h
  rename_i hage
  obtain ⟨bytes, hbytes, h⟩ := Option.bind_eq_some_iff.mp h
  obtain ⟨j, hj, h⟩ := Option.bind_eq_some_iff.mp h
  obtain ⟨c, hc, hkey, hmessage⟩ := htoken _ _ _ _ _ htext hgiven (not_not.mp hsign)
  -- the message that was signed has the same parts
  obtain ⟨rfl, rfl⟩ := parts_unique hpayload (dot_notMem_messageAt c.userId)
    (Utf8.encode_strictMono.injective hmessage)
  rw [base64.decode_encode] at hbytes
  cases hbytes
  rw [hjson c hc] at hj
  cases hj
  rw [parseU64_decimal (by omega)] at hissued
  cases hissued
  simp only [Json.get?_obj_cons, if_true, Option.bind_some, asI64_toInt] at h
  cases h
  exact ⟨c, hc, macKey_injective hkey.symm, rfl, by omega, by omega⟩

/-- **A token verifies** to its own user while it is young. -/
theorem verify_tokenAt {userId : Int64}
    (hjson : fromSlice (body userId) = some (.obj [("uid", .int userId.toInt)]))
    (secretKey : Word) {timestamp now later : Seconds} {maxAge : ℕ} (hnow : timestamp ≤ now)
    (hlater : now ≤ later) (hage : (now : ℕ) ≤ timestamp + maxAge) :
    verifySocketToken mac base64 fromSlice secretKey
      (some (tokenAt mac base64 secretKey userId timestamp)) maxAge now later =
        some userId.toInt := by
  have hdot : '.' ∉ base64.encode (body userId) := dot_notMem_messageAt userId
  have hparts := splitThree_append hdot (dot_notMem_decimal timestamp)
    (base64.encode (sign mac secretKey (messageAt base64 userId timestamp)))
  have hne : (tokenAt mac base64 secretKey userId timestamp).isEmpty = false := by
    simp [tokenAt]
  have hfresh : ¬((now : ℕ) - timestamp > maxAge ∨ (timestamp : ℕ) > (later : ℕ) + 5) := by
    have h₁ : (timestamp : ℕ) ≤ now := hnow
    have h₂ : (now : ℕ) ≤ later := hlater
    omega
  have hsplit : splitThree (tokenAt mac base64 secretKey userId timestamp) =
      some (base64.encode (body userId), decimal timestamp,
        base64.encode (sign mac secretKey (messageAt base64 userId timestamp))) := hparts
  rw [verifySocketToken, filter_nonempty hne]
  simp only [Option.bind_eq_bind, Option.bind_some, hsplit, base64.decode_encode]
  rw [if_neg (fun h => h rfl), parseU64_decimal (by omega), Option.bind_some, if_neg hfresh, hjson]
  simp only [Option.bind_some, Json.get?_obj_cons, if_true, asI64_toInt]

/-- **Tokens cannot be forged or spliced**: a text verifies only for a user and at a time for which
a token has been created, and every token that is created verifies while it is young. -/
theorem verified_of_signed {calls : List Created} (hjson : ReadsBack fromSlice calls) :
    (∀ token, Unforged mac base64 calls token → ∀ secretKey maxAge (now later : Seconds) uid,
      verifySocketToken mac base64 fromSlice secretKey (some token) maxAge now later = some uid →
        ∃ c ∈ calls, c.secretKey = secretKey ∧ c.userId.toInt = uid ∧
          (now : ℕ) - c.timestamp ≤ maxAge ∧ (c.timestamp : ℕ) ≤ later + 5) ∧
    ∀ c ∈ calls, ∀ maxAge (now later : Seconds), c.timestamp ≤ now → now ≤ later →
      (now : ℕ) ≤ c.timestamp + maxAge →
        verifySocketToken mac base64 fromSlice c.secretKey
          (some (tokenAt mac base64 c.secretKey c.userId c.timestamp)) maxAge now later =
            some c.userId.toInt :=
  ⟨fun _ htoken _ _ _ _ _ h => created_of_verify hjson htoken h,
    fun c hc _ _ _ hnow hlater hage => verify_tokenAt (hjson c hc) c.secretKey hnow hlater hage⟩

/-- A call for a token. -/
def firstCall : Created := ⟨"titok".toList, 42, 1700000000⟩

/-- The signature of its message, and of no other one. -/
def firstMac (key message : List UInt8) : List UInt8 :=
  if key = macKey "titok".toList ∧ message = Utf8.encode "eyJ1aWQiOjQyfQ.1700000000".toList then
    [80, 186, 237, 18, 148, 114, 33, 254, 96, 85, 38, 220, 180, 73, 234, 145, 81, 63, 113, 39, 28,
      95, 154, 97, 216, 64, 255, 227, 12, 37, 49, 33]
  else []

/-- The JSON value of its text. -/
def firstSlice (bytes : List UInt8) : Option Json :=
  if bytes = Utf8.encode "\x7b\"uid\":42\x7d".toList then some (.obj [("uid", .int 42)]) else none

/-- The token that is made for the call. -/
def firstToken : Word :=
  "eyJ1aWQiOjQyfQ.1700000000.ULrtEpRyIf5gVSbctEnqkVE_cSccX5ph2ED_4wwlMSE".toList

theorem tokenAt_firstCall :
    tokenAt firstMac urlSafeNoPad firstCall.secretKey firstCall.userId firstCall.timestamp =
      firstToken := by
  decide +kernel

theorem readsBack_firstSlice : ReadsBack firstSlice [firstCall] := by
  intro c hc
  obtain rfl := List.mem_singleton.mp hc
  have hbody : body firstCall.userId = Utf8.encode "\x7b\"uid\":42\x7d".toList := by decide +kernel
  rw [firstSlice, if_pos hbody]
  rfl

/-- Only the message of the call has the signature that is in the token. -/
theorem unforged_firstToken : Unforged firstMac urlSafeNoPad [firstCall] firstToken := by
  intro start signature given key message htext hgiven hmac
  unfold firstMac at hmac
  split at hmac
  · rename_i h
    have hmessage : messageAt urlSafeNoPad firstCall.userId firstCall.timestamp =
        "eyJ1aWQiOjQyfQ.1700000000".toList := by decide +kernel
    exact ⟨firstCall, List.mem_singleton_self _, h.1, by rw [hmessage]; exact h.2⟩
  · -- no signature is empty, and the token does not end with a dot
    rw [hmac] at hgiven
    have hempty : signature = [] := (urlSafeNoPad.encode_of_decode signature [] hgiven).symm
    have hlast : firstToken.getLast? = some '.' := by rw [htext, hempty]; simp
    exact absurd hlast (by decide +kernel)

theorem verified_firstToken :
    verifySocketToken firstMac urlSafeNoPad firstSlice "titok".toList (some firstToken)
      tokenMaxAge 1700000300 1700000300 = some 42 ∧
    ∃ c ∈ [firstCall], c.secretKey = "titok".toList ∧ c.userId.toInt = 42 ∧
      1700000300 - (c.timestamp : ℕ) ≤ tokenMaxAge ∧ (c.timestamp : ℕ) ≤ 1700000300 + 5 := by
  have hboth := @verified_of_signed firstMac urlSafeNoPad firstSlice [firstCall] readsBack_firstSlice
  have hverify := hboth.2 firstCall (List.mem_singleton_self _) tokenMaxAge 1700000300 1700000300
    (by decide) le_rfl (by decide)
  rw [tokenAt_firstCall] at hverify
  exact ⟨hverify, hboth.1 firstToken unforged_firstToken "titok".toList tokenMaxAge 1700000300
    1700000300 42 hverify⟩

end ScrabbleMagyar.SocketAuth
