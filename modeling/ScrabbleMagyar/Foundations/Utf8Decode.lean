import ScrabbleMagyar.Foundations.Utf8

/-!
# Reading bytes as a text

The decoding of UTF-8, strict and lossy. A character is given by its first byte and continuation
bytes, of which the first may be bounded; where the bytes are no character, the longest part that
could begin one is skipped, and stands for U+FFFD in the lossy reading.

* `fromUtf8_eq_some_iff`: the strict reading takes what is the encoding of a text, and no more.
* `fromUtf8Lossy_encode`: the lossy reading agrees with it there.
-/

namespace ScrabbleMagyar.Utf8

/-- Take `n` continuation bytes to the bits read so far. -/
def tails : ℕ → ℕ → List UInt8 → Option ℕ × List UInt8
  | 0, v, rest => (some v, rest)
  | n + 1, v, b :: rest =>
    if 0x80 ≤ b.toNat ∧ b.toNat < 0xC0 then tails n (v * 64 + b.toNat % 64) rest
    else (none, b :: rest)
  | _ + 1, _, [] => (none, [])

/-- Take a continuation byte within bounds, and `n` further ones. -/
def follow (n low high v : ℕ) : List UInt8 → Option ℕ × List UInt8
  | b :: rest =>
    if low ≤ b.toNat ∧ b.toNat < high then tails n (v * 64 + b.toNat % 64) rest
    else (none, b :: rest)
  | [] => (none, [])

/-- The character that a byte starts, and what comes after it; `none` where it starts none. -/
def decodeStep (a : UInt8) (rest : List UInt8) : Option ℕ × List UInt8 :=
  let x := a.toNat
  if x < 0x80 then (some x, rest)
  else if x < 0xC2 then (none, rest)
  else if x < 0xE0 then follow 0 0x80 0xC0 (x % 32) rest
  -- longer than need be, and surrogates
  else if x < 0xF0 then
    follow 1 (if x = 0xE0 then 0xA0 else 0x80) (if x = 0xED then 0xA0 else 0xC0) (x % 16) rest
  else if x < 0xF5 then
    follow 2 (if x = 0xF0 then 0x90 else 0x80) (if x = 0xF4 then 0x90 else 0xC0) (x % 8) rest
  else (none, rest)

def decodeFuel : ℕ → List UInt8 → List (Option Char)
  | 0, _ => []
  | _ + 1, [] => []
  | n + 1, a :: rest =>
    (decodeStep a rest).1.map Char.ofNat :: decodeFuel n (decodeStep a rest).2

/-- The characters of the bytes, with `none` where there is none. -/
def decode (bytes : List UInt8) : List (Option Char) := decodeFuel bytes.length bytes

/-- The text of the bytes, if they are one. -/
def fromUtf8 (bytes : List UInt8) : Option (List Char) :=
  if (decode bytes).all Option.isSome then some ((decode bytes).filterMap id) else none

def fromUtf8Lossy (bytes : List UInt8) : List Char :=
  (decode bytes).map fun c => c.getD '\uFFFD'

/-! ## One character -/

theorem length_tails (n v : ℕ) (rest : List UInt8) : (tails n v rest).2.length ≤ rest.length := by
  induction n generalizing v rest with
  | zero => exact le_rfl
  | succ n ih =>
    cases rest with
    | nil => exact le_rfl
    | cons b rest =>
      rw [tails]
      split
      · exact (ih _ rest).trans (Nat.le_succ _)
      · exact le_rfl

theorem length_follow (n low high v : ℕ) (rest : List UInt8) :
    (follow n low high v rest).2.length ≤ rest.length := by
  cases rest with
  | nil => exact le_rfl
  | cons b rest =>
    rw [follow]
    split
    · exact (length_tails _ _ rest).trans (Nat.le_succ _)
    · exact le_rfl

theorem length_decodeStep (a : UInt8) (rest : List UInt8) :
    (decodeStep a rest).2.length ≤ rest.length := by
  unfold decodeStep
  dsimp only
  split_ifs <;> first
    | exact le_rfl
    | exact length_follow _ _ _ _ rest

theorem toNat_ofNat_byte {n : ℕ} (h : n < 256) : (UInt8.ofNat n).toNat = n :=
  UInt8.toNat_ofNat_of_lt' h

/-- A continuation byte adds its six bits. -/
theorem tails_cons {b n v : ℕ} (hb : b < 64) (rest : List UInt8) :
    tails (n + 1) v (UInt8.ofNat (b + 0x80) :: rest) = tails n (v * 64 + b) rest := by
  rw [tails, toNat_ofNat_byte (by omega), if_pos (by omega)]
  congr 1
  omega

theorem follow_cons {b n low high v : ℕ} (hb : b < 64) (hlow : low ≤ b + 0x80)
    (hhigh : b + 0x80 < high) (rest : List UInt8) :
    follow n low high v (UInt8.ofNat (b + 0x80) :: rest) = tails n (v * 64 + b) rest := by
  rw [follow, toNat_ofNat_byte (by omega), if_pos ⟨hlow, hhigh⟩]
  congr 1
  omega

/-- The bytes of a character are read as it. -/
theorem decodeStep_encodeChar (c : Char) (rest : List UInt8) :
    ∃ a tail, String.utf8EncodeChar c ++ rest = a :: tail ∧
      decodeStep a tail = (some c.toNat, rest) := by
  have hvalid : c.val.toNat < 0xD800 ∨ 0xDFFF < c.val.toNat ∧ c.val.toNat < 0x110000 := c.valid
  have hnat : c.toNat = c.val.toNat := rfl
  rw [hnat]
  unfold String.utf8EncodeChar
  generalize c.val.toNat = v at hvalid
  dsimp only
  split_ifs with h₁ h₂ h₃
  · refine ⟨UInt8.ofNat v, rest, rfl, ?_⟩
    rw [decodeStep, toNat_ofNat_byte (by omega)]
    exact if_pos (by omega)
  · refine ⟨UInt8.ofNat (v / 64 % 0x20 + 0xC0), UInt8.ofNat (v % 0x40 + 0x80) :: rest, rfl, ?_⟩
    rw [decodeStep, toNat_ofNat_byte (by omega)]
    rw [if_neg (by omega), if_neg (by omega), if_pos (by omega),
      follow_cons (by omega) (by omega) (by omega), tails]
    congr 2
    omega
  · refine ⟨UInt8.ofNat (v / 4096 % 0x10 + 0xE0), UInt8.ofNat (v / 64 % 0x40 + 0x80) ::
      UInt8.ofNat (v % 0x40 + 0x80) :: rest, rfl, ?_⟩
    rw [decodeStep, toNat_ofNat_byte (by omega)]
    rw [if_neg (by omega), if_neg (by omega), if_neg (by omega), if_pos (by omega),
      follow_cons (by omega) (by split <;> omega) (by split <;> omega), tails_cons (by omega), tails]
    congr 2
    omega
  · refine ⟨UInt8.ofNat (v / 262144 % 0x08 + 0xF0), UInt8.ofNat (v / 4096 % 0x40 + 0x80) ::
      UInt8.ofNat (v / 64 % 0x40 + 0x80) :: UInt8.ofNat (v % 0x40 + 0x80) :: rest, rfl, ?_⟩
    rw [decodeStep, toNat_ofNat_byte (by omega)]
    rw [if_neg (by omega), if_neg (by omega), if_neg (by omega), if_neg (by omega),
      if_pos (by omega), follow_cons (by omega) (by split <;> omega) (by split <;> omega),
      tails_cons (by omega), tails_cons (by omega), tails]
    congr 2
    omega

/-- A byte is one of six bits that says that it continues a character. -/
theorem byte_eq {b : UInt8} (hlow : 0x80 ≤ b.toNat) (hhigh : b.toNat < 0xC0) :
    ∃ k < 64, b = UInt8.ofNat (k + 0x80) := by
  refine ⟨b.toNat - 0x80, by omega, ?_⟩
  rw [Nat.sub_add_cancel hlow, UInt8.ofNat_toNat]

theorem tails_inv {n v w : ℕ} {bytes rest : List UInt8} (h : tails (n + 1) v bytes = (some w, rest)) :
    ∃ k < 64, ∃ bytes', bytes = UInt8.ofNat (k + 0x80) :: bytes' ∧
      tails n (v * 64 + k) bytes' = (some w, rest) := by
  cases bytes with
  | nil => cases h
  | cons b bytes =>
    rw [tails] at h
    split at h
    · rename_i hb
      obtain ⟨k, hk, rfl⟩ := byte_eq hb.1 hb.2
      refine ⟨k, hk, bytes, rfl, ?_⟩
      rw [toNat_ofNat_byte (by omega)] at h
      rwa [show v * 64 + k = v * 64 + (k + 0x80) % 64 by omega]
    · cases h

theorem follow_inv {n low high v w : ℕ} (hlow : 0x80 ≤ low) (hhigh : high ≤ 0xC0)
    {bytes rest : List UInt8} (h : follow n low high v bytes = (some w, rest)) :
    ∃ k < 64, low ≤ k + 0x80 ∧ k + 0x80 < high ∧ ∃ bytes',
      bytes = UInt8.ofNat (k + 0x80) :: bytes' ∧ tails n (v * 64 + k) bytes' = (some w, rest) := by
  cases bytes with
  | nil => cases h
  | cons b bytes =>
    rw [follow] at h
    split at h
    · rename_i hb
      obtain ⟨k, hk, rfl⟩ := byte_eq (hlow.trans hb.1) (hb.2.trans_le hhigh)
      rw [toNat_ofNat_byte (by omega)] at h hb
      refine ⟨k, hk, hb.1, hb.2, bytes, rfl, ?_⟩
      rwa [show v * 64 + k = v * 64 + (k + 0x80) % 64 by omega]
    · cases h

/-- The bytes of the character of a number. -/
theorem encodeChar_ofNat {v : ℕ} (hv : v < 0xD800 ∨ 0xDFFF < v ∧ v < 0x110000) :
    String.utf8EncodeChar (Char.ofNat v) =
      if v ≤ 0x7F then [.ofNat v]
      else if v ≤ 0x7FF then [.ofNat (v / 64 % 0x20 + 0xC0), .ofNat (v % 0x40 + 0x80)]
      else if v ≤ 0xFFFF then
        [.ofNat (v / 4096 % 0x10 + 0xE0), .ofNat (v / 64 % 0x40 + 0x80), .ofNat (v % 0x40 + 0x80)]
      else
        [.ofNat (v / 262144 % 0x08 + 0xF0), .ofNat (v / 4096 % 0x40 + 0x80),
          .ofNat (v / 64 % 0x40 + 0x80), .ofNat (v % 0x40 + 0x80)] := by
  have hval : (Char.ofNat v).val.toNat = v := by
    have hvalid : v.isValidChar := hv
    rw [Char.ofNat, dif_pos hvalid]
    rfl
  unfold String.utf8EncodeChar
  rw [hval]

/-- **What is read as a character** is its bytes. -/
theorem encodeChar_of_decodeStep {a : UInt8} {tail rest : List UInt8} {v : ℕ}
    (h : decodeStep a tail = (some v, rest)) :
    a :: tail = String.utf8EncodeChar (Char.ofNat v) ++ rest := by
  obtain ⟨x, hx, rfl⟩ : ∃ x < 256, a = UInt8.ofNat x :=
    ⟨a.toNat, a.toNat_lt, UInt8.ofNat_toNat.symm⟩
  rw [decodeStep, toNat_ofNat_byte hx] at h
  by_cases h₁ : x < 0x80
  · rw [if_pos h₁] at h
    cases h
    rw [encodeChar_ofNat (by omega), if_pos (by omega)]
    rfl
  rw [if_neg h₁] at h
  by_cases h₂ : x < 0xC2
  · rw [if_pos h₂] at h
    cases h
  rw [if_neg h₂] at h
  by_cases h₃ : x < 0xE0
  · rw [if_pos h₃] at h
    obtain ⟨k, hk, -, -, bytes, rfl, ht⟩ := follow_inv le_rfl le_rfl h
    cases ht
    rw [encodeChar_ofNat (by omega), if_neg (by omega), if_pos (by omega),
      show (x % 32 * 64 + k) / 64 % 0x20 + 0xC0 = x by omega,
      show (x % 32 * 64 + k) % 0x40 = k by omega]
    rfl
  rw [if_neg h₃] at h
  by_cases h₄ : x < 0xF0
  · rw [if_pos h₄] at h
    obtain ⟨k, hk, hl, hu, bytes, rfl, ht⟩ := follow_inv (by split <;> omega) (by split <;> omega) h
    obtain ⟨k', hk', bytes', rfl, ht'⟩ := tails_inv ht
    cases ht'
    have hlow : x = 0xE0 → 0x20 ≤ k := fun hx => by
      rw [if_pos hx] at hl
      omega
    have hhigh : x = 0xED → k < 0x20 := fun hx => by
      rw [if_pos hx] at hu
      omega
    rw [encodeChar_ofNat (by omega), if_neg (by omega), if_neg (by omega), if_pos (by omega),
      show ((x % 16 * 64 + k) * 64 + k') / 4096 % 0x10 + 0xE0 = x by omega,
      show ((x % 16 * 64 + k) * 64 + k') / 64 % 0x40 = k by omega,
      show ((x % 16 * 64 + k) * 64 + k') % 0x40 = k' by omega]
    rfl
  rw [if_neg h₄] at h
  by_cases h₅ : x < 0xF5
  · rw [if_pos h₅] at h
    obtain ⟨k, hk, hl, hu, bytes, rfl, ht⟩ := follow_inv (by split <;> omega) (by split <;> omega) h
    obtain ⟨k', hk', bytes', rfl, ht'⟩ := tails_inv ht
    obtain ⟨k'', hk'', bytes'', rfl, ht''⟩ := tails_inv ht'
    cases ht''
    have hlow : x = 0xF0 → 0x10 ≤ k := fun hx => by
      rw [if_pos hx] at hl
      omega
    have hhigh : x = 0xF4 → k < 0x10 := fun hx => by
      rw [if_pos hx] at hu
      omega
    rw [encodeChar_ofNat (by omega), if_neg (by omega), if_neg (by omega), if_neg (by omega),
      show (((x % 8 * 64 + k) * 64 + k') * 64 + k'') / 262144 % 0x08 + 0xF0 = x by omega,
      show (((x % 8 * 64 + k) * 64 + k') * 64 + k'') / 4096 % 0x40 = k by omega,
      show (((x % 8 * 64 + k) * 64 + k') * 64 + k'') / 64 % 0x40 = k' by omega,
      show (((x % 8 * 64 + k) * 64 + k') * 64 + k'') % 0x40 = k'' by omega]
    rfl
  · rw [if_neg h₅] at h
    cases h

/-! ## The whole text -/

theorem decodeFuel_eq {n : ℕ} {bytes : List UInt8} (h : bytes.length ≤ n) :
    decodeFuel n bytes = decode bytes := by
  have hmore : ∀ (m n : ℕ) (bytes : List UInt8), bytes.length ≤ m → bytes.length ≤ n →
      decodeFuel m bytes = decodeFuel n bytes := by
    intro m
    induction m with
    | zero =>
      intro n bytes hm _
      rw [List.length_eq_zero_iff.mp (Nat.le_zero.mp hm)]
      cases n <;> rfl
    | succ m ih =>
      intro n bytes hm hn
      cases bytes with
      | nil => cases n <;> rfl
      | cons a rest =>
        cases n with
        | zero => exact absurd hn (by simp)
        | succ n =>
          have hle := length_decodeStep a rest
          rw [List.length_cons] at hm hn
          rw [decodeFuel, decodeFuel, ih n _ (by omega) (by omega)]
  exact hmore n bytes.length bytes h le_rfl

@[simp] theorem decode_nil : decode [] = [] := rfl

theorem decode_cons (a : UInt8) (rest : List UInt8) :
    decode (a :: rest) = (decodeStep a rest).1.map Char.ofNat :: decode (decodeStep a rest).2 := by
  rw [← decodeFuel_eq (length_decodeStep a rest)]
  rfl

/-- **What is encoded is decoded.** -/
theorem decode_encode (text : List Char) : decode (encode text) = text.map some := by
  induction text with
  | nil => rfl
  | cons c text ih =>
    obtain ⟨a, tail, hbytes, hstep⟩ := decodeStep_encodeChar c (encode text)
    rw [encode_cons, hbytes, decode_cons, hstep, ih]
    simp

/-- **What is decoded was encoded.** -/
theorem encode_of_decode {bytes : List UInt8} {text : List Char}
    (h : decode bytes = text.map some) : bytes = encode text := by
  induction text generalizing bytes with
  | nil =>
    cases bytes with
    | nil => rfl
    | cons a rest =>
      rw [decode_cons] at h
      cases h
  | cons c text ih =>
    cases bytes with
    | nil => cases h
    | cons a rest =>
      rw [decode_cons, List.map_cons] at h
      obtain ⟨hfirst, hrest⟩ := List.cons.inj h
      obtain ⟨v, hv, rfl⟩ := Option.map_eq_some_iff.mp hfirst
      have hstep : decodeStep a rest = (some v, (decodeStep a rest).2) := Prod.ext hv rfl
      rw [encodeChar_of_decodeStep hstep, encode_cons, ih hrest]

theorem map_some_filterMap {l : List (Option Char)} (h : l.all Option.isSome = true) :
    (l.filterMap id).map some = l := by
  induction l with
  | nil => rfl
  | cons c l ih =>
    obtain ⟨hc, hl⟩ := Bool.and_eq_true_iff.mp ((List.all_cons).symm.trans h)
    obtain ⟨c, rfl⟩ := Option.isSome_iff_exists.mp hc
    exact congrArg (some c :: ·) (ih hl)

theorem fromUtf8_eq_some_iff {bytes : List UInt8} {text : List Char} :
    fromUtf8 bytes = some text ↔ bytes = encode text := by
  constructor
  · intro h
    unfold fromUtf8 at h
    split at h
    · rename_i hall
      rw [← Option.some.inj h]
      exact encode_of_decode (map_some_filterMap hall).symm
    · cases h
  · rintro rfl
    rw [fromUtf8, decode_encode, if_pos (by simp)]
    simp

theorem fromUtf8Lossy_encode (text : List Char) : fromUtf8Lossy (encode text) = text := by
  rw [fromUtf8Lossy, decode_encode, List.map_map]
  exact List.map_id' text

end ScrabbleMagyar.Utf8
