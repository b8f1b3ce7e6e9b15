import Mathlib.Data.Char
import Mathlib.Data.List.Lex
import Mathlib.Order.Lattice
import Mathlib.Tactic.Common

/-!
# The bytes of a text

`encode` is the encoding of a text in UTF-8. Its bytes are ordered as its characters are, and no
encoded character begins another one; so comparing, searching and cutting may work on the bytes.

* `encode_strictMono`: the order of the bytes is the order of the characters.
* `encode_prefix_iff`: a text starts with another one when its bytes do.
* `lead_of_encode`: a text begins with a byte that is not a continuation byte.
-/

namespace ScrabbleMagyar.Utf8

instance byteOrder : LinearOrder UInt8 where
  le_refl := UInt8.le_refl
  le_trans _ _ _ := UInt8.le_trans
  le_antisymm _ _ := UInt8.le_antisymm
  le_total := UInt8.le_total
  lt_iff_le_not_ge a b := by
    rw [UInt8.lt_iff_toNat_lt, UInt8.le_iff_toNat_le, UInt8.le_iff_toNat_le]
    omega
  toDecidableLE := inferInstance

/-- The bytes of a text. -/
def encode (text : List Char) : List UInt8 := text.flatMap String.utf8EncodeChar

@[simp] theorem encode_nil : encode [] = [] := rfl

theorem encode_cons (c : Char) (text : List Char) :
    encode (c :: text) = String.utf8EncodeChar c ++ encode text := List.flatMap_cons

theorem encode_append (s t : List Char) : encode (s ++ t) = encode s ++ encode t :=
  List.flatMap_append

/-! ## The order -/

theorem ofNat_lt_ofNat {m n : ℕ} (hlt : m < n) (hn : n < 256) : UInt8.ofNat m < UInt8.ofNat n := by
  rw [UInt8.lt_iff_toNat_lt, UInt8.toNat_ofNat', UInt8.toNat_ofNat']
  omega

theorem cons_lt_cons_of_lt {m n : ℕ} (hlt : m < n) (hn : n < 256) (s t : List UInt8) :
    UInt8.ofNat m :: s < UInt8.ofNat n :: t :=
  List.cons_lt_cons_iff.mpr (.inl (ofNat_lt_ofNat hlt hn))

/-- A byte decides unless it is the same on both sides. -/
theorem cons_lt_cons {m n : ℕ} {s t : List UInt8} (hle : m ≤ n) (hn : n < 256)
    (h : m = n → s < t) : UInt8.ofNat m :: s < UInt8.ofNat n :: t := by
  rcases hle.lt_or_eq with hlt | rfl
  · exact cons_lt_cons_of_lt hlt hn s t
  · exact List.cons_lt_cons_iff.mpr (.inr ⟨rfl, h rfl⟩)

/-- A smaller character has smaller bytes, whatever follows. -/
theorem encodeChar_append_lt {c d : Char} (h : c < d) (s t : List UInt8) :
    String.utf8EncodeChar c ++ s < String.utf8EncodeChar d ++ t := by
  have hlt : c.val.toNat < d.val.toNat := UInt32.lt_iff_toNat_lt.mp (Char.lt_def.mp h)
  have hmax : d.val.toNat < 0x110000 := by
    rcases d.valid with hd | hd <;> omega
  simp only [String.utf8EncodeChar]
  generalize c.val.toNat = m at hlt ⊢
  generalize d.val.toNat = n at hlt hmax ⊢
  -- a longer encoding begins with a greater byte
  split_ifs <;> first
    | omega
    | exact cons_lt_cons_of_lt (by omega) (by omega) _ _
    | skip
  · refine cons_lt_cons (by omega) (by omega) fun h₁ => ?_
    exact cons_lt_cons_of_lt (by omega) (by omega) _ _
  · refine cons_lt_cons (by omega) (by omega) fun h₁ => ?_
    refine cons_lt_cons (by omega) (by omega) fun h₂ => ?_
    exact cons_lt_cons_of_lt (by omega) (by omega) _ _
  · refine cons_lt_cons (by omega) (by omega) fun h₁ => ?_
    refine cons_lt_cons (by omega) (by omega) fun h₂ => ?_
    refine cons_lt_cons (by omega) (by omega) fun h₃ => ?_
    exact cons_lt_cons_of_lt (by omega) (by omega) _ _

theorem encodeChar_ne_nil (c : Char) : String.utf8EncodeChar c ≠ [] := by
  rw [← List.length_pos_iff, String.length_utf8EncodeChar]
  exact c.utf8Size_pos

/-- **The bytes are ordered as the characters are.** -/
theorem encode_strictMono : StrictMono encode := by
  intro s t h
  induction s generalizing t with
  | nil =>
    cases t with
    | nil => exact absurd h (lt_irrefl _)
    | cons d t =>
      rw [encode_nil, encode_cons]
      obtain ⟨b, l, hb⟩ := List.exists_cons_of_ne_nil (encodeChar_ne_nil d)
      rw [hb, List.cons_append]
      exact List.nil_lt_cons b _
  | cons c s ih =>
    cases t with
    | nil => exact absurd h (List.not_lt_nil _)
    | cons d t =>
      rw [encode_cons, encode_cons]
      rcases List.cons_lt_cons_iff.mp h with hlt | ⟨rfl, hlt⟩
      · exact encodeChar_append_lt hlt _ _
      · exact List.append_left_lt (ih hlt)

/-! ## Texts that start alike -/

theorem encodeChar_append_inj {c d : Char} {s t : List UInt8}
    (h : String.utf8EncodeChar c ++ s = String.utf8EncodeChar d ++ t) : c = d ∧ s = t := by
  obtain rfl : c = d := by
    rcases lt_trichotomy c d with hlt | heq | hgt
    · exact absurd h (encodeChar_append_lt hlt s t).ne
    · exact heq
    · exact absurd h.symm (encodeChar_append_lt hgt t s).ne
  exact ⟨rfl, List.append_cancel_left h⟩

/-- A text starts with another one when its bytes do. -/
theorem encode_prefix_iff {s t : List Char} : encode s <+: encode t ↔ s <+: t := by
  induction s generalizing t with
  | nil => simp
  | cons c s ih =>
    constructor
    · rintro ⟨rest, hrest⟩
      cases t with
      | nil =>
        rw [encode_cons, List.append_assoc, encode_nil] at hrest
        exact absurd (List.append_eq_nil_iff.mp hrest).1 (encodeChar_ne_nil c)
      | cons d t =>
        rw [encode_cons, encode_cons, List.append_assoc] at hrest
        obtain ⟨rfl, hs⟩ := encodeChar_append_inj hrest
        exact List.cons_prefix_cons.mpr ⟨rfl, ih.mp ⟨rest, hs⟩⟩
    · rintro ⟨rest, rfl⟩
      exact ⟨encode rest, (encode_append _ _).symm⟩

/-! ## Where characters begin -/

/-- Whether a byte is the first of a character, and not a continuation byte. -/
def isLead (b : UInt8) : Bool := decide (b < 0x80) || decide (0xC0 ≤ b)

theorem isLead_ofNat {n : ℕ} (h : n < 0x80 ∨ 0xC0 ≤ n ∧ n < 256) : isLead (UInt8.ofNat n) = true := by
  simp only [isLead, Bool.or_eq_true, decide_eq_true_eq, UInt8.lt_iff_toNat_lt,
    UInt8.le_iff_toNat_le, UInt8.toNat_ofNat', UInt8.reduceToNat]
  omega

theorem lead_of_encodeChar (c : Char) :
    ∃ b rest, String.utf8EncodeChar c = b :: rest ∧ isLead b = true := by
  have hmax : c.val.toNat < 0x110000 := by
    rcases c.valid with hc | hc <;> omega
  unfold String.utf8EncodeChar
  generalize c.val.toNat = n at hmax
  dsimp only
  split_ifs <;> exact ⟨_, _, rfl, isLead_ofNat (by omega)⟩

theorem lead_of_encode {text : List Char} {b : UInt8} (h : (encode text).head? = some b) :
    isLead b = true := by
  cases text with
  | nil => cases h
  | cons c text =>
    obtain ⟨b', rest, hc, hlead⟩ := lead_of_encodeChar c
    rw [encode_cons, hc] at h
    obtain rfl : b' = b := by simpa using h
    exact hlead

end ScrabbleMagyar.Utf8
