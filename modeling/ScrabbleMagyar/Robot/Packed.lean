import ScrabbleMagyar.Foundations.Utf8
import ScrabbleMagyar.Robot.Vocabulary
import Mathlib.Data.List.Destutter

/-!
# The vocabulary in its buffer

The words of the vocabulary as the source keeps them (`Vocabulary` in `robot/ai.rs`): one after
the other in one buffer of bytes, with the places where they begin. A place is a number of 32
bits, so that a buffer of 4 GiB has places that are not those of its words.

A panic of the source (an index or a cut out of range) is `none` here.

* `refines`: in a buffer below 4 GiB the words and the searches are those of the sorted list
  (`Robot/Vocabulary.lean`).
* `exact_iff`: the searches are exact precisely there.
-/

namespace ScrabbleMagyar.Packed

open Utf8

structure Vocabulary where
  data : List UInt8
  /-- Where the words begin, and the length of the buffer. -/
  offsets : List UInt32

namespace Vocabulary

/-- The words one after the other, with their places. -/
def pack (list : List (List UInt8)) : Vocabulary :=
  let (data, offsets) := list.foldl (fun (data, offsets) word =>
    (data ++ word, offsets ++ [UInt32.ofNat data.length])) (([], []) : List UInt8 × List UInt32)
  ⟨data, offsets ++ [UInt32.ofNat data.length]⟩

/-- The bytes of the upper case forms of the words, sorted, without repetitions. -/
def sortedBytes (casing : Casing) (words : List Word) : List (List UInt8) :=
  ((words.map fun w => encode (casing.toUppercase w)).mergeSort (· ≤ ·)).destutter (· ≠ ·)

def new (casing : Casing) (words : List Word) : Vocabulary := pack (sortedBytes casing words)

variable (v : Vocabulary)

def len : ℕ := v.offsets.length - 1

/-- `is_char_boundary`. -/
def isCharBoundary (i : ℕ) : Bool :=
  i == 0 || match v.data[i]? with
    | some b => isLead b
    | none => i == v.data.length

/-- A cut of the buffer: it must begin and end where characters do. -/
def slice (a b : ℕ) : Option (List UInt8) :=
  if a ≤ b && v.isCharBoundary a && v.isCharBoundary b then some ((v.data.drop a).take (b - a))
  else none

def word (index : ℕ) : Option (List UInt8) :=
  match v.offsets[index]?, v.offsets[index + 1]? with
  | some a, some b => v.slice a.toNat b.toNat
  | _, _ => none

/-- The words in their order. -/
def iter : Option (List (List UInt8)) := (List.range v.len).mapM v.word

/-- Halve the interval from `lo` to `hi` until it is empty. -/
def search (key : List UInt8) : ℕ → ℕ → ℕ → Option ℕ
  | 0, lo, _ => some lo
  | fuel + 1, lo, hi =>
    if lo < hi then
      let mid := (lo + hi) / 2
      match v.word mid with
      | none => none
      | some w => if w < key then search key fuel (mid + 1) hi else search key fuel lo mid
    else some lo

/-- The index of the first word that is not below `key`. -/
def lowerBound (key : List UInt8) : Option ℕ := v.search key v.len 0 v.len

/-- Look at the word at the place of a key. -/
def probe (key : List UInt8) (p : List UInt8 → Bool) : Option Bool :=
  match v.lowerBound key with
  | none => none
  | some i => if i < v.len then (v.word i).map p else some false

def hasPrefix (start : Word) : Option Bool :=
  v.probe (encode start) fun w => (encode start).isPrefixOf w

def contains (word : Word) : Option Bool := v.probe (encode word) fun w => w == encode word

/-! ## The places -/

/-- Where a word begins. -/
def place (list : List (List UInt8)) (i : ℕ) : ℕ := (list.take i).flatten.length

theorem place_le (list : List (List UInt8)) (i : ℕ) : place list i ≤ list.flatten.length := by
  conv_rhs => rw [← List.take_append_drop i list, List.flatten_append, List.length_append]
  exact Nat.le_add_right _ _

theorem place_succ {list : List (List UInt8)} {i : ℕ} {w : List UInt8} (h : list[i]? = some w) :
    place list (i + 1) = place list i + w.length := by
  rw [place, List.take_add_one, h, List.flatten_append, List.length_append]
  simp [place]

theorem foldl_pack (list : List (List UInt8)) :
    list.foldl (fun (s : List UInt8 × List UInt32) word =>
        (s.1 ++ word, s.2 ++ [UInt32.ofNat s.1.length])) ([], []) =
      (list.flatten, (List.range list.length).map fun i => UInt32.ofNat (place list i)) := by
  induction list using List.reverseRecOn with
  | nil => rfl
  | append_singleton list w ih =>
    have hplaces : ((List.range list.length).map fun i => UInt32.ofNat (place (list ++ [w]) i)) =
        (List.range list.length).map fun i => UInt32.ofNat (place list i) := by
      refine List.map_congr_left fun i hi => ?_
      rw [place, List.take_append_of_le_length (List.mem_range.mp hi).le, place]
    have hlast : place (list ++ [w]) list.length = list.flatten.length := by
      rw [place, List.take_left]
    rw [List.foldl_append, ih, List.length_append, List.length_singleton, List.range_succ,
      List.map_append, hplaces]
    simp [hlast]

theorem data_pack (list : List (List UInt8)) : (pack list).data = list.flatten :=
  congrArg Prod.fst (foldl_pack list)

theorem offsets_pack (list : List (List UInt8)) :
    (pack list).offsets = (List.range (list.length + 1)).map fun i => UInt32.ofNat (place list i) := by
  have hlast : place list list.length = list.flatten.length := by rw [place, List.take_length]
  have hpack : (pack list).offsets = ((List.range list.length).map fun i =>
      UInt32.ofNat (place list i)) ++ [UInt32.ofNat list.flatten.length] :=
    congrArg (fun s : List UInt8 × List UInt32 => s.2 ++ [UInt32.ofNat s.1.length])
      (foldl_pack list)
  rw [hpack, List.range_succ, List.map_append, ← hlast]
  rfl

@[simp] theorem len_pack (list : List (List UInt8)) : (pack list).len = list.length := by
  rw [len, offsets_pack, List.length_map, List.length_range]
  rfl

theorem word_pack {list : List (List UInt8)} {i : ℕ} (hi : i < list.length) :
    (pack list).word i =
      (pack list).slice (place list i % 2 ^ 32) (place list (i + 1) % 2 ^ 32) := by
  have hoffset : ∀ j, j ≤ list.length →
      (pack list).offsets[j]? = some (UInt32.ofNat (place list j)) := by
    intro j hj
    rw [offsets_pack, List.getElem?_map, List.getElem?_range (by omega), Option.map_some]
  rw [word, hoffset i hi.le, hoffset (i + 1) hi]
  simp only [UInt32.toNat_ofNat']

/-! ## Below 4 GiB -/

/-- Every word is the encoding of a text. -/
def Encoded (list : List (List UInt8)) : Prop := ∀ w ∈ list, ∃ t, encode t = w

theorem exists_encode_flatten {list : List (List UInt8)} (h : Encoded list) :
    ∃ t, encode t = list.flatten := by
  induction list with
  | nil => exact ⟨[], rfl⟩
  | cons w list ih =>
    obtain ⟨s, rfl⟩ := h w List.mem_cons_self
    obtain ⟨t, ht⟩ := ih fun w hw => h w (List.mem_cons_of_mem _ hw)
    exact ⟨s ++ t, by rw [encode_append, ht, List.flatten_cons]⟩

/-- The places of the words are where characters begin. -/
theorem isCharBoundary_place {list : List (List UInt8)} (h : Encoded list) (i : ℕ) :
    (pack list).isCharBoundary (place list i) = true := by
  have hdrop : Encoded (list.drop i) := fun w hw => h w (List.mem_of_mem_drop hw)
  obtain ⟨t, ht⟩ := exists_encode_flatten hdrop
  have hsplit : list.flatten = (list.take i).flatten ++ encode t := by
    rw [ht, ← List.flatten_append, List.take_append_drop]
  have hbyte : list.flatten[place list i]? = (encode t).head? := by
    rw [hsplit, place, List.getElem?_append_right le_rfl, Nat.sub_self, List.head?_eq_getElem?]
  rw [isCharBoundary, data_pack, hbyte, Bool.or_eq_true]
  right
  cases hhead : (encode t).head? with
  | some b => exact lead_of_encode hhead
  | none =>
    have hlen : list.flatten.length = place list i := by
      rw [hsplit, List.length_append, List.head?_eq_none_iff.mp hhead]
      rfl
    simp [hlen]

/-- The words of a buffer below 4 GiB. -/
theorem word_eq {list : List (List UInt8)} (h : Encoded list)
    (hfits : list.flatten.length < 2 ^ 32) (i : ℕ) (hi : i < list.length) :
    (pack list).word i = list[i]? := by
  obtain ⟨w, hw⟩ : ∃ w, list[i]? = some w := ⟨_, List.getElem?_eq_getElem hi⟩
  have hsucc := place_succ hw
  have hsplit : list.flatten = (list.take i).flatten ++ (list.drop i).flatten := by
    rw [← List.flatten_append, List.take_append_drop]
  have hrest : list.flatten.drop (place list i) = w ++ (list.drop (i + 1)).flatten := by
    rw [hsplit, place, List.drop_left, List.drop_eq_getElem?_toList_append, hw]
    rfl
  have hmod : ∀ j, place list j % 2 ^ 32 = place list j := fun j =>
    Nat.mod_eq_of_lt ((place_le list j).trans_lt hfits)
  rw [word_pack hi, hmod, hmod, slice, isCharBoundary_place h, isCharBoundary_place h, data_pack,
    hrest, hsucc, if_pos (by simp), Nat.add_sub_cancel_left, List.take_left, hw]

/-! ## The searches -/

section Searches

variable {list : List (List UInt8)} (hword : ∀ i < list.length, (pack list).word i = list[i]?)

include hword

theorem search_eq (key : List UInt8) {fuel lo hi : ℕ} (hhi : hi ≤ list.length) :
    (pack list).search key fuel lo hi = some (Bisect.search list key fuel lo hi) := by
  induction fuel generalizing lo hi with
  | zero => rfl
  | succ fuel ih =>
    unfold search Bisect.search
    by_cases hlt : lo < hi
    · have hmid : (lo + hi) / 2 < list.length := by omega
      simp only [if_pos hlt, hword _ hmid, List.getElem?_eq_getElem hmid, Option.any_some,
        decide_eq_true_eq]
      split
      · exact ih hhi
      · exact ih (by omega)
    · rw [if_neg hlt, if_neg hlt]

theorem probe_eq (key : List UInt8) (p : List UInt8 → Bool) :
    (pack list).probe key p = some (list[Bisect.lowerBound list key]?.any p) := by
  have hplace : (pack list).lowerBound key = some (Bisect.lowerBound list key) := by
    rw [lowerBound, len_pack, search_eq hword key le_rfl, Bisect.lowerBound]
  rw [probe, hplace, len_pack]
  by_cases hlt : Bisect.lowerBound list key < list.length
  · simp only [if_pos hlt, hword _ hlt, List.getElem?_eq_getElem hlt, Option.map_some,
      Option.any_some]
  · simp only [if_neg hlt, List.getElem?_eq_none (not_lt.mp hlt), Option.any_none]

theorem iter_eq : (pack list).iter = some list := by
  have htake : ∀ n ≤ list.length, (List.range n).mapM (pack list).word = some (list.take n) := by
    intro n hn
    induction n with
    | zero => rfl
    | succ n ih =>
      have hlast : (pack list).word n = some list[n] := by
        rw [hword n hn, List.getElem?_eq_getElem hn]
      rw [List.range_succ, List.mapM_append, ih (by omega), List.take_add_one,
        List.getElem?_eq_getElem hn]
      simp [hlast]
  rw [iter, len_pack, htake _ le_rfl, List.take_length]

end Searches

/-! ## From 4 GiB on -/

/-- The words that the places cut out have no more bytes than the last place says. -/
theorem length_mapM_word_le {list : List (List UInt8)} {n : ℕ} (hn : n ≤ list.length)
    {cut : List (List UInt8)} (h : (List.range n).mapM (pack list).word = some cut) :
    cut.flatten.length ≤ place list n % 2 ^ 32 := by
  induction n generalizing cut with
  | zero =>
    obtain rfl : [] = cut := Option.some.inj h
    exact Nat.zero_le _
  | succ n ih =>
    rw [List.range_succ, List.mapM_append] at h
    simp only [List.mapM_cons, List.mapM_nil, Option.bind_eq_bind, Option.pure_def,
      Option.bind_some, Option.bind_eq_some_iff, Option.some.injEq, word_pack hn] at h
    obtain ⟨before, hbefore, _, ⟨w, hw, rfl⟩, rfl⟩ := h
    have hle := ih (by omega) hbefore
    unfold slice at hw
    split at hw
    · rename_i hcut
      obtain rfl := Option.some.inj hw
      simp only [Bool.and_eq_true, decide_eq_true_eq] at hcut
      simp only [List.flatten_append, List.flatten_cons, List.flatten_nil, List.append_nil,
        List.length_append, List.length_take]
      omega
    · cases hw

/-! ## The words of a vocabulary -/

variable (casing : Casing) (words : List Word)

/-- The number of bytes of the upper case forms, each counted once. -/
def size : ℕ := ((words.map casing.toUppercase).dedup.map fun w => (encode w).length).sum

/-- The bytes of the list of `Robot/Vocabulary.lean`. -/
theorem sortedBytes_eq :
    sortedBytes casing words = (ScrabbleMagyar.Vocabulary.new casing words).words.map encode := by
  have hle := List.pairwise_mergeSort' (· ≤ ·) (words.map fun w => encode (casing.toUppercase w))
  have hlt : ((ScrabbleMagyar.Vocabulary.new casing words).words.map encode).Pairwise (· < ·) :=
    List.pairwise_map.mpr ((ScrabbleMagyar.Vocabulary.new casing words).sorted.imp
      fun h => encode_strictMono h)
  rw [sortedBytes, hle.destutter_eq_dedup]
  refine List.Perm.eq_of_pairwise' (r := (· ≤ ·)) (hle.sublist (List.dedup_sublist _))
    (hlt.imp le_of_lt) ?_
  refine (List.perm_ext_iff_of_nodup (List.nodup_dedup _) (hlt.imp ne_of_lt)).mpr fun b => ?_
  simp [ScrabbleMagyar.Vocabulary.mem_new]

theorem size_eq : size casing words = (sortedBytes casing words).flatten.length := by
  have hnodup := (ScrabbleMagyar.Vocabulary.new casing words).sorted.imp ne_of_lt
  have hperm : (words.map casing.toUppercase).dedup.Perm
      (ScrabbleMagyar.Vocabulary.new casing words).words :=
    (List.perm_ext_iff_of_nodup (List.nodup_dedup _) hnodup).mpr fun w => by
      simp [ScrabbleMagyar.Vocabulary.mem_new]
  rw [size, (hperm.map _).sum_nat, sortedBytes_eq, List.length_flatten, List.map_map]
  rfl

theorem encoded_sortedBytes : Encoded (sortedBytes casing words) := by
  intro w hw
  rw [sortedBytes_eq] at hw
  obtain ⟨t, -, ht⟩ := List.mem_map.mp hw
  exact ⟨t, ht⟩

/-- **Below 4 GiB the buffer is the sorted list.** -/
theorem refines (hfits : size casing words < 2 ^ 32) :
    (new casing words).iter =
        some ((ScrabbleMagyar.Vocabulary.new casing words).words.map encode) ∧
      (∀ word, (new casing words).contains word =
        some ((ScrabbleMagyar.Vocabulary.new casing words).contains word)) ∧
      ∀ start, (new casing words).hasPrefix start =
        some ((ScrabbleMagyar.Vocabulary.new casing words).hasPrefix start) := by
  have hword := word_eq (encoded_sortedBytes casing words) (size_eq casing words ▸ hfits)
  refine ⟨?_, fun word => ?_, fun start => ?_⟩
  · rw [new, iter_eq hword, sortedBytes_eq]
  · rw [new, contains, probe_eq hword, sortedBytes_eq, Bisect.lowerBound_map encode_strictMono,
      List.getElem?_map, Option.any_map]
    congr 2
    funext w
    rw [Bool.eq_iff_iff, beq_iff_eq, beq_iff_eq, encode_strictMono.injective.eq_iff]
  · rw [new, hasPrefix, probe_eq hword, sortedBytes_eq, Bisect.lowerBound_map encode_strictMono,
      List.getElem?_map, Option.any_map]
    congr 2
    funext w
    rw [Bool.eq_iff_iff, List.isPrefixOf_iff_prefix, List.isPrefixOf_iff_prefix, encode_prefix_iff]

/-- The vocabulary lists the upper case words once each in the order of their bytes, and finds
them and their starts. -/
structure Exact : Prop where
  listed : ∃ list, (new casing words).iter = some list ∧ list.Pairwise (· < ·) ∧
    ∀ b, b ∈ list ↔ ∃ w ∈ words, encode (casing.toUppercase w) = b
  contains : ∀ word, (new casing words).contains word =
    some (decide (∃ w ∈ words, casing.toUppercase w = word))
  hasPrefix : ∀ start, (new casing words).hasPrefix start =
    some (decide (∃ w ∈ words, start <+: casing.toUppercase w))

/-- **The vocabulary is exact** precisely if its words have less than 2^32 bytes. -/
theorem exact_iff : Exact casing words ↔ size casing words < 2 ^ 32 := by
  have hsorted : (sortedBytes casing words).Pairwise (· < ·) := by
    rw [sortedBytes_eq, List.pairwise_map]
    exact (ScrabbleMagyar.Vocabulary.new casing words).sorted.imp fun h => encode_strictMono h
  have hmem : ∀ b, b ∈ sortedBytes casing words ↔
      ∃ w ∈ words, encode (casing.toUppercase w) = b := fun b => by
    rw [sortedBytes_eq]
    simp [ScrabbleMagyar.Vocabulary.mem_new]
  constructor
  · rintro ⟨⟨list, hiter, hlt, hlist⟩, -, -⟩
    have heq : list = sortedBytes casing words :=
      List.Perm.eq_of_pairwise' (r := (· ≤ ·)) (hlt.imp le_of_lt) (hsorted.imp le_of_lt)
        ((List.perm_ext_iff_of_nodup (hlt.imp ne_of_lt) (hsorted.imp ne_of_lt)).mpr
          fun b => (hlist b).trans (hmem b).symm)
    rw [new, iter, len_pack] at hiter
    have hle := length_mapM_word_le le_rfl hiter
    rw [size_eq, ← heq]
    exact hle.trans_lt (Nat.mod_lt _ (by norm_num))
  · intro hfits
    obtain ⟨hiter, hcontains, hstarts⟩ := refines casing words hfits
    refine ⟨⟨_, hiter, sortedBytes_eq casing words ▸ hsorted,
      sortedBytes_eq casing words ▸ hmem⟩, fun word => ?_, fun start => ?_⟩
    · rw [hcontains, Option.some.injEq, Bool.eq_iff_iff, decide_eq_true_eq,
        ScrabbleMagyar.Vocabulary.contains_iff, ScrabbleMagyar.Vocabulary.mem_new]
    · rw [hstarts, Option.some.injEq, Bool.eq_iff_iff, decide_eq_true_eq,
        ScrabbleMagyar.Vocabulary.hasPrefix_iff]
      simp [ScrabbleMagyar.Vocabulary.mem_new]

theorem length_encode_replicate (n : ℕ) : (encode (List.replicate n 'A')).length = n := by
  induction n with
  | zero => rfl
  | succ n ih =>
    rw [List.replicate_succ, encode_cons, List.length_append, ih]
    exact Nat.add_comm 1 n

theorem size_replicate (n : ℕ) : size casing [List.replicate n 'A'] = n := by
  have hupper : casing.toUppercase (List.replicate n 'A') = List.replicate n 'A' := by
    refine casing.toUppercase_of_upper fun c hc => ?_
    rw [List.eq_of_mem_replicate hc]
    rfl
  have hone : ([List.replicate n 'A'] : List Word).dedup = [List.replicate n 'A'] :=
    List.dedup_eq_self.mpr (List.nodup_singleton _)
  rw [size, List.map_singleton, hupper, hone, List.map_singleton, List.sum_singleton,
    length_encode_replicate]

/-- A word of 2^32 letters is not listed. -/
theorem long_word_lost : ¬ Exact Casing.hungarian [List.replicate (2 ^ 32) 'A'] := by
  rw [exact_iff, size_replicate]
  exact lt_irrefl _

end Vocabulary

end ScrabbleMagyar.Packed
