import Mathlib.Data.List.Lex
import Mathlib.Data.List.Sort
import Mathlib.Order.Monotone.Basic
import Mathlib.Tactic.Common

/-!
# Searching a sorted list

`lowerBound` halves the interval in which the first element not below a key lies. In a list of
words sorted as in a dictionary, the words with a given start stand together, from this place on.

* `lowerBound_spec`: the elements before the place are below the key, the others are not.
* `getElem?_lowerBound_eq_some`: a search for an element.
* `exists_prefix_iff`: a search for a word with a given start.
-/

namespace ScrabbleMagyar.Bisect

variable {α : Type*} [LinearOrder α]

/-- Halve the interval from `lo` to `hi` until it is empty. -/
def search (l : List α) (key : α) : ℕ → ℕ → ℕ → ℕ
  | 0, lo, _ => lo
  | fuel + 1, lo, hi =>
    if lo < hi then
      let mid := (lo + hi) / 2
      if l[mid]?.any fun a => decide (a < key) then search l key fuel (mid + 1) hi
      else search l key fuel lo mid
    else lo

/-- The first index whose element is not below the key. -/
def lowerBound (l : List α) (key : α) : ℕ := search l key l.length 0 l.length

/-- The place parts the list at the key. -/
structure Parts (l : List α) (key : α) (i : ℕ) : Prop where
  le_length : i ≤ l.length
  below : ∀ j a, j < i → l[j]? = some a → a < key
  above : ∀ j a, i ≤ j → l[j]? = some a → key ≤ a

theorem le_of_getElem? {l : List α} (hl : l.Pairwise (· ≤ ·)) {i j : ℕ} {a b : α} (hij : i ≤ j)
    (ha : l[i]? = some a) (hb : l[j]? = some b) : a ≤ b := by
  obtain ⟨hi, rfl⟩ := List.getElem?_eq_some_iff.mp ha
  obtain ⟨hj, rfl⟩ := List.getElem?_eq_some_iff.mp hb
  obtain rfl | hlt := Nat.eq_or_lt_of_le hij
  · exact le_rfl
  · exact List.pairwise_iff_getElem.mp hl i j hi hj hlt

theorem search_parts {l : List α} (hl : l.Pairwise (· ≤ ·)) (key : α) {fuel lo hi : ℕ}
    (hfuel : hi - lo ≤ fuel) (hle : lo ≤ hi) (hhi : hi ≤ l.length)
    (hbelow : ∀ j a, j < lo → l[j]? = some a → a < key)
    (habove : ∀ j a, hi ≤ j → l[j]? = some a → key ≤ a) : Parts l key (search l key fuel lo hi) := by
  induction fuel generalizing lo hi with
  | zero =>
    obtain rfl : lo = hi := by omega
    exact ⟨hhi, hbelow, habove⟩
  | succ fuel ih =>
    unfold search
    split
    · have hmid : (lo + hi) / 2 < l.length := by omega
      obtain ⟨m, hm⟩ : ∃ m, l[(lo + hi) / 2]? = some m := ⟨_, List.getElem?_eq_getElem hmid⟩
      simp only [hm, Option.any_some, decide_eq_true_eq]
      split
      · rename_i hlt
        -- the first half lies below the key with its last element
        refine ih (by omega) (by omega) hhi (fun j a hj ha => ?_) habove
        exact (le_of_getElem? hl (by omega) ha hm).trans_lt hlt
      · rename_i hge
        refine ih (by omega) (by omega) (by omega) hbelow fun j a hj ha => ?_
        exact (not_lt.mp hge).trans (le_of_getElem? hl hj hm ha)
    · obtain rfl : lo = hi := by omega
      exact ⟨hhi, hbelow, habove⟩

/-- **The search finds the place of the key.** -/
theorem lowerBound_spec {l : List α} (hl : l.Pairwise (· ≤ ·)) (key : α) :
    Parts l key (lowerBound l key) := by
  refine search_parts hl key (by omega) (Nat.zero_le _) le_rfl
    (fun j a hj => by omega) fun j a hj ha => ?_
  rw [List.getElem?_eq_none hj] at ha
  cases ha

/-- An element that is not below the key stands at its place or later. -/
theorem Parts.exists_le {l : List α} {key a : α} {i : ℕ} (h : Parts l key i) (ha : a ∈ l)
    (hle : key ≤ a) : ∃ j, i ≤ j ∧ l[j]? = some a := by
  obtain ⟨j, hj⟩ := List.mem_iff_getElem?.mp ha
  refine ⟨j, not_lt.mp fun hlt => ?_, hj⟩
  exact absurd (h.below j a hlt hj) (not_lt.mpr hle)

/-- If some element is not below the key, one is at its place, and it is not above that one. -/
theorem exists_getElem?_lowerBound {l : List α} (hl : l.Pairwise (· ≤ ·)) {key a : α} (ha : a ∈ l)
    (hle : key ≤ a) : ∃ b, l[lowerBound l key]? = some b ∧ key ≤ b ∧ b ≤ a := by
  have hparts := lowerBound_spec hl key
  obtain ⟨j, hij, hj⟩ := hparts.exists_le ha hle
  obtain ⟨hlen, -⟩ := List.getElem?_eq_some_iff.mp hj
  have hb := List.getElem?_eq_getElem (l := l) (i := lowerBound l key) (by omega)
  exact ⟨_, hb, hparts.above _ _ le_rfl hb, le_of_getElem? hl hij hb hj⟩

theorem getElem?_lowerBound_eq_some {l : List α} (hl : l.Pairwise (· ≤ ·)) (key : α) :
    l[lowerBound l key]? = some key ↔ key ∈ l := by
  constructor
  · exact List.mem_of_getElem?
  · intro hmem
    obtain ⟨b, hb, hle, hge⟩ := exists_getElem?_lowerBound hl hmem le_rfl
    rw [hb, le_antisymm hge hle]

/-- The search sees only the order. -/
theorem lowerBound_map {β : Type*} [LinearOrder β] {f : α → β} (hf : StrictMono f) (l : List α)
    (key : α) : lowerBound (l.map f) (f key) = lowerBound l key := by
  have hsearch (fuel lo hi : ℕ) : search (l.map f) (f key) fuel lo hi = search l key fuel lo hi := by
    induction fuel generalizing lo hi with
    | zero => rfl
    | succ fuel ih =>
      have hmid : ((l.map f)[(lo + hi) / 2]?.any fun b => decide (b < f key)) =
          l[(lo + hi) / 2]?.any fun a => decide (a < key) := by
        rw [List.getElem?_map]
        cases l[(lo + hi) / 2]? with
        | none => rfl
        | some a => simp [hf.lt_iff_lt]
      simp only [search, hmid, ih]
  rw [lowerBound, hsearch, List.length_map, lowerBound]

/-! ## Words with a given start -/

/-- Between a word and the words that start with it, all words start with it. -/
theorem prefix_of_le {p s w : List α} (hle : p ≤ w) (hge : w ≤ p ++ s) : p <+: w := by
  induction p generalizing w with
  | nil => exact List.nil_prefix
  | cons a p ih =>
    cases w with
    | nil => exact absurd hle (by simp)
    | cons b w =>
      have hbelow := not_lt.mpr hle
      have habove := not_lt.mpr hge
      rw [List.cons_lt_cons_iff, not_or, not_and] at hbelow
      rw [List.cons_append, List.cons_lt_cons_iff, not_or, not_and] at habove
      obtain rfl : a = b := le_antisymm (not_lt.mp hbelow.1) (not_lt.mp habove.1)
      obtain ⟨t, rfl⟩ := ih (not_lt.mp (hbelow.2 rfl)) (not_lt.mp (habove.2 rfl))
      exact ⟨t, rfl⟩

theorem le_append (p s : List α) : p ≤ p ++ s := by
  induction p with
  | nil => exact not_lt.mp (by simp)
  | cons a p ih => exact List.cons_le_cons a ih

/-- The word at the place of a start has this start, if any word has it. -/
theorem exists_prefix_iff {l : List (List α)} (hl : l.Pairwise (· ≤ ·)) (p : List α) :
    (∃ w, l[lowerBound l p]? = some w ∧ p <+: w) ↔ ∃ w ∈ l, p <+: w := by
  constructor
  · rintro ⟨w, hw, hp⟩
    exact ⟨w, List.mem_of_getElem? hw, hp⟩
  · rintro ⟨_, hmem, s, rfl⟩
    obtain ⟨w, hw, hle, hge⟩ := exists_getElem?_lowerBound hl hmem (le_append p s)
    exact ⟨w, hw, prefix_of_le hle hge⟩

end ScrabbleMagyar.Bisect
