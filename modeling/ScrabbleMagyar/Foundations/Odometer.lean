import Mathlib.Data.Nat.Digits.Lemmas
import Mathlib.Tactic.Common

/-!
# A counter with carry

A counter is a list of places, the last of which turns the fastest. A step turns the last place
and carries on to the left when a place wraps around; the counter is through when the first place
has wrapped around. The counters are followed by their value as digits.

* `value_carry`: a step adds one.
* `mem_visit`: from zero every counter of the same length comes along.
-/

namespace ScrabbleMagyar.Odometer

/-- Turn the place before `pos`, and carry; `none` if the first place wraps around. -/
def carry (base : ℕ) : ℕ → List ℕ → Option (List ℕ)
  | 0, _ => none
  | pos + 1, places =>
    let places := places.set pos (places.getD pos 0 + 1)
    if places.getD pos 0 < base then some places else carry base pos (places.set pos 0)

/-- The counters from a given one on. -/
def visit (base : ℕ) : ℕ → List ℕ → List (List ℕ)
  | 0, _ => []
  | fuel + 1, places => places :: ((carry base places.length places).map (visit base fuel)).getD []

/-! ## A step adds one -/

/-- The step of a counter whose places are given from the last one on. -/
def turn (base : ℕ) : List ℕ → Option (List ℕ)
  | [] => none
  | d :: ds => if d + 1 < base then some ((d + 1) :: ds) else (turn base ds).map (0 :: ·)

theorem carry_reverse (base : ℕ) (ds wrapped : List ℕ) :
    carry base ds.length (ds.reverse ++ wrapped) =
      (turn base ds).map fun ds => ds.reverse ++ wrapped := by
  induction ds generalizing wrapped with
  | nil => rfl
  | cons d ds ih =>
    have hlen : ds.length = ds.reverse.length := ds.length_reverse.symm
    have hset (a b : ℕ) :
        (ds.reverse ++ a :: wrapped).set ds.length b = ds.reverse ++ b :: wrapped := by
      rw [hlen, List.set_append_right _ _ le_rfl, Nat.sub_self, List.set_cons_zero]
    have hget (a : ℕ) : (ds.reverse ++ a :: wrapped).getD ds.length 0 = a := by
      simp [List.getD]
    rw [List.reverse_cons, List.append_assoc, List.singleton_append, List.length_cons, carry]
    simp only [hget, hset, ih, turn]
    split
    · simp
    · cases turn base ds <;> simp

/-- The value of a counter. -/
def value (base : ℕ) (places : List ℕ) : ℕ := Nat.ofDigits base places.reverse

/-- Every place is a digit. -/
def Digits (base : ℕ) (places : List ℕ) : Prop := ∀ d ∈ places, d < base

theorem ofDigits_turn {base : ℕ} {ds ds' : List ℕ} (hds : Digits base ds)
    (h : turn base ds = some ds') :
    Nat.ofDigits base ds' = Nat.ofDigits base ds + 1 ∧ ds'.length = ds.length ∧
      Digits base ds' := by
  induction ds generalizing ds' with
  | nil => cases h
  | cons d ds ih =>
    obtain ⟨hd, hds⟩ := List.forall_mem_cons.mp hds
    unfold turn at h
    split at h
    · rename_i hroom
      obtain rfl := Option.some.inj h
      refine ⟨?_, rfl, List.forall_mem_cons.mpr ⟨hroom, hds⟩⟩
      rw [Nat.ofDigits_cons, Nat.ofDigits_cons]
      omega
    · rename_i hfull
      obtain ⟨ds', hds', rfl⟩ := Option.map_eq_some_iff.mp h
      obtain ⟨hvalue, hlen, hdigits⟩ := ih hds hds'
      refine ⟨?_, by rw [List.length_cons, hlen, List.length_cons],
        List.forall_mem_cons.mpr ⟨by omega, hdigits⟩⟩
      have hbase : d + 1 = base := by omega
      rw [Nat.ofDigits_cons, Nat.ofDigits_cons, hvalue, mul_add, mul_one]
      omega

/-- A counter that is through has the greatest value. -/
theorem ofDigits_of_turn_none {base : ℕ} {ds : List ℕ} (hds : Digits base ds)
    (h : turn base ds = none) : Nat.ofDigits base ds + 1 = base ^ ds.length := by
  induction ds with
  | nil => rfl
  | cons d ds ih =>
    obtain ⟨hd, hds⟩ := List.forall_mem_cons.mp hds
    unfold turn at h
    split at h
    · cases h
    · rename_i hfull
      have hrest := ih hds (Option.map_eq_none_iff.mp h)
      have hbase : d + 1 = base := by omega
      rw [Nat.ofDigits_cons, List.length_cons, pow_succ, ← hrest, add_mul, one_mul]
      rw [mul_comm base]
      omega

variable {base : ℕ} {places places' : List ℕ}

theorem carry_eq (base : ℕ) (places : List ℕ) :
    carry base places.length places = (turn base places.reverse).map List.reverse := by
  have h := carry_reverse base places.reverse []
  simpa using h

/-- **A step adds one.** -/
theorem value_carry (hplaces : Digits base places)
    (h : carry base places.length places = some places') :
    value base places' = value base places + 1 ∧ places'.length = places.length ∧
      Digits base places' := by
  rw [carry_eq] at h
  obtain ⟨ds, hds, rfl⟩ := Option.map_eq_some_iff.mp h
  obtain ⟨hvalue, hlen, hdigits⟩ := ofDigits_turn (by simpa [Digits] using hplaces) hds
  refine ⟨?_, by simpa using hlen, by simpa [Digits] using hdigits⟩
  rw [value, List.reverse_reverse, hvalue, value]

theorem value_of_carry_none (hplaces : Digits base places)
    (h : carry base places.length places = none) : value base places + 1 = base ^ places.length := by
  rw [carry_eq, Option.map_eq_none_iff] at h
  rw [value, ofDigits_of_turn_none (by simpa [Digits] using hplaces) h, List.length_reverse]

/-! ## Every counter comes along -/

theorem value_lt (hbase : 1 < base) (hplaces : Digits base places) :
    value base places < base ^ places.length := by
  rw [← List.length_reverse]
  exact Nat.ofDigits_lt_base_pow_length hbase (by simpa [Digits] using hplaces)

theorem eq_of_value_eq (hbase : 1 < base) (hplaces : Digits base places)
    (hplaces' : Digits base places') (hlen : places.length = places'.length)
    (h : value base places = value base places') : places = places' := by
  refine List.reverse_injective (Nat.ofDigits_inj_of_len_eq hbase (by simpa using hlen) ?_ ?_ h)
  · simpa [Digits] using hplaces
  · simpa [Digits] using hplaces'

theorem mem_visit_of_le (hbase : 1 < base) {fuel : ℕ} (hplaces : Digits base places)
    (hplaces' : Digits base places') (hlen : places.length = places'.length)
    (hle : value base places ≤ value base places')
    (hfuel : value base places' < value base places + fuel) : places' ∈ visit base fuel places := by
  induction fuel generalizing places with
  | zero => omega
  | succ fuel ih =>
    rw [visit]
    obtain heq | hlt := Nat.eq_or_lt_of_le hle
    · rw [eq_of_value_eq hbase hplaces hplaces' hlen heq]
      exact List.mem_cons_self
    · cases hcarry : carry base places.length places with
      | none =>
        have hmax := value_of_carry_none hplaces hcarry
        have hbound := value_lt hbase hplaces'
        rw [← hlen] at hbound
        omega
      | some next =>
        obtain ⟨hvalue, hlen', hdigits⟩ := value_carry hplaces hcarry
        exact List.mem_cons_of_mem _ (ih hdigits (hlen'.trans hlen) (by omega) (by omega))

/-- **From zero every counter comes along.** -/
theorem mem_visit (hbase : 1 < base) (hplaces : Digits base places) :
    places ∈ visit base (base ^ places.length) (List.replicate places.length 0) := by
  have hzero : value base (List.replicate places.length 0) = 0 := by
    rw [value, List.reverse_replicate, Nat.ofDigits_replicate_zero]
  refine mem_visit_of_le hbase (fun d hd => ?_) hplaces (by simp) (by omega) ?_
  · rw [List.eq_of_mem_replicate hd]
    omega
  · rw [hzero, Nat.zero_add]
    exact value_lt hbase hplaces

end ScrabbleMagyar.Odometer
