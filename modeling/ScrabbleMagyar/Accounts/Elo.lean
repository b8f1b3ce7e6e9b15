import ScrabbleMagyar.Db.Ratings
import ScrabbleMagyar.Foundations.Rounding
import Mathlib.Algebra.BigOperators.Group.Multiset.Basic
import Mathlib.Algebra.Order.BigOperators.Group.List
import Mathlib.Analysis.SpecialFunctions.Pow.Real
import Mathlib.Tactic.FieldSimp

/-!
# Rating changes

The Elo rating of games with two to four players (`accounts/elo.rs`): every pair of players is
reckoned by itself, and a change is the mean over the opponents, rounded. The arithmetic is that
of any ordered field with a floor, and the expected score of a pair is any function (`Expectation`
says what it must be like), so that the results hold of the exact values.

* `ratingChanges_lawful`: changes are bounded, independent of the order, balanced and monotone.
* `rule`: the changes as the rule with which the tables of results are kept (`Db/Records.lean`).
-/

namespace ScrabbleMagyar.Elo

/-- So many rated games count as provisional. -/
def provisionalGames : ℤ := 10

/-- How much a game moves a provisional rating. -/
def kProvisional : ℤ := 32

/-- How much a game moves an established one. -/
def kEstablished : ℤ := 20

/-- How much a game moves the rating of a player with so many games. -/
def kFactor (ratedGames : ℤ) : ℤ :=
  if ratedGames < provisionalGames then kProvisional else kEstablished

/-- A rated player of a game. -/
structure Entry (κ : Type*) where
  key : κ
  rating : ℤ
  ratedGames : ℤ
  score : ℤ

section Definitions

variable {κ R : Type*} [DecidableEq κ] [Field R]

/-- The outcome for a player between two: a win, a draw or a loss. -/
def actual (score otherScore : ℤ) : R :=
  if score > otherScore then 1 else if score = otherScore then 0.5 else 0

/-- What a player has won over the expectation, summed over the opponents. -/
def total (expectedScore : ℤ → ℤ → R) (entries : List (Entry κ)) (e : Entry κ) : R :=
  entries.foldl (fun total other =>
    if other.key = e.key then total
    else total + (actual e.score other.score - expectedScore e.rating other.rating)) 0

/-- What the players of a game win and lose (`rating_changes`). -/
def ratingChanges [LinearOrder R] [FloorRing R] (expectedScore : ℤ → ℤ → R)
    (entries : List (Entry κ)) : Table κ ℤ :=
  if entries.length < 2 then entries.foldl (fun changes e => changes.insert e.key 0) ∅
  else
    let opponents : R := ((entries.length - 1 : ℕ) : R)
    entries.foldl (fun changes e => changes.insert e.key
      (roundTiesEven (kFactor e.ratedGames * total expectedScore entries e / opponents))) ∅

/-- What a player wins over the expectation against another one; nothing against itself. -/
def margin (expectedScore : ℤ → ℤ → R) (e other : Entry κ) : R :=
  if other.key = e.key then 0 else actual e.score other.score - expectedScore e.rating other.rating

theorem total_eq (E : ℤ → ℤ → R) (entries : List (Entry κ)) (e : Entry κ) :
    total E entries e = (entries.map (margin E e)).sum := by
  have hfold : ∀ (l : List (Entry κ)) (x : R), l.foldl (fun total other =>
      if other.key = e.key then total
      else total + (actual e.score other.score - E e.rating other.rating)) x =
        x + (l.map (margin E e)).sum := by
    intro l
    induction l with
    | nil => exact fun x => (add_zero x).symm
    | cons other l ih =>
      intro x
      rw [List.foldl_cons, ih, List.map_cons, List.sum_cons, margin]
      split <;> ring
  rw [total, hfold, zero_add]

/-- The entries with another score for one player. -/
def raise (key : κ) (score : ℤ) (entries : List (Entry κ)) : List (Entry κ) :=
  entries.map fun e => if e.key = key then { e with score } else e

theorem keys_raise (key : κ) (score : ℤ) (entries : List (Entry κ)) :
    (raise key score entries).map Entry.key = entries.map Entry.key := by
  rw [raise, List.map_map]
  refine List.map_congr_left fun e _ => ?_
  simp only [Function.comp_apply]
  split <;> rfl

theorem total_raise (E : ℤ → ℤ → R) (key : κ) (score : ℤ) (entries : List (Entry κ)) (e : Entry κ) :
    total E (raise key score entries) e = (entries.map fun other =>
      margin E e (if other.key = key then { other with score } else other)).sum := by
  rw [total_eq, raise, List.map_map]
  rfl

end Definitions

section Tables

variable {κ R : Type*} [DecidableEq κ] [Field R] [LinearOrder R] [FloorRing R] {E : ℤ → ℤ → R}
  {entries : List (Entry κ)}

/-- The change of a player before it is rounded. -/
def share (E : ℤ → ℤ → R) (entries : List (Entry κ)) (e : Entry κ) : R :=
  kFactor e.ratedGames * total E entries e / ((entries.length - 1 : ℕ) : R)

/-- The change of a key; 0 for a key that is not there. -/
def change (E : ℤ → ℤ → R) (entries : List (Entry κ)) (key : κ) : ℤ :=
  ((ratingChanges E entries).lookup key).getD 0

theorem lookup_ratingChanges (hlen : 2 ≤ entries.length) (hnodup : (entries.map Entry.key).Nodup)
    (key : κ) : (ratingChanges E entries).lookup key =
      (entries.find? fun e => e.key = key).map fun e => roundTiesEven (share E entries e) := by
  rw [ratingChanges, if_neg (by omega)]
  refine (Table.lookup_foldl_insert (fun e => roundTiesEven (share E entries e)) hnodup ∅ key).trans ?_
  rw [AList.lookup_empty, Option.or_none]

theorem find_of_mem (hnodup : (entries.map Entry.key).Nodup) {e : Entry κ} (he : e ∈ entries) :
    (entries.find? fun e' => e'.key = e.key) = some e := by
  cases hfind : entries.find? fun e' => e'.key = e.key with
  | none => exact absurd (List.find?_eq_none.mp hfind e he) (by simp)
  | some e' =>
    have hkey : e'.key = e.key := by simpa using List.find?_some hfind
    rw [List.inj_on_of_nodup_map hnodup (List.mem_of_find?_eq_some hfind) he hkey]

theorem lookup_of_mem (hlen : 2 ≤ entries.length) (hnodup : (entries.map Entry.key).Nodup)
    {e : Entry κ} (he : e ∈ entries) :
    (ratingChanges E entries).lookup e.key = some (roundTiesEven (share E entries e)) := by
  rw [lookup_ratingChanges hlen hnodup, find_of_mem hnodup he, Option.map_some]

theorem change_of_mem (hlen : 2 ≤ entries.length) (hnodup : (entries.map Entry.key).Nodup)
    {e : Entry κ} (he : e ∈ entries) :
    change E entries e.key = roundTiesEven (share E entries e) := by
  rw [change, lookup_of_mem hlen hnodup he, Option.getD_some]

/-- **The order of the entries does not matter.** -/
theorem lookup_perm (hlen : 2 ≤ entries.length) (hnodup : (entries.map Entry.key).Nodup)
    {entries' : List (Entry κ)} (hperm : entries.Perm entries') (key : κ) :
    (ratingChanges E entries').lookup key = (ratingChanges E entries).lookup key := by
  have hnodup' : (entries'.map Entry.key).Nodup := (hperm.map Entry.key).nodup_iff.mp hnodup
  have hshare : ∀ e, share E entries' e = share E entries e := fun e => by
    rw [share, share, total_eq, total_eq, (hperm.map (margin E e)).sum_eq, hperm.length_eq]
  rw [lookup_ratingChanges (hperm.length_eq ▸ hlen) hnodup', lookup_ratingChanges hlen hnodup]
  simp only [hshare]
  congr 1
  refine Option.ext fun e => ?_
  constructor <;> intro h
  · have hkey : e.key = key := by simpa using List.find?_some h
    exact hkey ▸ find_of_mem hnodup (hperm.mem_iff.mpr (List.mem_of_find?_eq_some h))
  · have hkey : e.key = key := by simpa using List.find?_some h
    exact hkey ▸ find_of_mem hnodup' (hperm.mem_iff.mp (List.mem_of_find?_eq_some h))

/-- The sum of all changes. -/
def sumOfChanges (E : ℤ → ℤ → R) (entries : List (Entry κ)) : ℤ :=
  (entries.map fun e => change E entries e.key).sum

theorem sumOfChanges_eq (hlen : 2 ≤ entries.length) (hnodup : (entries.map Entry.key).Nodup) :
    sumOfChanges E entries = (entries.map fun e => roundTiesEven (share E entries e)).sum :=
  congrArg List.sum (List.map_congr_left fun _ he => change_of_mem hlen hnodup he)

end Tables

/-- The expected result of a player against an opponent. -/
noncomputable def expectedScore (rating opponentRating : ℤ) : ℝ :=
  1 / (1 + (10 : ℝ) ^ (((opponentRating - rating : ℤ) : ℝ) / 400))

/-- What an expected score must be like: between 0 and 1, and 1 for the two of a pair together. -/
structure Expectation {R : Type*} [Field R] [LinearOrder R] (expectedScore : ℤ → ℤ → R) : Prop where
  pos : ∀ a b, 0 < expectedScore a b
  lt_one : ∀ a b, expectedScore a b < 1
  pair : ∀ a b, expectedScore a b + expectedScore b a = 1

/-- The formula of the source is such a score. -/
theorem expectation_expectedScore : Expectation expectedScore where
  pos a b := by
    unfold expectedScore
    positivity
  lt_one a b := by
    have hpos : (0 : ℝ) < 10 ^ (((b - a : ℤ) : ℝ) / 400) := by positivity
    rw [expectedScore, div_lt_one (by positivity)]
    linarith
  pair a b := by
    have hpos : (0 : ℝ) < 10 ^ (((b - a : ℤ) : ℝ) / 400) := by positivity
    have hinv : (10 : ℝ) ^ (((a - b : ℤ) : ℝ) / 400) = (10 ^ (((b - a : ℤ) : ℝ) / 400))⁻¹ := by
      rw [← Real.rpow_neg (by norm_num)]
      congr 1
      push_cast
      ring
    rw [expectedScore, expectedScore, hinv]
    field_simp
    ring

theorem kFactor_pos (n : ℤ) : 0 < kFactor n := by
  unfold kFactor kProvisional kEstablished
  split <;> norm_num

variable {κ R : Type*} [DecidableEq κ] [Field R] [LinearOrder R] [IsStrictOrderedRing R]
  {E : ℤ → ℤ → R}

/-! ## A pair -/

theorem actual_add_actual (a b : ℤ) : (actual a b : R) + actual b a = 1 := by
  unfold actual
  rcases lt_trichotomy a b with h | rfl | h
  · simp [h, h.not_gt, h.ne]
  · simp only [gt_iff_lt, lt_irrefl, if_false, if_true]
    norm_num
  · simp [h, h.not_gt, h.ne]

theorem actual_mono {a a' : ℤ} (h : a ≤ a') (b : ℤ) : (actual a b : R) ≤ actual a' b := by
  unfold actual
  split_ifs <;> first
    | omega
    | norm_num

theorem actual_anti {b b' : ℤ} (h : b ≤ b') (a : ℤ) : (actual a b' : R) ≤ actual a b := by
  unfold actual
  split_ifs <;> first
    | omega
    | norm_num

theorem actual_bounds (a b : ℤ) : (0 : R) ≤ actual a b ∧ (actual a b : R) ≤ 1 := by
  unfold actual
  split_ifs <;> norm_num

/-- What one of a pair wins the other one loses. -/
theorem margin_add_margin (hE : Expectation E) (e other : Entry κ) :
    margin E e other + margin E other e = 0 := by
  unfold margin
  by_cases h : other.key = e.key
  · simp [h]
  · rw [if_neg h, if_neg (Ne.symm h)]
    have hactual := actual_add_actual (R := R) e.score other.score
    have hpair := hE.pair e.rating other.rating
    linarith

theorem abs_margin_le (hE : Expectation E) (e other : Entry κ) :
    |margin E e other| ≤ if other.key = e.key then 0 else 1 := by
  unfold margin
  split
  · simp
  · obtain ⟨hlow, hhigh⟩ := actual_bounds (R := R) e.score other.score
    have hpos := hE.pos e.rating other.rating
    have hone := hE.lt_one e.rating other.rating
    rw [abs_le]
    constructor <;> linarith

/-! ## All pairs -/

variable {entries : List (Entry κ)}

/-- **The winnings over the expectation balance.** -/
theorem sum_total (hE : Expectation E) (entries : List (Entry κ)) :
    (entries.map (total E entries)).sum = 0 := by
  have hswap : (entries.map fun e => (entries.map fun other => margin E e other).sum).sum =
      (entries.map fun e => (entries.map fun other => margin E other e).sum).sum := by
    have h := Multiset.sum_map_sum_map (entries : Multiset (Entry κ)) (entries : Multiset (Entry κ))
      (f := fun e other => margin E e other)
    simpa only [Multiset.map_coe, Multiset.sum_coe] using h
  have hzero : (entries.map fun e => (entries.map fun other => margin E e other).sum).sum +
      (entries.map fun e => (entries.map fun other => margin E other e).sum).sum = 0 := by
    rw [← List.sum_map_add]
    simp only [← List.sum_map_add, margin_add_margin hE]
    simp
  have htotal : (entries.map (total E entries)).sum =
      (entries.map fun e => (entries.map fun other => margin E e other).sum).sum := by
    congr 1
    exact List.map_congr_left fun e _ => total_eq E entries e
  linarith

/-- A player has one opponent less than there are entries. -/
theorem countP_others (hnodup : (entries.map Entry.key).Nodup) {e : Entry κ} (he : e ∈ entries) :
    (entries.countP fun other => decide (other.key ≠ e.key)) = entries.length - 1 := by
  have hself : (entries.countP fun other => other.key == e.key) = 1 := by
    have hone := List.count_eq_one_of_mem hnodup (List.mem_map_of_mem (f := Entry.key) he)
    rwa [List.count_eq_countP, List.countP_map] at hone
  have hsplit := List.length_eq_countP_add_countP (fun other : Entry κ => other.key == e.key)
    (l := entries)
  have hne : (entries.countP fun other => decide (¬(other.key == e.key) = true)) =
      entries.countP fun other => decide (other.key ≠ e.key) :=
    List.countP_congr fun other _ => by simp
  omega

theorem abs_total_le (hE : Expectation E) (hnodup : (entries.map Entry.key).Nodup) {e : Entry κ}
    (he : e ∈ entries) : |total E entries e| ≤ ((entries.length - 1 : ℕ) : R) := by
  rw [total_eq, ← countP_others hnodup he]
  generalize entries = l
  induction l with
  | nil => simp
  | cons other l ih =>
    have hmargin := abs_margin_le hE e other
    rw [List.map_cons, List.sum_cons, List.countP_cons]
    refine (abs_add_le _ _).trans ?_
    by_cases h : other.key = e.key
    · rw [if_pos h] at hmargin
      simp only [h, ne_eq, not_true_eq_false, decide_false, Bool.false_eq_true, if_false, add_zero]
      simp only [ne_eq] at ih
      linarith
    · rw [if_neg h] at hmargin
      simp only [ne_eq, h, not_false_eq_true, decide_true, if_true, Nat.cast_add, Nat.cast_one]
      simp only [ne_eq] at ih
      linarith

/-! ## The changes -/

variable [FloorRing R]

/-- **No change is greater than the factor of the player.** -/
theorem abs_change_le (hE : Expectation E) (hlen : 2 ≤ entries.length)
    (hnodup : (entries.map Entry.key).Nodup) {e : Entry κ} (he : e ∈ entries) :
    |roundTiesEven (share E entries e)| ≤ kFactor e.ratedGames := by
  have hopponents : (0 : R) < ((entries.length - 1 : ℕ) : R) := by
    exact_mod_cast (by omega : 0 < entries.length - 1)
  have hk : (0 : R) < kFactor e.ratedGames := by exact_mod_cast kFactor_pos e.ratedGames
  refine abs_roundTiesEven_le ?_
  rw [share, abs_div, abs_mul, abs_of_pos hk, abs_of_pos hopponents, div_le_iff₀ hopponents]
  exact mul_le_mul_of_nonneg_left (abs_total_le hE hnodup he) hk.le

/-- **Changes with one factor balance up to the rounding.** -/
theorem two_mul_abs_sumOfChanges_le (hE : Expectation E) (hlen : 2 ≤ entries.length)
    (hnodup : (entries.map Entry.key).Nodup) {k : ℤ}
    (hk : ∀ e ∈ entries, kFactor e.ratedGames = k) :
    2 * |sumOfChanges E entries| ≤ entries.length := by
  have hshare : (entries.map (share E entries)).sum = 0 := by
    have hmap : entries.map (share E entries) = entries.map fun e =>
        (k / ((entries.length - 1 : ℕ) : R)) * total E entries e :=
      List.map_congr_left fun e he => by rw [share, hk e he, mul_div_right_comm]
    rw [hmap, List.sum_map_mul_left, sum_total hE, mul_zero]
  have hround := abs_sum_roundTiesEven_sub_le (share E entries) entries
  rw [hshare, sub_zero, ← sumOfChanges_eq hlen hnodup] at hround
  have hcast : 2 * |(sumOfChanges E entries : R)| ≤ entries.length := by linarith
  exact_mod_cast hcast

/-- What one of two players wins the other one loses. -/
theorem sumOfChanges_pair (hE : Expectation E) (hlen : entries.length = 2)
    (hnodup : (entries.map Entry.key).Nodup) {k : ℤ}
    (hk : ∀ e ∈ entries, kFactor e.ratedGames = k) : sumOfChanges E entries = 0 := by
  rw [sumOfChanges_eq hlen.ge hnodup]
  have htotal := sum_total hE entries
  obtain ⟨a, b, rfl⟩ := List.length_eq_two.mp hlen
  have hb : share E [a, b] b = -share E [a, b] a := by
    have hneg : total E [a, b] b = -total E [a, b] a := by
      simp only [List.map_cons, List.map_nil, List.sum_cons, List.sum_nil] at htotal
      linarith
    rw [share, share, hk a (by simp), hk b (by simp), hneg]
    ring
  simp [hb]

/-! ## A higher score -/

/-- The shares of the same player among as many entries are ordered as the totals. -/
theorem share_le {entries' : List (Entry κ)} {e e' : Entry κ}
    (hlen : entries'.length = entries.length) (hgames : e.ratedGames = e'.ratedGames)
    (h : total E entries e ≤ total E entries' e') : share E entries e ≤ share E entries' e' := by
  have hk : (0 : R) < kFactor e'.ratedGames := by exact_mod_cast kFactor_pos e'.ratedGames
  rw [share, share, hlen, hgames]
  exact div_le_div_of_nonneg_right (mul_le_mul_of_nonneg_left h hk.le) (Nat.cast_nonneg _)

/-- **A higher score** never lowers the change of its player, and never raises that of another. -/
theorem change_raise (E : ℤ → ℤ → R) (hlen : 2 ≤ entries.length)
    (hnodup : (entries.map Entry.key).Nodup) {e : Entry κ} (he : e ∈ entries) {score : ℤ}
    (hscore : e.score ≤ score) :
    change E entries e.key ≤ change E (raise e.key score entries) e.key ∧
      ∀ e' ∈ entries, e'.key ≠ e.key →
        change E (raise e.key score entries) e'.key ≤ change E entries e'.key := by
  have hlen' : (raise e.key score entries).length = entries.length := by simp [raise]
  have hnodup' : ((raise e.key score entries).map Entry.key).Nodup := by
    rwa [keys_raise]
  have hraised : ∀ e' ∈ entries, (if e'.key = e.key then { e' with score } else e') ∈
      raise e.key score entries := fun e' he' => List.mem_map_of_mem he'
  have hself : ∀ other ∈ entries, other.key = e.key → other = e := fun other hother hkey =>
    List.inj_on_of_nodup_map hnodup hother he hkey
  constructor
  · have hmem := hraised e he
    rw [if_pos rfl] at hmem
    rw [change_of_mem hlen hnodup he,
      change_of_mem (e := { e with score }) (hlen' ▸ hlen) hnodup' hmem]
    refine roundTiesEven_mono (share_le hlen' rfl ?_)
    rw [total_raise, total_eq]
    refine List.sum_le_sum fun other _ => ?_
    unfold margin
    by_cases hkey : other.key = e.key
    · simp [hkey]
    · simp only [hkey, if_false]
      exact sub_le_sub_right (actual_mono hscore _) _
  · intro e' he' hne
    have hmem := hraised e' he'
    rw [if_neg hne] at hmem
    rw [change_of_mem hlen hnodup he', change_of_mem (hlen' ▸ hlen) hnodup' hmem]
    refine roundTiesEven_mono (share_le hlen'.symm rfl ?_)
    rw [total_raise, total_eq]
    refine List.sum_le_sum fun other hother => ?_
    unfold margin
    by_cases hkey : other.key = e.key
    · obtain rfl := hself other hother hkey
      simp only [if_true, Ne.symm hne, if_false]
      exact sub_le_sub_right (actual_anti hscore _) _
    · rw [if_neg hkey]

/-- **The rating changes of a game**: bounded, independent of the order, balanced up to the
rounding, and monotone in the scores. -/
theorem ratingChanges_lawful (hE : Expectation E) (hlen : 2 ≤ entries.length)
    (hnodup : (entries.map Entry.key).Nodup) :
    (∀ e ∈ entries, ∃ c, (ratingChanges E entries).lookup e.key = some c ∧
      |c| ≤ kFactor e.ratedGames) ∧
    (∀ entries', entries.Perm entries' → ∀ key,
      (ratingChanges E entries').lookup key = (ratingChanges E entries).lookup key) ∧
    (∀ k, (∀ e ∈ entries, kFactor e.ratedGames = k) →
      2 * |sumOfChanges E entries| ≤ entries.length ∧
        (entries.length = 2 → sumOfChanges E entries = 0)) ∧
    ∀ e ∈ entries, ∀ score, e.score ≤ score →
      change E entries e.key ≤ change E (raise e.key score entries) e.key ∧
        ∀ e' ∈ entries, e'.key ≠ e.key →
          change E (raise e.key score entries) e'.key ≤ change E entries e'.key := by
  refine ⟨fun e he => ?_, fun entries' hperm => lookup_perm hlen hnodup hperm, fun k hk => ?_,
    fun e he score hscore => change_raise E hlen hnodup he hscore⟩
  · exact ⟨_, lookup_of_mem hlen hnodup he, abs_change_le hE hlen hnodup he⟩
  · exact ⟨two_mul_abs_sumOfChanges_le hE hlen hnodup hk,
      fun htwo => sumOfChanges_pair hE htwo hnodup hk⟩

/-- Two beginners, of whom the first wins. -/
def beginners : List (Entry ℕ) := [⟨1, 1200, 0, 100⟩, ⟨2, 1200, 0, 50⟩]

theorem ratingChanges_beginners :
    ∃ c, (ratingChanges expectedScore beginners).lookup 1 = some c ∧ |c| ≤ kFactor 0 :=
  (ratingChanges_lawful expectation_expectedScore (by decide : 2 ≤ beginners.length)
    (by decide)).1 ⟨1, 1200, 0, 100⟩ (by simp [beginners])

/-! ## In the tables of results -/

open Records
open Server (UserId)

omit [IsStrictOrderedRing R] in
theorem change_of_short (h : entries.length < 2) (key : κ) : change E entries key = 0 := by
  rw [change, ratingChanges, if_pos h]
  cases entries with
  | nil => rfl
  | cons e rest =>
    cases rest with
    | cons _ _ => simp at h
    | nil =>
      rw [List.foldl_cons, List.foldl_nil, Table.lookup_insert]
      split <;> rfl

/-- A rated player as the tables of results have it. -/
def ofRecord (e : Records.Entry) : Entry UserId := ⟨e.uid, e.rating, e.ratedGames, e.score⟩

/-- The rating changes as the rule of the tables; entries are only made with distinct users. -/
def rule (E : ℤ → ℤ → R) : RatingRule where
  changes l uid :=
    if (l.map Records.Entry.uid).Nodup then change E (l.map ofRecord) uid else 0
  perm {l l'} h := by
    funext uid
    have hperm := h.map ofRecord
    by_cases hnodup : (l.map Records.Entry.uid).Nodup
    · rw [if_pos hnodup, if_pos ((h.map Records.Entry.uid).nodup_iff.mp hnodup)]
      by_cases hlen : 2 ≤ (l.map ofRecord).length
      · have hkeys : ((l.map ofRecord).map Entry.key).Nodup := by
          rw [List.map_map]
          exact hnodup
        rw [change, change, lookup_perm hlen hkeys hperm]
      · rw [change_of_short (by omega), change_of_short (by rw [← hperm.length_eq]; omega)]
    · rw [if_neg hnodup, if_neg fun h' => hnodup ((h.map Records.Entry.uid).nodup_iff.mpr h')]

omit [IsStrictOrderedRing R] in
/-- For the players that `apply_ratings` ranks the rule is `rating_changes`. -/
theorem rule_ranked (E : ℤ → ℤ → R) (standing : UserId → Option (ℤ × ℤ))
    (seats : List (UserId × ℤ)) (uid : UserId) :
    (rule E).changes (ranked standing seats) uid =
      change E ((ranked standing seats).map ofRecord) uid :=
  if_pos (Ratings.ranked_spec standing seats).1

end ScrabbleMagyar.Elo
