import ScrabbleMagyar.Engine.Operations
import ScrabbleMagyar.Engine.Placement
import Mathlib.Algebra.Order.BigOperators.Group.List
import Mathlib.Data.List.Nodup

/-!
# How much a placement can score

A hand holds seven tiles, so a placement covers at most seven premium squares, and each of them
at most triples a word. From this: `lerakasTotal_le`, the bound of a single placement that
passes the checks.
-/

namespace ScrabbleMagyar

theorem Premium.letterFactor_le (p : Premium) : p.letterFactor ≤ 3 := by
  cases p <;> decide

theorem Premium.wordFactor_le (p : Premium) : p.wordFactor ≤ 3 := by
  cases p <;> decide

namespace Board

/-! ## Words -/

/-- The indices of a line whose squares are newly covered. -/
def newOn (newPositions : Mask) (horizontal : Bool) (fixed : ℕ) (l : List ℕ) : List ℕ :=
  l.filter fun i =>
    newPositions (Grid.onLine horizontal fixed i).1 (Grid.onLine horizontal fixed i).2

/-- A letter counts at most thirty points, and only a newly covered square multiplies. -/
theorem scanSquare_le (b : Board) (fixed : ℕ) (horizontal : Bool) (newPositions : Mask)
    (scan : WordScan) (i : ℕ) :
    let after := b.scanSquare fixed horizontal newPositions scan i
    after.letterScore ≤ scan.letterScore + 30 ∧
      after.wordMultiplier ≤
        scan.wordMultiplier * 3 ^ (newOn newPositions horizontal fixed [i]).length := by
  intro after
  have hone : 1 ≤ 3 ^ (newOn newPositions horizontal fixed [i]).length := Nat.one_le_pow _ _ (by omega)
  cases hcell : b.line horizontal fixed i with
  | none =>
    have hafter : after = scan := by simp only [after, scanSquare, hcell]
    rw [hafter]
    exact ⟨by omega, Nat.le_mul_of_pos_right _ hone⟩
  | some cell =>
    simp only [after, scanSquare, hcell]
    constructor
    · have hvalue : (if cell.isBlank then 0 else cell.letter.value) ≤ 10 := by
        split
        · omega
        · exact cell.letter.value_le
      have := Nat.mul_le_mul hvalue (Premium.letterFactor_le
        (if newPositions (Grid.onLine horizontal fixed i).1 (Grid.onLine horizontal fixed i).2 then
          premiumAt (Grid.onLine horizontal fixed i).1 (Grid.onLine horizontal fixed i).2
        else Premium.none))
      omega
    · by_cases hnew : newPositions (Grid.onLine horizontal fixed i).1
        (Grid.onLine horizontal fixed i).2 = true
      · simp only [newOn, hnew, if_true, List.filter_cons, List.filter_nil, List.length_singleton,
          pow_one]
        exact Nat.mul_le_mul_left _ (Premium.wordFactor_le _)
      · simp [newOn, hnew, Premium.wordFactor]

theorem foldl_scanSquare_le (b : Board) (fixed : ℕ) (horizontal : Bool) (newPositions : Mask)
    (l : List ℕ) (scan : WordScan) :
    let after := l.foldl (b.scanSquare fixed horizontal newPositions) scan
    after.letterScore ≤ scan.letterScore + 30 * l.length ∧
      after.wordMultiplier ≤
        scan.wordMultiplier * 3 ^ (newOn newPositions horizontal fixed l).length := by
  induction l generalizing scan with
  | nil => simp [newOn]
  | cons i l ih =>
    intro after
    obtain ⟨hletter, hword⟩ := scanSquare_le b fixed horizontal newPositions scan i
    obtain ⟨hletters, hwords⟩ := ih (b.scanSquare fixed horizontal newPositions scan i)
    have hsplit : newOn newPositions horizontal fixed (i :: l) =
        newOn newPositions horizontal fixed [i] ++ newOn newPositions horizontal fixed l := by
      rw [newOn, ← List.singleton_append, List.filter_append]
      rfl
    refine ⟨?_, ?_⟩
    · rw [List.length_cons]
      simp only [after, List.foldl_cons]
      omega
    · calc after.wordMultiplier
          ≤ (b.scanSquare fixed horizontal newPositions scan i).wordMultiplier *
              3 ^ (newOn newPositions horizontal fixed l).length := hwords
        _ ≤ scan.wordMultiplier * 3 ^ (newOn newPositions horizontal fixed [i]).length *
              3 ^ (newOn newPositions horizontal fixed l).length := Nat.mul_le_mul_right _ hword
        _ = scan.wordMultiplier * 3 ^ (newOn newPositions horizontal fixed (i :: l)).length := by
          rw [hsplit, List.length_append, pow_add, mul_assoc]

/-- A line holds no more newly covered squares than there are. -/
theorem length_newOn_le (positions : List (ℕ × ℕ)) (horizontal : Bool) (fixed : ℕ) {l : List ℕ}
    (hl : l.Nodup) : (newOn (maskOf positions) horizontal fixed l).length ≤ positions.length := by
  have hinj : Function.Injective (Grid.onLine horizontal fixed) := by
    intro i j hij
    simpa using congrArg (along horizontal) hij
  have hsub : (newOn (maskOf positions) horizontal fixed l).map (Grid.onLine horizontal fixed) ⊆
      positions := by
    intro s hs
    obtain ⟨i, hi, rfl⟩ := List.mem_map.mp hs
    simpa [newOn, maskOf] using (List.mem_filter.mp hi).2
  have hnodup := (hl.filter fun i => maskOf positions (Grid.onLine horizontal fixed i).1
    (Grid.onLine horizontal fixed i).2).map hinj
  simpa [newOn] using (hnodup.subperm hsub).length_le

/-- The score of a word with at most `n` newly covered squares. -/
theorem extractWord_score_le (b : Board) (positions : List (ℕ × ℕ)) (horizontal : Bool)
    (fixed : ℕ) {start end_ : ℕ} (hend : end_ < 15) :
    (b.extractWord fixed start end_ horizontal (maskOf positions)).score ≤
      450 * 3 ^ positions.length := by
  obtain ⟨hletters, hwords⟩ := foldl_scanSquare_le b fixed horizontal (maskOf positions)
    (List.range' start (end_ + 1 - start)) ⟨[], [], 0, 1⟩
  have hnew := length_newOn_le positions horizontal fixed
    (List.nodup_range' (s := start) (n := end_ + 1 - start))
  rw [List.length_range'] at hletters
  simp only [one_mul, zero_add] at hletters hwords
  refine Nat.mul_le_mul (hletters.trans (by omega)) (hwords.trans ?_)
  exact Nat.pow_le_pow_right (by omega) hnew

/-! ## Placements -/

section Checked

variable {lex : Lexicon} {b : Board} {placed : List Placed} {skipDictionary : Bool}
  {formed : List FormedWord}

theorem Checked.score_le (h : Checked lex b placed skipDictionary formed) {w : FormedWord}
    (hw : w ∈ formed) : w.score ≤ 450 * 3 ^ placed.length := by
  obtain ⟨horizontal, fixed, s, e, hrun, -, -, rfl⟩ := (h.mem_formed_iff w).mp hw
  have hend : e < 15 := by
    by_contra hge
    have hfree := (b.place placed).occOn_of_le horizontal fixed (not_lt.mp hge)
    rw [hrun.full e hrun.le le_rfl] at hfree
    exact absurd hfree (by simp)
  simpa using extractWord_score_le (b.place placed) (placed.map Placed.square) horizontal fixed hend

/-- A placement forms at most one word more than it lays tiles. -/
theorem Checked.length_formed_le (h : Checked lex b placed skipDictionary formed) :
    formed.length ≤ placed.length + 1 := by
  have hcross := List.length_filterMap_le ((b.place placed).crossWord
    (maskOf (placed.map Placed.square)) (b.mainHorizontal placed)) (placed.map Placed.square)
  rw [List.length_map] at hcross
  rw [h.formed_eq, collectWords, List.length_append]
  split
  · rw [List.length_singleton]
    omega
  · rw [List.length_nil]
    omega

end Checked

end Board

namespace Game

/-- No placement scores more. -/
def placementLimit : ℤ := 8 * (450 * 3 ^ 7) + 50

theorem lerakasTotal_nonneg (formed : List FormedWord) (tileCount : ℕ) :
    0 ≤ lerakasTotal formed tileCount := by
  have hsum : 0 ≤ (formed.map fun w => (w.score : ℤ)).sum :=
    List.sum_nonneg fun x hx => by
      obtain ⟨w, -, rfl⟩ := List.mem_map.mp hx
      exact Int.natCast_nonneg _
  simp only [lerakasTotal, bonusAllTiles]
  split <;> omega

/-- **The score of a placement** of at most seven tiles. -/
theorem lerakasTotal_le {lex : Lexicon} {b : Board} {placed : List Placed} {skipDictionary : Bool}
    {formed : List FormedWord} (h : Board.Checked lex b placed skipDictionary formed)
    (hlen : placed.length ≤ handSize) : lerakasTotal formed placed.length ≤ placementLimit := by
  have hword : ∀ x ∈ formed.map fun w => (w.score : ℤ), x ≤ 450 * 3 ^ 7 := by
    intro x hx
    obtain ⟨w, hw, rfl⟩ := List.mem_map.mp hx
    have hscore := h.score_le hw
    have hpow : 3 ^ placed.length ≤ 3 ^ 7 := Nat.pow_le_pow_right (by omega) hlen
    have := hscore.trans (Nat.mul_le_mul_left 450 hpow)
    exact_mod_cast this
  have hsum := List.sum_le_card_nsmul _ _ hword
  rw [List.length_map, nsmul_eq_mul] at hsum
  have hcount := h.length_formed_le
  have hwords : (formed.length : ℤ) ≤ 8 := by
    simp only [handSize] at hlen
    omega
  have hall : (formed.length : ℤ) * (450 * 3 ^ 7) ≤ 8 * (450 * 3 ^ 7) :=
    mul_le_mul_of_nonneg_right hwords (by norm_num)
  simp only [lerakasTotal, placementLimit, bonusAllTiles]
  split <;> omega

end Game

end ScrabbleMagyar
