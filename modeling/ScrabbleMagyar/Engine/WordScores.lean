import ScrabbleMagyar.Engine.Shape
import Mathlib.Algebra.BigOperators.Intervals
import Mathlib.Algebra.Order.BigOperators.Group.List
import Mathlib.Data.List.Nodup

/-!
# The formed words and their scores

* `Board.runWord`: the word on a run of a line: its letters in order, its squares, and the sum
  of its letters times the product of its word premiums. This is what the source extracts
  (`extractWord_eq`).
* `Shaped.mem_collected`, `Shaped.nodup_collected`: the words collected from a placement are
  those of the maximal runs of two or more letters with a new tile, each of them once.
-/

namespace ScrabbleMagyar

namespace Board

/-! ## The word on a run -/

/-- What the tile on a square counts: nothing for a blank, and the premium of the letter where
the tile is new. -/
def letterPoints (b : Board) (newPositions : Mask) (s : Grid.Square) : ℕ :=
  match b.cell s.1 s.2 with
  | none => 0
  | some cell =>
    (if cell.isBlank then 0 else cell.letter.value) *
      if newPositions s.1 s.2 then (premiumAt s.1 s.2).letterFactor else 1

/-- The factor of a square for the word: its word premium where the tile is new. -/
def wordPremium (newPositions : Mask) (s : Grid.Square) : ℕ :=
  if newPositions s.1 s.2 then (premiumAt s.1 s.2).wordFactor else 1

/-- The word on the indices `start..=end_` of a line. -/
def runWord (b : Board) (newPositions : Mask) (horizontal : Bool) (fixed start end_ : ℕ) :
    FormedWord where
  word := b.textOn horizontal fixed start end_
  positions := (List.range' start (end_ + 1 - start)).map (Grid.onLine horizontal fixed)
  score := (∑ i ∈ Finset.Icc start end_,
      b.letterPoints newPositions (Grid.onLine horizontal fixed i)) *
    ∏ i ∈ Finset.Icc start end_, wordPremium newPositions (Grid.onLine horizontal fixed i)

/-- Scanning squares gathers their points and factors. -/
theorem foldl_scanSquare_score (b : Board) (fixed : ℕ) (horizontal : Bool) (newPositions : Mask)
    {l : List ℕ} (hocc : ∀ i ∈ l, b.occOn horizontal fixed i = true) (scan : WordScan) :
    let after := l.foldl (b.scanSquare fixed horizontal newPositions) scan
    after.letterScore = scan.letterScore +
        (l.map fun i => b.letterPoints newPositions (Grid.onLine horizontal fixed i)).sum ∧
      after.wordMultiplier = scan.wordMultiplier *
        (l.map fun i => wordPremium newPositions (Grid.onLine horizontal fixed i)).prod := by
  induction l generalizing scan with
  | nil => simp
  | cons i l ih =>
    intro after
    obtain ⟨cell, hcell⟩ := Option.isSome_iff_exists.mp (hocc i (by simp))
    have hcell' := hcell
    rw [line_eq] at hcell'
    have hplain : Premium.none.letterFactor = 1 ∧ Premium.none.wordFactor = 1 := ⟨rfl, rfl⟩
    have hscan : (b.scanSquare fixed horizontal newPositions scan i).letterScore =
          scan.letterScore + b.letterPoints newPositions (Grid.onLine horizontal fixed i) ∧
        (b.scanSquare fixed horizontal newPositions scan i).wordMultiplier =
          scan.wordMultiplier * wordPremium newPositions (Grid.onLine horizontal fixed i) := by
      by_cases hnew : newPositions (Grid.onLine horizontal fixed i).1
          (Grid.onLine horizontal fixed i).2 = true
      · simp [scanSquare, hcell, letterPoints, wordPremium, hcell', hnew]
      · simp [scanSquare, hcell, letterPoints, wordPremium, hcell', hnew, hplain]
    obtain ⟨hletters, hwords⟩ := ih (fun j hj => hocc j (by simp [hj]))
      (b.scanSquare fixed horizontal newPositions scan i)
    constructor
    · simp [after, hletters, hscan.1, add_assoc]
    · simp [after, hwords, hscan.2, mul_assoc]

/-- **The extracted word** is the word on the run. -/
theorem extractWord_eq (b : Board) {fixed start end_ : ℕ} {horizontal : Bool}
    (newPositions : Mask)
    (hocc : ∀ i, start ≤ i → i ≤ end_ → b.occOn horizontal fixed i = true) :
    b.extractWord fixed start end_ horizontal newPositions =
      b.runWord newPositions horizontal fixed start end_ := by
  have hrange : ∀ i ∈ List.range' start (end_ + 1 - start), b.occOn horizontal fixed i = true := by
    intro i hi
    rw [List.mem_range'_1] at hi
    exact hocc i hi.1 (by omega)
  obtain ⟨hletters, hwords⟩ :=
    foldl_scanSquare_score b fixed horizontal newPositions hrange ⟨[], [], 0, 1⟩
  have hscore : (b.extractWord fixed start end_ horizontal newPositions).score =
      (b.runWord newPositions horizontal fixed start end_).score := by
    simp only [extractWord, hletters, hwords, zero_add, one_mul]
    rfl
  have hword := extractWord_word b fixed start end_ horizontal newPositions
  have hpositions := extractWord_positions b newPositions hocc
  cases hx : b.extractWord fixed start end_ horizontal newPositions with
  | mk word positions score =>
    rw [hx] at hscore hword hpositions
    simp only at hscore hword hpositions
    subst hword hpositions hscore
    rfl

/-- The squares of a run give away its line and its ends. -/
theorem run_of_positions {b b' : Board} {newPositions newPositions' : Mask}
    {horizontal horizontal' : Bool} {fixed fixed' s s' e e' : ℕ} (hlt : s < e) (hlt' : s' < e')
    (h : (b.runWord newPositions horizontal fixed s e).positions =
      (b'.runWord newPositions' horizontal' fixed' s' e').positions) :
    horizontal = horizontal' ∧ fixed = fixed' ∧ s = s' ∧ e = e' := by
  have hlen : e + 1 - s = e' + 1 - s' := by simpa [runWord] using congrArg List.length h
  have hat : ∀ k, k < e + 1 - s →
      Grid.onLine horizontal fixed (s + k) = Grid.onLine horizontal' fixed' (s' + k) := by
    intro k hk
    have hk' : k < e' + 1 - s' := by omega
    have hget := congrArg (fun l => l[k]?) h
    simpa [runWord, hk, hk'] using hget
  have h₀ := hat 0 (by omega)
  have h₁ := hat 1 (by omega)
  cases horizontal <;> cases horizontal' <;> simp [Grid.onLine] at h₀ h₁ ⊢ <;> omega

/-! ## The words of a placement -/

/-- A maximal run of two or more letters that holds a newly laid tile. -/
structure NewRun (b : Board) (placed : List Placed) (horizontal : Bool) (fixed s e : ℕ) : Prop where
  run : Line.IsRun ((b.place placed).occOn horizontal fixed) s e
  long : s < e
  new : ∃ i, s ≤ i ∧ i ≤ e ∧ Grid.onLine horizontal fixed i ∈ placed.map Placed.square

section Shaped

variable {b : Board} {placed : List Placed}

/-- The words collected from a placement, by their runs. -/
theorem Shaped.mem_collected (h : Shaped b placed) (w : FormedWord) :
    w ∈ b.collected placed ↔ ∃ horizontal fixed s e, NewRun b placed horizontal fixed s e ∧
      w = (b.place placed).runWord (maskOf (placed.map Placed.square)) horizontal fixed s e := by
  rw [h.mem_collected_iff]
  constructor
  · rintro ⟨horizontal, fixed, s, e, hrun, hlt, hnew, rfl⟩
    exact ⟨horizontal, fixed, s, e, ⟨hrun, hlt, hnew⟩, extractWord_eq _ _ hrun.full⟩
  · rintro ⟨horizontal, fixed, s, e, ⟨hrun, hlt, hnew⟩, rfl⟩
    exact ⟨horizontal, fixed, s, e, hrun, hlt, hnew, (extractWord_eq _ _ hrun.full).symm⟩

/-- The word across the main direction through a square of the placement. -/
theorem Shaped.crossWord_eq_some (h : Shaped b placed) {s : Grid.Square}
    (hs : s ∈ placed.map Placed.square) {w : FormedWord}
    (hw : (b.place placed).crossWord (maskOf (placed.map Placed.square))
      (b.mainHorizontal placed) s = some w) :
    ∃ lo hi, lo < hi ∧ w = (b.place placed).runWord (maskOf (placed.map Placed.square))
      (!b.mainHorizontal placed) (along (b.mainHorizontal placed) s) lo hi := by
  obtain ⟨hrun, -, -⟩ := findWordBounds_isRun (b.place placed)
    (along (b.mainHorizontal placed) s) (!b.mainHorizontal placed)
    (le_refl (across (b.mainHorizontal placed) s)) fun i h₁ h₂ => by
      obtain rfl : i = across (b.mainHorizontal placed) s := by omega
      rw [occOn_iff, onLine_not, onLine_across_along]
      exact (occupied_place_iff h.fits s).mpr (.inr hs)
  rw [crossWord_eq] at hw
  simp only at hw
  split at hw
  · rename_i hlt
    obtain rfl := Option.some_inj.mp hw
    exact ⟨_, _, hlt, extractWord_eq _ _ hrun.full⟩
  · exact absurd hw (by simp)

/-- No word is collected twice: the main word lies along the placement, and the words across it
on different lines. -/
theorem Shaped.nodup_collected (h : Shaped b placed) : (b.collected placed).Nodup := by
  obtain ⟨hmain, htiles⟩ := h.main
  refine List.Nodup.append ?_ ?_ ?_
  · split
    · exact List.nodup_singleton _
    · exact List.nodup_nil
  · refine List.pairwise_filterMap.mpr (h.fits.distinct.imp_of_mem ?_)
    intro s t hs ht hne w hw w' hw' heq
    obtain ⟨lo, hi, hlt, rfl⟩ := h.crossWord_eq_some hs hw
    obtain ⟨lo', hi', hlt', rfl⟩ := h.crossWord_eq_some ht hw'
    obtain ⟨-, halong, -, -⟩ := run_of_positions hlt hlt' (congrArg FormedWord.positions heq)
    have hacross := (htiles s hs).1.trans (htiles t ht).1.symm
    refine hne ?_
    rw [← onLine_across_along (b.mainHorizontal placed) s, hacross, halong, onLine_across_along]
  · intro w hw hw'
    obtain ⟨s, hs, hcross⟩ := List.mem_filterMap.mp hw'
    obtain ⟨lo, hi, hlt, rfl⟩ := h.crossWord_eq_some hs hcross
    split at hw
    · rename_i hlt'
      rw [List.mem_singleton, extractWord_eq _ _ hmain.full] at hw
      obtain ⟨hdir, -⟩ := run_of_positions hlt hlt' (congrArg FormedWord.positions hw)
      exact absurd hdir (by simp)
    · exact absurd hw (by simp)

end Shaped

end Board

end ScrabbleMagyar
