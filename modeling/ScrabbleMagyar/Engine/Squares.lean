import ScrabbleMagyar.Engine.Board

/-!
# Squares, lines and runs of the board

* `Board.Fits`: the tiles of a placement lie on free squares of the board. This is what the
  check of the positions says (`validatePositions_ok_iff`); what the squares hold afterwards is
  in `cell_place_of_mem` and `cell_place_of_not_mem`.
* `Board.occOn`: a row or column as a line (`Foundations/Line.lean`). The bounds that the source
  finds for a word are those of a maximal run (`findWordBounds_isRun`).
-/

namespace ScrabbleMagyar

theorem Placed.square_eq {p : Placed} (h : onBoard p.row p.col = true) :
    (p.row, p.col) = ((p.square.1 : ℤ), (p.square.2 : ℤ)) := by
  simp only [onBoard, decide_eq_true_eq] at h
  ext <;> simp only [square] <;> omega

theorem Placed.square_lt {p : Placed} (h : onBoard p.row p.col = true) :
    p.square.1 < 15 ∧ p.square.2 < 15 := by
  simp only [onBoard, decide_eq_true_eq] at h
  simp only [square]
  omega

namespace Board

/-! ## Squares -/

theorem cell_of_le (b : Board) {r c : ℕ} (h : 15 ≤ r ∨ 15 ≤ c) : b.cell r c = none := by
  simp only [cell]
  rw [dif_neg (by omega)]

theorem lt_of_cell {b : Board} {r c : ℕ} {x : Cell} (h : b.cell r c = some x) :
    r < 15 ∧ c < 15 := by
  by_contra hne
  rw [cell_of_le b (by omega)] at h
  exact absurd h (by simp)

theorem cell_setCell (b : Board) (r c r' c' : ℕ) (x : Cell) :
    (b.setCell r c x).cell r' c' =
      if r' = r ∧ c' = c ∧ r' < 15 ∧ c' < 15 then some x else b.cell r' c' := by
  by_cases hlt : r' < 15 ∧ c' < 15
  · simp only [cell, dif_pos hlt, setCell]
    by_cases heq : r' = r ∧ c' = c
    · rw [if_pos heq, if_pos ⟨heq.1, heq.2, hlt⟩]
    · rw [if_neg heq, if_neg (by tauto)]
  · rw [cell_of_le _ (by omega), if_neg (by tauto), cell_of_le _ (by omega)]

theorem get_eq (b : Board) {p : Placed} (h : onBoard p.row p.col = true) :
    b.get p.row p.col = b.cell p.square.1 p.square.2 := by
  simp only [get, h, if_true]
  rfl

/-- The tiles lie on free squares of the board, all on different ones. -/
structure Fits (b : Board) (placed : List Placed) : Prop where
  on : ∀ p ∈ placed, onBoard p.row p.col = true
  free : ∀ p ∈ placed, b.cell p.square.1 p.square.2 = none
  distinct : (placed.map Placed.square).Nodup

theorem validatePositions_ok_iff' (b : Board) (placed : List Placed) (seen : List (ℤ × ℤ)) :
    b.validatePositions placed seen = .ok () ↔
      b.Fits placed ∧ ∀ p ∈ placed, (p.row, p.col) ∉ seen := by
  induction placed generalizing seen with
  | nil => simpa [validatePositions] using ⟨by simp, by simp, by simp⟩
  | cons p rest ih =>
    simp only [validatePositions]
    split_ifs with hon hfree hseen
    · simp only [false_iff]
      rintro ⟨hfits, -⟩
      have := hfits.on p (by simp)
      simp [this] at hon
    · simp only [false_iff]
      rintro ⟨hfits, -⟩
      rw [hasLetter, get_eq b (by simpa using hon), hfits.free p (by simp)] at hfree
      simp at hfree
    · simp only [false_iff]
      rintro ⟨-, hnot⟩
      exact hnot p (by simp) hseen
    · rw [ih]
      have hon' : onBoard p.row p.col = true := by simpa using hon
      have hfree' : b.cell p.square.1 p.square.2 = none := by
        rw [← get_eq b hon']
        simpa [hasLetter] using hfree
      -- on the board, a square is determined by its signed coordinates and conversely
      have hsame : ∀ q : Placed, onBoard q.row q.col = true →
          ((q.row, q.col) = (p.row, p.col) ↔ q.square = p.square) := by
        intro q hq
        rw [Placed.square_eq hq, Placed.square_eq hon', Prod.ext_iff, Prod.ext_iff]
        simp only
        omega
      constructor
      · rintro ⟨hfits, hnot⟩
        refine ⟨⟨?_, ?_, ?_⟩, ?_⟩
        · exact List.forall_mem_cons.mpr ⟨hon', hfits.on⟩
        · exact List.forall_mem_cons.mpr ⟨hfree', hfits.free⟩
        · refine List.nodup_cons.mpr ⟨fun hmem => ?_, hfits.distinct⟩
          obtain ⟨q, hq, hsq⟩ := List.mem_map.mp hmem
          exact hnot q hq (by simp [(hsame q (hfits.on q hq)).mpr hsq])
        · refine List.forall_mem_cons.mpr ⟨hseen, fun q hq => ?_⟩
          exact fun hmem => hnot q hq (List.mem_cons_of_mem _ hmem)
      · rintro ⟨hfits, hnot⟩
        obtain ⟨hnew, hdistinct⟩ := List.nodup_cons.mp hfits.distinct
        refine ⟨⟨fun q hq => hfits.on q (by simp [hq]), fun q hq => hfits.free q (by simp [hq]),
          hdistinct⟩, fun q hq hmem => ?_⟩
        obtain heq | hmem := List.mem_cons.mp hmem
        · exact hnew (List.mem_map.mpr
            ⟨q, hq, (hsame q (hfits.on q (by simp [hq]))).mp heq⟩)
        · exact hnot q (by simp [hq]) hmem

/-- The check of the positions. -/
theorem validatePositions_ok_iff (b : Board) (placed : List Placed) :
    b.validatePositions placed [] = .ok () ↔ b.Fits placed := by
  simp [validatePositions_ok_iff']

theorem place_cons (b : Board) (p : Placed) (rest : List Placed) :
    b.place (p :: rest) = (b.setCell p.square.1 p.square.2 p.cell).place rest := rfl

@[simp] theorem isEmpty_place (b : Board) (placed : List Placed) :
    (b.place placed).isEmpty = b.isEmpty := by
  induction placed generalizing b with
  | nil => rfl
  | cons p rest ih => exact ih _

/-- A square on which nothing is laid stays as it is. -/
theorem cell_place_of_not_mem (b : Board) {placed : List Placed} {s : Grid.Square}
    (h : s ∉ placed.map Placed.square) : (b.place placed).cell s.1 s.2 = b.cell s.1 s.2 := by
  induction placed generalizing b with
  | nil => rfl
  | cons p rest ih =>
    rw [List.map_cons, List.mem_cons, not_or] at h
    obtain ⟨hp, hrest⟩ := h
    rw [place_cons, ih _ hrest, cell_setCell, if_neg]
    rintro ⟨h₁, h₂, -⟩
    exact hp (Prod.ext h₁ h₂)

/-- A square on which a tile is laid holds it. -/
theorem cell_place_of_mem (b : Board) {placed : List Placed}
    (hon : ∀ p ∈ placed, onBoard p.row p.col = true)
    (hdistinct : (placed.map Placed.square).Nodup) {p : Placed} (hp : p ∈ placed) :
    (b.place placed).cell p.square.1 p.square.2 = some p.cell := by
  induction placed generalizing b with
  | nil => simp at hp
  | cons q rest ih =>
    obtain ⟨hnew, hrest⟩ := List.nodup_cons.mp (by simpa only [List.map_cons] using hdistinct)
    rw [place_cons]
    obtain rfl | hp := List.mem_cons.mp hp
    · rw [cell_place_of_not_mem _ hnew, cell_setCell, if_pos]
      exact ⟨rfl, rfl, Placed.square_lt (hon p (by simp))⟩
    · exact ih _ (fun q hq => hon q (by simp [hq])) hrest hp

/-- The occupied squares. -/
def Occupied (b : Board) (s : Grid.Square) : Prop := (b.cell s.1 s.2).isSome = true

theorem occupied_place_iff {b : Board} {placed : List Placed} (h : b.Fits placed)
    (s : Grid.Square) :
    (b.place placed).Occupied s ↔ b.Occupied s ∨ s ∈ placed.map Placed.square := by
  by_cases hs : s ∈ placed.map Placed.square
  · obtain ⟨p, hp, rfl⟩ := List.mem_map.mp hs
    simp [Occupied, cell_place_of_mem b h.on h.distinct hp, hs]
  · simp [Occupied, cell_place_of_not_mem b hs, hs]

/-! ## Lines and runs -/

/-- The index of a square along a direction, and that of its line. -/
def along (horizontal : Bool) (s : Grid.Square) : ℕ := if horizontal then s.2 else s.1

def across (horizontal : Bool) (s : Grid.Square) : ℕ := if horizontal then s.1 else s.2

theorem onLine_across_along (horizontal : Bool) (s : Grid.Square) :
    Grid.onLine horizontal (across horizontal s) (along horizontal s) = s := by
  cases horizontal <;> rfl

@[simp] theorem along_onLine (horizontal : Bool) (fixed i : ℕ) :
    along horizontal (Grid.onLine horizontal fixed i) = i := by
  cases horizontal <;> rfl

@[simp] theorem across_onLine (horizontal : Bool) (fixed i : ℕ) :
    across horizontal (Grid.onLine horizontal fixed i) = fixed := by
  cases horizontal <;> rfl

theorem onLine_not (horizontal : Bool) (fixed i : ℕ) :
    Grid.onLine (!horizontal) i fixed = Grid.onLine horizontal fixed i := by
  cases horizontal <;> rfl

theorem line_eq (b : Board) (horizontal : Bool) (fixed i : ℕ) :
    b.line horizontal fixed i =
      b.cell (Grid.onLine horizontal fixed i).1 (Grid.onLine horizontal fixed i).2 := by
  cases horizontal <;> rfl

/-- Which indices of a line are occupied. -/
def occOn (b : Board) (horizontal : Bool) (fixed i : ℕ) : Bool :=
  (b.line horizontal fixed i).isSome

theorem occOn_iff (b : Board) (horizontal : Bool) (fixed i : ℕ) :
    b.occOn horizontal fixed i = true ↔ b.Occupied (Grid.onLine horizontal fixed i) := by
  rw [occOn, line_eq]
  rfl

theorem occOn_of_le (b : Board) (horizontal : Bool) (fixed : ℕ) {i : ℕ} (h : 15 ≤ i) :
    b.occOn horizontal fixed i = false := by
  have hcell : b.line horizontal fixed i = none := by
    rw [line_eq]
    refine cell_of_le b ?_
    cases horizontal <;> simp [Grid.onLine, h]
  simp [occOn, hcell]

theorem occupied_lt {b : Board} {s : Grid.Square} (h : b.Occupied s) : s.1 < 15 ∧ s.2 < 15 := by
  obtain ⟨x, hx⟩ := Option.isSome_iff_exists.mp h
  exact lt_of_cell hx

/-- The word bounds through a full stretch of a line are a run. -/
theorem findWordBounds_isRun (b : Board) (fixed : ℕ) (horizontal : Bool) {start end_ : ℕ}
    (hle : start ≤ end_)
    (hfull : ∀ i, start ≤ i → i ≤ end_ → b.occOn horizontal fixed i = true) :
    let word := b.findWordBounds fixed start end_ horizontal
    Line.IsRun (b.occOn horizontal fixed) word.1 word.2 ∧ word.1 ≤ start ∧ end_ ≤ word.2 := by
  refine ⟨Line.isRun_stretch hle hfull (occOn_of_le b horizontal fixed ?_),
    Line.stretchStart_le _ _, Line.le_stretchEnd _ _ _⟩
  simp only [boardSize]
  omega

theorem checkContinuity_iff (b : Board) (fixed start end_ : ℕ) (horizontal : Bool) :
    b.checkContinuity fixed start end_ horizontal = true ↔
      ∀ i, start ≤ i → i ≤ end_ → b.occOn horizontal fixed i = true := by
  simp only [checkContinuity, List.all_eq_true, List.mem_range'_1, occOn]
  exact forall_congr' fun i => ⟨fun h h₁ h₂ => h ⟨h₁, by omega⟩, fun h hi => h hi.1 (by omega)⟩

end Board

end ScrabbleMagyar
