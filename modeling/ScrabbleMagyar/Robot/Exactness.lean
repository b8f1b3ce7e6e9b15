import ScrabbleMagyar.Robot.CrossWords

/-!
# The search is exact

What the search for placements finds, by the rules of the board alone: the placements of tiles that
the hand holds whose main word is in the vocabulary and whose other words are in the vocabulary or
in the dictionary, each of them once.

* `Searcher.Reads.crosses_iff`: the words through an anchor are the runs of the board after a
  placement.
* `mem_findPlacements_iff`, `generateMoves_exact`: the placements found.
-/

namespace ScrabbleMagyar

namespace Robot

open Board

namespace Searcher

variable {s : Searcher} {col last : ℕ} {word text : Word} {ext : List Laying}

/-! ## A walk by its columns -/

/-- The columns without a letter among `n` columns of a row. -/
def freeCols (row : ℕ → Option Tile) (col n : ℕ) : List ℕ :=
  (List.range' col n).filter fun c => (row c).isNone

theorem freeCols_succ_some {row : ℕ → Option Tile} {col : ℕ} {existing : Tile}
    (hrow : row col = some existing) (n : ℕ) :
    freeCols row col (n + 1) = freeCols row (col + 1) n := by
  simp [freeCols, List.range'_succ, hrow]

theorem freeCols_succ_none {row : ℕ → Option Tile} {col : ℕ} (hrow : row col = none) (n : ℕ) :
    freeCols row col (n + 1) = col :: freeCols row (col + 1) n := by
  simp [freeCols, List.range'_succ, hrow]

theorem mem_freeCols {row : ℕ → Option Tile} {col n c : ℕ} :
    c ∈ freeCols row col n ↔ (col ≤ c ∧ c < col + n) ∧ row c = none := by
  simp [freeCols, List.mem_range'_1]

theorem sorted_freeCols (row : ℕ → Option Tile) (col n : ℕ) :
    (freeCols row col n).Pairwise (· < ·) :=
  (List.pairwise_lt_range' 1 Nat.one_pos).filter _

/-- A tile is laid where the letter is allowed. -/
def Permits (s : Searcher) (l : Laying) : Prop :=
  l.col < boardSize ∧ s.allows l.col l.letter = true

/-- A walk lays a tile on each free column of its way. -/
theorem Walk.cols (h : s.Walk col word ext last text) :
    ext.map Laying.col = freeCols s.row col (last - col) := by
  induction h with
  | stop => simp [freeCols]
  | @pass col last word text ext existing hrow rest ih =>
    have hle := rest.le
    rw [ih, show last - col = last - (col + 1) + 1 by omega, freeCols_succ_some hrow]
  | @lay col last word text ext letter isBlank hon hrow hallows rest ih =>
    have hle := rest.le
    rw [List.map_cons, ih, show last - col = last - (col + 1) + 1 by omega, freeCols_succ_none hrow]

theorem Walk.permits (h : s.Walk col word ext last text) : ∀ l ∈ ext, s.Permits l := by
  induction h with
  | stop => simp
  | pass _ _ ih => exact ih
  | lay letter isBlank hon _ hallows _ ih => exact List.forall_mem_cons.mpr ⟨⟨hon, hallows⟩, ih⟩

/-- A walk spells what its columns read. -/
theorem Walk.text_eq (h : s.Walk col word ext last text) {read : ℕ → Word}
    (hold : ∀ c existing, s.row c = some existing → read c = existing.asStr)
    (hnew : ∀ l ∈ ext, read l.col = l.letter.asStr) :
    text = word ++ (List.range' col (last - col)).flatMap read := by
  induction h with
  | stop => simp
  | @pass col last word text ext existing hrow rest ih =>
    have hle := rest.le
    rw [ih hnew, show last - col = last - (col + 1) + 1 by omega, List.range'_succ, List.flatMap_cons,
      hold col existing hrow, List.append_assoc]
  | @lay col last word text ext letter isBlank hon hrow hallows rest ih =>
    have hle := rest.le
    obtain ⟨hfirst, hrest⟩ := List.forall_mem_cons.mp hnew
    rw [ih hrest, show last - col = last - (col + 1) + 1 by omega, List.range'_succ, List.flatMap_cons,
      hfirst, List.append_assoc]

/-- Permitted layings on the free columns make a walk. -/
theorem walk_of_cols {read : ℕ → Word}
    (hold : ∀ c existing, s.row c = some existing → read c = existing.asStr) (col : ℕ) (word : Word)
    (ext : List Laying) {n : ℕ} (hnew : ∀ l ∈ ext, read l.col = l.letter.asStr)
    (hcols : ext.map Laying.col = freeCols s.row col n) (hpermits : ∀ l ∈ ext, s.Permits l) :
    s.Walk col word ext (col + n) (word ++ (List.range' col n).flatMap read) := by
  induction n generalizing col word ext with
  | zero =>
    obtain rfl := List.map_eq_nil_iff.mp hcols
    simpa using Walk.stop (s := s) col word
  | succ n ih =>
    rw [show col + (n + 1) = col + 1 + n by omega, List.range'_succ, List.flatMap_cons,
      ← List.append_assoc]
    cases hrow : s.row col with
    | some existing =>
      rw [freeCols_succ_some hrow] at hcols
      rw [hold col existing hrow]
      exact .pass hrow (ih (col + 1) _ ext hnew hcols hpermits)
    | none =>
      rw [freeCols_succ_none hrow] at hcols
      cases ext with
      | nil => cases hcols
      | cons l ext =>
        rw [List.map_cons, List.cons.injEq] at hcols
        obtain ⟨rfl, hcols⟩ := hcols
        obtain ⟨⟨hon, hallows⟩, hpermits⟩ := List.forall_mem_cons.mp hpermits
        obtain ⟨hfirst, hrest⟩ := List.forall_mem_cons.mp hnew
        rw [hfirst]
        exact .lay l.letter l.isBlank hon hrow hallows (ih (l.col + 1) _ ext hrest hcols hpermits)

/-! ## The row of a board -/

/-- The row that is searched is a line of the board. -/
structure Reads (s : Searcher) (b : Board) (horizontal : Bool) : Prop where
  row : s.row = gridOn b horizontal s.r
  turned : s.transposed = !horizontal
  on : s.r < boardSize

variable {b : Board} {horizontal : Bool} {fixed lo hi : ℕ} {tiles : List Placed}

theorem letter_placed (s : Searcher) (l : Laying) : (s.placed l).letter = l.letter := by
  unfold Searcher.placed
  split <;> rfl

theorem Reads.square_placed (h : s.Reads b horizontal) (l : Laying) :
    (s.placed l).square = Grid.onLine horizontal s.r l.col := by
  cases horizontal <;> simp [Searcher.placed, h.turned, Placed.square, Grid.onLine]

theorem Reads.onBoard_placed (h : s.Reads b horizontal) {l : Laying} (hl : l.col < boardSize) :
    onBoard (s.placed l).row (s.placed l).col = true := by
  have hon := h.on
  simp only [boardSize] at hl hon
  cases horizontal <;> simp [Searcher.placed, h.turned, onBoard] <;> omega

/-- The laying of a tile on a line. -/
def layingOf (horizontal : Bool) (p : Placed) : Laying :=
  ⟨along horizontal p.square, p.letter, p.isBlank⟩

theorem Reads.placed_layingOf (h : s.Reads b horizontal) {p : Placed}
    (hon : onBoard p.row p.col = true) (hline : across horizontal p.square = s.r) :
    s.placed (layingOf horizontal p) = p := by
  obtain ⟨row, col, letter, isBlank⟩ := p
  have hsquare := Placed.square_eq hon
  simp only [Prod.mk.injEq] at hsquare
  cases horizontal with
  | true =>
    simp only [across, if_true] at hline
    simp [layingOf, Searcher.placed, h.turned, along, ← hline, ← hsquare.1, ← hsquare.2]
  | false =>
    simp only [across, Bool.false_eq_true, if_false] at hline
    simp [layingOf, Searcher.placed, h.turned, along, ← hline, ← hsquare.1, ← hsquare.2]

/-! ## The run of a placement -/

theorem square_of_onLine (h : OnLine b horizontal fixed tiles) {p : Placed} (hp : p ∈ tiles) :
    p.square = Grid.onLine horizontal fixed (along horizontal p.square) := by
  obtain ⟨i, hi⟩ := h.line p hp
  rw [hi, along_onLine]

theorem occOn_place_iff (h : OnLine b horizontal fixed tiles) {i : ℕ} :
    (b.place tiles).occOn horizontal fixed i = true ↔
      b.occOn horizontal fixed i = true ∨ ∃ p ∈ tiles, along horizontal p.square = i := by
  rw [occOn_iff, occupied_place_iff h.fits, occOn_iff, List.mem_map]
  refine or_congr_right (exists_congr fun p => and_congr_right fun hp => ?_)
  rw [square_of_onLine h hp]
  constructor
  · intro heq
    rw [heq, along_onLine]
  · intro heq
    rw [along_onLine] at heq
    rw [heq]

/-- The tiles stand on free squares of a line, within one run of the board that has them. -/
structure InRun (b : Board) (horizontal : Bool) (fixed : ℕ) (tiles : List Placed) (lo hi : ℕ) :
    Prop where
  line : OnLine b horizontal fixed tiles
  run : Line.IsRun ((b.place tiles).occOn horizontal fixed) lo hi
  within : ∀ p ∈ tiles, lo ≤ along horizontal p.square ∧ along horizontal p.square ≤ hi

theorem InRun.perm {tiles' : List Placed} (h : InRun b horizontal fixed tiles lo hi)
    (hperm : tiles.Perm tiles') : InRun b horizontal fixed tiles' lo hi := by
  refine ⟨⟨h.line.fits.perm hperm, fun p hp => h.line.line p (hperm.mem_iff.mpr hp)⟩, ?_,
    fun p hp => h.within p (hperm.mem_iff.mpr hp)⟩
  rw [place_perm h.line.fits hperm]
  exact h.run

/-- Layings on the free columns of a stretch make a run of it. -/
theorem Reads.inRun (h : s.Reads b horizontal) {first n : ℕ} (hpos : 0 < n)
    (hcols : ext.map Laying.col = freeCols s.row first n) (hon : ∀ l ∈ ext, l.col < boardSize)
    (hopens : ∀ c, c + 1 = first → s.row c = none) (hfree : s.row (first + n) = none) :
    InRun b horizontal s.r (ext.map s.placed) first (first + n - 1) := by
  have hsquare : (ext.map s.placed).map Placed.square =
      (ext.map Laying.col).map (Grid.onLine horizontal s.r) := by
    rw [List.map_map, List.map_map]
    exact List.map_congr_left fun l _ => h.square_placed l
  have hmem {c : ℕ} : (∃ l ∈ ext, l.col = c) ↔ (first ≤ c ∧ c < first + n) ∧ s.row c = none := by
    rw [← mem_freeCols, ← hcols, List.mem_map]
  have hline : OnLine b horizontal s.r (ext.map s.placed) := by
    refine ⟨⟨List.forall_mem_map.mpr fun l hl => h.onBoard_placed (hon l hl),
      List.forall_mem_map.mpr fun l hl => ?_, ?_⟩, List.forall_mem_map.mpr fun l _ =>
        ⟨l.col, h.square_placed l⟩⟩
    · have hnone := (hmem.mp ⟨l, hl, rfl⟩).2
      rw [h.row, gridOn_eq_none, ← h.square_placed l] at hnone
      simpa [Occupied] using hnone
    · rw [hsquare, hcols]
      have hnodup : (freeCols s.row first n).Nodup := (sorted_freeCols s.row first n).imp ne_of_lt
      refine hnodup.map fun c c' heq => ?_
      simpa using congrArg (along horizontal) heq
  have hocc {c : ℕ} : ((b.place (ext.map s.placed)).occOn horizontal s.r c = true) ↔
      (s.row c).isSome = true ∨ (first ≤ c ∧ c < first + n) ∧ s.row c = none := by
    rw [occOn_place_iff hline, ← isSome_gridOn, ← h.row, ← hmem]
    simp only [List.mem_map, exists_exists_and_eq_and, h.square_placed, along_onLine]
  have hno {c : ℕ} (hrow : s.row c = none) (hout : ¬(first ≤ c ∧ c < first + n)) :
      (b.place (ext.map s.placed)).occOn horizontal s.r c = false := by
    rw [Bool.eq_false_iff, Ne, hocc]
    simp [hrow, hout]
  refine ⟨hline, ⟨by omega, fun c h₁ h₂ => hocc.mpr ?_, fun c hc => hno (hopens c hc) (by omega), ?_⟩,
    List.forall_mem_map.mpr fun l hl => ?_⟩
  · cases hrow : s.row c with
    | some _ => exact .inl rfl
    | none => exact .inr ⟨by omega, rfl⟩
  · rw [Nat.sub_add_cancel (by omega)]
    exact hno hfree (by omega)
  · rw [h.square_placed, along_onLine]
    have := (hmem.mp ⟨l, hl, rfl⟩).1
    omega

/-- The tiles of a run are the layings on its free columns. -/
theorem InRun.exists_layings (h : s.Reads b horizontal) (hrun : InRun b horizontal s.r tiles lo hi) :
    ∃ ext : List Laying, (ext.map s.placed).Perm tiles ∧
      ext.map Laying.col = freeCols s.row lo (hi + 1 - lo) := by
  have hle := hrun.run.le
  let sorted (l l' : Laying) : Prop := l.col ≤ l'.col
  have htotal : Std.Total sorted := ⟨fun l l' => le_total l.col l'.col⟩
  have htrans : IsTrans Laying sorted := ⟨fun _ _ _ h₁ h₂ => le_trans h₁ h₂⟩
  have hperm := List.perm_insertionSort sorted (tiles.map (layingOf horizontal))
  refine ⟨(tiles.map (layingOf horizontal)).insertionSort sorted, ?_, ?_⟩
  · refine (hperm.map s.placed).trans (List.Perm.of_eq ?_)
    rw [List.map_map]
    refine (List.map_congr_left fun p hp => ?_).trans (List.map_id tiles)
    refine h.placed_layingOf (hrun.line.fits.on p hp) ?_
    rw [square_of_onLine hrun.line hp, across_onLine]
  · have hcols := hperm.map Laying.col
    rw [List.map_map] at hcols
    have hnodup : (tiles.map (Laying.col ∘ layingOf horizontal)).Nodup := by
      have hdistinct := hrun.line.fits.distinct
      have hsquares : tiles.map Placed.square = (tiles.map (Laying.col ∘ layingOf horizontal)).map
          (Grid.onLine horizontal s.r) := by
        rw [List.map_map]
        exact List.map_congr_left fun p hp => square_of_onLine hrun.line hp
      rw [hsquares] at hdistinct
      exact hdistinct.of_map _
    have hmem {c : ℕ} : c ∈ tiles.map (Laying.col ∘ layingOf horizontal) ↔
        c ∈ freeCols s.row lo (hi + 1 - lo) := by
      rw [mem_freeCols, List.mem_map, h.row, gridOn_eq_none, ← occOn_iff]
      constructor
      · rintro ⟨p, hp, rfl⟩
        have hin := hrun.within p hp
        have hfree := hrun.line.fits.free p hp
        refine ⟨by simp only [Function.comp_apply, layingOf]; omega, ?_⟩
        rw [occOn_iff]
        change ¬b.Occupied (Grid.onLine horizontal s.r (along horizontal p.square))
        rw [← square_of_onLine hrun.line hp]
        simp [Occupied, hfree]
      · rintro ⟨hin, hfree⟩
        exact ((occOn_place_iff hrun.line).mp (hrun.run.full c hin.1 (by omega))).resolve_left hfree
    refine List.Perm.eq_of_pairwise' (r := (· ≤ ·)) ?_ ?_ (hcols.trans
      ((List.perm_ext_iff_of_nodup hnodup ?_).mpr fun c => hmem))
    · exact List.pairwise_map.mpr (List.pairwise_insertionSort sorted _)
    · exact (sorted_freeCols _ _ _).imp le_of_lt
    · exact (sorted_freeCols _ _ _).imp ne_of_lt

/-! ## The words through an anchor -/

/-- **The words through an anchor** are the runs of the board, with the tiles of a placement, that
have the anchor and are in the vocabulary. -/
theorem Reads.crosses_iff (h : s.Reads b horizontal) :
    (∃ first ext last text, s.Crosses first ext last text ∧ (ext.map s.placed).Perm tiles) ↔
      ∃ lo hi, InRun b horizontal s.r tiles lo hi ∧ (lo ≤ s.anchor ∧ s.anchor ≤ hi) ∧
        (∀ p ∈ tiles, s.allows (along horizontal p.square) p.letter = true) ∧
        2 ≤ ((b.place tiles).textOn horizontal s.r lo hi).length ∧
        (b.place tiles).textOn horizontal s.r lo hi ∈ s.vocab.words := by
  have hold {tiles : List Placed} (hline : OnLine b horizontal s.r tiles) (c : ℕ) (existing : Tile)
      (hrow : s.row c = some existing) :
      (b.place tiles).textAt (Grid.onLine horizontal s.r c) = existing.asStr := by
    rw [h.row] at hrow
    have hocc : b.Occupied (Grid.onLine horizontal s.r c) := by
      rw [← occOn_iff, ← isSome_gridOn, hrow]
      rfl
    rw [textAt_place_of_not_mem, textAt_of_gridOn hrow]
    intro hmem
    obtain ⟨p, hp, hsquare⟩ := List.mem_map.mp hmem
    rw [← hsquare] at hocc
    simp [Occupied, hline.fits.free p hp] at hocc
  have hnew {tiles : List Placed} (hline : OnLine b horizontal s.r tiles) {l : Laying}
      (hl : s.placed l ∈ tiles) :
      (b.place tiles).textAt (Grid.onLine horizontal s.r l.col) = l.letter.asStr := by
    rw [← h.square_placed, textAt, cell_place_of_mem b hline.fits.on hline.fits.distinct hl,
      ← s.letter_placed]
    rfl
  have htext (tiles : List Placed) (lo hi : ℕ) : (b.place tiles).textOn horizontal s.r lo hi =
      (List.range' lo (hi + 1 - lo)).flatMap fun c =>
        (b.place tiles).textAt (Grid.onLine horizontal s.r c) := rfl
  constructor
  · rintro ⟨first, ext, last, text, hcross, hperm⟩
    have hreach := hcross.reach
    have hpast := hcross.ends.past
    have hlast : first + (last - first) = last := by omega
    have hrun := h.inRun (by omega) hcross.walk.cols (fun l hl => (hcross.walk.permits l hl).1)
      hcross.opens (by rw [hlast]; exact hcross.ends.free)
    have hspelled := hcross.walk.text_eq (hold hrun.line) fun l hl =>
      hnew hrun.line (List.mem_map_of_mem hl)
    rw [List.nil_append, show last - first = first + (last - first) - 1 + 1 - first by omega,
      ← htext] at hspelled
    rw [place_perm hrun.line.fits hperm]
    refine ⟨_, _, hrun.perm hperm, ⟨hreach, by omega⟩, fun p hp => ?_, hspelled ▸ hcross.ends.long,
      hspelled ▸ hcross.ends.known⟩
    obtain ⟨l, hl, rfl⟩ := List.mem_map.mp (hperm.mem_iff.mpr hp)
    rw [h.square_placed, along_onLine, letter_placed]
    exact (hcross.walk.permits l hl).2
  · rintro ⟨lo, hi, hrun, hin, hallows, hlong, hknown⟩
    have hle := hrun.run.le
    obtain ⟨ext, hperm, hcols⟩ := hrun.exists_layings h
    have hrun' := hrun.perm hperm.symm
    rw [place_perm hrun'.line.fits hperm, htext] at hlong hknown
    have hmem {l : Laying} (hl : l ∈ ext) : s.placed l ∈ ext.map s.placed := List.mem_map_of_mem hl
    have hwalk := walk_of_cols (hold hrun'.line) lo [] ext (fun l hl => hnew hrun'.line (hmem hl))
      hcols fun l hl => ⟨?_, ?_⟩
    · rw [show lo + (hi + 1 - lo) = hi + 1 by omega, List.nil_append] at hwalk
      have hnone {c : ℕ} (hc : (b.place tiles).occOn horizontal s.r c = false) : s.row c = none := by
        rw [h.row, gridOn_eq_none, ← occOn_iff]
        intro hocc
        have hplaced := (occOn_place_iff hrun.line).mpr (.inl hocc)
        exact absurd (hplaced.symm.trans hc) (by simp)
      exact ⟨lo, ext, hi + 1, _, ⟨hwalk, fun c hc => hnone (hrun.run.before c hc), hin.1,
        ⟨hnone hrun.run.after, by omega, hlong, hknown⟩⟩, hperm⟩
    · have hlt := Placed.square_lt (hrun'.line.fits.on _ (hmem hl))
      rw [h.square_placed] at hlt
      cases horizontal
      · exact hlt.1
      · exact hlt.2
    · have hletter := hallows _ (hperm.mem_iff.mp (hmem hl))
      rwa [h.square_placed, along_onLine, letter_placed] at hletter

end Searcher

/-! ## The placements searched for -/

/-- The vocabulary has the word or the dictionary accepts it. -/
def Known (lex : Lexicon) (vocab : Vocabulary) (word : Word) : Prop :=
  word ∈ vocab.words ∨ lex.accepts word = true

/-- **A placement that is searched for.** It is legal but for the dictionary, a word with all its
tiles is in the vocabulary, and the other words that it forms are known. The first placement lies in
the middle row. -/
structure Playable (lex : Lexicon) (vocab : Vocabulary) (b : Board) (tiles : List Placed)
    (formed : List FormedWord) (main : FormedWord) : Prop where
  valid : b.validatePlacement lex tiles true = .ok formed
  mem : main ∈ formed
  whole : ∀ p ∈ tiles, p.square ∈ main.positions
  known : main.word ∈ vocab.words
  others : ∀ w ∈ formed, w ≠ main → Known lex vocab w.word
  opening : b.isEmpty = true → ∀ p ∈ tiles, p.row = center

/-- The same by the runs of the board: the tiles stand in one, and the runs across them are
known. -/
structure Spans (lex : Lexicon) (vocab : Vocabulary) (b : Board) (horizontal : Bool) (fixed : ℕ)
    (tiles : List Placed) (lo hi : ℕ) : Prop where
  inRun : Searcher.InRun b horizontal fixed tiles lo hi
  known : (b.place tiles).textOn horizontal fixed lo hi ∈ vocab.words
  others : ∀ c s e, NewRun b tiles (!horizontal) c s e →
    Known lex vocab ((b.place tiles).textOn (!horizontal) c s e)

variable {lex : Lexicon} {vocab : Vocabulary} {b : Board} {horizontal : Bool} {fixed lo hi : ℕ}
  {tiles : List Placed} {formed : List FormedWord} {main : FormedWord}

theorem mem_positions_runWord {b : Board} {mask : Mask} {s : Grid.Square} :
    s ∈ (b.runWord mask horizontal fixed lo hi).positions ↔
      ∃ i, (lo ≤ i ∧ i ≤ hi) ∧ s = Grid.onLine horizontal fixed i := by
  simp only [runWord, List.mem_map, List.mem_range'_1]
  constructor
  · rintro ⟨i, hi, rfl⟩
    exact ⟨i, by omega, rfl⟩
  · rintro ⟨i, hi, rfl⟩
    exact ⟨i, by omega, rfl⟩

/-- A run of two squares at least is not one across it. -/
theorem runWord_ne {b : Board} {mask : Mask} {c s e : ℕ} (h : s < e) :
    b.runWord mask (!horizontal) c s e ≠ b.runWord mask horizontal fixed lo hi := by
  intro heq
  have hline {i : ℕ} (h₁ : s ≤ i) (h₂ : i ≤ e) : i = fixed := by
    have hmem : Grid.onLine (!horizontal) c i ∈
        (b.runWord mask horizontal fixed lo hi).positions := by
      rw [← heq, mem_positions_runWord]
      exact ⟨i, ⟨h₁, h₂⟩, rfl⟩
    obtain ⟨j, -, hj⟩ := mem_positions_runWord.mp hmem
    cases horizontal <;> simp [Grid.onLine] at hj <;> omega
  have h₁ := hline le_rfl h.le
  have h₂ := hline (Nat.le_succ s) h
  omega

/-- A run whose text is not a single tile has two squares at least. -/
theorem Spans.lt (h : Spans lex vocab b horizontal fixed tiles lo hi)
    (hvocab : ∀ w ∈ vocab.words, ∀ t : Tile, t.asStr ≠ w) : lo < hi := by
  refine lt_of_le_of_ne h.inRun.run.le ?_
  rintro rfl
  obtain ⟨x, hx⟩ := Option.isSome_iff_exists.mp (h.inRun.run.full lo le_rfl le_rfl)
  refine hvocab _ h.known x.letter ?_
  rw [textOn_eq_textFrom, Nat.add_sub_cancel_left, textFrom_succ, (textAt_of_line hx).2]
  simp [textFrom]

theorem Spans.newRun (h : Spans lex vocab b horizontal fixed tiles lo hi)
    (hvocab : ∀ w ∈ vocab.words, ∀ t : Tile, t.asStr ≠ w) (hne : tiles ≠ []) :
    NewRun b tiles horizontal fixed lo hi := by
  obtain ⟨p, hp⟩ := List.exists_mem_of_ne_nil tiles hne
  refine ⟨h.inRun.run, h.lt hvocab, along horizontal p.square, (h.inRun.within p hp).1,
    (h.inRun.within p hp).2, ?_⟩
  rw [← Searcher.square_of_onLine h.inRun.line hp]
  exact List.mem_map_of_mem hp

/-- **The formed words by their runs**, of a placement that is legal but for the dictionary. -/
theorem exists_spans_iff (hvalid : b.validatePlacement lex tiles true = .ok formed)
    (hvocab : ∀ w ∈ vocab.words, ∀ t : Tile, t.asStr ≠ w) :
    (∃ main ∈ formed, (∀ p ∈ tiles, p.square ∈ main.positions) ∧ main.word ∈ vocab.words ∧
        ∀ w ∈ formed, w ≠ main → Known lex vocab w.word) ↔
      ∃ horizontal fixed lo hi, Spans lex vocab b horizontal fixed tiles lo hi := by
  obtain ⟨hlegal, rfl⟩ := (validatePlacement_iff _ _ _ _ _).mp hvalid
  have hmem := hlegal.shaped.mem_collected
  constructor
  · rintro ⟨main, hmain, hwhole, hknown, hothers⟩
    obtain ⟨horizontal, fixed, lo, hi, hnew, rfl⟩ := (hmem main).mp hmain
    have hsquare {p : Placed} (hp : p ∈ tiles) :
        ∃ i, (lo ≤ i ∧ i ≤ hi) ∧ p.square = Grid.onLine horizontal fixed i :=
      mem_positions_runWord.mp (hwhole p hp)
    refine ⟨horizontal, fixed, lo, hi, ⟨⟨hlegal.fits, fun p hp => ?_⟩, hnew.run, fun p hp => ?_⟩,
      hknown, fun c s e hacross => ?_⟩
    · obtain ⟨i, -, hi⟩ := hsquare hp
      exact ⟨i, hi⟩
    · obtain ⟨i, hin, hi⟩ := hsquare hp
      rwa [hi, along_onLine]
    · exact hothers _ ((hmem _).mpr ⟨_, _, _, _, hacross, rfl⟩) (runWord_ne hacross.long)
  · rintro ⟨horizontal, fixed, lo, hi, hspans⟩
    refine ⟨_, (hmem _).mpr ⟨_, _, _, _, hspans.newRun hvocab hlegal.nonempty, rfl⟩, fun p hp => ?_,
      hspans.known, fun w hw hne => ?_⟩
    · exact mem_positions_runWord.mpr ⟨_, hspans.inRun.within p hp,
        Searcher.square_of_onLine hspans.inRun.line hp⟩
    · obtain ⟨horizontal', fixed', s, e, hnew, rfl⟩ := (hmem w).mp hw
      by_cases hdir : horizontal' = horizontal
      · -- the run on the line itself is the main word
        subst hdir
        refine absurd ?_ hne
        obtain ⟨i, h₁, h₂, hi⟩ := hnew.new
        obtain ⟨p, hp, hsquare⟩ := List.mem_map.mp hi
        have hline := Searcher.square_of_onLine hspans.inRun.line hp
        rw [hsquare] at hline
        have hfixed : fixed' = fixed := by simpa using congrArg (across horizontal') hline
        have hwithin := hspans.inRun.within p hp
        rw [hsquare, along_onLine] at hwithin
        subst hfixed
        obtain ⟨rfl, rfl⟩ := hnew.run.eq_of_mem hspans.inRun.run h₁ h₂ hwithin.1 hwithin.2
        rfl
      · obtain rfl : horizontal' = !horizontal := by
          cases horizontal <;> cases horizontal' <;> simp at hdir ⊢
        exact hspans.others _ _ _ hnew

/-! ## What the anchors find -/

/-- The letter of a tile, and whether a blank stands for it. -/
def Placed.kind (p : Placed) : Tile × Bool := (p.letter, p.isBlank)

theorem Searcher.kind_placed (s : Searcher) (l : Laying) : Placed.kind (s.placed l) = l.kind := by
  unfold Searcher.placed
  split <;> rfl

theorem Payable.perm {types : List Tile} {counts : Counts} {freeBlanks : ℕ}
    {kinds kinds' : List (Tile × Bool)} (h : Payable types counts freeBlanks kinds)
    (hperm : kinds.Perm kinds') : Payable types counts freeBlanks kinds' :=
  ⟨fun t ht => h.lettered t (hperm.mem_iff.mpr ht), fun t => hperm.count_eq _ ▸ h.enough t,
    hperm.countP_eq _ ▸ h.blanks⟩

theorem Searcher.findsAcross_iff (s : Searcher) (counts : Counts) (freeBlanks : ℕ) :
    s.FindsAcross counts freeBlanks (placementKey tiles) ↔
      Payable s.rackTypes counts freeBlanks (tiles.map Placed.kind) ∧
        ∃ first ext last text, s.Crosses first ext last text ∧ (ext.map s.placed).Perm tiles := by
  have hkinds {ext : List Laying} (hperm : (ext.map s.placed).Perm tiles) :
      (ext.map Laying.kind).Perm (tiles.map Placed.kind) := by
    have hmap := hperm.map Placed.kind
    rw [List.map_map] at hmap
    exact (List.Perm.of_eq (List.map_congr_left fun l _ => (s.kind_placed l).symm)).trans hmap
  constructor
  · rintro ⟨first, ext, last, text, hcross, hpay, hkey⟩
    have hperm := (placementKey_eq_iff.mp hkey).symm
    exact ⟨hpay.perm (hkinds hperm), first, ext, last, text, hcross, hperm⟩
  · rintro ⟨hpay, first, ext, last, text, hcross, hperm⟩
    exact ⟨first, ext, last, text, hcross, hpay.perm (hkinds hperm).symm,
      (placementKey_eq_iff.mpr hperm).symm⟩

theorem Lettered.place (h : Lettered b) (hfits : b.Fits tiles)
    (hblank : ∀ p ∈ tiles, p.letter ≠ Tile.blank) : Lettered (b.place tiles) := by
  intro s x hx
  by_cases hmem : s ∈ tiles.map Placed.square
  · obtain ⟨p, hp, rfl⟩ := List.mem_map.mp hmem
    rw [cell_place_of_mem b hfits.on hfits.distinct hp, Option.some_inj] at hx
    rw [← hx]
    exact hblank p hp
  · rw [cell_place_of_not_mem b hmem] at hx
    exact h s x hx

/-- Every letter has a text. -/
theorem le_length_textFrom (h : Lettered b) (start : ℕ) {n : ℕ}
    (hfull : ∀ i, start ≤ i → i < start + n → b.occOn horizontal fixed i = true) :
    n ≤ (textFrom b horizontal fixed start n).length := by
  induction n generalizing start with
  | zero => exact Nat.zero_le _
  | succ n ih =>
    have hrest := ih (start + 1) fun i h₁ h₂ => hfull i (by omega) (by omega)
    obtain ⟨x, hx⟩ := Option.isSome_iff_exists.mp (hfull start le_rfl (by omega))
    have hfirst : x.letter.asStr ≠ [] := Tile.asStr_ne_nil (h _ x (line_eq b _ _ _ ▸ hx))
    have := List.length_pos_iff.mpr hfirst
    rw [textFrom_succ, List.length_append, (textAt_of_line hx).2]
    omega

/-- A legal placement in a run has an anchor in it. -/
theorem exists_anchor {skipDictionary : Bool}
    (hlegal : LegalIf (b.isEmpty = true) lex b tiles skipDictionary)
    (hrun : Searcher.InRun b horizontal fixed tiles lo hi)
    (hdir : b.isEmpty = true → horizontal = true) :
    ∃ c, (fixed, c) ∈ anchors (gridOn b horizontal) b.isEmpty ∧ lo ≤ c ∧ c ≤ hi := by
  cases hempty : b.isEmpty with
  | true =>
    obtain ⟨-, p, hp, hrow, hcol⟩ := hlegal.first hempty
    obtain rfl := hdir hempty
    have hsquare : p.square = (center, center) := by simp [Placed.square, hrow, hcol]
    have hline := Searcher.square_of_onLine hrun.line hp
    have hwithin := hrun.within p hp
    rw [hsquare] at hline hwithin
    obtain rfl : center = fixed := congrArg Prod.fst hline
    exact ⟨center, by simp [anchors], hwithin⟩
  | false =>
    obtain ⟨p, hp, s, hs, hadj⟩ := hlegal.touches (by simp [hempty])
    have hline := Searcher.square_of_onLine hrun.line hp
    have hwithin := hrun.within p hp
    obtain ⟨hlt₁, hlt₂⟩ := Placed.square_lt (hrun.line.fits.on p hp)
    have hfree := hrun.line.fits.free p hp
    have hs' := occupied_lt hs
    have hsome {r c : ℕ} (h : s = Grid.onLine horizontal r c) :
        (gridOn b horizontal r c).isSome = true := by
      rw [isSome_gridOn, occOn_iff, ← h]
      exact hs
    have hfree' : gridOn b horizontal fixed (along horizontal p.square) = none := by
      rw [gridOn_eq_none, ← hline]
      simp [Occupied, hfree]
    refine ⟨along horizontal p.square, mem_anchors.mpr ?_, hwithin⟩
    generalize along horizontal p.square = c at hline hfree'
    rw [hline] at hlt₁ hlt₂ hadj
    obtain ⟨r', c'⟩ := s
    cases horizontal with
    | true =>
      have hnear := hsome (r := r') (c := c') rfl
      simp only [Grid.onLine, Grid.Adjacent, if_true] at hlt₁ hlt₂ hadj hs'
      refine ⟨⟨hlt₁, hlt₂, hfree'⟩, ?_⟩
      rcases hadj with ⟨rfl, rfl | rfl⟩ | ⟨rfl, rfl | rfl⟩
      · exact .inr (.inr (.inr ⟨hs'.2, hnear⟩))
      · exact .inr (.inr (.inl ⟨Nat.succ_pos _, hnear⟩))
      · exact .inr (.inl ⟨hs'.1, hnear⟩)
      · exact .inl ⟨Nat.succ_pos _, hnear⟩
    | false =>
      have hnear := hsome (r := c') (c := r') rfl
      simp only [Grid.onLine, Grid.Adjacent, Bool.false_eq_true, if_false] at hlt₁ hlt₂ hadj hs'
      refine ⟨⟨hlt₂, hlt₁, hfree'⟩, ?_⟩
      rcases hadj with ⟨rfl, rfl | rfl⟩ | ⟨rfl, rfl | rfl⟩
      · exact .inr (.inl ⟨hs'.2, hnear⟩)
      · exact .inl ⟨Nat.succ_pos _, hnear⟩
      · exact .inr (.inr (.inr ⟨hs'.1, hnear⟩))
      · exact .inr (.inr (.inl ⟨Nat.succ_pos _, hnear⟩))

section Found

variable {counts : Counts} {blanks : ℕ} {crossLetters : List Tile}

/-- The search from an anchor of a board. -/
def boardSearcher (lex : Lexicon) (vocab : Vocabulary) (b : Board) (horizontal : Bool)
    (crossLetters : List Tile) (counts : Counts) (a : ℕ × ℕ) : Searcher :=
  searcherAt (gridOn b horizontal) (allowedLetters lex vocab crossLetters (gridOn b horizontal))
    counts vocab (!horizontal) a

/-- The letters of a line are known across it if the words there are. -/
theorem forall_allows_iff (hline : OnLine b horizontal fixed tiles) (hletters : Lettered b)
    (hcross : ∀ p ∈ tiles, p.letter ∈ crossLetters) :
    (∀ p ∈ tiles, ((allowedLetters lex vocab crossLetters (gridOn b horizontal) fixed
        (along horizontal p.square)).all fun mask => mask.contains p.letter) = true) ↔
      ∀ c s e, NewRun b tiles (!horizontal) c s e →
        Known lex vocab ((b.place tiles).textOn (!horizontal) c s e) := by
  have hsquare {p : Placed} (hp : p ∈ tiles) := Searcher.square_of_onLine hline hp
  constructor
  · intro hall c s e hnew
    obtain ⟨i, -, -, hi⟩ := hnew.new
    obtain ⟨p, hp, hi⟩ := List.mem_map.mp hi
    obtain rfl : along horizontal p.square = c := by rw [hi, ← onLine_swapped, along_onLine]
    exact (hline.allows_iff hletters hp (hsquare hp) (hcross p hp)).mp (hall p hp) s e hnew
  · exact fun hknown p hp => (hline.allows_iff hletters hp (hsquare hp) (hcross p hp)).mpr
      fun s e hnew => hknown _ s e hnew

/-- **What the anchors find in a direction**: the runs with the tiles. -/
theorem exists_findsAcross_iff {skipDictionary : Bool}
    (hlegal : LegalIf (b.isEmpty = true) lex b tiles skipDictionary)
    (hletters : Lettered b) (hvocab : ∀ w ∈ vocab.words, ∀ t : Tile, t.asStr ≠ w)
    (hblank : ∀ p ∈ tiles, p.letter ≠ Tile.blank) (hcross : ∀ p ∈ tiles, p.letter ∈ crossLetters)
    (hdir : b.isEmpty = true → horizontal = true) :
    (∃ a ∈ anchors (gridOn b horizontal) b.isEmpty,
        (boardSearcher lex vocab b horizontal crossLetters counts a).FindsAcross counts blanks
          (placementKey tiles)) ↔
      Payable (letters.filter fun t => 0 < counts t) counts blanks (tiles.map Placed.kind) ∧
        ∃ fixed lo hi, Spans lex vocab b horizontal fixed tiles lo hi := by
  have hreads {a : ℕ × ℕ} (ha : a.1 < boardSize) :
      (boardSearcher lex vocab b horizontal crossLetters counts a).Reads b horizontal :=
    ⟨rfl, rfl, ha⟩
  have hrow {a : ℕ × ℕ} (ha : a ∈ anchors (gridOn b horizontal) b.isEmpty) : a.1 < boardSize := by
    cases hempty : b.isEmpty with
    | true =>
      rw [hempty] at ha
      obtain rfl : a = (center, center) := by simpa [anchors] using ha
      decide
    | false =>
      rw [hempty] at ha
      exact (mem_anchors.mp ha).1.1
  constructor
  · rintro ⟨a, ha, hfinds⟩
    obtain ⟨hpay, hcrosses⟩ := (Searcher.findsAcross_iff _ _ _).mp hfinds
    obtain ⟨lo, hi, hrun, -, hallows, -, hknown⟩ := (hreads (hrow ha)).crosses_iff.mp hcrosses
    exact ⟨hpay, a.1, lo, hi, hrun, hknown,
      (forall_allows_iff hrun.line hletters hcross).mp hallows⟩
  · rintro ⟨hpay, fixed, lo, hi, hspans⟩
    obtain ⟨c, ha, hlo, hhi⟩ := exists_anchor hlegal hspans.inRun hdir
    refine ⟨(fixed, c), ha, (Searcher.findsAcross_iff _ _ _).mpr ⟨hpay,
      (hreads (hrow ha)).crosses_iff.mpr ⟨lo, hi, hspans.inRun, ⟨hlo, hhi⟩, ?_, ?_, hspans.known⟩⟩⟩
    · exact (forall_allows_iff hspans.inRun.line hletters hcross).mpr hspans.others
    · have hlt := hspans.lt hvocab
      have hlong := le_length_textFrom (hletters.place hlegal.fits hblank) lo
        (n := hi + 1 - lo) fun i h₁ h₂ => hspans.inRun.run.full i h₁ (by omega)
      rw [textOn_eq_textFrom]
      change 2 ≤ (textFrom (b.place tiles) horizontal fixed lo (hi + 1 - lo)).length
      omega

/-- On an empty board a word with all tiles runs along the middle row. -/
theorem exists_spans_dir_iff {skipDictionary : Bool}
    (hlegal : LegalIf (b.isEmpty = true) lex b tiles skipDictionary) :
    ((∃ fixed lo hi, Spans lex vocab b true fixed tiles lo hi) ∨
        b.isEmpty = false ∧ ∃ fixed lo hi, Spans lex vocab b false fixed tiles lo hi) ↔
      (∃ horizontal fixed lo hi, Spans lex vocab b horizontal fixed tiles lo hi) ∧
        (b.isEmpty = true → ∀ p ∈ tiles, p.row = center) := by
  have hcenter (hempty : b.isEmpty = true) : (center, center) ∈ tiles.map Placed.square := by
    obtain ⟨-, p, hp, hrow, hcol⟩ := hlegal.first hempty
    exact List.mem_map.mpr ⟨p, hp, by simp [Placed.square, hrow, hcol]⟩
  constructor
  · rintro (⟨fixed, lo, hi, hspans⟩ | ⟨hfull, hspans⟩)
    · refine ⟨⟨true, fixed, lo, hi, hspans⟩, fun hempty p hp => ?_⟩
      obtain ⟨q, hq, hsquare⟩ := List.mem_map.mp (hcenter hempty)
      have hq' := Searcher.square_of_onLine hspans.inRun.line hq
      have hp' := Searcher.square_of_onLine hspans.inRun.line hp
      rw [hsquare] at hq'
      have hrow := congrArg Prod.fst (Placed.square_eq (hlegal.fits.on p hp))
      rw [hp'] at hrow
      rw [show p.row = (fixed : ℤ) from hrow, ← show center = fixed from congrArg Prod.fst hq']
    · exact ⟨⟨false, hspans⟩, fun hempty => absurd (hempty.symm.trans hfull) (by simp)⟩
  · rintro ⟨⟨horizontal, fixed, lo, hi, hspans⟩, hopening⟩
    cases horizontal with
    | true => exact .inl ⟨fixed, lo, hi, hspans⟩
    | false =>
      refine .inr ⟨?_, fixed, lo, hi, hspans⟩
      by_contra hempty
      rw [Bool.not_eq_false] at hempty
      -- all tiles would lie on the centre
      have hall : ∀ p ∈ tiles, p.square = (center, fixed) := by
        intro p hp
        have hp' := Searcher.square_of_onLine hspans.inRun.line hp
        have hrow := hopening hempty p hp
        rw [hp', Grid.onLine, if_neg (by simp), along, if_neg (by simp), Placed.square, hrow]
        rfl
      have hlen := (hlegal.first hempty).1
      have hdistinct := hlegal.fits.distinct
      rw [List.map_congr_left hall, List.map_const'] at hdistinct
      have := List.nodup_replicate.mp hdistinct
      omega

end Found

/-! ## The moves found -/

/-- The letters that a tile of the hand may show. -/
def crossLettersOf (counts : Counts) (blanks : ℕ) : List Tile :=
  if 0 < blanks then letters else letters.filter fun t => 0 < counts t

/-- What the anchors of a direction find. -/
def FoundIn (lex : Lexicon) (vocab : Vocabulary) (b : Board) (counts : Counts) (blanks : ℕ)
    (horizontal : Bool) (key : List Placed) : Prop :=
  ∃ a ∈ anchors (gridOn b horizontal) b.isEmpty,
    (boardSearcher lex vocab b horizontal (crossLettersOf counts blanks) counts a).FindsAcross counts
      blanks key

theorem gathers_findPlacements (lex : Lexicon) (vocab : Vocabulary) {counts : Counts} {blanks : ℕ}
    (hflag : b.isEmpty = true → ∀ s, ¬b.Occupied s)
    (hfew : ∀ kinds, Payable (letters.filter fun t => 0 < counts t) counts blanks kinds →
      kinds.length ≤ handSize) :
    ∃ f, findPlacements lex vocab b counts blanks = f [] ∧ Gather.Gathers placementKey f fun k =>
      FoundIn lex vocab b counts blanks true k ∨
        b.isEmpty = false ∧ FoundIn lex vocab b counts blanks false k := by
  have hedge (horizontal : Bool) (r c : ℕ) (hc : boardSize ≤ c) : gridOn b horizontal r c = none :=
    gridOn_edge b horizontal r hc
  have hempty (horizontal : Bool) (h : b.isEmpty = true) (r c : ℕ) :
      gridOn b horizontal r c = none := gridOn_eq_none.mpr (hflag h _)
  have hall (horizontal : Bool) : Gather.Gathers placementKey
      (search (gridOn b horizontal)
        (allowedLetters lex vocab (crossLettersOf counts blanks) (gridOn b horizontal))
        (anchors (gridOn b horizontal) b.isEmpty) counts blanks vocab (!horizontal))
      (FoundIn lex vocab b counts blanks horizontal) :=
    gathers_anchors (hedge horizontal) (hempty horizontal) hfew
  cases hb : b.isEmpty with
  | true =>
    refine ⟨_, ?_, (hall true).congr fun k => by simp⟩
    simp only [findPlacements, hb, if_true]
    rfl
  | false =>
    refine ⟨_, ?_, ((hall true).comp (hall false)).congr fun k => by simp⟩
    simp only [findPlacements, hb, Bool.false_eq_true, if_false]
    rfl

/-- A hand affords the tiles, and blanks only if they are allowed. -/
structure Affordable (rack : List Tile) (allowBlanks : Bool) (tiles : List Placed) : Prop where
  held : Held rack tiles
  lettered : ∀ p ∈ tiles, p.letter ≠ Tile.blank
  plain : allowBlanks = false → ∀ p ∈ tiles, p.isBlank = false

/-- The search pays for the tiles that the hand affords. -/
theorem payable_tiles_iff (rack : List Tile) (allowBlanks : Bool) (tiles : List Placed) :
    Payable (letters.filter fun t => 0 < rackCounts rack t) (rackCounts rack)
        (rackBlanks rack allowBlanks) (tiles.map Placed.kind) ↔ Affordable rack allowBlanks tiles := by
  have htiles : (tiles.map Placed.kind).map kindTile = tiles.map Placed.handTile := by
    rw [List.map_map]
    rfl
  rw [payable_iff, htiles, List.forall_mem_map, List.forall_mem_map]
  constructor
  · rintro ⟨hletters, hheld, hallow⟩
    exact ⟨hheld, hletters, hallow⟩
  · rintro ⟨hheld, hletters, hallow⟩
    exact ⟨hletters, hheld, hallow⟩

/-- A letter of the tiles may be tried on every square. -/
theorem Affordable.mem_crossLetters {rack : List Tile} {allowBlanks : Bool}
    (h : Affordable rack allowBlanks tiles) {p : Placed} (hp : p ∈ tiles) :
    p.letter ∈ crossLettersOf (rackCounts rack) (rackBlanks rack allowBlanks) := by
  have hpay := (payable_tiles_iff rack allowBlanks tiles).mpr h
  have hletters := hpay.lettered _ (List.mem_map_of_mem hp)
  unfold crossLettersOf
  split
  · simpa [letters] using h.lettered p hp
  · rename_i hno
    have hplain : ∀ t ∈ tiles.map Placed.kind, ¬t.2 = true :=
      List.countP_eq_zero.mp (Nat.le_zero.mp (le_of_le_of_eq hpay.blanks (by omega)))
    rwa [if_neg (hplain _ (List.mem_map_of_mem hp))] at hletters

theorem length_le_of_payable {rack : List Tile} (hrack : rack.length ≤ handSize) (allowBlanks : Bool)
    (kinds : List (Tile × Bool)) (h : Payable (letters.filter fun t => 0 < rackCounts rack t)
      (rackCounts rack) (rackBlanks rack allowBlanks) kinds) : kinds.length ≤ handSize := by
  have hle := ((payable_iff rack allowBlanks kinds).mp h).2.1.length_le
  rw [List.length_map] at hle
  exact hle.trans hrack

section Moves

variable {rack : List Tile} {allowBlanks : Bool}

/-- **What the search finds**, of the placements that are legal but for the dictionary. -/
theorem mem_findPlacements_iff (hflag : b.isEmpty = true → ∀ s, ¬b.Occupied s)
    (hletters : Lettered b) (hrack : rack.length ≤ handSize)
    (hvocab : ∀ w ∈ vocab.words, ∀ t : Tile, t.asStr ≠ w)
    (hvalid : b.validatePlacement lex tiles true = .ok formed) :
    (∃ found ∈ findPlacements lex vocab b (rackCounts rack) (rackBlanks rack allowBlanks),
        found.Perm tiles) ↔
      Affordable rack allowBlanks tiles ∧ ∃ main, Playable lex vocab b tiles formed main := by
  obtain ⟨hlegal, -⟩ := (validatePlacement_iff _ _ _ _ _).mp hvalid
  obtain ⟨f, hf, hgathers⟩ := gathers_findPlacements lex vocab hflag
    (length_le_of_payable hrack allowBlanks)
  have hkeys : (∃ found ∈ findPlacements lex vocab b (rackCounts rack)
      (rackBlanks rack allowBlanks), found.Perm tiles) ↔
      FoundIn lex vocab b (rackCounts rack) (rackBlanks rack allowBlanks) true (placementKey tiles) ∨
        b.isEmpty = false ∧
          FoundIn lex vocab b (rackCounts rack) (rackBlanks rack allowBlanks) false
            (placementKey tiles) := by
    rw [← hgathers.mem_iff, hf]
    simp only [placementKey_eq_iff]
  have hplayable : (∃ main, Playable lex vocab b tiles formed main) ↔
      (∃ horizontal fixed lo hi, Spans lex vocab b horizontal fixed tiles lo hi) ∧
        (b.isEmpty = true → ∀ p ∈ tiles, p.row = center) := by
    rw [← exists_spans_iff hvalid hvocab]
    constructor
    · rintro ⟨main, h⟩
      exact ⟨⟨main, h.mem, h.whole, h.known, h.others⟩, h.opening⟩
    · rintro ⟨⟨main, hmem, hwhole, hknown, hothers⟩, hopening⟩
      exact ⟨main, hvalid, hmem, hwhole, hknown, hothers, hopening⟩
  have hfound (haff : Affordable rack allowBlanks tiles) (horizontal : Bool)
      (hdir : b.isEmpty = true → horizontal = true) :
      FoundIn lex vocab b (rackCounts rack) (rackBlanks rack allowBlanks) horizontal
          (placementKey tiles) ↔
        ∃ fixed lo hi, Spans lex vocab b horizontal fixed tiles lo hi :=
    (exists_findsAcross_iff hlegal hletters hvocab haff.lettered
      (fun p hp => haff.mem_crossLetters hp) hdir).trans
      (and_iff_right ((payable_tiles_iff rack allowBlanks tiles).mpr haff))
  have haff {horizontal : Bool} (h : FoundIn lex vocab b (rackCounts rack)
      (rackBlanks rack allowBlanks) horizontal (placementKey tiles)) :
      Affordable rack allowBlanks tiles := by
    obtain ⟨a, -, h⟩ := h
    exact (payable_tiles_iff rack allowBlanks tiles).mp ((Searcher.findsAcross_iff _ _ _).mp h).1
  rw [hkeys, hplayable, ← exists_spans_dir_iff hlegal]
  constructor
  · rintro (h | ⟨hfull, h⟩)
    · exact ⟨haff h, .inl ((hfound (haff h) true fun _ => rfl).mp h)⟩
    · exact ⟨haff h, .inr ⟨hfull, (hfound (haff h) false (by simp [hfull])).mp h⟩⟩
  · rintro ⟨haff, h | ⟨hfull, h⟩⟩
    · exact .inl ((hfound haff true fun _ => rfl).mpr h)
    · exact .inr ⟨hfull, (hfound haff false (by simp [hfull])).mpr h⟩

/-- The rules and the placements searched for do not look at the order of the tiles. -/
theorem Playable.perm {tiles' : List Placed} (h : Playable lex vocab b tiles formed main)
    (hperm : tiles.Perm tiles') : ∃ formed', Playable lex vocab b tiles' formed' main := by
  obtain ⟨-, -, -, horder, -⟩ := formed_exact h.valid
  obtain ⟨formed', hvalid, hformed⟩ := horder tiles' hperm
  exact ⟨formed', hvalid, hformed.mem_iff.mpr h.mem, fun p hp => h.whole p (hperm.mem_iff.mpr hp),
    h.known, fun w hw => h.others w (hformed.mem_iff.mp hw),
    fun hempty p hp => h.opening hempty p (hperm.mem_iff.mpr hp)⟩

theorem Affordable.perm {tiles' : List Placed} (h : Affordable rack allowBlanks tiles)
    (hperm : tiles.Perm tiles') : Affordable rack allowBlanks tiles' :=
  ⟨(hperm.map Placed.handTile).symm.subperm.trans h.held,
    fun p hp => h.lettered p (hperm.mem_iff.mpr hp),
    fun ha p hp => h.plain ha p (hperm.mem_iff.mpr hp)⟩

theorem scored_eq_some {m : Move} (h : scored lex b tiles = some m) :
    m.tiles = tiles ∧ ∃ formed, b.validatePlacement lex tiles true = .ok formed := by
  unfold scored at h
  split at h
  · cases h
  · rename_i formed hvalid
    cases h
    exact ⟨rfl, formed, hvalid⟩

theorem exists_scored (h : b.validatePlacement lex tiles true = .ok formed) :
    ∃ m, scored lex b tiles = some m := by
  unfold scored
  rw [h]
  exact ⟨_, rfl⟩

/-- A hand without letters and blanks affords no tiles. -/
theorem Affordable.eq_nil (h : Affordable rack allowBlanks tiles)
    (hnone : ((letters.all fun t => rackCounts rack t = 0) && rackBlanks rack allowBlanks = 0) =
      true) : tiles = [] := by
  rw [Bool.and_eq_true, List.all_eq_true, decide_eq_true_eq] at hnone
  refine List.eq_nil_iff_forall_not_mem.mpr fun p hp => ?_
  have hmem := h.mem_crossLetters hp
  rw [crossLettersOf, hnone.2, if_neg (lt_irrefl 0), List.mem_filter, decide_eq_true_eq] at hmem
  have hzero := hnone.1 p.letter hmem.1
  rw [decide_eq_true_eq] at hzero
  omega

/-- **The moves found** are the placements that the hand affords and that are searched for, each
set of tiles once. -/
theorem generateMoves_exact (lex : Lexicon) (vocab : Vocabulary) (b : Board) (rack : List Tile)
    (allowBlanks : Bool) (maxTiles : ℕ) (hflag : b.isEmpty = true → ∀ s, ¬b.Occupied s)
    (hletters : Lettered b) (hrack : rack.length ≤ handSize)
    (hvocab : ∀ w ∈ vocab.words, ∀ t : Tile, t.asStr ≠ w) :
    (∀ tiles, (∃ m ∈ generateMoves lex vocab b rack allowBlanks maxTiles, m.tiles.Perm tiles) ↔
      Affordable rack allowBlanks tiles ∧ tiles.length ≤ maxTiles ∧
        ∃ formed main, Playable lex vocab b tiles formed main) ∧
    (generateMoves lex vocab b rack allowBlanks maxTiles).Pairwise fun m m' =>
      ¬m.tiles.Perm m'.tiles := by
  obtain ⟨f, hf, hgathers⟩ := gathers_findPlacements lex vocab hflag
    (length_le_of_payable hrack allowBlanks)
  constructor
  · intro tiles
    unfold generateMoves
    dsimp only
    split
    · rename_i hnone
      constructor
      · rintro ⟨m, hm, -⟩
        cases hm
      · rintro ⟨haff, -, formed, main, hplay⟩
        obtain ⟨hlegal, -⟩ := (validatePlacement_iff _ _ _ _ _).mp hplay.valid
        exact absurd (haff.eq_nil hnone) hlegal.nonempty
    constructor
    · rintro ⟨m, hm, hperm⟩
      obtain ⟨found, hfound, hscored⟩ := List.mem_filterMap.mp hm
      obtain ⟨hfound, hlen⟩ := List.mem_filter.mp hfound
      obtain ⟨htiles, formed, hvalid⟩ := scored_eq_some hscored
      rw [decide_eq_true_eq] at hlen
      rw [htiles] at hperm
      obtain ⟨haff, main, hplay⟩ :=
        (mem_findPlacements_iff hflag hletters hrack hvocab hvalid).mp ⟨found, hfound, .refl _⟩
      obtain ⟨formed', hplay'⟩ := hplay.perm hperm
      exact ⟨haff.perm hperm, hperm.length_eq ▸ hlen, formed', main, hplay'⟩
    · rintro ⟨haff, hlen, formed, main, hplay⟩
      obtain ⟨found, hfound, hperm⟩ :=
        (mem_findPlacements_iff hflag hletters hrack hvocab hplay.valid).mpr ⟨haff, main, hplay⟩
      obtain ⟨formed', hplay'⟩ := hplay.perm hperm.symm
      obtain ⟨m, hm⟩ := exists_scored hplay'.valid
      refine ⟨m, List.mem_filterMap.mpr ⟨found, List.mem_filter.mpr ⟨hfound, ?_⟩, hm⟩, ?_⟩
      · simpa [hperm.length_eq] using hlen
      · rwa [(scored_eq_some hm).1]
  · unfold generateMoves
    dsimp only
    split
    · exact List.Pairwise.nil
    · refine List.pairwise_filterMap.mpr ((hf ▸ hgathers.pairwise).filter _ |>.imp ?_)
      intro found found' hne m hm m' hm' hperm
      rw [(scored_eq_some hm).1, (scored_eq_some hm').1] at hperm
      exact hne (placementKey_eq_iff.mpr hperm)

/-- A vocabulary of one word. -/
def csoVocabulary : Vocabulary := ⟨["CSŐ".toList], List.pairwise_singleton _ _⟩

theorem csoVocabulary_several : ∀ w ∈ csoVocabulary.words, ∀ t : Tile, t.asStr ≠ w := by
  decide +kernel

theorem lettered_new : Lettered Board.new := by
  intro s x hx
  exact absurd (show Board.new.Occupied s by rw [Occupied, hx]; rfl) (not_occupied_new s)

theorem affordable_duelOpening : Affordable [32, 33] true Game.duelOpening :=
  ⟨(List.Perm.refl [32, 33]).subperm, by decide +kernel, by decide⟩

theorem playable_duelOpening : Playable Lexicon.unavailable csoVocabulary Board.new Game.duelOpening
    [⟨"CSŐ".toList, [(7, 7), (7, 8)], 28⟩] ⟨"CSŐ".toList, [(7, 7), (7, 8)], 28⟩ :=
  ⟨by decide +kernel, List.mem_singleton.mpr rfl, by decide +kernel, by decide +kernel,
    fun w hw hne => absurd (List.mem_singleton.mp hw) hne, by decide +kernel⟩

/-- The board after the first placement of a duel. -/
def csoBoard : Board := Board.new.applyPlacement Game.duelOpening

theorem lettered_csoBoard : Lettered csoBoard := by
  have hfits : Board.new.Fits Game.duelOpening := ⟨by decide, by decide +kernel, by decide⟩
  exact fun s x hx => lettered_new.place hfits (by decide +kernel) s x hx

def csorVocabulary : Vocabulary := ⟨["CSŐ".toList, "CSŐR".toList], by decide⟩

/-- A blank as `R` at the end of the word. -/
def csor : List Placed := [⟨7, 9, ⟨8, by decide⟩, true⟩]

theorem playable_csor : Playable Lexicon.unavailable csorVocabulary csoBoard csor
    [⟨"CSŐR".toList, [(7, 7), (7, 8), (7, 9)], 14⟩] ⟨"CSŐR".toList, [(7, 7), (7, 8), (7, 9)], 14⟩ :=
  ⟨by decide +kernel, List.mem_singleton.mpr rfl, by decide +kernel, by decide +kernel,
    fun w hw hne => absurd (List.mem_singleton.mp hw) hne, fun h => absurd h (by decide)⟩

/-- The search finds the first placement of a duel, and its continuation with a blank where blanks
are allowed. -/
theorem generateMoves_exact_opening :
    (∃ m ∈ generateMoves Lexicon.unavailable csoVocabulary Board.new [32, 33] true 7,
      m.tiles.Perm Game.duelOpening) ∧
    (∃ m ∈ generateMoves Lexicon.unavailable csorVocabulary csoBoard [0, 12] true 7,
      m.tiles.Perm csor) ∧
    ¬∃ m ∈ generateMoves Lexicon.unavailable csorVocabulary csoBoard [0, 12] false 7,
      m.tiles.Perm csor := by
  have hfirst := generateMoves_exact Lexicon.unavailable csoVocabulary Board.new [32, 33] true 7
    (fun _ => not_occupied_new) lettered_new (by decide) csoVocabulary_several
  have hnext (allowBlanks : Bool) := generateMoves_exact Lexicon.unavailable csorVocabulary csoBoard
    [0, 12] allowBlanks 7 (fun h => absurd h (by decide)) lettered_csoBoard (by decide)
    (by decide +kernel)
  refine ⟨(hfirst.1 _).mpr ⟨affordable_duelOpening, by decide, _, _, playable_duelOpening⟩,
    ((hnext true).1 _).mpr ⟨⟨?_, by decide +kernel, nofun⟩, by decide, _, _, playable_csor⟩,
    fun hfound => ?_⟩
  · exact (List.sublist_append_left [0] [12]).subperm
  · obtain ⟨haff, -⟩ := ((hnext false).1 _).mp hfound
    exact absurd (haff.plain rfl _ List.mem_cons_self) (by decide)

end Moves

end Robot

end ScrabbleMagyar
