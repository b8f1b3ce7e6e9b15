import ScrabbleMagyar.Engine.FormedWords
import ScrabbleMagyar.Robot.Walks

/-!
# The searched grid and the board

A search looks at a grid of letters: the board itself, or the board mirrored along the diagonal.
`gridOn` names both. What the search keeps of a word across, the letters above and below a square,
is the word that the board forms there.

* `allows_iff`: a letter is allowed on a square if the word across it that a placement forms is in
  the vocabulary or accepted by the dictionary.
* `payable_iff`: the search pays for tiles if they are letters that the hand holds.
-/

namespace ScrabbleMagyar

namespace Robot

open Board

/-! ## The grid of a direction -/

/-- The letters on the lines of a direction. -/
def gridOn (b : Board) (horizontal : Bool) : Letters := fun fixed i =>
  (b.line horizontal fixed i).map Cell.letter

/-- Every tile on the board shows a letter. -/
def Lettered (b : Board) : Prop :=
  ∀ (s : Grid.Square) (x : Cell), b.cell s.1 s.2 = some x → x.letter ≠ Tile.blank

variable {b : Board} {horizontal : Bool} {fixed : ℕ}

theorem isSome_gridOn (b : Board) (horizontal : Bool) (fixed i : ℕ) :
    (gridOn b horizontal fixed i).isSome = b.occOn horizontal fixed i := by
  simp [gridOn, occOn]

theorem gridOn_eq_none {i : ℕ} :
    gridOn b horizontal fixed i = none ↔ ¬b.Occupied (Grid.onLine horizontal fixed i) := by
  rw [← occOn_iff, ← isSome_gridOn]
  simp

theorem gridOn_edge (b : Board) (horizontal : Bool) (fixed : ℕ) {i : ℕ} (h : boardSize ≤ i) :
    gridOn b horizontal fixed i = none := by
  rw [gridOn_eq_none, ← occOn_iff, occOn_of_le b horizontal fixed h]
  simp

theorem textAt_of_gridOn {i : ℕ} {letter : Tile} (h : gridOn b horizontal fixed i = some letter) :
    b.textAt (Grid.onLine horizontal fixed i) = letter.asStr := by
  obtain ⟨x, hx, rfl⟩ := Option.map_eq_some_iff.mp h
  exact (textAt_of_line hx).2

theorem onLine_swapped (horizontal : Bool) (fixed i : ℕ) :
    Grid.onLine horizontal fixed i = Grid.onLine (!horizontal) i fixed := by
  cases horizontal <;> rfl

/-- The text on `n` squares of a line. -/
def textFrom (b : Board) (horizontal : Bool) (fixed start n : ℕ) : Word :=
  (List.range' start n).flatMap fun i => b.textAt (Grid.onLine horizontal fixed i)

theorem textFrom_succ (b : Board) (horizontal : Bool) (fixed start n : ℕ) :
    textFrom b horizontal fixed start (n + 1) =
      b.textAt (Grid.onLine horizontal fixed start) ++ textFrom b horizontal fixed (start + 1) n := by
  rw [textFrom, List.range'_succ, List.flatMap_cons]
  rfl

theorem textFrom_concat (b : Board) (horizontal : Bool) (fixed start n : ℕ) :
    textFrom b horizontal fixed start (n + 1) =
      textFrom b horizontal fixed start n ++ b.textAt (Grid.onLine horizontal fixed (start + n)) := by
  simp [textFrom, List.range'_1_concat]

theorem textFrom_add (b : Board) (horizontal : Bool) (fixed start m n : ℕ) :
    textFrom b horizontal fixed start (m + n) =
      textFrom b horizontal fixed start m ++ textFrom b horizontal fixed (start + m) n := by
  induction m generalizing start with
  | zero => simp [textFrom]
  | succ m ih =>
    rw [show m + 1 + n = m + n + 1 by omega, textFrom_succ, textFrom_succ, ih, List.append_assoc,
      show start + 1 + m = start + (m + 1) by omega]

theorem textFrom_congr {b' : Board} {start n : ℕ} (h : ∀ i, start ≤ i → i < start + n →
    b'.textAt (Grid.onLine horizontal fixed i) = b.textAt (Grid.onLine horizontal fixed i)) :
    textFrom b' horizontal fixed start n = textFrom b horizontal fixed start n := by
  refine List.flatMap_congr fun i hi => ?_
  obtain ⟨h₁, h₂⟩ := List.mem_range'_1.mp hi
  exact h i h₁ h₂

theorem textOn_eq_textFrom (b : Board) (horizontal : Bool) (fixed s e : ℕ) :
    b.textOn horizontal fixed s e = textFrom b horizontal fixed s (e + 1 - s) := rfl

/-- The text on letters is not empty. -/
theorem textFrom_eq_nil (hletters : Lettered b) {start n : ℕ}
    (hfull : ∀ i, start ≤ i → i < start + n → b.occOn horizontal fixed i = true) :
    textFrom b horizontal fixed start n = [] ↔ n = 0 := by
  constructor
  · intro h
    cases n with
    | zero => rfl
    | succ n =>
      rw [textFrom_succ, List.append_eq_nil_iff] at h
      obtain ⟨x, hx⟩ := Option.isSome_iff_exists.mp (hfull start le_rfl (by omega))
      rw [(textAt_of_line hx).2] at h
      rw [line_eq] at hx
      exact absurd h.1 (Tile.asStr_ne_nil (hletters _ x hx))
  · rintro rfl
    rfl

/-! ## The squares around a word -/

/-- The text above a square is that of the letters before it on the line across. -/
theorem above_eq (b : Board) (horizontal : Bool) (c r : ℕ) :
    above (gridOn b horizontal) c r = textFrom b (!horizontal) c
      (Line.stretchStart (b.occOn (!horizontal) c) r)
      (r - Line.stretchStart (b.occOn (!horizontal) c) r) := by
  induction r with
  | zero => rfl
  | succ r ih =>
    have hsquare := onLine_swapped horizontal r c
    have hocc : b.occOn (!horizontal) c r = (gridOn b horizontal r c).isSome := by
      rw [isSome_gridOn, Bool.eq_iff_iff, occOn_iff, occOn_iff, hsquare]
    simp only [above, Line.stretchStart, hocc]
    cases hcell : gridOn b horizontal r c with
    | none => simp [textFrom]
    | some letter =>
      have hle := Line.stretchStart_le (b.occOn (!horizontal) c) r
      simp only [Option.isSome_some, if_true]
      rw [ih, show r + 1 - Line.stretchStart (b.occOn (!horizontal) c) r =
        r - Line.stretchStart (b.occOn (!horizontal) c) r + 1 by omega, textFrom_concat,
        Nat.add_sub_cancel' hle, ← hsquare, textAt_of_gridOn hcell]

/-- The text below a square is that of the letters after it on the line across. -/
theorem below_eq (b : Board) (horizontal : Bool) (c n r : ℕ) :
    below (gridOn b horizontal) c n (r + 1) = textFrom b (!horizontal) c (r + 1)
      (Line.stretchEnd (b.occOn (!horizontal) c) n r - r) := by
  induction n generalizing r with
  | zero => simp [below, Line.stretchEnd, textFrom]
  | succ n ih =>
    have hsquare := onLine_swapped horizontal (r + 1) c
    have hocc : b.occOn (!horizontal) c (r + 1) = (gridOn b horizontal (r + 1) c).isSome := by
      rw [isSome_gridOn, Bool.eq_iff_iff, occOn_iff, occOn_iff, hsquare]
    simp only [below, Line.stretchEnd, hocc]
    cases hcell : gridOn b horizontal (r + 1) c with
    | none => simp [textFrom]
    | some letter =>
      have hle := Line.le_stretchEnd (b.occOn (!horizontal) c) n (r + 1)
      simp only [Option.isSome_some, if_true]
      rw [ih, show Line.stretchEnd (b.occOn (!horizontal) c) n (r + 1) - r =
        Line.stretchEnd (b.occOn (!horizontal) c) n (r + 1) - (r + 1) + 1 by omega, textFrom_succ,
        ← hsquare, textAt_of_gridOn hcell]

/-! ## A placement on one line -/

/-- The tiles lie on free squares of one line. -/
structure OnLine (b : Board) (horizontal : Bool) (fixed : ℕ) (tiles : List Placed) : Prop where
  fits : b.Fits tiles
  line : ∀ p ∈ tiles, ∃ i, p.square = Grid.onLine horizontal fixed i

variable {tiles : List Placed}

/-- Across the line there is one new square at most. -/
theorem OnLine.index_eq (h : OnLine b horizontal fixed tiles) {c i : ℕ}
    (hmem : Grid.onLine (!horizontal) c i ∈ tiles.map Placed.square) : i = fixed := by
  obtain ⟨p, hp, hsquare⟩ := List.mem_map.mp hmem
  obtain ⟨j, hj⟩ := h.line p hp
  rw [hj] at hsquare
  cases horizontal <;> simp [Grid.onLine] at hsquare <;> omega

section Across

variable {c : ℕ}

/-- The letters across the line through a new tile. -/
theorem OnLine.run_across (h : OnLine b horizontal fixed tiles)
    (hc : Grid.onLine (!horizontal) c fixed ∈ tiles.map Placed.square) :
    Line.IsRun ((b.place tiles).occOn (!horizontal) c)
      (Line.stretchStart (b.occOn (!horizontal) c) fixed)
      (Line.stretchEnd (b.occOn (!horizontal) c) (boardSize - (fixed + 1)) fixed) := by
  have hocc (i : ℕ) : (b.place tiles).occOn (!horizontal) c i = true ↔
      b.occOn (!horizontal) c i = true ∨ i = fixed := by
    rw [occOn_iff, occupied_place_iff h.fits, occOn_iff]
    exact or_congr_right ⟨h.index_eq, fun hi => hi ▸ hc⟩
  have hfree {i : ℕ} (hno : b.occOn (!horizontal) c i = false) (hne : i ≠ fixed) :
      (b.place tiles).occOn (!horizontal) c i = false := by
    rw [Bool.eq_false_iff, Ne, hocc]
    simp [hno, hne]
  have hstart := Line.stretchStart_le (b.occOn (!horizontal) c) fixed
  have hend := Line.le_stretchEnd (b.occOn (!horizontal) c) (boardSize - (fixed + 1)) fixed
  refine ⟨by omega, fun i h₁ h₂ => ?_, fun i hi => ?_, ?_⟩
  · rw [hocc]
    rcases lt_trichotomy i fixed with hlt | heq | hgt
    · exact .inl (Line.stretchStart_full h₁ hlt)
    · exact .inr heq
    · exact .inl (Line.stretchEnd_full hgt h₂)
  · exact hfree (Line.stretchStart_before hi) (by omega)
  · refine hfree (Line.stretchEnd_after (occOn_of_le b _ _ ?_)) (by omega)
    simp only [boardSize]
    omega

/-- The word across the line through a new tile. -/
theorem OnLine.text_across (h : OnLine b horizontal fixed tiles) {p : Placed} (hp : p ∈ tiles)
    (hsquare : p.square = Grid.onLine (!horizontal) c fixed) :
    (b.place tiles).textOn (!horizontal) c (Line.stretchStart (b.occOn (!horizontal) c) fixed)
        (Line.stretchEnd (b.occOn (!horizontal) c) (boardSize - (fixed + 1)) fixed) =
      above (gridOn b horizontal) c fixed ++ p.letter.asStr ++
        below (gridOn b horizontal) c (boardSize - (fixed + 1)) (fixed + 1) := by
  have hstart := Line.stretchStart_le (b.occOn (!horizontal) c) fixed
  have hend := Line.le_stretchEnd (b.occOn (!horizontal) c) (boardSize - (fixed + 1)) fixed
  have hold {i : ℕ} (hi : i ≠ fixed) : (b.place tiles).textAt (Grid.onLine (!horizontal) c i) =
      b.textAt (Grid.onLine (!horizontal) c i) :=
    textAt_place_of_not_mem b fun hmem => hi (h.index_eq hmem)
  have hnew : (b.place tiles).textAt (Grid.onLine (!horizontal) c fixed) = p.letter.asStr := by
    rw [← hsquare, textAt, cell_place_of_mem b h.fits.on h.fits.distinct hp]
    rfl
  rw [textOn_eq_textFrom, above_eq, below_eq, show ∀ s e, s ≤ fixed → fixed ≤ e →
    e + 1 - s = fixed - s + (e - fixed + 1) by omega, textFrom_add, Nat.add_sub_cancel' hstart,
    textFrom_succ, hnew, List.append_assoc]
  · congr 1
    · exact textFrom_congr fun i h₁ h₂ => hold (by omega)
    · exact congrArg _ (textFrom_congr fun i h₁ h₂ => hold (by omega))
  · exact hstart
  · exact hend

/-- What the search keeps for a square: nothing if there are no letters around it across the
line. -/
theorem contexts_eq (hletters : Lettered b) (hfree : ¬b.Occupied (Grid.onLine horizontal fixed c)) :
    contexts (gridOn b horizontal) fixed c =
      if Line.stretchStart (b.occOn (!horizontal) c) fixed <
          Line.stretchEnd (b.occOn (!horizontal) c) (boardSize - (fixed + 1)) fixed then
        some (above (gridOn b horizontal) c fixed,
          below (gridOn b horizontal) c (boardSize - (fixed + 1)) (fixed + 1))
      else none := by
  have hstart := Line.stretchStart_le (b.occOn (!horizontal) c) fixed
  have hend := Line.le_stretchEnd (b.occOn (!horizontal) c) (boardSize - (fixed + 1)) fixed
  have hup : above (gridOn b horizontal) c fixed = [] ↔
      fixed - Line.stretchStart (b.occOn (!horizontal) c) fixed = 0 := by
    rw [above_eq]
    exact textFrom_eq_nil hletters fun i h₁ h₂ => Line.stretchStart_full h₁ (by omega)
  have hdown : below (gridOn b horizontal) c (boardSize - (fixed + 1)) (fixed + 1) = [] ↔
      Line.stretchEnd (b.occOn (!horizontal) c) (boardSize - (fixed + 1)) fixed - fixed = 0 := by
    rw [below_eq]
    refine textFrom_eq_nil hletters fun i h₁ h₂ => ?_
    have hle : i ≤ Line.stretchEnd (b.occOn (!horizontal) c) (boardSize - (fixed + 1)) fixed := by
      omega
    exact Line.stretchEnd_full h₁ hle
  have hnone : ((gridOn b horizontal fixed c).isSome) = false := by
    rw [gridOn_eq_none.mpr hfree]
    rfl
  unfold contexts
  rw [hnone]
  simp only [Bool.false_eq_true, if_false, Bool.and_eq_true, List.isEmpty_iff, hup, hdown]
  split
  · rw [if_neg (by omega)]
  · rw [if_pos (by omega)]

/-- **A letter is allowed** on a square of the line if the word across it is known. -/
theorem OnLine.allows_iff (h : OnLine b horizontal fixed tiles) (hletters : Lettered b)
    {lex : Lexicon} {vocab : Vocabulary} {crossLetters : List Tile} {p : Placed} (hp : p ∈ tiles)
    (hsquare : p.square = Grid.onLine horizontal fixed c) (hcross : p.letter ∈ crossLetters) :
    ((allowedLetters lex vocab crossLetters (gridOn b horizontal) fixed c).all fun mask =>
        mask.contains p.letter) = true ↔
      ∀ s e, NewRun b tiles (!horizontal) c s e →
        (b.place tiles).textOn (!horizontal) c s e ∈ vocab.words ∨
          lex.accepts ((b.place tiles).textOn (!horizontal) c s e) = true := by
  have hsquare' : p.square = Grid.onLine (!horizontal) c fixed := by rw [hsquare, onLine_swapped]
  have hmem : Grid.onLine (!horizontal) c fixed ∈ tiles.map Placed.square :=
    hsquare' ▸ List.mem_map_of_mem hp
  have hfree : ¬b.Occupied (Grid.onLine horizontal fixed c) := by
    rw [← hsquare]
    simp [Occupied, h.fits.free p hp]
  have hrun := h.run_across hmem
  have hstart := Line.stretchStart_le (b.occOn (!horizontal) c) fixed
  have hend := Line.le_stretchEnd (b.occOn (!horizontal) c) (boardSize - (fixed + 1)) fixed
  have honly {s e : ℕ} (hnew : NewRun b tiles (!horizontal) c s e) :
      s = Line.stretchStart (b.occOn (!horizontal) c) fixed ∧
        e = Line.stretchEnd (b.occOn (!horizontal) c) (boardSize - (fixed + 1)) fixed := by
    obtain ⟨i, h₁, h₂, hi⟩ := hnew.new
    obtain rfl := h.index_eq hi
    exact hnew.run.eq_of_mem hrun h₁ h₂ hstart hend
  have htext := h.text_across hp hsquare'
  rw [allowedLetters, contexts_eq hletters hfree]
  split
  · rename_i hlt
    have hword : (∀ s e, NewRun b tiles (!horizontal) c s e →
        (b.place tiles).textOn (!horizontal) c s e ∈ vocab.words ∨
          lex.accepts ((b.place tiles).textOn (!horizontal) c s e) = true) ↔
        above (gridOn b horizontal) c fixed ++ p.letter.asStr ++
            below (gridOn b horizontal) c (boardSize - (fixed + 1)) (fixed + 1) ∈ vocab.words ∨
          lex.accepts (above (gridOn b horizontal) c fixed ++ p.letter.asStr ++
            below (gridOn b horizontal) c (boardSize - (fixed + 1)) (fixed + 1)) = true := by
      rw [← htext]
      constructor
      · exact fun hall => hall _ _ ⟨hrun, hlt, fixed, hstart, hend, hmem⟩
      · intro hgood s e hnew
        obtain ⟨rfl, rfl⟩ := honly hnew
        exact hgood
    rw [hword]
    simp [hcross, Vocabulary.contains_iff]
  · rename_i hlt
    simp only [Option.map_none, Option.all_none, true_iff]
    intro s e hnew
    obtain ⟨rfl, rfl⟩ := honly hnew
    exact absurd hnew.long hlt

end Across

/-! ## The hand -/

/-- The tile of the hand that a laying takes. -/
def kindTile (t : Tile × Bool) : Tile := if t.2 then Tile.blank else t.1

variable {rack : List Tile} {kinds : List (Tile × Bool)}

theorem count_kindTile (hletters : ∀ t ∈ kinds, t.1 ≠ Tile.blank) (t : Tile) :
    (kinds.map kindTile).count t =
      if t = Tile.blank then kinds.countP Prod.snd else kinds.count (t, false) := by
  induction kinds with
  | nil => simp
  | cons k kinds ih =>
    obtain ⟨letter, isBlank⟩ := k
    have hrest := ih fun t ht => hletters t (List.mem_cons_of_mem _ ht)
    have hletter : letter ≠ Tile.blank := hletters _ List.mem_cons_self
    rw [List.map_cons, List.count_cons, hrest, List.countP_cons, List.count_cons]
    cases isBlank with
    | true =>
      by_cases ht : t = Tile.blank
      · simp [kindTile, ht]
      · simp [kindTile, ht, Ne.symm ht]
    | false =>
      by_cases ht : t = Tile.blank
      · subst ht
        simp [kindTile, hletter]
      · simp [kindTile, ht]

/-- **The search pays** for letters that the hand holds, with blanks if they are allowed. -/
theorem payable_iff (rack : List Tile) (allowBlanks : Bool) (kinds : List (Tile × Bool)) :
    Payable (letters.filter fun t => 0 < rackCounts rack t) (rackCounts rack)
        (rackBlanks rack allowBlanks) kinds ↔
      (∀ t ∈ kinds, t.1 ≠ Tile.blank) ∧ (kinds.map kindTile).Subperm rack ∧
        (allowBlanks = false → ∀ t ∈ kinds, t.2 = false) := by
  have hmem {t : Tile} : t ∈ letters ↔ t ≠ Tile.blank := by simp [letters]
  constructor
  · intro h
    have hletters : ∀ t ∈ kinds, t.1 ≠ Tile.blank := by
      intro t ht
      have := h.lettered t ht
      split at this
      · exact hmem.mp this
      · exact hmem.mp (List.mem_filter.mp this).1
    refine ⟨hletters, List.subperm_ext_iff.mpr fun t _ => ?_, ?_⟩
    · rw [count_kindTile hletters]
      split
      · rename_i ht
        have hblanks := h.blanks
        rw [rackBlanks] at hblanks
        split at hblanks
        · exact ht ▸ hblanks
        · omega
      · rename_i ht
        have henough := h.enough t
        rwa [rackCounts, if_neg ht] at henough
    · rintro rfl t ht
      have hblanks := h.blanks
      rw [rackBlanks, if_neg (by simp), Nat.le_zero, List.countP_eq_zero] at hblanks
      simpa using hblanks t ht
  · rintro ⟨hletters, hsub, hallow⟩
    have hcount := fun t => count_kindTile hletters t
    have hle := fun t => hsub.count_le t
    have henough : ∀ t, kinds.count (t, false) ≤ rackCounts rack t := by
      intro t
      rw [rackCounts]
      split
      · rename_i ht
        rw [Nat.le_zero, List.count_eq_zero]
        exact fun hmem => hletters _ hmem ht
      · rename_i ht
        have := hle t
        rwa [hcount, if_neg ht] at this
    refine ⟨fun t ht => ?_, henough, ?_⟩
    · split
      · exact hmem.mpr (hletters t ht)
      · rename_i hno
        rw [List.mem_filter, decide_eq_true_eq]
        refine ⟨hmem.mpr (hletters t ht), lt_of_lt_of_le (List.count_pos_iff.mpr ?_) (henough t.1)⟩
        obtain ⟨letter, isBlank⟩ := t
        simpa [show isBlank = false by simpa using hno] using ht
    · rw [rackBlanks]
      split
      · have := hle Tile.blank
        rwa [hcount, if_pos rfl] at this
      · rename_i hno
        rw [Nat.le_zero, List.countP_eq_zero]
        simpa using hallow (by simpa using hno)

end Robot

end ScrabbleMagyar
