import ScrabbleMagyar.Engine.Squares

/-!
# What a checked placement looks like

* `Board.Checked`: everything a successful validation says, phase by phase
  (`validatePlacement_ok_iff`).
* `Board.Shaped`: the part of it that is about the squares alone. The tiles lie on one line, in
  one maximal run of it (`Shaped.main`), and the collected words are the maximal runs of two or
  more letters that hold a newly laid tile (`Shaped.mem_collected_iff`).
-/

namespace ScrabbleMagyar

namespace Board

/-! ## The phases of the validation -/

/-- The main direction of a placement: that of its line, and for a single tile the one in which
it has a neighbour. -/
def mainHorizontal (b : Board) (placed : List Placed) : Bool :=
  match placed with
  | [p] => ((b.place placed).determineDirectionSingle p.row p.col).1
  | _ => ((placed.map Placed.square).map Prod.fst).dedup.length == 1 ||
      (placed.map Placed.square).length == 1

/-- The main word of a placement: its line, first and last index. -/
def mainWord (b : Board) (placed : List Placed) : ℕ × ℕ × ℕ :=
  let bounds := getMainBounds (placed.map Placed.square) (b.mainHorizontal placed)
  (bounds.1, (b.place placed).findWordBounds bounds.1 bounds.2.1 bounds.2.2
    (b.mainHorizontal placed))

/-- Everything a successful validation says. -/
structure Checked (lex : Lexicon) (b : Board) (placed : List Placed) (skipDictionary : Bool)
    (formed : List FormedWord) : Prop where
  nonempty : placed ≠ []
  fits : b.Fits placed
  inLine : ¬(((placed.map Placed.square).map Prod.fst).dedup.length > 1 ∧
    ((placed.map Placed.square).map Prod.snd).dedup.length > 1)
  first : b.isEmpty = true →
    maskOf (placed.map Placed.square) center center = true ∧ 2 ≤ placed.length
  neighbor : ∀ p, placed = [p] → b.isEmpty = false →
    ((b.place placed).determineDirectionSingle p.row p.col).2 = true
  continuous : (b.place placed).checkContinuity (b.mainWord placed).1 (b.mainWord placed).2.1
    (b.mainWord placed).2.2 (b.mainHorizontal placed) = true
  touches : b.isEmpty = false → (b.place placed).checkAdjacency (placed.map Placed.square)
    (maskOf (placed.map Placed.square)) = true
  formed_eq : formed = (b.place placed).collectWords (placed.map Placed.square)
    (maskOf (placed.map Placed.square)) (b.mainHorizontal placed) (b.mainWord placed).1
    (b.mainWord placed).2.1 (b.mainWord placed).2.2
  formed_ne : formed ≠ []
  noSplit : (b.place placed).findSplitDigraph formed (maskOf (placed.map Placed.square)) = none
  accepted : skipDictionary = false → ∀ w ∈ formed, lex.accepts w.word = true

theorem validateAlignment_ok_iff (positions : List (ℕ × ℕ)) (aligned : Bool) :
    validateAlignment positions = .ok aligned ↔
      ¬((positions.map Prod.fst).dedup.length > 1 ∧ (positions.map Prod.snd).dedup.length > 1) ∧
        aligned = ((positions.map Prod.fst).dedup.length == 1 || positions.length == 1) := by
  simp only [validateAlignment]
  split_ifs with h
  · simp [h]
  · simp only [h, not_false_eq_true, true_and, Except.ok.injEq]
    exact eq_comm

theorem validateFirstMove_none_iff (placed : List Placed) (newPositions : Mask) :
    validateFirstMove placed newPositions = none ↔
      newPositions center center = true ∧ 2 ≤ placed.length := by
  simp only [validateFirstMove]
  split_ifs with hcenter hlen
  · have hcenter' : newPositions center center = false := by simpa using hcenter
    simp [hcenter']
  · simp only [false_iff]
    omega
  · exact ⟨fun _ => ⟨by simpa using hcenter, by omega⟩, fun _ => rfl⟩

theorem checkFormed_ok_iff (lex : Lexicon) (b : Board) (found : List FormedWord)
    (newPositions : Mask) (skipDictionary : Bool) (formed : List FormedWord) :
    checkFormed lex b found newPositions skipDictionary = .ok formed ↔
      formed = found ∧ formed ≠ [] ∧ b.findSplitDigraph formed newPositions = none ∧
        (skipDictionary = false → ∀ w ∈ formed, lex.accepts w.word = true) := by
  have hcheck : (lex.checkWords (found.map FormedWord.word)).1 = true ↔
      ∀ w ∈ found, lex.accepts w.word = true := by
    rw [Lexicon.checkWords_fst]
    simp
  simp only [checkFormed]
  split
  · rename_i hempty
    simp only [reduceCtorEq, false_iff]
    rintro ⟨rfl, hne, -⟩
    exact hne (by simpa using hempty)
  rename_i hempty
  split
  · rename_i digraph hsplit
    simp only [reduceCtorEq, false_iff]
    rintro ⟨rfl, -, hnone, -⟩
    rw [hsplit] at hnone
    exact absurd hnone (by simp)
  rename_i hsplit
  split
  · rename_i hdict
    obtain ⟨hskip, hbad⟩ : skipDictionary = false ∧
        (lex.checkWords (found.map FormedWord.word)).1 = false := by simpa using hdict
    simp only [reduceCtorEq, false_iff]
    rintro ⟨rfl, -, -, hall⟩
    rw [hcheck.mpr (hall hskip)] at hbad
    exact absurd hbad (by simp)
  · rename_i hdict
    constructor
    · rintro ⟨⟩
      exact ⟨rfl, by simpa using hempty, hsplit, fun hskip =>
        hcheck.mp (by simpa [hskip] using hdict)⟩
    · rintro ⟨rfl, -⟩
      rfl

theorem validateWords_ok_iff (lex : Lexicon) (b : Board) (positions : List (ℕ × ℕ))
    (newPositions : Mask) (horizontal skipDictionary : Bool) (formed : List FormedWord) :
    let bounds := getMainBounds positions horizontal
    let word := b.findWordBounds bounds.1 bounds.2.1 bounds.2.2 horizontal
    validateWords lex b positions newPositions horizontal skipDictionary = .ok formed ↔
      b.checkContinuity bounds.1 word.1 word.2 horizontal = true ∧
        (b.isEmpty = false → b.checkAdjacency positions newPositions = true) ∧
        formed = b.collectWords positions newPositions horizontal bounds.1 word.1 word.2 ∧
        formed ≠ [] ∧ b.findSplitDigraph formed newPositions = none ∧
        (skipDictionary = false → ∀ w ∈ formed, lex.accepts w.word = true) := by
  intro bounds word
  have hunfold : validateWords lex b positions newPositions horizontal skipDictionary =
      if !b.checkContinuity bounds.1 word.1 word.2 horizontal then
        .error "A betűknek folytonos sort kell alkotniuk."
      else if !b.isEmpty && !b.checkAdjacency positions newPositions then
        .error "A szónak csatlakoznia kell meglévő betűkhöz."
      else checkFormed lex b (b.collectWords positions newPositions horizontal bounds.1 word.1 word.2)
        newPositions skipDictionary := rfl
  rw [hunfold]
  split
  · rename_i hcont
    simp [show b.checkContinuity bounds.1 word.1 word.2 horizontal = false by simpa using hcont]
  rename_i hcont
  split
  · rename_i htouch
    obtain ⟨h₁, h₂⟩ : b.isEmpty = false ∧ b.checkAdjacency positions newPositions = false := by
      simpa using htouch
    simp [h₁, h₂]
  rename_i htouch
  have hcont' : b.checkContinuity bounds.1 word.1 word.2 horizontal = true := by simpa using hcont
  have htouch' : b.isEmpty = false → b.checkAdjacency positions newPositions = true := by
    simpa using htouch
  simp only [checkFormed_ok_iff, hcont', true_and, and_iff_right htouch']

/-- **What the validation checks.** -/
theorem validatePlacement_ok_iff (lex : Lexicon) (b : Board) (placed : List Placed)
    (skipDictionary : Bool) (formed : List FormedWord) :
    b.validatePlacement lex placed skipDictionary = .ok formed ↔
      Checked lex b placed skipDictionary formed := by
  simp only [validatePlacement]
  split
  · rename_i hempty
    simp only [reduceCtorEq, false_iff]
    exact fun h => h.nonempty (by simpa using hempty)
  rename_i hempty
  split
  · rename_i e hpos
    simp only [reduceCtorEq, false_iff]
    intro h
    rw [(validatePositions_ok_iff b placed).mpr h.fits] at hpos
    exact absurd hpos (by simp)
  rename_i hpos
  split
  · rename_i e halign
    simp only [reduceCtorEq, false_iff]
    intro h
    rw [(validateAlignment_ok_iff _ _).mpr ⟨h.inLine, rfl⟩] at halign
    exact absurd halign (by simp)
  rename_i aligned halign
  obtain ⟨hline, rfl⟩ := (validateAlignment_ok_iff _ _).mp halign
  split
  · rename_i e hfirst
    simp only [reduceCtorEq, false_iff]
    intro h
    split at hfirst
    · rename_i hb
      rw [(validateFirstMove_none_iff _ _).mpr (h.first hb)] at hfirst
      exact absurd hfirst (by simp)
    · exact absurd hfirst (by simp)
  rename_i hfirst
  have hfirst' : b.isEmpty = true →
      maskOf (placed.map Placed.square) center center = true ∧ 2 ≤ placed.length := by
    intro hb
    rw [if_pos hb] at hfirst
    exact (validateFirstMove_none_iff _ _).mp hfirst
  have hfits := (validatePositions_ok_iff b placed).mp hpos
  -- the last phase, the same for one tile and for several
  have hmp : (∀ p, placed = [p] → b.isEmpty = false →
        ((b.place placed).determineDirectionSingle p.row p.col).2 = true) →
      validateWords lex (b.place placed) (placed.map Placed.square)
        (maskOf (placed.map Placed.square)) (b.mainHorizontal placed) skipDictionary = .ok formed →
      Checked lex b placed skipDictionary formed := by
    intro hneighbor h
    obtain ⟨hcont, htouch, hformed, hne, hsplit, haccept⟩ :=
      (validateWords_ok_iff lex (b.place placed) _ _ _ _ _).mp h
    exact ⟨by simpa using hempty, hfits, hline, hfirst', hneighbor, hcont, by simpa using htouch,
      hformed, hne, hsplit, haccept⟩
  have hmpr : Checked lex b placed skipDictionary formed →
      validateWords lex (b.place placed) (placed.map Placed.square)
        (maskOf (placed.map Placed.square)) (b.mainHorizontal placed) skipDictionary = .ok formed :=
    fun h => (validateWords_ok_iff lex (b.place placed) _ _ _ _ _).mpr
      ⟨h.continuous, by simpa using h.touches, h.formed_eq, h.formed_ne, h.noSplit, h.accepted⟩
  split
  · rename_i p
    split
    · rename_i hlonely
      obtain ⟨hb, hnone⟩ : b.isEmpty = false ∧
          ((b.place [p]).determineDirectionSingle p.row p.col).2 = false := by
        simpa using hlonely
      simp only [reduceCtorEq, false_iff]
      intro h
      rw [h.neighbor p rfl hb] at hnone
      exact absurd hnone (by simp)
    · rename_i hlonely
      refine ⟨hmp fun q hq hb => ?_, hmpr⟩
      obtain rfl : p = q := by simpa using hq
      simpa [hb] using hlonely
  · rename_i hmany
    have hmain : b.mainHorizontal placed =
        (((placed.map Placed.square).map Prod.fst).dedup.length == 1 ||
          (placed.map Placed.square).length == 1) := by
      simp only [mainHorizontal]
    rw [← hmain]
    exact ⟨hmp fun p hp => absurd hp (hmany p), hmpr⟩

/-- The bounds of positions on one line. -/
theorem getMainBounds_spec {positions : List (ℕ × ℕ)} (horizontal : Bool)
    (hne : positions ≠ []) {x : ℕ} (hx : ∀ s ∈ positions, across horizontal s = x) :
    let bounds := getMainBounds positions horizontal
    bounds.1 = x ∧
      (∀ s ∈ positions, bounds.2.1 ≤ along horizontal s ∧ along horizontal s ≤ bounds.2.2) ∧
      (∃ s ∈ positions, along horizontal s = bounds.2.1) ∧
      ∃ s ∈ positions, along horizontal s = bounds.2.2 := by
  intro bounds
  have hacross : (positions.map (across horizontal)).dedup = [x] := by
    have hrep : positions.map (across horizontal) = List.replicate positions.length x := by
      refine List.eq_replicate_iff.mpr ⟨by simp, fun y hy => ?_⟩
      obtain ⟨s, hs, rfl⟩ := List.mem_map.mp hy
      exact hx s hs
    rw [hrep, List.replicate_dedup (by simpa using hne)]
  have hfixed : bounds.1 = x := by
    change mainLine (positions.map (across horizontal)) _ = x
    rw [mainLine, hacross]
  have hne' : positions.map (along horizontal) ≠ [] := by simpa using hne
  obtain ⟨lo, hlo⟩ := Option.isSome_iff_exists.mp (List.isSome_min?_of_ne_nil hne')
  obtain ⟨hi, hhi⟩ := Option.isSome_iff_exists.mp (List.isSome_max?_of_ne_nil hne')
  have hbounds : bounds.2 = (lo, hi) := by
    change ((positions.map (along horizontal)).min?.getD 0,
      (positions.map (along horizontal)).max?.getD 0) = (lo, hi)
    rw [hlo, hhi]
    rfl
  obtain ⟨hlomem, hlole⟩ := List.min?_eq_some_iff.mp hlo
  obtain ⟨himem, hihe⟩ := List.max?_eq_some_iff.mp hhi
  rw [hbounds]
  exact ⟨hfixed, fun s hs => ⟨hlole _ (List.mem_map_of_mem hs), hihe _ (List.mem_map_of_mem hs)⟩,
    by simpa using List.mem_map.mp hlomem, by simpa using List.mem_map.mp himem⟩

/-! ## The shape of a placement -/

/-- The words collected from a placement. -/
def collected (b : Board) (placed : List Placed) : List FormedWord :=
  (b.place placed).collectWords (placed.map Placed.square) (maskOf (placed.map Placed.square))
    (b.mainHorizontal placed) (b.mainWord placed).1 (b.mainWord placed).2.1
    (b.mainWord placed).2.2

/-- Tiles on free squares of one line, without a gap. -/
structure Shaped (b : Board) (placed : List Placed) : Prop where
  nonempty : placed ≠ []
  fits : b.Fits placed
  inLine : ¬(((placed.map Placed.square).map Prod.fst).dedup.length > 1 ∧
    ((placed.map Placed.square).map Prod.snd).dedup.length > 1)
  continuous : (b.place placed).checkContinuity (b.mainWord placed).1 (b.mainWord placed).2.1
    (b.mainWord placed).2.2 (b.mainHorizontal placed) = true

theorem eq_of_dedup_length {l : List ℕ} (h : l.dedup.length = 1) : ∃ x, ∀ y ∈ l, y = x := by
  obtain ⟨x, hx⟩ := List.length_eq_one_iff.mp h
  exact ⟨x, fun y hy => by simpa [hx] using List.mem_dedup.mpr hy⟩

section Shaped

variable {b : Board} {placed : List Placed}

/-- The tiles of a placement lie on one line of the main direction. -/
theorem exists_line (hne : placed ≠ [])
    (hline : ¬(((placed.map Placed.square).map Prod.fst).dedup.length > 1 ∧
      ((placed.map Placed.square).map Prod.snd).dedup.length > 1)) :
    ∃ x, ∀ s ∈ placed.map Placed.square, across (b.mainHorizontal placed) s = x := by
  obtain ⟨p, hp⟩ | hmany : (∃ p, placed = [p]) ∨ ∀ p, placed ≠ [p] := by
    by_cases hone : ∃ p, placed = [p]
    · exact .inl hone
    · exact .inr (not_exists.mp hone)
  · exact ⟨across (b.mainHorizontal placed) p.square, by simp [hp]⟩
  have hmain : b.mainHorizontal placed =
      (((placed.map Placed.square).map Prod.fst).dedup.length == 1 ||
        (placed.map Placed.square).length == 1) := by
    simp only [mainHorizontal]
  have hlen : placed.length ≠ 1 := fun hlen => by
    obtain ⟨p, hp⟩ := List.length_eq_one_iff.mp hlen
    exact hmany p hp
  cases hdir : b.mainHorizontal placed with
  | true =>
    rw [hdir] at hmain
    have hrow : ((placed.map Placed.square).map Prod.fst).dedup.length = 1 := by
      simpa [hlen] using hmain.symm
    obtain ⟨x, hx⟩ := eq_of_dedup_length hrow
    exact ⟨x, fun s hs => hx _ (List.mem_map_of_mem hs)⟩
  | false =>
    rw [hdir] at hmain
    have hrow : ((placed.map Placed.square).map Prod.fst).dedup.length ≠ 1 := by
      simpa [hlen] using hmain.symm
    have hpos : ∀ f : Grid.Square → ℕ, 0 < ((placed.map Placed.square).map f).dedup.length := by
      intro f
      obtain ⟨p, hp⟩ := List.exists_mem_of_ne_nil _ hne
      exact List.length_pos_of_mem (List.mem_dedup.mpr
        (List.mem_map_of_mem (f := f) (List.mem_map_of_mem (f := Placed.square) hp)))
    have := hpos Prod.fst
    have := hpos Prod.snd
    obtain ⟨x, hx⟩ := eq_of_dedup_length
      (show ((placed.map Placed.square).map Prod.snd).dedup.length = 1 by omega)
    exact ⟨x, fun s hs => hx _ (List.mem_map_of_mem hs)⟩

/-- **The main word**: a maximal run of the line on which all tiles of the placement lie. -/
theorem Shaped.main (h : Shaped b placed) :
    let word := b.mainWord placed
    Line.IsRun ((b.place placed).occOn (b.mainHorizontal placed) word.1) word.2.1 word.2.2 ∧
      ∀ s ∈ placed.map Placed.square, across (b.mainHorizontal placed) s = word.1 ∧
        word.2.1 ≤ along (b.mainHorizontal placed) s ∧
        along (b.mainHorizontal placed) s ≤ word.2.2 := by
  intro word
  obtain ⟨x, hx⟩ := exists_line (b := b) h.nonempty h.inLine
  obtain ⟨hfixed, hbounds, ⟨s₁, hs₁, hlo⟩, ⟨s₂, hs₂, hhi⟩⟩ :=
    getMainBounds_spec (b.mainHorizontal placed) (by simpa using h.nonempty) hx
  have hcont := (checkContinuity_iff _ _ _ _ _).mp h.continuous
  have hle : (getMainBounds (placed.map Placed.square) (b.mainHorizontal placed)).2.1 ≤
      (getMainBounds (placed.map Placed.square) (b.mainHorizontal placed)).2.2 :=
    hlo ▸ (hbounds s₁ hs₁).2
  -- the squares between the outermost tiles are part of the word, which has no gap
  obtain ⟨hrun, hstart, hend⟩ := findWordBounds_isRun (b.place placed)
    (getMainBounds (placed.map Placed.square) (b.mainHorizontal placed)).1
    (b.mainHorizontal placed) hle fun i h₁ h₂ => by
      refine hcont i ?_ ?_
      · exact (Line.stretchStart_le _ _).trans h₁
      · exact h₂.trans (Line.le_stretchEnd _ _ _)
  refine ⟨hrun, fun s hs => ⟨(hx s hs).trans hfixed.symm, ?_, ?_⟩⟩
  · exact hstart.trans (hbounds s hs).1
  · exact (hbounds s hs).2.trans hend

theorem crossWord_eq (b : Board) (newPositions : Mask) (horizontal : Bool) (s : Grid.Square) :
    b.crossWord newPositions horizontal s =
      let word := b.findWordBounds (along horizontal s) (across horizontal s)
        (across horizontal s) (!horizontal)
      if word.2 > word.1 then
        some (b.extractWord (along horizontal s) word.1 word.2 (!horizontal) newPositions)
      else none := by
  cases horizontal <;> rfl

/-- **The collected words** are the maximal runs of two or more letters that hold a newly laid
tile. -/
theorem Shaped.mem_collected_iff (h : Shaped b placed) (w : FormedWord) :
    w ∈ b.collected placed ↔ ∃ horizontal fixed s e,
      Line.IsRun ((b.place placed).occOn horizontal fixed) s e ∧ s < e ∧
        (∃ i, s ≤ i ∧ i ≤ e ∧ Grid.onLine horizontal fixed i ∈ placed.map Placed.square) ∧
        w = (b.place placed).extractWord fixed s e horizontal
          (maskOf (placed.map Placed.square)) := by
  obtain ⟨hmain, htiles⟩ := h.main
  have hocc : ∀ s ∈ placed.map Placed.square, (b.place placed).Occupied s := fun s hs =>
    (occupied_place_iff h.fits s).mpr (.inr hs)
  -- the run across the main direction through a newly laid tile
  have hcross : ∀ s ∈ placed.map Placed.square,
      let word := (b.place placed).findWordBounds (along (b.mainHorizontal placed) s)
        (across (b.mainHorizontal placed) s) (across (b.mainHorizontal placed) s)
        (!b.mainHorizontal placed)
      Line.IsRun ((b.place placed).occOn (!b.mainHorizontal placed)
        (along (b.mainHorizontal placed) s)) word.1 word.2 ∧
        word.1 ≤ across (b.mainHorizontal placed) s ∧
        across (b.mainHorizontal placed) s ≤ word.2 := by
    intro s hs
    refine findWordBounds_isRun (b.place placed) _ _ le_rfl fun i h₁ h₂ => ?_
    obtain rfl : i = across (b.mainHorizontal placed) s := by omega
    rw [occOn_iff, onLine_not, onLine_across_along]
    exact hocc s hs
  rw [collected, collectWords, List.mem_append, List.mem_filterMap]
  constructor
  · rintro (hw | ⟨s, hs, hw⟩)
    · split at hw
      · rename_i hlt
        obtain ⟨p, hp⟩ := List.exists_mem_of_ne_nil _ h.nonempty
        have hp' := List.mem_map_of_mem (f := Placed.square) hp
        obtain ⟨hline, hlo, hhi⟩ := htiles _ hp'
        refine ⟨_, _, _, _, hmain, hlt, ⟨_, hlo, hhi, ?_⟩, by simpa using hw⟩
        rwa [← hline, onLine_across_along]
      · simp at hw
    · rw [crossWord_eq] at hw
      simp only at hw
      split at hw
      · rename_i hlt
        obtain ⟨hrun, hlo, hhi⟩ := hcross s hs
        refine ⟨_, _, _, _, hrun, hlt, ⟨_, hlo, hhi, ?_⟩, by simpa using hw.symm⟩
        rwa [onLine_not, onLine_across_along]
      · simp at hw
  · rintro ⟨horizontal, fixed, s, e, hrun, hlt, ⟨i, hsi, hie, hmem⟩, rfl⟩
    by_cases hdir : horizontal = b.mainHorizontal placed
    · -- along the main direction there is one line with new tiles, and one run with them
      subst hdir
      obtain ⟨hline, hlo, hhi⟩ := htiles _ hmem
      rw [across_onLine] at hline
      rw [along_onLine] at hlo hhi
      subst hline
      obtain ⟨hs, he⟩ := hrun.eq_of_mem hmain hsi hie hlo hhi
      subst hs
      subst he
      exact .inl (by simp [hlt])
    · have hnot : horizontal = !b.mainHorizontal placed := by
        cases horizontal <;> cases hd : b.mainHorizontal placed <;> simp_all
      subst hnot
      refine .inr ⟨_, hmem, ?_⟩
      obtain ⟨hrun', hlo, hhi⟩ := hcross _ hmem
      rw [onLine_not] at hrun' hlo hhi
      rw [along_onLine, across_onLine] at hrun' hlo hhi
      obtain ⟨hs, he⟩ := hrun'.eq_of_mem hrun hlo hhi hsi hie
      rw [crossWord_eq, onLine_not, along_onLine, across_onLine]
      simp only
      rw [if_pos (by omega), hs, he]

end Shaped

/-! ## A checked placement -/

section Checked

variable {lex : Lexicon} {b : Board} {placed : List Placed} {skipDictionary : Bool}
  {formed : List FormedWord}

theorem Checked.shaped (h : Checked lex b placed skipDictionary formed) : Shaped b placed :=
  ⟨h.nonempty, h.fits, h.inLine, h.continuous⟩

theorem Checked.formed_eq_collected (h : Checked lex b placed skipDictionary formed) :
    formed = b.collected placed := h.formed_eq

/-- **The formed words** of a checked placement. -/
theorem Checked.mem_formed_iff (h : Checked lex b placed skipDictionary formed)
    (w : FormedWord) :
    w ∈ formed ↔ ∃ horizontal fixed s e,
      Line.IsRun ((b.place placed).occOn horizontal fixed) s e ∧ s < e ∧
        (∃ i, s ≤ i ∧ i ≤ e ∧ Grid.onLine horizontal fixed i ∈ placed.map Placed.square) ∧
        w = (b.place placed).extractWord fixed s e horizontal
          (maskOf (placed.map Placed.square)) := by
  rw [h.formed_eq_collected]
  exact h.shaped.mem_collected_iff w

end Checked

end Board

end ScrabbleMagyar
