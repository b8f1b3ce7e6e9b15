import ScrabbleMagyar.Engine.WordScores

/-!
# The legal placements

The rules of the game for a placement, stated without the phases of the validation
(`Board.Legal`), and that the validation accepts exactly the placements that meet them
(`validatePlacement_ok_iff_legal`).
-/

namespace ScrabbleMagyar

/-- The tiles `x` and `y` side by side spell the tile `t`, which has two letters. -/
def Spells (x y t : Tile) : Prop :=
  x.asStr.length = 1 ∧ y.asStr.length = 1 ∧ t.asStr = x.asStr ++ y.asStr

theorem formsDigraph_iff (x y : Tile) :
    formsDigraph x.asStr y.asStr = true ↔ ∃ t, Spells x y t := by
  have hentry : ∀ e ∈ tileDistribution, ∃ t : Tile, t.asStr = e.1 := by
    intro e he
    obtain ⟨i, hi, rfl⟩ := List.mem_iff_getElem.mp he
    refine ⟨⟨i, hi⟩, ?_⟩
    rw [Tile.asStr, Tile.entry, List.getD_eq_getElem _ _ hi]
  have htile : ∀ t : Tile, t.entry ∈ tileDistribution := fun t =>
    Lists.getD_mem (l := tileDistribution) t.isLt _
  simp only [formsDigraph, Bool.and_eq_true, beq_iff_eq, List.any_eq_true, Spells]
  constructor
  · rintro ⟨⟨hx, hy⟩, e, he, htext, -⟩
    obtain ⟨t, ht⟩ := hentry e he
    exact ⟨t, hx, hy, ht.trans htext⟩
  · rintro ⟨t, hx, hy, ht⟩
    refine ⟨⟨hx, hy⟩, t.entry, htile t, ht, ?_⟩
    change t.asStr.length = 2
    rw [ht, List.length_append, hx, hy]

namespace Board

/-- The square `s` lies between `p` and `q` in a row or in a column, ends included. -/
def Between (p q s : Grid.Square) : Prop :=
  p.1 = s.1 ∧ s.1 = q.1 ∧ p.2 ≤ s.2 ∧ s.2 ≤ q.2 ∨ p.2 = s.2 ∧ s.2 = q.2 ∧ p.1 ≤ s.1 ∧ s.1 ≤ q.1

/-- The rules for a placement, on a board that counts as empty if `vacant`. -/
structure LegalIf (vacant : Prop) (lex : Lexicon) (b : Board) (placed : List Placed)
    (skipDictionary : Bool) : Prop where
  nonempty : placed ≠ []
  on : ∀ p ∈ placed, 0 ≤ p.row ∧ p.row < boardSize ∧ 0 ≤ p.col ∧ p.col < boardSize
  free : ∀ p ∈ placed, ¬b.Occupied p.square
  distinct : (placed.map fun p => (p.row, p.col)).Nodup
  inLine : (∃ row, ∀ p ∈ placed, p.row = row) ∨ ∃ col, ∀ p ∈ placed, p.col = col
  noGap : ∀ p ∈ placed, ∀ q ∈ placed, ∀ s, Between p.square q.square s →
    b.Occupied s ∨ s ∈ placed.map Placed.square
  first : vacant → 2 ≤ placed.length ∧ ∃ p ∈ placed, p.row = center ∧ p.col = center
  touches : ¬vacant → ∃ p ∈ placed, ∃ s, b.Occupied s ∧ Grid.Adjacent p.square s
  unsplit : ∀ horizontal fixed i x y,
    (b.place placed).line horizontal fixed i = some x →
    (b.place placed).line horizontal fixed (i + 1) = some y →
    Grid.onLine horizontal fixed i ∈ placed.map Placed.square ∨
      Grid.onLine horizontal fixed (i + 1) ∈ placed.map Placed.square →
    ∀ t, ¬Spells x.letter y.letter t
  accepted : skipDictionary = false → ∀ horizontal fixed s e, NewRun b placed horizontal fixed s e →
    lex.accepts ((b.place placed).textOn horizontal fixed s e) = true

/-- **The rules for a placement.** -/
abbrev Legal (lex : Lexicon) (b : Board) (placed : List Placed) (skipDictionary : Bool) : Prop :=
  LegalIf (∀ s, ¬b.Occupied s) lex b placed skipDictionary

theorem LegalIf.congr {vacant vacant' : Prop} {lex : Lexicon} {b : Board} {placed : List Placed}
    {skipDictionary : Bool} (h : LegalIf vacant lex b placed skipDictionary)
    (hv : vacant ↔ vacant') : LegalIf vacant' lex b placed skipDictionary :=
  propext hv ▸ h

/-! ## Letters by signed coordinates -/

theorem onBoard_iff {p : Placed} : onBoard p.row p.col = true ↔
    0 ≤ p.row ∧ p.row < boardSize ∧ 0 ≤ p.col ∧ p.col < boardSize := by
  simp [onBoard, boardSize]

theorem hasLetter_iff (b : Board) (row col : ℤ) :
    b.hasLetter row col = true ↔ ∃ s : Grid.Square, (s.1 : ℤ) = row ∧ (s.2 : ℤ) = col ∧
      b.Occupied s := by
  by_cases hon : onBoard row col = true
  · have hget : b.hasLetter row col = (b.cell row.toNat col.toNat).isSome := by
      simp [hasLetter, get, hon]
    simp only [onBoard, decide_eq_true_eq] at hon
    rw [hget]
    constructor
    · exact fun h => ⟨(row.toNat, col.toNat), by simp only; omega, by simp only; omega, h⟩
    · rintro ⟨s, rfl, rfl, hs⟩
      simpa [Occupied] using hs
  · simp only [hasLetter, get, hon, Bool.false_eq_true, if_false, Option.isSome_none, false_iff]
    rintro ⟨s, rfl, rfl, hs⟩
    have := occupied_lt hs
    simp only [onBoard, decide_eq_true_eq] at hon
    omega

/-- A square next to one that was there before passes the check of the neighbours. -/
theorem checkAdjacency_of_exists {b : Board} {positions : List (ℕ × ℕ)} {s t : Grid.Square}
    (hs : s ∈ positions) (hadj : Grid.Adjacent s t) (ht : t ∉ positions) (hocc : b.Occupied t) :
    b.checkAdjacency positions (maskOf positions) = true := by
  have hlt := occupied_lt hocc
  simp only [checkAdjacency, List.any_eq_true]
  refine ⟨s, hs, ((t.1 : ℤ) - s.1, (t.2 : ℤ) - s.2), ?_, ?_⟩
  · simp only [List.mem_cons, Prod.mk.injEq, List.not_mem_nil, or_false]
    simp only [Grid.Adjacent] at hadj
    omega
  · have hon : onBoard t.1 t.2 = true := by
      simp only [onBoard, decide_eq_true_eq]
      omega
    have hletter : b.hasLetter t.1 t.2 = true := (hasLetter_iff _ _ _).mpr ⟨t, rfl, rfl, hocc⟩
    simpa [hon, hletter, maskOf] using ht

/-! ## An accepted placement is legal -/

section Legal

variable {lex : Lexicon} {b : Board} {placed : List Placed} {skipDictionary : Bool}
  {formed : List FormedWord}

theorem Fits.distinct_iff (hon : ∀ p ∈ placed, onBoard p.row p.col = true) :
    (placed.map Placed.square).Nodup ↔ (placed.map fun p => (p.row, p.col)).Nodup := by
  have hcoords : placed.map (fun p => (p.row, p.col)) =
      (placed.map Placed.square).map fun s => ((s.1 : ℤ), (s.2 : ℤ)) := by
    rw [List.map_map]
    exact List.map_congr_left fun p hp => Placed.square_eq (hon p hp)
  have hinj : Function.Injective fun s : Grid.Square => ((s.1 : ℤ), (s.2 : ℤ)) := by
    intro s t hst
    simp only [Prod.mk.injEq] at hst
    exact Prod.ext (by omega) (by omega)
  rw [hcoords, List.nodup_map_iff hinj]

theorem fits_iff : b.Fits placed ↔
    (∀ p ∈ placed, 0 ≤ p.row ∧ p.row < boardSize ∧ 0 ≤ p.col ∧ p.col < boardSize) ∧
      (∀ p ∈ placed, ¬b.Occupied p.square) ∧ (placed.map fun p => (p.row, p.col)).Nodup := by
  constructor
  · intro h
    exact ⟨fun p hp => onBoard_iff.mp (h.on p hp), fun p hp => by simp [Occupied, h.free p hp],
      (Fits.distinct_iff h.on).mp h.distinct⟩
  · rintro ⟨hon, hfree, hdistinct⟩
    have hon' : ∀ p ∈ placed, onBoard p.row p.col = true := fun p hp =>
      onBoard_iff.mpr (hon p hp)
    exact ⟨hon', fun p hp => by simpa [Occupied] using hfree p hp,
      (Fits.distinct_iff hon').mpr hdistinct⟩

/-- Between two tiles of the placement there is no free square. -/
theorem Shaped.noGap (h : Shaped b placed) {p q : Placed} (hp : p ∈ placed) (hq : q ∈ placed)
    {s : Grid.Square} (hs : Between p.square q.square s) :
    b.Occupied s ∨ s ∈ placed.map Placed.square := by
  obtain ⟨hrun, htiles⟩ := h.main
  obtain ⟨hp₁, hp₂, hp₃⟩ := htiles _ (List.mem_map_of_mem hp)
  obtain ⟨hq₁, hq₂, hq₃⟩ := htiles _ (List.mem_map_of_mem hq)
  rw [← occupied_place_iff h.fits, ← onLine_across_along (b.mainHorizontal placed) s]
  have hline : across (b.mainHorizontal placed) s = (b.mainWord placed).1 ∧
      (b.mainWord placed).2.1 ≤ along (b.mainHorizontal placed) s ∧
      along (b.mainHorizontal placed) s ≤ (b.mainWord placed).2.2 := by
    cases hdir : b.mainHorizontal placed <;> rw [hdir] at hp₁ hp₂ hp₃ hq₁ hq₂ hq₃ <;>
      simp only [across, along, Bool.false_eq_true, if_false, if_true] at hp₁ hp₂ hp₃ hq₁ hq₂ hq₃ ⊢ <;>
      simp only [Between] at hs <;> omega
  rw [hline.1]
  exact (occOn_iff _ _ _ _).mp (hrun.full _ hline.2.1 hline.2.2)

/-- The tiles of a shaped placement lie in one row or in one column. -/
theorem Shaped.row_or_col (h : Shaped b placed) :
    (∃ row : ℤ, ∀ p ∈ placed, p.row = row) ∨ ∃ col : ℤ, ∀ p ∈ placed, p.col = col := by
  obtain ⟨x, hx⟩ := exists_line (b := b) h.nonempty h.inLine
  have hsquare : ∀ p ∈ placed, p.row = p.square.1 ∧ p.col = p.square.2 := fun p hp => by
    simpa using Placed.square_eq (h.fits.on p hp)
  cases hdir : b.mainHorizontal placed with
  | true =>
    refine .inl ⟨x, fun p hp => ?_⟩
    have := hx _ (List.mem_map_of_mem hp)
    simp only [hdir, across, if_true] at this
    rw [(hsquare p hp).1, this]
  | false =>
    refine .inr ⟨x, fun p hp => ?_⟩
    have := hx _ (List.mem_map_of_mem hp)
    simp only [hdir, across, Bool.false_eq_true, if_false] at this
    rw [(hsquare p hp).2, this]

/-- The tile on a square and its text. -/
theorem textAt_of_line {b : Board} {horizontal : Bool} {fixed i : ℕ} {x : Cell}
    (h : b.line horizontal fixed i = some x) :
    b.Occupied (Grid.onLine horizontal fixed i) ∧
      b.textAt (Grid.onLine horizontal fixed i) = x.letter.asStr := by
  rw [line_eq] at h
  simp [Occupied, textAt, h]

/-- **An accepted placement is legal.** -/
theorem Checked.legal (h : Checked lex b placed skipDictionary formed) :
    LegalIf (b.isEmpty = true) lex b placed skipDictionary := by
  obtain ⟨hon, hfree, hdistinct⟩ := fits_iff.mp h.fits
  refine ⟨h.nonempty, hon, hfree, hdistinct, h.shaped.row_or_col, fun p hp q hq s hs =>
    h.shaped.noGap hp hq hs, ?_, ?_, ?_, ?_⟩
  · intro hempty
    obtain ⟨hcenter, hlen⟩ := h.first hempty
    obtain ⟨p, hp, hsq⟩ := List.mem_map.mp (mem_of_maskOf (s := (center, center)) |>.mp hcenter)
    obtain ⟨hrow, hcol⟩ : p.row = p.square.1 ∧ p.col = p.square.2 := by
      simpa using Placed.square_eq (h.fits.on p hp)
    rw [hsq] at hrow hcol
    exact ⟨hlen, p, hp, hrow, hcol⟩
  · intro hempty
    obtain ⟨s, hs, t, hadj, ht, hocc⟩ := exists_of_checkAdjacency (h.touches (by simpa using hempty))
    obtain ⟨p, hp, rfl⟩ := List.mem_map.mp hs
    exact ⟨p, hp, t, ((occupied_place_iff h.fits t).mp hocc).resolve_right ht, hadj⟩
  · intro horizontal fixed i x y hx hy hnew t hspells
    obtain ⟨hi, hxtext⟩ := textAt_of_line hx
    obtain ⟨hi', hytext⟩ := textAt_of_line hy
    have hunsplit := h.unsplit_of_new hi hi' hnew
    rw [hxtext, hytext, (formsDigraph_iff _ _).mpr ⟨t, hspells⟩] at hunsplit
    exact absurd hunsplit (by simp)
  · intro hskip horizontal fixed s e hrun
    have hmem := (h.shaped.mem_collected _).mpr ⟨horizontal, fixed, s, e, hrun, rfl⟩
    rw [← h.formed_eq_collected] at hmem
    exact h.accepted hskip _ hmem

/-! ## A legal placement is accepted -/

theorem length_dedup_le {l : List ℕ} {x : ℕ} (h : ∀ y ∈ l, y = x) : l.dedup.length ≤ 1 := by
  have hsub : l.dedup ⊆ [x] := fun y hy => by simp [h y (List.mem_dedup.mp hy)]
  simpa using ((List.nodup_dedup l).subperm hsub).length_le

theorem LegalIf.fits {vacant : Prop} (h : LegalIf vacant lex b placed skipDictionary) :
    b.Fits placed :=
  fits_iff.mpr ⟨h.on, h.free, h.distinct⟩

/-- A legal placement is in one line without a gap. -/
theorem LegalIf.shaped {vacant : Prop} (h : LegalIf vacant lex b placed skipDictionary) :
    Shaped b placed := by
  have hline : ¬(((placed.map Placed.square).map Prod.fst).dedup.length > 1 ∧
      ((placed.map Placed.square).map Prod.snd).dedup.length > 1) := by
    rintro ⟨hrows, hcols⟩
    obtain ⟨row, hrow⟩ | ⟨col, hcol⟩ := h.inLine
    · have := length_dedup_le (l := (placed.map Placed.square).map Prod.fst) (x := row.toNat) (by
        simpa [Placed.square] using fun p hp => by rw [hrow p hp])
      omega
    · have := length_dedup_le (l := (placed.map Placed.square).map Prod.snd) (x := col.toNat) (by
        simpa [Placed.square] using fun p hp => by rw [hcol p hp])
      omega
  refine ⟨h.nonempty, h.fits, hline, ?_⟩
  obtain ⟨x, hx⟩ := exists_line (b := b) h.nonempty hline
  obtain ⟨hfixed, hbounds, ⟨s₁, hs₁, hlo⟩, ⟨s₂, hs₂, hhi⟩⟩ :=
    getMainBounds_spec (b.mainHorizontal placed) (by simpa using h.nonempty) hx
  have hle := (hbounds s₁ hs₁).2
  rw [hlo] at hle
  -- between the outermost tiles there is no gap, and the bounds only add letters
  obtain ⟨hrun, -, -⟩ := findWordBounds_isRun (b.place placed)
    (getMainBounds (placed.map Placed.square) (b.mainHorizontal placed)).1
    (b.mainHorizontal placed) hle fun i h₁ h₂ => by
      rw [occOn_iff, occupied_place_iff h.fits]
      obtain ⟨p, hp, hsq₁⟩ := List.mem_map.mp hs₁
      obtain ⟨q, hq, hsq₂⟩ := List.mem_map.mp hs₂
      have hp' := hx _ hs₁
      have hq' := hx _ hs₂
      refine h.noGap p hp q hq _ ?_
      rw [hsq₁, hsq₂, hfixed]
      cases hdir : b.mainHorizontal placed <;> rw [hdir] at hlo hhi h₁ h₂ hp' hq' <;>
        simp only [across, along, Bool.false_eq_true, if_false, if_true] at hlo hhi hp' hq' <;>
        simp only [Between, Grid.onLine, Bool.false_eq_true, if_false, if_true] <;> omega
  exact (checkContinuity_iff _ _ _ _ _).mpr hrun.full

theorem exists_onLine_of_adjacent {s t : Grid.Square} (h : Grid.Adjacent s t) :
    ∃ horizontal fixed i,
      s = Grid.onLine horizontal fixed i ∧ t = Grid.onLine horizontal fixed (i + 1) ∨
        t = Grid.onLine horizontal fixed i ∧ s = Grid.onLine horizontal fixed (i + 1) := by
  obtain ⟨r, c⟩ := s
  obtain ⟨r', c'⟩ := t
  obtain ⟨hr, hc | hc⟩ | ⟨hc, hr | hr⟩ := h <;> simp only at hr hc
  · exact ⟨true, r, c, .inl ⟨rfl, by simp [Grid.onLine, hr, hc]⟩⟩
  · exact ⟨true, r, c', .inr ⟨by simp [Grid.onLine, hr], by simp [Grid.onLine, hc]⟩⟩
  · exact ⟨false, c, r, .inl ⟨rfl, by simp [Grid.onLine, hr, hc]⟩⟩
  · exact ⟨false, c, r', .inr ⟨by simp [Grid.onLine, hc], by simp [Grid.onLine, hr]⟩⟩

/-- Two neighbours, one of them new, are part of a formed word. -/
theorem exists_newRun {horizontal : Bool} {fixed i : ℕ}
    (hi : (b.place placed).Occupied (Grid.onLine horizontal fixed i))
    (hi' : (b.place placed).Occupied (Grid.onLine horizontal fixed (i + 1)))
    (hnew : Grid.onLine horizontal fixed i ∈ placed.map Placed.square ∨
      Grid.onLine horizontal fixed (i + 1) ∈ placed.map Placed.square) :
    ∃ s e, NewRun b placed horizontal fixed s e ∧ s ≤ i ∧ i < e := by
  obtain ⟨s, e, hrun, hs, he⟩ := Line.exists_isRun
    (fun j hj => occOn_of_le (b.place placed) horizontal fixed hj)
    ((occOn_iff (b.place placed) horizontal fixed i).mpr hi)
  have he' : i < e := by
    by_contra hlt
    obtain rfl : i = e := by omega
    exact absurd (((occOn_iff _ _ _ _).mpr hi').symm.trans hrun.after) (by simp)
  refine ⟨s, e, ⟨hrun, by omega, ?_⟩, hs, he'⟩
  obtain hnew | hnew := hnew
  · exact ⟨i, hs, he, hnew⟩
  · exact ⟨i + 1, by omega, by omega, hnew⟩

/-- A legal placement forms a word: on an empty board of its own tiles, else with the old letter
it touches. -/
theorem LegalIf.collected_ne {vacant : Prop} (h : LegalIf vacant lex b placed skipDictionary) :
    b.collected placed ≠ [] := by
  suffices hrun : ∃ horizontal fixed s e, NewRun b placed horizontal fixed s e by
    obtain ⟨horizontal, fixed, s, e, hrun⟩ := hrun
    exact List.ne_nil_of_mem ((h.shaped.mem_collected _).mpr ⟨horizontal, fixed, s, e, hrun, rfl⟩)
  have hocc := occupied_place_iff h.fits
  by_cases hvacant : vacant
  · obtain ⟨hlen, -⟩ := h.first hvacant
    obtain ⟨hrun, htiles⟩ := h.shaped.main
    obtain ⟨p, q, rest, rfl⟩ : ∃ p q rest, placed = p :: q :: rest := by
      cases placed with
      | nil => simp at hlen
      | cons p rest =>
        cases rest with
        | nil => simp at hlen
        | cons q rest => exact ⟨p, q, rest, rfl⟩
    have hne : p.square ≠ q.square := fun heq => by
      have := h.fits.distinct
      simp [heq] at this
    obtain ⟨hp₁, hp₂, hp₃⟩ := htiles p.square (by simp)
    obtain ⟨hq₁, hq₂, hq₃⟩ := htiles q.square (by simp)
    have halong : along (b.mainHorizontal (p :: q :: rest)) p.square ≠
        along (b.mainHorizontal (p :: q :: rest)) q.square := fun heq => by
      refine hne ?_
      rw [← onLine_across_along (b.mainHorizontal (p :: q :: rest)) p.square, hp₁, heq, ← hq₁,
        onLine_across_along]
    refine ⟨_, _, _, _, hrun, by omega, _, hp₂, hp₃, ?_⟩
    rw [← hp₁, onLine_across_along]
    simp
  · obtain ⟨p, hp, s, hs, hadj⟩ := h.touches hvacant
    have hp' : p.square ∈ placed.map Placed.square := List.mem_map_of_mem hp
    have hp'' := (hocc _).mpr (.inr hp')
    have hs' := (hocc s).mpr (.inl hs)
    obtain ⟨horizontal, fixed, i, ⟨h₁, h₂⟩ | ⟨h₁, h₂⟩⟩ := exists_onLine_of_adjacent hadj
    · obtain ⟨lo, hi, hrun, -, -⟩ := exists_newRun (h₁ ▸ hp'') (h₂ ▸ hs') (.inl (h₁ ▸ hp'))
      exact ⟨_, _, _, _, hrun⟩
    · obtain ⟨lo, hi, hrun, -, -⟩ := exists_newRun (h₁ ▸ hs') (h₂ ▸ hp'') (.inr (h₂ ▸ hp'))
      exact ⟨_, _, _, _, hrun⟩

theorem exists_of_mem_zip_tail_map {α : Type*} {f : ℕ → α} {s e : ℕ} {x y : α}
    (h : (x, y) ∈ ((List.range' s (e + 1 - s)).map f).zip
      ((List.range' s (e + 1 - s)).map f).tail) :
    ∃ i, s ≤ i ∧ i < e ∧ x = f i ∧ y = f (i + 1) := by
  obtain ⟨k, hk, hget⟩ := List.mem_iff_getElem.mp h
  simp only [List.length_zip, List.length_map, List.length_range', List.length_tail] at hk
  simp only [List.getElem_zip, List.getElem_tail, List.getElem_map, List.getElem_range',
    Prod.mk.injEq, one_mul] at hget
  exact ⟨s + k, by omega, by omega, hget.1.symm, hget.2.symm⟩

/-- A legal placement splits no digraph in any word of the line it is part of. -/
theorem LegalIf.findSplitDigraph_eq {vacant : Prop}
    (h : LegalIf vacant lex b placed skipDictionary) :
    (b.place placed).findSplitDigraph (b.collected placed) (maskOf (placed.map Placed.square)) =
      none := by
  refine List.findSome?_eq_none_iff.mpr fun w hw => List.findSome?_eq_none_iff.mpr ?_
  rintro ⟨first, second⟩ hpair
  obtain ⟨horizontal, fixed, s, e, hrun, rfl⟩ := (h.shaped.mem_collected w).mp hw
  obtain ⟨i, hs, he, rfl, rfl⟩ := exists_of_mem_zip_tail_map hpair
  obtain ⟨x, hx⟩ := Option.isSome_iff_exists.mp (hrun.run.full i hs (by omega))
  obtain ⟨y, hy⟩ := Option.isSome_iff_exists.mp (hrun.run.full (i + 1) (by omega) he)
  simp only
  split_ifs with hold hsplit
  · rfl
  · have hnew : Grid.onLine horizontal fixed i ∈ placed.map Placed.square ∨
        Grid.onLine horizontal fixed (i + 1) ∈ placed.map Placed.square := by
      rw [← mem_of_maskOf, ← mem_of_maskOf]
      by_contra hnone
      exact hold (by simpa using hnone)
    rw [(textAt_of_line hx).2, (textAt_of_line hy).2, formsDigraph_iff] at hsplit
    obtain ⟨t, ht⟩ := hsplit
    exact absurd ht (h.unsplit horizontal fixed i x y hx hy hnew t)
  · rfl

/-- **A legal placement passes the checks.** -/
theorem LegalIf.checked (h : LegalIf (b.isEmpty = true) lex b placed skipDictionary) :
    Checked lex b placed skipDictionary (b.collected placed) := by
  have hshaped := h.shaped
  have hold : b.isEmpty = false → ∃ p ∈ placed, ∃ s, b.Occupied s ∧ Grid.Adjacent p.square s :=
    fun hempty => h.touches (by simp [hempty])
  refine ⟨h.nonempty, h.fits, hshaped.inLine, ?_, ?_, hshaped.continuous, ?_, rfl, h.collected_ne,
    h.findSplitDigraph_eq, ?_⟩
  · intro hempty
    obtain ⟨hlen, p, hp, hrow, hcol⟩ := h.first hempty
    refine ⟨mem_of_maskOf (s := (center, center)) |>.mpr (List.mem_map.mpr ⟨p, hp, ?_⟩), hlen⟩
    simp [Placed.square, hrow, hcol]
  · rintro p rfl hempty
    obtain ⟨q, hq, s, hs, hadj⟩ := hold hempty
    obtain rfl : q = p := by simpa using hq
    have hs' := (occupied_place_iff h.fits s).mpr (.inl hs)
    obtain ⟨hrow, hcol⟩ : q.row = q.square.1 ∧ q.col = q.square.2 := by
      simpa using Placed.square_eq (h.fits.on q (by simp))
    -- one of the four neighbours holds the letter that the tile touches
    have hletter : (b.place [q]).hasLetter s.1 s.2 = true :=
      (hasLetter_iff _ _ _).mpr ⟨s, rfl, rfl, hs'⟩
    obtain ⟨hr, hc | hc⟩ | ⟨hc, hr | hr⟩ := hadj
    · rw [show (s.1 : ℤ) = q.row by omega, show (s.2 : ℤ) = q.col + 1 by omega] at hletter
      simp [determineDirectionSingle, hletter]
    · rw [show (s.1 : ℤ) = q.row by omega, show (s.2 : ℤ) = q.col - 1 by omega] at hletter
      simp [determineDirectionSingle, hletter]
    · rw [show (s.1 : ℤ) = q.row + 1 by omega, show (s.2 : ℤ) = q.col by omega] at hletter
      simp [determineDirectionSingle, hletter]
    · rw [show (s.1 : ℤ) = q.row - 1 by omega, show (s.2 : ℤ) = q.col by omega] at hletter
      simp [determineDirectionSingle, hletter]
  · intro hempty
    obtain ⟨p, hp, s, hs, hadj⟩ := hold hempty
    have hnew : s ∉ placed.map Placed.square := fun hmem => by
      obtain ⟨q, hq, rfl⟩ := List.mem_map.mp hmem
      exact h.free q hq hs
    exact checkAdjacency_of_exists (List.mem_map_of_mem hp) hadj hnew
      ((occupied_place_iff h.fits s).mpr (.inl hs))
  · intro hskip w hw
    obtain ⟨horizontal, fixed, s, e, hrun, rfl⟩ := (hshaped.mem_collected w).mp hw
    exact h.accepted hskip horizontal fixed s e hrun

/-- What the validation accepts, on any board with any emptiness flag, and its answer. -/
theorem validatePlacement_iff (lex : Lexicon) (b : Board) (placed : List Placed)
    (skipDictionary : Bool) (formed : List FormedWord) :
    b.validatePlacement lex placed skipDictionary = .ok formed ↔
      LegalIf (b.isEmpty = true) lex b placed skipDictionary ∧ formed = b.collected placed := by
  rw [validatePlacement_ok_iff]
  constructor
  · exact fun h => ⟨h.legal, h.formed_eq_collected⟩
  · rintro ⟨h, rfl⟩
    exact h.checked

/-- **The validation accepts exactly the legal placements**: for every board whose flag says
whether it is empty. -/
theorem validatePlacement_ok_iff_legal (lex : Lexicon) {b : Board}
    (hflag : b.isEmpty = true ↔ ∀ s, ¬b.Occupied s) (placed : List Placed)
    (skipDictionary : Bool) :
    (∃ formed, b.validatePlacement lex placed skipDictionary = .ok formed) ↔
      Legal lex b placed skipDictionary := by
  simp only [validatePlacement_iff, exists_and_left, exists_eq, and_true]
  exact ⟨fun h => h.congr hflag, fun h => h.congr hflag.symm⟩

/-- The first placement of a duel is legal. -/
theorem validatePlacement_ok_iff_legal_opening :
    Legal Lexicon.unavailable new Game.duelOpening false :=
  (validatePlacement_ok_iff_legal Lexicon.unavailable wellFormed_new.flag Game.duelOpening false).mp
    ⟨new.collected Game.duelOpening, by decide +kernel⟩

end Legal

end Board

end ScrabbleMagyar
