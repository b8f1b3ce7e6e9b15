import ScrabbleMagyar.Engine.Legality
import ScrabbleMagyar.Engine.Effects

/-!
# The formed words are exact

What the validation answers with: the words of the maximal runs with a new tile, each of them
once, with their scores (`formed_exact`). So the answer depends neither on the order of the tiles
(`collected_perm`) nor on the direction of the board (`collected_transpose`).
-/

namespace ScrabbleMagyar

/-- A tile mirrored along the diagonal. -/
def Placed.transpose (p : Placed) : Placed := ⟨p.col, p.row, p.letter, p.isBlank⟩

/-- A formed word with its squares mirrored along the diagonal. -/
def FormedWord.transpose (w : FormedWord) : FormedWord :=
  { w with positions := w.positions.map Prod.swap }

theorem FormedWord.transpose_injective : Function.Injective FormedWord.transpose := by
  rintro ⟨word, positions, score⟩ ⟨word', positions', score'⟩ h
  simp only [FormedWord.transpose, FormedWord.mk.injEq] at h
  obtain ⟨rfl, hpositions, rfl⟩ := h
  rw [List.map_injective_iff.mpr Prod.swap_injective hpositions]

/-- A word with its score, without its squares. -/
def FormedWord.worth (w : FormedWord) : Word × ℕ := (w.word, w.score)

namespace Board

section Order

variable {vacant : Prop} {lex : Lexicon} {b : Board} {placed placed' : List Placed}
  {skipDictionary : Bool}

/-! ## The order of the tiles -/

theorem ext_cell {b b' : Board} (hcell : ∀ s : Grid.Square, b.cell s.1 s.2 = b'.cell s.1 s.2)
    (hempty : b.isEmpty = b'.isEmpty) : b = b' := by
  obtain ⟨cells, flag⟩ := b
  obtain ⟨cells', flag'⟩ := b'
  have hcells : cells = cells' := by
    funext r c
    have := hcell (r.val, c.val)
    simpa [cell] using this
  simp only at hempty
  rw [hcells, hempty]

theorem Fits.perm (h : b.Fits placed) (hp : placed.Perm placed') : b.Fits placed' :=
  ⟨fun p hp' => h.on p (hp.mem_iff.mpr hp'), fun p hp' => h.free p (hp.mem_iff.mpr hp'),
    (hp.map Placed.square).nodup_iff.mp h.distinct⟩

/-- The board after a placement does not depend on the order of its tiles. -/
theorem place_perm (h : b.Fits placed) (hp : placed.Perm placed') :
    b.place placed' = b.place placed := by
  have h' := h.perm hp
  refine ext_cell (fun s => ?_) (by simp)
  by_cases hs : s ∈ placed.map Placed.square
  · obtain ⟨p, hmem, rfl⟩ := List.mem_map.mp hs
    rw [cell_place_of_mem b h.on h.distinct hmem,
      cell_place_of_mem b h'.on h'.distinct (hp.mem_iff.mp hmem)]
  · have hs' : s ∉ placed'.map Placed.square := fun hmem =>
      hs ((hp.map Placed.square).mem_iff.mpr hmem)
    rw [cell_place_of_not_mem b hs, cell_place_of_not_mem b hs']

theorem maskOf_perm {l l' : List (ℕ × ℕ)} (h : l.Perm l') : maskOf l' = maskOf l := by
  funext r c
  simp only [maskOf, h.mem_iff]

theorem newRun_perm (h : b.Fits placed) (hp : placed.Perm placed') (horizontal : Bool)
    (fixed s e : ℕ) :
    NewRun b placed' horizontal fixed s e ↔ NewRun b placed horizontal fixed s e := by
  have hmem := fun s => (hp.map Placed.square).mem_iff (a := s)
  constructor
  · rintro ⟨hrun, hlt, i, h₁, h₂, hi⟩
    exact ⟨place_perm h hp ▸ hrun, hlt, i, h₁, h₂, (hmem _).mpr hi⟩
  · rintro ⟨hrun, hlt, i, h₁, h₂, hi⟩
    exact ⟨(place_perm h hp).symm ▸ hrun, hlt, i, h₁, h₂, (hmem _).mp hi⟩

/-- The rules do not look at the order of the tiles. -/
theorem LegalIf.perm (h : LegalIf vacant lex b placed skipDictionary) (hp : placed.Perm placed') :
    LegalIf vacant lex b placed' skipDictionary := by
  have hmem := fun s => (hp.map Placed.square).mem_iff (a := s)
  have hplace := place_perm h.fits hp
  have htiles : ∀ p, p ∈ placed' ↔ p ∈ placed := fun p => hp.mem_iff.symm
  refine ⟨fun hnil => h.nonempty (by simpa [hnil] using hp), ?_, ?_, ?_, ?_, ?_, ?_, ?_, ?_, ?_⟩
  · exact fun p hp' => h.on p ((htiles p).mp hp')
  · exact fun p hp' => h.free p ((htiles p).mp hp')
  · exact (hp.map _).nodup_iff.mp h.distinct
  · simpa only [htiles] using h.inLine
  · intro p hp' q hq s hs
    exact (h.noGap p ((htiles p).mp hp') q ((htiles q).mp hq) s hs).imp_right (hmem s).mp
  · simpa only [htiles, hp.length_eq.symm] using h.first
  · simpa only [htiles] using h.touches
  · intro horizontal fixed i x y hx hy hnew
    rw [hplace] at hx hy
    exact h.unsplit horizontal fixed i x y hx hy (hnew.imp (hmem _).mpr (hmem _).mpr)
  · intro hskip horizontal fixed s e hrun
    rw [hplace]
    exact h.accepted hskip _ _ _ _ ((newRun_perm h.fits hp _ _ _ _).mp hrun)

/-- Tiles in another order form the same words. -/
theorem collected_perm (h : LegalIf vacant lex b placed skipDictionary)
    (hp : placed.Perm placed') : (b.collected placed').Perm (b.collected placed) := by
  have hshaped := h.shaped
  have hshaped' := (h.perm hp).shaped
  refine (List.perm_ext_iff_of_nodup hshaped'.nodup_collected hshaped.nodup_collected).mpr
    fun w => ?_
  rw [hshaped.mem_collected, hshaped'.mem_collected]
  simp only [newRun_perm h.fits hp, place_perm h.fits hp, maskOf_perm (hp.map Placed.square)]

end Order

/-! ## The direction of the board -/

/-- The board mirrored along the diagonal. -/
def transpose (b : Board) : Board := ⟨fun r c => b.cells c r, b.isEmpty⟩

@[simp] theorem cell_transpose (b : Board) (r c : ℕ) : b.transpose.cell r c = b.cell c r := by
  by_cases h : r < 15 ∧ c < 15
  · simp [cell, transpose, h]
  · rw [cell_of_le _ (by omega), cell_of_le _ (by omega)]

theorem setCell_transpose (b : Board) (r c : ℕ) (x : Cell) :
    (b.setCell r c x).transpose = b.transpose.setCell c r x := by
  simp only [transpose, setCell, and_comm]

theorem place_transpose (b : Board) (placed : List Placed) :
    b.transpose.place (placed.map Placed.transpose) = (b.place placed).transpose := by
  induction placed generalizing b with
  | nil => rfl
  | cons p rest ih =>
    rw [List.map_cons, place_cons, place_cons, ← ih, setCell_transpose]
    rfl

theorem onLine_swap (horizontal : Bool) (fixed i : ℕ) :
    (Grid.onLine horizontal fixed i).swap = Grid.onLine (!horizontal) fixed i := by
  cases horizontal <;> rfl

theorem line_transpose (b : Board) (horizontal : Bool) (fixed i : ℕ) :
    b.transpose.line horizontal fixed i = b.line (!horizontal) fixed i := by
  rw [line_eq, line_eq, cell_transpose, ← onLine_swap]
  rfl

theorem occOn_transpose (b : Board) (horizontal : Bool) (fixed : ℕ) :
    b.transpose.occOn horizontal fixed = b.occOn (!horizontal) fixed := by
  funext i
  rw [occOn, occOn, line_transpose]

theorem textOn_transpose (b : Board) (horizontal : Bool) (fixed s e : ℕ) :
    b.transpose.textOn horizontal fixed s e = b.textOn (!horizontal) fixed s e := by
  have htext : ∀ i, b.transpose.textAt (Grid.onLine horizontal fixed i) =
      b.textAt (Grid.onLine (!horizontal) fixed i) := fun i => by
    rw [textAt, textAt, ← line_eq, ← line_eq, line_transpose]
  simp only [textOn, htext]

theorem squares_transpose (placed : List Placed) :
    (placed.map Placed.transpose).map Placed.square = (placed.map Placed.square).map Prod.swap := by
  rw [List.map_map, List.map_map]
  rfl

theorem mem_squares_transpose {placed : List Placed} {s : Grid.Square} :
    s ∈ (placed.map Placed.transpose).map Placed.square ↔ s.swap ∈ placed.map Placed.square := by
  rw [squares_transpose, List.mem_map]
  constructor
  · rintro ⟨t, ht, rfl⟩
    simpa using ht
  · exact fun h => ⟨s.swap, h, Prod.swap_swap s⟩

theorem maskOf_transpose (placed : List Placed) (s : Grid.Square) :
    maskOf ((placed.map Placed.transpose).map Placed.square) s.1 s.2 =
      maskOf (placed.map Placed.square) s.swap.1 s.swap.2 := by
  rw [Bool.eq_iff_iff, mem_of_maskOf, mem_of_maskOf, mem_squares_transpose]

/-- The premium squares are symmetric along the diagonal. -/
theorem premiumAt_symm (r c : ℕ) : premiumAt r c = premiumAt c r := by
  have hboard : ∀ r < 15, ∀ c < 15, premiumAt r c = premiumAt c r := by decide +kernel
  by_cases h : r < 15 ∧ c < 15
  · exact hboard r h.1 c h.2
  · have hoff : ∀ r c, ¬(r < 15 ∧ c < 15) → premiumAt r c = .none := fun r c hrc => by
      simp [premiumAt, boardSize, hrc]
    rw [hoff r c h, hoff c r (by omega)]

theorem letterPoints_transpose (b : Board) (placed : List Placed) (s : Grid.Square) :
    b.transpose.letterPoints (maskOf ((placed.map Placed.transpose).map Placed.square)) s =
      b.letterPoints (maskOf (placed.map Placed.square)) s.swap := by
  simp only [letterPoints, cell_transpose, maskOf_transpose, Prod.fst_swap, Prod.snd_swap,
    premiumAt_symm s.2 s.1]

theorem wordPremium_transpose (placed : List Placed) (s : Grid.Square) :
    wordPremium (maskOf ((placed.map Placed.transpose).map Placed.square)) s =
      wordPremium (maskOf (placed.map Placed.square)) s.swap := by
  simp only [wordPremium, maskOf_transpose, Prod.fst_swap, Prod.snd_swap, premiumAt_symm s.2 s.1]

/-- The word on a run of the mirrored board. -/
theorem runWord_transpose (b : Board) (placed : List Placed) (horizontal : Bool)
    (fixed s e : ℕ) :
    b.transpose.runWord (maskOf ((placed.map Placed.transpose).map Placed.square)) horizontal fixed
        s e =
      FormedWord.transpose (b.runWord (maskOf (placed.map Placed.square)) (!horizontal) fixed
        s e) := by
  have hsquare : Prod.swap ∘ Grid.onLine (!horizontal) fixed = Grid.onLine horizontal fixed := by
    funext i
    rw [Function.comp_apply, onLine_swap, Bool.not_not]
  simp only [runWord, FormedWord.transpose, textOn_transpose, letterPoints_transpose,
    wordPremium_transpose, onLine_swap, FormedWord.mk.injEq, and_true, true_and]
  rw [List.map_map, hsquare]

theorem newRun_transpose (b : Board) (placed : List Placed) (horizontal : Bool)
    (fixed s e : ℕ) :
    NewRun b.transpose (placed.map Placed.transpose) horizontal fixed s e ↔
      NewRun b placed (!horizontal) fixed s e := by
  have hmem : ∀ i, Grid.onLine horizontal fixed i ∈
      (placed.map Placed.transpose).map Placed.square ↔
        Grid.onLine (!horizontal) fixed i ∈ placed.map Placed.square := fun i => by
    rw [mem_squares_transpose, onLine_swap]
  have hocc : (b.transpose.place (placed.map Placed.transpose)).occOn horizontal fixed =
      (b.place placed).occOn (!horizontal) fixed := by
    rw [place_transpose, occOn_transpose]
  constructor
  · rintro ⟨hrun, hlt, i, h₁, h₂, hi⟩
    exact ⟨hocc ▸ hrun, hlt, i, h₁, h₂, (hmem i).mp hi⟩
  · rintro ⟨hrun, hlt, i, h₁, h₂, hi⟩
    exact ⟨hocc ▸ hrun, hlt, i, h₁, h₂, (hmem i).mpr hi⟩

section Direction

variable {vacant : Prop} {lex : Lexicon} {b : Board} {placed : List Placed}
  {skipDictionary : Bool}

theorem occupied_transpose (b : Board) (s : Grid.Square) :
    b.transpose.Occupied s ↔ b.Occupied s.swap := by
  rw [Occupied, Occupied, cell_transpose]
  rfl

theorem between_swap {p q s : Grid.Square} (h : Between p.swap q.swap s) : Between p q s.swap := by
  simp only [Between, Prod.fst_swap, Prod.snd_swap] at h ⊢
  omega

theorem adjacent_swap {s t : Grid.Square} (h : Grid.Adjacent s t) :
    Grid.Adjacent s.swap t.swap := by
  simp only [Grid.Adjacent, Prod.fst_swap, Prod.snd_swap] at h ⊢
  omega

/-- The rules do not look at the direction of the board. -/
theorem LegalIf.transpose (h : LegalIf vacant lex b placed skipDictionary) :
    LegalIf vacant lex b.transpose (placed.map Placed.transpose) skipDictionary := by
  refine ⟨by simpa using h.nonempty, ?_, ?_, ?_, ?_, ?_, ?_, ?_, ?_, ?_⟩
  · intro p hp
    obtain ⟨q, hq, rfl⟩ := List.mem_map.mp hp
    obtain ⟨h₁, h₂, h₃, h₄⟩ := h.on q hq
    exact ⟨h₃, h₄, h₁, h₂⟩
  · intro p hp
    obtain ⟨q, hq, rfl⟩ := List.mem_map.mp hp
    rw [occupied_transpose]
    exact h.free q hq
  · have hswap : (placed.map Placed.transpose).map (fun p => (p.row, p.col)) =
        (placed.map fun p => (p.row, p.col)).map Prod.swap := by
      rw [List.map_map, List.map_map]
      rfl
    rw [hswap]
    exact h.distinct.map Prod.swap_injective
  · simp only [List.forall_mem_map]
    exact h.inLine.symm
  · intro p hp q hq s hs
    obtain ⟨p', hp', rfl⟩ := List.mem_map.mp hp
    obtain ⟨q', hq', rfl⟩ := List.mem_map.mp hq
    rw [occupied_transpose, mem_squares_transpose]
    exact h.noGap p' hp' q' hq' _ (between_swap hs)
  · intro hv
    obtain ⟨hlen, p, hp, hrow, hcol⟩ := h.first hv
    exact ⟨by simpa using hlen, p.transpose, List.mem_map_of_mem hp, hcol, hrow⟩
  · intro hv
    obtain ⟨p, hp, s, hs, hadj⟩ := h.touches hv
    exact ⟨p.transpose, List.mem_map_of_mem hp, s.swap, by simpa [occupied_transpose] using hs,
      adjacent_swap hadj⟩
  · intro horizontal fixed i x y hx hy hnew
    rw [place_transpose, line_transpose] at hx hy
    rw [mem_squares_transpose, mem_squares_transpose, onLine_swap, onLine_swap] at hnew
    exact h.unsplit _ _ _ x y hx hy hnew
  · intro hskip horizontal fixed s e hrun
    rw [place_transpose, textOn_transpose]
    exact h.accepted hskip _ _ _ _ ((newRun_transpose _ _ _ _ _ _).mp hrun)

/-- The mirrored placement forms the mirrored words. -/
theorem collected_transpose (h : LegalIf vacant lex b placed skipDictionary) :
    (b.transpose.collected (placed.map Placed.transpose)).Perm
      ((b.collected placed).map FormedWord.transpose) := by
  have hshaped := h.shaped
  have hshaped' := h.transpose.shaped
  refine (List.perm_ext_iff_of_nodup hshaped'.nodup_collected
    (hshaped.nodup_collected.map FormedWord.transpose_injective)).mpr fun w => ?_
  rw [hshaped'.mem_collected, List.mem_map]
  constructor
  · rintro ⟨horizontal, fixed, s, e, hrun, rfl⟩
    refine ⟨_, (hshaped.mem_collected _).mpr
      ⟨_, _, _, _, (newRun_transpose _ _ _ _ _ _).mp hrun, rfl⟩, ?_⟩
    rw [place_transpose, runWord_transpose]
  · rintro ⟨w, hw, rfl⟩
    obtain ⟨horizontal, fixed, s, e, hrun, rfl⟩ := (hshaped.mem_collected w).mp hw
    refine ⟨!horizontal, fixed, s, e, (newRun_transpose _ _ _ _ _ _).mpr (by simpa using hrun), ?_⟩
    rw [place_transpose, runWord_transpose, Bool.not_not]

end Direction

/-! ## The answer of the validation -/

/-- **The formed words are exact.** An accepted placement forms each maximal run of two or more
letters with a new tile once, and nothing else, with the text, the squares and the score of the
run; a placement scores their sum, and fifty more with seven tiles. Neither the order of the tiles
nor the direction of the board matters. -/
theorem formed_exact {lex : Lexicon} {b : Board} {placed : List Placed} {skipDictionary : Bool}
    {formed : List FormedWord}
    (h : b.validatePlacement lex placed skipDictionary = .ok formed) :
    formed.Nodup ∧
      (∀ w, w ∈ formed ↔ ∃ horizontal fixed s e, NewRun b placed horizontal fixed s e ∧
        w = (b.place placed).runWord (maskOf (placed.map Placed.square)) horizontal fixed s e) ∧
      (∀ (env : Env) (g : Game) (playerId text : String) (score : ℤ), g.board = b →
        (g.placeTiles env playerId placed).2 = .ok (text, score) →
          score = (formed.map fun w => (w.score : ℤ)).sum + if placed.length = 7 then 50 else 0) ∧
      (∀ placed', placed.Perm placed' → ∃ formed',
        b.validatePlacement lex placed' skipDictionary = .ok formed' ∧ formed'.Perm formed) ∧
      ∃ formed', b.transpose.validatePlacement lex (placed.map Placed.transpose) skipDictionary =
          .ok formed' ∧
        (formed'.map FormedWord.worth).Perm (formed.map FormedWord.worth) := by
  obtain ⟨hlegal, rfl⟩ := (validatePlacement_iff _ _ _ _ _).mp h
  refine ⟨hlegal.shaped.nodup_collected, hlegal.shaped.mem_collected, ?_, ?_, ?_⟩
  · rintro env g playerId text score rfl hok
    obtain ⟨e, he⟩ | ⟨formed, hmay⟩ := g.placeTiles_cases env playerId placed
    · rw [he] at hok
      exact absurd hok (by simp)
    · obtain ⟨-, rfl⟩ := (validatePlacement_iff _ _ _ _ _).mp hmay.valid
      have hscore : score = Game.lerakasTotal (g.board.collected placed) placed.length := by
        rw [Game.placeTiles_eq hmay] at hok
        split at hok
        · exact (congrArg Prod.snd (Except.ok.inj hok)).symm
        · exact (congrArg Prod.snd (Except.ok.inj hok)).symm
      exact hscore
  · intro placed' hp
    exact ⟨_, (validatePlacement_iff _ _ _ _ _).mpr ⟨hlegal.perm hp, rfl⟩, collected_perm hlegal hp⟩
  · refine ⟨_, (validatePlacement_iff _ _ _ _ _).mpr ⟨hlegal.transpose, rfl⟩, ?_⟩
    have hperm := (collected_transpose hlegal).map FormedWord.worth
    rwa [List.map_map] at hperm

/-- The words of the first placement of a duel. -/
theorem formed_exact_opening :
    (new.collected Game.duelOpening).Nodup ∧
      new.validatePlacement Lexicon.unavailable Game.duelOpening false =
        .ok (new.collected Game.duelOpening) :=
  have h : new.validatePlacement Lexicon.unavailable Game.duelOpening false =
      .ok (new.collected Game.duelOpening) := by decide +kernel
  ⟨(formed_exact h).1, h⟩

end Board

end ScrabbleMagyar
