import ScrabbleMagyar.Engine.Coherence
import ScrabbleMagyar.Engine.Placement

/-!
# The shape of the board

The validation of a placement looks at the words it forms only, but what it ensures holds of the
whole board: it hangs together around the centre, no digraph is spelled with two tiles, and,
where the dictionary decides, every word on it is accepted.

* `Board.WellFormed`, `Board.WordsAccepted`: the invariants.
* `Checked.wellFormed`, `Checked.wordsAccepted`: a checked placement keeps them.
* `Game.reachable_board`: they hold in every reachable game.
-/

namespace ScrabbleMagyar

namespace Board

/-! ## Extracted words -/

/-- The text on the squares `s..=e` of a line. -/
def textOn (b : Board) (horizontal : Bool) (fixed s e : ℕ) : Word :=
  (List.range' s (e + 1 - s)).flatMap fun i => b.textAt (Grid.onLine horizontal fixed i)

theorem scanSquare_word (b : Board) (fixed : ℕ) (horizontal : Bool) (newPositions : Mask)
    (scan : WordScan) (i : ℕ) :
    (b.scanSquare fixed horizontal newPositions scan i).word =
      scan.word ++ b.textAt (Grid.onLine horizontal fixed i) := by
  simp only [scanSquare, textAt, ← line_eq]
  cases b.line horizontal fixed i <;> simp

theorem scanSquare_positions (b : Board) {fixed : ℕ} {horizontal : Bool} (newPositions : Mask)
    (scan : WordScan) {i : ℕ} (h : b.occOn horizontal fixed i = true) :
    (b.scanSquare fixed horizontal newPositions scan i).positions =
      scan.positions ++ [Grid.onLine horizontal fixed i] := by
  obtain ⟨cell, hcell⟩ := Option.isSome_iff_exists.mp h
  simp [scanSquare, hcell]

theorem extractWord_word (b : Board) (fixed s e : ℕ) (horizontal : Bool) (newPositions : Mask) :
    (b.extractWord fixed s e horizontal newPositions).word = b.textOn horizontal fixed s e := by
  have hfold (l : List ℕ) (scan : WordScan) :
      (l.foldl (b.scanSquare fixed horizontal newPositions) scan).word =
        scan.word ++ l.flatMap fun i => b.textAt (Grid.onLine horizontal fixed i) := by
    induction l generalizing scan with
    | nil => simp
    | cons i l ih => simp [ih, scanSquare_word]
  exact hfold _ _

theorem extractWord_positions (b : Board) {fixed s e : ℕ} {horizontal : Bool}
    (newPositions : Mask) (hfull : ∀ i, s ≤ i → i ≤ e → b.occOn horizontal fixed i = true) :
    (b.extractWord fixed s e horizontal newPositions).positions =
      (List.range' s (e + 1 - s)).map (Grid.onLine horizontal fixed) := by
  have hfold (l : List ℕ) (scan : WordScan) (hl : ∀ i ∈ l, b.occOn horizontal fixed i = true) :
      (l.foldl (b.scanSquare fixed horizontal newPositions) scan).positions =
        scan.positions ++ l.map (Grid.onLine horizontal fixed) := by
    induction l generalizing scan with
    | nil => simp
    | cons i l ih =>
      rw [List.foldl_cons, ih _ fun j hj => hl j (by simp [hj]),
        scanSquare_positions b newPositions scan (hl i (by simp))]
      simp
  refine hfold _ _ fun i hi => ?_
  obtain ⟨h₁, h₂⟩ := List.mem_range'_1.mp hi
  exact hfull i h₁ (by omega)

/-! ## Invariants of the board -/

/-- The board hangs together around the centre, and no digraph is spelled with two tiles. -/
structure WellFormed (b : Board) : Prop where
  flag : b.isEmpty = true ↔ ∀ s, ¬b.Occupied s
  connected : Grid.Connected b.Occupied
  centre : (∃ s, b.Occupied s) → b.Occupied (center, center)
  unsplit : ∀ horizontal fixed i, formsDigraph (b.textAt (Grid.onLine horizontal fixed i))
    (b.textAt (Grid.onLine horizontal fixed (i + 1))) = false

/-- Every run of two or more letters is a word of the dictionary. -/
def WordsAccepted (lex : Lexicon) (b : Board) : Prop :=
  ∀ horizontal fixed s e, Line.IsRun (b.occOn horizontal fixed) s e → s < e →
    lex.accepts (b.textOn horizontal fixed s e) = true

theorem textAt_of_free {b : Board} {s : Grid.Square} (h : ¬b.Occupied s) : b.textAt s = [] := by
  have hnone : b.cell s.1 s.2 = none := by simpa [Occupied] using h
  simp [textAt, hnone]

theorem formsDigraph_of_free {b : Board} {s t : Grid.Square} (h : ¬b.Occupied s ∨ ¬b.Occupied t) :
    formsDigraph (b.textAt s) (b.textAt t) = false := by
  obtain h | h := h <;> simp [formsDigraph, textAt_of_free h]

theorem not_occupied_new (s : Grid.Square) : ¬new.Occupied s := by
  simp [Occupied, cell, new]

theorem wellFormed_new : WellFormed new where
  flag := ⟨fun _ => not_occupied_new, fun _ => rfl⟩
  connected := fun s _ hs => absurd hs (not_occupied_new s)
  centre := fun ⟨s, hs⟩ => absurd hs (not_occupied_new s)
  unsplit := fun _ _ _ => formsDigraph_of_free (.inl (not_occupied_new _))

theorem wordsAccepted_new (lex : Lexicon) : WordsAccepted lex new := by
  intro horizontal fixed s e hrun
  have hocc := (occOn_iff _ _ _ _).mp (hrun.full s le_rfl hrun.le)
  exact absurd hocc (not_occupied_new _)

/-! ## A checked placement -/

theorem textAt_place_of_not_mem (b : Board) {placed : List Placed} {s : Grid.Square}
    (h : s ∉ placed.map Placed.square) : (b.place placed).textAt s = b.textAt s := by
  simp only [textAt, cell_place_of_not_mem b h]

theorem mem_of_maskOf {positions : List (ℕ × ℕ)} {s : Grid.Square} :
    maskOf positions s.1 s.2 = true ↔ s ∈ positions := by
  simp [maskOf]

/-- The check of the neighbours finds a square laid next to one that was there before. -/
theorem exists_of_checkAdjacency {b : Board} {positions : List (ℕ × ℕ)}
    (h : b.checkAdjacency positions (maskOf positions) = true) :
    ∃ s ∈ positions, ∃ t, Grid.Adjacent s t ∧ t ∉ positions ∧ b.Occupied t := by
  simp only [checkAdjacency, List.any_eq_true] at h
  obtain ⟨⟨r, c⟩, hs, ⟨dr, dc⟩, hd, hnext⟩ := h
  simp only [Bool.and_eq_true, Bool.not_eq_true', onBoard, decide_eq_true_eq] at hnext
  obtain ⟨⟨hon, hold⟩, hocc⟩ := hnext
  refine ⟨(r, c), hs, (((r : ℤ) + dr).toNat, ((c : ℤ) + dc).toNat), ?_, ?_, ?_⟩
  · simp only [List.mem_cons, Prod.mk.injEq, List.not_mem_nil, or_false] at hd
    simp only [Grid.Adjacent]
    omega
  · simpa [maskOf] using hold
  · simpa [hasLetter, get, onBoard, hon, Occupied] using hocc

section Checked

variable {lex : Lexicon} {b : Board} {placed : List Placed} {skipDictionary : Bool}
  {formed : List FormedWord}

/-- The tiles of a placement are linked along their run. -/
theorem Checked.linked (h : Checked lex b placed skipDictionary formed) {s t : Grid.Square}
    (hs : s ∈ placed.map Placed.square) (ht : t ∈ placed.map Placed.square) :
    Grid.Linked (b.place placed).Occupied s t := by
  obtain ⟨hrun, htiles⟩ := h.shaped.main
  have hfirst : ∀ s ∈ placed.map Placed.square, Grid.Linked (b.place placed).Occupied
      (Grid.onLine (b.mainHorizontal placed) (b.mainWord placed).1 (b.mainWord placed).2.1) s := by
    intro s hs
    obtain ⟨hline, hlo, hhi⟩ := htiles s hs
    have hlinked := Grid.linked_of_line (S := (b.place placed).Occupied)
      (n := along (b.mainHorizontal placed) s - (b.mainWord placed).2.1)
      (fun j h₁ h₂ => (occOn_iff _ _ _ _).mp (hrun.full j h₁ (by omega)))
    rwa [Nat.add_sub_cancel' hlo, ← hline, onLine_across_along, hline] at hlinked
  exact (hfirst s hs).symm.trans (hfirst t ht)

theorem mem_zip_tail_map {α : Type*} (f : ℕ → α) {s e i : ℕ} (hs : s ≤ i) (he : i < e) :
    (f i, f (i + 1)) ∈ ((List.range' s (e + 1 - s)).map f).zip
      ((List.range' s (e + 1 - s)).map f).tail := by
  refine List.mem_iff_getElem.mpr ⟨i - s, by simp; omega, ?_⟩
  simp only [List.getElem_zip, List.getElem_tail, List.getElem_map, List.getElem_range']
  rw [show s + 1 * (i - s) = i by omega, show s + 1 * (i - s + 1) = i + 1 by omega]

/-- The check for split digraphs finds none next to a newly laid tile. -/
theorem Checked.unsplit_of_new (h : Checked lex b placed skipDictionary formed)
    {horizontal : Bool} {fixed i : ℕ}
    (hi : (b.place placed).Occupied (Grid.onLine horizontal fixed i))
    (hi' : (b.place placed).Occupied (Grid.onLine horizontal fixed (i + 1)))
    (hnew : Grid.onLine horizontal fixed i ∈ placed.map Placed.square ∨
      Grid.onLine horizontal fixed (i + 1) ∈ placed.map Placed.square) :
    formsDigraph ((b.place placed).textAt (Grid.onLine horizontal fixed i))
      ((b.place placed).textAt (Grid.onLine horizontal fixed (i + 1))) = false := by
  obtain ⟨s, e, hrun, hs, he⟩ := Line.exists_isRun
    (fun j hj => occOn_of_le (b.place placed) horizontal fixed hj)
    ((occOn_iff (b.place placed) horizontal fixed i).mpr hi)
  have he' : i < e := by
    by_contra hlt
    obtain rfl : i = e := by omega
    exact absurd (((occOn_iff _ _ _ _).mpr hi').symm.trans hrun.after) (by simp)
  let mask := maskOf (placed.map Placed.square)
  let w := (b.place placed).extractWord fixed s e horizontal mask
  have hw : w ∈ formed := by
    refine (h.mem_formed_iff w).mpr ⟨horizontal, fixed, s, e, hrun, by omega, ?_, rfl⟩
    obtain hnew | hnew := hnew
    · exact ⟨i, hs, he, hnew⟩
    · exact ⟨i + 1, by omega, by omega, hnew⟩
  have hnone := List.findSome?_eq_none_iff.mp h.noSplit w hw
  have hpair := List.findSome?_eq_none_iff.mp hnone
    (Grid.onLine horizontal fixed i, Grid.onLine horizontal fixed (i + 1)) (by
      rw [extractWord_positions _ _ hrun.full]
      exact mem_zip_tail_map _ hs he')
  have hmask : mask (Grid.onLine horizontal fixed i).1 (Grid.onLine horizontal fixed i).2 = true ∨
      mask (Grid.onLine horizontal fixed (i + 1)).1
        (Grid.onLine horizontal fixed (i + 1)).2 = true :=
    hnew.imp mem_of_maskOf.mpr mem_of_maskOf.mpr
  by_contra hsplit
  simp only [Bool.not_eq_false] at hsplit
  obtain hmask | hmask := hmask <;> simp [mask, hmask, hsplit] at hpair

/-- **A checked placement keeps the board in shape.** -/
theorem Checked.wellFormed (h : Checked lex b placed skipDictionary formed) (hb : WellFormed b) :
    WellFormed (b.applyPlacement placed) := by
  have hocc := occupied_place_iff h.fits
  obtain ⟨p, hp⟩ := List.exists_mem_of_ne_nil _ h.nonempty
  have hp' : p.square ∈ placed.map Placed.square := List.mem_map_of_mem hp
  -- every square of the new board is linked to a newly laid one
  have hlinked : ∀ s, (b.place placed).Occupied s →
      Grid.Linked (b.place placed).Occupied p.square s := by
    intro s hs
    obtain hold | hnew := (hocc s).mp hs
    · have hne : b.isEmpty = false := by
        by_contra hempty
        exact hb.flag.mp (by simpa using hempty) s hold
      obtain ⟨u, hu, t, hadj, ht, htocc⟩ := exists_of_checkAdjacency (h.touches hne)
      have htold : b.Occupied t := ((hocc t).mp htocc).resolve_right ht
      have hts := (hb.connected t s htold hold).mono fun x hx => (hocc x).mpr (.inl hx)
      exact ((h.linked hp' hu).trans (.of_step ((hocc u).mpr (.inr hu)) htocc hadj)).trans hts
    · exact h.linked hp' hnew
  refine ⟨?_, Grid.connected_of_linked p.square hlinked, fun _ => ?_, ?_⟩
  · refine ⟨fun hempty => absurd hempty (by simp [applyPlacement]), fun hnone => ?_⟩
    exact absurd ((hocc _).mpr (.inr hp')) (hnone p.square)
  · by_cases hempty : b.isEmpty = true
    · exact (hocc _).mpr (.inr (mem_of_maskOf.mp (h.first hempty).1))
    · have hsome : ∃ s, b.Occupied s := by
        by_contra hnone
        exact hempty (hb.flag.mpr (not_exists.mp hnone))
      exact (hocc _).mpr (.inl (hb.centre hsome))
  · intro horizontal fixed i
    change formsDigraph ((b.place placed).textAt _) ((b.place placed).textAt _) = false
    by_cases hi : (b.place placed).Occupied (Grid.onLine horizontal fixed i)
    swap
    · exact formsDigraph_of_free (.inl hi)
    by_cases hi' : (b.place placed).Occupied (Grid.onLine horizontal fixed (i + 1))
    swap
    · exact formsDigraph_of_free (.inr hi')
    by_cases hnew : Grid.onLine horizontal fixed i ∈ placed.map Placed.square ∨
        Grid.onLine horizontal fixed (i + 1) ∈ placed.map Placed.square
    · exact h.unsplit_of_new hi hi' hnew
    · -- two letters that were there before
      obtain ⟨hold, hold'⟩ := not_or.mp hnew
      rw [textAt_place_of_not_mem b hold, textAt_place_of_not_mem b hold']
      exact hb.unsplit horizontal fixed i

/-- A run without a newly laid tile was a run before. -/
theorem Checked.isRun_of_old (h : Checked lex b placed skipDictionary formed) {horizontal : Bool}
    {fixed s e : ℕ} (hrun : Line.IsRun ((b.place placed).occOn horizontal fixed) s e)
    (hold : ∀ i, s ≤ i → i ≤ e → Grid.onLine horizontal fixed i ∉ placed.map Placed.square) :
    Line.IsRun (b.occOn horizontal fixed) s e := by
  refine hrun.congr fun i hs he => ?_
  have hnot : Grid.onLine horizontal fixed i ∉ placed.map Placed.square := by
    intro hmem
    have hocc := (occOn_iff _ _ _ _).mpr ((occupied_place_iff h.fits _).mpr (.inr hmem))
    by_cases hin : s ≤ i ∧ i ≤ e
    · exact hold i hin.1 hin.2 hmem
    · obtain hi | rfl : i + 1 = s ∨ i = e + 1 := by omega
      · exact absurd (hocc.symm.trans (hrun.before i hi)) (by simp)
      · exact absurd (hocc.symm.trans hrun.after) (by simp)
  simp only [occOn, line_eq, cell_place_of_not_mem b hnot]

/-- **A checked placement leaves only accepted words**, when the dictionary has its say. -/
theorem Checked.wordsAccepted (h : Checked lex b placed false formed)
    (hb : WordsAccepted lex b) : WordsAccepted lex (b.applyPlacement placed) := by
  intro horizontal fixed s e hrun hlt
  change Line.IsRun ((b.place placed).occOn horizontal fixed) s e at hrun
  change lex.accepts ((b.place placed).textOn horizontal fixed s e) = true
  by_cases hnew : ∃ i, s ≤ i ∧ i ≤ e ∧ Grid.onLine horizontal fixed i ∈ placed.map Placed.square
  · have hw := (h.mem_formed_iff _).mpr ⟨horizontal, fixed, s, e, hrun, hlt, hnew, rfl⟩
    have haccepts := h.accepted rfl _ hw
    rwa [extractWord_word] at haccepts
  · have hold : ∀ i, s ≤ i → i ≤ e → Grid.onLine horizontal fixed i ∉ placed.map Placed.square :=
      fun i hs he hmem => hnew ⟨i, hs, he, hmem⟩
    have htext : (b.place placed).textOn horizontal fixed s e = b.textOn horizontal fixed s e := by
      refine List.flatMap_congr fun i hi => ?_
      obtain ⟨h₁, h₂⟩ := List.mem_range'_1.mp hi
      exact textAt_place_of_not_mem b (hold i h₁ (by omega))
    rw [htext]
    exact hb horizontal fixed s e (h.isRun_of_old hrun hold) hlt

end Checked

end Board

namespace Game

variable {env : Env} {g g' : Game} {op : Op}

/-! ## The board of a game -/

/-- An operation leaves the board alone, or lays a placement that has been checked: the one it
makes, or the pending one. -/
theorem Effect.board (he : Effect env g op g') :
    g'.board = g.board ∨
      (∃ playerId tiles formed, Placeable env.lexicon g playerId tiles formed ∧
        g.challengeApplies g.currentPlayerIdx = false ∧ g'.board = g.board.applyPlacement tiles) ∨
      ∃ pc, g.pendingChallenge = some pc ∧ g'.board = g.board.applyPlacement pc.tilesPlaced := by
  cases he with
  | placed playerId tiles formed may novote =>
    exact .inr (.inl ⟨playerId, tiles, formed, may, novote,
      (finalizePlacement_settles env g _ _ _ _).keeps.1⟩)
  | accepted op pc pending =>
    exact .inr (.inr ⟨pc, pending, (closeTurn_settles env (g.layPending pc) _).keeps.1⟩)
  | rejected op pc pending => exact .inl (finalizeReject_settles env g pending).keeps.1
  | exchanged playerId tileIndices =>
    exact .inl (scorelessNextTurn_settles env (g.swapTiles env tileIndices)).keeps.1
  | passed playerId timeout =>
    refine .inl ((scorelessNextTurn_settles env (g.notePass timeout)).keeps.1.trans ?_)
    cases timeout <;> rfl
  | expired => exact .inl (scorelessNextTurn_settles env (g.notePass true)).keeps.1
  | expelled idx =>
    rw [resignSeat_rest]
    exact .inl (nextTurn_board env (g.notePass true).bumped)
  | resigned playerId idx =>
    rw [resignSeat_rest]
    exact .inl rfl
  | ended =>
    refine .inl ((endGame_board _ _).trans ?_)
    cases hpc : g.pendingChallenge with
    | none => simp only [unwindPending, hpc]
    | some pc =>
      simp only [unwindPending, hpc]
      rfl
  | removed playerId idx =>
    refine .inl ?_
    simp only [removeSeat]
    split <;> rfl
  | skipped => exact .inl (nextTurn_board env g)
  | _ => exact .inl rfl

/-- What is chosen when the game is created: the challenge mode and the time limit of a turn. -/
def settings (g : Game) : Bool × ℤ := (g.challengeMode, g.turnTimeLimit)

theorem Settles.settings (h : Settles env g g') : g'.settings = g.settings := by
  cases h with
  | gameOver finisher =>
    rw [endGame_rest]
    rfl
  | solved idx score words => rfl
  | next =>
    rw [nextTurn_rest]
    rfl
  | stay => rfl

theorem Effect.settings (he : Effect env g op g') : g'.settings = g.settings := by
  cases he with
  | placed playerId tiles formed =>
    exact (finalizePlacement_settles env g _ _ _ _).settings
  | accepted op pc => exact (closeTurn_settles env (g.layPending pc) _).settings
  | rejected op pc pending => exact (finalizeReject_settles env g pending).settings
  | exchanged playerId tileIndices =>
    exact (scorelessNextTurn_settles env (g.swapTiles env tileIndices)).settings
  | passed playerId timeout =>
    refine (scorelessNextTurn_settles env (g.notePass timeout)).settings.trans ?_
    cases timeout <;> rfl
  | expired => exact (scorelessNextTurn_settles env (g.notePass true)).settings
  | expelled idx =>
    rw [resignSeat_rest]
    exact (show Settles env (g.notePass true).bumped _ from .next).settings
  | resigned playerId idx =>
    rw [resignSeat_rest]
    rfl
  | ended =>
    rw [endGame_rest]
    cases hpc : g.pendingChallenge with
    | none =>
      simp only [unwindPending, hpc]
      rfl
    | some pc =>
      simp only [unwindPending, hpc]
      rfl
  | removed playerId idx =>
    simp only [removeSeat]
    split <;> rfl
  | skipped =>
    rw [nextTurn_rest]
    rfl
  | _ => rfl

theorem Effect.challengeMode (he : Effect env g op g') : g'.challengeMode = g.challengeMode :=
  congrArg Prod.fst he.settings

/-- Without challenge mode no placement waits for votes. -/
theorem Effect.pendingChallenge_none (he : Effect env g op g') (hmode : g.challengeMode = false)
    (hfree : g.pendingChallenge = none) : g'.pendingChallenge = none := by
  cases he with
  | placed playerId tiles formed =>
    exact (finalizePlacement_settles env g _ _ _ _).pendingChallenge hfree
  | proposed playerId tiles formed may vote => simp [challengeApplies, hmode] at vote
  | voted op pc pending => simp [hfree] at pending
  | accepted op pc pending => simp [hfree] at pending
  | rejected op pc pending => simp [hfree] at pending
  | withdrawn playerId pc pending => simp [hfree] at pending
  | exchanged playerId tileIndices =>
    exact (scorelessNextTurn_settles env (g.swapTiles env tileIndices)).pendingChallenge hfree
  | passed playerId timeout =>
    refine (scorelessNextTurn_settles env (g.notePass timeout)).pendingChallenge ?_
    cases timeout <;> exact hfree
  | expired => exact (scorelessNextTurn_settles env (g.notePass true)).pendingChallenge hfree
  | expelled idx => rw [resignSeat_rest]
  | resigned playerId idx => rw [resignSeat_rest]
  | ended => exact endGame_pendingChallenge _ _
  | reconnected oldId newId idx => simp [reconnectSeat, modifyPlayer, hfree]
  | removed playerId idx =>
    simp only [removeSeat, hfree]
    split <;> rfl
  | skipped => exact (nextTurn_pendingChallenge env g).trans hfree
  | restored => rfl
  | _ => exact hfree

/-- An operation keeps the board in shape. -/
theorem wellFormed_step (hsound : PendingSound g) (h : g.board.WellFormed) (i : Input) :
    (g.step i).board.WellFormed := by
  obtain heq | ⟨playerId, tiles, formed, hmay, -, heq⟩ | ⟨pc, hpc, heq⟩ :=
    (step_effect i.1 g i.2).board <;> (change (g.step i).board = _ at heq; rw [heq])
  · exact h
  · exact ((Board.validatePlacement_ok_iff _ _ _ _ _).mp hmay.valid).wellFormed h
  · obtain ⟨lex, hvalid⟩ := (hsound pc hpc).valid
    exact ((Board.validatePlacement_ok_iff _ _ _ _ _).mp hvalid).wellFormed h

/-- The board of every reachable game is in shape. -/
theorem Reachable.wellFormed (h : Reachable g) : g.board.WellFormed := by
  have hinv := Runs.Reaches.invariant step (P := fun g => PendingSound g ∧ g.board.WellFormed)
    (fun _ hs => ⟨pendingSound_of_initial hs, ?_⟩)
    (fun s i hs _ => ⟨hs.1.step i, wellFormed_step hs.1 hs.2 i⟩) h
  · exact hinv.2
  · obtain ⟨_, _, _, _, _, rfl⟩ | ⟨_, _, _, rfl⟩ := hs
    · exact Board.wellFormed_new
    · exact Board.wellFormed_new

/-- Without challenge mode and with one dictionary throughout, it accepts the words of the
board. -/
theorem wordsAccepted_of_reachable {lex : Lexicon}
    (h : ReachableBy (fun _ i => i.1.lexicon = lex) g) (hmode : g.challengeMode = false) :
    g.board.WordsAccepted lex := by
  have hinv := Runs.Reaches.invariant step (P := fun g => g.challengeMode = false →
    g.pendingChallenge = none ∧ g.board.WordsAccepted lex) (fun _ hs _ => ?_)
    (fun s i hs hi hmode => ?_) h
  · exact (hinv hmode).2
  · obtain ⟨_, _, _, _, _, rfl⟩ | ⟨_, _, _, rfl⟩ := hs
    · exact ⟨rfl, Board.wordsAccepted_new lex⟩
    · exact ⟨rfl, Board.wordsAccepted_new lex⟩
  · have he := step_effect i.1 s i.2
    have hmode' : s.challengeMode = false := he.challengeMode.symm.trans hmode
    obtain ⟨hfree, haccepted⟩ := hs hmode'
    refine ⟨he.pendingChallenge_none hmode' hfree, ?_⟩
    obtain heq | ⟨playerId, tiles, formed, hmay, hvote, heq⟩ | ⟨pc, hpc, -⟩ := he.board
    · change (s.step i).board = _ at heq
      rwa [heq]
    · change (s.step i).board = _ at heq
      have hvalid := hmay.valid
      rw [hvote, hi] at hvalid
      rw [heq]
      exact ((Board.validatePlacement_ok_iff _ _ _ _ _).mp hvalid).wordsAccepted haccepted
    · simp [hfree] at hpc

/-- **The shape of the board** in every reachable game: its emptiness flag is right, its letters
hang together around the centre, and no two tiles spell a digraph; without challenge mode and
with one dictionary throughout, every word on it is accepted. -/
theorem reachable_board (h : Reachable g) :
    (g.board.isEmpty = true ↔ ∀ s, ¬g.board.Occupied s) ∧
      Grid.Connected g.board.Occupied ∧
      ((∃ s, g.board.Occupied s) → g.board.Occupied (center, center)) ∧
      (∀ horizontal fixed i, formsDigraph (g.board.textAt (Grid.onLine horizontal fixed i))
        (g.board.textAt (Grid.onLine horizontal fixed (i + 1))) = false) ∧
      ∀ lex, ReachableBy (fun _ i => i.1.lexicon = lex) g → g.challengeMode = false →
        ∀ horizontal fixed s e, Line.IsRun (g.board.occOn horizontal fixed) s e → s < e →
          lex.accepts (g.board.textOn horizontal fixed s e) = true :=
  ⟨h.wellFormed.flag, h.wellFormed.connected, h.wellFormed.centre, h.wellFormed.unsplit,
    fun _ hlex hmode => wordsAccepted_of_reachable hlex hmode⟩

/-- The word that the first placement of a duel leaves on the board. -/
theorem reachable_board_duel :
    let g := Runs.run step (duel false) [(stillEnv, .placeTiles "a" duelOpening)]
    stillEnv.lexicon.accepts (g.board.textOn true 7 7 8) = true := by
  intro g
  have hrun : Line.IsRun (g.board.occOn true 7) 7 8 := by
    refine ⟨by omega, fun i h₁ h₂ => ?_, fun i hi => ?_, by decide +kernel⟩
    · obtain rfl | rfl : i = 7 ∨ i = 8 := by omega
      · decide +kernel
      · decide +kernel
    · obtain rfl : i = 6 := by omega
      decide +kernel
  have hduel : ReachableBy (fun _ i => i.1.lexicon = stillEnv.lexicon) (duel false) :=
    ⟨new stillEnv "duel" false 0 3, [(stillEnv, .addPlayer "a" "Anna"),
      (stillEnv, .addPlayer "b" "Béla"), (stillEnv, .start)], .inl ⟨_, _, _, _, _, rfl⟩,
      ⟨rfl, rfl, rfl, trivial⟩, rfl⟩
  have hreach : ReachableBy (fun _ i => i.1.lexicon = stillEnv.lexicon) g :=
    hduel.run step ⟨rfl, trivial⟩
  have hg : Reachable g :=
    (reachable_duel false).run step (Runs.along_of_forall step (fun _ _ _ => trivial) _)
  have hmode : g.challengeMode = false := by decide +kernel
  exact (reachable_board hg).2.2.2.2 _ hreach hmode true 7 7 8 hrun (by omega)

end Game

end ScrabbleMagyar
