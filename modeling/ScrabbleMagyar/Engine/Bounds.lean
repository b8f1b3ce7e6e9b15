import ScrabbleMagyar.Engine.Lineage
import ScrabbleMagyar.Engine.Scores
import Mathlib.Algebra.Order.BigOperators.Group.Finset

/-!
# The numbers of a game stay small

The source keeps scores in 32 bits and counts turns and missed deadlines without a check for
overflow. In a reachable game none of these numbers gets large, because each is paid for by
tiles laid on the board, which has 225 squares.

* `Scored`: a score is at most `placementLimit` for each tile on the board, until the hands are
  settled at the end.
* `Prompt`: a missed deadline takes a turn, so the deadlines missed and the turns left are at
  most the turns of a whole game.
* `Metered`: the hints and the counter of turns without a score.
-/

namespace ScrabbleMagyar

/-- The number of squares. -/
def squareCount : ℕ := boardSize * boardSize

theorem Board.card_tiles_le (b : Board) : b.tiles.card ≤ squareCount := by
  have hcell : ∀ s ∈ (Finset.univ : Finset (Fin 15 × Fin 15)),
      (cellTiles (b.cells s.1 s.2)).card ≤ 1 := by
    intro s _
    cases b.cells s.1 s.2 <;> simp [cellTiles]
  have hsum := Finset.sum_le_card_nsmul _ _ _ hcell
  rw [tiles, Multiset.card_sum]
  simpa [squareCount, boardSize] using hsum

namespace Game

variable {env : Env} {g : Game}

/-! ## Scores -/

theorem handValue_range {p : Player} (h : p.hand.length ≤ handSize) :
    0 ≤ p.handValue ∧ p.handValue ≤ 70 := by
  have hvalue : ∀ x ∈ p.hand.map fun t => (t.value : ℤ), 0 ≤ x ∧ x ≤ 10 := by
    intro x hx
    obtain ⟨t, -, rfl⟩ := List.mem_map.mp hx
    have := t.value_le
    omega
  have hsum := List.sum_le_card_nsmul _ _ fun x hx => (hvalue x hx).2
  rw [List.length_map, nsmul_eq_mul] at hsum
  refine ⟨List.sum_nonneg fun x hx => (hvalue x hx).1, hsum.trans ?_⟩
  simp only [handSize] at h
  omega

/-- The settlement moves a score by the value of one hand down and of all hands up. -/
theorem settle_range {players : List Player} (finisher : Option ℕ) {top : ℤ}
    (hseats : players.length ≤ 4) (hhands : ∀ p ∈ players, p.hand.length ≤ handSize)
    (hrange : ∀ p ∈ players, 0 ≤ p.score ∧ p.score ≤ top) :
    ∀ p ∈ settle players finisher, -70 ≤ p.score ∧ p.score ≤ top + 280 := by
  have htotal : 0 ≤ (players.map Player.handValue).sum ∧
      (players.map Player.handValue).sum ≤ 280 := by
    have hvalue : ∀ x ∈ players.map Player.handValue, 0 ≤ x ∧ x ≤ 70 := by
      intro x hx
      obtain ⟨p, hp, rfl⟩ := List.mem_map.mp hx
      exact handValue_range (hhands p hp)
    have hsum := List.sum_le_card_nsmul _ _ fun x hx => (hvalue x hx).2
    rw [List.length_map, nsmul_eq_mul] at hsum
    exact ⟨List.sum_nonneg fun x hx => (hvalue x hx).1, by omega⟩
  have hpaid : ∀ p ∈ players.map fun p => { p with score := p.score - p.handValue },
      -70 ≤ p.score ∧ p.score ≤ top := by
    intro p hp
    obtain ⟨q, hq, rfl⟩ := List.mem_map.mp hp
    have := handValue_range (hhands q hq)
    have := hrange q hq
    simp only
    omega
  intro p hp
  cases finisher with
  | none =>
    have := hpaid p hp
    omega
  | some i =>
    obtain hp | ⟨q, hq, -, rfl⟩ := Lists.mem_modify hp
    · have := hpaid p hp
      omega
    · have := hpaid q hq
      simp only
      omega

/-- The scores of a game: paid for by the tiles on the board, then settled. -/
structure Scored (g : Game) : Prop where
  seats : g.players.length ≤ 4
  running : g.finished = false → ∀ p ∈ g.players,
    0 ≤ p.score ∧ p.score ≤ placementLimit * g.board.tiles.card
  settled : g.finished = true → ∀ p ∈ g.players,
    -70 ≤ p.score ∧ p.score ≤ placementLimit * squareCount + 280

theorem placementLimit_mul_le (b : Board) :
    placementLimit * b.tiles.card ≤ placementLimit * squareCount :=
  mul_le_mul_of_nonneg_left (by exact_mod_cast b.card_tiles_le) (by decide)

/-- Scores fit in the 32 bits that hold them. -/
theorem Scored.toI32 (h : Scored g) {p : Player} (hp : p ∈ g.players) :
    toI32 p.score = p.score := by
  have htop : placementLimit * squareCount + 280 < 2 ^ 31 := by decide
  have hboard := placementLimit_mul_le g.board
  by_cases hfin : g.finished = true
  · have := h.settled hfin p hp
    exact toI32_of_range (by omega) (by omega)
  · have := h.running (by simpa using hfin) p hp
    exact toI32_of_range (by omega) (by omega)

theorem Scored.congr {g' : Game} (h : Scored g)
    (hscores : g'.players.map Player.score = g.players.map Player.score)
    (hfinished : g'.finished = g.finished) (hboard : g'.board = g.board) : Scored g' := by
  have hmem : ∀ p ∈ g'.players, ∃ q ∈ g.players, q.score = p.score := by
    intro p hp
    exact List.mem_map.mp (hscores ▸ List.mem_map_of_mem hp)
  refine ⟨?_, fun hfin p hp => ?_, fun hfin p hp => ?_⟩
  · have := congrArg List.length hscores
    rw [List.length_map, List.length_map] at this
    exact this ▸ h.seats
  · obtain ⟨q, hq, hqp⟩ := hmem p hp
    rw [← hqp, hboard]
    exact h.running (hfinished ▸ hfin) q hq
  · obtain ⟨q, hq, hqp⟩ := hmem p hp
    rw [← hqp]
    exact h.settled (hfinished ▸ hfin) q hq

/-- The game is over and its hands are settled. -/
theorem Scored.gameOver {g' : Game} (h : Scored g) (hfin : g.finished = false)
    {players : List Player} {finisher : Option ℕ}
    (hscores : players.map Player.score = g.players.map Player.score)
    (hover : g'.finished = true) (hplayers : g'.players = settle players finisher)
    (hhands : ∀ p ∈ g'.players, p.hand.length ≤ handSize) : Scored g' := by
  have hlen : players.length = g.players.length := by
    simpa using congrArg List.length hscores
  -- the settlement leaves the hands alone
  have hsame : g'.players.map Player.hand = players.map Player.hand := by
    rw [hplayers, settle_map fun _ _ => rfl]
  have hrange := settle_range finisher (hlen ▸ h.seats) (fun p hp => by
      obtain ⟨q, hq, hqp⟩ := List.mem_map.mp (hsame ▸ List.mem_map_of_mem (f := Player.hand) hp)
      exact hqp ▸ hhands q hq)
    fun p hp => by
      obtain ⟨q, hq, hqp⟩ := List.mem_map.mp (hscores ▸ List.mem_map_of_mem (f := Player.score) hp)
      exact hqp ▸ h.running hfin q hq
  refine ⟨?_, fun hrun => ?_, fun _ p hp => ?_⟩
  · rw [hplayers, settle_length, hlen]
    exact h.seats
  · exact absurd (hover.symm.trans hrun) (by simp)
  · have hboard := placementLimit_mul_le g.board
    have := hrange p (hplayers ▸ hp)
    omega

theorem Scored.settles {g' : Game} (h : Scored g) (hfin : g.finished = false)
    (hs : Settles env g g') (hhands : ∀ p ∈ g'.players, p.hand.length ≤ handSize) : Scored g' := by
  cases hs with
  | gameOver finisher =>
    exact h.gameOver hfin rfl (endGame_finished _ _) (endGame_players _ _) hhands
  | solved idx score words =>
    have hrange := h.running hfin
    have hboard := placementLimit_mul_le g.board
    refine ⟨h.seats, fun hrun => absurd hrun (by simp [finishPuzzle, setLastAction]), fun _ p hp => ?_⟩
    have := hrange p hp
    omega
  | next =>
    exact h.congr (nextTurn_map _ _ fun _ _ => rfl) (nextTurn_finished _ _) (nextTurn_board _ _)
  | stay => exact h

/-- A placement pays for its score with the tiles it lays. -/
theorem Scored.laid {lex : Lexicon} {placed : List Placed} {skipDictionary : Bool}
    {formed : List FormedWord} {g' : Game} {idx : ℕ} {f : Player → Player} (h : Scored g)
    (hfin : g.finished = false)
    (hvalid : g.board.validatePlacement lex placed skipDictionary = .ok formed)
    (hlen : placed.length ≤ handSize) (hboard : g'.board = g.board.applyPlacement placed)
    (hfinished : g'.finished = g.finished) (hplayers : g'.players = g.players.modify idx f)
    (hscore : ∀ p, (f p).score = p.score + lerakasTotal formed placed.length) : Scored g' := by
  have hlaid : (g.board.tiles.card : ℤ) + 1 ≤ g'.board.tiles.card := by
    rw [hboard]
    exact_mod_cast tiles_lt_of_valid hvalid
  have hpaid : placementLimit * (g.board.tiles.card : ℤ) + placementLimit ≤
      placementLimit * g'.board.tiles.card := by
    rw [← mul_add_one]
    exact mul_le_mul_of_nonneg_left hlaid (by decide)
  have hpos : (0 : ℤ) ≤ placementLimit := by decide
  have hnonneg := lerakasTotal_nonneg formed placed.length
  have hle := lerakasTotal_le ((Board.validatePlacement_ok_iff _ _ _ _ _).mp hvalid) hlen
  refine ⟨?_, fun _ p hp => ?_, fun hover => absurd (hfinished ▸ hover) (by simp [hfin])⟩
  · rw [hplayers, List.length_modify]
    exact h.seats
  · rw [hplayers] at hp
    obtain hp | ⟨q, hq, -, rfl⟩ := Lists.mem_modify hp
    · have := h.running hfin p hp
      omega
    · have := h.running hfin q hq
      rw [hscore]
      omega

theorem Scored.join (h : Scored g) (room : g.players.length < 4) (seq : ℕ) {p : Player}
    (hp : p.score = 0) : Scored { g with botSeq := seq, players := g.players ++ [p] } := by
  have hlimit : (0 : ℤ) ≤ placementLimit * g.board.tiles.card :=
    mul_nonneg (by decide) (Int.natCast_nonneg _)
  refine ⟨by simp; omega, fun hfin q hq => ?_, fun hfin q hq => ?_⟩
  · obtain hq | rfl : q ∈ g.players ∨ q = p := by simpa using hq
    · exact h.running hfin q hq
    · simpa [hp] using hlimit
  · obtain hq | rfl : q ∈ g.players ∨ q = p := by simpa using hq
    · exact h.settled hfin q hq
    · rw [hp]
      exact ⟨by omega, by decide⟩

theorem Scored.notePass (h : Scored g) (timeout : Bool) : Scored (g.notePass timeout).bumped := by
  refine h.congr ?_ (by cases timeout <;> rfl) (by cases timeout <;> rfl)
  change (g.notePass timeout).players.map Player.score = _
  rw [notePass_players]
  exact Lists.map_modify_eq (f := passed timeout) (fun _ => rfl) _ _

theorem Scored.returnTiles (h : Scored g) (pc : Challenge) : Scored (g.returnTiles pc) :=
  h.congr (Lists.map_modify_eq (f := fun p : Player => { p with hand := p.hand ++ pc.removedFromHand })
    (fun _ => rfl) _ _) rfl rfl

theorem Scored.unwindPending (h : Scored g) : Scored g.unwindPending := by
  simp only [Game.unwindPending]
  split
  · exact h.returnTiles _
  · exact h

/-- A resignation settles the hands as well. -/
theorem Scored.resignSeat (h : Scored g) (hfin : g.finished = false) (idx : ℕ)
    (hhands : ∀ p ∈ (g.resignSeat idx).players, p.hand.length ≤ handSize) :
    Scored (g.resignSeat idx) := by
  have hplayers : (g.resignSeat idx).players =
      settle (g.players.modify idx fun p => { p with resigned := true }) none := by
    rw [resignSeat_rest]
  exact h.gameOver hfin
    (Lists.map_modify_eq (f := fun p : Player => { p with resigned := true }) (fun _ => rfl) _ _)
    (by rw [resignSeat_rest]) hplayers hhands

theorem Placeable.length_le {lex : Lexicon} {playerId : String} {tiles : List Placed}
    {formed : List FormedWord} (h : Placeable lex g playerId tiles formed) (hg : Coherent g) :
    tiles.length ≤ handSize := by
  have := length_removeTilesFromHand h.inHand
  have := hg.hand_le g.currentPlayerIdx
  omega

theorem Coherent.pending_length_le (h : Coherent g) (hsound : PendingSound g) {pc : Challenge}
    (hpc : g.pendingChallenge = some pc) : pc.tilesPlaced.length ≤ handSize := by
  have hroom := h.room pc hpc
  rw [(hsound pc hpc).held, List.length_map] at hroom
  omega

/-- Every operation keeps the scores paid for. -/
theorem Scored.effect {g' : Game} {op : Op} (h : Scored g) (hg : Coherent g)
    (hsound : PendingSound g) (hunder : Underway g) (he : Effect env g op g') : Scored g' := by
  have hhands := (hg.effect hsound he).hands
  cases he with
  | joined playerId name waiting room => exact h.join room g.botSeq rfl
  | botJoined name difficulty seq waiting room => exact h.join room seq rfl
  | dealt => exact h.congr (deal_map (fun _ _ => rfl) _ _) rfl rfl
  | dealtAt => exact h.congr (deal_map (fun _ _ => rfl) _ _) rfl rfl
  | placed playerId tiles formed may =>
    have hlaid : Scored (g.layTiles tiles (lerakasTotal formed tiles.length)
        (formed.map FormedWord.word) formed) :=
      h.laid may.unfinished may.valid (may.length_le hg) rfl rfl (layTiles_players _ _ _ _ _)
        fun _ => rfl
    exact hlaid.settles may.unfinished (finalizePlacement_settles env g _ _ _ _) hhands
  | proposed playerId tiles formed may =>
    exact h.congr (Lists.map_modify_eq
      (f := fun p : Player => { p with hand := (removeTilesFromHand p.hand tiles).1 })
      (fun _ => rfl) _ _) rfl rfl
  | accepted op pc pending =>
    obtain ⟨lex, hvalid⟩ := (hsound pc pending).valid
    have hfin := hunder.unfinished pending
    have hlaid : Scored (g.layPending pc) :=
      h.laid hfin hvalid (hg.pending_length_le hsound pending) rfl rfl
        (layPending_players _ _) fun p => by rw [← (hsound pc pending).score]; rfl
    exact hlaid.settles hfin (closeTurn_settles env _ _) hhands
  | rejected op pc pending =>
    have hturned : Scored (g.turnDown pc).bumped :=
      (h.returnTiles pc).congr rfl rfl rfl
    exact hturned.settles (hunder.unfinished pending) (finalizeReject_settles env g pending) hhands
  | withdrawn playerId pc pending => exact (h.returnTiles pc).congr rfl rfl rfl
  | exchanged playerId tileIndices may =>
    have hswapped : Scored (g.swapTiles env tileIndices).bumped := by
      refine h.congr ?_ rfl rfl
      change (g.swapTiles env tileIndices).players.map Player.score = _
      rw [swapTiles_players]
      exact Lists.map_modify_eq (f := g.swapped tileIndices) (fun _ => rfl) _ _
    exact hswapped.settles may.unfinished (scorelessNextTurn_settles env _) hhands
  | passed playerId timeout may =>
    exact (h.notePass timeout).settles (by cases timeout <;> exact may.unfinished)
      (scorelessNextTurn_settles env _) hhands
  | expired may =>
    obtain ⟨_, may⟩ := may
    exact (h.notePass true).settles may.unfinished (scorelessNextTurn_settles env _) hhands
  | expelled idx may =>
    obtain ⟨_, may⟩ := may
    have hnext : Scored ((g.notePass true).bumped.nextTurn env) := (h.notePass true).congr
      (nextTurn_map _ _ fun _ _ => rfl) (nextTurn_finished _ _) (nextTurn_board _ _)
    exact hnext.resignSeat ((nextTurn_finished _ _).trans may.unfinished) idx hhands
  | resigned playerId idx started unfinished => exact h.resignSeat unfinished idx hhands
  | ended started unfinished =>
    refine h.unwindPending.settles ?_ (show Settles env _ _ from .gameOver none) hhands
    simp only [Game.unwindPending]
    split <;> exact unfinished
  | disconnected =>
    exact h.congr (Lists.map_modify_eq (f := fun p : Player => { p with disconnected := true })
      (fun _ => rfl) _ _) rfl rfl
  | reconnected oldId newId idx =>
    exact h.congr (Lists.map_modify_eq (f := Player.reconnect newId) (fun _ => rfl) _ _) rfl rfl
  | removed playerId idx =>
    have hrest : (g.removeSeat idx).players = g.players.eraseIdx idx ∧
        (g.removeSeat idx).finished = g.finished ∧ (g.removeSeat idx).board = g.board := by
      simp only [removeSeat]
      split <;> exact ⟨rfl, rfl, rfl⟩
    obtain ⟨hplayers, hfinished, hboard⟩ := hrest
    refine ⟨?_, fun hfin p hp => ?_, fun hfin p hp => ?_⟩
    · rw [hplayers]
      exact (List.length_eraseIdx_le _ _).trans h.seats
    · rw [hboard]
      exact h.running (hfinished ▸ hfin) p (List.mem_of_mem_eraseIdx (hplayers ▸ hp))
    · exact h.settled (hfinished ▸ hfin) p (List.mem_of_mem_eraseIdx (hplayers ▸ hp))
  | skipped =>
    exact h.congr (nextTurn_map _ _ fun _ _ => rfl) (nextTurn_finished _ _) (nextTurn_board _ _)
  | restored =>
    refine h.congr ?_ rfl rfl
    refine List.ext_getElem (by simp [restored, restoredPlayers]) fun i h₁ h₂ => ?_
    simpa [restored, restoredPlayers, restoredPlayer] using h.toI32 (List.getElem_mem _)
  | _ => exact h.congr rfl rfl rfl

/-! ## Missed deadlines -/

/-- The turns that a game can still take on its board. -/
abbrev turnsOnBoard (g : Game) : ℕ := g.turnsLeftIn squareCount

theorem Outcome.turnsOnBoard_le {use : Option TurnUse} {g' : Game} (h : Outcome env g use g')
    (hsound : PendingSound g) (hunder : Underway g) : g'.turnsOnBoard ≤ g.turnsOnBoard := by
  obtain ⟨_, -, hturn⟩ | ⟨-, ⟨hfin, -⟩ | hidle⟩ := h.turn_or
  · exact (hturn.turnsLeftIn_lt hsound hunder g'.board.card_tiles_le).le
  · rw [turnsOnBoard, turnsLeftIn_of_finished hfin]
    exact Nat.zero_le _
  · exact (hidle.left squareCount).2.le

/-- The deadlines a player has missed in a row, and the turns that are left, are together at
most the turns of a game. -/
def Prompt (g : Game) : Prop :=
  ∀ p ∈ g.players, p.timeouts + g.turnsOnBoard ≤ scorelessTurnsLimit * (squareCount + 1)

theorem Prompt.toU32 (h : Prompt g) {p : Player} (hp : p ∈ g.players) :
    toU32 p.timeouts = p.timeouts := by
  have := h p hp
  refine toU32_natCast ?_
  simp only [scorelessTurnsLimit, squareCount, boardSize] at this
  omega

theorem Prompt.step (h : Prompt g) (hsound : PendingSound g) (hunder : Underway g) (i : Input) :
    Prompt (g.step i) := by
  intro q hq
  have hle : (g.step i).turnsOnBoard ≤ g.turnsOnBoard :=
    (step_outcome (g := g) hunder i.2).turnsOnBoard_le hsound hunder
  obtain (⟨_, _, rfl⟩ | ⟨_, _, _, rfl⟩) | ⟨p, hp, hpq⟩ := (step_effect i.1 g i.2).lineage q hq
  · simpa [Player.new] using turnsLeftIn_le (g.step i) squareCount
  · simpa [Player.newBot, Player.new] using turnsLeftIn_le (g.step i) squareCount
  have hbound := h p hp
  obtain hkept | hzero | hcast | ⟨hlate, hmissed⟩ := hpq.timeouts
  · rw [hkept]
    exact (Nat.add_le_add_left hle _).trans hbound
  · rw [hzero, Nat.zero_add]
    exact turnsLeftIn_le (g.step i) squareCount
  · rw [hcast, h.toU32 hp]
    exact (Nat.add_le_add_left hle _).trans hbound
  · -- a missed deadline has taken a turn
    have hlt : (g.step i).turnsOnBoard < g.turnsOnBoard :=
      hlate.turn.turnsLeftIn_lt hsound hunder (g.step i).board.card_tiles_le
    rw [hmissed]
    omega

/-! ## Hints and turns without a score -/

/-- The counters of a game are in range: the hint limit is one of those on offer. -/
structure Metered (g : Game) : Prop where
  limit : g.hintLimit ∈ allowedHintLimits
  used : 0 ≤ g.hintsUsed
  scoreless : g.scorelessTurns ≤ scorelessTurnsLimit

/-- The counters of hints and of turns without a score. -/
def meters (g : Game) : ℤ × ℤ × ℕ := (g.hintLimit, g.hintsUsed, g.scorelessTurns)

theorem Metered.congr {g' : Game} (h : Metered g) (hmeters : g'.meters = g.meters) :
    Metered g' := by
  simp only [meters, Prod.mk.injEq] at hmeters
  exact ⟨hmeters.1 ▸ h.limit, hmeters.2.1 ▸ h.used, hmeters.2.2 ▸ h.scoreless⟩

theorem Settles.meters {g' : Game} (h : Settles env g g') : g'.meters = g.meters := by
  cases h with
  | gameOver finisher => rw [endGame_rest]; rfl
  | solved => rfl
  | next => rw [nextTurn_rest]; rfl
  | stay => rfl

theorem resignSeat_meters (idx : ℕ) : (g.resignSeat idx).meters = g.meters := by
  rw [resignSeat_rest]
  rfl

/-- A turn without a score counts, and the sixth one ends the game. -/
theorem Metered.bumped (h : Metered g) (hunder : Underway g) (hfin : g.finished = false) :
    Metered g.bumped :=
  ⟨h.limit, h.used, hunder.spare hfin⟩

theorem metered_of_initial (h : Initial g) : Metered g := by
  obtain ⟨_, _, _, _, hintLimit, rfl⟩ | ⟨_, _, _, rfl⟩ := h
  · refine ⟨?_, le_rfl, Nat.zero_le _⟩
    simp only [new]
    split
    · assumption
    · decide
  · refine ⟨?_, le_rfl, Nat.zero_le _⟩
    change (if (0 : ℤ) ∈ allowedHintLimits then 0 else defaultHintLimit) ∈ allowedHintLimits
    decide

theorem Metered.effect {g' : Game} {op : Op} (h : Metered g) (hunder : Underway g)
    (he : Effect env g op g') : Metered g' := by
  cases he with
  | placed playerId tiles formed may =>
    have hlaid : Metered (g.layTiles tiles (lerakasTotal formed tiles.length)
        (formed.map FormedWord.word) formed) := ⟨h.limit, h.used, Nat.zero_le _⟩
    exact hlaid.congr (finalizePlacement_settles env g _ _ _ _).meters
  | accepted op pc pending =>
    have hlaid : Metered (g.layPending pc) := ⟨h.limit, h.used, Nat.zero_le _⟩
    exact hlaid.congr (closeTurn_settles env _ _).meters
  | rejected op pc pending =>
    have hturned : Metered (g.turnDown pc).bumped :=
      (h.bumped hunder (hunder.unfinished pending)).congr rfl
    exact hturned.congr (finalizeReject_settles env g pending).meters
  | exchanged playerId tileIndices may =>
    have hswapped : Metered (g.swapTiles env tileIndices).bumped :=
      (h.bumped hunder may.unfinished).congr rfl
    exact hswapped.congr (scorelessNextTurn_settles env _).meters
  | passed playerId timeout may =>
    have hpassed : Metered (g.notePass timeout).bumped :=
      (h.bumped hunder may.unfinished).congr (by cases timeout <;> rfl)
    exact hpassed.congr (scorelessNextTurn_settles env _).meters
  | expired may =>
    obtain ⟨_, may⟩ := may
    have hpassed : Metered (g.notePass true).bumped :=
      (h.bumped hunder may.unfinished).congr rfl
    exact hpassed.congr (scorelessNextTurn_settles env _).meters
  | expelled idx may =>
    obtain ⟨_, may⟩ := may
    have hpassed : Metered (g.notePass true).bumped :=
      (h.bumped hunder may.unfinished).congr rfl
    have hnext : Settles env (g.notePass true).bumped ((g.notePass true).bumped.nextTurn env) := .next
    exact (hpassed.congr hnext.meters).congr (resignSeat_meters idx)
  | resigned playerId idx => exact h.congr (resignSeat_meters idx)
  | ended =>
    have hunwound : g.unwindPending.meters = g.meters := by
      simp only [Game.unwindPending]
      split <;> rfl
    exact h.congr ((show Settles env _ _ from .gameOver none).meters.trans hunwound)
  | hinted =>
    have := h.used
    exact ⟨h.limit, by simp only; omega, h.scoreless⟩
  | removed playerId idx =>
    refine h.congr ?_
    simp only [removeSeat]
    split <;> rfl
  | skipped => exact h.congr (show Settles env _ _ from .next).meters
  | restored =>
    refine ⟨?_, le_max_right _ _, ?_⟩
    · simp only [restored, new, if_pos h.limit]
      exact h.limit
    · have hscoreless := h.scoreless
      have hcast : toU32 g.scorelessTurns = g.scorelessTurns :=
        toU32_natCast (by simp only [scorelessTurnsLimit] at hscoreless; omega)
      exact hcast.trans_le hscoreless
  | _ => exact h.congr rfl

/-! ## Reachable games -/

/-- The numbers of a game are in the ranges of their types. -/
structure Bounded (g : Game) : Prop where
  coherent : Coherent g
  sound : PendingSound g
  underway : Underway g
  scored : Scored g
  prompt : Prompt g
  metered : Metered g

theorem bounded_of_initial (h : Initial g) : Bounded g := by
  have hplayers : g.players = [] := by
    obtain ⟨_, _, _, _, _, rfl⟩ | ⟨_, _, _, rfl⟩ := h <;> rfl
  exact ⟨coherent_of_initial h, pendingSound_of_initial h, underway_of_initial h,
    ⟨by simp [hplayers], by simp [hplayers], by simp [hplayers]⟩, by simp [Prompt, hplayers],
    metered_of_initial h⟩

theorem Bounded.step (h : Bounded g) (i : Input) : Bounded (g.step i) := by
  have he := step_effect i.1 g i.2
  exact ⟨h.coherent.effect h.sound he, h.sound.step i, h.underway.step h.sound i,
    h.scored.effect h.coherent h.sound h.underway he, h.prompt.step h.sound h.underway i,
    h.metered.effect h.underway he⟩

theorem Reachable.bounded (h : Reachable g) : Bounded g :=
  Runs.Reaches.invariant step (P := Bounded) (fun _ hs => bounded_of_initial hs)
    (fun _ i hs _ => hs.step i) h

end Game

end ScrabbleMagyar
