import ScrabbleMagyar.Engine.Conservation

/-!
# Every game ends

A turn either lays tiles, which then stay on the board, or is one more turn without a score,
and six of these in a row end the game. The measure of a game that goes on is six times the
number of its tiles off the board, plus the turns without a score that are still to spare.

* `Turn`: the operations that take a turn, as changes of the state; `turnTaken` recognises
  them by their results (`step_outcome`).
* `Turn.progress`: what a turn does to the board and to the counter.
* `turns_bounded`: the bound on the number of turns.
-/

namespace ScrabbleMagyar

/-- The operations that can take a turn. -/
def Op.takesTurns : Op → Bool
  | .placeTiles .. => true
  | .exchangeTiles .. => true
  | .passTurn .. => true
  | .expireTurn => true
  | op => op.decides

theorem Op.takesTurns_of_decides {op : Op} (h : op.decides = true) : op.takesTurns = true := by
  cases op <;> first | exact h | rfl

namespace Game

/-! ## Turns -/

/-- What a turn was used for. -/
inductive TurnUse
  | placement
  | scoreless
  deriving DecidableEq

/-- The turn that an operation takes, if it takes one: a direct placement, a decided one, an
exchange, a pass or a missed deadline. -/
def turnTaken (g : Game) (i : Input) : Option TurnUse :=
  let env := i.1
  match i.2 with
  | .placeTiles playerId tiles =>
    let (g, result) := g.placeTiles env playerId tiles
    if result.isOk && g.pendingChallenge.isNone then some .placement else none
  | .acceptPendingByPlayer playerId => ofVote (g.acceptPendingByPlayer env playerId).2
  | .rejectPendingByPlayer playerId => ofVote (g.rejectPendingByPlayer env playerId).2
  | .acceptPending => ofVote (g.acceptPending env).2
  | .forceResolvePending accept => ofVote (g.forceResolvePending env accept).2
  | .exchangeTiles playerId tileIndices =>
    if (g.exchangeTiles env playerId tileIndices).2.isOk then some .scoreless else none
  | .passTurn playerId timeout =>
    if (g.passTurn env playerId timeout).2.isOk then some .scoreless else none
  | .expireTurn => if (g.expireTurn env).2 then some .scoreless else none
  | _ => none
where
  /-- The turn that a vote takes when it decides on the pending placement. -/
  ofVote : Fallible (VoteResult × String) → Option TurnUse
    | .ok (.accepted, _) => some .placement
    | .ok (.rejected, _) => some .scoreless
    | .ok (.recorded, _) => none
    | .error _ => none

def takesTurn (g : Game) (i : Input) : Bool := (g.turnTaken i).isSome

/-- The changes of the state that a turn can make. -/
inductive Turn (env : Env) (g : Game) : TurnUse → Game → Prop
  | placed (playerId : String) (tiles : List Placed) (formed : List FormedWord)
      (may : Placeable env.lexicon g playerId tiles formed) :
      Turn env g .placement (g.placedNow env tiles formed)
  | accepted (pc : Challenge) (pending : g.pendingChallenge = some pc) :
      Turn env g .placement ((g.layPending pc).closeTurn env pc.playerIdx)
  | rejected (pc : Challenge) (pending : g.pendingChallenge = some pc) :
      Turn env g .scoreless (g.finalizeReject env)
  | exchanged (tileIndices : List ℤ) (may : ∃ playerId, MayAct g playerId) :
      Turn env g .scoreless ((g.swapTiles env tileIndices).scorelessNextTurn env)
  | passed (timeout : Bool) (may : ∃ playerId, MayAct g playerId) :
      Turn env g .scoreless ((g.notePass timeout).scorelessNextTurn env)
  | expelled (idx : ℕ) (may : ∃ playerId, MayAct g playerId)
      (goesOn : g.scorelessTurns + 1 < scorelessTurnsLimit) :
      Turn env g .scoreless (((g.notePass true).bumped.nextTurn env).resignSeat idx)

variable {env : Env} {g : Game} {use : TurnUse}

/-- A placement that passes the checks lays at least one tile. -/
theorem tiles_lt_of_valid {lex : Lexicon} {b : Board} {placed : List Placed}
    {skipDictionary : Bool} {formed : List FormedWord}
    (h : b.validatePlacement lex placed skipDictionary = .ok formed) :
    b.tiles.card < (b.applyPlacement placed).tiles.card := by
  have hchecked := (Board.validatePlacement_ok_iff _ _ _ _ _).mp h
  have := List.length_pos_iff.mpr hchecked.nonempty
  rw [Board.tiles_applyPlacement hchecked.fits, Multiset.card_add, Multiset.coe_card,
    List.length_map]
  omega

/-- What a turn does to the board and to the counter of turns without a score. -/
structure Progress (g : Game) (use : TurnUse) (g' : Game) : Prop where
  laid : use = .placement → g.board.tiles.card < g'.board.tiles.card
  reset : use = .placement → g'.scorelessTurns = 0
  same : use = .scoreless → g'.board = g.board
  counted : use = .scoreless → g'.scorelessTurns = g.scorelessTurns + 1
  limit : use = .scoreless → scorelessTurnsLimit ≤ g.scorelessTurns + 1 → g'.finished = true

theorem Progress.placement {g' : Game} (hlaid : g.board.tiles.card < g'.board.tiles.card)
    (hreset : g'.scorelessTurns = 0) : Progress g .placement g' :=
  ⟨fun _ => hlaid, fun _ => hreset, nofun, nofun, nofun⟩

theorem Progress.scoreless {g' : Game} (hsame : g'.board = g.board)
    (hcounted : g'.scorelessTurns = g.scorelessTurns + 1)
    (hlimit : scorelessTurnsLimit ≤ g.scorelessTurns + 1 → g'.finished = true) :
    Progress g .scoreless g' :=
  ⟨nofun, nofun, fun _ => hsame, fun _ => hcounted, fun _ => hlimit⟩

theorem scorelessNextTurn_progress (env : Env) (g : Game) :
    Progress g .scoreless (g.scorelessNextTurn env) := by
  obtain ⟨hboard, -, -, -, hcount⟩ := (scorelessNextTurn_settles env g).keeps
  refine .scoreless hboard hcount fun hlimit => ?_
  rw [scorelessNextTurn_eq, if_pos hlimit, endGame_finished]

theorem Progress.congr {g₀ g' : Game} (h : Progress g use g') (hboard : g.board = g₀.board)
    (hcount : g.scorelessTurns = g₀.scorelessTurns) : Progress g₀ use g' where
  laid := hboard ▸ h.laid
  reset := h.reset
  same := hboard ▸ h.same
  counted := hcount ▸ h.counted
  limit := hcount ▸ h.limit

/-- **A turn** lays at least one more tile, or is one more turn without a score on the same
board. -/
theorem Turn.progress {g' : Game} (h : Turn env g use g') (hsound : PendingSound g) :
    Progress g use g' := by
  cases h with
  | placed playerId tiles formed may =>
    obtain ⟨hboard, -, -, -, hcount⟩ := (finalizePlacement_settles env g tiles
      (lerakasTotal formed tiles.length) (formed.map FormedWord.word) formed).keeps
    exact .placement (hboard ▸ tiles_lt_of_valid may.valid) hcount
  | accepted pc pending =>
    obtain ⟨lex, hvalid⟩ := (hsound pc pending).valid
    obtain ⟨hboard, -, -, -, hcount⟩ := (closeTurn_settles env (g.layPending pc) pc.playerIdx).keeps
    exact .placement (hboard ▸ tiles_lt_of_valid hvalid) hcount
  | rejected pc pending =>
    obtain ⟨hboard, -, -, -, hcount⟩ := (finalizeReject_settles env g pending).keeps
    refine .scoreless hboard hcount fun hlimit => ?_
    rw [finalizeReject_eq env g pending, if_pos hlimit, endGame_finished]
  | exchanged tileIndices => exact (scorelessNextTurn_progress env _).congr rfl rfl
  | passed timeout =>
    exact (scorelessNextTurn_progress env _).congr (by cases timeout <;> rfl)
      (by cases timeout <;> rfl)
  | expelled idx may goesOn =>
    rw [resignSeat_rest]
    exact .scoreless (nextTurn_board env (g.notePass true).bumped)
      (nextTurn_scorelessTurns env (g.notePass true).bumped) fun _ => rfl

/-! ## The counter of turns without a score -/

/-- A game that is over has nothing pending, and one that goes on has turns without a score to
spare. -/
structure Underway (g : Game) : Prop where
  quiet : g.finished = true → g.pendingChallenge = none
  spare : g.finished = false → g.scorelessTurns < scorelessTurnsLimit

theorem underway_of_initial (h : Initial g) : Underway g := by
  obtain ⟨_, _, _, _, _, rfl⟩ | ⟨_, _, _, rfl⟩ := h <;>
  exact ⟨fun _ => rfl, fun _ => by simp [new, newAsync, scorelessTurnsLimit]⟩

/-- A turn that resets the counter leaves turns to spare. -/
theorem Settles.underway {g' : Game} (h : Settles env g g') (hfree : g.pendingChallenge = none)
    (hcount : g.scorelessTurns = 0) : Underway g' :=
  ⟨fun _ => h.pendingChallenge hfree, fun _ => by
    rw [h.keeps.2.2.2.2, hcount]
    simp [scorelessTurnsLimit]⟩

theorem Underway.of_over {g' : Game} (hfinished : g'.finished = true)
    (hpending : g'.pendingChallenge = none) : Underway g' :=
  ⟨fun _ => hpending, fun hfin => absurd (hfinished.symm.trans hfin) (by simp)⟩

theorem toU32_scorelessTurns (h : Underway g) (hfin : g.finished = false) :
    toU32 g.scorelessTurns = g.scorelessTurns := by
  have := h.spare hfin
  exact toU32_natCast (by simp only [scorelessTurnsLimit] at this; omega)

/-- A game after a turn without a score goes on only with turns to spare. -/
theorem Progress.underway {g' : Game} (h : Progress g .scoreless g')
    (hfree : g'.finished = true → g'.pendingChallenge = none) : Underway g' := by
  refine ⟨hfree, fun hfin => ?_⟩
  rw [h.counted rfl]
  by_contra hlimit
  exact absurd (hfin.symm.trans (h.limit rfl (not_lt.mp hlimit))) (by simp)

theorem Turn.underway {g' : Game} (h : Turn env g use g') (hsound : PendingSound g) :
    Underway g' := by
  have hprogress := h.progress hsound
  cases h with
  | placed playerId tiles formed may =>
    exact (finalizePlacement_settles env g _ _ _ _).underway may.free rfl
  | accepted pc pending => exact (closeTurn_settles env _ _).underway rfl rfl
  | rejected pc pending =>
    exact hprogress.underway fun _ => (finalizeReject_settles env g pending).pendingChallenge rfl
  | exchanged tileIndices may =>
    obtain ⟨_, may⟩ := may
    exact hprogress.underway fun _ =>
      (scorelessNextTurn_settles env (g.swapTiles env tileIndices)).pendingChallenge may.free
  | passed timeout may =>
    obtain ⟨_, may⟩ := may
    have hfree : (g.notePass timeout).pendingChallenge = none := by cases timeout <;> exact may.free
    exact hprogress.underway fun _ =>
      (scorelessNextTurn_settles env (g.notePass timeout)).pendingChallenge hfree
  | expelled idx may =>
    rw [resignSeat_rest]
    exact .of_over rfl rfl

/-- A change that leaves the board and the counter of a game that goes on alone. -/
structure Idle (g g' : Game) : Prop where
  board : g'.board = g.board
  finished : g'.finished = g.finished
  counted : g.finished = false → g'.scorelessTurns = g.scorelessTurns
  quiet : g.finished = true → g'.pendingChallenge = none

/-- What an operation is, by the turn it takes: a turn, the end of the game, or neither. -/
inductive Outcome (env : Env) (g : Game) : Option TurnUse → Game → Prop
  | turn {use : TurnUse} {g' : Game} (h : Turn env g use g') : Outcome env g (some use) g'
  | gameOver {g' : Game} (finished : g'.finished = true) (quiet : g'.pendingChallenge = none) :
      Outcome env g none g'
  | idle {g' : Game} (h : Idle g g') : Outcome env g none g'

theorem Outcome.of_some {g' : Game} (h : Outcome env g (some use) g') : Turn env g use g' := by
  cases h with
  | turn h => exact h

theorem Outcome.turn_or {t : Option TurnUse} {g' : Game} (h : Outcome env g t g') :
    (∃ use, t = some use ∧ Turn env g use g') ∨
      t = none ∧ (g'.finished = true ∧ g'.pendingChallenge = none ∨ Idle g g') := by
  cases h with
  | turn h => exact .inl ⟨_, rfl, h⟩
  | gameOver finished quiet => exact .inr ⟨rfl, .inl ⟨finished, quiet⟩⟩
  | idle h => exact .inr ⟨rfl, .inr h⟩

theorem Underway.unfinished (h : Underway g) {pc : Challenge}
    (pending : g.pendingChallenge = some pc) : g.finished = false := by
  by_contra hfin
  exact absurd ((h.quiet (by simpa using hfin)).symm.trans pending) (by simp)

theorem Underway.refused (h : Underway g) : Outcome env g none g :=
  .idle ⟨rfl, rfl, fun _ => rfl, h.quiet⟩

/-- An operation on an unfinished game that leaves the board, the counter and the end alone. -/
theorem Outcome.aside {g' : Game} (unfinished : g.finished = false) (hboard : g'.board = g.board)
    (hfinished : g'.finished = g.finished) (hcount : g'.scorelessTurns = g.scorelessTurns) :
    Outcome env g none g' :=
  .idle ⟨hboard, hfinished, fun _ => hcount, fun hfin => absurd (unfinished.symm.trans hfin) (by simp)⟩

/-- The operations that never take a turn. -/
theorem Effect.outcome {g' : Game} {op : Op} (he : Effect env g op g') (hunder : Underway g)
    (hop : op.takesTurns = false) : Outcome env g none g' := by
  cases he with
  | placed => simp [Op.takesTurns] at hop
  | proposed => simp [Op.takesTurns] at hop
  | accepted op pc pending decides => simp [Op.takesTurns_of_decides decides] at hop
  | rejected op pc pending decides => simp [Op.takesTurns_of_decides decides] at hop
  | exchanged => simp [Op.takesTurns] at hop
  | passed => simp [Op.takesTurns] at hop
  | expired => simp [Op.takesTurns] at hop
  | expelled => simp [Op.takesTurns] at hop
  | voted op pc pending => exact .aside (hunder.unfinished pending) rfl rfl rfl
  | withdrawn playerId pc pending => exact .aside (hunder.unfinished pending) rfl rfl rfl
  | resigned => exact .gameOver (by rw [resignSeat_rest]) (by rw [resignSeat_rest])
  | ended => exact .gameOver (endGame_finished _ _) (endGame_pendingChallenge _ _)
  | reconnected oldId newId idx seat =>
    refine .idle ⟨rfl, rfl, fun _ => rfl, fun hfin => ?_⟩
    simp [reconnectSeat, modifyPlayer, hunder.quiet hfin]
  | removed playerId idx seat =>
    refine .idle ⟨?_, ?_, fun _ => ?_, fun hfin => ?_⟩ <;> simp only [removeSeat] <;> split <;>
      first | rfl | simp [hunder.quiet hfin]
  | skipped started unfinished free =>
    exact .aside unfinished (nextTurn_board _ _) (nextTurn_finished _ _) (nextTurn_scorelessTurns _ _)
  | restored => exact .idle ⟨rfl, rfl, toU32_scorelessTurns hunder, fun _ => rfl⟩
  | _ => exact .idle ⟨rfl, rfl, fun _ => rfl, hunder.quiet⟩

theorem castVote_outcome (hunder : Underway g) (playerId : String) (vote : Vote) :
    Outcome env g (turnTaken.ofVote (g.castVote env playerId vote).2)
      (g.castVote env playerId vote).1 := by
  obtain ⟨e, hc⟩ | ⟨pc, voter, hpc, -, -, -, ⟨-, hc⟩ | ⟨-, ⟨-, hc⟩ | ⟨-, hc⟩⟩⟩ :=
    castVote_cases env g playerId vote <;> rw [hc]
  · exact hunder.refused
  · exact .aside (hunder.unfinished hpc) rfl rfl rfl
  · rw [finalizeAccept_eq hpc]
    exact .turn (.accepted pc hpc)
  · exact .turn (.rejected pc hpc)

theorem placeTiles_outcome (hunder : Underway g) (playerId : String) (tiles : List Placed) :
    Outcome env g (g.turnTaken (env, .placeTiles playerId tiles))
      (g.placeTiles env playerId tiles).1 := by
  simp only [turnTaken]
  obtain ⟨e, hc⟩ | ⟨formed, hc⟩ := placeTiles_cases env g playerId tiles
  · rw [hc]
    exact hunder.refused
  rw [placeTiles_eq hc]
  by_cases hvote : g.challengeApplies g.currentPlayerIdx = true
  · simp only [hvote, if_true]
    exact .aside hc.unfinished rfl rfl rfl
  · have hfree : (g.placedNow env tiles formed).pendingChallenge = none :=
      (finalizePlacement_settles env g _ _ _ _).pendingChallenge hc.free
    simp only [hvote, Bool.false_eq_true, if_false, hfree]
    exact .turn (.placed _ _ _ hc)

/-- **One operation**: it takes the turn that `turnTaken` reads off its result. -/
theorem step_outcome (hunder : Underway g) (op : Op) :
    Outcome env g (g.turnTaken (env, op)) (g.step (env, op)) := by
  cases op with
  | placeTiles playerId tiles => exact placeTiles_outcome hunder playerId tiles
  | acceptPendingByPlayer playerId => exact castVote_outcome hunder playerId .accept
  | rejectPendingByPlayer playerId => exact castVote_outcome hunder playerId .reject
  | acceptPending =>
    change Outcome env g (turnTaken.ofVote (g.acceptPending env).2) (g.acceptPending env).1
    cases hpc : g.pendingChallenge with
    | none =>
      simp only [acceptPending, hpc, Option.isNone_none, if_true]
      exact hunder.refused
    | some pc =>
      simp only [acceptPending, hpc, Option.isNone_some, Bool.false_eq_true, if_false]
      obtain hr | hr := resolveAndFinalize_cases env g <;> rw [hr]
      · rw [finalizeAccept_eq hpc]
        exact .turn (.accepted pc hpc)
      · exact .turn (.rejected pc hpc)
  | forceResolvePending accept =>
    change Outcome env g (turnTaken.ofVote (g.forceResolvePending env accept).2)
      (g.forceResolvePending env accept).1
    cases hpc : g.pendingChallenge with
    | none =>
      simp only [forceResolvePending, hpc, Option.isNone_none, if_true]
      exact hunder.refused
    | some pc =>
      simp only [forceResolvePending, hpc, Option.isNone_some, Bool.false_eq_true, if_false]
      cases accept with
      | true =>
        simp only [if_true, finalizeAccept_eq hpc]
        exact .turn (.accepted pc hpc)
      | false => exact .turn (.rejected pc hpc)
  | exchangeTiles playerId tileIndices =>
    change Outcome env g (if (g.exchangeTiles env playerId tileIndices).2.isOk then some .scoreless
      else none) (g.exchangeTiles env playerId tileIndices).1
    obtain ⟨e, hc⟩ | ⟨hmay, -, m, hc⟩ := exchangeTiles_cases env g playerId tileIndices <;> rw [hc]
    · exact hunder.refused
    · exact .turn (.exchanged _ ⟨_, hmay⟩)
  | passTurn playerId timeout =>
    change Outcome env g (if (g.passTurn env playerId timeout).2.isOk then some .scoreless
      else none) (g.passTurn env playerId timeout).1
    obtain ⟨e, hc⟩ | ⟨hmay, hc⟩ := passTurn_cases env g playerId timeout <;> rw [hc]
    · exact hunder.refused
    · exact .turn (.passed _ ⟨_, hmay⟩)
  | expireTurn =>
    change Outcome env g (if (g.expireTurn env).2 then some .scoreless else none) (g.expireTurn env).1
    obtain hc | ⟨hmay, -, -, hc | ⟨hlimit, idx, -, hc⟩⟩ := expireTurn_cases env g <;> rw [hc]
    · exact hunder.refused
    · exact .turn (.passed true hmay)
    · exact .turn (.expelled idx hmay hlimit)
  | _ => exact (step_effect env g _).outcome hunder rfl

theorem Underway.step (h : Underway g) (hsound : PendingSound g) (i : Input) :
    Underway (g.step i) := by
  obtain ⟨_, -, hturn⟩ | ⟨-, ⟨hfin, hpending⟩ | hidle⟩ := (step_outcome (g := g) h i.2).turn_or
  · exact hturn.underway hsound
  · exact .of_over hfin hpending
  · exact ⟨fun hf => hidle.quiet (hidle.finished ▸ hf), fun hf => by
      rw [hidle.counted (hidle.finished ▸ hf)]
      exact h.spare (hidle.finished ▸ hf)⟩

/-! ## The measure -/

/-- The turns without a score that a game can still take in a row. -/
def scorelessLeft (g : Game) : ℕ :=
  if g.finished then 0 else scorelessTurnsLimit - g.scorelessTurns

/-- The turns that a game can still take when its board has room for `capacity` tiles. -/
def turnsLeftIn (capacity : ℕ) (g : Game) : ℕ :=
  if g.finished then 0
  else scorelessTurnsLimit * (capacity - g.board.tiles.card) +
    (scorelessTurnsLimit - g.scorelessTurns)

/-- The turns that a game can still take with its tiles. -/
def turnsLeft (g : Game) : ℕ := g.turnsLeftIn g.tilesInPlay.card

theorem board_card_le (g : Game) : g.board.tiles.card ≤ g.tilesInPlay.card := by
  simp only [tilesInPlay, Multiset.card_add]
  omega

theorem turnsLeftIn_of_finished (h : g.finished = true) (n : ℕ) : g.turnsLeftIn n = 0 := by
  simp [turnsLeftIn, h]

theorem scorelessLeft_of_finished (h : g.finished = true) : g.scorelessLeft = 0 := by
  simp [scorelessLeft, h]

/-- While the game goes on, there is a turn left, also without a score. -/
theorem Underway.left_pos (h : Underway g) (hfin : g.finished = false) (n : ℕ) :
    0 < g.scorelessLeft ∧ 0 < g.turnsLeftIn n := by
  have := h.spare hfin
  simp only [scorelessLeft, turnsLeftIn, hfin, Bool.false_eq_true, if_false]
  omega

theorem turnsLeftIn_le (g : Game) (n : ℕ) : g.turnsLeftIn n ≤ scorelessTurnsLimit * (n + 1) := by
  have hle : scorelessTurnsLimit * (n - g.board.tiles.card) ≤ scorelessTurnsLimit * n :=
    Nat.mul_le_mul_left _ (Nat.sub_le _ _)
  simp only [turnsLeftIn, mul_add, mul_one]
  split <;> omega

theorem scorelessLeft_le (g : Game) : g.scorelessLeft ≤ scorelessTurnsLimit := by
  simp only [scorelessLeft]
  split <;> omega

/-- Turns are taken in games that go on. -/
theorem Turn.unfinished {g' : Game} (h : Turn env g use g') (hunder : Underway g) :
    g.finished = false := by
  cases h with
  | placed playerId tiles formed may => exact may.unfinished
  | accepted pc pending => exact hunder.unfinished pending
  | rejected pc pending => exact hunder.unfinished pending
  | exchanged tileIndices may => exact may.elim fun _ may => may.unfinished
  | passed timeout may => exact may.elim fun _ may => may.unfinished
  | expelled idx may => exact may.elim fun _ may => may.unfinished

theorem Turn.turnsLeftIn_lt {g' : Game} (h : Turn env g use g') (hsound : PendingSound g)
    (hunder : Underway g) {n : ℕ} (hroom : g'.board.tiles.card ≤ n) :
    g'.turnsLeftIn n < g.turnsLeftIn n := by
  have hfin := h.unfinished hunder
  have hspare := hunder.spare hfin
  have hprogress := h.progress hsound
  by_cases hfin' : g'.finished = true
  · rw [turnsLeftIn_of_finished hfin']
    exact (hunder.left_pos hfin n).2
  simp only [turnsLeftIn, hfin, hfin', Bool.false_eq_true, if_false]
  cases use with
  | placement =>
    have hlaid := hprogress.laid rfl
    have hless : scorelessTurnsLimit * (n - g'.board.tiles.card + 1) ≤
        scorelessTurnsLimit * (n - g.board.tiles.card) :=
      Nat.mul_le_mul_left _ (by omega)
    rw [mul_add, mul_one] at hless
    omega
  | scoreless =>
    rw [hprogress.same rfl, hprogress.counted rfl]
    omega

theorem Turn.turnsLeft_lt {g' : Game} (h : Turn env g use g') (hsound : PendingSound g)
    (hunder : Underway g) (htiles : g'.tilesInPlay = g.tilesInPlay) :
    g'.turnsLeft < g.turnsLeft := by
  simp only [turnsLeft, htiles]
  exact h.turnsLeftIn_lt hsound hunder (htiles ▸ board_card_le g')

theorem Turn.scorelessLeft_lt {g' : Game} (h : Turn env g .scoreless g') (hsound : PendingSound g)
    (hunder : Underway g) : g'.scorelessLeft < g.scorelessLeft := by
  have hfin := h.unfinished hunder
  have hspare := hunder.spare hfin
  by_cases hfin' : g'.finished = true
  · rw [scorelessLeft_of_finished hfin']
    exact (hunder.left_pos hfin 0).1
  simp only [scorelessLeft, hfin, hfin', Bool.false_eq_true, if_false,
    (h.progress hsound).counted rfl]
  omega

/-- An operation that takes no turn leaves the measures alone or ends the game. -/
theorem Idle.left {g' : Game} (h : Idle g g') (n : ℕ) :
    g'.scorelessLeft = g.scorelessLeft ∧ g'.turnsLeftIn n = g.turnsLeftIn n := by
  by_cases hfin : g.finished = true
  · simp [scorelessLeft, turnsLeftIn, hfin, h.finished]
  · have hfin' : g.finished = false := by simpa using hfin
    refine ⟨?_, ?_⟩
    · simp [scorelessLeft, h.finished, h.counted hfin']
    · simp [turnsLeftIn, h.finished, h.counted hfin', h.board]

/-! ## Runs -/

/-- A game on which the measures work. -/
structure Playing (g : Game) : Prop where
  started : g.started = true
  sound : PendingSound g
  underway : Underway g

theorem Playing.step (h : Playing g) (i : Input) : Playing (g.step i) :=
  ⟨(step_effect i.1 g i.2).started h.started, h.sound.step i, h.underway.step h.sound i⟩

theorem Reachable.playing (h : Reachable g) (hstarted : g.started = true) : Playing g :=
  have hinv := Runs.Reaches.invariant step (P := fun g => PendingSound g ∧ Underway g)
    (fun _ h => ⟨pendingSound_of_initial h, underway_of_initial h⟩)
    (fun _ i h _ => ⟨h.1.step i, h.2.step h.1 i⟩) h
  ⟨hstarted, hinv.1, hinv.2⟩

theorem Playing.outcome (h : Playing g) (i : Input) :
    Outcome i.1 g (g.turnTaken i) (g.step i) :=
  step_outcome h.underway i.2

theorem Playing.turn (h : Playing g) {i : Input} (huse : g.turnTaken i = some use) :
    Turn i.1 g use (g.step i) := by
  have houtcome := h.outcome i
  rw [huse] at houtcome
  exact houtcome.of_some

theorem Playing.turnsLeft_lt (h : Playing g) {i : Input} (hi : takesTurn g i = true) :
    (g.step i).turnsLeft < g.turnsLeft := by
  obtain ⟨use, huse⟩ := Option.isSome_iff_exists.mp hi
  refine (h.turn huse).turnsLeft_lt h.sound h.underway
    ((step_effect i.1 g i.2).tilesInPlay h.sound h.started ?_ ?_)
  · intro playerId hop
    simp [turnTaken, hop] at huse
  · rintro ⟨playerId, hop, -⟩
    simp [turnTaken, hop] at huse

theorem Playing.turnsLeft_le (h : Playing g) (i : Input)
    (hremove : ∀ playerId, i.2 ≠ .removePlayer playerId) :
    (g.step i).turnsLeft ≤ g.turnsLeft := by
  obtain ⟨env, op⟩ := i
  by_cases hresign : ResignsPending g op
  · obtain ⟨playerId, rfl, -⟩ := hresign
    change (g.resign playerId).1.turnsLeft ≤ _
    obtain ⟨e, hc⟩ | ⟨idx, -, -, -, hc⟩ := resign_cases g playerId <;> rw [hc]
    rw [turnsLeft, turnsLeftIn_of_finished (by rw [resignSeat_rest])]
    exact Nat.zero_le _
  have htiles := (step_effect env g op).tilesInPlay h.sound h.started hremove hresign
  obtain ⟨_, -, hturn⟩ | ⟨-, ⟨hfin, -⟩ | hidle⟩ := (h.outcome (env, op)).turn_or
  · exact (hturn.turnsLeft_lt h.sound h.underway htiles).le
  · rw [turnsLeft, turnsLeftIn_of_finished hfin]
    exact Nat.zero_le _
  · rw [turnsLeft, htiles]
    exact (hidle.left _).2.le

theorem Playing.scorelessLeft_lt (h : Playing g) {i : Input}
    (hplacement : g.turnTaken i ≠ some .placement) (hi : takesTurn g i = true) :
    (g.step i).scorelessLeft < g.scorelessLeft := by
  obtain ⟨use, huse⟩ := Option.isSome_iff_exists.mp hi
  cases use with
  | placement => exact absurd huse hplacement
  | scoreless => exact (h.turn huse).scorelessLeft_lt h.sound h.underway

theorem Playing.scorelessLeft_le (h : Playing g) {i : Input}
    (hplacement : g.turnTaken i ≠ some .placement) :
    (g.step i).scorelessLeft ≤ g.scorelessLeft := by
  obtain ⟨use, huse, hturn⟩ | ⟨-, ⟨hfin, -⟩ | hidle⟩ := (h.outcome i).turn_or
  · exact (h.scorelessLeft_lt hplacement (by simp [takesTurn, huse])).le
  · rw [scorelessLeft_of_finished hfin]
    exact Nat.zero_le _
  · exact (hidle.left 0).1.le

/-- **Every game ends.** In a game of `N` tiles at most `6 * (N + 1)` turns are taken, and the
last of so many ends it; a turn lays a tile or is one more turn without a score; and six turns
without a score in a row end the game. -/
theorem turns_bounded {g : Game} (h : Reachable g) (hstarted : g.started = true) {l : List Input}
    (hl : ∀ i ∈ l, ∀ playerId, i.2 ≠ .removePlayer playerId) :
    Runs.count step takesTurn g l ≤ 6 * (g.tilesInPlay.card + 1) ∧
      (6 * (g.tilesInPlay.card + 1) ≤ Runs.count step takesTurn g l →
        (Runs.run step g l).finished = true) ∧
      (∀ i use, (Runs.run step g l).turnTaken i = some use →
        Progress (Runs.run step g l) use ((Runs.run step g l).step i)) ∧
      (Runs.Along step (fun g i => g.turnTaken i ≠ some .placement) g l →
        6 ≤ Runs.count step takesTurn g l → (Runs.run step g l).finished = true) := by
  have hplay := h.playing hstarted
  have hend : Playing (Runs.run step g l) :=
    Runs.run_invariant step (Q := fun _ _ => True) (fun s i hs _ => hs.step i) hplay
      (Runs.along_of_forall step (fun _ _ _ => trivial) g)
  have hcount : Runs.count step takesTurn g l + (Runs.run step g l).turnsLeft ≤ g.turnsLeft :=
    Runs.count_add_le step (P := Playing) (Q := fun _ i => ∀ playerId, i.2 ≠ .removePlayer playerId)
      (fun s i hs _ => hs.step i) (fun s i hs hi => hs.turnsLeft_le i hi)
      (fun s i hs _ hi => hs.turnsLeft_lt hi) hplay
      (Runs.along_of_forall step (fun i hi _ => hl i hi) g)
  have hbound : g.turnsLeft ≤ 6 * (g.tilesInPlay.card + 1) := g.turnsLeftIn_le _
  refine ⟨by omega, fun hmany => ?_, fun i use huse => (hend.turn huse).progress hend.sound,
    fun hscoreless hmany => ?_⟩
  · by_contra hfin
    have : 0 < (Runs.run step g l).turnsLeft :=
      (hend.underway.left_pos (by simpa using hfin) _).2
    omega
  · have hcount : Runs.count step takesTurn g l + (Runs.run step g l).scorelessLeft ≤
        g.scorelessLeft :=
      Runs.count_add_le step (P := Playing) (Q := fun g i => g.turnTaken i ≠ some .placement)
        (fun s i hs _ => hs.step i) (fun s i hs hi => hs.scorelessLeft_le hi)
        (fun s i hs hi hturn => hs.scorelessLeft_lt hi hturn) hplay hscoreless
    have hbound : g.scorelessLeft ≤ 6 := g.scorelessLeft_le
    by_contra hfin
    have := (hend.underway.left_pos (by simpa using hfin) 0).1
    omega

/-- Six passes of two players end their game. -/
theorem turns_bounded_duel :
    (Runs.run step (duel true) [(stillEnv, .passTurn "a" false), (stillEnv, .passTurn "b" false),
      (stillEnv, .passTurn "a" false), (stillEnv, .passTurn "b" false),
      (stillEnv, .passTurn "a" false), (stillEnv, .passTurn "b" false)]).finished = true :=
  (turns_bounded (reachable_duel true) (by decide +kernel) (by simp)).2.2.2
    (by simp only [Runs.Along]; decide +kernel) (by decide +kernel)

end Game

end ScrabbleMagyar
