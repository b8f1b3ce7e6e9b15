import ScrabbleMagyar.Engine.Lineage

/-!
# The two ways to finalise a placement

A placement is finalised at once, or it is put to the vote and finalised when the vote accepts
it. The second way splits the first in two, with the votes of the others between: the tiles
leave the hand when the placement is proposed, and all the rest happens when it is accepted.
Both ways end in the same game, up to the log entry (`accepted_eq_placed`).

* `awaiting`: a game whose placement waits for votes, over the game before the placement.
* `recast`: a game under another challenge mode and with another log; closing a turn does not
  look at either (`closeTurn_recast`).
-/

namespace ScrabbleMagyar

namespace Game

/-! ## What closing a turn does not look at -/

/-- The game under another challenge mode and with another log. -/
def recast (g : Game) (challengeMode : Bool) (moveLog : List MoveLog) : Game :=
  { g with challengeMode, moveLog }

/-- The game with the vote switched on or off. -/
def voteMode (g : Game) (challengeMode : Bool) : Game := { g with challengeMode }

variable (env : Env) (g : Game) (mode : Bool) (log : List MoveLog)

theorem advance_recast (n : ℕ) : (g.recast mode log).advance n = (g.advance n).recast mode log := by
  induction n generalizing g with
  | zero => rfl
  | succ n ih =>
    let g₁ : Game := { g with currentPlayerIdx := (g.currentPlayerIdx + 1) % g.players.length }
    let p := g₁.playerAt g₁.currentPlayerIdx
    change (if p.disconnected && !g.asyncMode then
        if g.players.any fun q => !q.disconnected then (g₁.recast mode log).advance n
        else g₁.recast mode log
      else if p.skipNextTurn then ((g₁.paySkip g₁.currentPlayerIdx).recast mode log).advance n
      else g₁.recast mode log) = Game.recast (if p.disconnected && !g.asyncMode then
          if g.players.any fun q => !q.disconnected then g₁.advance n else g₁
        else if p.skipNextTurn then (g₁.paySkip g₁.currentPlayerIdx).advance n
        else g₁) mode log
    rw [ih, ih]
    split
    · split <;> rfl
    · split <;> rfl

theorem nextTurn_recast :
    (g.recast mode log).nextTurn env = (g.nextTurn env).recast mode log := by
  have h := advance_recast g mode log g.players.length
  change resetDeadline env { (g.recast mode log).advance g.players.length with
    turnNumber := ((g.recast mode log).advance g.players.length).turnNumber + 1 } = _
  rw [h]
  rfl

theorem endGame_recast (finisher : Option ℕ) :
    (g.recast mode log).endGame finisher = (g.endGame finisher).recast mode log := by
  have hover (g : Game) (winners : List Player) (topScore : ℤ) :
      (g.recast mode log).setGameOver winners topScore =
        (g.setGameOver winners topScore).recast mode log := by
    obtain _ | ⟨w, _ | ⟨_, _⟩⟩ := winners <;> rfl
  exact hover { g with
    finished := true
    pendingChallenge := none
    players := settle g.players finisher
    winners := (settle g.players finisher).filter fun p =>
      p.score = ((settle g.players finisher).map Player.score).max?.getD 0 } _ _

theorem closeTurn_recast (idx : ℕ) :
    (g.recast mode log).closeTurn env idx = (g.closeTurn env idx).recast mode log := by
  change (if (g.playerAt idx).hand.isEmpty && g.bag.isEmpty then
    (g.recast mode log).endGame (some idx) else (g.recast mode log).nextTurn env) = _
  simp only [closeTurn]
  split
  · exact endGame_recast g mode log _
  · exact nextTurn_recast env g mode log

/-- Without deadlines the clock plays no part in passing the turn on. -/
theorem closeTurn_sync {env env' : Env} {g : Game} (hsync : g.asyncMode = false) (idx : ℕ) :
    g.closeTurn env idx = g.closeTurn env' idx := by
  have hasync : (g.advance g.players.length).asyncMode = false := by
    rw [advance_rest]
    exact hsync
  have hnext : g.nextTurn env = g.nextTurn env' := by
    simp [nextTurn, resetDeadline, hasync]
  simp only [closeTurn, hnext]

/-! ## Games without deadlines -/

/-- Missed deadlines are passed on only in correspondence games. -/
def Punctual (g : Game) (i : Input) : Prop :=
  (∃ playerId, i.2 = .passTurn playerId true) → g.asyncMode = true

/-- Without deadlines nobody has missed one. -/
structure InTime (g : Game) : Prop where
  noPuzzle : g.puzzle = none
  inTime : g.asyncMode = false → ∀ p ∈ g.players, p.timeouts = 0

theorem InTime.step {g : Game} {i : Input} (h : InTime g) (hi : Punctual g i) :
    InTime (g.step i) := by
  have he := step_effect i.1 g i.2
  obtain ⟨hpuzzle, hasync⟩ := he.modes h.noPuzzle
  refine ⟨hpuzzle, fun hsync q hq => ?_⟩
  have hsync' : g.asyncMode = false := hasync.symm.trans hsync
  obtain (⟨_, _, rfl⟩ | ⟨_, _, _, rfl⟩) | ⟨p, hp, hpq⟩ := he.lineage q hq
  · rfl
  · rfl
  have hzero := h.inTime hsync' p hp
  obtain ht | ht | ht | ⟨hlate, -⟩ := hpq.timeouts
  · exact ht.trans hzero
  · exact ht
  · rw [ht, hzero]
    rfl
  · obtain hpass | ⟨-, hasync⟩ := hlate.missed
    · exact absurd (hsync'.symm.trans (hi hpass)) (by simp)
    · exact absurd (hsync'.symm.trans hasync) (by simp)

theorem inTime_of_reachable {g : Game} (h : ReachableBy Punctual g) : InTime g :=
  Runs.Reaches.invariant step (P := InTime)
    (by
      rintro _ (⟨_, _, _, _, _, rfl⟩ | ⟨_, _, _, rfl⟩) <;>
      exact ⟨rfl, fun _ _ hp => absurd hp (by simp [new, newAsync])⟩)
    (fun _ _ h hi => h.step hi) h

/-! ## Waiting for votes -/

/-- The tiles of a placement taken out of the hand. -/
def withoutTiles (tiles : List Placed) (p : Player) : Player :=
  { p with hand := (removeTilesFromHand p.hand tiles).1 }

/-- The pending placement of the current player with some votes. -/
def proposal (g : Game) (tiles : List Placed) (formed : List FormedWord) (now : ℚ)
    (votes : List (String × Vote)) : Challenge :=
  { Challenge.new now tiles formed (formed.map FormedWord.word) (lerakasTotal formed tiles.length)
      g.currentPlayerIdx (tiles.map Placed.handTile) with votes }

/-- The game, under challenge mode, while a placement of the current player waits for votes. -/
def awaiting (g : Game) (tiles : List Placed) (formed : List FormedWord) (now : ℚ)
    (votes : List (String × Vote)) (action : Option String) (info : Option Json) : Game :=
  { g with
    challengeMode := true
    players := g.players.modify g.currentPlayerIdx (withoutTiles tiles)
    pendingChallenge := some (g.proposal tiles formed now votes)
    lastAction := action
    lastActionInfo := info }

/-- The placement still waits for votes, or it has been decided on. -/
def Voting (g : Game) (tiles : List Placed) (formed : List FormedWord) (s : Game) : Prop :=
  (∃ now votes action info, s = g.awaiting tiles formed now votes action info) ∨
    s.pendingChallenge = none

/-- A vote that decides nothing only changes the votes and the last action. -/
theorem Voting.step {g s : Game} {tiles : List Placed} {formed : List FormedWord}
    (h : Voting g tiles formed s) (hstarted : s.started = true) {i : Input}
    (hi : i.2.decides = true) : Voting g tiles formed (s.step i) := by
  have he := step_effect i.1 s i.2
  change Effect i.1 s i.2 (s.step i) at he
  generalize s.step i = s' at he
  obtain ⟨env, op⟩ := i
  cases he with
  | refused => exact h
  | dealt op waiting => exact absurd (waiting.symm.trans hstarted) (by simp)
  | voted op pc pending voter playerId vote =>
    obtain ⟨now, votes, action, info, rfl⟩ | hnone := h
    · obtain rfl : g.proposal tiles formed now votes = pc := Option.some.inj pending
      exact .inl ⟨now, _, _, _, rfl⟩
    · exact absurd (hnone.symm.trans pending) (by simp)
  | accepted op pc pending => exact .inr ((closeTurn_settles env _ _).pendingChallenge rfl)
  | rejected op pc pending =>
    exact .inr ((finalizeReject_settles env s pending).pendingChallenge rfl)
  | _ => simp [Op.decides] at hi

/-- An operation that accepts the pending placement lays its tiles and closes the turn. -/
theorem step_of_accepting {env : Env} {s : Game} {op : Op} (hop : op.decides = true)
    (h : s.turnTaken (env, op) = some .placement) :
    ∃ pc, s.pendingChallenge = some pc ∧
      s.step (env, op) = (s.layPending pc).closeTurn env pc.playerIdx := by
  have hvote (playerId : String) (vote : Vote)
      (h : turnTaken.ofVote (s.castVote env playerId vote).2 = some .placement) :
      ∃ pc, s.pendingChallenge = some pc ∧
        (s.castVote env playerId vote).1 = (s.layPending pc).closeTurn env pc.playerIdx := by
    obtain ⟨e, hc⟩ | ⟨pc, voter, hpc, -, -, -, ⟨-, hc⟩ | ⟨-, ⟨-, hc⟩ | ⟨-, hc⟩⟩⟩ :=
      castVote_cases env s playerId vote <;> rw [hc] at h ⊢
    · simp [turnTaken.ofVote] at h
    · simp [turnTaken.ofVote] at h
    · exact ⟨pc, hpc, finalizeAccept_eq hpc⟩
    · simp [turnTaken.ofVote] at h
  cases op with
  | acceptPendingByPlayer playerId => exact hvote playerId .accept h
  | rejectPendingByPlayer playerId => exact hvote playerId .reject h
  | acceptPending =>
    change turnTaken.ofVote (s.acceptPending env).2 = _ at h
    change ∃ pc, _ ∧ (s.acceptPending env).1 = _
    cases hpc : s.pendingChallenge with
    | none => simp [acceptPending, hpc, turnTaken.ofVote] at h
    | some pc =>
      simp only [acceptPending, hpc, Option.isNone_some, Bool.false_eq_true, if_false] at h ⊢
      obtain hr | hr := resolveAndFinalize_cases env s <;> rw [hr] at h ⊢
      · exact ⟨pc, rfl, finalizeAccept_eq hpc⟩
      · simp [turnTaken.ofVote] at h
  | forceResolvePending accept =>
    change turnTaken.ofVote (s.forceResolvePending env accept).2 = _ at h
    change ∃ pc, _ ∧ (s.forceResolvePending env accept).1 = _
    cases hpc : s.pendingChallenge with
    | none => simp [forceResolvePending, hpc, turnTaken.ofVote] at h
    | some pc =>
      simp only [forceResolvePending, hpc, Option.isNone_some, Bool.false_eq_true, if_false] at h ⊢
      cases accept with
      | true => exact ⟨pc, rfl, finalizeAccept_eq hpc⟩
      | false => simp [turnTaken.ofVote] at h
  | _ => simp [Op.decides] at hop

/-! ## The two ways -/

/-- What laying tiles writes. -/
theorem layTiles_rest (tiles : List Placed) (score : ℤ) (words : List Word)
    (formed : List FormedWord) :
    g.layTiles tiles score words formed = { g with
      board := g.board.applyPlacement tiles
      rejectedPlacements := ∅
      scorelessTurns := 0
      bag := (g.layTiles tiles score words formed).bag
      players := (g.layTiles tiles score words formed).players
      moveLog := (g.layTiles tiles score words formed).moveLog
      lastAction := (g.layTiles tiles score words formed).lastAction
      lastActionInfo := (g.layTiles tiles score words formed).lastActionInfo } := rfl

/-- What laying the tiles of a pending placement writes. -/
theorem layPending_rest (pc : Challenge) :
    g.layPending pc = { g with
      pendingChallenge := none
      board := g.board.applyPlacement pc.tilesPlaced
      rejectedPlacements := ∅
      scorelessTurns := 0
      bag := (g.layPending pc).bag
      players := (g.layPending pc).players
      moveLog := (g.layPending pc).moveLog
      lastAction := (g.layPending pc).lastAction
      lastActionInfo := (g.layPending pc).lastActionInfo } := rfl

theorem layTiles_lastAction (tiles : List Placed) (score : ℤ) (words : List Word)
    (formed : List FormedWord) :
    let named := g.setPlaceAction (g.playerAt g.currentPlayerIdx).name words score
    (g.layTiles tiles score words formed).lastAction = named.lastAction ∧
      (g.layTiles tiles score words formed).lastActionInfo = named.lastActionInfo := by
  have hname : ((g.layTiles tiles score words formed).playerAt g.currentPlayerIdx).name =
      (g.playerAt g.currentPlayerIdx).name := by
    refine playerAt_congr (h := Player.name) ?_ _
    rw [layTiles_players]
    exact Lists.map_modify_eq (f := g.laid tiles score) (fun _ => rfl) _ _
  rw [← hname]
  exact ⟨rfl, rfl⟩

theorem layPending_lastAction (pc : Challenge) :
    let named := g.setPlaceAction (g.playerAt pc.playerIdx).name pc.wordStrs pc.score
    (g.layPending pc).lastAction = named.lastAction ∧
      (g.layPending pc).lastActionInfo = named.lastActionInfo := by
  have hname : ((g.layPending pc).playerAt pc.playerIdx).name = (g.playerAt pc.playerIdx).name := by
    refine playerAt_congr (h := Player.name) ?_ _
    rw [layPending_players]
    exact Lists.map_modify_eq (f := g.accepted pc.score) (fun _ => rfl) _ _
  rw [← hname]
  exact ⟨rfl, rfl⟩

section Awaiting

variable {g} {tiles : List Placed} {formed : List FormedWord} {now : ℚ}
  {votes : List (String × Vote)} {action : Option String} {info : Option Json}

/-- The log entry of an accepted placement: the rack lists the tiles laid behind those left. -/
def acceptedEntry (g : Game) (tiles : List Placed) (formed : List FormedWord) : MoveLog :=
  { moveNumber := g.moveLog.length + 1
    playerName := (g.playerAt g.currentPlayerIdx).name
    actionType := "challenge_accept"
    details := moveDetails (some tiles) (some formed) (lerakasTotal formed tiles.length)
      (some ((removeTilesFromHand (g.playerAt g.currentPlayerIdx).hand tiles).1 ++
        tiles.map Placed.handTile))
    board := g.board.applyPlacement tiles }

/-- Laying the tiles of the accepted placement leaves what laying them at once leaves, up to
the log. -/
theorem layPending_awaiting (hseat : g.currentPlayerIdx < g.players.length)
    (hfree : g.pendingChallenge = none)
    (htimeouts : (g.playerAt g.currentPlayerIdx).timeouts = 0) :
    (g.awaiting tiles formed now votes action info).layPending (g.proposal tiles formed now votes) =
      ((g.voteMode false).layTiles tiles
        (lerakasTotal formed tiles.length) (formed.map FormedWord.word) formed).recast true
          (g.moveLog ++ [g.acceptedEntry tiles formed]) := by
  let s := g.awaiting tiles formed now votes action info
  let pc := g.proposal tiles formed now votes
  let direct := g.voteMode false
  let total := lerakasTotal formed tiles.length
  let words := formed.map FormedWord.word
  have hat : s.playerAt pc.playerIdx = withoutTiles tiles (g.playerAt g.currentPlayerIdx) :=
    Lists.getD_modify_self hseat default
  have hplayers : (s.layPending pc).players = (direct.layTiles tiles total words formed).players := by
    rw [layPending_players, layTiles_players]
    refine (List.modify_modify_eq _ _ _ _).trans (Lists.modify_congr fun p hp => ?_)
    have hp' : p.timeouts = 0 := by
      rw [← htimeouts, playerAt, List.getD_eq_getElem?_getD, hp, Option.getD_some]
    simp only [Function.comp_apply, accepted, laid, withoutTiles, ← hp']
    rfl
  have hbag : (s.layPending pc).bag = (direct.layTiles tiles total words formed).bag := by
    rw [layPending_bag, hat, layTiles_bag direct hseat]
    rfl
  obtain ⟨haction, hinfo⟩ := layPending_lastAction s pc
  obtain ⟨haction', hinfo'⟩ := layTiles_lastAction direct tiles total words formed
  rw [hat] at haction hinfo
  have hlog : (s.layPending pc).moveLog = g.moveLog ++ [g.acceptedEntry tiles formed] := by
    rw [layPending_moveLog, hat]
    rfl
  rw [layPending_rest s pc, layTiles_rest direct, hplayers, hbag, hlog, haction, hinfo, haction',
    hinfo']
  simp only [recast, direct, voteMode, hfree]
  rfl

end Awaiting

/-- Two games that agree up to the way the last placement was logged, and to the order in which
its rack is listed. -/
def SameUpToLog (direct voted : Game) : Prop :=
  ∃ log m tiles formed score rack rack',
    direct.moveLog = log ++ [m] ∧ m.actionType = "place" ∧
      m.details = moveDetails tiles formed score (some rack) ∧ rack'.Perm rack ∧
      voted = direct.recast true (log ++ [{ m with
        actionType := "challenge_accept"
        details := moveDetails tiles formed score (some rack') }])

variable {g}

/-- A placement that passes the checks of the dictionary passes those of the vote. -/
theorem Placeable.skip {lex : Lexicon} {playerId : String} {tiles : List Placed}
    {formed : List FormedWord}
    (h : Placeable lex (g.voteMode false) playerId tiles formed) :
    Placeable lex (g.voteMode true) playerId tiles formed := by
  refine ⟨h.unfinished, h.free, h.seat, h.turn, h.inHand, ?_⟩
  have hchecked := (Board.validatePlacement_ok_iff _ _ _ _ _).mp h.valid
  exact (Board.validatePlacement_ok_iff _ _ _ _ _).mpr
    { hchecked with accepted := fun _ => hchecked.accepted rfl }

/-- A placement without a vote leaves the tiles laid and the turn closed. -/
theorem placedNow_eq (h : g.puzzle = none) (tiles : List Placed) (formed : List FormedWord) :
    g.placedNow env tiles formed = (g.layTiles tiles (lerakasTotal formed tiles.length)
      (formed.map FormedWord.word) formed).closeTurn env g.currentPlayerIdx := by
  have hpuzzle : (g.layTiles tiles (lerakasTotal formed tiles.length)
      (formed.map FormedWord.word) formed).puzzle = none := h
  simp only [placedNow, finalizePlacement, hpuzzle, Option.isSome_none, Bool.false_eq_true, if_false]

theorem placeTiles_fst {env : Env} {playerId : String} {tiles : List Placed}
    {formed : List FormedWord} (h : Placeable env.lexicon g playerId tiles formed) :
    (g.placeTiles env playerId tiles).1 =
      if g.challengeApplies g.currentPlayerIdx then g.proposed env tiles formed
      else g.placedNow env tiles formed := by
  rw [placeTiles_eq h]
  by_cases hvote : g.challengeApplies g.currentPlayerIdx = true <;> simp [hvote]

/-- The accepted placement and the direct one. -/
theorem sameUpToLog_awaiting {env env' : Env} {tiles : List Placed} {formed : List FormedWord}
    {now : ℚ} {votes : List (String × Vote)} {action : Option String} {info : Option Json}
    {playerId : String} (hpuzzle : g.puzzle = none) (hsync : g.asyncMode = false)
    (htimeouts : (g.playerAt g.currentPlayerIdx).timeouts = 0)
    (hmay : Placeable env.lexicon (g.voteMode false) playerId tiles formed) :
    SameUpToLog ((g.voteMode false).placedNow env tiles formed)
      (((g.awaiting tiles formed now votes action info).layPending
        (g.proposal tiles formed now votes)).closeTurn env' g.currentPlayerIdx) := by
  let direct := g.voteMode false
  let total := lerakasTotal formed tiles.length
  let laid := direct.layTiles tiles total (formed.map FormedWord.word) formed
  have hclose : direct.placedNow env tiles formed = laid.closeTurn env' g.currentPlayerIdx :=
    (placedNow_eq env (g := direct) hpuzzle tiles formed).trans
      (closeTurn_sync (g := laid) hsync _)
  have hlog : (laid.closeTurn env' g.currentPlayerIdx).moveLog = laid.moveLog :=
    (closeTurn_settles env' laid _).keeps.2.2.1
  let placedEntry : MoveLog :=
    { moveNumber := g.moveLog.length + 1
      playerName := (g.playerAt g.currentPlayerIdx).name
      actionType := "place"
      details := moveDetails (some tiles) (some formed) total
        (some (g.playerAt g.currentPlayerIdx).hand)
      board := g.board.applyPlacement tiles }
  refine ⟨g.moveLog, placedEntry, some tiles, some formed, total,
    (g.playerAt g.currentPlayerIdx).hand,
    (removeTilesFromHand (g.playerAt g.currentPlayerIdx).hand tiles).1 ++
      tiles.map Placed.handTile, ?_, rfl, rfl, ?_, ?_⟩
  · rw [hclose, hlog]
    exact layTiles_moveLog direct tiles total _ formed
  · exact List.perm_append_comm.trans (removeTilesFromHand_perm hmay.inHand)
  · rw [layPending_awaiting (g := g) hmay.seat hmay.free htimeouts, closeTurn_recast, hclose]
    rfl

/-- Without a vote the challenge mode plays no part in a placement. -/
theorem placedNow_voteMode (h : g.puzzle = none) (tiles : List Placed) (formed : List FormedWord) :
    (g.voteMode true).placedNow env tiles formed =
      ((g.voteMode false).placedNow env tiles formed).voteMode true := by
  let laid := (g.voteMode false).layTiles tiles (lerakasTotal formed tiles.length)
    (formed.map FormedWord.word) formed
  have hdirect := placedNow_eq env (g := g.voteMode false) h tiles formed
  have hvoting : (g.voteMode true).placedNow env tiles formed =
      (laid.recast true laid.moveLog).closeTurn env g.currentPlayerIdx :=
    placedNow_eq env (g := g.voteMode true) h tiles formed
  have hlog : (laid.closeTurn env g.currentPlayerIdx).moveLog = laid.moveLog :=
    (closeTurn_settles env laid _).keeps.2.2.1
  rw [hvoting, hdirect, closeTurn_recast, ← hlog]
  rfl

/-- **The vote refines the placement**: in a game without deadlines, a placement that is
accepted by the vote, by whatever votes or the end of the time for them, ends in the game in
which the same placement is made at once, up to its log entry. Without voters the two ways
are one. -/
theorem accepted_eq_placed (h : ReachableBy Punctual g) (hstarted : g.started = true)
    (hsync : g.asyncMode = false) {env : Env} {playerId : String} {tiles : List Placed}
    {answer : String × ℤ}
    (hdirect : ((g.voteMode false).placeTiles env playerId tiles).2 =
      .ok answer) :
    let direct := (g.voteMode false).step (env, .placeTiles playerId tiles)
    let voting := (g.voteMode true).step (env, .placeTiles playerId tiles)
    (∀ l i, (∀ j ∈ l, j.2.decides = true) → i.2.decides = true →
      (Runs.run step voting l).turnTaken i = some .placement →
        SameUpToLog direct ((Runs.run step voting l).step i)) ∧
      (voting.pendingChallenge = none → voting = direct.voteMode true) := by
  intro direct voting
  have hintime := inTime_of_reachable h
  obtain ⟨e, hc⟩ | ⟨formed, hmay⟩ :=
    placeTiles_cases env (g.voteMode false) playerId tiles
  · rw [hc] at hdirect
    exact absurd hdirect (by simp)
  have hdirect_eq : direct = (g.voteMode false).placedNow env tiles formed :=
    congrArg Prod.fst (placeTiles_eq hmay)
  have hvoting_eq : voting = if (g.voteMode true).challengeApplies
      g.currentPlayerIdx then (g.voteMode true).proposed env tiles formed
      else (g.voteMode true).placedNow env tiles formed :=
    placeTiles_fst hmay.skip
  have htimeouts := hintime.inTime hsync _ (playerAt_mem g hmay.seat)
  refine ⟨fun l i hl hi haccepted => ?_, fun hnone => ?_⟩
  · have hrun : (Runs.run step voting l).started = true ∧
        Voting g tiles formed (Runs.run step voting l) := by
      refine Runs.run_invariant step (P := fun s => s.started = true ∧ Voting g tiles formed s)
        (Q := fun _ i => i.2.decides = true)
        (fun s i hs hi => ⟨(step_effect i.1 s i.2).started hs.1, hs.2.step hs.1 hi⟩) ?_
        (Runs.along_of_forall step (fun i hi _ => hl i hi) _)
      refine ⟨(step_effect env (g.voteMode true) _).started hstarted, ?_⟩
      rw [hvoting_eq]
      split
      · exact .inl ⟨env.now, [], _, _, rfl⟩
      · exact .inr ((finalizePlacement_settles env _ _ _ _ _).pendingChallenge hmay.free)
    obtain ⟨env', op⟩ := i
    obtain ⟨pc, hpc, hstep⟩ := step_of_accepting hi haccepted
    obtain ⟨now, votes, action, info, hs⟩ | hnone := hrun.2
    · rw [hs] at hpc hstep
      obtain rfl : g.proposal tiles formed now votes = pc := Option.some.inj hpc
      rw [hs, hstep, hdirect_eq]
      exact sameUpToLog_awaiting hintime.noPuzzle hsync htimeouts hmay
    · exact absurd (hnone.symm.trans hpc) (by simp)
  · rw [hvoting_eq] at hnone ⊢
    split at hnone
    · exact absurd hnone (by simp [proposed, proposePlacement, setLastAction])
    · rename_i hvote
      rw [if_neg hvote, hdirect_eq, placedNow_voteMode env hintime.noPuzzle]

theorem punctual_duel (challengeMode : Bool) : ReachableBy Punctual (duel challengeMode) :=
  ⟨_, _, .inl ⟨_, _, _, _, _, rfl⟩, Runs.along_of_forall step (by simp [Punctual]) _, rfl⟩

/-- The first placement of a duel, accepted by the second player. -/
theorem accepted_eq_placed_duel :
    SameUpToLog (((duel true).voteMode false).step (stillEnv, .placeTiles "a" duelOpening))
      ((((duel true).voteMode true).step (stillEnv, .placeTiles "a" duelOpening)).step
        (stillEnv, .acceptPendingByPlayer "b")) :=
  have hdirect : (((duel true).voteMode false).placeTiles stillEnv "a" duelOpening).2 =
      .ok ("Szavak: CSŐ", 28) := by decide +kernel
  (accepted_eq_placed (punctual_duel true) (by decide +kernel) (by decide +kernel) hdirect).1 []
    (stillEnv, .acceptPendingByPlayer "b") (by simp) rfl (by decide +kernel)

/-- The racks that a log records. -/
def loggedRacks (log : List MoveLog) : List (Option (List Tile)) :=
  log.map fun m => (m.details.get? "rack").map tilesFromJson

theorem loggedRacks_relabel (log : List MoveLog) (m : MoveLog) (actionType : String) :
    loggedRacks (log ++ [{ m with actionType }]) = loggedRacks (log ++ [m]) := by
  simp [loggedRacks]

/-- The rack of the log entry is listed in another order after a vote. -/
theorem accepted_eq_placed_rack :
    ¬∀ (g : Game) (env : Env) (playerId : String) (tiles : List Placed) (answer : String × ℤ)
      (l : List Input) (i : Input), ReachableBy Punctual g → g.started = true →
        g.asyncMode = false → ((g.voteMode false).placeTiles env playerId tiles).2 = .ok answer →
        (∀ j ∈ l, j.2.decides = true) → i.2.decides = true →
        (Runs.run step ((g.voteMode true).step (env, .placeTiles playerId tiles)) l).turnTaken i =
          some .placement →
        ∃ log m actionType lastAction lastActionInfo,
          ((g.voteMode false).step (env, .placeTiles playerId tiles)).moveLog = log ++ [m] ∧
            (Runs.run step ((g.voteMode true).step (env, .placeTiles playerId tiles)) l).step i =
              { ((g.voteMode false).step (env, .placeTiles playerId tiles)).recast true
                  (log ++ [{ m with actionType }]) with lastAction, lastActionInfo } := by
  intro h
  have hdirect : (((duel true).voteMode false).placeTiles stillEnv "a" duelOpening).2 =
      .ok ("Szavak: CSŐ", 28) := by decide +kernel
  obtain ⟨log, m, actionType, lastAction, lastActionInfo, hlog, hstep⟩ :=
    h (duel true) stillEnv "a" duelOpening _ [] (stillEnv, .acceptPendingByPlayer "b")
      (punctual_duel true) (by decide +kernel) (by decide +kernel) hdirect (by simp) rfl
      (by decide +kernel)
  have hvoted := congrArg (fun g : Game => loggedRacks g.moveLog) hstep
  have hracks := hvoted.trans ((loggedRacks_relabel log m actionType).trans
    (congrArg loggedRacks hlog.symm))
  exact absurd hracks (by decide +kernel)

end Game

end ScrabbleMagyar
