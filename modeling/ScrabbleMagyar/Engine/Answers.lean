import ScrabbleMagyar.Engine.Accounts
import ScrabbleMagyar.Engine.Ledger

/-!
# What the answer of an operation says

* `step_of_fails`: an operation that answers with an error, or that nothing happened, has left
  the game as it was.
* `preview_agrees`: the preview of a placement says what the placement does. What it shows is
  what is scored, and stored or logged.
-/

namespace ScrabbleMagyar

namespace Game

/-! ## Failed operations -/

/-- Whether an operation answers that it failed: with an error, or with the answer that nothing
happened. The answer of `removePlayer` is about the turn, and a restore that fails has no game to
give. -/
def fails (g : Game) (i : Input) : Bool :=
  let env := i.1
  match i.2 with
  | .addPlayer playerId name => !(g.addPlayer playerId name).2.isOk
  | .addBot name difficulty => !(g.addBot name difficulty).2.isOk
  | .start => !(g.start env).2.isOk
  | .startAsync _ => !(g.start env).2.isOk
  | .placeTiles playerId tiles => !(g.placeTiles env playerId tiles).2.isOk
  | .exchangeTiles playerId tileIndices => !(g.exchangeTiles env playerId tileIndices).2.isOk
  | .passTurn playerId timeout => !(g.passTurn env playerId timeout).2.isOk
  | .acceptPendingByPlayer playerId => !(g.acceptPendingByPlayer env playerId).2.isOk
  | .rejectPendingByPlayer playerId => !(g.rejectPendingByPlayer env playerId).2.isOk
  | .withdrawPending playerId => !(g.withdrawPending playerId).2.isOk
  | .acceptPending => !(g.acceptPending env).2.isOk
  | .forceResolvePending accept => !(g.forceResolvePending env accept).2.isOk
  | .expireTurn => !(g.expireTurn env).2
  | .resign playerId => !(g.resign playerId).2.isOk
  | .forceEnd => !g.forceEnd.2
  | .useHint => !g.useHint.2
  | .markDisconnected playerId => !(g.markDisconnected playerId).2
  | .replacePlayerSid oldId newId => !(g.replacePlayerSid oldId newId).2
  | .removePlayer _ => false
  | .skipDisconnectedCurrent => !(g.skipDisconnectedCurrent env).2
  | .saveRestore => false

/-- An operation that leaves `g'` behind with the given answer has changed nothing if the answer
is no. -/
def Clean (g : Game) (answer : Bool) (g' : Game) : Prop := answer = false → g' = g

variable (env : Env) (g : Game)

theorem Clean.same (answer : Bool) : Clean g answer g := fun _ => rfl

theorem Clean.yes (g' : Game) : Clean g true g' := fun h => absurd h (by simp)

theorem addPlayer_clean (playerId name : String) :
    Clean g (g.addPlayer playerId name).2.isOk (g.addPlayer playerId name).1 := by
  simp only [addPlayer]
  split_ifs
  · exact .same g _
  · exact .same g _
  · exact .same g _
  · exact .yes g _

theorem addBot_clean (name : String) (difficulty : Json) :
    Clean g (g.addBot name difficulty).2.isOk (g.addBot name difficulty).1 := by
  simp only [addBot]
  split_ifs
  · exact .same g _
  · exact .same g _
  · exact .yes g _

theorem start_clean : Clean g (g.start env).2.isOk (g.start env).1 := by
  obtain ⟨e, h⟩ | ⟨-, -, m, h⟩ := start_cases env g <;> rw [h]
  · exact .same g _
  · exact .yes g _

theorem startAsync_clean (starter : ℕ) :
    Clean g (g.start env).2.isOk (g.startAsync env starter) := by
  obtain ⟨e, h⟩ | ⟨-, -, m, h⟩ := start_cases env g <;> simp only [startAsync, h]
  · exact .same g _
  · exact .yes g _

theorem placeTiles_clean (playerId : String) (tiles : List Placed) :
    Clean g (g.placeTiles env playerId tiles).2.isOk (g.placeTiles env playerId tiles).1 := by
  obtain ⟨e, h⟩ | ⟨formed, h⟩ := placeTiles_cases env g playerId tiles
  · rw [h]
    exact .same g _
  · rw [placeTiles_eq h]
    split
    · exact .yes g _
    · exact .yes g _

theorem exchangeTiles_clean (playerId : String) (tileIndices : List ℤ) :
    Clean g (g.exchangeTiles env playerId tileIndices).2.isOk
      (g.exchangeTiles env playerId tileIndices).1 := by
  obtain ⟨e, h⟩ | ⟨-, -, m, h⟩ := exchangeTiles_cases env g playerId tileIndices <;> rw [h]
  · exact .same g _
  · exact .yes g _

theorem passTurn_clean (playerId : String) (timeout : Bool) :
    Clean g (g.passTurn env playerId timeout).2.isOk (g.passTurn env playerId timeout).1 := by
  obtain ⟨e, h⟩ | ⟨-, h⟩ := passTurn_cases env g playerId timeout <;> rw [h]
  · exact .same g _
  · exact .yes g _

theorem castVote_clean (playerId : String) (vote : Vote) :
    Clean g (g.castVote env playerId vote).2.isOk (g.castVote env playerId vote).1 := by
  obtain ⟨e, h⟩ | ⟨pc, voter, -, -, -, -, ⟨-, h⟩ | ⟨-, ⟨-, h⟩ | ⟨-, h⟩⟩⟩ :=
    castVote_cases env g playerId vote <;> rw [h]
  · exact .same g _
  · exact .yes g _
  · exact .yes g _
  · exact .yes g _

theorem withdrawPending_clean (playerId : String) :
    Clean g (g.withdrawPending playerId).2.isOk (g.withdrawPending playerId).1 := by
  simp only [withdrawPending]
  split
  · exact .same g _
  · split_ifs
    · exact .same g _
    · exact .same g _
    · exact .yes g _

theorem acceptPending_clean : Clean g (g.acceptPending env).2.isOk (g.acceptPending env).1 := by
  simp only [acceptPending]
  split
  · exact .same g _
  · exact .yes g _

theorem forceResolvePending_clean (accept : Bool) :
    Clean g (g.forceResolvePending env accept).2.isOk (g.forceResolvePending env accept).1 := by
  simp only [forceResolvePending]
  split_ifs
  · exact .same g _
  · exact .yes g _
  · exact .yes g _

theorem expireTurn_clean : Clean g (g.expireTurn env).2 (g.expireTurn env).1 := by
  obtain h | ⟨-, -, -, h | ⟨-, idx, -, h⟩⟩ := expireTurn_cases env g <;> rw [h]
  · exact .same g _
  · exact .yes g _
  · exact .yes g _

theorem resign_clean (playerId : String) :
    Clean g (g.resign playerId).2.isOk (g.resign playerId).1 := by
  obtain ⟨e, h⟩ | ⟨idx, -, -, -, h⟩ := resign_cases g playerId <;> rw [h]
  · exact .same g _
  · exact .yes g _

theorem forceEnd_clean : Clean g g.forceEnd.2 g.forceEnd.1 := by
  simp only [forceEnd]
  split
  · exact .same g _
  · exact .yes g _

theorem useHint_clean : Clean g g.useHint.2 g.useHint.1 := by
  simp only [useHint]
  split
  · exact .same g _
  · exact .yes g _

theorem markDisconnected_clean (playerId : String) :
    Clean g (g.markDisconnected playerId).2 (g.markDisconnected playerId).1 := by
  simp only [markDisconnected]
  split
  · exact .same g _
  · exact .yes g _

theorem replacePlayerSid_clean (oldId newId : String) :
    Clean g (g.replacePlayerSid oldId newId).2 (g.replacePlayerSid oldId newId).1 := by
  simp only [replacePlayerSid]
  split
  · exact .same g _
  · exact .yes g _

theorem skipDisconnectedCurrent_clean :
    Clean g (g.skipDisconnectedCurrent env).2 (g.skipDisconnectedCurrent env).1 := by
  simp only [skipDisconnectedCurrent]
  split
  · exact .same g _
  split
  · exact .same g _
  split
  · exact .same g _
  split
  · exact .same g _
  · exact .yes g _

/-- **Failed operations change nothing.** -/
theorem step_of_fails {g : Game} {i : Input} (h : g.fails i = true) : g.step i = g := by
  obtain ⟨env, op⟩ := i
  have no : ∀ b : Bool, (!b) = true → b = false := by simp
  cases op with
  | addPlayer playerId name => exact addPlayer_clean g _ _ (no _ h)
  | addBot name difficulty => exact addBot_clean g _ _ (no _ h)
  | start => exact start_clean env g (no _ h)
  | startAsync starter => exact startAsync_clean env g _ (no _ h)
  | placeTiles playerId tiles => exact placeTiles_clean env g _ _ (no _ h)
  | exchangeTiles playerId tileIndices => exact exchangeTiles_clean env g _ _ (no _ h)
  | passTurn playerId timeout => exact passTurn_clean env g _ _ (no _ h)
  | acceptPendingByPlayer playerId => exact castVote_clean env g _ .accept (no _ h)
  | rejectPendingByPlayer playerId => exact castVote_clean env g _ .reject (no _ h)
  | withdrawPending playerId => exact withdrawPending_clean g _ (no _ h)
  | acceptPending => exact acceptPending_clean env g (no _ h)
  | forceResolvePending accept => exact forceResolvePending_clean env g _ (no _ h)
  | expireTurn => exact expireTurn_clean env g (no _ h)
  | resign playerId => exact resign_clean g _ (no _ h)
  | forceEnd => exact forceEnd_clean g (no _ h)
  | useHint => exact useHint_clean g (no _ h)
  | markDisconnected playerId => exact markDisconnected_clean g _ (no _ h)
  | replacePlayerSid oldId newId => exact replacePlayerSid_clean g _ _ (no _ h)
  | removePlayer playerId => exact absurd h (by simp [fails])
  | skipDisconnectedCurrent => exact skipDisconnectedCurrent_clean env g (no _ h)
  | saveRestore => exact absurd h (by simp [fails])

/-- A placement out of turn. -/
theorem step_of_fails_duel :
    (duel true).fails (stillEnv, .placeTiles "b" duelOpening) = true ∧
      (duel true).step (stillEnv, .placeTiles "b" duelOpening) = duel true :=
  have h : (duel true).fails (stillEnv, .placeTiles "b" duelOpening) = true := by decide +kernel
  ⟨h, step_of_fails h⟩

/-! ## The preview of a placement -/

/-- The formed words with their scores, as the preview lists them. -/
def previewWords (formed : List FormedWord) : Json :=
  .arr (formed.map fun w => .obj [("word", .str (String.ofList w.word)), ("score", .int w.score)])

/-- The formed words as the log lists them. -/
def loggedWords (formed : List FormedWord) : Json :=
  .arr (formed.map fun w => .str (String.ofList w.word))

variable {env g}

/-- The preview of a placement whose guards hold. -/
theorem previewPlacement_eq {playerId : String} {tiles : List Placed} {formed : List FormedWord}
    (hstarted : g.started = true) (h : Placeable env.lexicon g playerId tiles formed) :
    g.previewPlacement env playerId tiles =
      .obj [("valid", .bool true), ("score", .int (lerakasTotal formed tiles.length)),
        ("words", previewWords formed), ("message", .str "")] := by
  simp only [previewPlacement, h.unfinished, h.free, currentPlayer_of_seat g h.seat, h.turn,
    h.inHand, h.valid, hstarted, Option.isSome_none, Bool.not_true, Bool.or_self,
    Bool.false_eq_true, ne_eq, not_true_eq_false, if_false]
  rfl

/-- The preview of a placement is valid, or a guard fails. -/
theorem previewPlacement_cases (playerId : String) (tiles : List Placed) :
    (∃ message, g.previewPlacement env playerId tiles =
      .obj [("valid", .bool false), ("score", .int 0), ("words", .arr []),
        ("message", .str message)]) ∨
      ∃ formed, Placeable env.lexicon g playerId tiles formed := by
  simp only [previewPlacement]
  split
  · exact .inl ⟨_, rfl⟩
  rename_i hguard
  obtain ⟨⟨hfin, -⟩, hfree⟩ : (g.finished = false ∧ g.started = true) ∧
      g.pendingChallenge = none := by simpa using hguard
  split
  · exact .inl ⟨_, rfl⟩
  rename_i player hplayer
  obtain ⟨hseat, rfl⟩ := currentPlayer_eq_some g hplayer
  split
  · exact .inl ⟨_, rfl⟩
  rename_i hid
  split
  · exact .inl ⟨_, rfl⟩
  rename_i hhand
  split
  · exact .inl ⟨_, rfl⟩
  · rename_i formed hvalid
    exact .inr ⟨formed, hfin, hfree, hseat, by simpa using hid, hhand, hvalid⟩

/-- The words of a log entry. -/
theorem get?_words_moveDetails (tiles : Option (List Placed)) {formed : List FormedWord}
    (hne : formed ≠ []) (score : ℤ) (rack : Option (List Tile)) :
    (moveDetails tiles (some formed) score rack).get? "words" = some (loggedWords formed) := by
  have hformed : (some formed).filter (fun f => !f.isEmpty) = some formed := by
    simpa [Option.filter] using hne
  cases rack <;> cases htiles : tiles.filter (fun t => !t.isEmpty) <;>
    simp [moveDetails, htiles, hformed, Json.get?_obj_cons, loggedWords]

/-- A placement was put to the vote with these words and this score. -/
def Stored (g g' : Game) (tiles : List Placed) (formed : List FormedWord) (score : ℤ) : Prop :=
  ∃ pc, g'.pendingChallenge = some pc ∧ pc.playerIdx = g.currentPlayerIdx ∧
    pc.tilesPlaced = tiles ∧ pc.formedWords = formed ∧ pc.wordStrs = formed.map FormedWord.word ∧
    pc.score = score

/-- A placement was finalised with these words and this score. A player who goes out with it
gets the value of the other hands as well. -/
structure Finalised (g g' : Game) (tiles : List Placed) (formed : List FormedWord) (score : ℤ) :
    Prop where
  free : g'.pendingChallenge = none
  logged : ∃ m : MoveLog, g'.moveLog = g.moveLog ++ [m] ∧ m.score = score ∧ m.tiles = tiles ∧
    m.details.get? "words" = some (loggedWords formed)
  scored : (g'.playerAt g.currentPlayerIdx).score = (g.playerAt g.currentPlayerIdx).score + score +
    if g'.finished && g'.puzzle.isNone then (g'.players.map Player.handValue).sum else 0
  solved : ∀ p, g'.puzzle = some p → p.score = some score

theorem stored_proposed (env : Env) (g : Game) (tiles : List Placed) (formed : List FormedWord) :
    Stored g (g.proposed env tiles formed) tiles formed (lerakasTotal formed tiles.length) :=
  ⟨_, rfl, rfl, rfl, rfl, rfl, rfl⟩

/-- The score of the placer when the turn closes. -/
theorem closeTurn_score {g : Game} {idx : ℕ} (hseat : idx < g.players.length)
    (hfin : g.finished = false) (hpuzzle : g.puzzle = none) :
    ((g.closeTurn env idx).playerAt idx).score = (g.playerAt idx).score +
      if (g.closeTurn env idx).finished && (g.closeTurn env idx).puzzle.isNone then
        ((g.closeTurn env idx).players.map Player.handValue).sum else 0 := by
  by_cases hout : ((g.playerAt idx).hand.isEmpty && g.bag.isEmpty) = true
  · have hclose : g.closeTurn env idx = g.endGame (some idx) := by
      rw [closeTurn, if_pos hout]
    have hhand : (g.playerAt idx).handValue = 0 := by
      have hnil : (g.playerAt idx).hand = [] := by
        simpa using (Bool.and_eq_true_iff.mp hout).1
      simp [Player.handValue, hnil]
    have hkept : (g.endGame (some idx)).puzzle = none := by rw [endGame_rest]; exact hpuzzle
    rw [hclose, endGame_finished, hkept, endGame_players, handValue_settle]
    simp only [playerAt, endGame_players] at hhand ⊢
    rw [score_settle _ hseat, hhand]
    simp
  · have hclose : g.closeTurn env idx = g.nextTurn env := by
      rw [closeTurn, if_neg hout]
    rw [hclose, nextTurn_finished, hfin]
    simpa using playerAt_congr (nextTurn_map env g (h := Player.score) fun _ _ => rfl) idx

theorem finalised_placedNow {playerId : String} {tiles : List Placed} {formed : List FormedWord}
    (h : Placeable env.lexicon g playerId tiles formed) :
    Finalised g (g.placedNow env tiles formed) tiles formed (lerakasTotal formed tiles.length) := by
  let score := lerakasTotal formed tiles.length
  let laid := g.layTiles tiles score (formed.map FormedWord.word) formed
  have hne : formed ≠ [] := ((Board.validatePlacement_ok_iff _ _ _ _ _).mp h.valid).formed_ne
  have hsettles : Settles env laid (g.placedNow env tiles formed) :=
    finalizePlacement_settles env g tiles score (formed.map FormedWord.word) formed
  have hpuzzle : laid.puzzle = g.puzzle := rfl
  have hfree : laid.pendingChallenge = none := h.free
  have hseat : g.currentPlayerIdx < laid.players.length := by
    simpa [laid, layTiles_players] using h.seat
  have hscore : (laid.playerAt g.currentPlayerIdx).score =
      (g.playerAt g.currentPlayerIdx).score + score := by
    simp only [playerAt, laid, layTiles_players]
    rw [Lists.getD_modify_self h.seat]
    rfl
  have hplaced : g.placedNow env tiles formed =
      if laid.puzzle.isSome then
        laid.finishPuzzle g.currentPlayerIdx score (formed.map FormedWord.word)
      else laid.closeTurn env g.currentPlayerIdx := rfl
  refine ⟨hsettles.pendingChallenge hfree, ⟨_, hsettles.keeps.2.2.1.trans
    (layTiles_moveLog g tiles score _ formed), ?_, ?_, ?_⟩, ?_, ?_⟩
  · rw [MoveLog.score, get?_score_moveDetails]
    rfl
  · exact tiles_moveDetails tiles formed score _ _ rfl
  · exact get?_words_moveDetails (some tiles) hne score (some (g.playerAt g.currentPlayerIdx).hand)
  · rw [hplaced, ← hscore]
    split
    · rename_i hsolved
      obtain ⟨p, hp⟩ := Option.isSome_iff_exists.mp hsolved
      simp [finishPuzzle, setLastAction, playerAt, hp]
    · rename_i hunsolved
      exact closeTurn_score hseat h.unfinished (by simpa using hunsolved)
  · rw [hplaced]
    intro p hp
    split at hp
    · obtain ⟨q, -, rfl⟩ := Option.map_eq_some_iff.mp hp
      rfl
    · rename_i hunsolved
      have hkept : (laid.closeTurn env g.currentPlayerIdx).puzzle = laid.puzzle := by
        simp only [closeTurn]
        split
        · rw [endGame_rest]
        · rw [nextTurn_rest]
      rw [hkept] at hp
      exact absurd (by simp [hp]) hunsolved

/-- **The preview agrees with the move.** In a started game a preview is valid exactly when the
placement succeeds. Then the words and the score it shows are those that are scored, and stored
for the vote or logged. -/
theorem preview_agrees (env : Env) {g : Game} (hstarted : g.started = true) (playerId : String)
    (tiles : List Placed) :
    ((g.previewPlacement env playerId tiles).get? "valid" = some (.bool true) ↔
        (g.placeTiles env playerId tiles).2.isOk = true) ∧
      ((g.previewPlacement env playerId tiles).get? "valid" = some (.bool false) ↔
        (g.placeTiles env playerId tiles).2.isOk = false) ∧
      ∀ text score, (g.placeTiles env playerId tiles).2 = .ok (text, score) →
        ∃ formed, score = lerakasTotal formed tiles.length ∧
          (g.previewPlacement env playerId tiles).get? "score" = some (.int score) ∧
          (g.previewPlacement env playerId tiles).get? "words" = some (previewWords formed) ∧
          if g.challengeApplies g.currentPlayerIdx then
            Stored g (g.placeTiles env playerId tiles).1 tiles formed score
          else Finalised g (g.placeTiles env playerId tiles).1 tiles formed score := by
  by_cases hmay : ∃ formed, Placeable env.lexicon g playerId tiles formed
  · obtain ⟨formed, h⟩ := hmay
    have hok : ∃ text, g.placeTiles env playerId tiles =
        (if g.challengeApplies g.currentPlayerIdx then g.proposed env tiles formed
          else g.placedNow env tiles formed, .ok (text, lerakasTotal formed tiles.length)) := by
      rw [placeTiles_eq h]
      split
      · exact ⟨_, rfl⟩
      · exact ⟨_, rfl⟩
    obtain ⟨text, hok⟩ := hok
    rw [previewPlacement_eq hstarted h, hok]
    refine ⟨?_, ?_, ?_⟩
    · simp [Json.get?_obj_cons, Except.isOk, Except.toBool]
    · simp [Json.get?_obj_cons, Except.isOk, Except.toBool]
    · rintro text' score ⟨⟩
      refine ⟨formed, rfl, ?_, ?_, ?_⟩
      · simp [Json.get?_obj_cons]
      · simp [Json.get?_obj_cons]
      · split
        · exact stored_proposed env g tiles formed
        · exact finalised_placedNow h
  · obtain ⟨e, he⟩ := (placeTiles_cases env g playerId tiles).resolve_right hmay
    obtain ⟨message, hm⟩ := (@previewPlacement_cases env g playerId tiles).resolve_right hmay
    rw [he, hm]
    refine ⟨?_, ?_, ?_⟩
    · simp [Json.get?_obj_cons, Except.isOk, Except.toBool]
    · simp [Json.get?_obj_cons, Except.isOk, Except.toBool]
    · rintro text score ⟨⟩

/-- The preview of the first placement of a duel. -/
theorem preview_agrees_duel :
    (duel true).started = true ∧
      ((duel true).previewPlacement stillEnv "a" duelOpening).get? "valid" = some (.bool true) :=
  have h : (duel true).started = true := by decide +kernel
  ⟨h, (preview_agrees stillEnv h "a" duelOpening).1.mpr (by decide +kernel)⟩

end Game

end ScrabbleMagyar
