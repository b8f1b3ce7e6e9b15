import ScrabbleMagyar.Robot.Daily

/-!
# New attempts at the daily puzzle

A player may try the puzzle of the day again: the game is put back to the start of the puzzle
field by field (`Robot.resetGame`). What no field of the reset covers has to stay as it was in a
fresh game (`Robot.Kept`). It does, but for the mark of a player who has given up: a new attempt
starts from the same position exactly when nobody has given up before, and the player is there
(`Robot.resetGame_sameStart_iff`).
-/

namespace ScrabbleMagyar

namespace Robot

open Game

variable (shuffleOf : String → Shuffle)

/-! ## Attempts -/

/-- What happens to the game of a puzzle: an operation, or a new attempt. -/
inductive Turn
  | act (i : Input)
  | retry

/-- The game of a puzzle is never saved, and without its player there is no game: all other
operations can meet it. -/
def Turn.meetsPuzzle : Turn → Bool
  | .act (_, .saveRestore) => false
  | .act (_, .removePlayer _) => false
  | _ => true

/-- The player gives the attempt up: a resignation that is not refused. -/
def Turn.givesUp (g : Game) : Turn → Bool
  | .act (_, .resign playerId) => !g.finished && (g.seatOf playerId).isSome
  | _ => false

/-- The state a turn leaves behind. -/
def takeTurn (puzzle : DailyPuzzle) (g : Game) : Turn → Game
  | .act i => g.step i
  | .retry => resetGame shuffleOf g puzzle

/-- How a player stands in the game, besides the hand and the score. -/
def status (p : Player) : Bool × Bool × ℕ × Bool :=
  (p.skipNextTurn, p.disconnected, p.timeouts, p.resigned)

/-- Two games agree on everything a position consists of. -/
structure SameStart (g g' : Game) : Prop where
  board : g.board = g'.board
  bag : g.bag = g'.bag
  hands : g.players.map Player.hand = g'.players.map Player.hand
  scores : g.players.map Player.score = g'.players.map Player.score
  status : g.players.map status = g'.players.map status
  currentPlayerIdx : g.currentPlayerIdx = g'.currentPlayerIdx
  turnNumber : g.turnNumber = g'.turnNumber
  scorelessTurns : g.scorelessTurns = g'.scorelessTurns
  turnDeadline : g.turnDeadline = g'.turnDeadline
  started : g.started = g'.started
  finished : g.finished = g'.finished
  winners : g.winners = g'.winners
  puzzle : g.puzzle = g'.puzzle
  pendingChallenge : g.pendingChallenge = g'.pendingChallenge
  rejectedPlacements : g.rejectedPlacements = g'.rejectedPlacements
  moveLog : g.moveLog = g'.moveLog
  lastAction : g.lastAction = g'.lastAction
  lastActionInfo : g.lastActionInfo = g'.lastActionInfo
  hintsLeft : g.hintsLeft = g'.hintsLeft

/-! ## What an attempt leaves of a game -/

/-- The marks of a player that no reset touches and no connection changes. -/
def marks (p : Player) : Bool × ℕ × Bool := (p.skipNextTurn, p.timeouts, p.resigned)

/-- What holds of the game of a puzzle at any time: one player, no votes, no deadlines and no
hints. -/
structure Kept (g : Game) (resigned : Bool) : Prop where
  alone : g.players.map marks = [(false, 0, resigned)]
  started : g.started = true
  puzzle : g.puzzle.isSome = true
  free : g.pendingChallenge = none
  noVote : g.challengeMode = false
  notAsync : g.asyncMode = false
  noDeadline : g.turnDeadline = none
  hintLimit : g.hintLimit = 0
  hintsUsed : g.hintsUsed = 0
  noneRejected : g.rejectedPlacements = ∅

theorem Kept.exists_player {g : Game} {r : Bool} (h : Kept g r) :
    ∃ p, g.players = [p] ∧ p.skipNextTurn = false ∧ p.timeouts = 0 ∧ p.resigned = r := by
  obtain ⟨p, hp, hmarks⟩ := List.map_eq_singleton_iff.mp h.alone
  obtain ⟨hskip, hrest⟩ := Prod.mk.inj hmarks
  obtain ⟨htimeouts, hresigned⟩ := Prod.mk.inj hrest
  exact ⟨p, hp, hskip, htimeouts, hresigned⟩

theorem Kept.nextTurn {g : Game} {r : Bool} (h : Kept g r) (env : Env) :
    Kept (g.nextTurn env) r := by
  have hskip : ∀ p ∈ g.players, p.skipNextTurn = false := by
    obtain ⟨p, hp, hskip, -⟩ := h.exists_player
    simpa [hp] using hskip
  have hplayers : (g.nextTurn env).players = g.players := advance_players g hskip _
  have hrest := nextTurn_rest env g
  have hdeadline : (g.nextTurn env).turnDeadline = none := by
    have hasync : (g.advance g.players.length).asyncMode = false := by
      rw [advance_rest]
      exact h.notAsync
    simp [Game.nextTurn, resetDeadline, hasync]
  rw [hrest]
  exact { h with alone := hplayers ▸ h.alone, noDeadline := hdeadline }

theorem Kept.layTiles {g : Game} {r : Bool} (h : Kept g r) (tiles : List Placed) (score : ℤ)
    (words : List Word) (formed : List FormedWord) :
    Kept (g.layTiles tiles score words formed) r := by
  refine { h with alone := ?_, noneRejected := rfl }
  obtain ⟨p, hp, hskip, htimeouts, hresigned⟩ := h.exists_player
  rw [layTiles_players, hp]
  cases g.currentPlayerIdx <;> simp [marks, laid, hskip, htimeouts, hresigned]

/-- The end of the game writes no mark. -/
theorem Kept.endGame {g : Game} {r : Bool} (h : Kept g r) : Kept (g.endGame none) r := by
  rw [endGame_rest]
  exact { h with alone := (settle_map (fun _ _ => rfl) g.players none).trans h.alone, free := rfl }

theorem Kept.modify {g : Game} {r : Bool} (h : Kept g r) {f : Player → Player}
    (hf : ∀ p, marks (f p) = marks p) (idx : ℕ) : Kept (g.modifyPlayer idx f) r :=
  { h with alone := (Lists.map_modify_eq hf g.players idx).trans h.alone }

/-- **What an operation leaves**, unless it is a resignation. -/
theorem Kept.effect {env : Env} {g g' : Game} {op : Op} {r : Bool} (h : Kept g r)
    (he : Effect env g op g') (hop : (Turn.act (env, op)).meetsPuzzle = true)
    (hresign : ∀ playerId, op ≠ .resign playerId) : Kept g' r := by
  have hpuzzle : g.puzzle ≠ none := Option.isSome_iff_ne_none.mp h.puzzle
  cases he with
  | refused => exact h
  | joined _ _ waiting => simp [h.started] at waiting
  | botJoined _ _ _ waiting => simp [h.started] at waiting
  | dealt _ waiting => simp [h.started] at waiting
  | dealtAt _ waiting => simp [h.started] at waiting
  | placed playerId tiles formed =>
    have hlaid := h.layTiles tiles (lerakasTotal formed tiles.length)
      (formed.map FormedWord.word) formed
    simp only [placedNow, finalizePlacement, hlaid.puzzle, if_true]
    refine { hlaid with puzzle := ?_ }
    simpa [finishPuzzle, setLastAction] using hlaid.puzzle
  | proposed _ _ _ _ vote => simp [challengeApplies, h.noVote] at vote
  | voted _ pc pending => simp [h.free] at pending
  | accepted _ pc pending => simp [h.free] at pending
  | rejected _ pc pending => simp [h.free] at pending
  | withdrawn _ pc pending => simp [h.free] at pending
  | exchanged _ _ may => exact absurd may.noPuzzle hpuzzle
  | passed _ _ may => exact absurd may.noPuzzle hpuzzle
  | expired may => exact absurd may.choose_spec.noPuzzle hpuzzle
  | expelled _ may => exact absurd may.choose_spec.noPuzzle hpuzzle
  | resigned playerId => exact absurd rfl (hresign playerId)
  | ended =>
    rw [show g.unwindPending = g by simp [unwindPending, h.free]]
    exact h.endGame
  | hinted left => simp [hintsLeft, h.hintLimit, h.hintsUsed] at left
  | disconnected _ idx =>
    exact h.modify (f := fun p => { p with disconnected := true }) (fun _ => rfl) idx
  | reconnected oldId newId idx =>
    have hmoved := h.modify (f := Player.reconnect newId) (fun _ => rfl) idx
    refine { hmoved with free := ?_ }
    simp [reconnectSeat, modifyPlayer, h.free]
  | removed => cases hop
  | skipped => exact h.nextTurn env
  | restored => cases hop

theorem Kept.resign {g : Game} {r : Bool} (h : Kept g r) (playerId : String) :
    Kept (g.resign playerId).1 (r || (!g.finished && (g.seatOf playerId).isSome)) := by
  obtain ⟨e, hrefused⟩ | ⟨idx, -, hfin, hseat, heq⟩ := resign_cases g playerId
  · have hno : (!g.finished && (g.seatOf playerId).isSome) = false := by
      by_contra hyes
      obtain ⟨hfin, hseat⟩ : g.finished = false ∧ g.seatOf playerId ≠ none := by simpa using hyes
      obtain ⟨idx, hidx⟩ := Option.ne_none_iff_exists'.mp hseat
      simp [Game.resign, h.started, hfin, hidx] at hrefused
    rw [hrefused, hno, Bool.or_false]
    exact h
  · obtain ⟨p, hp, hskip, htimeouts, -⟩ := h.exists_player
    have hidx : idx = 0 := by
      have := (seatOf_eq_some g hseat).1
      simp only [hp, List.length_singleton] at this
      omega
    rw [heq, resignSeat_rest]
    refine { h with alone := ?_, free := rfl }
    refine (settle_map (h := marks) (fun _ _ => rfl) _ none).trans ?_
    simp [hp, hidx, hfin, hseat, marks, hskip, htimeouts]

theorem Kept.resetGame {g : Game} {r : Bool} (h : Kept g r) (puzzle : DailyPuzzle) :
    Kept (resetGame shuffleOf g puzzle) r :=
  let dealt (p : Player) : Player := { p with hand := (puzzle.opened shuffleOf).rack, score := 0 }
  { h.modify (f := dealt) (fun _ => rfl) 0 with puzzle := rfl, free := rfl }

/-- **What a turn leaves**: whoever gives up has resigned for good. -/
theorem Kept.takeTurn {g : Game} {r : Bool} (h : Kept g r) (puzzle : DailyPuzzle) {t : Turn}
    (ht : t.meetsPuzzle = true) :
    Kept (takeTurn shuffleOf puzzle g t) (r || t.givesUp g) := by
  cases t with
  | retry =>
    rw [show Turn.retry.givesUp g = false from rfl, Bool.or_false]
    exact h.resetGame shuffleOf puzzle
  | act i =>
    obtain ⟨env, op⟩ := i
    by_cases hop : ∃ playerId, op = .resign playerId
    · obtain ⟨playerId, rfl⟩ := hop
      exact h.resign playerId
    · have hresign : ∀ playerId, op ≠ .resign playerId := fun playerId heq => hop ⟨playerId, heq⟩
      have hno : (Turn.act (env, op)).givesUp g = false := by
        cases op <;> first | rfl | exact absurd rfl (hresign _)
      rw [hno, Bool.or_false]
      exact h.effect (step_effect env g op) ht hresign

/-- Along a run the player has resigned when a turn gave up. -/
theorem Kept.run {g : Game} {r : Bool} (h : Kept g r) (puzzle : DailyPuzzle) {turns : List Turn}
    (hturns : ∀ t ∈ turns, t.meetsPuzzle = true) :
    ∃ r', Kept (Runs.run (Robot.takeTurn shuffleOf puzzle) g turns) r' ∧
      (r' = false ↔ r = false ∧
        Runs.Along (Robot.takeTurn shuffleOf puzzle) (fun g t => t.givesUp g = false) g turns) := by
  induction turns generalizing g r with
  | nil => exact ⟨r, h, by simp⟩
  | cons t turns ih =>
    obtain ⟨r', hkept, hiff⟩ := ih (h.takeTurn shuffleOf puzzle (hturns t (by simp)))
      fun t' ht' => hturns t' (List.mem_cons_of_mem t ht')
    refine ⟨r', hkept, hiff.trans ?_⟩
    rw [Bool.or_eq_false_iff, Runs.along_cons, and_assoc]

/-! ## The start of a puzzle -/

/-- A fresh game is at the start of the puzzle already. -/
theorem resetGame_buildGame (env : Env) (roomId sid name : String) (puzzle : DailyPuzzle) :
    resetGame shuffleOf (buildGame shuffleOf env roomId sid name puzzle) puzzle =
      buildGame shuffleOf env roomId sid name puzzle := rfl

theorem kept_buildGame (env : Env) (roomId sid name : String) (puzzle : DailyPuzzle) :
    Kept (buildGame shuffleOf env roomId sid name puzzle) false where
  alone := rfl
  started := rfl
  puzzle := rfl
  free := rfl
  noVote := rfl
  notAsync := rfl
  noDeadline := rfl
  hintLimit := rfl
  hintsUsed := rfl
  noneRejected := rfl

/-- Two games of a puzzle are at the same start after a reset exactly when nobody has given up,
and the player is there. -/
theorem sameStart_resetGame_iff {g g₀ : Game} {r : Bool} (h : Kept g r) (h₀ : Kept g₀ false)
    (hthere : (g₀.playerAt 0).disconnected = false) (puzzle : DailyPuzzle) :
    SameStart (resetGame shuffleOf g puzzle) (resetGame shuffleOf g₀ puzzle) ↔
      r = false ∧ (g.playerAt 0).disconnected = false := by
  obtain ⟨p, hp, hskip, htimeouts, hresigned⟩ := h.exists_player
  obtain ⟨p₀, hp₀, hskip₀, htimeouts₀, hresigned₀⟩ := h₀.exists_player
  have hstatus : (resetGame shuffleOf g puzzle).players.map status =
      [(false, p.disconnected, 0, r)] := by
    simp [resetGame, Server.resetGame, hp, status, hskip, htimeouts, hresigned]
  have hstatus₀ : (resetGame shuffleOf g₀ puzzle).players.map status =
      [(false, false, 0, false)] := by
    have hthere : p₀.disconnected = false := by simpa [playerAt, hp₀] using hthere
    simp [resetGame, Server.resetGame, hp₀, status, hskip₀, htimeouts₀, hresigned₀, hthere]
  have hp' : g.playerAt 0 = p := by simp [playerAt, hp]
  rw [hp']
  constructor
  · intro hsame
    have := hsame.status
    rw [hstatus, hstatus₀] at this
    simpa [and_comm] using this
  · rintro ⟨rfl, hdisc⟩
    refine ⟨rfl, rfl, ?_, ?_, ?_, rfl, rfl, rfl, ?_, ?_, rfl, rfl, rfl, rfl, ?_, rfl, rfl, rfl, ?_⟩
    · simp [resetGame, Server.resetGame, hp, hp₀]
    · simp [resetGame, Server.resetGame, hp, hp₀]
    · rw [hstatus, hstatus₀, hdisc]
    · exact h.noDeadline.trans h₀.noDeadline.symm
    · exact h.started.trans h₀.started.symm
    · exact h.noneRejected.trans h₀.noneRejected.symm
    · simp [hintsLeft, resetGame, Server.resetGame, h.hintLimit, h.hintsUsed, h₀.hintLimit,
        h₀.hintsUsed]

/-- **A retry starts from the same position**, with the full set of tiles, exactly when no turn
gave up and the player is there. -/
theorem resetGame_sameStart_iff {chance : Chance} {generated : Generated}
    (hgen : chance.tryGenerate = some generated) (date : String) (env : Env)
    (roomId sid name : String) {turns : List Turn} (hturns : ∀ t ∈ turns, t.meetsPuzzle = true) :
    let puzzle : DailyPuzzle := ⟨generated, date⟩
    let fresh := buildGame shuffleOf env roomId sid name puzzle
    let used := Runs.run (takeTurn shuffleOf puzzle) fresh turns
    let again := resetGame shuffleOf used puzzle
    (SameStart again fresh ↔
      Runs.Along (takeTurn shuffleOf puzzle) (fun g t => t.givesUp g = false) fresh turns ∧
        (used.playerAt 0).disconnected = false) ∧
    again.board.tiles + (again.playerAt 0).hand + again.bag.tiles = TileBag.allTiles := by
  intro puzzle fresh used again
  have hfresh := kept_buildGame shuffleOf env roomId sid name puzzle
  obtain ⟨r, hused, hr⟩ := hfresh.run shuffleOf puzzle hturns
  refine ⟨?_, ?_⟩
  · have hiff := sameStart_resetGame_iff shuffleOf hused hfresh rfl puzzle
    rw [resetGame_buildGame] at hiff
    exact hiff.trans (and_congr_left' (hr.trans (and_iff_right rfl)))
  · obtain ⟨p, hp, -⟩ := hused.exists_player
    have hhand : (again.playerAt 0).hand = (puzzle.opened shuffleOf).rack := by
      have hp : used.players = [p] := hp
      simp [again, resetGame, Server.resetGame, playerAt, hp]
    rw [hhand]
    exact opened_whole shuffleOf hgen date

/-! ## A puzzle -/

/-- Two robots of which each places once and passes otherwise; any word is one. -/
def sampleChance : Chance where
  levels := (6, 7)
  shuffle := Shuffle.id
  turns := 8
  choose i _ hand _ _ :=
    if i = 0 then
      .place [⟨7, 7, hand.getD 0 Tile.blank, false⟩, ⟨7, 8, hand.getD 1 Tile.blank, false⟩] [] 0
    else if i = 5 then .place [⟨8, 7, hand.getD 0 Tile.blank, false⟩] [] 0
    else .pass
  bestMoves _ _ := [⟨[], [], 40⟩]
  env _ := ⟨0, ⟨some fun _ => true, Lists.empty⟩, Shuffle.id⟩
  levels_mem := by decide
  turns_mem := by decide

theorem sampleChance_isSome : sampleChance.tryGenerate.isSome = true := by decide +kernel

def samplePuzzle : DailyPuzzle := ⟨sampleChance.tryGenerate.get sampleChance_isSome, "2026-10-05"⟩

theorem tryGenerate_sampleChance : sampleChance.tryGenerate = some samplePuzzle.toGenerated :=
  (Option.some_get sampleChance_isSome).symm

/-- The bag in the order of the alphabet on every date. -/
def alphabetically : String → Shuffle := fun _ => Shuffle.id

/-- The game of Anna from the start of the puzzle. -/
def sampleGame : Game := buildGame alphabetically stillEnv "1" "a" "Anna" samplePuzzle

/-- A placement of the first tile of the hand. -/
def sampleMove : List Placed :=
  [⟨8, 8, (sampleGame.playerAt 0).hand.getD 0 Tile.blank, false⟩]

/-- A refused pass, a hint, a placement and another attempt. -/
def sampleTurns : List Turn :=
  [.act (stillEnv, .passTurn "a" false), .act (stillEnv, .useHint),
    .act (sampleChance.env 0, .placeTiles "a" sampleMove), .retry,
    .act (sampleChance.env 0, .placeTiles "a" sampleMove)]

/-- The placement scores. -/
example :
    let used := Runs.run (takeTurn alphabetically samplePuzzle) sampleGame sampleTurns
    (used.playerAt 0).score = 35 := by
  decide +kernel

theorem resetGame_sameStart_anna :
    let again := resetGame alphabetically
      (Runs.run (takeTurn alphabetically samplePuzzle) sampleGame sampleTurns) samplePuzzle
    SameStart again sampleGame ∧
      again.board.tiles + (again.playerAt 0).hand + again.bag.tiles = TileBag.allTiles := by
  have h := resetGame_sameStart_iff alphabetically tryGenerate_sampleChance "2026-10-05" stillEnv
    "1" "a" "Anna" (show ∀ t ∈ sampleTurns, t.meetsPuzzle = true by decide)
  exact ⟨h.1.mpr ⟨⟨rfl, rfl, rfl, rfl, rfl, trivial⟩, by decide +kernel⟩, h.2⟩

/-- Anna gives up: her next attempt begins as that of a player who has resigned. -/
theorem resetGame_after_resignation :
    ¬∀ (shuffleOf : String → Shuffle) (chance : Chance) (generated : Generated) (date : String)
      (env : Env) (roomId sid name : String) (turns : List Turn),
      chance.tryGenerate = some generated → (∀ t ∈ turns, t.meetsPuzzle = true) →
      let puzzle : DailyPuzzle := ⟨generated, date⟩
      let fresh := buildGame shuffleOf env roomId sid name puzzle
      SameStart (resetGame shuffleOf (Runs.run (takeTurn shuffleOf puzzle) fresh turns) puzzle)
        fresh := by
  intro h
  have hsame := h alphabetically sampleChance samplePuzzle.toGenerated "2026-10-05" stillEnv "1"
    "a" "Anna" [.act (stillEnv, .resign "a")] tryGenerate_sampleChance (by decide)
  exact absurd hsame.status (by decide +kernel)

end Robot

end ScrabbleMagyar
