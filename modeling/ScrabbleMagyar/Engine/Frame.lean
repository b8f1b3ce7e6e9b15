import ScrabbleMagyar.Engine.Operations
import ScrabbleMagyar.Foundations.Lists

/-!
# What the parts of an operation change

The operations are put together from a few changes of the state. Here is what each of them
writes, as an equation that leaves all other fields alone (`nextTurn_rest`, `endGame_rest`),
and what it makes of the seats (`nextTurn_map`, `settle_map`, `layTiles_players`, ...).

* `Settles`: the three ways in which a turn closes. The facts about it are what the invariants
  use of the turn order and of the end of the game.
-/

namespace ScrabbleMagyar

namespace Game

variable (env : Env) (g : Game)

/-! ## Seats -/

theorem playerAt_eq_getElem {idx : ℕ} (h : idx < g.players.length) :
    g.playerAt idx = g.players[idx] := by
  simp [playerAt, h]

theorem playerAt_mem {idx : ℕ} (h : idx < g.players.length) : g.playerAt idx ∈ g.players :=
  Lists.getD_mem h _

theorem playerAt_of_le {idx : ℕ} (h : g.players.length ≤ idx) : g.playerAt idx = default := by
  simp [playerAt, h]

theorem playerAt_modifyPlayer_self {idx : ℕ} (h : idx < g.players.length)
    (f : Player → Player) : (g.modifyPlayer idx f).playerAt idx = f (g.playerAt idx) :=
  Lists.getD_modify_self h _

theorem playerAt_modifyPlayer_of_ne {idx j : ℕ} (h : idx ≠ j) (f : Player → Player) :
    (g.modifyPlayer idx f).playerAt j = g.playerAt j :=
  Lists.getD_modify_of_ne h _

/-- A reading of a player that a change does not touch is the same at every seat after it. -/
theorem playerAt_modifyPlayer_eq {β : Type*} {h : Player → β} {f : Player → Player}
    (hf : ∀ p, h (f p) = h p) (idx j : ℕ) :
    h ((g.modifyPlayer idx f).playerAt j) = h (g.playerAt j) := by
  by_cases hj : idx = j
  · subst hj
    by_cases hlen : idx < g.players.length
    · rw [playerAt_modifyPlayer_self g hlen, hf]
    · rw [playerAt_of_le _ (by simpa [modifyPlayer] using hlen), playerAt_of_le _ (by omega)]
  · rw [playerAt_modifyPlayer_of_ne g hj]

theorem currentPlayer_eq_some {p : Player} (h : g.currentPlayer = some p) :
    g.currentPlayerIdx < g.players.length ∧ g.playerAt g.currentPlayerIdx = p := by
  obtain ⟨hlt, hp⟩ := List.getElem?_eq_some_iff.mp h
  exact ⟨hlt, by rw [playerAt_eq_getElem g hlt, hp]⟩

theorem seatOf_eq_some {playerId : String} {idx : ℕ} (h : g.seatOf playerId = some idx) :
    idx < g.players.length ∧ (g.playerAt idx).id = playerId := by
  obtain ⟨hlt, hp, -⟩ := List.findIdx?_eq_some_iff_getElem.mp h
  exact ⟨hlt, by simpa [playerAt_eq_getElem g hlt] using hp⟩

theorem removeSeat_players (idx : ℕ) : (g.removeSeat idx).players = g.players.eraseIdx idx := by
  simp only [removeSeat]
  split <;> rfl

/-- The seat that a player had before somebody left. -/
theorem playerAt_removeSeat (idx j : ℕ) :
    (g.removeSeat idx).playerAt j = g.playerAt (if j < idx then j else j + 1) := by
  rw [playerAt, playerAt, removeSeat_players, List.getD_eq_getElem?_getD,
    List.getD_eq_getElem?_getD, List.getElem?_eraseIdx]
  split <;> rfl

/-- The seat of a player after somebody else has left. -/
theorem playerAt_removeSeat_of_ne {idx j : ℕ} (hj : j ≠ idx) :
    (g.removeSeat idx).playerAt (if idx < j then j - 1 else j) = g.playerAt j := by
  rw [playerAt_removeSeat]
  congr 1
  split_ifs <;> omega

/-- The turn follows its player when somebody else leaves. -/
theorem currentPlayerIdx_removeSeat {idx : ℕ} (hidx : idx < g.players.length)
    (hseat : g.currentPlayerIdx < g.players.length) (hne : idx ≠ g.currentPlayerIdx) :
    (g.removeSeat idx).currentPlayerIdx =
      if idx < g.currentPlayerIdx then g.currentPlayerIdx - 1 else g.currentPlayerIdx := by
  have hnonempty : (g.players.eraseIdx idx).isEmpty = false := by
    rw [List.isEmpty_eq_false_iff, ← List.length_pos_iff, List.length_eraseIdx_of_lt hidx]
    omega
  simp only [removeSeat, hnonempty, Bool.false_eq_true, if_false, hne, false_and]

/-! ## The turn -/

/-- Passing the turn on writes the current seat, penalties and the last action. -/
theorem advance_rest (n : ℕ) :
    g.advance n = { g with
      currentPlayerIdx := (g.advance n).currentPlayerIdx
      players := (g.advance n).players
      lastAction := (g.advance n).lastAction
      lastActionInfo := (g.advance n).lastActionInfo } := by
  induction n generalizing g with
  | zero => rfl
  | succ n ih =>
    simp only [advance]
    split
    · split
      · rw [ih]
      · rfl
    · split
      · rw [ih]
        rfl
      · rfl

/-- Passing the turn on changes nothing of a player but the penalty. -/
theorem advance_map {β : Type*} {h : Player → β}
    (hh : ∀ p b, h { p with skipNextTurn := b } = h p) (n : ℕ) :
    (g.advance n).players.map h = g.players.map h := by
  induction n generalizing g with
  | zero => rfl
  | succ n ih =>
    simp only [advance]
    split
    · split
      · exact ih _
      · rfl
    · split
      · rw [ih]
        exact Lists.map_modify_eq (fun p => hh p false) g.players _
      · rfl

theorem advance_length (n : ℕ) : (g.advance n).players.length = g.players.length := by
  simpa using congrArg List.length (advance_map g (h := Player.id) (fun _ _ => rfl) n)

/-- The turn is passed on to a seat of the game. -/
theorem advance_seat (n : ℕ) (h : g.currentPlayerIdx < g.players.length) :
    (g.advance n).currentPlayerIdx < g.players.length := by
  induction n generalizing g with
  | zero => exact h
  | succ n ih =>
    have hmod : (g.currentPlayerIdx + 1) % g.players.length < g.players.length :=
      Nat.mod_lt _ (by omega)
    simp only [advance]
    split
    · split
      · exact ih { g with currentPlayerIdx := _ } hmod
      · exact hmod
    · split
      · refine (ih _ ?_).trans_eq ?_
        · simpa [paySkip, setLastAction, modifyPlayer] using hmod
        · simp [paySkip, setLastAction, modifyPlayer]
      · exact hmod

/-- Passing the turn on writes no player when there is no penalty to pay. -/
theorem advance_players (h : ∀ p ∈ g.players, p.skipNextTurn = false) (n : ℕ) :
    (g.advance n).players = g.players := by
  induction n generalizing g with
  | zero => rfl
  | succ n ih =>
    have hskip (idx : ℕ) : (g.playerAt idx).skipNextTurn = false := by
      by_cases hidx : idx < g.players.length
      · exact h _ (playerAt_mem g hidx)
      · rw [playerAt_of_le g (not_lt.mp hidx)]
        rfl
    simp only [advance]
    split_ifs with hdisc hany hpay
    · exact ih _ h
    · rfl
    · exact absurd hpay (by simpa [playerAt] using hskip _)
    · rfl

theorem nextTurn_rest :
    g.nextTurn env = { g with
      currentPlayerIdx := (g.nextTurn env).currentPlayerIdx
      players := (g.nextTurn env).players
      lastAction := (g.nextTurn env).lastAction
      lastActionInfo := (g.nextTurn env).lastActionInfo
      turnDeadline := (g.nextTurn env).turnDeadline
      turnNumber := g.turnNumber + 1 } := by
  have h := advance_rest g g.players.length
  simp only [nextTurn, resetDeadline]
  rw [h]

@[simp] theorem nextTurn_board : (g.nextTurn env).board = g.board := by
  rw [nextTurn_rest]

@[simp] theorem nextTurn_bag : (g.nextTurn env).bag = g.bag := by
  rw [nextTurn_rest]

@[simp] theorem nextTurn_started : (g.nextTurn env).started = g.started := by
  rw [nextTurn_rest]

@[simp] theorem nextTurn_finished : (g.nextTurn env).finished = g.finished := by
  rw [nextTurn_rest]

@[simp] theorem nextTurn_pendingChallenge :
    (g.nextTurn env).pendingChallenge = g.pendingChallenge := by
  rw [nextTurn_rest]

@[simp] theorem nextTurn_moveLog : (g.nextTurn env).moveLog = g.moveLog := by
  rw [nextTurn_rest]

@[simp] theorem nextTurn_scorelessTurns : (g.nextTurn env).scorelessTurns = g.scorelessTurns := by
  rw [nextTurn_rest]

theorem nextTurn_map {β : Type*} {h : Player → β}
    (hh : ∀ p b, h { p with skipNextTurn := b } = h p) :
    (g.nextTurn env).players.map h = g.players.map h :=
  advance_map g hh g.players.length

@[simp] theorem nextTurn_length : (g.nextTurn env).players.length = g.players.length :=
  advance_length g g.players.length

/-- The turn stays with a seat; with no seats it stays at 0. -/
theorem nextTurn_seat (h : g.currentPlayerIdx < g.players.length ∨ g.currentPlayerIdx = 0) :
    (g.nextTurn env).currentPlayerIdx < g.players.length ∨
      (g.nextTurn env).currentPlayerIdx = 0 := by
  by_cases hlen : g.players.length = 0
  · refine .inr ?_
    simp only [nextTurn, hlen, advance, resetDeadline]
    omega
  · exact .inl (advance_seat g g.players.length (by omega))

/-! ## The end of the game -/

/-- The final scores change nothing of a player but the score. -/
theorem settle_map {β : Type*} {h : Player → β} (hh : ∀ p s, h { p with score := s } = h p)
    (players : List Player) (finisher : Option ℕ) :
    (settle players finisher).map h = players.map h := by
  have hscore : (players.map fun p => { p with score := p.score - p.handValue }).map h
      = players.map h := by
    simp [Function.comp_def, hh]
  cases finisher with
  | none => exact hscore
  | some i => exact (Lists.map_modify_eq (fun p => hh p _) _ i).trans hscore

theorem settle_length (players : List Player) (finisher : Option ℕ) :
    (settle players finisher).length = players.length := by
  simpa using congrArg List.length (settle_map (h := Player.id) (fun _ _ => rfl) players finisher)

theorem endGame_rest (finisher : Option ℕ) :
    g.endGame finisher = { g with
      finished := true
      pendingChallenge := none
      players := settle g.players finisher
      winners := (settle g.players finisher).filter fun p =>
        p.score = ((settle g.players finisher).map Player.score).max?.getD 0
      lastAction := (g.endGame finisher).lastAction
      lastActionInfo := (g.endGame finisher).lastActionInfo } := by
  simp only [endGame, setGameOver]
  split <;> rfl

@[simp] theorem endGame_finished (finisher : Option ℕ) : (g.endGame finisher).finished = true := by
  rw [endGame_rest]

@[simp] theorem endGame_started (finisher : Option ℕ) :
    (g.endGame finisher).started = g.started := by
  rw [endGame_rest]

@[simp] theorem endGame_pendingChallenge (finisher : Option ℕ) :
    (g.endGame finisher).pendingChallenge = none := by
  rw [endGame_rest]

@[simp] theorem endGame_players (finisher : Option ℕ) :
    (g.endGame finisher).players = settle g.players finisher := by
  rw [endGame_rest]

@[simp] theorem endGame_board (finisher : Option ℕ) : (g.endGame finisher).board = g.board := by
  rw [endGame_rest]

@[simp] theorem endGame_bag (finisher : Option ℕ) : (g.endGame finisher).bag = g.bag := by
  rw [endGame_rest]

@[simp] theorem endGame_moveLog (finisher : Option ℕ) :
    (g.endGame finisher).moveLog = g.moveLog := by
  rw [endGame_rest]

@[simp] theorem endGame_currentPlayerIdx (finisher : Option ℕ) :
    (g.endGame finisher).currentPlayerIdx = g.currentPlayerIdx := by
  rw [endGame_rest]

@[simp] theorem endGame_scorelessTurns (finisher : Option ℕ) :
    (g.endGame finisher).scorelessTurns = g.scorelessTurns := by
  rw [endGame_rest]

/-- A player's resignation ends the game with the final scores. -/
theorem resignSeat_rest (idx : ℕ) :
    g.resignSeat idx = { g with
      finished := true
      pendingChallenge := none
      players := settle (g.players.modify idx fun p => { p with resigned := true }) none
      winners := (g.resignSeat idx).winners
      lastAction := (g.resignSeat idx).lastAction
      lastActionInfo := (g.resignSeat idx).lastActionInfo } := by
  simp only [resignSeat]
  rw [endGame_rest]
  split <;> rfl

/-! ## Closing a turn -/

/-- The ways in which a turn closes: the game or the puzzle is over, or the turn is passed on,
or it stays with the player. -/
inductive Settles : Game → Prop
  | gameOver (finisher : Option ℕ) : Settles (g.endGame finisher)
  | solved (idx : ℕ) (score : ℤ) (words : List Word) (puzzle : g.puzzle.isSome = true) :
      Settles (g.finishPuzzle idx score words)
  | next : Settles (g.nextTurn env)
  | stay : Settles g

theorem closeTurn_settles (idx : ℕ) : Settles env g (g.closeTurn env idx) := by
  simp only [closeTurn]
  split
  · exact .gameOver _
  · exact .next

theorem finalizePlacement_settles (tiles : List Placed) (score : ℤ) (words : List Word)
    (formed : List FormedWord) :
    Settles env (g.layTiles tiles score words formed)
      (g.finalizePlacement env tiles score words formed) := by
  simp only [finalizePlacement]
  split
  · rename_i hpuzzle
    exact .solved _ _ _ hpuzzle
  · exact closeTurn_settles env _ _

/-- The game after one more turn without a score. -/
def bumped : Game := { g with scorelessTurns := g.scorelessTurns + 1 }

theorem registerScorelessTurn_eq :
    g.registerScorelessTurn =
      if scorelessTurnsLimit ≤ g.scorelessTurns + 1 then (g.bumped.endGame none, true)
      else (g.bumped, false) := rfl

theorem scorelessNextTurn_eq :
    g.scorelessNextTurn env =
      if scorelessTurnsLimit ≤ g.scorelessTurns + 1 then g.bumped.endGame none
      else g.bumped.nextTurn env := by
  simp only [scorelessNextTurn, registerScorelessTurn_eq]
  by_cases h : scorelessTurnsLimit ≤ g.scorelessTurns + 1 <;> simp [h]

theorem scorelessNextTurn_settles : Settles env g.bumped (g.scorelessNextTurn env) := by
  rw [scorelessNextTurn_eq]
  split
  · exact .gameOver _
  · exact .next

theorem finalizeReject_eq {pc : Challenge} (h : g.pendingChallenge = some pc) :
    g.finalizeReject env =
      if scorelessTurnsLimit ≤ g.scorelessTurns + 1 then (g.turnDown pc).bumped.endGame none
      else if (g.playerAt pc.playerIdx).disconnected then (g.turnDown pc).bumped.nextTurn env
      else (g.turnDown pc).bumped := by
  have hs : (g.turnDown pc).scorelessTurns = g.scorelessTurns := rfl
  have hd : ((g.turnDown pc).bumped.playerAt pc.playerIdx).disconnected =
      (g.playerAt pc.playerIdx).disconnected :=
    playerAt_modifyPlayer_eq { g with pendingChallenge := none } (h := Player.disconnected)
      (f := fun p => { p with hand := p.hand ++ pc.removedFromHand }) (fun _ => rfl) _ _
  simp only [finalizeReject, h, registerScorelessTurn_eq, hs]
  by_cases hl : scorelessTurnsLimit ≤ g.scorelessTurns + 1 <;> simp [hl, hd]

theorem finalizeReject_settles {pc : Challenge} (h : g.pendingChallenge = some pc) :
    Settles env (g.turnDown pc).bumped (g.finalizeReject env) := by
  rw [finalizeReject_eq env g h]
  split
  · exact .gameOver _
  · split
    · exact .next
    · exact .stay

section Settles

variable {env g}

/-- A game over or passed on has the same board, bag and log. -/
theorem Settles.keeps {g' : Game} (h : Settles env g g') :
    g'.board = g.board ∧ g'.bag = g.bag ∧ g'.moveLog = g.moveLog ∧ g'.started = g.started ∧
      g'.scorelessTurns = g.scorelessTurns := by
  cases h with
  | gameOver finisher => simp
  | solved idx score words => exact ⟨rfl, rfl, rfl, rfl, rfl⟩
  | next => simp
  | stay => exact ⟨rfl, rfl, rfl, rfl, rfl⟩

/-- Closing a turn changes nothing of a player but the penalty and the score. -/
theorem Settles.map_eq {g' : Game} (h : Settles env g g') {β : Type*} {f : Player → β}
    (hskip : ∀ p b, f { p with skipNextTurn := b } = f p)
    (hscore : ∀ p s, f { p with score := s } = f p) :
    g'.players.map f = g.players.map f := by
  cases h with
  | gameOver finisher => rw [endGame_players, settle_map hscore]
  | solved idx score words => rfl
  | next => exact nextTurn_map env g hskip
  | stay => rfl

theorem Settles.pendingChallenge {g' : Game} (h : Settles env g g')
    (hp : g.pendingChallenge = none) : g'.pendingChallenge = none := by
  cases h with
  | gameOver finisher => simp
  | solved idx score words => exact hp
  | next => simpa using hp
  | stay => exact hp

theorem Settles.seat {g' : Game} (h : Settles env g g')
    (hs : g.currentPlayerIdx < g.players.length ∨ g.currentPlayerIdx = 0) :
    g'.currentPlayerIdx < g.players.length ∨ g'.currentPlayerIdx = 0 := by
  cases h with
  | gameOver finisher => simpa using hs
  | solved idx score words => exact hs
  | next => exact nextTurn_seat env g hs
  | stay => exact hs

theorem Settles.length_eq {g' : Game} (h : Settles env g g') :
    g'.players.length = g.players.length := by
  simpa using congrArg List.length (h.map_eq (f := Player.id) (fun _ _ => rfl) fun _ _ => rfl)

end Settles

/-! ## Seats after a move -/

theorem modifyPlayer_modifyPlayer (idx : ℕ) (f h : Player → Player) :
    ((g.modifyPlayer idx f).modifyPlayer idx h).players = g.players.modify idx fun p => h (f p) :=
  List.modify_modify_eq f h idx g.players

/-- The tiles with which a hand of the given size is filled up. -/
def refill (handCount : ℕ) : List Tile := (g.bag.draw (handSize - handCount)).2

/-- The player who has laid tiles: the score, and the hand filled up. -/
def laid (tiles : List Placed) (score : ℤ) (p : Player) : Player :=
  let hand := (removeTilesFromHand p.hand tiles).1
  { p with score := p.score + score, hand := hand ++ g.refill hand.length, timeouts := 0 }

theorem refillHand_players (idx : ℕ) :
    (g.refillHand idx).players = g.players.modify idx fun p =>
      { p with hand := p.hand ++ g.refill p.hand.length } := by
  by_cases h : idx < g.players.length
  · refine List.ext_getElem (by simp [refillHand, modifyPlayer]) fun j hj hj' => ?_
    by_cases hij : idx = j
    · subst hij
      simp [refillHand, modifyPlayer, refill, playerAt_eq_getElem g h]
    · simp [refillHand, modifyPlayer, hij]
  · rw [List.modify_eq_self (by omega)]
    exact List.modify_eq_self (by simpa using h)

theorem layTiles_players (tiles : List Placed) (score : ℤ) (words : List Word)
    (formed : List FormedWord) :
    (g.layTiles tiles score words formed).players =
      g.players.modify g.currentPlayerIdx (g.laid tiles score) := by
  let g₁ : Game := { g with board := g.board.applyPlacement tiles, rejectedPlacements := ∅ }
  let g₂ := (g₁.modifyPlayer g.currentPlayerIdx fun p => { p with score := p.score + score
    }).modifyPlayer g.currentPlayerIdx fun p => { p with hand := (removeTilesFromHand p.hand tiles).1 }
  have h : (g.layTiles tiles score words formed).players =
      (g₂.refillHand g.currentPlayerIdx).players.modify g.currentPlayerIdx
        fun p => { p with timeouts := 0 } := rfl
  rw [h, refillHand_players, modifyPlayer_modifyPlayer, List.modify_modify_eq,
    List.modify_modify_eq]
  rfl

theorem layTiles_bag {tiles : List Placed} {score : ℤ} {words : List Word}
    {formed : List FormedWord} (h : g.currentPlayerIdx < g.players.length) :
    (g.layTiles tiles score words formed).bag = (g.bag.draw (handSize -
      (removeTilesFromHand (g.playerAt g.currentPlayerIdx).hand tiles).1.length)).1 := by
  let g₁ : Game := { g with board := g.board.applyPlacement tiles, rejectedPlacements := ∅ }
  let g₂ := g₁.modifyPlayer g.currentPlayerIdx fun p => { p with score := p.score + score }
  have hbag : (g.layTiles tiles score words formed).bag =
      (g.bag.draw (handSize - ((g₂.modifyPlayer g.currentPlayerIdx fun p =>
        { p with hand := (removeTilesFromHand p.hand tiles).1 }).playerAt
          g.currentPlayerIdx).hand.length)).1 := rfl
  have h₁ : g.currentPlayerIdx < g₁.players.length := h
  have h₂ : g.currentPlayerIdx < g₂.players.length := by simpa [g₂, modifyPlayer] using h₁
  rw [hbag, playerAt_modifyPlayer_self g₂ h₂, playerAt_modifyPlayer_self g₁ h₁]
  rfl

/-- The player whose pending placement is laid. -/
def accepted (score : ℤ) (p : Player) : Player :=
  { p with score := p.score + score, hand := p.hand ++ g.refill p.hand.length }

theorem layPending_players (pc : Challenge) :
    (g.layPending pc).players = g.players.modify pc.playerIdx (g.accepted pc.score) := by
  let g₁ : Game := { g with
    pendingChallenge := none
    board := g.board.applyPlacement pc.tilesPlaced
    rejectedPlacements := ∅ }
  let g₂ := g₁.modifyPlayer pc.playerIdx fun p => { p with score := p.score + pc.score }
  have h : (g.layPending pc).players = (g₂.refillHand pc.playerIdx).players := rfl
  rw [h, refillHand_players]
  exact List.modify_modify_eq _ _ _ _

theorem layPending_bag {pc : Challenge} :
    (g.layPending pc).bag =
      (g.bag.draw (handSize - (g.playerAt pc.playerIdx).hand.length)).1 := by
  let g₁ : Game := { g with
    pendingChallenge := none
    board := g.board.applyPlacement pc.tilesPlaced
    rejectedPlacements := ∅ }
  let f : Player → Player := fun p => { p with score := p.score + pc.score }
  have hbag : (g.layPending pc).bag = (g.bag.draw (handSize -
      ((g₁.modifyPlayer pc.playerIdx f).playerAt pc.playerIdx).hand.length)).1 := rfl
  rw [hbag, playerAt_modifyPlayer_eq g₁ (h := Player.hand) (f := f) (fun _ => rfl)]
  rfl

/-- The tiles at the given indices of the hand are swapped against tiles of the bag. -/
def swapped (tileIndices : List ℤ) (p : Player) : Player :=
  let indices := (tileIndices.map Int.toNat).insertionSort (· ≥ ·)
  { p with
    hand := indices.foldl List.eraseIdx p.hand ++ (g.bag.draw indices.length).2
    timeouts := 0 }

theorem swapTiles_players (tileIndices : List ℤ) :
    (g.swapTiles env tileIndices).players =
      g.players.modify g.currentPlayerIdx (g.swapped tileIndices) := by
  simp only [swapTiles, recordMove, setLastAction, modifyPlayer, List.modify_modify_eq,
    List.length_map]
  rfl

theorem swapTiles_bag (tileIndices : List ℤ) :
    let indices := (tileIndices.map Int.toNat).insertionSort (· ≥ ·)
    let rack := (g.playerAt g.currentPlayerIdx).hand
    (g.swapTiles env tileIndices).bag = (g.bag.draw indices.length).1.putBack env.shuffle
      (indices.map fun i => rack.getD i Tile.blank) := by
  simp only [swapTiles, recordMove, setLastAction, modifyPlayer, List.length_map]

/-- The player who passes. -/
def passed (timeout : Bool) (p : Player) : Player :=
  { p with timeouts := if timeout then p.timeouts + 1 else 0 }

theorem notePass_players (timeout : Bool) :
    (g.notePass timeout).players = g.players.modify g.currentPlayerIdx (passed timeout) := by
  cases timeout <;> rfl

/-! ## Log entries -/

/-- A reading of the players that a change of the game does not touch is the same at every
seat. -/
theorem playerAt_congr {β : Type*} {g g' : Game} {h : Player → β}
    (hmap : g'.players.map h = g.players.map h) (idx : ℕ) :
    h (g'.playerAt idx) = h (g.playerAt idx) := by
  have := congrArg (fun l => l.getD idx (h default)) hmap
  rwa [List.getD_map, List.getD_map] at this

theorem layTiles_moveLog (tiles : List Placed) (score : ℤ) (words : List Word)
    (formed : List FormedWord) :
    (g.layTiles tiles score words formed).moveLog = g.moveLog ++
      [{ moveNumber := g.moveLog.length + 1
         playerName := (g.playerAt g.currentPlayerIdx).name
         actionType := "place"
         details := moveDetails (some tiles) (some formed) score
           (some (g.playerAt g.currentPlayerIdx).hand)
         board := g.board.applyPlacement tiles }] := by
  have hname : ((g.layTiles tiles score words formed).playerAt g.currentPlayerIdx).name =
      (g.playerAt g.currentPlayerIdx).name := by
    refine playerAt_congr (h := Player.name) ?_ _
    rw [layTiles_players]
    exact Lists.map_modify_eq (f := g.laid tiles score) (fun _ => rfl) _ _
  rw [← hname]
  rfl

theorem layPending_moveLog (pc : Challenge) :
    (g.layPending pc).moveLog = g.moveLog ++
      [{ moveNumber := g.moveLog.length + 1
         playerName := (g.playerAt pc.playerIdx).name
         actionType := "challenge_accept"
         details := moveDetails (some pc.tilesPlaced) (some pc.formedWords) pc.score
           (some ((g.playerAt pc.playerIdx).hand ++ pc.removedFromHand))
         board := g.board.applyPlacement pc.tilesPlaced }] := by
  have hname : ((g.layPending pc).playerAt pc.playerIdx).name = (g.playerAt pc.playerIdx).name := by
    refine playerAt_congr (h := Player.name) ?_ _
    rw [layPending_players]
    exact Lists.map_modify_eq (f := g.accepted pc.score) (fun _ => rfl) _ _
  rw [← hname]
  rfl

theorem turnDown_moveLog (pc : Challenge) :
    (g.turnDown pc).moveLog = g.moveLog ++
      [{ moveNumber := g.moveLog.length + 1
         playerName := ((g.turnDown pc).playerAt pc.playerIdx).name
         actionType := "challenge_reject"
         details := moveDetails none none 0 none
         board := g.board }] := rfl

theorem swapTiles_moveLog (tileIndices : List ℤ) :
    (g.swapTiles env tileIndices).moveLog = g.moveLog ++
      [{ moveNumber := g.moveLog.length + 1
         playerName := (g.playerAt g.currentPlayerIdx).name
         actionType := "exchange"
         details := moveDetails none none 0 (some (g.playerAt g.currentPlayerIdx).hand)
         board := g.board }] := by
  have hname : ∀ f h : List Tile → List Tile,
      (((g.modifyPlayer g.currentPlayerIdx fun p => { p with hand := f p.hand }).modifyPlayer
        g.currentPlayerIdx fun p => { p with hand := h p.hand }).playerAt g.currentPlayerIdx).name =
          (g.playerAt g.currentPlayerIdx).name := by
    intro f h
    rw [playerAt_modifyPlayer_eq _ (h := Player.name)
        (f := fun p : Player => { p with hand := h p.hand }) (fun _ => rfl),
      playerAt_modifyPlayer_eq _ (h := Player.name)
        (f := fun p : Player => { p with hand := f p.hand }) (fun _ => rfl)]
  let indices := (tileIndices.map Int.toNat).insertionSort (· ≥ ·)
  rw [← hname (indices.foldl List.eraseIdx) fun hand => hand ++ (g.bag.draw (indices.map fun i =>
    (g.playerAt g.currentPlayerIdx).hand.getD i Tile.blank).length).2]
  rfl

theorem notePass_moveLog (timeout : Bool) :
    (g.notePass timeout).moveLog = g.moveLog ++
      [{ moveNumber := g.moveLog.length + 1
         playerName := (g.playerAt g.currentPlayerIdx).name
         actionType := "pass"
         details := moveDetails none none 0 (some (g.playerAt g.currentPlayerIdx).hand)
         board := g.board }] := by
  have hhand : ∀ n : ℕ → ℕ, ((g.modifyPlayer g.currentPlayerIdx fun p =>
      { p with timeouts := n p.timeouts }).playerAt g.currentPlayerIdx).hand =
        (g.playerAt g.currentPlayerIdx).hand := fun n =>
    playerAt_modifyPlayer_eq g (h := Player.hand)
      (f := fun p : Player => { p with timeouts := n p.timeouts }) (fun _ => rfl) _ _
  cases timeout with
  | false =>
    rw [← hhand fun _ => 0]
    rfl
  | true =>
    rw [← hhand fun n => n + 1]
    rfl

end Game

end ScrabbleMagyar
