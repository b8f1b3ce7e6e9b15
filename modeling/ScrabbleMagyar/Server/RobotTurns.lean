import ScrabbleMagyar.Engine.TurnOrder
import ScrabbleMagyar.Engine.Voters
import ScrabbleMagyar.Robot.Decision
import ScrabbleMagyar.Server.Core

/-!
# The turn of a robot

A robot searches without the lock of the server: it decides on what it saw of the table when its turn
began, and the table may have changed when it acts (`play_bot_turn` in `server/core.rs`). The action
is dropped unless the game runs, nothing waits for a vote, and turn and player are those it was
decided for.

* `Game.Lasts.step`: whatever else happens at the table, if this is so then board, bag and the hand
  of the robot are those that it saw.
* `decision_carriedOut`: so the action is carried out as it was decided, and the pass that is there
  for one that fails is never made.
-/

namespace ScrabbleMagyar

/-- What the rest of the table may do while a robot searches: any operation but a move of the robot
or a change of its identifier; the game is not loaded again. -/
def Op.Elsewhere (botId : String) : Op → Prop
  | .placeTiles playerId _ => playerId ≠ botId
  | .exchangeTiles playerId _ => playerId ≠ botId
  | .passTurn playerId _ => playerId ≠ botId
  | .replacePlayerSid oldId newId => oldId ≠ botId ∧ newId ≠ botId
  | .saveRestore => False
  | _ => True

namespace Game

/-- The turn that the robot saw goes on: the table is as it was. -/
structure Awaits (g : Game) (botId : String) (g' : Game) : Prop where
  started : g'.started = true
  unfinished : g'.finished = false
  free : g'.pendingChallenge = none
  seat : g'.currentPlayerIdx < g'.players.length
  turn : g'.turnNumber = g.turnNumber
  bot : (g'.playerAt g'.currentPlayerIdx).id = botId
  board : g'.board = g.board
  bag : g'.bag = g.bag
  rejected : g'.rejectedPlacements = g.rejectedPlacements
  hand : (g'.playerAt g'.currentPlayerIdx).hand = (g.playerAt g.currentPlayerIdx).hand

/-- The turn that the robot saw goes on, or it is past, the game is over or the robot has gone. -/
inductive Lasts (g : Game) (botId : String) (g' : Game) : Prop
  | goesOn (h : Awaits g botId g')
      (sole : ∀ j < g'.players.length, j ≠ g'.currentPlayerIdx → (g'.playerAt j).id ≠ botId)
  | past (started : g'.started = true) (h : g.turnNumber < g'.turnNumber)
  | isOver (h : g'.finished = true)
  | gone (started : g'.started = true) (h : ∀ p ∈ g'.players, p.id ≠ botId)

variable {env : Env} {s g g' : Game} {botId : String} {op : Op}

theorem Settles.turnNumber_le {mid : Game} (hs : Settles env mid g') :
    mid.turnNumber ≤ g'.turnNumber := by
  rcases hs.passed with h | h
  · rw [h, nextTurn_rest]
    exact Int.le_add_one le_rfl
  · exact h.ge

/-- The turns are counted upwards. -/
theorem Effect.turnNumber_le (he : Effect env g op g') : g.turnNumber ≤ g'.turnNumber := by
  cases he with
  | placed => exact (finalizePlacement_settles env g _ _ _ _).turnNumber_le
  | accepted _ pc => exact (closeTurn_settles env (g.layPending pc) _).turnNumber_le
  | rejected _ pc pending => exact (finalizeReject_settles env g pending).turnNumber_le
  | exchanged _ tileIndices =>
    exact (scorelessNextTurn_settles env (g.swapTiles env tileIndices)).turnNumber_le
  | passed _ timeout =>
    cases timeout
    · exact (scorelessNextTurn_settles env (g.notePass false)).turnNumber_le
    · exact (scorelessNextTurn_settles env (g.notePass true)).turnNumber_le
  | expired => exact (scorelessNextTurn_settles env (g.notePass true)).turnNumber_le
  | expelled idx =>
    rw [resignSeat_rest]
    rw [nextTurn_rest]
    exact Int.le_add_one le_rfl
  | resigned _ idx => exact (resignSeat_turnNumber g idx).ge
  | ended =>
    rw [endGame_rest]
    exact (unwindPending_turnNumber g).ge
  | removed _ idx =>
    simp only [removeSeat]
    split <;> exact le_rfl
  | skipped =>
    rw [nextTurn_rest]
    exact Int.le_add_one le_rfl
  | _ => exact le_rfl

/-- A pass at the deadline ends the turn or the game. -/
theorem scorelessNextTurn_ends (hstarted : g.started = true) (hturn : s.turnNumber = g.turnNumber) :
    Lasts s botId (g.scorelessNextTurn env) := by
  rw [scorelessNextTurn_eq]
  split
  · exact .isOver (endGame_finished _ _)
  · refine .past ((nextTurn_started env _).trans hstarted) ?_
    rw [nextTurn_rest, hturn]
    exact Int.lt_succ _

/-- Somebody else leaves the table, or the robot. -/
theorem Awaits.removeSeat (h : Awaits s botId g) {idx : ℕ} (hidx : idx < g.players.length)
    (hsole : ∀ j < g.players.length, j ≠ g.currentPlayerIdx → (g.playerAt j).id ≠ botId) :
    Lasts s botId (g.removeSeat idx) := by
  have hplayers := removeSeat_players g idx
  have hlength : (g.removeSeat idx).players.length = g.players.length - 1 := by
    rw [hplayers, List.length_eraseIdx_of_lt hidx]
  have hstarted : (g.removeSeat idx).started = true := by
    simp only [Game.removeSeat]
    split <;> exact h.started
  by_cases hgone : idx = g.currentPlayerIdx
  · refine .gone hstarted fun p hp => ?_
    rw [hplayers] at hp
    obtain ⟨j, hne, hj⟩ := List.mem_eraseIdx_iff_getElem?.mp hp
    obtain ⟨hlt, rfl⟩ := List.getElem?_eq_some_iff.mp hj
    rw [← playerAt_eq_getElem g hlt]
    exact hsole j hlt (hgone ▸ hne)
  -- the seat of the robot follows it
  have hseat := h.seat
  have hcurrent := currentPlayerIdx_removeSeat g hidx hseat hgone
  have hsame : (if (g.removeSeat idx).currentPlayerIdx < idx then (g.removeSeat idx).currentPlayerIdx
      else (g.removeSeat idx).currentPlayerIdx + 1) = g.currentPlayerIdx := by
    rw [hcurrent]
    split <;> split <;> omega
  have hat : (g.removeSeat idx).playerAt (g.removeSeat idx).currentPlayerIdx =
      g.playerAt g.currentPlayerIdx := by
    rw [playerAt_removeSeat, hsame]
  have hrest : (g.removeSeat idx).finished = g.finished ∧
      (g.removeSeat idx).turnNumber = g.turnNumber ∧ (g.removeSeat idx).board = g.board ∧
      (g.removeSeat idx).bag = g.bag ∧
      (g.removeSeat idx).rejectedPlacements = g.rejectedPlacements := by
    simp only [Game.removeSeat]
    split <;> exact ⟨rfl, rfl, rfl, rfl, rfl⟩
  obtain ⟨hfinished, hturn, hboard, hbag, hrejected⟩ := hrest
  refine .goesOn ⟨hstarted, hfinished.trans h.unfinished, ?_, ?_, hturn.trans h.turn, hat ▸ h.bot,
    hboard.trans h.board, hbag.trans h.bag, hrejected.trans h.rejected, hat ▸ h.hand⟩
    fun j hj hne => ?_
  · simp only [Game.removeSeat, h.free, Option.filter_none, Option.map_none]
    split <;> rfl
  · rw [hcurrent, hlength]
    split <;> omega
  · rw [playerAt_removeSeat]
    refine hsole _ ?_ ?_
    · split <;> omega
    · intro heq
      rw [hcurrent] at hne
      split at heq <;> split at hne <;> omega

/-- A player changes, but not the hand, and the robot not at all. -/
theorem Awaits.modify (h : Awaits s botId g)
    (hsole : ∀ j < g.players.length, j ≠ g.currentPlayerIdx → (g.playerAt j).id ≠ botId) (idx : ℕ)
    (f : Player → Player) (hhand : ∀ p, (f p).hand = p.hand)
    (hid : (∀ p, (f p).id = p.id) ∨ (∀ p, (f p).id ≠ botId) ∧ idx ≠ g.currentPlayerIdx)
    (winners : List Player) :
    Lasts s botId
      { g with players := g.players.modify idx f, pendingChallenge := none, winners } := by
  have hlength : (g.players.modify idx f).length = g.players.length := List.length_modify ..
  have hat (j : ℕ) (hj : j < g.players.length) : (g.players.modify idx f).getD j default =
      if idx = j then f (g.playerAt j) else g.playerAt j := by
    split
    · rename_i heq
      rw [← heq, Lists.getD_modify_self (heq ▸ hj)]
      rfl
    · rename_i hne
      exact Lists.getD_modify_of_ne hne _
  refine .goesOn ⟨h.started, h.unfinished, rfl, hlength.symm ▸ h.seat, h.turn, ?_, h.board, h.bag,
    h.rejected, ?_⟩ fun j hj hne => ?_
  · refine (congrArg Player.id (hat _ h.seat)).trans ?_
    split
    · rename_i heq
      rcases hid with hid | ⟨-, hne⟩
      · exact (hid _).trans h.bot
      · exact absurd heq hne
    · exact h.bot
  · refine (congrArg Player.hand (hat _ h.seat)).trans ?_
    split
    · exact (hhand _).trans h.hand
    · exact h.hand
  · have hj' : j < g.players.length := hlength ▸ hj
    change ((g.players.modify idx f).getD j default).id ≠ botId
    rw [hat j hj']
    split
    · rcases hid with hid | ⟨hid, -⟩
      · exact (hid _).trans_ne (hsole j hj' hne)
      · exact hid _
    · exact hsole j hj' hne

/-- A player who has left a running game does not come back. -/
theorem gone_step (hstarted : g.started = true) (h : ∀ p ∈ g.players, p.id ≠ botId) {op : Op}
    (hop : op.Elsewhere botId) : ∀ p ∈ (g.step (env, op)).players, p.id ≠ botId := by
  have hkeep : op.reseats = false →
      ∀ p ∈ (g.step (env, op)).players, p.id ≠ botId := fun hseats p hp => by
    have hmap := congrArg (List.map Prod.fst) ((step_effect env g op).ballots hseats)
    rw [List.map_map, List.map_map] at hmap
    obtain ⟨q, hq, hid⟩ := List.mem_map.mp (hmap ▸ List.mem_map_of_mem hp)
    exact fun heq => h q hq (hid.trans heq)
  cases op with
  | addPlayer playerId name =>
    change ∀ p ∈ (g.addPlayer playerId name).1.players, p.id ≠ botId
    simp only [addPlayer, hstarted, if_true]
    split_ifs <;> exact h
  | addBot name difficulty =>
    change ∀ p ∈ (g.addBot name difficulty).1.players, p.id ≠ botId
    simp only [addBot, hstarted, if_true]
    split_ifs <;> exact h
  | replacePlayerSid oldId newId =>
    change ∀ p ∈ (g.replacePlayerSid oldId newId).1.players, p.id ≠ botId
    simp only [replacePlayerSid]
    split
    · exact h
    · rename_i idx hseat
      intro p hp
      obtain hp | ⟨q, -, -, rfl⟩ := Lists.mem_modify (f := Player.reconnect newId) hp
      · exact h p hp
      · exact hop.2
  | removePlayer playerId =>
    change ∀ p ∈ (g.removePlayer playerId).1.players, p.id ≠ botId
    simp only [removePlayer]
    split
    · exact h
    · rename_i idx hseat
      rw [removeSeat_players]
      exact fun p hp => h p (List.mem_of_mem_eraseIdx hp)
  | _ => exact hkeep rfl

/-- **The turn that the robot saw lasts** as it was until it is past. -/
theorem Lasts.step (h : Lasts s botId g) (hquiet : Quiet g) {i : Input}
    (hop : i.2.Elsewhere botId) : Lasts s botId (g.step i) := by
  obtain ⟨env, op⟩ := i
  have he := step_effect env g op
  cases h with
  | past started h => exact .past (he.started started) (h.trans_le he.turnNumber_le)
  | isOver h =>
    refine .isOver ((hquiet.grows he fun hload => ?_).of_finished h).2
    rw [hload] at hop
    exact hop
  | gone started h => exact .gone (he.started started) (gone_step started h hop)
  | goesOn h hsole =>
    have hpending : ∀ pc, g.pendingChallenge ≠ some pc := fun pc => by simp [h.free]
    generalize g.step (env, op) = g' at he
    cases he with
    | refused => exact .goesOn h hsole
    | joined _ _ waiting => exact absurd (h.started.symm.trans waiting) (by simp)
    | botJoined _ _ _ waiting => exact absurd (h.started.symm.trans waiting) (by simp)
    | dealt _ waiting => exact absurd (h.started.symm.trans waiting) (by simp)
    | dealtAt _ waiting => exact absurd (h.started.symm.trans waiting) (by simp)
    | placed playerId _ _ may => exact absurd (may.turn.symm.trans h.bot) hop
    | proposed playerId _ _ may => exact absurd (may.turn.symm.trans h.bot) hop
    | exchanged playerId _ may => exact absurd (may.turn.symm.trans h.bot) hop
    | passed playerId _ may => exact absurd (may.turn.symm.trans h.bot) hop
    | voted _ pc pending => exact absurd pending (hpending pc)
    | accepted _ pc pending => exact absurd pending (hpending pc)
    | rejected _ pc pending => exact absurd pending (hpending pc)
    | withdrawn _ pc pending => exact absurd pending (hpending pc)
    | expired => exact scorelessNextTurn_ends (g := g.notePass true) h.started h.turn.symm
    | expelled idx =>
      rw [resignSeat_rest]
      exact .isOver rfl
    | resigned _ idx =>
      rw [resignSeat_rest]
      exact .isOver rfl
    | ended => exact .isOver (endGame_finished _ _)
    | hinted => exact .goesOn ⟨h.started, h.unfinished, h.free, h.seat, h.turn, h.bot, h.board, h.bag,
        h.rejected, h.hand⟩ hsole
    | disconnected _ idx =>
      have hsame : g.modifyPlayer idx (fun p => { p with disconnected := true }) =
          { g with
            players := g.players.modify idx fun p => { p with disconnected := true }
            pendingChallenge := none, winners := g.winners } := by
        rw [← h.free]
        rfl
      exact hsame ▸ h.modify hsole idx (fun p => { p with disconnected := true }) (fun _ => rfl)
        (.inl fun _ => rfl) g.winners
    | reconnected oldId newId idx seat =>
      have hsame : g.reconnectSeat idx oldId newId =
          { g with
            players := g.players.modify idx (Player.reconnect newId)
            pendingChallenge := none
            winners := g.winners.map fun w =>
              if w.id = oldId then Player.reconnect newId w else w } := by
        simp only [reconnectSeat, modifyPlayer, h.free, Option.map_none]
      refine hsame ▸ h.modify hsole idx (Player.reconnect newId) (fun _ => rfl)
        (.inr ⟨fun _ => hop.2, fun hcurrent => ?_⟩) _
      exact hop.1 ((seatOf_eq_some g seat).2.symm.trans (hcurrent ▸ h.bot))
    | removed _ idx seat => exact h.removeSeat (seatOf_eq_some g seat).1 hsole
    | skipped =>
      refine .past ((nextTurn_started env g).trans h.started) ?_
      rw [nextTurn_rest, ← h.turn]
      exact Int.lt_succ _
    | restored => exact hop.elim

theorem Lasts.run (h : Lasts s botId g) (hquiet : Quiet g) {l : List Input}
    (hl : ∀ i ∈ l, i.2.Elsewhere botId) : Lasts s botId (Runs.run Game.step g l) := by
  induction l generalizing g with
  | nil => exact h
  | cons i l ih =>
    exact ih (h.step hquiet (hl i List.mem_cons_self)) (hquiet.effect (step_effect i.1 g i.2))
      fun j hj => hl j (List.mem_cons_of_mem i hj)

/-! ## Moves whose guards hold -/

theorem exchangeTiles_eq {playerId : String} {tileIndices : List ℤ} (hmay : MayAct g playerId)
    (h : Exchangeable g tileIndices) : ∃ m, g.exchangeTiles env playerId tileIndices =
      ((g.swapTiles env tileIndices).scorelessNextTurn env, .ok m) := by
  have hfew : ¬g.bag.remaining < 7 := not_lt.mpr h.enough
  have hcovered : ¬g.bag.remaining < tileIndices.length := not_lt.mpr h.covered
  have hempty : tileIndices.isEmpty = false := by simpa using h.nonempty
  have hdup : tileIndices.dedup.length = tileIndices.length := by rw [h.nodup.dedup]
  have hrange : (tileIndices.any fun i =>
      i < 0 || i.toNat ≥ (g.playerAt g.currentPlayerIdx).hand.length) = false := by
    rw [List.any_eq_false]
    intro i hi
    obtain ⟨hlow, hhigh⟩ := h.inHand i hi
    simp only [Bool.or_eq_true, decide_eq_true_eq, not_or]
    omega
  refine ⟨s!"{tileIndices.length} zseton kicserélve.", ?_⟩
  simp only [exchangeTiles, hmay.unfinished, hmay.free, hmay.noPuzzle,
    currentPlayer_of_seat g hmay.seat,
    hmay.turn, hfew, hcovered, hempty, hdup, hrange, Option.isSome_none, Bool.false_eq_true, ne_eq,
    not_true_eq_false, if_false]

theorem passTurn_eq {playerId : String} (hmay : MayAct g playerId) :
    g.passTurn env playerId false = ((g.notePass false).scorelessNextTurn env, .ok "Passz.") := by
  simp only [passTurn, hmay.unfinished, hmay.free, hmay.noPuzzle, currentPlayer_of_seat g hmay.seat,
    hmay.turn, Option.isSome_none, Bool.false_eq_true, ne_eq, not_true_eq_false, if_false]

theorem Reachable.noPuzzle (h : Reachable g) : g.puzzle = none :=
  Runs.Reaches.invariant step (P := fun g => g.puzzle = none)
    (fun _ hs => by obtain ⟨_, _, _, _, _, rfl⟩ | ⟨_, _, _, rfl⟩ := hs <;> rfl)
    (fun s i hs _ => ((step_effect i.1 s i.2).modes hs).1) h

end Game

namespace Robot

open Game

/-- A decision that is carried out as it was made. -/
inductive CarriedOut (env : Env) (g : Game) (botId : String) : Action → Prop
  | place (tiles : List Placed) (formed : List FormedWord) (score : ℤ) (message : String) (g' : Game)
      (fresh : placementKey tiles ∉ g.rejectedPlacements)
      (may : Placeable env.lexicon g botId tiles formed)
      (placed : g.placeTiles env botId tiles = (g', .ok (message, score)))
      (acts : Server.botAct env g botId (.place tiles (formed.map FormedWord.word) score) =
        (g', .ok "")) :
      CarriedOut env g botId (.place tiles (formed.map FormedWord.word) score)
  | exchange (indices : List ℕ) (message : String) (g' : Game)
      (exchanged : g.exchangeTiles env botId (indices.map Int.ofNat) = (g', .ok message))
      (acts : Server.botAct env g botId (.exchange indices) = (g', .ok "")) :
      CarriedOut env g botId (.exchange indices)
  | pass (g' : Game) (passed : g.passTurn env botId false = (g', .ok "Passz."))
      (acts : Server.botAct env g botId .pass = (g', .ok "Passz.")) :
      CarriedOut env g botId .pass

variable {env : Env} {g : Game} {botId : String}

theorem carriedOut_place {clock : ℕ → Bool} {vocab : Vocabulary} {m : Move}
    (hmay : MayAct g botId)
    (hopen : m ∈ openMoves clock env.lexicon vocab g.board (g.playerAt g.currentPlayerIdx).hand
      (some g.rejectedPlacements)) (hvalid : m.valid env.lexicon = true) :
    CarriedOut env g botId (.place m.tiles m.words m.score) := by
  obtain ⟨hfound, hallowed⟩ := mem_openMoves.mp hopen
  obtain ⟨formed, hfits⟩ := fits_of_mem_generateMoves
    ((generateMovesIn_starts clock env.lexicon vocab g.board
      (g.playerAt g.currentPlayerIdx).hand true handSize).1.subset hfound)
  have hchecked := (Board.validatePlacement_ok_iff _ _ _ _ _).mp hfits.valid
  have haccepted : ∀ w ∈ formed, env.lexicon.accepts w.word = true := fun w hw =>
    List.all_eq_true.mp hvalid w.word (hfits.words ▸ List.mem_map_of_mem hw)
  have hplaceable : Placeable env.lexicon g botId m.tiles formed :=
    ⟨hmay.unfinished, hmay.free, hmay.seat, hmay.turn, hfits.held.validateHand,
      (Board.validatePlacement_ok_iff _ _ _ _ _).mpr { hchecked with accepted := fun _ => haccepted }⟩
  obtain ⟨message, g', hplaced⟩ : ∃ message g', g.placeTiles env botId m.tiles =
      (g', .ok (message, m.score)) := by
    rw [placeTiles_eq hplaceable, hfits.score]
    dsimp only
    split <;> exact ⟨_, _, rfl⟩
  rw [hfits.words]
  refine .place m.tiles formed m.score message g' (hallowed _ rfl) hplaceable hplaced ?_
  simp only [Server.botAct, hplaced, if_true]

theorem carriedOut_exchange {indices : List ℕ} (hmay : MayAct g botId)
    (hhand : (g.playerAt g.currentPlayerIdx).hand.length ≤ handSize)
    (henough : handSize ≤ g.bag.remaining) (hne : indices ≠ []) (hnodup : indices.Nodup)
    (hrange : ∀ i ∈ indices, i < (g.playerAt g.currentPlayerIdx).hand.length) :
    CarriedOut env g botId (.exchange indices) := by
  have hexchangeable : Exchangeable g (indices.map Int.ofNat) := by
    refine ⟨henough, ?_, by simpa using hne,
      hnodup.map fun _ _ => Int.ofNat.inj, fun i hi => ?_⟩
    · have hsub : indices ⊆ List.range (g.playerAt g.currentPlayerIdx).hand.length := fun i hi =>
        List.mem_range.mpr (hrange i hi)
      have hlen := (hnodup.subperm hsub).length_le
      rw [List.length_range] at hlen
      rw [List.length_map]
      exact (hlen.trans hhand).trans henough
    · obtain ⟨j, hj, rfl⟩ := List.mem_map.mp hi
      exact ⟨Int.natCast_nonneg j, hrange j hj⟩
  obtain ⟨message, hexchanged⟩ : ∃ message, g.exchangeTiles env botId (indices.map Int.ofNat) =
      ((g.swapTiles env (indices.map Int.ofNat)).scorelessNextTurn env, .ok message) :=
    exchangeTiles_eq hmay hexchangeable
  refine .exchange indices message _ hexchanged ?_
  have hcast : ((do let i ← indices; pure (i : ℤ)) : List ℤ).map (fun i => i) =
      indices.map Int.ofNat := by
    rw [bind_pure_comp, List.map_eq_map, List.map_map]
    rfl
  simp only [Server.botAct, hcast, hexchanged, if_true]

/-- **The decision is carried out**: a robot decides, at any level, on what it saw when its turn
began. If after any operations of the others the game still runs, nothing waits for a vote and turn
and player are the same, the action succeeds as it was decided: a placement is not one that was voted
down, and it is accepted with its words and its score. -/
theorem decision_carriedOut (h : Reachable g) (hstarted : g.started = true)
    (hrun : g.finished = false) (hfree : g.pendingChallenge = none)
    (hseat : g.currentPlayerIdx < g.players.length)
    (hbot : (g.playerAt g.currentPlayerIdx).id = botId)
    (hsole : ∀ j < g.players.length, j ≠ g.currentPlayerIdx → (g.playerAt j).id ≠ botId)
    (l : List Input) (hl : ∀ i ∈ l, i.2.Elsewhere botId) :
    let g' := Runs.run Game.step g l
    g'.finished = false → g'.pendingChallenge = none →
    g'.currentPlayer.map Player.id = some botId → g'.turnNumber = g.turnNumber →
    ∀ (env : Env) (rng : Source) (clock : ℕ → Bool) (vocab : Vocabulary) (level n : ℕ),
      CarriedOut env g' botId (chooseAction rng clock env.lexicon vocab g.board
        (g.playerAt g.currentPlayerIdx).hand level g.bag.remaining
        (some g.rejectedPlacements) n).1 := by
  intro g' hrun' hfree' hturn hnumber env rng clock vocab level n
  have hlasts : Lasts g botId g' := Lasts.run
    (.goesOn ⟨hstarted, hrun, hfree, hseat, rfl, hbot, rfl, rfl, rfl, rfl⟩ hsole)
    (.of_unfinished hrun) hl
  have hawaits : Awaits g botId g' := by
    cases hlasts with
    | goesOn h => exact h
    | past _ hlater => exact absurd hnumber hlater.ne'
    | isOver hover => exact absurd (hrun'.symm.trans hover) (by simp)
    | gone _ hgone =>
      obtain ⟨p, hp, hid⟩ := Option.map_eq_some_iff.mp hturn
      exact absurd hid (hgone p (List.mem_of_getElem? hp))
  have hreach : Reachable g' :=
    Runs.Reaches.run step h (Runs.along_of_forall step (fun _ _ _ => trivial) _)
  have hmay : MayAct g' botId := ⟨hrun', hfree', hreach.noPuzzle, hawaits.seat, hawaits.bot⟩
  have hsound : Sound env.lexicon (g'.playerAt g'.currentPlayerIdx).hand g'.bag.remaining
      (openMoves clock env.lexicon vocab g'.board (g'.playerAt g'.currentPlayerIdx).hand
        (some g'.rejectedPlacements))
      (chooseAction rng clock env.lexicon vocab g'.board (g'.playerAt g'.currentPlayerIdx).hand level
        g'.bag.remaining (some g'.rejectedPlacements) n).1 := chooseAction_sound
  rw [← hawaits.board, ← hawaits.hand, ← hawaits.bag, ← hawaits.rejected]
  generalize (chooseAction rng clock env.lexicon vocab g'.board
    (g'.playerAt g'.currentPlayerIdx).hand level g'.bag.remaining (some g'.rejectedPlacements) n).1 =
      action at hsound
  cases hsound with
  | place m found valid => exact carriedOut_place hmay found valid
  | exchange indices enough seats =>
    have hhand := hreach.coherent.1.hand_le g'.currentPlayerIdx
    have hsaved : g'.savedHand g'.currentPlayerIdx (g'.playerAt g'.currentPlayerIdx) =
        (g'.playerAt g'.currentPlayerIdx).hand := by simp [savedHand, hfree']
    obtain ⟨hne, hnodup, hrange⟩ := seats
      (hsaved ▸ (hands_supplied hreach hawaits.started hrun' _ hawaits.seat).1)
    exact carriedOut_exchange hmay hhand enough hne hnodup hrange
  | pass => exact .pass _ (passTurn_eq hmay) (passTurn_eq hmay)

/-- A game of Anna with a robot, whose turn it is. -/
def robotDuel : Game :=
  Runs.run Game.step (Game.new stillEnv "duel" true 0 3)
    [(stillEnv, .addPlayer "a" "Anna"), (stillEnv, .addBot "Robi" (.int 10)), (stillEnv, .start),
      (stillEnv, .passTurn "a" false)]

theorem reachable_robotDuel : Reachable robotDuel :=
  ⟨_, _, .inl ⟨_, _, _, _, _, rfl⟩, Runs.along_of_forall step (fun _ _ _ => trivial) _, rfl⟩

/-- Anna asks for a hint and loses her connection while the robot searches. -/
theorem decision_carriedOut_robotDuel :
    let g' := Runs.run Game.step robotDuel [(stillEnv, .useHint), (stillEnv, .markDisconnected "a")]
    CarriedOut stillEnv g' "bot-duel-1" (chooseAction ⟨fun _ => 0, fun _ _ => 0, fun _ => 1⟩
      (fun _ => false) stillEnv.lexicon csoVocabulary robotDuel.board
      (robotDuel.playerAt robotDuel.currentPlayerIdx).hand 10
      robotDuel.bag.remaining (some robotDuel.rejectedPlacements) 0).1 :=
  decision_carriedOut reachable_robotDuel (by decide +kernel) (by decide +kernel) (by decide +kernel)
    (by decide +kernel) (by decide +kernel) (by decide +kernel)
    [(stillEnv, .useHint), (stillEnv, .markDisconnected "a")] (by simp [Op.Elsewhere])
    (by decide +kernel) (by decide +kernel) (by decide +kernel) (by decide +kernel) stillEnv _ _ _ _ _

end Robot

end ScrabbleMagyar
