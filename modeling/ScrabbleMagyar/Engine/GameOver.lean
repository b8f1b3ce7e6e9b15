import ScrabbleMagyar.Engine.Accounts
import ScrabbleMagyar.Engine.Pending

/-!
# The final account

However a game ends, short of a resignation, the last operation is a move (`LastMove`) and then
the settlement. So the final scores follow from the game before and the tiles that are left
(`final_account`).
-/

namespace ScrabbleMagyar

/-- The operation that swaps tiles. -/
def Op.isExchange : Op → Bool
  | .exchangeTiles _ _ => true
  | _ => false

namespace Game

/-! ## The last move -/

/-- The seat and the score of the placement that an operation makes or accepts, by its answer. -/
def counted (g : Game) (i : Input) : Option (ℕ × ℤ) :=
  match i.2 with
  | .placeTiles playerId tiles =>
    match (g.placeTiles i.1 playerId tiles).2 with
    | .ok (_, score) => some (g.currentPlayerIdx, score)
    | .error _ => none
  | _ =>
    match g.voteAnswer i, g.pendingChallenge with
    | some (.ok (.accepted, _)), some pc => some (pc.playerIdx, pc.score)
    | _, _ => none

/-- The score a seat gets for the placement that counts. -/
def award (counted : Option (ℕ × ℤ)) (j : ℕ) : ℤ :=
  match counted with
  | some (idx, score) => if j = idx then score else 0
  | none => 0

/-- The game `mid` is `g` after the last move, with nothing but the settlement to come. -/
structure LastMove (g mid : Game) (i : Input) : Prop where
  seats : mid.players.map Player.id = g.players.map Player.id
  scores : ∀ j < g.players.length,
    (mid.playerAt j).score = (g.playerAt j).score + award (g.counted i) j
  hands : ∀ j, (∀ score, g.counted i ≠ some (j, score)) →
    (i.2.isExchange = true → j ≠ g.currentPlayerIdx) →
    (mid.playerAt j).hand = g.savedHand j (g.playerAt j)
  out : ∀ j score, g.counted i = some (j, score) →
    j < g.players.length ∧ (mid.playerAt j).hand = [] ∧ mid.bag.isEmpty = true

variable {g : Game} {i : Input}

theorem LastMove.length {mid : Game} (h : LastMove g mid i) :
    mid.players.length = g.players.length := by
  simpa using congrArg List.length h.seats

theorem savedHand_of_free (hfree : g.pendingChallenge = none) (j : ℕ) (p : Player) :
    g.savedHand j p = p.hand := by
  simp [savedHand, hfree]

/-- A last move without a placement that counts. -/
theorem LastMove.quiet {mid : Game} (hcounted : g.counted i = none)
    (hseats : mid.players.map Player.id = g.players.map Player.id)
    (hscores : mid.players.map Player.score = g.players.map Player.score)
    (hhands : ∀ j, (i.2.isExchange = true → j ≠ g.currentPlayerIdx) →
      (mid.playerAt j).hand = g.savedHand j (g.playerAt j)) : LastMove g mid i := by
  refine ⟨hseats, fun j _ => ?_, fun j _ => hhands j, fun j score h => ?_⟩
  · rw [hcounted, playerAt_congr (h := Player.score) hscores]
    simp [award]
  · rw [hcounted] at h
    cases h

/-- A placement that counts, as the last move: its player has gone out. -/
theorem LastMove.wentOut {mid : Game} {idx : ℕ} {score : ℤ} {f : Player → Player}
    (hcounted : g.counted i = some (idx, score)) (hidx : idx < g.players.length)
    (hplayers : mid.players = g.players.modify idx f) (hid : ∀ p, (f p).id = p.id)
    (hscore : ∀ p, (f p).score = p.score + score)
    (hothers : ∀ j, j ≠ idx → g.savedHand j (g.playerAt j) = (g.playerAt j).hand)
    (hout : (mid.playerAt idx).hand = []) (hbag : mid.bag.isEmpty = true) : LastMove g mid i := by
  have hsame : ∀ j, j ≠ idx → mid.playerAt j = g.playerAt j := fun j hj => by
    rw [playerAt, hplayers]
    exact Lists.getD_modify_of_ne (Ne.symm hj) _
  refine ⟨?_, fun j hj => ?_, fun j hj _ => ?_, fun j s hj => ?_⟩
  · rw [hplayers, Lists.map_modify_eq hid]
  · rw [hcounted]
    by_cases hji : j = idx
    · subst hji
      have hself : mid.playerAt j = f (g.playerAt j) := by
        rw [playerAt, hplayers]
        exact Lists.getD_modify_self hj _
      simp [award, hself, hscore]
    · simp [award, hji, hsame j hji]
  · have hji : j ≠ idx := fun hji => hj score (hji ▸ hcounted)
    rw [hsame j hji, hothers j hji]
  · obtain ⟨rfl, -⟩ := Prod.mk.inj (Option.some.inj (hcounted.symm.trans hj))
    exact ⟨hidx, hout, hbag⟩

/-! ## What counts -/

theorem counted_placeTiles {env : Env} {playerId : String} {tiles : List Placed}
    {formed : List FormedWord} (h : Placeable env.lexicon g playerId tiles formed) :
    g.counted (env, .placeTiles playerId tiles) =
      some (g.currentPlayerIdx, lerakasTotal formed tiles.length) := by
  simp only [counted, placeTiles_eq h]
  split_ifs <;> rfl

theorem counted_of_accepted (h : g.Answers i .accepted) {pc : Challenge}
    (hpc : g.pendingChallenge = some pc) : g.counted i = some (pc.playerIdx, pc.score) := by
  obtain ⟨env, op⟩ := i
  obtain ⟨text, h⟩ := h
  cases op with
  | placeTiles playerId tiles => cases h
  | _ => simp only [counted, h, hpc]

theorem counted_of_rejected (h : g.Answers i .rejected) : g.counted i = none := by
  obtain ⟨env, op⟩ := i
  obtain ⟨text, h⟩ := h
  cases op with
  | placeTiles playerId tiles => cases h
  | _ => simp only [counted, h]

/-- Only placements and decisions count. -/
theorem counted_eq_none {env : Env} {op : Op} (hop : op.decides = false)
    (hplace : ∀ playerId tiles, op ≠ .placeTiles playerId tiles) : g.counted (env, op) = none := by
  cases op with
  | placeTiles playerId tiles => exact absurd rfl (hplace playerId tiles)
  | acceptPendingByPlayer _ => cases hop
  | rejectPendingByPlayer _ => cases hop
  | acceptPending => cases hop
  | forceResolvePending _ => cases hop
  | _ => rfl

/-! ## How a game ends -/

variable {env : Env}

/-- A turn that ends the game is that of a player who has gone out. -/
theorem closeTurn_finished {idx : ℕ} (hrun : g.finished = false)
    (hend : (g.closeTurn env idx).finished = true) :
    (g.playerAt idx).hand = [] ∧ g.bag.isEmpty = true ∧
      g.closeTurn env idx = g.endGame (some idx) := by
  simp only [closeTurn] at hend ⊢
  split at hend
  · rename_i hout
    obtain ⟨hhand, hbag⟩ := Bool.and_eq_true_iff.mp hout
    exact ⟨by simpa using hhand, hbag, if_pos hout⟩
  · rw [nextTurn_finished, hrun] at hend
    cases hend

/-- A turn without a score that ends the game. -/
theorem scorelessNextTurn_finished (hrun : g.finished = false)
    (hend : (g.scorelessNextTurn env).finished = true) :
    g.scorelessNextTurn env = g.bumped.endGame none := by
  rw [scorelessNextTurn_eq] at hend ⊢
  split at hend
  · rename_i hlimit
    exact if_pos hlimit
  · rw [nextTurn_finished] at hend
    exact absurd (hrun.symm.trans hend) (by simp)

theorem finalizeReject_finished {pc : Challenge} (hpc : g.pendingChallenge = some pc)
    (hrun : g.finished = false) (hend : (g.finalizeReject env).finished = true) :
    g.finalizeReject env = (g.turnDown pc).bumped.endGame none := by
  rw [finalizeReject_eq env g hpc] at hend ⊢
  split at hend
  · rename_i hlimit
    exact if_pos hlimit
  · split at hend
    · rw [nextTurn_finished] at hend
      exact absurd (hrun.symm.trans hend) (by simp)
    · exact absurd (hrun.symm.trans hend) (by simp)

/-- The hands with the tiles of a pending placement given back. -/
theorem hand_returnTiles {pc : Challenge} (hpc : g.pendingChallenge = some pc)
    (hseat : pc.playerIdx < g.players.length) (j : ℕ) :
    ((g.returnTiles pc).playerAt j).hand = g.savedHand j (g.playerAt j) := by
  let f : Player → Player := fun p => { p with hand := p.hand ++ pc.removedFromHand }
  simp only [savedHand, hpc]
  by_cases hj : j = pc.playerIdx
  · subst hj
    rw [if_pos rfl]
    exact congrArg Player.hand (playerAt_modifyPlayer_self g hseat f)
  · rw [if_neg hj]
    exact congrArg Player.hand (playerAt_modifyPlayer_of_ne g (Ne.symm hj) f)

theorem returnTiles_map {β : Type*} {h : Player → β} (hh : ∀ p hand, h { p with hand := hand } = h p)
    (pc : Challenge) : (g.returnTiles pc).players.map h = g.players.map h :=
  Lists.map_modify_eq (f := fun p : Player => { p with hand := p.hand ++ pc.removedFromHand })
    (fun _ => hh _ _) _ _

/-- A rejection as the last move. -/
theorem lastMove_turnDown {pc : Challenge} (hcounted : g.counted i = none)
    (hpc : g.pendingChallenge = some pc) (hseat : pc.playerIdx < g.players.length) :
    LastMove g (g.turnDown pc).bumped i :=
  .quiet hcounted (returnTiles_map (fun _ _ => rfl) pc) (returnTiles_map (fun _ _ => rfl) pc)
    fun j _ => hand_returnTiles hpc hseat j

/-- A pass as the last move. -/
theorem lastMove_notePass (hcounted : g.counted i = none) (hfree : g.pendingChallenge = none)
    (timeout : Bool) : LastMove g (g.notePass timeout).bumped i := by
  have hmap : ∀ {β : Type} {h : Player → β}, (∀ p, h (passed timeout p) = h p) →
      (g.notePass timeout).bumped.players.map h = g.players.map h := fun hh => by
    change (g.notePass timeout).players.map _ = _
    rw [notePass_players, Lists.map_modify_eq hh]
  refine .quiet hcounted (hmap fun _ => rfl) (hmap fun _ => rfl) fun j _ => ?_
  rw [savedHand_of_free hfree]
  exact playerAt_congr (h := Player.hand) (hmap fun _ => rfl) j

/-- An exchange as the last move. -/
theorem lastMove_swapTiles {playerId : String} {tileIndices : List ℤ}
    (hfree : g.pendingChallenge = none) :
    LastMove g (g.swapTiles env tileIndices).bumped (env, .exchangeTiles playerId tileIndices) := by
  have hplayers : (g.swapTiles env tileIndices).bumped.players =
      g.players.modify g.currentPlayerIdx (g.swapped tileIndices) := swapTiles_players env g _
  refine .quiet (counted_eq_none rfl (by simp)) ?_ ?_ fun j hj => ?_
  · rw [hplayers, Lists.map_modify_eq (f := g.swapped tileIndices) fun _ => rfl]
  · rw [hplayers, Lists.map_modify_eq (f := g.swapped tileIndices) fun _ => rfl]
  · rw [savedHand_of_free hfree, playerAt, hplayers, Lists.getD_modify_of_ne (Ne.symm (hj rfl))]
    rfl

/-- The end of a game as it stands. -/
theorem lastMove_unwindPending (hsound : PendingSound g) (hcounted : g.counted i = none) :
    LastMove g g.unwindPending i := by
  cases hpc : g.pendingChallenge with
  | none =>
    simp only [unwindPending, hpc]
    exact .quiet hcounted rfl rfl fun j _ => (savedHand_of_free hpc j _).symm
  | some pc =>
    simp only [unwindPending, hpc]
    exact .quiet hcounted (returnTiles_map (fun _ _ => rfl) pc) (returnTiles_map (fun _ _ => rfl) pc)
      fun j _ => hand_returnTiles hpc (hsound pc hpc).seat j

/-- A direct placement as the last move. -/
theorem lastMove_layTiles {playerId : String} {tiles : List Placed} {formed : List FormedWord}
    (h : Placeable env.lexicon g playerId tiles formed) :
    let laid := g.layTiles tiles (lerakasTotal formed tiles.length) (formed.map FormedWord.word)
      formed
    (laid.playerAt g.currentPlayerIdx).hand = [] → laid.bag.isEmpty = true →
    LastMove g laid (env, .placeTiles playerId tiles) := by
  intro laid hout hbag
  exact .wentOut (f := g.laid tiles _) (counted_placeTiles h) h.seat (layTiles_players g _ _ _ _)
    (fun _ => rfl) (fun _ => rfl) (fun j _ => savedHand_of_free h.free j _) hout hbag

/-- An accepted placement as the last move. -/
theorem lastMove_layPending {pc : Challenge} (hcounted : g.counted i = some (pc.playerIdx, pc.score))
    (hpc : g.pendingChallenge = some pc) (hseat : pc.playerIdx < g.players.length)
    (hout : ((g.layPending pc).playerAt pc.playerIdx).hand = [])
    (hbag : (g.layPending pc).bag.isEmpty = true) : LastMove g (g.layPending pc) i := by
  refine .wentOut (f := g.accepted pc.score) hcounted hseat (layPending_players g pc) (fun _ => rfl)
    (fun _ => rfl) (fun j hj => ?_) hout hbag
  simp only [savedHand, hpc, if_neg hj]

/-- A resignation shows. -/
theorem resigned_resignSeat {idx : ℕ} (hidx : idx < g.players.length) :
    ∃ p ∈ (g.resignSeat idx).players, p.resigned = true := by
  have hplayers : (g.resignSeat idx).players =
      settle (g.players.modify idx fun p => { p with resigned := true }) none := by
    rw [resignSeat_rest]
  have hlen : idx < (g.resignSeat idx).players.length := by
    rw [hplayers, settle_length, List.length_modify]
    exact hidx
  refine ⟨_, playerAt_mem _ hlen, ?_⟩
  have hmap : (g.resignSeat idx).players.map Player.resigned =
      (g.modifyPlayer idx fun p => { p with resigned := true }).players.map Player.resigned := by
    rw [hplayers]
    exact settle_map (fun _ _ => rfl) _ none
  have hflag := playerAt_congr hmap idx
  rw [hflag, playerAt_modifyPlayer_self g hidx]

/-- An operation that can decide on a pending placement changes nothing, or answers. -/
theorem step_of_decides {op : Op} (hop : op.decides = true) :
    g.step (env, op) = g ∨ ∃ result, g.Answers (env, op) result := by
  have hcases : ∀ answer, g.voteAnswer (env, op) = some answer →
      g.fails (env, op) = !answer.isOk →
      g.step (env, op) = g ∨ ∃ result, g.Answers (env, op) result := fun answer hanswer hfails => by
    cases answer with
    | error e => exact .inl (step_of_fails hfails)
    | ok answer => exact .inr ⟨answer.1, answer.2, hanswer⟩
  cases op with
  | acceptPendingByPlayer playerId => exact hcases _ rfl rfl
  | rejectPendingByPlayer playerId => exact hcases _ rfl rfl
  | acceptPending => exact hcases _ rfl rfl
  | forceResolvePending accept => exact hcases _ rfl rfl
  | _ => cases hop

/-- **How a game ends**: unless somebody resigns, with a last move and the settlement. -/
theorem exists_lastMove (hsound : PendingSound g) (hpuzzle : g.puzzle = none)
    (hrun : g.finished = false) (hend : (g.step i).finished = true)
    (hstay : ∀ p ∈ (g.step i).players, p.resigned = false) :
    ∃ mid, LastMove g mid i ∧ g.step i = mid.endGame ((g.counted i).map Prod.fst) := by
  obtain ⟨env, op⟩ := i
  have hruns : ∀ {g' : Game}, g' = g.step (env, op) → g'.finished ≠ false := fun h hg' =>
    absurd (hg'.symm.trans ((congrArg Game.finished h).trans hend)) (by simp)
  by_cases hop : op.decides = true
  · -- a vote or a decision on the pending placement
    obtain hsame | ⟨result, hanswers⟩ : g.step (env, op) = g ∨ ∃ result, g.Answers (env, op) result :=
      step_of_decides hop
    · exact absurd hrun (hruns hsame.symm)
    · obtain ⟨hleaves, pc, hpc⟩ := hanswers.leaves
      have hseat := (hsound pc hpc).seat
      cases result with
      | recorded =>
        obtain ⟨pc', voter, playerId, vote, -, hstep⟩ := hleaves
        exact (hruns hstep.symm hrun).elim
      | accepted =>
        replace hleaves : g.step (env, op) = (g.layPending pc).closeTurn env pc.playerIdx :=
          (show g.step (env, op) = g.finalizeAccept env from hleaves).trans (finalizeAccept_eq hpc)
        have hcounted := counted_of_accepted hanswers hpc
        obtain ⟨hout, hbag, hclose⟩ := closeTurn_finished (g := g.layPending pc) hrun
          (hleaves ▸ hend)
        exact ⟨_, lastMove_layPending hcounted hpc hseat hout hbag, by
          rw [hleaves, hclose, hcounted, Option.map_some]⟩
      | rejected =>
        replace hleaves : g.step (env, op) = g.finalizeReject env := hleaves
        have hcounted := counted_of_rejected hanswers
        exact ⟨_, lastMove_turnDown hcounted hpc hseat, by
          rw [hleaves, finalizeReject_finished hpc hrun (hleaves ▸ hend), hcounted]
          rfl⟩
  have hop' : op.decides = false := by simpa using hop
  have he := step_effect env g op
  generalize hg' : g.step (env, op) = g' at he hend hstay hruns
  cases he with
  | placed playerId tiles formed may =>
    let laid := g.layTiles tiles (lerakasTotal formed tiles.length) (formed.map FormedWord.word)
      formed
    have hplaced : g.placedNow env tiles formed = laid.closeTurn env g.currentPlayerIdx :=
      placedNow_eq _ hpuzzle tiles formed
    have hend' : (laid.closeTurn env g.currentPlayerIdx).finished = true := hplaced ▸ hend
    obtain ⟨hout, hbag, hclose⟩ := closeTurn_finished (g := laid) hrun hend'
    refine ⟨_, lastMove_layTiles may hout hbag, ?_⟩
    rw [hplaced, hclose, counted_placeTiles may, Option.map_some]
  | accepted op pc pending decides => exact absurd decides hop
  | rejected op pc pending decides => exact absurd decides hop
  | exchanged playerId tileIndices may =>
    refine ⟨_, lastMove_swapTiles may.free, ?_⟩
    rw [scorelessNextTurn_finished (g := g.swapTiles env tileIndices) hrun hend,
      counted_eq_none hop' (by simp)]
    rfl
  | passed playerId timeout may =>
    have hcounted : g.counted (env, .passTurn playerId timeout) = none :=
      counted_eq_none hop' (by simp)
    refine ⟨_, lastMove_notePass hcounted may.free timeout, ?_⟩
    rw [scorelessNextTurn_finished (g := g.notePass timeout) (by cases timeout <;> exact hrun) hend,
      hcounted]
    rfl
  | expired may =>
    obtain ⟨_, may⟩ := may
    have hcounted : g.counted (env, .expireTurn) = none := counted_eq_none hop' (by simp)
    refine ⟨_, lastMove_notePass hcounted may.free true, ?_⟩
    rw [scorelessNextTurn_finished (g := g.notePass true) hrun hend, hcounted]
    rfl
  | expelled idx may _ _ seat =>
    have hseat : idx < ((g.notePass true).bumped.nextTurn env).players.length := by
      simpa [bumped, notePass_players] using seat
    obtain ⟨p, hp, hresigned⟩ := resigned_resignSeat hseat
    exact absurd ((hstay p hp).symm.trans hresigned) (by simp)
  | resigned playerId idx _ _ seat =>
    obtain ⟨p, hp, hresigned⟩ := resigned_resignSeat (seatOf_eq_some g seat).1
    exact absurd ((hstay p hp).symm.trans hresigned) (by simp)
  | ended =>
    have hcounted : g.counted (env, .forceEnd) = none := counted_eq_none hop' (by simp)
    exact ⟨_, lastMove_unwindPending hsound hcounted, by rw [hcounted]; rfl⟩
  | removed playerId idx =>
    simp only [removeSeat] at hend
    split at hend <;> exact absurd (hrun.symm.trans hend) (by simp)
  | skipped =>
    rw [nextTurn_finished] at hend
    exact absurd (hrun.symm.trans hend) (by simp)
  | _ => exact absurd (hrun.symm.trans hend) (by simp)

/-! ## The account -/

/-- What the placement that counts brings a seat if the game ends with it: its score, and the
value of the tiles that all others are left with. -/
def gain (counted : Option (ℕ × ℤ)) (g' : Game) (j : ℕ) : ℤ :=
  match counted with
  | some (idx, score) =>
    if j = idx then
      score + ∑ k ∈ (Finset.range g'.players.length).erase j, (g'.playerAt k).handValue
    else 0
  | none => 0

/-- The final account of the game `g'` over the game `g` before the operation. -/
structure FinalAccount (g g' : Game) (i : Input) : Prop where
  free : g'.pendingChallenge = none
  seats : g'.players.map Player.id = g.players.map Player.id
  scores : ∀ j < g.players.length, (g'.playerAt j).score =
    (g.playerAt j).score + gain (g.counted i) g' j - (g'.playerAt j).handValue
  /-- Whoever made the placement that counts has nothing left, and the bag is empty. -/
  out : ∀ j score, g.counted i = some (j, score) →
    (g'.playerAt j).hand = [] ∧ g'.bag.isEmpty = true
  /-- The others are left with what they held, the tiles of a pending placement included, but for
  an exchange. -/
  hands : ∀ j, (∀ score, g.counted i ≠ some (j, score)) →
    (i.2.isExchange = true → j ≠ g.currentPlayerIdx) →
    (g'.playerAt j).hand = g.savedHand j (g.playerAt j)
  winners : g'.winners = Best.best Player.score g'.players
  somebody : g'.players ≠ [] → g'.winners ≠ []

theorem LastMove.account {mid : Game} (h : LastMove g mid i) {finisher : Option ℕ}
    (hfinisher : (g.counted i).map Prod.fst = finisher) :
    FinalAccount g (mid.endGame finisher) i := by
  let g' := mid.endGame finisher
  have hmap : ∀ {β : Type} {f : Player → β}, (∀ p s, f { p with score := s } = f p) →
      g'.players.map f = mid.players.map f := fun hf => by
    rw [endGame_players, settle_map hf]
  have hlen : g'.players.length = g.players.length := by
    rw [endGame_players, settle_length, h.length]
  have hhand : ∀ j, (g'.playerAt j).hand = (mid.playerAt j).hand :=
    playerAt_congr (hmap fun _ _ => rfl)
  have hvalue : ∀ j, (g'.playerAt j).handValue = (mid.playerAt j).handValue :=
    playerAt_congr (hmap fun _ _ => rfl)
  have hscore : ∀ j < g.players.length, (g'.playerAt j).score =
      (mid.playerAt j).score - (mid.playerAt j).handValue +
        if finisher = some j then (mid.players.map Player.handValue).sum else 0 := fun j hj => by
    rw [playerAt, endGame_players, score_settle _ (h.length ▸ hj)]
    rfl
  have hwinners : g'.winners = Best.best Player.score g'.players := endGame_winners mid _
  refine ⟨endGame_pendingChallenge _ _, (hmap fun _ _ => rfl).trans h.seats, fun j hj => ?_,
    fun j score hc => ?_, fun j hc hex => (hhand j).trans (h.hands j hc hex), hwinners,
    fun hne => hwinners ▸ Best.best_ne_nil _ hne⟩
  · rw [hscore j hj, h.scores j hj, hvalue]
    cases hc : g.counted i with
    | none =>
      have hnobody : finisher = none := by rw [← hfinisher, hc, Option.map_none]
      simp [award, gain, hnobody]
    | some counted =>
      obtain ⟨idx, score⟩ := counted
      obtain rfl : finisher = some idx := by rw [← hfinisher, hc, Option.map_some]
      by_cases hji : j = idx
      · subst hji
        -- the player who went out has no tiles, so all the tiles are those of the others
        have hnothing : (mid.playerAt j).handValue = 0 := by
          simp [Player.handValue, (h.out j score hc).2.1]
        have htotal : (mid.players.map Player.handValue).sum =
            ∑ k ∈ (Finset.range g'.players.length).erase j, (g'.playerAt k).handValue := by
          rw [Lists.sum_map_eq_add_sum_erase Player.handValue default (h.length ▸ hj)]
          simp only [hvalue, hlen, h.length]
          exact (congrArg (· + _) hnothing).trans (zero_add _)
        simp only [award, gain, if_true, htotal, hnothing, g']
        omega
      · simp [award, gain, hji, Ne.symm hji]
  · exact ⟨(hhand j).trans (h.out j score hc).2.1, (endGame_bag _ _).symm ▸ (h.out j score hc).2.2⟩

/-- **The final account.** However a reachable game ends, short of a resignation, every final
score is the one before less the value of the tiles the player is left with, and a player who goes
out gains the score of the placement and the value of the tiles of all others. The winners are the
players with the best final score; there is one as soon as anybody is seated. -/
theorem final_account (h : Reachable g) (hpuzzle : g.puzzle = none) (hrun : g.finished = false)
    (hend : (g.step i).finished = true) (hstay : ∀ p ∈ (g.step i).players, p.resigned = false) :
    FinalAccount g (g.step i) i := by
  obtain ⟨mid, hmid, heq⟩ := exists_lastMove h.coherent.2 hpuzzle hrun hend hstay
  rw [heq]
  exact hmid.account rfl

/-- A duel ended during the vote on its first placement. -/
theorem final_account_duel :
    FinalAccount ((duel true).step (stillEnv, .placeTiles "a" duelOpening))
      (((duel true).step (stillEnv, .placeTiles "a" duelOpening)).step (stillEnv, .forceEnd))
      (stillEnv, .forceEnd) :=
  final_account (Runs.Reaches.next step (reachable_duel true) trivial) (by decide +kernel)
    (by decide +kernel)
    (by decide +kernel) (by decide +kernel)

/-- In a game that everybody has left there is nobody to win. -/
theorem final_account_deserted :
    let g := Runs.run step (duel false) [(stillEnv, .removePlayer "a"),
      (stillEnv, .removePlayer "b")]
    Reachable g ∧ g.puzzle = none ∧ g.started = true ∧ g.finished = false ∧
      (g.step (stillEnv, .forceEnd)).finished = true ∧
      (∀ p ∈ (g.step (stillEnv, .forceEnd)).players, p.resigned = false) ∧
      (g.step (stillEnv, .forceEnd)).winners = [] := by
  intro g
  have hreach : Reachable g :=
    Runs.Reaches.run step (reachable_duel false) (Runs.along_of_forall step (fun _ _ _ => trivial) _)
  exact ⟨hreach, by decide +kernel, by decide +kernel, by decide +kernel, by decide +kernel,
    by decide +kernel, by decide +kernel⟩

end Game

end ScrabbleMagyar
