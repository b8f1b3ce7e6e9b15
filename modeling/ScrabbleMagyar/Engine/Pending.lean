import ScrabbleMagyar.Engine.Answers
import ScrabbleMagyar.Engine.VotedPath

/-!
# A placement that waits for its votes

While a placement is pending, the game is the one before it with the tiles out of the hand and
the placement aside (`Hides`): votes that leave the outcome open, refused operations, hints and
connections keep it so (`Hides.step`). A withdrawal gives that game back, up to the order of the
hand and the last action (`Hides.withdraw`), and a rejection gives it back with a turn without a
score (`Hides.rejected`).
-/

namespace ScrabbleMagyar

/-- The operations beside the moves: hints and connections. -/
def Op.isAside : Op → Bool
  | .useHint => true
  | .markDisconnected _ => true
  | .replacePlayerSid _ _ => true
  | _ => false

namespace Game

/-! ## What a vote answers -/

/-- The answer of an operation that votes or decides on the pending placement. -/
def voteAnswer (g : Game) (i : Input) : Option (Fallible (VoteResult × String)) :=
  let env := i.1
  match i.2 with
  | .acceptPendingByPlayer playerId => some (g.acceptPendingByPlayer env playerId).2
  | .rejectPendingByPlayer playerId => some (g.rejectPendingByPlayer env playerId).2
  | .acceptPending => some (g.acceptPending env).2
  | .forceResolvePending accept => some (g.forceResolvePending env accept).2
  | _ => none

/-- The operation answers to a vote, or on a decision, with this result. -/
def Answers (g : Game) (i : Input) (result : VoteResult) : Prop :=
  ∃ text, g.voteAnswer i = some (.ok (result, text))

/-- What the operations that answer with a result leave behind. -/
def AnswerLeaves (env : Env) (g g' : Game) : VoteResult → Prop
  | .recorded => ∃ pc voter playerId vote, g.pendingChallenge = some pc ∧
      g' = g.noteVote pc voter playerId vote
  | .accepted => g' = g.finalizeAccept env
  | .rejected => g' = g.finalizeReject env

theorem castVote_leaves {env : Env} {g : Game} {playerId : String} {vote : Vote}
    {result : VoteResult} {text : String}
    (h : (g.castVote env playerId vote).2 = .ok (result, text)) :
    AnswerLeaves env g (g.castVote env playerId vote).1 result ∧
      ∃ pc, g.pendingChallenge = some pc := by
  obtain ⟨e, hc⟩ | ⟨pc, voter, hpc, -, -, -, ⟨-, hc⟩ | ⟨-, ⟨-, hc⟩ | ⟨-, hc⟩⟩⟩ :=
    castVote_cases env g playerId vote <;> rw [hc] at h ⊢
  · exact absurd h (by simp)
  · cases h
    exact ⟨⟨pc, voter, playerId, vote, hpc, rfl⟩, pc, hpc⟩
  · cases h
    exact ⟨rfl, pc, hpc⟩
  · cases h
    exact ⟨rfl, pc, hpc⟩

/-- **What an answer says**: a recorded vote is noted, and a decision is carried out. -/
theorem Answers.leaves {g : Game} {i : Input} {result : VoteResult} (h : g.Answers i result) :
    AnswerLeaves i.1 g (g.step i) result ∧ ∃ pc, g.pendingChallenge = some pc := by
  obtain ⟨env, op⟩ := i
  obtain ⟨text, h⟩ := h
  cases op with
  | acceptPendingByPlayer playerId => exact castVote_leaves (Option.some_inj.mp h)
  | rejectPendingByPlayer playerId => exact castVote_leaves (Option.some_inj.mp h)
  | acceptPending =>
    replace h : (g.acceptPending env).2 = .ok (result, text) := Option.some_inj.mp h
    change AnswerLeaves env g (g.acceptPending env).1 result ∧ _
    cases hpc : g.pendingChallenge with
    | none => exact absurd h (by simp [acceptPending, hpc])
    | some pc =>
      simp only [acceptPending, hpc, Option.isNone_some, Bool.false_eq_true, if_false] at h ⊢
      obtain hr | hr := resolveAndFinalize_cases env g <;> rw [hr] at h ⊢ <;> cases h
      · exact ⟨rfl, pc, rfl⟩
      · exact ⟨rfl, pc, rfl⟩
  | forceResolvePending accept =>
    replace h : (g.forceResolvePending env accept).2 = .ok (result, text) := Option.some_inj.mp h
    change AnswerLeaves env g (g.forceResolvePending env accept).1 result ∧ _
    cases hpc : g.pendingChallenge with
    | none => exact absurd h (by simp [forceResolvePending, hpc])
    | some pc =>
      simp only [forceResolvePending, hpc, Option.isNone_some, Bool.false_eq_true, if_false] at h ⊢
      cases accept <;> cases h
      · exact ⟨rfl, pc, rfl⟩
      · exact ⟨rfl, pc, rfl⟩
  | _ => exact absurd h (by simp [voteAnswer])

/-! ## The hidden placement -/

/-- The game `s` is the game `g` with a placement of the current player put aside, waiting for
votes. -/
structure Hides (tiles : List Placed) (formed : List FormedWord) (g s : Game) : Prop where
  eq : ∃ now votes action info, s = g.awaiting tiles formed now votes action info
  mode : g.challengeMode = true
  free : g.pendingChallenge = none
  seat : g.currentPlayerIdx < g.players.length
  inHand : validateHand (g.playerAt g.currentPlayerIdx).hand tiles = .ok ()

/-- The seats of the game with a placement aside, as far as they do not hold its tiles. -/
theorem awaiting_map {β : Type*} {h : Player → β}
    (hh : ∀ p hand, h { p with hand := hand } = h p) (g : Game) (tiles : List Placed)
    (formed : List FormedWord) (now : ℚ) (votes : List (String × Vote)) (action : Option String)
    (info : Option Json) :
    (g.awaiting tiles formed now votes action info).players.map h = g.players.map h :=
  Lists.map_modify_eq (f := withoutTiles tiles) (fun p => hh p _) _ _

theorem seatOf_congr {g g' : Game} (h : g'.players.map Player.id = g.players.map Player.id)
    (playerId : String) : g'.seatOf playerId = g.seatOf playerId := by
  have hseat : ∀ g : Game, g.seatOf playerId =
      (g.players.map Player.id).findIdx? fun id => id = playerId := fun g => by
    rw [List.findIdx?_map]
    rfl
  rw [hseat, hseat, h]

/-- A placement put to the vote is hidden. -/
theorem Placeable.hides {env : Env} {g : Game} {playerId : String} {tiles : List Placed}
    {formed : List FormedWord} (h : Placeable env.lexicon g playerId tiles formed)
    (hmode : g.challengeMode = true) : Hides tiles formed g (g.proposed env tiles formed) := by
  have heq : g.proposed env tiles formed = g.awaiting tiles formed env.now []
      (g.proposed env tiles formed).lastAction (g.proposed env tiles formed).lastActionInfo := by
    rw [awaiting, ← hmode]
    rfl
  exact ⟨⟨env.now, [], _, _, heq⟩, hmode, h.free, h.seat, h.inHand⟩

variable {tiles : List Placed} {formed : List FormedWord} {g s : Game}

theorem Hides.pending (h : Hides tiles formed g s) :
    ∃ now votes, s.pendingChallenge = some (g.proposal tiles formed now votes) := by
  obtain ⟨now, votes, action, info, rfl⟩ := h.eq
  exact ⟨now, votes, rfl⟩

/-- A recorded vote keeps the placement hidden. -/
theorem Hides.recorded (h : Hides tiles formed g s) {pc : Challenge}
    (hpc : s.pendingChallenge = some pc) (voter : Player) (playerId : String) (vote : Vote) :
    Hides tiles formed g (s.noteVote pc voter playerId vote) := by
  obtain ⟨now, votes, action, info, rfl⟩ := h.eq
  obtain rfl : g.proposal tiles formed now votes = pc := Option.some.inj hpc
  exact ⟨⟨now, _, _, _, rfl⟩, h.mode, h.free, h.seat, h.inHand⟩

/-! ## Hints and connections -/

section Aside

variable {f : Player → Player}

/-- A change of one player that has nothing to do with the hand, with a placement aside. -/
theorem modifyPlayer_awaiting (hf : ∀ p hand, f { p with hand := hand } = { f p with hand := hand })
    (hhand : ∀ p, (f p).hand = p.hand) (g : Game) (idx : ℕ) (now : ℚ)
    (votes : List (String × Vote)) (action : Option String) (info : Option Json) :
    (g.awaiting tiles formed now votes action info).modifyPlayer idx f =
      (g.modifyPlayer idx f).awaiting tiles formed now votes action info := by
  have hcomm : (g.players.modify g.currentPlayerIdx (withoutTiles tiles)).modify idx f =
      (g.players.modify idx f).modify g.currentPlayerIdx (withoutTiles tiles) := by
    refine Lists.modify_comm (fun p => ?_) _ _ _
    have hrack : withoutTiles tiles (f p) =
        { f p with hand := (removeTilesFromHand p.hand tiles).1 } := by
      rw [withoutTiles, hhand]
    rw [hrack]
    exact hf p _
  simp only [awaiting, modifyPlayer, hcomm]
  rfl

/-- A game that differs in one player, not in the hand, hides the placement alike. -/
theorem Hides.of_modify (h : Hides tiles formed g s) (hhand : ∀ p, (f p).hand = p.hand) {idx : ℕ}
    {g' s' : Game} (hmode : g'.challengeMode = g.challengeMode)
    (hfree : g'.pendingChallenge = none) (hseat : g'.currentPlayerIdx = g.currentPlayerIdx)
    (hplayers : g'.players = g.players.modify idx f)
    (heq : ∃ now votes action info, s' = g'.awaiting tiles formed now votes action info) :
    Hides tiles formed g' s' := by
  have hrack : (g'.playerAt g'.currentPlayerIdx).hand = (g.playerAt g.currentPlayerIdx).hand := by
    rw [hseat, playerAt, hplayers]
    exact playerAt_modifyPlayer_eq g hhand idx _
  refine ⟨heq, hmode.trans h.mode, hfree, ?_, hrack ▸ h.inHand⟩
  rw [hseat, hplayers, List.length_modify]
  exact h.seat

theorem Hides.markDisconnected (h : Hides tiles formed g s) (playerId : String) :
    Hides tiles formed (g.markDisconnected playerId).1 (s.markDisconnected playerId).1 := by
  obtain ⟨now, votes, action, info, rfl⟩ := h.eq
  have hseat := seatOf_congr (awaiting_map (h := Player.id) (fun _ _ => rfl) g tiles formed now votes
    action info) playerId
  simp only [Game.markDisconnected, hseat]
  cases g.seatOf playerId with
  | none => exact h
  | some idx =>
    refine h.of_modify (f := fun p => { p with disconnected := true }) (fun _ => rfl) rfl h.free rfl
      rfl ⟨now, votes, action, info, ?_⟩
    exact modifyPlayer_awaiting (f := fun p => { p with disconnected := true }) (fun _ _ => rfl)
      (fun _ => rfl) g idx now votes action info

theorem Hides.replacePlayerSid (h : Hides tiles formed g s) (oldId newId : String) :
    Hides tiles formed (g.replacePlayerSid oldId newId).1 (s.replacePlayerSid oldId newId).1 := by
  obtain ⟨now, votes, action, info, rfl⟩ := h.eq
  have hseat := seatOf_congr (awaiting_map (h := Player.id) (fun _ _ => rfl) g tiles formed now votes
    action info) oldId
  simp only [Game.replacePlayerSid, hseat]
  cases g.seatOf oldId with
  | none => exact h
  | some idx =>
    obtain ⟨votes', hvotes⟩ := updatePlayerSid_eq (g.proposal tiles formed now votes) oldId newId
    refine h.of_modify (f := Player.reconnect newId) (fun _ => rfl) rfl ?_ rfl rfl
      ⟨now, votes', action, info, ?_⟩
    · simp [reconnectSeat, modifyPlayer, h.free]
    · have hmodify : (g.awaiting tiles formed now votes action info).modifyPlayer idx
          (Player.reconnect newId) =
            (g.modifyPlayer idx (Player.reconnect newId)).awaiting tiles formed now votes action
              info :=
        modifyPlayer_awaiting (f := Player.reconnect newId) (fun _ _ => rfl) (fun _ => rfl) g idx now
          votes action info
      simp only [reconnectSeat, hmodify]
      simp only [awaiting, Option.map_some]
      have hproposal : ((g.modifyPlayer idx (Player.reconnect newId)).proposal tiles formed now
          votes).updatePlayerSid oldId newId = g.proposal tiles formed now votes' := hvotes
      rw [hproposal]
      rfl

theorem Hides.useHint (h : Hides tiles formed g s) :
    Hides tiles formed g.useHint.1 s.useHint.1 := by
  obtain ⟨now, votes, action, info, rfl⟩ := h.eq
  have hleft : (g.awaiting tiles formed now votes action info).hintsLeft = g.hintsLeft := rfl
  simp only [Game.useHint, hleft]
  split
  · exact h
  · exact ⟨⟨now, votes, action, info, rfl⟩, h.mode, h.free, h.seat, h.inHand⟩

/-- Hints and connections go their way under a hidden placement. -/
theorem Hides.aside (h : Hides tiles formed g s) {i : Input} (hi : i.2.isAside = true) :
    Hides tiles formed (g.step i) (s.step i) := by
  obtain ⟨env, op⟩ := i
  cases op with
  | useHint => exact h.useHint
  | markDisconnected playerId => exact h.markDisconnected playerId
  | replacePlayerSid oldId newId => exact h.replacePlayerSid oldId newId
  | _ => exact absurd hi (by simp [Op.isAside])

end Aside

/-! ## Until the decision -/

/-- What leaves a pending placement undecided: a refused operation, a vote that is recorded, a hint
or a connection. -/
def Waits (s : Game) (i : Input) : Prop :=
  s.fails i = true ∨ s.Answers i .recorded ∨ i.2.isAside = true

/-- The games in which a placement waits: hints and connections act on the game under it, the
others on nothing. -/
theorem Hides.step (h : Hides tiles formed g s) {i : Input} (hi : Waits s i) :
    Hides tiles formed (if i.2.isAside then g.step i else g) (s.step i) := by
  by_cases haside : i.2.isAside = true
  · rw [if_pos haside]
    exact h.aside haside
  rw [if_neg haside]
  obtain hfails | hrecorded | haside' := hi
  · rw [step_of_fails hfails]
    exact h
  · obtain ⟨⟨pc, voter, playerId, vote, hpc, heq⟩, -⟩ := hrecorded.leaves
    rw [heq]
    exact h.recorded hpc voter playerId vote
  · exact absurd haside' haside

theorem Hides.run (h : Hides tiles formed g s) {l : List Input}
    (hl : Runs.Along Game.step Waits s l) :
    Hides tiles formed (Runs.run Game.step g (l.filter fun i => i.2.isAside))
      (Runs.run Game.step s l) := by
  induction l generalizing g s with
  | nil => exact h
  | cons i l ih =>
    have hnext := ih (h.step hl.1) hl.2
    rw [List.filter_cons]
    by_cases haside : i.2.isAside = true
    · rw [if_pos haside] at hnext ⊢
      exact hnext
    · rw [if_neg haside] at hnext ⊢
      exact hnext

/-- What the pending placement leaves as it was: everything the others see of the game. -/
structure Invisible (g s : Game) : Prop where
  board : s.board = g.board
  bag : s.bag = g.bag
  scores : s.players.map Player.score = g.players.map Player.score
  turn : s.currentPlayerIdx = g.currentPlayerIdx
  hands : ∀ j, j ≠ g.currentPlayerIdx → (s.playerAt j).hand = (g.playerAt j).hand
  scoreless : s.scorelessTurns = g.scorelessTurns
  log : s.moveLog = g.moveLog

theorem Invisible.refl (g : Game) : Invisible g g :=
  ⟨rfl, rfl, rfl, rfl, fun _ _ => rfl, rfl, rfl⟩

theorem Invisible.trans {g g' s : Game} (h : Invisible g g') (h' : Invisible g' s) :
    Invisible g s :=
  ⟨h'.board.trans h.board, h'.bag.trans h.bag, h'.scores.trans h.scores, h'.turn.trans h.turn,
    fun j hj => (h'.hands j (h.turn.symm ▸ hj)).trans (h.hands j hj),
    h'.scoreless.trans h.scoreless, h'.log.trans h.log⟩

/-- A player changed neither in the score nor in the hand. -/
theorem invisible_modify {f : Player → Player} (hscore : ∀ p, (f p).score = p.score)
    (hhand : ∀ p, (f p).hand = p.hand) (g : Game) (idx : ℕ) :
    Invisible g (g.modifyPlayer idx f) :=
  ⟨rfl, rfl, Lists.map_modify_eq hscore _ _, rfl,
    fun j _ => playerAt_modifyPlayer_eq g hhand idx j, rfl, rfl⟩

theorem invisible_aside (g : Game) {i : Input} (hi : i.2.isAside = true) :
    Invisible g (g.step i) := by
  obtain ⟨env, op⟩ := i
  cases op with
  | useHint =>
    change Invisible g g.useHint.1
    simp only [Game.useHint]
    split
    · exact .refl g
    · exact ⟨rfl, rfl, rfl, rfl, fun _ _ => rfl, rfl, rfl⟩
  | markDisconnected playerId =>
    change Invisible g (g.markDisconnected playerId).1
    simp only [Game.markDisconnected]
    split
    · exact .refl g
    · exact invisible_modify (f := fun p => { p with disconnected := true }) (fun _ => rfl)
        (fun _ => rfl) g _
  | replacePlayerSid oldId newId =>
    change Invisible g (g.replacePlayerSid oldId newId).1
    simp only [Game.replacePlayerSid]
    split
    · exact .refl g
    · obtain ⟨h₁, h₂, h₃, h₄, h₅, h₆, h₇⟩ := invisible_modify (f := Player.reconnect newId)
        (fun _ => rfl) (fun _ => rfl) g _
      exact ⟨h₁, h₂, h₃, h₄, h₅, h₆, h₇⟩
  | _ => exact absurd hi (by simp [Op.isAside])

theorem invisible_run (g : Game) {l : List Input} (hl : ∀ i ∈ l, i.2.isAside = true) :
    Invisible g (Runs.run Game.step g l) := by
  refine Runs.run_invariant Game.step (P := Invisible g) (Q := fun _ i => i.2.isAside = true)
    (fun s i hs hi => hs.trans (invisible_aside s hi)) (.refl g) ?_
  exact Runs.along_of_forall Game.step (fun i hi _ => hl i hi) g

/-- A hidden placement is invisible. -/
theorem Hides.invisible (h : Hides tiles formed g s) : Invisible g s := by
  obtain ⟨now, votes, action, info, rfl⟩ := h.eq
  refine ⟨rfl, rfl, awaiting_map (fun _ _ => rfl) _ _ _ _ _ _ _, rfl, fun j hj => ?_, rfl, rfl⟩
  exact congrArg Player.hand (playerAt_modifyPlayer_of_ne g (Ne.symm hj) (withoutTiles tiles))

/-! ## Withdrawal and rejection -/

/-- The game `w` is the game `g`, up to the order of the hand of the current player and the last
action. -/
def UpToRack (g w : Game) : Prop :=
  ∃ hand action info, hand.Perm (g.playerAt g.currentPlayerIdx).hand ∧
    w = { g with
      players := g.players.modify g.currentPlayerIdx fun p => { p with hand := hand }
      lastAction := action
      lastActionInfo := info }

/-- The tiles of a hidden placement given back. -/
theorem Hides.returnTiles (h : Hides tiles formed g s) {pc : Challenge}
    (hpc : s.pendingChallenge = some pc) : UpToRack g (s.returnTiles pc) := by
  obtain ⟨now, votes, action, info, rfl⟩ := h.eq
  obtain rfl : g.proposal tiles formed now votes = pc := Option.some.inj hpc
  let rack := (g.playerAt g.currentPlayerIdx).hand
  refine ⟨(removeTilesFromHand rack tiles).1 ++ tiles.map Placed.handTile, action, info,
    List.perm_append_comm.trans (removeTilesFromHand_perm h.inHand), ?_⟩
  have hplayers : (g.players.modify g.currentPlayerIdx (withoutTiles tiles)).modify
      g.currentPlayerIdx (fun p => { p with hand := p.hand ++ tiles.map Placed.handTile }) =
      g.players.modify g.currentPlayerIdx fun p =>
        { p with hand := (removeTilesFromHand rack tiles).1 ++ tiles.map Placed.handTile } := by
    refine (List.modify_modify_eq _ _ _ _).trans (Lists.modify_congr fun p hp => ?_)
    have hrack : rack = p.hand := by
      simp only [rack, playerAt, List.getD_eq_getElem?_getD, hp, Option.getD_some]
    rw [hrack]
    rfl
  have hmode := h.mode
  have hfree := h.free
  simp only [Game.returnTiles, awaiting, modifyPlayer, proposal, Challenge.new, hplayers]
  rw [← hmode, ← hfree]

theorem UpToRack.setLastAction {w : Game} (h : UpToRack g w) (text : String) (info : Json) :
    UpToRack g (w.setLastAction text info) := by
  obtain ⟨hand, action, info', hperm, rfl⟩ := h
  exact ⟨hand, _, _, hperm, rfl⟩

/-- A withdrawal is granted to the placer, before any vote. -/
theorem withdrawPending_isOk_iff {pc : Challenge} (hpc : s.pendingChallenge = some pc)
    (playerId : String) :
    (s.withdrawPending playerId).2.isOk = true ↔
      playerId = (s.playerAt pc.playerIdx).id ∧ pc.votes = [] := by
  simp only [withdrawPending, hpc]
  split_ifs with hid hvotes
  · simp only [Except.isOk, Except.toBool, Bool.false_eq_true, false_iff]
    exact fun h => hid h.1.symm
  · simp only [Except.isOk, Except.toBool, Bool.false_eq_true, false_iff]
    rintro ⟨-, hnone⟩
    simp [hnone] at hvotes
  · simp only [Except.isOk, Except.toBool, true_iff]
    exact ⟨(not_not.mp hid).symm, by simpa using hvotes⟩

theorem withdrawPending_fst {pc : Challenge} (hpc : s.pendingChallenge = some pc)
    {playerId : String} (h : (s.withdrawPending playerId).2.isOk = true) :
    (s.withdrawPending playerId).1 = s.withdraw pc := by
  obtain ⟨hid, hvotes⟩ := (withdrawPending_isOk_iff hpc playerId).mp h
  simp [withdrawPending, hpc, hid, hvotes]

/-- **A withdrawal** gives the game before the placement back. -/
theorem Hides.withdraw (h : Hides tiles formed g s) {pc : Challenge}
    (hpc : s.pendingChallenge = some pc) : UpToRack g (s.withdraw pc) := by
  simp only [Game.withdraw]
  exact (h.returnTiles hpc).setLastAction _ _

/-- The game with a rejected placement: the game before it, with one log entry, one more turn
without a score and the placement noted. The sixth such turn ends the game, and the turn goes on
only if the placer is disconnected. -/
def RejectedAs (env : Env) (tiles : List Placed) (g r : Game) : Prop :=
  ∃ back m, UpToRack g back ∧ m.actionType = "challenge_reject" ∧
    m.playerName = (g.playerAt g.currentPlayerIdx).name ∧ m.score = 0 ∧ m.board = g.board ∧
    let turnedDown : Game := { back with
      moveLog := g.moveLog ++ [m]
      scorelessTurns := g.scorelessTurns + 1
      rejectedPlacements := insert (placementKey tiles) g.rejectedPlacements }
    r = if scorelessTurnsLimit ≤ g.scorelessTurns + 1 then turnedDown.endGame none
      else if (g.playerAt g.currentPlayerIdx).disconnected then turnedDown.nextTurn env
      else turnedDown

/-- The seats of a game given back. -/
theorem UpToRack.playerAt_congr {β : Type*} {h : Player → β} {w : Game} (hw : UpToRack g w)
    (hh : ∀ p hand, h { p with hand := hand } = h p) (j : ℕ) :
    h (w.playerAt j) = h (g.playerAt j) := by
  obtain ⟨hand, action, info, -, rfl⟩ := hw
  exact playerAt_modifyPlayer_eq g (h := h) (f := fun p => { p with hand := hand })
    (fun p => hh p hand) _ _

/-- A placement turned down, over the game that has its tiles back. -/
theorem turnDown_bumped {pc : Challenge} (h : UpToRack g (s.returnTiles pc)) :
    ∃ back m, UpToRack g back ∧ m.actionType = "challenge_reject" ∧
      m.playerName = (g.playerAt pc.playerIdx).name ∧ m.score = 0 ∧ m.board = g.board ∧
      (s.turnDown pc).bumped = { back with
        moveLog := g.moveLog ++ [m]
        scorelessTurns := g.scorelessTurns + 1
        rejectedPlacements := insert (placementKey pc.tilesPlaced) g.rejectedPlacements } := by
  have hname := h.playerAt_congr (h := Player.name) (fun _ _ => rfl) pc.playerIdx
  obtain ⟨hand, action, info, hperm, heq⟩ := h
  let back : Game := { g with
    players := g.players.modify g.currentPlayerIdx fun p => { p with hand := hand }
    lastAction := (s.turnDown pc).lastAction
    lastActionInfo := (s.turnDown pc).lastActionInfo }
  let m : MoveLog :=
    { moveNumber := g.moveLog.length + 1
      playerName := ((s.returnTiles pc).playerAt pc.playerIdx).name
      actionType := "challenge_reject"
      details := moveDetails none none 0 none
      board := g.board }
  have hscore : m.score = 0 := by
    rw [MoveLog.score, get?_score_moveDetails]
    rfl
  refine ⟨back, m, ⟨hand, _, _, hperm, rfl⟩, rfl, hname, hscore, rfl, ?_⟩
  simp only [back, m, turnDown, heq]
  rfl

/-- **A rejection** gives the game before the placement back, as a turn without a score. -/
theorem Hides.rejected (h : Hides tiles formed g s) {pc : Challenge}
    (hpc : s.pendingChallenge = some pc) (env : Env) :
    RejectedAs env tiles g (s.finalizeReject env) := by
  obtain ⟨back, m, hback, htype, hname, hscore, hboard, heq⟩ := turnDown_bumped (h.returnTiles hpc)
  have hscoreless := h.invisible.scoreless
  have hgone : (s.playerAt g.currentPlayerIdx).disconnected =
      (g.playerAt g.currentPlayerIdx).disconnected := by
    obtain ⟨now, votes, action, info, rfl⟩ := h.eq
    exact playerAt_modifyPlayer_eq g (h := Player.disconnected) (f := withoutTiles tiles)
      (fun _ => rfl) _ _
  obtain ⟨now, votes, hpc'⟩ := h.pending
  obtain rfl : g.proposal tiles formed now votes = pc := Option.some.inj (hpc'.symm.trans hpc)
  refine ⟨back, m, hback, htype, hname, hscore, hboard, ?_⟩
  rw [finalizeReject_eq env s hpc, heq, hscoreless]
  simp only [proposal, Challenge.new, hgone]

/-! ## From the placement to the decision -/

/-- **A pending placement is invisible until it is decided, and undone by a withdrawal or a
rejection.** After a placement that went to the vote, and any run of refused operations, recorded
votes, hints and connections, everything but the hand of the placer is as before. The placer may
withdraw the placement as long as nobody has voted, and gets the game back in which the hints and
connections happened without it; so does a rejection, as one turn without a score. -/
theorem pending_undone {env : Env} {playerId text : String} {score : ℤ}
    (hok : (g.placeTiles env playerId tiles).2 = .ok (text, score))
    (hpending : (g.step (env, .placeTiles playerId tiles)).pendingChallenge.isSome = true)
    {l : List Input}
    (hl : Runs.Along Game.step Waits (g.step (env, .placeTiles playerId tiles)) l) :
    let s := Runs.run Game.step (g.step (env, .placeTiles playerId tiles)) l
    let before := Runs.run Game.step g (l.filter fun i => i.2.isAside)
    Invisible g s ∧
      (∃ pc, s.pendingChallenge = some pc ∧ pc.tilesPlaced = tiles ∧
        (∀ id, (s.withdrawPending id).2.isOk = true ↔
          id = (s.playerAt g.currentPlayerIdx).id ∧ pc.votes = []) ∧
        ∀ id, (s.withdrawPending id).2.isOk = true → UpToRack before (s.withdrawPending id).1) ∧
      ∀ i, s.Answers i .rejected → RejectedAs i.1 tiles before (s.step i) := by
  intro s before
  obtain ⟨e, he⟩ | ⟨formed, hmay⟩ := placeTiles_cases env g playerId tiles
  · rw [he] at hok
    exact absurd hok (by simp)
  have hplaced : g.step (env, .placeTiles playerId tiles) =
      if g.challengeApplies g.currentPlayerIdx then g.proposed env tiles formed
      else g.placedNow env tiles formed := placeTiles_fst hmay
  have hvote : g.challengeApplies g.currentPlayerIdx = true := by
    by_contra hnot
    rw [hplaced, if_neg hnot, (finalised_placedNow hmay).free] at hpending
    exact absurd hpending (by simp)
  have hmode : g.challengeMode = true := by
    by_contra hnot
    simp [challengeApplies, hnot] at hvote
  have hstart : Hides tiles formed g (g.step (env, .placeTiles playerId tiles)) := by
    rw [hplaced, if_pos hvote]
    exact hmay.hides hmode
  have hhides : Hides tiles formed before s := hstart.run hl
  have hbefore : Invisible g before := invisible_run g fun i hi => (List.mem_filter.mp hi).2
  refine ⟨hbefore.trans hhides.invisible, ?_, fun i hi => ?_⟩
  · obtain ⟨now, votes, hpc⟩ := hhides.pending
    refine ⟨_, hpc, rfl, fun id => ?_, fun id hid => ?_⟩
    · rw [withdrawPending_isOk_iff hpc, ← hbefore.turn]
      rfl
    · rw [withdrawPending_fst hpc hid]
      exact hhides.withdraw hpc
  · obtain ⟨hleaves, pc, hpc⟩ := hi.leaves
    rw [show s.step i = s.finalizeReject i.1 from hleaves]
    exact hhides.rejected hpc i.1

/-- A game of three whose placements are put to the vote. -/
def trio : Game :=
  Runs.run step (new stillEnv "trio" true 0 3)
    [(stillEnv, .addPlayer "a" "Anna"), (stillEnv, .addPlayer "b" "Béla"),
      (stillEnv, .addPlayer "c" "Cili"), (stillEnv, .start)]

/-- One of the voters rejects the placement, and the other one wants to pass. -/
def rejectedOnce : List Input :=
  [(stillEnv, .rejectPendingByPlayer "b"), (stillEnv, .passTurn "c" false)]

/-- The first placement of three players, withdrawn at once, or rejected by both voters. -/
theorem pending_undone_trio :
    let placed := trio.step (stillEnv, .placeTiles "a" duelOpening)
    UpToRack trio (placed.withdrawPending "a").1 ∧
      Invisible trio (Runs.run step placed rejectedOnce) ∧
      RejectedAs stillEnv duelOpening trio
        ((Runs.run step placed rejectedOnce).step (stillEnv, .rejectPendingByPlayer "c")) := by
  have hok : (trio.placeTiles stillEnv "a" duelOpening).2 =
      .ok ("Szavak: CSŐ — szavazásra vár!", 28) := by decide +kernel
  have hpending : (trio.step (stillEnv, .placeTiles "a" duelOpening)).pendingChallenge.isSome = true :=
    by decide +kernel
  obtain ⟨-, ⟨pc, -, -, -, hback⟩, -⟩ := pending_undone hok hpending (l := []) trivial
  have hwaits :
      Runs.Along step Waits (trio.step (stillEnv, .placeTiles "a" duelOpening)) rejectedOnce :=
    ⟨.inr (.inl ⟨"Béla elutasította.", by decide +kernel⟩), .inl (by decide +kernel), trivial⟩
  obtain ⟨hinvisible, -, hrejected⟩ := pending_undone hok hpending hwaits
  exact ⟨hback "a" (by decide +kernel), hinvisible,
    hrejected _ ⟨"A szavak elutasítva szavazással!", by decide +kernel⟩⟩

end Game

end ScrabbleMagyar
