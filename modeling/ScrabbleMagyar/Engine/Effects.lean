import ScrabbleMagyar.Engine.Frame
import ScrabbleMagyar.Engine.Restore
import ScrabbleMagyar.Engine.Step

/-!
# What an operation can do

Every operation either leaves the game as it is or makes one of the changes listed in
`Effect`, under the guards listed there (`step_effect`). The invariants of the game are proved
by cases on this list and never unfold an operation.
-/

namespace ScrabbleMagyar

/-- The operations that can decide on a pending placement. -/
def Op.decides : Op → Bool
  | .acceptPendingByPlayer _ => true
  | .rejectPendingByPlayer _ => true
  | .acceptPending => true
  | .forceResolvePending _ => true
  | _ => false

namespace Game

/-- The guards of a placement, passed with the words `formed`. -/
structure Placeable (lex : Lexicon) (g : Game) (playerId : String) (tiles : List Placed)
    (formed : List FormedWord) : Prop where
  unfinished : g.finished = false
  free : g.pendingChallenge = none
  seat : g.currentPlayerIdx < g.players.length
  turn : (g.playerAt g.currentPlayerIdx).id = playerId
  inHand : validateHand (g.playerAt g.currentPlayerIdx).hand tiles = .ok ()
  valid : g.board.validatePlacement lex tiles (g.challengeApplies g.currentPlayerIdx) = .ok formed

/-- The guards of an exchange and of a pass. -/
structure MayAct (g : Game) (playerId : String) : Prop where
  unfinished : g.finished = false
  free : g.pendingChallenge = none
  noPuzzle : g.puzzle = none
  seat : g.currentPlayerIdx < g.players.length
  turn : (g.playerAt g.currentPlayerIdx).id = playerId

/-- The tiles an exchange may name. -/
structure Exchangeable (g : Game) (tileIndices : List ℤ) : Prop where
  enough : 7 ≤ g.bag.remaining
  covered : tileIndices.length ≤ g.bag.remaining
  nonempty : tileIndices ≠ []
  nodup : tileIndices.Nodup
  inHand : ∀ i ∈ tileIndices, 0 ≤ i ∧ i.toNat < (g.playerAt g.currentPlayerIdx).hand.length

/-- The game with its hands dealt and the turn with a starting player drawn at random. -/
def dealtAt (env : Env) (g : Game) (starter : ℕ) : Game :=
  resetDeadline env { g.dealt env with currentPlayerIdx := starter }

/-- The game with one more vote on the pending placement. -/
def noteVote (g : Game) (pc : Challenge) (voter : Player) (playerId : String) (vote : Vote) :
    Game :=
  let g := { g with pendingChallenge := some (pc.addVote playerId vote) }
  g.setVoteAction voter.name vote

/-- The placement of the current player, finalised at once. -/
def placedNow (env : Env) (g : Game) (tiles : List Placed) (formed : List FormedWord) : Game :=
  g.finalizePlacement env tiles (lerakasTotal formed tiles.length) (formed.map FormedWord.word)
    formed

/-- The placement of the current player, put to the vote. -/
def proposed (env : Env) (g : Game) (tiles : List Placed) (formed : List FormedWord) : Game :=
  g.proposePlacement env tiles (lerakasTotal formed tiles.length) (formed.map FormedWord.word)
    formed

/-- **The changes of the state**: what an operation can leave behind, and when. -/
inductive Effect (env : Env) (g : Game) : Op → Game → Prop
  | refused (op : Op) : Effect env g op g
  | joined (playerId name : String) (waiting : g.started = false) (room : g.players.length < 4)
      (fresh : ∀ p ∈ g.players, p.id ≠ playerId) :
      Effect env g (.addPlayer playerId name)
        { g with players := g.players ++ [Player.new playerId name] }
  | botJoined (name : String) (difficulty : Json) (seq : ℕ) (waiting : g.started = false)
      (room : g.players.length < 4) :
      Effect env g (.addBot name difficulty)
        { g with
          botSeq := seq
          players := g.players ++ [Player.newBot (g.botId seq) name difficulty] }
  | dealt (op : Op) (waiting : g.started = false) (seated : g.players ≠ []) :
      Effect env g op (g.dealt env)
  | dealtAt (starter : ℕ) (waiting : g.started = false) (seat : starter < g.players.length)
      (async : g.asyncMode = true) : Effect env g (.startAsync starter) (g.dealtAt env starter)
  | placed (playerId : String) (tiles : List Placed) (formed : List FormedWord)
      (may : Placeable env.lexicon g playerId tiles formed)
      (novote : g.challengeApplies g.currentPlayerIdx = false) :
      Effect env g (.placeTiles playerId tiles) (g.placedNow env tiles formed)
  | proposed (playerId : String) (tiles : List Placed) (formed : List FormedWord)
      (may : Placeable env.lexicon g playerId tiles formed)
      (vote : g.challengeApplies g.currentPlayerIdx = true) :
      Effect env g (.placeTiles playerId tiles) (g.proposed env tiles formed)
  | voted (op : Op) (pc : Challenge) (pending : g.pendingChallenge = some pc) (voter : Player)
      (playerId : String) (vote : Vote) : Effect env g op (g.noteVote pc voter playerId vote)
  | accepted (op : Op) (pc : Challenge) (pending : g.pendingChallenge = some pc)
      (decides : op.decides = true) :
      Effect env g op ((g.layPending pc).closeTurn env pc.playerIdx)
  | rejected (op : Op) (pc : Challenge) (pending : g.pendingChallenge = some pc)
      (decides : op.decides = true) : Effect env g op (g.finalizeReject env)
  | withdrawn (playerId : String) (pc : Challenge) (pending : g.pendingChallenge = some pc) :
      Effect env g (.withdrawPending playerId) (g.withdraw pc)
  | exchanged (playerId : String) (tileIndices : List ℤ) (may : MayAct g playerId)
      (tiles : Exchangeable g tileIndices) :
      Effect env g (.exchangeTiles playerId tileIndices)
        ((g.swapTiles env tileIndices).scorelessNextTurn env)
  | passed (playerId : String) (timeout : Bool) (may : MayAct g playerId) :
      Effect env g (.passTurn playerId timeout) ((g.notePass timeout).scorelessNextTurn env)
  | expired (may : ∃ playerId, MayAct g playerId) (async : g.asyncMode = true)
      (started : g.started = true) :
      Effect env g .expireTurn ((g.notePass true).scorelessNextTurn env)
  | expelled (idx : ℕ) (may : ∃ playerId, MayAct g playerId) (async : g.asyncMode = true)
      (started : g.started = true) (seat : idx < g.players.length)
      (goesOn : g.scorelessTurns + 1 < scorelessTurnsLimit) :
      Effect env g .expireTurn (((g.notePass true).bumped.nextTurn env).resignSeat idx)
  | resigned (playerId : String) (idx : ℕ) (started : g.started = true)
      (unfinished : g.finished = false) (seat : g.seatOf playerId = some idx) :
      Effect env g (.resign playerId) (g.resignSeat idx)
  | ended (started : g.started = true) (unfinished : g.finished = false) :
      Effect env g .forceEnd (g.unwindPending.endGame none)
  | hinted (left : 0 < g.hintsLeft) :
      Effect env g .useHint { g with hintsUsed := g.hintsUsed + 1 }
  | disconnected (playerId : String) (idx : ℕ) (seat : g.seatOf playerId = some idx) :
      Effect env g (.markDisconnected playerId)
        (g.modifyPlayer idx fun p => { p with disconnected := true })
  | reconnected (oldId newId : String) (idx : ℕ) (seat : g.seatOf oldId = some idx) :
      Effect env g (.replacePlayerSid oldId newId) (g.reconnectSeat idx oldId newId)
  | removed (playerId : String) (idx : ℕ) (seat : g.seatOf playerId = some idx) :
      Effect env g (.removePlayer playerId) (g.removeSeat idx)
  | skipped (started : g.started = true) (unfinished : g.finished = false)
      (free : g.pendingChallenge = none) (seat : g.currentPlayerIdx < g.players.length) :
      Effect env g .skipDisconnectedCurrent (g.nextTurn env)
  | restored : Effect env g .saveRestore (g.restored env)

variable (env : Env) (g : Game)

/-! ## The operations one by one -/

theorem addPlayer_effect (playerId name : String) :
    Effect env g (.addPlayer playerId name) (g.addPlayer playerId name).1 := by
  simp only [addPlayer]
  split_ifs with hid hroom hstarted
  · exact .refused _
  · exact .refused _
  · exact .refused _
  · exact .joined _ _ (by simpa using hstarted) (by omega) (by simpa using hid)

theorem addBot_effect (name : String) (difficulty : Json) :
    Effect env g (.addBot name difficulty) (g.addBot name difficulty).1 := by
  simp only [addBot]
  split_ifs with hroom hstarted
  · exact .refused _
  · exact .refused _
  · exact .botJoined _ _ _ (by simpa using hstarted) (by omega)

theorem start_cases (env : Env) (g : Game) :
    (∃ e, g.start env = (g, .error e)) ∨
      g.started = false ∧ g.players ≠ [] ∧ ∃ m, g.start env = (g.dealt env, .ok m) := by
  simp only [start]
  split_ifs with hseated hstarted
  · exact .inl ⟨_, rfl⟩
  · exact .inl ⟨_, rfl⟩
  · exact .inr ⟨by simpa using hstarted, by simpa using hseated, _, rfl⟩

theorem start_effect : Effect env g .start (g.start env).1 := by
  obtain ⟨e, h⟩ | ⟨hs, hne, m, h⟩ := start_cases env g <;> rw [h]
  · exact .refused _
  · exact .dealt _ hs hne

/-- The deal changes nothing of a player but the hand. -/
theorem deal_map {β : Type*} {h : Player → β} (hh : ∀ p hand, h { p with hand := hand } = h p)
    (bag : TileBag) (players : List Player) :
    (deal bag players).2.map h = players.map h := by
  induction players generalizing bag with
  | nil => rfl
  | cons p rest ih => simp [deal, ih, hh]

theorem deal_length (bag : TileBag) (players : List Player) :
    (deal bag players).2.length = players.length := by
  simpa using congrArg List.length (deal_map (h := Player.id) (fun _ _ => rfl) bag players)

theorem startAsync_effect (starter : ℕ) :
    Effect env g (.startAsync starter) (g.startAsync env starter) := by
  obtain ⟨e, h⟩ | ⟨hs, hne, m, h⟩ := start_cases env g <;> simp only [startAsync, h]
  · exact .refused _
  · split_ifs with hstarter
    · refine .dealtAt _ hs ?_ hstarter.1
      simpa [Game.dealt, resetDeadline, deal_length] using hstarter.2
    · exact .dealt _ hs hne

theorem currentPlayer_of_seat (h : g.currentPlayerIdx < g.players.length) :
    g.currentPlayer = some (g.playerAt g.currentPlayerIdx) := by
  rw [playerAt_eq_getElem g h]
  exact List.getElem?_eq_getElem h

/-- A placement is refused without a trace, or its guards hold. -/
theorem placeTiles_cases (playerId : String) (tiles : List Placed) :
    (∃ e, g.placeTiles env playerId tiles = (g, .error e)) ∨
      ∃ formed, Placeable env.lexicon g playerId tiles formed := by
  simp only [placeTiles]
  split
  · exact .inl ⟨_, rfl⟩
  rename_i hfin
  split
  · exact .inl ⟨_, rfl⟩
  rename_i hpend
  split
  · exact .inl ⟨_, rfl⟩
  rename_i player hplayer
  obtain ⟨hseat, rfl⟩ := currentPlayer_eq_some g hplayer
  split
  · exact .inl ⟨_, rfl⟩
  rename_i hid
  split
  · exact .inl ⟨_, rfl⟩
  rename_i hhand
  split
  · exact .inl ⟨_, rfl⟩
  rename_i formed hvalid
  exact .inr ⟨formed, by simpa using hfin, by simpa using hpend, hseat, by simpa using hid, hhand,
    hvalid⟩

/-- What a placement does when its guards hold. -/
theorem placeTiles_eq {env : Env} {g : Game} {playerId : String} {tiles : List Placed}
    {formed : List FormedWord} (h : Placeable env.lexicon g playerId tiles formed) :
    g.placeTiles env playerId tiles =
      let totalScore := lerakasTotal formed tiles.length
      let joined := Board.joinWords (formed.map FormedWord.word)
      if g.challengeApplies g.currentPlayerIdx then
        (g.proposed env tiles formed, .ok (s!"Szavak: {joined} — szavazásra vár!", totalScore))
      else (g.placedNow env tiles formed, .ok (s!"Szavak: {joined}", totalScore)) := by
  simp only [placeTiles, h.unfinished, h.free, currentPlayer_of_seat g h.seat, h.turn, h.inHand,
    h.valid, Option.isSome_none, Bool.false_eq_true, ne_eq, not_true_eq_false, if_false]
  rfl

theorem placeTiles_effect (playerId : String) (tiles : List Placed) :
    Effect env g (.placeTiles playerId tiles) (g.placeTiles env playerId tiles).1 := by
  obtain ⟨e, h⟩ | ⟨formed, h⟩ := placeTiles_cases env g playerId tiles
  · rw [h]
    exact .refused _
  · rw [placeTiles_eq h]
    by_cases hc : g.challengeApplies g.currentPlayerIdx = true
    · simpa only [hc, if_true] using .proposed _ _ _ h hc
    · have hc' : g.challengeApplies g.currentPlayerIdx = false := by simpa using hc
      simpa only [hc', Bool.false_eq_true, if_false] using .placed _ _ _ h hc'

/-! ## The vote -/

theorem finalizeAccept_eq {env : Env} {g : Game} {pc : Challenge}
    (h : g.pendingChallenge = some pc) :
    g.finalizeAccept env = (g.layPending pc).closeTurn env pc.playerIdx := by
  simp only [finalizeAccept, h]

/-- The votes of a pending placement play no part in finalising it. -/
theorem finalizeReject_addVote {env : Env} {g : Game} {pc : Challenge}
    (h : g.pendingChallenge = some pc) (playerId : String) (vote : Vote) :
    ({ g with pendingChallenge := some (pc.addVote playerId vote) } : Game).finalizeReject env =
      g.finalizeReject env := by
  simp only [finalizeReject, h]
  rfl

theorem finalizeAccept_addVote {env : Env} {g : Game} {pc : Challenge}
    (h : g.pendingChallenge = some pc) (playerId : String) (vote : Vote) :
    ({ g with pendingChallenge := some (pc.addVote playerId vote) } : Game).finalizeAccept env =
      g.finalizeAccept env := by
  simp only [finalizeAccept, h]
  rfl

/-- A resolved vote accepts or rejects the pending placement. -/
theorem resolveAndFinalize_cases (env : Env) (g : Game) :
    g.resolveAndFinalize env = (g.finalizeAccept env, .accepted) ∨
      g.resolveAndFinalize env = (g.finalizeReject env, .rejected) := by
  simp only [resolveAndFinalize]
  split_ifs
  · exact .inl rfl
  · exact .inr rfl

/-- A vote is refused without a trace, or noted, or decides. -/
theorem castVote_cases (playerId : String) (vote : Vote) :
    (∃ e, g.castVote env playerId vote = (g, .error e)) ∨
      ∃ pc voter, g.pendingChallenge = some pc ∧ playerId ∈ g.voterIds ∧
        pc.hasVote playerId = false ∧ g.findPlayer playerId = some voter ∧
        ((pc.addVote playerId vote).allVoted g.voterIds = false ∧
            g.castVote env playerId vote =
              (g.noteVote pc voter playerId vote, .ok (.recorded, voteText voter.name vote)) ∨
          (pc.addVote playerId vote).allVoted g.voterIds = true ∧
            ((pc.addVote playerId vote).resolveVotes g.voterIds = true ∧
                g.castVote env playerId vote =
                  (g.finalizeAccept env, .ok (.accepted, makeVoteMessage .accepted)) ∨
              (pc.addVote playerId vote).resolveVotes g.voterIds = false ∧
                g.castVote env playerId vote =
                  (g.finalizeReject env, .ok (.rejected, makeVoteMessage .rejected)))) := by
  simp only [castVote]
  split
  · exact .inl ⟨_, rfl⟩
  rename_i pc hpc
  split
  · exact .inl ⟨_, rfl⟩
  split
  · exact .inl ⟨_, rfl⟩
  rename_i hvoter
  split
  · exact .inl ⟨_, rfl⟩
  rename_i hvoted
  split
  · exact .inl ⟨_, rfl⟩
  rename_i voter hfind
  refine .inr ⟨pc, voter, hpc, by simpa using hvoter, by simpa using hvoted, hfind, ?_⟩
  have hids : ({ g with pendingChallenge := some (pc.addVote playerId vote) } : Game).voterIds =
      g.voterIds := by
    simp only [voterIds, hpc]
    rfl
  by_cases hall : (pc.addVote playerId vote).allVoted g.voterIds = true
  · refine .inr ⟨hall, ?_⟩
    simp only [hall, if_true, resolveAndFinalize, hids]
    by_cases hres : (pc.addVote playerId vote).resolveVotes g.voterIds = true
    · exact .inl ⟨hres, by simp only [hres, if_true, finalizeAccept_addVote hpc]⟩
    · have hres' : (pc.addVote playerId vote).resolveVotes g.voterIds = false := by simpa using hres
      exact .inr ⟨hres', by
        simp only [hres', Bool.false_eq_true, if_false, finalizeReject_addVote hpc]⟩
  · have hall' : (pc.addVote playerId vote).allVoted g.voterIds = false := by simpa using hall
    exact .inl ⟨hall', by simp only [hall', Bool.false_eq_true, if_false, noteVote]⟩

theorem castVote_effect (playerId : String) (vote : Vote) {op : Op} (hop : op.decides = true) :
    Effect env g op (g.castVote env playerId vote).1 := by
  obtain ⟨e, h⟩ | ⟨pc, voter, hpc, -, -, -, ⟨-, h⟩ | ⟨-, ⟨-, h⟩ | ⟨-, h⟩⟩⟩ :=
    castVote_cases env g playerId vote <;> rw [h]
  · exact .refused _
  · exact .voted _ _ hpc _ _ _
  · rw [finalizeAccept_eq hpc]
    exact .accepted _ _ hpc hop
  · exact .rejected _ _ hpc hop

theorem acceptPending_effect : Effect env g .acceptPending (g.acceptPending env).1 := by
  cases hpc : g.pendingChallenge with
  | none =>
    simp only [acceptPending, hpc, Option.isNone_none, if_true]
    exact .refused _
  | some pc =>
    simp only [acceptPending, hpc, Option.isNone_some, Bool.false_eq_true, if_false]
    obtain h | h := resolveAndFinalize_cases env g <;> rw [h]
    · rw [finalizeAccept_eq hpc]
      exact .accepted _ _ hpc rfl
    · exact .rejected _ _ hpc rfl

theorem forceResolvePending_effect (accept : Bool) :
    Effect env g (.forceResolvePending accept) (g.forceResolvePending env accept).1 := by
  cases hpc : g.pendingChallenge with
  | none =>
    simp only [forceResolvePending, hpc, Option.isNone_none, if_true]
    exact .refused _
  | some pc =>
    simp only [forceResolvePending, hpc, Option.isNone_some, Bool.false_eq_true, if_false]
    split_ifs
    · rw [finalizeAccept_eq hpc]
      exact .accepted _ _ hpc rfl
    · exact .rejected _ _ hpc rfl

theorem withdrawPending_effect (playerId : String) :
    Effect env g (.withdrawPending playerId) (g.withdrawPending playerId).1 := by
  simp only [withdrawPending]
  split
  · exact .refused _
  rename_i pc hpc
  split_ifs
  · exact .refused _
  · exact .refused _
  · exact .withdrawn _ _ hpc

/-! ## Exchange, pass and resignation -/

theorem exchangeTiles_cases (playerId : String) (tileIndices : List ℤ) :
    (∃ e, g.exchangeTiles env playerId tileIndices = (g, .error e)) ∨
      MayAct g playerId ∧ Exchangeable g tileIndices ∧ ∃ m,
        g.exchangeTiles env playerId tileIndices =
          ((g.swapTiles env tileIndices).scorelessNextTurn env, .ok m) := by
  unfold exchangeTiles
  by_cases hfin : g.finished = true
  · exact .inl ⟨_, if_pos hfin⟩
  rw [if_neg hfin]
  by_cases hpend : g.pendingChallenge.isSome = true
  · exact .inl ⟨_, if_pos hpend⟩
  rw [if_neg hpend]
  by_cases hpuzzle : g.puzzle.isSome = true
  · exact .inl ⟨_, if_pos hpuzzle⟩
  rw [if_neg hpuzzle]
  cases hplayer : g.currentPlayer with
  | none => exact .inl ⟨_, rfl⟩
  | some player =>
    obtain ⟨hseat, rfl⟩ := currentPlayer_eq_some g hplayer
    dsimp only
    by_cases hid : (g.playerAt g.currentPlayerIdx).id ≠ playerId
    · exact .inl ⟨_, if_pos hid⟩
    rw [if_neg hid]
    by_cases henough : g.bag.remaining < 7
    · exact .inl ⟨_, if_pos henough⟩
    rw [if_neg henough]
    by_cases hcovered : g.bag.remaining < tileIndices.length
    · exact .inl ⟨_, if_pos hcovered⟩
    rw [if_neg hcovered]
    by_cases hempty : tileIndices.isEmpty = true
    · exact .inl ⟨_, if_pos hempty⟩
    rw [if_neg hempty]
    by_cases hdup : tileIndices.dedup.length ≠ tileIndices.length
    · exact .inl ⟨_, if_pos hdup⟩
    rw [if_neg hdup]
    by_cases hrange : (tileIndices.any fun i => i < 0 ||
        i.toNat ≥ (g.playerAt g.currentPlayerIdx).hand.length) = true
    · exact .inl ⟨_, if_pos hrange⟩
    rw [if_neg hrange]
    refine .inr ⟨⟨by simpa using hfin, by simpa using hpend, by simpa using hpuzzle, hseat,
      by simpa using hid⟩, ⟨by omega, by omega, by simpa using hempty, ?_, ?_⟩, _, rfl⟩
    · have hlen : tileIndices.dedup.length = tileIndices.length := by simpa using hdup
      have heq := (List.dedup_sublist tileIndices).eq_of_length hlen
      exact heq ▸ List.nodup_dedup tileIndices
    · intro i hi
      have := (not_exists.mp (by simpa only [List.any_eq_true] using hrange)) i
      simp only [hi, true_and, Bool.or_eq_true, decide_eq_true_eq, not_or, not_lt, not_le] at this
      omega

theorem exchangeTiles_effect (playerId : String) (tileIndices : List ℤ) :
    Effect env g (.exchangeTiles playerId tileIndices)
      (g.exchangeTiles env playerId tileIndices).1 := by
  obtain ⟨e, h⟩ | ⟨hmay, htiles, m, h⟩ := exchangeTiles_cases env g playerId tileIndices <;> rw [h]
  · exact .refused _
  · exact .exchanged _ _ hmay htiles

theorem passTurn_cases (playerId : String) (timeout : Bool) :
    (∃ e, g.passTurn env playerId timeout = (g, .error e)) ∨
      MayAct g playerId ∧
        g.passTurn env playerId timeout =
          ((g.notePass timeout).scorelessNextTurn env, .ok "Passz.") := by
  simp only [passTurn]
  split
  · exact .inl ⟨_, rfl⟩
  rename_i hfin
  split
  · exact .inl ⟨_, rfl⟩
  rename_i hpend
  split
  · exact .inl ⟨_, rfl⟩
  rename_i hpuzzle
  split
  · exact .inl ⟨_, rfl⟩
  rename_i player hplayer
  obtain ⟨hseat, rfl⟩ := currentPlayer_eq_some g hplayer
  split_ifs with hid
  · exact .inl ⟨_, rfl⟩
  · exact .inr ⟨⟨by simpa using hfin, by simpa using hpend, by simpa using hpuzzle, hseat,
      by simpa using hid⟩, rfl⟩

theorem passTurn_effect (playerId : String) (timeout : Bool) :
    Effect env g (.passTurn playerId timeout) (g.passTurn env playerId timeout).1 := by
  obtain ⟨e, h⟩ | ⟨hmay, h⟩ := passTurn_cases env g playerId timeout <;> rw [h]
  · exact .refused _
  · exact .passed _ _ hmay

theorem resign_cases (playerId : String) :
    (∃ e, g.resign playerId = (g, .error e)) ∨
      ∃ idx, g.started = true ∧ g.finished = false ∧ g.seatOf playerId = some idx ∧
        g.resign playerId = (g.resignSeat idx, .ok "A játék feladva.") := by
  simp only [resign]
  split_ifs with hstarted hfin
  · exact .inl ⟨_, rfl⟩
  · exact .inl ⟨_, rfl⟩
  split
  · exact .inl ⟨_, rfl⟩
  · rename_i idx hidx
    exact .inr ⟨idx, by simpa using hstarted, by simpa using hfin, hidx, rfl⟩

theorem resign_effect (playerId : String) :
    Effect env g (.resign playerId) (g.resign playerId).1 := by
  obtain ⟨e, h⟩ | ⟨idx, hs, hf, hidx, h⟩ := resign_cases g playerId <;> rw [h]
  · exact .refused _
  · exact .resigned _ _ hs hf hidx

/-- A deadline that has passed is a pass, and with too many of them a resignation as well. -/
theorem expireTurn_cases (env : Env) (g : Game) :
    g.expireTurn env = (g, false) ∨
      (∃ playerId, MayAct g playerId) ∧ g.asyncMode = true ∧ g.started = true ∧
        (g.expireTurn env = ((g.notePass true).scorelessNextTurn env, true) ∨
          g.scorelessTurns + 1 < scorelessTurnsLimit ∧ ∃ idx, idx < g.players.length ∧
            g.expireTurn env = (((g.notePass true).bumped.nextTurn env).resignSeat idx, true)) := by
  simp only [expireTurn]
  split
  · exact .inl rfl
  rename_i hguard
  obtain ⟨⟨⟨hasync, hstarted⟩, -⟩, -⟩ :
      ((g.asyncMode = true ∧ g.started = true) ∧ g.finished = false) ∧
        g.pendingChallenge = none := by simpa using hguard
  split
  · exact .inl rfl
  rename_i player _
  obtain ⟨e, h⟩ | ⟨hmay, h⟩ := passTurn_cases env g player.id true
  · simp only [h]
    exact .inl trivial
  refine .inr ⟨⟨_, hmay⟩, hasync, hstarted, ?_⟩
  simp only [h]
  split_ifs with hover _
  · exact .inl rfl
  · obtain ⟨e, hr⟩ | ⟨idx, -, -, hidx, hr⟩ :=
      resign_cases ((g.notePass true).scorelessNextTurn env) player.id <;> rw [hr]
    · exact .inl rfl
    · have hlimit : ¬scorelessTurnsLimit ≤ (g.notePass true).scorelessTurns + 1 := by
        intro hl
        rw [scorelessNextTurn_eq, if_pos hl, endGame_finished] at hover
        exact hover rfl
      have hnext : (g.notePass true).scorelessNextTurn env =
          (g.notePass true).bumped.nextTurn env := by
        rw [scorelessNextTurn_eq, if_neg hlimit]
      rw [hnext] at hidx ⊢
      refine .inr ⟨not_le.mp hlimit, idx, ?_, rfl⟩
      simpa [bumped, notePass_players] using (seatOf_eq_some _ hidx).1
  · exact .inl rfl

theorem expireTurn_effect : Effect env g .expireTurn (g.expireTurn env).1 := by
  obtain h | ⟨hmay, hasync, hstarted, h | ⟨hlimit, idx, hidx, h⟩⟩ := expireTurn_cases env g <;>
    rw [h]
  · exact .refused _
  · exact .expired hmay hasync hstarted
  · exact .expelled idx hmay hasync hstarted hidx hlimit

theorem forceEnd_effect : Effect env g .forceEnd g.forceEnd.1 := by
  simp only [forceEnd]
  split_ifs with h
  · exact .refused _
  · obtain ⟨hs, hf⟩ : g.started = true ∧ g.finished = false := by simpa using h
    exact .ended hs hf

/-! ## Seats and connections -/

theorem useHint_effect : Effect env g .useHint g.useHint.1 := by
  simp only [useHint]
  split_ifs with h
  · exact .refused _
  · exact .hinted (by omega)

theorem markDisconnected_effect (playerId : String) :
    Effect env g (.markDisconnected playerId) (g.markDisconnected playerId).1 := by
  simp only [markDisconnected]
  split
  · exact .refused _
  · exact .disconnected _ _ (by assumption)

theorem replacePlayerSid_effect (oldId newId : String) :
    Effect env g (.replacePlayerSid oldId newId) (g.replacePlayerSid oldId newId).1 := by
  simp only [replacePlayerSid]
  split
  · exact .refused _
  · exact .reconnected _ _ _ (by assumption)

theorem removePlayer_effect (playerId : String) :
    Effect env g (.removePlayer playerId) (g.removePlayer playerId).1 := by
  simp only [removePlayer]
  split
  · exact .refused _
  · exact .removed _ _ (by assumption)

theorem skipDisconnectedCurrent_effect :
    Effect env g .skipDisconnectedCurrent (g.skipDisconnectedCurrent env).1 := by
  simp only [skipDisconnectedCurrent]
  split
  · exact .refused _
  rename_i h
  split
  · exact .refused _
  rename_i current hcurrent
  obtain ⟨⟨⟨hs, hf⟩, hp⟩, -⟩ :
      ((g.started = true ∧ g.finished = false) ∧ g.pendingChallenge = none) ∧
        g.asyncMode = false := by simpa using h
  split_ifs
  · exact .refused _
  · exact .refused _
  · exact .skipped hs hf hp (currentPlayer_eq_some g hcurrent).1

theorem saveRestore_eq : g.saveRestore env = g.restored env := by
  simp only [saveRestore, fromSaveDict_toSaveDict]

/-- **The step lemma**: an operation makes one of the listed changes. -/
theorem step_effect (op : Op) : Effect env g op (g.step (env, op)) := by
  cases op with
  | addPlayer playerId name => exact addPlayer_effect env g _ _
  | addBot name difficulty => exact addBot_effect env g _ _
  | start => exact start_effect env g
  | startAsync starter => exact startAsync_effect env g _
  | placeTiles playerId tiles => exact placeTiles_effect env g _ _
  | exchangeTiles playerId tileIndices => exact exchangeTiles_effect env g _ _
  | passTurn playerId timeout => exact passTurn_effect env g _ _
  | acceptPendingByPlayer playerId => exact castVote_effect env g _ _ rfl
  | rejectPendingByPlayer playerId => exact castVote_effect env g _ _ rfl
  | withdrawPending playerId => exact withdrawPending_effect env g _
  | acceptPending => exact acceptPending_effect env g
  | forceResolvePending accept => exact forceResolvePending_effect env g _
  | expireTurn => exact expireTurn_effect env g
  | resign playerId => exact resign_effect env g _
  | forceEnd => exact forceEnd_effect env g
  | useHint => exact useHint_effect env g
  | markDisconnected playerId => exact markDisconnected_effect env g _
  | replacePlayerSid oldId newId => exact replacePlayerSid_effect env g _ _
  | removePlayer playerId => exact removePlayer_effect env g _
  | skipDisconnectedCurrent => exact skipDisconnectedCurrent_effect env g
  | saveRestore =>
    rw [show g.step (env, .saveRestore) = g.saveRestore env from rfl, saveRestore_eq]
    exact .restored

end Game

end ScrabbleMagyar
