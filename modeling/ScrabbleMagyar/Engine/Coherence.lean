import ScrabbleMagyar.Engine.Effects

/-!
# Seats, hands and the pending placement

Two invariants of the game.

* `PendingSound`: a pending placement belongs to a seat, fits on the board as it is, carries the
  words and the score of that, and holds back the tiles it lays. Every operation keeps it.
* `Coherent`: the turn is with a seat, no hand outgrows `handSize`, and a pending placement is
  that of the player whose turn it is, with room in the hand to take its tiles back. It holds in
  every reachable game (`Game.Reachable.coherent`); in consequence no operation indexes a seat
  that does not exist, and no hand is filled up from more than `handSize` tiles.
-/

namespace ScrabbleMagyar

namespace Game

/-! ## Hands -/

/-- The tiles of a placement and the hand left without them make up the hand. -/
theorem removeTilesFromHand_perm {hand : List Tile} {tiles : List Placed}
    (h : validateHand hand tiles = .ok ()) :
    ((removeTilesFromHand hand tiles).2 ++ (removeTilesFromHand hand tiles).1).Perm hand := by
  induction tiles generalizing hand with
  | nil => simp [removeTilesFromHand]
  | cons p tiles ih =>
    simp only [validateHand] at h
    split at h
    · rename_i hmem
      exact ((ih h).cons _).trans (List.perm_cons_erase hmem).symm
    · split at h <;> cases h

theorem length_removeTilesFromHand {hand : List Tile} {tiles : List Placed}
    (h : validateHand hand tiles = .ok ()) :
    tiles.length + (removeTilesFromHand hand tiles).1.length = hand.length := by
  simpa [removeTilesFromHand] using (removeTilesFromHand_perm h).length_eq

/-- The indices of an exchange, from the highest down. -/
theorem Exchangeable.indices {g : Game} {tileIndices : List ℤ} (h : Exchangeable g tileIndices) :
    let indices := (tileIndices.map Int.toNat).insertionSort (· ≥ ·)
    indices.Pairwise (· > ·) ∧
      (∀ i ∈ indices, i < (g.playerAt g.currentPlayerIdx).hand.length) ∧
      indices.length = tileIndices.length := by
  have hperm := List.perm_insertionSort (· ≥ ·) (tileIndices.map Int.toNat)
  have hnodup : (tileIndices.map Int.toNat).Nodup := by
    refine h.nodup.map_on fun i hi j hj hij => ?_
    have := (h.inHand i hi).1
    have := (h.inHand j hj).1
    omega
  refine ⟨?_, fun i hi => ?_, by simp⟩
  · have hsorted := List.pairwise_insertionSort (· ≥ ·) (tileIndices.map Int.toNat)
    exact hsorted.imp₂ (fun _ _ hge hne => lt_of_le_of_ne hge (Ne.symm hne))
      (hperm.nodup_iff.mpr hnodup)
  · obtain ⟨j, hj, rfl⟩ := List.mem_map.mp (hperm.mem_iff.mp hi)
    exact (h.inHand j hj).2

/-- What a hand gives away in an exchange and what it keeps. -/
theorem Exchangeable.hand_perm {g : Game} {tileIndices : List ℤ} (h : Exchangeable g tileIndices) :
    let indices := (tileIndices.map Int.toNat).insertionSort (· ≥ ·)
    let rack := (g.playerAt g.currentPlayerIdx).hand
    ((indices.map fun i => rack.getD i Tile.blank) ++ indices.foldl List.eraseIdx rack).Perm rack :=
  Lists.foldl_eraseIdx_perm h.indices.2.1 h.indices.1 _

theorem length_refill_add_le (g : Game) {n : ℕ} (h : n ≤ handSize) :
    n + (g.refill n).length ≤ handSize := by
  rw [refill, TileBag.length_draw]
  omega

/-! ## The pending placement -/

/-- A pending placement that fits the game. -/
structure SoundPending (g : Game) (pc : Challenge) : Prop where
  seat : pc.playerIdx < g.players.length
  held : pc.removedFromHand = pc.tilesPlaced.map Placed.handTile
  valid : ∃ lex, g.board.validatePlacement lex pc.tilesPlaced true = .ok pc.formedWords
  words : pc.wordStrs = pc.formedWords.map FormedWord.word
  score : pc.score = lerakasTotal pc.formedWords pc.tilesPlaced.length

/-- The pending placement, if there is one, fits the game. -/
def PendingSound (g : Game) : Prop :=
  ∀ pc, g.pendingChallenge = some pc → SoundPending g pc

theorem PendingSound.of_none {g : Game} (h : g.pendingChallenge = none) : PendingSound g := by
  simp [PendingSound, h]

theorem pendingSound_of_initial {g : Game} (h : Initial g) : PendingSound g := by
  obtain ⟨_, _, _, _, _, rfl⟩ | ⟨_, _, _, rfl⟩ := h <;> exact .of_none rfl

/-- Soundness is about the board and the number of seats only. -/
theorem SoundPending.mono {g g' : Game} {pc : Challenge} (h : SoundPending g pc)
    (hboard : g'.board = g.board) (hlen : g.players.length ≤ g'.players.length) :
    SoundPending g' pc :=
  ⟨h.seat.trans_le hlen, h.held, hboard ▸ h.valid, h.words, h.score⟩

theorem PendingSound.keep {g g' : Game} (h : PendingSound g) (hboard : g'.board = g.board)
    (hlen : g.players.length ≤ g'.players.length)
    (hpending : g'.pendingChallenge = g.pendingChallenge) : PendingSound g' :=
  fun pc hpc => (h pc (hpending ▸ hpc)).mono hboard hlen

/-- A placement put to the vote is sound. -/
theorem Placeable.soundPending {env : Env} {g : Game} {playerId : String} {tiles : List Placed}
    {formed : List FormedWord} (h : Placeable env.lexicon g playerId tiles formed)
    (hvote : g.challengeApplies g.currentPlayerIdx = true) :
    PendingSound (g.proposed env tiles formed) := by
  rintro pc ⟨⟩
  refine ⟨?_, rfl, ⟨env.lexicon, ?_⟩, rfl, rfl⟩
  · simpa [proposed, proposePlacement, setLastAction, modifyPlayer, Challenge.new] using h.seat
  · exact hvote ▸ h.valid

theorem updatePlayerSid_eq (pc : Challenge) (oldId newId : String) :
    ∃ votes, pc.updatePlayerSid oldId newId = { pc with votes } := by
  simp only [Challenge.updatePlayerSid]
  split
  · exact ⟨_, rfl⟩
  · exact ⟨pc.votes, rfl⟩

/-- A sound placement stays sound when another seat is removed. -/
theorem PendingSound.removeSeat {g : Game} (h : PendingSound g) {idx : ℕ}
    (hidx : idx < g.players.length) : PendingSound (g.removeSeat idx) := by
  have hlen : (g.players.eraseIdx idx).length = g.players.length - 1 :=
    List.length_eraseIdx_of_lt hidx
  intro pc hpc
  simp only [Game.removeSeat] at hpc ⊢
  split at hpc
  · rename_i hempty
    obtain ⟨hpc, hne⟩ := Option.filter_eq_some_iff.mp hpc
    have hs := h pc hpc
    have : (g.players.eraseIdx idx).length = 0 := by simpa using hempty
    have := hs.seat
    simp only [decide_eq_true_eq] at hne
    omega
  · rename_i hempty
    rw [if_neg hempty]
    obtain ⟨pc₀, hpc₀, rfl⟩ := Option.map_eq_some_iff.mp hpc
    obtain ⟨hpc₀, hne⟩ := Option.filter_eq_some_iff.mp hpc₀
    have hs := h pc₀ hpc₀
    have := hs.seat
    simp only [decide_eq_true_eq] at hne
    by_cases hlt : idx < pc₀.playerIdx
    · rw [if_pos hlt]
      exact ⟨by simp only [hlen]; omega, hs.held, hs.valid, hs.words, hs.score⟩
    · rw [if_neg hlt]
      exact ⟨by simp only [hlen]; omega, hs.held, hs.valid, hs.words, hs.score⟩

/-- Every operation keeps the pending placement sound. -/
theorem PendingSound.effect {env : Env} {g g' : Game} {op : Op} (h : PendingSound g)
    (he : Effect env g op g') : PendingSound g' := by
  cases he with
  | refused => exact h
  | joined => exact h.keep rfl (by simp) rfl
  | botJoined => exact h.keep rfl (by simp) rfl
  | dealt => exact h.keep rfl (by simp [dealt, resetDeadline, deal_length]) rfl
  | dealtAt => exact h.keep rfl (by simp [Game.dealtAt, dealt, resetDeadline, deal_length]) rfl
  | placed playerId tiles formed may novote =>
    exact .of_none ((finalizePlacement_settles env g _ _ _ _).pendingChallenge may.free)
  | proposed playerId tiles formed may vote => exact may.soundPending vote
  | voted op pc pending voter playerId vote =>
    rintro pc' ⟨⟩
    have hs := h pc pending
    exact ⟨hs.seat, hs.held, hs.valid, hs.words, hs.score⟩
  | accepted op pc pending => exact .of_none ((closeTurn_settles env _ _).pendingChallenge rfl)
  | rejected op pc pending =>
    exact .of_none ((finalizeReject_settles env g pending).pendingChallenge rfl)
  | withdrawn => exact .of_none rfl
  | exchanged playerId tileIndices may =>
    exact .of_none ((scorelessNextTurn_settles env _).pendingChallenge may.free)
  | passed playerId timeout may =>
    refine .of_none ((scorelessNextTurn_settles env _).pendingChallenge ?_)
    cases timeout <;> exact may.free
  | expired may =>
    obtain ⟨_, may⟩ := may
    exact .of_none ((scorelessNextTurn_settles env _).pendingChallenge may.free)
  | expelled idx may =>
    rw [resignSeat_rest]
    exact .of_none rfl
  | resigned playerId idx started unfinished seat =>
    rw [resignSeat_rest]
    exact .of_none rfl
  | ended => exact .of_none (endGame_pendingChallenge _ _)
  | hinted => exact h.keep rfl le_rfl rfl
  | disconnected => exact h.keep rfl (by simp [modifyPlayer]) rfl
  | reconnected oldId newId idx seat =>
    intro pc hpc
    obtain ⟨pc₀, hpc₀, rfl⟩ := Option.map_eq_some_iff.mp hpc
    obtain ⟨votes, hvotes⟩ := updatePlayerSid_eq pc₀ oldId newId
    have hs := h pc₀ hpc₀
    rw [hvotes]
    exact ⟨by simpa [reconnectSeat, modifyPlayer] using hs.seat, hs.held, hs.valid, hs.words,
      hs.score⟩
  | removed playerId idx seat => exact h.removeSeat (seatOf_eq_some g seat).1
  | skipped started unfinished free => exact .of_none (by simpa using free)
  | restored => exact .of_none rfl

/-- A started game stays started. -/
theorem Effect.started {env : Env} {g g' : Game} {op : Op} (he : Effect env g op g')
    (h : g.started = true) : g'.started = true := by
  cases he with
  | placed => exact (finalizePlacement_settles env g _ _ _ _).keeps.2.2.2.1.trans h
  | accepted => exact (closeTurn_settles env _ _).keeps.2.2.2.1.trans h
  | rejected op pc pending => exact (finalizeReject_settles env g pending).keeps.2.2.2.1.trans h
  | exchanged => exact (scorelessNextTurn_settles env _).keeps.2.2.2.1.trans h
  | passed playerId timeout =>
    refine (scorelessNextTurn_settles env _).keeps.2.2.2.1.trans ?_
    cases timeout <;> exact h
  | expired => exact (scorelessNextTurn_settles env _).keeps.2.2.2.1.trans h
  | expelled =>
    rw [resignSeat_rest]
    exact (nextTurn_started env _).trans h
  | resigned => rw [resignSeat_rest]; exact h
  | ended =>
    rw [endGame_started, unwindPending]
    split <;> exact h
  | removed =>
    simp only [removeSeat]
    split <;> exact h
  | skipped => rw [nextTurn_started]; exact h
  | _ => first | exact h | rfl

theorem PendingSound.step {g : Game} (h : PendingSound g) (i : Input) :
    PendingSound (g.step i) :=
  h.effect (step_effect i.1 g i.2)

/-! ## Seats and hand sizes -/

/-- The indices of the game are seats, and the hands have their size. -/
structure Coherent (g : Game) : Prop where
  seat : g.currentPlayerIdx < g.players.length ∨ g.currentPlayerIdx = 0
  hands : ∀ p ∈ g.players, p.hand.length ≤ handSize
  turn : ∀ pc, g.pendingChallenge = some pc → pc.playerIdx = g.currentPlayerIdx
  room : ∀ pc, g.pendingChallenge = some pc →
    (g.playerAt pc.playerIdx).hand.length + pc.removedFromHand.length ≤ handSize
  waiting : g.started = false → g.pendingChallenge = none ∧ ∀ p ∈ g.players, p.hand = []

theorem coherent_of_initial {g : Game} (h : Initial g) : Coherent g := by
  obtain ⟨env, gameId, challengeMode, turnTimeLimit, hintLimit, rfl⟩ | ⟨env, gameId, turnHours, rfl⟩ :=
    h <;>
  exact ⟨.inr rfl, by simp [new, newAsync], by simp [new, newAsync], by simp [new, newAsync],
    fun _ => ⟨rfl, by simp [new, newAsync]⟩⟩

theorem Coherent.hand_le {g : Game} (h : Coherent g) (idx : ℕ) :
    (g.playerAt idx).hand.length ≤ handSize := by
  by_cases hidx : idx < g.players.length
  · exact h.hands _ (playerAt_mem g hidx)
  · rw [playerAt_of_le g (by omega)]
    exact Nat.zero_le _

/-- A game in which one hand has changed, and no placement is pending, is coherent when the new
hand fits. -/
theorem Coherent.modify {g g' : Game} (h : Coherent g) {idx : ℕ} {f : Player → Player}
    (hplayers : g'.players = g.players.modify idx f)
    (hturn : g'.currentPlayerIdx = g.currentPlayerIdx) (hstarted : g'.started = g.started)
    (hpending : g'.pendingChallenge = none)
    (hfits : idx < g.players.length → (f (g.playerAt idx)).hand.length ≤ handSize)
    (hwaits : g.started = false → idx < g.players.length → (f (g.playerAt idx)).hand = []) :
    Coherent g' := by
  have hmem : ∀ p ∈ g'.players,
      p ∈ g.players ∨ idx < g.players.length ∧ p = f (g.playerAt idx) := by
    intro p hp
    rw [hplayers] at hp
    obtain hp | ⟨a, -, ha, rfl⟩ := Lists.mem_modify hp
    · exact .inl hp
    · obtain ⟨hlt, rfl⟩ := List.getElem?_eq_some_iff.mp ha
      exact .inr ⟨hlt, by rw [playerAt_eq_getElem g hlt]⟩
  refine ⟨?_, fun p hp => ?_, by simp [hpending], by simp [hpending],
    fun hs => ⟨hpending, fun p hp => ?_⟩⟩
  · rw [hplayers, hturn, List.length_modify]
    exact h.seat
  · obtain hp | ⟨hlt, rfl⟩ := hmem p hp
    · exact h.hands p hp
    · exact hfits hlt
  · obtain hp | ⟨hlt, rfl⟩ := hmem p hp
    · exact (h.waiting (hstarted ▸ hs)).2 p hp
    · exact hwaits (hstarted ▸ hs) hlt

/-- Coherence is about the hands, the turn, and the seat and the tiles of a pending
placement. -/
theorem Coherent.congr {g g' : Game} (h : Coherent g)
    (hhands : g'.players.map Player.hand = g.players.map Player.hand)
    (hseat : g'.currentPlayerIdx < g'.players.length ∨ g'.currentPlayerIdx = 0)
    (hstarted : g'.started = g.started)
    (hpending : ∀ pc', g'.pendingChallenge = some pc' →
      g'.currentPlayerIdx = g.currentPlayerIdx ∧ ∃ pc, g.pendingChallenge = some pc ∧
        pc'.playerIdx = pc.playerIdx ∧ pc'.removedFromHand = pc.removedFromHand) :
    Coherent g' := by
  have hmem : ∀ p ∈ g'.players, ∃ q ∈ g.players, q.hand = p.hand := by
    intro p hp
    have : p.hand ∈ g.players.map Player.hand := hhands ▸ List.mem_map_of_mem hp
    simpa using this
  have hat : ∀ idx, (g'.playerAt idx).hand = (g.playerAt idx).hand := by
    intro idx
    have := congrArg (fun l => l.getD idx (default : Player).hand) hhands
    rwa [List.getD_map, List.getD_map] at this
  refine ⟨hseat, fun p hp => ?_, fun pc' hpc' => ?_, fun pc' hpc' => ?_, fun hw => ⟨?_, ?_⟩⟩
  · obtain ⟨q, hq, hqp⟩ := hmem p hp
    exact hqp ▸ h.hands q hq
  · obtain ⟨hturn, pc, hpc, hidx, -⟩ := hpending pc' hpc'
    rw [hidx, hturn, h.turn pc hpc]
  · obtain ⟨-, pc, hpc, hidx, hheld⟩ := hpending pc' hpc'
    rw [hidx, hheld, hat]
    exact h.room pc hpc
  · by_contra hne
    obtain ⟨pc', hpc'⟩ := Option.ne_none_iff_exists'.mp hne
    obtain ⟨-, pc, hpc, -⟩ := hpending pc' hpc'
    rw [(h.waiting (hstarted ▸ hw)).1] at hpc
    exact absurd hpc (by simp)
  · intro p hp
    obtain ⟨q, hq, hqp⟩ := hmem p hp
    exact hqp ▸ (h.waiting (hstarted ▸ hw)).2 q hq

theorem Coherent.settles {env : Env} {g g' : Game} (h : Coherent g) (hs : Settles env g g')
    (hpending : g.pendingChallenge = none) : Coherent g' := by
  refine h.congr (hs.map_eq (fun _ _ => rfl) fun _ _ => rfl) ?_ hs.keeps.2.2.2.1 ?_
  · rw [hs.length_eq]
    exact hs.seat h.seat
  · simp [hs.pendingChallenge hpending]

/-- Before the start no placement passes the checks. -/
theorem Coherent.started_of_placeable {lex : Lexicon} {g : Game} {playerId : String}
    {tiles : List Placed} {formed : List FormedWord} (h : Coherent g)
    (hp : Placeable lex g playerId tiles formed) : g.started = true := by
  by_contra hs
  have hhand := (h.waiting (by simpa using hs)).2 _ (playerAt_mem g hp.seat)
  have hcount := length_removeTilesFromHand hp.inHand
  rw [hhand, List.length_nil] at hcount
  obtain rfl : tiles = [] := List.length_eq_zero_iff.mp (by omega)
  exact absurd hp.valid (by simp [Board.validatePlacement])

theorem coherent_layTiles {lex : Lexicon} {g : Game} {playerId : String} {tiles : List Placed}
    {formed : List FormedWord} (h : Coherent g) (hp : Placeable lex g playerId tiles formed)
    (score : ℤ) (words : List Word) : Coherent (g.layTiles tiles score words formed) := by
  have hstarted := h.started_of_placeable hp
  refine h.modify (layTiles_players g _ _ _ _) rfl rfl hp.free (fun hlt => ?_) (by simp [hstarted])
  have hcount := length_removeTilesFromHand hp.inHand
  have := h.hand_le g.currentPlayerIdx
  simp only [laid, List.length_append]
  exact length_refill_add_le g (by omega)

theorem coherent_proposed {env : Env} {g : Game} {playerId : String} {tiles : List Placed}
    {formed : List FormedWord} (h : Coherent g)
    (hp : Placeable env.lexicon g playerId tiles formed) :
    Coherent (g.proposed env tiles formed) := by
  have hcount := length_removeTilesFromHand hp.inHand
  have hstarted := h.started_of_placeable hp
  have hfits := h.hand_le g.currentPlayerIdx
  let f : Player → Player := fun p => { p with hand := (removeTilesFromHand p.hand tiles).1 }
  -- the game as proposed, seen without its pending placement
  have hbase : Coherent (g.modifyPlayer g.currentPlayerIdx f) :=
    h.modify rfl rfl rfl hp.free (fun _ => by simp only [f]; omega) (by simp [hstarted])
  refine ⟨hbase.seat, hbase.hands, ?_, ?_, fun hs => ?_⟩
  · rintro pc ⟨⟩
    rfl
  · rintro pc ⟨⟩
    have hat := playerAt_modifyPlayer_self g hp.seat f
    change ((g.modifyPlayer g.currentPlayerIdx f).playerAt g.currentPlayerIdx).hand.length +
      (tiles.map Placed.handTile).length ≤ handSize
    simp only [hat, f, List.length_map]
    omega
  · exact absurd (hstarted.symm.trans hs) (by simp)

theorem Coherent.started_of_pending {g : Game} (h : Coherent g) {pc : Challenge}
    (hpc : g.pendingChallenge = some pc) : g.started = true := by
  by_contra hs
  rw [(h.waiting (by simpa using hs)).1] at hpc
  exact absurd hpc (by simp)

theorem coherent_layPending {g : Game} {pc : Challenge} (h : Coherent g)
    (hpc : g.pendingChallenge = some pc) : Coherent (g.layPending pc) := by
  refine h.modify (layPending_players g pc) rfl rfl rfl (fun _ => ?_)
    (by simp [h.started_of_pending hpc])
  simp only [accepted, List.length_append]
  exact length_refill_add_le g (h.hand_le _)

theorem coherent_returnTiles {g : Game} {pc : Challenge} (h : Coherent g)
    (hpc : g.pendingChallenge = some pc) : Coherent (g.returnTiles pc) :=
  h.modify rfl rfl rfl rfl (fun _ => by simpa using h.room pc hpc)
    (by simp [h.started_of_pending hpc])

theorem coherent_swapTiles {env : Env} {g : Game} {tileIndices : List ℤ} (h : Coherent g)
    (hfree : g.pendingChallenge = none) (ht : Exchangeable g tileIndices) :
    Coherent (g.swapTiles env tileIndices) := by
  have hkept := ht.hand_perm.length_eq
  have hcount := ht.indices.2.2
  simp only [List.length_append, List.length_map] at hkept
  refine h.modify (swapTiles_players env g tileIndices) rfl rfl hfree (fun _ => ?_)
    fun hw hlt => ?_
  · have := h.hand_le g.currentPlayerIdx
    simp only [swapped, List.length_append, TileBag.length_draw]
    omega
  · -- before the start the hand is empty and offers nothing to exchange
    have hhand := (h.waiting hw).2 _ (playerAt_mem g hlt)
    obtain ⟨i, hi⟩ := List.exists_mem_of_ne_nil _ ht.nonempty
    have := (ht.inHand i hi).2
    simp [hhand] at this

theorem coherent_notePass {g : Game} (h : Coherent g) (hfree : g.pendingChallenge = none)
    (timeout : Bool) : Coherent (g.notePass timeout) := by
  have hnone : (g.notePass timeout).pendingChallenge = none := by cases timeout <;> exact hfree
  refine h.congr ?_ ?_ (by cases timeout <;> rfl) (by simp [hnone])
  · rw [notePass_players]
    exact Lists.map_modify_eq (f := passed timeout) (fun _ => rfl) _ _
  · rw [notePass_players, List.length_modify]
    cases timeout <;> exact h.seat

theorem Coherent.bumped {g : Game} (h : Coherent g) : Coherent g.bumped :=
  ⟨h.seat, h.hands, h.turn, h.room, h.waiting⟩

/-- The deal gives every player a hand of at most `handSize` tiles. -/
theorem deal_hands (bag : TileBag) (players : List Player) :
    ∀ p ∈ (deal bag players).2, p.hand.length ≤ handSize := by
  induction players generalizing bag with
  | nil => simp [deal]
  | cons p rest ih =>
    intro q hq
    simp only [deal, List.mem_cons] at hq
    obtain rfl | hq := hq
    · simp only [TileBag.length_draw]
      omega
    · exact ih _ q hq

theorem coherent_dealt {env : Env} {g : Game} (h : Coherent g) (hw : g.started = false) :
    Coherent (g.dealt env) := by
  have hfree := (h.waiting hw).1
  refine ⟨?_, deal_hands _ _, fun pc hpc => ?_, fun pc hpc => ?_, fun hs => absurd hs (by
    simp [dealt, resetDeadline])⟩
  · simpa [dealt, resetDeadline, deal_length] using h.seat
  all_goals exact absurd (hfree.symm.trans hpc) (by simp)

/-- A new player joins with an empty hand. -/
theorem coherent_join {g : Game} (h : Coherent g) (hw : g.started = false) (seq : ℕ) {p : Player}
    (hp : p.hand = []) : Coherent { g with botSeq := seq, players := g.players ++ [p] } := by
  obtain ⟨hfree, hhands⟩ := h.waiting hw
  refine ⟨?_, fun q hq => ?_, by simp [hfree], by simp [hfree], fun _ => ⟨hfree, fun q hq => ?_⟩⟩
  · have := h.seat
    simp only [List.length_append, List.length_singleton]
    omega
  all_goals
    obtain hq | rfl : q ∈ g.players ∨ q = p := by simpa using hq
    · first | exact h.hands q hq | exact hhands q hq
    · simp [hp]

/-- A pending placement after another seat has been taken away. -/
theorem removeSeat_pending {g : Game} {idx : ℕ} (hsound : PendingSound g)
    (hidx : idx < g.players.length) {pc' : Challenge}
    (h : (g.removeSeat idx).pendingChallenge = some pc') :
    ∃ pc, g.pendingChallenge = some pc ∧ pc.playerIdx ≠ idx ∧ pc' = { pc with
      playerIdx := if idx < pc.playerIdx then pc.playerIdx - 1 else pc.playerIdx } := by
  have hlen : (g.players.eraseIdx idx).length = g.players.length - 1 :=
    List.length_eraseIdx_of_lt hidx
  simp only [removeSeat] at h
  split at h
  · rename_i hempty
    obtain ⟨hpc, hne⟩ := Option.filter_eq_some_iff.mp h
    have hseat := (hsound pc' hpc).seat
    have hnone : (g.players.eraseIdx idx).length = 0 := by simpa using hempty
    simp only [decide_eq_true_eq] at hne
    omega
  · obtain ⟨pc, hpc, rfl⟩ := Option.map_eq_some_iff.mp h
    obtain ⟨hpc, hne⟩ := Option.filter_eq_some_iff.mp hpc
    refine ⟨pc, hpc, of_decide_eq_true hne, ?_⟩
    split <;> rfl

/-- Removing a seat moves the turn and a pending placement along. -/
theorem coherent_removeSeat {g : Game} (h : Coherent g) (hsound : PendingSound g) {idx : ℕ}
    (hidx : idx < g.players.length) : Coherent (g.removeSeat idx) := by
  have hlen : (g.players.eraseIdx idx).length = g.players.length - 1 :=
    List.length_eraseIdx_of_lt hidx
  have hplayers := removeSeat_players g idx
  have hstarted : (g.removeSeat idx).started = g.started := by
    simp only [removeSeat]
    split <;> rfl
  have hhands : ∀ p ∈ (g.removeSeat idx).players, p ∈ g.players := fun p hp =>
    List.mem_of_mem_eraseIdx (hplayers ▸ hp)
  -- a pending placement that is left belongs to another seat, which is still the one to move
  have hpending : ∀ pc', (g.removeSeat idx).pendingChallenge = some pc' →
      ∃ pc, g.pendingChallenge = some pc ∧ pc'.removedFromHand = pc.removedFromHand ∧
        pc'.playerIdx = (g.removeSeat idx).currentPlayerIdx ∧
        (g.removeSeat idx).playerAt pc'.playerIdx = g.playerAt pc.playerIdx := by
    intro pc' hpc'
    obtain ⟨pc, hpc, hne, rfl⟩ := removeSeat_pending hsound hidx hpc'
    have hturn := h.turn pc hpc
    refine ⟨pc, hpc, rfl, ?_, playerAt_removeSeat_of_ne g hne⟩
    rw [currentPlayerIdx_removeSeat g hidx (hturn ▸ (hsound pc hpc).seat) (hturn ▸ hne.symm), ← hturn]
  refine ⟨?_, fun p hp => h.hands p (hhands p hp), fun pc' hpc' => ?_, fun pc' hpc' => ?_,
    fun hw => ⟨?_, fun p hp => ?_⟩⟩
  · have := h.seat
    simp only [hplayers, hlen]
    simp only [removeSeat]
    split_ifs with hempty hlt heq
    · exact .inr rfl
    · simp only
      omega
    · exact .inr rfl
    · have : 0 < (g.players.eraseIdx idx).length := List.length_pos_iff.mpr (by simpa using hempty)
      simp only
      omega
  · obtain ⟨pc, -, -, hturn, -⟩ := hpending pc' hpc'
    exact hturn
  · obtain ⟨pc, hpc, hheld, -, hat⟩ := hpending pc' hpc'
    rw [hat, hheld]
    exact h.room pc hpc
  · by_contra hne
    obtain ⟨pc', hpc'⟩ := Option.ne_none_iff_exists'.mp hne
    obtain ⟨pc, hpc, -⟩ := hpending pc' hpc'
    rw [(h.waiting (hstarted ▸ hw)).1] at hpc
    exact absurd hpc (by simp)
  · exact (h.waiting (hstarted ▸ hw)).2 p (hhands p hp)

theorem coherent_resignSeat {g : Game} (h : Coherent g) (idx : ℕ) :
    Coherent (g.resignSeat idx) := by
  rw [resignSeat_rest]
  refine h.congr ?_ ?_ rfl (by simp)
  · exact (settle_map (fun _ _ => rfl) _ none).trans
      (Lists.map_modify_eq (f := fun p : Player => { p with resigned := true }) (fun _ => rfl)
        g.players idx)
  · simpa [settle_length] using h.seat

/-- Undoing a pending placement gives every seat the hand that is stored for it. -/
theorem unwindPending_players (g : Game) :
    g.unwindPending.players =
      g.players.zipIdx.map fun e => { e.1 with hand := g.savedHand e.2 e.1 } := by
  cases hpc : g.pendingChallenge with
  | none => simp [unwindPending, savedHand, hpc]
  | some pc =>
    refine List.ext_getElem (by simp [unwindPending, hpc, returnTiles, modifyPlayer]) fun i h₁ h₂ => ?_
    simp only [savedHand, unwindPending, hpc, returnTiles, modifyPlayer, List.getElem_map,
      List.getElem_zipIdx, List.getElem_modify]
    by_cases hi : pc.playerIdx = i
    · simp [hi]
    · simp [hi, Ne.symm hi]

/-- The hands of a restored game are those of the saved one with a pending placement undone. -/
theorem restored_hands (env : Env) (g : Game) :
    (g.restored env).players.map Player.hand = g.unwindPending.players.map Player.hand := by
  rw [unwindPending_players]
  simp [restored, restoredPlayers, restoredPlayer]

theorem coherent_restored {env : Env} {g : Game} (h : Coherent g) : Coherent (g.restored env) := by
  have hseat : (g.restored env).currentPlayerIdx < (g.restored env).players.length ∨
      (g.restored env).currentPlayerIdx = 0 := by
    simpa [restored, restoredPlayers] using h.seat
  have hhands := restored_hands env g
  cases hpc : g.pendingChallenge with
  | none =>
    simp only [unwindPending, hpc] at hhands
    exact h.congr hhands hseat rfl fun pc hp => absurd hp (by simp [restored, new])
  | some pc =>
    simp only [unwindPending, hpc] at hhands
    exact (coherent_returnTiles h hpc).congr hhands hseat rfl
      fun pc hp => absurd hp (by simp [restored, new])

/-- Every operation keeps the seats and the hands coherent. -/
theorem Coherent.effect {env : Env} {g g' : Game} {op : Op} (h : Coherent g)
    (hsound : PendingSound g) (he : Effect env g op g') : Coherent g' := by
  cases he with
  | refused => exact h
  | joined playerId name waiting room fresh => exact coherent_join h waiting g.botSeq rfl
  | botJoined name difficulty seq waiting room => exact coherent_join h waiting seq rfl
  | dealt op waiting => exact coherent_dealt h waiting
  | dealtAt starter waiting seat async =>
    have hd : Coherent (g.dealt env) := coherent_dealt h waiting
    exact hd.congr rfl (.inl (by simpa [Game.dealtAt, dealt, resetDeadline, deal_length] using seat))
      rfl (by simp [(h.waiting waiting).1, Game.dealtAt, dealt, resetDeadline])
  | placed playerId tiles formed may novote =>
    exact (coherent_layTiles h may _ _).settles (finalizePlacement_settles env g _ _ _ _) may.free
  | proposed playerId tiles formed may vote => exact coherent_proposed h may
  | voted op pc pending voter playerId vote =>
    refine h.congr rfl h.seat rfl ?_
    rintro pc' ⟨⟩
    exact ⟨rfl, pc, pending, rfl, rfl⟩
  | accepted op pc pending =>
    exact (coherent_layPending h pending).settles (closeTurn_settles env _ _) rfl
  | rejected op pc pending =>
    have hr : Coherent (g.turnDown pc) :=
      (coherent_returnTiles h pending).congr rfl (coherent_returnTiles h pending).seat rfl
        fun pc' hpc' =>
          absurd hpc' (by simp [turnDown, recordMove, setLastAction, returnTiles, modifyPlayer])
    exact hr.bumped.settles (finalizeReject_settles env g pending) rfl
  | withdrawn playerId pc pending =>
    have hr := coherent_returnTiles h pending
    exact ⟨hr.seat, hr.hands, hr.turn, hr.room, hr.waiting⟩
  | exchanged playerId tileIndices may tiles =>
    exact (coherent_swapTiles h may.free tiles).bumped.settles (scorelessNextTurn_settles env _)
      may.free
  | passed playerId timeout may =>
    refine (coherent_notePass h may.free timeout).bumped.settles (scorelessNextTurn_settles env _) ?_
    cases timeout <;> exact may.free
  | expired may =>
    obtain ⟨_, may⟩ := may
    exact (coherent_notePass h may.free true).bumped.settles (scorelessNextTurn_settles env _)
      may.free
  | expelled idx may =>
    obtain ⟨_, may⟩ := may
    exact coherent_resignSeat
      ((coherent_notePass h may.free true).bumped.settles .next may.free) idx
  | resigned playerId idx started unfinished seat => exact coherent_resignSeat h idx
  | ended =>
    cases hpc : g.pendingChallenge with
    | none => simpa only [unwindPending, hpc] using
        h.settles (show Settles env _ _ from .gameOver none) hpc
    | some pc =>
      simpa only [unwindPending, hpc] using
        (coherent_returnTiles h hpc).settles (show Settles env _ _ from .gameOver none) rfl
  | hinted => exact ⟨h.seat, h.hands, h.turn, h.room, h.waiting⟩
  | disconnected playerId idx seat =>
    exact h.congr
      (Lists.map_modify_eq (f := fun p : Player => { p with disconnected := true }) (fun _ => rfl)
        g.players idx)
      (by simpa [modifyPlayer] using h.seat) rfl fun pc hpc => ⟨rfl, pc, hpc, rfl, rfl⟩
  | reconnected oldId newId idx seat =>
    refine h.congr (Lists.map_modify_eq (f := Player.reconnect newId) (fun _ => rfl) _ _)
      (by simpa [reconnectSeat, modifyPlayer] using h.seat) rfl fun pc hpc => ?_
    obtain ⟨pc₀, hpc₀, rfl⟩ := Option.map_eq_some_iff.mp hpc
    obtain ⟨votes, hvotes⟩ := updatePlayerSid_eq pc₀ oldId newId
    exact ⟨rfl, pc₀, hpc₀, by rw [hvotes], by rw [hvotes]⟩
  | removed playerId idx seat => exact coherent_removeSeat h hsound (seatOf_eq_some g seat).1
  | skipped started unfinished free => exact h.settles .next free
  | restored => exact coherent_restored h

/-- Both invariants hold in every game that can be reached. -/
theorem Reachable.coherent {g : Game} (h : Reachable g) : Coherent g ∧ PendingSound g :=
  Runs.Reaches.invariant step (P := fun g => Coherent g ∧ PendingSound g)
    (fun _ hs => ⟨coherent_of_initial hs, pendingSound_of_initial hs⟩)
    (fun s i hs _ => ⟨hs.1.effect hs.2 (step_effect i.1 s i.2), hs.2.step i⟩) h

/-- **Indices and hands**: in every reachable game the turn is with a seat, no hand exceeds
`handSize`, and a pending placement is that of the player whose turn it is, whose hand has room
for the tiles held back. So the hand that is filled up when a placement is finalised, at once or
by the vote, never holds more than `handSize` tiles. -/
theorem reachable_indices {g : Game} (h : Reachable g) :
    (g.players ≠ [] → g.currentPlayerIdx < g.players.length) ∧
      (∀ p ∈ g.players, p.hand.length ≤ handSize) ∧
      (∀ pc, g.pendingChallenge = some pc →
        pc.playerIdx < g.players.length ∧ pc.playerIdx = g.currentPlayerIdx ∧
          (g.playerAt pc.playerIdx).hand.length + pc.removedFromHand.length ≤ handSize) ∧
      ∀ lex playerId tiles formed, Placeable lex g playerId tiles formed →
        (removeTilesFromHand (g.playerAt g.currentPlayerIdx).hand tiles).1.length ≤ handSize := by
  obtain ⟨hc, hs⟩ := h.coherent
  refine ⟨fun hne => ?_, hc.hands,
    fun pc hpc => ⟨(hs pc hpc).seat, hc.turn pc hpc, hc.room pc hpc⟩,
    fun lex playerId tiles formed hp => ?_⟩
  · have := List.length_pos_iff.mpr hne
    have := hc.seat
    omega
  · have := length_removeTilesFromHand hp.inHand
    have := hc.hand_le g.currentPlayerIdx
    omega

/-- A duel with a placement put to the vote and the second player gone. -/
theorem reachable_indices_duel :
    let g := Runs.run step (duel true) [(stillEnv, .placeTiles "a" duelOpening),
      (stillEnv, .removePlayer "b")]
    (g.players ≠ [] → g.currentPlayerIdx < g.players.length) ∧
      (∀ p ∈ g.players, p.hand.length ≤ handSize) ∧
      (∀ pc, g.pendingChallenge = some pc →
        pc.playerIdx < g.players.length ∧ pc.playerIdx = g.currentPlayerIdx ∧
          (g.playerAt pc.playerIdx).hand.length + pc.removedFromHand.length ≤ handSize) ∧
      ∀ lex playerId tiles formed, Placeable lex g playerId tiles formed →
        (removeTilesFromHand (g.playerAt g.currentPlayerIdx).hand tiles).1.length ≤ handSize :=
  reachable_indices ((reachable_duel true).run step
    (Runs.along_of_forall step (fun _ _ _ => trivial) _))

end Game

end ScrabbleMagyar
