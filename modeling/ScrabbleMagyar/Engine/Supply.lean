import ScrabbleMagyar.Engine.Conservation
import ScrabbleMagyar.Engine.Growth

/-!
# The supply of the hands

While the bag has tiles every hand is full, and while the game goes on nobody is without tiles
(`hands_supplied`). The tiles that wait for a vote count as those of their player.
-/

namespace ScrabbleMagyar

namespace Game

/-- How many tiles each player has, with those that wait for a vote. -/
def handLengths (g : Game) : List ℕ := g.players.zipIdx.map fun e => (g.savedHand e.2 e.1).length

/-- While the game goes on a hand has tiles, and it is full if the bag has any. -/
structure Supplied (g : Game) : Prop where
  waiting : g.started = false → g.players.length ≤ 4 ∧ 28 ≤ g.bag.remaining
  hands : g.started = true → g.finished = false →
    ∀ n ∈ g.handLengths, 0 < n ∧ (0 < g.bag.remaining → n = handSize)

variable {env : Env} {g g' : Game}

theorem handLengths_eq (g : Game) :
    g.handLengths = g.unwindPending.players.map fun p => p.hand.length := by
  rw [unwindPending_players, List.map_map]
  rfl

theorem handLengths_of_free (h : g.pendingChallenge = none) :
    g.handLengths = g.players.map fun p => p.hand.length := by
  rw [handLengths_eq, unwindPending, h]

theorem mem_handLengths {n : ℕ} : n ∈ g.handLengths ↔
    ∃ idx < g.players.length, (g.savedHand idx (g.playerAt idx)).length = n := by
  rw [handLengths, List.mem_map]
  constructor
  · rintro ⟨⟨p, idx⟩, hmem, rfl⟩
    obtain ⟨hlt, hp⟩ := List.getElem?_eq_some_iff.mp (List.mem_zipIdx_iff_getElem?.mp hmem)
    exact ⟨idx, hlt, by rw [playerAt_eq_getElem g hlt, ← hp]⟩
  · rintro ⟨idx, hlt, rfl⟩
    refine ⟨(g.playerAt idx, idx), List.mem_zipIdx_iff_getElem?.mpr ?_, rfl⟩
    rw [playerAt_eq_getElem g hlt]
    exact List.getElem?_eq_getElem hlt

/-! ## Steps that move no tiles -/

theorem Supplied.over (hstarted : g.started = true) (hfinished : g.finished = true) : Supplied g :=
  ⟨fun h => absurd (hstarted.symm.trans h) (by simp),
    fun _ h => absurd (hfinished.symm.trans h) (by simp)⟩

/-- The players of a started game may only become fewer. -/
theorem Supplied.keep (h : Supplied g) (hstarted : g'.started = g.started)
    (hfinished : g'.finished = false → g.finished = false)
    (hlength : g'.players.length ≤ g.players.length) (hbag : g'.bag.remaining = g.bag.remaining)
    (hhands : g.started = true → ∀ n ∈ g'.handLengths, n ∈ g.handLengths) : Supplied g' := by
  refine ⟨fun hw => ?_, fun hs hrun n hn => ?_⟩
  · obtain ⟨hfew, hmany⟩ := h.waiting (hstarted ▸ hw)
    exact ⟨hlength.trans hfew, hbag ▸ hmany⟩
  · rw [hbag]
    exact h.hands (hstarted ▸ hs) (hfinished hrun) n (hhands (hstarted ▸ hs) n hn)

theorem handLengths_settles (hs : Settles env g g') (hfree : g.pendingChallenge = none) :
    g'.handLengths = g.handLengths := by
  rw [handLengths_of_free hfree, handLengths_of_free (hs.pendingChallenge hfree)]
  exact hs.map_eq (fun _ _ => rfl) fun _ _ => rfl

theorem Settles.unfinished (hs : Settles env g g') (hrun : g'.finished = false) :
    g.finished = false := by
  cases hs with
  | gameOver finisher => simp at hrun
  | solved => cases hrun
  | next => rwa [nextTurn_finished] at hrun
  | stay => exact hrun

theorem Supplied.settles (h : Supplied g) (hs : Settles env g g')
    (hfree : g.pendingChallenge = none) : Supplied g' := by
  obtain ⟨-, hbag, -, hstarted, -⟩ := hs.keeps
  refine h.keep hstarted hs.unfinished hs.length_eq.le (by rw [hbag]) fun _ n hn => ?_
  rwa [handLengths_settles hs hfree] at hn

/-- Giving the tiles of a pending placement back. -/
theorem Supplied.unwind (h : Supplied g) : Supplied g.unwindPending := by
  refine h.keep ?_ ?_ ?_ ?_ fun _ n hn => ?_
  · unfold unwindPending
    split <;> rfl
  · unfold unwindPending
    split <;> exact fun hrun => hrun
  · rw [unwindPending_players]
    simp
  · unfold unwindPending
    split <;> rfl
  · rw [handLengths_of_free] at hn
    · rwa [handLengths_eq]
    · unfold unwindPending
      split
      · rfl
      · assumption

/-! ## Steps that fill a hand -/

/-- A hand after it has been filled up: full, or the bag is empty. -/
theorem length_refill (g : Game) {n : ℕ} (hn : n ≤ handSize) :
    (0 < (g.bag.draw (handSize - n)).1.remaining → n + (g.refill n).length = handSize) ∧
      (n + (g.refill n).length = 0 → (g.bag.draw (handSize - n)).1.remaining = 0) := by
  have hdraw := congrArg List.length (TileBag.draw_append g.bag (handSize - n))
  rw [List.length_append, TileBag.length_draw] at hdraw
  rw [refill, TileBag.length_draw, TileBag.remaining]
  simp only [handSize] at hn hdraw ⊢
  omega

/-- The hand of one player has been filled up. -/
theorem Supplied.filled {mid : Game} (h : Supplied g) (hrun : g.finished = false) {idx n : ℕ}
    {f : Player → Player} (hplayers : mid.players = g.players.modify idx f)
    (hfree : mid.pendingChallenge = none) (hstarted : mid.started = true)
    (hstarted' : g.started = true) (hn : n ≤ handSize)
    (hbag : mid.bag = (g.bag.draw (handSize - n)).1)
    (hhand : idx < g.players.length → (mid.playerAt idx).hand.length = n + (g.refill n).length)
    (hothers : ∀ j, j ≠ idx → g.savedHand j (g.playerAt j) = (g.playerAt j).hand)
    (hon : 0 < (mid.playerAt idx).hand.length ∨ 0 < mid.bag.remaining) : Supplied mid := by
  refine ⟨fun hw => absurd (hstarted.symm.trans hw) (by simp), fun _ _ m hm => ?_⟩
  obtain ⟨hfull, hempty⟩ := length_refill g hn
  obtain ⟨j, hj, rfl⟩ := mem_handLengths.mp hm
  have hj' : j < g.players.length := by
    rw [hplayers, List.length_modify] at hj
    exact hj
  have hsaved : mid.savedHand j (mid.playerAt j) = (mid.playerAt j).hand := by simp [savedHand, hfree]
  rw [hsaved]
  by_cases hji : j = idx
  · subst hji
    have hlen := hhand hj'
    rw [hbag] at hon ⊢
    exact ⟨by omega, fun hleft => hlen.trans (hfull hleft)⟩
  · have hsame : mid.playerAt j = g.playerAt j := by
      rw [playerAt, hplayers]
      exact Lists.getD_modify_of_ne (Ne.symm hji) _
    obtain ⟨hpos, hsize⟩ := h.hands hstarted' hrun _ (mem_handLengths.mpr ⟨j, hj', rfl⟩)
    rw [hothers j hji] at hpos hsize
    rw [hsame]
    refine ⟨hpos, fun hleft => hsize (lt_of_lt_of_le hleft ?_)⟩
    have hdraw := congrArg List.length (TileBag.draw_append g.bag (handSize - n))
    rw [List.length_append] at hdraw
    rw [hbag, TileBag.remaining, TileBag.remaining]
    omega

/-- A turn closes with the game over, or the player has tiles to go on. -/
theorem supplied_closeTurn {mid : Game} {idx : ℕ} (hstarted : mid.started = true)
    (hfree : mid.pendingChallenge = none)
    (h : 0 < (mid.playerAt idx).hand.length ∨ 0 < mid.bag.remaining → Supplied mid) :
    Supplied (mid.closeTurn env idx) := by
  unfold closeTurn
  split
  · refine .over ?_ (endGame_finished _ _)
    rw [endGame_started]
    exact hstarted
  · rename_i hon
    refine (h ?_).settles .next hfree
    rw [Bool.and_eq_true, List.isEmpty_iff, TileBag.isEmpty, List.isEmpty_iff, not_and_or] at hon
    exact hon.imp List.length_pos_iff.mpr List.length_pos_iff.mpr

/-! ## The operations -/

theorem supplied_placed {playerId : String} {tiles : List Placed} {formed : List FormedWord}
    (h : Supplied g) (hg : Coherent g) (hp : Placeable env.lexicon g playerId tiles formed) :
    Supplied (g.placedNow env tiles formed) := by
  have hstarted := hg.started_of_placeable hp
  have hcount := length_removeTilesFromHand hp.inHand
  have hfits := hg.hand_le g.currentPlayerIdx
  rw [placedNow, finalizePlacement]
  split
  · exact .over hstarted rfl
  · refine supplied_closeTurn hstarted hp.free fun hon => ?_
    refine h.filled hp.unfinished (layTiles_players g _ _ _ _) hp.free hstarted hstarted
      (n := (removeTilesFromHand (g.playerAt g.currentPlayerIdx).hand tiles).1.length) (by omega)
      (layTiles_bag g hp.seat) (fun hlt => ?_) (fun j _ => by simp [savedHand, hp.free]) hon
    rw [playerAt, layTiles_players, Lists.getD_modify_self hlt]
    simp [laid, playerAt]

theorem supplied_accepted {pc : Challenge} (h : Supplied g) (hg : Coherent g)
    (hrun : g.finished = false) (hpc : g.pendingChallenge = some pc) :
    Supplied ((g.layPending pc).closeTurn env pc.playerIdx) := by
  have hstarted := hg.started_of_pending hpc
  refine supplied_closeTurn hstarted rfl fun hon => ?_
  refine h.filled hrun (layPending_players g pc) rfl hstarted hstarted
    (n := (g.playerAt pc.playerIdx).hand.length) (hg.hand_le _) (layPending_bag g) (fun hlt => ?_)
    (fun j hj => by simp [savedHand, hpc, hj]) hon
  rw [playerAt, layPending_players, Lists.getD_modify_self hlt]
  simp [accepted, playerAt]

theorem supplied_swapTiles {tileIndices : List ℤ} (h : Supplied g)
    (hfree : g.pendingChallenge = none) (ht : Exchangeable g tileIndices) :
    Supplied (g.swapTiles env tileIndices) := by
  have hkept := ht.hand_perm.length_eq
  have hcount := ht.indices.2.2
  have hcovered := ht.covered
  simp only [List.length_append, List.length_map] at hkept
  have hbag : (g.swapTiles env tileIndices).bag.remaining = g.bag.remaining := by
    have hdraw := congrArg List.length
      (TileBag.draw_append g.bag ((tileIndices.map Int.toNat).insertionSort (· ≥ ·)).length)
    rw [List.length_append, TileBag.length_draw] at hdraw
    rw [swapTiles_bag, TileBag.remaining, TileBag.putBack, (env.shuffle.perm _).length_eq,
      List.length_append, List.length_map]
    simp only [TileBag.remaining] at hcovered ⊢
    omega
  refine h.keep rfl (fun hrun => hrun) ?_ hbag fun _ n hn => ?_
  · rw [swapTiles_players, List.length_modify]
  · have hfree' : (g.swapTiles env tileIndices).pendingChallenge = none := hfree
    rw [handLengths_of_free hfree', swapTiles_players, List.mem_map] at hn
    rw [handLengths_of_free hfree, List.mem_map]
    obtain ⟨p, hp, rfl⟩ := hn
    obtain hp | ⟨a, -, ha, rfl⟩ := Lists.mem_modify hp
    · exact ⟨p, hp, rfl⟩
    · obtain ⟨hlt, rfl⟩ := List.getElem?_eq_some_iff.mp ha
      refine ⟨_, List.getElem_mem hlt, ?_⟩
      rw [playerAt_eq_getElem g hlt] at hkept
      simp only [TileBag.remaining] at hcovered
      simp only [swapped, List.length_append, TileBag.length_draw]
      omega

/-- With tiles enough the deal fills every hand. -/
theorem deal_full (bag : TileBag) (players : List Player)
    (hmany : handSize * players.length ≤ bag.remaining) :
    ∀ p ∈ (deal bag players).2, p.hand.length = handSize := by
  induction players generalizing bag with
  | nil => simp [deal]
  | cons p rest ih =>
    have hdraw := congrArg List.length (TileBag.draw_append bag handSize)
    rw [List.length_append, TileBag.length_draw] at hdraw
    simp only [List.length_cons, handSize, TileBag.remaining] at hmany hdraw
    refine List.forall_mem_cons.mpr ⟨?_, ih _ ?_⟩
    · change (bag.draw handSize).2.length = handSize
      rw [TileBag.length_draw]
      simp only [handSize]
      omega
    · change handSize * rest.length ≤ (bag.draw handSize).1.tiles.length
      simp only [handSize]
      omega

theorem supplied_dealt (h : Supplied g) (hg : Coherent g) (hw : g.started = false) {mid : Game}
    (hplayers : mid.players = (deal g.bag g.players).2) (hstarted : mid.started = true)
    (hpending : mid.pendingChallenge = g.pendingChallenge) : Supplied mid := by
  obtain ⟨hfew, hmany⟩ := h.waiting hw
  refine ⟨fun hs => absurd (hstarted.symm.trans hs) (by simp), fun _ _ n hn => ?_⟩
  rw [handLengths_of_free (hpending.trans (hg.waiting hw).1), hplayers, List.mem_map] at hn
  obtain ⟨p, hp, rfl⟩ := hn
  have hfull := deal_full g.bag g.players (by simp only [handSize]; omega) p hp
  exact ⟨hfull ▸ Nat.succ_pos _, fun _ => hfull⟩

/-- A placement put to the vote is still held by its player. -/
theorem supplied_proposed {playerId : String} {tiles : List Placed} {formed : List FormedWord}
    (h : Supplied g) (hp : Placeable env.lexicon g playerId tiles formed) :
    Supplied (g.proposed env tiles formed) := by
  have hcount := length_removeTilesFromHand hp.inHand
  refine h.keep rfl (fun hrun => hrun)
    (by simp [proposed, proposePlacement, setLastAction, modifyPlayer])
    rfl fun _ n hn => ?_
  obtain ⟨idx, hidx, rfl⟩ := mem_handLengths.mp hn
  refine mem_handLengths.mpr ⟨idx, ?_, ?_⟩
  · simpa [proposed, proposePlacement, setLastAction, modifyPlayer] using hidx
  · let f : Player → Player := fun p => { p with hand := (removeTilesFromHand p.hand tiles).1 }
    have hsaved : (g.proposed env tiles formed).savedHand idx
        ((g.proposed env tiles formed).playerAt idx) =
        if idx = g.currentPlayerIdx then
          ((g.modifyPlayer g.currentPlayerIdx f).playerAt idx).hand ++ tiles.map Placed.handTile
        else ((g.modifyPlayer g.currentPlayerIdx f).playerAt idx).hand := rfl
    have hfree : g.savedHand idx (g.playerAt idx) = (g.playerAt idx).hand := by
      simp [savedHand, hp.free]
    rw [hsaved, hfree]
    split
    · rename_i heq
      rw [heq, playerAt_modifyPlayer_self g hp.seat, List.length_append, List.length_map]
      exact hcount.symm.trans (Nat.add_comm _ _)
    · rename_i hne
      have hsame : (g.modifyPlayer g.currentPlayerIdx f).playerAt idx = g.playerAt idx :=
        Lists.getD_modify_of_ne (Ne.symm hne) _
      rw [hsame]

/-- The players who stay keep their tiles. -/
theorem supplied_removeSeat (h : Supplied g) {idx : ℕ} (hidx : idx < g.players.length) :
    Supplied (g.removeSeat idx) := by
  have hplayers := removeSeat_players g idx
  have hstarted : (g.removeSeat idx).started = g.started := by
    simp only [removeSeat]
    split <;> rfl
  have hfinished : (g.removeSeat idx).finished = g.finished := by
    simp only [removeSeat]
    split <;> rfl
  have hbag : (g.removeSeat idx).bag = g.bag := by
    simp only [removeSeat]
    split <;> rfl
  refine h.keep hstarted (fun hrun => hfinished ▸ hrun) ?_ (by rw [hbag]) fun _ n hn => ?_
  · rw [hplayers, List.length_eraseIdx_of_lt hidx]
    omega
  obtain ⟨j, hj, rfl⟩ := mem_handLengths.mp hn
  rw [hplayers, List.length_eraseIdx_of_lt hidx] at hj
  -- the seat that the player had before
  let old := if j < idx then j else j + 1
  have hold : old < g.players.length ∧ old ≠ idx := by
    simp only [old]
    split <;> omega
  have hat : (g.removeSeat idx).playerAt j = g.playerAt old := playerAt_removeSeat g idx j
  refine mem_handLengths.mpr ⟨old, hold.1, ?_⟩
  rw [hat]
  have hnonempty : (g.players.eraseIdx idx).isEmpty = false := by
    rw [List.isEmpty_eq_false_iff, ← List.length_pos_iff, List.length_eraseIdx_of_lt hidx]
    omega
  have hpending : (g.removeSeat idx).pendingChallenge =
      (g.pendingChallenge.filter fun pc => pc.playerIdx ≠ idx).map fun pc =>
        if idx < pc.playerIdx then { pc with playerIdx := pc.playerIdx - 1 } else pc := by
    simp only [removeSeat, hnonempty, Bool.false_eq_true, if_false]
  unfold savedHand
  rw [hpending]
  cases hpc : g.pendingChallenge with
  | none => rfl
  | some pc =>
    by_cases hgone : pc.playerIdx = idx
    · simp [Option.filter, hgone, hold.2]
    · have hseat : j = (if idx < pc.playerIdx then { pc with playerIdx := pc.playerIdx - 1 }
          else pc).playerIdx ↔ old = pc.playerIdx := by
        simp only [old]
        by_cases hlt : idx < pc.playerIdx
        · rw [if_pos hlt]
          change j = pc.playerIdx - 1 ↔ _
          split <;> omega
        · rw [if_neg hlt]
          split <;> omega
      have hheld : (if idx < pc.playerIdx then { pc with playerIdx := pc.playerIdx - 1 }
          else pc).removedFromHand = pc.removedFromHand := by
        split <;> rfl
      simp only [Option.filter, hgone, ne_eq, not_false_eq_true, decide_true, if_true,
        Option.map_some, hseat, hheld]

/-- The hands do not change. -/
theorem handLengths_congr (hhands : g'.unwindPending.players.map Player.hand =
    g.unwindPending.players.map Player.hand) : g'.handLengths = g.handLengths := by
  have := congrArg (List.map List.length) hhands
  rw [handLengths_eq, handLengths_eq]
  simpa only [List.map_map, Function.comp_def] using this

theorem mem_handLengths_of_modify {idx n : ℕ} {f : Player → Player}
    (hplayers : g'.players = g.players.modify idx f) (hhand : ∀ p, (f p).hand = p.hand)
    (hsaved : ∀ j p, g'.savedHand j p = g.savedHand j p) (hn : n ∈ g'.handLengths) :
    n ∈ g.handLengths := by
  obtain ⟨j, hj, rfl⟩ := mem_handLengths.mp hn
  rw [hplayers, List.length_modify] at hj
  refine mem_handLengths.mpr ⟨j, hj, ?_⟩
  have hsame : (g'.playerAt j).hand = (g.playerAt j).hand := by
    refine playerAt_congr (h := Player.hand) ?_ j
    rw [hplayers]
    exact Lists.map_modify_eq hhand _ _
  rw [hsaved, savedHand, savedHand, hsame]

theorem unwindPending_of_free (h : g.pendingChallenge = none) : g.unwindPending = g := by
  rw [unwindPending, h]

theorem supplied_join (h : Supplied g) (hw : g.started = false) (hroom : g.players.length < 4)
    (seq : ℕ) (p : Player) : Supplied { g with botSeq := seq, players := g.players ++ [p] } := by
  refine ⟨fun _ => ⟨?_, (h.waiting hw).2⟩, fun hs => absurd (hs.symm.trans hw) (by simp)⟩
  rw [List.length_append, List.length_singleton]
  omega

theorem supplied_returnTiles (h : Supplied g) {pc : Challenge} (hpc : g.pendingChallenge = some pc) :
    Supplied (g.returnTiles pc) := by
  have hunwind := h.unwind
  rwa [unwindPending, hpc] at hunwind

theorem supplied_notePass (h : Supplied g) (hfree : g.pendingChallenge = none) (timeout : Bool) :
    Supplied (g.notePass timeout).bumped := by
  have hfree' : (g.notePass timeout).bumped.pendingChallenge = none :=
    (notePass_pendingChallenge timeout).trans hfree
  refine h.keep (by cases timeout <;> rfl) (by cases timeout <;> exact fun hrun => hrun) ?_
    (by cases timeout <;> rfl) fun _ n hn => ?_
  · exact le_of_eq
      (by cases timeout <;> simp [bumped, notePass, recordMove, setLastAction, modifyPlayer])
  · rw [handLengths_of_free hfree'] at hn
    rw [handLengths_of_free hfree]
    have hplayers : (g.notePass timeout).bumped.players = (g.notePass timeout).players := rfl
    rwa [hplayers, notePass_players, Lists.map_modify_eq (f := passed timeout) fun _ => rfl] at hn

theorem Supplied.effect {op : Op} (h : Supplied g) (hg : Coherent g) (hquiet : Quiet g)
    (he : Effect env g op g') : Supplied g' := by
  cases he with
  | refused => exact h
  | joined playerId name waiting room fresh => exact supplied_join h waiting room g.botSeq _
  | botJoined name difficulty seq waiting room => exact supplied_join h waiting room seq _
  | dealt op waiting => exact supplied_dealt h hg waiting rfl rfl rfl
  | dealtAt starter waiting seat async => exact supplied_dealt h hg waiting rfl rfl rfl
  | placed playerId tiles formed may novote => exact supplied_placed h hg may
  | proposed playerId tiles formed may vote => exact supplied_proposed h may
  | voted op pc pending voter playerId vote =>
    refine h.keep rfl (fun hrun => hrun) le_rfl rfl fun _ n hn => ?_
    obtain ⟨idx, hidx, rfl⟩ := mem_handLengths.mp hn
    refine mem_handLengths.mpr ⟨idx, hidx, ?_⟩
    rw [savedHand, pending]
    rfl
  | accepted op pc pending => exact supplied_accepted h hg (hquiet.unfinished pending) pending
  | rejected op pc pending =>
    have hr : Supplied (g.turnDown pc).bumped :=
      (supplied_returnTiles h pending).keep rfl (fun hrun => hrun) le_rfl rfl fun _ n hn => by
        rw [handLengths_of_free rfl] at hn ⊢
        exact hn
    exact hr.settles (finalizeReject_settles env g pending) rfl
  | withdrawn playerId pc pending =>
    exact (supplied_returnTiles h pending).keep rfl (fun hrun => hrun) le_rfl rfl fun _ n hn => by
      rw [handLengths_of_free rfl] at hn ⊢
      exact hn
  | exchanged playerId tileIndices may tiles =>
    have hswapped : Supplied (g.swapTiles env tileIndices) := supplied_swapTiles h may.free tiles
    have hbumped : Supplied (g.swapTiles env tileIndices).bumped :=
      hswapped.keep rfl (fun hrun => hrun) le_rfl rfl fun _ n hn => hn
    exact hbumped.settles (scorelessNextTurn_settles env _) may.free
  | passed playerId timeout may =>
    exact (supplied_notePass h may.free timeout).settles (scorelessNextTurn_settles env _)
      ((notePass_pendingChallenge timeout).trans may.free)
  | expired may =>
    obtain ⟨_, may⟩ := may
    exact (supplied_notePass h may.free true).settles (scorelessNextTurn_settles env _) may.free
  | expelled idx may async started =>
    rw [resignSeat_rest]
    exact .over ((nextTurn_started env _).trans started) rfl
  | resigned playerId idx started unfinished seat =>
    rw [resignSeat_rest]
    exact .over started rfl
  | ended started =>
    refine .over ?_ (endGame_finished _ _)
    rw [endGame_started, unwindPending]
    split <;> exact started
  | hinted => exact h.keep rfl (fun hrun => hrun) le_rfl rfl fun _ n hn => hn
  | disconnected playerId idx seat =>
    refine h.keep rfl (fun hrun => hrun) (by simp [modifyPlayer]) rfl fun _ n hn => ?_
    have hplayers : (g.modifyPlayer idx fun p => { p with disconnected := true }).players =
        g.players.modify idx fun p => { p with disconnected := true } := rfl
    exact mem_handLengths_of_modify hplayers (fun _ => rfl) (fun _ _ => rfl) hn
  | reconnected oldId newId idx seat =>
    refine h.keep rfl (fun hrun => hrun) (by simp [reconnectSeat, modifyPlayer]) rfl fun _ n hn =>
      mem_handLengths_of_modify (f := Player.reconnect newId) rfl (fun _ => rfl) (fun j p => ?_) hn
    have hpending : (g.reconnectSeat idx oldId newId).pendingChallenge =
        g.pendingChallenge.map fun pc => pc.updatePlayerSid oldId newId := rfl
    unfold savedHand
    rw [hpending]
    cases g.pendingChallenge with
    | none => rfl
    | some pc =>
      obtain ⟨votes, hvotes⟩ := updatePlayerSid_eq pc oldId newId
      simp only [Option.map_some, hvotes]
  | removed playerId idx seat => exact supplied_removeSeat h (seatOf_eq_some g seat).1
  | skipped started unfinished free => exact h.settles .next free
  | restored =>
    have hlengths : (g.restored env).players.length = g.players.length := by
      simp [restored, restoredPlayers]
    refine h.keep rfl (fun hrun => hrun) hlengths.le rfl fun _ n hn => ?_
    have hhands := restored_hands env g
    rwa [handLengths_congr (g := g) (by rw [unwindPending_of_free rfl]; exact hhands)] at hn

theorem supplied_of_initial (h : Initial g) : Supplied g := by
  obtain ⟨env, gameId, challengeMode, turnTimeLimit, hintLimit, rfl⟩ | ⟨env, gameId, turnHours, rfl⟩ :=
    h
  all_goals
    refine ⟨fun _ => ⟨Nat.zero_le _, ?_⟩, fun hs => by cases hs⟩
    change 28 ≤ (env.shuffle.apply TileBag.allTiles).length
    rw [(env.shuffle.perm _).length_eq]
    decide +kernel

/-- **The hands are supplied**: in every game that can be reached, once it has started and until it
is over, every player has tiles, with those that wait for a vote, and seven of them while the bag is
not empty. -/
theorem hands_supplied (h : Reachable g) (hstarted : g.started = true) (hrun : g.finished = false)
    (idx : ℕ) (hidx : idx < g.players.length) :
    g.savedHand idx (g.playerAt idx) ≠ [] ∧
      (g.bag.isEmpty = false → (g.savedHand idx (g.playerAt idx)).length = handSize) := by
  have hinv : Supplied g ∧ Quiet g ∧ Coherent g ∧ PendingSound g :=
    Runs.Reaches.invariant step (P := fun g => Supplied g ∧ Quiet g ∧ Coherent g ∧ PendingSound g)
      (fun s hs => ⟨supplied_of_initial hs, .of_free (coherent_of_initial hs |>.waiting (by
        obtain ⟨_, _, _, _, _, rfl⟩ | ⟨_, _, _, rfl⟩ := hs <;> rfl)).1, coherent_of_initial hs,
        pendingSound_of_initial hs⟩)
      (fun s i ⟨hsup, hquiet, hg, hsound⟩ _ =>
        have he := step_effect i.1 s i.2
        ⟨hsup.effect hg hquiet he, hquiet.effect he, hg.effect hsound he, hsound.step i⟩) h
  obtain ⟨hpos, hfull⟩ := hinv.1.hands hstarted hrun _ (mem_handLengths.mpr ⟨idx, hidx, rfl⟩)
  refine ⟨List.length_pos_iff.mp hpos, fun hbag => hfull ?_⟩
  rw [TileBag.isEmpty, List.isEmpty_eq_false_iff] at hbag
  exact List.length_pos_iff.mpr hbag

/-- The hands of a duel after its first placement. -/
theorem hands_supplied_duel :
    let g := Runs.run step (duel false) [(stillEnv, .placeTiles "a" duelOpening)]
    g.savedHand 0 (g.playerAt 0) ≠ [] ∧
      (g.bag.isEmpty = false → (g.savedHand 0 (g.playerAt 0)).length = handSize) :=
  hands_supplied ((reachable_duel false).run step (Runs.along_of_forall step (fun _ _ _ => trivial) _))
    (by decide +kernel) (by decide +kernel) 0 (by decide +kernel)

end Game

end ScrabbleMagyar
