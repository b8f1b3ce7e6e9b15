import ScrabbleMagyar.Engine.Coherence
import ScrabbleMagyar.Engine.Placement
import Mathlib.Algebra.BigOperators.Group.Finset.Piecewise
import Mathlib.Data.Fintype.Prod
import Mathlib.Algebra.Order.BigOperators.Group.List
import Mathlib.Algebra.Order.Group.Multiset
import Mathlib.Data.Multiset.OrderedMonoid
import Mathlib.Tactic.Abel

/-!
# The tiles of a game

The tiles in play are those on the board, a blank counted as the blank tile, in the bag, in
the hands, and held back by a pending placement.

* `Game.step_tilesInPlay`: an operation of a started game moves them but neither loses nor
  doubles one, unless it removes a player or is a resignation during a pending placement.
* `Game.tilesInPlay_resign_pending`: that resignation loses the tiles held back.
-/

namespace ScrabbleMagyar

/-- The tile a square counts as. -/
def Cell.tile (x : Cell) : Tile := if x.isBlank then Tile.blank else x.letter

@[simp] theorem Placed.cell_tile (p : Placed) : p.cell.tile = p.handTile := rfl

def cellTiles : Option Cell → Multiset Tile
  | none => 0
  | some x => {x.tile}

namespace Board

/-- The tiles on the board. -/
def tiles (b : Board) : Multiset Tile := ∑ s : Fin 15 × Fin 15, cellTiles (b.cells s.1 s.2)

theorem tiles_setCell {b : Board} {r c : ℕ} (hr : r < 15) (hc : c < 15) (hfree : b.cell r c = none)
    (x : Cell) : (b.setCell r c x).tiles = b.tiles + {x.tile} := by
  let s₀ : Fin 15 × Fin 15 := (⟨r, hr⟩, ⟨c, hc⟩)
  let f : Fin 15 × Fin 15 → Multiset Tile := fun s => cellTiles (b.cells s.1 s.2)
  have hupdate : (fun s : Fin 15 × Fin 15 => cellTiles ((b.setCell r c x).cells s.1 s.2)) =
      Function.update f s₀ {x.tile} := by
    funext s
    by_cases hs : s = s₀
    · subst hs
      simp [setCell, s₀, cellTiles]
    · rw [Function.update_of_ne hs]
      have hne : ¬(s.1.val = r ∧ s.2.val = c) := fun h =>
        hs (Prod.ext (Fin.ext h.1) (Fin.ext h.2))
      simp [setCell, hne, f]
  have hzero : f s₀ = 0 := by
    have : b.cells ⟨r, hr⟩ ⟨c, hc⟩ = none := by simpa [cell, hr, hc] using hfree
    simp [f, s₀, this, cellTiles]
  have hsum := Finset.add_sum_erase Finset.univ f (Finset.mem_univ s₀)
  simp only [tiles, hupdate]
  rw [Finset.sum_update_of_mem (Finset.mem_univ s₀), ← Finset.erase_eq, add_comm]
  congr 1
  rw [hzero, zero_add] at hsum
  exact hsum

theorem Fits.tail {b : Board} {p : Placed} {rest : List Placed} (h : b.Fits (p :: rest)) :
    (b.setCell p.square.1 p.square.2 p.cell).Fits rest := by
  obtain ⟨hnew, hdistinct⟩ := List.nodup_cons.mp (by simpa only [List.map_cons] using h.distinct)
  refine ⟨fun q hq => h.on q (by simp [hq]), fun q hq => ?_, hdistinct⟩
  rw [cell_setCell, if_neg]
  · exact h.free q (by simp [hq])
  · rintro ⟨h₁, h₂, -⟩
    exact hnew (List.mem_map.mpr ⟨q, hq, Prod.ext h₁ h₂⟩)

/-- Laying tiles adds exactly them. -/
theorem tiles_place {b : Board} {placed : List Placed} (h : b.Fits placed) :
    (b.place placed).tiles = b.tiles + (placed.map Placed.handTile : Multiset Tile) := by
  induction placed generalizing b with
  | nil => simp [place]
  | cons p rest ih =>
    obtain ⟨hr, hc⟩ := Placed.square_lt (h.on p (by simp))
    rw [place_cons, ih h.tail, tiles_setCell hr hc (h.free p (by simp)), Placed.cell_tile,
      List.map_cons, ← Multiset.cons_coe, ← Multiset.singleton_add, add_assoc]

theorem tiles_applyPlacement {b : Board} {placed : List Placed} (h : b.Fits placed) :
    (b.applyPlacement placed).tiles = b.tiles + (placed.map Placed.handTile : Multiset Tile) :=
  tiles_place h

end Board

namespace Game

/-! ## Where the tiles are -/

/-- The tiles in the hands. -/
def handTiles (g : Game) : Multiset Tile :=
  (g.players.map fun p => (p.hand : Multiset Tile)).sum

/-- The tiles a pending placement holds back. -/
def heldBack (g : Game) : Multiset Tile :=
  match g.pendingChallenge with
  | some pc => pc.removedFromHand
  | none => 0

/-- **The tiles in play.** -/
def tilesInPlay (g : Game) : Multiset Tile :=
  g.board.tiles + g.bag.tiles + g.handTiles + g.heldBack

theorem heldBack_of_none {g : Game} (h : g.pendingChallenge = none) : g.heldBack = 0 := by
  simp [heldBack, h]

theorem heldBack_of_some {g : Game} {pc : Challenge} (h : g.pendingChallenge = some pc) :
    g.heldBack = pc.removedFromHand := by
  simp [heldBack, h]

theorem handTiles_congr {g g' : Game}
    (h : g'.players.map Player.hand = g.players.map Player.hand) : g'.handTiles = g.handTiles := by
  have := congrArg (fun l => (l.map fun hand : List Tile => (hand : Multiset Tile)).sum) h
  simpa [handTiles, Function.comp_def] using this

/-- The hands when one of them has changed. -/
theorem handTiles_modify {g g' : Game} {idx : ℕ} {f : Player → Player}
    (h : g'.players = g.players.modify idx f) (hidx : idx < g.players.length) :
    g'.handTiles + ((g.playerAt idx).hand : Multiset Tile) =
      g.handTiles + ((f (g.playerAt idx)).hand : Multiset Tile) := by
  rw [handTiles, handTiles, h]
  exact Lists.sum_map_modify f (fun p => (p.hand : Multiset Tile)) hidx default

/-- What is drawn leaves the bag. -/
theorem bag_draw (bag : TileBag) (count : ℕ) :
    ((bag.draw count).1.tiles : Multiset Tile) + (bag.draw count).2 = bag.tiles := by
  rw [Multiset.coe_add, TileBag.draw_append]

/-- The deal moves tiles from the bag to empty hands. -/
theorem deal_tiles (bag : TileBag) {players : List Player} (h : ∀ p ∈ players, p.hand = []) :
    ((deal bag players).1.tiles : Multiset Tile) +
      ((deal bag players).2.map fun p => (p.hand : Multiset Tile)).sum = bag.tiles := by
  induction players generalizing bag with
  | nil => simp [deal]
  | cons p players ih =>
    have hrest := ih (bag.draw handSize).1 fun q hq => h q (List.mem_cons_of_mem p hq)
    rw [← bag_draw bag handSize, ← hrest]
    simp only [deal, List.map_cons, List.sum_cons]
    abel

/-- The tiles of the board and of one hand are in play. -/
theorem hand_le_tilesInPlay {g : Game} {p : Player} (hp : p ∈ g.players) :
    g.board.tiles + (p.hand : Multiset Tile) ≤ g.tilesInPlay := by
  have hhand : (p.hand : Multiset Tile) ≤ g.handTiles :=
    List.le_sum_of_mem (List.mem_map_of_mem hp)
  calc g.board.tiles + (p.hand : Multiset Tile)
      ≤ g.board.tiles + g.handTiles := add_le_add_right hhand _
    _ ≤ g.board.tiles + g.handTiles + (g.bag.tiles + g.heldBack) := le_self_add
    _ = g.tilesInPlay := by
        rw [tilesInPlay]
        abel

/-! ## The changes one by one -/

variable {env : Env} {g : Game}

/-- Closing a turn moves no tile. -/
theorem Settles.tilesInPlay {g' : Game} (h : Settles env g g') (hp : g.pendingChallenge = none) :
    g'.tilesInPlay = g.tilesInPlay := by
  obtain ⟨hboard, hbag, -⟩ := h.keeps
  rw [Game.tilesInPlay, Game.tilesInPlay, hboard, hbag, heldBack_of_none hp,
    heldBack_of_none (h.pendingChallenge hp),
    handTiles_congr (h.map_eq (fun _ _ => rfl) fun _ _ => rfl)]

/-- When one hand has changed, it is enough that the board, the bag, this hand and what is held
back balance. -/
theorem tilesInPlay_of_modify {g' : Game} {idx : ℕ} {f : Player → Player}
    (hplayers : g'.players = g.players.modify idx f) (hidx : idx < g.players.length)
    (hbalance : g'.board.tiles + g'.bag.tiles + ((f (g.playerAt idx)).hand : Multiset Tile) +
        g'.heldBack =
      g.board.tiles + g.bag.tiles + ((g.playerAt idx).hand : Multiset Tile) + g.heldBack) :
    g'.tilesInPlay = g.tilesInPlay := by
  have hhands := handTiles_modify hplayers hidx
  refine add_right_cancel (b := ((g.playerAt idx).hand : Multiset Tile)) ?_
  calc g'.tilesInPlay + (g.playerAt idx).hand
      = g'.board.tiles + g'.bag.tiles + (g'.handTiles + (g.playerAt idx).hand) + g'.heldBack := by
        rw [Game.tilesInPlay]
        abel
    _ = (g'.board.tiles + g'.bag.tiles + (f (g.playerAt idx)).hand + g'.heldBack) +
          g.handTiles := by
        rw [hhands]
        abel
    _ = g.tilesInPlay + (g.playerAt idx).hand := by
        rw [hbalance, Game.tilesInPlay]
        abel

theorem tilesInPlay_layTiles {lex : Lexicon} {playerId : String} {tiles : List Placed}
    {formed : List FormedWord} (h : Placeable lex g playerId tiles formed) (score : ℤ)
    (words : List Word) :
    (g.layTiles tiles score words formed).tilesInPlay = g.tilesInPlay := by
  have hfits := ((Board.validatePlacement_ok_iff _ _ _ _ _).mp h.valid).fits
  have hhand := Multiset.coe_eq_coe.mpr (removeTilesFromHand_perm h.inHand)
  have hdraw := bag_draw g.bag
    (handSize - (removeTilesFromHand (g.playerAt g.currentPlayerIdx).hand tiles).1.length)
  refine tilesInPlay_of_modify (layTiles_players g tiles score words formed) h.seat ?_
  rw [show (g.layTiles tiles score words formed).board = g.board.applyPlacement tiles from rfl,
    Board.tiles_applyPlacement hfits, layTiles_bag g h.seat, heldBack_of_none h.free,
    heldBack_of_none (show (g.layTiles tiles score words formed).pendingChallenge = none from h.free),
    ← hdraw, ← hhand, ← Multiset.coe_add]
  simp only [laid, refill, ← Multiset.coe_add]
  rw [show (removeTilesFromHand (g.playerAt g.currentPlayerIdx).hand tiles).2 =
    tiles.map Placed.handTile from rfl]
  abel

theorem tilesInPlay_proposed {playerId : String} {tiles : List Placed}
    {formed : List FormedWord} (h : Placeable env.lexicon g playerId tiles formed) :
    (g.proposed env tiles formed).tilesInPlay = g.tilesInPlay := by
  have hhand := Multiset.coe_eq_coe.mpr (removeTilesFromHand_perm h.inHand)
  let f : Player → Player := fun p => { p with hand := (removeTilesFromHand p.hand tiles).1 }
  have hplayers : (g.proposed env tiles formed).players = g.players.modify g.currentPlayerIdx f :=
    rfl
  refine tilesInPlay_of_modify hplayers h.seat ?_
  rw [heldBack_of_none h.free, ← hhand, ← Multiset.coe_add]
  change g.board.tiles + g.bag.tiles +
    ((removeTilesFromHand (g.playerAt g.currentPlayerIdx).hand tiles).1 : Multiset Tile) +
    ((removeTilesFromHand (g.playerAt g.currentPlayerIdx).hand tiles).2 : Multiset Tile) = _
  abel

theorem tilesInPlay_layPending {pc : Challenge} (hpc : g.pendingChallenge = some pc)
    (h : SoundPending g pc) : (g.layPending pc).tilesInPlay = g.tilesInPlay := by
  obtain ⟨lex, hvalid⟩ := h.valid
  have hfits := ((Board.validatePlacement_ok_iff _ _ _ _ _).mp hvalid).fits
  have hdraw := bag_draw g.bag (handSize - (g.playerAt pc.playerIdx).hand.length)
  refine tilesInPlay_of_modify (layPending_players g pc) h.seat ?_
  rw [show (g.layPending pc).board = g.board.applyPlacement pc.tilesPlaced from rfl,
    Board.tiles_applyPlacement hfits, layPending_bag, heldBack_of_some hpc, h.held,
    heldBack_of_none (show (g.layPending pc).pendingChallenge = none from rfl), ← hdraw]
  simp only [accepted, refill, ← Multiset.coe_add]
  abel

theorem tilesInPlay_returnTiles {pc : Challenge} (hpc : g.pendingChallenge = some pc)
    (h : SoundPending g pc) : (g.returnTiles pc).tilesInPlay = g.tilesInPlay := by
  let f : Player → Player := fun p => { p with hand := p.hand ++ pc.removedFromHand }
  refine tilesInPlay_of_modify (f := f) rfl h.seat ?_
  rw [heldBack_of_some hpc,
    heldBack_of_none (show (g.returnTiles pc).pendingChallenge = none from rfl)]
  simp only [f, ← Multiset.coe_add, returnTiles, modifyPlayer]
  abel

theorem tilesInPlay_swapTiles {tileIndices : List ℤ} (hfree : g.pendingChallenge = none)
    (hseat : g.currentPlayerIdx < g.players.length) (h : Exchangeable g tileIndices) :
    (g.swapTiles env tileIndices).tilesInPlay = g.tilesInPlay := by
  let indices := (tileIndices.map Int.toNat).insertionSort (· ≥ ·)
  let rack := (g.playerAt g.currentPlayerIdx).hand
  let given := indices.map fun i => rack.getD i Tile.blank
  have hhand : (given : Multiset Tile) + (indices.foldl List.eraseIdx rack : List Tile) = rack :=
    Multiset.coe_eq_coe.mpr h.hand_perm
  have hdraw := bag_draw g.bag indices.length
  have hbag : ((g.swapTiles env tileIndices).bag.tiles : Multiset Tile) =
      (g.bag.draw indices.length).1.tiles + given := by
    rw [swapTiles_bag, Multiset.coe_add]
    exact Multiset.coe_eq_coe.mpr (TileBag.putBack_perm _ _ _)
  refine tilesInPlay_of_modify (swapTiles_players env g tileIndices) hseat ?_
  rw [hbag, heldBack_of_none hfree,
    heldBack_of_none (show (g.swapTiles env tileIndices).pendingChallenge = none from hfree),
    ← hdraw, show (g.playerAt g.currentPlayerIdx).hand = rack from rfl, ← hhand,
    show (g.swapTiles env tileIndices).board = g.board from rfl]
  change g.board.tiles + ((g.bag.draw indices.length).1.tiles + (given : Multiset Tile)) +
    ((indices.foldl List.eraseIdx rack ++ (g.bag.draw indices.length).2 : List Tile) :
      Multiset Tile) + 0 = _
  rw [← Multiset.coe_add]
  abel

/-- A change that leaves the board, the bag, the hands and what is held back alone. -/
theorem tilesInPlay_congr {g' : Game} (hboard : g'.board = g.board) (hbag : g'.bag = g.bag)
    (hhands : g'.players.map Player.hand = g.players.map Player.hand)
    (hheld : g'.heldBack = g.heldBack) : g'.tilesInPlay = g.tilesInPlay := by
  rw [tilesInPlay, tilesInPlay, hboard, hbag, handTiles_congr hhands, hheld]

theorem tilesInPlay_notePass (hfree : g.pendingChallenge = none) (timeout : Bool) :
    (g.notePass timeout).tilesInPlay = g.tilesInPlay := by
  have hnone : (g.notePass timeout).pendingChallenge = none := by cases timeout <;> exact hfree
  refine tilesInPlay_congr (by cases timeout <;> rfl) (by cases timeout <;> rfl) ?_
    (by rw [heldBack_of_none hnone, heldBack_of_none hfree])
  rw [notePass_players]
  exact Lists.map_modify_eq (f := passed timeout) (fun _ => rfl) _ _

theorem tilesInPlay_bumped : g.bumped.tilesInPlay = g.tilesInPlay := rfl

theorem tilesInPlay_scorelessNextTurn (hp : g.pendingChallenge = none) :
    (g.scorelessNextTurn env).tilesInPlay = g.tilesInPlay := by
  rw [(scorelessNextTurn_settles env g).tilesInPlay hp, tilesInPlay_bumped]

/-- The tiles of a game and the tiles its resignation loses. -/
theorem tilesInPlay_resignSeat (idx : ℕ) :
    (g.resignSeat idx).tilesInPlay + g.heldBack = g.tilesInPlay := by
  have hhands : (g.resignSeat idx).players.map Player.hand = g.players.map Player.hand := by
    rw [resignSeat_rest]
    exact (settle_map (fun _ _ => rfl) _ none).trans
      (Lists.map_modify_eq (f := fun p : Player => { p with resigned := true }) (fun _ => rfl)
        g.players idx)
  have hnone : (g.resignSeat idx).pendingChallenge = none := by rw [resignSeat_rest]
  rw [tilesInPlay, tilesInPlay, handTiles_congr hhands, heldBack_of_none hnone, add_zero,
    show (g.resignSeat idx).board = g.board by rw [resignSeat_rest],
    show (g.resignSeat idx).bag = g.bag by rw [resignSeat_rest]]

/-- A game read back from its save has all its tiles. -/
theorem tilesInPlay_restored (h : PendingSound g) :
    (g.restored env).tilesInPlay = g.tilesInPlay := by
  have hhands := restored_hands env g
  cases hpc : g.pendingChallenge with
  | none =>
    simp only [unwindPending, hpc] at hhands
    exact tilesInPlay_congr rfl rfl hhands (by rw [heldBack_of_none hpc, heldBack_of_none rfl])
  | some pc =>
    simp only [unwindPending, hpc] at hhands
    rw [← tilesInPlay_returnTiles hpc (h pc hpc)]
    exact tilesInPlay_congr rfl rfl hhands (by rw [heldBack_of_none rfl, heldBack_of_none rfl])

/-! ## Runs -/

/-- A resignation that takes effect while a placement is pending. -/
def ResignsPending (g : Game) (op : Op) : Prop :=
  ∃ playerId, op = .resign playerId ∧ g.started = true ∧ g.finished = false ∧
    (g.seatOf playerId).isSome = true ∧ g.pendingChallenge.isSome = true

theorem Effect.tilesInPlay {g' : Game} {op : Op} (h : Effect env g op g')
    (hsound : PendingSound g) (hstarted : g.started = true)
    (hremove : ∀ playerId, op ≠ .removePlayer playerId) (hresign : ¬ResignsPending g op) :
    g'.tilesInPlay = g.tilesInPlay := by
  cases h with
  | refused => rfl
  | joined playerId name waiting => simp [waiting] at hstarted
  | botJoined name difficulty seq waiting => simp [waiting] at hstarted
  | dealt op waiting => simp [waiting] at hstarted
  | dealtAt starter waiting => simp [waiting] at hstarted
  | placed playerId tiles formed may novote =>
    exact ((finalizePlacement_settles env g _ _ _ _).tilesInPlay may.free).trans
      (tilesInPlay_layTiles may _ _)
  | proposed playerId tiles formed may vote => exact tilesInPlay_proposed may
  | voted op pc pending voter playerId vote =>
    refine tilesInPlay_congr rfl rfl rfl ?_
    rw [heldBack_of_some pending]
    rfl
  | accepted op pc pending =>
    exact ((closeTurn_settles env _ _).tilesInPlay rfl).trans
      (tilesInPlay_layPending pending (hsound pc pending))
  | rejected op pc pending =>
    refine ((finalizeReject_settles env g pending).tilesInPlay rfl).trans ?_
    rw [tilesInPlay_bumped, ← tilesInPlay_returnTiles pending (hsound pc pending)]
    exact tilesInPlay_congr rfl rfl rfl rfl
  | withdrawn playerId pc pending =>
    rw [← tilesInPlay_returnTiles pending (hsound pc pending)]
    exact tilesInPlay_congr rfl rfl rfl rfl
  | exchanged playerId tileIndices may tiles =>
    have hfree : (g.swapTiles env tileIndices).pendingChallenge = none := may.free
    rw [tilesInPlay_scorelessNextTurn hfree, tilesInPlay_swapTiles may.free may.seat tiles]
  | passed playerId timeout may =>
    have hfree : (g.notePass timeout).pendingChallenge = none := by cases timeout <;> exact may.free
    rw [tilesInPlay_scorelessNextTurn hfree, tilesInPlay_notePass may.free]
  | expired may =>
    obtain ⟨_, may⟩ := may
    have hfree : (g.notePass true).pendingChallenge = none := may.free
    rw [tilesInPlay_scorelessNextTurn hfree, tilesInPlay_notePass may.free]
  | expelled idx may =>
    obtain ⟨_, may⟩ := may
    have hnext : Settles env (g.notePass true).bumped ((g.notePass true).bumped.nextTurn env) := .next
    have hresigned := tilesInPlay_resignSeat (g := (g.notePass true).bumped.nextTurn env) idx
    rw [heldBack_of_none (hnext.pendingChallenge may.free), add_zero] at hresigned
    rw [hresigned, hnext.tilesInPlay may.free, tilesInPlay_bumped, tilesInPlay_notePass may.free]
  | resigned playerId idx started unfinished seat =>
    have hnone : g.pendingChallenge = none := by
      by_contra hne
      exact hresign ⟨playerId, rfl, started, unfinished, by simp [seat],
        Option.isSome_iff_ne_none.mpr hne⟩
    have hresigned := tilesInPlay_resignSeat (g := g) idx
    rwa [heldBack_of_none hnone, add_zero] at hresigned
  | ended =>
    cases hpc : g.pendingChallenge with
    | none =>
      simpa only [unwindPending, hpc] using
        (show Settles env _ _ from .gameOver none).tilesInPlay hpc
    | some pc =>
      simp only [unwindPending, hpc]
      exact ((show Settles env _ _ from .gameOver none).tilesInPlay rfl).trans
        (tilesInPlay_returnTiles hpc (hsound pc hpc))
  | hinted => rfl
  | disconnected playerId idx seat =>
    exact tilesInPlay_congr rfl rfl (Lists.map_modify_eq
      (f := fun p : Player => { p with disconnected := true }) (fun _ => rfl) g.players idx) rfl
  | reconnected oldId newId idx seat =>
    refine tilesInPlay_congr rfl rfl
      (Lists.map_modify_eq (f := Player.reconnect newId) (fun _ => rfl) g.players idx) ?_
    cases hpc : g.pendingChallenge with
    | none => simp [heldBack, reconnectSeat, modifyPlayer, hpc]
    | some pc =>
      obtain ⟨votes, hvotes⟩ := updatePlayerSid_eq pc oldId newId
      simp [heldBack, reconnectSeat, modifyPlayer, hpc, hvotes]
  | removed playerId => exact absurd rfl (hremove playerId)
  | skipped started unfinished free => exact Settles.next.tilesInPlay free
  | restored => exact tilesInPlay_restored hsound

/-- **Tiles are conserved** along every run of a started game in which no player is removed and
nobody resigns while a placement is pending. -/
theorem tilesInPlay_run {g : Game} (hstarted : g.started = true)
    (hfree : g.pendingChallenge = none) {l : List Input}
    (hl : Runs.Along step (fun g i =>
      (∀ playerId, i.2 ≠ .removePlayer playerId) ∧ ¬ResignsPending g i.2) g l) :
    (Runs.run step g l).tilesInPlay = g.tilesInPlay := by
  have hrun := Runs.run_invariant step
    (P := fun s => PendingSound s ∧ s.started = true ∧ s.tilesInPlay = g.tilesInPlay)
    (fun s i ⟨hsound, hs, htiles⟩ ⟨hremove, hresign⟩ => by
      have heffect := step_effect i.1 s i.2
      exact ⟨hsound.step i, heffect.started hs,
        (heffect.tilesInPlay hsound hs hremove hresign).trans htiles⟩)
    ⟨PendingSound.of_none hfree, hstarted, rfl⟩ hl
  exact hrun.2.2

/-- The run in which a placement is put to the vote, accepted, and the game ended. -/
theorem tilesInPlay_run_duel :
    (Runs.run step (duel true) [(stillEnv, .placeTiles "a" duelOpening),
      (stillEnv, .acceptPendingByPlayer "b"), (stillEnv, .forceEnd)]).tilesInPlay =
        (duel true).tilesInPlay :=
  tilesInPlay_run (by decide +kernel) (by decide +kernel)
    (Runs.along_of_forall step (by simp [ResignsPending]) _)

/-- A resignation during a pending placement loses the two tiles held back. -/
theorem tilesInPlay_run_resign_pending :
    ¬∀ (g : Game) (l : List Input), g.started = true → g.pendingChallenge = none →
      (∀ i ∈ l, i.2.isPlay = true) → (Runs.run step g l).tilesInPlay = g.tilesInPlay := by
  intro h
  have hlost := h (duel true)
    [(stillEnv, .placeTiles "a" duelOpening), (stillEnv, .resign "a")] (by decide +kernel)
    (by decide +kernel) (by decide)
  have hcount : (Runs.run step (duel true) [(stillEnv, .placeTiles "a" duelOpening),
      (stillEnv, .resign "a")]).tilesInPlay.card = 98 := by decide +kernel
  rw [hlost] at hcount
  exact absurd hcount (by decide +kernel)

end Game

end ScrabbleMagyar
