import ScrabbleMagyar.Engine.Conservation
import ScrabbleMagyar.Robot.Move
import ScrabbleMagyar.Server.Play
import Mathlib.Algebra.BigOperators.Fin
import Mathlib.Data.Char
import Mathlib.Data.Fintype.BigOperators

/-!
# The daily puzzle

How the puzzle of a day is made, stored and played (`robot/daily.rs`). Two robots play a few
turns; the board and the hand of the player to move are the puzzle. What is stored of it is the
board and the hand; the bag is rebuilt from them, and a game is put back to the start of the
puzzle field by field.

The generator of random numbers and the search of the robots are inputs: a `Chance` is what one
attempt at a puzzle takes from them.

* `Robot.opened_whole`: board, hand and bag of a stored puzzle make up the full set of tiles.
-/

namespace ScrabbleMagyar

/-- The level of a robot, if it is not automatic. -/
def Difficulty.asLevel : Difficulty → Option ℕ
  | level n => some n
  | auto => none

/-- The tiles on the board, row by row. -/
def Board.tileList (b : Board) : List Tile :=
  (List.finRange 15).flatMap fun r =>
    (List.finRange 15).filterMap fun c => (b.cells r c).map Cell.tile

theorem Board.coe_tileList (b : Board) : (b.tileList : Multiset Tile) = b.tiles := by
  have hcell (x : Option Cell) :
      (((x.map Cell.tile).toList : List Tile) : Multiset Tile) = cellTiles x := by
    cases x <;> rfl
  have hrow (r : Fin 15) : ((List.finRange 15).filterMap fun c => (b.cells r c).map Cell.tile) =
      (List.finRange 15).flatMap fun c => ((b.cells r c).map Cell.tile).toList :=
    List.filterMap_eq_flatMap_toList _ _
  simp only [tileList, hrow, Lists.coe_flatMap, hcell, tiles, Fintype.sum_prod_type,
    Fin.sum_univ_def]

namespace Robot

open Game

/-! ## Making a puzzle -/

def minBestScore : ℤ := 30

def maxBestScore : ℤ := 250

/-- The robots play at least and at most so many turns. -/
def plies : ℕ × ℕ := (8, 16)

/-- What an attempt at a puzzle takes from outside: the levels of the robots, the order of the
bag and the number of turns, which are drawn at random, what the robots choose and find, and the
environments of the calls. -/
structure Chance where
  levels : ℤ × ℤ
  shuffle : Shuffle
  turns : ℕ
  choose : ℕ → Board → List Tile → ℕ → ℕ → Action
  bestMoves : Board → List Tile → List Move
  env : ℕ → Env
  levels_mem : (5 ≤ levels.1 ∧ levels.1 ≤ 8) ∧ 5 ≤ levels.2 ∧ levels.2 ≤ 8
  turns_mem : plies.1 ≤ turns ∧ turns ≤ plies.2

/-- A puzzle as it is made. -/
structure Generated where
  board : Json
  rack : List Word
  bestScore : ℤ
  best : Json

namespace Chance

variable (chance : Chance)

/-- The game of the two robots, with the bag in the order of the date. -/
def seated : Game :=
  let game := Game.new (chance.env 0) "daily" false 0 defaultHintLimit
  let game := (game.addBot "Bot1" (.int chance.levels.1)).1
  let game := (game.addBot "Bot2" (.int chance.levels.2)).1
  let sorted := game.bag.tiles.insertionSort fun s t => s.asStr ≤ t.asStr
  { game with bag := ⟨chance.shuffle.apply sorted⟩ }

def opening : Game := (chance.seated.start (chance.env 0)).1

/-- A turn of a robot: the placement it chooses, or else a pass. -/
def ply (i : ℕ) (game : Game) (player : Player) : Game :=
  let env := chance.env (i + 1)
  let level := (player.difficulty.bind Difficulty.asLevel).getD 6
  let action := chance.choose i game.board player.hand level game.bag.remaining
  let (game, ok) : Game × Bool := match action with
    | .place tiles _ _ =>
      let (game, result) := game.placeTiles env player.id tiles
      (game, result.isOk)
    | _ => (game, false)
  if ok then game else (game.passTurn env player.id false).1

/-- The next `n` turns, from turn `i` on. -/
def play : ℕ → ℕ → Game → Option Game
  | 0, _, game => some game
  | n + 1, i, game =>
    if game.finished then none
    else match game.currentPlayer with
      | none => none
      | some player => play n (i + 1) (chance.ply i game player)

/-- One attempt at a puzzle. -/
def tryGenerate : Option Generated :=
  match chance.play chance.turns 0 chance.opening with
  | none => none
  | some game =>
    match game.currentPlayer with
    | none => none
    | some player =>
      let rack := player.hand
      if game.finished || decide (rack.length < handSize) || game.board.isEmpty then none
      else match chance.bestMoves game.board rack with
        | [] => none
        | first :: _ =>
          if minBestScore ≤ first.score ∧ first.score ≤ maxBestScore then
            some {
              board := game.board.toJson
              rack := rack.map Tile.asStr
              bestScore := first.score
              best := .obj [("tiles", .arr (first.tiles.map Placed.toJson)),
                ("words", .arr (first.words.map fun w => .str (String.ofList w))),
                ("score", .int first.score)] }
          else none

end Chance

/-! ## Playing a puzzle -/

/-- A stored puzzle. -/
structure DailyPuzzle extends Generated where
  date : String

/-- The tiles left for the bag, in the order of the date. -/
def remainingTiles (shuffleOf : String → Shuffle) (board : Board) (rack : List Tile)
    (date : String) : List Tile :=
  let seen := board.tileList ++ rack
  let counts (t : Tile) : ℤ := t.count - seen.count t
  let tiles := Lists.spread (List.finRange 39) fun t => (counts t).toNat
  (shuffleOf date).apply (tiles.insertionSort fun s t => s.asStr ≤ t.asStr)

variable (shuffleOf : String → Shuffle)

/-- The board, the hand and the bag a stored puzzle begins with. -/
def DailyPuzzle.opened (puzzle : DailyPuzzle) : Server.DailyPuzzle :=
  let board := Board.fromJson puzzle.board
  let hand := puzzle.rack.filterMap Tile.fromStr
  { date := puzzle.date, board, rack := hand
    bag := remainingTiles shuffleOf board hand puzzle.date }

/-- The game put back to the start of the puzzle. -/
def resetGame (game : Game) (puzzle : DailyPuzzle) : Game :=
  Server.resetGame game (puzzle.opened shuffleOf)

/-- The game of one player from the start of the puzzle. -/
def buildGame (env : Env) (roomId sid name : String) (puzzle : DailyPuzzle) : Game :=
  Server.puzzleGame env roomId sid name (puzzle.opened shuffleOf)

/-! ## The full set of tiles -/

/-- A started game with all its tiles in play. -/
structure Whole (g : Game) : Prop where
  sound : PendingSound g
  started : g.started = true
  tiles : g.tilesInPlay = TileBag.allTiles

theorem Whole.effect {env : Env} {g g' : Game} {op : Op} (h : Whole g) (he : Effect env g op g')
    (hremove : ∀ playerId, op ≠ .removePlayer playerId)
    (hresign : ∀ playerId, op ≠ .resign playerId) : Whole g' := by
  have hpending : ¬ResignsPending g op := fun ⟨playerId, hop, _⟩ => hresign playerId hop
  exact ⟨h.sound.effect he, he.started h.started,
    (he.tilesInPlay h.sound h.started hremove hpending).trans h.tiles⟩

theorem Whole.placeTiles {g : Game} (h : Whole g) (env : Env) (playerId : String)
    (tiles : List Placed) : Whole (g.placeTiles env playerId tiles).1 :=
  h.effect (placeTiles_effect env g playerId tiles) (by simp) (by simp)

theorem Whole.passTurn {g : Game} (h : Whole g) (env : Env) (playerId : String) (b : Bool) :
    Whole (g.passTurn env playerId b).1 :=
  h.effect (passTurn_effect env g playerId b) (by simp) (by simp)

theorem whole_opening (chance : Chance) : Whole chance.opening := by
  have hboard : chance.seated.board.tiles = 0 := by
    simp [show chance.seated.board = Board.new from rfl, Board.tiles, Board.new, cellTiles]
  have hbag : (chance.seated.bag.tiles : Multiset Tile) = TileBag.allTiles := by
    refine Multiset.coe_eq_coe.mpr ((chance.shuffle.perm _).trans ?_)
    exact (List.perm_insertionSort _ _).trans (TileBag.new_perm _)
  have hhands : ∀ p ∈ chance.seated.players, p.hand = [] := by
    have hplayers : chance.seated.players.map Player.hand = [[], []] := rfl
    intro p hp
    have := List.mem_map_of_mem (f := Player.hand) hp
    rw [hplayers] at this
    simpa using this
  have hfree : chance.opening.pendingChallenge = none := rfl
  refine ⟨.of_none hfree, rfl, ?_⟩
  rw [tilesInPlay, heldBack_of_none hfree, add_zero, ← hbag, ← deal_tiles chance.seated.bag hhands]
  change chance.seated.board.tiles + _ + _ = _
  rw [hboard, zero_add]
  rfl

theorem Whole.ply {chance : Chance} {g : Game} (h : Whole g) (i : ℕ) (player : Player) :
    Whole (chance.ply i g player) := by
  simp only [Chance.ply]
  split
  · split_ifs
    · exact h.placeTiles _ _ _
    · exact (h.placeTiles _ _ _).passTurn _ _ _
  · exact h.passTurn _ _ _

theorem Whole.play {chance : Chance} {g g' : Game} (h : Whole g) {n i : ℕ}
    (hplay : chance.play n i g = some g') : Whole g' := by
  induction n generalizing i g with
  | zero => exact Option.some.inj hplay ▸ h
  | succ n ih =>
    simp only [Chance.play] at hplay
    split at hplay
    · cases hplay
    split at hplay
    · cases hplay
    · exact ih (h.ply i _) hplay

/-- What a puzzle is taken from. -/
theorem tryGenerate_spec {chance : Chance} {generated : Generated}
    (h : chance.tryGenerate = some generated) :
    ∃ g, Whole g ∧ ∃ p ∈ g.players, generated.board = g.board.toJson ∧
      generated.rack = p.hand.map Tile.asStr := by
  simp only [Chance.tryGenerate] at h
  split at h
  · cases h
  rename_i g hplay
  split at h
  · cases h
  rename_i player hplayer
  obtain ⟨hseat, rfl⟩ := currentPlayer_eq_some g hplayer
  split_ifs at h
  split at h
  · cases h
  split_ifs at h
  obtain rfl := Option.some.inj h
  exact ⟨g, (whole_opening chance).play hplay, _, playerAt_mem g hseat, rfl, rfl⟩

theorem fromStr_map_asStr (tiles : List Tile) :
    (tiles.map Tile.asStr).filterMap Tile.fromStr = tiles := by
  simp [List.filterMap_map, Tile.fromStr_asStr]

/-- What is not seen on the board or in the hand is in the bag. -/
theorem remainingTiles_complete {board : Board} {rack : List Tile}
    (h : board.tiles + (rack : Multiset Tile) ≤ TileBag.allTiles) (date : String) :
    board.tiles + (rack : Multiset Tile) + remainingTiles shuffleOf board rack date =
      TileBag.allTiles := by
  let seen := board.tileList ++ rack
  have hseen : (seen : Multiset Tile) = board.tiles + rack := by
    rw [← Board.coe_tileList, Multiset.coe_add]
  have hnodup := List.nodup_finRange 39
  have hcount (t : Tile) : seen.count t ≤ t.count := by
    have hall : TileBag.allTiles.count t = t.count := by
      rw [show TileBag.allTiles = Lists.spread (List.finRange 39) Tile.count from rfl,
        Lists.count_spread hnodup, if_pos (List.mem_finRange t)]
    rw [← hall, ← Multiset.coe_count, ← Multiset.coe_count]
    exact Multiset.count_le_of_le t (hseen ▸ h)
  have hrest : (remainingTiles shuffleOf board rack date).Perm
      (Lists.spread (List.finRange 39) fun t => t.count - seen.count t) := by
    refine ((shuffleOf date).perm _).trans ((List.perm_insertionSort _ _).trans ?_)
    simp only [Int.toNat_sub]
    exact .refl _
  rw [← hseen, Multiset.coe_add]
  refine Multiset.coe_eq_coe.mpr ((hrest.append_left seen).trans ?_)
  exact Lists.perm_spread_sub hnodup List.mem_finRange hcount

/-- **The puzzle is whole**: its board, hand and bag make up the full set of tiles. -/
theorem opened_whole {chance : Chance} {generated : Generated}
    (h : chance.tryGenerate = some generated) (date : String) :
    let puzzle := (⟨generated, date⟩ : DailyPuzzle).opened shuffleOf
    puzzle.board.tiles + (puzzle.rack : Multiset Tile) + puzzle.bag = TileBag.allTiles := by
  obtain ⟨g, hwhole, p, hp, hboard, hrack⟩ := tryGenerate_spec h
  have htiles : (Board.fromJson generated.board).tiles = g.board.tiles := by
    simp only [Board.tiles, hboard, Board.cells_fromJson_toJson]
  have hhand : generated.rack.filterMap Tile.fromStr = p.hand := by
    rw [hrack, fromStr_map_asStr]
  refine remainingTiles_complete shuffleOf ?_ date
  change (Board.fromJson generated.board).tiles +
    (generated.rack.filterMap Tile.fromStr : Multiset Tile) ≤ _
  rw [htiles, hhand, ← hwhole.tiles]
  exact hand_le_tilesInPlay hp

end Robot

end ScrabbleMagyar
