import ScrabbleMagyar.Engine.Save

/-!
# What a restored game looks like

Reading back what was saved never fails, and the game it yields is `Game.restored`: the saved
one field by field, up to the casts to narrower integers and the normalisation of a bot's
strength (`fromSaveDict_toSaveDict`).
-/

namespace ScrabbleMagyar

theorem tilesFromJson_tilesToJson (tiles : List Tile) :
    tilesFromJson (tilesToJson tiles) = tiles := by
  simp only [tilesFromJson, tilesToJson, Json.asArray_arr]
  induction tiles with
  | nil => rfl
  | cons t tiles ih =>
    simp [Tile.fromStr_asStr, ih]

namespace Board

theorem cellFromJson_cellToJson (cell : Option Cell) : cellFromJson (cellToJson cell) = cell := by
  cases cell with
  | none => rfl
  | some c => simp [cellFromJson, cellToJson, Json.get?_obj_cons, Tile.fromStr_asStr]

/-- The stored squares read back as they were; the flag says whether all are free. -/
theorem cells_fromJson_toJson (b : Board) : (fromJson b.toJson).cells = b.cells := by
  funext r c
  simp only [fromJson, toJson, Json.asArray_arr, List.getElem?_map]
  simp [cellFromJson_cellToJson]

end Board

namespace Game

/-- A player as restored, with the hand that was stored. -/
def restoredPlayer (p : Player) (hand : List Tile) : Player :=
  { p with
    hand
    score := toI32 p.score
    timeouts := toU32 p.timeouts
    disconnected := if p.isBot then false else p.disconnected
    difficulty :=
      if p.isBot then some (Difficulty.normalizeDifficulty p.difficultyJson) else none }

theorem playerFromSave_playerToSave (p : Player) (hand : List Tile) :
    playerFromSave (playerToSave p hand) = .ok (restoredPlayer p hand) := by
  simp only [playerFromSave, playerToSave, restoredPlayer, Json.field, Json.get?_obj_cons,
    String.reduceEq, if_true, if_false]
  cases p.isBot <;>
    simp [tilesFromJson_tilesToJson, Player.newBot, Player.new]

/-- The players as restored. -/
def restoredPlayers (g : Game) : List Player :=
  g.players.zipIdx.map fun e => restoredPlayer e.1 (g.savedHand e.2 e.1)

theorem restoredPlayers_map {β : Type*} {h : Player → β} (g : Game)
    (hh : ∀ p hand, h (restoredPlayer p hand) = h p) :
    g.restoredPlayers.map h = g.players.map h := by
  refine List.ext_getElem (by simp [restoredPlayers]) fun i h₁ h₂ => ?_
  simp [restoredPlayers, hh]

theorem playersFromSave_map {α : Type} (f : α → Json) (h : α → Player) (l : List α)
    (hf : ∀ a, playerFromSave (f a) = .ok (h a)) :
    playersFromSave (l.map f) = .ok (l.map h) := by
  induction l with
  | nil => rfl
  | cons a l ih => simp [playersFromSave, hf, ih]

theorem ofOption_str_asStr (o : Option String) : (Json.ofOption Json.str o).asStr = o := by
  cases o <;> rfl

theorem ofOption_float_asFloat (o : Option ℚ) : (Json.ofOption Json.float o).asFloat = o := by
  cases o <;> rfl

/-- The game as read back from its save. -/
def restored (env : Env) (g : Game) : Game :=
  { new env g.id g.challengeMode g.turnTimeLimit g.hintLimit with
    hintsUsed := max g.hintsUsed 0
    started := g.started
    finished := g.finished
    currentPlayerIdx := g.currentPlayerIdx
    turnNumber := g.turnNumber
    scorelessTurns := toU32 g.scorelessTurns
    asyncMode := g.asyncMode
    turnHours := g.turnHours
    turnDeadline := g.turnDeadline
    lastAction := g.savedLastAction.1
    lastActionInfo := g.savedLastAction.2.filter fun v => !v.isNull
    board := { cells := g.board.cells, isEmpty := g.board.isEmpty }
    bag := g.bag
    players := g.restoredPlayers
    winners := g.restoredPlayers.filter fun p => p.name ∈ g.winners.map Player.name }

theorem ofOption_filter_isNull (o : Option Json) :
    (some (Json.ofOption (fun j => j) o)).filter (fun v => !v.isNull) =
      o.filter fun v => !v.isNull := by
  cases o <;> rfl

/-- **Saves are readable**: reading back the save of a game yields the restored game. -/
theorem fromSaveDict_toSaveDict (env : Env) (g : Game) :
    fromSaveDict env g.toSaveDict = .ok (g.restored env) := by
  simp only [fromSaveDict, toSaveDict, winnerNamesFromSave, Json.field, Json.get?_obj_cons,
    String.reduceEq, if_true, if_false]
  have hplayers : playersFromSave (g.players.zipIdx.map fun e =>
      playerToSave e.1 (g.savedHand e.2 e.1)) = .ok g.restoredPlayers :=
    playersFromSave_map _ _ _ fun e => playerFromSave_playerToSave e.1 _
  simp [hplayers, restored, tilesFromJson_tilesToJson, ofOption_str_asStr,
    ofOption_float_asFloat, ofOption_filter_isNull, Board.cells_fromJson_toJson]

end Game

end ScrabbleMagyar
