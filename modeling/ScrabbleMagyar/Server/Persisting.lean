import Mathlib.Data.List.Sort
import ScrabbleMagyar.Engine.Entries
import ScrabbleMagyar.Engine.Lineage
import ScrabbleMagyar.Server.Play

/-!
# The saved mark of a correspondence game

A correspondence game lives in the database, and the room keeps a mark of the state that was saved
last (`server/core.rs`). The rows of the saved games, with their moves, are those of one room; any
call of the database may fail, and what it was to write is then not there.

* `mark_true_of_lastSaveDone`: after any operations, failures and restarts the mark is right if every
  restart has read the moves and the last save that called the database has written all it had to.
* `not_safe_of_unread`: a restart that has not read them marks what is not stored.
-/

namespace ScrabbleMagyar.Persisting

open Server (UserId RoomId)

/-- What tells the states of a game apart when it is to be saved. -/
abbrev Signature := ℕ × Bool × ℤ

def signature (game : Game) : Signature := (game.moveLog.length, game.finished, game.turnNumber)

structure Room where
  game : Game
  isAsync : Bool
  /-- The mark: the signature of the state that was saved last. -/
  persistedSig : Option Signature
  dbGameId : Option ℕ
  resultSaved : Bool
  lastSavedMoveCount : ℕ

/-- A row of the saved games with its rows of the moves. -/
structure SavedGame where
  id : ℕ
  stateJson : Json
  active : Bool
  moves : List StoredMove

/-- The saved games of a room. -/
abbrev Db := List SavedGame

namespace Db

def modifyGame (db : Db) (id : ℕ) (f : SavedGame → SavedGame) : Db :=
  db.map fun g => if g.id = id then f g else g

def saveGame (db : Db) (stateJson : Json) : Db × ℕ :=
  match db.find? SavedGame.active with
  | some row => (modifyGame db row.id fun g => { g with stateJson }, row.id)
  | none => (db ++ [⟨db.length + 1, stateJson, true, []⟩], db.length + 1)

def finishGame (db : Db) (stateJson : Json) : Db × ℕ :=
  match db.find? SavedGame.active with
  | some row => (modifyGame db row.id fun g => { g with stateJson, active := false }, row.id)
  | none => (db ++ [⟨db.length + 1, stateJson, false, []⟩], db.length + 1)

def addGameMoves (db : Db) (gameId : ℕ) (moves : List StoredMove) : Db :=
  modifyGame db gameId fun g => { g with moves := g.moves ++ moves }

/-- The moves of a game in the order of their numbers. -/
def getGameMoves (row : SavedGame) : List StoredMove :=
  row.moves.insertionSort fun m m' => m.moveNumber ≤ m'.moveNumber

end Db

/-- The calls of a save that fail: that for the game, that for its moves. -/
structure Fault where
  game : Bool
  moves : Bool

def Fault.none : Fault := ⟨false, false⟩

/-- The reads of a new start that fail: that of the games in progress, that of the moves. -/
structure ReadFault where
  games : Bool
  moves : Bool

def ReadFault.none : ReadFault := ⟨false, false⟩

/-- The moves of a game as a new start has them: none if they cannot be read. -/
def Db.readMoves (row : SavedGame) (fault : ReadFault) : List StoredMove :=
  if fault.moves then [] else getGameMoves row

/-! ## Saving -/

def saveGameToDb (room : Room) (db : Db) (fault : Fault) : Room × Db × Bool × String :=
  let game := room.game
  if game.puzzle.isSome then (room, db, true, "Játék mentve.")
  else if !game.started then (room, db, false, "A játék még nem indult el.")
  else if game.finished && room.resultSaved then (room, db, true, "Játék mentve.")
  else
    let newMoves :=
      (game.moveLog.drop (min room.lastSavedMoveCount game.moveLog.length)).map MoveLog.stored
    if fault.game then (room, db, false, "Mentési hiba.")
    else
      let saved :=
        if game.finished then db.finishGame game.toSaveDict else db.saveGame game.toSaveDict
      let room :=
        { room with
          dbGameId := some saved.2
          resultSaved := room.resultSaved || game.finished }
      if fault.moves then (room, saved.1, false, "Mentési hiba.")
      else
        ({ room with lastSavedMoveCount := game.moveLog.length },
          saved.1.addGameMoves saved.2 newMoves, true, "Játék mentve.")

/-- Save a correspondence game when it has changed since the mark. -/
def persistAsync (room : Room) (db : Db) (fault : Fault) : Room × Db :=
  if !room.isAsync || !room.game.started then (room, db)
  else
    let signature := signature room.game
    if room.persistedSig = some signature then (room, db)
    else
      let saved := saveGameToDb { room with persistedSig := some signature } db fault
      (saved.1, saved.2.1)

/-- The room of a saved game, with its players absent. -/
def loadAsyncRoom (env : Env) (roomId : RoomId) (known : Table String (Option UserId))
    (fault : ReadFault) (row : SavedGame) : Option Room :=
  match Game.fromSaveDict env row.stateJson with
  | .error _ => none
  | .ok game =>
    let game := { game with
      asyncMode := true
      players := game.players.map (Server.absentPlayer roomId known)
      moveLog := (Db.readMoves row fault).map MoveLog.fromStored }
    some
      { game
        isAsync := true
        persistedSig := some (signature game)
        dbGameId := some row.id
        resultSaved := false
        lastSavedMoveCount := game.moveLog.length }

/-! ## Runs -/

/-- The room, if it is in memory, and its rows. -/
structure State where
  room : Option Room
  db : Db

inductive Event
  /-- An operation on the game, after which its state goes to the players. To read a save back is
  none. -/
  | play (input : Input) (plays : input.2 ≠ .saveRestore) (fault : Fault)
  /-- The state of the game goes to the players. -/
  | emitAllStates (fault : Fault)
  /-- A save by itself, as at the end of a game. -/
  | save (fault : Fault)
  /-- The server starts anew and loads the game; a game that is not in memory is loaded in the same
  way later on. The accounts of the players, `known`, are none if they cannot be read. -/
  | restart (env : Env) (roomId : RoomId) (known : Table String (Option UserId)) (fault : ReadFault)

/-- The room of a new correspondence game. -/
def created (env : Env) (gameId : String) (turnHours : ℤ) : State where
  room := some
    { game := Game.newAsync env gameId turnHours
      isAsync := true
      persistedSig := none
      dbGameId := none
      resultSaved := false
      lastSavedMoveCount := 0 }
  db := []

/-- The room after an operation on its game. -/
def Room.play (room : Room) (input : Input) : Room := { room with game := room.game.step input }

def step (st : State) (e : Event) : State :=
  match st.room, e with
  | some room, .play input _ fault =>
    let saved := persistAsync (room.play input) st.db fault
    ⟨some saved.1, saved.2⟩
  | some room, .emitAllStates fault =>
    let saved := persistAsync room st.db fault
    ⟨some saved.1, saved.2⟩
  | some room, .save fault =>
    let saved := saveGameToDb room st.db fault
    ⟨some saved.1, saved.2.1⟩
  | _, .restart env roomId known fault =>
    ⟨if fault.games then none
      else (st.db.find? SavedGame.active).bind (loadAsyncRoom env roomId known fault), st.db⟩
  | none, _ => st

/-! ## The last save -/

/-- A save of the room calls the database. -/
def Room.calls (room : Room) : Bool :=
  room.game.puzzle.isNone && room.game.started && !(room.game.finished && room.resultSaved)

/-- The room is saved when its state goes to the players. -/
def Room.marks (room : Room) : Bool :=
  room.isAsync && room.game.started && decide (room.persistedSig ≠ some (signature room.game))

/-- Nothing that a save has to write is lost to the calls that fail. -/
def Fault.spares (fault : Fault) (room : Room) : Bool :=
  !fault.game && (!fault.moves || decide (room.game.moveLog.length ≤ room.lastSavedMoveCount))

/-- A new start has the moves of the game that it loads. -/
def Event.reads (st : State) : Event → Bool
  | .restart _ _ _ fault => fault.games || !fault.moves ||
      (st.db.find? SavedGame.active).all fun row => row.moves.isEmpty
  | _ => true

/-- Whether the last save that called the database since the last start has written all, from
whether that held before. -/
def doneAfter (st : State) (done : Bool) (e : Event) : Bool :=
  match st.room, e with
  | some room, .play input _ fault =>
    if (room.play input).marks && (room.play input).calls then fault.spares (room.play input) else done
  | some room, .emitAllStates fault =>
    if room.marks && room.calls then fault.spares room else done
  | some room, .save fault => if room.calls then fault.spares room else done
  | _, .restart .. => true
  | none, _ => done

def lastSaveDone (st : State) (done : Bool) : List Event → Bool
  | [] => done
  | e :: events => lastSaveDone (step st e) (doneAfter st done e) events

/-! ## What the rows hold -/

/-- The row of a room, as far as it has been written. -/
structure Holds (room : Room) (row : SavedGame) : Prop where
  active : row.active = !room.resultSaved
  ended : room.resultSaved = true → room.game.finished = true
  count : room.lastSavedMoveCount ≤ room.game.moveLog.length
  moves : row.moves = (room.game.moveLog.take room.lastSavedMoveCount).map MoveLog.stored
  state : ∃ g : Game, row.stateJson = g.toSaveDict ∧ g.started = true ∧ g.board.WellFormed

/-- Nothing of a room is stored. -/
structure Unsaved (room : Room) : Prop where
  result : room.resultSaved = false
  count : room.lastSavedMoveCount = 0

/-- A room and its rows, whatever has failed. -/
structure Kept (room : Room) (db : Db) : Prop where
  async : room.isAsync = true
  logged : room.game.Logged
  quiet : room.game.Quiet
  puzzle : room.game.puzzle = none
  rows : db = [] ∧ Unsaved room ∨ ∃ row, db = [row] ∧ Holds room row
  started : room.persistedSig.isSome = true ∨ room.resultSaved = true → room.game.started = true

/-- The row is that of the game as it is: a state of its signature, with all of its moves. -/
structure Current (room : Room) (row : SavedGame) : Prop where
  state : ∃ g : Game, signature g = signature room.game ∧ row.stateJson = g.toSaveDict
  moves : row.moves = room.game.moveLog.map MoveLog.stored

/-- What a room has marked, or has entered as a result, is stored. -/
def Truthful (room : Room) (db : Db) : Prop :=
  room.persistedSig = some (signature room.game) ∨ room.resultSaved = true →
    ∃ row, db = [row] ∧ Current room row

variable {room : Room} {db : Db}

theorem Kept.count (h : Kept room db) : room.lastSavedMoveCount ≤ room.game.moveLog.length := by
  rcases h.rows with ⟨-, hunsaved⟩ | ⟨row, -, hrow⟩
  · rw [hunsaved.count]
    exact Nat.zero_le _
  · exact hrow.count

/-- A save does not call the database once the result is entered. -/
theorem Kept.resultSaved (h : Kept room db) (hcalls : room.calls = true) :
    room.resultSaved = false := by
  by_contra hsaved
  rw [Bool.not_eq_false] at hsaved
  rcases h.rows with ⟨-, hunsaved⟩ | ⟨row, -, hrow⟩
  · exact absurd (hunsaved.result.symm.trans hsaved) Bool.false_ne_true
  · simp [Room.calls, hsaved, hrow.ended hsaved] at hcalls

/-- The row that a save writes, with the moves that were there before. -/
theorem Kept.written (h : Kept room db) (hcalls : room.calls = true) (stateJson : Json) :
    ∃ row : SavedGame,
      (if room.game.finished then db.finishGame stateJson else db.saveGame stateJson) =
          ([row], row.id) ∧
        row.active = !room.game.finished ∧ row.stateJson = stateJson ∧
          row.moves = (room.game.moveLog.take room.lastSavedMoveCount).map MoveLog.stored := by
  rcases h.rows with ⟨rfl, hunsaved⟩ | ⟨row, rfl, hrow⟩
  · refine ⟨⟨1, stateJson, !room.game.finished, []⟩, ?_, rfl, rfl, ?_⟩
    · cases room.game.finished <;> rfl
    · rw [hunsaved.count, List.take_zero, List.map_nil]
  · have hactive : row.active = true := by rw [hrow.active, h.resultSaved hcalls, Bool.not_false]
    refine ⟨{ row with stateJson, active := !room.game.finished }, ?_, rfl, rfl, hrow.moves⟩
    cases room.game.finished
    · simp [Db.saveGame, Db.modifyGame, hactive]
    · simp [Db.finishGame, Db.modifyGame, hactive]

theorem saveGameToDb_of_not_calls (h : room.calls = false) (fault : Fault) :
    (saveGameToDb room db fault).1 = room ∧ (saveGameToDb room db fault).2.1 = db := by
  unfold saveGameToDb
  dsimp only
  split
  · exact ⟨rfl, rfl⟩
  split
  · exact ⟨rfl, rfl⟩
  split
  · exact ⟨rfl, rfl⟩
  · rename_i hpuzzle hstarted hsaved
    exact absurd h (by simp_all [Room.calls])

/-- What a save that calls the database leaves. -/
structure Saves (room : Room) (fault : Fault) (room' : Room) (db' : Db) : Prop where
  game : room'.game = room.game
  persistedSig : room'.persistedSig = room.persistedSig
  kept : Kept room' db'
  current : fault.spares room = true → ∃ row, db' = [row] ∧ Current room' row

theorem Kept.saves (h : Kept room db) (hcalls : room.calls = true) (fault : Fault) :
    Saves room fault (saveGameToDb room db fault).1 (saveGameToDb room db fault).2.1 := by
  obtain ⟨row, hwrite, hactive, hstate, hmoves⟩ := h.written hcalls room.game.toSaveDict
  have hopen := h.resultSaved hcalls
  have hstarted : room.game.started = true := by
    simp only [Room.calls, Bool.and_eq_true] at hcalls
    exact hcalls.1.2
  have hdict : ∃ g : Game, row.stateJson = g.toSaveDict ∧ g.started = true ∧ g.board.WellFormed :=
    ⟨room.game, hstate, hstarted, h.logged.board⟩
  unfold saveGameToDb
  simp only [h.puzzle, Option.isSome_none, Bool.false_eq_true, if_false, hstarted, Bool.not_true,
    hopen, Bool.and_false, hwrite, Bool.false_or]
  cases hgame : fault.game with
  | true =>
    rw [if_pos rfl]
    refine ⟨rfl, rfl, h, fun hspares => ?_⟩
    simp [Fault.spares, hgame] at hspares
  | false =>
    rw [if_neg Bool.false_ne_true]
    cases hfault : fault.moves with
    | true =>
      rw [if_pos rfl]
      refine ⟨rfl, rfl, ⟨h.async, h.logged, h.quiet, h.puzzle, .inr ⟨row, rfl, ?_⟩,
        fun _ => hstarted⟩, fun hspares => ⟨row, rfl, ⟨room.game, rfl, hstate⟩, ?_⟩⟩
      · exact ⟨hactive, id, h.count, hmoves, hdict⟩
      · -- what has not been written is nothing
        have hall : room.game.moveLog.length ≤ room.lastSavedMoveCount := by
          simpa [Fault.spares, hgame, hfault] using hspares
        rw [hmoves, List.take_of_length_le hall]
    | false =>
      have hall : (Db.addGameMoves [row] row.id ((room.game.moveLog.drop
          (min room.lastSavedMoveCount room.game.moveLog.length)).map MoveLog.stored)) =
            [{ row with moves := room.game.moveLog.map MoveLog.stored }] := by
        simp only [Db.addGameMoves, Db.modifyGame, List.map_cons, List.map_nil, if_true, hmoves]
        rw [Nat.min_eq_left h.count, ← List.map_append, List.take_append_drop]
      rw [if_neg Bool.false_ne_true, hall]
      refine ⟨rfl, rfl, ⟨h.async, h.logged, h.quiet, h.puzzle, .inr ⟨_, rfl, ?_⟩,
        fun _ => hstarted⟩, fun _ => ⟨_, rfl, ⟨room.game, rfl, hstate⟩, rfl⟩⟩
      exact ⟨hactive, id, le_rfl, by rw [List.take_length], hdict⟩

/-! ## Operations -/

/-- The room before its state goes to the players: the mark may be that of an earlier state. -/
theorem Kept.play (h : Kept room db) {input : Input} (plays : input.2 ≠ .saveRestore) :
    Kept (room.play input) db := by
  have he := Game.step_effect input.1 room.game input.2
  have hgrows := h.quiet.grows he plays
  have hprefix := hgrows.isPrefix
  refine ⟨h.async, h.logged.step plays, h.quiet.effect he, (he.modes h.puzzle).1, ?_,
    fun hmark => he.started (h.started hmark)⟩
  rcases h.rows with ⟨hdb, hunsaved⟩ | ⟨row, hdb, hrow⟩
  · exact .inl ⟨hdb, hunsaved.result, hunsaved.count⟩
  · refine .inr ⟨row, hdb, hrow.active, fun hsaved => (hgrows.of_finished (hrow.ended hsaved)).2,
      hrow.count.trans hprefix.length_le, ?_, hrow.state⟩
    rw [hrow.moves]
    congr 1
    exact (List.prefix_iff_eq_take.mp ((List.take_prefix _ _).trans hprefix)).trans
      (by rw [List.length_take, Nat.min_eq_left hrow.count]; rfl)

/-- A game whose signature stands still has the same log. -/
theorem Current.play {row : SavedGame} (h : Current room row) (hkept : Kept room db) {input : Input}
    (plays : input.2 ≠ .saveRestore)
    (hsame : signature (room.play input).game = signature room.game) :
    Current (room.play input) row := by
  have hgrows := hkept.quiet.grows (Game.step_effect input.1 room.game input.2) plays
  have hlog : (room.play input).game.moveLog = room.game.moveLog :=
    (hgrows.isPrefix.eq_of_length (congrArg Prod.fst hsame).symm).symm
  obtain ⟨⟨g, hsig, hstate⟩, hmoves⟩ := h
  exact ⟨⟨g, hsig.trans hsame.symm, hstate⟩, hmoves.trans (by rw [hlog])⟩

/-- The mark of a room is that of its game. -/
def Marked (room : Room) : Prop :=
  ∀ s, room.persistedSig = some s → s = signature room.game

theorem Truthful.play (h : Truthful room db) (hkept : Kept room db) (hmarked : Marked room)
    {input : Input} (plays : input.2 ≠ .saveRestore) : Truthful (room.play input) db := by
  have he := Game.step_effect input.1 room.game input.2
  rintro (hmark | hsaved)
  · have hsame := hmarked _ hmark
    obtain ⟨row, hdb, hrow⟩ := h (.inl (by rw [← hsame]; exact hmark))
    exact ⟨row, hdb, hrow.play hkept plays hsame⟩
  · obtain ⟨row, hdb, hrow⟩ := h (.inr hsaved)
    refine ⟨row, hdb, hrow.play hkept plays ?_⟩
    -- once the result is entered the game is over and stands still
    have hover : room.game.finished = true := by
      rcases hkept.rows with ⟨-, hunsaved⟩ | ⟨row, -, hrow⟩
      · exact absurd (hunsaved.result.symm.trans hsaved) Bool.false_ne_true
      · exact hrow.ended hsaved
    obtain ⟨hlog, hfinished⟩ := (hkept.quiet.grows he plays).of_finished hover
    have hturn := hkept.quiet.turnNumber he hover
    exact Prod.ext (congrArg List.length hlog) (Prod.ext (hfinished.trans hover.symm) hturn)

/-! ## The state goes to the players -/

/-- The room with the mark of its game. -/
def Room.mark (room : Room) : Room := { room with persistedSig := some (signature room.game) }

theorem persistAsync_eq (room : Room) (db : Db) (fault : Fault) :
    persistAsync room db fault = if room.marks then
      ((saveGameToDb room.mark db fault).1, (saveGameToDb room.mark db fault).2.1)
      else (room, db) := by
  unfold persistAsync Room.marks
  by_cases hopen : (!room.isAsync || !room.game.started) = true
  · have hmarks : (room.isAsync && room.game.started) = false := by
      rw [← Bool.not_not (room.isAsync && room.game.started), Bool.not_and, hopen, Bool.not_true]
    rw [if_pos hopen, hmarks, Bool.false_and, if_neg Bool.false_ne_true]
  · have hmarks : (room.isAsync && room.game.started) = true := by
      rw [← Bool.not_not (room.isAsync && room.game.started), Bool.not_and,
        eq_false_of_ne_true hopen, Bool.not_false]
    rw [if_neg hopen, hmarks, Bool.true_and]
    by_cases hmark : room.persistedSig = some (signature room.game)
    · simp [hmark]
    · simp [hmark, Room.mark]

theorem Kept.mark (h : Kept room db) (hstarted : room.game.started = true) : Kept room.mark db := by
  refine ⟨h.async, h.logged, h.quiet, h.puzzle, ?_, fun _ => hstarted⟩
  rcases h.rows with ⟨hdb, hunsaved⟩ | ⟨row, hdb, hrow⟩
  · exact .inl ⟨hdb, hunsaved.result, hunsaved.count⟩
  · exact .inr ⟨row, hdb, hrow.active, hrow.ended, hrow.count, hrow.moves, hrow.state⟩

/-- **What a broadcast leaves**: the mark is that of the game, and it is right if nothing was lost
by the save, or by the last one if there is none. -/
theorem Kept.persistAsync (h : Kept room db) {done : Bool}
    (htruthful : done = true → Truthful room db) (fault : Fault) :
    Kept (persistAsync room db fault).1 (persistAsync room db fault).2 ∧
      (Persisting.persistAsync room db fault).1.game = room.game ∧
        (room.game.started = true → (Persisting.persistAsync room db fault).1.persistedSig =
          some (signature room.game)) ∧
        ((if room.marks && room.calls then fault.spares room else done) = true →
          Truthful (Persisting.persistAsync room db fault).1
            (Persisting.persistAsync room db fault).2) := by
  rw [persistAsync_eq]
  cases hmarks : room.marks with
  | false =>
    rw [if_neg Bool.false_ne_true]
    refine ⟨h, rfl, fun hstarted => ?_, htruthful⟩
    simpa [Room.marks, h.async, hstarted] using hmarks
  | true =>
    have hstarted : room.game.started = true := by
      simp only [Room.marks, Bool.and_eq_true] at hmarks
      exact hmarks.1.2
    have hmarked := h.mark hstarted
    rw [if_pos rfl, Bool.true_and]
    cases hcalls : room.calls with
    | true =>
      have hsaves := hmarked.saves hcalls fault
      exact ⟨hsaves.kept, hsaves.game, fun _ => hsaves.persistedSig,
        fun hspares _ => hsaves.current hspares⟩
    | false =>
      obtain ⟨hroom, hdb⟩ := @saveGameToDb_of_not_calls room.mark db hcalls fault
      rw [hroom, hdb]
      refine ⟨hmarked, rfl, fun _ => rfl, fun hdone _ => ?_⟩
      -- without a call the result has been entered
      have hsaved : room.game.finished = true ∧ room.resultSaved = true := by
        simpa [Room.calls, h.puzzle, hstarted] using hcalls
      obtain ⟨row, hrow, hcurrent⟩ := htruthful hdone (.inr hsaved.2)
      exact ⟨row, hrow, hcurrent.state, hcurrent.moves⟩

theorem marked_persistAsync (h : Kept room db) (fault : Fault) :
    Marked (persistAsync room db fault).1 := by
  intro s hs
  obtain ⟨hkept, hgame, hmark, -⟩ := h.persistAsync (fun h => absurd h Bool.false_ne_true) fault
  have hstarted := hkept.started (.inl (by rw [hs]; rfl))
  rw [hgame] at hstarted ⊢
  exact Option.some.inj (hs.symm.trans (hmark hstarted))

/-! ## A new start -/

/-- The game of a row, if the stored state is that of a game. -/
def loadedGame (env : Env) (roomId : RoomId) (known : Table String (Option UserId))
    (row : SavedGame) (g : Game) : Game :=
  { g.restored env with
    asyncMode := true
    players := (g.restored env).players.map (Server.absentPlayer roomId known)
    moveLog := (Db.getGameMoves row).map MoveLog.fromStored }

theorem readMoves_eq {row : SavedGame} {fault : ReadFault}
    (hread : fault.moves = true → row.moves = []) : Db.readMoves row fault = Db.getGameMoves row := by
  unfold Db.readMoves
  split
  · rename_i hfault
    simp [Db.getGameMoves, hread hfault]
  · rfl

theorem loadAsyncRoom_eq (env : Env) (roomId : RoomId) (known : Table String (Option UserId))
    {fault : ReadFault} {row : SavedGame} {g : Game} (hstate : row.stateJson = g.toSaveDict)
    (hread : fault.moves = true → row.moves = []) :
    loadAsyncRoom env roomId known fault row = some
      { game := loadedGame env roomId known row g
        isAsync := true
        persistedSig := some (signature (loadedGame env roomId known row g))
        dbGameId := some row.id
        resultSaved := false
        lastSavedMoveCount := (loadedGame env roomId known row g).moveLog.length } := by
  unfold loadAsyncRoom
  rw [hstate, Game.fromSaveDict_toSaveDict, readMoves_eq hread]
  rfl

theorem Holds.getGameMoves {row : SavedGame} (h : Holds room row) (hlogged : room.game.Logged) :
    Db.getGameMoves row = (room.game.moveLog.take room.lastSavedMoveCount).map MoveLog.stored := by
  unfold Db.getGameMoves
  rw [h.moves]
  refine List.Pairwise.insertionSort_eq (List.pairwise_map.mpr ?_)
  exact hlogged.pairwise.sublist (List.take_sublist _ _)

/-- The log that is loaded is the one that was stored. -/
theorem moveLog_loadedGame (env : Env) (roomId : RoomId) (known : Table String (Option UserId))
    {row : SavedGame} (g : Game) (h : Holds room row) (hlogged : room.game.Logged) :
    (loadedGame env roomId known row g).moveLog =
      room.game.moveLog.take room.lastSavedMoveCount := by
  have hmoves := h.getGameMoves hlogged
  unfold loadedGame
  dsimp only
  rw [hmoves]
  exact MoveLog.map_fromStored_stored fun m hm => hlogged.sound m (List.mem_of_mem_take hm)

theorem logged_loadedGame (env : Env) (roomId : RoomId) (known : Table String (Option UserId))
    {row : SavedGame} {g : Game} (h : Holds room row) (hlogged : room.game.Logged)
    (hboard : g.board.WellFormed) : (loadedGame env roomId known row g).Logged := by
  have hlog := moveLog_loadedGame env roomId known g h hlogged
  refine ⟨.of_none rfl, hboard, ?_, ?_⟩ <;> rw [hlog]
  · exact fun m hm => hlogged.sound m (List.mem_of_mem_take hm)
  · rw [List.map_take, hlogged.numbered, ← List.map_take, List.take_range, List.length_take]

/-- A room that is loaded is the one that is stored. -/
theorem Kept.loadAsyncRoom (h : Kept room db) {row : SavedGame}
    (hrow : db.find? SavedGame.active = some row) (env : Env) (roomId : RoomId)
    (known : Table String (Option UserId)) {fault : ReadFault}
    (hread : fault.moves = true → row.moves = []) :
    ∃ loaded, loadAsyncRoom env roomId known fault row = some loaded ∧
      Kept loaded db ∧ Marked loaded ∧ Truthful loaded db := by
  obtain ⟨row', rfl, hholds⟩ : ∃ row', db = [row'] ∧ Holds room row' := by
    rcases h.rows with ⟨rfl, -⟩ | hrows
    · cases hrow
    · exact hrows
  have hactive : row'.active = true ∧ row' = row := by
    cases hactive : row'.active <;> simp_all
  obtain ⟨hactive, rfl⟩ := hactive
  obtain ⟨g, hstate, hstarted, hboard⟩ := hholds.state
  have hlog := moveLog_loadedGame env roomId known g hholds h.logged
  have hmoves : row'.moves =
      (loadedGame env roomId known row' g).moveLog.map MoveLog.stored := by
    rw [hlog, hholds.moves]
  refine ⟨_, loadAsyncRoom_eq env roomId known hstate hread,
    ⟨rfl, logged_loadedGame env roomId known hholds h.logged hboard, .of_free rfl, rfl,
      .inr ⟨row', rfl, ?_⟩, fun _ => hstarted⟩, fun s hs => (Option.some.inj hs).symm,
        fun _ => ⟨row', rfl, ⟨{ g with moveLog := (loadedGame env roomId known row' g).moveLog }, rfl,
        hstate⟩, hmoves⟩⟩
  refine ⟨hactive, fun hsaved => absurd hsaved Bool.false_ne_true, le_rfl, ?_,
    ⟨g, hstate, hstarted, hboard⟩⟩
  rw [List.take_length]
  exact hmoves

/-- The row of a room as it is loads to the same log and the same state. -/
theorem Current.loadAsyncRoom {row : SavedGame} (h : Current room row) (hlogged : room.game.Logged)
    (env : Env) (roomId : RoomId) (known : Table String (Option UserId)) :
    ∃ loaded, loadAsyncRoom env roomId known .none row = some loaded ∧
      loaded.game.moveLog = room.game.moveLog ∧
        signature loaded.game = signature room.game := by
  obtain ⟨⟨g, hsig, hstate⟩, hmoves⟩ := h
  have hsorted : Db.getGameMoves row = room.game.moveLog.map MoveLog.stored := by
    unfold Db.getGameMoves
    rw [hmoves]
    exact List.Pairwise.insertionSort_eq (List.pairwise_map.mpr hlogged.pairwise)
  have hlog : (loadedGame env roomId known row g).moveLog = room.game.moveLog := by
    unfold loadedGame
    dsimp only
    rw [hsorted]
    exact MoveLog.map_fromStored_stored hlogged.sound
  have hrest : (signature g).2 = (signature room.game).2 := congrArg Prod.snd hsig
  exact ⟨_, loadAsyncRoom_eq env roomId known hstate fun h => absurd h Bool.false_ne_true, hlog,
    Prod.ext (congrArg List.length hlog) hrest⟩

/-! ## Runs of a correspondence game -/

/-- What holds of a room and its rows between the events; without a room the rows are those of the
room that was there last. -/
def Stands (done : Bool) (st : State) : Prop :=
  match st.room with
  | some room => Kept room st.db ∧ Marked room ∧ (done = true → Truthful room st.db)
  | none => ∃ room, Kept room st.db

theorem Stands.kept {done : Bool} {st : State} (h : Stands done st) : ∃ room, Kept room st.db := by
  unfold Stands at h
  split at h
  · exact ⟨_, h.1⟩
  · exact h

theorem Stands.restart {done : Bool} {st : State} (h : Stands done st) (env : Env) (roomId : RoomId)
    (known : Table String (Option UserId)) (fault : ReadFault)
    (hread : (Event.restart env roomId known fault).reads st = true) :
    Stands true (step st (.restart env roomId known fault)) := by
  obtain ⟨room, hkept⟩ := h.kept
  have hstep : step st (.restart env roomId known fault) =
      ⟨if fault.games then none
        else (st.db.find? SavedGame.active).bind (loadAsyncRoom env roomId known fault), st.db⟩ := by
    unfold step
    cases st.room <;> rfl
  rw [hstep]
  cases hgames : fault.games with
  | true => exact ⟨room, hkept⟩
  | false =>
    rw [if_neg Bool.false_ne_true]
    cases hrow : st.db.find? SavedGame.active with
    | none => exact ⟨room, hkept⟩
    | some row =>
      have hmoves : fault.moves = true → row.moves = [] := by
        intro hfault
        simpa [Event.reads, hgames, hfault, hrow] using hread
      obtain ⟨loaded, hload, hkept', hmarked, htruthful⟩ :=
        hkept.loadAsyncRoom hrow env roomId known hmoves
      rw [Option.bind_some, hload]
      exact ⟨hkept', hmarked, fun _ => htruthful⟩

theorem Stands.step {done : Bool} {st : State} (h : Stands done st) (e : Event)
    (hread : e.reads st = true) : Stands (doneAfter st done e) (step st e) := by
  obtain ⟨room, db⟩ := st
  cases room with
  | none =>
    cases e with
    | restart env roomId known fault => exact h.restart env roomId known fault hread
    | play input plays fault => exact h
    | emitAllStates fault => exact h
    | save fault => exact h
  | some room =>
    have hstands := h
    obtain ⟨hkept, hmarked, htruthful⟩ := h
    cases e with
    | play input plays fault =>
      obtain ⟨hkept', -, -, htruthful'⟩ := (hkept.play plays).persistAsync
        (fun hdone => (htruthful hdone).play hkept hmarked plays) fault
      exact ⟨hkept', marked_persistAsync (hkept.play plays) fault, htruthful'⟩
    | emitAllStates fault =>
      obtain ⟨hkept', -, -, htruthful'⟩ := hkept.persistAsync htruthful fault
      exact ⟨hkept', marked_persistAsync hkept fault, htruthful'⟩
    | save fault =>
      cases hcalls : room.calls with
      | true =>
        have hsaves := hkept.saves hcalls fault
        refine ⟨hsaves.kept, fun s hs => ?_, fun hdone _ => hsaves.current ?_⟩
        · rw [hsaves.persistedSig] at hs
          rw [hsaves.game]
          exact hmarked s hs
        · simpa [doneAfter, hcalls] using hdone
      | false =>
        obtain ⟨hroom, hdb⟩ := @saveGameToDb_of_not_calls room db hcalls fault
        have hsame : Persisting.step ⟨some room, db⟩ (.save fault) = ⟨some room, db⟩ := by
          change (⟨some (saveGameToDb room db fault).1, (saveGameToDb room db fault).2.1⟩ : State) = _
          rw [hroom, hdb]
        have hdone : doneAfter ⟨some room, db⟩ done (.save fault) = done := by
          simp [doneAfter, hcalls]
        rw [hsame, hdone]
        exact ⟨hkept, hmarked, htruthful⟩
    | restart env roomId known fault => exact hstands.restart env roomId known fault hread

theorem Stands.run {done : Bool} {st : State} (h : Stands done st) {events : List Event}
    (hreads : Runs.Along Persisting.step (fun st e => e.reads st = true) st events) :
    Stands (lastSaveDone st done events) (Runs.run Persisting.step st events) := by
  induction events generalizing st done with
  | nil => exact h
  | cons e events ih => exact ih (h.step e hreads.1) hreads.2

theorem stands_created (env : Env) (gameId : String) (turnHours : ℤ) :
    Stands true (created env gameId turnHours) :=
  ⟨⟨rfl, Game.logged_of_initial (.inr ⟨env, gameId, turnHours, rfl⟩), .of_free rfl, rfl,
    .inl ⟨rfl, rfl, rfl⟩, fun h => absurd h (by simp)⟩, fun s hs => absurd hs (by simp),
      fun _ h => absurd h (by simp)⟩

/-- The stored game is a state with the signature of the one in memory, and the server that loads
it has the same log. -/
def Safe (room : Room) (db : Db) : Prop :=
  ∃ row, db = [row] ∧
    (∃ g : Game, signature g = signature room.game ∧ row.stateJson = g.toSaveDict) ∧
    ∀ env roomId known, ∃ loaded, loadAsyncRoom env roomId known .none row = some loaded ∧
      loaded.game.moveLog = room.game.moveLog ∧ signature loaded.game = signature room.game

theorem Kept.safe (h : Kept room db) (htruthful : Truthful room db)
    (hmark : room.persistedSig = some (signature room.game)) : Safe room db := by
  obtain ⟨row, hdb, hcurrent⟩ := htruthful (.inl hmark)
  exact ⟨row, hdb, hcurrent.state, fun env roomId known =>
    hcurrent.loadAsyncRoom h.logged env roomId known⟩

/-- A start that has not read the moves of a game marks what is not stored. -/
theorem not_safe_of_unread (env : Env) (roomId : RoomId) (known : Table String (Option UserId))
    {fault : ReadFault} {row : SavedGame} (hfault : fault.moves = true) (hmoves : row.moves ≠ [])
    {loaded : Room} (hload : loadAsyncRoom env roomId known fault row = some loaded) :
    loaded.persistedSig = some (signature loaded.game) ∧ ¬Safe loaded [row] := by
  unfold loadAsyncRoom at hload
  split at hload
  · cases hload
  · rename_i game hgame
    have hlog : loaded.game.moveLog = [] := by
      obtain rfl := Option.some.inj hload
      simp [Db.readMoves, hfault]
    refine ⟨by obtain rfl := Option.some.inj hload; rfl, ?_⟩
    rintro ⟨row', hrow, -, hsafe⟩
    obtain rfl := List.singleton_inj.mp hrow
    obtain ⟨again, hagain, hmatch, -⟩ := hsafe env roomId known
    have hread : again.game.moveLog = (Db.getGameMoves row).map MoveLog.fromStored := by
      simp only [loadAsyncRoom, hgame, Option.some.injEq] at hagain
      rw [← hagain]
      rfl
    -- a start that reads them has as many moves as are stored
    have hlength : (Db.getGameMoves row).length = row.moves.length := List.length_insertionSort _ _
    rw [hmatch, hlog] at hread
    have hnil := congrArg List.length hread
    rw [List.length_map, hlength, List.length_nil] at hnil
    exact hmoves (List.length_eq_zero_iff.mp hnil.symm)

/-- **The saved mark is right** in every run whose starts have read the moves and whose last save has
written all it had to: what is marked is stored, and the next broadcast while the database works
stores what is not. -/
theorem mark_true_of_lastSaveDone {env : Env} {gameId : String} {turnHours : ℤ}
    {events : List Event}
    (hreads : Runs.Along step (fun st e => e.reads st = true) (created env gameId turnHours) events)
    (hdone : lastSaveDone (created env gameId turnHours) true events = true)
    {room : Room} (hroom : (Runs.run step (created env gameId turnHours) events).room = some room) :
    (room.persistedSig = some (signature room.game) →
      Safe room (Runs.run step (created env gameId turnHours) events).db) ∧
    (room.game.started = true →
      Safe (persistAsync room (Runs.run step (created env gameId turnHours) events).db .none).1
        (persistAsync room (Runs.run step (created env gameId turnHours) events).db .none).2) := by
  have hstands := (stands_created env gameId turnHours).run hreads
  rw [hdone] at hstands
  unfold Stands at hstands
  rw [hroom] at hstands
  obtain ⟨hkept, -, htruthful⟩ := hstands
  refine ⟨hkept.safe (htruthful rfl), fun hstarted => ?_⟩
  obtain ⟨hkept', hgame, hmark, htruthful'⟩ := hkept.persistAsync htruthful .none
  refine hkept'.safe (htruthful' ?_) (by rw [hgame]; exact hmark hstarted)
  split <;> rfl

/-- A correspondence game of two as it is opened, and a pass whose save fails. -/
def passUnsaved : List Event :=
  [.play (Game.stillEnv, .addPlayer "a" "Anna") (by simp) .none,
    .play (Game.stillEnv, .addPlayer "b" "Béla") (by simp) .none,
    .play (Game.stillEnv, .startAsync 0) (by simp) .none,
    .play (Game.stillEnv, .passTurn "a" false) (by simp) ⟨true, false⟩]

/-- A further pass is saved, and loaded by a new start. -/
def passSaved : List Event := passUnsaved ++
  [.play (Game.stillEnv, .passTurn "b" false) (by simp) .none,
    .restart Game.stillEnv 0 ∅ .none]

theorem mark_true_of_lastSaveDone_pass :
    ∃ room, (Runs.run step (created Game.stillEnv "async" 24) passSaved).room = some room ∧
      Safe room (Runs.run step (created Game.stillEnv "async" 24) passSaved).db := by
  have hmarked : ((Runs.run step (created Game.stillEnv "async" 24) passSaved).room.any fun room =>
      decide (room.persistedSig = some (signature room.game))) = true := by
    decide +kernel
  have hreads : Runs.Along step (fun st e => e.reads st = true) (created Game.stillEnv "async" 24)
      passSaved := ⟨rfl, rfl, rfl, rfl, rfl, rfl, trivial⟩
  obtain ⟨room, hroom, hmark⟩ := (Option.any_eq_true _ _).mp hmarked
  exact ⟨room, hroom, (mark_true_of_lastSaveDone hreads (by decide +kernel) hroom).1
    (of_decide_eq_true hmark)⟩

theorem turn_number_toSaveDict (g : Game) :
    (g.toSaveDict.get? "turn_number").bind Json.asInt = some g.turnNumber := by
  simp [Game.toSaveDict, Json.get?_obj_cons]

/-- The pass is marked, and it is not stored. -/
theorem mark_of_unsaved_pass :
    ¬ ∀ (events : List Event) (room : Room),
      (Runs.run step (created Game.stillEnv "async" 24) events).room = some room →
      room.persistedSig = some (signature room.game) →
      Safe room (Runs.run step (created Game.stillEnv "async" 24) events).db := by
  intro h
  have hmarked : ((Runs.run step (created Game.stillEnv "async" 24) passUnsaved).room.any
      fun room => decide (room.persistedSig = some (signature room.game) ∧
        room.game.turnNumber = 1)) = true := by
    decide +kernel
  have hstored : (Runs.run step (created Game.stillEnv "async" 24) passUnsaved).db.map (fun row =>
      (row.stateJson.get? "turn_number").bind Json.asInt) = [some 0] := by
    decide +kernel
  obtain ⟨room, hroom, hmark⟩ := (Option.any_eq_true _ _).mp hmarked
  obtain ⟨hmark, hturn⟩ := of_decide_eq_true hmark
  obtain ⟨row, hdb, ⟨g, hsig, hstate⟩, -⟩ := h passUnsaved room hroom hmark
  have hsame : g.turnNumber = room.game.turnNumber := congrArg (fun s => s.2.2) hsig
  rw [hdb, List.map_cons, hstate, turn_number_toSaveDict, hsame, hturn] at hstored
  simp at hstored

end ScrabbleMagyar.Persisting
