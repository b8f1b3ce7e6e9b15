import ScrabbleMagyar.Engine.Restore
import ScrabbleMagyar.Server.Seats

/-!
# The archive

What the saved games and the rooms have to do with each other. A handler is a `Course`, a
sequence of a few elementary changes (`Change`): rooms move on, a game is saved, a room is
opened, loaded or released, a lobby becomes a restored game. What is proved for the elementary
changes holds of every handler, since it is a course.

* `saveGameToDb_cases`: what saving a game does.
* `Archive`: rows are numbered, at most one active row belongs to a room, the active row of a room
  that exists is the one the room knows of, and saves hold proper seats.
* `Course.archive`: every course keeps this.
-/

namespace ScrabbleMagyar

namespace Server

/-! ## Saving a game -/

/-- The database after the game of a room has been saved in `row`. -/
structure Recorded (st : Server) (roomId : RoomId) (room : Room) (db : Db) (row : SavedGame) :
    Prop where
  roomId_eq : row.roomId = roomId
  stateJson_eq : row.stateJson = room.game.toSaveDict
  status_eq : row.status = if room.game.finished then .finished else .active
  /-- The row was the active row of the room, or it is new. -/
  games : (∃ (old : SavedGame) (f : SavedGame → SavedGame), st.db.activeOf roomId = some old ∧
      row = f old ∧ (∀ g, (f g).id = g.id ∧ (f g).origin = g.origin ∧ (f g).isAsync = g.isAsync) ∧
      db.games = st.db.games.map fun g => if g.id = old.id then f g else g) ∨
    (st.db.activeOf roomId = none ∧ row.id = st.db.nextId ∧
      row.origin = room.origin.getD st.db.nextId ∧
      (room.game.finished = false → row.isAsync = room.isAsync) ∧
      db.games = st.db.games ++ [row])
  finishes : db.finishes = if room.game.finished
    then st.db.finishes ++ [⟨row.id, roomId, gamePlayerData room st.playerAuth, row.origin⟩]
    else st.db.finishes

/-- A room whose game has been saved in a row. -/
def Room.savedIn (room : Room) (row : SavedGame) : Room :=
  { room with
    dbGameId := some row.id
    resultSaved := room.resultSaved || room.game.finished
    origin := some row.origin }

/-- The game of a room can be saved, and has not been saved for good. -/
structure Room.Savable (room : Room) : Prop where
  started : room.game.started = true
  puzzle : room.game.puzzle = none
  unsaved : room.game.finished = true → room.resultSaved = false

variable (st : Server)

theorem getGameById_map {l : List SavedGame} {id : ℕ} {f : SavedGame → SavedGame}
    (hf : ∀ g, (f g).id = g.id) :
    ((l.map fun g => if g.id = id then f g else g).find? fun g => g.id = id) =
      (l.find? fun g => g.id = id).map f := by
  induction l with
  | nil => rfl
  | cons g l ih =>
    by_cases hg : g.id = id
    · simp [hg, hf]
    · simp [hg, ih]

theorem mem_of_activeOf {db : Db} {roomId : RoomId} {row : SavedGame}
    (h : db.activeOf roomId = some row) :
    row ∈ db.games ∧ row.roomId = roomId ∧ row.status = .active := by
  have hp := List.find?_some h
  simp only [decide_eq_true_iff] at hp
  exact ⟨List.mem_of_find?_eq_some h, hp.1, hp.2⟩

theorem activeOf_eq_none_iff {db : Db} {roomId : RoomId} :
    db.activeOf roomId = none ↔ ∀ row ∈ db.games, row.roomId = roomId → row.status ≠ .active := by
  simp [Db.activeOf, List.find?_eq_none]

/-- Rows are numbered in the order of their insertion. -/
def Db.Numbered (db : Db) : Prop := ∀ i row, db.games[i]? = some row → row.id = i + 1

theorem Db.Numbered.eq_of_id {db : Db} (h : db.Numbered) {row row' : SavedGame}
    (hrow : row ∈ db.games) (hrow' : row' ∈ db.games) (hid : row.id = row'.id) : row = row' := by
  obtain ⟨i, hi⟩ := List.mem_iff_getElem?.mp hrow
  obtain ⟨j, hj⟩ := List.mem_iff_getElem?.mp hrow'
  have hij : i = j := by
    have := h i row hi
    have := h j row' hj
    omega
  subst hij
  exact Option.some.inj (hi.symm.trans hj)

theorem Db.Numbered.lt_nextId {db : Db} (h : db.Numbered) {row : SavedGame}
    (hrow : row ∈ db.games) : row.id < db.nextId := by
  obtain ⟨i, hi⟩ := List.mem_iff_getElem?.mp hrow
  have hlt : i < db.games.length := (List.getElem?_eq_some_iff.mp hi).1
  rw [h i row hi, Db.nextId]
  omega

theorem Db.Numbered.find {db : Db} (h : db.Numbered) {row : SavedGame} (hrow : row ∈ db.games) :
    db.getGameById row.id = some row := by
  cases hfind : db.getGameById row.id with
  | none =>
    rw [Db.getGameById, List.find?_eq_none] at hfind
    exact absurd (by simp) (hfind row hrow)
  | some row' =>
    have hid : row'.id = row.id := by simpa using List.find?_some hfind
    rw [h.eq_of_id (List.mem_of_find?_eq_some hfind) hrow hid]

/-- The game of a room is recorded in its active row. -/
theorem recorded_old {st : Server} (hnum : st.db.Numbered) {roomId : RoomId} (room : Room)
    {old : SavedGame} (hactive : st.db.activeOf roomId = some old) (f : SavedGame → SavedGame)
    (db : Db) (hf : ∀ g, (f g).id = g.id ∧ (f g).origin = g.origin ∧ (f g).isAsync = g.isAsync)
    (hroomId : (f old).roomId = old.roomId)
    (hjson : (f old).stateJson = room.game.toSaveDict)
    (hstatus : (f old).status = if room.game.finished then .finished else old.status)
    (hgames : db.games = st.db.games.map fun g => if g.id = old.id then f g else g)
    (hfinishes : db.finishes = if room.game.finished
      then st.db.finishes ++ [⟨old.id, roomId, gamePlayerData room st.playerAuth, old.origin⟩]
      else st.db.finishes) :
    Recorded st roomId room db (f old) ∧ db.getGameById (f old).id = some (f old) := by
  obtain ⟨hmem, hroom, hold⟩ := mem_of_activeOf hactive
  obtain ⟨hid, horigin, -⟩ := hf old
  refine ⟨⟨hroomId.trans hroom, hjson, by rw [hstatus, hold],
    .inl ⟨old, f, hactive, rfl, hf, hgames⟩, by rw [hfinishes, hid, horigin]⟩, ?_⟩
  rw [Db.getGameById, hgames, hid, getGameById_map fun g => (hf g).1, ← Db.getGameById,
    hnum.find hmem, Option.map_some]

/-- The game of a room is recorded in a new row. -/
theorem recorded_new {st : Server} (hnum : st.db.Numbered) {roomId : RoomId} (room : Room)
    (hactive : st.db.activeOf roomId = none) (row : SavedGame) (db : Db)
    (hid : row.id = st.db.nextId) (hroomId : row.roomId = roomId)
    (hjson : row.stateJson = room.game.toSaveDict)
    (hstatus : row.status = if room.game.finished then .finished else .active)
    (horigin : row.origin = room.origin.getD st.db.nextId)
    (hasync : room.game.finished = false → row.isAsync = room.isAsync)
    (hgames : db.games = st.db.games ++ [row])
    (hfinishes : db.finishes = if room.game.finished
      then st.db.finishes ++ [⟨row.id, roomId, gamePlayerData room st.playerAuth, row.origin⟩]
      else st.db.finishes) :
    Recorded st roomId room db row ∧ db.getGameById row.id = some row := by
  refine ⟨⟨hroomId, hjson, hstatus, .inr ⟨hactive, hid, horigin, hasync, hgames⟩, hfinishes⟩, ?_⟩
  have hnew : ∀ g ∈ st.db.games, g.id ≠ row.id := fun g hg => hid ▸ (hnum.lt_nextId hg).ne
  rw [Db.getGameById, hgames, List.find?_append,
    List.find?_eq_none.mpr fun g hg => by simpa using hnew g hg]
  simp

/-- **Saving a game**: nothing happens, or the game of a room is recorded in one row. -/
theorem saveGameToDb_cases (hnum : st.db.Numbered) (roomId : RoomId) :
    (st.saveGameToDb roomId).1 = st ∨
      ∃ room db row, st.rooms.lookup roomId = some room ∧ room.Savable ∧
        Recorded st roomId room db row ∧
        (st.saveGameToDb roomId).1 =
          { st with db, rooms := st.rooms.insert roomId (room.savedIn row) } := by
  unfold saveGameToDb
  cases hroom : st.rooms.lookup roomId with
  | none => exact .inl rfl
  | some room =>
    simp only
    split
    · exact .inl rfl
    rename_i hpuzzle
    split
    · exact .inl rfl
    rename_i hstarted
    split
    · exact .inl rfl
    rename_i hunsaved
    refine .inr ?_
    have hsav : room.Savable := ⟨by simpa using hstarted, by simpa using hpuzzle, by
      intro hfin
      simpa [hfin] using hunsaved⟩
    cases hfin : room.game.finished with
    | false =>
      cases hactive : st.db.activeOf roomId with
      | some old =>
        obtain ⟨hrec, hget⟩ := recorded_old hnum room hactive
          (fun g => { g with
            stateJson := room.game.toSaveDict
            ownerName := (room.owner.bind st.playerNames.lookup).getD room.ownerName
            players := Db.upsertGamePlayers g.players (gamePlayerData room st.playerAuth) })
          (st.db.saveGame roomId room.game.toSaveDict (gamePlayerData room st.playerAuth)
            ((room.owner.bind st.playerNames.lookup).getD room.ownerName) room.isAsync
            room.origin).1
          (fun g => ⟨rfl, rfl, rfl⟩) rfl rfl (by simp [hfin])
          (by simp only [Db.saveGame, hactive, Db.modifyGame])
          (by simp [Db.saveGame, hactive, Db.modifyGame, hfin])
        refine ⟨room, _, _, rfl, hsav, hrec, ?_⟩
        simp only [Db.saveGame, hactive] at hget ⊢
        simp [Room.savedIn, hget, hfin]
      | none =>
        obtain ⟨hrec, hget⟩ := recorded_new hnum room hactive
            { id := st.db.nextId, roomId, stateJson := room.game.toSaveDict, status := .active,
              ownerName := (room.owner.bind st.playerNames.lookup).getD room.ownerName,
              isAsync := room.isAsync,
              players := Db.upsertGamePlayers [] (gamePlayerData room st.playerAuth),
              origin := room.origin.getD st.db.nextId }
          (st.db.saveGame roomId room.game.toSaveDict (gamePlayerData room st.playerAuth)
            ((room.owner.bind st.playerNames.lookup).getD room.ownerName) room.isAsync
            room.origin).1
          rfl rfl rfl (by simp [hfin]) rfl (fun _ => rfl)
          (by simp only [Db.saveGame, hactive]) (by simp [Db.saveGame, hactive, hfin])
        refine ⟨room, _, _, rfl, hsav, hrec, ?_⟩
        simp only [Db.saveGame, hactive] at hget ⊢
        simp [Room.savedIn, hget, hfin]
    | true =>
      cases hactive : st.db.activeOf roomId with
      | some old =>
        obtain ⟨hrec, hget⟩ := recorded_old hnum room hactive
          (fun g => { g with
            stateJson := room.game.toSaveDict
            status := .finished
            players := Db.upsertGamePlayers g.players (gamePlayerData room st.playerAuth) })
          (st.db.finishGame roomId room.game.toSaveDict (gamePlayerData room st.playerAuth)
            room.origin).1
          (fun g => ⟨rfl, rfl, rfl⟩) rfl rfl (by simp [hfin])
          (by simp only [Db.finishGame, hactive, Db.modifyGame])
          (by simp [Db.finishGame, hactive, Db.modifyGame, hfin])
        refine ⟨room, _, _, rfl, hsav, hrec, ?_⟩
        simp only [Db.finishGame, hactive] at hget ⊢
        simp only [Db.getGameById] at hget ⊢
        simp [Room.savedIn, hget, hfin]
      | none =>
        obtain ⟨hrec, hget⟩ := recorded_new hnum room hactive
            { id := st.db.nextId, roomId, stateJson := room.game.toSaveDict, status := .finished,
              ownerName := "", isAsync := false,
              players := Db.upsertGamePlayers [] (gamePlayerData room st.playerAuth),
              origin := room.origin.getD st.db.nextId }
          (st.db.finishGame roomId room.game.toSaveDict (gamePlayerData room st.playerAuth)
            room.origin).1
          rfl rfl rfl (by simp [hfin]) rfl (fun h => by simp [hfin] at h)
          (by simp only [Db.finishGame, hactive]) (by simp [Db.finishGame, hactive, hfin])
        refine ⟨room, _, _, rfl, hsav, hrec, ?_⟩
        simp only [Db.finishGame, hactive] at hget ⊢
        simp [Room.savedIn, hget, hfin]

/-! ## Elementary changes -/

/-- A room moves on: its game, its players and its timers may change, its records do not. -/
structure Room.Moved (room room' : Room) : Prop where
  started : room.game.started = true → room'.game.started = true
  starts : room'.game.started = true → room.game.started = true ∨ room.restoreSaveData = none
  puzzle : room'.game.puzzle.isSome = room.game.puzzle.isSome
  finished : room.game.puzzle = none → room.game.finished = true → room'.game.finished = true
  proper : room.hall.Proper → room'.hall.Proper
  human : room.hall.Human → room'.hall.Human
  isAsync : room'.isAsync = room.isAsync
  dbGameId : room'.dbGameId = room.dbGameId
  resultSaved : room'.resultSaved = room.resultSaved
  origin : room'.origin = room.origin
  restoreSaveData : room'.restoreSaveData = room.restoreSaveData

/-- Rooms, connections, tokens and waiting tasks move on. -/
structure Moved (st st' : Server) : Prop where
  rooms : ∀ r, Option.Rel Room.Moved (st.rooms.lookup r) (st'.rooms.lookup r)
  db : st'.db = st.db
  roomSeq : st'.roomSeq = st.roomSeq
  named : st.presence.Named → st'.presence.Named

/-- A save that can be played on. -/
structure SavedGame.Sound (row : SavedGame) : Prop where
  game : ∃ g : Game, row.stateJson = g.toSaveDict ∧ g.started = true ∧
    (∀ x ∈ g.seats, x.Proper) ∧ (row.isAsync = true → ∀ x ∈ g.seats, x.isBot = false)

/-- The lobby of a save, which is in the database. -/
structure Lobby (db : Db) (room : Room) (save : SavedGame) : Prop where
  waiting : room.game.started = false
  notAsync : room.isAsync = false
  human : room.hall.Human
  saveNotAsync : save.isAsync = false
  sound : save.Sound
  row : ∃ row ∈ db.games, row.id = save.id ∧ row.origin = save.origin

/-- The state of a room without a look at the saves. -/
structure Room.Sound (room : Room) : Prop where
  proper : room.hall.Proper
  human : room.isAsync = true ∨ room.game.puzzle.isSome = true → room.hall.Human
  recorded : room.resultSaved = true →
    room.game.started = true ∧ room.game.finished = true ∧ room.game.puzzle = none
  waiting : room.game.started = false → room.origin = none

/-- A room as it is opened. -/
structure Opens (db : Db) (room : Room) : Prop where
  sound : room.Sound
  origin : room.origin = none
  resultSaved : room.resultSaved = false
  lobby : ∀ save, room.restoreSaveData = some save → Lobby db room save
  active : ∀ save, room.restoreSaveData = some save → save ∈ db.games ∧ save.status = .active

/-- The room of a correspondence game as it is loaded from an active row. -/
structure Loads (st : Server) (row : SavedGame) (room : Room) : Prop where
  row_mem : row ∈ st.db.games
  active : row.status = .active
  free : st.rooms.lookup row.roomId = none
  started : room.game.started = true
  puzzle : room.game.puzzle = none
  proper : room.hall.Proper
  human : room.hall.Human
  isAsync : room.isAsync = row.isAsync
  dbGameId : room.dbGameId = some row.id
  resultSaved : room.resultSaved = false
  origin : room.origin = some row.origin
  restoreSaveData : room.restoreSaveData = none
  correspondence : row.isAsync = true

/-- Some saves are closed. -/
def Closes (db db' : Db) : Prop :=
  db'.finishes = db.finishes ∧ ∃ f : SavedGame → SavedGame, db'.games = db.games.map f ∧
    ∀ g, f g = g ∨ f g = { g with status := .abandoned }

/-- A lobby becomes the restored game. -/
structure Restarts (room : Room) (save : SavedGame) (room' : Room) : Prop where
  started : room'.game.started = true
  puzzle : room'.game.puzzle = none
  proper : room'.hall.Proper
  isAsync : room'.isAsync = room.isAsync
  dbGameId : room'.dbGameId = none
  resultSaved : room'.resultSaved = room.resultSaved
  origin : room'.origin = some save.origin
  restoreSaveData : room'.restoreSaveData = none

/-- **The elementary changes**; a lobby becomes the restored game only under the condition
`K`. -/
inductive Change (K : Server → RoomId → SavedGame → Prop) : Server → Server → Prop
  | moved {st st' : Server} (h : Moved st st') : Change K st st'
  | saved (st : Server) (roomId : RoomId) : Change K st (st.saveGameToDb roomId).1
  | opened {st : Server} {room : Room} (h : Opens st.db room) : Change K st (st.addRoom room)
  | loaded {st : Server} {row : SavedGame} {room : Room} (h : Loads st row room) :
      Change K st { st with rooms := st.rooms.insert row.roomId room }
  | released {st : Server} {db : Db} (roomId : RoomId) (h : Closes st.db db) :
      Change K st { st with rooms := st.rooms.erase roomId, db }
  | restarted {st : Server} {roomId : RoomId} {room room' : Room} {save : SavedGame}
      (hroom : st.rooms.lookup roomId = some room) (hsave : room.restoreSaveData = some save)
      (hK : K st roomId save) (h : Restarts room save room') :
      Change K st { st with
        rooms := st.rooms.insert roomId room'
        db := st.db.abandonGameById save.id }

/-- What a handler does: elementary changes one after the other. -/
abbrev Course (K : Server → RoomId → SavedGame → Prop) : Server → Server → Prop :=
  Relation.ReflTransGen (Change K)

/-! ## The invariant of the archive -/

/-- The active row of a room is the one it knows of. -/
structure Filed (room : Room) (row : SavedGame) : Prop where
  started : room.game.started = true
  puzzle : room.game.puzzle = none
  isAsync : room.isAsync = row.isAsync
  dbGameId : room.dbGameId = some row.id
  resultSaved : room.resultSaved = false
  origin : room.origin = some row.origin

structure Archive (st : Server) : Prop where
  numbered : st.db.Numbered
  roomIds : ∀ r room, st.rooms.lookup r = some room → r < st.roomSeq
  rowIds : ∀ row ∈ st.db.games, row.roomId < st.roomSeq
  /-- At most one active row belongs to a room. -/
  single : ∀ row ∈ st.db.games, ∀ row' ∈ st.db.games, row.status = .active →
    row'.status = .active → row.roomId = row'.roomId → row = row'
  rooms : ∀ r room, st.rooms.lookup r = some room → room.Sound
  lobbies : ∀ r room save, st.rooms.lookup r = some room → room.restoreSaveData = some save →
    Lobby st.db room save
  filed : ∀ row ∈ st.db.games, row.status = .active → ∀ room,
    st.rooms.lookup row.roomId = some room → Filed room row
  saves : ∀ row ∈ st.db.games, row.status = .active → row.Sound
  named : st.presence.Named

variable {st : Server} {K : Server → RoomId → SavedGame → Prop}

/-! ## Rooms that move on -/

theorem Moved.room {st st' : Server} (h : Moved st st') {r : RoomId} {room' : Room}
    (hroom : st'.rooms.lookup r = some room') :
    ∃ room, st.rooms.lookup r = some room ∧ Room.Moved room room' := by
  have hr := h.rooms r
  rw [hroom] at hr
  generalize hlookup : st.rooms.lookup r = o at hr
  cases hr with
  | some hmoved => exact ⟨_, rfl, hmoved⟩

theorem Room.Sound.moved {room room' : Room} (h : room.Sound) (hm : Room.Moved room room') :
    room'.Sound where
  proper := hm.proper h.proper
  human := fun hk => hm.human (h.human (by rwa [hm.isAsync, hm.puzzle] at hk))
  recorded := by
    intro hsaved
    obtain ⟨hstarted, hfin, hpuzzle⟩ := h.recorded (hm.resultSaved ▸ hsaved)
    have hpuzzle' := hm.puzzle
    rw [hpuzzle] at hpuzzle'
    exact ⟨hm.started hstarted, hm.finished hpuzzle hfin, by simpa using hpuzzle'⟩
  waiting := by
    intro hwait
    rw [hm.origin]
    refine h.waiting ?_
    cases hs : room.game.started with
    | false => rfl
    | true => exact absurd (hm.started hs) (by simp [hwait])

theorem Lobby.moved {db : Db} {room room' : Room} {save : SavedGame} (h : Lobby db room save)
    (hsave : room.restoreSaveData = some save) (hm : Room.Moved room room') :
    Lobby db room' save where
  waiting := by
    cases hs : room'.game.started with
    | false => rfl
    | true =>
      rcases hm.starts hs with hs | hs
      · rw [h.waiting] at hs
        cases hs
      · rw [hsave] at hs
        cases hs
  notAsync := hm.isAsync.trans h.notAsync
  human := hm.human h.human
  saveNotAsync := h.saveNotAsync
  sound := h.sound
  row := h.row

theorem Filed.moved {room room' : Room} {row : SavedGame} (h : Filed room row)
    (hm : Room.Moved room room') : Filed room' row where
  started := hm.started h.started
  puzzle := by
    have hpuzzle := hm.puzzle
    rw [h.puzzle] at hpuzzle
    simpa using hpuzzle
  isAsync := hm.isAsync.trans h.isAsync
  dbGameId := hm.dbGameId.trans h.dbGameId
  resultSaved := hm.resultSaved.trans h.resultSaved
  origin := hm.origin.trans h.origin

theorem Archive.moved {st' : Server} (h : Archive st) (hm : Moved st st') : Archive st' where
  numbered := hm.db ▸ h.numbered
  roomIds := fun r room' hroom' => by
    obtain ⟨room, hroom, -⟩ := hm.room hroom'
    exact hm.roomSeq ▸ h.roomIds r room hroom
  rowIds := by
    rw [hm.db, hm.roomSeq]
    exact h.rowIds
  single := hm.db ▸ h.single
  rooms := fun r room' hroom' => by
    obtain ⟨room, hroom, hmoved⟩ := hm.room hroom'
    exact (h.rooms r room hroom).moved hmoved
  lobbies := fun r room' save hroom' hsave => by
    obtain ⟨room, hroom, hmoved⟩ := hm.room hroom'
    rw [hmoved.restoreSaveData] at hsave
    rw [hm.db]
    exact (h.lobbies r room save hroom hsave).moved hsave hmoved
  filed := fun row hrow hactive room' hroom' => by
    obtain ⟨room, hroom, hmoved⟩ := hm.room hroom'
    exact (h.filed row (hm.db ▸ hrow) hactive room hroom).moved hmoved
  saves := hm.db ▸ h.saves
  named := hm.named h.named

/-! ## A game that is saved -/

namespace Recorded

variable {roomId : RoomId} {room : Room} {db : Db} {row : SavedGame}

/-- The other rows are those there were. -/
theorem mem_cases (h : Recorded st roomId room db row) (hnum : st.db.Numbered) {g : SavedGame}
    (hg : g ∈ db.games) : g = row ∨ g ∈ st.db.games ∧ g.id ≠ row.id := by
  rcases h.games with ⟨old, f, hactive, rfl, hf, hgames⟩ | ⟨-, hid, -, -, hgames⟩
  · rw [hgames] at hg
    obtain ⟨g₀, hg₀, rfl⟩ := List.mem_map.mp hg
    by_cases hid : g₀.id = old.id
    · rw [if_pos hid, hnum.eq_of_id hg₀ (mem_of_activeOf hactive).1 hid]
      exact .inl rfl
    · rw [if_neg hid]
      exact .inr ⟨hg₀, by rwa [(hf old).1]⟩
  · rw [hgames] at hg
    rcases List.mem_append.mp hg with hg | hg
    · exact .inr ⟨hg, by rw [hid]; exact (hnum.lt_nextId hg).ne⟩
    · exact .inl (List.mem_singleton.mp hg)

/-- No row is lost. -/
theorem keeps (h : Recorded st roomId room db row) {g : SavedGame} (hg : g ∈ st.db.games) :
    ∃ g' ∈ db.games, g'.id = g.id ∧ g'.origin = g.origin := by
  rcases h.games with ⟨old, f, -, -, hf, hgames⟩ | ⟨-, -, -, -, hgames⟩
  · rw [hgames]
    by_cases hid : g.id = old.id
    · exact ⟨f g, List.mem_map.mpr ⟨g, hg, if_pos hid⟩, (hf g).1, (hf g).2.1⟩
    · exact ⟨g, List.mem_map.mpr ⟨g, hg, if_neg hid⟩, rfl, rfl⟩
  · rw [hgames]
    exact ⟨g, List.mem_append_left _ hg, rfl, rfl⟩

theorem numbered (h : Recorded st roomId room db row) (hnum : st.db.Numbered) : db.Numbered := by
  intro i g hg
  rcases h.games with ⟨old, f, -, -, hf, hgames⟩ | ⟨-, hid, -, -, hgames⟩
  · rw [hgames, List.getElem?_map, Option.map_eq_some_iff] at hg
    obtain ⟨g₀, hg₀, rfl⟩ := hg
    split
    · rw [(hf g₀).1, hnum i g₀ hg₀]
    · exact hnum i g₀ hg₀
  · rw [hgames] at hg
    by_cases hi : i < st.db.games.length
    · rw [List.getElem?_append_left hi] at hg
      exact hnum i g hg
    · rw [List.getElem?_append_right (by omega), List.getElem?_singleton] at hg
      split at hg
      · cases hg
        rw [hid, Db.nextId]
        omega
      · cases hg

/-- A row of the room that was active before is the one the game is recorded in. -/
theorem id_eq (h : Recorded st roomId room db row) (ha : Archive st) {g : SavedGame}
    (hg : g ∈ st.db.games) (hactive : g.status = .active) (hroom : g.roomId = roomId) :
    g.id = row.id := by
  rcases h.games with ⟨old, f, hold, rfl, hf, -⟩ | ⟨hnone, -⟩
  · obtain ⟨hmem, hroom', hactive'⟩ := mem_of_activeOf hold
    rw [(hf old).1, ha.single g hg old hmem hactive hactive' (hroom.trans hroom'.symm)]
  · exact absurd hactive (activeOf_eq_none_iff.mp hnone g hg hroom)

/-- An active row belongs to a game that goes on. -/
theorem unfinished (h : Recorded st roomId room db row) (hactive : row.status = .active) :
    room.game.finished = false := by
  cases hfin : room.game.finished with
  | false => rfl
  | true =>
    rw [h.status_eq, hfin] at hactive
    cases hactive

theorem isAsync_eq (h : Recorded st roomId room db row) (ha : Archive st)
    (hroom : st.rooms.lookup roomId = some room) (hactive : row.status = .active) :
    room.isAsync = row.isAsync := by
  rcases h.games with ⟨old, f, hold, rfl, hf, -⟩ | ⟨-, -, -, hnew, -⟩
  · obtain ⟨hmem, rfl, hactive'⟩ := mem_of_activeOf hold
    rw [(hf old).2.2]
    exact (ha.filed old hmem hactive' room hroom).isAsync
  · exact (hnew (h.unfinished hactive)).symm

end Recorded

theorem presence_savedIn {roomId : RoomId} {room : Room} {row : SavedGame} (db : Db)
    (hroom : st.rooms.lookup roomId = some room) :
    ({ st with db, rooms := st.rooms.insert roomId (room.savedIn row) } : Server).presence =
      st.presence := by
  refine Presence.ext ?_ rfl rfl rfl rfl rfl rfl rfl rfl rfl
  funext r
  by_cases hr : r = roomId
  · subst hr
    simp [presence, hroom, Room.savedIn, Room.hall]
  · simp [presence, Table.lookup_insert, hr]

theorem Archive.saved (h : Archive st) (roomId : RoomId) :
    Archive (st.saveGameToDb roomId).1 := by
  obtain heq | ⟨room, db, row, hroom, hsav, hrec, heq⟩ :=
    st.saveGameToDb_cases h.numbered roomId
  · rw [heq]
    exact h
  rw [heq]
  have hlookup : ∀ r, (st.rooms.insert roomId (room.savedIn row)).lookup r =
      if r = roomId then some (room.savedIn row) else st.rooms.lookup r :=
    fun r => Table.lookup_insert ..
  have hsound := h.rooms roomId room hroom
  have hgone : ∀ {g : SavedGame}, g ∈ st.db.games → g.id ≠ row.id → g.status = .active →
      g.roomId ≠ roomId := fun hg hid hactive hr => hid (hrec.id_eq h hg hactive hr)
  constructor
  case numbered => exact hrec.numbered h.numbered
  case roomIds =>
    intro r room' hroom'
    rw [hlookup] at hroom'
    split at hroom'
    · rename_i hr
      exact hr ▸ h.roomIds roomId room hroom
    · exact h.roomIds r room' hroom'
  case rowIds =>
    intro g hg
    rcases hrec.mem_cases h.numbered hg with rfl | ⟨hg, -⟩
    · exact hrec.roomId_eq ▸ h.roomIds roomId room hroom
    · exact h.rowIds g hg
  case single =>
    intro g hg g' hg' hactive hactive' hroomIds
    rcases hrec.mem_cases h.numbered hg with rfl | ⟨hg, hid⟩
    · rcases hrec.mem_cases h.numbered hg' with rfl | ⟨hg', hid'⟩
      · rfl
      · exact absurd (hroomIds.symm.trans hrec.roomId_eq) (hgone hg' hid' hactive')
    · rcases hrec.mem_cases h.numbered hg' with heq' | ⟨hg', -⟩
      · rw [heq', hrec.roomId_eq] at hroomIds
        exact absurd hroomIds (hgone hg hid hactive)
      · exact h.single g hg g' hg' hactive hactive' hroomIds
  case rooms =>
    intro r room' hroom'
    rw [hlookup] at hroom'
    split at hroom'
    · cases hroom'
      refine ⟨hsound.proper, hsound.human, fun hsaved => ⟨hsav.started, ?_, hsav.puzzle⟩,
        fun hwait => ?_⟩
      · rcases Bool.or_eq_true_iff.mp hsaved with hsaved | hfin
        · exact (hsound.recorded hsaved).2.1
        · exact hfin
      · exact absurd hsav.started (by rw [show room.game.started = false from hwait]; simp)
    · exact h.rooms r room' hroom'
  case lobbies =>
    intro r room' save hroom' hsave
    rw [hlookup] at hroom'
    split at hroom'
    · cases hroom'
      have hwait := (h.lobbies roomId room save hroom hsave).waiting
      rw [hsav.started] at hwait
      cases hwait
    · have hl := h.lobbies r room' save hroom' hsave
      obtain ⟨g, hg, hid, horigin⟩ := hl.row
      obtain ⟨g', hg', hid', horigin'⟩ := hrec.keeps hg
      exact { hl with row := ⟨g', hg', hid'.trans hid, horigin'.trans horigin⟩ }
  case filed =>
    intro g hg hactive room' hroom'
    rw [hlookup] at hroom'
    rcases hrec.mem_cases h.numbered hg with rfl | ⟨hg, hid⟩
    · rw [if_pos hrec.roomId_eq] at hroom'
      cases hroom'
      refine ⟨hsav.started, hsav.puzzle, hrec.isAsync_eq h hroom hactive, rfl, ?_, rfl⟩
      have hfin := hrec.unfinished hactive
      cases hsaved : room.resultSaved with
      | false => simp [Room.savedIn, hsaved, hfin]
      | true =>
        rw [(hsound.recorded hsaved).2.1] at hfin
        cases hfin
    · rw [if_neg (hgone hg hid hactive)] at hroom'
      exact h.filed g hg hactive room' hroom'
  case saves =>
    intro g hg hactive
    rcases hrec.mem_cases h.numbered hg with rfl | ⟨hg, -⟩
    · refine ⟨room.game, hrec.stateJson_eq, hsav.started, hsound.proper, fun hasync => ?_⟩
      rw [← hrec.isAsync_eq h hroom hactive] at hasync
      exact hsound.human (.inl hasync)
    · exact h.saves g hg hactive
  case named =>
    rw [presence_savedIn db hroom]
    exact h.named

/-! ## Rooms that come and go -/

theorem Archive.opened (h : Archive st) {room : Room} (ho : Opens st.db room) :
    Archive (st.addRoom room) := by
  have hlookup : ∀ r room', (st.addRoom room).rooms.lookup r = some room' →
      r = st.roomSeq ∧ room' = room ∨ st.rooms.lookup r = some room' := by
    intro r room' hroom'
    rw [addRoom, Table.lookup_insert] at hroom'
    split at hroom'
    · rename_i hr
      exact .inl ⟨hr, (Option.some.inj hroom').symm⟩
    · exact .inr hroom'
  refine
    { numbered := h.numbered, roomIds := ?_, rowIds := ?_, single := h.single, rooms := ?_,
      lobbies := ?_, filed := ?_, saves := h.saves, named := ⟨h.named.holder, h.named.away⟩ }
  · intro r room' hroom'
    obtain ⟨rfl, -⟩ | hroom' := hlookup r room' hroom'
    · exact Nat.lt_succ_self _
    · exact Nat.lt_succ_of_lt (h.roomIds r room' hroom')
  · exact fun row hrow => Nat.lt_succ_of_lt (h.rowIds row hrow)
  · intro r room' hroom'
    obtain ⟨-, rfl⟩ | hroom' := hlookup r room' hroom'
    · exact ho.sound
    · exact h.rooms r room' hroom'
  · intro r room' save hroom' hsave
    obtain ⟨-, rfl⟩ | hroom' := hlookup r room' hroom'
    · exact ho.lobby save hsave
    · exact h.lobbies r room' save hroom' hsave
  · intro row hrow hactive room' hroom'
    obtain ⟨hr, -⟩ | hroom' := hlookup row.roomId room' hroom'
    · exact absurd hr (h.rowIds row hrow).ne
    · exact h.filed row hrow hactive room' hroom'

theorem Archive.loaded (h : Archive st) {row : SavedGame} {room : Room} (hl : Loads st row room) :
    Archive { st with rooms := st.rooms.insert row.roomId room } := by
  have hlookup : ∀ r room', (st.rooms.insert row.roomId room).lookup r = some room' →
      r = row.roomId ∧ room' = room ∨ st.rooms.lookup r = some room' := by
    intro r room' hroom'
    rw [Table.lookup_insert] at hroom'
    split at hroom'
    · rename_i hr
      exact .inl ⟨hr, (Option.some.inj hroom').symm⟩
    · exact .inr hroom'
  refine
    { numbered := h.numbered, roomIds := ?_, rowIds := h.rowIds, single := h.single, rooms := ?_,
      lobbies := ?_, filed := ?_, saves := h.saves, named := ⟨h.named.holder, h.named.away⟩ }
  · intro r room' hroom'
    obtain ⟨rfl, -⟩ | hroom' := hlookup r room' hroom'
    · exact h.rowIds row hl.row_mem
    · exact h.roomIds r room' hroom'
  · intro r room' hroom'
    obtain ⟨-, rfl⟩ | hroom' := hlookup r room' hroom'
    · refine ⟨hl.proper, fun _ => hl.human, fun hsaved => ?_, fun hwait => ?_⟩
      · rw [hl.resultSaved] at hsaved
        cases hsaved
      · rw [hl.started] at hwait
        cases hwait
    · exact h.rooms r room' hroom'
  · intro r room' save hroom' hsave
    obtain ⟨-, rfl⟩ | hroom' := hlookup r room' hroom'
    · rw [hl.restoreSaveData] at hsave
      cases hsave
    · exact h.lobbies r room' save hroom' hsave
  · intro g hg hactive room' hroom'
    obtain ⟨hr, rfl⟩ | hroom' := hlookup g.roomId room' hroom'
    · obtain rfl := h.single g hg row hl.row_mem hactive hl.active hr
      exact ⟨hl.started, hl.puzzle, hl.isAsync, hl.dbGameId, hl.resultSaved, hl.origin⟩
    · exact h.filed g hg hactive room' hroom'

namespace Closes

variable {db db' : Db}

theorem refl (db : Db) : Closes db db := ⟨rfl, id, by simp, fun _ => .inl rfl⟩

theorem abandonGameById (db : Db) (id : ℕ) : Closes db (db.abandonGameById id) := by
  refine ⟨rfl, fun g => if g.id = id then
    if g.status = .active then { g with status := .abandoned } else g else g, rfl, fun g => ?_⟩
  dsimp only
  split_ifs
  · exact .inr rfl
  · exact .inl rfl
  · exact .inl rfl

theorem abandonGame (db : Db) (roomId : RoomId) : Closes db (db.abandonGame roomId) := by
  refine ⟨rfl, fun g => if g.roomId = roomId ∧ g.status = .active then
    { g with status := .abandoned } else g, rfl, fun g => ?_⟩
  dsimp only
  split_ifs
  · exact .inr rfl
  · exact .inl rfl

theorem mem (h : Closes db db') {row : SavedGame} (hrow : row ∈ db'.games) :
    ∃ g ∈ db.games, row = g ∨ row = { g with status := .abandoned } := by
  obtain ⟨-, f, hgames, hf⟩ := h
  rw [hgames] at hrow
  obtain ⟨g, hg, rfl⟩ := List.mem_map.mp hrow
  exact ⟨g, hg, hf g⟩

/-- A row that is still active has not changed. -/
theorem active (h : Closes db db') {row : SavedGame} (hrow : row ∈ db'.games)
    (hactive : row.status = .active) : row ∈ db.games := by
  obtain ⟨g, hg, rfl | rfl⟩ := h.mem hrow
  · exact hg
  · cases hactive

theorem keeps (h : Closes db db') {g : SavedGame} (hg : g ∈ db.games) :
    ∃ g' ∈ db'.games, g'.id = g.id ∧ g'.origin = g.origin := by
  obtain ⟨-, f, hgames, hf⟩ := h
  refine ⟨f g, hgames ▸ List.mem_map_of_mem hg, ?_⟩
  rcases hf g with hfg | hfg <;> rw [hfg] <;> exact ⟨rfl, rfl⟩

theorem numbered (h : Closes db db') (hnum : db.Numbered) : db'.Numbered := by
  obtain ⟨-, f, hgames, hf⟩ := h
  intro i row hrow
  rw [hgames, List.getElem?_map, Option.map_eq_some_iff] at hrow
  obtain ⟨g, hg, rfl⟩ := hrow
  have hid := hnum i g hg
  rcases hf g with hfg | hfg <;> rw [hfg] <;> exact hid

theorem rowIds (h : Closes db db') {n : RoomId} (hdb : ∀ row ∈ db.games, row.roomId < n) :
    ∀ row ∈ db'.games, row.roomId < n := by
  intro row hrow
  obtain ⟨g, hg, rfl | rfl⟩ := h.mem hrow
  · exact hdb _ hg
  · exact hdb g hg

theorem lobby (h : Closes db db') {room : Room} {save : SavedGame} (hl : Lobby db room save) :
    Lobby db' room save := by
  obtain ⟨g, hg, hid, horigin⟩ := hl.row
  obtain ⟨g', hg', hid', horigin'⟩ := h.keeps hg
  exact { hl with row := ⟨g', hg', hid'.trans hid, horigin'.trans horigin⟩ }

end Closes

theorem Archive.released (h : Archive st) {db : Db} (roomId : RoomId) (hc : Closes st.db db) :
    Archive { st with rooms := st.rooms.erase roomId, db } := by
  have hlookup : ∀ r room, (st.rooms.erase roomId).lookup r = some room →
      st.rooms.lookup r = some room := by
    intro r room hroom
    rw [Table.lookup_erase] at hroom
    split at hroom
    · cases hroom
    · exact hroom
  exact
    { numbered := hc.numbered h.numbered
      roomIds := fun r room hroom => h.roomIds r room (hlookup r room hroom)
      rowIds := hc.rowIds h.rowIds
      single := fun g hg g' hg' ha ha' hr =>
        h.single g (hc.active hg ha) g' (hc.active hg' ha') ha ha' hr
      rooms := fun r room hroom => h.rooms r room (hlookup r room hroom)
      lobbies := fun r room save hroom hsave =>
        hc.lobby (h.lobbies r room save (hlookup r room hroom) hsave)
      filed := fun g hg ha room hroom => h.filed g (hc.active hg ha) ha room (hlookup _ room hroom)
      saves := fun g hg ha => h.saves g (hc.active hg ha) ha
      named := ⟨h.named.holder, h.named.away⟩ }

theorem Archive.restarted (h : Archive st) {roomId : RoomId} {room room' : Room}
    {save : SavedGame} (hroom : st.rooms.lookup roomId = some room)
    (hsave : room.restoreSaveData = some save) (hr : Restarts room save room') :
    Archive { st with
      rooms := st.rooms.insert roomId room'
      db := st.db.abandonGameById save.id } := by
  have hlobby := h.lobbies roomId room save hroom hsave
  have hunsaved : room'.resultSaved = false := by
    rw [hr.resultSaved]
    cases hs : room.resultSaved with
    | false => rfl
    | true =>
      have hstarted := ((h.rooms roomId room hroom).recorded hs).1
      rw [hlobby.waiting] at hstarted
      cases hstarted
  have hlookup : ∀ r room₁, (st.rooms.insert roomId room').lookup r = some room₁ →
      r = roomId ∧ room₁ = room' ∨ r ≠ roomId ∧ st.rooms.lookup r = some room₁ := by
    intro r room₁ hroom₁
    rw [Table.lookup_insert] at hroom₁
    split at hroom₁
    · rename_i hr
      exact .inl ⟨hr, (Option.some.inj hroom₁).symm⟩
    · rename_i hr
      exact .inr ⟨hr, hroom₁⟩
  have hc := Closes.abandonGameById st.db save.id
  refine
    { numbered := hc.numbered h.numbered
      roomIds := ?_
      rowIds := hc.rowIds h.rowIds
      single := fun g hg g' hg' ha ha' hr =>
        h.single g (hc.active hg ha) g' (hc.active hg' ha') ha ha' hr
      rooms := ?_
      lobbies := ?_
      filed := ?_
      saves := fun g hg ha => h.saves g (hc.active hg ha) ha
      named := ⟨h.named.holder, h.named.away⟩ }
  · intro r room₁ hroom₁
    obtain ⟨rfl, -⟩ | ⟨-, hroom₁⟩ := hlookup r room₁ hroom₁
    · exact h.roomIds r room hroom
    · exact h.roomIds r room₁ hroom₁
  · intro r room₁ hroom₁
    obtain ⟨rfl, rfl⟩ | ⟨-, hroom₁⟩ := hlookup r room₁ hroom₁
    · refine ⟨hr.proper, fun hk => ?_, fun hs => ?_, fun hwait => ?_⟩
      · rw [hr.isAsync, hlobby.notAsync, hr.puzzle] at hk
        simp at hk
      · rw [hunsaved] at hs
        cases hs
      · rw [hr.started] at hwait
        cases hwait
    · exact h.rooms r room₁ hroom₁
  · intro r room₁ save₁ hroom₁ hsave₁
    obtain ⟨-, rfl⟩ | ⟨-, hroom₁⟩ := hlookup r room₁ hroom₁
    · rw [hr.restoreSaveData] at hsave₁
      cases hsave₁
    · exact hc.lobby (h.lobbies r room₁ save₁ hroom₁ hsave₁)
  · intro g hg ha room₁ hroom₁
    have hg := hc.active hg ha
    obtain ⟨hgr, -⟩ | ⟨-, hroom₁⟩ := hlookup g.roomId room₁ hroom₁
    · have hstarted := (h.filed g hg ha room (hgr ▸ hroom)).started
      rw [hlobby.waiting] at hstarted
      cases hstarted
    · exact h.filed g hg ha room₁ hroom₁

/-- **Every elementary change keeps the archive in order.** -/
theorem Change.archive {st' : Server} (hc : Change K st st') (h : Archive st) : Archive st' := by
  cases hc with
  | moved hm => exact h.moved hm
  | saved roomId => exact h.saved roomId
  | opened ho => exact h.opened ho
  | loaded hl => exact h.loaded hl
  | released roomId hc => exact h.released roomId hc
  | restarted hroom hsave hK hr => exact h.restarted hroom hsave hr

theorem Course.archive {st' : Server} (hc : Course K st st') (h : Archive st) : Archive st' := by
  induction hc with
  | refl => exact h
  | tail _ hstep ih => exact hstep.archive ih

end Server

end ScrabbleMagyar
