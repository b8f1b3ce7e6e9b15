import ScrabbleMagyar.Db.Results
import ScrabbleMagyar.Engine.Growth
import ScrabbleMagyar.Server.Core

/-!
# Saving when the database fails

`save_game_to_db` (`server/core.rs`) makes two calls, each a transaction of its own: the game is
saved or its result recorded, and then the new entries of the move log are stored. Either can fail
whenever it is made. Two marks of the room say how far the saves have come: `resultSaved` and
`lastSavedMoveCount`.

The rooms of a server play and save in any order; a room is there from the start of a run, newly
opened or loaded from its save (`Opened`).

* `Saving.exact_of_run`: the result of a game counts once, when it has been recorded, and as long
  as no save records a result without the entries that are still missing, every save that succeeds
  leaves the whole log behind.
* `Saving.lost_entry`: without that condition an entry is lost, and the next save reports success.
-/

namespace ScrabbleMagyar

namespace Saving

open Records
open Server (UserId RoomId GamePlayerData AuthInfo)

/-- A room with the number of entries of its log that have been stored. -/
structure Room extends Server.Room where
  lastSavedMoveCount : ℕ

/-- What a save takes from outside its room, and which of its calls fail. -/
structure Call where
  now : ℕ
  playerNames : Table String String
  playerAuth : Table String AuthInfo
  /-- `save_game` or `finish_game` fails. -/
  recordFails : Bool
  /-- `add_game_moves` fails. -/
  movesFail : Bool

structure State where
  db : Store
  rooms : Table RoomId Room

namespace Room

/-- The entries of the log that have not been stored. -/
def newMoves (room : Room) : List MoveLog :=
  room.game.moveLog.drop (min room.lastSavedMoveCount room.game.moveLog.length)

def hasBots (room : Room) : Bool := room.game.players.any Player.isBot

/-- The first of the two calls. -/
def record (rule : RatingRule) (db : Store) (roomId : RoomId) (room : Room) (call : Call) :
    Option (Store × ℕ) :=
  if call.recordFails then none
  else
    let players := Server.gamePlayerData room.toRoom call.playerAuth
    if room.game.finished then
      db.finishGame rule call.now roomId room.game.toSaveDict players room.hasBots
    else
      let ownerName := (room.owner.bind call.playerNames.lookup).getD room.ownerName
      db.saveGame call.now roomId room.game.toSaveDict players ownerName room.hasBots

/-- The room after the first call. -/
def recorded (room : Room) (id : ℕ) : Room :=
  { room with dbGameId := some id, resultSaved := room.resultSaved || room.game.finished }

/-- The room after both calls. -/
def stored (room : Room) (id : ℕ) : Room :=
  { room.recorded id with lastSavedMoveCount := room.game.moveLog.length }

end Room

variable (rule : RatingRule)

/-- Save the game of a room, or record its result when it has ended. The answer is whether that
succeeded. -/
def saveGameToDb (st : State) (roomId : RoomId) (call : Call) : State × Bool :=
  match st.rooms.lookup roomId with
  | none => (st, false)
  | some room =>
    -- the result of a daily puzzle is stored elsewhere
    if room.game.puzzle.isSome then (st, true)
    else if !room.game.started then (st, false)
    else if room.game.finished && room.resultSaved then (st, true)
    else match room.record rule st.db roomId call with
      | none => (st, false)
      | some (db, id) =>
        match if call.movesFail then none else db.addGameMoves id room.newMoves with
        | none => (⟨db, st.rooms.insert roomId (room.recorded id)⟩, false)
        | some db => (⟨db, st.rooms.insert roomId (room.stored id)⟩, true)

inductive Event
  | play (roomId : RoomId) (input : Input)
  | save (roomId : RoomId) (call : Call)

def step (st : State) : Event → State
  | .play roomId input =>
    match st.rooms.lookup roomId with
    | none => st
    | some room =>
      { st with rooms := st.rooms.insert roomId { room with game := room.game.step input } }
  | .save roomId call => (saveGameToDb rule st roomId call).1

/-- The event is the save of a room whose `finish_game` succeeds. -/
def closes (roomId : RoomId) (st : State) : Event → Bool
  | .play _ _ => false
  | .save id call => id = roomId && match st.rooms.lookup id with
    | none => false
    | some room =>
      room.game.puzzle.isNone && room.game.started && room.game.finished && !room.resultSaved &&
        (room.record rule st.db id call).isSome

/-- A room as it is when it opens: new to the database, also when its game is restored from
another save, or loaded from its own save with the moves stored there. -/
def Opened (db : Store) (roomId : RoomId) (room : Room) : Prop :=
  room.game.Quiet ∧ room.resultSaved = false ∧
    ((room.dbGameId = none ∧ room.lastSavedMoveCount = 0 ∧ ∀ g ∈ db.games, g.roomId ≠ roomId) ∨
      ∃ g, db.activeOf roomId = some g ∧ room.dbGameId = some g.id ∧
        db.getGameMoves g.id = room.game.moveLog ∧
        room.lastSavedMoveCount = room.game.moveLog.length)

/-- A server at the start of a run. -/
def Init (st : State) : Prop :=
  st.db.WellFormed ∧ ∀ roomId room, st.rooms.lookup roomId = some room → Opened st.db roomId room

/-! ## One save -/

/-- **What a save can do.** -/
inductive Outcome (st : State) (roomId : RoomId) (call : Call) : State → Bool → Prop
  | refused (fails : closes rule roomId st (.save roomId call) = false) :
      Outcome st roomId call st false
  | idle (room : Room) (found : st.rooms.lookup roomId = some room)
      (done : room.game.puzzle.isSome = true ∨
        room.game.finished = true ∧ room.resultSaved = true) : Outcome st roomId call st true
  | halfway (room : Room) (found : st.rooms.lookup roomId = some room)
      (proper : room.game.puzzle = none ∧ room.game.started = true)
      (unsaved : room.game.finished = true → room.resultSaved = false) (db : Store) (id : ℕ)
      (record : room.record rule st.db roomId call = some (db, id))
      (fails : call.movesFail = true ∨ db.addGameMoves id room.newMoves = none) :
      Outcome st roomId call ⟨db, st.rooms.insert roomId (room.recorded id)⟩ false
  | saved (room : Room) (found : st.rooms.lookup roomId = some room)
      (proper : room.game.puzzle = none ∧ room.game.started = true)
      (unsaved : room.game.finished = true → room.resultSaved = false) (db : Store) (id : ℕ)
      (record : room.record rule st.db roomId call = some (db, id)) (db' : Store)
      (moves : db.addGameMoves id room.newMoves = some db') :
      Outcome st roomId call ⟨db', st.rooms.insert roomId (room.stored id)⟩ true

variable {rule} {st : State} {roomId : RoomId} {call : Call}

theorem saveGameToDb_outcome (rule : RatingRule) (st : State) (roomId : RoomId) (call : Call) :
    Outcome rule st roomId call (saveGameToDb rule st roomId call).1
      (saveGameToDb rule st roomId call).2 := by
  unfold saveGameToDb
  split
  · rename_i hnone
    exact .refused (by simp [closes, hnone])
  · rename_i room hroom
    split_ifs with hpuzzle hstarted hsaved hfail
    · exact .idle room hroom (.inl hpuzzle)
    · have hwaiting : room.game.started = false := by simpa using hstarted
      exact .refused (by simp [closes, hroom, hwaiting])
    · exact .idle room hroom (.inr (by simpa using hsaved))
    all_goals
      have hproper : room.game.puzzle = none ∧ room.game.started = true := by
        simpa using And.intro hpuzzle hstarted
      have hunsaved : room.game.finished = true → room.resultSaved = false := by
        simpa using hsaved
      split
      · rename_i hrecord
        exact .refused (by simp [closes, hroom, hrecord])
      rename_i db id hrecord
    · exact .halfway room hroom hproper hunsaved db id hrecord (.inl hfail)
    · split
      · rename_i hmoves
        exact .halfway room hroom hproper hunsaved db id hrecord (.inr hmoves)
      · rename_i db' hmoves
        exact .saved room hroom hproper hunsaved db id hrecord db' hmoves

/-! ## What is stored of a room -/

/-- What the database holds of a room agrees with the room: its moves are the part of the log that
the room counts as stored, its row is active until the result is in, and no other row of the room
is active. -/
structure Sound (db : Store) (roomId : RoomId) (room : Room) : Prop where
  quiet : room.game.Quiet
  count_le : room.lastSavedMoveCount ≤ room.game.moveLog.length
  fresh : room.dbGameId = none → room.lastSavedMoveCount = 0 ∧ room.resultSaved = false
  moves : ∀ id, room.dbGameId = some id →
    db.getGameMoves id = room.game.moveLog.take room.lastSavedMoveCount
  row : ∀ id, room.dbGameId = some id → ∃ g ∈ db.games, g.id = id ∧ g.roomId = roomId ∧
    (room.resultSaved = false → g.status = .active)
  active : ∀ g ∈ db.games, g.roomId = roomId → g.status = .active → room.dbGameId = some g.id
  ended : room.resultSaved = true → room.game.finished = true

theorem sound_of_opened {db : Store} (h : db.WellFormed) {room : Room}
    (hopened : Opened db roomId room) : Sound db roomId room := by
  obtain ⟨hquiet, hresult, ⟨hid, hlast, hnone⟩ | ⟨g, hactive, hid, hmoves, hlast⟩⟩ := hopened
  · exact ⟨hquiet, by omega, fun _ => ⟨hlast, hresult⟩, by simp [hid], by simp [hid],
      fun g hg hroom => absurd hroom (hnone g hg), by simp [hresult]⟩
  · obtain ⟨hg, hroom, hstatus⟩ := Store.activeOf_mem hactive
    refine ⟨hquiet, hlast.le, by simp [hid], fun id hsome => ?_, fun id hsome => ?_,
      fun x hx hxroom hxstatus => ?_, by simp [hresult]⟩
    · rw [← Option.some.inj (hid.symm.trans hsome), hmoves, hlast, List.take_length]
    · exact ⟨g, hg, Option.some.inj (hid.symm.trans hsome), hroom, fun _ => hstatus⟩
    · rw [hid, h.oneActive g hg x hx (hroom.trans hxroom.symm) hstatus hxstatus]

/-- The game goes on: what is stored stays stored. -/
theorem Sound.play {db : Store} {room : Room} (h : Sound db roomId room) {input : Input}
    (hop : input.2 ≠ .saveRestore) :
    Sound db roomId { room with game := room.game.step input } := by
  have heffect := Game.step_effect input.1 room.game input.2
  have hgrows := h.quiet.grows heffect hop
  have hbefore := hgrows.isPrefix
  refine ⟨h.quiet.effect heffect, h.count_le.trans hbefore.length_le, h.fresh, fun id hid => ?_,
    h.row, h.active, fun hsaved => (hgrows.of_finished (h.ended hsaved)).2⟩
  rw [h.moves id hid]
  obtain ⟨rest, hrest⟩ := hbefore
  rw [show (room.game.step input).moveLog = room.game.moveLog ++ rest from hrest.symm,
    List.take_append_of_le_length h.count_le]

/-- A row of another room is put in place. -/
theorem Sound.puts {db db' : Store} {room : Room} (h : Sound db roomId room) (hdb : db.WellFormed)
    {row : GameRow} (hput : Store.Puts db row db') (hne : row.roomId ≠ roomId) :
    Sound db' roomId room := by
  have hkeeps : ∀ g : GameRow, g.roomId = roomId → (g ∈ db'.games ↔ g ∈ db.games) :=
    fun g hroom => hput.keeps hdb (hroom.trans_ne hne.symm)
  refine { h with moves := fun id hid => ?_, row := fun id hid => ?_, active := fun g hg hroom => ?_ }
  · rw [← h.moves id hid, Store.getGameMoves, Store.getGameMoves, hput.moves]
  · obtain ⟨g, hg, hgid, hroom, hstatus⟩ := h.row id hid
    exact ⟨g, (hkeeps g hroom).mpr hg, hgid, hroom, hstatus⟩
  · exact h.active g ((hkeeps g hroom).mp hg) hroom

/-- Moves are stored for the row of another room. -/
theorem Sound.addMoves {db : Store} {room : Room} (h : Sound db roomId room) (hdb : db.WellFormed)
    {row : GameRow} (hrow : row ∈ db.games) (hne : row.roomId ≠ roomId) (log : List MoveLog) :
    Sound (db.appendMoves row.id log) roomId room := by
  refine { h with moves := fun id hid => ?_ }
  obtain ⟨g, hg, hgid, hroom, -⟩ := h.row id hid
  have hother : row.id ≠ id := fun heq =>
    hne (hdb.game_eq hrow hg (heq.trans hgid.symm) ▸ hroom)
  rw [Store.getGameMoves_appendMoves, if_neg hother, List.append_nil, h.moves id hid]

/-- The first call puts the row of the room in place. -/
theorem record_puts {db db' : Store} (hdb : db.WellFormed) {room : Room} {id : ℕ}
    (h : room.record rule db roomId call = some (db', id)) : db'.WellFormed ∧
      ∃ row, Store.Puts db row db' ∧ row.id = id ∧ row.roomId = roomId ∧
        row.status = if room.game.finished then .finished else .active := by
  unfold Room.record at h
  split_ifs at h with hfail hfin
  · obtain ⟨-, ⟨ownerName, hput⟩, -⟩ := Store.finishGame_spec hdb h
    exact ⟨hdb.finishGame h, _, hput, rfl, rfl, (if_pos hfin).symm⟩
  · obtain ⟨-, hput, -⟩ := Store.saveGame_spec hdb h
    exact ⟨hdb.saveGame h, _, hput, rfl, rfl, (if_neg hfin).symm⟩

/-- The room agrees with the database after the first call. -/
theorem Sound.recorded {db db' : Store} {room : Room} (h : Sound db roomId room)
    (hdb : db.WellFormed) (hunsaved : room.game.finished = true → room.resultSaved = false)
    {row : GameRow} (hput : Store.Puts db row db') (hroom : row.roomId = roomId)
    (hstatus : row.status = if room.game.finished then .finished else .active) :
    Sound db' roomId (room.recorded row.id) := by
  have hresult : room.resultSaved = false := by
    by_contra hsaved
    have hsaved : room.resultSaved = true := by simpa using hsaved
    exact absurd (hunsaved (h.ended hsaved)) (by simp [hsaved])
  -- the row is the one the room has had, or the room has had none
  have hmoves : db.getGameMoves row.id = room.game.moveLog.take room.lastSavedMoveCount := by
    obtain ⟨g, hg, hid, hgroom, hactive⟩ | hnew := hput.target
    · exact h.moves row.id (hid ▸ h.active g hg (hgroom.trans hroom) hactive)
    · have hnone : room.dbGameId = none := by
        by_contra hsome
        obtain ⟨id, hid⟩ := Option.ne_none_iff_exists'.mp hsome
        obtain ⟨g, hg, -, hgroom, hactive⟩ := h.row id hid
        exact (hnew g hg).2 (hgroom.trans hroom.symm) (hactive hresult)
      rw [(h.fresh hnone).1, List.take_zero, Store.getGameMoves, List.map_eq_nil_iff,
        List.filter_eq_nil_iff]
      intro m hm heq
      obtain ⟨g, hg, hid⟩ := hdb.moves m hm
      exact (hnew g hg).1 (hid.trans (by simpa using heq))
  refine ⟨h.quiet, h.count_le, by simp [Room.recorded], fun id hid => ?_, fun id hid => ?_,
    fun g hg hgroom hactive => ?_, by simp [Room.recorded, hresult]⟩
  · rw [← Option.some.inj hid]
    exact (congrArg (fun l => (l.filter fun m => m.gameId = row.id).map MoveRow.move)
      hput.moves).trans hmoves
  · refine ⟨row, hput.mem, Option.some.inj hid, hroom, fun hopen => ?_⟩
    have hfin : room.game.finished = false := by simpa [Room.recorded, hresult] using hopen
    rw [hstatus, hfin]
    rfl
  · refine congrArg some ?_
    rcases (hput.games g).mp hg with rfl | ⟨hold, hne⟩
    · rfl
    · obtain ⟨x, hx, hxid, hxroom, hxactive⟩ | hnew := hput.target
      · exact absurd ((hdb.oneActive g hold x hx (hgroom.trans (hxroom.trans hroom).symm) hactive
          hxactive) ▸ hxid) hne
      · exact absurd hactive ((hnew g hold).2 (hgroom.trans hroom.symm))

/-- The room agrees with the database after both calls. -/
theorem Sound.stored {db : Store} {room : Room} {id : ℕ} (h : Sound db roomId (room.recorded id)) :
    Sound (db.appendMoves id room.newMoves) roomId (room.stored id) := by
  have hle : room.lastSavedMoveCount ≤ room.game.moveLog.length := h.count_le
  refine { h with
    count_le := le_rfl
    fresh := by simp [Room.stored, Room.recorded]
    moves := fun gameId hid => ?_ }
  rw [Store.getGameMoves_appendMoves, if_pos (Option.some.inj hid), h.moves gameId hid]
  change room.game.moveLog.take room.lastSavedMoveCount ++ room.newMoves =
    room.game.moveLog.take room.game.moveLog.length
  rw [Room.newMoves, Nat.min_eq_left hle, List.take_append_drop, List.take_length]

/-- The invariant: every room agrees with the database. -/
def Inv (st : State) : Prop :=
  st.db.WellFormed ∧ ∀ roomId room, st.rooms.lookup roomId = some room → Sound st.db roomId room

theorem inv_of_init (h : Init st) : Inv st :=
  ⟨h.1, fun roomId room hroom => sound_of_opened h.1 (h.2 roomId room hroom)⟩

/-- A run of the server goes without a restart of a game: that makes a new room. -/
def Event.Proper : Event → Prop
  | .play _ input => input.2 ≠ .saveRestore
  | .save _ _ => True

theorem inv_save (rule : RatingRule) (h : Inv st) (roomId : RoomId) (call : Call) :
    Inv (saveGameToDb rule st roomId call).1 := by
  have hcases := saveGameToDb_outcome rule st roomId call
  generalize (saveGameToDb rule st roomId call).1 = st' at hcases ⊢
  generalize (saveGameToDb rule st roomId call).2 = ok at hcases
  cases hcases with
  | refused => exact h
  | idle => exact h
  | halfway room found proper unsaved db id record =>
    obtain ⟨hdb, row, hput, rfl, hroom, hstatus⟩ := record_puts h.1 record
    refine ⟨hdb, fun roomId' room' hroom' => ?_⟩
    rw [Table.lookup_insert] at hroom'
    split_ifs at hroom' with heq
    · obtain rfl := Option.some.inj hroom'
      exact heq ▸ (h.2 roomId room found).recorded h.1 unsaved hput hroom hstatus
    · exact (h.2 roomId' room' hroom').puts h.1 hput fun hrow => heq (hrow.symm.trans hroom)
  | saved room found proper unsaved db id record db' moves =>
    obtain ⟨hdb, row, hput, rfl, hroom, hstatus⟩ := record_puts h.1 record
    have hdb' := hdb.addGameMoves moves
    obtain ⟨rfl, -⟩ := Store.addGameMoves_spec moves
    refine ⟨hdb', fun roomId' room' hroom' => ?_⟩
    rw [Table.lookup_insert] at hroom'
    split_ifs at hroom' with heq
    · obtain rfl := Option.some.inj hroom'
      exact heq ▸ ((h.2 roomId room found).recorded h.1 unsaved hput hroom hstatus).stored
    · have hne : row.roomId ≠ roomId' := fun hrow => heq (hrow.symm.trans hroom)
      exact ((h.2 roomId' room' hroom').puts h.1 hput hne).addMoves hdb hput.mem hne _

theorem inv_step (h : Inv st) {e : Event} (he : e.Proper) : Inv (step rule st e) := by
  cases e with
  | save roomId call => exact inv_save rule h roomId call
  | play roomId input =>
    simp only [step]
    split
    · exact h
    · rename_i room hroom
      refine ⟨h.1, fun roomId' room' hroom' => ?_⟩
      rw [Table.lookup_insert] at hroom'
      split_ifs at hroom' with heq
      · obtain rfl := Option.some.inj hroom'
        exact heq ▸ (h.2 roomId room hroom).play he
      · exact h.2 roomId' room' hroom'

/-! ## The result counts once -/

theorem closes_of_record {db : Store} {id : ℕ} {room : Room}
    (hroom : st.rooms.lookup roomId = some room)
    (hproper : room.game.puzzle = none ∧ room.game.started = true)
    (hunsaved : room.game.finished = true → room.resultSaved = false)
    (hrecord : room.record rule st.db roomId call = some (db, id)) :
    closes rule roomId st (.save roomId call) = room.game.finished := by
  cases hfin : room.game.finished with
  | true => simp [closes, hroom, hproper, hunsaved hfin, hfin, hrecord]
  | false => simp [closes, hroom, hfin]

theorem closes_of_done (rule : RatingRule) (call : Call) {room : Room}
    (hroom : st.rooms.lookup roomId = some room)
    (hdone : room.game.puzzle.isSome = true ∨
      room.game.finished = true ∧ room.resultSaved = true) :
    closes rule roomId st (.save roomId call) = false := by
  obtain hpuzzle | ⟨-, hsaved⟩ := hdone
  · obtain ⟨p, hp⟩ := Option.isSome_iff_exists.mp hpuzzle
    simp [closes, hroom, hp]
  · simp [closes, hroom, hsaved]

theorem save_resultSaved {room : Room} (hroom : st.rooms.lookup roomId = some room) :
    ∃ room', (saveGameToDb rule st roomId call).1.rooms.lookup roomId = some room' ∧
      room'.resultSaved = (room.resultSaved || closes rule roomId st (.save roomId call)) ∧
      (closes rule roomId st (.save roomId call) = true → room.resultSaved = false) := by
  have hcases := saveGameToDb_outcome rule st roomId call
  generalize (saveGameToDb rule st roomId call).1 = st' at hcases ⊢
  generalize (saveGameToDb rule st roomId call).2 = ok at hcases
  cases hcases with
  | refused fails => exact ⟨room, hroom, by simp [fails], by simp [fails]⟩
  | idle other found done =>
    have hcloses := closes_of_done rule call found done
    exact ⟨room, hroom, by simp [hcloses], by simp [hcloses]⟩
  | halfway other found proper unsaved db id record =>
    rw [closes_of_record found proper unsaved record]
    obtain rfl := Option.some.inj (hroom.symm.trans found)
    exact ⟨_, by rw [Table.lookup_insert, if_pos rfl], rfl, unsaved⟩
  | saved other found proper unsaved db id record =>
    rw [closes_of_record found proper unsaved record]
    obtain rfl := Option.some.inj (hroom.symm.trans found)
    exact ⟨_, by rw [Table.lookup_insert, if_pos rfl], rfl, unsaved⟩

theorem save_lookup_of_ne {id : RoomId} (hne : roomId ≠ id) :
    (saveGameToDb rule st id call).1.rooms.lookup roomId = st.rooms.lookup roomId := by
  have hcases := saveGameToDb_outcome rule st id call
  generalize (saveGameToDb rule st id call).1 = st' at hcases ⊢
  generalize (saveGameToDb rule st id call).2 = ok at hcases
  cases hcases with
  | refused => rfl
  | idle => rfl
  | halfway => rw [Table.lookup_insert, if_neg hne]
  | saved => rw [Table.lookup_insert, if_neg hne]

/-- The mark that the result is in is set by the save that brings it in, and by no other event. -/
theorem step_resultSaved (rule : RatingRule) {room : Room}
    (hroom : st.rooms.lookup roomId = some room) (e : Event) :
    ∃ room', (step rule st e).rooms.lookup roomId = some room' ∧
      room'.resultSaved = (room.resultSaved || closes rule roomId st e) ∧
      (closes rule roomId st e = true → room.resultSaved = false) := by
  cases e with
  | play id input =>
    have hcloses : closes rule roomId st (.play id input) = false := rfl
    simp only [hcloses, Bool.or_false, Bool.false_eq_true, false_implies, and_true, step]
    by_cases hid : roomId = id
    · subst hid
      rw [hroom]
      exact ⟨_, (Table.lookup_insert _ _ _ _).trans (if_pos rfl), rfl⟩
    · split
      · exact ⟨room, hroom, rfl⟩
      · exact ⟨room, by rwa [Table.lookup_insert, if_neg hid], rfl⟩
  | save id call =>
    by_cases hid : roomId = id
    · subst hid
      exact save_resultSaved hroom
    · have hcloses : closes rule roomId st (.save id call) = false := by
        simp [closes, Ne.symm hid]
      exact ⟨room, (save_lookup_of_ne hid).trans hroom, by simp [hcloses], by simp [hcloses]⟩

/-- In every run the result of a room is recorded once, when the mark is set. -/
theorem count_closes (rule : RatingRule) {room : Room}
    (hroom : st.rooms.lookup roomId = some room) (l : List Event) :
    ∃ room', (Runs.run (step rule) st l).rooms.lookup roomId = some room' ∧
      Runs.count (step rule) (closes rule roomId) st l + room.resultSaved.toNat =
        room'.resultSaved.toNat := by
  induction l generalizing st room with
  | nil => exact ⟨room, hroom, by simp⟩
  | cons e l ih =>
    obtain ⟨next, hnext, hmark, hfirst⟩ := step_resultSaved rule hroom e
    obtain ⟨room', hroom', hcount⟩ := ih hnext
    refine ⟨room', hroom', ?_⟩
    rw [Runs.count_cons, ← hcount, hmark]
    by_cases hcloses : closes rule roomId st e = true
    · simp only [hcloses, hfirst hcloses, if_true, Bool.or_true, Bool.toNat_true, Bool.toNat_false]
      omega
    · simp only [hcloses, Bool.or_false, Bool.false_eq_true, if_false]
      omega

/-- Accounts change only when a result is recorded, and then as `finish_game` counts it. -/
theorem step_users (h : Inv st) (e : Event) :
    (step rule st e).db.users = st.db.users ∨ ∃ roomId call room db id, e = .save roomId call ∧
      closes rule roomId st e = true ∧ st.rooms.lookup roomId = some room ∧
      room.record rule st.db roomId call = some (db, id) ∧ (step rule st e).db.users = db.users := by
  cases e with
  | play roomId input =>
    simp only [step]
    split <;> exact .inl rfl
  | save roomId call =>
    -- a recorded result counts, a saved game does not
    have hrecord : ∀ {room : Room} {db : Store} {id : ℕ},
        st.rooms.lookup roomId = some room →
        (room.game.puzzle = none ∧ room.game.started = true) →
        (room.game.finished = true → room.resultSaved = false) →
        room.record rule st.db roomId call = some (db, id) →
        db.users = st.db.users ∨ closes rule roomId st (.save roomId call) = true := by
      intro room db id hroom hproper hunsaved hrecord
      rw [closes_of_record hroom hproper hunsaved hrecord]
      unfold Room.record at hrecord
      split_ifs at hrecord with hfail hfin
      · exact .inr hfin
      · exact .inl (Store.saveGame_spec h.1 hrecord).2.2.1
    have hcases := saveGameToDb_outcome rule st roomId call
    simp only [step]
    generalize (saveGameToDb rule st roomId call).1 = st' at hcases ⊢
    generalize (saveGameToDb rule st roomId call).2 = ok at hcases
    cases hcases with
    | refused => exact .inl rfl
    | idle => exact .inl rfl
    | halfway room found proper unsaved db id record =>
      obtain hsame | hcloses := hrecord found proper unsaved record
      · exact .inl hsame
      · exact .inr ⟨roomId, call, room, db, id, rfl, hcloses, found, record, rfl⟩
    | saved room found proper unsaved db id record db' moves =>
      obtain ⟨rfl, -⟩ := Store.addGameMoves_spec moves
      obtain hsame | hcloses := hrecord found proper unsaved record
      · exact .inl hsame
      · exact .inr ⟨roomId, call, room, db, id, rfl, hcloses, found, record, rfl⟩

/-! ## The whole log is stored -/

/-- A save that brings the result in while entries are missing fails to store these. -/
def Lapses (rule : RatingRule) (st : State) : Event → Prop
  | .play _ _ => False
  | .save roomId call => closes rule roomId st (.save roomId call) = true ∧
      call.movesFail = true ∧
      ∃ room, st.rooms.lookup roomId = some room ∧ room.newMoves ≠ []

/-- The whole log is stored once the result is in. -/
def Whole (st : State) : Prop :=
  ∀ roomId room, st.rooms.lookup roomId = some room → room.resultSaved = true → room.newMoves = []

theorem whole_of_init (h : Init st) : Whole st := by
  intro roomId room hroom hsaved
  exact absurd ((h.2 roomId room hroom).2.1.symm.trans hsaved) (by simp)

theorem Room.newMoves_eq_nil {room : Room} :
    room.newMoves = [] ↔ room.game.moveLog.length ≤ room.lastSavedMoveCount := by
  rw [Room.newMoves, List.drop_eq_nil_iff]
  omega

theorem whole_save (h : Inv st) (hwhole : Whole st)
    (hlapse : ¬Lapses rule st (.save roomId call)) :
    Whole (saveGameToDb rule st roomId call).1 := by
  have hcases := saveGameToDb_outcome rule st roomId call
  generalize (saveGameToDb rule st roomId call).1 = st' at hcases ⊢
  generalize (saveGameToDb rule st roomId call).2 = ok at hcases
  cases hcases with
  | refused => exact hwhole
  | idle => exact hwhole
  | halfway room found proper unsaved db id record fails =>
    intro roomId' room' hroom' hsaved'
    rw [Table.lookup_insert] at hroom'
    split_ifs at hroom' with heq
    swap
    · exact hwhole roomId' room' hroom' hsaved'
    obtain rfl := Option.some.inj hroom'
    change room.newMoves = []
    obtain hold | hfin : room.resultSaved = true ∨ room.game.finished = true := by
      simpa [Room.recorded] using hsaved'
    · exact hwhole roomId room found hold
    by_contra hmissing
    have hcloses := (closes_of_record found proper unsaved record).trans hfin
    obtain hfail | hnone := fails
    · exact hlapse ⟨hcloses, hfail, room, found, hmissing⟩
    · obtain ⟨-, row, hput, hid, -⟩ := record_puts h.1 record
      have hexists : (db.games.any fun g => decide (g.id = id)) = true :=
        List.any_eq_true.mpr ⟨row, hput.mem, by simpa using hid⟩
      simp [Store.addGameMoves, hexists] at hnone
  | saved room found proper unsaved db id record db' =>
    intro roomId' room' hroom' hsaved'
    rw [Table.lookup_insert] at hroom'
    split_ifs at hroom' with heq
    · obtain rfl := Option.some.inj hroom'
      exact Room.newMoves_eq_nil.mpr le_rfl
    · exact hwhole roomId' room' hroom' hsaved'

theorem whole_step (h : Inv st) (hwhole : Whole st) {e : Event} (he : e.Proper)
    (hlapse : ¬Lapses rule st e) : Whole (step rule st e) := by
  cases e with
  | save roomId call => exact whole_save h hwhole hlapse
  | play roomId input =>
    simp only [step]
    split
    · exact hwhole
    · rename_i room hroom
      intro roomId' room' hroom' hsaved'
      rw [Table.lookup_insert] at hroom'
      split_ifs at hroom' with heq
      · obtain rfl := Option.some.inj hroom'
        have hsound := h.2 roomId room hroom
        have hgrows := hsound.quiet.grows (Game.step_effect input.1 room.game input.2) he
        have hlog := (hgrows.of_finished (hsound.ended hsaved')).1
        have hold := Room.newMoves_eq_nil.mp (hwhole roomId room hroom hsaved')
        exact Room.newMoves_eq_nil.mpr ((congrArg List.length hlog).trans_le hold)
      · exact hwhole roomId' room' hroom' hsaved'

/-- The row of the room holds the whole log of its game. -/
def Complete (st : State) (roomId : RoomId) : Prop :=
  ∃ room id, st.rooms.lookup roomId = some room ∧ room.dbGameId = some id ∧
    st.db.getGameMoves id = room.game.moveLog

/-- A save that reports success has left the whole log behind. -/
theorem complete_of_success (h : Inv st) (hwhole : Whole st) {room : Room}
    (hroom : st.rooms.lookup roomId = some room) (hpuzzle : room.game.puzzle = none)
    (hok : (saveGameToDb rule st roomId call).2 = true) :
    Complete (saveGameToDb rule st roomId call).1 roomId := by
  have hinv := inv_save rule h roomId call
  have hcases := saveGameToDb_outcome rule st roomId call
  generalize (saveGameToDb rule st roomId call).1 = st' at hcases hinv ⊢
  generalize (saveGameToDb rule st roomId call).2 = ok at hcases hok
  subst hok
  cases hcases with
  | idle other found done =>
    obtain rfl := Option.some.inj (hroom.symm.trans found)
    obtain ⟨-, hsaved⟩ : room.game.finished = true ∧ room.resultSaved = true := by
      simpa [hpuzzle] using done
    have hsound := h.2 roomId room hroom
    cases hid : room.dbGameId with
    | none => exact absurd ((hsound.fresh hid).2.symm.trans hsaved) (by simp)
    | some id =>
      have hle := Room.newMoves_eq_nil.mp (hwhole roomId room hroom hsaved)
      exact ⟨room, id, hroom, hid, by rw [hsound.moves id hid, List.take_of_length_le hle]⟩
  | saved other found proper unsaved db id record db' =>
    have hlookup := (Table.lookup_insert st.rooms roomId roomId (other.stored id)).trans (if_pos rfl)
    refine ⟨_, id, hlookup, rfl, ?_⟩
    rw [(hinv.2 roomId _ hlookup).moves id rfl]
    exact List.take_length

/-- What saving promises of a run: the result of a room is recorded once, when it is marked as
saved; accounts change with it only; and a save of a game (a daily puzzle is not saved) that
reports success leaves the whole log in the row of the room. -/
structure Exact (rule : RatingRule) (st : State) (l : List Event) : Prop where
  once : ∀ roomId room, st.rooms.lookup roomId = some room →
    ∃ room', (Runs.run (step rule) st l).rooms.lookup roomId = some room' ∧
      Runs.count (step rule) (closes rule roomId) st l = room'.resultSaved.toNat
  counted : ∀ l₁ e l₂, l = l₁ ++ e :: l₂ →
    (step rule (Runs.run (step rule) st l₁) e).db.users = (Runs.run (step rule) st l₁).db.users ∨
      ∃ roomId call room db id, e = .save roomId call ∧
        closes rule roomId (Runs.run (step rule) st l₁) e = true ∧
        (Runs.run (step rule) st l₁).rooms.lookup roomId = some room ∧
        room.record rule (Runs.run (step rule) st l₁).db roomId call = some (db, id) ∧
        (step rule (Runs.run (step rule) st l₁) e).db.users = db.users
  complete : ∀ l₁ roomId call l₂ room, l = l₁ ++ .save roomId call :: l₂ →
    (Runs.run (step rule) st l₁).rooms.lookup roomId = some room → room.game.puzzle = none →
    (saveGameToDb rule (Runs.run (step rule) st l₁) roomId call).2 = true →
    Complete (saveGameToDb rule (Runs.run (step rule) st l₁) roomId call).1 roomId

/-- **Saving is exact** in every run in which no save brings a result in and then fails to store
the entries that are still missing, however often the calls fail elsewhere. -/
theorem exact_of_run (h : Init st) {l : List Event}
    (hl : Runs.Along (step rule) (fun st e => e.Proper ∧ ¬Lapses rule st e) st l) :
    Exact rule st l := by
  have hbefore : ∀ l₁ l₂, l = l₁ ++ l₂ →
      Inv (Runs.run (step rule) st l₁) ∧ Whole (Runs.run (step rule) st l₁) := by
    rintro l₁ l₂ rfl
    exact Runs.run_invariant (step rule) (P := fun st => Inv st ∧ Whole st)
      (fun st e hst he => ⟨inv_step hst.1 he.1, whole_step hst.1 hst.2 he.1 he.2⟩)
      ⟨inv_of_init h, whole_of_init h⟩ ((Runs.along_append (step rule) _ st l₁ l₂).mp hl).1
  refine ⟨fun roomId room hroom => ?_, fun l₁ e l₂ heq => ?_, ?_⟩
  · obtain ⟨room', hroom', hcount⟩ := count_closes rule hroom l
    refine ⟨room', hroom', ?_⟩
    rwa [(h.2 roomId room hroom).2.1, Bool.toNat_false, add_zero] at hcount
  · exact step_users (hbefore l₁ _ heq).1 e
  · intro l₁ roomId call l₂ room heq hroom hpuzzle hok
    have hinv := hbefore l₁ _ heq
    exact complete_of_success hinv.1 hinv.2 hroom hpuzzle hok

/-- A room in which a duel has just begun. -/
def duelRoom : Room :=
  { toRoom := Server.Room.new (Game.duel false) (some "a") "Anna" 2 false none
    lastSavedMoveCount := 0 }

def duelState : State := ⟨Store.empty, AList.insert 0 duelRoom ∅⟩

theorem init_duelState : Init duelState := by
  refine ⟨Store.wellFormed_empty, fun roomId room hroom => ?_⟩
  simp only [duelState, Table.lookup_insert, AList.lookup_empty] at hroom
  split_ifs at hroom with hid
  obtain rfl := Option.some.inj hroom
  exact ⟨.of_free (by decide +kernel), rfl, .inl ⟨rfl, rfl, by simp [duelState, Store.empty]⟩⟩

/-- A save at which the calls fail as given. -/
def failing (recordFails movesFail : Bool) : Event := .save 0 ⟨0, ∅, ∅, recordFails, movesFail⟩

/-- A pass, and later the end of the game. -/
def duelPass : Event := .play 0 (Game.stillEnv, .passTurn "a" false)

def duelEnd : Event := .play 0 (Game.stillEnv, .forceEnd)

/-- The entry of the pass cannot be stored at first, the result cannot be recorded at first: the
next saves make up for it. -/
theorem exact_of_duel :
    Exact flatRule duelState
      [duelPass, failing false true, duelEnd, failing true false, failing false false] :=
  exact_of_run init_duelState
    ⟨⟨by simp [duelPass, Event.Proper], fun h => h⟩,
      ⟨trivial, fun h => absurd h.1 (by decide +kernel)⟩,
      ⟨by simp [duelEnd, Event.Proper], fun h => h⟩,
      ⟨trivial, fun h => absurd h.1 (by decide +kernel)⟩,
      ⟨trivial, fun h => absurd h.2.1 (by decide +kernel)⟩, trivial⟩

/-- The result is recorded and then the entry of the pass cannot be stored: the next save reports
success without it. -/
theorem lost_entry : ¬∀ (rule : RatingRule) (st : State) (l : List Event), Init st →
    (∀ e ∈ l, e.Proper) → Exact rule st l := by
  intro h
  have hexact := h flatRule duelState
    [duelPass, duelEnd, failing false true, failing false false] init_duelState
    (by simp [duelPass, duelEnd, failing, Event.Proper])
  let before := Runs.run (step flatRule) duelState [duelPass, duelEnd, failing false true]
  have hroom : (before.rooms.lookup 0).isSome = true := by decide +kernel
  obtain ⟨room, hroom⟩ := Option.isSome_iff_exists.mp hroom
  have hpuzzle : ((before.rooms.lookup 0).bind fun room => room.game.puzzle) = none := by
    decide +kernel
  rw [hroom] at hpuzzle
  obtain ⟨room', id, hroom', hid, hmoves⟩ := hexact.complete _ 0 _ [] room rfl hroom hpuzzle
    (by decide +kernel)
  let after := (saveGameToDb flatRule before 0 ⟨0, ∅, ∅, false, false⟩).1
  have hlengths : ((after.rooms.lookup 0).bind fun room => room.dbGameId.map fun id =>
      ((after.db.getGameMoves id).length, room.game.moveLog.length)) = some (0, 1) := by
    decide +kernel
  rw [show after.rooms.lookup 0 = some room' from hroom', Option.bind_some, hid, Option.map_some,
    show after.db.getGameMoves id = room'.game.moveLog from hmoves, Option.some.injEq,
    Prod.mk.injEq] at hlengths
  omega

end Saving

end ScrabbleMagyar
