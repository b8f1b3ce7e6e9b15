import ScrabbleMagyar.Engine.Game
import ScrabbleMagyar.Foundations.Tables
import ScrabbleMagyar.Server.State
import ScrabbleMagyar.Util
import Mathlib.Data.List.Sort

/-!
# Saved games, results and accounts

The tables `users`, `saved_games`, `game_players`, `game_moves` and `rating_adjustments` with the
calls that write them (`db/games.rs`). A call is one transaction: it answers `none` where it
fails, and then nothing has changed. It fails where a row would refer to a user or a game that
does not exist, since foreign keys are enforced.

The rows of a table stand in the order of their insertion, which is that of their identifiers. A
time is a number of seconds, as the stored texts have it. A stored state is the value its text
stands for, `null` where it stands for none. Left out are the columns that no modelled function
reads, and the deletion of rows.

The points a game brings are a parameter (`RatingRule`): the formula works with floating point
numbers.
-/

namespace ScrabbleMagyar

namespace Records

open Server (UserId RoomId GamePlayerData)

inductive Status
  | active
  | finished
  | abandoned
  | voided
  deriving DecidableEq

structure UserRow where
  id : UserId
  displayName : String
  rating : ℤ
  ratedGames : ℤ
  gamesPlayed : ℤ
  gamesWon : ℤ
  totalScore : ℤ

/-- A row of `saved_games`. -/
structure GameRow where
  id : ℕ
  roomId : RoomId
  stateJson : Json
  status : Status
  ownerName : String
  hasBots : Bool
  updatedAt : ℕ

/-- The saved state is that of a game that is over. -/
def GameRow.isOver (g : GameRow) : Bool :=
  ((g.stateJson.get? "finished").map truthy).getD false

/-- A row of `game_players`: a seat of a saved game. -/
structure PlayerRow where
  id : ℕ
  gameId : ℕ
  userId : Option UserId
  playerName : String
  finalScore : ℤ
  isWinner : Bool
  ratingBefore : Option ℤ
  ratingAfter : Option ℤ
  deriving DecidableEq

/-- A row of `game_moves`. -/
structure MoveRow where
  gameId : ℕ
  move : MoveLog

/-- A row of `rating_adjustments`: an administrator has set a rating. -/
structure AdjustmentRow where
  id : ℕ
  userId : UserId
  ratingBefore : ℤ
  ratingAfter : ℤ
  createdAt : ℕ

structure Store where
  users : List UserRow
  games : List GameRow
  players : List PlayerRow
  moves : List MoveRow
  adjustments : List AdjustmentRow

/-! ## Ratings -/

def initialRating : ℤ := 1200

def minRating : ℤ := 100

def maxRating : ℤ := 4000

/-- The score that stands for a resignation: behind everybody else. -/
def resignedScore : ℤ := -1000000000

/-- A rated player of a game. -/
structure Entry where
  uid : UserId
  rating : ℤ
  ratedGames : ℤ
  score : ℤ
  deriving DecidableEq

/-- What the rated players of a game win or lose, whatever order they are listed in. -/
structure RatingRule where
  changes : List Entry → UserId → ℤ
  perm : ∀ {l l' : List Entry}, l.Perm l' → changes l = changes l'

/-- A rule under which no game moves a rating. -/
def flatRule : RatingRule := ⟨fun _ _ => 0, fun _ => rfl⟩

/-- The rated players among seats with their scores: each user with an account once, with the
first seat. -/
def ranked (standing : UserId → Option (ℤ × ℤ)) (seats : List (UserId × ℤ)) : List Entry :=
  seats.foldl (fun entries seat =>
    if entries.any fun e => e.uid = seat.1 then entries
    else match standing seat.1 with
      | some (rating, ratedGames) => entries ++ [⟨seat.1, rating, ratedGames, seat.2⟩]
      | none => entries) []

/-! ## The calls -/

/-- An identifier that has not been given out. -/
def nextId (ids : List ℕ) : ℕ := ids.foldr max 0 + 1

namespace Store

def empty : Store := ⟨[], [], [], [], []⟩

variable (db : Store)

/-- The active row of a room. -/
def activeOf (roomId : RoomId) : Option GameRow :=
  db.games.find? fun g => g.roomId = roomId ∧ g.status = .active

/-- The rows of the seats of a game. -/
def rowsOf (gameId : ℕ) : List PlayerRow := db.players.filter fun r => r.gameId = gameId

/-- The stored moves of a game. -/
def getGameMoves (gameId : ℕ) : List MoveLog :=
  (db.moves.filter fun m => m.gameId = gameId).map MoveRow.move

def getUser (uid : UserId) : Option UserRow := db.users.find? fun u => u.id = uid

/-- The accounts the seats name exist. -/
def references (players : List GamePlayerData) : Bool :=
  players.all fun pd => match pd.userId with
    | some uid => (db.getUser uid).isSome
    | none => true

/-- A new row for a seat. -/
def newPlayer (rows : List PlayerRow) (gameId : ℕ) (pd : GamePlayerData) (isWinner : Bool) :
    PlayerRow :=
  { id := nextId (rows.map PlayerRow.id), gameId, userId := pd.userId,
    playerName := pd.playerName, finalScore := pd.score, isWinner, ratingBefore := none,
    ratingAfter := none }

/-- Save one seat of a game; an account that is known already stays known. -/
def upsertGamePlayer (gameId : ℕ) (rows : List PlayerRow) (pd : GamePlayerData) :
    List PlayerRow :=
  if rows.any fun r => r.gameId = gameId ∧ r.playerName = pd.playerName then
    rows.map fun r =>
      if r.gameId = gameId ∧ r.playerName = pd.playerName then
        { r with finalScore := pd.score, userId := pd.userId.or r.userId }
      else r
  else rows ++ [newPlayer rows gameId pd false]

def upsertGamePlayers (gameId : ℕ) (rows : List PlayerRow) (players : List GamePlayerData) :
    List PlayerRow := players.foldl (upsertGamePlayer gameId) rows

/-- Save a game: into the active row of its room, or a new one. -/
def saveGame (now : ℕ) (roomId : RoomId) (stateJson : Json) (players : List GamePlayerData)
    (ownerName : String) (hasBots : Bool) : Option (Store × ℕ) :=
  if !db.references players then none
  else match db.activeOf roomId with
    | some row =>
      some ({ db with
        games := db.games.map fun g =>
          if g.roomId = roomId ∧ g.status = .active then
            { g with stateJson, updatedAt := now, ownerName, hasBots }
          else g
        players := upsertGamePlayers row.id db.players players }, row.id)
    | none =>
      let id := nextId (db.games.map GameRow.id)
      some ({ db with
        games := db.games ++
          [{ id, roomId, stateJson, status := .active, ownerName, hasBots, updatedAt := now }]
        players := upsertGamePlayers id db.players players }, id)

/-- Record the result of one seat of a finished game. -/
def finishPlayer (gameId : ℕ) (rows : List PlayerRow) (pd : GamePlayerData) : List PlayerRow :=
  match rows.find? fun r => r.gameId = gameId ∧ r.playerName = pd.playerName with
  | some row =>
    rows.map fun r =>
      if r.id = row.id then
        { r with
          finalScore := pd.score
          isWinner := pd.isWinner
          userId := pd.userId.or r.userId }
      else r
  | none => rows ++ [newPlayer rows gameId pd pd.isWinner]

/-- Count the result of one seat for its account. -/
def countResult (users : List UserRow) (pd : GamePlayerData) : List UserRow :=
  match pd.userId.filter fun u => u ≠ 0 with
  | none => users
  | some uid =>
    users.map fun u =>
      if u.id = uid then
        { u with
          gamesPlayed := u.gamesPlayed + 1
          gamesWon := u.gamesWon + if pd.isWinner then 1 else 0
          totalScore := u.totalScore + pd.score }
      else u

/-- The seats that are rated, with the scores they are ranked by. -/
def ratedSeats (players : List GamePlayerData) : List (UserId × ℤ) :=
  players.filterMap fun pd =>
    (pd.userId.filter fun u => u ≠ 0).map fun uid =>
      (uid, if pd.resigned then resignedScore else pd.score)

/-- The rating of a user and the number of rated games. -/
def standing (uid : UserId) : Option (ℤ × ℤ) :=
  (db.getUser uid).map fun u => (u.rating, u.ratedGames)

/-- Give a user a new rating for a game. -/
def rerate (gameId : ℕ) (e : Entry) (after : ℤ) : Store :=
  { db with
    users := db.users.map fun u =>
      if u.id = e.uid then { u with rating := after, ratedGames := u.ratedGames + 1 } else u
    players := db.players.map fun r =>
      if r.gameId = gameId ∧ r.userId = some e.uid then
        { r with ratingBefore := some e.rating, ratingAfter := some after }
      else r }

/-- The new ratings after a game between at least two users. -/
def applyRatings (rule : RatingRule) (gameId : ℕ) (players : List GamePlayerData) : Store :=
  let entries := ranked db.standing (ratedSeats players)
  if entries.length < 2 then db
  else
    let changes := rule.changes entries
    entries.foldl (fun db e => db.rerate gameId e (e.rating + changes e.uid)) db

/-- The rows of the games once the game of a room is over: its active row is closed, or a closed
one is added. With it the identifier of the row. -/
def closeGame (now : ℕ) (roomId : RoomId) (stateJson : Json) (hasBots : Bool) :
    List GameRow × ℕ :=
  match db.activeOf roomId with
  | none =>
    let id := nextId (db.games.map GameRow.id)
    (db.games ++
      [{ id, roomId, stateJson, status := .finished, ownerName := "", hasBots, updatedAt := now }],
      id)
  | some row =>
    (db.games.map fun g =>
      if g.id = row.id then { g with stateJson, status := .finished, updatedAt := now, hasBots }
      else g, row.id)

/-- Record the results of all seats, and count them. -/
def recordResults (gameId : ℕ) (players : List GamePlayerData) : Store :=
  { db with
    players := players.foldl (finishPlayer gameId) db.players
    users := players.foldl countResult db.users }

/-- Record the result of a game: in the active row of its room, or a new one. The results count
for the accounts, and unless a robot played for the ratings. -/
def finishGame (rule : RatingRule) (now : ℕ) (roomId : RoomId) (stateJson : Json)
    (players : List GamePlayerData) (hasBots : Bool) : Option (Store × ℕ) :=
  if !db.references players then none
  else
    let (games, id) := db.closeGame now roomId stateJson hasBots
    let db := { db with games }.recordResults id players
    some (if hasBots then db else db.applyRatings rule id players, id)

def appendMoves (gameId : ℕ) (moves : List MoveLog) : Store :=
  { db with moves := db.moves ++ moves.map fun m => ⟨gameId, m⟩ }

/-- Append moves to those stored for a game. -/
def addGameMoves (gameId : ℕ) (moves : List MoveLog) : Option Store :=
  if moves.isEmpty || db.games.any fun g => g.id = gameId then some (db.appendMoves gameId moves)
  else none

/-- A new account. -/
def createUser (displayName : String) : Store :=
  { db with users := db.users ++
      [{ id := nextId (db.users.map UserRow.id), displayName, rating := initialRating,
         ratedGames := 0, gamesPlayed := 0, gamesWon := 0, totalScore := 0 }] }

/-- An administrator sets the rating of a user, of an account that may be managed. -/
def setRating (now : ℕ) (uid : UserId) (rating : ℤ) (manageable : Bool) : Option Store :=
  if rating < minRating ∨ maxRating < rating then none
  else match db.getUser uid with
    | none => none
    | some user =>
      if !manageable then none
      else if user.rating = rating then none
      else some { db with
        users := db.users.map fun u => if u.id = uid then { u with rating } else u
        adjustments := db.adjustments ++
          [{ id := nextId (db.adjustments.map AdjustmentRow.id), userId := uid,
             ratingBefore := user.rating, ratingAfter := rating, createdAt := now }] }

/-- The active rows, the latest first. -/
def loadActiveGames : List GameRow :=
  (db.games.filter fun g => g.status = .active).insertionSort fun g g' =>
    g'.updatedAt ≤ g.updatedAt

/-- Close the row of a game that is over, without any results. -/
def closeFinished (rule : RatingRule) (now : ℕ) (db : Store) (g : GameRow) : Store :=
  if g.isOver then
    match db.finishGame rule now g.roomId g.stateJson [] false with
    | some (db, _) => db
    | none => db
  else db

/-- What the start of the server does to the active rows of games that are over. -/
def cleanupFinishedSaves (rule : RatingRule) (now : ℕ) : Store :=
  db.loadActiveGames.foldl (closeFinished rule now) db

/-! ## The rules of the tables -/

/-- The seat a row is of. -/
def seatOf (r : PlayerRow) : ℕ × String := (r.gameId, r.playerName)

/-- Every seat has one row, and every row an identifier of its own. -/
structure Seated (rows : List PlayerRow) : Prop where
  ids : (rows.map PlayerRow.id).Nodup
  names : (rows.map seatOf).Nodup

/-- What the keys of the tables demand; and a room has one active row at most, a seat one row. -/
structure WellFormed : Prop where
  userIds : (db.users.map UserRow.id).Nodup
  userPos : ∀ u ∈ db.users, u.id ≠ 0
  gameIds : (db.games.map GameRow.id).Nodup
  seated : Seated db.players
  oneActive : ∀ g ∈ db.games, ∀ g' ∈ db.games, g.roomId = g'.roomId → g.status = .active →
    g'.status = .active → g = g'
  seats : ∀ r ∈ db.players, ∃ g ∈ db.games, g.id = r.gameId
  accounts : ∀ r ∈ db.players, ∀ uid, r.userId = some uid → uid ∈ db.users.map UserRow.id
  moves : ∀ m ∈ db.moves, ∃ g ∈ db.games, g.id = m.gameId
  adjustmentIds : (db.adjustments.map AdjustmentRow.id).Nodup
  adjusted : ∀ a ∈ db.adjustments, a.userId ∈ db.users.map UserRow.id

theorem wellFormed_empty : WellFormed empty :=
  ⟨List.nodup_nil, by simp [empty], List.nodup_nil, ⟨List.nodup_nil, List.nodup_nil⟩,
    by simp [empty], by simp [empty], by simp [empty], by simp [empty], List.nodup_nil,
    by simp [empty]⟩

end Store

/-- The calls that make up the history of the tables. -/
inductive Event
  | createUser (displayName : String)
  | saveGame (now : ℕ) (roomId : RoomId) (stateJson : Json) (players : List GamePlayerData)
      (ownerName : String) (hasBots : Bool)
  | finishGame (now : ℕ) (roomId : RoomId) (stateJson : Json) (players : List GamePlayerData)
      (hasBots : Bool)
  | setRating (now : ℕ) (uid : UserId) (rating : ℤ) (manageable : Bool)
  | cleanupFinishedSaves (now : ℕ)

/-- The tables after a call; a call that fails changes nothing. -/
def step (rule : RatingRule) (db : Store) : Event → Store
  | .createUser displayName => db.createUser displayName
  | .saveGame now roomId stateJson players ownerName hasBots =>
    ((db.saveGame now roomId stateJson players ownerName hasBots).map Prod.fst).getD db
  | .finishGame now roomId stateJson players hasBots =>
    ((db.finishGame rule now roomId stateJson players hasBots).map Prod.fst).getD db
  | .setRating now uid rating manageable => (db.setRating now uid rating manageable).getD db
  | .cleanupFinishedSaves now => db.cleanupFinishedSaves rule now

theorem lt_nextId {ids : List ℕ} {i : ℕ} (h : i ∈ ids) : i < nextId ids := by
  have hle : ∀ {ids : List ℕ} {i : ℕ}, i ∈ ids → i ≤ ids.foldr max 0 := by
    intro ids i hi
    induction ids with
    | nil => simp at hi
    | cons j ids ih =>
      rcases List.mem_cons.mp hi with rfl | hi
      · exact le_max_left _ _
      · exact (ih hi).trans (le_max_right _ _)
  exact Nat.lt_succ_of_le (hle h)

theorem nextId_notMem (ids : List ℕ) : nextId ids ∉ ids := fun h => lt_irrefl _ (lt_nextId h)

namespace Store

variable {db db' : Store}

/-- Rows with the same identifier are one row. -/
theorem WellFormed.game_eq (h : WellFormed db) {g g' : GameRow} (hg : g ∈ db.games)
    (hg' : g' ∈ db.games) (hid : g.id = g'.id) : g = g' :=
  List.inj_on_of_nodup_map h.gameIds hg hg' hid

theorem activeOf_mem {roomId : RoomId} {g : GameRow} (h : db.activeOf roomId = some g) :
    g ∈ db.games ∧ g.roomId = roomId ∧ g.status = .active := by
  refine ⟨List.mem_of_find?_eq_some h, ?_⟩
  simpa using List.find?_some h

theorem activeOf_eq_none {roomId : RoomId} (h : db.activeOf roomId = none) {g : GameRow}
    (hg : g ∈ db.games) (hroom : g.roomId = roomId) : g.status ≠ .active := by
  have := List.find?_eq_none.mp h g hg
  simpa [hroom] using this

/-! ## What a save writes -/

/-- A save or a result has put the row `row` into the table of games: in place of the active row
of its room, or as a new one. -/
structure Puts (db : Store) (row : GameRow) (db' : Store) : Prop where
  target : (∃ g ∈ db.games, g.id = row.id ∧ g.roomId = row.roomId ∧ g.status = .active) ∨
    (∀ g ∈ db.games, g.id ≠ row.id ∧ (g.roomId = row.roomId → g.status ≠ .active))
  games : ∀ g, g ∈ db'.games ↔ g = row ∨ g ∈ db.games ∧ g.id ≠ row.id
  ids : (db'.games.map GameRow.id).Nodup
  moves : db'.moves = db.moves
  adjustments : db'.adjustments = db.adjustments

/-- The row of an active game is rewritten. -/
theorem puts_of_map (h : WellFormed db) {g row : GameRow} (hg : g ∈ db.games)
    (hid : row.id = g.id) (hroom : row.roomId = g.roomId) (hactive : g.status = .active)
    (hgames : db'.games = db.games.map fun x => if x.id = g.id then row else x)
    (hmoves : db'.moves = db.moves) (hadj : db'.adjustments = db.adjustments) :
    Puts db row db' := by
  refine ⟨.inl ⟨g, hg, hid.symm, hroom.symm, hactive⟩, fun x => ?_, ?_, hmoves, hadj⟩
  · rw [hgames, List.mem_map, hid]
    constructor
    · rintro ⟨y, hy, rfl⟩
      split
      · exact .inl rfl
      · rename_i hne
        exact .inr ⟨hy, hne⟩
    · rintro (rfl | ⟨hx, hne⟩)
      · exact ⟨g, hg, if_pos rfl⟩
      · exact ⟨x, hx, if_neg hne⟩
  · have hmap : db'.games.map GameRow.id = db.games.map GameRow.id := by
      rw [hgames, List.map_map]
      refine List.map_congr_left fun x _ => ?_
      simp only [Function.comp_apply]
      split
      · rename_i heq
        exact hid.trans heq.symm
      · rfl
    exact hmap ▸ h.gameIds

/-- A row with a new identifier is added. -/
theorem puts_of_append (h : WellFormed db) {row : GameRow}
    (hid : row.id = nextId (db.games.map GameRow.id)) (hnone : db.activeOf row.roomId = none)
    (hgames : db'.games = db.games ++ [row]) (hmoves : db'.moves = db.moves)
    (hadj : db'.adjustments = db.adjustments) : Puts db row db' := by
  have hfresh : ∀ g ∈ db.games, g.id ≠ row.id := by
    intro g hg heq
    apply nextId_notMem (db.games.map GameRow.id)
    rw [← hid, ← heq]
    exact List.mem_map_of_mem hg
  refine ⟨.inr fun g hg => ⟨hfresh g hg, activeOf_eq_none hnone hg⟩, fun x => ?_, ?_, hmoves, hadj⟩
  · rw [hgames, List.mem_append, List.mem_singleton]
    constructor
    · rintro (hx | rfl)
      · exact .inr ⟨hx, hfresh x hx⟩
      · exact .inl rfl
    · rintro (rfl | ⟨hx, -⟩)
      · exact .inr rfl
      · exact .inl hx
  · rw [hgames, List.map_append, List.nodup_append]
    refine ⟨h.gameIds, by simp, fun i hi j hj => ?_⟩
    obtain ⟨g, hg, rfl⟩ := List.mem_map.mp hi
    simp only [List.map_cons, List.map_nil, List.mem_singleton] at hj
    exact hj ▸ hfresh g hg

/-- The rows of the other rooms stay. -/
theorem Puts.keeps {row g : GameRow} (h : WellFormed db) (hput : Puts db row db')
    (hroom : g.roomId ≠ row.roomId) : g ∈ db'.games ↔ g ∈ db.games := by
  rw [hput.games]
  constructor
  · rintro (rfl | ⟨hg, -⟩)
    · exact absurd rfl hroom
    · exact hg
  · intro hg
    refine .inr ⟨hg, fun hid => ?_⟩
    obtain ⟨g', hg', hid', hroom', -⟩ | hnew := hput.target
    · exact hroom (h.game_eq hg hg' (hid.trans hid'.symm) ▸ hroom')
    · exact (hnew g hg).1 hid

theorem Puts.mem {row : GameRow} (hput : Puts db row db') : row ∈ db'.games :=
  (hput.games row).mpr (.inl rfl)

/-- No row loses its identifier. -/
theorem Puts.exists_id {row g : GameRow} (hput : Puts db row db') (hg : g ∈ db.games) :
    ∃ g' ∈ db'.games, g'.id = g.id := by
  by_cases hid : g.id = row.id
  · exact ⟨row, hput.mem, hid.symm⟩
  · exact ⟨g, (hput.games g).mpr (.inr ⟨hg, hid⟩), rfl⟩

/-- The room of the row has no other active row. -/
theorem Puts.oneActive {row : GameRow} (h : WellFormed db) (hput : Puts db row db')
    {g g' : GameRow} (hg : g ∈ db'.games) (hg' : g' ∈ db'.games) (hroom : g.roomId = g'.roomId)
    (hactive : g.status = .active) (hactive' : g'.status = .active) : g = g' := by
  have hother : ∀ x ∈ db.games, x.id ≠ row.id → x.roomId = row.roomId → x.status ≠ .active := by
    intro x hx hne hxroom hxactive
    obtain ⟨y, hy, hid, hyroom, hyactive⟩ | hnew := hput.target
    · exact hne (h.oneActive x hx y hy (hxroom.trans hyroom.symm) hxactive hyactive ▸ hid)
    · exact (hnew x hx).2 hxroom hxactive
  rcases (hput.games g).mp hg with rfl | ⟨hg, hne⟩ <;>
    rcases (hput.games g').mp hg' with rfl | ⟨hg', hne'⟩
  · rfl
  · exact absurd hactive' (hother g' hg' hne' hroom.symm)
  · exact absurd hactive (hother g hg hne hroom)
  · exact h.oneActive g hg g' hg' hroom hactive hactive'

end Store

end Records

end ScrabbleMagyar
