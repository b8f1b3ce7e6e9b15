import ScrabbleMagyar.Accounts.Elo
import ScrabbleMagyar.Db.Reproduction

/-!
# Games that do not count

An administrator can void a game: a finished one (`void_game`), a running one in its room
(`room_action` of `admin/live.rs`), and a running correspondence game (`async_void`). A voided game
counts neither for the counters nor for the ratings, until it is taken back (`unvoid_game`).

* `Voiding.restored_iff`: taking it back restores the status of the game and what the users have
  exactly when the game was voided as a finished one.
* `Voiding.counted_unfinished`: a running game that is voided and taken back is a finished one
  afterwards, and counts.
-/

namespace ScrabbleMagyar

namespace Records

open Server (UserId RoomId GamePlayerData)

namespace Store

variable (db : Store)

def gameRow (gameId : ℕ) : Option GameRow := db.games.find? fun g => g.id = gameId

def statusOf (gameId : ℕ) : Option Status := (db.gameRow gameId).map GameRow.status

def setGameStatus (gameId : ℕ) (status : Status) : Store :=
  { db with games := db.games.map fun g => if g.id = gameId then { g with status } else g }

/-- The users that have a seat in a game. -/
def participants (gameId : ℕ) : List UserId :=
  ((db.rowsOf gameId).filterMap PlayerRow.userId).dedup

/-- The counters of the participants and all ratings, computed anew. -/
def refreshAfterStatusChange (rule : RatingRule) (userIds : List UserId) : Store :=
  ((userIds.foldl recomputeUserCounters db).recomputeRatings rule true).1

/-- Give a game another status, with what follows from it. -/
def changeStatus (rule : RatingRule) (gameId : ℕ) (status : Status) : Store :=
  (db.setGameStatus gameId status).refreshAfterStatusChange rule
    ((db.setGameStatus gameId status).participants gameId)

def voidGame (rule : RatingRule) (gameId : ℕ) : Option Store :=
  (db.gameRow gameId).bind fun row =>
    if row.status ≠ .finished then none else some (db.changeStatus rule gameId .voided)

def unvoidGame (rule : RatingRule) (gameId : ℕ) : Option Store :=
  (db.gameRow gameId).bind fun row =>
    if row.status ≠ .voided then none else some (db.changeStatus rule gameId .finished)

/-- Void the running game of a room: it is saved with the moves that are not stored yet, and
marked. -/
def voidRoom (now : ℕ) (roomId : RoomId) (stateJson : Json) (players : List GamePlayerData)
    (ownerName : String) (hasBots : Bool) (moves : List MoveLog) : Option (Store × ℕ) :=
  (db.saveGame now roomId stateJson players ownerName hasBots).bind fun saved =>
    (saved.1.addGameMoves saved.2 moves).map fun db => (db.setGameStatus saved.2 .voided, saved.2)

/-- Void a running correspondence game; `loads` says that the row is that of such a game and its
room can be loaded. -/
def asyncVoid (gameId : ℕ) (loads : Bool) : Option Store :=
  (db.gameRow gameId).bind fun row =>
    if row.status = .active && loads then some (db.setGameStatus gameId .voided) else none

end Store

/-- The ways to void a game. -/
inductive Voiding
  | voidGame (gameId : ℕ)
  | voidRoom (now : ℕ) (roomId : RoomId) (stateJson : Json) (players : List GamePlayerData)
      (ownerName : String) (hasBots : Bool) (moves : List MoveLog)
  | asyncVoid (gameId : ℕ) (loads : Bool)

namespace Voiding

open Store Counters Ratings

variable {db db' : Store} {rule : RatingRule}

/-- The tables after a game has been voided, and the row of the game. -/
def apply (rule : RatingRule) (db : Store) : Voiding → Option (Store × ℕ)
  | voidGame gameId => (db.voidGame rule gameId).map fun db => (db, gameId)
  | voidRoom now roomId stateJson players ownerName hasBots moves =>
    db.voidRoom now roomId stateJson players ownerName hasBots moves
  | asyncVoid gameId loads => (db.asyncVoid gameId loads).map fun db => (db, gameId)

/-- A game has its status again, and every user the counters, the rating and the number of rated
games. -/
structure Restored (db db' : Store) (gameId : ℕ) : Prop where
  status : db'.statusOf gameId = db.statusOf gameId
  counters : ∀ uid, (db'.getUser uid).map UserRow.counters = (db.getUser uid).map UserRow.counters
  ratings : ∀ uid, db'.standing uid = db.standing uid

/-! ## What the computation writes -/

/-- The user with the counters computed anew. -/
def recounted (db : Store) (u : UserRow) : UserRow :=
  { u with
    gamesPlayed := (db.computeCounters u.id).1
    gamesWon := (db.computeCounters u.id).2.1
    totalScore := (db.computeCounters u.id).2.2 }

/-- The user with the rating computed anew. -/
def rerated (state : RatingState) (u : UserRow) : UserRow :=
  match state.lookup u.id with
  | some (rating, ratedGames) => { u with rating, ratedGames }
  | none => u

theorem recomputeUserCounters_eq (db : Store) (uid : UserId) : db.recomputeUserCounters uid =
    { db with users := db.users.map fun u => if u.id = uid then recounted db u else u } := by
  simp only [recomputeUserCounters]
  congr 1
  refine List.map_congr_left fun u _ => ?_
  split
  · rename_i hid
    rw [recounted, hid]
  · rfl

theorem foldl_recomputeUserCounters (uids : List UserId) (db : Store) :
    uids.foldl recomputeUserCounters db =
      { db with users := db.users.map fun u => if u.id ∈ uids then recounted db u else u } := by
  induction uids generalizing db with
  | nil => simp
  | cons uid uids ih =>
    rw [List.foldl_cons, ih, recomputeUserCounters_eq]
    simp only [List.map_map]
    congr 1
    refine List.map_congr_left fun u _ => ?_
    have hcounted : ∀ u, recounted
        { db with users := db.users.map fun u => if u.id = uid then recounted db u else u } u =
          recounted db u := fun u => rfl
    simp only [Function.comp_apply, hcounted, List.mem_cons]
    by_cases hid : u.id = uid
    · have hsame : recounted db (recounted db u) = recounted db u := rfl
      rw [if_pos hid]
      refine Eq.trans ?_ (if_pos (Or.inl hid)).symm
      split
      · exact hsame
      · rfl
    · rw [if_neg hid]
      exact if_congr (or_iff_right hid).symm rfl rfl

/-- The ratings are computed from the games and their rows. -/
theorem computeRatings_congr (husers : db'.users.map UserRow.id = db.users.map UserRow.id)
    (hgames : db'.games = db.games) (hplayers : db'.players.map seatPart = db.players.map seatPart)
    (hadjustments : db'.adjustments = db.adjustments) :
    db'.computeRatings rule = db.computeRatings rule := by
  refine computeRatings_eq rule (l := []) husers ?_ fun g _ => ?_
  · rw [List.append_nil, timeline, timeline, events, events, hgames, hadjustments]
  · have hfilter : ∀ l : List PlayerRow, (l.filter fun r => r.gameId = g.id).map seatPart =
        (l.map seatPart).filter fun e => e.1 = g.id := by
      intro l
      rw [List.filter_map]
      rfl
    rw [hfilter, hfilter, hplayers]

/-- What a change of the status makes of the tables: the row is marked, and the counters of the
participants and the ratings are computed from the tables so far. -/
structure Refreshed (rule : RatingRule) (gameId : ℕ) (status : Status) (db db' : Store) : Prop where
  games : db'.games = (db.setGameStatus gameId status).games
  users : db'.users = db.users.map fun u =>
    rerated ((db.setGameStatus gameId status).computeRatings rule).1
      (if u.id ∈ db.participants gameId then recounted (db.setGameStatus gameId status) u else u)
  parts : db'.players.map part = db.players.map part
  seatParts : db'.players.map seatPart = db.players.map seatPart
  adjustments : db'.adjustments = db.adjustments

theorem changeStatus_refreshed (rule : RatingRule) (gameId : ℕ) (status : Status) (db : Store) :
    Refreshed rule gameId status db (db.changeStatus rule gameId status) := by
  unfold changeStatus refreshAfterStatusChange
  rw [foldl_recomputeUserCounters]
  have hids : ∀ uids : List UserId,
      ((db.setGameStatus gameId status).users.map fun u =>
        if u.id ∈ uids then recounted (db.setGameStatus gameId status) u else u).map UserRow.id =
        (db.setGameStatus gameId status).users.map UserRow.id := by
    intro uids
    rw [List.map_map]
    refine List.map_congr_left fun u _ => ?_
    simp only [Function.comp_apply]
    split <;> rfl
  have hcomputed : computeRatings { db.setGameStatus gameId status with
      users := (db.setGameStatus gameId status).users.map fun u =>
        if u.id ∈ (db.setGameStatus gameId status).participants gameId then
          recounted (db.setGameStatus gameId status) u else u } rule =
      (db.setGameStatus gameId status).computeRatings rule :=
    computeRatings_congr (hids _) rfl rfl rfl
  simp only [recomputeRatings, if_true, hcomputed]
  refine ⟨rfl, ?_, ?_, ?_, rfl⟩
  · rw [List.map_map]
    rfl
  · rw [List.map_map]
    rfl
  · rw [List.map_map]
    rfl

/-! ## Voiding and taking back -/

theorem setGameStatus_setGameStatus (gameId : ℕ) (status status' : Status) (db : Store) :
    ((db.setGameStatus gameId status).setGameStatus gameId status').games =
      (db.setGameStatus gameId status').games := by
  simp only [setGameStatus, List.map_map]
  refine List.map_congr_left fun g _ => ?_
  simp only [Function.comp_apply]
  split <;> simp [*]

theorem statusOf_setGameStatus {gameId : ℕ} {status : Status} (h : (db.gameRow gameId).isSome) :
    (db.setGameStatus gameId status).statusOf gameId = some status := by
  have hid : ((fun g : GameRow => decide (g.id = gameId)) ∘
      fun g : GameRow => if g.id = gameId then { g with status } else g) =
        fun g => decide (g.id = gameId) := by
    funext g
    simp only [Function.comp_apply]
    split <;> simp [*]
  obtain ⟨g, hg⟩ := Option.isSome_iff_exists.mp h
  have hgid : g.id = gameId := by simpa using List.find?_some hg
  rw [gameRow] at hg
  rw [statusOf, gameRow, setGameStatus, List.find?_map, hid, hg, Option.map_some, Option.map_some,
    if_pos hgid]

/-- A row that is set to its own status stays. -/
theorem setGameStatus_self (h : WellFormed db) {gameId : ℕ} {row : GameRow}
    (hrow : db.gameRow gameId = some row) :
    (db.setGameStatus gameId row.status).games = db.games := by
  have hmem := List.mem_of_find?_eq_some hrow
  have hid : row.id = gameId := by simpa using List.find?_some hrow
  conv_rhs => rw [← List.map_id' db.games]
  refine List.map_congr_left fun g hg => ?_
  split
  · rename_i hgid
    rw [h.game_eq hg hmem (hgid.trans hid.symm)]
  · rfl

/-- What is read of the rows of the seats says who has taken part. -/
theorem participants_congr (hparts : db'.players.map part = db.players.map part) (gameId : ℕ) :
    db'.participants gameId = db.participants gameId := by
  have hread : ∀ db : Store, db.participants gameId =
      ((((db.players.map part).filter fun e => e.1 = gameId).filterMap fun e => e.2.1).dedup) := by
    intro db
    rw [List.filter_map, List.filterMap_map]
    rfl
  rw [hread, hread, hparts]

theorem rerated_spec (state : RatingState) (u : UserRow) :
    (rerated state u).id = u.id ∧ (rerated state u).displayName = u.displayName ∧
      (rerated state u).counters = u.counters := by
  unfold rerated
  split <;> exact ⟨rfl, rfl, rfl⟩

theorem rerated_of_lookup {state : RatingState} {u : UserRow} {s : ℤ × ℤ}
    (h : state.lookup u.id = some s) :
    (rerated state u).rating = s.1 ∧ (rerated state u).ratedGames = s.2 := by
  rw [rerated, h]
  exact ⟨rfl, rfl⟩

theorem user_eq {u v : UserRow} (hid : u.id = v.id) (hname : u.displayName = v.displayName)
    (hrating : u.rating = v.rating) (hgames : u.ratedGames = v.ratedGames)
    (hcounters : u.counters = v.counters) : u = v := by
  obtain ⟨hplayed, hwon, hscore⟩ : u.gamesPlayed = v.gamesPlayed ∧ u.gamesWon = v.gamesWon ∧
      u.totalScore = v.totalScore := by
    simpa [UserRow.counters] using hcounters
  cases u
  cases v
  simp_all

/-- The ratings are those that are computed, when the dry run finds nothing to change. -/
theorem lookup_of_unchanged (h : (db.recomputeRatings rule false).2 = 0) {u : UserRow}
    (hu : u ∈ db.users) :
    (db.computeRatings rule).1.lookup u.id = some (u.rating, u.ratedGames) := by
  simp only [recomputeRatings, List.length_eq_zero_iff, List.filter_eq_nil_iff] at h
  simpa using h u hu

/-- Computing the counters of the users anew changes none. -/
theorem counters_of_settled (h : Settled db) {u : UserRow} (hu : u ∈ db.users) :
    db.computeCounters u.id = u.counters := by
  have hmap := h u.id
  rw [recomputeUserCounters_eq] at hmap
  have hsame := List.map_eq_map_iff.mp (hmap.trans (List.map_id' db.users).symm) u hu
  rw [if_pos rfl] at hsame
  exact congrArg UserRow.counters hsame

/-- **A finished game that is voided and taken back** leaves the accounts as they were. -/
theorem users_of_restored (h : WellFormed db) (hsettled : Settled db)
    (hratings : (db.recomputeRatings rule false).2 = 0) {gameId : ℕ} {row : GameRow}
    (hrow : db.gameRow gameId = some row) (hstatus : row.status = .finished) {db₁ db₂ : Store}
    (h₁ : Refreshed rule gameId .voided db db₁) (h₂ : Refreshed rule gameId .finished db₁ db₂) :
    db₂.games = db.games ∧ db₂.users = db.users := by
  have hgames : (db₁.setGameStatus gameId .finished).games = db.games := by
    calc (db₁.setGameStatus gameId .finished).games
        = ((db.setGameStatus gameId .voided).setGameStatus gameId .finished).games := by
          rw [setGameStatus, h₁.games]
          rfl
      _ = (db.setGameStatus gameId .finished).games := setGameStatus_setGameStatus _ _ _ _
      _ = db.games := hstatus ▸ setGameStatus_self h hrow
  have hids : db₁.users.map UserRow.id = db.users.map UserRow.id := by
    rw [h₁.users, List.map_map]
    refine List.map_congr_left fun u _ => ?_
    simp only [Function.comp_apply, (rerated_spec _ _).1]
    split <;> rfl
  -- the computations read the same tables again
  have hcounters : ∀ uid, (db₁.setGameStatus gameId .finished).computeCounters uid =
      db.computeCounters uid := computeCounters_congr h₁.parts hgames
  have hcomputed : (db₁.setGameStatus gameId .finished).computeRatings rule =
      db.computeRatings rule := computeRatings_congr hids hgames h₁.seatParts h₁.adjustments
  refine ⟨h₂.games.trans hgames, ?_⟩
  rw [h₂.users, h₁.users, List.map_map, hcomputed, participants_congr h₁.parts]
  conv_rhs => rw [← List.map_id' db.users]
  refine List.map_congr_left fun u hu => ?_
  simp only [Function.comp_apply]
  generalize hv : rerated ((db.setGameStatus gameId .voided).computeRatings rule).1
    (if u.id ∈ db.participants gameId then recounted (db.setGameStatus gameId .voided) u else u) = v
  have hspec := rerated_spec ((db.setGameStatus gameId .voided).computeRatings rule).1
    (if u.id ∈ db.participants gameId then recounted (db.setGameStatus gameId .voided) u else u)
  rw [hv] at hspec
  have hvid : v.id = u.id := by
    rw [hspec.1]
    split <;> rfl
  have hvname : v.displayName = u.displayName := by
    rw [hspec.2.1]
    split <;> rfl
  generalize hw : (if v.id ∈ db.participants gameId then
    recounted (db₁.setGameStatus gameId .finished) v else v) = w
  have hwid : w.id = u.id := by
    rw [← hw]
    split <;> exact hvid
  obtain ⟨hid, hname, hkept⟩ := rerated_spec (db.computeRatings rule).1 w
  have hlookup : (db.computeRatings rule).1.lookup w.id = some (u.rating, u.ratedGames) := by
    rw [hwid]
    exact lookup_of_unchanged hratings hu
  obtain ⟨hrating, hrated⟩ := rerated_of_lookup hlookup
  refine user_eq (hid.trans hwid) (hname.trans ?_) hrating hrated (hkept.trans ?_)
  · rw [← hw]
    split <;> exact hvname
  · rw [← hw]
    split
    · have hrecounted : (recounted (db₁.setGameStatus gameId .finished) v).counters =
          (db₁.setGameStatus gameId .finished).computeCounters v.id := rfl
      rw [hrecounted, hcounters, hvid, counters_of_settled hsettled hu]
    · rename_i hmem
      rw [hspec.2.2, if_neg (hvid ▸ hmem)]

theorem unvoidGame_spec {gameId : ℕ} (h : db.unvoidGame rule gameId = some db') :
    (db.gameRow gameId).isSome ∧ Refreshed rule gameId .finished db db' := by
  obtain ⟨row, hrow, h⟩ := Option.bind_eq_some_iff.mp h
  split at h
  · exact absurd h (by simp)
  · rw [← Option.some.inj h]
    exact ⟨by rw [hrow]; rfl, changeStatus_refreshed rule gameId .finished db⟩

/-- A game that is taken back is a finished one. -/
theorem statusOf_unvoidGame {gameId : ℕ} (h : db.unvoidGame rule gameId = some db') :
    db'.statusOf gameId = some .finished := by
  obtain ⟨hrow, hrefreshed⟩ := unvoidGame_spec h
  rw [← statusOf_setGameStatus hrow, statusOf, statusOf, gameRow, gameRow, hrefreshed.games]

/-- The row of a room whose running game is saved is not that of a finished game. -/
theorem statusOf_saveGame (h : WellFormed db) {now : ℕ} {roomId : RoomId} {stateJson : Json}
    {players : List GamePlayerData} {ownerName : String} {hasBots : Bool} {id : ℕ}
    (hcall : db.saveGame now roomId stateJson players ownerName hasBots = some (db', id)) :
    db.statusOf id ≠ some .finished := by
  obtain ⟨-, hput, -⟩ := saveGame_spec h hcall
  intro hstatus
  obtain ⟨g, hg, hgstatus⟩ := Option.map_eq_some_iff.mp hstatus
  have hid : g.id = id := by simpa using List.find?_some hg
  exact Bool.noConfusion ((isFinished_before h hput).symm.trans
    (isFinished_iff.mpr ⟨g, List.mem_of_find?_eq_some hg, hid, hgstatus⟩))

/-- **Taking back restores what was** exactly when the game was voided as a finished one. -/
theorem restored_iff (rule : RatingRule) {db db₁ db₂ : Store} (h : WellFormed db)
    (hcounters : Settled db) (hratings : (db.recomputeRatings rule false).2 = 0)
    {voiding : Voiding} {gameId : ℕ} (hvoid : voiding.apply rule db = some (db₁, gameId))
    (hunvoid : db₁.unvoidGame rule gameId = some db₂) :
    Restored db db₂ gameId ↔ voiding = .voidGame gameId := by
  have hfinished := statusOf_unvoidGame hunvoid
  cases voiding with
  | voidGame id =>
    obtain ⟨db', hcall, heq⟩ := Option.map_eq_some_iff.mp hvoid
    obtain ⟨rfl, rfl⟩ := Prod.mk.inj heq
    refine iff_of_true ?_ rfl
    obtain ⟨row, hrow, hcall⟩ := Option.bind_eq_some_iff.mp hcall
    split at hcall
    · exact absurd hcall (by simp)
    · rename_i hstatus
      rw [not_not] at hstatus
      obtain ⟨hgames, husers⟩ := users_of_restored h hcounters hratings hrow hstatus
        (Option.some.inj hcall ▸ changeStatus_refreshed rule id .voided db)
        (unvoidGame_spec hunvoid).2
      refine ⟨?_, fun uid => ?_, fun uid => ?_⟩
      · rw [statusOf, statusOf, gameRow, gameRow, hgames]
      · rw [getUser, getUser, husers]
      · rw [standing, standing, getUser, getUser, husers]
  | voidRoom now roomId stateJson players ownerName hasBots moves =>
    refine iff_of_false (fun hrestored => ?_) (by simp)
    obtain ⟨saved, hsaved, hmoves⟩ := Option.bind_eq_some_iff.mp hvoid
    obtain ⟨db', -, heq⟩ := Option.map_eq_some_iff.mp hmoves
    obtain ⟨-, rfl⟩ := Prod.mk.inj heq
    have hcall : db.saveGame now roomId stateJson players ownerName hasBots =
        some (saved.1, saved.2) := hsaved
    exact statusOf_saveGame h hcall (hrestored.status.symm.trans hfinished)
  | asyncVoid id loads =>
    refine iff_of_false (fun hrestored => ?_) (by simp)
    obtain ⟨db', hcall, heq⟩ := Option.map_eq_some_iff.mp hvoid
    obtain ⟨rfl, rfl⟩ := Prod.mk.inj heq
    obtain ⟨row, hrow, hcall⟩ := Option.bind_eq_some_iff.mp hcall
    split at hcall
    · rename_i hactive
      have hstatus := hrestored.status.symm.trans hfinished
      rw [statusOf, hrow, Option.map_some, Option.some.injEq] at hstatus
      simp [hstatus] at hactive
    · exact absurd hcall (by simp)

/-! ## Games that are voided -/

/-- The seat of Anna. -/
def anna : GamePlayerData := ⟨"Anna", some 1, 10, true, false⟩

/-- The seat of Béla. -/
def bela : GamePlayerData := ⟨"Béla", some 2, 7, false, false⟩

/-- Who is rated higher is expected to win three games of four. -/
def favourite : RatingRule := Elo.rule fun rating other =>
  if rating < other then (1 : ℚ) / 4 else if other < rating then 3 / 4 else 1 / 2

/-- The tables after a finished game, which has moved two ratings. -/
def finishedGame : Store :=
  Runs.run (step favourite) Store.empty
    [.createUser "Anna", .createUser "Béla", .finishGame 1 0 .null [anna, bela] false]

/-- The tables with a running game. -/
def runningGame : Store :=
  Runs.run (step flatRule) Store.empty
    [.createUser "Anna", .saveGame 1 0 .null [anna] "Anna" false]

/-- What a finished game has moved is there again when it has been voided and taken back. -/
theorem restored_finishedGame : finishedGame.standing 1 = some (1216, 1) ∧ ∃ db₁ db₂,
    (Voiding.voidGame 1).apply favourite finishedGame = some (db₁, 1) ∧
      db₁.unvoidGame favourite 1 = some db₂ ∧ db₁.standing 1 = some (1200, 0) ∧
      Restored finishedGame db₂ 1 := by
  have hvoided : ((finishedGame.voidGame favourite 1).bind fun db₁ => db₁.standing 1) =
      some (1200, 0) := by decide +kernel
  obtain ⟨db₁, hvoid, hstanding⟩ := Option.bind_eq_some_iff.mp hvoided
  have htaken : ((finishedGame.voidGame favourite 1).bind fun db₁ =>
      db₁.unvoidGame favourite 1).isSome := by decide +kernel
  rw [hvoid, Option.bind_some] at htaken
  obtain ⟨db₂, hunvoid⟩ := Option.isSome_iff_exists.mp htaken
  have hcall : (Voiding.voidGame 1).apply favourite finishedGame = some (db₁, 1) := by
    rw [apply, hvoid, Option.map_some]
  have hbalanced : ∀ u ∈ finishedGame.users, u.counters = finishedGame.computeCounters u.id := by
    decide +kernel
  exact ⟨by decide +kernel, db₁, db₂, hcall, hunvoid, hstanding,
    (restored_iff favourite (wellFormed_run favourite _)
    (settled_of_balanced hbalanced) (by decide +kernel) hcall hunvoid).mpr rfl⟩

/-- A running game that is voided and taken back counts for Anna. -/
theorem counted_unfinished : ¬∀ (rule : RatingRule) (db db₁ db₂ : Store) (voiding : Voiding)
    (gameId : ℕ), WellFormed db → Settled db → (db.recomputeRatings rule false).2 = 0 →
      voiding.apply rule db = some (db₁, gameId) → db₁.unvoidGame rule gameId = some db₂ →
        Restored db db₂ gameId := by
  intro h
  have hvoided : (runningGame.voidRoom 2 0 .null [anna] "Anna" false []).isSome := by
    decide +kernel
  obtain ⟨e, hvoid⟩ := Option.isSome_iff_exists.mp hvoided
  have hplayed : ((runningGame.voidRoom 2 0 .null [anna] "Anna" false []).bind fun e =>
      (e.1.unvoidGame flatRule e.2).map fun db => (db.getUser 1).map UserRow.counters) =
        some (some (1, 0, 10)) := by
    decide +kernel
  rw [hvoid, Option.bind_some] at hplayed
  obtain ⟨db₂, hunvoid, hcounters⟩ := Option.map_eq_some_iff.mp hplayed
  have hbalanced : ∀ u ∈ runningGame.users, u.counters = runningGame.computeCounters u.id := by
    decide +kernel
  have hrestored := h flatRule runningGame e.1 db₂ (.voidRoom 2 0 .null [anna] "Anna" false []) e.2
    (wellFormed_run flatRule _) (settled_of_balanced hbalanced) (by decide +kernel) hvoid hunvoid
  have hbefore := hrestored.counters 1
  rw [hcounters] at hbefore
  exact absurd hbefore (by decide +kernel)

end Voiding

end Records

end ScrabbleMagyar
