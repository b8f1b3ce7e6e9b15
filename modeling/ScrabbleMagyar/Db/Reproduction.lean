import ScrabbleMagyar.Db.Replay
import ScrabbleMagyar.Foundations.Runs

/-!
# The replay gives the stored ratings

The computation of all ratings from nothing (`Db/Ratings.lean`) against the ratings that every
result has moved at once.

* `Ratings.reproduced_of_run`: the two agree after every history in which, within one second, the
  games are finished in the order of their identifiers and before a rating is set, and the seats
  of a user stand in a result as they stand in the table.
* `Ratings.out_of_order`: two games finished in the same second, the later one first, are replayed
  in the other order, and the ratings differ.
-/

namespace ScrabbleMagyar

namespace Records

open Server (UserId RoomId GamePlayerData)

namespace Ratings

open Store Counters

variable {db db' : Store} {rule : RatingRule}

/-! ## The stored ratings -/

/-- **The computation from nothing gives what is stored**: the rating and the number of rated
games of every user, and the rating before and after of every seat. -/
structure Reproduced (rule : RatingRule) (db : Store) : Prop where
  users : ∀ uid, (db.computeRatings rule).1.lookup uid = db.standing uid
  seats : ∀ r ∈ db.players,
    r.ratingBefore = (changeOf (db.computeRatings rule).2 r).map Prod.fst ∧
      r.ratingAfter = (changeOf (db.computeRatings rule).2 r).map Prod.snd

/-- The dry run finds nothing to change. -/
theorem Reproduced.unchanged (h : WellFormed db) (hrep : Reproduced rule db) :
    (db.recomputeRatings rule false).2 = 0 := by
  simp only [recomputeRatings, List.length_eq_zero_iff, List.filter_eq_nil_iff]
  intro u hu
  have hget : db.getUser u.id = some u := by
    cases hfind : db.getUser u.id with
    | none => exact absurd (List.find?_eq_none.mp hfind u hu) (by simp)
    | some x =>
      have hid : x.id = u.id := by simpa using List.find?_some hfind
      rw [List.inj_on_of_nodup_map h.userIds (List.mem_of_find?_eq_some hfind) hu hid]
  rw [hrep.users, standing, hget]
  simp

theorem changeOf_eq_none {perGame : PerGame} {r : PlayerRow}
    (h : ∀ uid, perGame.lookup (r.gameId, uid) = none) : changeOf perGame r = none := by
  cases huser : r.userId with
  | none => rw [changeOf, huser, Option.bind_none]
  | some uid => rw [changeOf, huser, Option.bind_some, h]

/-- The rows of a game have no ratings. -/
def Unrated (gameId : ℕ) (rows : List PlayerRow) : Prop :=
  ∀ r ∈ rows, r.gameId = gameId → r.ratingBefore = none ∧ r.ratingAfter = none

theorem unrated_map {gameId : ℕ} {rows : List PlayerRow} (h : Unrated gameId rows)
    {f : PlayerRow → PlayerRow} (hgame : ∀ r, (f r).gameId = r.gameId)
    (hbefore : ∀ r, (f r).ratingBefore = r.ratingBefore)
    (hafter : ∀ r, (f r).ratingAfter = r.ratingAfter) : Unrated gameId (rows.map f) := by
  intro r hr hid
  obtain ⟨x, hx, rfl⟩ := List.mem_map.mp hr
  rw [hbefore, hafter]
  exact h x hx ((hgame x).symm.trans hid)

theorem unrated_append {gameId : ℕ} {rows : List PlayerRow} (h : Unrated gameId rows)
    (pd : GamePlayerData) (isWinner : Bool) :
    Unrated gameId (rows ++ [newPlayer rows gameId pd isWinner]) := by
  intro r hr hid
  rcases List.mem_append.mp hr with hr | hr
  · exact h r hr hid
  · rw [List.mem_singleton.mp hr]
    exact ⟨rfl, rfl⟩

/-- Writing a seat brings no rating into the rows of the game. -/
theorem finishPlayers_unrated {gameId : ℕ} (players : List GamePlayerData) {rows : List PlayerRow}
    (h : Unrated gameId rows) : Unrated gameId (players.foldl (finishPlayer gameId) rows) := by
  induction players generalizing rows with
  | nil => exact h
  | cons pd players ih =>
    apply ih
    unfold finishPlayer
    split
    · apply unrated_map h <;> intro r <;> split <;> rfl
    · exact unrated_append h pd pd.isWinner

theorem upsertGamePlayers_unrated {gameId : ℕ} (players : List GamePlayerData)
    {rows : List PlayerRow} (h : Unrated gameId rows) :
    Unrated gameId (upsertGamePlayers gameId rows players) := by
  induction players generalizing rows with
  | nil => exact h
  | cons pd players ih =>
    apply ih
    unfold upsertGamePlayer
    split
    · apply unrated_map h <;> intro r <;> split <;> rfl
    · exact unrated_append h pd false

/-- A game that is not replayed has no ratings stored. -/
theorem Reproduced.unrated (h : WellFormed db) (hrep : Reproduced rule db) {row : GameRow}
    (hput : Puts db row db') : Unrated row.id db.players := by
  intro r hr hid
  have hnone : changeOf (db.computeRatings rule).2 r = none := by
    apply changeOf_eq_none
    intro uid
    rw [hid]
    exact foldl_replay_perGame (timeline_ne h hput) uid _
  simpa [hnone] using hrep.seats r hr

/-- The rows of a game after the new ratings: those of its rated players say them. -/
theorem rated_spec (gameId : ℕ) (entries : List Entry) (after : Entry → ℤ) (r : PlayerRow) :
    identity (rated gameId entries after r) = identity r ∧
      seatPart (rated gameId entries after r) = seatPart r ∧
      (rated gameId entries after r).ratingBefore =
        (((if r.gameId = gameId then r.userId.bind (find entries) else none).map
          Entry.rating).or r.ratingBefore) ∧
      (rated gameId entries after r).ratingAfter =
        (((if r.gameId = gameId then r.userId.bind (find entries) else none).map after).or
          r.ratingAfter) := by
  unfold rated
  cases if r.gameId = gameId then r.userId.bind (find entries) else none with
  | none => exact ⟨rfl, rfl, rfl, rfl⟩
  | some e => exact ⟨rfl, rfl, rfl, rfl⟩

/-- **A call keeps the agreement** when the stored ratings and the computed ones both move by the
same entries. -/
theorem reproduced_puts (h : WellFormed db) (hrep : Reproduced rule db) {row : GameRow}
    (hput : Puts db row db') {players : List GamePlayerData} {rows : List PlayerRow}
    (hwrote : WroteAll db.players row.id players rows)
    (hunrated : Unrated row.id rows) {entries : List Entry} {after : Entry → ℤ}
    (hplayers : db'.players = rows.map (rated row.id entries after))
    (hstanding : ∀ uid, db'.standing uid =
      ((find entries uid).map fun e => (after e, e.ratedGames + 1)).or (db.standing uid))
    (hstate : ∀ uid, (db'.computeRatings rule).1.lookup uid =
      ((find entries uid).map fun e => (after e, e.ratedGames + 1)).or
        ((db.computeRatings rule).1.lookup uid))
    (hgames : ∀ id uid, (db'.computeRatings rule).2.lookup (id, uid) =
      (if id = row.id then (find entries uid).map fun e => (e.rating, after e) else none).or
        ((db.computeRatings rule).2.lookup (id, uid))) : Reproduced rule db' := by
  refine ⟨fun uid => by rw [hstate, hstanding, hrep.users], fun r hr => ?_⟩
  rw [hplayers] at hr
  obtain ⟨x, hx, rfl⟩ := List.mem_map.mp hr
  obtain ⟨hidentity, -, hbefore, hafter⟩ := rated_spec row.id entries after x
  rw [hbefore, hafter]
  have hgame : (rated row.id entries after x).gameId = x.gameId :=
    congrArg (fun e => e.2.1.1) hidentity
  have huser : (rated row.id entries after x).userId = x.userId :=
    congrArg (fun e => e.2.2) hidentity
  have hbefore' : ∀ uid, (db.computeRatings rule).2.lookup (row.id, uid) = none :=
    fun uid => foldl_replay_perGame (timeline_ne h hput) uid _
  rw [changeOf, hgame, huser]
  by_cases hid : x.gameId = row.id
  · obtain ⟨hb, ha⟩ := hunrated x hx hid
    rw [hb, ha, if_pos hid]
    cases x.userId with
    | none => exact ⟨rfl, rfl⟩
    | some uid =>
      rw [Option.bind_some, Option.bind_some, hgames, if_pos hid, hid, hbefore']
      cases find entries uid <;> exact ⟨rfl, rfl⟩
  · have hmem : x ∈ db.players := by
      have hfilter : x ∈ rows.filter fun r => r.gameId ≠ row.id :=
        List.mem_filter.mpr ⟨hx, by simpa using hid⟩
      rw [hwrote.elsewhere] at hfilter
      exact (List.mem_filter.mp hfilter).1
    rw [if_neg hid]
    have hstored := hrep.seats x hmem
    rw [changeOf] at hstored
    cases huid : x.userId with
    | none => simpa [huid] using hstored
    | some uid =>
      rw [Option.bind_some, hgames, if_neg hid, Option.none_or]
      simpa [huid] using hstored

/-! ## The calls -/

/-- The ratings of the users after a change that keeps the accounts. -/
theorem standing_map {f : UserRow → UserRow} (hid : ∀ u, (f u).id = u.id)
    (husers : db'.users = db.users.map f) (uid : UserId) :
    db'.standing uid = (db.getUser uid).map fun u => ((f u).rating, (f u).ratedGames) := by
  rw [standing, getUser, husers, List.find?_map]
  have hsame : ((fun u : UserRow => decide (u.id = uid)) ∘ f) = fun u => decide (u.id = uid) := by
    funext u
    simp only [Function.comp_apply, hid]
  rw [hsame, Option.map_map]
  rfl

/-- A call that adds nothing to the replay keeps the agreement. -/
theorem reproduced_unrated (h : WellFormed db) (h' : WellFormed db') (hrep : Reproduced rule db)
    {row : GameRow} (hput : Puts db row db')
    (hnew : ¬(row.status = .finished ∧ row.hasBots = false)) {players : List GamePlayerData}
    (hwrote : WroteAll db.players row.id players db'.players)
    (hunrated : Unrated row.id db'.players)
    (husers : db'.users.map UserRow.id = db.users.map UserRow.id)
    (hstanding : ∀ uid, db'.standing uid = db.standing uid) : Reproduced rule db' := by
  have htimeline : db'.timeline = db.timeline := by
    apply timeline_congr h h'
    intro e
    rw [mem_events_puts h hput]
    exact or_iff_left fun hrow => hnew hrow.1
  have hcomputed : db'.computeRatings rule = db.computeRatings rule :=
    computeRatings_eq rule (l := []) husers (by rw [htimeline, List.append_nil]) fun g hg =>
      rows_elsewhere hwrote.elsewhere rfl (timeline_ne h hput g hg)
  refine reproduced_puts h hrep hput hwrote hunrated
    (rated_nil row.id (fun _ => 0) db'.players).symm (fun uid => ?_) (fun uid => ?_) fun id uid => ?_
  · rw [hstanding]
    rfl
  · rw [hcomputed]
    rfl
  · rw [hcomputed]
    split <;> rfl

theorem reproduced_saveGame (h : WellFormed db) (hrep : Reproduced rule db) {now : ℕ}
    {roomId : RoomId} {stateJson : Json} {players : List GamePlayerData} {ownerName : String}
    {hasBots : Bool} {id : ℕ}
    (hcall : db.saveGame now roomId stateJson players ownerName hasBots = some (db', id)) :
    Reproduced rule db' := by
  obtain ⟨-, hput, husers, hplayers⟩ := saveGame_spec h hcall
  refine reproduced_unrated h (h.saveGame hcall) hrep hput (by simp)
    (hplayers ▸ upsertGamePlayers_wroteAll h.seated id players)
    (hplayers ▸ upsertGamePlayers_unrated players (hrep.unrated h hput)) (by rw [husers])
    fun uid => ?_
  rw [standing, standing, getUser, getUser, husers]

/-! ## A recorded result -/

theorem applyRatings_eq_map (rule : RatingRule) (gameId : ℕ) (players : List GamePlayerData) :
    db.applyRatings rule gameId players =
      let entries := ranked db.standing (ratedSeats players)
      { db with
        users := db.users.map (moved (contested entries) (ratingAfter rule entries))
        players := db.players.map (rated gameId (contested entries) (ratingAfter rule entries)) } := by
  rw [← foldl_rerate gameId _ (contested_nodup _ _)]
  unfold applyRatings contested
  simp only
  split <;> rfl

/-- The entry of a user says the rating and the number of rated games. -/
theorem standing_of_find {standing : UserId → Option (ℤ × ℤ)} {seats : List (UserId × ℤ)}
    {uid : UserId} {e : Entry} (h : find (contested (ranked standing seats)) uid = some e) :
    standing uid = some (e.rating, e.ratedGames) := by
  have hfind : find (ranked standing seats) uid = some e := by
    unfold contested at h
    split at h
    · exact absurd h (by simp [find])
    · exact h
  rw [(ranked_spec standing seats).2, entryOf, Option.bind_eq_some_iff] at hfind
  obtain ⟨seat, -, hseat⟩ := hfind
  obtain ⟨s, hs, rfl⟩ := Option.map_eq_some_iff.mp hseat
  exact hs

theorem standing_moved {entries : List Entry} {after : Entry → ℤ} (hdb : db'.users =
    db.users.map (moved entries after))
    (hentries : ∀ uid e, find entries uid = some e →
      db.standing uid = some (e.rating, e.ratedGames)) (uid : UserId) :
    db'.standing uid =
      ((find entries uid).map fun e => (after e, e.ratedGames + 1)).or (db.standing uid) := by
  have hid : ∀ u : UserRow, (moved entries after u).id = u.id := by
    intro u
    unfold moved
    split <;> rfl
  rw [standing_map hid hdb]
  cases hget : db.getUser uid with
  | none =>
    cases hfind : find entries uid with
    | none => rw [standing, hget]; rfl
    | some e =>
      have hstanding := hentries uid e hfind
      rw [standing, hget] at hstanding
      exact absurd hstanding (by simp)
  | some u =>
    have huid : u.id = uid := by simpa using List.find?_some hget
    rw [Option.map_some, moved, huid]
    cases hfind : find entries uid with
    | none =>
      rw [standing, hget]
      rfl
    | some e =>
      have hstanding := hentries uid e hfind
      rw [standing, hget, Option.map_some, Option.some.injEq, Prod.mk.injEq] at hstanding
      simp [hstanding.2]

theorem standing_recordResults (db : Store) (gameId : ℕ) (players : List GamePlayerData)
    (uid : UserId) :
    (db.recordResults gameId players).standing uid = db.standing uid := by
  have hcount : ∀ (players : List GamePlayerData) (u : UserRow),
      (players.foldl countUser u).id = u.id ∧ (players.foldl countUser u).rating = u.rating ∧
        (players.foldl countUser u).ratedGames = u.ratedGames := by
    intro players
    induction players with
    | nil => exact fun _ => ⟨rfl, rfl, rfl⟩
    | cons pd players ih =>
      intro u
      obtain ⟨hid, hrating, hgames⟩ := ih (countUser u pd)
      rw [List.foldl_cons, hid, hrating, hgames]
      unfold countUser
      split <;> exact ⟨rfl, rfl, rfl⟩
  rw [standing_map (fun u => (hcount players u).1) (countResults_eq players db.users)]
  simp only [standing, (hcount players _).2]

/-- The row that the game of a room gets. -/
def rowId (db : Store) (roomId : RoomId) : ℕ :=
  ((db.activeOf roomId).map GameRow.id).getD (nextId (db.games.map GameRow.id))

/-- The time of an event of the replay. -/
def timeOf : TimelineEvent → ℕ
  | .game g => g.updatedAt
  | .adjustment a => a.createdAt

/-- No stored time lies after `now`. -/
def Timely (db : Store) (now : ℕ) : Prop := ∀ e ∈ db.events, timeOf e ≤ now

/-- **The order that the replay needs** of a recorded result: what happened in the same second
are games with lesser rows, and the first seat of a user has the first row. -/
structure InOrder (db : Store) (now : ℕ) (roomId : RoomId) (players : List GamePlayerData) :
    Prop where
  last : ∀ e ∈ db.events, timeOf e = now → e.key < toLex (now, toLex (0, rowId db roomId))
  first : ∀ pd ∈ players, ∀ uid, pd.userId = some uid →
    firstSeat players uid = firstRow db.players (rowId db roomId) players uid

theorem rowId_of_finishGame {now : ℕ} {roomId : RoomId} {stateJson : Json}
    {players : List GamePlayerData} {hasBots : Bool} {id : ℕ}
    (hcall : db.finishGame rule now roomId stateJson players hasBots = some (db', id)) :
    id = rowId db roomId := by
  unfold finishGame at hcall
  split at hcall
  · exact absurd hcall (by simp)
  · obtain ⟨-, rfl⟩ := Prod.mk.inj (Option.some.inj hcall)
    unfold rowId
    cases db.activeOf roomId <;> rfl

/-- An event that comes last within its second comes last, when no time lies after it. -/
theorem key_lt {now kind id : ℕ} (htimely : Timely db now)
    (hlast : ∀ e ∈ db.events, timeOf e = now → e.key < toLex (now, toLex (kind, id))) :
    ∀ e ∈ db.events, e.key < toLex (now, toLex (kind, id)) := by
  intro e he
  rcases (htimely e he).lt_or_eq with hlt | heq
  · cases e <;> exact Prod.Lex.toLex_lt_toLex.mpr (.inl hlt)
  · exact hlast e he heq

/-- The entries of a result are those that its replay finds. -/
theorem find_ranked_eq (h : WellFormed db) {row : GameRow} (hput : Puts db row db')
    {players : List GamePlayerData} (htells : Telling db row.roomId row.stateJson players)
    {db₁ : Store} (hdb₁ : db₁.players = players.foldl (finishPlayer row.id) db.players)
    (hfirst : ∀ pd ∈ players, ∀ uid, pd.userId = some uid →
      firstSeat players uid = firstRow db.players row.id players uid) (uid : UserId) :
    find (ranked db.standing (db₁.storedSeats row)) uid =
      find (ranked db.standing (ratedSeats players)) uid := by
  rw [(ranked_spec _ _).2, (ranked_spec _ _).2, entryOf, entryOf]
  cases hstanding : db.standing uid with
  | none =>
    have hnone : ∀ o : Option (UserId × ℤ), (o.bind fun seat =>
        (none : Option (ℤ × ℤ)).map fun s => (⟨uid, s.1, s.2, seat.2⟩ : Entry)) = none := by
      intro o
      cases o <;> rfl
    rw [hnone, hnone]
  | some s =>
    obtain ⟨u, hu, -⟩ := Option.map_eq_some_iff.mp hstanding
    have hpos : uid ≠ 0 := by
      have hid : u.id = uid := by simpa using List.find?_some hu
      exact hid ▸ h.userPos u (List.mem_of_find?_eq_some hu)
    rw [find_stored_eq h hput htells hdb₁ hpos]
    cases hseat : players.find? fun pd => decide (pd.userId = some uid) with
    | some pd =>
      exact hfirst pd (List.mem_of_find?_eq_some hseat) uid (by simpa using List.find?_some hseat)
    | none =>
      rw [firstSeat, hseat, firstRow, eq_comm, Option.map_none, List.find?_eq_none]
      intro name _ hany
      obtain ⟨pd, hpd, hnamed⟩ := List.any_eq_true.mp hany
      rw [decide_eq_true_eq] at hnamed
      exact absurd (decide_eq_true hnamed.2) (List.find?_eq_none.mp hseat pd hpd)

theorem reproduced_finishGame (h : WellFormed db) (hrep : Reproduced rule db) {now : ℕ}
    {roomId : RoomId} {stateJson : Json} {players : List GamePlayerData} {hasBots : Bool} {id : ℕ}
    (htimely : Timely db now) (htells : Telling db roomId stateJson players)
    (horder : hasBots = false → InOrder db now roomId players)
    (hcall : db.finishGame rule now roomId stateJson players hasBots = some (db', id)) :
    Reproduced rule db' := by
  have h' := h.finishGame hcall
  have hid := rowId_of_finishGame hcall
  obtain ⟨-, ⟨ownerName, hput⟩, games, hdb⟩ := finishGame_spec h hcall
  have hwrote := finishPlayers_wroteAll h.seated id players
  have hunrated := finishPlayers_unrated players (hrep.unrated h hput)
  cases hbots : hasBots with
  | true =>
    subst hbots
    rw [if_pos rfl] at hdb
    subst hdb
    refine reproduced_unrated h h' hrep hput (by simp) hwrote hunrated
      (countResults_ids players db.users) fun uid => ?_
    exact standing_recordResults { db with games } id players uid
  | false =>
    subst hbots
    obtain ⟨hlast, hfirst⟩ := horder rfl
    rw [if_neg (by simp), applyRatings_eq_map] at hdb
    simp only at hdb
    set recorded := { db with games }.recordResults id players with hrecorded
    have hstanding : recorded.standing = db.standing :=
      funext fun uid => standing_recordResults { db with games } id players uid
    rw [hstanding] at hdb
    set entries := ranked db.standing (ratedSeats players) with hentries
    have hplayers : db'.players =
        recorded.players.map (rated id (contested entries) (ratingAfter rule entries)) := by
      rw [hdb]
    have hparts : db'.players.map seatPart = recorded.players.map seatPart := by
      rw [hplayers, List.map_map]
      exact List.map_congr_left fun r _ => (rated_spec _ _ _ r).2.1
    have husers : db'.users.map UserRow.id = db.users.map UserRow.id := by
      rw [← countResults_ids players db.users, hdb, List.map_map]
      refine List.map_congr_left fun u _ => ?_
      simp only [Function.comp_apply, moved]
      split <;> rfl
    -- the replay of the game comes last and finds the entries of the call
    have htimeline : db'.timeline = db.timeline ++ [.game
        ⟨id, roomId, stateJson, .finished, ownerName, false, now⟩] := by
      refine timeline_append h h' (fun e => ?_) (key_lt htimely (hid ▸ hlast))
      rw [mem_events_puts h hput]
      simp
    have hstored : db'.storedSeats ⟨id, roomId, stateJson, .finished, ownerName, false, now⟩ =
        recorded.storedSeats ⟨id, roomId, stateJson, .finished, ownerName, false, now⟩ := by
      apply storedSeats_congr
      have hfilter : ∀ l : List PlayerRow, (l.filter fun r => r.gameId = id).map seatPart =
          (l.map seatPart).filter fun e => e.1 = id := by
        intro l
        rw [List.filter_map]
        rfl
      rw [hfilter, hparts, hfilter]
    have hrows : recorded.players = players.foldl (finishPlayer id) db.players := rfl
    have hfind := find_ranked_eq h hput htells hrows (hid ▸ hfirst)
    have hperm := perm_of_find (ranked_spec _ _).1 (ranked_spec _ _).1 hfind
    have hcomputed := computeRatings_eq rule husers htimeline fun g hg =>
      rows_elsewhere hwrote.elsewhere hparts (timeline_ne h hput g hg)
    rw [List.foldl_cons, List.foldl_nil, replay_game, hstored, funext hrep.users] at hcomputed
    have hafter : ratingAfter rule (ranked db.standing (recorded.storedSeats
        ⟨id, roomId, stateJson, .finished, ownerName, false, now⟩)) = ratingAfter rule entries := by
      funext e
      rw [ratingAfter, ratingAfter, rule.perm hperm]
    have henter := foldl_enter id (ratingAfter rule entries) (contested_nodup db.standing
      (recorded.storedSeats ⟨id, roomId, stateJson, .finished, ownerName, false, now⟩))
      (db.computeRatings rule)
    simp only at hcomputed
    rw [hafter] at hcomputed
    refine reproduced_puts h hrep hput hwrote hunrated hplayers (fun uid => ?_) (fun uid => ?_)
      fun gameId uid => ?_
    · rw [← hstanding]
      refine standing_moved (by rw [hdb]) (fun uid e he => ?_) uid
      rw [hstanding]
      exact standing_of_find he
    · rw [hcomputed, henter.1, find_contested hperm hfind]
    · rw [hcomputed, henter.2, find_contested hperm hfind]

/-! ## Accounts and set ratings -/

theorem reproduced_setRating (h : WellFormed db) (hrep : Reproduced rule db) {now : ℕ}
    {uid : UserId} {rating : ℤ} {manageable : Bool} (htimely : Timely db now)
    (hcall : db.setRating now uid rating manageable = some db') : Reproduced rule db' := by
  have h' := h.setRating hcall
  obtain ⟨user, huser, -, hdb⟩ := setRating_spec hcall
  have huid : user.id = uid := by simpa using List.find?_some huser
  have husers : db'.users.map UserRow.id = db.users.map UserRow.id := by
    rw [hdb, List.map_map]
    refine List.map_congr_left fun u _ => ?_
    simp only [Function.comp_apply]
    split <;> rfl
  have hplayers : db'.players = db.players := by rw [hdb]
  have htimeline : db'.timeline = db.timeline ++ [.adjustment
      ⟨nextId (db.adjustments.map AdjustmentRow.id), uid, user.rating, rating, now⟩] := by
    refine timeline_append h h' (fun e => ?_) (key_lt htimely fun e he htime => ?_)
    · rw [mem_events, mem_events, hdb]
      simp only [List.mem_append, List.mem_singleton, or_and_right, exists_or, exists_eq_left,
        or_assoc]
      rw [eq_comm (b := e)]
    · obtain ⟨g, -, -, -, rfl⟩ | ⟨a, ha, rfl⟩ := mem_events.mp he
      · exact Prod.Lex.toLex_lt_toLex.mpr (.inr ⟨htime, Prod.Lex.toLex_lt_toLex.mpr
          (.inl Nat.zero_lt_one)⟩)
      · exact Prod.Lex.toLex_lt_toLex.mpr (.inr ⟨htime, Prod.Lex.toLex_lt_toLex.mpr
          (.inr ⟨rfl, lt_nextId (List.mem_map_of_mem ha)⟩)⟩)
  have hcomputed := computeRatings_eq rule husers htimeline fun g _ => by rw [hplayers]
  have hlookup : (db.computeRatings rule).1.lookup uid = some (user.rating, user.ratedGames) := by
    rw [hrep.users, standing, huser]
    rfl
  simp only [List.foldl_cons, List.foldl_nil, replay, hlookup, add_sub_cancel] at hcomputed
  refine ⟨fun v => ?_, fun r hr => ?_⟩
  · have hid : ∀ u : UserRow, (if u.id = uid then { u with rating } else u).id = u.id := by
      intro u
      split <;> rfl
    rw [hcomputed, Table.lookup_insert, standing_map hid (by rw [hdb])]
    by_cases hv : v = uid
    · rw [if_pos hv, hv, huser, Option.map_some, if_pos huid]
    · rw [if_neg hv, hrep.users, standing]
      cases hget : db.getUser v with
      | none => rfl
      | some u =>
        have hu : u.id = v := by simpa using List.find?_some hget
        rw [Option.map_some, Option.map_some, if_neg (hu ▸ hv)]
  · rw [hcomputed]
    exact hrep.seats r (hplayers ▸ hr)

theorem reproduced_createUser (h : WellFormed db) (hrep : Reproduced rule db)
    (displayName : String) : Reproduced rule (db.createUser displayName) := by
  set uid := nextId (db.users.map UserRow.id) with huid
  have hfresh : uid ∉ db.users.map UserRow.id := nextId_notMem _
  have hextends : Extends uid (initialRating, 0) (db.computeRatings rule)
      ((db.createUser displayName).computeRatings rule) := by
    apply Extends.foldl_replay
    · intro g _ seat hseat heq
      obtain ⟨r, hr, hru⟩ := List.mem_filterMap.mp hseat
      obtain ⟨u, hu, rfl⟩ := Option.map_eq_some_iff.mp hru
      exact hfresh (heq ▸ h.accounts r (List.mem_filter.mp hr).1 u hu)
    · intro a ha heq
      obtain ⟨g, -, -, -, hg⟩ | ⟨a', ha', haa⟩ := mem_events.mp (mem_timeline.mp ha)
      · exact TimelineEvent.noConfusion hg
      · obtain rfl := TimelineEvent.adjustment.inj haa
        exact hfresh (heq ▸ h.adjusted a' ha')
    · refine ⟨fun u => ?_, fun _ _ => rfl⟩
      simp only [beginners, createUser, List.foldl_append, List.foldl_cons, List.foldl_nil]
      rw [Table.lookup_insert]
  refine ⟨fun u => ?_, fun r hr => ?_⟩
  · rw [hextends.state, hrep.users]
    simp only [standing, getUser, createUser, List.find?_append]
    by_cases hu : u = uid
    · have hnone : db.users.find? (fun x => decide (x.id = u)) = none := by
        rw [List.find?_eq_none]
        intro x hx hid
        rw [decide_eq_true_eq, hu] at hid
        exact hfresh (hid ▸ List.mem_map_of_mem hx)
      rw [if_pos hu, hnone, Option.none_or, List.find?_cons_of_pos (by simpa using hu.symm)]
      rfl
    · rw [if_neg hu, List.find?_cons_of_neg (by simpa using Ne.symm hu), List.find?_nil,
        Option.or_none]
  · have hchange : changeOf ((db.createUser displayName).computeRatings rule).2 r =
        changeOf (db.computeRatings rule).2 r := by
      unfold changeOf
      cases r.userId with
      | none => rfl
      | some v => exact hextends.games r.gameId v
    rw [hchange]
    exact hrep.seats r hr

/-! ## Every history -/

/-- The histories that are told of: the times do not decrease, a recorded result says whose the
seats are and who has resigned, and no save is closed at the start of the server. -/
def Told (db : Store) : Event → Prop
  | .finishGame now roomId stateJson players _ =>
    Timely db now ∧ Telling db roomId stateJson players
  | .setRating now _ _ _ => Timely db now
  | .cleanupFinishedSaves _ => ∀ g ∈ db.games, g.status = .active → g.isOver = false
  | _ => True

/-- The results of a history come in the order that the replay needs. -/
def Ordered (db : Store) : Event → Prop
  | .finishGame now roomId _ players hasBots => hasBots = false → InOrder db now roomId players
  | _ => True

theorem reproduced_step (h : WellFormed db) (hrep : Reproduced rule db) {e : Event}
    (htold : Told db e) (hordered : Ordered db e) : Reproduced rule (step rule db e) := by
  cases e with
  | createUser displayName => exact reproduced_createUser h hrep displayName
  | saveGame now roomId stateJson players ownerName hasBots =>
    simp only [step]
    cases hcall : db.saveGame now roomId stateJson players ownerName hasBots with
    | none => exact hrep
    | some e => exact reproduced_saveGame h hrep hcall
  | finishGame now roomId stateJson players hasBots =>
    simp only [step]
    cases hcall : db.finishGame rule now roomId stateJson players hasBots with
    | none => exact hrep
    | some e => exact reproduced_finishGame h hrep htold.1 htold.2 hordered hcall
  | setRating now uid rating manageable =>
    simp only [step]
    cases hcall : db.setRating now uid rating manageable with
    | none => exact hrep
    | some e => exact reproduced_setRating h hrep htold hcall
  | cleanupFinishedSaves now =>
    refine (cleanup_induct h (P := Reproduced rule) hrep ?_).2
    intro _ _ g _ _ _ _ _ hg hstatus hover _
    exact Bool.noConfusion ((htold g hg hstatus).symm.trans hover)

theorem reproduced_empty (rule : RatingRule) : Reproduced rule Store.empty :=
  ⟨fun _ => rfl, by simp [Store.empty]⟩

/-- **The computation from nothing gives the stored ratings** after every history whose results
come in the order that the replay needs: the dry run finds nothing to change. -/
theorem reproduced_of_run (rule : RatingRule) {l : List Event}
    (htold : Runs.Along (step rule) Told Store.empty l)
    (hordered : Runs.Along (step rule) Ordered Store.empty l) :
    Reproduced rule (Runs.run (step rule) Store.empty l) ∧
      ((Runs.run (step rule) Store.empty l).recomputeRatings rule false).2 = 0 := by
  have hrun := Runs.run_invariant (step rule)
    (P := fun db => WellFormed db ∧ Reproduced rule db)
    (Q := fun db e => Told db e ∧ Ordered db e)
    (fun db e hdb he => ⟨hdb.1.step e, reproduced_step hdb.1 hdb.2 he.1 he.2⟩)
    ⟨wellFormed_empty, reproduced_empty rule⟩ (htold.and (step rule) hordered)
  exact ⟨hrun.2, hrun.2.unchanged hrun.1⟩

/-! ## Histories -/

instance (db : Store) (now : ℕ) : Decidable (Timely db now) :=
  inferInstanceAs (Decidable (∀ e ∈ db.events, timeOf e ≤ now))

instance (db : Store) (roomId : RoomId) (stateJson : Json) (players : List GamePlayerData) :
    Decidable (Telling db roomId stateJson players) :=
  decidable_of_iff
    ((players.map GamePlayerData.playerName).Nodup ∧ Faithful db roomId players ∧
      ∀ pd ∈ players, hasResigned stateJson pd.playerName = pd.resigned)
    ⟨fun h => ⟨h.1, h.2.1, h.2.2⟩, fun h => ⟨h.names, h.faithful, h.flags⟩⟩

instance (db : Store) (now : ℕ) (roomId : RoomId) (players : List GamePlayerData) :
    Decidable (InOrder db now roomId players) :=
  decidable_of_iff
    ((∀ e ∈ db.events, timeOf e = now → e.key < toLex (now, toLex (0, rowId db roomId))) ∧
      ∀ pd ∈ players, ∀ uid ∈ pd.userId,
        firstSeat players uid = firstRow db.players (rowId db roomId) players uid)
    ⟨fun h => ⟨h.1, h.2⟩, fun h => ⟨h.last, h.first⟩⟩

/-- A rule under which everybody wins the points of those who play for the first time. -/
def debutRule : RatingRule where
  changes entries _ := (entries.map fun e => if e.ratedGames = 0 then e.score else 0).sum
  perm h := funext fun _ => (h.map _).sum_eq

/-- The result of a duel of the users 1 and 2. -/
def duel (score score' : ℤ) : List GamePlayerData :=
  [⟨"Anna", some 1, score, true, false⟩, ⟨"Bea", some 2, score', false, false⟩]

/-- A duel ends in the same second in which a rating is set afterwards, and another one later. -/
def duels : List Event :=
  [.createUser "Anna", .createUser "Bea", .saveGame 1 0 .null (duel 0 0) "Anna" false,
    .finishGame 5 0 .null (duel 10 3) false, .setRating 5 1 1500 true,
    .finishGame 6 1 .null (duel 7 8) false]

theorem reproduced_of_duels :
    ((Runs.run (step debutRule) Store.empty duels).recomputeRatings debutRule false).2 = 0 :=
  (reproduced_of_run debutRule (l := duels)
    ⟨trivial, trivial, trivial,
      show Timely _ 5 ∧ Telling _ 0 .null (duel 10 3) by decide +kernel,
      show Timely _ 5 by decide +kernel,
      show Timely _ 6 ∧ Telling _ 1 .null (duel 7 8) by decide +kernel, trivial⟩
    ⟨trivial, trivial, trivial, fun _ => by decide +kernel, trivial, fun _ => by decide +kernel,
      trivial⟩).2

/-- Two games are finished in the same second, the one with the later row first: the replay goes
through them in the order of the rows. -/
theorem out_of_order : ¬∀ (rule : RatingRule) (l : List Event),
    Runs.Along (step rule) Told Store.empty l →
      ((Runs.run (step rule) Store.empty l).recomputeRatings rule false).2 = 0 := by
  intro h
  have hzero := h debutRule
    [.createUser "Anna", .createUser "Bea", .saveGame 1 0 .null (duel 0 0) "Anna" false,
      .saveGame 2 1 .null (duel 0 0) "Anna" false, .finishGame 5 1 .null (duel 7 8) false,
      .finishGame 5 0 .null (duel 10 3) false]
    ⟨trivial, trivial, trivial, trivial,
      show Timely _ 5 ∧ Telling _ 1 .null (duel 7 8) by decide +kernel,
      show Timely _ 5 ∧ Telling _ 0 .null (duel 10 3) by decide +kernel, trivial⟩
  revert hzero
  decide +kernel

end Ratings

end Records

end ScrabbleMagyar
