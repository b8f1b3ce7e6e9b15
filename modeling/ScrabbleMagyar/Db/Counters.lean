import ScrabbleMagyar.Db.Results
import ScrabbleMagyar.Foundations.Runs
import Mathlib.Algebra.BigOperators.Group.List.Basic
import Mathlib.Algebra.Group.Prod

/-!
# The counters of the users

A user has a number of played games, of games won and a total score. They are counted up with
every recorded result (`countResult`), and they can be computed anew from the rows of the finished
games (`admin/users.rs`).

* `Counters.settled_of_run`: in every history in which each result that is recorded names the
  accounts that are stored with its seats, and no seat with an account shares its name, the
  computation changes nothing.
* `Counters.lost_result`: a result that leaves out an account that an earlier save has stored is
  not counted for the user, and the computation counts it.
-/

namespace ScrabbleMagyar

namespace Records

open Server (UserId RoomId GamePlayerData)

/-- Played, won and total score. -/
abbrev Counters := ℤ × ℤ × ℤ

def UserRow.counters (u : UserRow) : Counters := (u.gamesPlayed, u.gamesWon, u.totalScore)

namespace Store

variable (db : Store)

def isFinished (gameId : ℕ) : Bool := db.games.any fun g => g.id = gameId ∧ g.status = .finished

/-- The seats of a user in the finished games. -/
def countedRows (uid : UserId) : List PlayerRow :=
  db.players.filter fun r => r.userId = some uid && db.isFinished r.gameId

def computeCounters (uid : UserId) : Counters :=
  let rows := db.countedRows uid
  (rows.length, (rows.map fun r => if r.isWinner then (1 : ℤ) else 0).sum,
    (rows.map PlayerRow.finalScore).sum)

def recomputeUserCounters (uid : UserId) : Store :=
  let (played, won, score) := db.computeCounters uid
  { db with users := db.users.map fun u =>
      if u.id = uid then { u with gamesPlayed := played, gamesWon := won, totalScore := score }
      else u }

end Store

namespace Counters

open Store

variable {db db' : Store}

/-! ## What a seat adds -/

/-- What the result of a seat says: its name, whether it won, and its score. -/
abbrev Result := String × Bool × ℤ

def resultOf (r : PlayerRow) : Result := (r.playerName, r.isWinner, r.finalScore)

def resultIn (pd : GamePlayerData) : Result := (pd.playerName, pd.isWinner, pd.score)

def worth (v : Result) : Counters := (1, if v.2.1 then 1 else 0, v.2.2)

/-- What results add up to. -/
def tally (vs : List Result) : Counters := (vs.map worth).sum

theorem tally_append (vs ws : List Result) : tally (vs ++ ws) = tally vs + tally ws := by
  rw [tally, List.map_append, List.sum_append]
  rfl

theorem tally_perm {vs ws : List Result} (h : vs.Perm ws) : tally vs = tally ws :=
  (h.map worth).sum_eq

theorem tally_cons (v : Result) (vs : List Result) : tally (v :: vs) = worth v + tally vs := by
  rw [tally, List.map_cons, List.sum_cons]
  rfl

theorem computeCounters_eq (uid : UserId) :
    db.computeCounters uid = tally ((db.countedRows uid).map resultOf) := by
  simp only [computeCounters]
  induction db.countedRows uid with
  | nil => rfl
  | cons r rows ih =>
    have htally : tally ((r :: rows).map resultOf) = worth (resultOf r) + tally (rows.map resultOf) :=
      tally_cons _ _
    rw [htally, ← ih]
    simp only [List.length_cons, List.map_cons, List.sum_cons, worth, resultOf, Prod.mk_add_mk]
    refine Prod.ext ?_ rfl
    push_cast
    ring

/-! ## Counting up -/

/-- The user after the result of a seat. -/
def countUser (u : UserRow) (pd : GamePlayerData) : UserRow :=
  if pd.userId = some u.id ∧ u.id ≠ 0 then
    { u with
      gamesPlayed := u.gamesPlayed + 1
      gamesWon := u.gamesWon + if pd.isWinner then 1 else 0
      totalScore := u.totalScore + pd.score }
  else u

theorem countResult_eq (users : List UserRow) (pd : GamePlayerData) :
    countResult users pd = users.map fun u => countUser u pd := by
  unfold countResult
  cases hpd : pd.userId with
  | none => simp [countUser, hpd]
  | some uid =>
    by_cases hzero : uid = 0
    · subst hzero
      have hsame : ∀ u : UserRow, countUser u pd = u := by
        intro u
        refine if_neg fun h => h.2 ?_
        simpa using (Option.some.inj (hpd.symm.trans h.1)).symm
      have hnone : (some (0 : UserId)).filter (fun u => decide (u ≠ 0)) = none := rfl
      rw [hnone]
      simp [hsame]
    · simp only [Option.filter, ne_eq, hzero, not_false_eq_true, decide_true, if_true]
      refine List.map_congr_left fun u _ => if_congr ?_ rfl rfl
      rw [hpd, Option.some.injEq]
      exact ⟨fun h => ⟨h.symm, h ▸ hzero⟩, fun h => h.1.symm⟩

theorem countResults_eq (players : List GamePlayerData) (users : List UserRow) :
    players.foldl countResult users = users.map fun u => players.foldl countUser u := by
  induction players generalizing users with
  | nil => simp
  | cons pd players ih =>
    rw [List.foldl_cons, ih, countResult_eq, List.map_map]
    rfl

@[simp] theorem countUser_id (u : UserRow) (pd : GamePlayerData) : (countUser u pd).id = u.id := by
  unfold countUser
  split <;> rfl

/-- A user's results in a call. -/
def resultsFor (uid : UserId) (players : List GamePlayerData) : List Result :=
  (players.filter fun pd => pd.userId = some uid).map resultIn

theorem foldl_countUser (players : List GamePlayerData) {u : UserRow} (hpos : u.id ≠ 0) :
    (players.foldl countUser u).id = u.id ∧
      (players.foldl countUser u).counters = u.counters + tally (resultsFor u.id players) := by
  induction players generalizing u with
  | nil => exact ⟨rfl, (add_zero _).symm⟩
  | cons pd players ih =>
    obtain ⟨hid, hcounters⟩ := ih (u := countUser u pd) (by rwa [countUser_id])
    rw [List.foldl_cons]
    refine ⟨hid.trans (countUser_id u pd), hcounters.trans ?_⟩
    rw [countUser_id, resultsFor, resultsFor, List.filter_cons]
    by_cases huser : pd.userId = some u.id
    · simp only [huser, decide_true, if_true, List.map_cons, tally_cons, ← add_assoc]
      congr 1
      simp only [countUser, huser, hpos, ne_eq, not_false_eq_true, and_self, if_true]
      rfl
    · simp only [huser, decide_false, Bool.false_eq_true, if_false]
      rw [countUser, if_neg fun h => huser h.1]

/-! ## The rows of a call -/

/-- What a call that records a result has to say of the accounts: a seat with an account shares
its name with no other, and an account that is stored with a seat of the game is named with it. -/
structure Faithful (db : Store) (roomId : RoomId) (players : List GamePlayerData) : Prop where
  alone : ∀ pd ∈ players, ∀ uid, pd.userId = some uid → Alone players pd
  known : ∀ g ∈ db.games, g.roomId = roomId → g.status = .active → ∀ r ∈ db.players,
    r.gameId = g.id → ∀ uid, r.userId = some uid →
      ∃ pd ∈ players, pd.playerName = r.playerName ∧ pd.userId = some uid

instance (players : List GamePlayerData) (pd : GamePlayerData) : Decidable (Alone players pd) :=
  inferInstanceAs (Decidable (_ = _))

instance (db : Store) (roomId : RoomId) (players : List GamePlayerData) :
    Decidable (Faithful db roomId players) :=
  decidable_of_iff
    ((∀ pd ∈ players, ∀ uid ∈ pd.userId, Alone players pd) ∧
      ∀ g ∈ db.games, g.roomId = roomId → g.status = .active → ∀ r ∈ db.players, r.gameId = g.id →
        ∀ uid ∈ r.userId, ∃ pd ∈ players, pd.playerName = r.playerName ∧ pd.userId = some uid)
    ⟨fun h => ⟨h.1, h.2⟩, fun h => ⟨h.alone, h.known⟩⟩

theorem nodup_names {players : List GamePlayerData} {p : GamePlayerData → Bool}
    (h : ∀ pd ∈ players, p pd = true → Alone players pd) :
    ((players.filter p).map GamePlayerData.playerName).Nodup := by
  induction players with
  | nil => simp
  | cons x players ih =>
    have hrest : ∀ pd ∈ players, p pd = true → Alone players pd := by
      intro pd hpd hp
      obtain ⟨rfl, hothers⟩ | ⟨-, halone⟩ := alone_cons (h pd (List.mem_cons_of_mem x hpd) hp)
      · exact absurd rfl (hothers pd hpd)
      · exact halone
    rw [List.filter_cons]
    split
    · rename_i hp
      rw [List.map_cons, List.nodup_cons]
      refine ⟨fun hmem => ?_, ih hrest⟩
      obtain ⟨y, hy, hname⟩ := List.mem_map.mp hmem
      obtain ⟨-, hothers⟩ | ⟨hne, -⟩ := alone_cons (h x List.mem_cons_self hp)
      · exact hothers y (List.mem_filter.mp hy).1 hname
      · exact hne rfl
    · exact ih hrest

/-- The rows of a user in one game. -/
def rowsIn (rows : List PlayerRow) (gameId : ℕ) (uid : UserId) : List PlayerRow :=
  rows.filter fun r => r.gameId = gameId && r.userId = some uid

/-- Every row of a user is that of a seat that the call names. -/
theorem named_of_row (h : WellFormed db) {row : GameRow} (hput : Puts db row db')
    {players : List GamePlayerData} (hfaithful : Faithful db row.roomId players) {uid : UserId}
    {r : PlayerRow} (hr : r ∈ players.foldl (finishPlayer row.id) db.players)
    (hgame : r.gameId = row.id) (huser : r.userId = some uid) :
    ∃ pd ∈ players, pd.playerName = r.playerName ∧ pd.userId = some uid := by
  obtain ⟨x, hx, hseat, hxuser⟩ | ⟨pd, hpd, hseat, hpduser⟩ :=
    (finishPlayers_wroteAll h.seated row.id players).users r hr uid huser
  · have hxgame : x.gameId = row.id := (congrArg Prod.fst hseat).trans hgame
    obtain ⟨g, hg, hid, hroom, hactive⟩ | hnew := hput.target
    · obtain ⟨pd, hpd, hname, hpduser⟩ :=
        hfaithful.known g hg hroom hactive x hx (hxgame.trans hid.symm) uid hxuser
      exact ⟨pd, hpd, hname.trans (congrArg Prod.snd hseat), hpduser⟩
    · obtain ⟨g, hg, hid⟩ := h.seats x hx
      exact absurd (hid.trans hxgame) (hnew g hg).1
  · exact ⟨pd, hpd, (congrArg Prod.snd hseat).symm, hpduser⟩

/-- The row of a seat that the call names with an account says what the call says. -/
theorem row_of_named (h : WellFormed db) {gameId : ℕ} {players : List GamePlayerData}
    {pd : GamePlayerData} (halone : Alone players pd) {uid : UserId} (huser : pd.userId = some uid)
    {r : PlayerRow} (hr : r ∈ players.foldl (finishPlayer gameId) db.players)
    (hseat : seatOf r = (gameId, pd.playerName)) :
    r.userId = some uid ∧ r.finalScore = pd.score := by
  have hwrote := finishPlayers_wroteAll h.seated gameId players
  obtain ⟨x, hx, hxseat, hscore, hxuser⟩ := hwrote.seat pd halone
  rw [hwrote.seated.eq hr hx (hseat.trans hxseat.symm), hxuser, huser, Option.some_or]
  exact ⟨rfl, hscore⟩

/-- **The rows of the game say what the call has said**, for every account. -/
theorem rowsIn_perm (h : WellFormed db) {row : GameRow} (hput : Puts db row db')
    {players : List GamePlayerData} (hfaithful : Faithful db row.roomId players) (uid : UserId) :
    ((rowsIn (players.foldl (finishPlayer row.id) db.players) row.id uid).map resultOf).Perm
      (resultsFor uid players) := by
  have hwrote := finishPlayers_wroteAll h.seated row.id players
  refine (List.perm_ext_iff_of_nodup ?_ ?_).mpr fun v => ?_
  · refine List.Nodup.of_map (fun v : Result => (row.id, v.1)) ?_
    have hseats : ((rowsIn (players.foldl (finishPlayer row.id) db.players) row.id uid).map
        resultOf).map (fun v : Result => (row.id, v.1)) =
        (rowsIn (players.foldl (finishPlayer row.id) db.players) row.id uid).map seatOf := by
      rw [List.map_map]
      refine List.map_congr_left fun r hr => ?_
      have hgame : r.gameId = row.id := by
        have := (List.mem_filter.mp hr).2
        simp only [Bool.and_eq_true, decide_eq_true_eq] at this
        exact this.1
      exact Prod.ext hgame.symm rfl
    rw [hseats]
    exact hwrote.seated.names.sublist (List.filter_sublist.map seatOf)
  · refine List.Nodup.of_map Prod.fst ?_
    have hnames := nodup_names (p := fun pd => pd.userId = some uid)
      fun pd hpd huser => hfaithful.alone pd hpd uid (by simpa using huser)
    rwa [resultsFor, List.map_map]
  · simp only [rowsIn, resultsFor, List.mem_map, List.mem_filter, Bool.and_eq_true,
      decide_eq_true_eq]
    constructor
    · rintro ⟨r, ⟨hr, hgame, huser⟩, rfl⟩
      obtain ⟨pd, hpd, hname, hpduser⟩ := named_of_row h hput hfaithful hr hgame huser
      have halone := hfaithful.alone pd hpd uid hpduser
      have hseat : seatOf r = (row.id, pd.playerName) := Prod.ext hgame hname.symm
      obtain ⟨-, hscore⟩ := row_of_named h halone hpduser hr hseat
      refine ⟨pd, ⟨hpd, hpduser⟩, ?_⟩
      rw [resultIn, resultOf, hname, hscore, finishPlayers_isWinner h.seated halone hr hseat]
    · rintro ⟨pd, ⟨hpd, hpduser⟩, rfl⟩
      have halone := hfaithful.alone pd hpd uid hpduser
      obtain ⟨r, hr, hseat, hscore, huser⟩ := hwrote.seat pd halone
      refine ⟨r, ⟨hr, congrArg Prod.fst hseat, ?_⟩, ?_⟩
      · rw [huser, hpduser, Option.some_or]
      · have hname : r.playerName = pd.playerName := congrArg Prod.snd hseat
        rw [resultIn, resultOf, hname, hscore, finishPlayers_isWinner h.seated halone hr hseat]

/-! ## The computation anew -/

theorem isFinished_iff {gameId : ℕ} :
    db.isFinished gameId = true ↔ ∃ g ∈ db.games, g.id = gameId ∧ g.status = .finished := by
  simp [isFinished]

theorem isFinished_of_ne {row : GameRow} (hput : Puts db row db') {gameId : ℕ}
    (hne : gameId ≠ row.id) : db'.isFinished gameId = db.isFinished gameId := by
  rw [Bool.eq_iff_iff, isFinished_iff, isFinished_iff]
  constructor
  · rintro ⟨g, hg, hid, hstatus⟩
    rcases (hput.games g).mp hg with rfl | ⟨hg, -⟩
    · exact absurd hid.symm hne
    · exact ⟨g, hg, hid, hstatus⟩
  · rintro ⟨g, hg, hid, hstatus⟩
    exact ⟨g, (hput.games g).mpr (.inr ⟨hg, hid ▸ hne⟩), hid, hstatus⟩

/-- The row that a call writes was not that of a finished game. -/
theorem isFinished_before (h : WellFormed db) {row : GameRow} (hput : Puts db row db') :
    db.isFinished row.id = false := by
  rw [Bool.eq_false_iff, Ne, isFinished_iff]
  rintro ⟨g, hg, hid, hstatus⟩
  obtain ⟨x, hx, hxid, -, hactive⟩ | hnew := hput.target
  · obtain rfl := h.game_eq hg hx (hid.trans hxid.symm)
    exact absurd (hstatus.symm.trans hactive) (by simp)
  · exact (hnew g hg).1 hid

theorem isFinished_after {row : GameRow} (hput : Puts db row db') :
    db'.isFinished row.id = decide (row.status = .finished) := by
  rw [Bool.eq_iff_iff, isFinished_iff, decide_eq_true_eq]
  constructor
  · rintro ⟨g, hg, hid, hstatus⟩
    rcases (hput.games g).mp hg with rfl | ⟨-, hne⟩
    · exact hstatus
    · exact absurd hid hne
  · exact fun hstatus => ⟨row, hput.mem, rfl, hstatus⟩

/-- The counted seats of a user outside one game. -/
def otherRows (db : Store) (gameId : ℕ) (uid : UserId) : List PlayerRow :=
  (db.players.filter fun r => r.gameId ≠ gameId).filter fun r =>
    r.userId = some uid && db.isFinished r.gameId

/-- The counted seats outside one game and in it. -/
theorem countedRows_perm (db : Store) (gameId : ℕ) (uid : UserId) :
    (otherRows db gameId uid ++
      if db.isFinished gameId then rowsIn db.players gameId uid else []).Perm
        (db.countedRows uid) := by
  have hsplit := List.filter_append_perm (fun r : PlayerRow => r.gameId ≠ gameId)
    (db.countedRows uid)
  have hin : ((db.countedRows uid).filter fun r => !decide (r.gameId ≠ gameId)) =
      if db.isFinished gameId then rowsIn db.players gameId uid else [] := by
    rw [countedRows, List.filter_filter]
    split
    · rename_i hfin
      refine List.filter_congr fun r _ => ?_
      by_cases hgame : r.gameId = gameId <;> simp [hgame, hfin]
    · rename_i hfin
      rw [List.filter_eq_nil_iff]
      intro r _
      by_cases hgame : r.gameId = gameId <;> simp [hgame, hfin]
  have hout : (db.countedRows uid).filter (fun r => decide (r.gameId ≠ gameId)) =
      otherRows db gameId uid := by
    rw [countedRows, otherRows, List.filter_comm]
  rw [← hin, ← hout]
  exact hsplit

theorem otherRows_eq {row : GameRow} (hput : Puts db row db')
    (helsewhere : (db'.players.filter fun r => r.gameId ≠ row.id) =
      db.players.filter fun r => r.gameId ≠ row.id) (uid : UserId) :
    otherRows db' row.id uid = otherRows db row.id uid := by
  rw [otherRows, otherRows, helsewhere]
  refine List.filter_congr fun r hr => ?_
  rw [isFinished_of_ne hput (by simpa using (List.mem_filter.mp hr).2)]

/-- What a call makes of the computed counters. -/
theorem computeCounters_puts (h : WellFormed db) {row : GameRow} (hput : Puts db row db')
    (helsewhere : (db'.players.filter fun r => r.gameId ≠ row.id) =
      db.players.filter fun r => r.gameId ≠ row.id) (uid : UserId) :
    db'.computeCounters uid = db.computeCounters uid +
      if row.status = .finished then tally ((rowsIn db'.players row.id uid).map resultOf) else 0 := by
  rw [computeCounters_eq, computeCounters_eq,
    ← tally_perm ((countedRows_perm db' row.id uid).map resultOf),
    ← tally_perm ((countedRows_perm db row.id uid).map resultOf), List.map_append,
    List.map_append, tally_append, tally_append, otherRows_eq hput helsewhere uid,
    isFinished_after hput, isFinished_before h hput]
  by_cases hstatus : row.status = .finished
  · simp [hstatus, tally]
  · simp [hstatus, tally]

/-- The counters are computed from these parts of the rows. -/
def part (r : PlayerRow) : ℕ × Option UserId × Result := (r.gameId, r.userId, resultOf r)

theorem computeCounters_congr (hplayers : db'.players.map part = db.players.map part)
    (hgames : db'.games = db.games) (uid : UserId) :
    db'.computeCounters uid = db.computeCounters uid := by
  have hparts : ∀ db : Store, (db.countedRows uid).map resultOf =
      ((db.players.map part).filter fun e => e.2.1 = some uid && db.isFinished e.1).map
        fun e => e.2.2 := by
    intro db
    rw [List.filter_map, List.map_map]
    rfl
  rw [computeCounters_eq, computeCounters_eq, hparts, hparts, hplayers]
  simp only [isFinished, hgames]

/-! ## Every history -/

/-- Every user has the counters that are computed anew. -/
def Balanced (db : Store) : Prop := ∀ u ∈ db.users, u.counters = db.computeCounters u.id

/-- Computing the counters anew changes no user. -/
def Settled (db : Store) : Prop := ∀ uid, (db.recomputeUserCounters uid).users = db.users

theorem settled_of_balanced (h : Balanced db) : Settled db := by
  intro uid
  simp only [recomputeUserCounters]
  conv_rhs => rw [← List.map_id' db.users]
  refine List.map_congr_left fun u hu => ?_
  split
  · rename_i hid
    have hcounters := h u hu
    rw [hid, UserRow.counters] at hcounters
    rw [← hcounters]
  · rfl

theorem balanced_saveGame (h : WellFormed db) (hbal : Balanced db) {now : ℕ} {roomId : RoomId}
    {stateJson : Json} {players : List GamePlayerData} {ownerName : String} {hasBots : Bool}
    {id : ℕ} (hcall : db.saveGame now roomId stateJson players ownerName hasBots = some (db', id)) :
    Balanced db' := by
  obtain ⟨-, hput, husers, hplayers⟩ := saveGame_spec h hcall
  have hwrote := upsertGamePlayers_wroteAll h.seated id players
  intro u hu
  rw [computeCounters_puts h hput (by rw [hplayers]; exact hwrote.elsewhere) u.id, if_neg (by simp),
    add_zero]
  exact hbal u (husers ▸ hu)

/-- The counters and the parts of the rows that count, before the ratings. -/
theorem rerate_counters (gameId : ℕ) (e : Entry) (after : ℤ) :
    (db.rerate gameId e after).users.map (fun u => (u.id, u.counters)) =
        db.users.map (fun u => (u.id, u.counters)) ∧
      (db.rerate gameId e after).players.map part = db.players.map part := by
  simp only [rerate, List.map_map]
  constructor
  · refine List.map_congr_left fun u _ => ?_
    simp only [Function.comp_apply]
    split <;> rfl
  · refine List.map_congr_left fun r _ => ?_
    simp only [Function.comp_apply]
    split <;> rfl

theorem balanced_finishGame (h : WellFormed db) (hbal : Balanced db) {rule : RatingRule} {now : ℕ}
    {roomId : RoomId} {stateJson : Json} {players : List GamePlayerData} {hasBots : Bool} {id : ℕ}
    (hfaithful : Faithful db roomId players)
    (hcall : db.finishGame rule now roomId stateJson players hasBots = some (db', id)) :
    Balanced db' := by
  obtain ⟨-, ⟨ownerName, hput⟩, games, hdb⟩ := finishGame_spec h hcall
  -- the ratings touch neither the counters nor the rows that count
  have hkeep : ∀ {β : Type} {f : Store → β},
      (∀ db gameId e after, f (rerate db gameId e after) = f db) →
        f db' = f ({ db with games }.recordResults id players) := by
    intro β f hf
    rw [hdb]
    split
    · rfl
    · exact applyRatings_eq hf rule id players
  have hgames := hkeep (f := Store.games) fun _ _ _ _ => rfl
  have hput' : Puts db ⟨id, roomId, stateJson, .finished, ownerName, hasBots, now⟩
      ({ db with games }.recordResults id players) := hput.congr hgames.symm
    (hkeep (f := Store.moves) fun _ _ _ _ => rfl).symm
    (hkeep (f := Store.adjustments) fun _ _ _ _ => rfl).symm
  have hcomputed : ∀ uid, db'.computeCounters uid =
      db.computeCounters uid + tally (resultsFor uid players) := by
    intro uid
    rw [computeCounters_congr
        (hkeep (f := fun db => db.players.map part) fun _ _ _ _ => (rerate_counters _ _ _).2) hgames,
      computeCounters_puts h hput' (finishPlayers_wroteAll h.seated id players).elsewhere uid,
      if_pos rfl, ← tally_perm (rowsIn_perm h hput hfaithful uid)]
    rfl
  intro u hu
  have husers := hkeep (f := fun db => db.users.map fun u => (u.id, u.counters))
    fun _ _ _ _ => (rerate_counters _ _ _).1
  have hmem : (u.id, u.counters) ∈ (players.foldl countResult db.users).map
      fun u => (u.id, u.counters) := husers ▸ List.mem_map_of_mem hu
  rw [countResults_eq, List.map_map] at hmem
  obtain ⟨x, hx, hpair⟩ := List.mem_map.mp hmem
  obtain ⟨hid, hcounters⟩ := foldl_countUser players (h.userPos x hx)
  simp only [Function.comp_apply, hid, hcounters, Prod.mk.injEq] at hpair
  rw [← hpair.1, ← hpair.2, hcomputed, hbal x hx]

/-- Which histories the counters follow: what is recorded says whose the seats are. -/
def Sayable (db : Store) : Event → Prop
  | .finishGame _ roomId _ players _ => Faithful db roomId players
  | .cleanupFinishedSaves _ => ∀ g ∈ db.games, g.status = .active → g.isOver = true →
      Faithful db g.roomId []
  | _ => True

theorem balanced_step {rule : RatingRule} (h : WellFormed db) (hbal : Balanced db) {e : Event}
    (he : Sayable db e) : Balanced (step rule db e) := by
  cases e with
  | createUser displayName =>
    intro u hu
    rcases List.mem_append.mp hu with hu | hu
    · exact hbal u hu
    · -- nobody has the account before it is there
      have hfresh : db.countedRows u.id = [] := by
        rw [countedRows, List.filter_eq_nil_iff]
        intro r hr hcounts
        simp only [Bool.and_eq_true, decide_eq_true_eq] at hcounts
        rw [List.mem_singleton.mp hu] at hcounts
        exact nextId_notMem _ (h.accounts r hr _ hcounts.1)
      rw [computeCounters_eq]
      change u.counters = tally ((db.countedRows u.id).map resultOf)
      rw [hfresh, List.mem_singleton.mp hu]
      rfl
  | saveGame now roomId stateJson players ownerName hasBots =>
    simp only [step]
    cases hcall : db.saveGame now roomId stateJson players ownerName hasBots with
    | none => exact hbal
    | some e => exact balanced_saveGame h hbal hcall
  | finishGame now roomId stateJson players hasBots =>
    simp only [step]
    cases hcall : db.finishGame rule now roomId stateJson players hasBots with
    | none => exact hbal
    | some e => exact balanced_finishGame h hbal he hcall
  | setRating now uid rating manageable =>
    simp only [step]
    cases hcall : db.setRating now uid rating manageable with
    | none => exact hbal
    | some db' =>
      obtain ⟨user, -, -, rfl⟩ := setRating_spec hcall
      intro u hu
      obtain ⟨x, hx, rfl⟩ := List.mem_map.mp hu
      have hx' := hbal x hx
      split <;> exact hx'
  | cleanupFinishedSaves now =>
    refine (cleanup_induct h (P := Balanced) hbal ?_).2
    intro cur _ g _ hcur hbal hplayers hactive hg hstatus hover hcall
    refine balanced_finishGame hcur hbal ⟨by simp, fun x hx hroom hxstatus r hr => ?_⟩ hcall
    exact (he g hg hstatus hover).known x (hactive x hx hxstatus) hroom hxstatus r (hplayers ▸ hr)

theorem balanced_empty : Balanced Store.empty := by simp [Balanced, Store.empty]

/-- **The counters are what they would be computed to** in every history in which each result
that is recorded names the accounts stored with its seats. -/
theorem settled_of_run (rule : RatingRule) {l : List Event}
    (hl : Runs.Along (step rule) Sayable Store.empty l) :
    Settled (Runs.run (step rule) Store.empty l) :=
  settled_of_balanced (Runs.run_invariant (step rule) (P := fun db => WellFormed db ∧ Balanced db)
    (fun _ e hdb he => ⟨hdb.1.step e, balanced_step hdb.1 hdb.2 he⟩)
    ⟨wellFormed_empty, balanced_empty⟩ hl).2

/-- The result of Anna's seat. -/
def annasResult (userId : Option UserId) (score : ℤ) : GamePlayerData :=
  ⟨"Anna", userId, score, true, false⟩

/-- Anna plays as a guest at first and signs in before the game ends. -/
theorem settled_of_late_login :
    Settled (Runs.run (step flatRule) Store.empty
      [.createUser "Anna", .saveGame 1 0 .null [annasResult none 10] "Anna" false,
        .finishGame 2 0 .null [annasResult (some 1) 20] false]) :=
  settled_of_run flatRule
    ⟨trivial, trivial, show Faithful _ 0 [annasResult (some 1) 20] by decide +kernel, trivial⟩

/-- Anna is signed in when the game is saved and gone when it ends: the result counts in the rows
of the game and not for her. -/
theorem lost_result : ¬∀ (rule : RatingRule) (l : List Event),
    Settled (Runs.run (step rule) Store.empty l) := by
  intro h
  have hsettled := h flatRule
    [.createUser "Anna", .saveGame 1 0 .null [annasResult (some 1) 10] "Anna" false,
      .finishGame 2 0 .null [annasResult none 20] false] 1
  have hcounters := congrArg (List.map UserRow.counters) hsettled
  revert hcounters
  decide +kernel

end Counters

end Records

end ScrabbleMagyar
