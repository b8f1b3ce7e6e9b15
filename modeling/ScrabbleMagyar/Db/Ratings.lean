import ScrabbleMagyar.Db.Results
import Mathlib.Data.List.Sort
import Mathlib.Data.Prod.Lex

/-!
# The ratings computed anew

Every recorded result moves the ratings of its players at once (`Store.applyRatings`). They can
also be computed from nothing: the finished games and the ratings that an administrator has set
are replayed in the order of their times (`admin/games.rs`).

Here are that computation and what single steps of it do; `Db/Replay.lean` compares it with the
ratings that are stored.
-/

namespace ScrabbleMagyar

namespace Records

open Server (UserId RoomId GamePlayerData)

/-- Who has resigned, by name, in a saved state; of players with the same name the last counts. -/
def stateFlags (stateJson : Json) : Table String Bool :=
  (((stateJson.get? "players").bind Json.asArray).getD []).foldl (fun flags p =>
    match (p.get? "name").bind Json.asStr with
    | some name => flags.insert name (((p.get? "resigned").map truthy).getD false)
    | none => flags) ∅

def hasResigned (stateJson : Json) (name : String) : Bool :=
  ((stateFlags stateJson).lookup name).getD false

inductive TimelineEvent
  | game (g : GameRow)
  | adjustment (a : AdjustmentRow)

/-- The place in the order of the replay: the time, then the games, then the identifier. -/
def TimelineEvent.key : TimelineEvent → ℕ ×ₗ ℕ ×ₗ ℕ
  | game g => toLex (g.updatedAt, toLex (0, g.id))
  | adjustment a => toLex (a.createdAt, toLex (1, a.id))

/-- The rating and the number of rated games of each user. -/
abbrev RatingState := Table UserId (ℤ × ℤ)

/-- The rating of a user before and after a game. -/
abbrev PerGame := Table (ℕ × UserId) (ℤ × ℤ)

/-- Enter the outcome of a game for one of its players. -/
def enter (gameId : ℕ) (s : RatingState × PerGame) (e : Entry) (after : ℤ) : RatingState × PerGame :=
  (s.1.insert e.uid (after, e.ratedGames + 1), s.2.insert (gameId, e.uid) (e.rating, after))

/-- Replay one event; `seats` are the rated seats of a game. -/
def replay (rule : RatingRule) (seats : GameRow → List (UserId × ℤ)) (s : RatingState × PerGame) :
    TimelineEvent → RatingState × PerGame
  | .adjustment a =>
    match s.1.lookup a.userId with
    | some (rating, games) =>
      (s.1.insert a.userId (rating + (a.ratingAfter - a.ratingBefore), games), s.2)
    | none => s
  | .game g =>
    let entries := ranked s.1.lookup (seats g)
    if entries.length < 2 then s
    else
      let changes := rule.changes entries
      entries.foldl (fun s e => enter g.id s e (e.rating + changes e.uid)) s

namespace Store

variable (db : Store)

/-- The games and the set ratings, in no order. -/
def events : List TimelineEvent :=
  (db.games.filter fun g => g.status = .finished && !g.hasBots).map .game ++
    db.adjustments.map .adjustment

/-- The finished games without robots and the set ratings in the order of the replay. -/
def timeline : List TimelineEvent := db.events.insertionSort fun e e' => e.key ≤ e'.key

/-- The rated seats of a game as they are stored. -/
def storedSeats (g : GameRow) : List (UserId × ℤ) :=
  (db.rowsOf g.id).filterMap fun r => r.userId.map fun uid =>
    (uid, if hasResigned g.stateJson r.playerName then resignedScore else r.finalScore)

/-- Every user as a beginner. -/
def beginners : RatingState :=
  db.users.foldl (fun state u => state.insert u.id (initialRating, 0)) ∅

def computeRatings (rule : RatingRule) : RatingState × PerGame :=
  db.timeline.foldl (replay rule db.storedSeats) (db.beginners, ∅)

/-- The rating change that belongs to a seat. -/
def changeOf (perGame : PerGame) (r : PlayerRow) : Option (ℤ × ℤ) :=
  r.userId.bind fun uid => perGame.lookup (r.gameId, uid)

/-- Compute the ratings anew and, unless it is a dry run, store them: the users of which something
changes are counted. -/
def recomputeRatings (rule : RatingRule) (apply : Bool) : Store × ℕ :=
  let (state, perGame) := db.computeRatings rule
  let isChanged : UserRow → Bool := fun u => state.lookup u.id ≠ some (u.rating, u.ratedGames)
  (if apply then
    { db with
      users := db.users.map fun u => match state.lookup u.id with
        | some (rating, ratedGames) => { u with rating, ratedGames }
        | none => u
      players := db.players.map fun r =>
        { r with
          ratingBefore := (changeOf perGame r).map Prod.fst
          ratingAfter := (changeOf perGame r).map Prod.snd } }
  else db, (db.users.filter isChanged).length)

end Store

/-! ## The rated players of a game -/

namespace Ratings

open Store

variable {standing : UserId → Option (ℤ × ℤ)}

/-- The entry of a user: the first seat counts. -/
def entryOf (standing : UserId → Option (ℤ × ℤ)) (seats : List (UserId × ℤ)) (uid : UserId) :
    Option Entry :=
  (seats.find? fun seat => seat.1 = uid).bind fun seat =>
    (standing uid).map fun s => ⟨uid, s.1, s.2, seat.2⟩

theorem ranked_append (standing : UserId → Option (ℤ × ℤ)) (seats : List (UserId × ℤ))
    (seat : UserId × ℤ) :
    ranked standing (seats ++ [seat]) =
      if (ranked standing seats).any fun e => e.uid = seat.1 then ranked standing seats
      else match standing seat.1 with
        | some (rating, ratedGames) =>
          ranked standing seats ++ [⟨seat.1, rating, ratedGames, seat.2⟩]
        | none => ranked standing seats := by
  rw [ranked, List.foldl_append]
  rfl

theorem entryOf_append_of_ne {seats : List (UserId × ℤ)} {seat : UserId × ℤ} {uid : UserId}
    (h : seat.1 ≠ uid) : entryOf standing (seats ++ [seat]) uid = entryOf standing seats uid := by
  simp [entryOf, List.find?_append, h]

theorem entryOf_append_self (seats : List (UserId × ℤ)) (seat : UserId × ℤ) :
    entryOf standing (seats ++ [seat]) seat.1 = (entryOf standing seats seat.1).or
      ((standing seat.1).map fun s => ⟨seat.1, s.1, s.2, seat.2⟩) := by
  unfold entryOf
  rw [List.find?_append]
  cases seats.find? fun x => decide (x.1 = seat.1) with
  | some x => cases standing seat.1 <;> simp
  | none => simp

/-- The entry that a list holds for a user. -/
def find (entries : List Entry) (uid : UserId) : Option Entry := entries.find? fun e => e.uid = uid

theorem find_cons (e : Entry) (entries : List Entry) (uid : UserId) :
    find (e :: entries) uid = if e.uid = uid then some e else find entries uid := by
  by_cases huid : e.uid = uid <;> simp [find, huid]

theorem find_eq_none {entries : List Entry} {uid : UserId} (h : uid ∉ entries.map Entry.uid) :
    find entries uid = none := by
  rw [find, List.find?_eq_none]
  intro e he heq
  exact h (by simpa using ⟨e, he, by simpa using heq⟩)

theorem find_uid {entries : List Entry} {uid : UserId} {e : Entry} (h : find entries uid = some e) :
    e.uid = uid := by
  simpa using List.find?_some h

/-- **The rated players**: whoever has an account, with the first seat, and once. -/
theorem ranked_spec (standing : UserId → Option (ℤ × ℤ)) (seats : List (UserId × ℤ)) :
    ((ranked standing seats).map Entry.uid).Nodup ∧
      ∀ uid, find (ranked standing seats) uid = entryOf standing seats uid := by
  induction seats using List.reverseRecOn with
  | nil => exact ⟨by simp [ranked], fun _ => rfl⟩
  | append_singleton seats seat ih =>
    obtain ⟨hnodup, hfind⟩ := ih
    rw [ranked_append]
    by_cases hany : (ranked standing seats).any (fun e => decide (e.uid = seat.1)) = true
    · rw [if_pos hany]
      refine ⟨hnodup, fun uid => ?_⟩
      by_cases hseat : seat.1 = uid
      · subst hseat
        obtain ⟨e, he⟩ : ∃ e, find (ranked standing seats) seat.1 = some e := by
          apply Option.isSome_iff_exists.mp
          rw [find, List.find?_isSome]
          simpa using hany
        rw [entryOf_append_self, ← hfind, he, Option.some_or]
      · rw [entryOf_append_of_ne hseat, hfind]
    · rw [if_neg hany]
      have hnone : find (ranked standing seats) seat.1 = none := by
        rw [find, List.find?_eq_none]
        simpa using hany
      cases hstanding : standing seat.1 with
      | none =>
        refine ⟨hnodup, fun uid => ?_⟩
        by_cases hseat : seat.1 = uid
        · subst hseat
          rw [entryOf_append_self, ← hfind, hnone, hstanding]
          rfl
        · rw [entryOf_append_of_ne hseat, hfind]
      | some s =>
        obtain ⟨rating, ratedGames⟩ := s
        refine ⟨?_, fun uid => ?_⟩
        · rw [List.map_append, List.nodup_append]
          refine ⟨hnodup, by simp, fun i hi j hj => ?_⟩
          obtain ⟨e, he, rfl⟩ := List.mem_map.mp hi
          simp only [List.map_cons, List.map_nil, List.mem_singleton] at hj
          rw [hj]
          simpa using List.find?_eq_none.mp hnone e he
        · rw [find, List.find?_append]
          by_cases hseat : seat.1 = uid
          · subst hseat
            rw [entryOf_append_self, ← hfind, hstanding]
            change (find _ _).or _ = _
            rw [hnone]
            simp
          · rw [entryOf_append_of_ne hseat, ← hfind]
            simp [find, hseat]

theorem mem_iff_find {entries : List Entry} (h : (entries.map Entry.uid).Nodup) {e : Entry} :
    e ∈ entries ↔ find entries e.uid = some e := by
  constructor
  · intro he
    cases hfind : find entries e.uid with
    | none => exact absurd (List.find?_eq_none.mp hfind e he) (by simp)
    | some x =>
      rw [List.inj_on_of_nodup_map h (List.mem_of_find?_eq_some hfind) he (find_uid hfind)]
  · exact fun hfind => List.mem_of_find?_eq_some hfind

/-- Lists with the same entry for every user are the same but for their order. -/
theorem perm_of_find {entries entries' : List Entry} (h : (entries.map Entry.uid).Nodup)
    (h' : (entries'.map Entry.uid).Nodup) (hfind : ∀ uid, find entries uid = find entries' uid) :
    entries.Perm entries' :=
  (List.perm_ext_iff_of_nodup (List.Nodup.of_map _ h) (List.Nodup.of_map _ h')).mpr fun e => by
    rw [mem_iff_find h, mem_iff_find h', hfind]

/-! ## The outcome of a game -/

/-- Replaying a game changes the state of its rated players and nothing else. -/
theorem foldl_enter (gameId : ℕ) (after : Entry → ℤ) {entries : List Entry}
    (h : (entries.map Entry.uid).Nodup) (s : RatingState × PerGame) :
    (∀ uid, (entries.foldl (fun s e => enter gameId s e (after e)) s).1.lookup uid =
      ((find entries uid).map fun e => (after e, e.ratedGames + 1)).or (s.1.lookup uid)) ∧
    ∀ id uid, (entries.foldl (fun s e => enter gameId s e (after e)) s).2.lookup (id, uid) =
      (if id = gameId then (find entries uid).map fun e => (e.rating, after e) else none).or
        (s.2.lookup (id, uid)) := by
  induction entries generalizing s with
  | nil => exact ⟨fun _ => rfl, fun id _ => by simp [find]⟩
  | cons e entries ih =>
    rw [List.map_cons, List.nodup_cons] at h
    obtain ⟨hstate, hgame⟩ := ih h.2 (enter gameId s e (after e))
    have hrest : find entries e.uid = none := find_eq_none h.1
    rw [List.foldl_cons]
    refine ⟨fun uid => (hstate uid).trans ?_, fun id uid => (hgame id uid).trans ?_⟩ <;>
      rw [find_cons]
    · by_cases huid : e.uid = uid
      · subst huid
        simp [hrest, enter]
      · rw [if_neg huid, enter, AList.lookup_insert_ne (Ne.symm huid)]
    · by_cases huid : e.uid = uid
      · subst huid
        by_cases hid : id = gameId
        · subst hid
          simp [hrest, enter]
        · simp [hid, enter]
      · have hne : (id, uid) ≠ (gameId, e.uid) := fun heq => huid (congrArg Prod.snd heq).symm
        rw [if_neg huid, enter, AList.lookup_insert_ne hne]

/-- The user after a rated game. -/
def moved (entries : List Entry) (after : Entry → ℤ) (u : UserRow) : UserRow :=
  match find entries u.id with
  | some e => { u with rating := after e, ratedGames := u.ratedGames + 1 }
  | none => u

/-- The row of a seat after a rated game. -/
def rated (gameId : ℕ) (entries : List Entry) (after : Entry → ℤ) (r : PlayerRow) : PlayerRow :=
  match if r.gameId = gameId then r.userId.bind (find entries) else none with
  | some e => { r with ratingBefore := some e.rating, ratingAfter := some (after e) }
  | none => r

theorem rated_nil (gameId : ℕ) (after : Entry → ℤ) (rows : List PlayerRow) :
    rows.map (rated gameId [] after) = rows := by
  conv_rhs => rw [← List.map_id' rows]
  refine List.map_congr_left fun r _ => ?_
  have hnone : (if r.gameId = gameId then r.userId.bind (find []) else none) = none := by
    split
    · cases r.userId <;> rfl
    · rfl
  rw [rated, hnone]

/-- Applying the ratings of a game changes its rated players and their rows. -/
theorem foldl_rerate (gameId : ℕ) (after : Entry → ℤ) {entries : List Entry}
    (h : (entries.map Entry.uid).Nodup) (db : Store) :
    entries.foldl (fun db e => db.rerate gameId e (after e)) db = { db with
      users := db.users.map (moved entries after)
      players := db.players.map (rated gameId entries after) } := by
  induction entries generalizing db with
  | nil =>
    have hmoved : db.users.map (moved [] after) = db.users := List.map_id' db.users
    rw [hmoved, rated_nil, List.foldl_nil]
  | cons e entries ih =>
    rw [List.map_cons, List.nodup_cons] at h
    have hrest : find entries e.uid = none := find_eq_none h.1
    rw [List.foldl_cons, ih h.2]
    simp only [rerate, List.map_map]
    congr 1
    · refine List.map_congr_left fun u _ => ?_
      simp only [Function.comp_apply, moved, find_cons]
      by_cases huid : e.uid = u.id
      · have hu : find entries u.id = none := huid ▸ hrest
        simp [huid, hu]
      · simp [huid, Ne.symm huid]
    · refine List.map_congr_left fun r _ => ?_
      simp only [Function.comp_apply, rated]
      by_cases hgame : r.gameId = gameId
      · cases huser : r.userId with
        | none => simp [hgame, huser]
        | some uid =>
          by_cases huid : e.uid = uid
          · subst huid
            simp [hgame, find_cons, hrest]
          · simp [hgame, huser, find_cons, huid, Ne.symm huid]
      · simp [hgame]

end Ratings

end Records

end ScrabbleMagyar
