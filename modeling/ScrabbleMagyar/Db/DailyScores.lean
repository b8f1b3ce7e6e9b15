import ScrabbleMagyar.Foundations.Json
import ScrabbleMagyar.Foundations.Runs
import ScrabbleMagyar.Foundations.Tables
import ScrabbleMagyar.Server.State
import Mathlib.Data.List.Sort
import Mathlib.Data.Prod.Lex

/-!
# The ranking of the daily puzzle

The tables `daily_puzzles` and `daily_scores` with the calls that write and rank them
(`db/misc.rs`), and what the server records for a move that is submitted (`robot/daily.rs`). A
call is one transaction: it answers `none` where it fails, and then nothing has changed. It fails
for a user that does not exist, since foreign keys are enforced.

A time is a number of seconds, as the stored texts have it. A table is kept by its primary key.

* `run_lawful`: what a row and the ranking say of the submissions, after any run.
-/

namespace ScrabbleMagyar.DailyScores

open Server (UserId)

def leaderboardMaxLimit : ℤ := 100

/-- A row of `users`. -/
structure Account where
  displayName : String
  deleted : Bool
  deriving DecidableEq

/-- A row of `daily_puzzles`. -/
structure Puzzle where
  bestScore : ℤ
  best : Json

/-- A row of `daily_scores`. -/
structure Score where
  bestScore : ℤ
  attempts : ℤ
  firstBestAt : ℕ
  revealed : Bool
  deriving DecidableEq

structure Store where
  users : Table UserId Account
  puzzles : Table String Puzzle
  scores : Table (String × UserId) Score

/-- The answer to a submission. -/
structure DailyRecord where
  recorded : Bool
  best : ℤ
  attempts : ℤ
  improved : Bool
  deriving DecidableEq

/-- An entry of the ranking. -/
structure Entry where
  rank : ℕ
  userId : UserId
  displayName : String
  bestScore : ℤ
  attempts : ℤ
  deriving DecidableEq

/-- What the player is told of a submission. -/
structure DailyResult where
  score : ℤ
  bestScore : ℤ
  isBest : Bool
  recorded : Bool
  attempts : Option ℤ
  myBest : Option ℤ
  rank : Option ℕ

/-- A row of the query for the ranking. -/
structure Ranked where
  userId : UserId
  displayName : String
  score : Score
  deriving DecidableEq

namespace Store

variable (db : Store)

/-- Somebody has done better than the best move known for a puzzle. -/
def raiseDailyBest (date : String) (score : ℤ) (best : Json) : Store :=
  match db.puzzles.lookup date with
  | none => db
  | some puzzle =>
    if puzzle.bestScore < score then { db with puzzles := db.puzzles.insert date ⟨score, best⟩ }
    else db

/-- Record a submission. The best score counts; once the user has looked at the solution, further
attempts do not. -/
def recordDailyScore (now : ℕ) (date : String) (uid : UserId) (score : ℤ) :
    Option (Store × DailyRecord) :=
  match db.scores.lookup (date, uid) with
  | none =>
    if (db.users.lookup uid).isSome then
      some ({ db with scores := db.scores.insert (date, uid) ⟨score, 1, now, false⟩ },
        ⟨true, score, 1, true⟩)
    else none
  | some row =>
    if row.revealed then some (db, ⟨false, row.bestScore, row.attempts, false⟩)
    else
      let improved := row.bestScore < score
      let row' :=
        if improved then
          { row with bestScore := score, attempts := row.attempts + 1, firstBestAt := now }
        else { row with attempts := row.attempts + 1 }
      some ({ db with scores := db.scores.insert (date, uid) row' },
        ⟨true, max row.bestScore score, row.attempts + 1, improved⟩)

/-- The user has looked at the solution. -/
def markDailyRevealed (now : ℕ) (date : String) (uid : UserId) : Store :=
  match db.scores.lookup (date, uid) with
  | none =>
    if (db.users.lookup uid).isSome then
      { db with scores := db.scores.insert (date, uid) ⟨0, 0, now, true⟩ }
    else db
  | some row => { db with scores := db.scores.insert (date, uid) { row with revealed := true } }

/-- An administrator makes an account anonymous: its row stays, under another name. -/
def anonymize (uid : UserId) : Store :=
  match db.users.lookup uid with
  | none => db
  | some _ => { db with users := db.users.insert uid ⟨s!"Törölt felhasználó #{uid}", true⟩ }

end Store

/-- The order of the ranking: the best score, the number of attempts, the time and the user. -/
def Ranked.key (r : Ranked) : ℤ ×ₗ ℤ ×ₗ ℕ ×ₗ UserId :=
  toLex (-r.score.bestScore, toLex (r.score.attempts, toLex (r.score.firstBestAt, r.userId)))

def Ranked.toEntry (r : Ranked) (rank : ℕ) : Entry :=
  { rank, userId := r.userId, displayName := r.displayName, bestScore := r.score.bestScore,
    attempts := r.score.attempts }

namespace Store

variable (db : Store)

/-- The row of the query for a row of `daily_scores`, if it is one of the ranking. -/
def listed (date : String) (key : String × UserId) (score : Score) : Option Ranked :=
  if key.1 = date ∧ 0 < score.attempts then
    ((db.users.lookup key.2).filter fun a => !a.deleted).map fun a =>
      ⟨key.2, a.displayName, score⟩
  else none

def rankedRows (date : String) : List Ranked :=
  (db.scores.entries.filterMap fun e => db.listed date e.1 e.2).insertionSort fun r r' =>
    r.key ≤ r'.key

/-- The first entries of the ranking, and that of the given user. -/
def getDailyLeaderboard (date : String) (limit : ℤ) (userId : Option UserId) :
    List Entry × Option Entry :=
  let limit := max 1 (min limit leaderboardMaxLimit)
  (db.rankedRows date).zipIdx.foldl (fun (entries, me) (row, i) =>
    let entry := row.toEntry (i + 1)
    (if (entry.rank : ℤ) ≤ limit then entries ++ [entry] else entries,
      if userId = some row.userId then some entry else me)) ([], none)

/-- Record a submission of a player, with a better move for the puzzle if it is one. -/
def recordResult (now : ℕ) (date : String) (puzzleBest : ℤ) (userId : Option UserId) (score : ℤ)
    (best : Json) : Store × DailyResult :=
  let (db, bestScore) :=
    if puzzleBest < score then (db.raiseDailyBest date score best, score) else (db, puzzleBest)
  let result : DailyResult :=
    { score, bestScore, isBest := bestScore ≤ score, recorded := false, attempts := none,
      myBest := none, rank := none }
  match userId.filter fun u => u ≠ 0 with
  | none => (db, result)
  | some uid =>
    let (db, result) :=
      match db.recordDailyScore now date uid score with
      | none => (db, result)
      | some (db, rec) =>
        (db, { result with
          recorded := rec.recorded, attempts := some rec.attempts, myBest := some rec.best })
    (db, { result with rank := (db.getDailyLeaderboard date 1 (some uid)).2.map Entry.rank })

end Store

/-! ## Runs -/

inductive Call
  | record (now : ℕ) (date : String) (uid : UserId) (score : ℤ)
  | reveal (now : ℕ) (date : String) (uid : UserId)
  | anonymize (uid : UserId)

def Store.step (db : Store) : Call → Store
  | .record now date uid score => ((db.recordDailyScore now date uid score).map Prod.fst).getD db
  | .reveal now date uid => db.markDailyRevealed now date uid
  | .anonymize uid => db.anonymize uid

/-- No results yet. -/
def Store.start (users : Table UserId Account) (puzzles : Table String Puzzle) : Store :=
  { users, puzzles, scores := ∅ }

/-- A user looks at the solution of a puzzle. -/
def Call.reveals (date : String) (uid : UserId) : Call → Bool
  | .reveal _ date' uid' => date' = date ∧ uid' = uid
  | _ => false

/-- The score and the time of a submission of a user. -/
def Call.submission (date : String) (uid : UserId) : Call → Option (ℤ × ℕ)
  | .record now date' uid' score => if date' = date ∧ uid' = uid then some (score, now) else none
  | _ => none

def revealed (date : String) (uid : UserId) (calls : List Call) : Bool :=
  calls.any (Call.reveals date uid)

/-- The submissions of a user before the reveal, with their times. -/
def submissions (date : String) (uid : UserId) (calls : List Call) : List (ℤ × ℕ) :=
  (calls.takeWhile fun c => !c.reveals date uid).filterMap (Call.submission date uid)

theorem revealed_append (date : String) (uid : UserId) (calls : List Call) (c : Call) :
    revealed date uid (calls ++ [c]) = (revealed date uid calls || c.reveals date uid) := by
  simp [revealed]

theorem submissions_append (date : String) (uid : UserId) (calls : List Call) (c : Call) :
    submissions date uid (calls ++ [c]) =
      if revealed date uid calls then submissions date uid calls
      else submissions date uid calls ++ (c.submission date uid).toList := by
  have hc : ([c].takeWhile fun c => !c.reveals date uid).filterMap (Call.submission date uid) =
      (c.submission date uid).toList := by
    cases hr : c.reveals date uid with
    | false => cases hs : c.submission date uid <;> simp [hr, hs]
    | true => cases c <;> simp_all [Call.reveals, Call.submission]
  induction calls with
  | nil => simpa [submissions, revealed] using hc
  | cons c' calls ih =>
    unfold submissions revealed at ih ⊢
    rw [List.cons_append, List.takeWhile_cons, List.takeWhile_cons, List.any_cons]
    cases hr : c'.reveals date uid with
    | true => simp
    | false =>
      simp only [Bool.not_false, if_true, Bool.false_or, List.filterMap_cons, ih]
      by_cases hany : calls.any (Call.reveals date uid) = true
      · simp only [hany, if_true]
      · simp only [hany, Bool.false_eq_true, if_false]
        cases c'.submission date uid <;> simp

/-- What a row says of the submissions before the reveal: how many they are, the best of them, and
when that was reached first. -/
structure Tells (subs : List (ℤ × ℕ)) (revealed : Bool) (row : Score) : Prop where
  attempts : row.attempts = subs.length
  best : ∀ s ∈ subs, s.1 ≤ row.bestScore
  first : subs ≠ [] →
    (subs.find? fun s => row.bestScore ≤ s.1) = some (row.bestScore, row.firstBestAt)
  zero : subs = [] → row.bestScore = 0 ∧ row.revealed = true
  revealed : row.revealed = revealed

/-- A first submission. -/
theorem tells_first (score : ℤ) (now : ℕ) : Tells [(score, now)] false ⟨score, 1, now, false⟩ where
  attempts := by simp
  best := by simp
  first := by simp
  zero := by simp
  revealed := rfl

/-- A further submission. -/
theorem Tells.submit {subs : List (ℤ × ℕ)} {row : Score} (h : Tells subs false row) (score : ℤ)
    (now : ℕ) :
    Tells (subs ++ [(score, now)]) false
      (if row.bestScore < score then
        { row with bestScore := score, attempts := row.attempts + 1, firstBestAt := now }
      else { row with attempts := row.attempts + 1 }) := by
  have hsubs : subs ≠ [] := fun hnil => by
    have hrevealed := (h.zero hnil).2
    rw [h.revealed] at hrevealed
    cases hrevealed
  by_cases hlt : row.bestScore < score
  · rw [if_pos hlt]
    refine ⟨by simp [h.attempts], fun s hs => ?_, fun _ => ?_, by simp, h.revealed⟩
    · obtain hs | hs := List.mem_append.mp hs
      · exact (h.best s hs).trans hlt.le
      · rw [List.mem_singleton.mp hs]
    · have hnone : (subs.find? fun s => decide (score ≤ s.1)) = none := by
        rw [List.find?_eq_none]
        intro s hs
        simpa using (h.best s hs).trans_lt hlt
      simp [List.find?_append, hnone]
  · rw [if_neg hlt]
    refine ⟨by simp [h.attempts], fun s hs => ?_, fun _ => ?_, by simp, h.revealed⟩
    · obtain hs | hs := List.mem_append.mp hs
      · exact h.best s hs
      · rw [List.mem_singleton.mp hs]
        exact not_lt.mp hlt
    · simp [List.find?_append, h.first hsubs]

/-- A look at the solution changes the mark and nothing else. -/
theorem Tells.reveal {subs : List (ℤ × ℕ)} {marked : Bool} {row : Score} (h : Tells subs marked row) :
    Tells subs true { row with revealed := true } where
  attempts := h.attempts
  best := h.best
  first := h.first
  zero hnil := ⟨(h.zero hnil).1, rfl⟩
  revealed := rfl

/-- A user who looks at the solution first. -/
theorem tells_revealed (now : ℕ) : Tells [] true ⟨0, 0, now, true⟩ where
  attempts := rfl
  best := by simp
  first := by simp
  zero _ := ⟨rfl, rfl⟩
  revealed := rfl

/-- What the tables say of the calls that led to them. -/
structure Chronicle (calls : List Call) (db : Store) : Prop where
  rows : ∀ date uid row, db.scores.lookup (date, uid) = some row →
    (db.users.lookup uid).isSome = true ∧
      Tells (submissions date uid calls) (revealed date uid calls) row
  missing : ∀ date uid, db.scores.lookup (date, uid) = none →
    (db.users.lookup uid).isSome = true →
      submissions date uid calls = [] ∧ revealed date uid calls = false

theorem chronicle_start (users : Table UserId Account) (puzzles : Table String Puzzle) :
    Chronicle [] (Store.start users puzzles) where
  rows _ _ _ h := by simp [Store.start] at h
  missing _ _ _ _ := ⟨rfl, rfl⟩

/-- A call that writes one row, and no other, keeps the chronicle if the row tells of it. -/
theorem Chronicle.write {calls : List Call} {db : Store} (h : Chronicle calls db) {date : String}
    {uid : UserId} {c : Call} (hreveals : ∀ date' uid', (date', uid') ≠ (date, uid) →
      c.reveals date' uid' = false ∧ c.submission date' uid' = none) {row : Score}
    (huser : (db.users.lookup uid).isSome = true)
    (hrow : Tells (submissions date uid (calls ++ [c])) (revealed date uid (calls ++ [c])) row) :
    Chronicle (calls ++ [c]) { db with scores := db.scores.insert (date, uid) row } := by
  have hother : ∀ date' uid', (date', uid') ≠ (date, uid) →
      submissions date' uid' (calls ++ [c]) = submissions date' uid' calls ∧
        revealed date' uid' (calls ++ [c]) = revealed date' uid' calls := by
    intro date' uid' hne
    obtain ⟨hr, hs⟩ := hreveals date' uid' hne
    rw [submissions_append, revealed_append, hr, hs, Bool.or_false]
    simp
  constructor
  · intro date' uid' row' hlookup
    rw [Table.lookup_insert] at hlookup
    split at hlookup
    · rename_i hkey
      obtain ⟨rfl, rfl⟩ := Prod.mk.inj hkey
      cases hlookup
      exact ⟨huser, hrow⟩
    · rename_i hne
      rw [(hother date' uid' hne).1, (hother date' uid' hne).2]
      exact h.rows date' uid' row' hlookup
  · intro date' uid' hlookup hsome
    rw [Table.lookup_insert] at hlookup
    split at hlookup
    · cases hlookup
    · rename_i hne
      rw [(hother date' uid' hne).1, (hother date' uid' hne).2]
      exact h.missing date' uid' hlookup hsome

/-- A call that changes no row, and counts for nobody with an account. -/
theorem Chronicle.idle {calls : List Call} {db db' : Store} (h : Chronicle calls db) {c : Call}
    (hscores : db'.scores = db.scores)
    (husers : ∀ uid, (db'.users.lookup uid).isSome = (db.users.lookup uid).isSome)
    (hcounts : ∀ date uid, (db.users.lookup uid).isSome = true →
      submissions date uid (calls ++ [c]) = submissions date uid calls ∧
        revealed date uid (calls ++ [c]) = revealed date uid calls) :
    Chronicle (calls ++ [c]) db' := by
  constructor
  · intro date uid row hlookup
    rw [hscores] at hlookup
    obtain ⟨huser, hrow⟩ := h.rows date uid row hlookup
    rw [husers, (hcounts date uid huser).1, (hcounts date uid huser).2]
    exact ⟨huser, hrow⟩
  · intro date uid hlookup hsome
    rw [hscores] at hlookup
    rw [husers] at hsome
    rw [(hcounts date uid hsome).1, (hcounts date uid hsome).2]
    exact h.missing date uid hlookup hsome

theorem Chronicle.record {calls : List Call} {db : Store} (h : Chronicle calls db) (now : ℕ)
    (date : String) (uid : UserId) (score : ℤ) :
    Chronicle (calls ++ [.record now date uid score]) (db.step (.record now date uid score)) := by
  have hsub : Call.submission date uid (.record now date uid score) = some (score, now) := by
    simp [Call.submission]
  have helse : ∀ date' uid', (date', uid') ≠ (date, uid) →
      Call.reveals date' uid' (.record now date uid score) = false ∧
        Call.submission date' uid' (.record now date uid score) = none := by
    intro date' uid' hne
    refine ⟨rfl, ?_⟩
    rw [Call.submission, if_neg]
    rintro ⟨rfl, rfl⟩
    exact hne rfl
  have hrev : ∀ date' uid', revealed date' uid' (calls ++ [.record now date uid score]) =
      revealed date' uid' calls := by
    intro date' uid'
    rw [revealed_append]
    exact Bool.or_false _
  rw [Store.step, Store.recordDailyScore]
  cases hrow : db.scores.lookup (date, uid) with
  | none =>
    by_cases huser : (db.users.lookup uid).isSome = true
    · simp only [huser, if_true, Option.map_some, Option.getD_some]
      obtain ⟨hnil, hfalse⟩ := h.missing date uid hrow huser
      refine h.write helse huser ?_
      rw [hrev, submissions_append, hfalse, hnil, hsub]
      exact tells_first score now
    · simp only [huser, Bool.false_eq_true, if_false, Option.map_none, Option.getD_none]
      refine h.idle rfl (fun _ => rfl) fun date' uid' huser' => ⟨?_, hrev date' uid'⟩
      have hne : (date', uid') ≠ (date, uid) := by
        rintro hkey
        obtain ⟨rfl, rfl⟩ := Prod.mk.inj hkey
        exact huser huser'
      rw [submissions_append, (helse date' uid' hne).2]
      simp
  | some row =>
    obtain ⟨huser, htells⟩ := h.rows date uid row hrow
    by_cases hmark : row.revealed = true
    · simp only [hmark, if_true, Option.map_some, Option.getD_some]
      -- the submission comes after the reveal
      refine h.idle rfl (fun _ => rfl) fun date' uid' _ => ⟨?_, hrev date' uid'⟩
      rw [submissions_append]
      by_cases hkey : (date', uid') = (date, uid)
      · obtain ⟨rfl, rfl⟩ := Prod.mk.inj hkey
        rw [← htells.revealed, hmark, if_pos rfl]
      · rw [(helse date' uid' hkey).2]
        simp
    · simp only [if_neg hmark, Option.map_some, Option.getD_some]
      have hfalse : revealed date uid calls = false := by
        rw [← htells.revealed]
        simpa using hmark
      refine h.write helse huser ?_
      rw [hrev, submissions_append, hfalse, hsub]
      rw [hfalse] at htells
      exact htells.submit score now

theorem Chronicle.reveal {calls : List Call} {db : Store} (h : Chronicle calls db) (now : ℕ)
    (date : String) (uid : UserId) :
    Chronicle (calls ++ [.reveal now date uid]) (db.step (.reveal now date uid)) := by
  have hsub : ∀ date' uid', submissions date' uid' (calls ++ [.reveal now date uid]) =
      submissions date' uid' calls := by
    intro date' uid'
    rw [submissions_append]
    simp [Call.submission]
  have hself : revealed date uid (calls ++ [.reveal now date uid]) = true := by
    simp [revealed, Call.reveals]
  have helse : ∀ date' uid', (date', uid') ≠ (date, uid) →
      Call.reveals date' uid' (.reveal now date uid) = false ∧
        Call.submission date' uid' (.reveal now date uid) = none := by
    intro date' uid' hne
    refine ⟨?_, rfl⟩
    rw [Call.reveals, decide_eq_false_iff_not]
    rintro ⟨rfl, rfl⟩
    exact hne rfl
  rw [Store.step, Store.markDailyRevealed]
  cases hrow : db.scores.lookup (date, uid) with
  | none =>
    by_cases huser : (db.users.lookup uid).isSome = true
    · simp only [huser, if_true]
      refine h.write helse huser ?_
      rw [hself, hsub, (h.missing date uid hrow huser).1]
      exact tells_revealed now
    · simp only [huser, Bool.false_eq_true, if_false]
      refine h.idle rfl (fun _ => rfl) fun date' uid' huser' => ⟨hsub date' uid', ?_⟩
      have hne : (date', uid') ≠ (date, uid) := by
        rintro hkey
        obtain ⟨rfl, rfl⟩ := Prod.mk.inj hkey
        exact huser huser'
      rw [revealed_append, (helse date' uid' hne).1, Bool.or_false]
  | some row =>
    obtain ⟨huser, htells⟩ := h.rows date uid row hrow
    refine h.write helse huser ?_
    rw [hself, hsub]
    exact htells.reveal

theorem lookup_anonymize (db : Store) (uid uid' : UserId) :
    ((db.anonymize uid).users.lookup uid').isSome = (db.users.lookup uid').isSome := by
  unfold Store.anonymize
  cases hrow : db.users.lookup uid with
  | none => rfl
  | some a =>
    rw [Table.lookup_insert]
    split
    · rename_i heq
      rw [heq, hrow]
      rfl
    · rfl

theorem Chronicle.anonymize {calls : List Call} {db : Store} (h : Chronicle calls db)
    (uid : UserId) : Chronicle (calls ++ [.anonymize uid]) (db.step (.anonymize uid)) := by
  refine h.idle ?_ (lookup_anonymize db uid) fun date' uid' _ => ?_
  · rw [Store.step, Store.anonymize]
    split <;> rfl
  · rw [submissions_append, revealed_append]
    simp [Call.submission, Call.reveals]

/-- **Every run keeps the chronicle.** -/
theorem chronicle_run (users : Table UserId Account) (puzzles : Table String Puzzle)
    (calls : List Call) :
    Chronicle calls (Runs.run Store.step (Store.start users puzzles) calls) := by
  refine Runs.run_history Store.step (chronicle_start users puzzles) (fun calls c h => ?_) calls
  cases c with
  | record now date uid score => exact h.record now date uid score
  | reveal now date uid => exact h.reveal now date uid
  | anonymize uid => exact h.anonymize uid

/-! ## After the reveal -/

/-- A call of a user changes at most the row of that user, and never who exists. -/
theorem lookup_users_step (db : Store) (c : Call) (uid : UserId) :
    ((db.step c).users.lookup uid).isSome = (db.users.lookup uid).isSome := by
  cases c with
  | record now date uid' score =>
    rw [Store.step, Store.recordDailyScore]
    cases db.scores.lookup (date, uid') with
    | none => by_cases huser : (db.users.lookup uid').isSome = true <;> simp [huser]
    | some row => by_cases hmark : row.revealed = true <;> simp [hmark]
  | reveal now date uid' =>
    rw [Store.step, Store.markDailyRevealed]
    cases db.scores.lookup (date, uid') with
    | none => by_cases huser : (db.users.lookup uid').isSome = true <;> simp [huser]
    | some row => rfl
  | anonymize uid' => exact lookup_anonymize db uid' uid

theorem lookup_users_run (calls : List Call) (db : Store) (uid : UserId) :
    ((Runs.run Store.step db calls).users.lookup uid).isSome = (db.users.lookup uid).isSome := by
  induction calls generalizing db with
  | nil => rfl
  | cons c calls ih => rw [Runs.run_cons, ih, lookup_users_step]

/-- A row with the mark stays as it is. -/
theorem lookup_step_of_revealed {db : Store} {key : String × UserId} {row : Score}
    (hrow : db.scores.lookup key = some row) (hmark : row.revealed = true) (c : Call) :
    (db.step c).scores.lookup key = some row := by
  cases c with
  | record now date uid score =>
    rw [Store.step, Store.recordDailyScore]
    by_cases hkey : key = (date, uid)
    · subst hkey
      simp only [hrow, if_pos hmark, Option.map_some, Option.getD_some]
    · cases db.scores.lookup (date, uid) with
      | none =>
        by_cases huser : (db.users.lookup uid).isSome = true <;>
          simp [huser, hkey, hrow]
      | some row' =>
        by_cases hmark' : row'.revealed = true <;> simp [hmark', hkey, hrow]
  | reveal now date uid =>
    rw [Store.step, Store.markDailyRevealed]
    by_cases hkey : key = (date, uid)
    · subst hkey
      simp only [hrow, Table.lookup_insert, if_true, ← hmark]
    · cases db.scores.lookup (date, uid) with
      | none =>
        by_cases huser : (db.users.lookup uid).isSome = true <;>
          simp [huser, hkey, hrow]
      | some row' => simp [hkey, hrow]
  | anonymize uid =>
    rw [Store.step, Store.anonymize]
    split <;> exact hrow

theorem lookup_run_of_revealed {db : Store} {key : String × UserId} {row : Score}
    (hrow : db.scores.lookup key = some row) (hmark : row.revealed = true) (calls : List Call) :
    (Runs.run Store.step db calls).scores.lookup key = some row := by
  induction calls generalizing db with
  | nil => exact hrow
  | cons c calls ih => exact ih (lookup_step_of_revealed hrow hmark c)

/-- **Nothing changes after the reveal.** -/
theorem lookup_run_append_of_revealed (users : Table UserId Account)
    (puzzles : Table String Puzzle) {calls : List Call} {date : String} {uid : UserId}
    (h : revealed date uid calls = true) (calls' : List Call) :
    (Runs.run Store.step (Store.start users puzzles) (calls ++ calls')).scores.lookup (date, uid) =
      (Runs.run Store.step (Store.start users puzzles) calls).scores.lookup (date, uid) := by
  have hchronicle := chronicle_run users puzzles calls
  cases hrow : (Runs.run Store.step (Store.start users puzzles) calls).scores.lookup
    (date, uid) with
  | some row =>
    rw [Runs.run_append]
    refine lookup_run_of_revealed hrow ?_ calls'
    rw [(hchronicle.rows date uid row hrow).2.revealed, h]
  | none =>
    -- the user does not exist, and nobody does who did not before
    rw [← Option.not_isSome_iff_eq_none]
    intro hsome
    obtain ⟨row, hrow'⟩ := Option.isSome_iff_exists.mp hsome
    have huser := ((chronicle_run users puzzles (calls ++ calls')).rows date uid row hrow').1
    rw [lookup_users_run, ← lookup_users_run calls] at huser
    have hfalse := (hchronicle.missing date uid hrow huser).2
    rw [h] at hfalse
    cases hfalse

/-! ## The ranking -/

namespace Store

variable (db : Store)

/-- All entries of the ranking. -/
def ranking (date : String) : List Entry :=
  (db.rankedRows date).zipIdx.map fun r => r.1.toEntry (r.2 + 1)

theorem mem_rankedRows {date : String} {r : Ranked} :
    r ∈ db.rankedRows date ↔ db.scores.lookup (date, r.userId) = some r.score ∧
      0 < r.score.attempts ∧
      db.users.lookup r.userId = some ⟨r.displayName, false⟩ := by
  rw [rankedRows, (List.perm_insertionSort _ _).mem_iff, List.mem_filterMap]
  constructor
  · rintro ⟨⟨⟨date', uid⟩, score⟩, hmem, hlisted⟩
    have hlookup : db.scores.lookup (date', uid) = some score := AList.mem_lookup_iff.mpr hmem
    unfold listed at hlisted
    split at hlisted
    · rename_i hrow
      obtain ⟨a, ha, rfl⟩ := Option.map_eq_some_iff.mp hlisted
      obtain ⟨huser, hdeleted⟩ := Option.filter_eq_some_iff.mp ha
      obtain ⟨rfl, hattempts⟩ := hrow
      refine ⟨hlookup, hattempts, huser.trans (congrArg some ?_)⟩
      obtain ⟨name, deleted⟩ := a
      simpa using hdeleted
    · cases hlisted
  · rintro ⟨hlookup, hattempts, huser⟩
    refine ⟨⟨(date, r.userId), r.score⟩, AList.mem_lookup_iff.mp hlookup, ?_⟩
    rw [listed, if_pos ⟨rfl, hattempts⟩]
    simp [huser]

/-- A user is in the ranking once. -/
theorem rankedRows_users (date : String) :
    (db.rankedRows date).Pairwise fun r r' => r.userId ≠ r'.userId := by
  rw [rankedRows, (List.perm_insertionSort _ _).pairwise_iff Ne.symm, List.pairwise_filterMap]
  have hkeys : db.scores.entries.Pairwise fun e e' => e.1 ≠ e'.1 :=
    List.nodupKeys_iff_pairwise.mp db.scores.nodupKeys
  refine hkeys.imp fun {e e'} hne r hr r' hr' huser => hne ?_
  have hof : ∀ {e : Σ _ : String × UserId, Score} {r : Ranked},
      db.listed date e.1 e.2 = some r → e.1 = (date, r.userId) := by
    intro e r h
    unfold listed at h
    split at h
    · rename_i hrow
      obtain ⟨a, -, rfl⟩ := Option.map_eq_some_iff.mp h
      exact Prod.ext hrow.1 rfl
    · cases h
  rw [hof hr, hof hr', huser]

/-- **The order of the ranking.** -/
theorem rankedRows_sorted (date : String) :
    (db.rankedRows date).Pairwise fun r r' => r.key < r'.key := by
  have hle := List.pairwise_insertionSort (fun r r' : Ranked => r.key ≤ r'.key)
    (db.scores.entries.filterMap fun e => db.listed date e.1 e.2)
  refine (hle.and (db.rankedRows_users date)).imp fun {r r'} h => lt_of_le_of_ne h.1 fun hkey => ?_
  exact h.2 (congrArg (fun k => (ofLex (ofLex (ofLex k).2).2).2) hkey)

/-- What the loop over the rows collects. -/
theorem foldl_leaderboard (limit : ℤ) (userId : Option UserId) {rows : List Ranked}
    (h : rows.Pairwise fun r r' => r.userId ≠ r'.userId) (k : ℕ) (entries : List Entry)
    (me : Option Entry) :
    (rows.zipIdx k).foldl (fun (acc : List Entry × Option Entry) row =>
      (if ((row.1.toEntry (row.2 + 1)).rank : ℤ) ≤ limit then
          acc.1 ++ [row.1.toEntry (row.2 + 1)]
        else acc.1,
        if userId = some row.1.userId then some (row.1.toEntry (row.2 + 1)) else acc.2))
      (entries, me) =
      (entries ++ ((rows.zipIdx k).map fun r => r.1.toEntry (r.2 + 1)).take (limit - k).toNat,
        (((rows.zipIdx k).map fun r => r.1.toEntry (r.2 + 1)).find? fun e =>
          userId = some e.userId).or me) := by
  induction rows generalizing k entries me with
  | nil => simp
  | cons r rows ih =>
    obtain ⟨hr, hrows⟩ := List.pairwise_cons.mp h
    rw [List.zipIdx_cons, List.foldl_cons, ih hrows, List.map_cons]
    have hrank : (r.toEntry (k + 1)).rank = k + 1 := rfl
    refine Prod.ext ?_ ?_
    · by_cases hle : ((k + 1 : ℕ) : ℤ) ≤ limit
      · obtain ⟨n, hn⟩ : ∃ n, (limit - (k : ℕ)).toNat = n + 1 := ⟨(limit - k).toNat - 1, by omega⟩
        have hn' : (limit - ((k + 1 : ℕ) : ℤ)).toNat = n := by omega
        simp only [hrank, if_pos hle, hn, hn', List.take_succ_cons, List.append_assoc,
          List.cons_append, List.nil_append]
      · have hzero : (limit - (k : ℕ)).toNat = 0 := by omega
        have hzero' : (limit - ((k + 1 : ℕ) : ℤ)).toNat = 0 := by omega
        simp only [hrank, if_neg hle, hzero, hzero', List.take_zero, List.append_nil]
    · by_cases hme : userId = some r.userId
      · have hnone : (((rows.zipIdx (k + 1)).map fun r => r.1.toEntry (r.2 + 1)).find? fun e =>
            decide (userId = some e.userId)) = none := by
          rw [List.find?_eq_none]
          intro e he
          obtain ⟨r', hr', rfl⟩ := List.mem_map.mp he
          rw [hme, decide_eq_true_eq, Option.some_inj]
          exact hr r'.1 (List.fst_mem_of_mem_zipIdx hr')
        have hself : decide (userId = some (r.toEntry (k + 1)).userId) = true := decide_eq_true hme
        simp only [if_pos hme, hnone, Option.none_or, List.find?_cons, hself, Option.some_or]
      · have hself : decide (userId = some (r.toEntry (k + 1)).userId) = false :=
          decide_eq_false hme
        simp only [if_neg hme, List.find?_cons, hself]

/-- The list is the start of the ranking, and the entry of the given user is that of the ranking. -/
theorem getDailyLeaderboard_eq (date : String) (limit : ℤ) (userId : Option UserId) :
    db.getDailyLeaderboard date limit userId =
      ((db.ranking date).take (max 1 (min limit leaderboardMaxLimit)).toNat,
        (db.ranking date).find? fun e => userId = some e.userId) := by
  have h := foldl_leaderboard (max 1 (min limit leaderboardMaxLimit)) userId
    (db.rankedRows_users date) 0 [] none
  rw [List.nil_append, Option.or_none, Nat.cast_zero, sub_zero] at h
  exact h

/-- The own entry is that at the own place of the full order. -/
theorem getDailyLeaderboard_own {date : String} {i : ℕ} {r : Ranked}
    (h : (db.rankedRows date)[i]? = some r) (limit : ℤ) :
    (db.getDailyLeaderboard date limit (some r.userId)).2 = some (r.toEntry (i + 1)) := by
  have hat : (db.ranking date)[i]? = some (r.toEntry (i + 1)) := by
    simp [ranking, List.getElem?_zipIdx, h]
  obtain ⟨hi, hget⟩ := List.getElem?_eq_some_iff.mp hat
  rw [getDailyLeaderboard_eq, List.find?_eq_some_iff_getElem]
  refine ⟨by simp [Ranked.toEntry], i, hi, hget, fun j hj => ?_⟩
  have hlt : j < (db.rankedRows date).length := by
    have hlen := (List.getElem?_eq_some_iff.mp h).1
    omega
  have hne := List.pairwise_iff_getElem.mp (db.rankedRows_users date) j i hlt
    (List.getElem?_eq_some_iff.mp h).1 hj
  rw [(List.getElem?_eq_some_iff.mp h).2] at hne
  simpa [ranking, Ranked.toEntry] using Ne.symm hne

end Store

/-- An answer to a submission is what the row then says. -/
def DailyRecord.Matches (rec : DailyRecord) (before : Option Score) (row : Score) : Prop :=
  rec.best = row.bestScore ∧ rec.attempts = row.attempts ∧
    (rec.recorded = true ↔ row.revealed = false) ∧
    (rec.improved = true ↔ ∀ row', before = some row' → row'.bestScore < row.bestScore)

theorem matches_recordDailyScore {db db' : Store} {now : ℕ} {date : String} {uid : UserId}
    {score : ℤ} {rec : DailyRecord} (h : db.recordDailyScore now date uid score = some (db', rec)) :
    ∃ row, db'.scores.lookup (date, uid) = some row ∧
      rec.Matches (db.scores.lookup (date, uid)) row := by
  unfold Store.recordDailyScore at h
  cases hrow : db.scores.lookup (date, uid) with
  | none =>
    simp only [hrow] at h
    split at h
    · cases h
      exact ⟨⟨score, 1, now, false⟩, AList.lookup_insert _, rfl, rfl, by simp, by simp⟩
    · cases h
  | some row =>
    simp only [hrow] at h
    split at h
    · rename_i hmark
      cases h
      exact ⟨row, hrow, rfl, rfl, by simp [hmark], by simp⟩
    · rename_i hmark
      cases h
      refine ⟨_, AList.lookup_insert _, ?_⟩
      by_cases hlt : row.bestScore < score
      · simp [DailyRecord.Matches, hlt, hlt.le, hmark]
      · simp [DailyRecord.Matches, hlt, not_lt.mp hlt, hmark]

/-- The ranking of a puzzle: who is in it, in which order, and what a caller is shown of it. -/
structure Ranks (calls : List Call) (date : String) (db : Store) (order : List Ranked) : Prop where
  users : ∀ uid, uid ∈ order.map Ranked.userId ↔
    submissions date uid calls ≠ [] ∧ ∃ name, db.users.lookup uid = some ⟨name, false⟩
  rows : ∀ r ∈ order, db.scores.lookup (date, r.userId) = some r.score
  sorted : order.Pairwise fun r r' => r.key < r'.key
  list : ∀ limit caller, (db.getDailyLeaderboard date limit caller).1 =
    (order.zipIdx.map fun r => r.1.toEntry (r.2 + 1)).take
      (max 1 (min limit leaderboardMaxLimit)).toNat
  own : ∀ limit i (r : Ranked), order[i]? = some r →
    (db.getDailyLeaderboard date limit (some r.userId)).2 = some (r.toEntry (i + 1))
  absent : ∀ limit caller, (∀ r ∈ order, caller ≠ some r.userId) →
    (db.getDailyLeaderboard date limit caller).2 = none

theorem Chronicle.ranks {calls : List Call} {db : Store} (h : Chronicle calls db) (date : String) :
    Ranks calls date db (db.rankedRows date) where
  users uid := by
    constructor
    · intro hmem
      obtain ⟨r, hr, rfl⟩ := List.mem_map.mp hmem
      obtain ⟨hrow, hattempts, huser⟩ := db.mem_rankedRows.mp hr
      have htells := (h.rows date r.userId r.score hrow).2
      refine ⟨fun hnil => ?_, r.displayName, huser⟩
      rw [htells.attempts, hnil] at hattempts
      exact absurd hattempts (by simp)
    · rintro ⟨hsubs, name, huser⟩
      cases hrow : db.scores.lookup (date, uid) with
      | none => exact absurd (h.missing date uid hrow (by rw [huser]; rfl)).1 hsubs
      | some row =>
        have htells := (h.rows date uid row hrow).2
        have hattempts : 0 < row.attempts := by
          rw [htells.attempts]
          exact_mod_cast List.length_pos_iff.mpr hsubs
        exact List.mem_map.mpr ⟨⟨uid, name, row⟩,
          db.mem_rankedRows.mpr ⟨hrow, hattempts, huser⟩, rfl⟩
  rows r hr := (db.mem_rankedRows.mp hr).1
  sorted := db.rankedRows_sorted date
  list limit caller := by rw [Store.getDailyLeaderboard_eq, Store.ranking]
  own limit _ _ hr := db.getDailyLeaderboard_own hr limit
  absent limit caller hnone := by
    rw [Store.getDailyLeaderboard_eq, List.find?_eq_none]
    intro e he
    obtain ⟨r, hr, rfl⟩ := List.mem_map.mp he
    rw [decide_eq_true_eq]
    exact hnone r.1 (List.fst_mem_of_mem_zipIdx hr)

/-- A submission to the server is one to the tables, and the rank that the player is told is that
in the ranking after it. -/
theorem recordResult_eq (db : Store) (now : ℕ) (date : String) (puzzleBest : ℤ) {uid : UserId}
    (huid : uid ≠ 0) (score : ℤ) (best : Json) :
    ∃ db', (db' = db ∨ db' = db.raiseDailyBest date score best) ∧
      (db.recordResult now date puzzleBest (some uid) score best).1 =
        db'.step (.record now date uid score) ∧
      (db.recordResult now date puzzleBest (some uid) score best).2.rank =
        (((db'.step (.record now date uid score)).ranking date).find? fun e =>
          some uid = some e.userId).map Entry.rank := by
  refine ⟨if puzzleBest < score then db.raiseDailyBest date score best else db, ?_, ?_⟩
  · split
    · exact Or.inr rfl
    · exact Or.inl rfl
  have hfilter : ((some uid).filter fun u => decide (u ≠ 0)) = some uid := by simp [huid]
  unfold Store.recordResult Store.step
  simp only [hfilter, Store.getDailyLeaderboard_eq]
  by_cases hlt : puzzleBest < score
  · cases hrec : (db.raiseDailyBest date score best).recordDailyScore now date uid score <;>
      simp [hlt, hrec]
  · cases hrec : db.recordDailyScore now date uid score <;> simp [hlt, hrec]

/-- What the tables say of a run, for one puzzle. -/
structure Lawful (users : Table UserId Account) (puzzles : Table String Puzzle)
    (calls : List Call) (date : String) (db : Store) : Prop where
  rows : ∀ uid row, db.scores.lookup (date, uid) = some row →
    Tells (submissions date uid calls) (revealed date uid calls) row
  missing : ∀ uid, (users.lookup uid).isSome = true → db.scores.lookup (date, uid) = none →
    submissions date uid calls = [] ∧ revealed date uid calls = false
  reveal : ∀ uid row now, db.scores.lookup (date, uid) = some row →
    (db.markDailyRevealed now date uid).scores.lookup (date, uid) =
      some { row with revealed := true }
  afterwards : ∀ uid, revealed date uid calls = true → ∀ calls',
    (Runs.run Store.step db calls').scores.lookup (date, uid) = db.scores.lookup (date, uid)
  answer : ∀ now uid score db' rec, db.recordDailyScore now date uid score = some (db', rec) →
    ∃ row, db'.scores.lookup (date, uid) = some row ∧
      rec.Matches (db.scores.lookup (date, uid)) row
  ranking : ∃ order, Ranks calls date db order

/-- **The law of the daily ranking**: after any calls of any users, a row has the number of the
submissions before the reveal, the best of them and the time at which that was reached first, and
the ranking is of the users with such a submission whose account has not been deleted. -/
theorem run_lawful (users : Table UserId Account) (puzzles : Table String Puzzle)
    (calls : List Call) (date : String) :
    Lawful users puzzles calls date (Runs.run Store.step (Store.start users puzzles) calls) where
  rows uid row hrow := ((chronicle_run users puzzles calls).rows date uid row hrow).2
  missing uid huser hrow :=
    (chronicle_run users puzzles calls).missing date uid hrow (by rwa [lookup_users_run])
  reveal uid row now hrow := by
    rw [Store.markDailyRevealed, hrow]
    exact AList.lookup_insert _
  afterwards uid h calls' := by
    rw [← Runs.run_append]
    exact lookup_run_append_of_revealed users puzzles h calls'
  answer _ _ _ _ _ h := matches_recordDailyScore h
  ranking := ⟨_, (chronicle_run users puzzles calls).ranks date⟩

/-- The score of a player whose account has been deleted has a row, and is not in the ranking. -/
theorem ranking_anonymized :
    let db := Runs.run Store.step
      (Store.start ((∅ : Table UserId Account).insert 1 ⟨"Anna", true⟩) ∅)
      [.record 5 "2026-10-05" 1 30]
    submissions "2026-10-05" 1 [.record 5 "2026-10-05" 1 30] = [(30, 5)] ∧
      db.scores.lookup ("2026-10-05", 1) = some ⟨30, 1, 5, false⟩ ∧
      db.getDailyLeaderboard "2026-10-05" 10 (some 1) = ([], none) := by
  decide

end ScrabbleMagyar.DailyScores
