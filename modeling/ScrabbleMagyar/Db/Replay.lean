import Mathlib.Data.List.Find
import ScrabbleMagyar.Db.Counters
import ScrabbleMagyar.Db.Ratings

/-!
# The replay of the games

What the computation of all ratings from nothing (`Db/Ratings.lean`) replays, and in which order;
what a new game, a new account and a rewritten row make of it; and what of a game's rows it reads.
-/

namespace ScrabbleMagyar

namespace Records

open Server (UserId RoomId GamePlayerData)

namespace Ratings

open Store Counters

variable {db db' : Store} {rule : RatingRule}

/-! ## The order of the replay -/

theorem mem_events {e : TimelineEvent} : e ∈ db.events ↔
    (∃ g ∈ db.games, g.status = .finished ∧ g.hasBots = false ∧ TimelineEvent.game g = e) ∨
      ∃ a ∈ db.adjustments, TimelineEvent.adjustment a = e := by
  simp [events, and_assoc]

theorem mem_timeline {e : TimelineEvent} : e ∈ db.timeline ↔ e ∈ db.events :=
  (List.perm_insertionSort _ _).mem_iff

theorem pairwise_timeline : db.timeline.Pairwise fun e e' => e.key ≤ e'.key :=
  List.pairwise_insertionSort (fun e e' : TimelineEvent => e.key ≤ e'.key) _

/-- Events with the same place are the same event. -/
theorem key_inj (h : WellFormed db) {e e' : TimelineEvent} (he : e ∈ db.events)
    (he' : e' ∈ db.events) (hkey : e.key = e'.key) : e = e' := by
  obtain ⟨g, hg, -, -, rfl⟩ | ⟨a, ha, rfl⟩ := mem_events.mp he <;>
    obtain ⟨g', hg', -, -, rfl⟩ | ⟨a', ha', rfl⟩ := mem_events.mp he' <;>
      simp only [TimelineEvent.key, EmbeddingLike.apply_eq_iff_eq, Prod.mk.injEq] at hkey
  · rw [h.game_eq hg hg' hkey.2.2]
  · simp at hkey
  · simp at hkey
  · rw [List.inj_on_of_nodup_map h.adjustmentIds ha ha' hkey.2.2]

theorem events_nodup (h : WellFormed db) : db.events.Nodup := by
  rw [events, List.nodup_append]
  refine ⟨?_, ?_, ?_⟩
  · refine List.Nodup.map (fun _ _ heq => TimelineEvent.game.inj heq) ?_
    exact (List.Nodup.of_map _ h.gameIds).filter _
  · exact List.Nodup.map (fun _ _ heq => TimelineEvent.adjustment.inj heq)
      (List.Nodup.of_map _ h.adjustmentIds)
  · intro e he e' he'
    obtain ⟨g, -, rfl⟩ := List.mem_map.mp he
    obtain ⟨a, -, rfl⟩ := List.mem_map.mp he'
    simp

/-- The replay goes through the events in the one order that is sorted. -/
theorem timeline_eq (h : WellFormed db) {l : List TimelineEvent} (hl : l.Nodup)
    (hmem : ∀ e, e ∈ db.events ↔ e ∈ l) (hsorted : l.Pairwise fun e e' => e.key ≤ e'.key) :
    db.timeline = l := by
  have hperm : db.timeline.Perm l := (List.perm_insertionSort _ _).trans
    ((List.perm_ext_iff_of_nodup (events_nodup h) hl).mpr hmem)
  refine hperm.eq_of_pairwise (fun e e' he he' hle hle' => ?_) pairwise_timeline hsorted
  exact key_inj h (mem_timeline.mp he) ((hmem e').mpr he') (le_antisymm hle hle')

theorem timeline_nodup (h : WellFormed db) : db.timeline.Nodup :=
  (List.perm_insertionSort _ _).nodup_iff.mpr (events_nodup h)

theorem timeline_congr (h : WellFormed db) (h' : WellFormed db')
    (hmem : ∀ e, e ∈ db'.events ↔ e ∈ db.events) : db'.timeline = db.timeline :=
  timeline_eq h' (timeline_nodup h) (fun e => (hmem e).trans mem_timeline.symm) pairwise_timeline

/-- An event after all others is replayed last. -/
theorem timeline_append (h : WellFormed db) (h' : WellFormed db') {e : TimelineEvent}
    (hmem : ∀ x, x ∈ db'.events ↔ x ∈ db.events ∨ x = e) (hlast : ∀ x ∈ db.events, x.key < e.key) :
    db'.timeline = db.timeline ++ [e] := by
  refine timeline_eq h' ?_ (fun x => ?_) ?_
  · rw [List.nodup_append]
    refine ⟨timeline_nodup h, by simp, fun x hx y hy heq => ?_⟩
    rw [List.mem_singleton] at hy
    exact absurd (hlast x (mem_timeline.mp hx)) (by simp [heq, hy])
  · rw [hmem, List.mem_append, List.mem_singleton, mem_timeline]
  · rw [List.pairwise_append]
    refine ⟨pairwise_timeline, by simp, fun x hx y hy => ?_⟩
    rw [List.mem_singleton.mp hy]
    exact (hlast x (mem_timeline.mp hx)).le

/-! ## Frames of the replay -/

theorem foldl_replay_congr {seats seats' : GameRow → List (UserId × ℤ)} {l : List TimelineEvent}
    (h : ∀ g, TimelineEvent.game g ∈ l → seats g = seats' g) (s : RatingState × PerGame) :
    l.foldl (replay rule seats) s = l.foldl (replay rule seats') s := by
  refine List.foldl_ext _ _ s fun s e he => ?_
  cases e with
  | adjustment a => rfl
  | game g => simp only [replay, h g he]

/-- A game that is not replayed gets no ratings. -/
theorem foldl_replay_perGame {seats : GameRow → List (UserId × ℤ)} {l : List TimelineEvent}
    {id : ℕ} (h : ∀ g, TimelineEvent.game g ∈ l → g.id ≠ id) (uid : UserId)
    (s : RatingState × PerGame) :
    (l.foldl (replay rule seats) s).2.lookup (id, uid) = s.2.lookup (id, uid) := by
  induction l generalizing s with
  | nil => rfl
  | cons e l ih =>
    rw [List.foldl_cons, ih fun g hg => h g (List.mem_cons_of_mem e hg)]
    cases e with
    | adjustment a =>
      simp only [replay]
      split <;> rfl
    | game g =>
      simp only [replay]
      split
      · rfl
      · rw [(foldl_enter g.id _ (ranked_spec _ _).1 s).2 id uid,
          if_neg (Ne.symm (h g List.mem_cons_self)), Option.none_or]

/-- What of a row the replay reads. -/
def seatPart (r : PlayerRow) : ℕ × Option UserId × String × ℤ :=
  (r.gameId, r.userId, r.playerName, r.finalScore)

theorem storedSeats_congr {g : GameRow}
    (h : (db'.players.filter fun r => r.gameId = g.id).map seatPart =
      (db.players.filter fun r => r.gameId = g.id).map seatPart) :
    db'.storedSeats g = db.storedSeats g := by
  have hseats : ∀ db : Store, db.storedSeats g =
      ((db.players.filter fun r => r.gameId = g.id).map seatPart).filterMap fun e =>
        e.2.1.map fun uid =>
          (uid, if hasResigned g.stateJson e.2.2.1 then resignedScore else e.2.2.2) := by
    intro db
    rw [List.filterMap_map]
    rfl
  rw [hseats, hseats, h]

theorem beginners_congr (h : db'.users.map UserRow.id = db.users.map UserRow.id) :
    db'.beginners = db.beginners := by
  have hids : ∀ db : Store, db.beginners =
      (db.users.map UserRow.id).foldl (fun state uid => state.insert uid (initialRating, 0)) ∅ := by
    intro db
    rw [List.foldl_map]
    rfl
  rw [hids, hids, h]

/-- The computation replays the same games when these, their rows and the accounts stay. -/
theorem computeRatings_eq (rule : RatingRule) {l : List TimelineEvent}
    (husers : db'.users.map UserRow.id = db.users.map UserRow.id)
    (hl : db'.timeline = db.timeline ++ l)
    (hrows : ∀ g, TimelineEvent.game g ∈ db.timeline →
      (db'.players.filter fun r => r.gameId = g.id).map seatPart =
        (db.players.filter fun r => r.gameId = g.id).map seatPart) :
    db'.computeRatings rule = l.foldl (replay rule db'.storedSeats) (db.computeRatings rule) := by
  rw [computeRatings, hl, List.foldl_append, beginners_congr husers, computeRatings]
  congr 1
  exact foldl_replay_congr (fun g hg => storedSeats_congr (hrows g hg)) _

/-! ## A row is written -/

/-- The row that a call writes is not replayed before. -/
theorem timeline_ne (h : WellFormed db) {row : GameRow} (hput : Puts db row db') (g : GameRow)
    (hg : TimelineEvent.game g ∈ db.timeline) : g.id ≠ row.id := by
  intro hid
  obtain ⟨x, hx, hstatus, -, heq⟩ | ⟨a, -, heq⟩ := mem_events.mp (mem_timeline.mp hg)
  · obtain rfl := TimelineEvent.game.inj heq
    have hfinished := isFinished_iff.mpr ⟨x, hx, hid, hstatus⟩
    rw [isFinished_before h hput] at hfinished
    exact Bool.noConfusion hfinished
  · exact TimelineEvent.noConfusion heq

/-- What a call adds to the games that are replayed. -/
theorem mem_events_puts (h : WellFormed db) {row : GameRow} (hput : Puts db row db')
    (e : TimelineEvent) : e ∈ db'.events ↔
      e ∈ db.events ∨ (row.status = .finished ∧ row.hasBots = false) ∧ e = .game row := by
  have hold : ∀ g ∈ db.games, g.status = .finished → g.id ≠ row.id := by
    intro g hg hstatus hid
    exact Bool.noConfusion ((isFinished_before h hput).symm.trans
      (isFinished_iff.mpr ⟨g, hg, hid, hstatus⟩))
  rw [mem_events, mem_events, hput.adjustments]
  constructor
  · rintro (⟨g, hg, hstatus, hbots, rfl⟩ | hadj)
    · rcases (hput.games g).mp hg with rfl | ⟨hg, -⟩
      · exact .inr ⟨⟨hstatus, hbots⟩, rfl⟩
      · exact .inl (.inl ⟨g, hg, hstatus, hbots, rfl⟩)
    · exact .inl (.inr hadj)
  · rintro ((⟨g, hg, hstatus, hbots, rfl⟩ | hadj) | ⟨⟨hstatus, hbots⟩, rfl⟩)
    · exact .inl ⟨g, (hput.games g).mpr (.inr ⟨hg, hold g hg hstatus⟩), hstatus, hbots, rfl⟩
    · exact .inr hadj
    · exact .inl ⟨row, hput.mem, hstatus, hbots, rfl⟩

/-- The rows of the other games read as before. -/
theorem rows_elsewhere {rows : List PlayerRow} {gameId id : ℕ}
    (helsewhere : (rows.filter fun r => r.gameId ≠ gameId) =
      db.players.filter fun r => r.gameId ≠ gameId)
    (hparts : db'.players.map seatPart = rows.map seatPart) (hne : id ≠ gameId) :
    (db'.players.filter fun r => r.gameId = id).map seatPart =
      (db.players.filter fun r => r.gameId = id).map seatPart := by
  have hparts' : ∀ l : List PlayerRow, (l.filter fun r => r.gameId = id).map seatPart =
      (l.map seatPart).filter fun e => e.1 = id := by
    intro l
    rw [List.filter_map]
    rfl
  have hother : ∀ l : List PlayerRow, (l.filter fun r => r.gameId = id) =
      (l.filter fun r => r.gameId ≠ gameId).filter fun r => r.gameId = id := by
    intro l
    rw [List.filter_filter]
    refine List.filter_congr fun r _ => ?_
    by_cases hid : r.gameId = id <;> simp [hid, hne]
  rw [hparts', hparts, ← hparts', hother, helsewhere, ← hother]

/-! ## The players of a replayed game -/

/-- The players whose ratings a game moves: none when fewer than two are rated. -/
def contested (entries : List Entry) : List Entry := if entries.length < 2 then [] else entries

/-- The rating of a player after a game between the rated players `entries`. -/
def ratingAfter (rule : RatingRule) (entries : List Entry) (e : Entry) : ℤ :=
  e.rating + rule.changes entries e.uid

theorem contested_nodup (standing : UserId → Option (ℤ × ℤ)) (seats : List (UserId × ℤ)) :
    ((contested (ranked standing seats)).map Entry.uid).Nodup := by
  unfold contested
  split
  · exact List.nodup_nil
  · exact (ranked_spec _ _).1

theorem replay_game (rule : RatingRule) (seats : GameRow → List (UserId × ℤ))
    (s : RatingState × PerGame) (g : GameRow) :
    replay rule seats s (.game g) =
      let entries := ranked s.1.lookup (seats g)
      (contested entries).foldl (fun s e => enter g.id s e (ratingAfter rule entries e)) s := by
  unfold contested
  simp only [replay]
  split <;> rfl

theorem find_contested {entries entries' : List Entry} (hperm : entries.Perm entries')
    (hfind : ∀ uid, find entries uid = find entries' uid) (uid : UserId) :
    find (contested entries) uid = find (contested entries') uid := by
  unfold contested
  rw [hperm.length_eq]
  split
  · rfl
  · exact hfind uid

/-! ## A new account -/

theorem ranked_congr {standing standing' : UserId → Option (ℤ × ℤ)} {seats : List (UserId × ℤ)}
    (h : ∀ seat ∈ seats, standing' seat.1 = standing seat.1) :
    ranked standing' seats = ranked standing seats := by
  refine List.foldl_ext _ _ [] fun entries seat hseat => ?_
  rw [h seat hseat]

/-- The states of two replays are the same but for a new account. -/
structure Extends (uid : UserId) (v : ℤ × ℤ) (s s' : RatingState × PerGame) : Prop where
  state : ∀ u, s'.1.lookup u = if u = uid then some v else s.1.lookup u
  games : ∀ id u, s'.2.lookup (id, u) = s.2.lookup (id, u)

/-- A new account changes nothing in the replay of an event that does not name it. -/
theorem Extends.replay {uid : UserId} {v : ℤ × ℤ} {seats : GameRow → List (UserId × ℤ)}
    {s s' : RatingState × PerGame} (hs : Extends uid v s s') {e : TimelineEvent}
    (hseats : ∀ g, e = .game g → ∀ seat ∈ seats g, seat.1 ≠ uid)
    (hadjusted : ∀ a, e = .adjustment a → a.userId ≠ uid) :
    Extends uid v (replay rule seats s e) (replay rule seats s' e) := by
  cases e with
  | adjustment a =>
    have hne := hadjusted a rfl
    have hlookup : s'.1.lookup a.userId = s.1.lookup a.userId := by rw [hs.state, if_neg hne]
    simp only [Records.replay, hlookup]
    split
    · refine ⟨fun u => ?_, hs.games⟩
      rw [Table.lookup_insert, Table.lookup_insert, hs.state]
      split_ifs with ha hu
      · exact absurd (ha.symm.trans hu) hne
      · rfl
      · rfl
      · rfl
    · exact hs
  | game g =>
    have hranked : ranked s'.1.lookup (seats g) = ranked s.1.lookup (seats g) :=
      ranked_congr fun seat hseat => by rw [hs.state, if_neg (hseats g rfl seat hseat)]
    have hnone : find (contested (ranked s.1.lookup (seats g))) uid = none := by
      apply find_eq_none
      intro hmem
      obtain ⟨e, he, heq⟩ := List.mem_map.mp hmem
      have hfind := (mem_iff_find (contested_nodup s.1.lookup (seats g))).mp he
      unfold contested at hfind
      split at hfind
      · exact absurd hfind (by simp [find])
      · rw [(ranked_spec _ _).2, entryOf, Option.bind_eq_some_iff] at hfind
        obtain ⟨seat, hseat, -⟩ := hfind
        refine hseats g rfl seat (List.mem_of_find?_eq_some hseat) (Eq.trans ?_ heq)
        simpa using List.find?_some hseat
    rw [replay_game, replay_game]
    simp only [hranked]
    have henter := foldl_enter g.id (ratingAfter rule (ranked s.1.lookup (seats g)))
      (contested_nodup s.1.lookup (seats g))
    refine ⟨fun u => ?_, fun id u => ?_⟩
    · rw [(henter s').1, (henter s).1, hs.state]
      split
      · rename_i hu
        rw [hu, hnone]
        rfl
      · rfl
    · rw [(henter s').2, (henter s).2, hs.games]

theorem Extends.foldl_replay {uid : UserId} {v : ℤ × ℤ} {seats : GameRow → List (UserId × ℤ)}
    {l : List TimelineEvent}
    (hseats : ∀ g, TimelineEvent.game g ∈ l → ∀ seat ∈ seats g, seat.1 ≠ uid)
    (hadjusted : ∀ a, TimelineEvent.adjustment a ∈ l → a.userId ≠ uid)
    {s s' : RatingState × PerGame} (hs : Extends uid v s s') :
    Extends uid v (l.foldl (Records.replay rule seats) s)
      (l.foldl (Records.replay rule seats) s') := by
  induction l generalizing s s' with
  | nil => exact hs
  | cons e l ih =>
    apply ih (fun g hg => hseats g (List.mem_cons_of_mem e hg))
      (fun a ha => hadjusted a (List.mem_cons_of_mem e ha))
    apply hs.replay
    · rintro g rfl
      exact hseats g List.mem_cons_self
    · rintro a rfl
      exact hadjusted a List.mem_cons_self

/-! ## The seats of a result -/

/-- The seats of a game after a result, in the order of their rows. -/
def seatOrder (rows : List PlayerRow) (gameId : ℕ) (players : List GamePlayerData) : List String :=
  players.foldl
    (fun names pd => if pd.playerName ∈ names then names else names ++ [pd.playerName])
    ((rows.filter fun r => r.gameId = gameId).map PlayerRow.playerName)

theorem names_finishPlayer (gameId : ℕ) (rows : List PlayerRow) (pd : GamePlayerData) :
    ((finishPlayer gameId rows pd).filter fun r => r.gameId = gameId).map PlayerRow.playerName =
      if pd.playerName ∈ (rows.filter fun r => r.gameId = gameId).map PlayerRow.playerName then
        (rows.filter fun r => r.gameId = gameId).map PlayerRow.playerName
      else (rows.filter fun r => r.gameId = gameId).map PlayerRow.playerName ++ [pd.playerName] := by
  have hmem : pd.playerName ∈ (rows.filter fun r => r.gameId = gameId).map PlayerRow.playerName ↔
      ∃ r ∈ rows, r.gameId = gameId ∧ r.playerName = pd.playerName := by
    simp [and_assoc]
  unfold finishPlayer
  cases hfind : rows.find? fun r => decide (r.gameId = gameId ∧ r.playerName = pd.playerName) with
  | some row =>
    have hrow : row.gameId = gameId ∧ row.playerName = pd.playerName := by
      simpa using List.find?_some hfind
    rw [if_pos (hmem.mpr ⟨row, List.mem_of_find?_eq_some hfind, hrow⟩)]
    have hnames : ∀ l : List PlayerRow,
        (l.filter fun r => r.gameId = gameId).map PlayerRow.playerName =
          ((l.map seatOf).filter fun e => e.1 = gameId).map Prod.snd := by
      intro l
      rw [List.filter_map, List.map_map]
      rfl
    rw [hnames, hnames, List.map_map]
    congr 2
    refine List.map_congr_left fun r _ => ?_
    simp only [Function.comp_apply]
    split <;> rfl
  | none =>
    have hnone : ¬∃ r ∈ rows, r.gameId = gameId ∧ r.playerName = pd.playerName := by
      rintro ⟨r, hr, hseat⟩
      exact absurd (List.find?_eq_none.mp hfind r hr) (by simpa using hseat)
    rw [if_neg (hmem.not.mpr hnone)]
    simp [newPlayer]

theorem names_finishPlayers (gameId : ℕ) (players : List GamePlayerData) (rows : List PlayerRow) :
    ((players.foldl (finishPlayer gameId) rows).filter fun r => r.gameId = gameId).map
      PlayerRow.playerName = seatOrder rows gameId players := by
  induction players generalizing rows with
  | nil => rfl
  | cons pd players ih =>
    rw [List.foldl_cons, ih, seatOrder, names_finishPlayer, seatOrder, List.foldl_cons]

/-- The first seat of a user in a result. -/
def firstSeat (players : List GamePlayerData) (uid : UserId) : Option String :=
  (players.find? fun pd => pd.userId = some uid).map GamePlayerData.playerName

/-- The first of the rows of a game that a result names for a user. -/
def firstRow (rows : List PlayerRow) (gameId : ℕ) (players : List GamePlayerData) (uid : UserId) :
    Option String :=
  (seatOrder rows gameId players).find? fun name =>
    players.any fun pd => pd.playerName = name ∧ pd.userId = some uid

/-- The first seat that is listed for a user. -/
theorem find_seat {α : Type} (user : α → Option UserId) (score : α → ℤ) (l : List α)
    (uid : UserId) :
    ((l.filterMap fun a => (user a).map fun u => (u, score a)).find? fun seat => seat.1 = uid) =
      (l.find? fun a => user a = some uid).map fun a => (uid, score a) := by
  induction l with
  | nil => rfl
  | cons a l ih =>
    cases ha : user a with
    | none =>
      rw [List.filterMap_cons_none (by rw [ha]; rfl), ih, List.find?_cons_of_neg (by simp [ha])]
    | some u =>
      rw [List.filterMap_cons_some (by rw [ha]; rfl)]
      by_cases hu : u = uid
      · rw [List.find?_cons_of_pos (by simpa using hu), List.find?_cons_of_pos (by simp [ha, hu]),
          hu]
        rfl
      · rw [List.find?_cons_of_neg (by simpa using hu), List.find?_cons_of_neg (by simp [ha, hu]),
          ih]

theorem find_ratedSeats (players : List GamePlayerData) {uid : UserId} (hpos : uid ≠ 0) :
    ((ratedSeats players).find? fun seat => seat.1 = uid) =
      (players.find? fun pd => pd.userId = some uid).map fun pd =>
        (uid, if pd.resigned then resignedScore else pd.score) := by
  have hsame : ∀ pd ∈ players, decide (pd.userId.filter (fun u => u ≠ 0) = some uid) =
      decide (pd.userId = some uid) := by
    intro pd _
    rw [decide_eq_decide, Option.filter_eq_some_iff]
    exact and_iff_left (by simpa using hpos)
  rw [← List.find?_congr hsame]
  exact find_seat (fun pd : GamePlayerData => pd.userId.filter fun u => u ≠ 0)
    (fun pd => if pd.resigned then resignedScore else pd.score) players uid

theorem find_storedSeats (g : GameRow) (uid : UserId) :
    ((db.storedSeats g).find? fun seat => seat.1 = uid) =
      ((db.rowsOf g.id).find? fun r => r.userId = some uid).map fun r =>
        (uid, if hasResigned g.stateJson r.playerName then resignedScore else r.finalScore) :=
  find_seat PlayerRow.userId
    (fun r => if hasResigned g.stateJson r.playerName then resignedScore else r.finalScore)
    (db.rowsOf g.id) uid

/-- What a recorded result has to say: its seats have names of their own, it names the accounts
that are stored, and the state that is stored with it says who has resigned. -/
structure Telling (db : Store) (roomId : RoomId) (stateJson : Json)
    (players : List GamePlayerData) : Prop where
  names : (players.map GamePlayerData.playerName).Nodup
  faithful : Faithful db roomId players
  flags : ∀ pd ∈ players, hasResigned stateJson pd.playerName = pd.resigned

/-- The rows of a result and the call say the same of a user, when the first row of the user is
that of the first seat. -/
theorem find_stored_eq (h : WellFormed db) {row : GameRow} (hput : Puts db row db')
    {players : List GamePlayerData} (htells : Telling db row.roomId row.stateJson players)
    {db₁ : Store} (hdb₁ : db₁.players = players.foldl (finishPlayer row.id) db.players)
    {uid : UserId} (hpos : uid ≠ 0)
    (hfirst : firstSeat players uid = firstRow db.players row.id players uid) :
    ((db₁.storedSeats row).find? fun seat => seat.1 = uid) =
      (ratedSeats players).find? fun seat => seat.1 = uid := by
  have hwrote := finishPlayers_wroteAll h.seated row.id players
  -- a row is the user's when the call names its seat for the user
  have hnamed : ∀ r ∈ db₁.rowsOf row.id,
      players.any (fun pd => decide (pd.playerName = r.playerName ∧ pd.userId = some uid)) =
        decide (r.userId = some uid) := by
    intro r hr
    obtain ⟨hmem, hgame⟩ := List.mem_filter.mp hr
    rw [hdb₁] at hmem
    rw [decide_eq_true_eq] at hgame
    rw [Bool.eq_iff_iff, decide_eq_true_eq]
    constructor
    · intro hany
      obtain ⟨pd, hpd, hseat⟩ := List.any_eq_true.mp hany
      rw [decide_eq_true_eq] at hseat
      exact (row_of_named h (alone_of_nodup htells.names hpd) hseat.2 hmem
        (Prod.ext hgame hseat.1.symm)).1
    · intro huser
      obtain ⟨pd, hpd, hname, hpduser⟩ := named_of_row h hput htells.faithful hmem hgame huser
      exact List.any_eq_true.mpr ⟨pd, hpd, by simpa using ⟨hname, hpduser⟩⟩
  have hrow : firstRow db.players row.id players uid =
      ((db₁.rowsOf row.id).find? fun r => r.userId = some uid).map PlayerRow.playerName := by
    rw [firstRow, ← names_finishPlayers, ← hdb₁, List.find?_map, ← List.find?_congr hnamed]
    rfl
  rw [find_storedSeats, find_ratedSeats players hpos]
  rw [firstSeat, hrow] at hfirst
  cases hseat : players.find? fun pd => decide (pd.userId = some uid) with
  | none =>
    rw [hseat, Option.map_none, eq_comm, Option.map_eq_none_iff] at hfirst
    rw [hfirst]
    rfl
  | some pd =>
    rw [hseat, Option.map_some, eq_comm, Option.map_eq_some_iff] at hfirst
    obtain ⟨r, hr, hname⟩ := hfirst
    have hpd := List.mem_of_find?_eq_some hseat
    have huser : pd.userId = some uid := by simpa using List.find?_some hseat
    obtain ⟨hmem, hgame⟩ := List.mem_filter.mp (List.mem_of_find?_eq_some hr)
    rw [hdb₁] at hmem
    have hscore := (row_of_named h (alone_of_nodup htells.names hpd) huser hmem
      (Prod.ext (of_decide_eq_true hgame) hname)).2
    rw [hr, Option.map_some, Option.map_some, hname, hscore, htells.flags pd hpd]

end Ratings

end Records

end ScrabbleMagyar
