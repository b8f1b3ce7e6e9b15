import ScrabbleMagyar.Engine.Positions
import ScrabbleMagyar.Foundations.Groups
import ScrabbleMagyar.Foundations.Rounding
import ScrabbleMagyar.Robot.Generator
import ScrabbleMagyar.Server.Persisting

/-!
# The analysis of a game

From the stored moves of a game the analysis works out what every turn could have scored
(`robot/analysis.rs`): it searches for the best placement of the recorded hand on the board that the
move before left, and adds up what each player missed.

* `analysis_judges`: every turn is judged in the position it was played in, and the totals agree.
* `best_of_scoreless_opening`: a placement that scored nothing has no best move when none is found.
-/

namespace ScrabbleMagyar.Analysis

open Robot (Move bestMoves)

/-! ## The turns of a log -/

def analysisVersion : ℤ := 7

/-- The kinds of entries that are turns: a rejected placement is none. -/
def turnTypes : List String := ["place", "challenge_accept", "exchange", "pass"]

def detailsOf (mv : StoredMove) : Json := (mv.detailsJson.filter Json.isObj).getD (.obj [])

def isTurn (mv : StoredMove) (details : Json) : Bool :=
  turnTypes.contains mv.actionType && (details.get? "rack").any fun rack => rack.asArray.isSome

/-- The analysis of one turn. -/
structure Entry where
  n : ℤ
  player : String
  type : String
  rack : Json
  score : ℤ
  words : Json
  bestScore : ℤ
  bestWords : Json
  bestTiles : Json
  lost : ℤ

/-- A move as the analysis reports it. -/
structure Best where
  score : ℤ
  words : Json
  tiles : Json

/-- What the search found. -/
def foundBest : Option Move → Best
  | some first =>
    { score := first.score
      words := .arr (first.words.map fun w => .str (String.ofList w))
      tiles := .arr (first.tiles.map Placed.toJson) }
  | none => ⟨0, .arr [], .arr []⟩

/-- What was played. -/
def playedBest (details : Json) (actual : ℤ) : Best where
  score := actual
  words := (details.get? "words").getD (.arr [])
  tiles := (details.get? "tiles").getD (.arr [])

/-- What a turn scored. -/
def actualScore (mv : StoredMove) (details : Json) : ℤ :=
  let isPlace := mv.actionType == "place" || mv.actionType == "challenge_accept"
  if isPlace then ((details.get? "score").bind Json.asInt).getD 0 else 0

def analyzeTurn (lex : Lexicon) (vocab : Vocabulary) (board : Board) (mv : StoredMove)
    (details : Json) : Entry :=
  let rack := tilesFromJson (details.field "rack")
  let actual := actualScore mv details
  let found := foundBest (bestMoves lex vocab board rack 1).head?
  -- what was played may be better than what is found: the search knows fewer words
  let best := if found.score ≤ actual ∧ 0 < actual then playedBest details actual else found
  { n := mv.moveNumber
    player := mv.playerName
    type := mv.actionType
    rack := details.field "rack"
    score := actual
    words := (details.get? "words").getD (.arr [])
    bestScore := best.score
    bestWords := best.words
    bestTiles := best.tiles
    lost := max (best.score - actual) 0 }

/-- The analysis of the turns among the moves, the first of which was made on `board`. -/
def analyzeMoves (lex : Lexicon) (vocab : Vocabulary) (board : Board) : List StoredMove → List Entry
  | [] => []
  | mv :: moves =>
    let details := detailsOf mv
    let entries := analyzeMoves lex vocab ((mv.boardSnapshotJson.map Board.fromJson).getD board) moves
    if isTurn mv details then analyzeTurn lex vocab board mv details :: entries else entries

theorem lost_of_mem_analyzeMoves {lex : Lexicon} {vocab : Vocabulary} {board : Board}
    {moves : List StoredMove} {e : Entry} (h : e ∈ analyzeMoves lex vocab board moves) :
    e.lost = max (e.bestScore - e.score) 0 := by
  induction moves generalizing board with
  | nil => exact absurd h List.not_mem_nil
  | cons mv moves ih =>
    simp only [analyzeMoves] at h
    split at h
    · rcases List.mem_cons.mp h with rfl | h
      · rfl
      · exact ih h
    · exact ih h

/-! ## The totals -/

/-- The turn that lost the most points. -/
structure Miss where
  n : ℤ
  lost : ℤ
  bestWords : Json
  bestScore : ℤ
  score : ℤ

/-- What is counted for a player. -/
structure Tally where
  turns : ℤ
  scored : ℤ
  possible : ℤ
  optimal : ℤ
  biggestMiss : Option Miss

def Tally.new : Tally := ⟨0, 0, 0, 0, none⟩

def Tally.add (t : Tally) (e : Entry) : Tally where
  turns := t.turns + 1
  scored := t.scored + e.score
  possible := t.possible + max e.score e.bestScore
  optimal := if e.lost = 0 then t.optimal + 1 else t.optimal
  biggestMiss :=
    if 0 < e.lost ∧ t.biggestMiss.all fun miss => miss.lost < e.lost then
      some ⟨e.n, e.lost, e.bestWords, e.bestScore, e.score⟩
    else t.biggestMiss

/-- The summary for a player; the efficiency is a percentage with one decimal. -/
structure Summary extends Tally where
  player : String
  missed : ℤ
  efficiency : ℚ

def Tally.summary (t : Tally) (player : String) : Summary :=
  { t with
    player
    missed := t.possible - t.scored
    efficiency :=
      if 0 < t.possible then (roundTiesEven (1000 * t.scored / t.possible : ℚ) : ℚ) / 10 else 100 }

/-- The summaries of the players, in the order of their first turns. -/
def summarize (entries : List Entry) : List Summary :=
  (Groups.groups Entry.player (fun _ => Tally.new) Tally.add entries).map fun (player, t) =>
    t.summary player

structure Report where
  version : ℤ
  moves : List Entry
  players : List Summary

def analyzeGame (lex : Lexicon) (vocab : Vocabulary) (moves : List StoredMove) : Report :=
  let entries := analyzeMoves lex vocab Board.new moves
  { version := analysisVersion, moves := entries, players := summarize entries }

/-! ### What the totals say -/

theorem foldl_add (entries : List Entry) (t : Tally) :
    (entries.foldl Tally.add t).scored = t.scored + (entries.map Entry.score).sum ∧
      (entries.foldl Tally.add t).possible =
        t.possible + (entries.map fun e => max e.score e.bestScore).sum := by
  induction entries generalizing t with
  | nil => simp
  | cons e entries ih =>
    obtain ⟨hscored, hpossible⟩ := ih (t.add e)
    rw [List.foldl_cons, hscored, hpossible]
    simp only [Tally.add, List.map_cons, List.sum_cons]
    omega

/-- What is possible beyond the score is what was lost. -/
theorem sum_lost {entries : List Entry}
    (h : ∀ e ∈ entries, e.lost = max (e.bestScore - e.score) 0) :
    (entries.map fun e => max e.score e.bestScore).sum - (entries.map Entry.score).sum =
      (entries.map Entry.lost).sum := by
  induction entries with
  | nil => rfl
  | cons e entries ih =>
    have hrest := ih fun e' he' => h e' (List.mem_cons_of_mem e he')
    have hlost := h e List.mem_cons_self
    simp only [List.map_cons, List.sum_cons]
    omega

/-- The entries of a player. -/
def entriesOf (entries : List Entry) (player : String) : List Entry :=
  entries.filter fun e => e.player = player

/-- **The summary of a player**: what the turns scored, and what they lost is what was missed. -/
theorem totals_of_mem_summarize {entries : List Entry}
    (h : ∀ e ∈ entries, e.lost = max (e.bestScore - e.score) 0) {s : Summary}
    (hs : s ∈ summarize entries) :
    s.scored = ((entriesOf entries s.player).map Entry.score).sum ∧
      s.missed = ((entriesOf entries s.player).map Entry.lost).sum ∧
      s.missed = s.possible - s.scored := by
  obtain ⟨⟨player, t⟩, hgroup, rfl⟩ := List.mem_map.mp hs
  have htally : t = (entriesOf entries player).foldl Tally.add Tally.new :=
    Groups.snd_of_mem_groups _ _ _ hgroup
  obtain ⟨hscored, hpossible⟩ := foldl_add (entriesOf entries player) Tally.new
  rw [← htally] at hscored hpossible
  have hlost := sum_lost fun e (he : e ∈ entriesOf entries player) =>
    h e (List.mem_of_mem_filter he)
  change t.scored = ((entriesOf entries player).map Entry.score).sum ∧
    t.possible - t.scored = ((entriesOf entries player).map Entry.lost).sum ∧
      t.possible - t.scored = t.possible - t.scored
  refine ⟨?_, ?_, rfl⟩
  · rw [hscored]
    exact zero_add _
  · rw [hscored, hpossible, ← hlost]
    simp only [Tally.new, zero_add]

/-- There is one summary for each player with a turn. -/
theorem players_summarize (entries : List Entry) :
    ((summarize entries).map Summary.player).Nodup ∧
      ∀ player, player ∈ (summarize entries).map Summary.player ↔
        player ∈ entries.map Entry.player := by
  have hplayers : (summarize entries).map Summary.player =
      (Groups.groups Entry.player (fun _ => Tally.new) Tally.add entries).map Prod.fst := by
    rw [summarize, List.map_map]
    rfl
  rw [hplayers]
  exact ⟨Groups.nodup_groups _ _ _ entries, Groups.mem_keys_groups _ _ _ entries⟩

/-! ## The judgement of a turn -/

/-- The tiles an entry records, as they are stored. -/
def playedTiles (m : MoveLog) : Json := (m.details.get? "tiles").getD (.arr [])

def playedWords (m : MoveLog) : Json := (m.details.get? "words").getD (.arr [])

/-- The best move is the one that was played. -/
structure Entry.IsPlayed (e : Entry) (m : MoveLog) : Prop where
  score : e.bestScore = m.score
  tiles : e.bestTiles = playedTiles m
  words : e.bestWords = playedWords m

/-- The best move is a placement that the game accepts in the state `g`, for that score. -/
def Entry.IsAccepted (lex : Lexicon) (g : Game) (e : Entry) : Prop :=
  ∃ tiles : List Placed, e.bestTiles = .arr (tiles.map Placed.toJson) ∧
    ∀ env : Env, env.lexicon = lex → ∃ message,
      (g.placeTiles env (g.playerAt g.currentPlayerIdx).id tiles).2 = .ok (message, e.bestScore)

/-- There is no best move. -/
structure Entry.IsEmpty (e : Entry) : Prop where
  score : e.bestScore = 0
  tiles : e.bestTiles = .arr []
  words : e.bestWords = .arr []

/-- **The judgement of a turn** that was made in the state `g` from the hand `rack`. -/
structure Judged (lex : Lexicon) (g : Game) (rack : List Tile) (m : MoveLog) (e : Entry) : Prop where
  n : e.n = m.moveNumber
  player : e.player = m.playerName
  type : e.type = m.actionType
  rack : e.rack = tilesToJson rack
  score : e.score = m.score
  best : e.IsPlayed m ∨ e.IsAccepted lex g ∨
    e.IsEmpty ∧ m.isPlacement = true ∧ m.score = 0
  covers : e.score ≤ e.bestScore
  lost : e.lost = e.bestScore - e.score

variable {lex : Lexicon} {vocab : Vocabulary} {g : Game} {rack : List Tile} {m : MoveLog}

theorem get?_rack_moveDetails (tiles : Option (List Placed)) (formed : Option (List FormedWord))
    (score : ℤ) (rack : List Tile) :
    (Game.moveDetails tiles formed score (some rack)).get? "rack" = some (tilesToJson rack) := by
  cases htiles : tiles.filter (fun t => !t.isEmpty) <;>
    cases hformed : formed.filter (fun f => !f.isEmpty) <;>
    simp [Game.moveDetails, htiles, hformed, Json.get?_obj_cons]

/-- A turn records the hand it was made from. -/
theorem get?_rack_of_madeIn (h : Game.MadeIn g rack m) :
    m.details.get? "rack" = some (tilesToJson rack) := by
  obtain ⟨_, _, tiles, formed, -, -, hdetails⟩ | ⟨-, -, hdetails⟩ := h.deed
  · rw [hdetails, get?_rack_moveDetails]
  · rw [hdetails, get?_rack_moveDetails]

/-- What counts as the score of a turn is what its entry records. -/
theorem actualScore_of_madeIn (h : Game.MadeIn g rack m) :
    actualScore m.stored m.details = m.score := by
  change (if m.isPlacement then m.score else 0) = m.score
  obtain ⟨_, _, tiles, formed, -, hkind, -⟩ | ⟨hkind, -, hdetails⟩ := h.deed
  · rw [hkind]
    rfl
  · rw [hkind, if_neg Bool.false_ne_true, MoveLog.score, hdetails, Game.get?_score_moveDetails]
    rfl

/-- A turn that lays nothing records neither tiles nor words nor a score. -/
theorem played_of_madeIn (h : Game.MadeIn g rack m) (hkind : m.isPlacement = false) :
    m.score = 0 ∧ playedTiles m = .arr [] ∧ playedWords m = .arr [] := by
  obtain ⟨_, _, tiles, formed, -, hplace, -⟩ | ⟨-, -, hdetails⟩ := h.deed
  · exact absurd (hkind.symm.trans hplace) Bool.false_ne_true
  · simp [MoveLog.score, playedTiles, playedWords, hdetails, Game.moveDetails, Json.get?_obj_cons,
      Option.filter]

/-- **The moves found are accepted** in every state with the board and the hand of the search. -/
theorem placeable_of_mem_bestMoves {count : ℕ} {first : Move}
    (hfree : g.pendingChallenge = none) (hfin : g.finished = false)
    (hseat : g.currentPlayerIdx < g.players.length)
    (hhand : rack.Perm (g.playerAt g.currentPlayerIdx).hand)
    (h : first ∈ bestMoves lex vocab g.board rack count) :
    ∃ formed, Game.Placeable lex g (g.playerAt g.currentPlayerIdx).id first.tiles formed ∧
      first.score = Game.lerakasTotal formed first.tiles.length := by
  obtain ⟨formed, hfits, haccepted⟩ := Robot.fits_of_mem_bestMoves h
  refine ⟨formed, ⟨hfin, hfree, hseat, rfl, (hfits.held.perm hhand).validateHand, ?_⟩, hfits.score⟩
  have hchecked := (Board.validatePlacement_ok_iff _ _ _ _ _).mp hfits.valid
  exact (Board.validatePlacement_ok_iff _ _ _ _ _).mpr
    { hchecked with accepted := fun _ => haccepted }

theorem lerakasTotal_nonneg (formed : List FormedWord) (tileCount : ℕ) :
    0 ≤ Game.lerakasTotal formed tileCount := by
  have hsum : 0 ≤ (formed.map fun w => (w.score : ℤ)).sum :=
    List.sum_nonneg fun x hx => by
      obtain ⟨w, -, rfl⟩ := List.mem_map.mp hx
      exact Int.natCast_nonneg _
  rw [Game.lerakasTotal]
  split
  · exact add_nonneg hsum (by decide)
  · exact add_nonneg hsum le_rfl

/-- No turn has a negative score. -/
theorem score_nonneg_of_madeIn (h : Game.MadeIn g rack m) : 0 ≤ m.score := by
  obtain ⟨_, _, tiles, formed, -, -, hdetails⟩ | ⟨-, -, hdetails⟩ := h.deed
  · rw [MoveLog.score, hdetails, Game.get?_score_moveDetails]
    exact lerakasTotal_nonneg formed tiles.length
  · rw [MoveLog.score, hdetails, Game.get?_score_moveDetails]
    exact le_rfl

/-- **What the search found** for a turn is nothing, or a placement that the game accepts. -/
theorem foundBest_of_madeIn (h : Game.MadeIn g rack m) {found : Best}
    (hfound : found = foundBest (bestMoves lex vocab g.board rack 1).head?) :
    0 ≤ found.score ∧
      (found = ⟨0, .arr [], .arr []⟩ ∨
        ∃ tiles : List Placed, found.tiles = .arr (tiles.map Placed.toJson) ∧
          ∀ env : Env, env.lexicon = lex → ∃ message,
            (g.placeTiles env (g.playerAt g.currentPlayerIdx).id tiles).2 =
              .ok (message, found.score)) := by
  cases hbest : (bestMoves lex vocab g.board rack 1).head? with
  | none =>
    rw [hbest] at hfound
    exact ⟨hfound ▸ le_rfl, .inl hfound⟩
  | some first =>
    rw [hbest] at hfound
    subst hfound
    obtain ⟨formed, hplaceable, hscore⟩ := placeable_of_mem_bestMoves h.free h.unfinished h.seat h.hand
      (List.mem_of_mem_head? hbest)
    rw [foundBest, hscore]
    refine ⟨lerakasTotal_nonneg formed _, .inr ⟨first.tiles, rfl, fun env henv => ?_⟩⟩
    subst henv
    rw [Game.placeTiles_eq hplaceable]
    dsimp only
    split
    · exact ⟨_, rfl⟩
    · exact ⟨_, rfl⟩

/-- **Every turn is judged in its position.** -/
theorem judged_analyzeTurn (h : Game.MadeIn g rack m) :
    Judged lex g rack m (analyzeTurn lex vocab g.board m.stored m.details) := by
  let found := foundBest (bestMoves lex vocab g.board rack 1).head?
  let best := if found.score ≤ m.score ∧ 0 < m.score then playedBest m.details m.score else found
  obtain ⟨hnonneg, hfound⟩ := foundBest_of_madeIn h
    (show found = foundBest (bestMoves lex vocab g.board rack 1).head? from rfl)
  have hentry : analyzeTurn lex vocab g.board m.stored m.details =
      { n := m.moveNumber, player := m.playerName, type := m.actionType, rack := tilesToJson rack
        score := m.score, words := playedWords m, bestScore := best.score, bestWords := best.words
        bestTiles := best.tiles, lost := max (best.score - m.score) 0 } := by
    simp only [analyzeTurn, actualScore_of_madeIn h, Json.field, get?_rack_of_madeIn h,
      Option.getD_some, tilesFromJson_tilesToJson]
    rfl
  rw [hentry]
  have hcovers : m.score ≤ best.score := by
    simp only [best]
    split
    · exact le_rfl
    · rename_i hbetter
      omega
  refine ⟨rfl, rfl, rfl, rfl, rfl, ?_, hcovers, max_eq_left (by omega)⟩
  by_cases hplayed : found.score ≤ m.score ∧ 0 < m.score
  · have hbest : best = playedBest m.details m.score := if_pos hplayed
    rw [hbest]
    exact .inl ⟨rfl, rfl, rfl⟩
  have hbest : best = found := if_neg hplayed
  rw [hbest] at hcovers ⊢
  rcases hfound with hnone | ⟨tiles, htiles, haccepted⟩
  · rw [hnone] at hcovers ⊢
    cases hkind : m.isPlacement with
    | false =>
      obtain ⟨hscore, htiles, hwords⟩ := played_of_madeIn h hkind
      exact .inl ⟨hscore.symm, htiles.symm, hwords.symm⟩
    | true =>
      have hzero : m.score = 0 := le_antisymm hcovers (score_nonneg_of_madeIn h)
      exact .inr (.inr ⟨⟨rfl, rfl, rfl⟩, rfl, hzero⟩)
  · exact .inr (.inl ⟨tiles, htiles, haccepted⟩)

/-! ## The analysis of a log -/

/-- The turns of a log, each with the number of entries before it: all but the rejections. -/
def turnsOf (log : List MoveLog) : List (MoveLog × ℕ) :=
  log.zipIdx.filter fun t => t.1.actionType ≠ "challenge_reject"

theorem isTurn_of_madeIn (h : Game.MadeIn g rack m) : isTurn m.stored m.details = true := by
  have hkind : m.actionType ∈ turnTypes := by
    obtain ⟨_, _, tiles, formed, -, hkind, -⟩ | ⟨-, hkind, -⟩ := h.deed
    · simp only [MoveLog.isPlacement, Bool.or_eq_true, beq_iff_eq] at hkind
      rcases hkind with hkind | hkind <;> simp [turnTypes, hkind]
    · rcases List.mem_cons.mp hkind with hkind | hkind
      · simp [turnTypes, hkind]
      · simp [turnTypes, List.mem_singleton.mp hkind]
  rw [isTurn, get?_rack_of_madeIn h, Bool.and_eq_true]
  exact ⟨by simpa [MoveLog.stored] using hkind, rfl⟩

theorem isTurn_of_rejected (h : m.actionType = "challenge_reject") :
    isTurn m.stored m.details = false := by
  simp [isTurn, MoveLog.stored, turnTypes, h]

/-- A stored log is gone through with the board of the entry before. -/
theorem forall₂_analyzeMoves {log : List MoveLog} (hsound : ∀ m ∈ log, m.Sound)
    {R : Entry → MoveLog × ℕ → Prop}
    (hturn : ∀ k m, log[k]? = some m → isTurn m.stored m.details = true →
      R (analyzeTurn lex vocab (Game.boardAfter (log.take k)) m.stored m.details) (m, k))
    (done : List MoveLog) {rest : List MoveLog} (hlog : log = done ++ rest) :
    List.Forall₂ R (analyzeMoves lex vocab (Game.boardAfter done) (rest.map MoveLog.stored))
      ((rest.zipIdx done.length).filter fun t => isTurn t.1.stored t.1.details) := by
  induction rest generalizing done with
  | nil => exact .nil
  | cons m rest ih =>
    have hm : m.Sound := hsound m (by simp [hlog])
    have hdetails : detailsOf m.stored = m.details := by
      simp [detailsOf, MoveLog.stored, Option.filter, hm.details]
    have hboard : (m.stored.boardSnapshotJson.map Board.fromJson).getD (Game.boardAfter done) =
        Game.boardAfter (done ++ [m]) := by
      rw [Game.boardAfter_append_singleton]
      exact Board.fromJson_toJson hm.board
    have hrest := ih (done ++ [m]) (by rw [hlog]; simp)
    rw [List.length_append, List.length_singleton] at hrest
    simp only [List.map_cons, analyzeMoves, hdetails, hboard, List.zipIdx_cons, List.filter_cons]
    split
    · rename_i hkind
      have hthis := hturn done.length m (by simp [hlog]) hkind
      rw [hlog, List.take_left] at hthis
      exact .cons hthis hrest
    · exact hrest

/-- The stored moves of a log are read in its order. -/
theorem getGameMoves_stored (hlogged : g.Logged) (id : ℕ) (stateJson : Json) (active : Bool) :
    Persisting.Db.getGameMoves ⟨id, stateJson, active, g.moveLog.map MoveLog.stored⟩ =
      g.moveLog.map MoveLog.stored :=
  List.Pairwise.insertionSort_eq (List.pairwise_map.mpr hlogged.pairwise)

/-- **What an analysis says** of the game that the inputs `l` make of `g₀`: one judgement for each
turn of the log, in order, of a state of the run that had the entries before the turn; and one summary
for each player with a turn, whose missed points are those lost in the player's turns and the
difference between the possible points and the scored ones. -/
structure Judges (lex : Lexicon) (g₀ : Game) (l : List Input) (report : Report) : Prop where
  turns : List.Forall₂
    (fun e t => ∃ l₁ rack, l₁ <+: l ∧
      (Runs.run Game.playOn g₀ l₁).moveLog = (Runs.run Game.playOn g₀ l).moveLog.take t.2 ∧
      Game.MadeIn (Runs.run Game.playOn g₀ l₁) rack t.1 ∧
      Judged lex (Runs.run Game.playOn g₀ l₁) rack t.1 e)
    report.moves (turnsOf (Runs.run Game.playOn g₀ l).moveLog)
  nodup : (report.players.map Summary.player).Nodup
  players : ∀ player, player ∈ report.players.map Summary.player ↔
    player ∈ report.moves.map Entry.player
  totals : ∀ s ∈ report.players,
    s.scored = ((entriesOf report.moves s.player).map Entry.score).sum ∧
      s.missed = ((entriesOf report.moves s.player).map Entry.lost).sum ∧
      s.missed = s.possible - s.scored

/-- The turns of a traced log are the moves that the analysis takes for turns. -/
theorem turnsOf_eq {g₀ : Game} {l : List Input} (h : Game.Traced g₀ l g) :
    turnsOf g.moveLog = g.moveLog.zipIdx.filter fun t => isTurn t.1.stored t.1.details := by
  refine List.filter_congr fun t ht => ?_
  obtain hreject | ⟨l₁, rack, -, -, hmade⟩ :=
    h.turns t.2 t.1 (List.mem_zipIdx_iff_getElem?.mp ht)
  · rw [isTurn_of_rejected hreject]
    simp [hreject]
  · rw [isTurn_of_madeIn hmade, decide_eq_true_eq]
    intro hreject
    exact absurd ((isTurn_of_rejected hreject).symm.trans (isTurn_of_madeIn hmade))
      Bool.false_ne_true

/-- **The analysis judges every turn in the position it was played in**, for a game played by any
operations but the removal of a player, restarts included, with its log stored and read back. -/
theorem analysis_judges (lex : Lexicon) (vocab : Vocabulary) {g₀ : Game} (h₀ : Game.Initial g₀)
    {l : List Input} (hl : ∀ i ∈ l, ∀ playerId, i.2 ≠ .removePlayer playerId) (id : ℕ)
    (stateJson : Json) (active : Bool) :
    Judges lex g₀ l (analyzeGame lex vocab (Persisting.Db.getGameMoves
      ⟨id, stateJson, active, (Runs.run Game.playOn g₀ l).moveLog.map MoveLog.stored⟩)) := by
  have htraced := Game.traced_run h₀ l hl
  rw [getGameMoves_stored htraced.steady.logged]
  have hplayers := players_summarize (analyzeMoves lex vocab Board.new
    ((Runs.run Game.playOn g₀ l).moveLog.map MoveLog.stored))
  refine ⟨?_, hplayers.1, hplayers.2,
    fun s hs => totals_of_mem_summarize (fun e he => lost_of_mem_analyzeMoves he) hs⟩
  rw [turnsOf_eq htraced]
  refine forall₂_analyzeMoves htraced.steady.logged.sound (fun k m hm hturn => ?_) [] rfl
  obtain hreject | ⟨l₁, rack, hl₁, htake, hmade⟩ := htraced.turns k m hm
  · exact absurd ((isTurn_of_rejected hreject).symm.trans hturn) Bool.false_ne_true
  refine ⟨l₁, rack, hl₁, htake, hmade, ?_⟩
  -- the board of the entries before the turn is that of its position
  have hboard := (Game.traced_run h₀ l₁ fun i hi => hl i (hl₁.subset hi)).steady.latest
  rw [htake] at hboard
  rw [← hboard]
  exact judged_analyzeTurn hmade

/-- A duel with its opening accepted, a restart and a pass. -/
def votedDuel : List Input :=
  [(Game.stillEnv, .addPlayer "a" "Anna"), (Game.stillEnv, .addPlayer "b" "Béla"),
    (Game.stillEnv, .start), (Game.stillEnv, .placeTiles "a" Game.duelOpening),
    (Game.stillEnv, .acceptPendingByPlayer "b"), (Game.stillEnv, .saveRestore),
    (Game.stillEnv, .passTurn "b" false)]

theorem analysis_judges_votedDuel :
    let g₀ := Game.new Game.stillEnv "duel" true 0 3
    Judges Lexicon.unavailable g₀ votedDuel (analyzeGame Lexicon.unavailable ⟨[], .nil⟩
      (Persisting.Db.getGameMoves
        ⟨1, .null, true, (Runs.run Game.playOn g₀ votedDuel).moveLog.map MoveLog.stored⟩)) :=
  analysis_judges Lexicon.unavailable ⟨[], .nil⟩ (.inl ⟨_, _, _, _, _, rfl⟩) (by simp [votedDuel])
    1 .null true

/-! ## A placement that scores nothing -/

/-- The shuffle that turns the order around, with the blanks at the end of the bag. -/
def turnedShuffle : Shuffle := ⟨List.reverse, fun l => List.reverse_perm l⟩

/-- A server without a dictionary. -/
def turnedEnv : Env := ⟨0, Lexicon.unavailable, turnedShuffle⟩

def noWords : Vocabulary := ⟨[], .nil⟩

/-- The two blanks as `CS` and `Ő` on the centre. -/
def blankOpening : List Placed := Game.duelOpening.map fun p => { p with isBlank := true }

def blankRun : List Input :=
  [(turnedEnv, .addPlayer "a" "Anna"), (turnedEnv, .addPlayer "b" "Béla"), (turnedEnv, .start),
    (turnedEnv, .placeTiles "a" blankOpening)]

/-- No game accepts a placement without tiles. -/
theorem placeTiles_nil (env : Env) (g : Game) (playerId : String) :
    ∃ error, (g.placeTiles env playerId []).2 = .error error := by
  obtain ⟨error, h⟩ | ⟨formed, h⟩ := Game.placeTiles_cases env g playerId []
  · exact ⟨error, by rw [h]⟩
  · exact absurd h.valid (by simp [Board.validatePlacement])

/-- **A placement that scored nothing**: two blanks open the game, and a search that knows no words
finds nothing. The best move of the turn is neither the one played nor a placement. -/
theorem best_of_scoreless_opening :
    let run := Runs.run Game.playOn (Game.new turnedEnv "duel" false 0 3)
    let log := (run blankRun).moveLog
    let report := analyzeGame Lexicon.unavailable noWords
      (Persisting.Db.getGameMoves ⟨1, .null, true, log.map MoveLog.stored⟩)
    ¬List.Forall₂
      (fun e t => ∃ l₁, l₁ <+: blankRun ∧ (run l₁).moveLog = log.take t.2 ∧
        (e.IsPlayed t.1 ∨ e.IsAccepted Lexicon.unavailable (run l₁)))
      report.moves (turnsOf log) := by
  intro run log report h
  have hbest : report.moves.map (fun e => e.bestTiles.asArray.map List.length) = [some 0] := by
    decide +kernel
  have hplayed : (turnsOf log).map (fun t => (playedTiles t.1).asArray.map List.length) =
      [some 2] := by
    decide +kernel
  obtain ⟨e, hmoves, hnone⟩ := List.map_eq_singleton_iff.mp hbest
  obtain ⟨t, hturns, htwo⟩ := List.map_eq_singleton_iff.mp hplayed
  rw [hmoves, hturns, List.forall₂_cons] at h
  obtain ⟨⟨l₁, -, -, hsame | ⟨tiles, htiles, haccepted⟩⟩, -⟩ := h
  · rw [hsame.tiles, htwo] at hnone
    cases hnone
  · rw [htiles] at hnone
    obtain rfl : tiles = [] := by simpa using hnone
    obtain ⟨message, hok⟩ := haccepted turnedEnv rfl
    obtain ⟨error, hrefused⟩ := placeTiles_nil turnedEnv (run l₁)
      ((run l₁).playerAt (run l₁).currentPlayerIdx).id
    rw [hrefused] at hok
    cases hok

end ScrabbleMagyar.Analysis
