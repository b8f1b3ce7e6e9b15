import ScrabbleMagyar.Engine.Coherence

/-!
# The move log as a ledger

The move log is what the analysis, the statistics and the replay of a finished game are made
from. Its entries are numbered, replaying the tiles they record gives the boards they record,
and the scores they record are those of the players (`Ledger`).

The scores are stated for a name: what is logged under it is what the seats of that name have
together. With distinct names this is the score of one player (`Ledger.score_eq`).
-/

namespace ScrabbleMagyar

/-! ## Replaying a log -/

/-- A placed tile read back from a log entry. -/
def Placed.ofJson (j : Json) : Option Placed :=
  (j.field "row").asInt.bind fun row =>
    (j.field "col").asInt.bind fun col =>
      (j.field "letter").asStr.bind fun text =>
        (Tile.fromStr text.toList).map fun letter =>
          { row, col, letter, isBlank := truthy (j.field "is_blank") }

theorem Placed.ofJson_toJson (p : Placed) : Placed.ofJson p.toJson = some p := by
  simp only [ofJson, toJson, Json.field, Json.get?_obj_cons, String.reduceEq, if_true, if_false]
  simp [Tile.fromStr_asStr]

namespace MoveLog

/-- The tiles an entry records. -/
def tiles (m : MoveLog) : List Placed :=
  (((m.details.get? "tiles").bind Json.asArray).getD []).filterMap Placed.ofJson

/-- The entries that lay tiles. -/
def isPlacement (m : MoveLog) : Bool :=
  m.actionType == "place" || m.actionType == "challenge_accept"

/-- The board after an entry, from the tiles it records. -/
def replayOn (b : Board) (m : MoveLog) : Board :=
  if m.isPlacement then b.applyPlacement m.tiles else b

end MoveLog

/-- The board that the entries of a log lay out, from the empty board. -/
def replay (log : List MoveLog) : Board := log.foldl MoveLog.replayOn Board.new

theorem replay_append_singleton (log : List MoveLog) (m : MoveLog) :
    replay (log ++ [m]) = m.replayOn (replay log) := by
  simp [replay]

/-- What is logged under a name. -/
def loggedScore (log : List MoveLog) (name : String) : ℤ :=
  (log.map fun m => if m.playerName = name then m.score else 0).sum

/-- What the seats of a name have. -/
def seatScore (players : List Player) (name : String) : ℤ :=
  (players.map fun p => if p.name = name then p.score else 0).sum

theorem loggedScore_append_singleton (log : List MoveLog) (m : MoveLog) (name : String) :
    loggedScore (log ++ [m]) name =
      loggedScore log name + if m.playerName = name then m.score else 0 := by
  simp [loggedScore]

/-- With distinct names, a name has the score of its player. -/
theorem seatScore_eq {players : List Player} (h : (players.map Player.name).Nodup) {p : Player}
    (hp : p ∈ players) : seatScore players p.name = p.score := by
  induction players with
  | nil => simp at hp
  | cons q rest ih =>
    obtain ⟨hq, hrest⟩ := List.nodup_cons.mp (by simpa only [List.map_cons] using h)
    simp only [seatScore, List.map_cons, List.sum_cons]
    obtain rfl | hp := List.mem_cons.mp hp
    · have hzero : ∀ x ∈ rest.map fun r => if r.name = p.name then r.score else 0, x = 0 := by
        intro x hx
        obtain ⟨r, hr, rfl⟩ := List.mem_map.mp hx
        refine if_neg fun hname => hq ?_
        rw [← hname]
        exact List.mem_map_of_mem hr
      rw [if_pos rfl, List.sum_eq_zero hzero, add_zero]
    · have hne : q.name ≠ p.name := fun hname => hq (by
        rw [hname]
        exact List.mem_map_of_mem hp)
      rw [if_neg hne, zero_add]
      exact ih hrest hp

namespace Game

/-! ## What an entry says -/

section Details

variable (tiles : List Placed) (formed : List FormedWord) (score : ℤ) (rack : List Tile)

/-- The score of an entry. -/
theorem get?_score_moveDetails (tiles : Option (List Placed)) (formed : Option (List FormedWord))
    (rack : Option (List Tile)) :
    ((moveDetails tiles formed score rack).get? "score").bind Json.asInt = some score := by
  cases rack <;> cases htiles : tiles.filter (fun t => !t.isEmpty) <;>
    cases hformed : formed.filter (fun f => !f.isEmpty) <;>
    simp [moveDetails, htiles, hformed, Json.get?_obj_cons]

/-- The tiles of the entry of a placement. -/
theorem tiles_moveDetails (m : MoveLog)
    (h : m.details = moveDetails (some tiles) (some formed) score (some rack)) :
    m.tiles = tiles := by
  have hread : (tiles.map Placed.toJson).filterMap Placed.ofJson = tiles := by
    simp [List.filterMap_map, Placed.ofJson_toJson]
  cases tiles with
  | nil =>
    cases formed <;> simp [MoveLog.tiles, h, moveDetails, Json.get?_obj_cons, Option.filter]
  | cons p rest =>
    simp only [MoveLog.tiles, h, moveDetails]
    simpa [Json.get?_obj_cons, Option.filter] using hread

end Details

/-! ## The invariant -/

/-- **The log is a faithful ledger.** -/
structure Ledger (g : Game) : Prop where
  numbered : g.moveLog.map MoveLog.moveNumber =
    (List.range g.moveLog.length).map fun i : ℕ => (i : ℤ) + 1
  snapshots : ∀ i (h : i < g.moveLog.length), g.moveLog[i].board = replay (g.moveLog.take (i + 1))
  current : g.board = replay g.moveLog
  idle : ∀ m ∈ g.moveLog, m.isPlacement = false → m.score = 0
  scores : g.finished = false → ∀ name, loggedScore g.moveLog name = seatScore g.players name

variable {env : Env} {g : Game}

theorem Ledger.score_eq (h : Ledger g) (hnames : (g.players.map Player.name).Nodup)
    (hfin : g.finished = false) {p : Player} (hp : p ∈ g.players) :
    loggedScore g.moveLog p.name = p.score := by
  rw [h.scores hfin, seatScore_eq hnames hp]

/-- The ledger is about the log, the board and the scores. -/
theorem Ledger.congr {g' : Game} (h : Ledger g) (hlog : g'.moveLog = g.moveLog)
    (hboard : g'.board = g.board)
    (hscores : g'.finished = false → g.finished = false ∧
      g'.players.map (fun p => (p.name, p.score)) = g.players.map fun p => (p.name, p.score)) :
    Ledger g' := by
  refine ⟨by rw [hlog]; exact h.numbered, fun i hi => ?_, by rw [hboard, hlog]; exact h.current,
    by rw [hlog]; exact h.idle, fun hfin name => ?_⟩
  · simp only [hlog] at hi ⊢
    exact h.snapshots i hi
  · obtain ⟨hfin, hmap⟩ := hscores hfin
    have hseat := congrArg (fun l => (l.map fun e : String × ℤ =>
      if e.1 = name then e.2 else 0).sum) hmap
    rw [hlog, h.scores hfin]
    simpa [seatScore, Function.comp_def] using hseat.symm

/-- A new entry keeps the ledger when it records the board as it is laid and what the seats
gain. -/
theorem Ledger.record {g' : Game} (h : Ledger g) {m : MoveLog}
    (hlog : g'.moveLog = g.moveLog ++ [m]) (hnumber : m.moveNumber = g.moveLog.length + 1)
    (hboard : g'.board = m.replayOn g.board) (hsnapshot : m.board = g'.board)
    (hidle : m.isPlacement = false → m.score = 0)
    (hscores : g'.finished = false → g.finished = false ∧
      ∀ name, seatScore g'.players name =
        seatScore g.players name + if m.playerName = name then m.score else 0) :
    Ledger g' := by
  have hcurrent : g'.board = replay g'.moveLog := by
    rw [hlog, replay_append_singleton, ← h.current, hboard]
  refine ⟨?_, fun i hi => ?_, hcurrent, fun m' hm' => ?_, fun hfin name => ?_⟩
  · rw [hlog, List.map_append, h.numbered, List.length_append, List.length_singleton,
      List.range_succ, List.map_append]
    simp [hnumber]
  · simp only [hlog, List.length_append, List.length_singleton] at hi ⊢
    by_cases hlast : i = g.moveLog.length
    · subst hlast
      rw [List.getElem_concat_length rfl, hsnapshot, hcurrent, hlog,
        List.take_of_length_le (by simp)]
    · have hi' : i < g.moveLog.length := by omega
      rw [List.getElem_append_left hi', List.take_append_of_le_length (by omega)]
      exact h.snapshots i hi'
  · rw [hlog] at hm'
    obtain hm' | hm' := List.mem_append.mp hm'
    · exact h.idle m' hm'
    · rw [List.mem_singleton.mp hm']
      exact hidle
  · obtain ⟨hfin, hseat⟩ := hscores hfin
    rw [hlog, loggedScore_append_singleton, h.scores hfin, hseat]

/-- The score of a name when one seat gains. -/
theorem seatScore_modify {players : List Player} {idx : ℕ} {f : Player → Player} {gain : ℤ}
    (hidx : idx < players.length) (hname : ∀ p, (f p).name = p.name)
    (hscore : ∀ p, (f p).score = p.score + gain) (name : String) :
    seatScore (players.modify idx f) name =
      seatScore players name +
        if (players.getD idx default).name = name then gain else 0 := by
  have hsum := Lists.sum_map_modify f (fun p : Player => if p.name = name then p.score else 0)
    hidx default
  simp only [seatScore, hname, hscore] at hsum ⊢
  split_ifs at hsum ⊢ <;> omega

/-- An entry that lays nothing and scores nothing keeps the ledger. -/
theorem Ledger.record_idle {g' : Game} (h : Ledger g) {m : MoveLog} (rack : Option (List Tile))
    (hlog : g'.moveLog = g.moveLog ++ [m]) (hnumber : m.moveNumber = g.moveLog.length + 1)
    (hkind : m.isPlacement = false) (hdetails : m.details = moveDetails none none 0 rack)
    (hboard : g'.board = g.board) (hsnapshot : m.board = g.board)
    (hscores : g'.finished = false → g.finished = false ∧
      g'.players.map (fun p => (p.name, p.score)) = g.players.map fun p => (p.name, p.score)) :
    Ledger g' := by
  have hscore : m.score = 0 := by
    rw [MoveLog.score, hdetails, get?_score_moveDetails]
    rfl
  refine h.record hlog hnumber ?_ (hsnapshot.trans hboard.symm) (fun _ => hscore) fun hfin => ?_
  · simp [MoveLog.replayOn, hkind, hboard]
  · obtain ⟨hfin, hmap⟩ := hscores hfin
    refine ⟨hfin, fun name => ?_⟩
    have hseat := congrArg (fun l => (l.map fun e : String × ℤ =>
      if e.1 = name then e.2 else 0).sum) hmap
    simpa [seatScore, Function.comp_def, hscore] using hseat

/-- Closing a turn keeps the ledger. -/
theorem Ledger.settles {g' : Game} (h : Ledger g) (hs : Settles env g g') : Ledger g' := by
  refine h.congr hs.keeps.2.2.1 hs.keeps.1 ?_
  cases hs with
  | gameOver finisher => simp
  | solved idx score words => exact fun hfin => absurd hfin (by simp [finishPuzzle, setLastAction])
  | next => exact fun hfin => ⟨by simpa using hfin, nextTurn_map env g fun _ _ => rfl⟩
  | stay => exact fun hfin => ⟨hfin, rfl⟩

theorem ledger_of_initial (h : Initial g) : Ledger g := by
  obtain ⟨env, gameId, challengeMode, turnTimeLimit, hintLimit, rfl⟩ | ⟨env, gameId, turnHours, rfl⟩ :=
    h <;>
  exact ⟨rfl, fun i hi => absurd hi (Nat.not_lt_zero i), rfl,
    fun m hm => absurd hm (by simp [new, newAsync]),
    fun _ _ => rfl⟩

/-- The entry of a placement keeps the ledger when it names the player who gains. -/
theorem Ledger.record_placement {g' : Game} (h : Ledger g) {m : MoveLog} {tiles : List Placed}
    {formed : List FormedWord} {score : ℤ} {rack : List Tile} {idx : ℕ} {f : Player → Player}
    (hseat : idx < g.players.length) (hlog : g'.moveLog = g.moveLog ++ [m])
    (hnumber : m.moveNumber = g.moveLog.length + 1) (hkind : m.isPlacement = true)
    (hdetails : m.details = moveDetails (some tiles) (some formed) score (some rack))
    (hplayer : m.playerName = (g.playerAt idx).name)
    (hboard : g'.board = g.board.applyPlacement tiles) (hsnapshot : m.board = g'.board)
    (hfinished : g'.finished = g.finished) (hplayers : g'.players = g.players.modify idx f)
    (hname : ∀ p, (f p).name = p.name) (hscore : ∀ p, (f p).score = p.score + score) :
    Ledger g' := by
  have hgain : m.score = score := by
    rw [MoveLog.score, hdetails, get?_score_moveDetails]
    rfl
  refine h.record hlog hnumber ?_ hsnapshot (by simp [hkind])
    fun hfin => ⟨hfinished ▸ hfin, fun name => ?_⟩
  · rw [MoveLog.replayOn, if_pos hkind, tiles_moveDetails _ _ _ _ _ hdetails, hboard]
  · rw [hplayers, seatScore_modify hseat hname hscore, hgain, hplayer]
    rfl

/-- A placement laid at once is entered with its tiles and its score. -/
theorem Ledger.layTiles (h : Ledger g) (hseat : g.currentPlayerIdx < g.players.length)
    (tiles : List Placed) (score : ℤ) (words : List Word) (formed : List FormedWord) :
    Ledger (g.layTiles tiles score words formed) :=
  h.record_placement hseat (layTiles_moveLog g tiles score words formed) rfl rfl rfl rfl rfl rfl rfl
    (layTiles_players g tiles score words formed) (fun _ => rfl) fun _ => rfl

/-- So is a placement that was voted on. -/
theorem Ledger.layPending (h : Ledger g) {pc : Challenge} (hseat : pc.playerIdx < g.players.length) :
    Ledger (g.layPending pc) :=
  h.record_placement hseat (layPending_moveLog g pc) rfl rfl rfl rfl rfl rfl rfl
    (layPending_players g pc) (fun _ => rfl) fun _ => rfl

theorem Ledger.turnDown (h : Ledger g) (pc : Challenge) : Ledger (g.turnDown pc) :=
  h.record_idle none (turnDown_moveLog g pc) rfl rfl rfl rfl rfl fun hfin => ⟨hfin,
    Lists.map_modify_eq (f := fun p : Player => { p with hand := p.hand ++ pc.removedFromHand })
      (fun _ => rfl) g.players pc.playerIdx⟩

theorem Ledger.swapTiles (h : Ledger g) (tileIndices : List ℤ) :
    Ledger (g.swapTiles env tileIndices) := by
  refine h.record_idle (some (g.playerAt g.currentPlayerIdx).hand)
    (swapTiles_moveLog env g tileIndices) rfl rfl rfl rfl rfl fun hfin => ⟨hfin, ?_⟩
  rw [swapTiles_players]
  exact Lists.map_modify_eq (f := g.swapped tileIndices) (fun _ => rfl) _ _

theorem Ledger.notePass (h : Ledger g) (timeout : Bool) : Ledger (g.notePass timeout) := by
  refine h.record_idle (some (g.playerAt g.currentPlayerIdx).hand)
    (notePass_moveLog g timeout) rfl rfl rfl (by cases timeout <;> rfl) rfl
    fun hfin => ⟨by cases timeout <;> exact hfin, ?_⟩
  rw [notePass_players]
  exact Lists.map_modify_eq (f := passed timeout) (fun _ => rfl) _ _

theorem Ledger.bumped (h : Ledger g) : Ledger g.bumped :=
  ⟨h.numbered, h.snapshots, h.current, h.idle, h.scores⟩

/-- A new player joins without a score. -/
theorem Ledger.join (h : Ledger g) (seq : ℕ) {p : Player} (hp : p.score = 0) :
    Ledger { g with botSeq := seq, players := g.players ++ [p] } := by
  refine ⟨h.numbered, h.snapshots, h.current, h.idle, fun hfin name => ?_⟩
  simp [h.scores hfin, seatScore, hp]

/-- A game that is over keeps its log and its board. -/
theorem Ledger.gameOver {g' : Game} (h : Ledger g) (hlog : g'.moveLog = g.moveLog)
    (hboard : g'.board = g.board) (hover : g'.finished = true) : Ledger g' :=
  h.congr hlog hboard fun hfin => absurd (hover.symm.trans hfin) (by simp)

/-- Every operation of a game keeps the ledger, as long as no seat is taken out of the game. A
restored game starts a log of its own. -/
theorem Ledger.effect {g' : Game} {op : Op} (h : Ledger g)
    (hsound : ∀ pc, g.pendingChallenge = some pc → pc.playerIdx < g.players.length)
    (he : Effect env g op g') (hremove : ∀ playerId, op ≠ .removePlayer playerId)
    (hrestore : op ≠ .saveRestore) : Ledger g' := by
  cases he with
  | refused => exact h
  | joined playerId name => exact h.join g.botSeq rfl
  | botJoined name difficulty seq => exact h.join seq rfl
  | dealt => exact h.congr rfl rfl fun hfin => ⟨hfin, deal_map (fun _ _ => rfl) _ _⟩
  | dealtAt => exact h.congr rfl rfl fun hfin => ⟨hfin, deal_map (fun _ _ => rfl) _ _⟩
  | placed playerId tiles formed may =>
    exact (h.layTiles may.seat tiles _ _ formed).settles (finalizePlacement_settles env g _ _ _ _)
  | proposed playerId tiles formed =>
    exact h.congr rfl rfl fun hfin => ⟨hfin, Lists.map_modify_eq
      (f := fun p : Player => { p with hand := (removeTilesFromHand p.hand tiles).1 })
      (fun _ => rfl) g.players g.currentPlayerIdx⟩
  | voted => exact h.congr rfl rfl fun hfin => ⟨hfin, rfl⟩
  | accepted op pc pending =>
    exact (h.layPending (hsound pc pending)).settles (closeTurn_settles env _ _)
  | rejected op pc pending =>
    exact (h.turnDown pc).bumped.settles (finalizeReject_settles env g pending)
  | withdrawn playerId pc =>
    exact h.congr rfl rfl fun hfin => ⟨hfin, Lists.map_modify_eq
      (f := fun p : Player => { p with hand := p.hand ++ pc.removedFromHand })
      (fun _ => rfl) g.players pc.playerIdx⟩
  | exchanged playerId tileIndices =>
    exact (h.swapTiles tileIndices).bumped.settles (scorelessNextTurn_settles env _)
  | passed playerId timeout =>
    exact (h.notePass timeout).bumped.settles (scorelessNextTurn_settles env _)
  | expired => exact (h.notePass true).bumped.settles (scorelessNextTurn_settles env _)
  | expelled idx =>
    have hnext : Ledger ((g.notePass true).bumped.nextTurn env) :=
      (h.notePass true).bumped.settles .next
    exact hnext.gameOver (by rw [resignSeat_rest]) (by rw [resignSeat_rest]) (by rw [resignSeat_rest])
  | resigned playerId idx =>
    exact h.gameOver (by rw [resignSeat_rest]) (by rw [resignSeat_rest]) (by rw [resignSeat_rest])
  | ended =>
    refine h.gameOver ?_ ?_ (endGame_finished _ _)
    · rw [endGame_moveLog, unwindPending]
      split <;> rfl
    · rw [endGame_board, unwindPending]
      split <;> rfl
  | hinted => exact h.congr rfl rfl fun hfin => ⟨hfin, rfl⟩
  | disconnected playerId idx =>
    exact h.congr rfl rfl fun hfin => ⟨hfin, Lists.map_modify_eq
      (f := fun p : Player => { p with disconnected := true }) (fun _ => rfl) g.players idx⟩
  | reconnected oldId newId idx =>
    exact h.congr rfl rfl fun hfin => ⟨hfin,
      Lists.map_modify_eq (f := Player.reconnect newId) (fun _ => rfl) g.players idx⟩
  | removed playerId => exact absurd rfl (hremove playerId)
  | skipped => exact h.settles .next
  | restored => exact absurd rfl hrestore

/-- **The log is a faithful ledger** in every run without a removed player or a restart: its
entries are numbered from 1, replaying its placements gives the board every entry records and in
the end the board itself, entries of other kinds score nothing, and until the game is over each
player has what is logged under the player's name. -/
theorem run_ledger {g₀ : Game} (h₀ : Initial g₀) {l : List Input}
    (hl : ∀ i ∈ l, (∀ playerId, i.2 ≠ .removePlayer playerId) ∧ i.2 ≠ .saveRestore)
    (hnames : ((Runs.run step g₀ l).players.map Player.name).Nodup) :
    let g := Runs.run step g₀ l
    g.moveLog.map MoveLog.moveNumber = ((List.range g.moveLog.length).map fun i : ℕ => (i : ℤ) + 1) ∧
      (∀ i (h : i < g.moveLog.length), g.moveLog[i].board = replay (g.moveLog.take (i + 1))) ∧
      g.board = replay g.moveLog ∧
      (∀ m ∈ g.moveLog, m.isPlacement = false → m.score = 0) ∧
      (g.finished = false → ∀ p ∈ g.players, loggedScore g.moveLog p.name = p.score) := by
  have hrun := Runs.run_invariant step (P := fun s => Ledger s ∧ PendingSound s)
    (fun s i ⟨hledger, hsound⟩ ⟨hremove, hrestore⟩ =>
      ⟨hledger.effect (fun pc hpc => (hsound pc hpc).seat) (step_effect i.1 s i.2) hremove hrestore,
        hsound.step i⟩)
    ⟨ledger_of_initial h₀, pendingSound_of_initial h₀⟩
    (Runs.along_of_forall step (fun i hi _ => hl i hi) g₀)
  exact ⟨hrun.1.numbered, hrun.1.snapshots, hrun.1.current, hrun.1.idle,
    fun hfin p hp => hrun.1.score_eq hnames hfin hp⟩

/-- A duel up to the acceptance of its opening. -/
theorem run_ledger_duel :
    let g := Runs.run step (new stillEnv "duel" true 0 3)
      [(stillEnv, .addPlayer "a" "Anna"), (stillEnv, .addPlayer "b" "Béla"), (stillEnv, .start),
        (stillEnv, .placeTiles "a" duelOpening), (stillEnv, .acceptPendingByPlayer "b")]
    g.moveLog.map MoveLog.moveNumber = ((List.range g.moveLog.length).map fun i : ℕ => (i : ℤ) + 1) ∧
      (∀ i (h : i < g.moveLog.length), g.moveLog[i].board = replay (g.moveLog.take (i + 1))) ∧
      g.board = replay g.moveLog ∧
      (∀ m ∈ g.moveLog, m.isPlacement = false → m.score = 0) ∧
      (g.finished = false → ∀ p ∈ g.players, loggedScore g.moveLog p.name = p.score) :=
  run_ledger (.inl ⟨_, _, _, _, _, rfl⟩) (by simp) (by decide +kernel)

end Game

end ScrabbleMagyar
