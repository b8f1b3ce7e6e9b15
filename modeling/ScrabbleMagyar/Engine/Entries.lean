import ScrabbleMagyar.Engine.FormedWords
import ScrabbleMagyar.Engine.Growth
import ScrabbleMagyar.Engine.Shape

/-!
# The entries of the move log and their stored form

What a turn enters in the log (`Entry`), from the game before it: each operation adds one such entry
or none (`Effect.entry`). An entry is stored as a row of its own and reads back as it was
(`fromStored_stored`).
-/

namespace ScrabbleMagyar

/-! ## Stored entries -/

/-- A row of the stored moves; a text that is not JSON counts as absent. -/
structure StoredMove where
  moveNumber : ℤ
  playerName : String
  actionType : String
  detailsJson : Option Json
  boardSnapshotJson : Option Json

theorem Board.fromJson_toJson {b : Board} (h : b.WellFormed) : fromJson b.toJson = b := by
  have hcells := cells_fromJson_toJson b
  refine ext_cell (fun s => by simp only [cell, hcells]) ?_
  have hflag : (fromJson b.toJson).isEmpty = true ↔ ∀ r c, ((fromJson b.toJson).cells r c).isNone := by
    simp [fromJson, toJson, Json.asArray_arr]
  rw [Bool.eq_iff_iff, hflag, h.flag, hcells]
  constructor
  · intro hfree s hocc
    obtain ⟨hr, hc⟩ := occupied_lt hocc
    have hnone := hfree ⟨s.1, hr⟩ ⟨s.2, hc⟩
    simp [Occupied, cell, hr, hc, Option.isNone_iff_eq_none.mp hnone] at hocc
  · intro hfree r c
    have hnone := hfree (r.val, c.val)
    simpa [Occupied, cell] using hnone

namespace MoveLog

def stored (m : MoveLog) : StoredMove :=
  ⟨m.moveNumber, m.playerName, m.actionType, some m.details, some m.board.toJson⟩

/-- An entry as it is read from its row. -/
def fromStored (row : StoredMove) : MoveLog :=
  { moveNumber := row.moveNumber
    playerName := row.playerName
    actionType := row.actionType
    details := (row.detailsJson.filter Json.isObj).getD (.obj [])
    board := (row.boardSnapshotJson.map Board.fromJson).getD Board.new }

/-- An entry whose details are fields and whose board is in shape. -/
structure Sound (m : MoveLog) : Prop where
  details : m.details.isObj = true
  board : m.board.WellFormed

theorem fromStored_stored {m : MoveLog} (h : m.Sound) : fromStored m.stored = m := by
  obtain ⟨number, name, kind, details, board⟩ := m
  have hdetails : details.isObj = true := h.details
  simp [fromStored, stored, Option.filter, hdetails, Board.fromJson_toJson h.board]

theorem map_fromStored_stored {log : List MoveLog} (h : ∀ m ∈ log, m.Sound) :
    (log.map stored).map fromStored = log := by
  rw [List.map_map]
  exact (List.map_congr_left fun m hm => fromStored_stored (h m hm)).trans (List.map_id log)

end MoveLog

namespace Game

/-! ## What a turn enters -/

/-- **The entry of a turn**, from the game before it. -/
inductive Entry (lex : Lexicon) (g : Game) : MoveLog → Prop
  | place (playerId : String) (tiles : List Placed) (formed : List FormedWord)
      (may : Placeable lex g playerId tiles formed)
      (novote : g.challengeApplies g.currentPlayerIdx = false) :
      Entry lex g
        { moveNumber := g.moveLog.length + 1
          playerName := (g.playerAt g.currentPlayerIdx).name
          actionType := "place"
          details := moveDetails (some tiles) (some formed) (lerakasTotal formed tiles.length)
            (some (g.playerAt g.currentPlayerIdx).hand)
          board := g.board.applyPlacement tiles }
  | accept (pc : Challenge) (pending : g.pendingChallenge = some pc) :
      Entry lex g
        { moveNumber := g.moveLog.length + 1
          playerName := (g.playerAt pc.playerIdx).name
          actionType := "challenge_accept"
          details := moveDetails (some pc.tilesPlaced) (some pc.formedWords) pc.score
            (some ((g.playerAt pc.playerIdx).hand ++ pc.removedFromHand))
          board := g.board.applyPlacement pc.tilesPlaced }
  | reject (pc : Challenge) (pending : g.pendingChallenge = some pc) :
      Entry lex g
        { moveNumber := g.moveLog.length + 1
          playerName := (g.playerAt pc.playerIdx).name
          actionType := "challenge_reject"
          details := moveDetails none none 0 none
          board := g.board }
  | exchange (playerId : String) (may : MayAct g playerId) :
      Entry lex g
        { moveNumber := g.moveLog.length + 1
          playerName := (g.playerAt g.currentPlayerIdx).name
          actionType := "exchange"
          details := moveDetails none none 0 (some (g.playerAt g.currentPlayerIdx).hand)
          board := g.board }
  | pass (playerId : String) (may : MayAct g playerId) :
      Entry lex g
        { moveNumber := g.moveLog.length + 1
          playerName := (g.playerAt g.currentPlayerIdx).name
          actionType := "pass"
          details := moveDetails none none 0 (some (g.playerAt g.currentPlayerIdx).hand)
          board := g.board }

/-- What an operation has entered. -/
structure Enters (lex : Lexicon) (g g' : Game) (m : MoveLog) : Prop where
  log : g'.moveLog = g.moveLog ++ [m]
  entry : Entry lex g m
  snapshot : m.board = g'.board

variable {env : Env} {g g' : Game}

theorem Entry.moveNumber {lex : Lexicon} {m : MoveLog} (h : Entry lex g m) :
    m.moveNumber = g.moveLog.length + 1 := by
  cases h <;> rfl

theorem Entry.isObj {lex : Lexicon} {m : MoveLog} (h : Entry lex g m) : m.details.isObj = true := by
  cases h <;> rfl

theorem turnDown_name (pc : Challenge) :
    ((g.turnDown pc).playerAt pc.playerIdx).name = (g.playerAt pc.playerIdx).name :=
  playerAt_congr (h := Player.name) (Lists.map_modify_eq
    (f := fun p : Player => { p with hand := p.hand ++ pc.removedFromHand })
    (fun _ => rfl) g.players pc.playerIdx) pc.playerIdx

theorem Enters.settles {lex : Lexicon} {m : MoveLog} (g₁ : Game)
    (hlog : g₁.moveLog = g.moveLog ++ [m]) (hentry : Entry lex g m) (hboard : m.board = g₁.board)
    (h : Settles env g₁ g') : Enters lex g g' m :=
  ⟨h.keeps.2.2.1.trans hlog, hentry, hboard.trans h.keeps.1.symm⟩

theorem Enters.noted (g' : Game) {playerId : String} (may : MayAct g playerId) (timeout : Bool)
    (h : Settles env (g.notePass timeout).bumped g') :
    ∃ m, Enters env.lexicon g g' m :=
  ⟨_, .settles (g.notePass timeout).bumped (notePass_moveLog g timeout)
    (.pass playerId may) (by cases timeout <;> rfl) h⟩

/-- **An operation enters one turn in the log or none**, and then leaves the board alone. -/
theorem Effect.entry {op : Op} (he : Effect env g op g') (hop : op ≠ .saveRestore) :
    g'.moveLog = g.moveLog ∧ g'.board = g.board ∨ ∃ m, Enters env.lexicon g g' m := by
  cases he with
  | placed playerId tiles formed may novote =>
    exact .inr ⟨_, .settles _ (layTiles_moveLog g tiles _ _ formed)
      (.place playerId tiles formed may novote) rfl (finalizePlacement_settles env g _ _ _ _)⟩
  | accepted op pc pending =>
    exact .inr ⟨_, .settles _ (layPending_moveLog g pc) (.accept pc pending) rfl
      (closeTurn_settles env _ _)⟩
  | rejected op pc pending =>
    have hlog := turnDown_moveLog g pc
    rw [turnDown_name] at hlog
    exact .inr ⟨_, .settles (g.turnDown pc).bumped hlog (.reject pc pending) rfl
      (finalizeReject_settles env g pending)⟩
  | exchanged playerId tileIndices may =>
    exact .inr ⟨_, .settles (g.swapTiles env tileIndices).bumped
      (swapTiles_moveLog env g tileIndices) (.exchange playerId may) rfl
      (scorelessNextTurn_settles env _)⟩
  | passed playerId timeout may =>
    exact .inr (Enters.noted _ may timeout (scorelessNextTurn_settles env _))
  | expired may =>
    obtain ⟨playerId, may⟩ := may
    exact .inr (Enters.noted _ may true (scorelessNextTurn_settles env _))
  | expelled idx may =>
    obtain ⟨playerId, may⟩ := may
    obtain ⟨m, hlog, hentry, hboard⟩ :=
      Enters.noted ((g.notePass true).bumped.nextTurn env) may true .next
    refine .inr ⟨m, ?_, hentry, ?_⟩ <;> rw [resignSeat_rest] <;> assumption
  | resigned playerId idx =>
    rw [resignSeat_rest]
    exact .inl ⟨rfl, rfl⟩
  | ended =>
    rw [endGame_moveLog, endGame_board, unwindPending]
    split <;> exact .inl ⟨rfl, rfl⟩
  | removed playerId idx =>
    simp only [removeSeat]
    split <;> exact .inl ⟨rfl, rfl⟩
  | skipped => exact .inl ⟨nextTurn_moveLog env g, nextTurn_board env g⟩
  | restored => exact absurd rfl hop
  | _ => exact .inl ⟨rfl, rfl⟩

/-! ## The log of a game -/

/-- The log of a game that has not been read back: its entries are numbered from 1 and can be
stored. -/
structure Logged (g : Game) : Prop where
  pending : PendingSound g
  board : g.board.WellFormed
  sound : ∀ m ∈ g.moveLog, m.Sound
  numbered : g.moveLog.map MoveLog.moveNumber =
    (List.range g.moveLog.length).map fun i : ℕ => (i : ℤ) + 1

theorem logged_of_initial (h : Initial g) : Logged g := by
  refine ⟨pendingSound_of_initial h, ?_, ?_, ?_⟩ <;>
    obtain ⟨_, _, _, _, _, rfl⟩ | ⟨_, _, _, rfl⟩ := h
  · exact Board.wellFormed_new
  · exact Board.wellFormed_new
  · exact fun m hm => absurd hm List.not_mem_nil
  · exact fun m hm => absurd hm List.not_mem_nil
  · rfl
  · rfl

theorem Logged.step (h : Logged g) {i : Input} (hi : i.2 ≠ .saveRestore) : Logged (g.step i) := by
  have hboard := wellFormed_step h.pending h.board i
  obtain ⟨hlog, -⟩ | ⟨m, hlog, hentry, hsnapshot⟩ := (step_effect i.1 g i.2).entry hi
  · change (g.step i).moveLog = _ at hlog
    refine ⟨h.pending.step i, hboard, ?_, ?_⟩ <;> rw [hlog]
    · exact h.sound
    · exact h.numbered
  · change (g.step i).moveLog = _ at hlog
    refine ⟨h.pending.step i, hboard, ?_, ?_⟩ <;> rw [hlog]
    · intro m' hm'
      rcases List.mem_append.mp hm' with hm' | hm'
      · exact h.sound m' hm'
      · rw [List.mem_singleton.mp hm']
        exact ⟨hentry.isObj, hsnapshot ▸ hboard⟩
    · rw [List.map_append, h.numbered, List.length_append, List.length_singleton, List.range_succ,
        List.map_append]
      simp [hentry.moveNumber]

/-- The entries are in the order of their numbers. -/
theorem Logged.pairwise (h : Logged g) :
    g.moveLog.Pairwise fun m m' => m.moveNumber ≤ m'.moveNumber := by
  have hnumbers : (g.moveLog.map MoveLog.moveNumber).Pairwise (· ≤ ·) := by
    rw [h.numbered, List.pairwise_map]
    exact List.pairwise_lt_range.imp fun hlt => by omega
  exact List.pairwise_map.mp hnumbers

end Game

end ScrabbleMagyar
