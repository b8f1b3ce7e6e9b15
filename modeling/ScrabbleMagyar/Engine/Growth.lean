import ScrabbleMagyar.Engine.Effects

/-!
# The move log of a game as it goes on

The log of a game only grows, by at most one entry with each operation, and it stands still once
the game is over, which it stays (`Quiet.grows`). A restart is left out: a restored game starts a
log of its own.
-/

namespace ScrabbleMagyar

namespace Game

/-- Nothing waits for a vote in a game that is over. -/
def Quiet (g : Game) : Prop := g.finished = true → g.pendingChallenge = none

/-- What an operation makes of the log: nothing, or one more entry while the game goes on. -/
inductive Grows (g g' : Game) : Prop
  | same (log : g'.moveLog = g.moveLog) (stays : g.finished = true → g'.finished = true)
  | entry (unfinished : g.finished = false) (m : MoveLog) (log : g'.moveLog = g.moveLog ++ [m])

variable {env : Env} {g g' : Game}

theorem Quiet.unfinished (h : Quiet g) {pc : Challenge} (hpc : g.pendingChallenge = some pc) :
    g.finished = false := by
  by_contra hfin
  exact absurd ((h (by simpa using hfin)).symm.trans hpc) (by simp)

theorem Quiet.of_free (h : g.pendingChallenge = none) : Quiet g := fun _ => h

theorem Quiet.of_unfinished (h : g.finished = false) : Quiet g :=
  fun hfin => absurd (h.symm.trans hfin) (by simp)

/-- The close of a turn adds nothing to the entry of its move. -/
theorem Grows.settles {g₁ : Game} {m : MoveLog} (unfinished : g.finished = false)
    (hlog : g₁.moveLog = g.moveLog ++ [m]) (h : Settles env g₁ g') : Grows g g' :=
  .entry unfinished m (h.keeps.2.2.1.trans hlog)

theorem notePass_pendingChallenge (timeout : Bool) :
    (g.notePass timeout).pendingChallenge = g.pendingChallenge := by
  cases timeout <;> rfl

/-- Every operation keeps the game quiet. -/
theorem Quiet.effect {op : Op} (h : Quiet g) (he : Effect env g op g') : Quiet g' := by
  cases he with
  | placed playerId tiles formed may =>
    exact .of_free ((finalizePlacement_settles env g _ _ _ _).pendingChallenge may.free)
  | proposed playerId tiles formed may => exact .of_unfinished may.unfinished
  | voted op pc pending => exact .of_unfinished (h.unfinished pending)
  | accepted op pc pending => exact .of_free ((closeTurn_settles env _ _).pendingChallenge rfl)
  | rejected op pc pending =>
    exact .of_free ((finalizeReject_settles env g pending).pendingChallenge rfl)
  | withdrawn => exact .of_free rfl
  | exchanged playerId tileIndices may =>
    exact .of_free ((scorelessNextTurn_settles env _).pendingChallenge may.free)
  | passed playerId timeout may =>
    apply Quiet.of_free
    exact (scorelessNextTurn_settles env _).pendingChallenge
      ((notePass_pendingChallenge timeout).trans may.free)
  | expired may =>
    obtain ⟨_, may⟩ := may
    exact .of_free ((scorelessNextTurn_settles env _).pendingChallenge may.free)
  | expelled => exact .of_free (by rw [resignSeat_rest])
  | resigned => exact .of_free (by rw [resignSeat_rest])
  | ended => exact .of_free (endGame_pendingChallenge _ _)
  | reconnected oldId newId idx =>
    intro hfin
    simp [reconnectSeat, modifyPlayer, h hfin]
  | removed playerId idx =>
    simp only [Quiet, removeSeat]
    split <;> intro hfin <;> simp [h hfin]
  | skipped started unfinished free => exact .of_free ((nextTurn_pendingChallenge env g).trans free)
  | restored => exact .of_free rfl
  | _ => exact h

/-- **The log only grows**, and stands still once the game is over. -/
theorem Quiet.grows {op : Op} (h : Quiet g) (he : Effect env g op g') (hop : op ≠ .saveRestore) :
    Grows g g' := by
  cases he with
  | placed playerId tiles formed may =>
    exact .settles may.unfinished (layTiles_moveLog g tiles _ _ formed)
      (finalizePlacement_settles env g _ _ _ _)
  | accepted op pc pending =>
    exact .settles (h.unfinished pending) (layPending_moveLog g pc) (closeTurn_settles env _ _)
  | rejected op pc pending =>
    have hlog : (g.turnDown pc).bumped.moveLog = g.moveLog ++ [_] := turnDown_moveLog g pc
    exact .settles (h.unfinished pending) hlog (finalizeReject_settles env g pending)
  | exchanged playerId tileIndices may =>
    have hlog : (g.swapTiles env tileIndices).bumped.moveLog = g.moveLog ++ [_] :=
      swapTiles_moveLog env g tileIndices
    exact .settles may.unfinished hlog (scorelessNextTurn_settles env _)
  | passed playerId timeout may =>
    have hlog : (g.notePass timeout).bumped.moveLog = g.moveLog ++ [_] := notePass_moveLog g timeout
    exact .settles may.unfinished hlog (scorelessNextTurn_settles env _)
  | expired may =>
    obtain ⟨_, may⟩ := may
    have hlog : (g.notePass true).bumped.moveLog = g.moveLog ++ [_] := notePass_moveLog g true
    exact .settles may.unfinished hlog (scorelessNextTurn_settles env _)
  | expelled idx may =>
    obtain ⟨_, may⟩ := may
    refine .entry may.unfinished _ (Eq.trans ?_ (notePass_moveLog g true))
    rw [resignSeat_rest]
    exact nextTurn_moveLog env _
  | resigned playerId idx started unfinished =>
    rw [resignSeat_rest]
    exact .same rfl fun _ => rfl
  | ended =>
    refine .same ?_ fun _ => endGame_finished _ _
    rw [endGame_moveLog, unwindPending]
    split <;> rfl
  | removed playerId idx =>
    refine .same ?_ fun hfin => ?_ <;> simp only [removeSeat] <;> split <;>
      first | rfl | exact hfin
  | skipped =>
    exact .same (nextTurn_moveLog env g) fun hfin => (nextTurn_finished env g).trans hfin
  | restored => exact absurd rfl hop
  | _ => exact .same rfl fun hfin => hfin

theorem Grows.isPrefix (h : Grows g g') : g.moveLog <+: g'.moveLog := by
  cases h with
  | same log => exact log ▸ List.prefix_rfl
  | entry unfinished m log => exact log ▸ List.prefix_append _ _

theorem Grows.of_finished (h : Grows g g') (hfin : g.finished = true) :
    g'.moveLog = g.moveLog ∧ g'.finished = true := by
  cases h with
  | same log stays => exact ⟨log, stays hfin⟩
  | entry unfinished => exact absurd (unfinished.symm.trans hfin) (by simp)

/-- Nor is a turn counted once the game is over. -/
theorem Quiet.turnNumber {op : Op} (h : Quiet g) (he : Effect env g op g')
    (hfin : g.finished = true) : g'.turnNumber = g.turnNumber := by
  have hover : ∀ {p : Prop}, g.finished = false → p := fun hrun =>
    absurd (hrun.symm.trans hfin) Bool.false_ne_true
  cases he with
  | placed playerId tiles formed may => exact hover may.unfinished
  | accepted op pc pending => exact hover (h.unfinished pending)
  | rejected op pc pending => exact hover (h.unfinished pending)
  | exchanged playerId tileIndices may => exact hover may.unfinished
  | passed playerId timeout may => exact hover may.unfinished
  | expired may => exact hover may.choose_spec.unfinished
  | expelled idx may => exact hover may.choose_spec.unfinished
  | resigned playerId idx started unfinished => exact hover unfinished
  | ended started unfinished => exact hover unfinished
  | removed playerId idx =>
    simp only [removeSeat]
    split <;> rfl
  | skipped started unfinished => exact hover unfinished
  | _ => rfl

end Game

end ScrabbleMagyar
