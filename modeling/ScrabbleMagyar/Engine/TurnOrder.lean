import ScrabbleMagyar.Engine.Effects
import ScrabbleMagyar.Foundations.Cycle

/-!
# Where the turn goes

The turn goes to the next player who is there and has no penalty to pay, and the players there
who are passed on the way pay theirs (`TurnGoesOn`).

* `advance_first`: the scan finds this player, when there is one.
* `turn_goes_on_iff`: so every operation that passes the turn on does, exactly when there is one.
-/

namespace ScrabbleMagyar

/-- A player who is there and has no penalty to pay. -/
def Player.Ready (p : Player) : Prop := p.disconnected = false ∧ p.skipNextTurn = false

/-- What the turn order looks at: whether the player is there, and has a penalty. -/
def Player.presence (p : Player) : Bool × Bool := (p.disconnected, p.skipNextTurn)

instance (p : Player) : Decidable p.Ready := inferInstanceAs (Decidable (_ ∧ _))

namespace Game

/-- The next seat with a ready player is `k` seats on. -/
def NextReady (g : Game) (k : ℕ) : Prop :=
  Cycle.First g.players.length g.currentPlayerIdx (fun s => (g.playerAt s).Ready) k

/-- The player at a seat is passed on the way to the one `k` seats on, for a penalty. -/
def PaysOnTheWay (g : Game) (k s : ℕ) : Prop :=
  Cycle.Passed g.players.length g.currentPlayerIdx k s ∧ (g.playerAt s).disconnected = false

/-- **The turn goes on**: to the first player after the previous one who is there and has no
penalty. The penalties of the players there who are passed are cleared, and no others. -/
structure TurnGoesOn (g g' : Game) (k : ℕ) : Prop where
  first : g.NextReady k
  current : g'.currentPlayerIdx = (g.currentPlayerIdx + k) % g.players.length
  connected : (g'.playerAt g'.currentPlayerIdx).disconnected = false
  penalties : ∀ s, (g'.playerAt s).skipNextTurn = true ↔
    (g.playerAt s).skipNextTurn = true ∧ ¬g.PaysOnTheWay k s

/-! ## The scan -/

theorem exists_nextReady {g : Game} {p : Player} (hp : p ∈ g.players) (hready : p.Ready) :
    ∃ k, g.NextReady k := by
  obtain ⟨s, hs, rfl⟩ := List.mem_iff_getElem.mp hp
  refine Cycle.exists_first hs ?_ _
  rwa [playerAt_eq_getElem g hs]

theorem NextReady.mem {g : Game} {k : ℕ} (h : g.NextReady k) :
    ∃ p ∈ g.players, p.Ready := by
  have hpos : 0 < g.players.length := by
    have := h.pos
    have := h.le
    omega
  exact ⟨_, playerAt_mem g (Nat.mod_lt (g.currentPlayerIdx + k) hpos), h.hit⟩

/-- The seats after a penalty is paid. -/
theorem playerAt_paySkip (g : Game) {idx : ℕ} (h : idx < g.players.length) (s : ℕ) :
    (g.paySkip idx).playerAt s =
      if s = idx then { g.playerAt idx with skipNextTurn := false } else g.playerAt s := by
  by_cases hs : s = idx
  · subst hs
    rw [if_pos rfl]
    exact playerAt_modifyPlayer_self g h _
  · rw [if_neg hs]
    exact playerAt_modifyPlayer_of_ne g (Ne.symm hs) _

/-- **The scan** stops at the first ready player it meets, and takes the penalties of the players
there before. -/
theorem advance_first {g : Game} (hsync : g.asyncMode = false) {k n : ℕ} (h : g.NextReady k)
    (hn : k ≤ n) :
    (g.advance n).currentPlayerIdx = (g.currentPlayerIdx + k) % g.players.length ∧
      ∀ s, ((g.advance n).playerAt s).skipNextTurn = true ↔
        (g.playerAt s).skipNextTurn = true ∧ ¬g.PaysOnTheWay k s := by
  induction n generalizing g k with
  | zero =>
    have := h.pos
    omega
  | succ n ih =>
    have hlen : 0 < g.players.length := by
      have := h.pos
      have := h.le
      omega
    let idx := (g.currentPlayerIdx + 1) % g.players.length
    let g₁ : Game := { g with currentPlayerIdx := idx }
    have hidx : idx < g.players.length := Nat.mod_lt _ hlen
    by_cases hready : (g.playerAt idx).Ready
    · -- the next player has the turn
      obtain rfl : k = 1 := by
        have := h.pos
        by_contra hk
        exact h.before 1 le_rfl (by omega) hready
      have hstop : g.advance (n + 1) = g₁ := by
        have h₁ : (g₁.playerAt idx).disconnected = false := hready.1
        have h₂ : (g₁.playerAt idx).skipNextTurn = false := hready.2
        simp only [advance]
        rw [h₁, h₂]
        rfl
      rw [hstop]
      exact ⟨rfl, fun s => ⟨fun hs => ⟨hs, fun hpays => Cycle.not_passed_one s hpays.1⟩, And.left⟩⟩
    by_cases hgone : (g.playerAt idx).disconnected = true
    · -- the next player is not there, but another one is
      have hgo : g.advance (n + 1) = g₁.advance n := by
        have h₁ : ((g₁.playerAt idx).disconnected && !g.asyncMode) = true := by
          have hgone₁ : (g₁.playerAt idx).disconnected = true := hgone
          rw [hgone₁, hsync]
          rfl
        have h₂ : (g.players.any fun q => !q.disconnected) = true := by
          obtain ⟨p, hp, hthere⟩ := h.mem
          exact List.any_eq_true.mpr ⟨p, hp, by simp [hthere.1]⟩
        simp only [advance]
        rw [if_pos h₁, if_pos h₂]
      obtain ⟨hk, hnext⟩ := Cycle.First.tail (r := fun s => (g₁.playerAt s).Ready) h hready
        fun _ _ => Iff.rfl
      obtain ⟨hcur, hpen⟩ := ih (g := g₁) hsync hnext (by omega)
      rw [hgo]
      refine ⟨hcur.trans ?_, fun s => (hpen s).trans ?_⟩
      · exact (Cycle.next_add_mod _ _ _).trans (by rw [show k - 1 + 1 = k by omega])
      · have hpays : g.PaysOnTheWay k s ↔ g₁.PaysOnTheWay (k - 1) s := by
          simp only [PaysOnTheWay]
          rw [Cycle.passed_iff hk]
          constructor
          · rintro ⟨rfl | hpassed, hthere⟩
            · exact absurd (hthere.symm.trans hgone) (by simp)
            · exact ⟨hpassed, hthere⟩
          · exact fun hp => ⟨.inr hp.1, hp.2⟩
        rw [hpays]
        rfl
    · -- the next player pays a penalty
      have hthere : (g.playerAt idx).disconnected = false := by simpa using hgone
      have hskip : (g.playerAt idx).skipNextTurn = true := by
        by_contra hnot
        exact hready ⟨hthere, by simpa using hnot⟩
      have hgo : g.advance (n + 1) = (g₁.paySkip idx).advance n := by
        have h₁ : (g₁.playerAt idx).disconnected = false := hthere
        have h₂ : (g₁.playerAt idx).skipNextTurn = true := hskip
        simp only [advance]
        rw [h₁, h₂]
        rfl
      have hpaid := playerAt_paySkip g₁ (show idx < g₁.players.length from hidx)
      have hlength : (g₁.paySkip idx).players.length = g.players.length := by
        simp [paySkip, setLastAction, modifyPlayer, g₁]
      obtain ⟨hk, hnext⟩ := Cycle.First.tail
        (r := fun s => ((g₁.paySkip idx).playerAt s).Ready) h hready fun s hs => by
          rw [hpaid, if_neg hs]
          rfl
      have hnext' : (g₁.paySkip idx).NextReady (k - 1) := by
        rw [NextReady, hlength]
        exact hnext
      obtain ⟨hcur, hpen⟩ := ih (g := g₁.paySkip idx) hsync hnext' (by omega)
      rw [hgo]
      refine ⟨hcur.trans ?_, fun s => (hpen s).trans ?_⟩
      · rw [hlength]
        exact (Cycle.next_add_mod _ _ _).trans (by rw [show k - 1 + 1 = k by omega])
      · simp only [PaysOnTheWay, hlength]
        rw [Cycle.passed_iff hk, hpaid]
        by_cases hs : s = idx
        · subst hs
          simp [idx, hthere]
        · rw [if_neg hs]
          simp only [idx] at hs
          simp only [hs, false_or]
          rfl

/-! ## The operations -/

/-- The game when the turn closes: the move has changed nothing that the turn order looks at. -/
structure AtClose (g mid : Game) : Prop where
  seat : mid.currentPlayerIdx = g.currentPlayerIdx
  turn : mid.turnNumber = g.turnNumber
  async : mid.asyncMode = g.asyncMode
  presence : mid.players.map Player.presence = g.players.map Player.presence

variable {env : Env} {g : Game}

theorem AtClose.refl (g : Game) : AtClose g g := ⟨rfl, rfl, rfl, rfl⟩

/-- A move that changes one player, but not the presence. -/
theorem AtClose.modify {mid : Game} {idx : ℕ} {f : Player → Player}
    (hf : ∀ p, Player.presence (f p) = Player.presence p)
    (hplayers : mid.players = g.players.modify idx f)
    (hseat : mid.currentPlayerIdx = g.currentPlayerIdx) (hturn : mid.turnNumber = g.turnNumber)
    (hasync : mid.asyncMode = g.asyncMode) : AtClose g mid :=
  ⟨hseat, hturn, hasync, by rw [hplayers, Lists.map_modify_eq hf]⟩

theorem AtClose.nextReady_iff {mid : Game} (h : AtClose g mid) (k : ℕ) :
    mid.NextReady k ↔ g.NextReady k := by
  have hpresence := fun s => playerAt_congr (h := Player.presence) h.presence s
  have hready : ∀ s, (mid.playerAt s).Ready ↔ (g.playerAt s).Ready := fun s => by
    simp only [Player.Ready, ← Prod.mk.injEq (α := Bool) (β := Bool)]
    exact Eq.congr_left (hpresence s)
  have hlen : mid.players.length = g.players.length := by
    simpa using congrArg List.length h.presence
  simp only [NextReady, hlen, h.seat, hready]

/-- Passing the turn on after a move takes it to the next ready player, if there is one. -/
theorem AtClose.nextTurn {mid : Game} (h : AtClose g mid) (hsync : g.asyncMode = false) {k : ℕ}
    (hk : g.NextReady k) : TurnGoesOn g (mid.nextTurn env) k := by
  have hpresence := fun s => playerAt_congr (h := Player.presence) h.presence s
  have hskip : ∀ s, (mid.playerAt s).skipNextTurn = (g.playerAt s).skipNextTurn := fun s =>
    congrArg Prod.snd (hpresence s)
  have hgone : ∀ s, (mid.playerAt s).disconnected = (g.playerAt s).disconnected := fun s =>
    congrArg Prod.fst (hpresence s)
  have hlen : mid.players.length = g.players.length := by
    simpa using congrArg List.length h.presence
  have hk' := (h.nextReady_iff k).mpr hk
  obtain ⟨hcur, hpen⟩ := advance_first (h.async.trans hsync) hk' (n := mid.players.length) hk'.le
  have hcur' : (mid.nextTurn env).currentPlayerIdx =
      (g.currentPlayerIdx + k) % g.players.length := by
    rw [← h.seat, ← hlen]
    exact hcur
  refine ⟨hk, hcur', ?_, fun s => ?_⟩
  · rw [hcur', playerAt_congr (nextTurn_map env mid (h := Player.disconnected) fun _ _ => rfl), hgone]
    exact hk.hit.1
  · rw [← hskip s, PaysOnTheWay, ← hgone s, ← hlen, ← h.seat]
    exact hpen s

/-- A turn that closes is passed on, or the turn number stays. -/
theorem Settles.passed {mid g' : Game} (hs : Settles env mid g') :
    g' = mid.nextTurn env ∨ g'.turnNumber = mid.turnNumber := by
  cases hs with
  | gameOver finisher =>
    refine .inr ?_
    rw [endGame_rest]
  | solved idx score words => exact .inr rfl
  | next => exact .inl rfl
  | stay => exact .inr rfl

theorem resignSeat_turnNumber (g : Game) (idx : ℕ) :
    (g.resignSeat idx).turnNumber = g.turnNumber := by
  rw [resignSeat_rest]

theorem unwindPending_turnNumber (g : Game) : g.unwindPending.turnNumber = g.turnNumber := by
  simp only [unwindPending]
  split <;> rfl

/-- **Every operation that passes the turn on** does so after a move that changes nothing the turn
order looks at. -/
theorem Effect.atClose {op : Op} {g' : Game} (h : Effect env g op g') (hsync : g.asyncMode = false)
    (hadv : g'.turnNumber = g.turnNumber + 1) :
    ∃ mid, AtClose g mid ∧ g' = mid.nextTurn env := by
  have hstays : ¬g'.turnNumber = g.turnNumber := by omega
  -- a move, then the turn closes
  have hclose : ∀ mid, AtClose g mid → Settles env mid g' →
      ∃ mid, AtClose g mid ∧ g' = mid.nextTurn env := fun mid hmid hs =>
    ⟨mid, hmid, hs.passed.resolve_right fun hsame => hstays (hsame.trans hmid.turn)⟩
  cases h with
  | placed playerId tiles formed may =>
    exact hclose _ (.modify (f := g.laid _ _) (fun _ => rfl) (layTiles_players g _ _ _ _) rfl rfl rfl)
      (finalizePlacement_settles env g _ _ _ _)
  | accepted _ pc pending =>
    exact hclose _ (.modify (f := g.accepted _) (fun _ => rfl) (layPending_players g pc) rfl rfl rfl)
      (closeTurn_settles env _ _)
  | rejected _ pc pending =>
    exact hclose (g.turnDown pc).bumped
      (.modify (f := fun p => { p with hand := p.hand ++ pc.removedFromHand })
        (fun _ => rfl) rfl rfl rfl rfl) (finalizeReject_settles env g pending)
  | exchanged playerId tileIndices =>
    exact hclose (g.swapTiles env tileIndices).bumped
      (.modify (f := g.swapped tileIndices) (fun _ => rfl) (swapTiles_players env g _) rfl rfl rfl)
      (scorelessNextTurn_settles env _)
  | passed playerId timeout =>
    refine hclose (g.notePass timeout).bumped (.modify (f := Game.passed timeout) (fun _ => rfl)
      (notePass_players g _) ?_ ?_ ?_) (scorelessNextTurn_settles env _)
    all_goals cases timeout <;> rfl
  | expired _ async => exact absurd (hsync.symm.trans async) (by simp)
  | expelled _ _ async => exact absurd (hsync.symm.trans async) (by simp)
  | skipped => exact ⟨g, .refl g, rfl⟩
  | resigned playerId idx => exact absurd (resignSeat_turnNumber g idx) hstays
  | ended =>
    refine absurd ?_ hstays
    rw [endGame_rest]
    exact unwindPending_turnNumber g
  | removed playerId idx =>
    refine absurd ?_ hstays
    simp only [removeSeat]
    split <;> rfl
  | _ => exact absurd rfl hstays

/-- **The turn goes to a player who is there.** In a game that is not a correspondence game, an
operation that passes the turn on takes it to the first player after the previous one who is there
and has no penalty, and clears the penalties on the way, exactly when there is such a player. -/
theorem turn_goes_on_iff {i : Input} (hsync : g.asyncMode = false)
    (hadv : (g.step i).turnNumber = g.turnNumber + 1) :
    (∃ k, TurnGoesOn g (g.step i) k) ↔ ∃ p ∈ g.players, p.Ready := by
  obtain ⟨env, op⟩ := i
  constructor
  · rintro ⟨k, h⟩
    exact h.first.mem
  · rintro ⟨p, hp, hready⟩
    obtain ⟨k, hk⟩ := exists_nextReady hp hready
    obtain ⟨mid, hmid, heq⟩ := (step_effect env g op).atClose hsync hadv
    exact ⟨k, heq ▸ hmid.nextTurn hsync hk⟩

/-- A pass in a duel. -/
theorem turn_goes_on_iff_duel :
    ∃ k, TurnGoesOn (duel true) ((duel true).step (stillEnv, .passTurn "a" false)) k :=
  (turn_goes_on_iff (i := (stillEnv, .passTurn "a" false)) (by decide +kernel)
    (by decide +kernel)).mpr ⟨(duel true).playerAt 0, by decide +kernel, by decide +kernel⟩

/-- A duel as it is read back from a save in which the player to move has left and the other one
has a penalty. -/
def penalisedDuel : Game :=
  ({ duel true with
      players := [{ (duel true).playerAt 0 with disconnected := true },
        { (duel true).playerAt 1 with skipNextTurn := true }] } : Game).restored stillEnv

/-- The turn stays with the player who has left: the other one pays the penalty, and there the
scan ends. -/
theorem turn_goes_on_absent :
    penalisedDuel.started = true ∧ penalisedDuel.finished = false ∧
      penalisedDuel.asyncMode = false ∧ (∃ p ∈ penalisedDuel.players, p.disconnected = false) ∧
      (penalisedDuel.skipDisconnectedCurrent stillEnv).2 = true ∧
      (penalisedDuel.step (stillEnv, .skipDisconnectedCurrent)).turnNumber =
        penalisedDuel.turnNumber + 1 ∧
      ((penalisedDuel.step (stillEnv, .skipDisconnectedCurrent)).playerAt
        (penalisedDuel.step (stillEnv, .skipDisconnectedCurrent)).currentPlayerIdx).disconnected =
          true ∧
      ¬∃ k, TurnGoesOn penalisedDuel (penalisedDuel.step (stillEnv, .skipDisconnectedCurrent)) k := by
  have hgone : ((penalisedDuel.step (stillEnv, .skipDisconnectedCurrent)).playerAt
      (penalisedDuel.step (stillEnv, .skipDisconnectedCurrent)).currentPlayerIdx).disconnected =
        true := by decide +kernel
  refine ⟨by decide +kernel, by decide +kernel, by decide +kernel, by decide +kernel,
    by decide +kernel, by decide +kernel, hgone, ?_⟩
  rintro ⟨k, h⟩
  exact absurd (h.connected.symm.trans hgone) (by simp)

end Game

end ScrabbleMagyar
