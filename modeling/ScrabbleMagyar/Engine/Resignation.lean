import ScrabbleMagyar.Engine.Accounts
import ScrabbleMagyar.Engine.Answers
import ScrabbleMagyar.Engine.Pending

/-!
# Giving up

A player resigns, or misses too many deadlines in a row (`GivesUp`). The winners are meant to be
the best of the others (`OthersWin`), also after a restart, which finds them by their names. That
is so exactly when there are others, and nobody shares a name with one of the winners without
winning as well (`others_win_iff`).
-/

namespace ScrabbleMagyar

namespace Game

/-! ## Who gives up -/

/-- The player to move, as far as the game knows players by their identifiers, has missed too many
deadlines in a row, this one included. -/
def MissedTooMany (g : Game) (idx : ℕ) : Prop :=
  g.seatOf (g.playerAt g.currentPlayerIdx).id = some idx ∧
    maxTimeouts ≤ ((g.notePass true).playerAt idx).timeouts

/-- The operation gives up the seat: by a resignation, or by a deadline that is missed once too
often, unless the game is over with it for want of a score. -/
def GivesUp (g : Game) (i : Input) (idx : ℕ) : Prop :=
  (∃ playerId, i.2 = .resign playerId ∧ (g.resign playerId).2.isOk = true ∧
    g.seatOf playerId = some idx) ∨
  (i.2 = .expireTurn ∧ (g.expireTurn i.1).2 = true ∧ g.scorelessTurns + 1 < scorelessTurnsLimit ∧
    g.MissedTooMany idx)

/-- The winners are the best of those who have not resigned. -/
structure OthersWin (g : Game) : Prop where
  ended : g.finished = true
  stayed : ∀ w ∈ g.winners, w.resigned = false
  best : g.winners = Best.best Player.score (g.players.filter fun p => !p.resigned)

variable {env : Env} {g : Game} {i : Input} {idx : ℕ}

theorem findPlayer_of_seatOf {playerId : String} (h : g.seatOf playerId = some idx) :
    g.findPlayer playerId = some (g.playerAt idx) := by
  obtain ⟨hlt, hid, hfirst⟩ := List.findIdx?_eq_some_iff_getElem.mp h
  rw [playerAt_eq_getElem g hlt]
  exact List.find?_eq_some_iff_getElem.mpr ⟨hid, idx, hlt, rfl, fun j hj => by simpa using hfirst j hj⟩

/-- A reading of the players that a missed deadline does not touch. -/
theorem notePass_map {β : Type*} {h : Player → β} (hh : ∀ p n, h { p with timeouts := n } = h p)
    (timeout : Bool) : (g.notePass timeout).players.map h = g.players.map h := by
  rw [notePass_players, Lists.map_modify_eq (f := passed timeout) fun p => hh p _]

/-- The next turn after a missed deadline. -/
def missed (env : Env) (g : Game) : Game := (g.notePass true).bumped.nextTurn env

theorem missed_map {β : Type*} {h : Player → β} (hh : ∀ p n, h { p with timeouts := n } = h p)
    (hskip : ∀ p b, h { p with skipNextTurn := b } = h p) :
    (g.missed env).players.map h = g.players.map h :=
  (nextTurn_map env (g.notePass true).bumped hskip).trans (notePass_map hh true)

/-- **What a missed deadline does**: it ends the game for want of a score, or it is one too many,
or the turn goes on. -/
theorem expireTurn_true (h : (g.expireTurn env).2 = true) :
    scorelessTurnsLimit ≤ g.scorelessTurns + 1 ∧
        (g.expireTurn env).1 = (g.notePass true).bumped.endGame none ∨
      g.scorelessTurns + 1 < scorelessTurnsLimit ∧
        ((∃ idx, g.MissedTooMany idx ∧ (g.expireTurn env).1 = (g.missed env).resignSeat idx) ∨
          (∀ idx, ¬g.MissedTooMany idx) ∧ (g.expireTurn env).1 = g.missed env) := by
  simp only [expireTurn] at h ⊢
  split at h
  · cases h
  rename_i hguard
  rw [if_neg hguard]
  obtain ⟨⟨⟨-, hstarted⟩, hrun⟩, -⟩ :
      ((g.asyncMode = true ∧ g.started = true) ∧ g.finished = false) ∧
        g.pendingChallenge = none := by simpa using hguard
  cases hcurrent : g.currentPlayer with
  | none => simp [hcurrent] at h
  | some player =>
    obtain ⟨hseat, rfl⟩ := currentPlayer_eq_some g hcurrent
    simp only [hcurrent] at h ⊢
    obtain ⟨e, hpass⟩ | ⟨-, hpass⟩ :=
      passTurn_cases env g (g.playerAt g.currentPlayerIdx).id true
    · simp [hpass] at h
    simp only [hpass]
    have hscoreless : (g.notePass true).scorelessTurns = g.scorelessTurns := rfl
    by_cases hlimit : scorelessTurnsLimit ≤ g.scorelessTurns + 1
    · refine .inl ⟨hlimit, ?_⟩
      rw [scorelessNextTurn_eq, hscoreless, if_pos hlimit]
      simp
    refine .inr ⟨not_le.mp hlimit, ?_⟩
    have hnext : (g.notePass true).scorelessNextTurn env = g.missed env := by
      rw [scorelessNextTurn_eq, hscoreless, if_neg hlimit]
      rfl
    have hgoesOn : (g.missed env).finished = false := (nextTurn_finished env _).trans hrun
    rw [hnext, hgoesOn]
    simp only [Bool.false_eq_true, if_false]
    -- the seat of the player to move, by the identifier
    obtain ⟨idx, hidx⟩ : ∃ idx, g.seatOf (g.playerAt g.currentPlayerIdx).id = some idx := by
      refine Option.isSome_iff_exists.mp (List.findIdx?_isSome.trans ?_)
      exact List.any_eq_true.mpr ⟨_, playerAt_mem g hseat, by simp⟩
    have hidx' : (g.missed env).seatOf (g.playerAt g.currentPlayerIdx).id = some idx :=
      (seatOf_congr (missed_map (fun _ _ => rfl) fun _ _ => rfl) _).trans hidx
    have htimeouts : ((g.missed env).playerAt idx).timeouts =
        ((g.notePass true).playerAt idx).timeouts :=
      playerAt_congr (nextTurn_map env (g.notePass true).bumped fun _ _ => rfl) idx
    simp only [findPlayer_of_seatOf hidx', htimeouts]
    by_cases hmissed : maxTimeouts ≤ ((g.notePass true).playerAt idx).timeouts
    · refine .inl ⟨idx, ⟨hidx, hmissed⟩, ?_⟩
      rw [if_pos hmissed]
      have hstarted' : (g.missed env).started = true := (nextTurn_started env _).trans hstarted
      simp [resign, hstarted', hgoesOn, hidx']
    · refine .inr ⟨fun k hk => ?_, ?_⟩
      · obtain rfl := Option.some.inj (hidx.symm.trans hk.1)
        exact hmissed hk.2
      · rw [if_neg hmissed]

/-! ## Who stays -/

/-- The seats that stay in the game when one is given up. -/
def Stays (g : Game) (idx j : ℕ) : Prop :=
  j < g.players.length ∧ j ≠ idx ∧ (g.playerAt j).resigned = false

/-- The score of a player less the value of the tiles in hand. -/
def net (p : Player) : ℤ := p.score - p.handValue

/-- The seats that stay with the best of the final scores. -/
def Leads (g : Game) (idx j : ℕ) : Prop :=
  g.Stays idx j ∧ ∀ k, g.Stays idx k → net (g.playerAt k) ≤ net (g.playerAt j)

/-- The condition under which a seat is given up as intended: somebody stays, and whoever has the
name of a winner wins as well. -/
structure LeavesOthers (g : Game) (idx : ℕ) : Prop where
  others : ∃ j, g.Stays idx j
  names : ∀ j k, g.Leads idx j → k < g.players.length →
    (g.playerAt k).name = (g.playerAt j).name → g.Leads idx k

/-- What the condition looks at in a player. -/
def Player.standing (p : Player) : String × ℤ × ℤ × Bool :=
  (p.name, p.score, p.handValue, p.resigned)

theorem stays_congr {g' : Game} (h : g'.players.map Player.standing = g.players.map Player.standing)
    (j : ℕ) : g'.Stays idx j ↔ g.Stays idx j := by
  have hlen : g'.players.length = g.players.length := by simpa using congrArg List.length h
  have hseat := Prod.mk.inj (playerAt_congr h j)
  have hresigned : (g'.playerAt j).resigned = (g.playerAt j).resigned :=
    (Prod.mk.inj (Prod.mk.inj hseat.2).2).2
  simp only [Stays, hlen, hresigned]

theorem leads_congr {g' : Game} (h : g'.players.map Player.standing = g.players.map Player.standing)
    (j : ℕ) : g'.Leads idx j ↔ g.Leads idx j := by
  have hnet : ∀ k, net (g'.playerAt k) = net (g.playerAt k) := fun k => by
    have hseat := Prod.mk.inj (playerAt_congr h k)
    have hscore := Prod.mk.inj hseat.2
    simp only [net]
    rw [show (g'.playerAt k).score = _ from hscore.1,
      show (g'.playerAt k).handValue = _ from (Prod.mk.inj hscore.2).1]
  simp only [Leads, stays_congr h, hnet]

theorem leavesOthers_congr {g' : Game}
    (h : g'.players.map Player.standing = g.players.map Player.standing) :
    g'.LeavesOthers idx ↔ g.LeavesOthers idx := by
  have hlen : g'.players.length = g.players.length := by simpa using congrArg List.length h
  have hname : ∀ k, (g'.playerAt k).name = (g.playerAt k).name := fun k =>
    (Prod.mk.inj (playerAt_congr h k)).1
  have hstays : ∀ j, g'.Stays idx j ↔ g.Stays idx j := stays_congr h
  have hleads : ∀ j, g'.Leads idx j ↔ g.Leads idx j := leads_congr h
  constructor
  · rintro ⟨⟨j, hj⟩, hnames⟩
    exact ⟨⟨j, (hstays j).mp hj⟩, fun j k hj hk hjk =>
      (hleads k).mp (hnames j k ((hleads j).mpr hj) (hlen ▸ hk) (by rw [hname, hname, hjk]))⟩
  · rintro ⟨⟨j, hj⟩, hnames⟩
    exact ⟨⟨j, (hstays j).mpr hj⟩, fun j k hj hk hjk =>
      (hleads k).mpr (hnames j k ((hleads j).mp hj) (hlen ▸ hk) (by rw [← hname, ← hname, hjk]))⟩

/-! ## The end by a resignation -/

/-- The players after a resignation. -/
theorem playerAt_resignSeat (hidx : idx < g.players.length) {j : ℕ} (hj : j < g.players.length) :
    (g.resignSeat idx).playerAt j =
      docked (if j = idx then { g.playerAt j with resigned := true } else g.playerAt j) := by
  let f : Player → Player := fun p => { p with resigned := true }
  have hplayers : (g.resignSeat idx).players = (g.modifyPlayer idx f).players.map docked := by
    rw [resignSeat_rest]
    exact settle_none _
  have hlen : j < (g.modifyPlayer idx f).players.length := by
    simpa [modifyPlayer] using hj
  have hdocked : (g.resignSeat idx).playerAt j = docked ((g.modifyPlayer idx f).playerAt j) := by
    rw [playerAt, hplayers, playerAt]
    simp [List.getD_eq_getElem?_getD, hlen]
  rw [hdocked]
  by_cases hji : j = idx
  · subst hji
    rw [if_pos rfl, playerAt_modifyPlayer_self g hidx]
  · rw [if_neg hji, playerAt_modifyPlayer_of_ne g (Ne.symm hji)]

theorem length_resignSeat : (g.resignSeat idx).players.length = g.players.length := by
  rw [resignSeat_rest]
  simp [settle_length]

/-- Those who have not resigned. -/
def staying (g : Game) : List Player := g.players.filter fun p => !p.resigned

/-- The winners after a resignation: the best of the others, or of all if nobody else is there. -/
theorem winners_resignSeat :
    (g.resignSeat idx).winners =
      Best.best Player.score (if (g.resignSeat idx).staying = [] then (g.resignSeat idx).players
        else (g.resignSeat idx).staying) := by
  let final : Game := ({ g.modifyPlayer idx fun p => { p with resigned := true } with
    pendingChallenge := none } : Game).endGame none
  have hplayers : (g.resignSeat idx).players = final.players := by
    rw [resignSeat_rest, endGame_players]
    rfl
  have hstaying : (g.resignSeat idx).staying = final.staying := by
    rw [staying, hplayers, staying]
  have hwinners : (∃ best, (final.staying.map Player.score).max? = some best ∧
        (g.resignSeat idx).winners = final.staying.filter fun p => p.score = best) ∨
      (final.staying.map Player.score).max? = none ∧
        (g.resignSeat idx).winners = final.winners := by
    simp only [resignSeat, setLastAction]
    split
    · rename_i best hmax
      exact .inl ⟨best, hmax, rfl⟩
    · rename_i hmax
      exact .inr ⟨hmax, rfl⟩
  rw [hstaying, hplayers]
  obtain ⟨best, hmax, hw⟩ | ⟨hmax, hw⟩ := hwinners <;> rw [hw]
  · have hne : final.staying ≠ [] := by
      rintro hnil
      simp [hnil] at hmax
    obtain ⟨hmem, hle⟩ := List.max?_eq_some_iff.mp hmax
    rw [if_neg hne]
    exact Best.filter_eq_best hmem fun p hp => hle _ (List.mem_map_of_mem hp)
  · have hnil : final.staying = [] := by simpa using hmax
    rw [if_pos hnil]
    exact endGame_winners _ _

theorem mem_players_iff {p : Player} :
    p ∈ g.players ↔ ∃ j < g.players.length, g.playerAt j = p := by
  constructor
  · intro hp
    obtain ⟨j, hj, rfl⟩ := List.getElem_of_mem hp
    exact ⟨j, hj, playerAt_eq_getElem g hj⟩
  · rintro ⟨j, hj, rfl⟩
    exact playerAt_mem g hj

/-- The seats that stay are those not resigned in the end. -/
theorem resigned_resignSeat_iff (hidx : idx < g.players.length) {j : ℕ}
    (hj : j < g.players.length) :
    ((g.resignSeat idx).playerAt j).resigned = false ↔ g.Stays idx j := by
  rw [playerAt_resignSeat hidx hj]
  by_cases hji : j = idx
  · simp [Stays, docked, hji]
  · simp [Stays, docked, hji, hj]

theorem score_resignSeat (hidx : idx < g.players.length) {j : ℕ} (hj : j < g.players.length) :
    ((g.resignSeat idx).playerAt j).score = net (g.playerAt j) := by
  rw [playerAt_resignSeat hidx hj]
  split_ifs <;> rfl

theorem name_resignSeat (hidx : idx < g.players.length) {j : ℕ} (hj : j < g.players.length) :
    ((g.resignSeat idx).playerAt j).name = (g.playerAt j).name := by
  rw [playerAt_resignSeat hidx hj]
  split_ifs <;> rfl

theorem mem_staying_iff (hidx : idx < g.players.length) {p : Player} :
    p ∈ (g.resignSeat idx).staying ↔ ∃ j, g.Stays idx j ∧ (g.resignSeat idx).playerAt j = p := by
  rw [staying, List.mem_filter, mem_players_iff, length_resignSeat]
  constructor
  · rintro ⟨⟨j, hj, rfl⟩, hstays⟩
    exact ⟨j, (resigned_resignSeat_iff hidx hj).mp (by simpa using hstays), rfl⟩
  · rintro ⟨j, hj, rfl⟩
    exact ⟨⟨j, hj.1, rfl⟩, by simpa using (resigned_resignSeat_iff hidx hj.1).mpr hj⟩

/-- **After a resignation the others win** exactly when there are others. -/
theorem othersWin_resignSeat_iff (hidx : idx < g.players.length) :
    OthersWin (g.resignSeat idx) ↔ ∃ j, g.Stays idx j := by
  have hover : (g.resignSeat idx).finished = true := by rw [resignSeat_rest]
  have hwinners := @winners_resignSeat g idx
  have hothers : (∃ j, g.Stays idx j) ↔ (g.resignSeat idx).staying ≠ [] := by
    constructor
    · rintro ⟨j, hj⟩
      exact List.ne_nil_of_mem ((mem_staying_iff hidx).mpr ⟨j, hj, rfl⟩)
    · intro hne
      obtain ⟨p, hp⟩ := List.exists_mem_of_ne_nil _ hne
      obtain ⟨j, hj, -⟩ := (mem_staying_iff hidx).mp hp
      exact ⟨j, hj⟩
  rw [hothers]
  constructor
  · -- with nobody else the winners are the best of all, and there are some
    intro h hnil
    rw [if_pos hnil] at hwinners
    have hne : (g.resignSeat idx).players ≠ [] := by
      apply List.ne_nil_of_length_pos
      rw [length_resignSeat]
      omega
    refine Best.best_ne_nil Player.score hne ?_
    rw [← hwinners, h.best]
    exact congrArg (Best.best Player.score) hnil
  · intro hne
    rw [if_neg hne] at hwinners
    refine ⟨hover, fun w hw => ?_, hwinners⟩
    rw [hwinners, Best.mem_best] at hw
    simpa using (List.mem_filter.mp hw.1).2

/-- The winners are those who lead. -/
theorem mem_winners_iff (hidx : idx < g.players.length) (h : OthersWin (g.resignSeat idx))
    {j : ℕ} (hj : j < g.players.length) :
    (g.resignSeat idx).playerAt j ∈ (g.resignSeat idx).winners ↔ g.Leads idx j := by
  rw [h.best, Best.mem_best, Leads]
  constructor
  · rintro ⟨hmem, hmax⟩
    have hstays : g.Stays idx j :=
      (resigned_resignSeat_iff hidx hj).mp (by simpa using (List.mem_filter.mp hmem).2)
    refine ⟨hstays, fun k hk => ?_⟩
    rw [← score_resignSeat hidx hj, ← score_resignSeat hidx hk.1]
    exact hmax _ ((mem_staying_iff hidx).mpr ⟨k, hk, rfl⟩)
  · rintro ⟨hstays, hmax⟩
    refine ⟨(mem_staying_iff hidx).mpr ⟨j, hstays, rfl⟩, fun p hp => ?_⟩
    obtain ⟨k, hk, rfl⟩ := (mem_staying_iff hidx).mp hp
    rw [score_resignSeat hidx hj, score_resignSeat hidx hk.1]
    exact hmax k hk

/-! ## The restart -/

/-- The restored players, with nothing pending. -/
theorem restoredPlayers_of_free (hfree : g.pendingChallenge = none) :
    g.restoredPlayers = g.players.map fun p => restoredPlayer p p.hand := by
  refine List.ext_getElem (by simp [restoredPlayers]) fun j h₁ h₂ => ?_
  simp [restoredPlayers, savedHand, hfree]

/-- **After a restart the others still win** exactly when whoever has the name of a winner is a
winner. -/
theorem othersWin_restored_iff (h : OthersWin g) (hfree : g.pendingChallenge = none)
    (hscores : ∀ p ∈ g.players, toI32 p.score = p.score) :
    OthersWin (g.restored env) ↔
      ∀ p ∈ g.players, p.name ∈ g.winners.map Player.name → p ∈ g.winners := by
  let e : Player → Player := fun p => restoredPlayer p p.hand
  have hplayers : (g.restored env).players = g.players.map e := restoredPlayers_of_free hfree
  have hwinners : (g.restored env).winners =
      (g.players.filter fun p => decide (p.name ∈ g.winners.map Player.name)).map e := by
    change (g.restoredPlayers.filter _) = _
    rw [restoredPlayers_of_free hfree, List.filter_map]
    rfl
  have hstaying : ((g.restored env).players.filter fun p => !p.resigned) = g.staying.map e := by
    rw [hplayers, List.filter_map]
    rfl
  have hbest : Best.best Player.score (g.staying.map e) = g.winners.map e := by
    have hkept : ∀ p ∈ g.staying, (e p).score = p.score := fun p hp =>
      hscores p (List.mem_filter.mp hp).1
    rw [Best.best_map hkept]
    exact congrArg (List.map e) h.best.symm
  have hself : (g.players.filter fun p => decide (p ∈ g.winners)) = g.winners := by
    refine Eq.trans (List.filter_congr fun p hp => ?_) (List.filter_filter.symm.trans h.best.symm)
    have hwins : p ∈ g.winners ↔ (∀ q ∈ g.staying, q.score ≤ p.score) ∧ p.resigned = false := by
      rw [h.best, Best.mem_best, List.mem_filter, Bool.not_eq_true', and_comm]
      simp only [hp, true_and, staying]
    rw [Bool.eq_iff_iff, Bool.and_eq_true, decide_eq_true_iff, decide_eq_true_iff, hwins,
      Bool.not_eq_true']
    rfl
  constructor
  · intro hafter p hp hname
    have heq : (g.players.filter fun p => decide (p.name ∈ g.winners.map Player.name)).map e =
        g.winners.map e := by
      rw [← hwinners, hafter.best, hstaying, hbest]
    have hlen := congrArg List.length heq
    rw [List.length_map, List.length_map] at hlen
    have hsub : (g.players.filter fun p => decide (p ∈ g.winners)).Sublist
        (g.players.filter fun p => decide (p.name ∈ g.winners.map Player.name)) :=
      List.monotone_filter_right _ fun q hq =>
        decide_eq_true (List.mem_map_of_mem (of_decide_eq_true hq))
    rw [hself] at hsub
    rw [hsub.eq_of_length hlen.symm]
    exact List.mem_filter.mpr ⟨hp, decide_eq_true hname⟩
  · intro hnames
    have hfilter : (g.players.filter fun p => decide (p.name ∈ g.winners.map Player.name)) =
        g.winners := by
      refine Eq.trans (List.filter_congr fun p hp => ?_) hself
      exact decide_eq_decide.mpr ⟨hnames p hp, List.mem_map_of_mem⟩
    rw [hfilter] at hwinners
    refine ⟨h.ended, fun w hw => ?_, ?_⟩
    · rw [hwinners] at hw
      obtain ⟨p, hp, rfl⟩ := List.mem_map.mp hw
      exact h.stayed p hp
    · rw [hstaying, hbest, hwinners]

/-! ## Giving up -/

/-- What is meant to happen: whoever gives up does not win, neither at once nor after a restart,
and nobody else is taken to resign when a deadline is missed. -/
structure GivenUpRight (env : Env) (g : Game) (i : Input) : Prop where
  winners : ∀ idx, g.GivesUp i idx → ((g.step i).playerAt idx).resigned = true ∧
    OthersWin (g.step i) ∧ OthersWin ((g.step i).step (env, .saveRestore))
  nobody : i.2 = .expireTurn →
    (scorelessTurnsLimit ≤ g.scorelessTurns + 1 ∨ ∀ idx, ¬g.MissedTooMany idx) →
    (g.step i).players.map Player.resigned = g.players.map Player.resigned

/-- Giving up a seat is a resignation, at most after a missed deadline. -/
theorem GivesUp.step (h : g.GivesUp i idx) :
    ∃ mid : Game, g.step i = mid.resignSeat idx ∧ idx < mid.players.length ∧
      mid.players.map Player.standing = g.players.map Player.standing := by
  obtain ⟨env, op⟩ := i
  obtain ⟨playerId, hop, hok, hseat⟩ | ⟨hop, hanswer, hlimit, hmissed⟩ := h <;>
    obtain rfl : op = _ := hop
  · refine ⟨g, ?_, (seatOf_eq_some g hseat).1, rfl⟩
    obtain ⟨e, he⟩ | ⟨idx', -, -, hseat', he⟩ := resign_cases g playerId
    · simp [he, Except.isOk, Except.toBool] at hok
    · obtain rfl := Option.some.inj (hseat.symm.trans hseat')
      exact congrArg Prod.fst he
  · have hmap : (g.missed env).players.map Player.standing = g.players.map Player.standing :=
      missed_map (fun _ _ => rfl) fun _ _ => rfl
    have hlen : (g.missed env).players.length = g.players.length := by
      simpa using congrArg List.length hmap
    refine ⟨g.missed env, ?_, hlen ▸ (seatOf_eq_some g hmissed.1).1, hmap⟩
    obtain ⟨hover, -⟩ | ⟨-, ⟨idx', hmissed', he⟩ | ⟨hnobody, -⟩⟩ := expireTurn_true hanswer
    · omega
    · obtain rfl := Option.some.inj (hmissed.1.symm.trans hmissed'.1)
      exact he
    · exact absurd hmissed (hnobody idx)

/-- A missed deadline that is not one too many resigns nobody. -/
theorem expireTurn_resigns_nobody
    (h : scorelessTurnsLimit ≤ g.scorelessTurns + 1 ∨ ∀ idx, ¬g.MissedTooMany idx) :
    (g.expireTurn env).1.players.map Player.resigned = g.players.map Player.resigned := by
  cases hanswer : (g.expireTurn env).2 with
  | false => rw [expireTurn_clean env g hanswer]
  | true =>
    obtain ⟨-, he⟩ | ⟨hlimit, ⟨idx, hmissed, -⟩ | ⟨-, he⟩⟩ := expireTurn_true hanswer
    · rw [he, endGame_players, settle_map fun _ _ => rfl]
      exact notePass_map (fun _ _ => rfl) true
    · obtain hover | hnobody := h
      · omega
      · exact absurd hmissed (hnobody idx)
    · rw [he]
      exact missed_map (fun _ _ => rfl) fun _ _ => rfl

/-- **A player who gave up never wins**, at once and after a restart, exactly when somebody else
stays and whoever has the name of a winner wins as well. -/
theorem others_win_iff (h : Reachable g) (env : Env) (i : Input) :
    GivenUpRight env g i ↔ ∀ idx, g.GivesUp i idx → g.LeavesOthers idx := by
  have hscores : ∀ p ∈ (g.step i).players, toI32 p.score = p.score := fun p hp =>
    (Reachable.bounded (Runs.Reaches.next Game.step h trivial)).scored.toI32 hp
  have hrestart : (g.step i).step (env, .saveRestore) = (g.step i).restored env :=
    saveRestore_eq env _
  constructor
  · rintro ⟨hwin, -⟩ idx hgives
    obtain ⟨-, hothers, hafter⟩ := hwin idx hgives
    obtain ⟨mid, hstep, hidx, hmap⟩ := hgives.step
    rw [hrestart] at hafter
    rw [hstep] at hothers hafter hscores
    have hfree : (mid.resignSeat idx).pendingChallenge = none := by rw [resignSeat_rest]
    have hnames := (othersWin_restored_iff hothers hfree hscores).mp hafter
    rw [← leavesOthers_congr hmap]
    refine ⟨(othersWin_resignSeat_iff hidx).mp hothers, fun j k hj hk hjk => ?_⟩
    have hwins := (mem_winners_iff hidx hothers hj.1.1).mpr hj
    refine (mem_winners_iff hidx hothers hk).mp (hnames _ ?_ (List.mem_map.mpr ⟨_, hwins, ?_⟩))
    · exact playerAt_mem _ (length_resignSeat.symm ▸ hk)
    · rw [name_resignSeat hidx hk, name_resignSeat hidx hj.1.1, hjk]
  · intro hleaves
    refine ⟨fun idx hgives => ?_, fun hi hnobody => ?_⟩
    · obtain ⟨mid, hstep, hidx, hmap⟩ := hgives.step
      obtain ⟨hstays, hnames⟩ := (leavesOthers_congr hmap).mpr (hleaves idx hgives)
      rw [hrestart]
      rw [hstep] at hscores ⊢
      have hfree : (mid.resignSeat idx).pendingChallenge = none := by rw [resignSeat_rest]
      have hothers := (othersWin_resignSeat_iff hidx).mpr hstays
      refine ⟨?_, hothers, (othersWin_restored_iff hothers hfree hscores).mpr fun p hp hname => ?_⟩
      · rw [playerAt_resignSeat hidx hidx, if_pos rfl]
        rfl
      · obtain ⟨k, hk, rfl⟩ := mem_players_iff.mp hp
        obtain ⟨w, hw, hname⟩ := List.mem_map.mp hname
        obtain ⟨j, hj, rfl⟩ := mem_players_iff.mp (List.mem_filter.mp
          (Best.mem_best.mp (hothers.best ▸ hw)).1).1
        rw [length_resignSeat] at hk hj
        rw [name_resignSeat hidx hk, name_resignSeat hidx hj] at hname
        exact (mem_winners_iff hidx hothers hk).mpr
          (hnames j k ((mem_winners_iff hidx hothers hj).mp hw) hk hname.symm)
    · obtain ⟨env', op⟩ := i
      obtain rfl : op = .expireTurn := hi
      exact expireTurn_resigns_nobody hnobody

/-- The second player of a duel gives up with a placement of the first one pending. -/
theorem others_win_iff_duel :
    GivenUpRight stillEnv ((duel true).step (stillEnv, .placeTiles "a" duelOpening))
      (stillEnv, .resign "b") := by
  let g := (duel true).step (stillEnv, .placeTiles "a" duelOpening)
  have hreach : Reachable g := Runs.Reaches.next step (reachable_duel true) trivial
  refine (others_win_iff hreach stillEnv (stillEnv, .resign "b")).mpr fun idx hgives => ?_
  obtain rfl : idx = 1 := by
    obtain ⟨playerId, hop, -, hseat⟩ | ⟨hop, -⟩ := hgives
    · cases hop
      have hb : g.seatOf "b" = some 1 := by decide +kernel
      exact Option.some.inj (hseat.symm.trans hb)
    · cases hop
  have hlen : g.players.length = 2 := by decide +kernel
  refine ⟨⟨0, by decide +kernel, by decide, by decide +kernel⟩, fun j k hj hk hname => ?_⟩
  obtain rfl : j = 0 := by
    have hlt : j < 2 := hlen ▸ hj.1.1
    have hne : j ≠ 1 := hj.1.2.1
    omega
  obtain rfl | rfl : k = 0 ∨ k = 1 := by
    have hlt : k < 2 := hlen ▸ hk
    omega
  · exact hj
  · exact absurd hname (by decide +kernel)

/-- A game that is played alone. -/
def solo : Game :=
  Runs.run step (new stillEnv "solo" false 0 3)
    [(stillEnv, .addPlayer "a" "Anna"), (stillEnv, .start)]

/-- Whoever plays alone and gives up is the winner. -/
theorem others_win_solo :
    Reachable solo ∧ solo.started = true ∧ solo.finished = false ∧
      (solo.resign "a").2.isOk = true ∧
      (∃ w ∈ (solo.step (stillEnv, .resign "a")).winners, w.resigned = true) ∧
      ¬GivenUpRight stillEnv solo (stillEnv, .resign "a") := by
  have hwinner : ∃ w ∈ (solo.step (stillEnv, .resign "a")).winners, w.resigned = true := by
    decide +kernel
  refine ⟨⟨_, _, .inl ⟨_, _, _, _, _, rfl⟩, Runs.along_of_forall step (fun _ _ _ => trivial) _, rfl⟩,
    by decide +kernel, by decide +kernel, by decide +kernel, hwinner, fun h => ?_⟩
  obtain ⟨w, hw, hresigned⟩ := hwinner
  have hothers := (h.winners 0 (.inl ⟨"a", rfl, by decide +kernel, by decide +kernel⟩)).2.1
  exact absurd (hresigned.symm.trans (hothers.stayed w hw)) (by simp)

end Game

end ScrabbleMagyar
