import ScrabbleMagyar.Engine.Bounds

/-!
# Saving and restoring lose nothing

`fromSaveDict_toSaveDict` (`Engine/Restore.lean`) says what reading back a save yields: the game
up to casts, normalisations and the choice of the winners by name. In a reachable game the casts
and normalisations change nothing, and the names of the winners are among those seated, unless
the seat of a winner was taken away. So the round trip is the identity on what is stored
(`saved_game_restored`), with a pending placement taken back.
-/

namespace ScrabbleMagyar

/-! ## The strength of a bot -/

namespace Difficulty

theorem levelInRange_eq_some {n : ℤ} {m : ℕ} (h : levelInRange n = some m) :
    minLevel ≤ m ∧ m ≤ maxLevel := by
  unfold levelInRange at h
  split at h
  · rename_i hrange
    obtain rfl : n.toNat = m := by simpa using h
    omega
  · cases h

theorem legacyLevel_eq_some {text : List Char} {m : ℕ} (h : legacyLevel text = some m) :
    minLevel ≤ m ∧ m ≤ maxLevel := by
  unfold legacyLevel at h
  split_ifs at h <;> obtain rfl := Option.some.inj h <;> decide

/-- A level that is read is on the scale. -/
theorem parseLevel_eq_some {value : Json} {m : ℕ} (h : parseLevel value = some m) :
    minLevel ≤ m ∧ m ≤ maxLevel := by
  cases value with
  | int i => exact levelInRange_eq_some h
  | float q =>
    simp only [parseLevel] at h
    split at h
    · exact levelInRange_eq_some h
    · cases h
  | str s =>
    simp only [parseLevel, Option.or_eq_some_iff] at h
    obtain h | ⟨-, h⟩ := h
    · exact legacyLevel_eq_some h
    · obtain ⟨n, -, h⟩ := Option.bind_eq_some_iff.mp h
      exact levelInRange_eq_some h
  | null => cases h
  | bool b => cases h
  | arr items => cases h
  | obj fields => cases h

theorem normalizeDifficulty_cases (value : Json) :
    normalizeDifficulty value = auto ∨
      ∃ n, (minLevel ≤ n ∧ n ≤ maxLevel) ∧ normalizeDifficulty value = level n := by
  unfold normalizeDifficulty
  cases hparse : parseDifficulty value with
  | none => exact .inr ⟨defaultLevel, by decide, rfl⟩
  | some d =>
    simp only [parseDifficulty] at hparse
    rw [ite_eq_iff] at hparse
    obtain ⟨-, hauto⟩ | ⟨-, hlevel⟩ := hparse
    · exact .inl (Option.some.inj hauto).symm
    · obtain ⟨n, hn, rfl⟩ := Option.map_eq_some_iff.mp hlevel
      exact .inr ⟨n, parseLevel_eq_some hn, rfl⟩

/-- A normalised strength reads back as itself. -/
theorem normalizeDifficulty_toJson (value : Json) :
    normalizeDifficulty (normalizeDifficulty value).toJson = normalizeDifficulty value := by
  obtain h | ⟨n, hn, h⟩ := normalizeDifficulty_cases value <;> rw [h]
  · decide
  · have hrange : (minLevel : ℤ) ≤ n ∧ (n : ℤ) ≤ maxLevel := by exact_mod_cast hn
    simp [normalizeDifficulty, parseDifficulty, toJson, parseLevel, levelInRange, hrange]

end Difficulty

/-- The strength of a player is what reading it back gives: only bots have one. -/
def Player.Graded (p : Player) : Prop :=
  p.difficulty = if p.isBot then some (Difficulty.normalizeDifficulty p.difficultyJson) else none

theorem Newcomer.graded {q : Player} (h : Newcomer q) : q.Graded := by
  obtain ⟨playerId, name, rfl⟩ | ⟨playerId, name, difficulty, rfl⟩ := h
  · rfl
  · exact congrArg some (Difficulty.normalizeDifficulty_toJson difficulty).symm

theorem Descends.graded {late : Prop} {p q : Player} (h : Descends late p q) (hp : p.Graded) :
    q.Graded := by
  have hsame : q.difficulty = p.difficulty := h.difficulty.elim id fun hq => hq.trans hp.symm
  unfold Player.Graded Player.difficultyJson
  rw [hsame, h.isBot]
  exact hp

namespace Game

variable {env : Env} {g : Game}

theorem Reachable.graded (h : Reachable g) : ∀ p ∈ g.players, p.Graded := by
  refine Runs.Reaches.invariant step (P := fun g => ∀ p ∈ g.players, p.Graded) (fun g hg => ?_)
    (fun g i hg _ q hq => ?_) h
  · obtain ⟨_, _, _, _, _, rfl⟩ | ⟨_, _, _, rfl⟩ := hg <;> simp [new, newAsync]
  · obtain hnew | ⟨p, hp, hpq⟩ := (step_effect i.1 g i.2).lineage q hq
    · exact hnew.graded
    · exact hpq.graded (hg p hp)

/-! ## The winners -/

/-- The winners are seated: their names are among those of the seats, in the same order. -/
def WinnersSeated (g : Game) : Prop :=
  (g.winners.map Player.name).Sublist (g.players.map Player.name)

/-- A removal leaves the winners seated. -/
def WinnersStay (g : Game) (i : Input) : Prop :=
  ∀ playerId, i.2 = .removePlayer playerId → WinnersSeated (g.step i)

theorem WinnersSeated.congr {g' : Game} (h : WinnersSeated g)
    (hwinners : g'.winners.map Player.name = g.winners.map Player.name)
    (hplayers : g'.players.map Player.name = g.players.map Player.name) : WinnersSeated g' := by
  unfold WinnersSeated
  rw [hwinners, hplayers]
  exact h

/-- Whoever is chosen among the seats is seated. -/
theorem winnersSeated_of_sublist {g' : Game} (h : g'.winners.Sublist g'.players) :
    WinnersSeated g' := h.map _

theorem endGame_winnersSeated (g : Game) (finisher : Option ℕ) :
    WinnersSeated (g.endGame finisher) := by
  rw [endGame_rest]
  exact winnersSeated_of_sublist List.filter_sublist

theorem resignSeat_winnersSeated (g : Game) (idx : ℕ) : WinnersSeated (g.resignSeat idx) := by
  refine winnersSeated_of_sublist ?_
  simp only [resignSeat, setLastAction]
  split
  · exact List.filter_sublist.trans List.filter_sublist
  · rw [endGame_rest]
    exact List.filter_sublist

/-- A new connection changes no name among the winners. -/
theorem reconnectSeat_winners (g : Game) (idx : ℕ) (oldId newId : String) :
    (g.reconnectSeat idx oldId newId).winners.map Player.name = g.winners.map Player.name := by
  simp only [reconnectSeat, modifyPlayer, List.map_map]
  refine List.map_congr_left fun w _ => ?_
  simp only [Function.comp_apply]
  split <;> rfl

theorem Settles.winnersSeated {g' : Game} (hs : Settles env g g') (hp : g.puzzle = none)
    (h : WinnersSeated g) : WinnersSeated g' := by
  cases hs with
  | gameOver finisher => exact endGame_winnersSeated g finisher
  | solved idx score words puzzle => simp [hp] at puzzle
  | next =>
    refine h.congr ?_ (nextTurn_map _ _ fun _ _ => rfl)
    rw [nextTurn_rest]
  | stay => exact h

/-- No operation but a removal unseats a winner. -/
theorem WinnersSeated.effect {g' : Game} {op : Op} (h : WinnersSeated g) (hp : g.puzzle = none)
    (he : Effect env g op g') (hop : ∀ playerId, op ≠ .removePlayer playerId) : WinnersSeated g' := by
  have hmodify : ∀ (idx : ℕ) (f : Player → Player), (∀ p, (f p).name = p.name) →
      (g.players.modify idx f).map Player.name = g.players.map Player.name :=
    fun idx f hf => Lists.map_modify_eq hf _ _
  cases he with
  | joined playerId name =>
    refine List.Sublist.trans h ?_
    rw [List.map_append]
    exact List.sublist_append_left _ _
  | botJoined name difficulty seq =>
    refine List.Sublist.trans h ?_
    rw [List.map_append]
    exact List.sublist_append_left _ _
  | dealt => exact h.congr rfl (deal_map (fun _ _ => rfl) _ _)
  | dealtAt => exact h.congr rfl (deal_map (fun _ _ => rfl) _ _)
  | placed playerId tiles formed =>
    refine (finalizePlacement_settles env g _ _ _ _).winnersSeated hp (h.congr rfl ?_)
    rw [layTiles_players]
    exact hmodify _ _ fun _ => rfl
  | proposed playerId tiles formed => exact h.congr rfl (hmodify _ _ fun _ => rfl)
  | accepted op pc pending =>
    refine (closeTurn_settles env (g.layPending pc) _).winnersSeated hp (h.congr rfl ?_)
    rw [layPending_players]
    exact hmodify _ _ fun _ => rfl
  | rejected op pc pending =>
    refine (finalizeReject_settles env g pending).winnersSeated hp (h.congr rfl ?_)
    exact hmodify _ (fun p => { p with hand := p.hand ++ pc.removedFromHand }) fun _ => rfl
  | withdrawn playerId pc =>
    exact h.congr rfl (hmodify _ (fun p => { p with hand := p.hand ++ pc.removedFromHand })
      fun _ => rfl)
  | exchanged playerId tileIndices =>
    refine (scorelessNextTurn_settles env (g.swapTiles env tileIndices)).winnersSeated hp
      (h.congr rfl ?_)
    change (g.swapTiles env tileIndices).players.map Player.name = _
    rw [swapTiles_players]
    exact hmodify _ _ fun _ => rfl
  | passed playerId timeout =>
    refine (scorelessNextTurn_settles env (g.notePass timeout)).winnersSeated
      (by cases timeout <;> exact hp) (h.congr (by cases timeout <;> rfl) ?_)
    change (g.notePass timeout).players.map Player.name = _
    rw [notePass_players]
    exact hmodify _ _ fun _ => rfl
  | expired =>
    refine (scorelessNextTurn_settles env (g.notePass true)).winnersSeated hp (h.congr rfl ?_)
    change (g.notePass true).players.map Player.name = _
    rw [notePass_players]
    exact hmodify _ _ fun _ => rfl
  | expelled idx => exact resignSeat_winnersSeated _ idx
  | resigned playerId idx => exact resignSeat_winnersSeated g idx
  | ended => exact endGame_winnersSeated _ none
  | disconnected playerId idx => exact h.congr rfl (hmodify _ _ fun _ => rfl)
  | reconnected oldId newId idx =>
    exact h.congr (reconnectSeat_winners g idx oldId newId)
      (hmodify _ (Player.reconnect newId) fun _ => rfl)
  | removed playerId => exact absurd rfl (hop playerId)
  | skipped => exact (show Settles env _ _ from .next).winnersSeated hp h
  | restored => exact winnersSeated_of_sublist List.filter_sublist
  | _ => exact h.congr rfl rfl

theorem winnersSeated_of_reachableBy (h : ReachableBy WinnersStay g) : WinnersSeated g := by
  refine (Runs.Reaches.invariant step (P := fun g => g.puzzle = none ∧ WinnersSeated g)
    (fun g hg => ?_) (fun g i hg hi => ?_) h).2
  · obtain ⟨_, _, _, _, _, rfl⟩ | ⟨_, _, _, rfl⟩ := hg <;> exact ⟨rfl, List.nil_sublist _⟩
  · have he := step_effect i.1 g i.2
    refine ⟨(he.modes hg.1).1, ?_⟩
    by_cases hop : ∃ playerId, i.2 = .removePlayer playerId
    · obtain ⟨playerId, hop⟩ := hop
      exact hi playerId hop
    · exact hg.2.effect hg.1 he fun playerId hop' => hop ⟨playerId, hop'⟩

/-- A game that goes on has no winners. -/
def Undecided (g : Game) : Prop := g.finished = false → g.winners = []

theorem Undecided.congr {g' : Game} (h : Undecided g) (hfinished : g'.finished = g.finished)
    (hwinners : g'.winners.map Player.name = g.winners.map Player.name) : Undecided g' := by
  intro hrun
  rw [hfinished] at hrun
  rw [h hrun, List.map_nil, List.map_eq_nil_iff] at hwinners
  exact hwinners

theorem undecided_of_finished {g' : Game} (h : g'.finished = true) : Undecided g' := fun hrun =>
  absurd (h.symm.trans hrun) (by simp)

theorem Settles.undecided {g' : Game} (hs : Settles env g g') (hp : g.puzzle = none)
    (h : Undecided g) : Undecided g' := by
  cases hs with
  | gameOver finisher => exact undecided_of_finished (endGame_finished g finisher)
  | solved idx score words puzzle => simp [hp] at puzzle
  | next => exact h.congr (by rw [nextTurn_rest]) (by rw [nextTurn_rest])
  | stay => exact h

/-- Winners are found when the game ends. -/
theorem Undecided.effect {g' : Game} {op : Op} (h : Undecided g) (hp : g.puzzle = none)
    (he : Effect env g op g') : Undecided g' := by
  cases he with
  | placed playerId tiles formed =>
    exact (finalizePlacement_settles env g _ _ _ _).undecided hp (h.congr rfl rfl)
  | accepted op pc pending =>
    exact (closeTurn_settles env (g.layPending pc) _).undecided hp (h.congr rfl rfl)
  | rejected op pc pending =>
    exact (finalizeReject_settles env g pending).undecided hp (h.congr rfl rfl)
  | exchanged playerId tileIndices =>
    exact (scorelessNextTurn_settles env (g.swapTiles env tileIndices)).undecided hp (h.congr rfl rfl)
  | passed playerId timeout =>
    cases timeout <;>
      exact (scorelessNextTurn_settles env (g.notePass _)).undecided hp (h.congr rfl rfl)
  | expired =>
    exact (scorelessNextTurn_settles env (g.notePass true)).undecided hp (h.congr rfl rfl)
  | expelled idx => exact undecided_of_finished (by rw [resignSeat_rest])
  | resigned playerId idx => exact undecided_of_finished (by rw [resignSeat_rest])
  | ended => exact undecided_of_finished (endGame_finished _ none)
  | reconnected oldId newId idx => exact h.congr rfl (reconnectSeat_winners g idx oldId newId)
  | removed playerId idx =>
    unfold removeSeat
    dsimp only
    split <;> exact h.congr rfl rfl
  | skipped => exact (show Settles env _ _ from .next).undecided hp h
  | restored =>
    intro hrun
    change (g.restoredPlayers.filter fun p => decide (p.name ∈ g.winners.map Player.name)) = []
    rw [h hrun]
    simp
  | _ => exact h.congr rfl rfl

theorem Reachable.undecided (h : Reachable g) : Undecided g := by
  refine (Runs.Reaches.invariant step (P := fun g => g.puzzle = none ∧ Undecided g)
    (fun g hg => ?_) (fun g i hg _ => ?_) h).2
  · obtain ⟨_, _, _, _, _, rfl⟩ | ⟨_, _, _, rfl⟩ := hg <;> exact ⟨rfl, fun _ => rfl⟩
  · have he := step_effect i.1 g i.2
    exact ⟨(he.modes hg.1).1, hg.2.effect hg.1 he⟩

/-! ## The round trip -/

/-- A player whom the casts and normalisations of a save leave alone. -/
structure Storable (p : Player) : Prop where
  score : toI32 p.score = p.score
  timeouts : toU32 p.timeouts = p.timeouts
  connected : p.isBot = true → p.disconnected = false
  graded : p.Graded

theorem restoredPlayer_eq {p : Player} (h : Storable p) (hand : List Tile) :
    restoredPlayer p hand = { p with hand } := by
  have hconnected : (if p.isBot then false else p.disconnected) = p.disconnected := by
    split
    · exact (h.connected (by assumption)).symm
    · rfl
  unfold restoredPlayer
  rw [h.score, h.timeouts, hconnected, ← h.graded]

/-- The restored players are the saved ones, with a pending placement undone. -/
theorem restoredPlayers_eq (h : ∀ p ∈ g.players, Storable p) :
    g.restoredPlayers = g.unwindPending.players := by
  rw [unwindPending_players]
  exact List.map_congr_left fun e he => restoredPlayer_eq (h _ (List.fst_mem_of_mem_zipIdx he)) _

/-- What is stored of the players, from the restored game. -/
theorem playersToSave_restored (env : Env) (h : ∀ p ∈ g.players, Storable p) :
    ((g.restored env).players.zipIdx.map fun e =>
        playerToSave e.1 ((g.restored env).savedHand e.2 e.1)) =
      g.players.zipIdx.map fun e => playerToSave e.1 (g.savedHand e.2 e.1) := by
  change (g.restoredPlayers.zipIdx.map fun e => playerToSave e.1 e.1.hand) = _
  rw [restoredPlayers_eq h, unwindPending_players]
  refine List.ext_getElem (by simp) fun i h₁ h₂ => ?_
  simp [playerToSave, Player.difficultyJson]

/-- The names of the winners survive, found again among the seats. -/
theorem winners_restored (env : Env) (h : WinnersSeated g)
    (hnames : (g.players.map Player.name).Nodup) :
    (g.restored env).winners.map Player.name = g.winners.map Player.name := by
  have hseats := g.restoredPlayers_map (h := Player.name) fun _ _ => rfl
  calc (g.restoredPlayers.filter fun p => p.name ∈ g.winners.map Player.name).map Player.name
      = (g.restoredPlayers.map Player.name).filter fun name =>
          decide (name ∈ g.winners.map Player.name) := by rw [List.filter_map]; rfl
    _ = g.winners.map Player.name := by
      rw [hseats, Lists.filter_mem_of_sublist h hnames]

/-- `g'` is `g` as far as it is stored, with a pending placement taken back. -/
structure TakenBack (g g' : Game) : Prop where
  id : g'.id = g.id
  board : g'.board = g.board
  bag : g'.bag = g.bag
  players : g'.players = g.unwindPending.players
  pendingChallenge : g'.pendingChallenge = none
  currentPlayerIdx : g'.currentPlayerIdx = g.currentPlayerIdx
  turnNumber : g'.turnNumber = g.turnNumber
  turnTimeLimit : g'.turnTimeLimit = g.turnTimeLimit
  challengeMode : g'.challengeMode = g.challengeMode
  scorelessTurns : g'.scorelessTurns = g.scorelessTurns
  hintLimit : g'.hintLimit = g.hintLimit
  hintsUsed : g'.hintsUsed = g.hintsUsed
  asyncMode : g'.asyncMode = g.asyncMode
  turnHours : g'.turnHours = g.turnHours
  turnDeadline : g'.turnDeadline = g.turnDeadline
  started : g'.started = g.started
  finished : g'.finished = g.finished
  winners : g'.winners.map Player.name = g.winners.map Player.name

/-- **The round trip**: from what a reachable game stores the same game is read back, with a
pending placement taken back, and it stores the same again. The players have different names,
the winners of a game that is over are still seated, and no bot is marked as disconnected. -/
theorem saved_game_restored (env : Env) {g : Game} (h : Reachable g)
    (hnames : (g.players.map Player.name).Nodup)
    (hseated : g.finished = true → WinnersSeated g)
    (hbots : ∀ p ∈ g.players, p.isBot = true → p.disconnected = false) :
    ∃ g', fromSaveDict env g.toSaveDict = .ok g' ∧ TakenBack g g' ∧
      g'.toSaveDict = g.toSaveDict := by
  have hbounded := h.bounded
  have hseated : WinnersSeated g := by
    cases hfinished : g.finished with
    | true => exact hseated hfinished
    | false =>
      unfold WinnersSeated
      rw [h.undecided hfinished]
      exact List.nil_sublist _
  have hstorable : ∀ p ∈ g.players, Storable p := fun p hp =>
    ⟨hbounded.scored.toI32 hp, hbounded.prompt.toU32 hp, hbots p hp, h.graded p hp⟩
  have hscoreless : (g.restored env).scorelessTurns = g.scorelessTurns := by
    have hlimit := hbounded.metered.scoreless
    exact toU32_natCast (by simp only [scorelessTurnsLimit] at hlimit; omega)
  have hhints : (g.restored env).hintLimit = g.hintLimit ∧
      (g.restored env).hintsUsed = g.hintsUsed :=
    ⟨if_pos hbounded.metered.limit, max_eq_left hbounded.metered.used⟩
  have hwinners := winners_restored env hseated hnames
  refine ⟨g.restored env, fromSaveDict_toSaveDict env g, ?_, ?_⟩
  · exact ⟨rfl, rfl, rfl, restoredPlayers_eq hstorable, rfl, rfl, rfl, rfl, rfl, hscoreless,
      hhints.1, hhints.2, rfl, rfl, rfl, rfl, rfl, hwinners⟩
  · have hnames' : ((g.restored env).winners.map fun w => Json.str w.name) =
        g.winners.map fun w => Json.str w.name := by
      simpa [Function.comp_def] using congrArg (List.map Json.str) hwinners
    have hinfo : Json.ofOption (fun j => j) (g.savedLastAction.2.filter fun v => !v.isNull) =
        Json.ofOption (fun j => j) g.savedLastAction.2 := by
      rcases g.savedLastAction.2 with _ | (_ | _) <;> rfl
    have haction : (g.restored env).savedLastAction =
        (g.savedLastAction.1, g.savedLastAction.2.filter fun v => !v.isNull) := rfl
    unfold toSaveDict
    rw [playersToSave_restored env hstorable, hnames', hscoreless, hhints.1, hhints.2, haction, hinfo]
    rfl

/-- A duel that the second player gave up with a placement pending, and left. -/
def abandonedDuel : Game :=
  Runs.run step (duel true) [(stillEnv, .placeTiles "a" duelOpening), (stillEnv, .resign "b"),
    (stillEnv, .removePlayer "b")]

theorem reachableBy_abandonedDuel : ReachableBy WinnersStay abandonedDuel := by
  unfold abandonedDuel duel
  rw [← Runs.run_append]
  refine Runs.Reaches.run step (.init step (.inl ⟨_, _, _, _, _, rfl⟩)) ?_
  refine ⟨nofun, nofun, nofun, nofun, nofun, fun _ _ => ?_, trivial⟩
  unfold WinnersSeated
  decide +kernel

theorem saved_game_restored_duel :
    ∃ g', fromSaveDict stillEnv abandonedDuel.toSaveDict = .ok g' ∧ TakenBack abandonedDuel g' ∧
      g'.toSaveDict = abandonedDuel.toSaveDict :=
  saved_game_restored stillEnv (reachableBy_abandonedDuel.mono step fun _ _ _ => trivial)
    (by decide +kernel) (fun _ => winnersSeated_of_reachableBy reachableBy_abandonedDuel)
    (by decide +kernel)

end Game

end ScrabbleMagyar
