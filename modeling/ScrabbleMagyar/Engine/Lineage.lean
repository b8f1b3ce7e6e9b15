import ScrabbleMagyar.Engine.Progress

/-!
# Where a player comes from

A player of the game after an operation is a newcomer, or descends from a player before it,
with the name and the kind kept, the strength kept or normalised and the missed deadlines
counted, cleared or kept (`Effect.lineage`). The invariants of single players follow from it.
-/

namespace ScrabbleMagyar

/-- What moves and the end of the game leave alone. -/
def Player.standing (p : Player) : String × Bool × Option Difficulty × ℕ :=
  (p.name, p.isBot, p.difficulty, p.timeouts)

/-- `q` is what became of `p`; only a `late` operation counts a missed deadline. -/
structure Descends (late : Prop) (p q : Player) : Prop where
  name : q.name = p.name
  isBot : q.isBot = p.isBot
  difficulty : q.difficulty = p.difficulty ∨ q.difficulty =
    if p.isBot then some (Difficulty.normalizeDifficulty p.difficultyJson) else none
  timeouts : q.timeouts = p.timeouts ∨ q.timeouts = 0 ∨ q.timeouts = toU32 p.timeouts ∨
    late ∧ q.timeouts = p.timeouts + 1

theorem Descends.of_standing {late : Prop} {p q : Player} (h : q.standing = p.standing) :
    Descends late p q := by
  simp only [Player.standing, Prod.mk.injEq] at h
  exact ⟨h.1, h.2.1, .inl h.2.2.1, .inl h.2.2.2⟩

/-- A player who has just joined. -/
def Newcomer (q : Player) : Prop :=
  (∃ playerId name, q = Player.new playerId name) ∨
    ∃ playerId name difficulty, q = Player.newBot playerId name difficulty

namespace Game

variable {env : Env} {g : Game}

/-- A missed deadline, which takes a turn without a score. -/
structure Late (env : Env) (g : Game) (op : Op) (g' : Game) : Prop where
  missed : (∃ playerId, op = .passTurn playerId true) ∨ op = .expireTurn ∧ g.asyncMode = true
  turn : Turn env g .scoreless g'

/-- Every player of the second list descends from one of the first. -/
def AllDescend (late : Prop) (players players' : List Player) : Prop :=
  ∀ q ∈ players', ∃ p ∈ players, Descends late p q

theorem AllDescend.of_modify {late : Prop} {players : List Player} {idx : ℕ}
    {f : Player → Player} (hf : ∀ p, Descends late p (f p)) :
    AllDescend late players (players.modify idx f) := by
  intro q hq
  obtain hq | ⟨p, hp, -, rfl⟩ := Lists.mem_modify hq
  · exact ⟨q, hq, .of_standing rfl⟩
  · exact ⟨p, hp, hf p⟩

/-- Players of the same standing descend from the same. -/
theorem AllDescend.trans_map {late : Prop} {players players' players'' : List Player}
    (h : AllDescend late players players')
    (hmap : players''.map Player.standing = players'.map Player.standing) :
    AllDescend late players players'' := by
  intro q hq
  obtain ⟨r, hr, hrq⟩ := List.mem_map.mp (hmap ▸ List.mem_map_of_mem hq)
  obtain ⟨p, hp, hpr⟩ := h r hr
  simp only [Player.standing, Prod.mk.injEq] at hrq
  exact ⟨p, hp, hrq.1 ▸ hpr.name, hrq.2.1 ▸ hpr.isBot, hrq.2.2.1 ▸ hpr.difficulty,
    hrq.2.2.2 ▸ hpr.timeouts⟩

theorem AllDescend.of_map {late : Prop} {players players' : List Player}
    (h : players'.map Player.standing = players.map Player.standing) :
    AllDescend late players players' :=
  AllDescend.trans_map (fun q hq => ⟨q, hq, .of_standing rfl⟩) h

/-- Closing a turn keeps the standing of the players. -/
theorem Settles.allDescend {late : Prop} {g' : Game} {players : List Player}
    (h : Settles env g g') (hg : AllDescend late players g.players) :
    AllDescend late players g'.players :=
  hg.trans_map (h.map_eq (fun _ _ => rfl) fun _ _ => rfl)

theorem resignSeat_standing (idx : ℕ) :
    (g.resignSeat idx).players.map Player.standing = g.players.map Player.standing := by
  rw [resignSeat_rest]
  exact (settle_map (fun _ _ => rfl) _ none).trans
    (Lists.map_modify_eq (f := fun p : Player => { p with resigned := true }) (fun _ => rfl) _ _)

theorem descends_passed {late : Prop} {timeout : Bool} (h : timeout = true → late) (p : Player) :
    Descends late p (passed timeout p) := by
  refine ⟨rfl, rfl, .inl rfl, ?_⟩
  cases timeout with
  | true => exact .inr (.inr (.inr ⟨h rfl, rfl⟩))
  | false => exact .inr (.inl rfl)

theorem notePass_allDescend {late : Prop} {timeout : Bool} (h : timeout = true → late) :
    AllDescend late g.players (g.notePass timeout).players := by
  rw [notePass_players]
  exact .of_modify (descends_passed h)

/-- **Where a player comes from**: after an operation every player is a newcomer or descends
from a player before it. -/
theorem Effect.lineage {g' : Game} {op : Op} (he : Effect env g op g') :
    ∀ q ∈ g'.players, Newcomer q ∨ ∃ p ∈ g.players, Descends (Late env g op g') p q := by
  suffices h : AllDescend (Late env g op g') g.players g'.players ∨
      ∃ q, Newcomer q ∧ g'.players = g.players ++ [q] by
    intro q hq
    obtain h | ⟨r, hr, h⟩ := h
    · exact .inr (h q hq)
    · obtain hq | rfl : q ∈ g.players ∨ q = r := by simpa [h] using hq
      · exact .inr ⟨q, hq, .of_standing rfl⟩
      · exact .inl hr
  cases he with
  | joined playerId name => exact .inr ⟨_, .inl ⟨_, _, rfl⟩, rfl⟩
  | botJoined name difficulty seq => exact .inr ⟨_, .inr ⟨_, _, _, rfl⟩, rfl⟩
  | dealt => exact .inl (.of_map (deal_map (fun _ _ => rfl) _ _))
  | dealtAt => exact .inl (.of_map (deal_map (fun _ _ => rfl) _ _))
  | placed playerId tiles formed =>
    refine .inl ((finalizePlacement_settles env g _ _ _ _).allDescend ?_)
    rw [layTiles_players]
    exact .of_modify fun p => ⟨rfl, rfl, .inl rfl, .inr (.inl rfl)⟩
  | proposed playerId tiles formed =>
    exact .inl (.of_map (Lists.map_modify_eq
      (f := fun p : Player => { p with hand := (removeTilesFromHand p.hand tiles).1 })
      (fun _ => rfl) _ _))
  | accepted op pc pending =>
    refine .inl ((closeTurn_settles env _ _).allDescend (.of_map ?_))
    rw [layPending_players]
    exact Lists.map_modify_eq (f := g.accepted pc.score) (fun _ => rfl) _ _
  | rejected op pc pending =>
    exact .inl ((finalizeReject_settles env g pending).allDescend (.of_map (Lists.map_modify_eq
      (f := fun p : Player => { p with hand := p.hand ++ pc.removedFromHand }) (fun _ => rfl) _ _)))
  | withdrawn playerId pc =>
    exact .inl (.of_map (Lists.map_modify_eq
      (f := fun p : Player => { p with hand := p.hand ++ pc.removedFromHand }) (fun _ => rfl) _ _))
  | exchanged playerId tileIndices =>
    refine .inl ((scorelessNextTurn_settles env _).allDescend ?_)
    change AllDescend _ _ (g.swapTiles env tileIndices).players
    rw [swapTiles_players]
    exact .of_modify fun p => ⟨rfl, rfl, .inl rfl, .inr (.inl rfl)⟩
  | passed playerId timeout may =>
    exact .inl ((scorelessNextTurn_settles env _).allDescend (notePass_allDescend fun htimeout =>
      ⟨.inl ⟨playerId, by rw [htimeout]⟩, .passed _ ⟨_, may⟩⟩))
  | expired may async =>
    exact .inl ((scorelessNextTurn_settles env _).allDescend
      (notePass_allDescend fun _ => ⟨.inr ⟨rfl, async⟩, .passed _ may⟩))
  | expelled idx may async started seat goesOn =>
    have hnext : Settles env (g.notePass true).bumped ((g.notePass true).bumped.nextTurn env) := .next
    exact .inl ((hnext.allDescend (notePass_allDescend fun _ =>
      ⟨.inr ⟨rfl, async⟩, .expelled idx may goesOn⟩)).trans_map (resignSeat_standing idx))
  | resigned playerId idx => exact .inl (.of_map (resignSeat_standing idx))
  | ended =>
    refine .inl ((show Settles env _ _ from .gameOver none).allDescend (.of_map ?_))
    cases hpc : g.pendingChallenge with
    | none => simp only [unwindPending, hpc]
    | some pc =>
      simp only [unwindPending, hpc]
      exact Lists.map_modify_eq
        (f := fun p : Player => { p with hand := p.hand ++ pc.removedFromHand }) (fun _ => rfl) _ _
  | disconnected playerId idx =>
    exact .inl (.of_map (Lists.map_modify_eq (f := fun p : Player => { p with disconnected := true })
      (fun _ => rfl) _ _))
  | reconnected oldId newId idx =>
    exact .inl (.of_map (Lists.map_modify_eq (f := Player.reconnect newId) (fun _ => rfl) _ _))
  | removed playerId idx =>
    refine .inl fun q hq => ⟨q, ?_, .of_standing rfl⟩
    exact List.mem_of_mem_eraseIdx (removeSeat_players g idx ▸ hq)
  | skipped => exact .inl (Settles.next.allDescend (.of_map rfl))
  | restored =>
    refine .inl fun q hq => ?_
    obtain ⟨⟨p, i⟩, hp, rfl⟩ := List.mem_map.mp (show q ∈ g.restoredPlayers from hq)
    exact ⟨p, List.fst_mem_of_mem_zipIdx hp, rfl, rfl, .inr rfl, .inr (.inr (.inl rfl))⟩
  | _ => exact .inl (.of_map rfl)

/-! ## The kind of a game -/

theorem Settles.modes {g' : Game} (h : Settles env g g') (hp : g.puzzle = none) :
    g'.puzzle = none ∧ g'.asyncMode = g.asyncMode := by
  cases h with
  | gameOver finisher =>
    rw [endGame_rest]
    exact ⟨hp, rfl⟩
  | solved idx score words => exact ⟨by simp [finishPuzzle, setLastAction, hp], rfl⟩
  | next =>
    rw [nextTurn_rest]
    exact ⟨hp, rfl⟩
  | stay => exact ⟨hp, rfl⟩

/-- No operation makes a game a puzzle or gives it deadlines. -/
theorem Effect.modes {g' : Game} {op : Op} (he : Effect env g op g')
    (hp : g.puzzle = none) : g'.puzzle = none ∧ g'.asyncMode = g.asyncMode := by
  cases he with
  | placed playerId tiles formed => exact (finalizePlacement_settles env g _ _ _ _).modes hp
  | accepted op pc => exact (closeTurn_settles env (g.layPending pc) _).modes hp
  | rejected op pc pending => exact (finalizeReject_settles env g pending).modes hp
  | exchanged playerId tileIndices =>
    exact (scorelessNextTurn_settles env (g.swapTiles env tileIndices)).modes hp
  | passed playerId timeout =>
    cases timeout
    · exact (scorelessNextTurn_settles env (g.notePass false)).modes hp
    · exact (scorelessNextTurn_settles env (g.notePass true)).modes hp
  | expired => exact (scorelessNextTurn_settles env (g.notePass true)).modes hp
  | expelled idx =>
    have hnext : Settles env (g.notePass true).bumped ((g.notePass true).bumped.nextTurn env) := .next
    rw [resignSeat_rest]
    exact hnext.modes hp
  | resigned playerId idx =>
    rw [resignSeat_rest]
    exact ⟨hp, rfl⟩
  | ended =>
    have hunwind : g.unwindPending.puzzle = none ∧ g.unwindPending.asyncMode = g.asyncMode := by
      cases hpc : g.pendingChallenge <;> simp [unwindPending, hpc, returnTiles, modifyPlayer, hp]
    rw [endGame_rest]
    exact hunwind
  | removed playerId idx =>
    simp only [removeSeat]
    split <;> exact ⟨hp, rfl⟩
  | skipped =>
    rw [nextTurn_rest]
    exact ⟨hp, rfl⟩
  | restored => exact ⟨rfl, rfl⟩
  | _ => exact ⟨hp, rfl⟩

end Game

end ScrabbleMagyar
