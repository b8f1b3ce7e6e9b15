import ScrabbleMagyar.Engine.Step
import ScrabbleMagyar.Engine.View

/-!
# What clients cannot see

The secrets of a game are the tiles in the hands of others, the bag, the tiles that a pending
placement holds back and the racks in the move log. `redact` blots them out and keeps only
their numbers; every view is a function of the redacted game, so that two games which differ in
secrets alone look the same.

* `getState_redact`, `getAllStates_redact`: the views do not change under `redact`.
* `views_eq`: games that agree after `redact` have the same views.
-/

namespace ScrabbleMagyar

/-! ## Redacted values -/

/-- Tiles turned face down. -/
def faceDown (tiles : List Tile) : List Tile := List.replicate tiles.length Tile.blank

@[simp] theorem length_faceDown (tiles : List Tile) : (faceDown tiles).length = tiles.length :=
  List.length_replicate

/-- A player with the hand face down, unless it is the viewer's. -/
def Player.redact (viewer : Option String) (p : Player) : Player :=
  { p with hand := if some p.id = viewer then p.hand else faceDown p.hand }

def Challenge.redact (c : Challenge) : Challenge := { c with removedFromHand := [] }

def MoveLog.redact (m : MoveLog) : MoveLog := { m with details := m.details.remove "rack" }

/-- A game without its secrets, as far as `viewer` may know them. -/
def Game.redact (viewer : Option String) (g : Game) : Game :=
  { g with
    players := g.players.map (Player.redact viewer)
    bag := ⟨faceDown g.bag.tiles⟩
    winners := g.winners.map (Player.redact none)
    pendingChallenge := g.pendingChallenge.map Challenge.redact
    moveLog := g.moveLog.map MoveLog.redact }

/-! ## The parts of the view -/

namespace Player

variable (viewer : Option String) (p : Player)

@[simp] theorem redact_id : (p.redact viewer).id = p.id := rfl

@[simp] theorem redact_name : (p.redact viewer).name = p.name := rfl

@[simp] theorem redact_isBot : (p.redact viewer).isBot = p.isBot := rfl

@[simp] theorem length_redact_hand : (p.redact viewer).hand.length = p.hand.length := by
  simp only [redact]
  split <;> simp

/-- Without its hand a player shows only the number of tiles in it. -/
theorem redact_toJson_false : (p.redact viewer).toJson false = p.toJson false := by
  simp only [toJson, length_redact_hand, Bool.false_eq_true, if_false]
  rfl

/-- The hand of the viewer is kept, and no other is shown. -/
theorem redact_toJson :
    (p.redact viewer).toJson (decide (some p.id = viewer)) =
      p.toJson (decide (some p.id = viewer)) := by
  by_cases h : some p.id = viewer
  · have hsame : p.redact viewer = p := by simp [redact, h]
    rw [hsame]
  · simp only [h, decide_false, redact_toJson_false]

end Player

/-- The history shows nothing of a rack. -/
theorem Game.historyEntry_redact (m : MoveLog) :
    Game.historyEntry m.redact = Game.historyEntry m := by
  simp only [Game.historyEntry, MoveLog.redact,
    Json.get?_remove m.details (show "tiles" ≠ "rack" by decide),
    Json.get?_remove m.details (show "words" ≠ "rack" by decide),
    Json.get?_remove m.details (show "score" ≠ "rack" by decide)]

theorem Challenge.toState_redact (viewer : Option String) (c : Challenge) (players : List Player) :
    c.redact.toState (players.map (Player.redact viewer)) = c.toState players := by
  have hplacer (h : Player → String) (hh : ∀ p, h (Player.redact viewer p) = h p) :
      h ((players.map (Player.redact viewer)).getD c.playerIdx default) =
        h (players.getD c.playerIdx default) := by
    by_cases hseat : c.playerIdx < players.length
    · simp [List.getD_eq_getElem?_getD, hseat, hh]
    · simp [List.getD_eq_getElem?_getD, not_lt.mp hseat]
  simp only [Challenge.toState, Challenge.redact, List.length_map,
    hplacer Player.id (fun _ => rfl), hplacer Player.name (fun _ => rfl)]

namespace Game

variable (viewer : Option String) (g : Game)

theorem history_redact : (g.redact viewer).history = g.history := by
  simp only [history, redact, List.map_map]
  exact List.map_congr_left fun m _ => historyEntry_redact m

theorem liveWinner_redact (w : Player) :
    ((g.redact viewer).liveWinner (w.redact none)).toJson false =
      (g.liveWinner w).toJson false := by
  have hfind : (g.players.map (Player.redact viewer)).find? (fun p => decide (p.name = w.name)) =
      (g.players.find? fun p => decide (p.name = w.name)).map (Player.redact viewer) :=
    List.find?_map
  change (((g.players.map (Player.redact viewer)).find? fun p => decide (p.name = w.name)).getD
    (w.redact none)).toJson false = _
  rw [hfind, liveWinner]
  cases g.players.find? fun p => decide (p.name = w.name) with
  | none => exact Player.redact_toJson_false none w
  | some p => exact Player.redact_toJson_false viewer p

/-- The winners are shown without their hands, as seated or as at the end. -/
theorem winners_redact :
    ((g.redact viewer).winners.map (g.redact viewer).liveWinner).map (fun w => w.toJson false) =
      (g.winners.map g.liveWinner).map fun w => w.toJson false := by
  change ((g.winners.map (Player.redact none)).map (g.redact viewer).liveWinner).map _ = _
  simp only [List.map_map]
  exact List.map_congr_left fun w _ => liveWinner_redact viewer g w

theorem currentPlayer_redact :
    (g.redact viewer).currentPlayer = g.currentPlayer.map (Player.redact viewer) := by
  simp [currentPlayer, redact]

theorem soleWinner_eq {ws ws' : List Player}
    (h : ws.map (fun w => w.toJson false) = ws'.map fun w => w.toJson false) :
    soleWinner ws = soleWinner ws' := by
  obtain _ | ⟨w, _ | ⟨_, _⟩⟩ := ws <;> obtain _ | ⟨w', _ | ⟨_, _⟩⟩ := ws' <;>
    simp_all [soleWinner]

theorem sharedState_redact : (g.redact viewer).sharedState = g.sharedState := by
  have hwinner : soleWinner ((g.redact viewer).winners.map (g.redact viewer).liveWinner) =
      soleWinner (g.winners.map g.liveWinner) := soleWinner_eq (winners_redact viewer g)
  have hcurrent := currentPlayer_redact viewer g
  have hid : Json.ofOption (fun p : Player => .str p.id) (g.redact viewer).currentPlayer =
      Json.ofOption (fun p => .str p.id) g.currentPlayer := by
    rw [hcurrent]
    exact Json.ofOption_map (h := Player.redact viewer) (fun _ => rfl) _
  have hname : Json.ofOption (fun p : Player => .str p.name) (g.redact viewer).currentPlayer =
      Json.ofOption (fun p => .str p.name) g.currentPlayer := by
    rw [hcurrent]
    exact Json.ofOption_map (h := Player.redact viewer) (fun _ => rfl) _
  have hpending : Json.ofOption (fun pc => pc.toState (g.redact viewer).players)
      (g.redact viewer).pendingChallenge =
        Json.ofOption (fun pc => pc.toState g.players) g.pendingChallenge := by
    cases hpc : g.pendingChallenge with
    | none => simp [redact, hpc, Json.ofOption]
    | some pc => simpa [redact, hpc, Json.ofOption] using Challenge.toState_redact viewer pc g.players
  have hremaining : (g.redact viewer).bag.remaining = g.bag.remaining :=
    length_faceDown g.bag.tiles
  simp only [sharedState, hwinner, hid, hname, hpending, hremaining, history_redact, winners_redact]
  rfl

/-! ## The views -/

/-- The state that a viewer sees is a function of the redacted game. -/
theorem getState_redact : (g.redact viewer).getState viewer = g.getState viewer := by
  have hplayers : (g.redact viewer).players.map
      (fun p => p.toJson (decide (some p.id = viewer))) =
        g.players.map fun p => p.toJson (decide (some p.id = viewer)) := by
    change (g.players.map (Player.redact viewer)).map _ = _
    rw [List.map_map]
    exact List.map_congr_left fun p _ => Player.redact_toJson viewer p
  rw [getState, getState, stateFromShared, stateFromShared, hplayers, sharedState_redact]

/-- What `playerId` is sent when the state goes out to all. -/
def sentTo (g : Game) (playerId : String) : List (String × Json) :=
  g.getAllStates.filter fun e => e.1 = playerId

/-- A player is sent the state that the player sees, once for each seat. -/
theorem sentTo_eq (playerId : String) :
    g.sentTo playerId =
      (g.players.filter fun p => !p.isBot && decide (p.id = playerId)).map fun _ =>
        (playerId, g.getState (some playerId)) := by
  simp only [sentTo, getAllStates, List.filter_map, List.filter_filter]
  have hfilter : (g.players.filter fun p =>
      ((fun e : String × Json => decide (e.1 = playerId)) ∘ fun p : Player =>
        (p.id, g.stateFromShared g.sharedState (some p.id))) p && !p.isBot) =
      g.players.filter fun p => !p.isBot && decide (p.id = playerId) :=
    List.filter_congr fun p _ => Bool.and_comm _ _
  rw [hfilter]
  refine List.map_congr_left fun p hp => ?_
  obtain ⟨-, -, rfl⟩ : p ∈ g.players ∧ p.isBot = false ∧ p.id = playerId := by
    simpa using hp
  rfl

theorem sentTo_redact (playerId : String) :
    (g.redact (some playerId)).sentTo playerId = g.sentTo playerId := by
  rw [sentTo_eq, sentTo_eq, getState_redact]
  change ((g.players.map (Player.redact (some playerId))).filter _).map _ = _
  rw [List.filter_map, List.map_map]
  rfl

/-- **Secrets stay hidden**: two games that differ only in what is hidden from a player look the
same to that player, and two games that differ only in hidden tiles look the same to
spectators. -/
theorem views_eq (g g' : Game) (playerId : String) :
    (g.redact (some playerId) = g'.redact (some playerId) →
      g.getState (some playerId) = g'.getState (some playerId) ∧
        g.sentTo playerId = g'.sentTo playerId) ∧
      (g.redact none = g'.redact none →
        g.getState none = g'.getState none ∧ g.getSpectatorState = g'.getSpectatorState) := by
  refine ⟨fun h => ⟨?_, ?_⟩, fun h => ?_⟩
  · rw [← getState_redact, h, getState_redact]
  · rw [← sentTo_redact, h, sentTo_redact]
  · have hstate : g.getState none = g'.getState none := by
      rw [← getState_redact, h, getState_redact]
    exact ⟨hstate, by rw [getSpectatorState, getSpectatorState, hstate]⟩

/-- Player `a` of a duel does not see the tiles of `b` or the order of the bag. -/
theorem views_eq_duel :
    (duel true).getState (some "a") =
      ({ duel true with
        players := (duel true).players.modify 1 fun p => { p with hand := p.hand.reverse }
        bag := ⟨(duel true).bag.tiles.reverse⟩ } : Game).getState (some "a") := by
  have hplayers : (duel true).players.map (Player.redact (some "a")) =
      ((duel true).players.modify 1 fun p => { p with hand := p.hand.reverse }).map
        (Player.redact (some "a")) := by decide +kernel
  have hbag : faceDown (duel true).bag.tiles = faceDown (duel true).bag.tiles.reverse := by
    simp [faceDown]
  exact ((views_eq _ _ "a").1 (by simp only [redact, hplayers, hbag])).1

end Game

end ScrabbleMagyar
