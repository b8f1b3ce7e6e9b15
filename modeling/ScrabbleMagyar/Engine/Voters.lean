import ScrabbleMagyar.Engine.GameOver
import ScrabbleMagyar.Engine.Resignation
import ScrabbleMagyar.Foundations.Fresh

/-!
# Who still has to vote

A pending placement waits for the players who may vote and have not (`Outstanding`). The last
vote decides, so there always is one (`WaitsForSomebody`), as long as the last of them is not
taken out of the game, and nobody comes back under an identifier that another seat has or that
has voted (`KeepsVoters`).
-/

namespace ScrabbleMagyar

/-- The operations that seat players, take them away or rename them. -/
def Op.reseats : Op → Bool
  | .addPlayer _ _ => true
  | .addBot _ _ => true
  | .replacePlayerSid _ _ => true
  | .removePlayer _ => true
  | _ => false

namespace Game

/-- A seat that may vote on a pending placement and has not: a human other than the placer. -/
def Outstanding (g : Game) (pc : Challenge) (j : ℕ) : Prop :=
  j < g.players.length ∧ j ≠ pc.playerIdx ∧ (g.playerAt j).isBot = false ∧
    pc.hasVote (g.playerAt j).id = false

/-- A pending placement waits for somebody's vote. -/
def WaitsForSomebody (g : Game) : Prop :=
  ∀ pc, g.pendingChallenge = some pc → ∃ j, g.Outstanding pc j

/-- The seats have different identifiers. -/
def DistinctIds (g : Game) : Prop := (g.players.map Player.id).Nodup

/-- The condition on a step: a player comes back under an identifier that no seat has and that has
not voted, and the last one who has to vote is not taken out of the game. -/
structure KeepsVoters (g : Game) (i : Input) : Prop where
  renamed : ∀ oldId newId idx, i.2 = .replacePlayerSid oldId newId → g.seatOf oldId = some idx →
    newId ≠ oldId → (∀ p ∈ g.players, p.id ≠ newId) ∧
      ∀ pc, g.pendingChallenge = some pc → pc.hasVote newId = false
  removed : ∀ playerId idx pc, i.2 = .removePlayer playerId → g.seatOf playerId = some idx →
    g.pendingChallenge = some pc → g.Outstanding pc idx → ∃ j, j ≠ idx ∧ g.Outstanding pc j

variable {env : Env} {g : Game} {i : Input}

/-! ## The identifiers -/

theorem botId_injective (g : Game) : Function.Injective g.botId := fun a b h => by
  simp only [botId] at h
  exact Fresh.repr_injective ((String.append_right_inj _).mp h)

/-- The search for a free identifier finds one within its bound. -/
theorem freeBotSeq_free (n seq : ℕ)
    (h : ∃ k ≤ n, g.botId (seq + k) ∉ g.players.map Player.id) :
    g.botId (g.freeBotSeq n seq) ∉ g.players.map Player.id := by
  have htaken : ∀ id, (g.players.any fun p => p.id = id) = true ↔ id ∈ g.players.map Player.id :=
    fun id => by simp
  induction n generalizing seq with
  | zero =>
    obtain ⟨k, hk, hfree⟩ := h
    obtain rfl := Nat.le_zero.mp hk
    exact hfree
  | succ n ih =>
    simp only [freeBotSeq, htaken]
    split
    · rename_i hmem
      obtain ⟨k, hk, hfree⟩ := h
      cases k with
      | zero => exact absurd hmem hfree
      | succ k => exact ih (seq + 1) ⟨k, by omega, by rwa [Nat.add_right_comm]⟩
    · assumption

theorem addBot_distinctIds (h : DistinctIds g) (name : String) (difficulty : Json) :
    DistinctIds (g.addBot name difficulty).1 := by
  have hfree := freeBotSeq_free g.players.length (g.botSeq + 1)
    (by simpa using Fresh.exists_fresh g.botId_injective (g.players.map Player.id) (g.botSeq + 1))
  simp only [addBot]
  split_ifs
  · exact h
  · exact h
  · simp only [DistinctIds, List.map_append, List.map_cons, List.map_nil]
    refine List.Nodup.append h (List.nodup_singleton _) ?_
    simpa [Player.newBot, Player.new] using hfree

/-- What a voter is, in a player. -/
def Player.ballot (p : Player) : String × Bool := (p.id, p.isBot)

/-- No other operation changes who may vote. -/
theorem Effect.ballots {op : Op} {g' : Game} (he : Effect env g op g') (hop : op.reseats = false) :
    g'.players.map Player.ballot = g.players.map Player.ballot := by
  have hmodify : ∀ (idx : ℕ) (f : Player → Player), (∀ p, Player.ballot (f p) = Player.ballot p) →
      (g.players.modify idx f).map Player.ballot = g.players.map Player.ballot :=
    fun idx f hf => Lists.map_modify_eq hf _ _
  have hsettles : ∀ {mid : Game}, Settles env mid g' →
      mid.players.map Player.ballot = g.players.map Player.ballot →
      g'.players.map Player.ballot = g.players.map Player.ballot := fun hs hmid =>
    (hs.map_eq (fun _ _ => rfl) fun _ _ => rfl).trans hmid
  cases he with
  | joined => cases hop
  | botJoined => cases hop
  | reconnected => cases hop
  | removed => cases hop
  | dealt => exact deal_map (fun _ _ => rfl) _ _
  | dealtAt => exact deal_map (fun _ _ => rfl) _ _
  | placed playerId tiles formed =>
    refine hsettles (finalizePlacement_settles env g _ _ _ _) ?_
    rw [layTiles_players]
    exact hmodify _ _ fun _ => rfl
  | proposed => exact hmodify _ _ fun _ => rfl
  | accepted _ pc =>
    refine hsettles (closeTurn_settles env _ _) ?_
    rw [layPending_players]
    exact hmodify _ _ fun _ => rfl
  | rejected _ pc pending =>
    exact hsettles (finalizeReject_settles env g pending) (returnTiles_map (fun _ _ => rfl) pc)
  | withdrawn _ pc => exact returnTiles_map (fun _ _ => rfl) pc
  | exchanged playerId tileIndices =>
    refine hsettles (scorelessNextTurn_settles env (g.swapTiles env tileIndices)) ?_
    change (g.swapTiles env tileIndices).players.map Player.ballot = _
    rw [swapTiles_players]
    exact hmodify _ _ fun _ => rfl
  | passed playerId timeout =>
    exact hsettles (scorelessNextTurn_settles env _) (notePass_map (fun _ _ => rfl) timeout)
  | expired =>
    exact hsettles (scorelessNextTurn_settles env _) (notePass_map (fun _ _ => rfl) true)
  | expelled idx =>
    rw [resignSeat_rest]
    refine (settle_map (fun _ _ => rfl) _ none).trans
      ((Lists.map_modify_eq (f := fun p : Player => { p with resigned := true })
        (fun _ => rfl) _ _).trans ?_)
    exact missed_map (fun _ _ => rfl) fun _ _ => rfl
  | resigned playerId idx =>
    rw [resignSeat_rest]
    exact (settle_map (fun _ _ => rfl) _ none).trans (hmodify _ _ fun _ => rfl)
  | ended =>
    rw [endGame_players]
    refine (settle_map (fun _ _ => rfl) _ none).trans ?_
    simp only [unwindPending]
    split
    · exact returnTiles_map (fun _ _ => rfl) _
    · rfl
  | disconnected => exact hmodify _ _ fun _ => rfl
  | skipped => exact nextTurn_map _ _ fun _ _ => rfl
  | restored => exact g.restoredPlayers_map fun _ _ => rfl
  | _ => rfl

/-- A rename to an identifier that no other seat has keeps the identifiers different. -/
theorem reconnectSeat_distinctIds (h : DistinctIds g) {idx : ℕ} {oldId newId : String}
    (hseat : g.seatOf oldId = some idx) (hfresh : newId ≠ oldId → ∀ p ∈ g.players, p.id ≠ newId) :
    DistinctIds (g.reconnectSeat idx oldId newId) := by
  obtain ⟨hidx, hid, -⟩ := List.findIdx?_eq_some_iff_getElem.mp hseat
  have hmap : (g.reconnectSeat idx oldId newId).players.map Player.id =
      (g.players.map Player.id).set idx newId := by
    refine List.ext_getElem (by simp [reconnectSeat, modifyPlayer]) fun j h₁ h₂ => ?_
    by_cases hj : idx = j
    · simp [reconnectSeat, modifyPlayer, hj, Player.reconnect]
    · simp [reconnectSeat, modifyPlayer, hj]
  rw [DistinctIds, hmap]
  by_cases hsame : newId = oldId
  · have hself : (g.players.map Player.id).set idx newId = g.players.map Player.id := by
      refine List.ext_getElem (by simp) fun j h₁ h₂ => ?_
      by_cases hj : idx = j
      · subst hj
        simpa [hsame] using (of_decide_eq_true hid).symm
      · simp [List.getElem_set_ne hj]
    rw [hself]
    exact h
  · exact h.set fun hmem => by
      obtain ⟨p, hp, hpid⟩ := List.mem_map.mp hmem
      exact hfresh hsame p hp hpid

theorem DistinctIds.step (h : DistinctIds g) (hi : KeepsVoters g i) : DistinctIds (g.step i) := by
  obtain ⟨env, op⟩ := i
  have hkeep : op.reseats = false → DistinctIds (g.step (env, op)) := fun hop => by
    have hmap := congrArg (List.map Prod.fst) ((step_effect env g op).ballots hop)
    rw [List.map_map, List.map_map] at hmap
    exact (congrArg List.Nodup hmap).mpr h
  cases op with
  | addPlayer playerId name =>
    change DistinctIds (g.addPlayer playerId name).1
    simp only [addPlayer]
    split_ifs with hid
    · exact h
    · exact h
    · exact h
    · simp only [DistinctIds, List.map_append, List.map_cons, List.map_nil]
      refine List.Nodup.append h (List.nodup_singleton _) ?_
      simpa [Player.new] using hid
  | addBot name difficulty => exact addBot_distinctIds h name difficulty
  | replacePlayerSid oldId newId =>
    change DistinctIds (g.replacePlayerSid oldId newId).1
    simp only [replacePlayerSid]
    split
    · exact h
    · rename_i idx hseat
      exact reconnectSeat_distinctIds h hseat fun hne => (hi.renamed _ _ _ rfl hseat hne).1
  | removePlayer playerId =>
    change DistinctIds (g.removePlayer playerId).1
    simp only [removePlayer]
    split
    · exact h
    · rename_i idx hseat
      rw [DistinctIds, removeSeat_players, ← List.eraseIdx_map]
      exact h.sublist (List.eraseIdx_sublist _ _)
  | _ => exact hkeep rfl

/-! ## Who has to vote -/

theorem outstanding_congr {g' : Game}
    (h : g'.players.map Player.ballot = g.players.map Player.ballot) {pc : Challenge} {j : ℕ} :
    g'.Outstanding pc j ↔ g.Outstanding pc j := by
  have hlen : g'.players.length = g.players.length := by simpa using congrArg List.length h
  obtain ⟨hid, hbot⟩ := Prod.mk.inj (playerAt_congr h j)
  simp only [Outstanding, hlen, hid, hbot]

theorem WaitsForSomebody.of_none (h : g.pendingChallenge = none) : WaitsForSomebody g :=
  fun pc hpc => absurd (h.symm.trans hpc) (by simp)

/-- The voters that the code knows by their identifiers have seats. -/
theorem mem_voterIds {pc : Challenge} (hpc : g.pendingChallenge = some pc) {id : String} :
    id ∈ g.voterIds ↔ ∃ j < g.players.length, (g.playerAt j).id = id ∧
      (g.playerAt j).id ≠ (g.playerAt pc.playerIdx).id ∧ (g.playerAt j).isBot = false := by
  simp only [voterIds, hpc, List.mem_toFinset, List.mem_map, List.mem_filter, mem_players_iff]
  constructor
  · rintro ⟨_, ⟨⟨j, hj, rfl⟩, hvoter⟩, rfl⟩
    exact ⟨j, hj, rfl, by simpa using hvoter⟩
  · rintro ⟨j, hj, rfl, hvoter⟩
    exact ⟨_, ⟨⟨j, hj, rfl⟩, by simpa using hvoter⟩, rfl⟩

/-- As long as not all have voted, somebody has to. -/
theorem exists_outstanding {pc : Challenge} (hpc : g.pendingChallenge = some pc) {pc' : Challenge}
    (hidx : pc'.playerIdx = pc.playerIdx) (hall : pc'.allVoted g.voterIds = false) :
    ∃ j, g.Outstanding pc' j := by
  obtain ⟨id, hid, hvote⟩ : ∃ id ∈ g.voterIds, pc'.hasVote id = false := by
    simpa [Challenge.allVoted] using hall
  obtain ⟨j, hj, rfl, hne, hbot⟩ := (mem_voterIds hpc).mp hid
  exact ⟨j, hj, fun hji => hne (by rw [hji, hidx]), hbot, hvote⟩

/-- Different seats have different identifiers. -/
theorem DistinctIds.playerAt_ne (h : DistinctIds g) {j k : ℕ} (hj : j < g.players.length)
    (hk : k < g.players.length) (hjk : j ≠ k) : (g.playerAt j).id ≠ (g.playerAt k).id := by
  rw [playerAt_eq_getElem g hj, playerAt_eq_getElem g hk]
  intro heq
  have hpair := List.nodup_iff_injective_getElem.mp h
  have hfin := @hpair ⟨j, by simpa using hj⟩ ⟨k, by simpa using hk⟩ (by simpa using heq)
  exact hjk (congrArg Fin.val hfin)

/-! ## The operations -/

/-- A placement put to the vote has a voter. -/
theorem proposed_waits (env : Env) (tiles : List Placed) (formed : List FormedWord)
    (hvote : g.challengeApplies g.currentPlayerIdx = true) :
    WaitsForSomebody (g.proposed env tiles formed) := by
  rintro pc ⟨⟩
  obtain ⟨e, he, hother⟩ := List.any_eq_true.mp (Bool.and_eq_true_iff.mp hvote).2
  obtain ⟨hne, hhuman⟩ : e.2 ≠ g.currentPlayerIdx ∧ e.1.isBot = false := by simpa using hother
  obtain ⟨hlt, hat⟩ := List.mem_zipIdx' he
  have hballots : (g.proposed env tiles formed).players.map Player.ballot =
      g.players.map Player.ballot :=
    Lists.map_modify_eq (f := withoutTiles tiles) (fun _ => rfl) _ _
  refine ⟨e.2, (outstanding_congr hballots).mpr ⟨hlt, hne, ?_, rfl⟩⟩
  rw [playerAt_eq_getElem g hlt, ← hat]
  exact hhuman

/-- A vote that is recorded leaves somebody who has to vote. -/
theorem castVote_waits (h : WaitsForSomebody g) (playerId : String) (vote : Vote) :
    WaitsForSomebody (g.castVote env playerId vote).1 := by
  obtain ⟨e, hc⟩ | ⟨pc, voter, hpc, -, -, -, ⟨hall, hc⟩ | ⟨-, ⟨-, hc⟩ | ⟨-, hc⟩⟩⟩ :=
    castVote_cases env g playerId vote <;> rw [hc]
  · exact h
  · rintro pc' ⟨⟩
    exact exists_outstanding hpc rfl hall
  · rw [finalizeAccept_eq hpc]
    exact .of_none ((closeTurn_settles env _ _).pendingChallenge rfl)
  · exact .of_none ((finalizeReject_settles env g hpc).pendingChallenge rfl)

/-- A vote is nobody else's. -/
theorem hasVote_addVote {pc : Challenge} {voter id : String} {vote : Vote} (h : id ≠ voter) :
    (pc.addVote voter vote).hasVote id = pc.hasVote id := by
  have hne : (id == voter) = false := by simpa using h
  simp only [Challenge.hasVote, Challenge.addVote, List.lookup_cons, hne]
  rw [Lists.lookup_filter_ne h]

/-- A vote that moves to another identifier is nobody else's. -/
theorem hasVote_updatePlayerSid {pc : Challenge} {oldId newId id : String} (hold : id ≠ oldId)
    (hnew : id ≠ newId) : (pc.updatePlayerSid oldId newId).hasVote id = pc.hasVote id := by
  simp only [Challenge.updatePlayerSid]
  split
  · rw [hasVote_addVote hnew]
    simp only [Challenge.hasVote]
    rw [Lists.lookup_filter_ne hold]
  · rfl

/-- Whoever has not voted comes back as somebody who has not. -/
theorem updatePlayerSid_of_not_hasVote {pc : Challenge} {oldId : String}
    (h : pc.hasVote oldId = false) (newId : String) : pc.updatePlayerSid oldId newId = pc := by
  have hnone : pc.votes.lookup oldId = none := by simpa [Challenge.hasVote] using h
  simp only [Challenge.updatePlayerSid, hnone]

/-- A player who comes back keeps the seat, and what the seat has to vote. -/
theorem reconnectSeat_waits (h : WaitsForSomebody g) (hids : DistinctIds g) {idx : ℕ}
    {oldId newId : String} (hseat : g.seatOf oldId = some idx)
    (hfresh : newId ≠ oldId → (∀ p ∈ g.players, p.id ≠ newId) ∧
      ∀ pc, g.pendingChallenge = some pc → pc.hasVote newId = false) :
    WaitsForSomebody (g.reconnectSeat idx oldId newId) := by
  obtain ⟨hidx, hat⟩ := seatOf_eq_some g hseat
  intro pc' hpc'
  obtain ⟨pc, hpc, rfl⟩ := Option.map_eq_some_iff.mp hpc'
  obtain ⟨j, hj, hne, hbot, hvote⟩ := h pc hpc
  have hlen : (g.reconnectSeat idx oldId newId).players.length = g.players.length := by
    simp [reconnectSeat, modifyPlayer]
  have hplacer : (pc.updatePlayerSid oldId newId).playerIdx = pc.playerIdx := by
    obtain ⟨votes, hvotes⟩ := updatePlayerSid_eq pc oldId newId
    rw [hvotes]
  have hsame : ((g.reconnectSeat idx oldId newId).playerAt j).isBot = (g.playerAt j).isBot :=
    playerAt_modifyPlayer_eq g (h := Player.isBot) (f := Player.reconnect newId) (fun _ => rfl) _ _
  refine ⟨j, hlen ▸ hj, hplacer ▸ hne, hsame.trans hbot, ?_⟩
  by_cases hji : j = idx
  · -- the one who has to vote is the one who comes back
    subst hji
    have hid : ((g.reconnectSeat j oldId newId).playerAt j).id = newId :=
      congrArg Player.id (playerAt_modifyPlayer_self g hj (Player.reconnect newId))
    rw [hid, updatePlayerSid_of_not_hasVote (hat ▸ hvote)]
    by_cases hrename : newId = oldId
    · rw [hrename, ← hat]
      exact hvote
    · exact (hfresh hrename).2 pc hpc
  · have hid : ((g.reconnectSeat idx oldId newId).playerAt j).id = (g.playerAt j).id :=
      congrArg Player.id (playerAt_modifyPlayer_of_ne g (Ne.symm hji) (Player.reconnect newId))
    have hold : (g.playerAt j).id ≠ oldId := hat ▸ hids.playerAt_ne hj hidx hji
    have hnew : (g.playerAt j).id ≠ newId := by
      by_cases hrename : newId = oldId
      · rw [hrename]
        exact hold
      · exact (hfresh hrename).1 _ (playerAt_mem g hj)
    rw [hid, hasVote_updatePlayerSid hold hnew]
    exact hvote

/-- A removal that is not that of the last one who has to vote. -/
theorem removeSeat_waits (h : WaitsForSomebody g) (hsound : PendingSound g) {idx : ℕ}
    (hidx : idx < g.players.length)
    (hlast : ∀ pc, g.pendingChallenge = some pc → g.Outstanding pc idx →
      ∃ j, j ≠ idx ∧ g.Outstanding pc j) : WaitsForSomebody (g.removeSeat idx) := by
  intro pc' hpc'
  obtain ⟨pc, hpc, hplacer, rfl⟩ := removeSeat_pending hsound hidx hpc'
  obtain ⟨j, hji, hj, hne, hbot, hvote⟩ : ∃ j, j ≠ idx ∧ g.Outstanding pc j := by
    obtain ⟨j, hj⟩ := h pc hpc
    by_cases hji : j = idx
    · exact hlast pc hpc (hji ▸ hj)
    · exact ⟨j, hji, hj⟩
  have hlen : (g.removeSeat idx).players.length = g.players.length - 1 := by
    rw [removeSeat_players, List.length_eraseIdx_of_lt hidx]
  have hat := playerAt_removeSeat_of_ne g hji
  refine ⟨if idx < j then j - 1 else j, ?_, ?_, by rw [hat]; exact hbot, by rw [hat]; exact hvote⟩
  · split_ifs <;> omega
  · simp only
    split_ifs <;> omega

/-! ## Every run -/

/-- With nothing pending, only a placement that goes to the vote makes something pending. -/
theorem Effect.pending_of_none {op : Op} {g' : Game} (he : Effect env g op g')
    (hfree : g.pendingChallenge = none) :
    g'.pendingChallenge = none ∨ ∃ tiles formed,
      g.challengeApplies g.currentPlayerIdx = true ∧ g' = g.proposed env tiles formed := by
  have hsettles : ∀ {mid : Game}, Settles env mid g' → mid.pendingChallenge = none →
      g'.pendingChallenge = none ∨ ∃ tiles formed,
        g.challengeApplies g.currentPlayerIdx = true ∧ g' = g.proposed env tiles formed :=
    fun hs hmid => .inl (hs.pendingChallenge hmid)
  cases he with
  | placed playerId tiles formed => exact hsettles (finalizePlacement_settles env g _ _ _ _) hfree
  | proposed playerId tiles formed may vote => exact .inr ⟨tiles, formed, vote, rfl⟩
  | voted op pc pending => exact absurd (hfree.symm.trans pending) (by simp)
  | accepted op pc => exact hsettles (closeTurn_settles env (g.layPending pc) _) rfl
  | rejected op pc pending => exact absurd (hfree.symm.trans pending) (by simp)
  | exchanged => exact hsettles (scorelessNextTurn_settles env _) hfree
  | passed playerId timeout =>
    exact hsettles (scorelessNextTurn_settles env _) (by cases timeout <;> exact hfree)
  | expired => exact hsettles (scorelessNextTurn_settles env _) hfree
  | expelled => exact .inl (by rw [resignSeat_rest])
  | resigned => exact .inl (by rw [resignSeat_rest])
  | ended => exact .inl (endGame_pendingChallenge _ _)
  | reconnected => exact .inl (by simp [reconnectSeat, modifyPlayer, hfree])
  | removed => exact .inl (by simp only [removeSeat]; split <;> simp [hfree])
  | skipped => exact .inl ((nextTurn_pendingChallenge env g).trans hfree)
  | _ => first | exact .inl hfree | exact .inl rfl

/-- The operations that change neither the votes nor the voters of a pending placement: they are
refused, or decide, or have nothing to do with it. -/
theorem waits_of_pending (h : WaitsForSomebody g) (hcoherent : Coherent g) {pc : Challenge}
    (hpc : g.pendingChallenge = some pc) (env : Env) {op : Op}
    (hrename : ∀ oldId newId, op ≠ .replacePlayerSid oldId newId)
    (hremove : ∀ playerId, op ≠ .removePlayer playerId) :
    WaitsForSomebody (g.step (env, op)) := by
  have hstarted : g.started = true := hcoherent.started_of_pending hpc
  have hsame : g.step (env, op) = g → WaitsForSomebody (g.step (env, op)) := fun heq => by
    rw [heq]
    exact h
  have hactive : ¬g.pendingChallenge = none := by simp [hpc]
  cases op with
  | addPlayer playerId name =>
    apply hsame
    change (g.addPlayer playerId name).1 = g
    simp only [addPlayer, hstarted, if_true]
    split_ifs <;> rfl
  | addBot name difficulty =>
    apply hsame
    change (g.addBot name difficulty).1 = g
    simp only [addBot, hstarted, if_true]
    split_ifs <;> rfl
  | start =>
    apply hsame
    change (g.start env).1 = g
    simp only [start, hstarted, if_true]
    split_ifs <;> rfl
  | startAsync starter =>
    apply hsame
    change g.startAsync env starter = g
    obtain ⟨e, he⟩ | ⟨hwaiting, -⟩ := start_cases env g
    · simp only [startAsync, he]
    · exact absurd (hwaiting.symm.trans hstarted) (by simp)
  | placeTiles playerId tiles =>
    obtain ⟨e, he⟩ | ⟨formed, hmay⟩ := placeTiles_cases env g playerId tiles
    · exact hsame (congrArg Prod.fst he)
    · exact absurd hmay.free hactive
  | exchangeTiles playerId tileIndices =>
    obtain ⟨e, he⟩ | ⟨hmay, -⟩ := exchangeTiles_cases env g playerId tileIndices
    · exact hsame (congrArg Prod.fst he)
    · exact absurd hmay.free hactive
  | passTurn playerId timeout =>
    obtain ⟨e, he⟩ | ⟨hmay, -⟩ := passTurn_cases env g playerId timeout
    · exact hsame (congrArg Prod.fst he)
    · exact absurd hmay.free hactive
  | acceptPendingByPlayer playerId => exact castVote_waits h playerId .accept
  | rejectPendingByPlayer playerId => exact castVote_waits h playerId .reject
  | withdrawPending playerId =>
    change WaitsForSomebody (g.withdrawPending playerId).1
    simp only [withdrawPending, hpc]
    split_ifs
    · exact h
    · exact h
    · exact .of_none rfl
  | acceptPending =>
    change WaitsForSomebody (g.acceptPending env).1
    simp only [acceptPending, hpc, Option.isNone_some, Bool.false_eq_true, if_false]
    obtain hr | hr := resolveAndFinalize_cases env g <;> rw [hr]
    · rw [finalizeAccept_eq hpc]
      exact .of_none ((closeTurn_settles env _ _).pendingChallenge rfl)
    · exact .of_none ((finalizeReject_settles env g hpc).pendingChallenge rfl)
  | forceResolvePending accept =>
    change WaitsForSomebody (g.forceResolvePending env accept).1
    simp only [forceResolvePending, hpc, Option.isNone_some, Bool.false_eq_true, if_false]
    split_ifs
    · rw [finalizeAccept_eq hpc]
      exact .of_none ((closeTurn_settles env _ _).pendingChallenge rfl)
    · exact .of_none ((finalizeReject_settles env g hpc).pendingChallenge rfl)
  | expireTurn =>
    obtain he | ⟨⟨_, hmay⟩, -⟩ := expireTurn_cases env g
    · exact hsame (congrArg Prod.fst he)
    · exact absurd hmay.free hactive
  | resign playerId =>
    obtain ⟨e, he⟩ | ⟨idx, -, -, -, he⟩ := resign_cases g playerId
    · exact hsame (congrArg Prod.fst he)
    · change WaitsForSomebody (g.resign playerId).1
      rw [he]
      exact .of_none (by rw [resignSeat_rest])
  | forceEnd =>
    change WaitsForSomebody g.forceEnd.1
    simp only [forceEnd]
    split_ifs
    · exact h
    · exact .of_none (endGame_pendingChallenge _ _)
  | useHint =>
    change WaitsForSomebody g.useHint.1
    simp only [useHint]
    split_ifs
    · exact h
    · exact fun pc' hpc' => h pc' hpc'
  | markDisconnected playerId =>
    change WaitsForSomebody (g.markDisconnected playerId).1
    simp only [markDisconnected]
    split
    · exact h
    · intro pc' hpc'
      obtain ⟨j, hj⟩ := h pc' hpc'
      exact ⟨j, (outstanding_congr (Lists.map_modify_eq
        (f := fun p : Player => { p with disconnected := true }) (fun _ => rfl) _ _)).mpr hj⟩
  | replacePlayerSid oldId newId => exact absurd rfl (hrename oldId newId)
  | removePlayer playerId => exact absurd rfl (hremove playerId)
  | skipDisconnectedCurrent =>
    apply hsame
    change (g.skipDisconnectedCurrent env).1 = g
    simp [skipDisconnectedCurrent, hpc]
  | saveRestore =>
    change WaitsForSomebody (g.saveRestore env)
    rw [saveRestore_eq]
    exact .of_none rfl

/-- A step under the condition keeps the votes waiting for somebody. -/
theorem WaitsForSomebody.step (h : WaitsForSomebody g) (hcoherent : Coherent g)
    (hsound : PendingSound g) (hids : DistinctIds g) (hi : KeepsVoters g i) :
    WaitsForSomebody (g.step i) := by
  obtain ⟨env, op⟩ := i
  cases hpc : g.pendingChallenge with
  | none =>
    obtain hfree | ⟨tiles, formed, hvote, heq⟩ := (step_effect env g op).pending_of_none hpc
    · exact .of_none hfree
    · rw [heq]
      exact proposed_waits env tiles formed hvote
  | some pc =>
    cases op with
    | replacePlayerSid oldId newId =>
      change WaitsForSomebody (g.replacePlayerSid oldId newId).1
      simp only [replacePlayerSid]
      split
      · exact h
      · rename_i idx hseat
        exact reconnectSeat_waits h hids hseat fun hne => hi.renamed _ _ _ rfl hseat hne
    | removePlayer playerId =>
      change WaitsForSomebody (g.removePlayer playerId).1
      simp only [removePlayer]
      split
      · exact h
      · rename_i idx hseat
        exact removeSeat_waits h hsound (seatOf_eq_some g hseat).1 fun pc hpc hlast =>
          hi.removed _ _ _ rfl hseat hpc hlast
    | _ => exact waits_of_pending h hcoherent hpc env (by simp) (by simp)

/-- What every state satisfies that is reached under the condition. -/
theorem waits_of_reachableBy (h : ReachableBy KeepsVoters g) :
    DistinctIds g ∧ WaitsForSomebody g := by
  have hinvariant : Coherent g ∧ PendingSound g ∧ DistinctIds g ∧ WaitsForSomebody g := by
    refine Runs.Reaches.invariant Game.step
      (P := fun g => Coherent g ∧ PendingSound g ∧ DistinctIds g ∧ WaitsForSomebody g)
      (fun g hg => ?_) (fun g i hg hi => ?_) h
    · refine ⟨coherent_of_initial hg, pendingSound_of_initial hg, ?_, .of_none ?_⟩
      · obtain ⟨_, _, _, _, _, rfl⟩ | ⟨_, _, _, rfl⟩ := hg <;> exact List.nodup_nil
      · obtain ⟨_, _, _, _, _, rfl⟩ | ⟨_, _, _, rfl⟩ := hg <;> rfl
    · obtain ⟨hcoherent, hsound, hids, hwaits⟩ := hg
      exact ⟨hcoherent.effect hsound (step_effect i.1 g i.2), hsound.step i, hids.step hi,
        hwaits.step hcoherent hsound hids hi⟩
  exact hinvariant.2.2

/-- The only one who has to vote. -/
def LastVoter (g : Game) (pc : Challenge) (j : ℕ) : Prop :=
  g.Outstanding pc j ∧ ∀ k, g.Outstanding pc k → k = j

/-- The vote of the last one who has to vote decides. -/
theorem castVote_last (hids : DistinctIds g) (hsound : PendingSound g) {pc : Challenge}
    (hpc : g.pendingChallenge = some pc) {j : ℕ} (hlast : g.LastVoter pc j) (vote : Vote) :
    (g.castVote env (g.playerAt j).id vote).2.isOk = true ∧
      (g.castVote env (g.playerAt j).id vote).1.pendingChallenge = none := by
  obtain ⟨⟨hj, hne, hbot, hvote⟩, honly⟩ := hlast
  have hplacer : (g.playerAt j).id ≠ (g.playerAt pc.playerIdx).id :=
    hids.playerAt_ne hj (hsound pc hpc).seat hne
  have hmem : (g.playerAt j).id ∈ g.voterIds :=
    (mem_voterIds hpc).mpr ⟨j, hj, rfl, hplacer, hbot⟩
  obtain ⟨voter, hfind⟩ : ∃ voter, g.findPlayer (g.playerAt j).id = some voter := by
    refine Option.isSome_iff_exists.mp (List.find?_isSome.mpr ?_)
    exact ⟨_, playerAt_mem g hj, by simp⟩
  have hall : (pc.addVote (g.playerAt j).id vote).allVoted g.voterIds = true := by
    refine decide_eq_true fun id hid => ?_
    obtain ⟨k, hk, rfl, hk', hhuman⟩ := (mem_voterIds hpc).mp hid
    by_cases hkj : k = j
    · subst hkj
      simp [Challenge.hasVote, Challenge.addVote]
    · rw [hasVote_addVote (hids.playerAt_ne hk hj hkj)]
      by_contra hnot
      exact hkj (honly k ⟨hk, fun hkp => hk' (by rw [hkp]), hhuman, by simpa using hnot⟩)
  simp only [castVote, hpc, Ne.symm hplacer, if_false, hmem, not_true_eq_false, hvote,
    Bool.false_eq_true, hfind, hall, if_true]
  refine ⟨rfl, ?_⟩
  let voted : Game := { g with pendingChallenge := some (pc.addVote (g.playerAt j).id vote) }
  have hvoted : voted.pendingChallenge = some (pc.addVote (g.playerAt j).id vote) := rfl
  change (voted.resolveAndFinalize env).1.pendingChallenge = none
  obtain hr | hr := resolveAndFinalize_cases env voted <;> rw [hr]
  · rw [finalizeAccept_eq hvoted]
    exact (closeTurn_settles env _ _).pendingChallenge rfl
  · exact (finalizeReject_settles env voted hvoted).pendingChallenge rfl

/-- **A vote never waits for nobody**, as long as the last one who has to vote is not taken out of
the game, and players come back under fresh identifiers: with a placement pending there is
somebody who may vote and has not, and the vote of the last of them is taken and decides. -/
theorem vote_waits_for_somebody (h : ReachableBy KeepsVoters g) :
    WaitsForSomebody g ∧
      ∀ pc j, g.pendingChallenge = some pc → g.LastVoter pc j → ∀ env vote,
        (g.castVote env (g.playerAt j).id vote).2.isOk = true ∧
          (g.castVote env (g.playerAt j).id vote).1.pendingChallenge = none := by
  obtain ⟨hids, hwaits⟩ := waits_of_reachableBy h
  have hreach : Reachable g := h.mono Game.step fun _ _ _ => trivial
  exact ⟨hwaits, fun pc j hpc hlast env vote => castVote_last hids hreach.coherent.2 hpc hlast vote⟩

/-- The other operations meet the condition. -/
theorem keepsVoters_of_ne {op : Op} (hrename : ∀ oldId newId, op ≠ .replacePlayerSid oldId newId)
    (hremove : ∀ playerId, op ≠ .removePlayer playerId) : KeepsVoters g (env, op) :=
  ⟨fun oldId newId _ h => absurd h (hrename oldId newId), fun playerId _ _ h =>
    absurd h (hremove playerId)⟩

/-- A game of three in which a placement is put to the vote and one of the others has voted. -/
def votedTrio : Game :=
  Runs.run step (new stillEnv "trio" true 0 3)
    [(stillEnv, .addPlayer "a" "Anna"), (stillEnv, .addPlayer "b" "Béla"),
      (stillEnv, .addPlayer "c" "Cili"), (stillEnv, .start), (stillEnv, .placeTiles "a" duelOpening),
      (stillEnv, .acceptPendingByPlayer "b")]

theorem reachableBy_votedTrio : ReachableBy KeepsVoters votedTrio := by
  refine ⟨_, _, .inl ⟨_, _, _, _, _, rfl⟩, ?_, rfl⟩
  refine ⟨?_, ?_, ?_, ?_, ?_, ?_, trivial⟩ <;> exact keepsVoters_of_ne (by simp) (by simp)

/-- The voter leaves, and the last one who has to vote comes back: the placement waits for that
vote. -/
theorem vote_waits_for_somebody_trio :
    WaitsForSomebody (Runs.run step votedTrio [(stillEnv, .removePlayer "b"),
      (stillEnv, .replacePlayerSid "c" "d")]) := by
  have hreach : ReachableBy KeepsVoters (Runs.run step votedTrio [(stillEnv, .removePlayer "b"),
      (stillEnv, .replacePlayerSid "c" "d")]) := by
    refine Runs.Reaches.run step reachableBy_votedTrio ⟨⟨?_, ?_⟩, ⟨?_, ?_⟩, trivial⟩
    · intro oldId newId idx h
      cases h
    · rintro playerId idx pc h hseat hpc ⟨-, -, -, hvote⟩
      cases h
      -- the one who leaves has voted
      have hb : votedTrio.seatOf "b" = some 1 := by decide +kernel
      obtain rfl := Option.some.inj (hseat.symm.trans hb)
      have hvoted : (votedTrio.pendingChallenge.any fun pc =>
          pc.hasVote (votedTrio.playerAt 1).id) = true := by decide +kernel
      rw [hpc, Option.any_some, hvote] at hvoted
      cases hvoted
    · intro oldId newId idx h hseat hne
      cases h
      have hfresh : ((votedTrio.step (stillEnv, .removePlayer "b")).pendingChallenge.all fun pc =>
          !pc.hasVote "d") = true := by decide +kernel
      refine ⟨by decide +kernel, fun pc hpc => ?_⟩
      rw [hpc, Option.all_some] at hfresh
      simpa using hfresh
    · intro playerId idx pc h
      cases h
  exact (vote_waits_for_somebody hreach).1

/-- A duel in which the other player leaves during the vote. -/
def unheardDuel : Game :=
  Runs.run step (duel true) [(stillEnv, .placeTiles "a" duelOpening), (stillEnv, .removePlayer "b")]

/-- The vote waits for nobody. -/
theorem vote_waits_for_nobody :
    Reachable unheardDuel ∧ unheardDuel.pendingChallenge.isSome = true ∧
      ¬WaitsForSomebody unheardDuel := by
  have hreach : Reachable unheardDuel :=
    Runs.Reaches.run step (reachable_duel true) (Runs.along_of_forall step (fun _ _ _ => trivial) _)
  have hpending : unheardDuel.pendingChallenge.isSome = true := by decide +kernel
  refine ⟨hreach, hpending, fun h => ?_⟩
  obtain ⟨pc, hpc⟩ := Option.isSome_iff_exists.mp hpending
  obtain ⟨j, hj, hne, -⟩ := h pc hpc
  have hlen : unheardDuel.players.length = 1 := by decide +kernel
  have hturn : pc.playerIdx = 0 :=
    (hreach.coherent.1.turn pc hpc).trans (by decide +kernel)
  omega

end Game

end ScrabbleMagyar
