import ScrabbleMagyar.Engine.Entries
import ScrabbleMagyar.Engine.Ledger

/-!
# The positions of the turns of a game

Every turn in the log of a game was made in some earlier state of the game: on the board that the
entry before it left and from the hand that it records. A direct placement, an exchange and a pass
are entered from the state they are made in; a placement that was voted on is entered from the
state in which it was accepted, and the state it was made in is that before it was put to the vote
(`Origin`).

* `exists_position`: the state in which a turn of the log was made.
-/

namespace ScrabbleMagyar

namespace Game

/-! ## Games with a stored log -/

/-- A step of a game whose log is stored: a restart reads the log back with the game. -/
def playOn (g : Game) (i : Input) : Game :=
  match i.2 with
  | .saveRestore =>
    { g.saveRestore i.1 with moveLog := (g.moveLog.map MoveLog.stored).map MoveLog.fromStored }
  | _ => g.step i

/-- The board after the last entry of a log. -/
def boardAfter (log : List MoveLog) : Board := (log.getLast?.map MoveLog.board).getD Board.new

/-- A game whose log can be stored and ends with the board of the game. -/
structure Steady (g : Game) : Prop where
  logged : Logged g
  coherent : Coherent g
  latest : g.board = boardAfter g.moveLog

variable {env : Env} {g g' : Game}

theorem playOn_of_ne {i : Input} (hi : i.2 ≠ .saveRestore) : g.playOn i = g.step i := by
  obtain ⟨env, op⟩ := i
  cases op <;> first | rfl | exact absurd rfl hi

theorem playOn_saveRestore (h : ∀ m ∈ g.moveLog, m.Sound) (env : Env) :
    g.playOn (env, .saveRestore) = { g.restored env with moveLog := g.moveLog } := by
  simp only [playOn, saveRestore, fromSaveDict_toSaveDict, MoveLog.map_fromStored_stored h]

theorem steady_of_initial (h : Initial g) : Steady g := by
  refine ⟨logged_of_initial h, coherent_of_initial h, ?_⟩
  obtain ⟨_, _, _, _, _, rfl⟩ | ⟨_, _, _, rfl⟩ := h <;> rfl

theorem boardAfter_append_singleton (log : List MoveLog) (m : MoveLog) :
    boardAfter (log ++ [m]) = m.board := by
  rw [boardAfter, List.getLast?_concat]
  rfl

theorem Steady.step (h : Steady g) {i : Input} (hi : i.2 ≠ .saveRestore) : Steady (g.step i) := by
  have heffect := step_effect i.1 g i.2
  refine ⟨h.logged.step hi, h.coherent.effect h.logged.pending heffect, ?_⟩
  obtain ⟨hlog, hboard⟩ | ⟨m, hm⟩ := heffect.entry hi
  · change (g.step i).moveLog = _ at hlog
    rw [hlog]
    exact hboard.trans h.latest
  · have hlog : (g.step i).moveLog = _ := hm.log
    rw [hlog, boardAfter_append_singleton]
    exact hm.snapshot.symm

theorem Steady.playOn (h : Steady g) (i : Input) : Steady (g.playOn i) := by
  by_cases hi : i.2 = .saveRestore
  · obtain ⟨env, op⟩ := i
    subst hi
    rw [playOn_saveRestore h.logged.sound]
    have hcoherent : Coherent (g.restored env) := coherent_restored h.coherent
    exact
      { logged := ⟨.of_none rfl, h.logged.board, h.logged.sound, h.logged.numbered⟩
        coherent := ⟨hcoherent.seat, hcoherent.hands, hcoherent.turn, hcoherent.room,
          hcoherent.waiting⟩
        latest := h.latest }
  · rw [playOn_of_ne hi]
    exact h.step hi

/-! ## Where a pending placement comes from -/

/-- The pending placement of a game was made in the state `h`. -/
structure Origin (h g : Game) (pc : Challenge) : Prop where
  log : g.moveLog = h.moveLog
  may : ∃ lex playerId, Placeable lex h playerId pc.tilesPlaced pc.formedWords
  turn : pc.playerIdx = h.currentPlayerIdx
  name : (g.playerAt pc.playerIdx).name = (h.playerAt h.currentPlayerIdx).name
  hand : ((g.playerAt pc.playerIdx).hand ++ pc.removedFromHand).Perm
    (h.playerAt h.currentPlayerIdx).hand

/-- The state that a placement put to the vote was made in. -/
theorem Placeable.origin {playerId : String} {tiles : List Placed} {formed : List FormedWord}
    (h : Placeable env.lexicon g playerId tiles formed) {pc : Challenge}
    (hpc : (g.proposed env tiles formed).pendingChallenge = some pc) :
    Origin g (g.proposed env tiles formed) pc := by
  cases hpc
  let f : Player → Player := fun p => { p with hand := (removeTilesFromHand p.hand tiles).1 }
  have hat : (g.proposed env tiles formed).playerAt g.currentPlayerIdx =
      f (g.playerAt g.currentPlayerIdx) := playerAt_modifyPlayer_self g h.seat f
  refine ⟨rfl, ⟨env.lexicon, playerId, h⟩, rfl, ?_, ?_⟩
  · change ((g.proposed env tiles formed).playerAt g.currentPlayerIdx).name = _
    rw [hat]
  · change (((g.proposed env tiles formed).playerAt g.currentPlayerIdx).hand ++ _).Perm _
    rw [hat]
    exact List.perm_append_comm.trans (removeTilesFromHand_perm h.inHand)

/-- The state of origin goes with a placement that stays pending. -/
theorem Origin.carry {h : Game} {pc pc' : Challenge} (ho : Origin h g pc)
    (hlog : g'.moveLog = g.moveLog) (hpc : ∃ votes, pc' = { pc with votes })
    (hname : (g'.playerAt pc.playerIdx).name = (g.playerAt pc.playerIdx).name)
    (hhand : (g'.playerAt pc.playerIdx).hand = (g.playerAt pc.playerIdx).hand) :
    Origin h g' pc' := by
  obtain ⟨votes, rfl⟩ := hpc
  exact ⟨hlog.trans ho.log, ho.may, ho.turn, hname.trans ho.name, hhand.symm ▸ ho.hand⟩

/-- A change of one player, neither of the name nor of the hand. -/
theorem Origin.modify {h : Game} {pc pc' : Challenge} (ho : Origin h g pc) {idx : ℕ}
    {f : Player → Player} (hname : ∀ p, (f p).name = p.name) (hhand : ∀ p, (f p).hand = p.hand)
    (hlog : g'.moveLog = g.moveLog) (hplayers : g'.players = g.players.modify idx f)
    (hpc : ∃ votes, pc' = { pc with votes }) : Origin h g' pc' := by
  have hat : g'.playerAt pc.playerIdx = (g.modifyPlayer idx f).playerAt pc.playerIdx := by
    rw [playerAt, hplayers]
    rfl
  refine ho.carry hlog hpc ?_ ?_ <;> rw [hat]
  · exact playerAt_modifyPlayer_eq g hname idx _
  · exact playerAt_modifyPlayer_eq g hhand idx _

/-- **A pending placement** has just been put to the vote, or was pending before. -/
theorem Effect.origin {op : Op} (he : Effect env g op g') (hg : Steady g)
    (hremove : ∀ playerId, op ≠ .removePlayer playerId) {pc' : Challenge}
    (hpc' : g'.pendingChallenge = some pc') :
    Origin g g' pc' ∨
      ∃ pc, g.pendingChallenge = some pc ∧ ∀ h, Origin h g pc → Origin h g' pc' := by
  have hnone : ∀ {p : Prop}, g'.pendingChallenge = none → p := fun hnone =>
    absurd (hnone.symm.trans hpc') (by simp)
  have hwaiting : ∀ {p : Prop}, g.started = false → g'.pendingChallenge = g.pendingChallenge → p :=
    fun hw hkeep => hnone (hkeep.trans (hg.coherent.waiting hw).1)
  cases he with
  | refused => exact .inr ⟨pc', hpc', fun h ho => ho⟩
  | joined playerId name waiting => exact hwaiting waiting rfl
  | botJoined name difficulty seq waiting => exact hwaiting waiting rfl
  | dealt op waiting => exact hwaiting waiting rfl
  | dealtAt starter waiting => exact hwaiting waiting rfl
  | placed playerId tiles formed may =>
    exact hnone ((finalizePlacement_settles env g _ _ _ _).pendingChallenge may.free)
  | proposed playerId tiles formed may => exact .inl (may.origin hpc')
  | voted op pc pending voter playerId vote =>
    cases hpc'
    exact .inr ⟨pc, pending, fun h ho => ho.carry rfl ⟨_, rfl⟩ rfl rfl⟩
  | accepted op pc pending => exact hnone ((closeTurn_settles env _ _).pendingChallenge rfl)
  | rejected op pc pending => exact hnone ((finalizeReject_settles env g pending).pendingChallenge rfl)
  | withdrawn => exact hnone rfl
  | exchanged playerId tileIndices may =>
    exact hnone ((scorelessNextTurn_settles env _).pendingChallenge may.free)
  | passed playerId timeout may =>
    exact hnone ((scorelessNextTurn_settles env _).pendingChallenge
      (by cases timeout <;> exact may.free))
  | expired may =>
    obtain ⟨_, may⟩ := may
    exact hnone ((scorelessNextTurn_settles env _).pendingChallenge may.free)
  | expelled => exact hnone (by rw [resignSeat_rest])
  | resigned => exact hnone (by rw [resignSeat_rest])
  | ended => exact hnone (endGame_pendingChallenge _ _)
  | hinted => exact .inr ⟨pc', hpc', fun h ho => ho.carry rfl ⟨_, rfl⟩ rfl rfl⟩
  | disconnected playerId idx =>
    exact .inr ⟨pc', hpc', fun h ho => ho.modify (f := fun p => { p with disconnected := true })
      (fun _ => rfl) (fun _ => rfl) rfl rfl ⟨_, rfl⟩⟩
  | reconnected oldId newId idx =>
    obtain ⟨pc, hpc, rfl⟩ := Option.map_eq_some_iff.mp hpc'
    exact .inr ⟨pc, hpc, fun h ho => ho.modify (f := Player.reconnect newId) (fun _ => rfl)
      (fun _ => rfl) rfl rfl (updatePlayerSid_eq pc oldId newId)⟩
  | removed playerId => exact absurd rfl (hremove playerId)
  | skipped started unfinished free => exact hnone ((nextTurn_pendingChallenge env g).trans free)
  | restored => exact hnone rfl

/-! ## The position of a turn -/

/-- **The turn `m` was made in the state `g`**, from the hand `rack`: a placement that the rules
allow there, or an exchange or a pass. -/
structure MadeIn (g : Game) (rack : List Tile) (m : MoveLog) : Prop where
  unfinished : g.finished = false
  free : g.pendingChallenge = none
  seat : g.currentPlayerIdx < g.players.length
  name : m.playerName = (g.playerAt g.currentPlayerIdx).name
  hand : rack.Perm (g.playerAt g.currentPlayerIdx).hand
  deed : (∃ lex playerId tiles formed, Placeable lex g playerId tiles formed ∧
      m.isPlacement = true ∧
      m.details = moveDetails (some tiles) (some formed) (lerakasTotal formed tiles.length)
        (some rack)) ∨
    m.isPlacement = false ∧ m.actionType ∈ ["exchange", "pass"] ∧
      m.details = moveDetails none none 0 (some rack)

/-- A placement that the rules allow, as the turn of its state. -/
theorem Placeable.madeIn {lex : Lexicon} {playerId : String} {tiles : List Placed}
    {formed : List FormedWord} (h : Placeable lex g playerId tiles formed) {rack : List Tile}
    {m : MoveLog} (hname : m.playerName = (g.playerAt g.currentPlayerIdx).name)
    (hhand : rack.Perm (g.playerAt g.currentPlayerIdx).hand) (hkind : m.isPlacement = true)
    (hdetails : m.details = moveDetails (some tiles) (some formed)
      (lerakasTotal formed tiles.length) (some rack)) : MadeIn g rack m :=
  ⟨h.unfinished, h.free, h.seat, hname, hhand, .inl ⟨lex, playerId, tiles, formed, h, hkind, hdetails⟩⟩

/-- An exchange or a pass, as the turn of its state. -/
theorem MayAct.madeIn {playerId : String} (h : MayAct g playerId) {m : MoveLog}
    (hname : m.playerName = (g.playerAt g.currentPlayerIdx).name)
    (hkind : m.actionType ∈ ["exchange", "pass"])
    (hdetails : m.details = moveDetails none none 0 (some (g.playerAt g.currentPlayerIdx).hand)) :
    MadeIn g (g.playerAt g.currentPlayerIdx).hand m := by
  refine ⟨h.unfinished, h.free, h.seat, hname, List.Perm.refl _, .inr ⟨?_, hkind, hdetails⟩⟩
  rcases List.mem_cons.mp hkind with hexchange | hpass
  · simp [MoveLog.isPlacement, hexchange]
  · simp [MoveLog.isPlacement, List.mem_singleton.mp hpass]

/-- **The entry of an operation** is a rejection, a turn of the state before it, or a turn of the
state that the pending placement was made in. -/
theorem Entry.madeIn {lex : Lexicon} {m : MoveLog} (h : Entry lex g m) (hsound : PendingSound g) :
    m.actionType = "challenge_reject" ∨ (∃ rack, MadeIn g rack m) ∨
      ∃ pc, g.pendingChallenge = some pc ∧
        ∀ o, Origin o g pc → ∃ rack, MadeIn o rack m := by
  cases h with
  | place playerId tiles formed may => exact .inr (.inl ⟨_, may.madeIn rfl (List.Perm.refl _) rfl rfl⟩)
  | accept pc pending =>
    refine .inr (.inr ⟨pc, pending, fun o ho => ?_⟩)
    obtain ⟨lex, playerId, may⟩ := ho.may
    exact ⟨_, may.madeIn ho.name ho.hand rfl (by rw [(hsound pc pending).score])⟩
  | reject pc pending => exact .inl rfl
  | exchange playerId may => exact .inr (.inl ⟨_, may.madeIn rfl (by simp) rfl⟩)
  | pass playerId may => exact .inr (.inl ⟨_, may.madeIn rfl (by simp) rfl⟩)

/-- A run of which every turn in the log, and the pending placement, have the state that they were
made in. -/
structure Traced (g₀ : Game) (l : List Input) (g : Game) : Prop where
  steady : Steady g
  turns : ∀ k m, g.moveLog[k]? = some m → m.actionType = "challenge_reject" ∨
    ∃ l₁ rack, l₁ <+: l ∧ (Runs.run playOn g₀ l₁).moveLog = g.moveLog.take k ∧
      MadeIn (Runs.run playOn g₀ l₁) rack m
  pending : ∀ pc, g.pendingChallenge = some pc → ∃ l₁, l₁ <+: l ∧
    Origin (Runs.run playOn g₀ l₁) g pc

theorem traced_of_initial (h : Initial g) : Traced g [] g := by
  refine ⟨steady_of_initial h, ?_, ?_⟩ <;>
    obtain ⟨_, _, _, _, _, rfl⟩ | ⟨_, _, _, rfl⟩ := h
  · exact fun k m hm => absurd hm (by simp [new])
  · exact fun k m hm => absurd hm (by simp [newAsync, new])
  · exact fun pc hpc => absurd hpc (by simp [new])
  · exact fun pc hpc => absurd hpc (by simp [newAsync, new])

/-- A restart drops what is pending and keeps the log. -/
theorem Traced.restart {g₀ : Game} {l : List Input} (h : Traced g₀ l g) (env : Env) :
    Traced g₀ (l ++ [(env, .saveRestore)]) (g.playOn (env, .saveRestore)) := by
  have hsteady := h.steady.playOn (env, .saveRestore)
  rw [playOn_saveRestore h.steady.logged.sound] at hsteady ⊢
  refine ⟨hsteady, fun k m hm => ?_, fun pc hpc => absurd hpc (by simp [restored, new])⟩
  obtain hreject | ⟨l₁, rack, hl₁, hlog, hmade⟩ := h.turns k m hm
  · exact .inl hreject
  · exact .inr ⟨l₁, rack, hl₁.trans (List.prefix_append _ _), hlog, hmade⟩

theorem Traced.step {g₀ : Game} {l : List Input} (h : Traced g₀ l (Runs.run playOn g₀ l)) {i : Input}
    (hi : i.2 ≠ .saveRestore) (hremove : ∀ playerId, i.2 ≠ .removePlayer playerId) :
    Traced g₀ (l ++ [i]) ((Runs.run playOn g₀ l).step i) := by
  have heffect := step_effect i.1 (Runs.run playOn g₀ l) i.2
  have hlonger : ∀ {l₁ : List Input}, l₁ <+: l → l₁ <+: l ++ [i] := fun hl₁ =>
    hl₁.trans (List.prefix_append _ _)
  refine ⟨h.steady.step hi, fun k m hm => ?_, fun pc' hpc' => ?_⟩
  · obtain ⟨hlog, -⟩ | ⟨new, hnew⟩ := heffect.entry hi
    · change ((Runs.run playOn g₀ l).step i).moveLog = _ at hlog
      rw [hlog] at hm ⊢
      obtain hreject | ⟨l₁, rack, hl₁, htake, hmade⟩ := h.turns k m hm
      · exact .inl hreject
      · exact .inr ⟨l₁, rack, hlonger hl₁, htake, hmade⟩
    have hlog : ((Runs.run playOn g₀ l).step i).moveLog = _ := hnew.log
    rw [hlog] at hm ⊢
    by_cases hk : k < (Runs.run playOn g₀ l).moveLog.length
    · -- an entry that was there before
      rw [List.getElem?_append_left hk] at hm
      rw [List.take_append_of_le_length hk.le]
      obtain hreject | ⟨l₁, rack, hl₁, htake, hmade⟩ := h.turns k m hm
      · exact .inl hreject
      · exact .inr ⟨l₁, rack, hlonger hl₁, htake, hmade⟩
    · -- the entry of this step
      obtain ⟨hlt, -⟩ := List.getElem?_eq_some_iff.mp hm
      rw [List.length_append, List.length_singleton] at hlt
      obtain rfl : k = (Runs.run playOn g₀ l).moveLog.length := by omega
      rw [List.getElem?_concat_length, Option.some_inj] at hm
      subst hm
      rw [List.take_left]
      obtain hreject | ⟨rack, hmade⟩ | ⟨pc, hpc, hmade⟩ := hnew.entry.madeIn h.steady.logged.pending
      · exact .inl hreject
      · exact .inr ⟨l, rack, List.prefix_append _ _, rfl, hmade⟩
      · obtain ⟨l₁, hl₁, horigin⟩ := h.pending pc hpc
        obtain ⟨rack, hmade⟩ := hmade _ horigin
        exact .inr ⟨l₁, rack, hlonger hl₁, horigin.log.symm, hmade⟩
  · obtain hnew | ⟨pc, hpc, hcarry⟩ := heffect.origin h.steady hremove hpc'
    · exact ⟨l, List.prefix_append _ _, hnew⟩
    · obtain ⟨l₁, hl₁, horigin⟩ := h.pending pc hpc
      exact ⟨l₁, hlonger hl₁, hcarry _ horigin⟩

/-- **Every turn has its position**: the state of the run in which it was made. -/
theorem traced_run {g₀ : Game} (h₀ : Initial g₀) (l : List Input)
    (hl : ∀ i ∈ l, ∀ playerId, i.2 ≠ .removePlayer playerId) :
    Traced g₀ l (Runs.run playOn g₀ l) := by
  refine Runs.run_history playOn
    (P := fun l g => (∀ i ∈ l, ∀ playerId, i.2 ≠ .removePlayer playerId) → Traced g₀ l g)
    (fun _ => traced_of_initial h₀) (fun l i ih hl => ?_) l hl
  have htraced := ih fun j hj => hl j (List.mem_append_left _ hj)
  by_cases hi : i.2 = .saveRestore
  · obtain ⟨env, op⟩ := i
    subst hi
    exact htraced.restart env
  · rw [playOn_of_ne hi]
    exact htraced.step hi (hl i (by simp))

end Game

end ScrabbleMagyar
