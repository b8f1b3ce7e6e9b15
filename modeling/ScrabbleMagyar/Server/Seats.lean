import ScrabbleMagyar.Engine.Lineage
import ScrabbleMagyar.Server.Core
import ScrabbleMagyar.Server.Presence

/-!
# The server seen as seats and connections

The abstraction `Server.presence` of a server, and what the operations on seats, rooms and tokens
that the handlers share do to it: each is an operation of `Presence`.
-/

namespace ScrabbleMagyar

open Function (update)

def Player.seat (p : Player) : Seat := ⟨p.id, p.name, p.isBot, p.disconnected⟩

namespace Game

/-! ## The seats of a game -/

def seats (g : Game) : List Seat := g.players.map Player.seat

open Server.Hall

theorem map_modify_changeSeat {l : List Player} {id : String} {idx : ℕ} {f : Player → Player}
    {f' : Seat → Seat} (hf : ∀ p, (f p).seat = f' p.seat)
    (h : l.findIdx? (fun p => p.id = id) = some idx) :
    (l.modify idx f).map Player.seat = changeSeat id f' (l.map Player.seat) := by
  induction l generalizing idx with
  | nil => cases h
  | cons p l ih =>
    rw [List.findIdx?_cons] at h
    by_cases hp : p.id = id
    · have hidx : idx = 0 := by simpa [hp] using h.symm
      subst hidx
      have hseat : p.seat.id = id := hp
      rw [List.modify_zero_cons, List.map_cons, List.map_cons, changeSeat, if_pos hseat, hf]
    · simp only [hp, decide_false, Bool.false_eq_true, if_false, Option.map_eq_some_iff] at h
      obtain ⟨i, hi, rfl⟩ := h
      have hseat : p.seat.id ≠ id := hp
      rw [List.modify_succ_cons, List.map_cons, List.map_cons, changeSeat, if_neg hseat, ih hi]

theorem changeSeat_of_none {l : List Player} {id : String} {f : Seat → Seat}
    (h : l.findIdx? (fun p => p.id = id) = none) :
    changeSeat id f (l.map Player.seat) = l.map Player.seat := by
  induction l with
  | nil => rfl
  | cons p l ih =>
    rw [List.findIdx?_eq_none_iff] at h
    have hp : p.seat.id ≠ id := by simpa [Player.seat] using h p (by simp)
    have hl : l.findIdx? (fun p => p.id = id) = none :=
      List.findIdx?_eq_none_iff.mpr fun q hq => h q (by simp [hq])
    rw [List.map_cons, changeSeat, if_neg hp, ih hl]

theorem seats_markDisconnected (g : Game) (id : String) :
    (g.markDisconnected id).1.seats = changeSeat id Seat.leave g.seats := by
  unfold markDisconnected
  cases h : g.seatOf id with
  | none => exact (changeSeat_of_none h).symm
  | some idx => exact map_modify_changeSeat (fun _ => rfl) h

theorem seats_replacePlayerSid (g : Game) (old new : String) :
    (g.replacePlayerSid old new).1.seats = changeSeat old (Seat.reconnect new) g.seats := by
  unfold replacePlayerSid
  cases h : g.seatOf old with
  | none => exact (changeSeat_of_none h).symm
  | some idx => exact map_modify_changeSeat (fun _ => rfl) h

theorem seats_removePlayer (g : Game) (id : String) :
    (g.removePlayer id).1.seats = g.seats.eraseP fun x => x.id = id := by
  have hcomp : (fun p : Player => decide (p.id = id)) =
      (fun x : Seat => decide (x.id = id)) ∘ Player.seat := rfl
  have herase : (g.players.eraseP fun p => p.id = id).map Player.seat =
      g.seats.eraseP fun x => x.id = id := by
    rw [hcomp, ← List.eraseP_map]
    rfl
  rw [← herase, List.eraseP_eq_eraseIdx]
  unfold removePlayer
  cases h : g.seatOf id with
  | none =>
    rw [seatOf] at h
    simp [h, seats]
  | some idx =>
    have hidx := h
    rw [seatOf] at hidx
    simp [hidx, seats, removeSeat_players]

theorem seats_start (env : Env) (g : Game) : (g.start env).1.seats = g.seats := by
  unfold start
  split
  · rfl
  · split
    · rfl
    · exact deal_map (fun _ _ => rfl) _ _

theorem seats_nextTurn (env : Env) (g : Game) : (g.nextTurn env).seats = g.seats :=
  nextTurn_map env g fun _ _ => rfl

theorem seats_skipDisconnectedCurrent (env : Env) (g : Game) :
    (g.skipDisconnectedCurrent env).1.seats = g.seats := by
  unfold skipDisconnectedCurrent
  split
  · rfl
  · split
    · rfl
    · split
      · rfl
      · split
        · rfl
        · exact seats_nextTurn env g

theorem Settles.seats {env : Env} {g g' : Game} (h : Settles env g g') : g'.seats = g.seats :=
  h.map_eq (fun _ _ => rfl) fun _ _ => rfl

theorem seats_modify {g : Game} {idx : ℕ} {f : Player → Player} {players : List Player}
    (h : players = g.players.modify idx f) (hf : ∀ p, (f p).seat = p.seat) :
    players.map Player.seat = g.seats := by
  rw [h]
  exact Lists.map_modify_eq hf _ _

theorem seats_scorelessNextTurn (env : Env) (g : Game) :
    (g.scorelessNextTurn env).seats = g.seats := (scorelessNextTurn_settles env g).seats

theorem seats_notePass (g : Game) (timeout : Bool) : (g.notePass timeout).seats = g.seats :=
  seats_modify (notePass_players g timeout) fun _ => by cases timeout <;> rfl

theorem seats_returnTiles (g : Game) (pc : Challenge) : (g.returnTiles pc).seats = g.seats :=
  seats_modify (f := fun p => { p with hand := p.hand ++ pc.removedFromHand }) rfl fun _ => rfl

theorem seats_resignSeat (g : Game) (idx : ℕ) : (g.resignSeat idx).seats = g.seats := by
  rw [resignSeat_rest]
  exact (settle_map (fun _ _ => rfl) _ none).trans
    (seats_modify (f := fun p : Player => { p with resigned := true }) rfl fun _ => rfl)

/-- No move changes the seats. -/
theorem Effect.seats {env : Env} {g g' : Game} {op : Op} (he : Effect env g op g')
    (hop : op.isPlay = true) : g'.seats = g.seats := by
  cases he with
  | placed playerId tiles formed =>
    exact (finalizePlacement_settles env g _ _ _ _).seats.trans
      (seats_modify (layTiles_players ..) fun _ => rfl)
  | proposed playerId tiles formed =>
    exact seats_modify
      (f := fun p => { p with hand := (removeTilesFromHand p.hand tiles).1 }) rfl fun _ => rfl
  | accepted op pc pending =>
    exact (closeTurn_settles env _ _).seats.trans
      (seats_modify (layPending_players ..) fun _ => rfl)
  | rejected op pc pending =>
    exact (finalizeReject_settles env g pending).seats.trans (seats_returnTiles g pc)
  | withdrawn playerId pc pending => exact seats_returnTiles g pc
  | exchanged playerId tileIndices =>
    exact (seats_scorelessNextTurn env _).trans
      (seats_modify (swapTiles_players ..) fun _ => rfl)
  | passed playerId timeout =>
    exact (seats_scorelessNextTurn env _).trans (seats_notePass g timeout)
  | expired => exact (seats_scorelessNextTurn env _).trans (seats_notePass g true)
  | expelled idx =>
    exact (seats_resignSeat _ idx).trans
      ((seats_nextTurn env (g.notePass true).bumped).trans (seats_notePass g true))
  | resigned playerId idx => exact seats_resignSeat g idx
  | ended =>
    refine (show Settles env g.unwindPending _ from .gameOver none).seats.trans ?_
    unfold unwindPending
    split
    · exact seats_returnTiles g _
    · rfl
  | dealt => exact deal_map (fun _ _ => rfl) _ _
  | refused => rfl
  | voted => rfl
  | _ => cases hop

theorem seats_step {g : Game} {i : Input} (hop : i.2.isPlay = true) :
    (g.step i).seats = g.seats := (step_effect i.1 g i.2).seats hop

/-! ## What a move leaves alone -/

/-- Closing a turn does not make a game a puzzle, and an ended game stays so. -/
theorem Settles.rest {env : Env} {g g' : Game} (h : Settles env g g') :
    g'.puzzle.isSome = g.puzzle.isSome ∧ (g.finished = true → g'.finished = true) := by
  cases h with
  | gameOver finisher =>
    rw [endGame_rest]
    exact ⟨rfl, fun _ => rfl⟩
  | solved idx score words => exact ⟨by simp [finishPuzzle, setLastAction], fun _ => rfl⟩
  | next =>
    rw [nextTurn_rest]
    exact ⟨rfl, fun h => h⟩
  | stay => exact ⟨rfl, fun h => h⟩

theorem unwindPending_rest (g : Game) :
    g.unwindPending.puzzle = g.puzzle ∧ g.unwindPending.started = g.started := by
  unfold unwindPending
  split <;> exact ⟨rfl, rfl⟩

theorem notePass_rest (g : Game) (timeout : Bool) :
    (g.notePass timeout).puzzle = g.puzzle ∧ (g.notePass timeout).started = g.started ∧
      (g.notePass timeout).finished = g.finished := by
  cases timeout <;> exact ⟨rfl, rfl, rfl⟩

/-- No move makes a game a puzzle, and an ended game stays so. -/
theorem Effect.rest {env : Env} {g g' : Game} {op : Op} (he : Effect env g op g')
    (hop : op.isPlay = true) :
    g'.puzzle.isSome = g.puzzle.isSome ∧ (g.finished = true → g'.finished = true) := by
  cases he with
  | placed playerId tiles formed => exact (finalizePlacement_settles env g _ _ _ _).rest
  | accepted op pc => exact (closeTurn_settles env (g.layPending pc) _).rest
  | rejected op pc pending => exact (finalizeReject_settles env g pending).rest
  | exchanged playerId tileIndices =>
    exact (scorelessNextTurn_settles env (g.swapTiles env tileIndices)).rest
  | passed playerId timeout =>
    have h := (scorelessNextTurn_settles env (g.notePass timeout)).rest
    obtain ⟨hpuzzle, -, hfin⟩ := notePass_rest g timeout
    rw [bumped, hpuzzle, hfin] at h
    exact h
  | expired =>
    have h := (scorelessNextTurn_settles env (g.notePass true)).rest
    obtain ⟨hpuzzle, -, hfin⟩ := notePass_rest g true
    rw [bumped, hpuzzle, hfin] at h
    exact h
  | expelled idx =>
    rw [resignSeat_rest, nextTurn_rest]
    exact ⟨rfl, fun _ => rfl⟩
  | resigned playerId idx =>
    rw [resignSeat_rest]
    exact ⟨rfl, fun _ => rfl⟩
  | ended =>
    rw [endGame_rest]
    exact ⟨by rw [(unwindPending_rest g).1], fun _ => rfl⟩
  | removed playerId idx => cases hop
  | skipped => cases hop
  | restored => cases hop
  | _ => exact ⟨rfl, fun h => h⟩

theorem Settles.started_eq {env : Env} {g g' : Game} (h : Settles env g g') :
    g'.started = g.started := h.keeps.2.2.2.1

theorem started_finalizeAccept (env : Env) (g : Game) :
    (g.finalizeAccept env).started = g.started := by
  unfold finalizeAccept
  split
  · rfl
  · exact (closeTurn_settles env _ _).started_eq

theorem started_finalizeReject (env : Env) (g : Game) :
    (g.finalizeReject env).started = g.started := by
  cases hpc : g.pendingChallenge with
  | none => simp only [finalizeReject, hpc]
  | some pc => exact (finalizeReject_settles env g hpc).started_eq

theorem started_castVote (env : Env) (g : Game) (playerId : String) (vote : Vote) :
    (g.castVote env playerId vote).1.started = g.started := by
  obtain ⟨e, h⟩ | ⟨pc, voter, -, -, -, -, ⟨-, h⟩ | ⟨-, ⟨-, h⟩ | ⟨-, h⟩⟩⟩ :=
    castVote_cases env g playerId vote <;> rw [h]
  · rfl
  · exact started_finalizeAccept env g
  · exact started_finalizeReject env g

theorem started_passTurn (env : Env) (g : Game) (playerId : String) (timeout : Bool) :
    (g.passTurn env playerId timeout).1.started = g.started := by
  obtain ⟨e, h⟩ | ⟨-, h⟩ := passTurn_cases env g playerId timeout <;> rw [h]
  exact (scorelessNextTurn_settles env _).started_eq.trans (notePass_rest g timeout).2.1

/-- No move starts a game. -/
theorem started_step {g : Game} {i : Input} (hop : i.2.isPlay = true) :
    (g.step i).started = g.started := by
  obtain ⟨env, op⟩ := i
  cases op with
  | placeTiles playerId tiles =>
    change (g.placeTiles env playerId tiles).1.started = _
    obtain ⟨e, h⟩ | ⟨formed, h⟩ := placeTiles_cases env g playerId tiles
    · rw [h]
    · rw [placeTiles_eq h]
      by_cases hc : g.challengeApplies g.currentPlayerIdx = true
      · simp only [hc, if_true]
        rfl
      · simp only [hc, Bool.false_eq_true, if_false]
        exact (finalizePlacement_settles env g _ _ _ _).started_eq
  | exchangeTiles playerId tileIndices =>
    change (g.exchangeTiles env playerId tileIndices).1.started = _
    obtain ⟨e, h⟩ | ⟨-, -, m, h⟩ := exchangeTiles_cases env g playerId tileIndices <;> rw [h]
    exact (scorelessNextTurn_settles env _).started_eq
  | passTurn playerId timeout => exact started_passTurn env g playerId timeout
  | acceptPendingByPlayer playerId => exact started_castVote env g playerId .accept
  | rejectPendingByPlayer playerId => exact started_castVote env g playerId .reject
  | withdrawPending playerId =>
    change (g.withdrawPending playerId).1.started = _
    unfold withdrawPending
    split
    · rfl
    · split_ifs <;> rfl
  | acceptPending =>
    change (g.acceptPending env).1.started = _
    unfold acceptPending
    split
    · rfl
    · obtain h | h := resolveAndFinalize_cases env g <;> rw [h]
      · exact started_finalizeAccept env g
      · exact started_finalizeReject env g
  | forceResolvePending accept =>
    change (g.forceResolvePending env accept).1.started = _
    unfold forceResolvePending
    split_ifs
    · rfl
    · exact started_finalizeAccept env g
    · exact started_finalizeReject env g
  | expireTurn =>
    change (g.expireTurn env).1.started = _
    obtain h | ⟨-, -, -, h | ⟨-, idx, -, h⟩⟩ := expireTurn_cases env g <;> rw [h]
    · exact (scorelessNextTurn_settles env _).started_eq.trans (notePass_rest g true).2.1
    · rw [resignSeat_rest, nextTurn_rest]
      exact (notePass_rest g true).2.1
  | resign playerId =>
    change (g.resign playerId).1.started = _
    obtain ⟨e, h⟩ | ⟨idx, -, -, -, h⟩ := resign_cases g playerId <;> rw [h]
    rw [resignSeat_rest]
  | forceEnd =>
    change g.forceEnd.1.started = _
    unfold forceEnd
    split_ifs
    · rfl
    · exact (endGame_started _ _).trans (unwindPending_rest g).2
  | _ => cases hop

end Game

namespace Server

/-! ## The presence of a server -/

def Room.hall (room : Room) : Hall := ⟨room.game.seats, room.isAsync, room.knownUserIds⟩

def presence (st : Server) : Presence where
  halls := fun r => (st.rooms.lookup r).map Room.hall
  roomOf := fun s => st.playerRooms.lookup s
  holder := fun t => (st.reconnectTokens.lookup t).map fun e => (e.roomId, e.sid)
  tokenOf := fun s => st.sidToToken.lookup s
  away := fun t => (st.disconnectedPlayers.lookup t).map fun e => ⟨e.roomId, e.sid, e.seq⟩
  account := fun s => st.playerAuth.lookup s
  seq := st.disconnectSeq
  fresh := st.roomSeq
  timers := st.graceTimers
  closed := st.closed

variable (st : Server)

theorem lookup_modifyRoom (roomId r : RoomId) (f : Room → Room) :
    (st.modifyRoom roomId f).rooms.lookup r =
      if r = roomId then (st.rooms.lookup r).map f else st.rooms.lookup r := by
  unfold modifyRoom
  by_cases hr : r = roomId
  · subst hr
    cases h : st.rooms.lookup r with
    | none => simp [h]
    | some room => simp
  · cases h : st.rooms.lookup roomId with
    | none => simp [hr]
    | some room => simp [hr]

/-- A change of a room leaves everything but the rooms alone. -/
theorem modifyRoom_rest (roomId : RoomId) (f : Room → Room) :
    st.modifyRoom roomId f = { st with rooms := (st.modifyRoom roomId f).rooms } := by
  unfold modifyRoom
  cases st.rooms.lookup roomId <;> rfl

theorem presence_modifyRoom {roomId : RoomId} {f : Room → Room} {F : Hall → Hall}
    (hf : ∀ room, st.rooms.lookup roomId = some room → (f room).hall = F room.hall) :
    (st.modifyRoom roomId f).presence = st.presence.modifyHall roomId F := by
  rw [modifyRoom_rest]
  refine Presence.ext ?_ rfl rfl rfl rfl rfl rfl rfl rfl rfl
  funext r
  change ((st.modifyRoom roomId f).rooms.lookup r).map Room.hall =
    update st.presence.halls roomId ((st.presence.halls roomId).map F) r
  rw [lookup_modifyRoom]
  by_cases hr : r = roomId
  · subst hr
    rw [if_pos rfl, Function.update_self]
    cases h : st.rooms.lookup r with
    | none => simp [presence, h]
    | some room => simp [presence, h, hf room h]
  · rw [if_neg hr, Function.update_of_ne hr]
    rfl

theorem modifyHall_self {p : Presence} {roomId : RoomId} {F : Hall → Hall}
    (hF : ∀ h, p.halls roomId = some h → F h = h) : p.modifyHall roomId F = p := by
  refine Presence.ext ?_ rfl rfl rfl rfl rfl rfl rfl rfl rfl
  funext r
  change update p.halls roomId ((p.halls roomId).map F) r = p.halls r
  by_cases hr : r = roomId
  · subst hr
    rw [Function.update_self]
    cases h : p.halls r with
    | none => rfl
    | some hall => rw [Option.map_some, hF hall h]
  · rw [Function.update_of_ne hr]

theorem presence_modifyGame {roomId : RoomId} {f : Game → Game} {F : Hall → Hall}
    (hf : ∀ room : Room, (Room.hall { room with game := f room.game }) = F room.hall) :
    (st.modifyGame roomId f).presence = st.presence.modifyHall roomId F :=
  st.presence_modifyRoom fun room _ => hf room

theorem presence_flag (roomId : RoomId) (sid : String) :
    (st.modifyGame roomId fun g => (g.markDisconnected sid).1).presence =
      st.presence.modifyHall roomId (Hall.flag sid) :=
  st.presence_modifyGame fun room => by
    simp only [Room.hall, Hall.flag, Game.seats_markDisconnected]

theorem presence_unseat (roomId : RoomId) (sid : String) :
    (st.modifyGame roomId fun g => (g.removePlayer sid).1).presence =
      st.presence.modifyHall roomId (Hall.unseat sid) :=
  st.presence_modifyGame fun room => by
    simp only [Room.hall, Hall.unseat, Game.seats_removePlayer]

/-! ## Whereabouts and tokens -/

theorem presence_enterRoom (sid : String) (roomId : RoomId) :
    (st.enterRoom sid roomId).presence = st.presence.enter sid roomId := by
  refine Presence.ext rfl ?_ rfl rfl rfl rfl rfl rfl rfl rfl
  funext s
  by_cases hs : s = sid <;>
    simp [presence, Presence.enter, enterRoom, Table.lookup_insert, hs]

theorem presence_exitRoom (sid : String) :
    (st.exitRoom sid).presence = st.presence.exit [sid] := by
  refine Presence.ext rfl ?_ rfl rfl rfl rfl rfl rfl rfl rfl
  funext s
  simp [presence, Presence.exit, exitRoom, Table.lookup_erase]

theorem presence_cleanupPlayerToken (sid : String) :
    (st.cleanupPlayerToken sid).presence = st.presence.revoke [sid] := by
  unfold cleanupPlayerToken
  cases h : st.sidToToken.lookup sid with
  | none =>
    refine Presence.ext rfl rfl ?_ ?_ ?_ rfl rfl rfl rfl rfl
    · funext t
      simp [presence, Presence.revoke, h]
    · funext s
      by_cases hs : s = sid
      · simp [presence, Presence.revoke, hs, h]
      · simp [presence, Presence.revoke, hs]
    · funext t
      simp [presence, Presence.revoke, h]
  | some token =>
    refine Presence.ext rfl rfl ?_ ?_ ?_ rfl rfl rfl rfl rfl
    · funext t
      by_cases ht : t = token
      · simp [presence, Presence.revoke, h, ht]
      · simp [presence, Presence.revoke, h, ht, Ne.symm ht, Table.lookup_erase]
    · funext s
      simp [presence, Presence.revoke, Table.lookup_erase]
    · funext t
      by_cases ht : t = token
      · simp [presence, Presence.revoke, h, ht]
      · simp [presence, Presence.revoke, h, ht, Ne.symm ht, Table.lookup_erase]

theorem presence_markDisconnected (token : Token) (sid : String) (roomId : RoomId) (name : String)
    (auth : Option AuthInfo) :
    (st.markDisconnected token sid roomId name auth).1.presence =
      st.presence.note token sid roomId := by
  refine Presence.ext rfl rfl rfl rfl ?_ rfl rfl rfl rfl rfl
  funext t
  by_cases ht : t = token
  · simp [presence, Presence.note, Server.markDisconnected, ht]
  · simp [presence, Presence.note, Server.markDisconnected, Table.lookup_insert, ht]

/-- What a new token does, whether it is a user's or a random one. -/
theorem presence_generateReconnectToken (sid : String) (roomId : RoomId) (name : String)
    (auth : Option AuthInfo) :
    (st.generateReconnectToken sid roomId name auth).1.presence =
      st.presence.grant (st.generateReconnectToken sid roomId name auth).2 sid roomId := by
  -- `st'` has the number of a new guest taken, `st''` the old entry of the token cleared as well
  have key : ∀ (st' st'' : Server) (token : Token), st'.presence = st.presence →
      (st'.reconnectTokens.lookup token = none → st'' = st') →
      (∀ old, st'.reconnectTokens.lookup token = some old → st'' = { st' with
        sidToToken := st'.sidToToken.erase old.sid
        disconnectedPlayers := st'.disconnectedPlayers.erase token }) →
      ({ st'' with
        reconnectTokens := st''.reconnectTokens.insert token ⟨roomId, name, sid, auth⟩
        sidToToken := st''.sidToToken.insert sid token } : Server).presence =
      st.presence.grant token sid roomId := by
    intro st' st'' token hst' hnone hsome
    rw [← hst']
    cases h : st'.reconnectTokens.lookup token with
    | none =>
      rw [hnone h]
      refine Presence.ext rfl rfl ?_ ?_ ?_ rfl rfl rfl rfl rfl
      · funext t
        by_cases ht : t = token <;> simp [presence, Presence.grant, Table.lookup_insert, ht]
      · funext s
        by_cases hs : s = sid <;>
          simp [presence, Presence.grant, Table.lookup_insert, hs, h]
      · funext t
        simp [presence, Presence.grant, h]
    | some old =>
      rw [hsome old h]
      refine Presence.ext rfl rfl ?_ ?_ ?_ rfl rfl rfl rfl rfl
      · funext t
        by_cases ht : t = token <;> simp [presence, Presence.grant, Table.lookup_insert, ht]
      · funext s
        by_cases hs : s = sid
        · simp [presence, Presence.grant, hs]
        · simp [presence, Presence.grant, Table.lookup_insert, Table.lookup_erase, hs, h,
            eq_comm (a := old.sid)]
      · funext t
        by_cases ht : t = token <;>
          simp [presence, Presence.grant, h, Table.lookup_erase, ht]
  unfold generateReconnectToken
  cases hauth : auth.bind AuthInfo.registeredId with
  | some uid =>
    exact key st _ (.user uid) rfl (fun h => by rw [h]) fun old h => by rw [h]
  | none =>
    exact key { st with tokenSeq := st.tokenSeq + 1 } _ (.guest st.tokenSeq) rfl
      (fun h => by rw [h]) fun old h => by rw [h]

theorem presence_completeRejoin {token : Token} {info : DisconnectedInfo}
    (h : st.disconnectedPlayers.lookup token = some info) (sid : String) :
    (st.completeRejoin token sid).presence =
      st.presence.complete token ⟨info.roomId, info.sid, info.seq⟩ sid := by
  unfold completeRejoin
  rw [h]
  refine Presence.ext rfl rfl ?_ ?_ ?_ rfl rfl rfl rfl rfl
  · funext t
    by_cases ht : t = token
    · cases hentry : st.reconnectTokens.lookup token <;>
        simp [presence, Presence.complete, ht, hentry]
    · cases hentry : st.reconnectTokens.lookup token <;>
        simp [presence, Presence.complete, ht, hentry, Table.lookup_insert]
  · funext s
    by_cases hs : s = sid
    · simp [presence, Presence.complete, hs]
    · by_cases hs' : s = info.sid
      · subst hs'
        simp [presence, Presence.complete, Table.lookup_insert, hs]
      · simp [presence, Presence.complete, Table.lookup_insert, Table.lookup_erase, hs, hs']
  · funext t
    by_cases ht : t = token <;>
      simp [presence, Presence.complete, Table.lookup_erase, ht]

theorem presence_finalizeDisconnect {token : Token} {info : DisconnectedInfo}
    (h : st.disconnectedPlayers.lookup token = some info) :
    (st.finalizeDisconnect token).1.presence =
      st.presence.forget token ⟨info.roomId, info.sid, info.seq⟩ := by
  unfold finalizeDisconnect
  rw [h]
  refine Presence.ext rfl rfl ?_ ?_ ?_ rfl rfl rfl rfl rfl
  · funext t
    by_cases ht : t = token <;> simp [presence, Presence.forget, Table.lookup_erase, ht]
  · funext s
    by_cases hs : s = info.sid <;> simp [presence, Presence.forget, Table.lookup_erase, hs]
  · funext t
    by_cases ht : t = token <;> simp [presence, Presence.forget, Table.lookup_erase, ht]

/-! ## Rooms that are released -/

/-- The presence without some absences and their tokens. -/
def Presence.without (p : Presence) (l : List (Token × String)) : Presence :=
  { p with
    away := fun t => if t ∈ l.map Prod.fst then none else p.away t
    holder := fun t => if t ∈ l.map Prod.fst then none else p.holder t
    tokenOf := fun s => if s ∈ l.map Prod.snd then none else p.tokenOf s }

theorem ite_mem_cons {α β : Type*} [DecidableEq α] (x a : α) (l : List α) (v : Option β) :
    (if x ∈ l then none else if x ∈ [a] then none else v) =
      if x ∈ a :: l then none else v := by
  by_cases ha : x = a <;> by_cases hl : x ∈ l <;> simp [ha, hl]

theorem Presence.without_cons (p : Presence) (e : Token × String) (l : List (Token × String)) :
    (p.without [e]).without l = p.without (e :: l) := by
  refine Presence.ext rfl rfl ?_ ?_ ?_ rfl rfl rfl rfl rfl
  · funext t
    exact ite_mem_cons t e.1 (l.map Prod.fst) _
  · funext s
    exact ite_mem_cons s e.2 (l.map Prod.snd) _
  · funext t
    exact ite_mem_cons t e.1 (l.map Prod.fst) _

theorem presence_dropDisconnected (token : Token) (info : DisconnectedInfo) :
    (st.dropDisconnected token info).presence = st.presence.without [(token, info.sid)] := by
  refine Presence.ext rfl rfl ?_ ?_ ?_ rfl rfl rfl rfl rfl
  · funext t
    by_cases ht : t = token <;>
      simp [presence, Presence.without, dropDisconnected, Table.lookup_erase, ht]
  · funext s
    by_cases hs : s = info.sid <;>
      simp [presence, Presence.without, dropDisconnected, Table.lookup_erase, hs]
  · funext t
    by_cases ht : t = token <;>
      simp [presence, Presence.without, dropDisconnected, Table.lookup_erase, ht]

theorem presence_foldl_dropDisconnected (l : List (Σ _ : Token, DisconnectedInfo)) :
    (l.foldl (fun st e => st.dropDisconnected e.1 e.2) st).presence =
      st.presence.without (l.map fun e => (e.1, e.2.sid)) := by
  induction l generalizing st with
  | nil => rfl
  | cons e l ih =>
    rw [List.foldl_cons, ih, presence_dropDisconnected, Presence.without_cons]
    rfl

/-- The absences from a room. -/
def absences (roomId : RoomId) : List (Token × String) :=
  (st.disconnectedPlayers.entries.filter fun e => e.2.roomId = roomId).map fun e => (e.1, e.2.sid)

theorem mem_absences_iff (roomId : RoomId) (token : Token) (sid : String) :
    (token, sid) ∈ st.absences roomId ↔
      ∃ a, st.presence.away token = some a ∧ a.roomId = roomId ∧ a.sid = sid := by
  simp only [absences, List.mem_map, List.mem_filter, decide_eq_true_iff, Prod.mk.injEq]
  constructor
  · rintro ⟨⟨t, info⟩, ⟨he, hr⟩, rfl, rfl⟩
    have hinfo : st.disconnectedPlayers.lookup t = some info := AList.mem_lookup_iff.mpr he
    exact ⟨⟨info.roomId, info.sid, info.seq⟩, by simp [presence, hinfo], hr, rfl⟩
  · rintro ⟨a, ha, hr, hs⟩
    obtain ⟨info, hinfo, rfl⟩ := Option.map_eq_some_iff.mp ha
    exact ⟨⟨token, info⟩, ⟨AList.mem_lookup_iff.mp hinfo, hr⟩, rfl, hs⟩

/-- Forgetting the absences from a room is all that dropping it does to the tokens. -/
theorem presence_cleanupRoomTokens (roomId : RoomId) :
    (st.cleanupRoomTokens roomId).presence =
      { st.presence.drop roomId with halls := st.presence.halls } := by
  have htokens : (st.cleanupRoomTokens roomId).presence = st.presence.without (st.absences roomId) :=
    st.presence_foldl_dropDisconnected _
  have hfst : ∀ t, t ∈ (st.absences roomId).map Prod.fst ↔
      ∃ a, st.presence.away t = some a ∧ a.roomId = roomId := by
    intro t
    simp only [List.mem_map, Prod.exists, exists_and_right, exists_eq_right, mem_absences_iff]
    constructor
    · rintro ⟨s, a, ha, hr, -⟩
      exact ⟨a, ha, hr⟩
    · rintro ⟨a, ha, hr⟩
      exact ⟨a.sid, a, ha, hr, rfl⟩
  have hsnd : ∀ s, s ∈ (st.absences roomId).map Prod.snd ↔
      ∃ t a, st.presence.away t = some a ∧ a.roomId = roomId ∧ a.sid = s := by
    intro s
    simp only [List.mem_map, Prod.exists, exists_eq_right, mem_absences_iff]
  rw [htokens]
  refine Presence.ext rfl rfl ?_ ?_ ?_ rfl rfl rfl rfl rfl
  · funext t
    by_cases ht : t ∈ (st.absences roomId).map Prod.fst
    · simp only [Presence.without, Presence.drop, if_pos ht, if_pos ((hfst t).mp ht)]
    · simp only [Presence.without, Presence.drop, if_neg ht, if_neg (ht ∘ (hfst t).mpr)]
  · funext s
    by_cases hs : s ∈ (st.absences roomId).map Prod.snd
    · simp only [Presence.without, Presence.drop, if_pos hs, if_pos ((hsnd s).mp hs)]
    · simp only [Presence.without, Presence.drop, if_neg hs, if_neg (hs ∘ (hsnd s).mpr)]
  · funext t
    by_cases ht : t ∈ (st.absences roomId).map Prod.fst
    · obtain ⟨a, ha, hr⟩ := (hfst t).mp ht
      simp only [Presence.without, Presence.drop, if_pos ht, ha, Option.filter, hr, ne_eq,
        not_true_eq_false, decide_false, Bool.false_eq_true, if_false]
    · simp only [Presence.without, Presence.drop, if_neg ht]
      cases ha : st.presence.away t with
      | none => rfl
      | some a =>
        have hr : a.roomId ≠ roomId := fun hr => ht ((hfst t).mpr ⟨a, ha, hr⟩)
        exact (Option.filter_some_pos (by simpa using hr)).symm

theorem presence_cleanupRoom (roomId : RoomId) :
    (st.cleanupRoom roomId).presence = st.presence.drop roomId := by
  have htokens := st.presence_cleanupRoomTokens roomId
  have hclean : (st.cleanupRoom roomId).presence =
      { (st.cleanupRoomTokens roomId).presence with
        halls := update (st.cleanupRoomTokens roomId).presence.halls roomId none } := by
    refine Presence.ext ?_ rfl rfl rfl rfl rfl rfl rfl rfl rfl
    funext r
    by_cases hr : r = roomId <;> simp [presence, cleanupRoom, Table.lookup_erase, hr]
  rw [hclean, htokens]
  rfl

/-- Forgetting the absences from a room before it is dropped makes no difference. -/
theorem drop_of_forgotten (p : Presence) (roomId : RoomId) :
    ({ p.drop roomId with halls := p.halls } : Presence).drop roomId = p.drop roomId := by
  have hnone : ∀ t a, (p.away t).filter (fun a => decide (a.roomId ≠ roomId)) = some a →
      a.roomId ≠ roomId := by
    intro t a ha
    simpa using (Option.filter_eq_some_iff.mp ha).2
  refine Presence.ext rfl rfl ?_ ?_ ?_ rfl rfl rfl rfl rfl
  · funext t
    exact if_neg fun ⟨a, ha, hr⟩ => hnone t a ha hr
  · funext s
    exact if_neg fun ⟨t, a, ha, hr, _⟩ => hnone t a ha hr
  · funext t
    change ((p.away t).filter _).filter _ = (p.away t).filter _
    rw [Option.filter_filter]
    simp

theorem presence_abandonSave (roomId : RoomId) (room : Room) :
    (st.abandonSave roomId room).presence = st.presence := by
  unfold abandonSave
  split <;> rfl

/-- Connections leave one after the other. -/
theorem exit_revoke_cons (p : Presence) (s : String) (l : List String) :
    (((p.exit [s]).revoke [s]).exit l).revoke l = (p.exit (s :: l)).revoke (s :: l) := by
  have hheld : ∀ t, ((∃ s' ∈ l, (if s' ∈ [s] then none else p.tokenOf s') = some t) ∨
      p.tokenOf s = some t) ↔ ∃ s' ∈ s :: l, p.tokenOf s' = some t := by
    intro t
    simp only [List.mem_cons, List.not_mem_nil, or_false, exists_eq_or_imp]
    constructor
    · rintro (⟨s', hs', h⟩ | h)
      · split at h
        · cases h
        · exact .inr ⟨s', hs', h⟩
      · exact .inl h
    · rintro (h | ⟨s', hs', h⟩)
      · exact .inr h
      · by_cases hs : s' = s
        · exact .inr (hs ▸ h)
        · exact .inl ⟨s', hs', by rw [if_neg hs, h]⟩
  have hgone : ∀ {α : Type} (t : Token) (v : Option α),
      (if ∃ s' ∈ l, (if s' ∈ [s] then none else p.tokenOf s') = some t then none
        else if ∃ s' ∈ [s], p.tokenOf s' = some t then none else v) =
        if ∃ s' ∈ s :: l, p.tokenOf s' = some t then none else v := by
    intro α t v
    by_cases h : ∃ s' ∈ s :: l, p.tokenOf s' = some t
    · rw [if_pos h]
      rcases (hheld t).mpr h with h' | h'
      · rw [if_pos h']
      · split
        · rfl
        · exact if_pos ⟨s, by simp, h'⟩
    · rw [if_neg h, if_neg fun h' => h ((hheld t).mp (.inl h')), if_neg]
      rintro ⟨s', hs', h'⟩
      obtain rfl := List.mem_singleton.mp hs'
      exact h ((hheld t).mp (.inr h'))
  refine Presence.ext rfl ?_ ?_ ?_ ?_ rfl rfl rfl rfl rfl
  · funext s'
    exact ite_mem_cons s' s l _
  · funext t
    exact hgone t _
  · funext s'
    exact ite_mem_cons s' s l _
  · funext t
    exact hgone t _

theorem presence_foldl_dropPlayer (l : List Player) :
    (l.foldl (fun st p => st.dropPlayer p.id) st).presence =
      (st.presence.exit (l.map Player.id)).revoke (l.map Player.id) := by
  induction l generalizing st with
  | nil =>
    refine Presence.ext rfl ?_ ?_ ?_ ?_ rfl rfl rfl rfl rfl <;> funext x <;>
      simp [Presence.exit, Presence.revoke]
  | cons p l ih =>
    rw [List.foldl_cons, ih, dropPlayer, presence_cleanupPlayerToken, presence_exitRoom,
      exit_revoke_cons]
    rfl

end Server

end ScrabbleMagyar
