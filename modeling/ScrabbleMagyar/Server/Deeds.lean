import ScrabbleMagyar.Server.Step
import ScrabbleMagyar.Server.Tail

/-!
# Events as deeds

The `Deed` of every event of the server, and what it means that a handler carries it out: the
presence of the server after it is the effect of the deed on the presence before, what the event
does to the archive is a `Course`, the results that it records credit the seats as they are, and
the deed may be done (`Acts`).
-/

namespace ScrabbleMagyar

open Function (update)

namespace Server

/-! ## The deed of an event -/

/-- The token that a connection gets. -/
def tokenFor (st : Server) (auth : Option AuthInfo) : Token :=
  match auth.bind AuthInfo.registeredId with
  | some uid => .user uid
  | none => .guest st.tokenSeq

def Leave.departure : Leave → Departure
  | .unseated => .stays
  | .kept roomId token => .kept roomId token
  | .disbanded roomId => .disbanded roomId
  | .paused roomId token => .kept roomId (some token)
  | .removed roomId => .removed roomId

def Break.departure : Break → Departure
  | .unseated => .clears
  | .kept roomId token => .kept roomId token
  | .grace roomId token => .grace roomId token
  | .removed roomId => .lost roomId

/-- The account of the connection is forgotten with it. -/
def Break.forgets : Break → Bool
  | .grace _ _ => false
  | _ => true

variable (st : Server)

def expiryOf (token : Token) (seq : ℕ) : Expiry :=
  match st.disconnectedPlayers.lookup token with
  | none => .stale
  | some info =>
    if info.seq ≠ seq then .stale
    else match st.rooms.lookup info.roomId with
      | none => .gone
      | some room =>
        if room.owner = some info.sid ∧ room.isRunning = true ∧ room.game.players ≠ [] then
          .disbanded
        else .settled (!room.isRunning)

/-- Whether coming back with a token releases the connection that holds it. -/
def releases (token : Token) : Bool :=
  (st.disconnectedPlayers.lookup token).isNone &&
    match st.reconnectTokens.lookup token with
    | none => false
    | some info => match st.rooms.lookup info.roomId with
      | none => false
      | some room =>
        !room.game.finished && decide (st.playerRooms.lookup info.sid = some info.roomId)

def rejoinDeed (sid : String) (token : Token) (banned : Bool) : Deed :=
  let idle : Deed := if st.releases token then .released token else .nothing
  let st' := st.rejoinRelease token
  match st'.disconnectedPlayers.lookup token, st'.reconnectTokens.lookup token with
  | some info, some entry =>
    if banned ∧ (entry.authInfo.bind AuthInfo.registeredId).isSome then idle
    else match st'.rooms.lookup info.roomId with
      | none => .voided token
      | some room =>
        if (room.game.replacePlayerSid info.sid sid).2 then
          .cameBack sid token (entry.authInfo.getD AuthInfo.guest) (st.releases token)
        else idle
  | _, _ => idle

/-- A connection has opened a room, if there is one under the next identifier. -/
def openedDeed (st' : Server) (sid : String) : Deed :=
  match st'.rooms.lookup st.roomSeq with
  | some room => .opened sid (st.tokenFor (st.playerAuth.lookup sid)) room.hall
  | none => .nothing

def joinDeed (sid : String) (roomId : RoomId) (byCode : Bool) : Deed :=
  let token := st.tokenFor (st.playerAuth.lookup sid)
  match st.joinOf sid roomId byCode with
  | .refused => .nothing
  | .late oldId => .took sid roomId oldId token none false
  | .seat => .joined sid ((st.playerNames.lookup sid).getD anonymous) roomId token

def startDeed (env : Env) (sid : String) : Deed :=
  match st.roomForPlayer sid with
  | none => .nothing
  | some (roomId, room) =>
    if !st.isOwner room sid then .nothing
    else match room.restoreSaveData with
      | none => .nothing
      | some save => match restoredGame env save room.game.players with
        | none => .nothing
        | some game => .restored roomId game.seats

/-- Whether the player plays the game somewhere else already. -/
def ousts (roomId : RoomId) (player : Player) : Bool :=
  !player.disconnected && decide (st.playerRooms.lookup player.id = some roomId)

def openAsyncDeed (env : Env) (sid : String) (gameId : ℕ) : Deed :=
  match st.openable sid gameId with
  | none => .nothing
  | some (userId, row) =>
    match st.asyncRoomForDbGame env row with
    | (_, none) => .nothing
    | (st', some roomId) =>
      match st'.rooms.lookup roomId with
      | none => .nothing
      | some room =>
        let loads := if (st.rooms.lookup roomId).isSome then none else some room.hall
        match asyncSeat room userId with
        | none => match loads with
          | none => .nothing
          | some hall => .loaded roomId hall
        | some player =>
          .took sid roomId player.id (.user userId) loads (st.ousts roomId player)

/-- A room has been released, if it is there no more. -/
def closedDeed (st' : Server) (roomId : RoomId) : Deed :=
  if (st.rooms.lookup roomId).isSome && (st'.rooms.lookup roomId).isNone then .closed roomId
  else .nothing

def removeDeed (roomId : RoomId) (playerName : String) : Deed :=
  match st.rooms.lookup roomId with
  | none => .nothing
  | some room => match room.game.players.find? fun p => p.name = playerName ∧ p.isBot = false with
    | none => .nothing
    | some player => .expelled roomId player.id room.isRunning

def messageDeed (env : Env) (sid : String) : Message → Deed
  | .setName _ auth => .named sid (some auth)
  | .logout => .departed sid (st.leaveOf sid).departure true false
  | .rejoinRoom token banned => st.rejoinDeed sid token banned
  | .createRoom options => st.openedDeed (st.createRoom env sid options) sid
  | .joinRoom roomId byCode => st.joinDeed sid roomId byCode
  | .leaveRoom => .departed sid (st.leaveOf sid).departure false false
  | .startGame => st.startDeed env sid
  | .restoreGame gameId => st.openedDeed (st.restoreGame env sid gameId) sid
  | .createAsyncGame friends turnHours starter =>
    st.openedDeed (st.createAsyncGame env sid friends turnHours starter) sid
  | .openAsyncGame gameId => st.openAsyncDeed env sid gameId
  | _ => .nothing

/-- What an event does to the seats and the connections. -/
def deed (i : Env × Event) : Deed :=
  let env := i.1
  match i.2 with
  | .message sid message => if sid.1 ∈ st.closed then .nothing else st.messageDeed env sid message
  | .startDaily sid puzzle => st.openedDeed (st.startDaily env sid puzzle) sid
  | .disconnect sid =>
    if sid.1 ∈ st.closed then .nothing
    else
      let broken := (st.leaveSpectate sid).breakOf sid
      .departed sid broken.departure broken.forgets true
  | .graceTimeout token seq =>
    if (token, seq) ∈ st.graceTimers then .expired token seq (st.expiryOf token seq) else .nothing
  | .expireAsyncTurn roomId => st.closedDeed (st.expireAsyncTurn env roomId) roomId
  | .kickUser userId => .kicked (st.staleTokens userId)
  | .removePlayer roomId playerName => st.removeDeed roomId playerName
  | .skipTurn roomId => st.closedDeed (st.skipTurn env roomId) roomId
  | .endGame roomId => st.closedDeed (st.endGame roomId) roomId
  | .disbandRoom roomId _ => if (st.rooms.lookup roomId).isSome then .disbanded roomId else .nothing
  | _ => .nothing

/-! ## Handlers -/

/-- What a part of a handler does: it is a course, it leaves the presence `p` behind, and the
results that it records meet `C`. -/
structure Does (K : Server → RoomId → SavedGame → Prop) (C : Finish → Prop) (st st' : Server)
    (p : Presence) : Prop where
  course : Course K st st'
  presence : st'.presence = p
  credited : ∀ f ∈ st'.db.finishes, f ∈ st.db.finishes ∨ C f

variable {K : Server → RoomId → SavedGame → Prop} {C : Finish → Prop} {st} {st₁ st' : Server}
  {p p₁ : Presence}

theorem Presence.Credits.congr {p q : Presence} {f : Finish} (h : p.Credits f)
    (hhalls : q.halls = p.halls) (haccount : q.account = p.account) : q.Credits f := by
  rw [Presence.Credits, Presence.credits, hhalls, haccount]
  exact h

namespace Does

theorem refl (st : Server) : Does K C st st st.presence := ⟨.refl, rfl, fun _ hf => .inl hf⟩

theorem trans (h₁ : Does K C st st₁ p₁) (h₂ : Does K C st₁ st' p) : Does K C st st' p where
  course := h₁.course.trans h₂.course
  presence := h₂.presence
  credited := fun f hf => (h₂.credited f hf).elim (h₁.credited f) .inr

theorem archive (h : Does K C st st' p) (ha : st.Archive) : st'.Archive := h.course.archive ha

theorem of_tail (h : Tail st st') (ha : st.Archive) (hC : ∀ f, st.presence.Credits f → C f) :
    Does K C st st' st.presence :=
  ⟨h.course K, h.presence ha, fun f hf => (h.credited ha f hf).imp_right (hC f)⟩

/-- What does not show follows what does. -/
theorem tail (h : Does K C st st₁ p) (ha : st.Archive) (ht : Tail st₁ st')
    (hC : ∀ f, p.Credits f → C f) : Does K C st st' p := by
  have hp := h.presence
  subst hp
  exact h.trans (.of_tail ht (h.archive ha) hC)

theorem of_course (hc : Course K st st') (hdb : st'.db.finishes = st.db.finishes)
    (hp : st'.presence = p) : Does K C st st' p :=
  ⟨hc, hp, fun _ hf => .inl (hdb ▸ hf)⟩

theorem of_moved (hm : Moved st st') (hp : st'.presence = p) : Does K C st st' p :=
  .of_course (.single (.moved hm)) (by rw [hm.db]) hp

/-- Rooms, connections or tokens move on. -/
theorem moved (h : Does K C st st₁ p₁) (hm : Moved st₁ st') (hp : st'.presence = p) :
    Does K C st st' p := h.trans (.of_moved hm hp)

end Does

/-- Connections, tokens and waiting tasks change, the rooms and the database do not. -/
theorem Moved.tables (hrooms : st'.rooms = st.rooms) (hdb : st'.db = st.db)
    (hseq : st'.roomSeq = st.roomSeq) (hnamed : st.presence.Named → st'.presence.Named) :
    Moved st st' :=
  ⟨fun r => hrooms ▸ Moved.refl_rooms st.rooms r, hdb, hseq, hnamed⟩

theorem named_modifyRoom {roomId : RoomId} {f : Room → Room} (h : st.presence.Named) :
    (st.modifyRoom roomId f).presence.Named := by
  rw [modifyRoom_rest]
  exact ⟨h.holder, h.away⟩

theorem Moved.modifyGame {roomId : RoomId} {f : Game → Game}
    (hf : ∀ room, st.rooms.lookup roomId = some room →
      Room.Moved room { room with game := f room.game }) : Moved st (st.modifyGame roomId f) :=
  ⟨rel_modifyRoom hf, by rw [Server.modifyGame, modifyRoom_rest],
    by rw [Server.modifyGame, modifyRoom_rest], named_modifyRoom⟩

/-- A change of the seats that keeps them proper. -/
theorem Room.Moved.seats {room : Room} {game : Game} (hstarted : game.started = room.game.started)
    (hpuzzle : game.puzzle = room.game.puzzle) (hfin : game.finished = room.game.finished)
    (hproper : room.hall.Proper → ∀ x ∈ game.seats, x.Proper)
    (hhuman : room.hall.Human → ∀ x ∈ game.seats, x.isBot = false) :
    Room.Moved room { room with game } where
  started := fun h => hstarted.trans h
  starts := fun h => .inl (hstarted.symm.trans h)
  puzzle := congrArg _ hpuzzle
  finished := fun _ h => hfin.trans h
  proper := hproper
  human := hhuman
  isAsync := rfl
  dbGameId := rfl
  resultSaved := rfl
  origin := rfl
  restoreSaveData := rfl

theorem Room.Moved.flag (room : Room) {id : String} (hid : isBotId id = false) :
    Room.Moved room { room with game := (room.game.markDisconnected id).1 } := by
  have hseats := Game.seats_markDisconnected room.game id
  refine .seats ?_ ?_ ?_ (fun h => hseats ▸ h.flag hid) (fun h => hseats ▸ h.flag id) <;>
    · unfold Game.markDisconnected
      split <;> rfl

theorem Room.Moved.reseat (room : Room) {old new : String} (hold : isBotId old = false)
    (hnew : isBotId new = false) :
    Room.Moved room { room with game := (room.game.replacePlayerSid old new).1 } := by
  have hseats := Game.seats_replacePlayerSid room.game old new
  refine .seats ?_ ?_ ?_ (fun h => hseats ▸ h.reseat hold hnew)
      (fun h => hseats ▸ h.reseat old new) <;>
    · unfold Game.replacePlayerSid
      split <;> rfl

theorem removeSeat_rest (g : Game) (idx : ℕ) :
    (g.removeSeat idx).started = g.started ∧ (g.removeSeat idx).puzzle = g.puzzle ∧
      (g.removeSeat idx).finished = g.finished := by
  simp only [Game.removeSeat]
  split <;> exact ⟨rfl, rfl, rfl⟩

theorem removePlayer_rest (g : Game) (id : String) :
    (g.removePlayer id).1.started = g.started ∧ (g.removePlayer id).1.puzzle = g.puzzle ∧
      (g.removePlayer id).1.finished = g.finished := by
  unfold Game.removePlayer
  split
  · exact ⟨rfl, rfl, rfl⟩
  · exact removeSeat_rest g _

theorem Room.Moved.unseat (room : Room) (id : String) :
    Room.Moved room { room with game := (room.game.removePlayer id).1 } := by
  have hseats := Game.seats_removePlayer room.game id
  obtain ⟨hstarted, hpuzzle, hfin⟩ := removePlayer_rest room.game id
  exact .seats hstarted hpuzzle hfin (fun h => hseats ▸ h.unseat id) (fun h => hseats ▸ h.unseat id)

/-- An event is a deed that may be done; the results that it records credit the seats as they
are at one of its stages. -/
structure Acts (K : Server → RoomId → SavedGame → Prop) (st st' : Server) (d : Deed) : Prop where
  does : Does K (fun f => ∃ p ∈ st.presence.stages d, p.Credits f) st st' (st.presence.act d)
  can : st.presence.Can d

theorem acts_nothing (ha : st.Archive) (h : Tail st st') : Acts K st st' .nothing :=
  ⟨.of_tail h ha fun _ hf => ⟨st.presence, by simp [Presence.stages], hf⟩, trivial⟩

theorem acts_refl (st : Server) : Acts K st st .nothing := ⟨.refl st, trivial⟩

end Server

end ScrabbleMagyar
