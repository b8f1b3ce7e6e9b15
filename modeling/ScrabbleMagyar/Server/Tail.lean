import ScrabbleMagyar.Server.Archive

/-!
# What does not show

After a handler has changed a seat it starts timers and robots, saves games, passes turns on and
replaces owners. None of this shows in the presence of the server: it is a `Tail`. What a tail
may add to the database are results, and these credit the seats as they are
(`Tail.credited`).
-/

namespace ScrabbleMagyar

namespace Server

/-! ## The accounts of the seats -/

namespace Presence

/-- The name and the account of every seat of a room. -/
def credits (p : Presence) (roomId : RoomId) : Option (List (String × Option UserId)) :=
  (p.halls roomId).map fun h => h.seats.map fun x =>
    (x.name, ((p.account x.id).bind AuthInfo.userId).or ((h.known.lookup x.name).bind id))

/-- A result credits the seats of its room as they are. -/
def Credits (p : Presence) (f : Finish) : Prop :=
  p.credits f.roomId = some (f.players.map fun d => (d.playerName, d.userId))

end Presence

variable {st st₁ st₂ st' : Server}

theorem gamePlayerData_credits (room : Room) (auth : Table String AuthInfo) :
    (gamePlayerData room auth).map (fun d => (d.playerName, d.userId)) =
      room.hall.seats.map fun x =>
        (x.name, ((auth.lookup x.id).bind AuthInfo.userId).or
          ((room.hall.known.lookup x.name).bind id)) := by
  simp only [gamePlayerData, Room.hall, Game.seats, List.map_map]
  rfl

/-! ## Rooms that move on -/

/-- A room whose game and records are the same. -/
theorem Room.Moved.same {room room' : Room} (hgame : room'.game = room.game)
    (hasync : room'.isAsync = room.isAsync) (hid : room'.dbGameId = room.dbGameId)
    (hsaved : room'.resultSaved = room.resultSaved) (horigin : room'.origin = room.origin)
    (hrestore : room'.restoreSaveData = room.restoreSaveData) : Room.Moved room room' where
  started := fun h => hgame ▸ h
  starts := fun h => .inl (hgame ▸ h)
  puzzle := by rw [hgame]
  finished := fun _ h => hgame ▸ h
  proper := fun h => by
    change ∀ x ∈ room'.game.seats, x.Proper
    rw [hgame]
    exact h
  human := fun h => by
    change ∀ x ∈ room'.game.seats, x.isBot = false
    rw [hgame]
    exact h
  isAsync := hasync
  dbGameId := hid
  resultSaved := hsaved
  origin := horigin
  restoreSaveData := hrestore

theorem Room.Moved.refl (room : Room) : Room.Moved room room := .same rfl rfl rfl rfl rfl rfl

theorem Moved.refl_rooms (t : Table RoomId Room) (r : RoomId) :
    Option.Rel Room.Moved (t.lookup r) (t.lookup r) := by
  cases t.lookup r with
  | none => exact .none
  | some room => exact .some (.refl room)

theorem rel_insert {t : Table RoomId Room} {roomId : RoomId} {room room' : Room}
    (hroom : t.lookup roomId = some room) (h : Room.Moved room room') (r : RoomId) :
    Option.Rel Room.Moved (t.lookup r) ((t.insert roomId room').lookup r) := by
  rw [Table.lookup_insert]
  split
  · rename_i hr
    rw [hr, hroom]
    exact .some h
  · exact Moved.refl_rooms t r

theorem rel_modifyRoom {roomId : RoomId} {f : Room → Room}
    (h : ∀ room, st.rooms.lookup roomId = some room → Room.Moved room (f room)) (r : RoomId) :
    Option.Rel Room.Moved (st.rooms.lookup r) ((st.modifyRoom roomId f).rooms.lookup r) := by
  rw [lookup_modifyRoom]
  split
  · rename_i hr
    subst hr
    cases hroom : st.rooms.lookup r with
    | none => exact .none
    | some room => exact .some (h room hroom)
  · exact Moved.refl_rooms st.rooms r

/-- A room with another game, which a move has made of its own. -/
theorem Room.Moved.game {room : Room} {game : Game} (hstarted : game.started = room.game.started)
    (hpuzzle : game.puzzle.isSome = room.game.puzzle.isSome)
    (hfin : room.game.puzzle = none → room.game.finished = true → game.finished = true)
    (hseats : game.seats = room.game.seats) : Room.Moved room { room with game } where
  started := fun h => hstarted.trans h
  starts := fun h => .inl (hstarted.symm.trans h)
  puzzle := hpuzzle
  finished := hfin
  proper := fun h => by
    change ∀ x ∈ game.seats, x.Proper
    rw [hseats]
    exact h
  human := fun h => by
    change ∀ x ∈ game.seats, x.isBot = false
    rw [hseats]
    exact h
  isAsync := rfl
  dbGameId := rfl
  resultSaved := rfl
  origin := rfl
  restoreSaveData := rfl

/-- A move of the engine moves a room on. -/
theorem Room.Moved.step (room : Room) {i : Input} (hop : i.2.isPlay = true) :
    Room.Moved room { room with game := room.game.step i } :=
  have hrest := (Game.step_effect i.1 room.game i.2).rest hop
  .game (Game.started_step hop) hrest.1 (fun _ => hrest.2) (Game.seats_step hop)

/-! ## Tails -/

/-- Nothing shows but results that credit the seats as they are. -/
structure Tail (st st' : Server) : Prop where
  course : ∀ K, Course K st st'
  presence : st.Archive → st'.presence = st.presence
  credited : st.Archive → ∀ f ∈ st'.db.finishes, f ∈ st.db.finishes ∨ st.presence.Credits f

namespace Tail

theorem refl (st : Server) : Tail st st :=
  ⟨fun _ => .refl, fun _ => rfl, fun _ _ hf => .inl hf⟩

theorem trans (h₁ : Tail st st₁) (h₂ : Tail st₁ st₂) : Tail st st₂ where
  course := fun K => (h₁.course K).trans (h₂.course K)
  presence := fun ha =>
    (h₂.presence ((h₁.course fun _ _ _ => True).archive ha)).trans (h₁.presence ha)
  credited := by
    intro ha f hf
    have ha₁ := (h₁.course fun _ _ _ => True).archive ha
    rcases h₂.credited ha₁ f hf with hf | hf
    · exact h₁.credited ha f hf
    · exact .inr (h₁.presence ha ▸ hf)

theorem archive (h : Tail st st') (ha : st.Archive) : st'.Archive :=
  (h.course fun _ _ _ => True).archive ha

theorem moved (hm : Moved st st') (hp : st'.presence = st.presence) : Tail st st' :=
  ⟨fun _ => .single (.moved hm), fun _ => hp, fun _ _ hf => .inl (hm.db ▸ hf)⟩

theorem saved (st : Server) (roomId : RoomId) : Tail st (st.saveGameToDb roomId).1 where
  course := fun _ => .single (.saved st roomId)
  presence := by
    intro ha
    obtain heq | ⟨room, db, row, hroom, -, -, heq⟩ := st.saveGameToDb_cases ha.numbered roomId <;>
      rw [heq]
    exact presence_savedIn db hroom
  credited := by
    intro ha f hf
    obtain heq | ⟨room, db, row, hroom, -, hrec, heq⟩ :=
      st.saveGameToDb_cases ha.numbered roomId <;> rw [heq] at hf
    · exact .inl hf
    · rw [show ({ st with db, rooms := _ } : Server).db.finishes = db.finishes from rfl,
        hrec.finishes] at hf
      split at hf
      · rcases List.mem_append.mp hf with hf | hf
        · exact .inl hf
        · obtain rfl := List.mem_singleton.mp hf
          refine .inr ?_
          simp only [Presence.Credits, Presence.credits, Server.presence, hroom, Option.map_some,
            gamePlayerData_credits]
      · exact .inl hf

/-- A room is changed where that does not show. -/
theorem modifyRoom {roomId : RoomId} {f : Room → Room}
    (hf : ∀ room, st.rooms.lookup roomId = some room →
      Room.Moved room (f room) ∧ (f room).hall = room.hall) :
    Tail st (st.modifyRoom roomId f) := by
  have hpresence : (st.modifyRoom roomId f).presence = st.presence :=
    (st.presence_modifyRoom (F := id) fun room hroom => (hf room hroom).2).trans
      (modifyHall_self fun _ _ => rfl)
  refine moved ⟨rel_modifyRoom fun room hroom => (hf room hroom).1, ?_, ?_, ?_⟩ hpresence
  · rw [modifyRoom_rest]
  · rw [modifyRoom_rest]
  · rw [hpresence]
    exact id

/-- Tasks are started, and a room is changed where that does not show. -/
theorem insertRoom {roomId : RoomId} {room : Room} (room' : Room)
    (hroom : st.rooms.lookup roomId = some room) (hm : Room.Moved room room')
    (hhall : room'.hall = room.hall) (turnTimers : List TurnTimer)
    (challengeTimers : List ChallengeTimer) (botTurns : List BotTurn) :
    Tail st { st with
      rooms := st.rooms.insert roomId room', turnTimers, challengeTimers, botTurns } := by
  have hpresence : ({ st with
      rooms := st.rooms.insert roomId room', turnTimers, challengeTimers,
      botTurns } : Server).presence = st.presence := by
    refine Presence.ext ?_ rfl rfl rfl rfl rfl rfl rfl rfl rfl
    funext r
    by_cases hr : r = roomId
    · subst hr
      simp [Server.presence, hroom, hhall]
    · simp [Server.presence, Table.lookup_insert, hr]
  refine moved ⟨rel_insert hroom hm, rfl, rfl, ?_⟩ hpresence
  rw [hpresence]
  exact id

end Tail

/-! ## The operations that do not show -/

variable (st)

theorem tail_invalidateTurnTimer (roomId : RoomId) :
    Tail st (st.modifyRoom roomId Room.invalidateTurnTimer) :=
  .modifyRoom fun _ _ => ⟨.same rfl rfl rfl rfl rfl rfl, rfl⟩

theorem tail_invalidateChallengeTimer (roomId : RoomId) :
    Tail st (st.modifyRoom roomId Room.invalidateChallengeTimer) :=
  .modifyRoom fun _ _ => ⟨.same rfl rfl rfl rfl rfl rfl, rfl⟩

theorem tail_saveManually (roomId : RoomId) : Tail st (st.saveManually roomId) := by
  have hsaved := Tail.saved st roomId
  unfold saveManually
  rcases h : st.saveGameToDb roomId with ⟨st₁, saved⟩
  rw [h] at hsaved
  cases saved
  · exact hsaved
  · exact hsaved.trans (.modifyRoom fun _ _ => ⟨.same rfl rfl rfl rfl rfl rfl, rfl⟩)

theorem tail_emitAllStates (roomId : RoomId) : Tail st (st.emitAllStates roomId) := by
  unfold emitAllStates persistAsync
  split
  · exact .refl st
  · split
    · exact .refl st
    · dsimp only
      split
      · exact .refl st
      · refine Tail.trans (show Tail st (st.modifyRoom roomId _) from ?_) (.saved _ roomId)
        exact .modifyRoom fun _ _ => ⟨.same rfl rfl rfl rfl rfl rfl, rfl⟩

theorem tail_startChallengeTimer (roomId : RoomId) : Tail st (st.startChallengeTimer roomId) := by
  unfold startChallengeTimer
  split
  · exact .refl st
  · rename_i room hroom
    exact .insertRoom room.invalidateChallengeTimer hroom (.same rfl rfl rfl rfl rfl rfl) rfl _ _ _

theorem tail_startTurnTimer (roomId : RoomId) : Tail st (st.startTurnTimer roomId) := by
  unfold startTurnTimer
  split
  · exact .refl st
  · rename_i room hroom
    split
    · exact .refl st
    · exact .insertRoom room.invalidateTurnTimer hroom (.same rfl rfl rfl rfl rfl rfl) rfl _ _ _

theorem tail_scheduleBotTurn (roomId : RoomId) : Tail st (st.scheduleBotTurn roomId) := by
  unfold scheduleBotTurn
  split
  · exact .refl st
  · rename_i room hroom
    split
    · exact .refl st
    · exact .insertRoom room.invalidateBotTurn hroom (.same rfl rfl rfl rfl rfl rfl) rfl _ _ _

theorem tail_beginTurn (roomId : RoomId) (finished : Bool) :
    Tail st (st.beginTurn roomId finished) := by
  unfold beginTurn
  split
  · exact (tail_emitAllStates st roomId).trans (.saved _ roomId)
  · exact ((tail_startTurnTimer st roomId).trans (tail_emitAllStates _ roomId)).trans
      (tail_scheduleBotTurn _ roomId)

theorem tail_handleChallengeResult (roomId : RoomId) (result : VoteResult) :
    Tail st (st.handleChallengeResult roomId result) := by
  have hend : ∀ st₁ : Server, Tail st st₁ →
      Tail st ((st₁.emitAllStates roomId).scheduleBotTurn roomId) := fun st₁ h =>
    (h.trans (tail_emitAllStates _ roomId)).trans (tail_scheduleBotTurn _ roomId)
  unfold handleChallengeResult
  refine hend _ ?_
  split_ifs
  · exact (tail_invalidateChallengeTimer st roomId).trans (.saved _ roomId)
  · exact (tail_invalidateChallengeTimer st roomId).trans (tail_startTurnTimer _ roomId)
  · exact .saved st roomId
  · exact tail_startTurnTimer st roomId

theorem tail_afterMove (roomId : RoomId) : Tail st (st.afterMove roomId) := by
  unfold afterMove
  split
  · exact .refl st
  · have hend : ∀ st₁ : Server, Tail st st₁ →
        Tail st ((st₁.emitAllStates roomId).scheduleBotTurn roomId) := fun st₁ h =>
      (h.trans (tail_emitAllStates _ roomId)).trans (tail_scheduleBotTurn _ roomId)
    have hvoid := tail_invalidateTurnTimer st roomId
    refine hend _ ?_
    split_ifs
    · exact hvoid.trans (tail_startChallengeTimer _ roomId)
    · exact hvoid.trans (.saved _ roomId)
    · exact hvoid.trans (tail_startTurnTimer _ roomId)

theorem tail_transferOwnership (roomId : RoomId) : Tail st (st.transferOwnership roomId) := by
  unfold transferOwnership
  split
  · exact .refl st
  · split
    · exact .refl st
    · exact .modifyRoom fun _ _ => ⟨.same rfl rfl rfl rfl rfl rfl, rfl⟩

theorem tail_removeSpectator (sid : String) : Tail st (st.removeSpectator sid) := by
  unfold removeSpectator
  split
  · exact .refl st
  · have hwatch : ∀ t : Table String RoomId, Tail st { st with spectatorRooms := t } := fun t =>
      .moved ⟨Moved.refl_rooms st.rooms, rfl, rfl, id⟩ rfl
    exact (hwatch _).trans (.modifyRoom fun _ _ => ⟨.same rfl rfl rfl rfl rfl rfl, rfl⟩)

theorem skipDisconnectedCurrent_rest (env : Env) (g : Game) :
    (g.skipDisconnectedCurrent env).1.started = g.started ∧
      (g.skipDisconnectedCurrent env).1.puzzle = g.puzzle ∧
      (g.skipDisconnectedCurrent env).1.finished = g.finished := by
  unfold Game.skipDisconnectedCurrent
  split
  · exact ⟨rfl, rfl, rfl⟩
  · split
    · exact ⟨rfl, rfl, rfl⟩
    · split_ifs
      · exact ⟨rfl, rfl, rfl⟩
      · exact ⟨rfl, rfl, rfl⟩
      · rw [Game.nextTurn_rest]
        exact ⟨rfl, rfl, rfl⟩

theorem Room.Moved.skip (env : Env) (room : Room) :
    Room.Moved room { room with game := (room.game.skipDisconnectedCurrent env).1 } := by
  obtain ⟨hstarted, hpuzzle, hfin⟩ := skipDisconnectedCurrent_rest env room.game
  exact .game hstarted (congrArg _ hpuzzle) (fun _ h => hfin.trans h)
    (Game.seats_skipDisconnectedCurrent env room.game)

theorem tail_advanceTurnIfNeeded (env : Env) (roomId : RoomId) :
    Tail st (st.advanceTurnIfNeeded env roomId) := by
  unfold advanceTurnIfNeeded
  split
  · exact .refl st
  · rename_i room hroom
    split
    · exact .refl st
    · rename_i game hskip
      have hgame : game = (room.game.skipDisconnectedCurrent env).1 := by rw [hskip]
      have hmoved : Tail st (st.modifyRoom roomId fun room =>
          { room with game }.invalidateTurnTimer) := by
        refine .modifyRoom fun room' hroom' => ?_
        obtain rfl := Option.some.inj (hroom.symm.trans hroom')
        have hm := Room.Moved.skip env room
        rw [← hgame] at hm
        have hseats := Game.seats_skipDisconnectedCurrent env room.game
        rw [← hgame] at hseats
        exact ⟨⟨hm.1, hm.2, hm.3, hm.4, hm.5, hm.6, rfl, rfl, rfl, rfl, rfl⟩,
          congrArg (fun seats => (⟨seats, room.isAsync, room.knownUserIds⟩ : Hall)) hseats⟩
      exact (hmoved.trans (tail_startTurnTimer _ roomId)).trans (tail_scheduleBotTurn _ roomId)

end Server

end ScrabbleMagyar
