import ScrabbleMagyar.Admin.Common
import ScrabbleMagyar.Engine.Shape
import ScrabbleMagyar.Server.Play
import Mathlib.Data.Rat.Lemmas

/-!
# The clock of a turn

The time that is left for a turn and what becomes of it: the clock runs to an expiry, stands still
while an administrator has paused it, and goes on where a placement is withdrawn
(`server/core.rs`, `server/play.rs`, `admin/live.rs`). Times are in seconds; the source keeps them
as `f64`, and they are taken as exact here. A handler takes no time.
What becomes of a clock that runs out is a pass like any other and is not told apart from the rest
of the game; the entry in the log of the administrators shows only in whether it succeeds.

* `withdrawal_wins_nothing`: while no placement is put to the vote on a paused clock with less than
  a full turn on it, a withdrawal never gives more time than was left at the placement.
-/

namespace ScrabbleMagyar.Clock

open Admin

/-- The least time that a player has after a withdrawal. -/
def minTimeAfterWithdraw : ℚ := 10

/-- The seconds by which an administrator may extend a turn. -/
def extendChoices : List ℤ := [30, 60, 120, 300]

/-- A room, as far as its clock goes. -/
structure Room where
  game : Game
  isAsync : Bool
  turnTimerExpiresAt : Option ℚ
  /-- What was left when the placement that waits for votes was made. -/
  withdrawTimeLeft : Option ℚ
  /-- What is left on a paused clock. -/
  timerPausedLeft : Option ℚ

namespace Room

def new (game : Game) (isAsync : Bool) : Room := ⟨game, isAsync, none, none, none⟩

variable (room : Room)

def invalidateTurnTimer : Room := { room with turnTimerExpiresAt := none }

/-- Start the clock of a turn, unless turns are not limited or a vote is running: with the seconds
given, or with a full turn. -/
def startTurnTimer (now : ℚ) (seconds : Option ℚ) : Room :=
  if room.game.turnTimeLimit = 0 || room.game.pendingChallenge.isSome then room
  else
    { room with
      timerPausedLeft := none
      turnTimerExpiresAt := some (now + seconds.getD room.game.turnTimeLimit) }

/-- What the clock shows, if there is one. -/
def timerRemaining (now : ℚ) : Option ℚ :=
  match room.timerPausedLeft with
  | some left => some left
  | none => room.turnTimerExpiresAt.map fun expires => max (expires - now) 0

/-! ## The moves of the player -/

def placeTiles (env : Env) (now : ℚ) (sid : String) (tiles : List Placed) : Room :=
  if !Server.validTilesInput tiles then room
  else
    let timerExpiresAt := room.turnTimerExpiresAt
    match room.game.placeTiles env sid tiles with
    | (_, .error _) => room
    | (game, .ok _) =>
      let room := { room with game }.invalidateTurnTimer
      if game.pendingChallenge.isSome then
        { room with withdrawTimeLeft := timerExpiresAt.map fun t => max (t - now) 0 }
      else if game.finished then room
      else room.startTurnTimer now none

def withdrawWords (now : ℚ) (sid : String) : Room :=
  match room.game.withdrawPending sid with
  | (_, .error _) => room
  | (game, .ok _) =>
    let left := room.withdrawTimeLeft
    { room with game }.startTurnTimer now (left.map fun l => max l minTimeAfterWithdraw)

end Room

/-! ## The interventions of an administrator -/

inductive Act
  | extend (seconds : Option ℤ)
  | pause
  | resume

/-- What comes before a dot in decimal notation. -/
def truncate (x : ℚ) : ℤ := x.num.tdiv x.den

/-- An intervention: the answer is the number of seconds shown, if any. -/
def roomAction (room : Room) (now : ℚ) (reason : Option Word) (log : Except AdminError Unit)
    (act : Act) : Room × Except AdminError (Option ℤ) :=
  match normalizeReason reason with
  | .error e => (room, .error e)
  | .ok _ =>
    let started := room.game.started && !room.game.finished
    if !started || room.game.turnTimeLimit = 0 || room.isAsync then
      (room, .error ⟨"Ebben a játékban nincs körönkénti időzítő.", 409, none⟩)
    else if room.game.pendingChallenge.isSome then
      (room, .error ⟨"Szavazás közben nem módosítható az időzítő.", 409, none⟩)
    else
      let remaining := room.timerRemaining now
      match act with
      | .extend seconds =>
        match seconds.filter fun s => s ∈ extendChoices with
        | none => (room, .error ⟨"Érvénytelen időtartam.", 400, some "seconds"⟩)
        | some seconds =>
          match log with
          | .error e => (room, .error e)
          | .ok () =>
            let total := remaining.getD 0 + seconds
            (if room.timerPausedLeft.isSome then { room with timerPausedLeft := some total }
              else room.startTurnTimer now (some total), .ok (some (truncate total)))
      | .pause =>
        if room.timerPausedLeft.isSome then
          (room, .error ⟨"Az időzítő már szünetel.", 409, none⟩)
        else
          match remaining with
          | none => (room, .error ⟨"Nincs futó időzítő.", 409, none⟩)
          | some remaining =>
            match log with
            | .error e => (room, .error e)
            | .ok () =>
              ({ room.invalidateTurnTimer with timerPausedLeft := some remaining },
                .ok (some (truncate remaining)))
      | .resume =>
        match room.timerPausedLeft with
        | none => (room, .error ⟨"Az időzítő nem szünetel.", 409, none⟩)
        | some left =>
          match log with
          | .error e => (room, .error e)
          | .ok () => (room.startTurnTimer now (some (max left 1)), .ok none)

/-! ## Runs -/

inductive Event
  | place (env : Env) (now : ℚ) (sid : String) (tiles : List Placed)
  | withdraw (now : ℚ) (sid : String)
  | act (now : ℚ) (reason : Option Word) (log : Except AdminError Unit) (act : Act)
  /-- Anything else that happens to the game: the clock may be stopped, and that of a new turn
  started. -/
  | elsewhere (input : Input) (now : ℚ) (stops starts : Bool)

namespace Event

def now : Event → ℚ
  | place _ now _ _ => now
  | withdraw now _ => now
  | act now _ _ _ => now
  | elsewhere _ now _ _ => now

/-- A placement is put to the vote. -/
def PutsToVote (room : Room) : Event → Prop
  | place env now sid tiles => Server.validTilesInput tiles = true ∧
      (room.game.placeTiles env sid tiles).2.isOk = true ∧
      (room.placeTiles env now sid tiles).game.pendingChallenge.isSome = true
  | _ => False

/-- A placement is taken back. -/
def TakesBack (room : Room) : Event → Prop
  | withdraw _ sid => (room.game.withdrawPending sid).2.isOk = true
  | _ => False

end Event

def step (room : Room) : Event → Room
  | .place env now sid tiles => room.placeTiles env now sid tiles
  | .withdraw now sid => room.withdrawWords now sid
  | .act now reason log act => (roomAction room now reason log act).1
  | .elsewhere input now stops starts =>
    let room := { room with game := room.game.step input }
    let room := if stops then room.invalidateTurnTimer else room
    if starts then room.startTurnTimer now none else room

/-- No placement is put to the vote on a paused clock with less than a full turn on it. -/
def KeepsRemainder (room : Room) (e : Event) : Prop :=
  e.PutsToVote room → ∀ left, room.timerPausedLeft = some left →
    (room.game.turnTimeLimit : ℚ) ≤ max left minTimeAfterWithdraw

/-! ## What a step leaves alone -/

/-- A clock that is paused does not run. -/
def Stopped (room : Room) : Prop :=
  room.timerPausedLeft.isSome = true → room.turnTimerExpiresAt = none

/-- A change of a room that puts nothing to the vote. -/
structure Frame (room room' : Room) : Prop where
  limit : room'.game.turnTimeLimit = room.game.turnTimeLimit
  withdrawTimeLeft : room'.withdrawTimeLeft = room.withdrawTimeLeft
  stopped : Stopped room → Stopped room'

section Steps

variable {room room' room'' : Room}

namespace Frame

theorem refl (room : Room) : Frame room room := ⟨rfl, rfl, id⟩

theorem trans (h : Frame room room') (h' : Frame room' room'') : Frame room room'' :=
  ⟨h'.limit.trans h.limit, h'.withdrawTimeLeft.trans h.withdrawTimeLeft, h'.stopped ∘ h.stopped⟩

theorem game {game : Game} (h : game.turnTimeLimit = room.game.turnTimeLimit) :
    Frame room { room with game } := ⟨h, rfl, id⟩

theorem invalidateTurnTimer (room : Room) : Frame room room.invalidateTurnTimer :=
  ⟨rfl, rfl, fun _ _ => rfl⟩

theorem startTurnTimer (room : Room) (now : ℚ) (seconds : Option ℚ) :
    Frame room (room.startTurnTimer now seconds) := by
  unfold Room.startTurnTimer
  split
  · exact refl room
  · exact ⟨rfl, rfl, fun _ h => absurd h Bool.false_ne_true⟩

end Frame

theorem turnTimeLimit_step (g : Game) (i : Input) :
    (g.step i).turnTimeLimit = g.turnTimeLimit :=
  congrArg Prod.snd (Game.step_effect i.1 g i.2).settings

theorem turnTimeLimit_placeTiles (env : Env) (g : Game) (sid : String) (tiles : List Placed) :
    (g.placeTiles env sid tiles).1.turnTimeLimit = g.turnTimeLimit :=
  turnTimeLimit_step g (env, .placeTiles sid tiles)

theorem turnTimeLimit_withdrawPending (g : Game) (sid : String) :
    (g.withdrawPending sid).1.turnTimeLimit = g.turnTimeLimit :=
  turnTimeLimit_step g (Game.stillEnv, .withdrawPending sid)

theorem placeTiles_eq {env : Env} {now : ℚ} {sid : String} {tiles : List Placed} {game : Game}
    {answer : String × ℤ} (hvalid : Server.validTilesInput tiles = true)
    (hplace : room.game.placeTiles env sid tiles = (game, .ok answer)) :
    room.placeTiles env now sid tiles =
      if game.pendingChallenge.isSome then
        { { room with game }.invalidateTurnTimer with
          withdrawTimeLeft := room.turnTimerExpiresAt.map fun t => max (t - now) 0 }
      else if game.finished then { room with game }.invalidateTurnTimer
      else { room with game }.invalidateTurnTimer.startTurnTimer now none := by
  unfold Room.placeTiles
  rw [hvalid, Bool.not_true, if_neg Bool.false_ne_true, hplace]

theorem game_placeTiles {env : Env} {now : ℚ} {sid : String} {tiles : List Placed}
    {game : Game} {answer : String × ℤ} (hvalid : Server.validTilesInput tiles = true)
    (hplace : room.game.placeTiles env sid tiles = (game, .ok answer)) :
    (room.placeTiles env now sid tiles).game = game := by
  rw [placeTiles_eq hvalid hplace]
  split
  · rfl
  split
  · rfl
  · unfold Room.startTurnTimer
    split <;> rfl

/-- A placement that is put to the vote keeps what is left of a running clock. -/
theorem placeTiles_putsToVote {env : Env} {now : ℚ} {sid : String} {tiles : List Placed}
    (h : (Event.place env now sid tiles).PutsToVote room) :
    (room.placeTiles env now sid tiles).game.turnTimeLimit = room.game.turnTimeLimit ∧
      (room.placeTiles env now sid tiles).withdrawTimeLeft =
        room.turnTimerExpiresAt.map (fun t => max (t - now) 0) ∧
      Stopped (room.placeTiles env now sid tiles) := by
  obtain ⟨hvalid, hok, hpending⟩ := h
  have hlimit := turnTimeLimit_placeTiles env room.game sid tiles
  cases hplace : room.game.placeTiles env sid tiles with
  | mk game outcome =>
    rw [hplace] at hok hlimit
    cases outcome with
    | error e => cases hok
    | ok answer =>
      rw [game_placeTiles hvalid hplace] at hpending
      rw [placeTiles_eq hvalid hplace, if_pos hpending]
      exact ⟨hlimit, rfl, fun _ => rfl⟩

theorem frame_placeTiles {env : Env} {now : ℚ} {sid : String} {tiles : List Placed}
    (h : ¬(Event.place env now sid tiles).PutsToVote room) :
    Frame room (room.placeTiles env now sid tiles) := by
  have hlimit := turnTimeLimit_placeTiles env room.game sid tiles
  cases hvalid : Server.validTilesInput tiles with
  | false =>
    unfold Room.placeTiles
    rw [hvalid, Bool.not_false, if_pos rfl]
    exact Frame.refl room
  | true =>
    cases hplace : room.game.placeTiles env sid tiles with
    | mk game outcome =>
      rw [hplace] at hlimit
      cases outcome with
      | error e =>
        unfold Room.placeTiles
        rw [hvalid, hplace]
        exact Frame.refl room
      | ok answer =>
        have hfree : ¬game.pendingChallenge.isSome = true := fun hpending =>
          h ⟨hvalid, by rw [hplace]; rfl, by rwa [game_placeTiles hvalid hplace]⟩
        have hstop : Frame room { room with game }.invalidateTurnTimer :=
          (Frame.game hlimit).trans (Frame.invalidateTurnTimer _)
        rw [placeTiles_eq hvalid hplace, if_neg hfree]
        split
        · exact hstop
        · exact hstop.trans (Frame.startTurnTimer _ now none)

theorem frame_withdrawWords (now : ℚ) (sid : String) : Frame room (room.withdrawWords now sid) := by
  have hlimit := turnTimeLimit_withdrawPending room.game sid
  unfold Room.withdrawWords
  split
  · exact Frame.refl room
  · rename_i game message hwithdraw
    rw [hwithdraw] at hlimit
    exact (Frame.game hlimit).trans (Frame.startTurnTimer _ now _)

/-- A request that is refused changes nothing. -/
theorem roomAction_error {now : ℚ} {reason : Option Word} {log : Except AdminError Unit} {act : Act}
    {e : AdminError} (h : (roomAction room now reason log act).2 = .error e) :
    (roomAction room now reason log act).1 = room := by
  unfold roomAction at h ⊢
  cases hreason : normalizeReason reason with
  | error e => rfl
  | ok text =>
    rw [hreason] at h
    dsimp only at h ⊢
    split
    · rfl
    split
    · rfl
    rename_i hgame hvote
    rw [if_neg hgame, if_neg hvote] at h
    cases act with
    | extend seconds =>
      dsimp only at h ⊢
      cases hseconds : seconds.filter fun s => s ∈ extendChoices with
      | none => rfl
      | some s =>
        rw [hseconds] at h
        cases log with
        | error e => rfl
        | ok done => cases h
    | pause =>
      dsimp only at h ⊢
      split
      · rfl
      rename_i hpaused
      rw [if_neg hpaused] at h
      cases hremaining : room.timerRemaining now with
      | none => rfl
      | some remaining =>
        rw [hremaining] at h
        cases log with
        | error e => rfl
        | ok done => cases h
    | resume =>
      dsimp only at h ⊢
      cases hpaused : room.timerPausedLeft with
      | none => rfl
      | some left =>
        rw [hpaused] at h
        cases log with
        | error e => rfl
        | ok done => cases h

theorem frame_roomAction (now : ℚ) (reason : Option Word) (log : Except AdminError Unit)
    (act : Act) : Frame room (roomAction room now reason log act).1 := by
  cases hanswer : (roomAction room now reason log act).2 with
  | error e =>
    rw [roomAction_error hanswer]
    exact Frame.refl room
  | ok shown =>
    unfold roomAction
    split
    · exact Frame.refl room
    dsimp only
    split
    · exact Frame.refl room
    split
    · exact Frame.refl room
    cases act with
    | extend seconds =>
      dsimp only
      split
      · exact Frame.refl room
      split
      · exact Frame.refl room
      split
      · rename_i hpaused
        exact ⟨rfl, rfl, fun h _ => h hpaused⟩
      · exact Frame.startTurnTimer room now _
    | pause =>
      dsimp only
      split
      · exact Frame.refl room
      split
      · exact Frame.refl room
      split
      · exact Frame.refl room
      · exact ⟨rfl, rfl, fun _ _ => rfl⟩
    | resume =>
      dsimp only
      split
      · exact Frame.refl room
      split
      · exact Frame.refl room
      · exact Frame.startTurnTimer room now _

/-- A step that puts nothing to the vote. -/
theorem frame_step {e : Event} (h : ¬e.PutsToVote room) : Frame room (step room e) := by
  cases e with
  | place env now sid tiles => exact frame_placeTiles h
  | withdraw now sid => exact frame_withdrawWords now sid
  | act now reason log act => exact frame_roomAction now reason log act
  | elsewhere input now stops starts =>
    have hgame : Frame room { room with game := room.game.step input } :=
      Frame.game (turnTimeLimit_step room.game input)
    have hstops : Frame room (if stops then
        { room with game := room.game.step input }.invalidateTurnTimer
        else { room with game := room.game.step input }) := by
      split
      · exact hgame.trans (Frame.invalidateTurnTimer _)
      · exact hgame
    unfold step
    dsimp only
    split
    · exact hstops.trans (Frame.startTurnTimer _ now none)
    · exact hstops

theorem stopped_step (h : Stopped room) (e : Event) : Stopped (step room e) := by
  by_cases hvote : e.PutsToVote room
  · cases e with
    | place env now sid tiles => exact (placeTiles_putsToVote hvote).2.2
    | withdraw now sid => cases hvote
    | act now reason log act => cases hvote
    | elsewhere input now stops starts => cases hvote
  · exact (frame_step hvote).stopped h

theorem stopped_run {game : Game} {isAsync : Bool} (events : List Event) :
    Stopped (Runs.run step (Room.new game isAsync) events) :=
  Runs.run_invariant step (P := Stopped) (Q := fun _ _ => True) (fun _ e h _ => stopped_step h e)
    (fun _ => rfl) (Runs.along_of_forall step (fun _ _ _ => trivial) _)

theorem turnTimeLimit_room_step (room : Room) (e : Event) :
    (step room e).game.turnTimeLimit = room.game.turnTimeLimit := by
  by_cases hvote : e.PutsToVote room
  · cases e with
    | place env now sid tiles => exact (placeTiles_putsToVote hvote).1
    | withdraw now sid => cases hvote
    | act now reason log act => cases hvote
    | elsewhere input now stops starts => cases hvote
  · exact (frame_step hvote).limit

theorem turnTimeLimit_run (room : Room) (events : List Event) :
    (Runs.run step room events).game.turnTimeLimit = room.game.turnTimeLimit :=
  Runs.run_invariant step (P := fun r => r.game.turnTimeLimit = room.game.turnTimeLimit)
    (Q := fun _ _ => True) (fun r e h _ => (turnTimeLimit_room_step r e).trans h) rfl
    (Runs.along_of_forall step (fun _ _ _ => trivial) _)

theorem frame_run {events : List Event}
    (h : Runs.Along step (fun room e => ¬e.PutsToVote room) room events) :
    Frame room (Runs.run step room events) :=
  Runs.run_invariant step (P := Frame room) (fun _ _ hframe he => hframe.trans (frame_step he))
    (Frame.refl room) h

theorem pendingChallenge_withdrawPending {g : Game} {sid : String}
    (h : (g.withdrawPending sid).2.isOk = true) :
    (g.withdrawPending sid).1.pendingChallenge = none := by
  unfold Game.withdrawPending at h ⊢
  split
  · rename_i hpc
    rw [hpc] at h
    cases h
  · rename_i pc hpc
    rw [hpc] at h
    dsimp only at h ⊢
    split
    · rename_i hid
      rw [if_pos hid] at h
      cases h
    · rename_i hid
      rw [if_neg hid] at h
      split
      · rename_i hvotes
        rw [if_pos hvotes] at h
        cases h
      · rfl

/-- The clock goes on with what was left at the placement, or with a full turn. -/
theorem timerRemaining_withdrawWords (now : ℚ) {sid : String}
    (h : (room.game.withdrawPending sid).2.isOk = true) (hlimit : room.game.turnTimeLimit ≠ 0) :
    (room.withdrawWords now sid).timerRemaining now = some (max
      ((room.withdrawTimeLeft.map fun l => max l minTimeAfterWithdraw).getD
        room.game.turnTimeLimit) 0) := by
  have hfree := pendingChallenge_withdrawPending h
  have hsame := turnTimeLimit_withdrawPending room.game sid
  cases hwithdraw : room.game.withdrawPending sid with
  | mk game outcome =>
    rw [hwithdraw] at h hfree hsame
    dsimp only at hfree hsame
    cases outcome with
    | error e => cases h
    | ok message =>
      unfold Room.withdrawWords Room.startTurnTimer
      simp only [hwithdraw]
      have hruns : ¬(decide (game.turnTimeLimit = 0) || game.pendingChallenge.isSome) = true := by
        rw [hsame, hfree]
        simpa using hlimit
      rw [if_neg hruns]
      simp only [Room.timerRemaining, Option.map_some, add_sub_cancel_left, hsame]

variable {game : Game} {isAsync : Bool}

/-- What was left at the last placement is kept until it is withdrawn. -/
theorem withdrawTimeLeft_run {before between : List Event} {placement : Event}
    (hvote : placement.PutsToVote (Runs.run step room before))
    (hbetween : Runs.Along step (fun room e => ¬e.PutsToVote room)
      (Runs.run step room (before ++ [placement])) between) :
    (Runs.run step room (before ++ placement :: between)).withdrawTimeLeft =
      (Runs.run step room before).turnTimerExpiresAt.map
        fun t => max (t - placement.now) 0 := by
  have hsplit : Runs.run step room (before ++ placement :: between) =
      Runs.run step (Runs.run step room (before ++ [placement])) between := by
    rw [← Runs.run_append, List.append_assoc, List.singleton_append]
  rw [hsplit, (frame_run hbetween).withdrawTimeLeft, Runs.run_append, Runs.run_cons, Runs.run_nil]
  cases placement with
  | place env now sid tiles => exact (placeTiles_putsToVote hvote).2.1
  | withdraw now sid => cases hvote
  | act now reason log act => cases hvote
  | elsewhere input now stops starts => cases hvote

/-- What a withdrawal gives, by whether the clock was paused at the placement. -/
theorem withdrawal_shows {at_ : Room} {now left : ℚ} (limit : ℚ) (hstopped : Stopped at_)
    (hleft : at_.timerRemaining now = some left) :
    ((at_.turnTimerExpiresAt.map fun t => max (t - now) 0).map
        fun l => max l minTimeAfterWithdraw).getD limit =
      if at_.timerPausedLeft = some left then limit else max left minTimeAfterWithdraw := by
  unfold Room.timerRemaining at hleft
  cases hpaused : at_.timerPausedLeft with
  | some paused =>
    rw [hpaused] at hleft
    rw [if_pos hleft, hstopped (by rw [hpaused]; rfl)]
    rfl
  | none =>
    rw [hpaused] at hleft
    dsimp only at hleft
    rw [if_neg (by simp), hleft, Option.map_some, Option.getD_some]

/-- **A withdrawal wins no time** exactly where the placement was not put to the vote on a paused
clock with less than a full turn on it. -/
theorem withdrawal_wins_nothing {before between : List Event} {placement withdrawal : Event}
    {left : ℚ} (hlimit : game.turnTimeLimit ≠ 0)
    (hvote : placement.PutsToVote (Runs.run step (Room.new game isAsync) before))
    (hleft : (Runs.run step (Room.new game isAsync) before).timerRemaining placement.now =
      some left)
    (hbetween : Runs.Along step (fun room e => ¬e.PutsToVote room)
      (Runs.run step (Room.new game isAsync) (before ++ [placement])) between)
    (hback : withdrawal.TakesBack
      (Runs.run step (Room.new game isAsync) (before ++ placement :: between))) :
    (∃ shown, (Runs.run step (Room.new game isAsync)
        (before ++ placement :: between ++ [withdrawal])).timerRemaining withdrawal.now =
          some shown ∧ shown ≤ max left minTimeAfterWithdraw) ↔
      KeepsRemainder (Runs.run step (Room.new game isAsync) before) placement := by
  have hkept := withdrawTimeLeft_run hvote hbetween
  have hsame := turnTimeLimit_run (Room.new game isAsync) (before ++ placement :: between)
  have hsame' := turnTimeLimit_run (Room.new game isAsync) before
  have hshows := withdrawal_shows (game.turnTimeLimit : ℚ) (stopped_run before) hleft
  cases withdrawal with
  | place env now sid tiles => cases hback
  | act now reason log act => cases hback
  | elsewhere input now stops starts => cases hback
  | withdraw now sid =>
    have hshown := timerRemaining_withdrawWords now hback (by rwa [hsame])
    rw [hkept, hsame] at hshown
    rw [Runs.run_append, Runs.run_cons, Runs.run_nil]
    change (∃ shown, Room.timerRemaining (Room.withdrawWords _ now sid) now = some shown ∧ _) ↔ _
    rw [hshown]
    have hmin : (0 : ℚ) ≤ max left minTimeAfterWithdraw :=
      le_max_of_le_right (by unfold minTimeAfterWithdraw; norm_num)
    change (∃ shown, some (max (Option.getD _ (game.turnTimeLimit : ℚ)) 0) = some shown ∧ _) ↔ _
    rw [hshows]
    constructor
    · rintro ⟨shown, hshown, hle⟩ - paused hpaused
      have heq : left = paused := by
        unfold Room.timerRemaining at hleft
        rw [hpaused] at hleft
        exact (Option.some.inj hleft).symm
      subst heq
      rw [if_pos hpaused] at hshown
      rw [hsame']
      exact (le_max_left _ 0).trans ((Option.some.inj hshown).trans_le hle)
    · intro hkeeps
      refine ⟨_, rfl, max_le ?_ hmin⟩
      split
      · rename_i hpaused
        have hle := hkeeps hvote left hpaused
        rwa [hsame'] at hle
      · exact le_rfl

/-- Two players before a game of one minute a turn. -/
def minuteLobby : Game :=
  Runs.run Game.step (Game.new Game.stillEnv "duel" true 60 3)
    [(Game.stillEnv, .addPlayer "a" "Anna"), (Game.stillEnv, .addPlayer "b" "Béla")]

/-- The game starts, and with it the clock. -/
def kickOff : Event := .elsewhere (Game.stillEnv, .start) 0 false true

def opens (now : ℚ) : Event := .place Game.stillEnv now "a" Game.duelOpening

theorem withdrawal_wins_nothing_minute :
    (∃ shown, (Runs.run step (Room.new minuteLobby false)
        ([kickOff] ++ opens 20 :: [] ++ [.withdraw 30 "a"])).timerRemaining 30 = some shown ∧
          shown ≤ max 40 minTimeAfterWithdraw) ↔
      KeepsRemainder (Runs.run step (Room.new minuteLobby false) [kickOff]) (opens 20) := by
  have hvote : (opens 20).PutsToVote (Runs.run step (Room.new minuteLobby false) [kickOff]) :=
    ⟨by decide +kernel, by decide +kernel, by decide +kernel⟩
  have hback : (Event.withdraw 30 "a").TakesBack
      (Runs.run step (Room.new minuteLobby false) ([kickOff] ++ opens 20 :: [])) := by
    unfold Event.TakesBack
    decide +kernel
  exact @withdrawal_wins_nothing minuteLobby false [kickOff] [] (opens 20) (.withdraw 30 "a") 40
    (by decide +kernel) hvote (by decide +kernel) trivial hback

/-- A pause that is worth most of a minute: ten seconds are left when the clock is paused, and a
full turn after a placement that is taken back. -/
theorem withdrawal_wins_time :
    ¬ ∀ (before between : List Event) (placement withdrawal : Event) (left : ℚ),
      placement.PutsToVote (Runs.run step (Room.new minuteLobby false) before) →
      (Runs.run step (Room.new minuteLobby false) before).timerRemaining placement.now = some left →
      Runs.Along step (fun room e => ¬e.PutsToVote room)
        (Runs.run step (Room.new minuteLobby false) (before ++ [placement])) between →
      withdrawal.TakesBack
        (Runs.run step (Room.new minuteLobby false) (before ++ placement :: between)) →
      ∃ shown, (Runs.run step (Room.new minuteLobby false)
        (before ++ placement :: between ++ [withdrawal])).timerRemaining withdrawal.now =
          some shown ∧ shown ≤ max left minTimeAfterWithdraw := by
  intro h
  have hback : (Event.withdraw 56 "a").TakesBack (Runs.run step (Room.new minuteLobby false)
      ([kickOff, .act 50 (some "szünet".toList) (.ok ()) .pause] ++ opens 55 :: [])) := by
    unfold Event.TakesBack
    decide +kernel
  obtain ⟨shown, hshown, hle⟩ := h [kickOff, .act 50 (some "szünet".toList) (.ok ()) .pause] []
    (opens 55) (.withdraw 56 "a") 10 ⟨by decide +kernel, by decide +kernel, by decide +kernel⟩
    (by decide +kernel) trivial hback
  have hminute : (Runs.run step (Room.new minuteLobby false)
      ([kickOff, .act 50 (some "szünet".toList) (.ok ()) .pause] ++ opens 55 :: [] ++
        [.withdraw 56 "a"])).timerRemaining 56 = some 60 := by
    decide +kernel
  obtain rfl := Option.some.inj (hshown.symm.trans hminute)
  exact absurd hle (by decide +kernel)

end Steps

end ScrabbleMagyar.Clock
