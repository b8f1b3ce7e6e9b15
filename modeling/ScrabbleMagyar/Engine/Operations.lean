import ScrabbleMagyar.Engine.Game

/-!
# The moves of a game

Placements, the vote on them, exchanges, passes, resignation and the interventions of an
administrator (`engine/game.rs`). Each operation is its guards, in the source's order and with
its messages, in front of a named change of the state.
-/

namespace ScrabbleMagyar

namespace Game

/-! ## Placements -/

/-- Whether the hand holds the tiles of a placement. -/
def validateHand : List Tile → List Placed → Fallible Unit
  | _, [] => .ok ()
  | hand, p :: rest =>
    if p.handTile ∈ hand then validateHand (hand.erase p.handTile) rest
    else if p.isBlank then .error "Nincs üres zsetonod."
    else
      let letter := String.ofList p.letter.asStr
      .error s!"Nincs '{letter}' betűd."

/-- Take the tiles of a placement out of a hand: the hand left and the tiles taken. -/
def removeTilesFromHand (hand : List Tile) (tiles : List Placed) : List Tile × List Tile :=
  (tiles.foldl (fun hand p => hand.erase p.handTile) hand, tiles.map Placed.handTile)

/-- Fill the hand of a player up from the bag. -/
def refillHand (g : Game) (idx : ℕ) : Game :=
  let (bag, newTiles) := g.bag.draw (handSize - (g.playerAt idx).hand.length)
  let g := { g with bag }
  g.modifyPlayer idx fun p => { p with hand := p.hand ++ newTiles }

/-- End the game when the player has gone out, else pass the turn on. -/
def closeTurn (env : Env) (g : Game) (idx : ℕ) : Game :=
  if (g.playerAt idx).hand.isEmpty && g.bag.isEmpty then g.endGame (some idx)
  else g.nextTurn env

/-- End the daily puzzle with the placement just made. -/
def finishPuzzle (g : Game) (idx : ℕ) (score : ℤ) (words : List Word) : Game :=
  let name := (g.playerAt idx).name
  let joined := Board.joinWords words
  let g := { g with
    finished := true
    winners := [g.playerAt idx]
    puzzle := g.puzzle.map fun (p : Puzzle) => { p with score := some score } }
  g.setLastAction s!"{name}: {joined} ({score} pont)"
    (.obj [("type", .str "puzzle"), ("player", .str name),
      ("words", .arr (words.map fun w => .str (String.ofList w))), ("score", .int score)])

/-- The last action after a placement that counts. -/
def setPlaceAction (g : Game) (name : String) (words : List Word) (score : ℤ) : Game :=
  let joined := Board.joinWords words
  g.setLastAction s!"{name}: {joined} ({score} pont)"
    (.obj [("type", .str "place"), ("player", .str name),
      ("words", .arr (words.map fun w => .str (String.ofList w))), ("score", .int score)])

/-- Lay the tiles of the current player: board, score, draw, log. -/
def layTiles (g : Game) (tiles : List Placed) (totalScore : ℤ) (wordStrs : List Word)
    (formed : List FormedWord) : Game :=
  let idx := g.currentPlayerIdx
  let rack := (g.playerAt idx).hand
  let g := { g with board := g.board.applyPlacement tiles, rejectedPlacements := ∅ }
  let g := g.modifyPlayer idx fun p => { p with score := p.score + totalScore }
  let g := g.modifyPlayer idx fun p => { p with hand := (removeTilesFromHand p.hand tiles).1 }
  let g := g.refillHand idx
  let g := { g with scorelessTurns := 0 }
  let g := g.modifyPlayer idx fun p => { p with timeouts := 0 }
  let name := (g.playerAt idx).name
  let g := g.setPlaceAction name wordStrs totalScore
  g.recordMove name "place" (some tiles) (some formed) totalScore (some rack)

/-- Finalise a placement at once: lay its tiles and close the turn. -/
def finalizePlacement (env : Env) (g : Game) (tiles : List Placed) (totalScore : ℤ)
    (wordStrs : List Word) (formed : List FormedWord) : Game :=
  let idx := g.currentPlayerIdx
  let g := g.layTiles tiles totalScore wordStrs formed
  if g.puzzle.isSome then g.finishPuzzle idx totalScore wordStrs else g.closeTurn env idx

/-- Whether the placement of a player goes to the vote: only with another human player. -/
def challengeApplies (g : Game) (placerIdx : ℕ) : Bool :=
  g.challengeMode && g.players.zipIdx.any fun e => e.2 ≠ placerIdx && !e.1.isBot

/-- The score of a placement: its words, and the bonus for a full hand. -/
def lerakasTotal (formed : List FormedWord) (tileCount : ℕ) : ℤ :=
  (formed.map fun w => (w.score : ℤ)).sum + if tileCount = handSize then bonusAllTiles else 0

/-- Try a placement without making it. -/
def previewPlacement (env : Env) (g : Game) (playerId : String) (tiles : List Placed) : Json :=
  let empty (message : String) : Json :=
    .obj [("valid", .bool false), ("score", .int 0), ("words", .arr []), ("message", .str message)]
  if g.finished || !g.started || g.pendingChallenge.isSome then empty ""
  else match g.currentPlayer with
    | none => empty ""
    | some player =>
      if player.id ≠ playerId then empty ""
      else match validateHand player.hand tiles with
        | .error e => empty e
        | .ok () =>
          match
            g.board.validatePlacement env.lexicon tiles (g.challengeApplies g.currentPlayerIdx) with
          | .error e => empty e
          | .ok formed =>
            .obj [("valid", .bool true), ("score", .int (lerakasTotal formed tiles.length)),
              ("words", .arr (formed.map fun w =>
                .obj [("word", .str (String.ofList w.word)), ("score", .int w.score)])),
              ("message", .str "")]

/-- Put a placement to the vote: its tiles leave the hand and wait. -/
def proposePlacement (env : Env) (g : Game) (tiles : List Placed) (totalScore : ℤ)
    (wordStrs : List Word) (formed : List FormedWord) : Game :=
  let idx := g.currentPlayerIdx
  let removed := (removeTilesFromHand (g.playerAt idx).hand tiles).2
  let g := g.modifyPlayer idx fun p => { p with hand := (removeTilesFromHand p.hand tiles).1 }
  let g := { g with
    pendingChallenge := some (Challenge.new env.now tiles formed wordStrs totalScore idx removed) }
  let name := (g.playerAt idx).name
  let joined := Board.joinWords wordStrs
  g.setLastAction s!"{name}: {joined} ({totalScore} pont) — szavazásra vár"
    (.obj [("type", .str "pending"), ("player", .str name),
      ("words", .arr (wordStrs.map fun w => .str (String.ofList w))), ("score", .int totalScore)])

/-- Place tiles. The answer is a message and the score. -/
def placeTiles (env : Env) (g : Game) (playerId : String) (tiles : List Placed) :
    Game × Fallible (String × ℤ) :=
  if g.finished then (g, .error "A játék véget ért.")
  else if g.pendingChallenge.isSome then (g, .error "Várj a megtámadási fázis végéig.")
  else match g.currentPlayer with
    | none => (g, .error "Nem te következel.")
    | some player =>
      if player.id ≠ playerId then (g, .error "Nem te következel.")
      else match validateHand player.hand tiles with
        | .error e => (g, .error e)
        | .ok () =>
          let challengeActive := g.challengeApplies g.currentPlayerIdx
          match g.board.validatePlacement env.lexicon tiles challengeActive with
          | .error e => (g, .error e)
          | .ok formed =>
            let totalScore := lerakasTotal formed tiles.length
            let wordStrs := formed.map FormedWord.word
            let joined := Board.joinWords wordStrs
            if challengeActive then
              (g.proposePlacement env tiles totalScore wordStrs formed,
                .ok (s!"Szavak: {joined} — szavazásra vár!", totalScore))
            else
              (g.finalizePlacement env tiles totalScore wordStrs formed,
                .ok (s!"Szavak: {joined}", totalScore))

/-! ## The vote -/

/-- The players who may vote: every human but the placer. -/
def voterIds (g : Game) : Finset String :=
  match g.pendingChallenge with
  | none => ∅
  | some pc =>
    let placerId := (g.playerAt pc.playerIdx).id
    ((g.players.filter fun p => p.id ≠ placerId ∧ !p.isBot).map Player.id).toFinset

/-- Lay the tiles of a pending placement: board, score, draw, log. -/
def layPending (g : Game) (pc : Challenge) : Game :=
  let idx := pc.playerIdx
  let rack := (g.playerAt idx).hand ++ pc.removedFromHand
  let g := { g with
    pendingChallenge := none
    board := g.board.applyPlacement pc.tilesPlaced
    rejectedPlacements := ∅ }
  let g := g.modifyPlayer idx fun p => { p with score := p.score + pc.score }
  let g := g.refillHand idx
  let g := { g with scorelessTurns := 0 }
  let name := (g.playerAt idx).name
  let g := g.setPlaceAction name pc.wordStrs pc.score
  g.recordMove name "challenge_accept" (some pc.tilesPlaced) (some pc.formedWords) pc.score
    (some rack)

/-- Finalise the pending placement as accepted. -/
def finalizeAccept (env : Env) (g : Game) : Game :=
  match g.pendingChallenge with
  | none => g
  | some pc => (g.layPending pc).closeTurn env pc.playerIdx

/-- Give the tiles of a pending placement back to the placer. -/
def returnTiles (g : Game) (pc : Challenge) : Game :=
  let g := { g with pendingChallenge := none }
  g.modifyPlayer pc.playerIdx fun p => { p with hand := p.hand ++ pc.removedFromHand }

/-- Turn a pending placement down: its tiles go back, and it is noted for the bots. -/
def turnDown (g : Game) (pc : Challenge) : Game :=
  let idx := pc.playerIdx
  let g := g.returnTiles pc
  let g := { g with rejectedPlacements := insert (placementKey pc.tilesPlaced) g.rejectedPlacements }
  let name := (g.playerAt idx).name
  let joined := Board.joinWords pc.wordStrs
  let g := g.setLastAction
    s!"{name} szavai elutasítva: {joined}. Betűk visszavéve, újra ő következik."
    (.obj [("type", .str "rejected"), ("player", .str name),
      ("words", .arr (pc.wordStrs.map fun w => .str (String.ofList w)))])
  g.recordMove name "challenge_reject" none none 0 none

/-- Finalise the pending placement as rejected: a turn without a score, after which the placer
goes on unless disconnected. -/
def finalizeReject (env : Env) (g : Game) : Game :=
  match g.pendingChallenge with
  | none => g
  | some pc =>
    match (g.turnDown pc).registerScorelessTurn with
    | (g, true) => g
    | (g, false) => if (g.playerAt pc.playerIdx).disconnected then g.nextTurn env else g

def resolveAndFinalize (env : Env) (g : Game) : Game × VoteResult :=
  let accepted := match g.pendingChallenge with
    | some pc => pc.resolveVotes g.voterIds
    | none => true
  if accepted then (g.finalizeAccept env, .accepted) else (g.finalizeReject env, .rejected)

def makeVoteMessage (result : VoteResult) : String :=
  if result = .accepted then "A szavak elfogadva szavazással."
  else "A szavak elutasítva szavazással!"

def voteText (name : String) (vote : Vote) : String :=
  if vote = .accept then s!"{name} elfogadta." else s!"{name} elutasította."

/-- The last action after a vote that leaves the outcome open. -/
def setVoteAction (g : Game) (name : String) (vote : Vote) : Game :=
  g.setLastAction (voteText name vote)
    (.obj [("type", .str "vote"), ("player", .str name), ("vote", .str vote.asStr)])

/-- A player votes on the pending placement. -/
def castVote (env : Env) (g : Game) (playerId : String) (vote : Vote) :
    Game × Fallible (VoteResult × String) :=
  match g.pendingChallenge with
  | none => (g, .error "Nincs függő lerakás.")
  | some pc =>
    if (g.playerAt pc.playerIdx).id = playerId then
      (g, .error (if vote = .accept then "Saját lerakásodat nem fogadhatod el."
        else "Saját lerakásodat nem utasíthatod el."))
    else if playerId ∉ g.voterIds then (g, .error "Nem szavazhatsz.")
    else if pc.hasVote playerId then (g, .error "Már szavaztál.")
    else match g.findPlayer playerId with
      | none => (g, .error "Nem vagy a játék résztvevője.")
      | some voter =>
        let voterIds := g.voterIds
        let pc := pc.addVote playerId vote
        let g := { g with pendingChallenge := some pc }
        if pc.allVoted voterIds then
          let (g, result) := g.resolveAndFinalize env
          (g, .ok (result, makeVoteMessage result))
        else
          (g.setVoteAction voter.name vote, .ok (.recorded, voteText voter.name vote))

def acceptPendingByPlayer (env : Env) (g : Game) (playerId : String) :
    Game × Fallible (VoteResult × String) := g.castVote env playerId .accept

def rejectPendingByPlayer (env : Env) (g : Game) (playerId : String) :
    Game × Fallible (VoteResult × String) := g.castVote env playerId .reject

/-- Undo a pending placement. -/
def withdraw (g : Game) (pc : Challenge) : Game :=
  let g := g.returnTiles pc
  let name := (g.playerAt pc.playerIdx).name
  g.setLastAction s!"{name} visszavonta a lerakását."
    (.obj [("type", .str "withdrawn"), ("player", .str name),
      ("words", .arr (pc.wordStrs.map fun w => .str (String.ofList w)))])

/-- The placer takes the pending placement back, as long as nobody has voted. -/
def withdrawPending (g : Game) (playerId : String) : Game × Fallible String :=
  match g.pendingChallenge with
  | none => (g, .error "Nincs függő lerakás.")
  | some pc =>
    if (g.playerAt pc.playerIdx).id ≠ playerId then
      (g, .error "Csak a lerakó vonhatja vissza a lerakását.")
    else if !pc.votes.isEmpty then
      (g, .error "Már szavaztak, a lerakás már nem vonható vissza.")
    else (g.withdraw pc, .ok "Lerakás visszavonva.")

/-- The vote ends by time-out. -/
def acceptPending (env : Env) (g : Game) : Game × Fallible (VoteResult × String) :=
  if g.pendingChallenge.isNone then (g, .error "Nincs függő lerakás.")
  else
    let (g, result) := g.resolveAndFinalize env
    (g, .ok (result,
      if result = .accepted then "Szavak elfogadva (időtúllépés)."
      else "Szavak elutasítva (időtúllépés)."))

/-! ## Other actions -/

/-- Swap tiles of the current player against tiles of the bag, and log it. -/
def swapTiles (env : Env) (g : Game) (tileIndices : List ℤ) : Game :=
  let idx := g.currentPlayerIdx
  let rack := (g.playerAt idx).hand
  -- from the highest index down, so that a removal does not move the ones still to come
  let sortedDesc := (tileIndices.map Int.toNat).insertionSort (· ≥ ·)
  let tilesToExchange := sortedDesc.map fun i => rack.getD i Tile.blank
  let g := g.modifyPlayer idx fun p => { p with hand := sortedDesc.foldl List.eraseIdx p.hand }
  let (bag, newTiles) := g.bag.draw tilesToExchange.length
  let g := g.modifyPlayer idx fun p => { p with hand := p.hand ++ newTiles }
  let g := { g with bag := bag.putBack env.shuffle tilesToExchange }
  let name := (g.playerAt idx).name
  let count := tilesToExchange.length
  let g := g.setLastAction s!"{name} cserélt {count} zsetont"
    (.obj [("type", .str "exchange"), ("player", .str name), ("count", .int count)])
  let g := g.modifyPlayer idx fun p => { p with timeouts := 0 }
  g.recordMove name "exchange" none none 0 (some rack)

/-- Exchange the tiles at the given indices of the hand. -/
def exchangeTiles (env : Env) (g : Game) (playerId : String) (tileIndices : List ℤ) :
    Game × Fallible String :=
  if g.finished then (g, .error "A játék véget ért.")
  else if g.pendingChallenge.isSome then (g, .error "Várj a megtámadási fázis végéig.")
  else if g.puzzle.isSome then (g, .error "A napi feladványban nem lehet cserélni.")
  else match g.currentPlayer with
    | none => (g, .error "Nem te következel.")
    | some player =>
      if player.id ≠ playerId then (g, .error "Nem te következel.")
      else if g.bag.remaining < 7 then
        (g, .error "Nincs elég zseton a zsákban a cseréhez (minimum 7 kell).")
      else if g.bag.remaining < tileIndices.length then
        (g, .error "Nincs elég zseton a zsákban a cseréhez.")
      else if tileIndices.isEmpty then (g, .error "Legalább egy zsetont ki kell választani.")
      else if tileIndices.dedup.length ≠ tileIndices.length then
        (g, .error "Duplikált zseton index.")
      else if tileIndices.any fun i => i < 0 || i.toNat ≥ player.hand.length then
        (g, .error "Érvénytelen zseton index.")
      else
        let count := tileIndices.length
        ((g.swapTiles env tileIndices).scorelessNextTurn env, .ok s!"{count} zseton kicserélve.")

/-- Note and log that the current player passes. -/
def notePass (g : Game) (timeout : Bool) : Game :=
  let idx := g.currentPlayerIdx
  let name := (g.playerAt idx).name
  let g :=
    if timeout then
      (g.modifyPlayer idx fun p => { p with timeouts := p.timeouts + 1 }).setLastAction
        s!"{name} nem lépett időben (passz)" (.obj [("type", .str "timeout"), ("player", .str name)])
    else
      (g.modifyPlayer idx fun p => { p with timeouts := 0 }).setLastAction
        s!"{name} passzolt" (.obj [("type", .str "pass"), ("player", .str name)])
  let rack := (g.playerAt idx).hand
  g.recordMove name "pass" none none 0 (some rack)

/-- Pass; with `timeout` because the deadline has passed. -/
def passTurn (env : Env) (g : Game) (playerId : String) (timeout : Bool) :
    Game × Fallible String :=
  if g.finished then (g, .error "A játék véget ért.")
  else if g.pendingChallenge.isSome then (g, .error "Várj a megtámadási fázis végéig.")
  else if g.puzzle.isSome then (g, .error "A napi feladványban nem lehet passzolni.")
  else match g.currentPlayer with
    | none => (g, .error "Nem te következel.")
    | some player =>
      if player.id ≠ playerId then (g, .error "Nem te következel.")
      else ((g.notePass timeout).scorelessNextTurn env, .ok "Passz.")

/-- The player at a seat resigns: the game ends, and the winners are the best of the others. A
pending placement is dropped. -/
def resignSeat (g : Game) (idx : ℕ) : Game :=
  let g := g.modifyPlayer idx fun p => { p with resigned := true }
  let g := { g with pendingChallenge := none }
  let g := g.endGame none
  let staying := g.players.filter fun p => !p.resigned
  let g := match (staying.map Player.score).max? with
    | some best => { g with winners := staying.filter fun p => p.score = best }
    | none => g
  let name := (g.playerAt idx).name
  g.setLastAction s!"{name} feladta a játékot."
    (.obj [("type", .str "resigned"), ("player", .str name)])

/-- A player resigns: the game ends and the player cannot win. -/
def resign (g : Game) (playerId : String) : Game × Fallible String :=
  if !g.started then (g, .error "A játék még nem indult el.")
  else if g.finished then (g, .error "A játék véget ért.")
  else match g.seatOf playerId with
    | none => (g, .error "Nem vagy a játék résztvevője.")
    | some idx => (g.resignSeat idx, .ok "A játék feladva.")

/-- The deadline of a correspondence game has passed: a pass, and the resignation of a player
who missed too many in a row. The answer is whether anything happened. -/
def expireTurn (env : Env) (g : Game) : Game × Bool :=
  if !g.asyncMode || !g.started || g.finished || g.pendingChallenge.isSome then (g, false)
  else match g.currentPlayer with
    | none => (g, false)
    | some player =>
      match g.passTurn env player.id true with
      | (g, .error _) => (g, false)
      | (g, .ok _) =>
        if g.finished then (g, true)
        else
          let timeouts := match g.findPlayer player.id with
            | some p => p.timeouts
            | none => 0
          if timeouts ≥ maxTimeouts then ((g.resign player.id).1, true) else (g, true)

/-! ## Interventions of an administrator -/

def forceResolvePending (env : Env) (g : Game) (accept : Bool) :
    Game × Fallible (VoteResult × String) :=
  if g.pendingChallenge.isNone then (g, .error "Nincs függő lerakás.")
  else if accept then (g.finalizeAccept env, .ok (.accepted, makeVoteMessage .accepted))
  else (g.finalizeReject env, .ok (.rejected, makeVoteMessage .rejected))

/-- The game with the tiles of a pending placement given back. -/
def unwindPending (g : Game) : Game :=
  match g.pendingChallenge with
  | some pc => g.returnTiles pc
  | none => g

/-- End the game as it stands; the tiles of a pending placement go back first. -/
def forceEnd (g : Game) : Game × Bool :=
  if !g.started || g.finished then (g, false) else (g.unwindPending.endGame none, true)

end Game

end ScrabbleMagyar
