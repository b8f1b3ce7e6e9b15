import ScrabbleMagyar.Db.Results

/-!
# Renaming a user

When a user is renamed, the new name is written into the games of the user (`admin/users.rs`): into
the rows of the seats by the account, into the moves, the owner and the stored state by the old
name.

* `Renaming.keptApart_iff`: the names of a game stay apart and say the same everywhere, and the new
  name goes to the user's seat and to nothing else, exactly when the user has one seat that bears
  the old name (or the new one already) and no other seat bears either.
* `Renaming.other_annas_seat`: in a correspondence game of two users called Anna the second has
  the seat "Anna (2)". When she is renamed, the seat of the first gets her new name in the stored
  state and in the moves.
-/

namespace ScrabbleMagyar

namespace Records

open Server (UserId RoomId GamePlayerData)

/-! ## The stored state -/

def patchPlayer (old new : String) (player : Json) : Json :=
  if (player.get? "name").bind Json.asStr = some old then player.set "name" (.str new) else player

def patchName (old new : String) (name : Json) : Json :=
  if name.asStr = some old then .str new else name

/-- The name of a player in a stored state is replaced; `none` where there is nothing to replace. -/
def patchStateNames (stateJson : Json) (old new : String) : Option Json :=
  let players := (stateJson.get? "players").bind Json.asArray
  let names := (stateJson.get? "winner_names").bind Json.asArray
  let isPlayer := (players.getD []).any fun p => (p.get? "name").bind Json.asStr = some old
  let isWinner := (names.getD []).any fun n => n.asStr = some old
  let data := if isPlayer then
      stateJson.set "players" (.arr ((players.getD []).map (patchPlayer old new)))
    else stateJson
  let data := if isWinner then
      data.set "winner_names" (.arr ((names.getD []).map (patchName old new)))
    else data
  if isPlayer || isWinner then some data else none

namespace Store

variable (db : Store)

/-- The games that a renaming concerns: those in which the user has a seat, when `onlyActive` those
of them that are running. -/
def renamedGames (uid : UserId) (onlyActive : Bool) : List ℕ :=
  (((db.players.filter fun r => r.userId = some uid).map PlayerRow.gameId).dedup).filter fun id =>
    db.games.any fun g => g.id = id && (!onlyActive || g.status = .active)

/-- The row of a game after a renaming. -/
def renameRow (old new : String) (g : GameRow) : GameRow :=
  { g with
    ownerName := if g.ownerName = old then new else g.ownerName
    stateJson := (patchStateNames g.stateJson old new).getD g.stateJson }

def renameInGame (uid : UserId) (old new : String) (gameId : ℕ) : Store :=
  { db with
    players := db.players.map fun r =>
      if r.gameId = gameId ∧ r.userId = some uid then { r with playerName := new } else r
    moves := db.moves.map fun m =>
      if m.gameId = gameId ∧ m.move.playerName = old then
        { m with move := { m.move with playerName := new } }
      else m
    games := db.games.map fun g => if g.id = gameId then renameRow old new g else g }

def renameInGames (uid : UserId) (old new : String) (onlyActive : Bool) : Store :=
  (db.renamedGames uid onlyActive).foldl (fun db gameId => db.renameInGame uid old new gameId) db

end Store

namespace Renaming

open Store

variable {db db' : Store}

/-- The names of the players in a stored state. -/
def stateNames (stateJson : Json) : List String :=
  (((stateJson.get? "players").bind Json.asArray).getD []).filterMap fun p =>
    (p.get? "name").bind Json.asStr

def winnerNames (stateJson : Json) : List String :=
  (((stateJson.get? "winner_names").bind Json.asArray).getD []).filterMap Json.asStr

/-- The names of a game are distinct and the same in the rows of its seats, in the stored state
and in the moves. -/
structure Consistent (db : Store) (g : GameRow) : Prop where
  distinct : (stateNames g.stateJson).Nodup
  rows : ((db.rowsOf g.id).map PlayerRow.playerName).Perm (stateNames g.stateJson)
  moves : ∀ m ∈ db.getGameMoves g.id, m.playerName ∈ stateNames g.stateJson
  winners : ∀ name ∈ winnerNames g.stateJson, name ∈ stateNames g.stateJson

/-- The name of a seat of a game after a renaming: that of the user's seat is the new one. -/
def renamed (db : Store) (gameId : ℕ) (uid : UserId) (new name : String) : String :=
  if (db.rowsOf gameId).any fun r => r.userId = some uid ∧ r.playerName = name then new else name

/-- **A renaming keeps the seats of a game apart**: its names are distinct and consistent
afterwards, and in the rows, the state, the moves and the winners the seat of the user bears the
new name and nothing else has changed. -/
structure KeptApart (db db' : Store) (g : GameRow) (uid : UserId) (new : String) (g' : GameRow) :
    Prop where
  row : g' ∈ db'.games ∧ g'.id = g.id
  consistent : Consistent db' g'
  rows : db'.rowsOf g.id = (db.rowsOf g.id).map fun r =>
    { r with playerName := renamed db g.id uid new r.playerName }
  state : stateNames g'.stateJson = (stateNames g.stateJson).map (renamed db g.id uid new)
  winners : winnerNames g'.stateJson = (winnerNames g.stateJson).map (renamed db g.id uid new)
  moves : db'.getGameMoves g.id = (db.getGameMoves g.id).map fun m =>
    { m with playerName := renamed db g.id uid new m.playerName }

/-- The user has one seat in a game, which bears the old name or the new one already, and no
other seat of the game bears either. -/
structure OwnName (db : Store) (gameId : ℕ) (uid : UserId) (old new : String) : Prop where
  one : ∀ r ∈ db.rowsOf gameId, ∀ r' ∈ db.rowsOf gameId, r.userId = some uid →
    r'.userId = some uid → r = r'
  own : ∀ r ∈ db.rowsOf gameId, r.userId = some uid → r.playerName = old ∨ r.playerName = new
  others : ∀ r ∈ db.rowsOf gameId, r.userId = some uid → ∀ r' ∈ db.rowsOf gameId,
    r'.userId ≠ some uid → r'.playerName ≠ old ∧ r'.playerName ≠ new

/-! ## What a renaming writes -/

/-- A name after a renaming, where names are compared with the old one. -/
def replaced (old new name : String) : String := if name = old then new else name

theorem name_patchPlayer (old new : String) (p : Json) :
    ((patchPlayer old new p).get? "name").bind Json.asStr =
      ((p.get? "name").bind Json.asStr).map (replaced old new) := by
  unfold patchPlayer
  split
  · rename_i hname
    have hsome : (p.get? "name").isSome := by
      cases hp : p.get? "name" with
      | none => simp [hp] at hname
      | some v => rfl
    rw [Json.get?_set hsome, if_pos rfl, hname]
    simp [replaced]
  · rename_i hname
    cases hp : (p.get? "name").bind Json.asStr with
    | none => rfl
    | some name =>
      have hne : name ≠ old := fun heq => hname (heq ▸ hp)
      simp [replaced, hne]

theorem asStr_patchName (old new : String) (name : Json) :
    (patchName old new name).asStr = name.asStr.map (replaced old new) := by
  unfold patchName
  split
  · rename_i hname
    rw [hname]
    simp [replaced]
  · rename_i hname
    cases hn : name.asStr with
    | none => rfl
    | some s =>
      have hne : s ≠ old := fun heq => hname (heq ▸ hn)
      simp [replaced, hne]

/-- The list under a key of an object. -/
def items (j : Json) (key : String) : List Json := ((j.get? key).bind Json.asArray).getD []

theorem isSome_of_items {j : Json} {key : String} {x : Json} (h : x ∈ items j key) :
    (j.get? key).isSome := by
  unfold items at h
  cases hj : j.get? key with
  | none => simp [hj] at h
  | some v => rfl

theorem map_eq_self {f : Json → Json} {p : Json → Bool} {l : List Json}
    (hf : ∀ x, p x = false → f x = x) (h : l.any p = false) : l.map f = l := by
  conv_rhs => rw [← List.map_id' l]
  refine List.map_congr_left fun x hx => hf x ?_
  simpa using List.any_eq_false.mp h x hx

/-- Setting a list to its image, where something is to be changed. -/
theorem items_set {j : Json} {key other : String} {f : Json → Json} {p : Json → Bool}
    (hf : ∀ x, p x = false → f x = x) :
    items (if (items j key).any p then j.set key (.arr ((items j key).map f)) else j) other =
      if other = key then (items j key).map f else items j other := by
  cases hany : (items j key).any p with
  | true =>
    obtain ⟨x, hx, -⟩ := List.any_eq_true.mp hany
    rw [if_pos rfl, items, Json.get?_set (isSome_of_items hx)]
    split <;> rfl
  | false =>
    rw [if_neg (by simp), map_eq_self hf hany]
    split
    · rename_i heq
      rw [heq]
    · rfl

/-- The state after a renaming, read off step by step: first the players, then the winners. -/
theorem patch_eq (stateJson : Json) (old new : String) :
    (patchStateNames stateJson old new).getD stateJson =
      let data := if (items stateJson "players").any
          (fun p => (p.get? "name").bind Json.asStr = some old) then
        stateJson.set "players" (.arr ((items stateJson "players").map (patchPlayer old new)))
      else stateJson
      if (items stateJson "winner_names").any (fun n => n.asStr = some old) then
        data.set "winner_names" (.arr ((items stateJson "winner_names").map (patchName old new)))
      else data := by
  have hitems : ∀ key, items stateJson key = ((stateJson.get? key).bind Json.asArray).getD [] :=
    fun _ => rfl
  simp only [patchStateNames, ← hitems]
  cases (items stateJson "players").any fun p =>
    decide ((p.get? "name").bind Json.asStr = some old) <;>
    cases (items stateJson "winner_names").any fun n => decide (n.asStr = some old) <;> rfl

theorem items_patch (stateJson : Json) (old new : String) :
    items ((patchStateNames stateJson old new).getD stateJson) "players" =
        (items stateJson "players").map (patchPlayer old new) ∧
      items ((patchStateNames stateJson old new).getD stateJson) "winner_names" =
        (items stateJson "winner_names").map (patchName old new) := by
  have hplayer : ∀ x : Json, decide ((x.get? "name").bind Json.asStr = some old) = false →
      patchPlayer old new x = x := fun x hx => if_neg (of_decide_eq_false hx)
  have hname : ∀ x : Json, decide (x.asStr = some old) = false → patchName old new x = x :=
    fun x hx => if_neg (of_decide_eq_false hx)
  rw [patch_eq]
  simp only
  generalize hdata : (if (items stateJson "players").any
      (fun p => (p.get? "name").bind Json.asStr = some old) then
    stateJson.set "players" (.arr ((items stateJson "players").map (patchPlayer old new)))
    else stateJson) = data
  have hplayers : items data "players" = (items stateJson "players").map (patchPlayer old new) := by
    rw [← hdata, items_set hplayer, if_pos rfl]
  have hwinners : items data "winner_names" = items stateJson "winner_names" := by
    rw [← hdata, items_set hplayer, if_neg (by decide)]
  rw [← hwinners, items_set hname, items_set hname, if_neg (by decide), if_pos rfl]
  exact ⟨hplayers, rfl⟩

/-- The names of a state after a renaming. -/
theorem names_patch (stateJson : Json) (old new : String) :
    stateNames ((patchStateNames stateJson old new).getD stateJson) =
        (stateNames stateJson).map (replaced old new) ∧
      winnerNames ((patchStateNames stateJson old new).getD stateJson) =
        (winnerNames stateJson).map (replaced old new) := by
  have hplayers : ∀ j, stateNames j =
      (items j "players").filterMap fun p => (p.get? "name").bind Json.asStr := fun _ => rfl
  have hwinners : ∀ j, winnerNames j = (items j "winner_names").filterMap Json.asStr := fun _ => rfl
  obtain ⟨hp, hw⟩ := items_patch stateJson old new
  rw [hplayers, hplayers, hwinners, hwinners, hp, hw, List.filterMap_map, List.filterMap_map,
    List.map_filterMap, List.map_filterMap]
  exact ⟨List.filterMap_congr fun p _ => name_patchPlayer old new p,
    List.filterMap_congr fun n _ => asStr_patchName old new n⟩

/-- **What a renaming writes**: each table is rewritten in the games that it concerns. -/
theorem foldl_renameInGame (uid : UserId) (old new : String) {ids : List ℕ} (hids : ids.Nodup)
    (db : Store) : ids.foldl (fun db gameId => db.renameInGame uid old new gameId) db =
      { db with
        players := db.players.map fun r =>
          if r.gameId ∈ ids ∧ r.userId = some uid then { r with playerName := new } else r
        moves := db.moves.map fun m =>
          if m.gameId ∈ ids ∧ m.move.playerName = old then
            { m with move := { m.move with playerName := new } }
          else m
        games := db.games.map fun g => if g.id ∈ ids then renameRow old new g else g } := by
  induction ids generalizing db with
  | nil => simp
  | cons id ids ih =>
    obtain ⟨hid, hids⟩ := List.nodup_cons.mp hids
    rw [List.foldl_cons, ih hids]
    simp only [renameInGame, List.map_map, List.mem_cons]
    congr 1
    · refine List.map_congr_left fun g _ => ?_
      simp only [Function.comp_apply]
      by_cases hg : g.id = id
      · rw [if_pos hg, if_pos (Or.inl hg), if_neg]
        exact hg ▸ hid
      · rw [if_neg hg]
        exact if_congr (or_iff_right hg).symm rfl rfl
    · refine List.map_congr_left fun r _ => ?_
      simp only [Function.comp_apply]
      by_cases hr : r.gameId = id ∧ r.userId = some uid
      · rw [if_pos hr]
        refine (if_neg fun h => ?_).trans (if_pos ⟨Or.inl hr.1, hr.2⟩).symm
        exact hid (hr.1 ▸ h.1)
      · rw [if_neg hr]
        refine if_congr ⟨fun h => ⟨.inr h.1, h.2⟩, fun h => ⟨?_, h.2⟩⟩ rfl rfl
        exact h.1.resolve_left fun heq => hr ⟨heq, h.2⟩
    · refine List.map_congr_left fun m _ => ?_
      simp only [Function.comp_apply]
      by_cases hm : m.gameId = id ∧ m.move.playerName = old
      · rw [if_pos hm]
        refine (if_neg fun h => ?_).trans (if_pos ⟨Or.inl hm.1, hm.2⟩).symm
        exact hid (hm.1 ▸ h.1)
      · rw [if_neg hm]
        refine if_congr ⟨fun h => ⟨.inr h.1, h.2⟩, fun h => ⟨?_, h.2⟩⟩ rfl rfl
        exact h.1.resolve_left fun heq => hm ⟨heq, h.2⟩

theorem mem_renamedGames {g : GameRow} (hg : g ∈ db.games) {uid : UserId} {onlyActive : Bool}
    (hactive : onlyActive = true → g.status = .active) :
    g.id ∈ db.renamedGames uid onlyActive ↔ ∃ r ∈ db.rowsOf g.id, r.userId = some uid := by
  have hgame : (db.games.any fun x => decide (x.id = g.id) &&
      (!onlyActive || decide (x.status = .active))) = true := by
    refine List.any_eq_true.mpr ⟨g, hg, ?_⟩
    cases onlyActive with
    | false => simp
    | true => simp [hactive rfl]
  rw [renamedGames, List.mem_filter, and_iff_left hgame, List.mem_dedup, List.mem_map]
  simp only [rowsOf, List.mem_filter, decide_eq_true_eq]
  constructor
  · rintro ⟨r, ⟨hr, huser⟩, hid⟩
    exact ⟨r, ⟨hr, hid⟩, huser⟩
  · rintro ⟨r, ⟨hr, hid⟩, huser⟩
    exact ⟨r, ⟨hr, huser⟩, hid⟩

/-- The row of a seat after a renaming. -/
def renamedSeat (uid : UserId) (new : String) (r : PlayerRow) : PlayerRow :=
  if r.userId = some uid then { r with playerName := new } else r

/-- **A game after a renaming**: its row, the rows of its seats and its moves. -/
structure Written (db db' : Store) (g : GameRow) (uid : UserId) (old new : String) (g' : GameRow) :
    Prop where
  row : ∀ x, x ∈ db'.games ∧ x.id = g.id ↔ x = g'
  rows : db'.rowsOf g.id = (db.rowsOf g.id).map (renamedSeat uid new)
  state : stateNames g'.stateJson = (stateNames g.stateJson).map (replaced old new)
  winners : winnerNames g'.stateJson = (winnerNames g.stateJson).map (replaced old new)
  moves : db'.getGameMoves g.id = (db.getGameMoves g.id).map fun m =>
    { m with playerName := replaced old new m.playerName }

theorem rowsOf_map {f : PlayerRow → PlayerRow} (hf : ∀ r, (f r).gameId = r.gameId)
    (rows : List PlayerRow) (id : ℕ) : ((rows.map f).filter fun r => r.gameId = id) =
      (rows.filter fun r => r.gameId = id).map f := by
  rw [List.filter_map]
  congr 1
  refine List.filter_congr fun r _ => ?_
  simp only [Function.comp_apply, hf]

theorem movesOf_map {f : MoveRow → MoveRow} (hf : ∀ m, (f m).gameId = m.gameId)
    (moves : List MoveRow) (id : ℕ) :
    ((moves.map f).filter fun m => m.gameId = id).map MoveRow.move =
      (moves.filter fun m => m.gameId = id).map fun m => (f m).move := by
  rw [List.filter_map, List.map_map]
  refine congrArg (List.map _) (List.filter_congr fun m _ => ?_)
  simp only [Function.comp_apply, hf]

/-- A game of the user is rewritten. -/
theorem written (h : WellFormed db) {g : GameRow} (hg : g ∈ db.games) {uid : UserId}
    {onlyActive : Bool} (hactive : onlyActive = true → g.status = .active)
    (hseat : ∃ r ∈ db.rowsOf g.id, r.userId = some uid) (old new : String) :
    Written db (db.renameInGames uid old new onlyActive) g uid old new (renameRow old new g) := by
  have hmem := (mem_renamedGames hg hactive).mpr hseat
  have hids : (db.renamedGames uid onlyActive).Nodup := (List.nodup_dedup _).filter _
  rw [renameInGames, foldl_renameInGame uid old new hids]
  obtain ⟨hstate, hwinners⟩ := names_patch g.stateJson old new
  refine ⟨fun x => ?_, ?_, hstate, hwinners, ?_⟩
  · rw [List.mem_map]
    constructor
    · rintro ⟨⟨y, hy, rfl⟩, hid⟩
      have hyid : y.id = g.id := by
        rw [← hid]
        split <;> rfl
      rw [h.game_eq hy hg hyid, if_pos hmem]
    · rintro rfl
      exact ⟨⟨g, hg, if_pos hmem⟩, rfl⟩
  · rw [rowsOf, rowsOf, rowsOf_map (fun r => by split <;> rfl)]
    refine List.map_congr_left fun r hr => if_congr (and_iff_right ?_) rfl rfl
    rw [of_decide_eq_true (List.mem_filter.mp hr).2]
    exact hmem
  · rw [getGameMoves, getGameMoves, movesOf_map (fun m => by split <;> rfl), List.map_map]
    refine List.map_congr_left fun m hm => ?_
    have hgame : m.gameId ∈ db.renamedGames uid onlyActive := by
      rw [of_decide_eq_true (List.mem_filter.mp hm).2]
      exact hmem
    simp only [Function.comp_apply, hgame, true_and, replaced]
    split <;> rfl

/-- A game in which the user has no seat stays. -/
theorem unwritten {g : GameRow} (hg : g ∈ db.games) {uid : UserId}
    {onlyActive : Bool} (hactive : onlyActive = true → g.status = .active)
    (hseat : ¬∃ r ∈ db.rowsOf g.id, r.userId = some uid) (old new : String) :
    g ∈ (db.renameInGames uid old new onlyActive).games ∧
      (db.renameInGames uid old new onlyActive).rowsOf g.id = db.rowsOf g.id ∧
      (db.renameInGames uid old new onlyActive).getGameMoves g.id = db.getGameMoves g.id := by
  have hmem := (mem_renamedGames hg hactive).not.mpr hseat
  have hids : (db.renamedGames uid onlyActive).Nodup := (List.nodup_dedup _).filter _
  rw [renameInGames, foldl_renameInGame uid old new hids]
  refine ⟨List.mem_map.mpr ⟨g, hg, if_neg hmem⟩, ?_, ?_⟩
  · rw [rowsOf, rowsOf_map (fun r => by split <;> rfl)]
    conv_rhs => rw [← List.map_id' (db.rowsOf g.id)]
    refine List.map_congr_left fun r hr => if_neg fun hr' => hmem ?_
    exact of_decide_eq_true (List.mem_filter.mp hr).2 ▸ hr'.1
  · rw [getGameMoves, movesOf_map (fun m => by split <;> rfl)]
    refine List.map_congr_left fun m hm => congrArg MoveRow.move (if_neg fun hm' => hmem ?_)
    exact of_decide_eq_true (List.mem_filter.mp hm).2 ▸ hm'.1

/-! ## Names that stay apart -/

/-- A seat is named by its row. -/
theorem renamed_eq {g : GameRow} (hcons : Consistent db g) {uid : UserId} (new : String)
    {r : PlayerRow} (hr : r ∈ db.rowsOf g.id) :
    renamed db g.id uid new r.playerName = (renamedSeat uid new r).playerName := by
  have hnames : ((db.rowsOf g.id).map PlayerRow.playerName).Nodup :=
    hcons.rows.nodup_iff.mpr hcons.distinct
  unfold renamed renamedSeat
  by_cases huser : r.userId = some uid
  · rw [if_pos huser, if_pos (List.any_eq_true.mpr ⟨r, hr, by simpa using huser⟩)]
  · rw [if_neg huser, if_neg]
    intro hany
    obtain ⟨x, hx, hseat⟩ := List.any_eq_true.mp hany
    rw [decide_eq_true_eq] at hseat
    exact huser (List.inj_on_of_nodup_map hnames hx hr hseat.2 ▸ hseat.1)

/-- Every name of a game is that of a row. -/
theorem exists_row {g : GameRow} (hcons : Consistent db g) {name : String}
    (hname : name ∈ stateNames g.stateJson) : ∃ r ∈ db.rowsOf g.id, r.playerName = name :=
  List.mem_map.mp (hcons.rows.mem_iff.mpr hname)

/-- The names of the seats after a renaming are distinct only if the user has one seat, and the new
name is that of no other. -/
theorem seats_of_nodup {g : GameRow} {uid : UserId} {new : String}
    (hnodup : ((db.rowsOf g.id).map fun r => (renamedSeat uid new r).playerName).Nodup)
    {r r' : PlayerRow} (hr : r ∈ db.rowsOf g.id) (hr' : r' ∈ db.rowsOf g.id)
    (huser : r.userId = some uid) (hnew : r'.userId = some uid ∨ r'.playerName = new) :
    r = r' := by
  apply List.inj_on_of_nodup_map hnodup hr hr'
  simp only [renamedSeat, if_pos huser]
  rcases hnew with huser' | hname
  · rw [if_pos huser']
  · split
    · rfl
    · exact hname.symm

/-- The comparison with the old name finds the user's seat and no other, when it is the one seat
that bears the name. -/
theorem replaced_eq {g : GameRow} (hcons : Consistent db g) {uid : UserId} {old new : String}
    (hown : OwnName db g.id uid old new) (hseat : ∃ r ∈ db.rowsOf g.id, r.userId = some uid)
    {name : String} (hname : name ∈ stateNames g.stateJson) :
    replaced old new name = renamed db g.id uid new name := by
  obtain ⟨r, hr, huser⟩ := hseat
  obtain ⟨x, hx, rfl⟩ := exists_row hcons hname
  rw [renamed_eq hcons new hx, replaced, renamedSeat]
  by_cases hxuser : x.userId = some uid
  · rw [if_pos hxuser]
    rcases hown.own x hx hxuser with hold | hnew
    · rw [if_pos hold]
    · rw [hnew]
      split <;> rfl
  · rw [if_neg hxuser, if_neg (hown.others r hr huser x hx hxuser).1]

theorem renamed_injOn {g : GameRow} (hcons : Consistent db g) {uid : UserId} {old new : String}
    (hown : OwnName db g.id uid old new) {name name' : String}
    (hname : name ∈ stateNames g.stateJson) (hname' : name' ∈ stateNames g.stateJson)
    (heq : renamed db g.id uid new name = renamed db g.id uid new name') : name = name' := by
  obtain ⟨r, hr, rfl⟩ := exists_row hcons hname
  obtain ⟨r', hr', rfl⟩ := exists_row hcons hname'
  rw [renamed_eq hcons new hr, renamed_eq hcons new hr', renamedSeat, renamedSeat] at heq
  split at heq <;> split at heq
  · rename_i huser huser'
    rw [hown.one r hr r' hr' huser huser']
  · rename_i huser huser'
    exact absurd heq.symm (hown.others r hr huser r' hr' huser').2
  · rename_i huser huser'
    exact absurd heq (hown.others r' hr' huser' r hr huser).2
  · exact heq

/-- **A renaming keeps the seats of a game apart** exactly when the user's seat, and no other,
bears the name that is replaced. -/
theorem keptApart_iff (h : WellFormed db) {g : GameRow} (hg : g ∈ db.games)
    (hcons : Consistent db g) (uid : UserId) (old new : String) {onlyActive : Bool}
    (hactive : onlyActive = true → g.status = .active) :
    (∃ g', KeptApart db (db.renameInGames uid old new onlyActive) g uid new g') ↔
      OwnName db g.id uid old new := by
  by_cases hseat : ∃ r ∈ db.rowsOf g.id, r.userId = some uid
  · have hwritten := written h hg hactive hseat old new
    constructor
    · rintro ⟨g', hkept⟩
      obtain rfl := (hwritten.row g').mp hkept.row
      have hnames : ∀ n ∈ stateNames g.stateJson,
          replaced old new n = renamed db g.id uid new n :=
        List.map_inj_left.mp (hwritten.state.symm.trans hkept.state)
      have hnodup : ((db.rowsOf g.id).map fun r => (renamedSeat uid new r).playerName).Nodup := by
        have hrows := hkept.consistent.rows.nodup_iff.mpr hkept.consistent.distinct
        have hid : (renameRow old new g).id = g.id := rfl
        rwa [hid, hwritten.rows, List.map_map] at hrows
      have hmem : ∀ r ∈ db.rowsOf g.id, r.playerName ∈ stateNames g.stateJson := fun r hr =>
        hcons.rows.mem_iff.mp (List.mem_map_of_mem hr)
      have hreplaced : ∀ r ∈ db.rowsOf g.id,
          replaced old new r.playerName = (renamedSeat uid new r).playerName := fun r hr =>
        (hnames _ (hmem r hr)).trans (renamed_eq hcons new hr)
      refine ⟨fun r hr r' hr' hu hu' => seats_of_nodup hnodup hr hr' hu (.inl hu'),
        fun r hr huser => ?_, fun r hr huser r' hr' huser' => ?_⟩
      · have hname := hreplaced r hr
        rw [replaced, renamedSeat, if_pos huser] at hname
        split at hname
        · rename_i hold
          exact .inl hold
        · exact .inr hname
      · have hnew : r'.playerName ≠ new := by
          intro hnew
          exact huser' (seats_of_nodup hnodup hr hr' huser (.inr hnew) ▸ huser)
        refine ⟨fun hold => ?_, hnew⟩
        have hname := hreplaced r' hr'
        rw [replaced, renamedSeat, if_pos hold, if_neg huser'] at hname
        exact hnew hname.symm
    · intro hown
      have hnames : ∀ {names : List String}, (∀ n ∈ names, n ∈ stateNames g.stateJson) →
          names.map (replaced old new) = names.map (renamed db g.id uid new) := fun hsub =>
        List.map_congr_left fun n hn => replaced_eq hcons hown hseat (hsub n hn)
      have hstate := hwritten.state.trans (hnames fun _ hn => hn)
      have hwinners := hwritten.winners.trans (hnames hcons.winners)
      have hrows : (db.rowsOf g.id).map (renamedSeat uid new) = (db.rowsOf g.id).map fun r =>
          { r with playerName := renamed db g.id uid new r.playerName } := by
        refine List.map_congr_left fun r hr => ?_
        rw [renamed_eq hcons new hr, renamedSeat]
        split <;> rfl
      have hmoves := hwritten.moves.trans (List.map_congr_left fun m hm => by
        rw [replaced_eq hcons hown hseat (hcons.moves m hm)])
      refine ⟨renameRow old new g, (hwritten.row _).mpr rfl, ⟨?_, ?_, ?_, ?_⟩,
        hwritten.rows.trans hrows, hstate, hwinners, hmoves⟩
      · rw [hstate]
        exact hcons.distinct.map_on fun n hn n' hn' heq => renamed_injOn hcons hown hn hn' heq
      · have hid : (renameRow old new g).id = g.id := rfl
        rw [hid, hwritten.rows, hrows, hstate, List.map_map]
        have hmap := hcons.rows.map (renamed db g.id uid new)
        rwa [List.map_map] at hmap
      · intro m hm
        have hid : (renameRow old new g).id = g.id := rfl
        rw [hid, hmoves] at hm
        obtain ⟨x, hx, rfl⟩ := List.mem_map.mp hm
        rw [hstate]
        exact List.mem_map_of_mem (hcons.moves x hx)
      · intro n hn
        rw [hwinners] at hn
        obtain ⟨x, hx, rfl⟩ := List.mem_map.mp hn
        rw [hstate]
        exact List.mem_map_of_mem (hcons.winners x hx)
  · obtain ⟨hmem, hrows, hmoves⟩ := unwritten hg hactive hseat old new
    have hsame : ∀ name, renamed db g.id uid new name = name := by
      intro name
      refine if_neg fun hany => hseat ?_
      obtain ⟨r, hr, hnamed⟩ := List.any_eq_true.mp hany
      exact ⟨r, hr, (of_decide_eq_true hnamed).1⟩
    refine iff_of_true ⟨g, ⟨hmem, rfl⟩, ?_, ?_, ?_, ?_, ?_⟩ ?_
    · exact ⟨hcons.distinct, hrows ▸ hcons.rows, hmoves ▸ hcons.moves, hcons.winners⟩
    · rw [hrows]
      simp [hsame]
    · rw [funext hsame, List.map_id']
    · rw [funext hsame, List.map_id']
    · rw [hmoves]
      simp [hsame]
    · exact ⟨fun r hr _ _ hu => absurd ⟨r, hr, hu⟩ hseat, fun r hr hu => absurd ⟨r, hr, hu⟩ hseat,
        fun r hr hu => absurd ⟨r, hr, hu⟩ hseat⟩

/-! ## Two users called Anna -/

/-- A stored state with the players `names`. -/
def stateOf (names : List String) : Json :=
  .obj [("players", .arr (names.map fun name => .obj [("name", .str name)])),
    ("winner_names", .arr [])]

/-- Anna and a second user, who sits as `name`, play in room 0. -/
def savedGame (displayName name : String) : Store :=
  Runs.run (step flatRule) Store.empty
    [.createUser "Anna", .createUser displayName,
      .saveGame 1 0 (stateOf ["Anna", name])
        [⟨"Anna", some 1, 0, false, false⟩, ⟨name, some 2, 0, false, false⟩] "Anna" false]

/-- Anna has made a move. -/
def gameOf (displayName name : String) : Store :=
  (savedGame displayName name).appendMoves 1 [⟨1, "Anna", "pass", .null, Board.new⟩]

/-- The row of the game. -/
def gameRowOf (name : String) : GameRow := ⟨1, 0, stateOf ["Anna", name], .active, "Anna", false, 1⟩

theorem wellFormed_gameOf {displayName name : String}
    (h : (savedGame displayName name).games.any fun g => g.id = 1) :
    WellFormed (gameOf displayName name) := by
  have hwf : WellFormed (savedGame displayName name) := wellFormed_run flatRule _
  have hcall : (savedGame displayName name).addGameMoves 1
      [⟨1, "Anna", "pass", .null, Board.new⟩] = some (gameOf displayName name) :=
    if_pos (by simpa using h)
  exact hwf.addGameMoves hcall

/-- Anna and Bea play, and Bea becomes Eva. -/
theorem keptApart_of_bea : ∃ g', KeptApart (gameOf "Bea" "Bea")
    ((gameOf "Bea" "Bea").renameInGames 2 "Bea" "Eva" true) (gameRowOf "Bea") 2 "Eva" g' :=
  (keptApart_iff (wellFormed_gameOf (by decide +kernel)) (List.mem_singleton_self _)
    ⟨by decide +kernel, by decide +kernel, by decide +kernel, by decide +kernel⟩ 2 "Bea" "Eva"
    fun _ => rfl).mpr ⟨by decide +kernel, by decide +kernel, by decide +kernel⟩

/-- Two users called Anna play, and the second becomes Eva: the move of the first is then Eva's. -/
theorem other_annas_seat : ¬∀ (db : Store) (g : GameRow) (uid : UserId) (old new : String)
    (onlyActive : Bool), WellFormed db → g ∈ db.games → Consistent db g →
      (onlyActive = true → g.status = .active) →
        (db.getUser uid).map UserRow.displayName = some old →
          ∃ g', KeptApart db (db.renameInGames uid old new onlyActive) g uid new g' := by
  intro h
  obtain ⟨g', hkept⟩ := h (gameOf "Anna" "Anna (2)") (gameRowOf "Anna (2)") 2 "Anna" "Eva" true
    (wellFormed_gameOf (by decide +kernel)) (List.mem_singleton_self _)
    ⟨by decide +kernel, by decide +kernel, by decide +kernel, by decide +kernel⟩ (fun _ => rfl)
    (by decide +kernel)
  have hmoves := congrArg (List.map MoveLog.playerName) hkept.moves
  revert hmoves
  decide +kernel

end Renaming

end Records

end ScrabbleMagyar
