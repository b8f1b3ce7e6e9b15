import ScrabbleMagyar.Db.Records
import ScrabbleMagyar.Foundations.Runs

/-!
# What the calls write

What saving a game and recording its result make of the tables (`Db/Records.lean`), call by call.
A row of a game is put in place (`Puts`), the seats of the call are written one after another
(`Wrote`), and everything else stays.
-/

namespace ScrabbleMagyar

namespace Records

open Server (UserId RoomId GamePlayerData)

namespace Store

variable {db db' : Store}

/-! ## What a save writes of the seats -/

/-- The account that is stored for a seat. -/
def userOf (rows : List PlayerRow) (seat : ℕ × String) : Option UserId :=
  (rows.find? fun r => seatOf r = seat).bind PlayerRow.userId

theorem Seated.eq {rows : List PlayerRow} (h : Seated rows) {r r' : PlayerRow} (hr : r ∈ rows)
    (hr' : r' ∈ rows) (hseat : seatOf r = seatOf r') : r = r' :=
  List.inj_on_of_nodup_map h.names hr hr' hseat

theorem Seated.userOf_eq {rows : List PlayerRow} (h : Seated rows) {r : PlayerRow} (hr : r ∈ rows) :
    userOf rows (seatOf r) = r.userId := by
  unfold userOf
  cases hfind : rows.find? fun x => seatOf x = seatOf r with
  | none => exact absurd (List.find?_eq_none.mp hfind r hr) (by simp)
  | some x =>
    have hx : seatOf x = seatOf r := by simpa using List.find?_some hfind
    rw [h.eq (List.mem_of_find?_eq_some hfind) hr hx]
    rfl

/-- The seat of the player `name` of the game `gameId` has been written. -/
structure Wrote (rows : List PlayerRow) (gameId : ℕ) (pd : GamePlayerData) (rows' : List PlayerRow) :
    Prop where
  others : ∀ r, seatOf r ≠ (gameId, pd.playerName) → (r ∈ rows' ↔ r ∈ rows)
  elsewhere : (rows'.filter fun r => r.gameId ≠ gameId) = rows.filter fun r => r.gameId ≠ gameId
  seat : ∃ r ∈ rows', seatOf r = (gameId, pd.playerName) ∧ r.finalScore = pd.score ∧
    r.userId = pd.userId.or (userOf rows (gameId, pd.playerName))
  seated : Seated rows'

/-- The row of a seat that has one is rewritten. -/
theorem wrote_of_map {rows : List PlayerRow} (h : Seated rows) {gameId : ℕ} {pd : GamePlayerData}
    {row : PlayerRow} (hrow : row ∈ rows) (hseat : seatOf row = (gameId, pd.playerName))
    {f : PlayerRow → PlayerRow} (hid : ∀ r, (f r).id = r.id) (hkeep : ∀ r, seatOf (f r) = seatOf r)
    (hscore : ∀ r, (f r).finalScore = pd.score) (huser : ∀ r, (f r).userId = pd.userId.or r.userId) :
    Wrote rows gameId pd
      (rows.map fun r => if seatOf r = (gameId, pd.playerName) then f r else r) := by
  have hmap : ∀ {β : Type} {k : PlayerRow → β}, (∀ r, k (f r) = k r) →
      (rows.map fun r => if seatOf r = (gameId, pd.playerName) then f r else r).map k =
        rows.map k := by
    intro β k hk
    rw [List.map_map]
    refine List.map_congr_left fun r _ => ?_
    simp only [Function.comp_apply]
    split
    · exact hk r
    · rfl
  refine ⟨fun r hne => ?_, ?_, ⟨f row, ?_, ?_, hscore row, ?_⟩, ?_, ?_⟩
  · rw [List.mem_map]
    constructor
    · rintro ⟨x, hx, rfl⟩
      split at hne
      · rename_i heq
        exact absurd ((hkeep x).trans heq) hne
      · rename_i hx'
        rwa [if_neg hx']
    · exact fun hr => ⟨r, hr, if_neg hne⟩
  · rw [List.filter_map]
    have hsame : ∀ r ∈ rows.filter ((fun r : PlayerRow => decide (r.gameId ≠ gameId)) ∘
        fun r => if seatOf r = (gameId, pd.playerName) then f r else r),
        (if seatOf r = (gameId, pd.playerName) then f r else r) = r := by
      intro r hr
      refine if_neg fun heq => ?_
      have := (List.mem_filter.mp hr).2
      simp only [Function.comp_apply, heq, if_true, decide_eq_true_eq] at this
      exact this (congrArg Prod.fst ((hkeep r).trans heq))
    rw [List.map_congr_left hsame, List.map_id']
    refine List.filter_congr fun r _ => ?_
    simp only [Function.comp_apply]
    split
    · exact congrArg (fun s : ℕ × String => decide (s.1 ≠ gameId)) (hkeep r)
    · rfl
  · exact List.mem_map.mpr ⟨row, hrow, if_pos hseat⟩
  · exact (hkeep row).trans hseat
  · rw [huser, ← hseat, h.userOf_eq hrow]
  · exact (hmap hid).symm ▸ h.ids
  · exact (hmap hkeep).symm ▸ h.names

/-- A seat without a row gets one. -/
theorem wrote_of_append {rows : List PlayerRow} (h : Seated rows) {gameId : ℕ} {pd : GamePlayerData}
    (hnone : ∀ r ∈ rows, seatOf r ≠ (gameId, pd.playerName)) (isWinner : Bool) :
    Wrote rows gameId pd (rows ++ [newPlayer rows gameId pd isWinner]) := by
  have hnew : seatOf (newPlayer rows gameId pd isWinner) = (gameId, pd.playerName) := rfl
  have huser : userOf rows (gameId, pd.playerName) = none := by
    unfold userOf
    rw [List.find?_eq_none.mpr fun r hr => by simpa using hnone r hr]
    rfl
  refine ⟨fun r hne => ?_, ?_, ⟨_, by simp, hnew, rfl, ?_⟩, ?_, ?_⟩
  · rw [List.mem_append, List.mem_singleton]
    exact ⟨fun hr => hr.resolve_right fun heq => hne (heq ▸ hnew), .inl⟩
  · rw [List.filter_append, List.filter_cons_of_neg (by simp [newPlayer]), List.filter_nil,
      List.append_nil]
  · rw [huser, Option.or_none]
    rfl
  · rw [List.map_append, List.nodup_append]
    refine ⟨h.ids, by simp, fun i hi j hj => ?_⟩
    simp only [List.map_cons, List.map_nil, List.mem_singleton] at hj
    rintro rfl
    exact nextId_notMem _ (hj ▸ hi)
  · rw [List.map_append, List.nodup_append]
    refine ⟨h.names, by simp, fun i hi j hj => ?_⟩
    obtain ⟨r, hr, rfl⟩ := List.mem_map.mp hi
    simp only [List.map_cons, List.map_nil, List.mem_singleton] at hj
    exact hj ▸ hnone r hr

theorem upsertGamePlayer_wrote {rows : List PlayerRow} (h : Seated rows) (gameId : ℕ)
    (pd : GamePlayerData) : Wrote rows gameId pd (upsertGamePlayer gameId rows pd) := by
  have hseat : ∀ r : PlayerRow, (r.gameId = gameId ∧ r.playerName = pd.playerName) =
      (seatOf r = (gameId, pd.playerName)) := fun r => by simp [seatOf]
  unfold upsertGamePlayer
  simp only [hseat]
  split
  · rename_i hany
    obtain ⟨row, hrow, heq⟩ := List.any_eq_true.mp hany
    exact wrote_of_map h hrow (by simpa using heq)
      (f := fun r => { r with finalScore := pd.score, userId := pd.userId.or r.userId })
      (fun _ => rfl) (fun _ => rfl) (fun _ => rfl) fun _ => rfl
  · rename_i hany
    exact wrote_of_append h (by simpa using hany) false

theorem finishPlayer_wrote {rows : List PlayerRow} (h : Seated rows) (gameId : ℕ)
    (pd : GamePlayerData) : Wrote rows gameId pd (finishPlayer gameId rows pd) ∧
      ∀ r ∈ finishPlayer gameId rows pd, seatOf r = (gameId, pd.playerName) →
        r.isWinner = pd.isWinner := by
  have hseat : ∀ r : PlayerRow, (r.gameId = gameId ∧ r.playerName = pd.playerName) =
      (seatOf r = (gameId, pd.playerName)) := fun r => by simp [seatOf]
  unfold finishPlayer
  simp only [hseat]
  split
  · rename_i row hfind
    have hrow := List.mem_of_find?_eq_some hfind
    have heq : seatOf row = (gameId, pd.playerName) := by simpa using List.find?_some hfind
    -- the row found is the only one of its seat, so that its identifier and the seat select alike
    have hsame : (rows.map fun r => if r.id = row.id then
        { r with finalScore := pd.score, isWinner := pd.isWinner, userId := pd.userId.or r.userId }
        else r) = rows.map fun r => if seatOf r = (gameId, pd.playerName) then
        { r with finalScore := pd.score, isWinner := pd.isWinner, userId := pd.userId.or r.userId }
        else r := by
      refine List.map_congr_left fun r hr => if_congr ?_ rfl rfl
      constructor
      · exact fun hid => List.inj_on_of_nodup_map h.ids hr hrow hid ▸ heq
      · exact fun hr' => congrArg PlayerRow.id (h.eq hr hrow (hr'.trans heq.symm))
    rw [hsame]
    refine ⟨wrote_of_map h hrow heq (fun _ => rfl) (fun _ => rfl) (fun _ => rfl) fun _ => rfl, ?_⟩
    intro r hr hr'
    obtain ⟨x, -, rfl⟩ := List.mem_map.mp hr
    by_cases hx : seatOf x = (gameId, pd.playerName)
    · rw [if_pos hx]
    · rw [if_neg hx] at hr'
      exact absurd hr' hx
  · rename_i hfind
    have hnone : ∀ r ∈ rows, seatOf r ≠ (gameId, pd.playerName) := by
      intro r hr
      simpa using List.find?_eq_none.mp hfind r hr
    refine ⟨wrote_of_append h hnone pd.isWinner, fun r hr hr' => ?_⟩
    rcases List.mem_append.mp hr with hr | hr
    · exact absurd hr' (hnone r hr)
    · rw [List.mem_singleton.mp hr]
      rfl

/-! ## All seats of a call -/

theorem Wrote.seat_eq {rows rows' : List PlayerRow} {gameId : ℕ} {pd : GamePlayerData}
    (h : Wrote rows gameId pd rows') {r : PlayerRow} (hr : r ∈ rows')
    (hseat : seatOf r = (gameId, pd.playerName)) :
    r.finalScore = pd.score ∧ r.userId = pd.userId.or (userOf rows (gameId, pd.playerName)) := by
  obtain ⟨x, hx, hxseat, hscore, huser⟩ := h.seat
  rw [h.seated.eq hr hx (hseat.trans hxseat.symm)]
  exact ⟨hscore, huser⟩

/-- The account stored for a seat is read off the rows of the seat. -/
theorem userOf_congr {rows rows' : List PlayerRow} (h : Seated rows) (h' : Seated rows')
    {seat : ℕ × String} (hmem : ∀ r, seatOf r = seat → (r ∈ rows' ↔ r ∈ rows)) :
    userOf rows' seat = userOf rows seat := by
  by_cases hrow : ∃ r ∈ rows, seatOf r = seat
  · obtain ⟨r, hr, rfl⟩ := hrow
    rw [h.userOf_eq hr, h'.userOf_eq ((hmem r rfl).mpr hr)]
  · have hnone : ∀ l : List PlayerRow, (∀ r ∈ l, seatOf r ≠ seat) → userOf l seat = none := by
      intro l hl
      unfold userOf
      rw [List.find?_eq_none.mpr fun r hr => by simpa using hl r hr]
      rfl
    rw [hnone rows fun r hr heq => hrow ⟨r, hr, heq⟩,
      hnone rows' fun r hr heq => hrow ⟨r, (hmem r heq).mp hr, heq⟩]

/-- No other seat of the call has the name of the player. -/
def Alone (players : List GamePlayerData) (pd : GamePlayerData) : Prop :=
  (players.filter fun x => x.playerName = pd.playerName) = [pd]

theorem alone_of_nodup {players : List GamePlayerData}
    (h : (players.map GamePlayerData.playerName).Nodup) {pd : GamePlayerData} (hpd : pd ∈ players) :
    Alone players pd := by
  induction players with
  | nil => simp at hpd
  | cons x players ih =>
    rw [List.map_cons, List.nodup_cons] at h
    rcases List.mem_cons.mp hpd with rfl | hmem
    · rw [Alone, List.filter_cons_of_pos (by simp), List.filter_eq_nil_iff.mpr]
      exact fun y hy hname => h.1 (by simpa using ⟨y, hy, by simpa using hname⟩)
    · have hne : x.playerName ≠ pd.playerName := fun heq => h.1 (heq ▸ List.mem_map_of_mem hmem)
      rw [Alone, List.filter_cons_of_neg (by simpa using hne)]
      exact ih h.2 hmem

/-- A player who sits alone is the first seat or one of the others. -/
theorem alone_cons {players : List GamePlayerData} {x pd : GamePlayerData}
    (h : Alone (x :: players) pd) :
    (pd = x ∧ ∀ y ∈ players, y.playerName ≠ pd.playerName) ∨
      x.playerName ≠ pd.playerName ∧ Alone players pd := by
  unfold Alone at h
  by_cases hname : x.playerName = pd.playerName
  · rw [List.filter_cons_of_pos (by simpa using hname)] at h
    obtain ⟨rfl, hrest⟩ := List.cons.inj h
    exact .inl ⟨rfl, fun y hy heq => List.filter_eq_nil_iff.mp hrest y hy (by simpa using heq)⟩
  · rw [List.filter_cons_of_neg (by simpa using hname)] at h
    exact .inr ⟨hname, h⟩

/-- The seats of the players of a game have been written. -/
structure WroteAll (rows : List PlayerRow) (gameId : ℕ) (players : List GamePlayerData)
    (rows' : List PlayerRow) : Prop where
  others : ∀ r, (∀ pd ∈ players, seatOf r ≠ (gameId, pd.playerName)) → (r ∈ rows' ↔ r ∈ rows)
  elsewhere : (rows'.filter fun r => r.gameId ≠ gameId) = rows.filter fun r => r.gameId ≠ gameId
  seat : ∀ pd, Alone players pd → ∃ r ∈ rows', seatOf r = (gameId, pd.playerName) ∧
    r.finalScore = pd.score ∧ r.userId = pd.userId.or (userOf rows (gameId, pd.playerName))
  users : ∀ r ∈ rows', ∀ uid, r.userId = some uid →
    (∃ x ∈ rows, seatOf x = seatOf r ∧ x.userId = some uid) ∨
      ∃ pd ∈ players, seatOf r = (gameId, pd.playerName) ∧ pd.userId = some uid
  seated : Seated rows'

theorem Wrote.users {rows rows' : List PlayerRow} {gameId : ℕ} {pd : GamePlayerData}
    (h : Wrote rows gameId pd rows') {r : PlayerRow} (hr : r ∈ rows') {uid : UserId}
    (huser : r.userId = some uid) : (∃ x ∈ rows, seatOf x = seatOf r ∧ x.userId = some uid) ∨
      seatOf r = (gameId, pd.playerName) ∧ pd.userId = some uid := by
  by_cases hseat : seatOf r = (gameId, pd.playerName)
  · rw [(h.seat_eq hr hseat).2] at huser
    cases hpd : pd.userId with
    | some v =>
      rw [hpd] at huser
      exact .inr ⟨hseat, huser⟩
    | none =>
      rw [hpd, Option.none_or, userOf, Option.bind_eq_some_iff] at huser
      obtain ⟨x, hx, hxuser⟩ := huser
      have hxseat : seatOf x = (gameId, pd.playerName) := by simpa using List.find?_some hx
      exact .inl ⟨x, List.mem_of_find?_eq_some hx, hxseat.trans hseat.symm, hxuser⟩
  · exact .inl ⟨r, (h.others r hseat).mp hr, rfl, huser⟩

/-- Writing seat after seat. -/
theorem foldl_wroteAll {gameId : ℕ} {w : List PlayerRow → GamePlayerData → List PlayerRow}
    (hw : ∀ rows pd, Seated rows → Wrote rows gameId pd (w rows pd))
    (players : List GamePlayerData) {rows : List PlayerRow} (h : Seated rows) :
    WroteAll rows gameId players (players.foldl w rows) := by
  induction players generalizing rows with
  | nil =>
    exact ⟨fun _ _ => Iff.rfl, rfl, by simp [Alone], fun r hr uid hu => .inl ⟨r, hr, rfl, hu⟩, h⟩
  | cons pd players ih =>
    have hhead := hw rows pd h
    have htail := ih hhead.seated
    rw [List.foldl_cons]
    refine ⟨fun r hne => ?_, htail.elsewhere.trans hhead.elsewhere, fun pd' halone => ?_,
      fun r hr uid hu => ?_, htail.seated⟩
    · exact (htail.others r fun pd' hpd' => hne pd' (List.mem_cons_of_mem pd hpd')).trans
        (hhead.others r (hne pd List.mem_cons_self))
    · obtain ⟨rfl, hothers⟩ | ⟨hne, halone⟩ := alone_cons halone
      · obtain ⟨r, hr, hseat, hvalues⟩ := hhead.seat
        refine ⟨r, (htail.others r fun x hx heq => ?_).mpr hr, hseat, hvalues⟩
        exact hothers x hx (congrArg Prod.snd (heq.symm.trans hseat))
      · obtain ⟨r, hr, hseat, hscore, huser⟩ := htail.seat pd' halone
        refine ⟨r, hr, hseat, hscore, huser.trans ?_⟩
        rw [userOf_congr h hhead.seated fun x hx => hhead.others x fun heq => ?_]
        exact hne (congrArg Prod.snd (heq.symm.trans hx))
    · obtain ⟨x, hx, hxseat, hxuser⟩ | ⟨pd', hpd', hseat, hu⟩ := htail.users r hr uid hu
      · obtain ⟨y, hy, hyseat, hyuser⟩ | ⟨hseat, hu⟩ := hhead.users hx hxuser
        · exact .inl ⟨y, hy, hyseat.trans hxseat, hyuser⟩
        · exact .inr ⟨pd, List.mem_cons_self, hxseat.symm.trans hseat, hu⟩
      · exact .inr ⟨pd', List.mem_cons_of_mem pd hpd', hseat, hu⟩

theorem upsertGamePlayers_wroteAll {rows : List PlayerRow} (h : Seated rows) (gameId : ℕ)
    (players : List GamePlayerData) :
    WroteAll rows gameId players (upsertGamePlayers gameId rows players) :=
  foldl_wroteAll (fun _ pd hrows => upsertGamePlayer_wrote hrows gameId pd) players h

theorem finishPlayers_wroteAll {rows : List PlayerRow} (h : Seated rows) (gameId : ℕ)
    (players : List GamePlayerData) :
    WroteAll rows gameId players (players.foldl (finishPlayer gameId) rows) :=
  foldl_wroteAll (fun _ pd hrows => (finishPlayer_wrote hrows gameId pd).1) players h

/-- The winners are those of the call. -/
theorem finishPlayers_isWinner {rows : List PlayerRow} (h : Seated rows) {gameId : ℕ}
    {players : List GamePlayerData} {pd : GamePlayerData} (halone : Alone players pd)
    {r : PlayerRow} (hr : r ∈ players.foldl (finishPlayer gameId) rows)
    (hseat : seatOf r = (gameId, pd.playerName)) : r.isWinner = pd.isWinner := by
  induction players generalizing rows with
  | nil => simp [Alone] at halone
  | cons x players ih =>
    obtain ⟨hhead, hwinner⟩ := finishPlayer_wrote h gameId x
    obtain ⟨rfl, hothers⟩ | ⟨-, halone⟩ := alone_cons halone
    · refine hwinner r (((finishPlayers_wroteAll hhead.seated gameId players).others r
        fun y hy heq => ?_).mp hr) hseat
      exact hothers y hy (congrArg Prod.snd (heq.symm.trans hseat))
    · exact ih hhead.seated halone hr

/-! ## The calls as a whole -/

theorem saveGame_spec (h : WellFormed db) {now : ℕ} {roomId : RoomId} {stateJson : Json}
    {players : List GamePlayerData} {ownerName : String} {hasBots : Bool} {id : ℕ}
    (hcall : db.saveGame now roomId stateJson players ownerName hasBots = some (db', id)) :
    db.references players = true ∧
      Puts db ⟨id, roomId, stateJson, .active, ownerName, hasBots, now⟩ db' ∧
      db'.users = db.users ∧ db'.players = upsertGamePlayers id db.players players := by
  unfold saveGame at hcall
  cases href : db.references players with
  | false => simp [href] at hcall
  | true =>
    simp only [href, Bool.not_true, Bool.false_eq_true, if_false] at hcall
    split at hcall
    · rename_i row hrow
      obtain ⟨hmem, hroom, hactive⟩ := activeOf_mem hrow
      simp only [Option.some.injEq, Prod.mk.injEq] at hcall
      obtain ⟨rfl, rfl⟩ := hcall
      refine ⟨rfl, puts_of_map h hmem rfl hroom.symm hactive ?_ rfl rfl, rfl, rfl⟩
      refine List.map_congr_left fun x hx => ?_
      by_cases hid : x.id = row.id
      · have hxrow := h.game_eq hx hmem hid
        rw [if_pos ⟨hxrow ▸ hroom, hxrow ▸ hactive⟩, if_pos hid]
        simp [hid, hxrow ▸ hroom, hxrow ▸ hactive]
      · refine (if_neg fun hx' => hid ?_).trans (if_neg hid).symm
        exact congrArg GameRow.id (h.oneActive x hx row hmem (hx'.1.trans hroom.symm) hx'.2 hactive)
    · rename_i hnone
      simp only [Option.some.injEq, Prod.mk.injEq] at hcall
      obtain ⟨rfl, rfl⟩ := hcall
      exact ⟨rfl, puts_of_append h rfl hnone rfl rfl rfl, rfl, rfl⟩

/-- What keeps its value with every new rating keeps it when the ratings of a game are applied. -/
theorem applyRatings_eq {β : Type*} {f : Store → β}
    (hf : ∀ db gameId e after, f (rerate db gameId e after) = f db) (rule : RatingRule)
    (gameId : ℕ) (players : List GamePlayerData) :
    f (db.applyRatings rule gameId players) = f db := by
  have hfold : ∀ (entries : List Entry) (after : Entry → ℤ) (db : Store),
      f (entries.foldl (fun db e => db.rerate gameId e (after e)) db) = f db := by
    intro entries after
    induction entries with
    | nil => exact fun _ => rfl
    | cons e entries ih => exact fun db => (ih _).trans (hf db gameId e _)
  unfold applyRatings
  simp only
  split
  · rfl
  · exact hfold _ (fun e => e.rating + rule.changes _ e.uid) db

theorem closeGame_puts (h : WellFormed db) (now : ℕ) (roomId : RoomId) (stateJson : Json)
    (hasBots : Bool) :
    ∃ ownerName, Puts db
      ⟨(db.closeGame now roomId stateJson hasBots).2, roomId, stateJson, .finished, ownerName,
        hasBots, now⟩
      { db with games := (db.closeGame now roomId stateJson hasBots).1 } := by
  unfold closeGame
  split
  · rename_i hnone
    exact ⟨"", puts_of_append h rfl hnone rfl rfl rfl⟩
  · rename_i row hrow
    obtain ⟨hmem, hroom, hactive⟩ := activeOf_mem hrow
    refine ⟨row.ownerName, puts_of_map h hmem rfl hroom.symm hactive ?_ rfl rfl⟩
    refine List.map_congr_left fun x hx => ?_
    split
    · rename_i hid
      simp [h.game_eq hx hmem hid, hroom]
    · rfl

theorem Puts.congr {row : GameRow} {db₁ : Store} (h : Puts db row db₁)
    (hgames : db'.games = db₁.games) (hmoves : db'.moves = db₁.moves)
    (hadj : db'.adjustments = db₁.adjustments) : Puts db row db' :=
  ⟨h.target, hgames ▸ h.games, hgames ▸ h.ids, hmoves.trans h.moves, hadj.trans h.adjustments⟩

theorem finishGame_spec (h : WellFormed db) {rule : RatingRule} {now : ℕ} {roomId : RoomId}
    {stateJson : Json} {players : List GamePlayerData} {hasBots : Bool} {id : ℕ}
    (hcall : db.finishGame rule now roomId stateJson players hasBots = some (db', id)) :
    db.references players = true ∧
      (∃ ownerName, Puts db ⟨id, roomId, stateJson, .finished, ownerName, hasBots, now⟩ db') ∧
      ∃ games, db' = if hasBots then { db with games }.recordResults id players
        else ({ db with games }.recordResults id players).applyRatings rule id players := by
  unfold finishGame at hcall
  cases href : db.references players with
  | false => simp [href] at hcall
  | true =>
    simp only [href, Bool.not_true, Bool.false_eq_true, if_false, Option.some.injEq,
      Prod.mk.injEq] at hcall
    obtain ⟨rfl, rfl⟩ := hcall
    refine ⟨rfl, ?_, _, rfl⟩
    obtain ⟨ownerName, hput⟩ := closeGame_puts h now roomId stateJson hasBots
    refine ⟨ownerName, hput.congr ?_ ?_ ?_⟩ <;> split
    · rfl
    · exact applyRatings_eq (f := Store.games) (fun _ _ _ _ => rfl) rule _ players
    · rfl
    · exact applyRatings_eq (f := Store.moves) (fun _ _ _ _ => rfl) rule _ players
    · rfl
    · exact applyRatings_eq (f := Store.adjustments) (fun _ _ _ _ => rfl) rule _ players

/-! ## The rules of the tables hold on -/

/-- What the rules say of a row: its identifier, its seat and its account. -/
def identity (r : PlayerRow) : ℕ × (ℕ × String) × Option UserId := (r.id, seatOf r, r.userId)

theorem map_of_map_identity {rows rows' : List PlayerRow}
    (h : rows'.map identity = rows.map identity) {β : Type*}
    (f : ℕ × (ℕ × String) × Option UserId → β) :
    (rows'.map fun r => f (identity r)) = rows.map fun r => f (identity r) := by
  have := congrArg (List.map f) h
  rwa [List.map_map, List.map_map] at this

theorem Seated.congr {rows rows' : List PlayerRow} (h : Seated rows)
    (hmap : rows'.map identity = rows.map identity) : Seated rows' :=
  ⟨(map_of_map_identity hmap Prod.fst).symm ▸ h.ids,
    (map_of_map_identity hmap fun e => e.2.1).symm ▸ h.names⟩

theorem exists_identity {rows rows' : List PlayerRow} (hmap : rows'.map identity = rows.map identity)
    {r : PlayerRow} (hr : r ∈ rows') : ∃ x ∈ rows, identity x = identity r := by
  have := hmap ▸ List.mem_map_of_mem (f := identity) hr
  simpa using this

theorem mem_users_of_references {players : List GamePlayerData} (h : db.references players = true)
    {pd : GamePlayerData} (hpd : pd ∈ players) {uid : UserId} (huser : pd.userId = some uid) :
    uid ∈ db.users.map UserRow.id := by
  have hsome : (db.getUser uid).isSome = true := by
    have := List.all_eq_true.mp h pd hpd
    simpa [huser] using this
  obtain ⟨u, hu⟩ := Option.isSome_iff_exists.mp hsome
  have hid : u.id = uid := by simpa using List.find?_some hu
  exact hid ▸ List.mem_map_of_mem (List.mem_of_find?_eq_some hu)

/-- A row that is put in place with its seats keeps the rules. -/
theorem WellFormed.puts (h : WellFormed db) {row : GameRow} (hput : Puts db row db')
    {players : List GamePlayerData} {rows : List PlayerRow}
    (hwrote : WroteAll db.players row.id players rows)
    (hplayers : db'.players.map identity = rows.map identity)
    (husers : db'.users.map UserRow.id = db.users.map UserRow.id)
    (href : db.references players = true) : WellFormed db' := by
  have hexists : ∀ {gameId : ℕ}, (∃ g ∈ db.games, g.id = gameId) → ∃ g ∈ db'.games, g.id = gameId := by
    rintro _ ⟨g, hg, rfl⟩
    exact hput.exists_id hg
  have hpos : ∀ u ∈ db'.users, u.id ≠ 0 := by
    intro u hu hzero
    obtain ⟨x, hx, hid⟩ := List.mem_map.mp (husers ▸ List.mem_map_of_mem (f := UserRow.id) hu)
    exact h.userPos x hx (hid.trans hzero)
  refine ⟨husers ▸ h.userIds, hpos, hput.ids, hwrote.seated.congr hplayers,
    fun g hg g' hg' => hput.oneActive h hg hg', fun r hr => ?_, fun r hr uid hu => ?_,
    fun m hm => hexists (h.moves m (hput.moves ▸ hm)), hput.adjustments ▸ h.adjustmentIds,
    husers ▸ hput.adjustments ▸ h.adjusted⟩
  · obtain ⟨x, hx, hid⟩ := exists_identity hplayers hr
    have hgame : x.gameId = r.gameId := congrArg (fun e => e.2.1.1) hid
    by_cases heq : x.gameId = row.id
    · exact ⟨row, hput.mem, heq.symm.trans hgame⟩
    · have hmem : x ∈ db.players := by
        have : x ∈ rows.filter fun r => r.gameId ≠ row.id := List.mem_filter.mpr ⟨hx, by simpa⟩
        rw [hwrote.elsewhere] at this
        exact (List.mem_filter.mp this).1
      exact hgame ▸ hexists (h.seats x hmem)
  · obtain ⟨x, hx, hid⟩ := exists_identity hplayers hr
    have hxuser : x.userId = some uid := (congrArg (fun e => e.2.2) hid).trans hu
    rw [husers]
    obtain ⟨y, hy, -, hyuser⟩ | ⟨pd, hpd, -, hpduser⟩ := hwrote.users x hx uid hxuser
    · exact h.accounts y hy uid hyuser
    · exact mem_users_of_references href hpd hpduser

theorem WellFormed.saveGame (h : WellFormed db) {now : ℕ} {roomId : RoomId} {stateJson : Json}
    {players : List GamePlayerData} {ownerName : String} {hasBots : Bool} {id : ℕ}
    (hcall : db.saveGame now roomId stateJson players ownerName hasBots = some (db', id)) :
    WellFormed db' := by
  obtain ⟨href, hput, husers, hplayers⟩ := saveGame_spec h hcall
  exact h.puts hput (upsertGamePlayers_wroteAll h.seated _ players) (by rw [hplayers])
    (by rw [husers]) href

theorem countResult_ids (users : List UserRow) (pd : GamePlayerData) :
    (countResult users pd).map UserRow.id = users.map UserRow.id := by
  unfold countResult
  split
  · rfl
  · rw [List.map_map]
    refine List.map_congr_left fun u _ => ?_
    simp only [Function.comp_apply]
    split <;> rfl

theorem countResults_ids (players : List GamePlayerData) (users : List UserRow) :
    (players.foldl countResult users).map UserRow.id = users.map UserRow.id := by
  induction players generalizing users with
  | nil => rfl
  | cons pd players ih => exact (ih _).trans (countResult_ids users pd)

theorem rerate_users_ids (gameId : ℕ) (e : Entry) (after : ℤ) :
    (db.rerate gameId e after).users.map UserRow.id = db.users.map UserRow.id := by
  simp only [rerate, List.map_map]
  refine List.map_congr_left fun u _ => ?_
  simp only [Function.comp_apply]
  split <;> rfl

theorem rerate_identity (gameId : ℕ) (e : Entry) (after : ℤ) :
    (db.rerate gameId e after).players.map identity = db.players.map identity := by
  simp only [rerate, List.map_map]
  refine List.map_congr_left fun r _ => ?_
  simp only [Function.comp_apply]
  split <;> rfl

theorem WellFormed.finishGame (h : WellFormed db) {rule : RatingRule} {now : ℕ} {roomId : RoomId}
    {stateJson : Json} {players : List GamePlayerData} {hasBots : Bool} {id : ℕ}
    (hcall : db.finishGame rule now roomId stateJson players hasBots = some (db', id)) :
    WellFormed db' := by
  obtain ⟨href, ⟨ownerName, hput⟩, games, hdb⟩ := finishGame_spec h hcall
  refine h.puts hput (finishPlayers_wroteAll h.seated _ players) ?_ ?_ href <;> rw [hdb] <;> split
  · rfl
  · exact applyRatings_eq (f := fun db => db.players.map identity)
      (fun _ gameId e after => rerate_identity gameId e after) rule id players
  · exact countResults_ids players db.users
  · exact (applyRatings_eq (f := fun db => db.users.map UserRow.id)
      (fun _ gameId e after => rerate_users_ids gameId e after) rule id players).trans
      (countResults_ids players db.users)

theorem addGameMoves_spec {gameId : ℕ} {moves : List MoveLog}
    (hcall : db.addGameMoves gameId moves = some db') :
    db' = db.appendMoves gameId moves ∧ (moves ≠ [] → ∃ g ∈ db.games, g.id = gameId) := by
  unfold addGameMoves at hcall
  split at hcall
  · rename_i hguard
    refine ⟨(Option.some.inj hcall).symm, fun hne => ?_⟩
    simpa [hne] using hguard
  · simp at hcall

theorem getGameMoves_appendMoves (gameId id : ℕ) (moves : List MoveLog) :
    (db.appendMoves gameId moves).getGameMoves id =
      db.getGameMoves id ++ if gameId = id then moves else [] := by
  simp only [getGameMoves, appendMoves, List.filter_append, List.map_append]
  congr 1
  by_cases hid : gameId = id
  · simp [hid, List.filter_map, Function.comp_def]
  · simp [hid, List.filter_map, Function.comp_def]

theorem WellFormed.addGameMoves (h : WellFormed db) {gameId : ℕ} {moves : List MoveLog}
    (hcall : db.addGameMoves gameId moves = some db') : WellFormed db' := by
  obtain ⟨rfl, hgame⟩ := addGameMoves_spec hcall
  refine { h with moves := fun m hm => ?_ }
  rcases List.mem_append.mp hm with hm | hm
  · exact h.moves m hm
  · obtain ⟨x, hx, rfl⟩ := List.mem_map.mp hm
    exact hgame (List.ne_nil_of_mem hx)

theorem WellFormed.createUser (h : WellFormed db) (displayName : String) :
    WellFormed (db.createUser displayName) := by
  refine { h with
    userIds := ?_
    userPos := fun u hu => ?_
    accounts := fun r hr uid huser => ?_
    adjusted := fun a ha => ?_ }
  · simp only [Store.createUser, List.map_append, List.map_cons, List.map_nil]
    rw [List.nodup_append]
    refine ⟨h.userIds, by simp, fun i hi j hj => ?_⟩
    rw [List.mem_singleton] at hj
    rintro rfl
    exact nextId_notMem _ (hj ▸ hi)
  · rcases List.mem_append.mp hu with hu | hu
    · exact h.userPos u hu
    · rw [List.mem_singleton.mp hu]
      exact Nat.succ_ne_zero _
  · simp only [Store.createUser, List.map_append]
    exact List.mem_append_left _ (h.accounts r hr uid huser)
  · simp only [Store.createUser, List.map_append]
    exact List.mem_append_left _ (h.adjusted a ha)

/-- What setting a rating does. -/
theorem setRating_spec {now : ℕ} {uid : UserId} {rating : ℤ} {manageable : Bool}
    (hcall : db.setRating now uid rating manageable = some db') :
    ∃ user, db.getUser uid = some user ∧ user.rating ≠ rating ∧ db' = { db with
      users := db.users.map fun u => if u.id = uid then { u with rating } else u
      adjustments := db.adjustments ++
        [{ id := nextId (db.adjustments.map AdjustmentRow.id), userId := uid,
           ratingBefore := user.rating, ratingAfter := rating, createdAt := now }] } := by
  unfold Store.setRating at hcall
  cases huser : db.getUser uid with
  | none => simp [huser] at hcall
  | some user =>
    simp only [huser] at hcall
    split_ifs at hcall with hrange hmanage hsame
    exact ⟨user, rfl, hsame, (Option.some.inj hcall).symm⟩

theorem WellFormed.setRating (h : WellFormed db) {now : ℕ} {uid : UserId} {rating : ℤ}
    {manageable : Bool} (hcall : db.setRating now uid rating manageable = some db') :
    WellFormed db' := by
  obtain ⟨user, huser, -, rfl⟩ := setRating_spec hcall
  have hids : (db.users.map fun u => if u.id = uid then { u with rating } else u).map UserRow.id =
      db.users.map UserRow.id := by
    rw [List.map_map]
    refine List.map_congr_left fun u _ => ?_
    simp only [Function.comp_apply]
    split <;> rfl
  refine { h with
    userIds := hids ▸ h.userIds
    userPos := fun u hu => ?_
    accounts := fun r hr v hv => hids ▸ h.accounts r hr v hv
    adjustmentIds := ?_
    adjusted := fun a ha => ?_ }
  · obtain ⟨x, hx, hid⟩ := List.mem_map.mp (hids ▸ List.mem_map_of_mem (f := UserRow.id) hu)
    exact hid ▸ h.userPos x hx
  · rw [List.map_append, List.nodup_append]
    refine ⟨h.adjustmentIds, by simp, fun i hi j hj => ?_⟩
    simp only [List.map_cons, List.map_nil, List.mem_singleton] at hj
    rintro rfl
    exact nextId_notMem _ (hj ▸ hi)
  · rcases List.mem_append.mp ha with ha | ha
    · exact hids ▸ h.adjusted a ha
    · have hid : user.id = uid := by simpa using List.find?_some huser
      rw [List.mem_singleton.mp ha, hids, ← hid]
      exact List.mem_map_of_mem (List.mem_of_find?_eq_some huser)

/-- The tables after a result without any seats. -/
theorem finishGame_nil {rule : RatingRule} {now : ℕ} {roomId : RoomId} {stateJson : Json}
    {hasBots : Bool} {id : ℕ} (h : WellFormed db)
    (hcall : db.finishGame rule now roomId stateJson [] hasBots = some (db', id)) :
    db'.players = db.players ∧ db'.users = db.users := by
  obtain ⟨-, -, games, rfl⟩ := finishGame_spec h hcall
  cases hasBots <;> exact ⟨rfl, rfl⟩

/-- What the closing of finished saves keeps: a property that every closing of a row keeps. -/
theorem cleanup_induct {P : Store → Prop} {rule : RatingRule} {now : ℕ} (h : WellFormed db)
    (h₀ : P db)
    (hstep : ∀ cur cur' g id, WellFormed cur → P cur → cur.players = db.players →
      (∀ x ∈ cur.games, x.status = .active → x ∈ db.games) → g ∈ db.games → g.status = .active →
      g.isOver = true → cur.finishGame rule now g.roomId g.stateJson [] false = some (cur', id) →
      P cur') :
    WellFormed (db.cleanupFinishedSaves rule now) ∧ P (db.cleanupFinishedSaves rule now) := by
  have hfold : ∀ (rows : List GameRow) (cur : Store),
      (∀ g ∈ rows, g ∈ db.games ∧ g.status = .active) → WellFormed cur → P cur →
      cur.players = db.players → (∀ x ∈ cur.games, x.status = .active → x ∈ db.games) →
      WellFormed (rows.foldl (closeFinished rule now) cur) ∧
        P (rows.foldl (closeFinished rule now) cur) := by
    intro rows
    induction rows with
    | nil => exact fun cur _ hcur hp _ _ => ⟨hcur, hp⟩
    | cons g rows ih =>
      intro cur hrows hcur hp hplayers hactive
      obtain ⟨hg, hstatus⟩ := hrows g List.mem_cons_self
      have hrest : ∀ x ∈ rows, x ∈ db.games ∧ x.status = .active :=
        fun x hx => hrows x (List.mem_cons_of_mem g hx)
      rw [List.foldl_cons, closeFinished]
      cases hover : g.isOver with
      | false => exact ih cur hrest hcur hp hplayers hactive
      | true =>
        cases hcall : cur.finishGame rule now g.roomId g.stateJson [] false with
        | none => exact ih cur hrest hcur hp hplayers hactive
        | some e =>
          obtain ⟨cur', id⟩ := e
          obtain ⟨-, ⟨ownerName, hput⟩, -⟩ := finishGame_spec hcur hcall
          refine ih cur' hrest (hcur.finishGame hcall)
            (hstep cur cur' g id hcur hp hplayers hactive hg hstatus hover hcall)
            ((finishGame_nil hcur hcall).1.trans hplayers) fun x hx hxstatus => ?_
          rcases (hput.games x).mp hx with rfl | ⟨hx, -⟩
          · simp at hxstatus
          · exact hactive x hx hxstatus
  refine hfold db.loadActiveGames db (fun g hg => ?_) h h₀ rfl fun x hx _ => hx
  have hg := ((List.perm_insertionSort _ _).mem_iff).mp hg
  exact ⟨(List.mem_filter.mp hg).1, by simpa using (List.mem_filter.mp hg).2⟩

theorem WellFormed.step {rule : RatingRule} (h : WellFormed db) (e : Event) :
    WellFormed (Records.step rule db e) := by
  cases e with
  | createUser displayName => exact h.createUser displayName
  | saveGame now roomId stateJson players ownerName hasBots =>
    simp only [Records.step]
    cases hcall : db.saveGame now roomId stateJson players ownerName hasBots with
    | none => exact h
    | some e => exact h.saveGame hcall
  | finishGame now roomId stateJson players hasBots =>
    simp only [Records.step]
    cases hcall : db.finishGame rule now roomId stateJson players hasBots with
    | none => exact h
    | some e => exact h.finishGame hcall
  | setRating now uid rating manageable =>
    simp only [Records.step]
    cases hcall : db.setRating now uid rating manageable with
    | none => exact h
    | some e => exact h.setRating hcall
  | cleanupFinishedSaves now =>
    exact (cleanup_induct h (P := fun _ => True) trivial fun _ _ _ _ _ _ _ _ _ _ _ _ => trivial).1

/-- The rules of the tables hold after every history. -/
theorem wellFormed_run (rule : RatingRule) (l : List Event) :
    WellFormed (Runs.run (Records.step rule) Store.empty l) :=
  Runs.run_invariant (Records.step rule) (Q := fun _ _ => True) (fun _ e h _ => h.step e)
    wellFormed_empty (Runs.along_of_forall (Records.step rule) (fun _ _ _ => trivial) Store.empty)

end Store

end Records

end ScrabbleMagyar
