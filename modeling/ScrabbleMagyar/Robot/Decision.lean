import ScrabbleMagyar.Engine.Lineage
import ScrabbleMagyar.Engine.Supply
import ScrabbleMagyar.Foundations.Rounding
import ScrabbleMagyar.Robot.Budget
import ScrabbleMagyar.Words.ShortWords
import Mathlib.Data.Rat.Floor

/-!
# The decision of a robot

How a robot rates the moves it has found, orders them by its level and decides
(`choose_action` in `robot/ai.rs`). The generator of random numbers is a stream of draws, of which
a computation takes the next ones; the functions that turn draws into normal and lognormal numbers
are parameters, and so is the arithmetic behind them: no result depends on a drawn value. Ratings,
which the source keeps as `f64`, are exact rationals here.

* `chooseAction_sound`: what is decided, for every level, source of draws and clock.
* `master_best`: with time enough, the highest level lays the best rated of all placements.
-/

namespace ScrabbleMagyar

namespace Tile

def isVowel (t : Tile) : Bool := t.asStr.head?.any fun c => vowels.contains c

end Tile

namespace Robot

/-! ## The source of draws -/

/-- A generator of random numbers, with the functions of the mathematical library. -/
structure Source where
  draw : ℕ → ℚ
  /-- `√(−2 ln u₁) · cos (2π u₂)` -/
  boxMuller : ℚ → ℚ → ℚ
  exp : ℚ → ℚ

/-- A computation that draws; the state counts the draws. -/
abbrev Drawing := StateM ℕ

namespace Source

/-- The next draw, from `[0, 1)`. -/
def random (rng : Source) : Drawing ℚ := fun n => (rng.draw n, n + 1)

/-- The next normal number. -/
def gauss (rng : Source) (mu sigma : ℚ) : Drawing ℚ := do
  let u₁ := 1 - (← rng.random)
  let u₂ ← rng.random
  return mu + sigma * rng.boxMuller u₁ u₂

end Source

/-! ## The ratings -/

/-- The worth of the tiles that are left in the hand. -/
def leaveValue (leave : List Tile) : ℚ :=
  if leave.isEmpty then 0
  else
    let kinds := leave.dedup.filter fun t => !t.isBlank
    let several := kinds.filter fun t => 1 < leave.count t
    let dear := kinds.filter fun t => 7 ≤ t.value
    let vowels : ℕ := ((kinds.filter Tile.isVowel).map fun t => leave.count t).sum
    let consonants : ℕ := ((kinds.filter fun t => !t.isVowel).map fun t => leave.count t).sum
    let ideal : ℤ := roundTiesEven ((42 / 100 : ℚ) * (vowels + consonants : ℕ))
    12 * (leave.count Tile.blank : ℚ)
      - (several.map fun t => 5 / 2 * ((leave.count t : ℚ) - 1)).sum
      - (dear.map fun t => (leave.count t : ℚ)).sum
      - 3 / 2 * |(vowels : ℚ) - ideal|

/-- The tiles left in the hand after a move. -/
def remainingAfter (rack : List Tile) (m : Move) : List Tile :=
  m.tiles.foldl (fun left p => left.erase p.handTile) rack

/-- A move with its rating. -/
structure Rated where
  move : Move
  equity : ℚ

/-- The rating of a move: its score and the worth of what is left, and at the end of the game the
value of what is left against it. -/
def equity (rack : List Tile) (bagRemaining : ℕ) (m : Move) : ℚ :=
  let leave := remainingAfter rack m
  if bagRemaining = 0 then m.score - (leave.map fun t => (t.value : ℚ)).sum * (8 / 10)
  else m.score + leaveValue leave

/-- Rate the moves. -/
def rate (moves : List Rated) (rack : List Tile) (bagRemaining : ℕ) : List Rated :=
  moves.map fun m => { m with equity := equity rack bagRemaining m.move }

/-! ## The levels -/

/-- The strength of a level: the mean of the score it aims at, or the noise on its ratings, and how
often it finds no move. -/
structure Profile where
  mu : Option ℚ
  sigma : Option ℚ
  passP : ℚ

def profile : ℕ → Profile
  | 1 => ⟨some 2, none, 15 / 100⟩
  | 2 => ⟨some 5, none, 0⟩
  | 3 => ⟨some 8, none, 0⟩
  | 4 => ⟨some 12, none, 0⟩
  | 5 => ⟨some 16, none, 0⟩
  | 6 => ⟨some 20, none, 0⟩
  | 7 => ⟨some 26, none, 0⟩
  | 8 => ⟨none, some 8, 0⟩
  | 9 => ⟨none, some 4, 0⟩
  | _ => ⟨none, some 0, 0⟩

def usesEquity (level : ℕ) : Bool := (profile level).sigma.isSome

def targetCv : ℚ := 1 / 2

/-- The lexicographic order of the keys. -/
def keyLe {α : Type*} (a b : ℚ × ℚ × α) : Prop := a.1 < b.1 ∨ a.1 = b.1 ∧ a.2.1 ≤ b.2.1

instance decidableKeyLe {α : Type*} : DecidableRel (keyLe (α := α)) := fun a b =>
  inferInstanceAs (Decidable (a.1 < b.1 ∨ a.1 = b.1 ∧ a.2.1 ≤ b.2.1))

/-- The moves with their keys: the distance from the score aimed at, or the rating, with noise or
with a draw for equal ones. -/
def keyed (rng : Source) (moves : List Rated) (level : ℕ) : Drawing (List (ℚ × ℚ × Rated)) :=
  let p := profile level
  match p.mu with
  | some mu => do
    let target := mu * rng.exp (← rng.gauss (-targetCv * targetCv / 2) targetCv)
    moves.mapM fun m => do return (|(m.move.score : ℚ) - target|, ← rng.random, m)
  | none =>
    let sigma := p.sigma.getD 0
    if sigma ≠ 0 then moves.mapM fun m => do return (-(m.equity + (← rng.gauss 0 sigma)), 0, m)
    else moves.mapM fun m => do return (-m.equity, ← rng.random, m)

/-- The moves in the order of preference of a level. -/
def orderedCandidates (rng : Source) (moves : List Rated) (level : ℕ) : Drawing (List Rated) := do
  return ((← keyed rng moves level).insertionSort keyLe).map fun e => e.2.2

/-! ## The exchange -/

/-- How much a robot likes to keep a tile. -/
def keepWorth (tile : Tile) : ℤ :=
  if tile.isBlank then 100
  else
    let base : ℤ := if tile.value ≤ 1 then 6 else if tile.value ≤ 3 then 3 else 0
    base + if tile.isVowel then 2 else 0

/-- Keep a seat of the hand if fewer than three are kept and its tile is not among them. -/
def keepOne (rack : List Tile) (s : List ℕ × List Tile) (i : ℕ) : List ℕ × List Tile :=
  let tile := rack.getD i Tile.blank
  if 3 ≤ s.1.length || s.2.contains tile then s else (s.1 ++ [i], tile :: s.2)

/-- The seats of the hand to exchange. -/
def chooseExchange (rng : Source) (rack : List Tile) : Drawing (List ℕ) := do
  let order : List (ℚ × ℚ × ℕ) ← (List.range rack.length).mapM fun i => do
    return (-(keepWorth (rack.getD i Tile.blank) : ℚ), ← rng.random, i)
  let keep := (((order.insertionSort keyLe).map fun e => e.2.2).foldl (keepOne rack) ([], [])).1
  let exchange := (List.range rack.length).filter fun i => !keep.contains i
  return if exchange.isEmpty then [0] else exchange

/-! ## The decision -/

/-- What a robot does that has no move. -/
def withoutMove (rng : Source) (rack : List Tile) (bagRemaining : ℕ) : Drawing Action :=
  if handSize ≤ bagRemaining then do return .exchange (← chooseExchange rng rack) else pure .pass

/-- The moves found in time that are not to be avoided. -/
def openMoves (clock : ℕ → Bool) (lex : Lexicon) (vocab : Vocabulary) (board : Board)
    (rack : List Tile) (avoid : Option (Finset (List Placed))) : List Move :=
  let moves := generateMovesIn clock lex vocab board rack true handSize
  match avoid with
  | none => moves
  | some avoid => moves.filter fun m => placementKey m.tiles ∉ avoid

/-- Whether a robot finds no move this time; a level that always finds one draws nothing. -/
def findsNone (rng : Source) (passP : ℚ) : Drawing Bool :=
  if 0 < passP then do return decide ((← rng.random) < passP) else pure false

/-- The first valid move in the order of preference, if there is one. -/
def placeFirst (rng : Source) (lex : Lexicon) (rack : List Tile) (level bagRemaining : ℕ)
    (moves : List Move) : Drawing Action := do
  let moves := moves.map fun m => (⟨m, m.score⟩ : Rated)
  let moves := if usesEquity level then rate moves rack bagRemaining else moves
  let candidates ← orderedCandidates rng moves level
  match firstValid lex (candidates.map Rated.move) 1 with
  | m :: _ => return .place m.tiles m.words m.score
  | [] => withoutMove rng rack bagRemaining

/-- What a robot of a level does. -/
def chooseAction (rng : Source) (clock : ℕ → Bool) (lex : Lexicon) (vocab : Vocabulary)
    (board : Board) (rack : List Tile) (level bagRemaining : ℕ)
    (avoid : Option (Finset (List Placed))) : Drawing Action := do
  let level := max minLevel (min maxLevel level)
  if ← findsNone rng (profile level).passP then withoutMove rng rack bagRemaining
  else
    placeFirst rng lex rack level bagRemaining (openMoves clock lex vocab board rack avoid)

/-! ## What is decided -/

/-- A computation for each member of a list, whose results can be told from the members. -/
theorem map_mapM {α β γ σ : Type} {f : α → StateM σ β} {g : β → γ} {h : α → γ}
    (hf : ∀ a s, g (f a s).1 = h a) (l : List α) (s : σ) : (l.mapM f s).1.map g = l.map h := by
  induction l generalizing s with
  | nil => rfl
  | cons a l ih =>
    have hcons : (((a :: l).mapM f) s).1 = (f a s).1 :: (l.mapM f (f a s).2).1 := by
      rw [List.mapM_cons]
      rfl
    rw [hcons, List.map_cons, List.map_cons, hf, ih]

theorem map_keyed (rng : Source) (moves : List Rated) (level n : ℕ) :
    (keyed rng moves level n).1.map (fun e => e.2.2) = moves := by
  have hkept {f : Rated → Drawing (ℚ × ℚ × Rated)} (hf : ∀ m k, (f m k).1.2.2 = m) (k : ℕ) :
      (moves.mapM f k).1.map (fun e => e.2.2) = moves :=
    (map_mapM (g := fun e : ℚ × ℚ × Rated => e.2.2) (h := fun m => m) hf moves k).trans (List.map_id _)
  unfold keyed
  cases (profile level).mu with
  | some mu => exact hkept (fun _ _ => rfl) _
  | none =>
    dsimp only
    split
    · exact hkept (fun _ _ => rfl) _
    · exact hkept (fun _ _ => rfl) _

/-- Every move stays a candidate. -/
theorem orderedCandidates_perm (rng : Source) (moves : List Rated) (level n : ℕ) :
    (orderedCandidates rng moves level n).1.Perm moves := by
  have hsorted := (List.perm_insertionSort keyLe (keyed rng moves level n).1).map fun e => e.2.2
  rw [map_keyed] at hsorted
  exact hsorted

/-- What is exchanged are seats of the hand. -/
theorem mem_chooseExchange (rng : Source) {rack : List Tile} (hrack : rack ≠ []) (n : ℕ) :
    (chooseExchange rng rack n).1 ≠ [] ∧ (chooseExchange rng rack n).1.Nodup ∧
      ∀ i ∈ (chooseExchange rng rack n).1, i < rack.length := by
  have hexchange (keep : List ℕ) :
      let exchange := (List.range rack.length).filter fun i => !keep.contains i
      let chosen := if exchange.isEmpty then [0] else exchange
      chosen ≠ [] ∧ chosen.Nodup ∧ ∀ i ∈ chosen, i < rack.length := by
    dsimp only
    split
    · refine ⟨by simp, List.nodup_singleton 0, fun i hi => ?_⟩
      rw [List.mem_singleton.mp hi]
      exact List.length_pos_iff.mpr hrack
    · rename_i hsome
      refine ⟨by simpa using hsome, List.nodup_range.filter _, fun i hi => ?_⟩
      exact List.mem_range.mp (List.mem_filter.mp hi).1
  exact hexchange _

/-- What a robot may decide on, of the moves that it considers. -/
inductive Sound (lex : Lexicon) (rack : List Tile) (bagRemaining : ℕ) (moves : List Move) :
    Action → Prop
  | place (m : Move) (found : m ∈ moves) (valid : m.valid lex = true) :
      Sound lex rack bagRemaining moves (.place m.tiles m.words m.score)
  | exchange (indices : List ℕ) (enough : handSize ≤ bagRemaining)
      (seats : rack ≠ [] → indices ≠ [] ∧ indices.Nodup ∧ ∀ i ∈ indices, i < rack.length) :
      Sound lex rack bagRemaining moves (.exchange indices)
  | pass (few : bagRemaining < handSize) : Sound lex rack bagRemaining moves .pass

section

variable {rng : Source} {clock : ℕ → Bool} {lex : Lexicon} {vocab : Vocabulary} {board : Board}
  {rack : List Tile} {level bagRemaining n : ℕ} {avoid : Option (Finset (List Placed))}
  {moves : List Move}

theorem withoutMove_sound :
    Sound lex rack bagRemaining moves (withoutMove rng rack bagRemaining n).1 := by
  unfold withoutMove
  split
  · rename_i henough
    exact .exchange _ henough fun hrack => mem_chooseExchange rng hrack n
  · rename_i hfew
    exact .pass (not_le.mp hfew)

/-- The moves with their ratings, if the level uses them. -/
def ratedMoves (rack : List Tile) (level bagRemaining : ℕ) (moves : List Move) : List Rated :=
  let moves := moves.map fun m => (⟨m, m.score⟩ : Rated)
  if usesEquity level then rate moves rack bagRemaining else moves

theorem map_ratedMoves (rack : List Tile) (level bagRemaining : ℕ) (moves : List Move) :
    (ratedMoves rack level bagRemaining moves).map Rated.move = moves := by
  unfold ratedMoves
  dsimp only
  split <;> simp [rate, Function.comp_def]

/-- The candidates of a level, in order. -/
def candidates (rng : Source) (rack : List Tile) (level bagRemaining : ℕ) (moves : List Move)
    (n : ℕ) : List Move :=
  (orderedCandidates rng (ratedMoves rack level bagRemaining moves) level n).1.map Rated.move

theorem candidates_perm (rng : Source) (rack : List Tile) (level bagRemaining : ℕ)
    (moves : List Move) (n : ℕ) : (candidates rng rack level bagRemaining moves n).Perm moves := by
  have hperm := (orderedCandidates_perm rng (ratedMoves rack level bagRemaining moves) level n).map
    Rated.move
  rwa [map_ratedMoves] at hperm

/-- The action is the first valid candidate, or there is none. -/
theorem placeFirst_cases (rng : Source) (lex : Lexicon) (rack : List Tile) (level bagRemaining : ℕ)
    (moves : List Move) (n : ℕ) :
    (∃ m, ((candidates rng rack level bagRemaining moves n).filter (Move.valid lex)).head? = some m ∧
        (placeFirst rng lex rack level bagRemaining moves n).1 = .place m.tiles m.words m.score) ∨
      (candidates rng rack level bagRemaining moves n).filter (Move.valid lex) = [] ∧
        ∃ k, (placeFirst rng lex rack level bagRemaining moves n).1 =
          (withoutMove rng rack bagRemaining k).1 := by
  have hrun : placeFirst rng lex rack level bagRemaining moves n =
      (match firstValid lex (candidates rng rack level bagRemaining moves n) 1 with
        | m :: _ => return .place m.tiles m.words m.score
        | [] => withoutMove rng rack bagRemaining : Drawing Action)
        (orderedCandidates rng (ratedMoves rack level bagRemaining moves) level n).2 := rfl
  rw [hrun, firstValid_eq]
  cases (candidates rng rack level bagRemaining moves n).filter (Move.valid lex) with
  | nil => exact .inr ⟨rfl, _, rfl⟩
  | cons m rest => exact .inl ⟨m, rfl, rfl⟩

theorem placeFirst_sound :
    Sound lex rack bagRemaining moves (placeFirst rng lex rack level bagRemaining moves n).1 := by
  obtain ⟨m, hhead, hplace⟩ | ⟨-, k, hnone⟩ :=
    placeFirst_cases rng lex rack level bagRemaining moves n
  · obtain ⟨hmem, hvalid⟩ := List.mem_filter.mp (List.mem_of_mem_head? hhead)
    have hfound := (candidates_perm rng rack level bagRemaining moves n).mem_iff.mp hmem
    exact hplace ▸ .place m hfound hvalid
  · exact hnone ▸ withoutMove_sound

/-- **What is decided**, for every level, source of draws and clock. -/
theorem chooseAction_sound :
    Sound lex rack bagRemaining (openMoves clock lex vocab board rack avoid)
      (chooseAction rng clock lex vocab board rack level bagRemaining avoid n).1 := by
  let level' := max minLevel (min maxLevel level)
  let stuck := findsNone rng (profile level').passP n
  change Sound lex rack bagRemaining (openMoves clock lex vocab board rack avoid)
    ((if stuck.1 then withoutMove rng rack bagRemaining
      else placeFirst rng lex rack level' bagRemaining (openMoves clock lex vocab board rack avoid))
      stuck.2).1
  split
  · exact withoutMove_sound
  · exact placeFirst_sound

end

/-! ## The highest level -/

theorem keyLe_total {α : Type*} : Std.Total (keyLe (α := α)) := ⟨fun a b => by
  unfold keyLe
  rcases lt_trichotomy a.1 b.1 with h | h | h
  · exact .inl (.inl h)
  · exact (le_total a.2.1 b.2.1).imp (fun hle => .inr ⟨h, hle⟩) fun hle => .inr ⟨h.symm, hle⟩
  · exact .inr (.inl h)⟩

theorem keyLe_trans {α : Type*} : IsTrans (ℚ × ℚ × α) keyLe := ⟨fun a b c h h' => by
  rcases h with h | ⟨h, hle⟩ <;> rcases h' with h' | ⟨h', hle'⟩
  · exact .inl (h.trans h')
  · exact .inl (h' ▸ h)
  · exact .inl (h ▸ h')
  · exact .inr ⟨h.trans h', hle.trans hle'⟩⟩

/-- The rating is about the tiles and the score. -/
theorem equity_congr {rack : List Tile} {bagRemaining : ℕ} {m m' : Move}
    (htiles : m.tiles.Perm m'.tiles) (hscore : m.score = m'.score) :
    equity rack bagRemaining m = equity rack bagRemaining m' := by
  have hdiff (m : Move) : remainingAfter rack m = rack.diff (m.tiles.map Placed.handTile) := by
    rw [List.diff_eq_foldl, List.foldl_map]
    rfl
  have hleave : remainingAfter rack m = remainingAfter rack m' := by
    rw [hdiff, hdiff, List.Perm.diff_left rack (htiles.map _)]
  unfold equity
  rw [hleave, hscore]

/-- The candidates of the highest level come with falling ratings. -/
theorem pairwise_candidates (rng : Source) (rack : List Tile) (bagRemaining : ℕ)
    (moves : List Move) (n : ℕ) :
    (candidates rng rack maxLevel bagRemaining moves n).Pairwise fun m m' =>
      equity rack bagRemaining m' ≤ equity rack bagRemaining m := by
  have htotal : Std.Total (keyLe (α := Rated)) := keyLe_total
  have htrans : IsTrans (ℚ × ℚ × Rated) keyLe := keyLe_trans
  let rated := ratedMoves rack maxLevel bagRemaining moves
  let entries := (keyed rng rated maxLevel n).1
  -- an entry has its rating as its key
  have hkeys : ∀ e ∈ entries, e.1 = -equity rack bagRemaining e.2.2.move := by
    intro e he
    let key (m : Rated) : Drawing (ℚ × ℚ × Rated) := do return (-m.equity, ← rng.random, m)
    have hentries : entries = (rated.mapM key n).1 := rfl
    have hmap : entries.map (fun e => (e.1, e.2.2)) = rated.map fun m => (-m.equity, m) :=
      hentries ▸ map_mapM (f := key) (g := fun e => (e.1, e.2.2)) (fun _ _ => rfl) rated n
    obtain ⟨m, hm, heq⟩ := List.mem_map.mp (hmap ▸ List.mem_map_of_mem he)
    obtain ⟨hkey, hmove⟩ := Prod.mk.inj heq
    rw [← hkey, ← hmove]
    have hrated : m ∈ (moves.map fun m => (⟨m, m.score⟩ : Rated)).map fun m =>
        { m with equity := equity rack bagRemaining m.move } := hm
    obtain ⟨m', -, rfl⟩ := List.mem_map.mp hrated
    rfl
  have hsorted := List.pairwise_insertionSort keyLe entries
  refine List.pairwise_map.mpr (List.pairwise_map.mpr (hsorted.imp_of_mem fun ha hb h => ?_))
  have hperm := List.perm_insertionSort keyLe entries
  have hle : _ ≤ _ := h.elim le_of_lt fun h => h.1.le
  rw [hkeys _ (hperm.mem_iff.mp ha), hkeys _ (hperm.mem_iff.mp hb)] at hle
  exact neg_le_neg_iff.mp hle

/-- A placement that is not to be avoided. -/
def Allowed (avoid : Option (Finset (List Placed))) (tiles : List Placed) : Prop :=
  ∀ placements, avoid = some placements → placementKey tiles ∉ placements

theorem mem_openMoves {clock : ℕ → Bool} {lex : Lexicon} {vocab : Vocabulary} {board : Board}
    {rack : List Tile} {avoid : Option (Finset (List Placed))} {m : Move} :
    m ∈ openMoves clock lex vocab board rack avoid ↔
      m ∈ generateMovesIn clock lex vocab board rack true handSize ∧ Allowed avoid m.tiles := by
  unfold openMoves Allowed
  cases avoid with
  | none => simp
  | some placements => simp

theorem Allowed.perm {avoid : Option (Finset (List Placed))} {tiles tiles' : List Placed}
    (h : Allowed avoid tiles) (hperm : tiles.Perm tiles') : Allowed avoid tiles' :=
  fun placements havoid => placementKey_eq_iff.mpr hperm ▸ h placements havoid

/-- A level that always finds a move looks for one. -/
theorem chooseAction_of_two_le (rng : Source) (clock : ℕ → Bool) (lex : Lexicon)
    (vocab : Vocabulary) (board : Board) (rack : List Tile) {level : ℕ} (hlevel : 2 ≤ level)
    (bagRemaining : ℕ) (avoid : Option (Finset (List Placed))) (n : ℕ) :
    chooseAction rng clock lex vocab board rack level bagRemaining avoid n =
      placeFirst rng lex rack (min maxLevel level) bagRemaining
        (openMoves clock lex vocab board rack avoid) n := by
  have hclamp : max minLevel (min maxLevel level) = min maxLevel level := by
    simp only [minLevel, maxLevel]
    omega
  have hnever : (profile (min maxLevel level)).passP = 0 := by
    obtain ⟨k, hk⟩ : ∃ k, min maxLevel level = k := ⟨_, rfl⟩
    rw [hk]
    have hlow : 2 ≤ k := by
      simp only [maxLevel] at hk
      omega
    have hhigh : k ≤ 10 := hk ▸ min_le_left _ _
    clear hk
    interval_cases k <;> rfl
  unfold chooseAction findsNone
  rw [hclamp, hnever]
  rfl

/-- **The highest level plays best**: with time enough, a robot from the second level on lays tiles
if there is any placement among those that are searched for that the hand affords, with accepted
words only, and that is not to be avoided; and on the highest level no such placement has a better
rating than the one it makes. -/
theorem master_best (rng : Source) (clock : ℕ → Bool) (hample : Ample clock) (lex : Lexicon)
    (vocab : Vocabulary) (b : Board) (rack : List Tile)
    (hflag : b.isEmpty = true → ∀ s, ¬b.Occupied s) (hletters : Lettered b)
    (hrack : rack.length ≤ handSize) (hvocab : ∀ w ∈ vocab.words, ∀ t : Tile, t.asStr ≠ w)
    (level : ℕ) (hlevel : 2 ≤ level) (bagRemaining : ℕ) (avoid : Option (Finset (List Placed)))
    (n : ℕ) :
    let action := (chooseAction rng clock lex vocab b rack level bagRemaining avoid n).1
    (∀ tiles score, Hint lex vocab b rack tiles score → Allowed avoid tiles →
      ∃ m : Move, action = .place m.tiles m.words m.score ∧
        (maxLevel ≤ level → ∀ words, equity rack bagRemaining ⟨tiles, words, score⟩ ≤
          equity rack bagRemaining m)) ∧
      ∀ tiles words score, action = .place tiles words score →
        Hint lex vocab b rack tiles score ∧ Allowed avoid tiles := by
  intro action
  have hiff := exists_valid_iff lex vocab hflag hletters hrack hvocab
  have hgenerated := (generateMovesIn_starts clock lex vocab b rack true handSize).2 hample
  have hrun : action = (placeFirst rng lex rack (min maxLevel level) bagRemaining
      (openMoves clock lex vocab b rack avoid) n).1 := by
    rw [← chooseAction_of_two_le rng clock lex vocab b rack hlevel]
  have hmem (m : Move) : m ∈ (candidates rng rack (min maxLevel level) bagRemaining
      (openMoves clock lex vocab b rack avoid) n).filter (Move.valid lex) ↔
      (m ∈ generateMoves lex vocab b rack true handSize ∧ Allowed avoid m.tiles) ∧
        m.valid lex = true := by
    rw [List.mem_filter, (candidates_perm _ _ _ _ _ _).mem_iff, mem_openMoves, hgenerated]
  constructor
  · intro tiles score hint hallowed
    obtain ⟨m, hm, htiles, hvalid, rfl⟩ := (hiff tiles score).mpr hint
    have hcandidate := (hmem m).mpr ⟨⟨hm, hallowed.perm htiles.symm⟩, hvalid⟩
    obtain ⟨best, hhead, hplace⟩ | ⟨hnone, -⟩ := placeFirst_cases rng lex rack (min maxLevel level)
      bagRemaining (openMoves clock lex vocab b rack avoid) n
    · refine ⟨best, hrun.trans hplace, fun htop words => ?_⟩
      rw [min_eq_left htop] at hhead hcandidate
      have hpairs := (pairwise_candidates rng rack bagRemaining
        (openMoves clock lex vocab b rack avoid) n).filter (Move.valid lex)
      obtain ⟨rest, hrest⟩ := List.head?_eq_some_iff.mp hhead
      rw [hrest] at hpairs hcandidate
      have hle : equity rack bagRemaining m ≤ equity rack bagRemaining best := by
        rcases List.mem_cons.mp hcandidate with rfl | hlater
        · exact le_rfl
        · exact List.rel_of_pairwise_cons hpairs hlater
      have hsame : equity rack bagRemaining ⟨tiles, words, m.score⟩ = equity rack bagRemaining m :=
        equity_congr htiles.symm rfl
      exact hsame.trans_le hle
    · rw [hnone] at hcandidate
      exact absurd hcandidate List.not_mem_nil
  · intro tiles words score hplaced
    obtain ⟨best, hhead, hplace⟩ | ⟨-, k, hnone⟩ := placeFirst_cases rng lex rack (min maxLevel level)
      bagRemaining (openMoves clock lex vocab b rack avoid) n
    · obtain ⟨⟨hm, hallowed⟩, hvalid⟩ := (hmem best).mp (List.mem_of_mem_head? hhead)
      obtain ⟨rfl, -, rfl⟩ := Action.place.inj (hplaced.symm.trans (hrun.trans hplace))
      exact ⟨(hiff _ _).mp ⟨best, hm, .refl _, hvalid, rfl⟩, hallowed⟩
    · have hother := hplaced.symm.trans (hrun.trans hnone)
      unfold withoutMove at hother
      split at hother <;> cases hother

/-- At the first turn of a duel the highest level makes 28 points or a better rating. -/
theorem master_best_opening :
    ∃ m : Move, 28 ≤ equity [32, 33] 86 m ∧
      (chooseAction ⟨fun _ => 0, fun _ _ => 0, fun _ => 1⟩ (fun _ => false) Lexicon.unavailable
        csoVocabulary Board.new [32, 33] 10 86 none 0).1 = .place m.tiles m.words m.score := by
  have hint : Hint Lexicon.unavailable csoVocabulary Board.new [32, 33] Game.duelOpening 28 :=
    ⟨affordable_duelOpening, _, _, playable_duelOpening, by decide +kernel, by decide +kernel⟩
  obtain ⟨hall, -⟩ := master_best ⟨fun _ => 0, fun _ _ => 0, fun _ => 1⟩ (fun _ => false)
    (fun _ => rfl) Lexicon.unavailable csoVocabulary Board.new [32, 33]
    (fun _ => Board.not_occupied_new) lettered_new (by decide) csoVocabulary_several 10 (by decide) 86
    none 0
  obtain ⟨m, hm, hbest⟩ := hall _ _ hint (fun _ h => by cases h)
  refine ⟨m, ?_, hm⟩
  have hopening : equity [32, 33] 86 ⟨Game.duelOpening, [], 28⟩ = 28 := by decide +kernel
  exact hopening ▸ hbest (by decide) []

end Robot

end ScrabbleMagyar
