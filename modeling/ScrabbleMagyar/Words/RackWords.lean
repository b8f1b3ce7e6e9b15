import ScrabbleMagyar.Robot.Vocabulary
import ScrabbleMagyar.Words.ValidCache

/-!
# The words of a rack

The letter hunt of the practice mode lists the words of the vocabulary that a rack can lay
(`rack_words` in `words/practice.rs`). The list is found by laying the tiles in every order in
which the vocabulary goes on.

* `lookup_bestWords`, `exists_lookup_bestWords`: the walk over the rack finds, for the words of the
  vocabulary that have one, the best laying of two tiles or more.
* `mem_rackWords`: what is listed.
-/

namespace ScrabbleMagyar

def rackSize : ℕ := 7

/-- The bonus for all seven tiles. -/
def bingoBonus : ℕ := 50

/-! ## The list -/

/-- A word of the list. -/
structure RackWord where
  word : Word
  score : ℕ
  tiles : ℕ
  deriving DecidableEq

/-- Where the walk over the rack is: what is laid so far and what is left. -/
structure Trail where
  pre : Word
  used : ℕ
  score : ℕ
  last : Option Tile
  counts : Tile → ℕ

namespace Trail

def start (rack : List Tile) : Trail := ⟨[], 0, 0, none, fun t => rack.count t⟩

/-- Lay one more tile. -/
def lay (n : Trail) (t : Tile) : Trail :=
  { pre := n.pre ++ t.asStr
    used := n.used + 1
    score := n.score + t.value
    last := some t
    counts := Function.update n.counts t (n.counts t - 1) }

/-- The score with the bonus, and the number of tiles. -/
def total (n : Trail) : ℕ × ℕ := (n.score + if n.used = rackSize then bingoBonus else 0, n.used)

/-- Whether the tile is left and does not split a digraph. -/
def allows (n : Trail) (t : Tile) : Bool :=
  !decide (n.counts t ≤ 0) && !n.last.any fun l => formsDigraph l.asStr t.asStr

end Trail

/-- The words with their best score so far. -/
abbrev BestWords := Table Word (ℕ × ℕ)

/-- Note the word that is laid, if it is one of the vocabulary. -/
def note (vocab : Vocabulary) (best : BestWords) (n : Trail) : BestWords :=
  if decide (2 ≤ n.used) && vocab.contains n.pre then
    let total := n.total
    match best.lookup n.pre with
    | some b => if b.1 ≥ total.1 then best else best.insert n.pre total
    | none => best.insert n.pre total
  else best

/-- Lay the tiles that are left in every order in which the vocabulary goes on; `left` is the
number of tiles of the rack that are not laid. -/
def walk (vocab : Vocabulary) (types : List Tile) : ℕ → Trail → BestWords → BestWords
  | 0, n, best => note vocab best n
  | left + 1, n, best =>
    types.foldl (fun best t =>
      if !n.allows t then best
      else if vocab.hasPrefix (n.lay t).pre then walk vocab types left (n.lay t) best
      else best) (note vocab best n)

/-- The different tiles of a rack, in their order. -/
def typesOf (rack : List Tile) : List Tile :=
  rack.foldl (fun types t => if types.contains t then types else types ++ [t]) []

/-- The words of the vocabulary that the rack can lay, the best first. -/
def rackWords (checker : Option (Word → Bool)) (d : ValidCache) (vocab : Vocabulary)
    (rack : List Tile) : ValidCache × List RackWord :=
  let best := walk vocab (typesOf rack) rack.length (Trail.start rack) ∅
  let (d, valid) := if best.entries.isEmpty then (d, [])
    else ValidCache.filterValid checker d best.keys
  let words := valid.filterMap fun w => (best.lookup w).map fun e => (⟨w, e.1, e.2⟩ : RackWord)
  (d, words.mergeSort fun a b => decide (b.score < a.score ∨ a.score = b.score ∧ a.word ≤ b.word))

/-! ## The layings -/

/-- Tiles of the rack that spell a word and split no digraph. -/
structure Laying (rack tiles : List Tile) (word : Word) : Prop where
  fits : tiles.Subperm rack
  text : (tiles.map Tile.asStr).flatten = word
  unsplit : tiles.IsChain fun a b => formsDigraph a.asStr b.asStr = false

/-- The score of laid tiles with the bonus, and their number. -/
def worth (tiles : List Tile) : ℕ × ℕ :=
  ((tiles.map Tile.value).sum + if tiles.length = rackSize then bingoBonus else 0, tiles.length)

namespace Trail

variable (n : Trail) (tiles : List Tile)

theorem pre_foldl_lay : (tiles.foldl lay n).pre = n.pre ++ (tiles.map Tile.asStr).flatten := by
  induction tiles generalizing n with
  | nil => simp
  | cons t tiles ih => simp [ih, lay]

theorem used_foldl_lay : (tiles.foldl lay n).used = n.used + tiles.length := by
  induction tiles generalizing n with
  | nil => rfl
  | cons t tiles ih =>
    rw [List.foldl_cons, ih, List.length_cons]
    simp only [lay]
    omega

theorem score_foldl_lay : (tiles.foldl lay n).score = n.score + (tiles.map Tile.value).sum := by
  induction tiles generalizing n with
  | nil => rfl
  | cons t tiles ih =>
    rw [List.foldl_cons, ih, List.map_cons, List.sum_cons, lay, Nat.add_assoc]

theorem total_foldl_lay (rack : List Tile) :
    (tiles.foldl lay (start rack)).total = worth tiles := by
  simp only [total, worth, used_foldl_lay, score_foldl_lay, start, Nat.zero_add]

end Trail

/-- The tiles can be laid one after the other, and the vocabulary goes on after each. -/
inductive Path (vocab : Vocabulary) (types : List Tile) : Trail → List Tile → Prop
  | nil {n : Trail} : Path vocab types n []
  | cons {n : Trail} {t : Tile} {tiles : List Tile} (mem : t ∈ types) (allowed : n.allows t = true)
      (starts : vocab.hasPrefix (n.lay t).pre = true) (rest : Path vocab types (n.lay t) tiles) :
      Path vocab types n (t :: tiles)

/-- Where the walk comes along, in its order. -/
def visits (vocab : Vocabulary) (types : List Tile) : ℕ → Trail → List Trail
  | 0, n => [n]
  | left + 1, n => n :: types.flatMap fun t =>
      if n.allows t && vocab.hasPrefix (n.lay t).pre then visits vocab types left (n.lay t) else []

theorem walk_eq_foldl (vocab : Vocabulary) (types : List Tile) (left : ℕ) (n : Trail)
    (best : BestWords) :
    walk vocab types left n best = (visits vocab types left n).foldl (note vocab) best := by
  induction left generalizing n best with
  | zero => rfl
  | succ left ih =>
    rw [walk, visits, List.foldl_cons, List.foldl_flatMap]
    congr 1
    funext best t
    cases n.allows t
    · rfl
    · cases vocab.hasPrefix (n.lay t).pre
      · rfl
      · exact ih _ _

/-- The walk comes along the paths that are not too long. -/
theorem mem_visits {vocab : Vocabulary} {types : List Tile} {left : ℕ} {n n' : Trail} :
    n' ∈ visits vocab types left n ↔
      ∃ tiles, tiles.length ≤ left ∧ Path vocab types n tiles ∧ n' = tiles.foldl Trail.lay n := by
  induction left generalizing n with
  | zero =>
    constructor
    · intro h
      exact ⟨[], le_rfl, .nil, List.mem_singleton.mp h⟩
    · rintro ⟨tiles, hlen, -, rfl⟩
      obtain rfl : tiles = [] := List.length_eq_zero_iff.mp (Nat.le_zero.mp hlen)
      exact List.mem_singleton.mpr rfl
  | succ left ih =>
    simp only [visits, List.mem_cons, List.mem_flatMap]
    constructor
    · rintro (rfl | ⟨t, ht, h⟩)
      · exact ⟨[], Nat.zero_le _, .nil, rfl⟩
      · split at h
        · rename_i hgo
          rw [Bool.and_eq_true] at hgo
          obtain ⟨tiles, hlen, hpath, rfl⟩ := ih.mp h
          exact ⟨t :: tiles, Nat.succ_le_succ hlen, .cons ht hgo.1 hgo.2 hpath, rfl⟩
        · cases h
    · rintro ⟨tiles, hlen, hpath, rfl⟩
      cases hpath with
      | nil => exact Or.inl rfl
      | @cons _ t tiles mem allowed starts rest =>
        refine Or.inr ⟨t, mem, ?_⟩
        rw [allowed, starts, Bool.and_self, if_pos rfl]
        exact ih.mpr ⟨tiles, Nat.le_of_succ_le_succ hlen, rest, rfl⟩

/-- The first of some tiles is taken from the rack, the others from what it leaves. -/
theorem count_cons_le_iff {α : Type*} [BEq α] [LawfulBEq α] [DecidableEq α] {a : α} {l : List α}
    {counts : α → ℕ} :
    (∀ b, (a :: l).count b ≤ counts b) ↔
      0 < counts a ∧ ∀ b, l.count b ≤ Function.update counts a (counts a - 1) b := by
  constructor
  · intro h
    have ha := h a
    rw [List.count_cons_self] at ha
    refine ⟨by omega, fun b => ?_⟩
    by_cases hb : b = a
    · subst hb
      rw [Function.update_self]
      omega
    · have := h b
      rwa [Function.update_of_ne hb, ← List.count_cons_of_ne (Ne.symm hb)]
  · rintro ⟨hpos, h⟩ b
    have hb := h b
    by_cases hba : b = a
    · subst hba
      rw [Function.update_self] at hb
      rw [List.count_cons_self]
      omega
    · rwa [Function.update_of_ne hba, ← List.count_cons_of_ne (Ne.symm hba)] at hb

theorem Trail.allows_iff {n : Trail} {t : Tile} : n.allows t = true ↔
    0 < n.counts t ∧ ∀ l ∈ n.last, formsDigraph l.asStr t.asStr = false := by
  simp only [allows, Bool.and_eq_true, Bool.not_eq_true', decide_eq_false_iff_not, not_le]
  refine and_congr_right fun _ => ?_
  cases n.last <;> simp

/-- Toward a word of the vocabulary the tiles are laid exactly if they are left and split no
digraph. -/
theorem path_iff {vocab : Vocabulary} {types tiles : List Tile} {n : Trail}
    (hword : n.pre ++ (tiles.map Tile.asStr).flatten ∈ vocab.words) :
    Path vocab types n tiles ↔ (∀ t ∈ tiles, t ∈ types) ∧ (∀ t, tiles.count t ≤ n.counts t) ∧
      (n.last.toList ++ tiles).IsChain fun a b => formsDigraph a.asStr b.asStr = false := by
  induction tiles generalizing n with
  | nil =>
    refine ⟨fun _ => ⟨by simp, by simp, ?_⟩, fun _ => .nil⟩
    cases n.last <;> simp
  | cons t tiles ih =>
    have hlaid : (n.lay t).pre ++ (tiles.map Tile.asStr).flatten ∈ vocab.words := by
      simpa [Trail.lay] using hword
    have hstarts : vocab.hasPrefix (n.lay t).pre = true :=
      Vocabulary.hasPrefix_iff.mpr ⟨_, hlaid, List.prefix_append _ _⟩
    have hchain : (n.last.toList ++ t :: tiles).IsChain
          (fun a b => formsDigraph a.asStr b.asStr = false) ↔
        (∀ l ∈ n.last, formsDigraph l.asStr t.asStr = false) ∧
          (t :: tiles).IsChain fun a b => formsDigraph a.asStr b.asStr = false := by
      cases n.last <;> simp
    rw [hchain, count_cons_le_iff, List.forall_mem_cons]
    constructor
    · intro h
      cases h with
      | cons mem allowed starts rest =>
        obtain ⟨hmem, hcount, hunsplit⟩ := (ih hlaid).mp rest
        obtain ⟨hpos, hlast⟩ := Trail.allows_iff.mp allowed
        exact ⟨⟨mem, hmem⟩, ⟨hpos, hcount⟩, hlast, hunsplit⟩
    · rintro ⟨⟨mem, hmem⟩, ⟨hpos, hcount⟩, hlast, hunsplit⟩
      exact .cons mem (Trail.allows_iff.mpr ⟨hpos, hlast⟩) hstarts
        ((ih hlaid).mpr ⟨hmem, hcount, hunsplit⟩)

theorem mem_typesOf {rack : List Tile} {t : Tile} : t ∈ typesOf rack ↔ t ∈ rack := by
  have hall : ∀ l types : List Tile,
      t ∈ l.foldl (fun types t => if types.contains t then types else types ++ [t]) types ↔
        t ∈ types ∨ t ∈ l := by
    intro l
    induction l with
    | nil => simp
    | cons u l ih =>
      intro types
      rw [List.foldl_cons, ih, List.mem_cons]
      split
      · rename_i hu
        rw [List.contains_iff_mem] at hu
        constructor
        · exact Or.imp_right Or.inr
        · rintro (h | rfl | h)
          · exact Or.inl h
          · exact Or.inl hu
          · exact Or.inr h
      · rw [List.mem_append, List.mem_singleton, or_assoc]
  rw [typesOf, hall, or_iff_right List.not_mem_nil]

/-- From the start of the walk the paths to a word of the vocabulary are its layings. -/
theorem path_start_iff {vocab : Vocabulary} {rack tiles : List Tile}
    (hword : (tiles.map Tile.asStr).flatten ∈ vocab.words) :
    Path vocab (typesOf rack) (Trail.start rack) tiles ↔
      Laying rack tiles (tiles.map Tile.asStr).flatten := by
  have hcount : (∀ t, tiles.count t ≤ (Trail.start rack).counts t) ↔ tiles.Subperm rack := by
    rw [List.subperm_ext_iff]
    refine ⟨fun h t _ => h t, fun h t => ?_⟩
    by_cases ht : t ∈ tiles
    · exact h t ht
    · rw [List.count_eq_zero_of_not_mem ht]
      exact Nat.zero_le _
  rw [path_iff hword, hcount]
  constructor
  · rintro ⟨-, hfits, hunsplit⟩
    exact ⟨hfits, rfl, hunsplit⟩
  · intro h
    exact ⟨fun t ht => mem_typesOf.mpr (h.fits.subset ht), h.fits, h.unsplit⟩

/-! ## What the walk finds -/

/-- What a trail enters into the list of the best words. -/
def entryOf (vocab : Vocabulary) (n : Trail) : Option (Word × ℕ × ℕ) :=
  if decide (2 ≤ n.used) && vocab.contains n.pre then some (n.pre, n.total) else none

theorem note_eq (vocab : Vocabulary) (best : BestWords) (n : Trail) :
    note vocab best n =
      ((entryOf vocab n).map (best.improve Prod.fst)).getD best := by
  unfold note entryOf
  split
  · simp only [Option.map_some, Option.getD_some, Table.improve]
    cases best.lookup n.pre <;> simp
  · rfl

/-- The best words of a rack. -/
def bestWords (vocab : Vocabulary) (rack : List Tile) : BestWords :=
  walk vocab (typesOf rack) rack.length (Trail.start rack) ∅

theorem bestWords_eq (vocab : Vocabulary) (rack : List Tile) : bestWords vocab rack =
    ((visits vocab (typesOf rack) rack.length (Trail.start rack)).filterMap
      (entryOf vocab)).foldl (Table.improve Prod.fst) ∅ := by
  rw [bestWords, walk_eq_foldl, List.foldl_filterMap]
  congr 1
  funext best n
  rw [note_eq]
  cases entryOf vocab n <;> rfl

/-- What is entered for a word are its layings of two tiles or more. -/
theorem mem_entries {vocab : Vocabulary} {rack : List Tile} {word : Word} {e : ℕ × ℕ} :
    (word, e) ∈ (visits vocab (typesOf rack) rack.length (Trail.start rack)).filterMap
        (entryOf vocab) ↔
      word ∈ vocab.words ∧ ∃ tiles, Laying rack tiles word ∧ 2 ≤ tiles.length ∧ worth tiles = e := by
  simp only [List.mem_filterMap, mem_visits]
  constructor
  · rintro ⟨_, ⟨tiles, -, hpath, rfl⟩, hentry⟩
    have hpre : (tiles.foldl Trail.lay (Trail.start rack)).pre = (tiles.map Tile.asStr).flatten :=
      Trail.pre_foldl_lay _ tiles
    have hused : (tiles.foldl Trail.lay (Trail.start rack)).used = tiles.length := by
      rw [Trail.used_foldl_lay, Trail.start, Nat.zero_add]
    unfold entryOf at hentry
    split at hentry
    · rename_i hnoted
      rw [Bool.and_eq_true, decide_eq_true_eq, Vocabulary.contains_iff, hpre, hused] at hnoted
      rw [hpre, Trail.total_foldl_lay, Option.some.injEq, Prod.mk.injEq] at hentry
      obtain ⟨rfl, rfl⟩ := hentry
      exact ⟨hnoted.2, tiles, (path_start_iff hnoted.2).mp hpath, hnoted.1, rfl⟩
    · cases hentry
  · rintro ⟨hword, tiles, hlaying, htwo, rfl⟩
    obtain rfl := hlaying.text
    refine ⟨_, ⟨tiles, hlaying.fits.length_le, (path_start_iff hword).mpr hlaying, rfl⟩, ?_⟩
    have hpre : (tiles.foldl Trail.lay (Trail.start rack)).pre = (tiles.map Tile.asStr).flatten :=
      Trail.pre_foldl_lay _ tiles
    have hused : (tiles.foldl Trail.lay (Trail.start rack)).used = tiles.length := by
      rw [Trail.used_foldl_lay, Trail.start, Nat.zero_add]
    rw [entryOf, hpre, hused, Trail.total_foldl_lay, Vocabulary.contains_iff.mpr hword,
      decide_eq_true htwo, Bool.and_self, if_pos rfl]

/-- The best word found is a laying of the rack. -/
theorem lookup_bestWords {vocab : Vocabulary} {rack : List Tile} {word : Word} {e : ℕ × ℕ}
    (h : (bestWords vocab rack).lookup word = some e) :
    word ∈ vocab.words ∧ ∃ tiles, Laying rack tiles word ∧ 2 ≤ tiles.length ∧ worth tiles = e := by
  rw [bestWords_eq] at h
  rcases Table.of_lookup_foldl_improve h with hmem | hempty
  · exact mem_entries.mp hmem
  · cases hempty

/-- No laying of two tiles or more is worth more than the best word found. -/
theorem exists_lookup_bestWords {vocab : Vocabulary} {rack tiles : List Tile} {word : Word}
    (hword : word ∈ vocab.words) (h : Laying rack tiles word) (htwo : 2 ≤ tiles.length) :
    ∃ e, (bestWords vocab rack).lookup word = some e ∧ (worth tiles).1 ≤ e.1 := by
  rw [bestWords_eq]
  exact Table.lookup_foldl_improve Prod.fst (mem_entries.mpr ⟨hword, tiles, h, htwo, rfl⟩) ∅

/-- Whether `filter_valid` takes a word: what is cached of it, or else the verdict of the lists. -/
def ValidCache.Passes (checker : Option (Word → Bool)) (d : ValidCache) (word : Word) : Prop :=
  Lexicon.wellShaped word = true ∧
    (d.cache.lookup (toLowercase word)).getD (verdict checker d.lists (toLowercase word)) = true

/-- What is listed are the best words that pass the dictionary. -/
theorem mem_rackWords {checker : Option (Word → Bool)} {d : ValidCache} {vocab : Vocabulary}
    {rack : List Tile} {e : RackWord} : e ∈ (rackWords checker d vocab rack).2 ↔
      (bestWords vocab rack).lookup e.word = some (e.score, e.tiles) ∧ d.Passes checker e.word := by
  have hkeys : (if (bestWords vocab rack).entries.isEmpty then (d, [])
      else ValidCache.filterValid checker d (bestWords vocab rack).keys).2 =
        (ValidCache.filterValid checker d (bestWords vocab rack).keys).2 := by
    split
    · rename_i hempty
      rw [AList.keys, List.isEmpty_iff.mp hempty]
      rfl
    · rfl
  have hlist : e ∈ (rackWords checker d vocab rack).2 ↔
      e ∈ (ValidCache.filterValid checker d (bestWords vocab rack).keys).2.filterMap fun w =>
        ((bestWords vocab rack).lookup w).map fun e => (⟨w, e.1, e.2⟩ : RackWord) := by
    rw [← hkeys]
    exact List.mem_mergeSort
  simp only [hlist, List.mem_filterMap, ValidCache.mem_filterValid_iff, Option.map_eq_some_iff]
  constructor
  · rintro ⟨w, ⟨-, hpasses⟩, b, hb, rfl⟩
    exact ⟨hb, hpasses⟩
  · rintro ⟨hb, hpasses⟩
    refine ⟨e.word, ⟨?_, hpasses⟩, _, hb, rfl⟩
    rw [← AList.mem_keys, ← AList.lookup_isSome, hb]
    rfl

end ScrabbleMagyar
