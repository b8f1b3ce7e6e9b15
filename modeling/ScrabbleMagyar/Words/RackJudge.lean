import ScrabbleMagyar.Foundations.Best
import ScrabbleMagyar.Words.RackWords
import Mathlib.Data.List.TakeWhile

/-!
# The judge of the letter hunt

A word that was typed in is taken apart into tiles of the rack (`assign` and `check_rack_word` in
`words/practice.rs`), where the list of `Words/RackWords.lean` is found by laying the tiles.

* `assign_sound`, `exists_assign`: the recursion finds the best way to take a word apart.
* `rackWords_agree`: the list and the judge agree on every word of the vocabulary that is written
  in upper case without white space around it and is more than a single tile, and so on all words
  of a loaded vocabulary.
-/

namespace ScrabbleMagyar

/-- `tile_value`: the value of the tile with a text. -/
def tileValue (letter : Word) : ℕ := ((Tile.fromStr letter).map Tile.value).getD 0

/-- Take a word apart into pieces of the rack, for the best score. A digraph takes its own tile,
unless `splitOk`. Every piece takes a letter, so the number of letters bounds the steps. -/
def assign (splitOk : Bool) : ℕ → Word → (Word → ℕ) → ℕ → Word → Option (ℕ × List Word)
  | _, [], _, score, _ => some (score, [])
  | 0, _ :: _, _, _, _ => none
  | fuel + 1, word, counts, score, last =>
    [1, 2].foldl (fun (best : Option (ℕ × List Word)) size =>
      if word.length < size then best
      else
        let piece := word.take size
        if counts piece ≤ 0 || !splitOk && formsDigraph last piece then best
        else
          match assign splitOk fuel (word.drop size) (Function.update counts piece (counts piece - 1))
            (score + tileValue piece) piece with
          | none => best
          | some (restScore, restTiles) =>
            match best with
            | none => some (restScore, piece :: restTiles)
            | some b => if restScore > b.1 then some (restScore, piece :: restTiles) else best) none

structure RackVerdict where
  ok : Bool
  reason : Option String
  word : Word
  tiles : List Word
  score : ℕ
  bingo : Bool
  deriving DecidableEq

/-- The verdict on a word that was typed in, for the texts of a rack. -/
def checkRackWord (casing : Casing) (checker : Option (Word → Bool)) (d : ValidCache)
    (rack : List Word) (word : Word) : ValidCache × RackVerdict :=
  let word := casing.toUppercase (trim word)
  let fail (reason : String) : RackVerdict := ⟨false, some reason, word, [], 0, false⟩
  if word.length < 2 then (d, fail "too_short")
  else if decide (15 < word.length) || (tokenizeWord casing word).isNone then (d, fail "invalid_chars")
  else
    let freshCounts (piece : Word) : ℕ := rack.count piece
    match assign false word.length word freshCounts 0 [] with
    | none =>
      let split := assign true word.length word freshCounts 0 []
      (d, fail (if split.isSome then "split_digraph" else "not_in_rack"))
    | some (score, tiles) =>
      let (d, valid) := d.isWordValid checker word
      if !valid then (d, fail "not_a_word")
      else
        let bingo := tiles.length == rackSize
        (d, ⟨true, none, word, tiles, score + if bingo then bingoBonus else 0, bingo⟩)

/-! ## Taking a word apart -/

/-- Pieces of the rack that make up a word and split no digraph, the one before included. -/
structure Assignment (counts : Word → ℕ) (last word : Word) (pieces : List Word) : Prop where
  sizes : ∀ p ∈ pieces, p.length ∈ [1, 2]
  fits : ∀ p, pieces.count p ≤ counts p
  text : pieces.flatten = word
  unsplit : (last :: pieces).IsChain fun a b => formsDigraph a b = false

theorem assignment_nil_iff {counts : Word → ℕ} {last word : Word} :
    Assignment counts last word [] ↔ word = [] :=
  ⟨fun h => h.text.symm, fun h => ⟨by simp, by simp, h.symm, .singleton last⟩⟩

/-- A first piece and an assignment of the rest. -/
theorem assignment_cons_iff {counts : Word → ℕ} {last word p : Word} {pieces : List Word} :
    Assignment counts last word (p :: pieces) ↔
      p.length ∈ [1, 2] ∧ 0 < counts p ∧ formsDigraph last p = false ∧
        ∃ rest, p ++ rest = word ∧
          Assignment (Function.update counts p (counts p - 1)) p rest pieces := by
  constructor
  · rintro ⟨hsizes, hfits, htext, hunsplit⟩
    obtain ⟨hsize, hsizes⟩ := List.forall_mem_cons.mp hsizes
    obtain ⟨hpos, hfits⟩ := count_cons_le_iff.mp hfits
    obtain ⟨hlast, hunsplit⟩ := List.isChain_cons_cons.mp hunsplit
    exact ⟨hsize, hpos, hlast, pieces.flatten, htext, hsizes, hfits, rfl, hunsplit⟩
  · rintro ⟨hsize, hpos, hlast, rest, htext, h⟩
    refine ⟨List.forall_mem_cons.mpr ⟨hsize, h.sizes⟩, count_cons_le_iff.mpr ⟨hpos, h.fits⟩, ?_,
      List.isChain_cons_cons.mpr ⟨hlast, h.unsplit⟩⟩
    rw [List.flatten_cons, h.text, htext]

theorem ne_nil_of_assignment_cons {counts : Word → ℕ} {last word p : Word} {pieces : List Word}
    (h : Assignment counts last word (p :: pieces)) : (p :: pieces).flatten ≠ [] := by
  have hp : p.length = 1 ∨ p.length = 2 := by simpa using h.sizes p List.mem_cons_self
  intro hnil
  rw [List.flatten_cons, List.append_eq_nil_iff] at hnil
  rw [hnil.1] at hp
  simp at hp

/-- What the pieces are worth. -/
def worthOf (pieces : List Word) : ℕ := (pieces.map tileValue).sum

theorem worthOf_cons (p : Word) (pieces : List Word) :
    worthOf (p :: pieces) = tileValue p + worthOf pieces := by
  simp [worthOf]

/-- The best assignment that starts with a piece of the given size. -/
def assignFrom (splitOk : Bool) (fuel : ℕ) (word : Word) (counts : Word → ℕ) (score : ℕ)
    (last : Word) (size : ℕ) : Option (ℕ × List Word) :=
  if word.length < size then none
  else
    let piece := word.take size
    if counts piece ≤ 0 || !splitOk && formsDigraph last piece then none
    else
      (assign splitOk fuel (word.drop size) (Function.update counts piece (counts piece - 1))
        (score + tileValue piece) piece).map fun r => (r.1, piece :: r.2)

theorem assign_succ (splitOk : Bool) (fuel : ℕ) {word : Word} (hword : word ≠ [])
    (counts : Word → ℕ) (score : ℕ) (last : Word) :
    assign splitOk (fuel + 1) word counts score last =
      ([1, 2].filterMap (assignFrom splitOk fuel word counts score last)).foldl
        (Best.keep Prod.fst) none := by
  rw [assign, List.foldl_filterMap]
  · congr 1
    funext best size
    unfold assignFrom
    split
    · rfl
    · simp only
      split
      · rfl
      · cases assign splitOk fuel (word.drop size) _ _ _ with
        | none => rfl
        | some r =>
          cases best with
          | none => rfl
          | some b => simp [Best.keep]
  · exact hword

/-- The pieces that start with one of the given size. -/
theorem assignFrom_eq_some {splitOk : Bool} {fuel : ℕ} {word : Word} {counts : Word → ℕ}
    {score : ℕ} {last : Word} {size : ℕ} {r : ℕ × List Word} :
    assignFrom splitOk fuel word counts score last size = some r ↔
      ∃ piece rest r', piece.length = size ∧ piece ++ rest = word ∧ 0 < counts piece ∧
        (splitOk = true ∨ formsDigraph last piece = false) ∧
        assign splitOk fuel rest (Function.update counts piece (counts piece - 1))
          (score + tileValue piece) piece = some r' ∧ r = (r'.1, piece :: r'.2) := by
  constructor
  · intro h
    unfold assignFrom at h
    split at h
    · cases h
    · rename_i hshort
      simp only at h
      split at h
      · cases h
      · rename_i hallowed
        obtain ⟨r', hr', rfl⟩ := Option.map_eq_some_iff.mp h
        rw [Bool.or_eq_true, decide_eq_true_eq, not_or, not_le, Bool.and_eq_true,
          Bool.not_eq_true', not_and, Bool.not_eq_true, ← Bool.not_eq_true, ← or_iff_not_imp_left]
          at hallowed
        refine ⟨word.take size, word.drop size, r', ?_, List.take_append_drop _ _, hallowed.1,
          ?_, hr', rfl⟩
        · rw [List.length_take]
          omega
        · simpa using hallowed.2
  · rintro ⟨piece, rest, r', rfl, rfl, hpos, hsplit, hassign, rfl⟩
    have hallowed : ¬(decide (counts piece ≤ 0) || !splitOk && formsDigraph last piece) = true := by
      rcases hsplit with rfl | hforms
      · simpa using hpos.ne'
      · simpa [hforms] using hpos.ne'
    have hlen : ¬(piece ++ rest).length < piece.length := by
      rw [List.length_append]
      omega
    simp only [assignFrom, if_neg hlen, List.take_left, List.drop_left, if_neg hallowed, hassign,
      Option.map_some]

/-- What is found is an assignment at its score. -/
theorem assign_sound {fuel : ℕ} {word last : Word} {counts : Word → ℕ} {score : ℕ}
    {r : ℕ × List Word} (h : assign false fuel word counts score last = some r) :
    Assignment counts last word r.2 ∧ r.1 = score + worthOf r.2 := by
  induction fuel generalizing word last counts score r with
  | zero =>
    cases word with
    | nil =>
      obtain rfl := Option.some.inj h
      exact ⟨assignment_nil_iff.mpr rfl, rfl⟩
    | cons c word => cases h
  | succ fuel ih =>
    by_cases hword : word = []
    · subst hword
      obtain rfl := Option.some.inj h
      exact ⟨assignment_nil_iff.mpr rfl, rfl⟩
    rw [assign_succ false fuel hword] at h
    obtain ⟨hmem, -⟩ := Best.mem_best.mp (Best.foldl_keep h)
    obtain ⟨size, hsize, hfrom⟩ := List.mem_filterMap.mp hmem
    obtain ⟨piece, rest, r', rfl, htext, hpos, hsplit, hassign, rfl⟩ := assignFrom_eq_some.mp hfrom
    obtain ⟨hrest, hscore⟩ := ih hassign
    refine ⟨assignment_cons_iff.mpr ⟨hsize, hpos, ?_, rest, htext, hrest⟩, ?_⟩
    · simpa using hsplit
    · rw [hscore, worthOf_cons, Nat.add_assoc]

/-- With a step for every letter something is found as soon as there is an assignment, and it
scores at least as much. -/
theorem exists_assign {fuel : ℕ} {word last : Word} {counts : Word → ℕ} {pieces : List Word}
    (hfuel : word.length ≤ fuel) (h : Assignment counts last word pieces) (score : ℕ) :
    ∃ r, assign false fuel word counts score last = some r ∧ score + worthOf pieces ≤ r.1 := by
  induction fuel generalizing word last counts pieces score with
  | zero =>
    obtain rfl : word = [] := List.length_eq_zero_iff.mp (Nat.le_zero.mp hfuel)
    cases pieces with
    | nil => exact ⟨_, rfl, le_rfl⟩
    | cons p pieces => exact absurd h.text (ne_nil_of_assignment_cons h)
  | succ fuel ih =>
    cases pieces with
    | nil =>
      obtain rfl := assignment_nil_iff.mp h
      exact ⟨_, rfl, le_rfl⟩
    | cons p pieces =>
      have hword := ne_nil_of_assignment_cons h
      rw [h.text] at hword
      obtain ⟨hsize, hpos, hlast, rest, rfl, hrest⟩ := assignment_cons_iff.mp h
      have hp : p.length = 1 ∨ p.length = 2 := by simpa using hsize
      rw [List.length_append] at hfuel
      obtain ⟨r', hr', hle⟩ := ih (by omega) hrest (score + tileValue p)
      have hfrom := List.mem_filterMap.mpr ⟨p.length, hsize,
        assignFrom_eq_some.mpr ⟨p, rest, r', rfl, rfl, hpos, Or.inr hlast, hr', rfl⟩⟩
      rw [assign_succ false fuel hword]
      obtain ⟨r, hr⟩ := Best.exists_foldl_keep Prod.fst (List.ne_nil_of_mem hfrom)
      refine ⟨r, hr, le_trans ?_ ((Best.mem_best.mp (Best.foldl_keep hr)).2 _ hfrom)⟩
      rwa [worthOf_cons, ← Nat.add_assoc]

/-! ## Assignments and layings -/

theorem tileValue_asStr (t : Tile) : tileValue t.asStr = t.value := by
  rw [tileValue, Tile.fromStr_asStr]
  rfl

theorem worthOf_map (tiles : List Tile) :
    worthOf (tiles.map Tile.asStr) = (tiles.map Tile.value).sum := by
  simp only [worthOf, List.map_map, Function.comp_def, tileValue_asStr]

theorem isChain_nil_cons_iff {pieces : List Word} :
    ([] :: pieces).IsChain (fun a b => formsDigraph a b = false) ↔
      pieces.IsChain fun a b => formsDigraph a b = false := by
  cases pieces with
  | nil => simp
  | cons p pieces =>
    rw [List.isChain_cons_cons, and_iff_right]
    rfl

/-- The assignments for the texts of a rack are its layings. -/
theorem assignment_iff_laying {rack : List Tile} (hblank : Tile.blank ∉ rack) {word : Word}
    {pieces : List Word} : Assignment (fun p => (rack.map Tile.asStr).count p) [] word pieces ↔
      ∃ tiles, Laying rack tiles word ∧ pieces = tiles.map Tile.asStr := by
  have hcount (tiles : List Tile) (t : Tile) :
      (tiles.map Tile.asStr).count t.asStr = tiles.count t :=
    List.count_map_of_injective _ _ Tile.asStr_injective _
  constructor
  · rintro ⟨-, hfits, htext, hunsplit⟩
    have hmem : ∀ p ∈ pieces, p ∈ Set.range Tile.asStr := by
      intro p hp
      have hpos : 0 < (rack.map Tile.asStr).count p :=
        (List.count_pos_iff.mpr hp).trans_le (hfits p)
      obtain ⟨t, -, ht⟩ := List.mem_map.mp (List.count_pos_iff.mp hpos)
      exact ⟨t, ht⟩
    obtain ⟨tiles, rfl⟩ : pieces ∈ Set.range (List.map Tile.asStr) := by
      rw [Set.range_list_map]
      exact hmem
    refine ⟨tiles, ⟨List.subperm_ext_iff.mpr fun t _ => ?_, htext, ?_⟩, rfl⟩
    · rw [← hcount, ← hcount]
      exact hfits t.asStr
    · rw [isChain_nil_cons_iff, List.isChain_map] at hunsplit
      exact hunsplit
  · rintro ⟨tiles, ⟨hfits, htext, hunsplit⟩, rfl⟩
    refine ⟨?_, fun p => ?_, htext, ?_⟩
    · intro p hp
      obtain ⟨t, ht, rfl⟩ := List.mem_map.mp hp
      exact Tile.length_asStr fun hb => hblank (hb ▸ hfits.subset ht)
    · obtain ⟨l, hl, hsub⟩ := hfits
      rw [← (hl.map Tile.asStr).count_eq]
      exact (hsub.map Tile.asStr).count_le p
    · rw [isChain_nil_cons_iff, List.isChain_map]
      exact hunsplit

/-- The best laying of a word. -/
structure BestLaying (rack tiles : List Tile) (word : Word) : Prop where
  laying : Laying rack tiles word
  best : ∀ other, Laying rack other word → (worth other).1 ≤ (worth tiles).1

theorem BestLaying.worth_eq {rack tiles tiles' : List Tile} {word : Word}
    (h : BestLaying rack tiles word) (h' : BestLaying rack tiles' word) :
    (worth tiles).1 = (worth tiles').1 :=
  le_antisymm (h'.best tiles h.laying) (h.best tiles' h'.laying)

/-- If a laying takes a whole rack of at most seven tiles, every laying of the word does. -/
theorem Laying.length_eq {rack tiles tiles' : List Tile} {word : Word} (hblank : Tile.blank ∉ rack)
    (hsize : rack.length ≤ rackSize) (h : Laying rack tiles word) (h' : Laying rack tiles' word)
    (hall : tiles.length = rackSize) : tiles'.length = rackSize := by
  have hperm : tiles.Perm rack := h.fits.perm_of_length_le (by omega)
  have hrest : (tiles' ++ rack.diff tiles').Perm rack :=
    List.subperm_append_diff_self_of_count_le (List.subperm_ext_iff.mp h'.fits)
  -- what is left over has no text, and every tile has some
  have htext : ((rack.diff tiles').map Tile.asStr).flatten = [] := by
    have hlen := ((hperm.trans hrest.symm).map Tile.asStr).flatten.length_eq
    rw [h.text, List.map_append, List.flatten_append, List.length_append, h'.text] at hlen
    exact List.length_eq_zero_iff.mp (by omega)
  have hnone : rack.diff tiles' = [] := by
    refine List.eq_nil_iff_forall_not_mem.mpr fun t ht => ?_
    have hnil : t.asStr = [] := List.flatten_eq_nil_iff.mp htext _ (List.mem_map_of_mem ht)
    exact Tile.asStr_ne_nil (fun hb => hblank (hb ▸ List.diff_subset _ _ ht)) hnil
  rw [hnone, List.append_nil] at hrest
  rw [hrest.length_eq, ← hperm.length_eq, hall]

/-- The bonus does not decide which laying of a word is the best. -/
theorem Laying.worth_le {rack tiles tiles' : List Tile} {word : Word} (hblank : Tile.blank ∉ rack)
    (hsize : rack.length ≤ rackSize) (h : Laying rack tiles word) (h' : Laying rack tiles' word)
    (hle : (tiles.map Tile.value).sum ≤ (tiles'.map Tile.value).sum) :
    (worth tiles).1 ≤ (worth tiles').1 := by
  have hlen : tiles.length = rackSize ↔ tiles'.length = rackSize :=
    ⟨h.length_eq hblank hsize h', h'.length_eq hblank hsize h⟩
  simp only [worth, hlen]
  omega

/-! ## The verdict -/

theorem Laying.tiling {rack tiles : List Tile} {word : Word} (hblank : Tile.blank ∉ rack)
    (h : Laying rack tiles word) : Tiling tiles word :=
  ⟨fun _ ht hb => hblank (hb ▸ h.fits.subset ht), h.text⟩

/-- A tile has one or two letters. -/
theorem Tiling.length_bounds {tiles : List Tile} {word : Word} (h : Tiling tiles word) :
    tiles.length ≤ word.length ∧ word.length ≤ 2 * tiles.length := by
  obtain ⟨hlettered, rfl⟩ := h
  induction tiles with
  | nil => simp
  | cons t tiles ih =>
    obtain ⟨ht, htiles⟩ := List.forall_mem_cons.mp hlettered
    have hone : t.asStr.length = 1 ∨ t.asStr.length = 2 := by simpa using Tile.length_asStr ht
    have hrest := ih htiles
    rw [List.map_cons, List.flatten_cons, List.length_append, List.length_cons]
    omega

theorem Tiling.upper {tiles : List Tile} {word : Word} (h : Tiling tiles word) :
    ∀ c ∈ word, isUpperLetter c = true := by
  have hall : ∀ t : Tile, t.asStr.all isUpperLetter = true := by decide +kernel
  intro c hc
  rw [← h.text, List.mem_flatten] at hc
  obtain ⟨text, htext, hc⟩ := hc
  obtain ⟨t, -, rfl⟩ := List.mem_map.mp htext
  exact List.all_eq_true.mp (hall t) c hc

theorem ValidCache.isWordValid_iff {checker : Option (Word → Bool)} {d : ValidCache} {word : Word} :
    (isWordValid checker d word).2 = true ↔ d.Passes checker word := by
  simp only [isWordValid, List.contains_iff_mem, mem_filterValid_iff, List.mem_singleton, true_and,
    Passes]

section

variable {casing : Casing} {checker : Option (Word → Bool)} {d : ValidCache} {vocab : Vocabulary}
variable {rack : List Tile} {word : Word}

/-- What the judge finds: the best laying of a word that passes, or a reason. -/
theorem checkRackWord_cases (checker : Option (Word → Bool)) (d : ValidCache)
    (hblank : Tile.blank ∉ rack) (hsize : rack.length ≤ rackSize)
    (hword : casing.toUppercase (trim word) = word) :
    (∃ tiles, BestLaying rack tiles word ∧ d.Passes checker word ∧ 2 ≤ word.length ∧
        (checkRackWord casing checker d (rack.map Tile.asStr) word).2.ok = true ∧
        (checkRackWord casing checker d (rack.map Tile.asStr) word).2.score = (worth tiles).1) ∨
      (checkRackWord casing checker d (rack.map Tile.asStr) word).2.ok = false ∧
        ¬((∃ tiles, Laying rack tiles word) ∧ d.Passes checker word ∧ 2 ≤ word.length) := by
  unfold checkRackWord
  simp only [hword]
  by_cases hshort : word.length < 2
  · rw [if_pos hshort]
    exact Or.inr ⟨rfl, fun h => absurd h.2.2 (not_le.mpr hshort)⟩
  rw [if_neg hshort]
  split
  · rename_i hbad
    refine Or.inr ⟨rfl, ?_⟩
    rintro ⟨⟨tiles, h⟩, -⟩
    have htiling := h.tiling hblank
    have hlen := htiling.length_bounds.2
    have hfits := h.fits.length_le
    rw [rackSize] at hsize
    have htoken : (tokenizeWord casing word).isSome = true := by
      rw [isSome_tokenizeWord_iff, casing.toUppercase_of_upper htiling.upper]
      exact ⟨tiles, htiling⟩
    rw [Bool.or_eq_true, decide_eq_true_eq, Option.isNone_iff_eq_none] at hbad
    rcases hbad with hlong | hnone
    · omega
    · rw [hnone] at htoken
      cases htoken
  · cases hassign : assign false word.length word (fun p => (rack.map Tile.asStr).count p) 0 [] with
    | none =>
      refine Or.inr ⟨rfl, ?_⟩
      rintro ⟨⟨tiles, h⟩, -⟩
      obtain ⟨r, hr, -⟩ := exists_assign le_rfl
        ((assignment_iff_laying hblank).mpr ⟨tiles, h, rfl⟩) 0
      rw [hassign] at hr
      cases hr
    | some r =>
      obtain ⟨score, pieces⟩ := r
      obtain ⟨hassignment, hscore⟩ := assign_sound hassign
      obtain ⟨tiles, hlaying, rfl⟩ := (assignment_iff_laying hblank).mp hassignment
      simp only
      split
      · rename_i hinvalid
        refine Or.inr ⟨rfl, fun h => ?_⟩
        rw [Bool.not_eq_true', ValidCache.isWordValid_iff.mpr h.2.1] at hinvalid
        cases hinvalid
      · rename_i hvalid
        rw [Bool.not_eq_true', Bool.not_eq_false, ValidCache.isWordValid_iff] at hvalid
        refine Or.inl ⟨tiles, ⟨hlaying, fun other hother => ?_⟩, hvalid, not_lt.mp hshort, rfl, ?_⟩
        · obtain ⟨r, hr, hle⟩ := exists_assign le_rfl
            ((assignment_iff_laying hblank).mpr ⟨other, hother, rfl⟩) 0
          rw [hassign] at hr
          obtain rfl := Option.some.inj hr
          rw [hscore, Nat.zero_add, Nat.zero_add, worthOf_map, worthOf_map] at hle
          exact hother.worth_le hblank hsize hlaying hle
        · have hsum : score = (tiles.map Tile.value).sum := by
            rw [← worthOf_map, ← Nat.zero_add (worthOf _)]
            exact hscore
          subst hsum
          simp only [worth, List.length_map, beq_iff_eq]

/-- A laying of a word that is more than a single tile has two tiles or more. -/
theorem Laying.two_le {tiles : List Tile} (h : Laying rack tiles word)
    (hseveral : ∀ t : Tile, t.asStr ≠ word) : 2 ≤ tiles.length := by
  match tiles with
  | [] => exact absurd h.text (hseveral Tile.blank)
  | [t] => exact absurd h.text (by simpa using hseveral t)
  | _ :: _ :: _ => simp

/-- What is listed of a word is its best laying. -/
theorem bestLaying_of_mem {e : RackWord} (he : e ∈ (rackWords checker d vocab rack).2)
    (hseveral : ∀ t : Tile, t.asStr ≠ e.word) :
    ∃ tiles, BestLaying rack tiles e.word ∧ e.score = (worth tiles).1 ∧ e.tiles = tiles.length := by
  obtain ⟨hbest, -⟩ := mem_rackWords.mp he
  obtain ⟨hvocab, tiles, hlaying, -, hworth⟩ := lookup_bestWords hbest
  refine ⟨tiles, ⟨hlaying, fun other hother => ?_⟩, ?_, ?_⟩
  · obtain ⟨b, hb, hle⟩ := exists_lookup_bestWords hvocab hother (hother.two_le hseveral)
    obtain rfl := Option.some.inj (hb.symm.trans hbest)
    rwa [hworth]
  · rw [hworth]
  · exact (congrArg Prod.snd hworth).symm

/-- A word of the vocabulary is listed if it has a laying and passes the dictionary. -/
theorem exists_mem_rackWords_iff (checker : Option (Word → Bool)) (d : ValidCache)
    (rack : List Tile) (hvocab : word ∈ vocab.words)
    (hseveral : ∀ t : Tile, t.asStr ≠ word) :
    (∃ e ∈ (rackWords checker d vocab rack).2, e.word = word) ↔
      (∃ tiles, Laying rack tiles word) ∧ d.Passes checker word := by
  constructor
  · rintro ⟨e, he, rfl⟩
    obtain ⟨tiles, hbest, -⟩ := bestLaying_of_mem he hseveral
    exact ⟨⟨tiles, hbest.laying⟩, (mem_rackWords.mp he).2⟩
  · rintro ⟨⟨tiles, hlaying⟩, hpasses⟩
    obtain ⟨b, hb, -⟩ := exists_lookup_bestWords hvocab hlaying (hlaying.two_le hseveral)
    exact ⟨⟨word, b.1, b.2⟩, mem_rackWords.mpr ⟨hb, hpasses⟩, rfl⟩

end

/-- On a word of the vocabulary the list and the judge agree: it is listed exactly if it is
accepted, and both report the best laying. -/
def Agree (casing : Casing) (checker : Option (Word → Bool)) (d : ValidCache) (vocab : Vocabulary)
    (rack : List Tile) (word : Word) : Prop :=
  ((∃ e ∈ (rackWords checker d vocab rack).2, e.word = word) ↔
      (checkRackWord casing checker d (rack.map Tile.asStr) word).2.ok = true) ∧
    ∀ e ∈ (rackWords checker d vocab rack).2, e.word = word →
      e.score = (checkRackWord casing checker d (rack.map Tile.asStr) word).2.score ∧
        ∃ tiles, BestLaying rack tiles word ∧ e.score = (worth tiles).1

/-- A word as `check_rack_word` reads it, and more than a single tile. -/
structure Typed (casing : Casing) (word : Word) : Prop where
  upper : casing.toUppercase (trim word) = word
  several : ∀ t : Tile, t.asStr ≠ word

theorem agree_of_typed {casing : Casing} (checker : Option (Word → Bool)) (d : ValidCache)
    {vocab : Vocabulary} {rack : List Tile} {word : Word} (hblank : Tile.blank ∉ rack)
    (hsize : rack.length ≤ rackSize) (hvocab : word ∈ vocab.words) (htyped : Typed casing word) :
    Agree casing checker d vocab rack word := by
  obtain ⟨hupper, hseveral⟩ := htyped
  have hlisted := exists_mem_rackWords_iff checker d rack hvocab hseveral
  have hletters {tiles : List Tile} (h : Laying rack tiles word) : 2 ≤ word.length := by
    have htwo := h.two_le hseveral
    have hlen := (h.tiling hblank).length_bounds.1
    omega
  rcases checkRackWord_cases checker d hblank hsize hupper with
    ⟨tiles, hbest, hpasses, -, hok, hscore⟩ | ⟨hnot, hnone⟩
  · refine ⟨?_, ?_⟩
    · rw [hlisted, hok]
      exact iff_of_true ⟨⟨tiles, hbest.laying⟩, hpasses⟩ rfl
    · rintro e he rfl
      obtain ⟨tiles', hbest', hscore', -⟩ := bestLaying_of_mem he hseveral
      refine ⟨?_, tiles', hbest', hscore'⟩
      rw [hscore', hscore, hbest'.worth_eq hbest]
  · have hunlisted : ¬∃ e ∈ (rackWords checker d vocab rack).2, e.word = word := by
      rw [hlisted]
      rintro ⟨⟨tiles, h⟩, hpasses⟩
      exact hnone ⟨⟨tiles, h⟩, hpasses, hletters h⟩
    refine ⟨iff_of_false hunlisted (by simp [hnot]), fun e he hword => ?_⟩
    exact absurd ⟨e, he, hword⟩ hunlisted

theorem typed_of_spelled (casing : Casing) {word : Word} (h : Vocabulary.Spelled word) :
    Typed casing word := by
  have htrim : trim word = word := trim_eq_self fun c hc =>
    Casing.of_alphabet (p := fun c => isWhitespace c = false) (by decide +kernel) (h.upper c hc)
  exact ⟨by rw [htrim, casing.toUppercase_of_upper h.upper], h.several⟩

/-- **The list agrees with its judge** on every word of the vocabulary that reads as it is typed
in and is more than a single tile. The words of a loaded vocabulary are all of this kind. -/
theorem rackWords_agree (casing : Casing) (checker : Option (Word → Bool)) (d : ValidCache) :
    (∀ (vocab : Vocabulary) (rack : List Tile) (word : Word), Tile.blank ∉ rack →
        rack.length ≤ rackSize → word ∈ vocab.words → Typed casing word →
          Agree casing checker d vocab rack word) ∧
      ∀ (affixes : Option AffixChecker) (rejected lines : List Word) (inflect : Bool)
        (rack : List Tile) (word : Word), Tile.blank ∉ rack → rack.length ≤ rackSize →
          word ∈ (Vocabulary.loadVocabulary casing affixes rejected lines inflect).words →
            Agree casing checker d
              (Vocabulary.loadVocabulary casing affixes rejected lines inflect) rack word := by
  constructor
  · intro vocab rack word hblank hsize hvocab htyped
    exact agree_of_typed checker d hblank hsize hvocab htyped
  · intro affixes rejected lines inflect rack word hblank hsize hvocab
    have hspelled := Vocabulary.loaded_spelled casing affixes rejected lines inflect hvocab
    exact agree_of_typed checker d hblank hsize hvocab (typed_of_spelled casing hspelled)

/-- A vocabulary of one word. -/
def Vocabulary.single (word : Word) : Vocabulary := ⟨[word], List.pairwise_singleton _ _⟩

theorem typed_alma : Typed .hungarian ['A', 'L', 'M', 'A'] :=
  ⟨by decide +kernel, by decide +kernel⟩

theorem rackWords_agree_alma :
    Agree .hungarian none ⟨Lists.empty, ∅⟩ (.single ['A', 'L', 'M', 'A']) [1, 6, 10, 1]
        ['A', 'L', 'M', 'A'] ∧
      Agree .hungarian none ⟨Lists.empty, ∅⟩
        (Vocabulary.loadVocabulary .hungarian none [] [['1'], ['a', 'l', 'm', 'a', '/', 'X']] false)
        [1, 6, 10, 1, 19] ['A', 'L', 'M', 'A'] :=
  ⟨(rackWords_agree .hungarian none ⟨Lists.empty, ∅⟩).1 _ _ _ (by decide) (by decide)
      List.mem_cons_self typed_alma,
    (rackWords_agree .hungarian none ⟨Lists.empty, ∅⟩).2 none [] _ false _ _ (by decide) (by decide)
      (by decide +kernel)⟩

/-! ## Where they disagree -/

theorem not_agree {casing : Casing} {checker : Option (Word → Bool)} {d : ValidCache}
    {vocab : Vocabulary} {rack : List Tile} {word : Word}
    (hnone : (rackWords checker d vocab rack).2 = [])
    (hok : (checkRackWord casing checker d (rack.map Tile.asStr) word).2.ok = true) :
    ¬Agree casing checker d vocab rack word := by
  intro h
  obtain ⟨e, he, -⟩ := h.1.mpr hok
  rw [hnone] at he
  cases he

/-- The one tile `SZ` is accepted as a word of two letters by a server without a dictionary, but
only words of two tiles are listed; and the judge drops the white space before a word. -/
theorem rackWords_disagree :
    ¬Agree .hungarian none ⟨Lists.empty, ∅⟩ (.single ['S', 'Z']) [19, 1] ['S', 'Z'] ∧
      ¬Agree .hungarian none ⟨Lists.empty, ∅⟩ (.single [' ', 'A', 'L', 'M', 'A']) [1, 6, 10, 1]
        [' ', 'A', 'L', 'M', 'A'] :=
  ⟨not_agree (by decide +kernel) (by decide +kernel),
    not_agree (by decide +kernel) (by decide +kernel)⟩

end ScrabbleMagyar
