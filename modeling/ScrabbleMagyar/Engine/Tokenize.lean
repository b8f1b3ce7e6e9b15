import ScrabbleMagyar.Engine.Board
import ScrabbleMagyar.Foundations.Pieces
import Mathlib.Algebra.Order.Monoid.Prod
import Mathlib.Data.List.Chain

/-!
# Words as tiles

The decomposition of a word into tiles (`tokenize_word` in `engine/tiles.rs`): the fewest tiles,
and the most valuable ones among as many.

Upper case letters of characters outside the Hungarian alphabet are not part of the model: a
`Casing` is any table that has the letters of the alphabet right.

* `tokenizeWord_exact`: a word is decomposed exactly if its upper case form is a row of tile
  texts; the decomposition is the best one, and it splits no digraph.
-/

namespace ScrabbleMagyar

/-- An upper case letter of the Hungarian alphabet. -/
def isUpperLetter (c : Char) : Bool :=
  c.isUpper || ['Á', 'É', 'Í', 'Ó', 'Ö', 'Ő', 'Ú', 'Ü', 'Ű'].contains c

/-- A lower case letter of the Hungarian alphabet. -/
def isLowerLetter (c : Char) : Bool :=
  c.isLower || ['á', 'é', 'í', 'ó', 'ö', 'ő', 'ú', 'ü', 'ű'].contains c

/-- `char::to_uppercase`: the characters that stand for a character in upper case. -/
structure Casing where
  upper : Char → List Char
  upper_upper : ∀ c, isUpperLetter c = true → upper c = [c]
  upper_lower : ∀ c, isUpperLetter c = true → upper (lowerChar c) = [c]

namespace Casing

/-- `str::to_uppercase`. -/
def toUppercase (casing : Casing) (word : Word) : Word := word.flatMap casing.upper

theorem toUppercase_of_upper (casing : Casing) {word : Word}
    (h : ∀ c ∈ word, isUpperLetter c = true) : casing.toUppercase word = word := by
  induction word with
  | nil => rfl
  | cons c word ih =>
    have hword := ih fun d hd => h d (List.mem_cons_of_mem _ hd)
    rw [toUppercase] at hword
    rw [toUppercase, List.flatMap_cons, casing.upper_upper c (h c List.mem_cons_self), hword]
    rfl

/-- The upper case of a letter of the alphabet; other characters are left alone. -/
def upperChar (c : Char) : Char :=
  match c with
  | 'á' => 'Á' | 'é' => 'É' | 'í' => 'Í' | 'ó' => 'Ó' | 'ö' => 'Ö'
  | 'ő' => 'Ő' | 'ú' => 'Ú' | 'ü' => 'Ü' | 'ű' => 'Ű'
  | c => c.toUpper

/-- The upper case letters of the Hungarian alphabet. -/
def alphabet : List Char :=
  (List.range 26).map (fun i => Char.ofNat (65 + i)) ++ ['Á', 'É', 'Í', 'Ó', 'Ö', 'Ő', 'Ú', 'Ü', 'Ű']

theorem mem_alphabet {c : Char} (h : isUpperLetter c = true) : c ∈ alphabet := by
  simp only [isUpperLetter, Bool.or_eq_true, List.contains_iff_mem] at h
  refine List.mem_append.mpr (h.imp (fun hupper => ?_) id)
  have hval : decide (c.val ≥ 65 ∧ c.val ≤ 90) = true := hupper
  obtain ⟨hlow, hhigh⟩ : 65 ≤ c.toNat ∧ c.toNat ≤ 90 := by
    simpa [UInt32.le_iff_toNat_le] using hval
  refine List.mem_map.mpr ⟨c.toNat - 65, List.mem_range.mpr (by omega), ?_⟩
  rw [Nat.add_sub_cancel' hlow, Char.ofNat_toNat]

/-- What can be checked letter by letter holds of every upper case letter. -/
theorem of_alphabet {p : Char → Prop} [DecidablePred p]
    (hall : (alphabet.all fun c => decide (p c)) = true) {c : Char} (h : isUpperLetter c = true) :
    p c :=
  of_decide_eq_true (List.all_eq_true.mp hall c (mem_alphabet h))

/-- Every lower case letter is the one of an upper case letter. -/
theorem exists_lowerChar {c : Char} (h : isLowerLetter c = true) :
    ∃ u, isUpperLetter u = true ∧ lowerChar u = c := by
  have hascii : ∀ i ∈ List.range 26, isUpperLetter (Char.ofNat (65 + i)) = true ∧
      lowerChar (Char.ofNat (65 + i)) = Char.ofNat (97 + i) := by decide +kernel
  have haccent : (['á', 'é', 'í', 'ó', 'ö', 'ő', 'ú', 'ü', 'ű'].all fun c =>
      isUpperLetter (upperChar c) && decide (lowerChar (upperChar c) = c)) = true := by
    decide +kernel
  rw [isLowerLetter, Bool.or_eq_true, List.contains_iff_mem] at h
  rcases h with hlower | hmem
  · have hval : (decide (c.val ≥ 97) && decide (c.val ≤ 122)) = true := hlower
    obtain ⟨hlow, hhigh⟩ : 97 ≤ c.toNat ∧ c.toNat ≤ 122 := by
      simpa [UInt32.le_iff_toNat_le] using hval
    obtain ⟨hu, hc⟩ := hascii (c.toNat - 97) (List.mem_range.mpr (by omega))
    rw [Nat.add_sub_cancel' hlow, Char.ofNat_toNat] at hc
    exact ⟨_, hu, hc⟩
  · have hc := List.all_eq_true.mp haccent c hmem
    rw [Bool.and_eq_true, decide_eq_true_eq] at hc
    exact ⟨_, hc⟩

/-- A word of lower case letters is the lower case of its upper case form. -/
theorem toUppercase_of_lower (casing : Casing) {word : Word}
    (h : ∀ c ∈ word, isLowerLetter c = true) :
    (∀ c ∈ casing.toUppercase word, isUpperLetter c = true) ∧
      toLowercase (casing.toUppercase word) = word := by
  induction word with
  | nil => exact ⟨by simp [toUppercase], rfl⟩
  | cons c word ih =>
    obtain ⟨hupper, hlower⟩ := ih fun d hd => h d (List.mem_cons_of_mem _ hd)
    obtain ⟨u, hu, rfl⟩ := exists_lowerChar (h c List.mem_cons_self)
    have hcons : casing.toUppercase (lowerChar u :: word) = u :: casing.toUppercase word := by
      rw [toUppercase, List.flatMap_cons, casing.upper_lower u hu]
      rfl
    rw [hcons]
    refine ⟨List.forall_mem_cons.mpr ⟨hu, hupper⟩, ?_⟩
    rw [toLowercase, List.map_cons, ← toLowercase, hlower]

theorem toUppercase_toLowercase (casing : Casing) {word : Word}
    (h : ∀ c ∈ word, isUpperLetter c = true) : casing.toUppercase (toLowercase word) = word := by
  induction word with
  | nil => rfl
  | cons c word ih =>
    have hword := ih fun d hd => h d (List.mem_cons_of_mem _ hd)
    rw [toUppercase] at hword
    rw [toLowercase, List.map_cons, ← toLowercase, toUppercase, List.flatMap_cons, hword,
      casing.upper_lower c (h c List.mem_cons_self)]
    rfl

/-- The casing that knows the letters of the alphabet only. -/
def hungarian : Casing where
  upper c := [upperChar c]
  upper_upper _ h := of_alphabet (p := fun c => [upperChar c] = [c]) (by decide +kernel) h
  upper_lower _ h :=
    of_alphabet (p := fun c => [upperChar (lowerChar c)] = [c]) (by decide +kernel) h

end Casing

/-! ## The decomposition -/

/-- The best decomposition of the first letters of a word, with its number of tiles and its
negated value, of which the smaller is the better. -/
abbrev Split := (ℕ ×ₗ ℤ) × List Tile

/-- The body of the inner loop: the next `size` letters as one tile. -/
def trySize (upper : Word) (i : ℕ) (found : Split) (best : ℕ → Option Split) (size : ℕ) :
    ℕ → Option Split :=
  if upper.length < i + size then best
  else
    let piece := (upper.drop i).take size
    match Tile.fromStr piece with
    | none => best
    | some tile =>
      if tile.isBlank then best
      else
        let (count, negScore) := ofLex found.1
        let cand := toLex (count + 1, negScore - tile.value)
        let better := match best (i + size) with
          | none => true
          | some r => cand < r.1
        if better then Function.update best (i + size) (some (cand, found.2 ++ [tile])) else best

/-- The body of the outer loop, for the first `i` letters. -/
def tryLetters (upper : Word) (best : ℕ → Option Split) (i : ℕ) : ℕ → Option Split :=
  match best i with
  | none => best
  | some found => [1, 2].foldl (trySize upper i found) best

/-- The tiles that spell a word; `none` if there are none. -/
def tokenizeWord (casing : Casing) (word : Word) : Option (List Tile) :=
  let upper := casing.toUppercase word
  let start : ℕ → Option Split := Function.update (fun _ => none) 0 (some (toLex (0, 0), []))
  ((List.range upper.length).foldl (tryLetters upper) start upper.length).map Prod.snd

/-- Only the upper case form of a word is looked at. -/
theorem tokenizeWord_congr {casing casing' : Casing} {word word' : Word}
    (h : casing.toUppercase word = casing'.toUppercase word') :
    tokenizeWord casing word = tokenizeWord casing' word' := by
  simp only [tokenizeWord, h]

/-- The sum of the letter values of a word, without premium squares. -/
def wordBaseScore (casing : Casing) (word : Word) : Option ℕ :=
  (tokenizeWord casing word).map fun tokens => (tokens.map Tile.value).sum

/-- Tiles without blanks whose texts give a word, one after the other. -/
structure Tiling (tiles : List Tile) (word : Word) : Prop where
  lettered : ∀ t ∈ tiles, t ≠ Tile.blank
  text : (tiles.map Tile.asStr).flatten = word

namespace Tile

/-- A tile that is not the blank has one letter or two. -/
theorem length_asStr {t : Tile} (h : t ≠ blank) : t.asStr.length ∈ [1, 2] := by
  revert t
  decide +kernel

end Tile

namespace Tiling

variable {tiles tiles' : List Tile} {word word' : Word}

theorem nil : Tiling [] [] := ⟨by simp, rfl⟩

theorem append (h : Tiling tiles word) (h' : Tiling tiles' word') :
    Tiling (tiles ++ tiles') (word ++ word') where
  lettered t ht := (List.mem_append.mp ht).elim (h.lettered t) (h'.lettered t)
  text := by rw [List.map_append, List.flatten_append, h.text, h'.text]

theorem singleton {t : Tile} (h : t ≠ Tile.blank) : Tiling [t] t.asStr :=
  ⟨by simpa using h, by simp⟩

/-- Two neighbours that spell a tile can be replaced by it. -/
theorem merge {before after : List Tile} {a b t : Tile} (h : Tiling (before ++ a :: b :: after) word)
    (ht : t ≠ Tile.blank) (htext : t.asStr = a.asStr ++ b.asStr) :
    Tiling (before ++ t :: after) word where
  lettered := by
    intro u hu
    rcases List.mem_append.mp hu with hu | hu
    · exact h.lettered u (List.mem_append_left _ hu)
    · rcases List.mem_cons.mp hu with rfl | hu
      · exact ht
      · exact h.lettered u (List.mem_append_right _ (by simp [hu]))
  text := by
    rw [← h.text]
    simp [htext]

end Tiling

/-! ## The search as a cheapest cover -/

/-- The tile that the `size` letters after the first `i` spell. -/
def pieceAt (upper : Word) (i size : ℕ) : Option Tile :=
  if upper.length < i + size then none
  else (Tile.fromStr ((upper.drop i).take size)).filter fun t => !t.isBlank

/-- What a tile costs: one tile, less its value. -/
def tileCost (t : Tile) : ℕ ×ₗ ℤ := toLex (1, -t.value)

theorem pieceAt_eq_some {upper : Word} {i size : ℕ} {t : Tile} :
    pieceAt upper i size = some t ↔
      i + size ≤ upper.length ∧ t ≠ Tile.blank ∧ (upper.drop i).take size = t.asStr := by
  unfold pieceAt
  split
  · rename_i hshort
    simp only [reduceCtorEq, false_iff]
    omega
  rename_i hfits
  simp only [Option.filter_eq_some_iff, Tile.isBlank, Bool.not_eq_true', beq_eq_false_iff_ne]
  constructor
  · rintro ⟨htile, hblank⟩
    exact ⟨by omega, hblank, (Tile.asStr_of_fromStr htile).symm⟩
  · rintro ⟨-, hblank, htext⟩
    exact ⟨by rw [htext, Tile.fromStr_asStr], hblank⟩

theorem trySize_eq (upper : Word) (i : ℕ) (found : Split) :
    trySize upper i found = Pieces.offer (pieceAt upper) tileCost i found := by
  funext best size
  unfold trySize Pieces.offer pieceAt
  by_cases hshort : upper.length < i + size
  · simp only [hshort, if_true]
  simp only [hshort, if_false]
  cases htile : Tile.fromStr ((upper.drop i).take size) with
  | none => simp only [Option.filter_none]
  | some tile =>
    have hcost : found.1 + tileCost tile =
        toLex ((ofLex found.1).1 + 1, (ofLex found.1).2 - tile.value) := rfl
    cases hblank : tile.isBlank with
    | true =>
      simp only [Option.filter_some, hblank, Bool.not_true, Bool.false_eq_true, if_false, if_true]
    | false =>
      simp only [Option.filter_some, hblank, Bool.not_false, if_true, Bool.false_eq_true,
        if_false, hcost]
      cases best (i + size) <;> rfl

theorem tokenizeWord_eq (casing : Casing) (word : Word) :
    tokenizeWord casing word =
      (Pieces.run (pieceAt (casing.toUppercase word)) [1, 2] tileCost
        (casing.toUppercase word).length (casing.toUppercase word).length).map Prod.snd := by
  have hstep (upper : Word) :
      tryLetters upper = Pieces.relax (pieceAt upper) [1, 2] tileCost := by
    funext best i
    unfold tryLetters Pieces.relax
    cases best i with
    | none => rfl
    | some found => simp only [trySize_eq]
  simp only [tokenizeWord, Pieces.run, hstep]
  rfl

/-- The covers of the first letters of a word are the tiles that spell them. -/
theorem cover_iff_tiling {upper : Word} {tiles : List Tile} {k : ℕ} :
    Pieces.Cover (pieceAt upper) [1, 2] tiles k ↔
      k ≤ upper.length ∧ Tiling tiles (upper.take k) := by
  constructor
  · intro h
    induction h with
    | nil => exact ⟨Nat.zero_le _, Tiling.nil⟩
    | @snoc l i s t _ _ piece ih =>
      obtain ⟨hfits, hblank, htext⟩ := pieceAt_eq_some.mp piece
      refine ⟨hfits, ?_⟩
      rw [List.take_add, htext]
      exact ih.2.append (.singleton hblank)
  · rintro ⟨hk, h⟩
    induction tiles using List.reverseRecOn generalizing k with
    | nil =>
      have hnil : upper.take k = [] := h.text.symm
      obtain rfl : k = 0 := by
        have := congrArg List.length hnil
        rw [List.length_take, List.length_nil] at this
        omega
      exact .nil
    | append_singleton l t ih =>
      have hblank := h.lettered t (by simp)
      have htake : (l.map Tile.asStr).flatten ++ t.asStr = upper.take k := by
        rw [← h.text]
        simp
      -- the last tile covers the last letters of the word
      obtain ⟨i, rfl⟩ : ∃ i, k = i + t.asStr.length := by
        refine ⟨k - t.asStr.length, (Nat.sub_add_cancel ?_).symm⟩
        have := congrArg List.length htake
        rw [List.length_append, List.length_take] at this
        omega
      have hlen : ((l.map Tile.asStr).flatten).length = i := by
        have := congrArg List.length htake
        rw [List.length_append, List.length_take, min_eq_left hk] at this
        omega
      rw [List.take_add] at htake
      obtain ⟨hbefore, hpiece⟩ := List.append_inj htake
        (by rw [hlen, List.length_take, min_eq_left (by omega)])
      refine (ih (by omega) ⟨fun u hu => h.lettered u (by simp [hu]), hbefore⟩).snoc
        (Tile.length_asStr hblank) (pieceAt_eq_some.mpr ⟨hk, hblank, hpiece.symm⟩)

theorem total_tileCost (tiles : List Tile) :
    Pieces.total tileCost tiles = toLex (tiles.length, -((tiles.map Tile.value).sum : ℤ)) := by
  induction tiles with
  | nil => rfl
  | cons t tiles ih =>
    have hcons : Pieces.total tileCost (t :: tiles) = tileCost t + Pieces.total tileCost tiles := by
      simp [Pieces.total]
    rw [hcons, ih, tileCost, ← toLex_add]
    simp only [Prod.mk_add_mk, List.length_cons, List.map_cons, List.sum_cons, Nat.cast_add, neg_add,
      add_comm 1]

/-! ## The decomposition is the best one -/

/-- The tiles spell the word, no fewer do, and of as many none are worth more. -/
structure BestSplit (tiles : List Tile) (word : Word) : Prop where
  tiling : Tiling tiles word
  fewest : ∀ other, Tiling other word → tiles.length ≤ other.length
  worth : ∀ other, Tiling other word → other.length = tiles.length →
    (other.map Tile.value).sum ≤ (tiles.map Tile.value).sum

theorem bestSplit_of_tokenizeWord {casing : Casing} {word : Word} {tiles : List Tile}
    (h : tokenizeWord casing word = some tiles) : BestSplit tiles (casing.toUppercase word) := by
  rw [tokenizeWord_eq] at h
  obtain ⟨r, hr, rfl⟩ := Option.map_eq_some_iff.mp h
  obtain ⟨hcover, hcost⟩ := Pieces.run_cover _ hr
  have htiling : Tiling r.2 (casing.toUppercase word) := by
    simpa using (cover_iff_tiling.mp hcover).2
  have hle (other : List Tile) (hother : Tiling other (casing.toUppercase word)) :
      toLex (r.2.length, -((r.2.map Tile.value).sum : ℤ)) ≤
        toLex (other.length, -((other.map Tile.value).sum : ℤ)) := by
    obtain ⟨r', hr', hle⟩ := Pieces.run_le tileCost (by simp)
      (cover_iff_tiling.mpr ⟨le_rfl, by simpa using hother⟩)
    obtain rfl := Option.some.inj (hr.symm.trans hr')
    rwa [hcost, total_tileCost, total_tileCost] at hle
  refine ⟨htiling, fun other hother => ?_, fun other hother hlen => ?_⟩
  · rcases Prod.Lex.toLex_le_toLex.mp (hle other hother) with hlt | ⟨heq, -⟩
    · exact hlt.le
    · exact heq.le
  · rcases Prod.Lex.toLex_le_toLex.mp (hle other hother) with hlt | ⟨-, hvalue⟩
    · exact absurd hlt (by simp [hlen])
    · exact Int.ofNat_le.mp (neg_le_neg_iff.mp hvalue)

theorem isSome_tokenizeWord_iff (casing : Casing) (word : Word) :
    (tokenizeWord casing word).isSome = true ↔ ∃ tiles, Tiling tiles (casing.toUppercase word) := by
  constructor
  · intro h
    obtain ⟨tiles, htiles⟩ := Option.isSome_iff_exists.mp h
    exact ⟨tiles, (bestSplit_of_tokenizeWord htiles).tiling⟩
  · rintro ⟨tiles, htiles⟩
    obtain ⟨r, hr, -⟩ := Pieces.run_le tileCost (by simp)
      (cover_iff_tiling.mpr ⟨le_rfl, by simpa using htiles⟩)
    rw [tokenizeWord_eq, hr]
    rfl

/-! ## The letters of the tiles -/

/-- Whether a letter can be laid after the one before it: no tile has a `Q`, a `W` or an `X`, and
`Y` is only the second letter of a digraph. -/
def letterFits (before : Option Char) (c : Char) : Bool :=
  if ['Q', 'W', 'X'].contains c then false
  else if c = 'Y' then before.any fun b => ['G', 'L', 'N', 'T'].contains b
  else true

def lettersFit : Option Char → Word → Bool
  | _, [] => true
  | before, c :: word => letterFits before c && lettersFit (some c) word

/-- What comes before matters only before a `Y`. -/
theorem letterFits_of_ne {before : Option Char} {c : Char} (hc : c ≠ 'Y') (before' : Option Char) :
    letterFits before c = letterFits before' c := by
  simp [letterFits, hc]

theorem lettersFit_some {b : Char} (hb : b ∉ ['G', 'L', 'N', 'T']) (word : Word) :
    lettersFit (some b) word = lettersFit none word := by
  cases word with
  | nil => rfl
  | cons c word =>
    have hfits : letterFits (some b) c = letterFits none c := by
      simp only [letterFits, Option.any_some, Option.any_none, List.contains_eq_mem, hb,
        decide_false]
    rw [lettersFit, lettersFit, hfits]

/-- The letters of a tile fit, whatever comes before. -/
theorem lettersFit_asStr {t : Tile} (ht : t ≠ Tile.blank) (before : Option Char) (rest : Word) :
    lettersFit before (t.asStr ++ rest) = lettersFit t.asStr.getLast? rest := by
  have hall : ∀ t : Tile, t ≠ Tile.blank → letterFits none (t.asStr.headD 'Y') = true ∧
      lettersFit t.asStr.head? t.asStr.tail = true ∧ t.asStr.length ∈ [1, 2] := by
    decide +kernel
  obtain ⟨hhead, htail, hlen⟩ := hall t ht
  match htext : t.asStr with
  | [] => simp [htext] at hlen
  | [c] =>
    rw [htext, List.headD_cons] at hhead
    have hc : c ≠ 'Y' := by
      rintro rfl
      cases hhead
    rw [letterFits_of_ne hc before] at hhead
    simp [lettersFit, hhead]
  | [c, d] =>
    rw [htext, List.headD_cons] at hhead
    have hc : c ≠ 'Y' := by
      rintro rfl
      cases hhead
    rw [letterFits_of_ne hc before] at hhead
    have hd : letterFits (some c) d = true := by simpa [htext, lettersFit] using htail
    simp [lettersFit, hhead, hd]
  | _ :: _ :: _ :: _ => simp [htext] at hlen

theorem Tiling.lettersFit {tiles : List Tile} {word : Word} (h : Tiling tiles word)
    (before : Option Char) : lettersFit before word = true := by
  obtain ⟨hlettered, rfl⟩ := h
  induction tiles generalizing before with
  | nil => rfl
  | cons t tiles ih =>
    obtain ⟨ht, htiles⟩ := List.forall_mem_cons.mp hlettered
    rw [List.map_cons, List.flatten_cons, lettersFit_asStr ht]
    exact ih _ htiles

theorem exists_single {c : Char} (hc : isUpperLetter c = true) (hfits : letterFits none c = true) :
    ∃ t, t ≠ Tile.blank ∧ t.asStr = [c] := by
  let p (c : Char) : Prop := letterFits none c = true → ∃ t, t ≠ Tile.blank ∧ t.asStr = [c]
  exact Casing.of_alphabet (p := p) (by decide +kernel) hc hfits

/-- Letters that fit can be laid: a digraph wherever there is a `Y`, and single letters else. -/
theorem exists_tiling : ∀ {word : Word}, (∀ c ∈ word, isUpperLetter c = true) →
    lettersFit none word = true → ∃ tiles, Tiling tiles word
  | [], _, _ => ⟨[], .nil⟩
  | [c], hupper, hfits => by
    have hc : letterFits none c = true := by simpa [lettersFit] using hfits
    obtain ⟨t, ht, htext⟩ := exists_single (hupper c List.mem_cons_self) hc
    exact ⟨[t], htext ▸ .singleton ht⟩
  | c :: d :: word, hupper, hfits => by
    obtain ⟨hc, hrest⟩ := List.forall_mem_cons.mp hupper
    obtain ⟨-, hword⟩ := List.forall_mem_cons.mp hrest
    simp only [lettersFit, Bool.and_eq_true] at hfits
    obtain ⟨hfc, hfd, hfword⟩ := hfits
    by_cases hd : d = 'Y'
    · subst hd
      have hdigraph : ∀ b ∈ ['G', 'L', 'N', 'T'], ∃ t, t ≠ Tile.blank ∧ t.asStr = [b, 'Y'] :=
        List.forall_iff_forall_mem.mp (by decide +kernel)
      have hmem : c ∈ ['G', 'L', 'N', 'T'] := by simpa [letterFits] using hfd
      obtain ⟨t, ht, htext⟩ := hdigraph c hmem
      rw [lettersFit_some (by decide)] at hfword
      obtain ⟨tiles, htiles⟩ := exists_tiling hword hfword
      have hcons := (Tiling.singleton ht).append htiles
      rw [htext] at hcons
      exact ⟨_, hcons⟩
    · obtain ⟨t, ht, htext⟩ := exists_single hc hfc
      have hfrest : lettersFit none (d :: word) = true := by
        rw [lettersFit, letterFits_of_ne hd (some c), hfd, hfword, Bool.and_self]
      obtain ⟨tiles, htiles⟩ := exists_tiling hrest hfrest
      have hcons := (Tiling.singleton ht).append htiles
      rw [htext] at hcons
      exact ⟨_, hcons⟩

/-- **The words that can be laid** are those whose letters fit. -/
theorem isSome_tokenizeWord_iff_lettersFit (casing : Casing) {word : Word}
    (hupper : ∀ c ∈ word, isUpperLetter c = true) :
    (tokenizeWord casing word).isSome = true ↔ lettersFit none word = true := by
  rw [isSome_tokenizeWord_iff, casing.toUppercase_of_upper hupper]
  exact ⟨fun ⟨_, h⟩ => h.lettersFit none, exists_tiling hupper⟩

/-! ## No digraph is split -/

/-- Two single letters that form a digraph can be laid with its tile. -/
theorem exists_tile_of_formsDigraph {first second : Word} (h : formsDigraph first second = true) :
    ∃ t, t ≠ Tile.blank ∧ t.asStr = first ++ second := by
  unfold formsDigraph at h
  simp only [Bool.and_eq_true, List.any_eq_true, beq_iff_eq] at h
  obtain ⟨-, e, he, htext, hlen⟩ := h
  have hall : ∀ e ∈ tileDistribution, e.1.length = 2 → ∃ t, t ≠ Tile.blank ∧ t.asStr = e.1 := by
    decide +kernel
  rw [← htext]
  exact hall e he hlen

theorem BestSplit.isChain {tiles : List Tile} {word : Word} (h : BestSplit tiles word) :
    tiles.IsChain fun a b => formsDigraph a.asStr b.asStr = false := by
  refine List.isChain_iff_forall_rel_of_append_cons_cons.mpr fun {a b before after} htiles => ?_
  by_contra hforms
  obtain ⟨t, ht, htext⟩ := exists_tile_of_formsDigraph (Bool.not_eq_false _ ▸ hforms)
  -- the digraph as one tile would be a shorter decomposition
  have htiling := h.tiling
  rw [htiles] at htiling
  have hle := h.fewest _ (htiling.merge ht htext)
  rw [htiles] at hle
  simp at hle

/-- Tiles in a line that split no digraph pass the check of the board. -/
theorem findSplitDigraph_of_isChain {tiles : List Tile}
    (h : tiles.IsChain fun a b => formsDigraph a.asStr b.asStr = false) (b : Board)
    (newPositions : Mask)
    {word : FormedWord} (hword : word.positions.map b.textAt = tiles.map Tile.asStr) :
    b.findSplitDigraph [word] newPositions = none := by
  have hchain : word.positions.IsChain fun s t => formsDigraph (b.textAt s) (b.textAt t) = false := by
    rw [← List.isChain_map (R := fun u v => formsDigraph u v = false) b.textAt, hword,
      List.isChain_map]
    exact h
  simp only [Board.findSplitDigraph, List.findSome?_cons, List.findSome?_nil]
  have hnone : b.splitDigraphIn newPositions word = none := by
    refine List.findSome?_eq_none_iff.mpr ?_
    rintro ⟨first, second⟩ hpair
    have hforms : formsDigraph (b.textAt first) (b.textAt second) = false := by
      obtain ⟨i, hi, hget⟩ := List.mem_iff_getElem.mp hpair
      rw [List.getElem_zip, List.getElem_tail, Prod.mk.injEq] at hget
      rw [← hget.1, ← hget.2]
      exact List.isChain_iff_getElem.mp hchain i _
    simp [hforms]
  rw [hnone]

/-- **The decomposition into tiles is optimal and playable.** A word is decomposed exactly if its
upper case form is a row of tile texts. The tiles then spell that form, there are no fewer that
do and of as many none are worth more, and laid in a line they never break the rule against split
digraphs. -/
theorem tokenizeWord_exact (casing : Casing) (word : Word) :
    ((tokenizeWord casing word).isSome = true ↔
        ∃ tiles, Tiling tiles (casing.toUppercase word)) ∧
      ∀ tiles, tokenizeWord casing word = some tiles →
        BestSplit tiles (casing.toUppercase word) ∧
          (tiles.IsChain fun a b => formsDigraph a.asStr b.asStr = false) ∧
          ∀ (b : Board) (newPositions : Mask) (laid : FormedWord),
            laid.positions.map b.textAt = tiles.map Tile.asStr →
              b.findSplitDigraph [laid] newPositions = none := by
  refine ⟨isSome_tokenizeWord_iff casing word, fun tiles htiles => ?_⟩
  have hbest := bestSplit_of_tokenizeWord htiles
  exact ⟨hbest, hbest.isChain, fun b newPositions laid hlaid =>
    findSplitDigraph_of_isChain hbest.isChain b newPositions hlaid⟩

/-- Of two decompositions into as many tiles the more valuable one: `ZS` outweighs `SZ`. -/
example : (tokenizeWord Casing.hungarian ['k', 'é', 's', 'z', 's', 'é', 'g']).map
    (List.map Tile.asStr) = some [['K'], ['É'], ['S'], ['Z', 'S'], ['É'], ['G']] := by
  decide +kernel

end ScrabbleMagyar
