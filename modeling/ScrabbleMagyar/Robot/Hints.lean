import ScrabbleMagyar.Robot.Exactness

/-!
# The hints are the best moves

The moves that are looked up in the dictionary come in batches, until enough of them are valid
(`first_valid` in `robot/ai.rs`). `firstValid_eq`: the batches change nothing. With the exact search,
`bestMoves_best`: no valid placement is left out for one with a lower score.
-/

namespace ScrabbleMagyar

namespace Robot

open Board

/-! ## The batches -/

theorem flatMap_chunks {α : Type*} (size : ℕ) (l : List α) (m : ℕ) :
    ((List.range m).flatMap fun k => (l.drop (size * k)).take size) = l.take (size * m) := by
  induction m with
  | zero => simp
  | succ m ih => rw [List.range_succ, List.flatMap_append, ih, Nat.mul_succ, List.take_add]; simp

theorem flatten_chunks {α : Type*} {size : ℕ} (hsize : 0 < size) (l : List α) :
    (chunks size l).flatten = l := by
  have hlen : l.length ≤ size * ((l.length + size - 1) / size) := by
    have hdiv := Nat.div_add_mod (l.length + size - 1) size
    have hmod := Nat.mod_lt (l.length + size - 1) hsize
    omega
  rw [chunks, ← List.flatMap_def, flatMap_chunks, List.take_of_length_le hlen]

/-- Take a member if it passes and one more is wanted. -/
def takeOne {α : Type*} (p : α → Bool) (wanted : ℕ) (chosen : List α) (a : α) : List α :=
  if chosen.length < wanted ∧ p a then chosen ++ [a] else chosen

theorem foldl_takeOne_of_le {α : Type*} (p : α → Bool) {wanted : ℕ} {chosen : List α}
    (h : wanted ≤ chosen.length) (l : List α) : l.foldl (takeOne p wanted) chosen = chosen := by
  induction l with
  | nil => rfl
  | cons a l ih => rw [List.foldl_cons, takeOne, if_neg (by omega), ih]

theorem foldl_takeOne {α : Type*} (p : α → Bool) (wanted : ℕ) (chosen l : List α) :
    l.foldl (takeOne p wanted) chosen =
      chosen ++ (l.filter p).take (wanted - chosen.length) := by
  induction l generalizing chosen with
  | nil => simp
  | cons a l ih =>
    rw [List.foldl_cons, takeOne]
    by_cases hp : p a = true
    · rw [List.filter_cons_of_pos hp]
      by_cases hroom : chosen.length < wanted
      · obtain ⟨n, hn⟩ : ∃ n, wanted - chosen.length = n + 1 := ⟨wanted - chosen.length - 1, by omega⟩
        rw [if_pos ⟨hroom, hp⟩, ih, hn, List.take_succ_cons, List.length_append, List.length_singleton,
          show wanted - (chosen.length + 1) = n by omega, List.append_assoc, List.singleton_append]
      · rw [if_neg (fun h => hroom h.1), ih, show wanted - chosen.length = 0 by omega]
        rfl
    · rw [if_neg (fun h => hp h.2), ih, List.filter_cons_of_neg hp]

/-- Every word of a move is accepted. -/
def Move.valid (lex : Lexicon) (m : Move) : Bool := m.words.all lex.accepts

/-- **The batches change nothing**: the moves chosen are the first valid ones. -/
theorem firstValid_eq (lex : Lexicon) (candidates : List Move) (wanted : ℕ) :
    firstValid lex candidates wanted = (candidates.filter (Move.valid lex)).take wanted := by
  -- in a batch the words found are those that are accepted
  have hstep (chunk chosen : List Move) :
      (if wanted ≤ chosen.length then chosen
        else
          let valid := lex.filterValid (chunk.flatMap Move.words)
          chunk.foldl (fun chosen m =>
            if chosen.length < wanted ∧ m.words.all valid.contains then chosen ++ [m] else chosen)
            chosen) = chunk.foldl (takeOne (Move.valid lex) wanted) chosen := by
    split
    · rename_i h
      exact (foldl_takeOne_of_le _ h chunk).symm
    · refine List.foldl_ext _ _ _ fun chosen m hm => ?_
      have hvalid : m.words.all (lex.filterValid (chunk.flatMap Move.words)).contains =
          Move.valid lex m := by
        rw [Move.valid, Bool.eq_iff_iff, List.all_eq_true, List.all_eq_true]
        refine forall₂_congr fun w hw => ?_
        rw [List.contains_iff_mem, Lexicon.filterValid, List.mem_filter]
        exact and_iff_right (List.mem_flatMap.mpr ⟨m, hm, hw⟩)
      rw [takeOne, hvalid]
  unfold firstValid
  simp only [hstep]
  rw [← List.foldl_flatten, flatten_chunks (by decide), foldl_takeOne]
  simp

/-! ## The best moves -/

/-- A placement that scores so much and forms only accepted words. -/
structure Hint (lex : Lexicon) (vocab : Vocabulary) (b : Board) (rack : List Tile)
    (tiles : List Placed) (score : ℤ) : Prop where
  affords : Affordable rack true tiles
  playable : ∃ formed main, Playable lex vocab b tiles formed main ∧
    (∀ w ∈ formed, lex.accepts w.word = true) ∧ score = Game.lerakasTotal formed tiles.length

variable {lex : Lexicon} {vocab : Vocabulary} {b : Board} {rack : List Tile} {count : ℕ}

theorem lerakasTotal_perm {formed formed' : List FormedWord} (h : formed.Perm formed') (n : ℕ) :
    Game.lerakasTotal formed n = Game.lerakasTotal formed' n := by
  rw [Game.lerakasTotal, Game.lerakasTotal, (h.map _).sum_eq]

theorem length_le_of_affordable {allowBlanks : Bool} {tiles : List Placed}
    (h : Affordable rack allowBlanks tiles) (hrack : rack.length ≤ handSize) :
    tiles.length ≤ handSize := by
  have hle := h.held.length_le
  rw [List.length_map] at hle
  exact hle.trans hrack

/-- The valid moves found are the hints. -/
theorem exists_valid_iff (lex : Lexicon) (vocab : Vocabulary)
    (hflag : b.isEmpty = true → ∀ s, ¬b.Occupied s) (hletters : Lettered b)
    (hrack : rack.length ≤ handSize) (hvocab : ∀ w ∈ vocab.words, ∀ t : Tile, t.asStr ≠ w)
    (tiles : List Placed) (score : ℤ) :
    (∃ m ∈ generateMoves lex vocab b rack true handSize, m.tiles.Perm tiles ∧ m.valid lex = true ∧
        m.score = score) ↔ Hint lex vocab b rack tiles score := by
  obtain ⟨hexact, -⟩ :=
    generateMoves_exact lex vocab b rack true handSize hflag hletters hrack hvocab
  constructor
  · rintro ⟨m, hm, hperm, hvalid, rfl⟩
    obtain ⟨haff, -, formed, main, hplay⟩ := (hexact tiles).mp ⟨m, hm, hperm⟩
    obtain ⟨formed', hfits⟩ := fits_of_mem_generateMoves hm
    obtain ⟨-, -, -, horder, -⟩ := formed_exact hfits.valid
    obtain ⟨formed'', hvalid'', hformed⟩ := horder tiles hperm
    obtain rfl : formed = formed'' := Except.ok.inj (hplay.valid.symm.trans hvalid'')
    refine ⟨haff, formed, main, hplay, fun w hw => ?_, ?_⟩
    · refine List.all_eq_true.mp hvalid w.word ?_
      rw [hfits.words]
      exact List.mem_map_of_mem (hformed.mem_iff.mp hw)
    · rw [hfits.score, ← hperm.length_eq, lerakasTotal_perm hformed]
  · rintro ⟨haff, formed, main, hplay, haccepted, rfl⟩
    obtain ⟨m, hm, hperm⟩ := (hexact tiles).mpr
      ⟨haff, length_le_of_affordable haff hrack, formed, main, hplay⟩
    obtain ⟨formed', hfits⟩ := fits_of_mem_generateMoves hm
    obtain ⟨-, -, -, horder, -⟩ := formed_exact hfits.valid
    obtain ⟨formed'', hvalid'', hformed⟩ := horder tiles hperm
    obtain rfl : formed = formed'' := Except.ok.inj (hplay.valid.symm.trans hvalid'')
    refine ⟨m, hm, hperm, List.all_eq_true.mpr fun w hw => ?_, ?_⟩
    · rw [hfits.words] at hw
      obtain ⟨v, hv, rfl⟩ := List.mem_map.mp hw
      exact haccepted v (hformed.mem_iff.mpr hv)
    · rw [hfits.score, hperm.length_eq, lerakasTotal_perm hformed]

/-- **The hints are the best moves** of those that are searched for: each is such a placement that
the hand affords, with accepted words only and its score, no two lay the same tiles, a higher score
comes first, and what is left out has no higher score than any of them, of which there are as many
as asked for. -/
theorem bestMoves_best (lex : Lexicon) (vocab : Vocabulary) (b : Board) (rack : List Tile)
    (count : ℕ) (hflag : b.isEmpty = true → ∀ s, ¬b.Occupied s) (hletters : Lettered b)
    (hrack : rack.length ≤ handSize) (hvocab : ∀ w ∈ vocab.words, ∀ t : Tile, t.asStr ≠ w) :
    let hints := bestMoves lex vocab b rack count
    (∀ m ∈ hints, Hint lex vocab b rack m.tiles m.score) ∧
      hints.Pairwise (fun m m' => m'.score ≤ m.score ∧ ¬m.tiles.Perm m'.tiles) ∧
      ∀ tiles score, Hint lex vocab b rack tiles score →
        (∃ m ∈ hints, m.tiles.Perm tiles ∧ m.score = score) ∨
          hints.length = count ∧ ∀ m ∈ hints, score ≤ m.score := by
  intro hints
  obtain ⟨-, hdistinct⟩ :=
    generateMoves_exact lex vocab b rack true handSize hflag hletters hrack hvocab
  let descending (m m' : Move) : Prop := m'.score ≤ m.score
  have htotal : Std.Total descending := ⟨fun m m' => le_total m'.score m.score⟩
  have htrans : IsTrans Move descending := ⟨fun _ _ _ h₁ h₂ => le_trans h₂ h₁⟩
  let moves := generateMoves lex vocab b rack true handSize
  let candidates := (moves.insertionSort descending).filter (Move.valid lex)
  have hhints : hints = candidates.take count :=
    firstValid_eq lex (moves.insertionSort descending) count
  have hperm : (moves.insertionSort descending).Perm moves := List.perm_insertionSort _ _
  have hmem (m : Move) : m ∈ candidates ↔ m ∈ moves ∧ m.valid lex = true := by
    rw [List.mem_filter, hperm.mem_iff]
  have hpairs : candidates.Pairwise fun m m' => m'.score ≤ m.score ∧ ¬m.tiles.Perm m'.tiles := by
    refine List.Pairwise.filter _ (List.Pairwise.and (List.pairwise_insertionSort descending moves) ?_)
    refine (hperm.pairwise_iff ?_).mpr hdistinct
    exact fun h h' => h h'.symm
  have hiff := exists_valid_iff lex vocab hflag hletters hrack hvocab
  refine ⟨fun m hm => ?_, hhints ▸ hpairs.sublist (List.take_sublist _ _), fun tiles score h => ?_⟩
  · obtain ⟨hm, hvalid⟩ := (hmem m).mp (List.mem_of_mem_take (hhints ▸ hm))
    exact (hiff m.tiles m.score).mp ⟨m, hm, .refl _, hvalid, rfl⟩
  · obtain ⟨m, hm, htiles, hvalid, rfl⟩ := (hiff tiles score).mpr h
    have hcandidate := (hmem m).mpr ⟨hm, hvalid⟩
    rw [← List.take_append_drop count candidates, ← hhints] at hcandidate hpairs
    rcases List.mem_append.mp hcandidate with htake | hdrop
    · exact .inl ⟨m, htake, htiles, rfl⟩
    · refine .inr ⟨?_, fun m' hm' => ((List.pairwise_append.mp hpairs).2.2 m' hm' m hdrop).1⟩
      have := List.length_pos_of_mem hdrop
      rw [List.length_drop] at this
      rw [hhints, List.length_take]
      omega

/-- The first placement of a duel, or a better one, is the hint for its hand. -/
theorem bestMoves_best_opening :
    ∃ m ∈ bestMoves Lexicon.unavailable csoVocabulary Board.new [32, 33] 1, 28 ≤ m.score := by
  have hbest := bestMoves_best Lexicon.unavailable csoVocabulary Board.new [32, 33] 1
    (fun _ => not_occupied_new) lettered_new (by decide) csoVocabulary_several
  obtain ⟨-, -, hall⟩ := hbest
  have hint : Hint Lexicon.unavailable csoVocabulary Board.new [32, 33] Game.duelOpening 28 :=
    ⟨affordable_duelOpening, _, _, playable_duelOpening, by decide +kernel, by decide +kernel⟩
  rcases hall _ _ hint with ⟨m, hm, -, hscore⟩ | ⟨hlen, hscores⟩
  · exact ⟨m, hm, hscore.ge⟩
  · obtain ⟨m, hm⟩ := List.exists_mem_of_length_pos (hlen ▸ Nat.one_pos)
    exact ⟨m, hm, hscores m hm⟩

end Robot

end ScrabbleMagyar
