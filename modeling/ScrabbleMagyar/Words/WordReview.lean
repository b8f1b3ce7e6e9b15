import ScrabbleMagyar.Engine.Tokenize
import ScrabbleMagyar.Util
import ScrabbleMagyar.Words.ValidCache

/-!
# Votes on words

Users vote on the words of the dictionary (`words/word_review.rs`); a word with enough more votes
against it than for it is rejected. The votes are a table of the database (`db/misc.rs`); the
words rejected by vote are also kept in the lists of the dictionary, where every vote is carried
over by a recount of its word.

A vote is saved, counted and published in three steps without a common lock. A call of the
database and a `mark_voted_rejected` are one step each, and the calls interleave at these steps
(`Foundations/Calls.lean`).

* `WordReview.agrees_of_inOrder`: when nothing runs, the rejected words of the dictionary are
  those of a full recount, provided that no call published the outcome of a count that had been
  outvoted in the meantime by a call already through.
* `WordReview.published_out_of_order`: a run that does so ends with a word rejected on which the
  votes are balanced.
-/

namespace ScrabbleMagyar

namespace WordReview

def minLength : ℕ := 2

def maxLength : ℕ := 15

/-- The upper case form of a word that can stand on the board. -/
def normalize (word : Word) : Option Word :=
  let word := Casing.hungarian.toUppercase (trim word)
  if ¬ (minLength ≤ word.length ∧ word.length ≤ maxLength) ∨
      (tokenizeWord Casing.hungarian word).isNone then none
  else some word

/-! ## The votes -/

/-- The verdicts by lower case word and user; `true` for a proper word. -/
abbrev Reviews := Table (Word × ℕ) Bool

section

variable (counted : ℕ → Bool)

/-- The votes on a word of the users who exist and are not blocked from reviewing. -/
def votesOn (reviews : Reviews) (word : Word) : List Bool :=
  (reviews.entries.filter fun e => e.1.1 == word && counted e.1.2).map Sigma.snd

/-- The numbers of votes for and against a word. -/
def getWordReviewVotes (reviews : Reviews) (word : Word) : ℤ × ℤ :=
  (((votesOn counted reviews word).map fun v => if v then (1 : ℤ) else 0).sum,
    ((votesOn counted reviews word).map fun v => if v then (0 : ℤ) else 1).sum)

/-- The words with at least `threshold` more votes against them than for them, from one pass over
the votes grouped by word. -/
def getVotedRejectedWords (reviews : Reviews) (threshold : ℤ) : Finset Word :=
  (((reviews.entries.filter fun e => counted e.1.2).map fun e => e.1.1).toFinset).filter fun w =>
    (getWordReviewVotes counted reviews w).2 - (getWordReviewVotes counted reviews w).1 ≥ threshold

/-- The outcome of a count of one word. -/
def outvoted (reviews : Reviews) (threshold : ℤ) (word : Word) : Bool :=
  let (good, bad) := getWordReviewVotes counted reviews word
  decide (bad - good ≥ threshold)

/-- A word without counted votes is not rejected: the recount by groups agrees with the count of
a single word. -/
theorem mem_getVotedRejectedWords {reviews : Reviews} {threshold : ℤ} (ht : 1 ≤ threshold)
    (word : Word) : word ∈ getVotedRejectedWords counted reviews threshold ↔
      outvoted counted reviews threshold word = true := by
  simp only [getVotedRejectedWords, outvoted, Finset.mem_filter, List.mem_toFinset, List.mem_map,
    List.mem_filter, decide_eq_true_eq, and_iff_right_iff_imp]
  intro h
  by_contra hnone
  have hempty : votesOn counted reviews word = [] := by
    unfold votesOn
    rw [List.map_eq_nil_iff, List.filter_eq_nil_iff]
    intro e he hboth
    rw [Bool.and_eq_true, beq_iff_eq] at hboth
    exact hnone ⟨e, ⟨he, hboth.2⟩, hboth.1⟩
  simp only [getWordReviewVotes, hempty, List.map_nil, List.sum_nil] at h
  omega

end

/-! ## Interleaved votes -/

/-- The votes in the database and the dictionary. -/
structure Server where
  reviews : Reviews
  dict : ValidCache

inductive Request
  | recordVote (user : ℕ) (word : Word) (valid : Bool)
  | undoVote (user : ℕ) (word : Word)

/-- Where a running call is. -/
inductive Call
  | checking (user : ℕ) (word : Word) (valid : Bool)
  | saving (user : ℕ) (word : Word) (valid : Bool)
  | deleting (user : ℕ) (word : Word)
  | counting (word : Word)
  | publishing (word : Word) (rejected : Bool)

def start : Request → Call
  | .recordVote user word valid => .checking user word valid
  | .undoVote user word => .deleting user word

section

variable (checker : Option (Word → Bool)) (counted : ℕ → Bool) (threshold : ℤ)

/-- The next step of a call. -/
def advance (s : Server) : Call → Server × Option Call
  | .checking user word valid => match normalize word with
    | none => (s, none)
    | some word =>
      let (dict, accepted) := s.dict.isWordValid checker word
      ({ s with dict }, if accepted then some (.saving user word valid) else none)
  | .saving user word valid =>
    ({ s with reviews := s.reviews.insert (toLowercase word, user) valid }, some (.counting word))
  | .deleting user word => match normalize word with
    | none => (s, none)
    | some word =>
      if (s.reviews.lookup (toLowercase word, user)).isNone then (s, none)
      else ({ s with reviews := s.reviews.erase (toLowercase word, user) }, some (.counting word))
  | .counting word =>
    (s, some (.publishing word (outvoted counted s.reviews threshold (toLowercase word))))
  | .publishing word rejected =>
    ({ s with dict := s.dict.update (.markVotedRejected word rejected) }, none)

abbrev Running := Calls.Pool Server Call

/-- A move of the running calls. -/
def step (p : Running) (m : Calls.Move Request) : Running :=
  p.step start (advance checker counted threshold) m

/-- The dictionary has the outcome of the votes on a word. -/
def Right (s : Server) (key : Word) : Prop :=
  key ∈ s.dict.lists.rejectedVoted ↔ outvoted counted s.reviews threshold key = true

/-- The call has changed the votes on a word and has yet to publish the outcome. -/
def Call.Owes (c : Call) (key : Word) : Prop :=
  (∃ word, c = .counting word ∧ toLowercase word = key) ∨
    ∃ word rejected, c = .publishing word rejected ∧ toLowercase word = key

/-- A call that publishes the outcome of its count publishes what the votes say now, unless a
call that has changed them since has itself still to publish. -/
def InOrder (p : Running) (m : Calls.Move Request) : Prop :=
  ∀ n word rejected, m = .resume n → p.running[n]? = some (.publishing word rejected) →
    rejected = outvoted counted p.shared.reviews threshold (toLowercase word) ∨
      ∃ c ∈ p.others n, c.Owes (toLowercase word)

/-! ## What the steps do to the votes -/

omit checker in
/-- A vote changes the count of its own word only. -/
theorem outvoted_insert (reviews : Reviews) {word key : Word} (user : ℕ) (valid : Bool)
    (h : word ≠ key) : outvoted counted (reviews.insert (word, user) valid) threshold key =
      outvoted counted reviews threshold key := by
  have hvotes : votesOn counted (reviews.insert (word, user) valid) key =
      votesOn counted reviews key := by
    unfold votesOn
    rw [Table.filter_insert]
    simp [h]
  unfold outvoted getWordReviewVotes
  rw [hvotes]

omit checker in
theorem outvoted_erase (reviews : Reviews) {word key : Word} (user : ℕ) (h : word ≠ key) :
    outvoted counted (reviews.erase (word, user)) threshold key =
      outvoted counted reviews threshold key := by
  have hvotes : votesOn counted (reviews.erase (word, user)) key = votesOn counted reviews key := by
    unfold votesOn
    rw [Table.filter_erase]
    simp [h]
  unfold outvoted getWordReviewVotes
  rw [hvotes]

omit counted threshold in
/-- The check of a word leaves the lists alone. -/
theorem isWordValid_lists (d : ValidCache) (word : Word) :
    (d.isWordValid checker word).1.lists = d.lists := by
  simp only [ValidCache.isWordValid, ValidCache.filterValid]
  split <;> rfl

/-- After `mark_voted_rejected` its word is in the set as published, the others as before. -/
theorem mem_rejectedVoted_update (d : ValidCache) (word : Word) (rejected : Bool) (key : Word) :
    key ∈ (d.update (.markVotedRejected word rejected)).lists.rejectedVoted ↔
      if key = toLowercase word then rejected = true else key ∈ d.lists.rejectedVoted := by
  by_cases hsame : decide (toLowercase word ∈ d.lists.rejectedVoted) = rejected
  · have hw : (ValidCache.ListUpdate.markVotedRejected word rejected).write d.lists = none :=
      if_pos hsame
    simp only [ValidCache.update, hw]
    split
    · rename_i hkey
      rw [hkey, ← hsame, decide_eq_true_eq]
    · rfl
  · have hw : (ValidCache.ListUpdate.markVotedRejected word rejected).write d.lists =
        some (ValidCache.markVoted d.lists (toLowercase word) rejected, some (toLowercase word)) :=
      if_neg hsame
    simp only [ValidCache.update, hw]
    cases rejected <;> by_cases hkey : key = toLowercase word <;> simp [ValidCache.markVoted, hkey]

/-! ## Runs -/

/-- The server after `refresh`: the rejected words are those of the recount, and nothing runs. -/
def Initial (p : Running) : Prop :=
  p.shared.dict.lists.rejectedVoted =
    getVotedRejectedWords counted p.shared.reviews threshold ∧ p.Quiet

/-- The dictionary has the outcome of the votes on every word, or a running call has still to
publish it. -/
abbrev Sound (p : Running) : Prop := Calls.Owing (Right counted threshold) Call.Owes p

theorem sound_of_initial (ht : 1 ≤ threshold) {p : Running} (h : Initial counted threshold p) :
    Sound counted threshold p := by
  intro key
  left
  unfold Right
  rw [h.1, mem_getVotedRejectedWords counted ht]

omit checker in
/-- A step that leaves both the words rejected by vote and the outcome on a word alone keeps the
word right. -/
theorem right_congr {s s' : Server} {key : Word}
    (hdict : s'.dict.lists.rejectedVoted = s.dict.lists.rejectedVoted)
    (hvotes : outvoted counted s'.reviews threshold key = outvoted counted s.reviews threshold key)
    (h : Right counted threshold s key) : Right counted threshold s' key := by
  unfold Right
  rw [hdict, hvotes]
  exact h

/-- **Step.** -/
theorem sound_step {p : Running} {m : Calls.Move Request} (h : Sound counted threshold p)
    (hm : InOrder counted threshold p m) :
    Sound counted threshold (step checker counted threshold p m) := by
  refine Calls.owing_step start (advance checker counted threshold) h m ?_
  intro n c hmove hc key hbefore hothers
  -- a call that has not changed the votes owes nothing
  have hearly : (∀ word, c ≠ .counting word) → (∀ word rejected, c ≠ .publishing word rejected) →
      Right counted threshold p.shared key := by
    intro hcounting hpublishing
    rcases hbefore with hright | ⟨word, rfl, -⟩ | ⟨word, rejected, rfl, -⟩
    · exact hright
    · exact absurd rfl (hcounting word)
    · exact absurd rfl (hpublishing word rejected)
  cases c with
  | checking user word valid =>
    have hright := hearly nofun nofun
    simp only [advance]
    cases normalize word with
    | none => exact Or.inl hright
    | some word =>
      exact Or.inl (right_congr counted threshold
        (congrArg Lists.rejectedVoted (isWordValid_lists checker p.shared.dict word)) rfl hright)
  | saving user word valid =>
    have hright := hearly nofun nofun
    by_cases hkey : toLowercase word = key
    · exact Or.inr ⟨_, rfl, Or.inl ⟨word, rfl, hkey⟩⟩
    · exact Or.inl (right_congr (s := p.shared) counted threshold rfl
        (outvoted_insert counted threshold p.shared.reviews user valid hkey) hright)
  | deleting user word =>
    have hright := hearly nofun nofun
    simp only [advance]
    cases normalize word with
    | none => exact Or.inl hright
    | some word =>
      simp only
      split
      · exact Or.inl hright
      · by_cases hkey : toLowercase word = key
        · exact Or.inr ⟨_, rfl, Or.inl ⟨word, rfl, hkey⟩⟩
        · exact Or.inl (right_congr (s := p.shared) counted threshold rfl
            (outvoted_erase counted threshold p.shared.reviews user hkey) hright)
  | counting word =>
    rcases hbefore with hright | ⟨word', hword, hkey⟩ | ⟨word', rejected, hword, -⟩
    · exact Or.inl hright
    · cases hword
      exact Or.inr ⟨_, rfl, Or.inr ⟨word, _, rfl, hkey⟩⟩
    · cases hword
  | publishing word rejected =>
    left
    unfold Right
    simp only [advance]
    rw [mem_rejectedVoted_update]
    by_cases hkey : key = toLowercase word
    · rw [if_pos hkey]
      rcases hm n word rejected hmove hc with hcount | ⟨d, hd, howes⟩
      · rw [hcount, hkey]
      · exact absurd (hkey ▸ howes) (hothers d hd)
    · rw [if_neg hkey]
      rcases hbefore with hright | ⟨word', hword, -⟩ | ⟨word', rejected', hword, hkey'⟩
      · exact hright
      · cases hword
      · cases hword
        exact absurd hkey'.symm hkey

/-- **Incremental rejection is the recount.** When nothing runs after votes whose outcomes were
all published in order, the words rejected by vote are those of the recount. -/
theorem agrees_of_inOrder (ht : 1 ≤ threshold) {p : Running}
    (h : Runs.Reaches (step checker counted threshold) (Initial counted threshold)
      (InOrder counted threshold) p) (hq : p.Quiet) :
    p.shared.dict.lists.rejectedVoted =
      getVotedRejectedWords counted p.shared.reviews threshold := by
  have hsound : Sound counted threshold p :=
    Runs.Reaches.invariant (step checker counted threshold) (P := Sound counted threshold)
      (fun _ => sound_of_initial counted threshold ht)
      (fun _ _ => sound_step checker counted threshold) h
  ext key
  rw [mem_getVotedRejectedWords counted ht]
  exact hsound.settled hq key

end

/-! ## Outcomes published out of order -/

/-- A dictionary whose checker accepts every word, without votes. -/
def fresh : Running := ⟨⟨∅, Lists.empty, ∅⟩, []⟩

/-- The first user votes against `ALMA`, the second one for it; each publishes before the other
one counts. -/
def inTurn : List (Calls.Move Request) :=
  [.call (.recordVote 1 ValidCache.alma false), .call (.recordVote 2 ValidCache.alma true),
   .resume 0, .resume 1, .resume 0, .resume 0, .resume 0, .resume 0, .resume 0, .resume 0]

/-- The same votes; the first outcome is published last. -/
def crossed : List (Calls.Move Request) :=
  [.call (.recordVote 1 ValidCache.alma false), .call (.recordVote 2 ValidCache.alma true),
   .resume 0, .resume 1, .resume 0, .resume 0, .resume 1, .resume 1, .resume 1, .resume 0]

theorem fresh_initial : Initial (fun _ => true) 1 fresh := ⟨rfl, rfl⟩

theorem inTurn_inOrder :
    Runs.Along (step ValidCache.lenient (fun _ => true) 1) (InOrder (fun _ => true) 1) fresh
      inTurn := by
  refine ⟨?_, ?_, ?_, ?_, ?_, ?_, ?_, ?_, ?_, ?_, trivial⟩
  all_goals rintro _ _ _ ⟨⟩ hc
  -- only the last step of each call publishes
  all_goals cases hc
  · exact Or.inl (by decide +kernel)
  · exact Or.inl (by decide +kernel)

theorem inTurn_agrees :
    (Runs.run (step ValidCache.lenient (fun _ => true) 1) fresh inTurn).shared.dict.lists.rejectedVoted
      = getVotedRejectedWords (fun _ => true)
          (Runs.run (step ValidCache.lenient (fun _ => true) 1) fresh inTurn).shared.reviews 1 :=
  agrees_of_inOrder ValidCache.lenient (fun _ => true) 1 le_rfl
    ⟨fresh, inTurn, fresh_initial, inTurn_inOrder, rfl⟩
    (List.isEmpty_iff.mp (by decide +kernel))

/-- **Outcomes published out of order.** Nothing runs, one vote is against `ALMA` and one for it,
and the dictionary rejects the word. -/
theorem published_out_of_order :
    ¬ ∀ (checker : Option (Word → Bool)) (counted : ℕ → Bool) (threshold : ℤ), 1 ≤ threshold →
      ∀ p : Running, Runs.Reaches (step checker counted threshold) (Initial counted threshold)
          (fun _ _ => True) p → p.Quiet →
        p.shared.dict.lists.rejectedVoted =
          getVotedRejectedWords counted p.shared.reviews threshold := by
  intro h
  have hcrossed := h ValidCache.lenient (fun _ => true) 1 le_rfl
    (Runs.run (step ValidCache.lenient (fun _ => true) 1) fresh crossed)
    ⟨fresh, crossed, fresh_initial,
      Runs.along_of_forall (step ValidCache.lenient (fun _ => true) 1) (fun _ _ _ => trivial) _, rfl⟩
    (List.isEmpty_iff.mp (by decide +kernel))
  revert hcrossed
  decide +kernel

end WordReview

end ScrabbleMagyar
