import ScrabbleMagyar.Foundations.Calls
import ScrabbleMagyar.Foundations.Tables
import ScrabbleMagyar.Words.Dictionary

/-!
# The cache of verdicts

The word lists and the cache of verdicts are shared by all requests (`words/dictionary.rs`). A
call of `filter_valid` reads the cache, looks the unknown words up under the lock of the lists
and stores the verdicts, each under its own lock; an update writes the lists and invalidates the
cache afterwards. The calls interleave at these steps (`Foundations/Calls.lean`). The version
counter of the lists is left out: nothing here reads it.

* `ValidCache.coherent_of_inTime`: when nothing runs, every cached verdict is the verdict of the
  current lists, provided that no call stored a verdict that had been outdated in the meantime by
  an update already through with its invalidation.
* `ValidCache.stale_verdict`: a run that does so leaves a word that the dictionary rejects and
  `filter_valid` accepts.
-/

namespace ScrabbleMagyar

/-- At this size the cache is emptied before the next entry. -/
def validCacheLimit : ℕ := 200000

/-- The word lists and the cache of verdicts by lower case word. -/
structure ValidCache where
  lists : Lists
  cache : Table Word Bool

namespace ValidCache

variable (checker : Option (Word → Bool))

/-- The verdict on a lower case word; without a dictionary every word is valid. -/
def verdict (lists : Lists) (key : Word) : Bool :=
  match checker with
  | some checker => lookupWith checker lists key
  | none => true

/-! ## The steps of `filter_valid` -/

/-- The words that are accepted by the cache and those it does not know, with their keys. -/
def readCache (cache : Table Word Bool) (words : List Word) : List Word × List (Word × Word) :=
  let unique := words.dedup.filter fun w => Lexicon.wellShaped w
  (unique.filter fun w => cache.lookup (toLowercase w) == some true,
    (unique.filter fun w => (cache.lookup (toLowercase w)).isNone).map fun w => (toLowercase w, w))

/-- The verdicts on the unknown words. -/
def compute (lists : Lists) (unknown : List (Word × Word)) : List (Word × Word × Bool) :=
  unknown.map fun e => (e.1, e.2, verdict checker lists e.1)

def remember (cache : Table Word Bool) (word : Word) (valid : Bool) : Table Word Bool :=
  (if cache.entries.length ≥ validCacheLimit then ∅ else cache).insert word valid

/-- Store the verdicts. -/
def store (cache : Table Word Bool) (results : List (Word × Word × Bool)) : Table Word Bool :=
  results.foldl (fun cache e => remember cache e.1 e.2.2) cache

/-- The accepted words among the results. -/
def accepted (results : List (Word × Word × Bool)) : List Word :=
  (results.filter fun e => e.2.2).map fun e => e.2.1

/-- `filter_valid` without another call in between: the state it leaves and the valid words. -/
def filterValid (d : ValidCache) (words : List Word) : ValidCache × List Word :=
  let (valid, unknown) := readCache d.cache words
  if unknown.isEmpty then (d, valid)
  else
    let results := compute checker d.lists unknown
    ({ d with cache := store d.cache results }, valid ++ accepted results)

def isWordValid (d : ValidCache) (word : Word) : ValidCache × Bool :=
  let (d, valid) := filterValid checker d [word]
  (d, valid.contains word)

/-! ## The updates of the lists -/

inductive ListUpdate
  | setAdminLists (allow reject additions : List Word)
  | reloadRejected (listed : Finset Word)
  | setVotedRejected (words : List Word)
  | markVotedRejected (word : Word) (rejected : Bool)

/-- The lists with a word added to those rejected by vote, or removed from them. -/
def markVoted (lists : Lists) (word : Word) (rejected : Bool) : Lists :=
  { lists with
    rejectedVoted := if rejected then insert word lists.rejectedVoted
      else lists.rejectedVoted.erase word }

/-- What an update writes into the lists, and the word it then removes from the cache (`none`
for all of them); nothing when the list of words rejected by vote does not change. -/
def ListUpdate.write (lists : Lists) : ListUpdate → Option (Lists × Option Word)
  | .setAdminLists allow reject additions =>
    some ({ lists with
      overrideAllow := (allow.map toLowercase).toFinset
      overrideReject := (reject.map toLowercase).toFinset
      additions := (additions.map toLowercase).toFinset }, none)
  | .reloadRejected listed => some ({ lists with rejectedListed := listed }, none)
  | .setVotedRejected words =>
    some ({ lists with rejectedVoted := (words.map toLowercase).toFinset }, none)
  | .markVotedRejected word rejected =>
    let word := toLowercase word
    if decide (word ∈ lists.rejectedVoted) = rejected then none
    else some (markVoted lists word rejected, some word)

/-- Remove one word, or all of them, from the cache. -/
def invalidate (cache : Table Word Bool) : Option Word → Table Word Bool
  | some word => cache.erase word
  | none => ∅

/-- An update without another call in between. -/
def update (d : ValidCache) (u : ListUpdate) : ValidCache :=
  match u.write d.lists with
  | some (lists, target) => ⟨lists, invalidate d.cache target⟩
  | none => d

/-! ## Interleaved calls -/

inductive Request
  | filterValid (words : List Word)
  | update (u : ListUpdate)

/-- Where a running call is. -/
inductive Call
  | reading (words : List Word)
  | computing (unknown : List (Word × Word))
  | storing (results : List (Word × Word × Bool))
  | writing (u : ListUpdate)
  | invalidating (target : Option Word)

def start : Request → Call
  | .filterValid words => .reading words
  | .update u => .writing u

/-- The next step of a call: the part between taking a lock and releasing it. -/
def advance (d : ValidCache) : Call → ValidCache × Option Call
  | .reading words =>
    let unknown := (readCache d.cache words).2
    (d, if unknown.isEmpty then none else some (.computing unknown))
  | .computing unknown => (d, some (.storing (compute checker d.lists unknown)))
  | .storing results => ({ d with cache := store d.cache results }, none)
  | .writing u => match u.write d.lists with
    | some (lists, target) => ({ d with lists }, some (.invalidating target))
    | none => (d, none)
  | .invalidating target => ({ d with cache := invalidate d.cache target }, none)

abbrev Running := Calls.Pool ValidCache Call

/-- A move of the running calls. -/
def step (p : Running) (m : Calls.Move Request) : Running := p.step start (advance checker) m

/-- What is cached of a word is the verdict of the lists. -/
def Right (d : ValidCache) (key : Word) : Prop :=
  ∀ v, d.cache.lookup key = some v → v = verdict checker d.lists key

/-- Every cached verdict is the verdict of the lists. -/
def Coherent (d : ValidCache) : Prop := ∀ key, Right checker d key

/-- The call is about to invalidate what is cached of a word. -/
def Call.Invalidates (c : Call) (key : Word) : Prop :=
  c = .invalidating none ∨ c = .invalidating (some key)

/-- A call that stores its verdicts stores none that the lists have outdated since it looked the
word up, unless the invalidation of the word is still to come. -/
def InTime (p : Running) (m : Calls.Move Request) : Prop :=
  ∀ n results, m = .resume n → p.running[n]? = some (.storing results) →
    ∀ e ∈ results, e.2.2 = verdict checker p.shared.lists e.1 ∨
      ∃ c ∈ p.others n, c.Invalidates e.1

/-! ## What the steps do to the cache -/

theorem lookup_remember {cache : Table Word Bool} {word key : Word} {valid v : Bool}
    (h : (remember cache word valid).lookup key = some v) :
    (key = word ∧ v = valid) ∨ cache.lookup key = some v := by
  unfold remember at h
  rw [Table.lookup_insert] at h
  split at h
  · rename_i hkey
    exact Or.inl ⟨hkey, (Option.some.inj h).symm⟩
  · split at h
    · cases h
    · exact Or.inr h

/-- What is cached after a store was stored or was cached before. -/
theorem lookup_store {results : List (Word × Word × Bool)} {cache : Table Word Bool} {key : Word}
    {v : Bool} (h : (store cache results).lookup key = some v) :
    (∃ e ∈ results, e.1 = key ∧ e.2.2 = v) ∨ cache.lookup key = some v := by
  induction results generalizing cache with
  | nil => exact Or.inr h
  | cons e results ih =>
    rcases @ih (remember cache e.1 e.2.2) h with ⟨e', he', hkey, hv⟩ | hcache
    · exact Or.inl ⟨e', List.mem_cons_of_mem _ he', hkey, hv⟩
    · rcases lookup_remember hcache with ⟨rfl, rfl⟩ | hcache
      · exact Or.inl ⟨e, List.mem_cons_self, rfl, rfl⟩
      · exact Or.inr hcache

theorem verdict_markVoted_of_ne (lists : Lists) {word key : Word} (rejected : Bool)
    (h : key ≠ word) :
    verdict checker (markVoted lists word rejected) key = verdict checker lists key := by
  cases checker with
  | none => rfl
  | some checker =>
    have hmem : key ∈ (markVoted lists word rejected).rejectedVoted ↔ key ∈ lists.rejectedVoted := by
      cases rejected <;> simp [markVoted, h]
    simp only [verdict, lookupWith, hmem]
    rfl

/-- A write of the lists keeps the verdict on a word that it does not go on to invalidate. -/
theorem verdict_write {lists lists' : Lists} {u : ListUpdate} {target : Option Word}
    (h : u.write lists = some (lists', target)) {key : Word} (hkey : target ≠ none)
    (hne : target ≠ some key) : verdict checker lists' key = verdict checker lists key := by
  cases u with
  | markVotedRejected word rejected =>
    simp only [ListUpdate.write] at h
    split at h
    · cases h
    · obtain ⟨rfl, rfl⟩ := Prod.mk.inj (Option.some.inj h)
      exact verdict_markVoted_of_ne checker lists rejected fun heq => hne (by rw [heq])
  | _ =>
    simp only [ListUpdate.write, Option.some.injEq, Prod.mk.injEq] at h
    exact absurd h.2.symm hkey

theorem lookup_invalidate {cache : Table Word Bool} {target : Option Word} {key : Word} {v : Bool}
    (h : (invalidate cache target).lookup key = some v) :
    cache.lookup key = some v ∧ target ≠ none ∧ target ≠ some key := by
  cases target with
  | none => cases h
  | some word =>
    simp only [invalidate, Table.lookup_erase] at h
    split at h
    · cases h
    · rename_i hne
      exact ⟨h, by simp, by simpa using fun heq => hne heq.symm⟩

/-! ## What the steps do to a verdict -/

section

variable {checker} {d : ValidCache} {key : Word}

theorem Right.store (h : Right checker d key) {results : List (Word × Word × Bool)}
    (hfresh : ∀ e ∈ results, e.1 = key → e.2.2 = verdict checker d.lists key) :
    Right checker { d with cache := store d.cache results } key := by
  intro v hv
  rcases lookup_store hv with ⟨e, he, hkey, rfl⟩ | hcache
  · exact hfresh e he hkey
  · exact h v hcache

/-- A verdict that an update does not invalidate stays right. -/
theorem Right.write (h : Right checker d key) {u : ListUpdate} {lists : Lists}
    {target : Option Word} (hw : u.write d.lists = some (lists, target)) (hall : target ≠ none)
    (hkey : target ≠ some key) : Right checker { d with lists } key := by
  intro v hv
  rw [verdict_write checker hw hall hkey]
  exact h v hv

theorem right_invalidate {target : Option Word}
    (h : target ≠ none → target ≠ some key → Right checker d key) :
    Right checker { d with cache := invalidate d.cache target } key := by
  intro v hv
  obtain ⟨hcache, hall, hkey⟩ := lookup_invalidate hv
  exact h hall hkey v hcache

end

/-! ## Runs -/

/-- The server as it starts: an empty cache and nothing running. -/
def Initial (p : Running) : Prop := p.shared.cache = ∅ ∧ p.Quiet

/-- Every cached verdict is right, or the invalidation of its word is still to come. -/
abbrev Sound (p : Running) : Prop := Calls.Owing (Right checker) Call.Invalidates p

theorem sound_of_initial {p : Running} (h : Initial p) : Sound checker p := by
  intro key
  refine Or.inl fun v hv => ?_
  rw [h.1] at hv
  cases hv

/-- **Step.** -/
theorem sound_step {p : Running} {m : Calls.Move Request} (h : Sound checker p)
    (hm : InTime checker p m) : Sound checker (step checker p m) := by
  refine Calls.owing_step start (advance checker) h m ?_
  intro n c hmove hc key hbefore hothers
  have hright (hcall : ∀ target, c ≠ .invalidating target) : Right checker p.shared key :=
    hbefore.resolve_right fun hinv => hinv.elim (hcall _) (hcall _)
  cases c with
  | reading words => exact Or.inl (hright (by simp))
  | computing unknown => exact Or.inl (hright (by simp))
  | storing results =>
    refine Or.inl ((hright (by simp)).store ?_)
    rintro e he rfl
    exact (hm n results hmove hc e he).resolve_right fun ⟨d, hd, hinv⟩ => hothers d hd hinv
  | writing u =>
    simp only [advance]
    cases hw : u.write p.shared.lists with
    | none => exact Or.inl (hright (by simp))
    | some w =>
      obtain ⟨lists, target⟩ := w
      -- the words the write goes on to invalidate are owed, the verdict on the others stays
      by_cases hinv : target = none ∨ target = some key
      · exact Or.inr ⟨_, rfl, hinv.imp (congrArg _) (congrArg _)⟩
      · rw [not_or] at hinv
        exact Or.inl ((hright (by simp)).write hw hinv.1 hinv.2)
  | invalidating target =>
    refine Or.inl (right_invalidate fun hall hkey => hbefore.resolve_right ?_)
    rintro (hinv | hinv)
    · exact hall (Call.invalidating.inj hinv)
    · exact hkey (Call.invalidating.inj hinv)

/-- `filter_valid` gives the well shaped words whose verdict, as cached or else looked up, is that
they are valid. -/
theorem mem_filterValid_iff (d : ValidCache) (words : List Word) (word : Word) :
    word ∈ (filterValid checker d words).2 ↔ word ∈ words ∧ Lexicon.wellShaped word = true ∧
      (d.cache.lookup (toLowercase word)).getD
        (verdict checker d.lists (toLowercase word)) = true := by
  have hvalid : word ∈ (readCache d.cache words).1 ↔ word ∈ words ∧
      Lexicon.wellShaped word = true ∧ d.cache.lookup (toLowercase word) = some true := by
    simp only [readCache, List.mem_filter, List.mem_dedup, beq_iff_eq, and_assoc]
  have hunknown : word ∈ accepted (compute checker d.lists (readCache d.cache words).2) ↔
      word ∈ words ∧ Lexicon.wellShaped word = true ∧
        d.cache.lookup (toLowercase word) = none ∧
          verdict checker d.lists (toLowercase word) = true := by
    simp only [accepted, compute, readCache, List.mem_map, List.mem_filter, List.mem_dedup,
      Option.isNone_iff_eq_none]
    constructor
    · rintro ⟨e, ⟨⟨u, ⟨w, ⟨⟨hw, hshape⟩, hnone⟩, rfl⟩, rfl⟩, hv⟩, rfl⟩
      exact ⟨hw, hshape, hnone, hv⟩
    · rintro ⟨hw, hshape, hnone, hv⟩
      exact ⟨(toLowercase word, word, verdict checker d.lists (toLowercase word)),
        ⟨⟨_, ⟨word, ⟨⟨hw, hshape⟩, hnone⟩, rfl⟩, rfl⟩, hv⟩, rfl⟩
  have hall : word ∈ (filterValid checker d words).2 ↔ word ∈ (readCache d.cache words).1 ∨
      word ∈ accepted (compute checker d.lists (readCache d.cache words).2) := by
    unfold filterValid
    simp only
    split
    · rename_i hempty
      rw [List.isEmpty_iff] at hempty
      simp [hempty, compute, accepted]
    · simp
  rw [hall, hvalid, hunknown]
  cases d.cache.lookup (toLowercase word) <;> simp

/-- Where the cache is right `filter_valid` gives the verdicts of the dictionary. -/
theorem mem_filterValid_of_right {d : ValidCache} {words : List Word}
    (h : ∀ w ∈ words, Right checker d (toLowercase w)) (word : Word) :
    word ∈ (filterValid checker d words).2 ↔
      word ∈ words ∧ Lexicon.accepts ⟨checker, d.lists⟩ word = true := by
  have haccepts : Lexicon.accepts ⟨checker, d.lists⟩ word =
      (Lexicon.wellShaped word && verdict checker d.lists (toLowercase word)) := by
    cases checker <;> rfl
  rw [haccepts, Bool.and_eq_true, mem_filterValid_iff]
  refine and_congr_right fun hword => ?_
  cases hcached : d.cache.lookup (toLowercase word) with
  | none => rfl
  | some v => rw [Option.getD_some, h word hword v hcached]

theorem Coherent.mem_filterValid {d : ValidCache} (h : Coherent checker d) (words : List Word)
    (word : Word) :
    word ∈ (filterValid checker d words).2 ↔
      word ∈ words ∧ Lexicon.accepts ⟨checker, d.lists⟩ word = true :=
  mem_filterValid_of_right checker (fun _ _ => h _) word

/-- **The cache is coherent.** When nothing runs after calls that all stored their verdicts in
time, every cached verdict is the one the current lists give, and `filter_valid` and
`is_word_valid` agree with `check_words` on every word. -/
theorem coherent_of_inTime {p : Running}
    (h : Runs.Reaches (step checker) Initial (InTime checker) p) (hq : p.Quiet) :
    (∀ key v, p.shared.cache.lookup key = some v → v = verdict checker p.shared.lists key) ∧
      (∀ words word, word ∈ (filterValid checker p.shared words).2 ↔
        word ∈ words ∧ (Lexicon.checkWords ⟨checker, p.shared.lists⟩ [word]).1 = true) ∧
      ∀ word, (isWordValid checker p.shared word).2 =
        (Lexicon.checkWords ⟨checker, p.shared.lists⟩ [word]).1 := by
  have hsound : Sound checker p :=
    Runs.Reaches.invariant (step checker) (P := Sound checker)
      (fun _ => sound_of_initial checker) (fun _ _ => sound_step checker) h
  have hcoherent : Coherent checker p.shared := hsound.settled hq
  have hcheck : ∀ word, Lexicon.accepts ⟨checker, p.shared.lists⟩ word = true ↔
      (Lexicon.checkWords ⟨checker, p.shared.lists⟩ [word]).1 = true := by
    intro word
    rw [Lexicon.checkWords_fst]
    simp
  have hmem : ∀ words word, word ∈ (filterValid checker p.shared words).2 ↔
      word ∈ words ∧ (Lexicon.checkWords ⟨checker, p.shared.lists⟩ [word]).1 = true := by
    intro words word
    rw [hcoherent.mem_filterValid checker words word, hcheck]
  refine ⟨hcoherent, hmem, fun word => ?_⟩
  rw [Bool.eq_iff_iff]
  simp only [isWordValid, List.contains_iff_mem, hmem, List.mem_singleton, true_and]

/-! ## A verdict stored too late -/

def alma : Word := ['A', 'L', 'M', 'A']

/-- A dictionary that accepts every word its lists do not reject. -/
def lenient : Option (Word → Bool) := some fun _ => true

/-- A server with empty lists. -/
def fresh : Running := ⟨⟨Lists.empty, ∅⟩, []⟩

theorem fresh_initial : Initial fresh := ⟨rfl, rfl⟩

/-- A look-up of `ALMA`, done before the word is voted out. -/
def timely : List (Calls.Move Request) :=
  [.call (.filterValid [alma]), .resume 0, .resume 0,
   .resume 0, .call (.update (.markVotedRejected alma true)), .resume 0, .resume 0]

/-- The same calls; `filter_valid` has looked the word up when the vote comes in, and stores its
verdict after the vote has removed the word from the cache. -/
def late : List (Calls.Move Request) :=
  [.call (.filterValid [alma]), .resume 0, .resume 0,
   .call (.update (.markVotedRejected alma true)), .resume 1, .resume 1, .resume 0]

theorem inTime_call (p : Running) (r : Request) : InTime checker p (.call r) := by
  intro n results hm
  cases hm

theorem timely_inTime : Runs.Along (step lenient) (InTime lenient) fresh timely := by
  refine ⟨inTime_call lenient _ _, ?_, ?_, ?_, inTime_call lenient _ _, ?_, ?_, trivial⟩
  · rintro _ _ ⟨⟩ ⟨⟩
  · rintro _ _ ⟨⟩ ⟨⟩
  · rintro _ _ ⟨⟩ ⟨⟩ e he
    left
    revert e
    decide
  · rintro _ _ ⟨⟩ ⟨⟩
  · rintro _ _ ⟨⟩ ⟨⟩

theorem timely_coherent :
    (isWordValid lenient (Runs.run (step lenient) fresh timely).shared alma).2 =
      (Lexicon.checkWords ⟨lenient, (Runs.run (step lenient) fresh timely).shared.lists⟩ [alma]).1 :=
  (coherent_of_inTime lenient ⟨fresh, timely, fresh_initial, timely_inTime, rfl⟩ rfl).2.2 alma

/-- **A stale verdict.** Nothing runs, `ALMA` is rejected by vote, and the cache still has it as
valid: `is_word_valid` accepts what `check_words` rejects. -/
theorem stale_verdict :
    ¬ ∀ (checker : Option (Word → Bool)) (p : Running),
      Runs.Reaches (step checker) Initial (fun _ _ => True) p → p.Quiet →
        (∀ key v, p.shared.cache.lookup key = some v → v = verdict checker p.shared.lists key) ∧
          ∀ word, (isWordValid checker p.shared word).2 =
            (Lexicon.checkWords ⟨checker, p.shared.lists⟩ [word]).1 := by
  intro h
  have hlate := (h lenient (Runs.run (step lenient) fresh late)
    ⟨fresh, late, fresh_initial, Runs.along_of_forall (step lenient) (fun _ _ _ => trivial) _, rfl⟩
    rfl).2 alma
  revert hlate
  decide +kernel

end ValidCache

end ScrabbleMagyar
