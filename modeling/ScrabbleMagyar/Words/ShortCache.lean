import ScrabbleMagyar.Foundations.Calls
import ScrabbleMagyar.Words.ShortWords

/-!
# The lists of short words under interleaved calls

A call of `short_words` reads the version of the word lists, looks for a list kept with it, and
else lets `filter_valid` judge the candidates and keeps the result with the version it has read
(`words/practice.rs`). An update of the word lists writes them, raises the version and only then
invalidates the cache of verdicts (`words/dictionary.rs`). The calls interleave at these steps.

* `ShortCache.shortWords_of_timely`: when nothing runs, `short_words` returns the list that the
  word lists determine, provided that no call stored an outdated verdict and no call of
  `short_words` that works under the current version read one.
* `ShortCache.stale_list`: between the raise of the version and the invalidation an outdated
  verdict gets into a list that is kept with the new version.
-/

namespace ScrabbleMagyar.ShortCache

open ValidCache (ListUpdate)

/-- The list a call of `short_words` is after, and the version it has read. -/
structure Job where
  length : ℕ
  version : ℕ
  deriving DecidableEq

inductive Request
  | shortWords (length : ℕ)
  | filterValid (words : List Word)
  | update (u : ListUpdate)

/-- Where a running call is; a `filter_valid` runs on its own or for a list. -/
inductive Call
  | seeing (length : ℕ)
  | recalling (job : Job)
  | reading (job : Option Job) (words : List Word)
  | computing (job : Option Job) (valid : List Word) (unknown : List (Word × Word))
  | storing (job : Option Job) (valid : List Word) (results : List (Word × Word × Bool))
  | keeping (job : Job) (list : List ShortWord)
  | writing (u : ListUpdate)
  | raising (target : Option Word)
  | invalidating (target : Option Word)

def start : Request → Call
  | .shortWords length => .seeing length
  | .filterValid words => .reading none words
  | .update u => .writing u

section

variable (casing : Casing) (checker : Option (Word → Bool))

/-- What follows a `filter_valid`: its words become a list if it ran for one. -/
def finish (job : Option Job) (valid : List Word) : Option Call :=
  job.map fun j => .keeping j (shortList casing valid)

/-- The next step of a call: the part between taking a lock and releasing it. -/
def advance (s : WordCaches) : Call → WordCaches × Option Call
  | .seeing length => (s, some (.recalling ⟨length, s.version⟩))
  | .recalling job =>
    (s, if (s.short.lookup job.length).any fun e => e.1 == job.version then none
      else some (.reading (some job) (shortCandidates casing job.length)))
  | .reading job words =>
    let (valid, unknown) := ValidCache.readCache s.valid.cache words
    (s, if unknown.isEmpty then finish casing job valid else some (.computing job valid unknown))
  | .computing job valid unknown =>
    (s, some (.storing job valid (ValidCache.compute checker s.valid.lists unknown)))
  | .storing job valid results =>
    ({ s with valid := ⟨s.valid.lists, ValidCache.store s.valid.cache results⟩ },
      finish casing job (valid ++ ValidCache.accepted results))
  | .keeping job list => ({ s with short := s.short.insert job.length (job.version, list) }, none)
  | .writing u => match u.write s.valid.lists with
    | some (lists, target) => ({ s with valid := ⟨lists, s.valid.cache⟩ }, some (.raising target))
    | none => (s, none)
  | .raising target => ({ s with version := s.version + 1 }, some (.invalidating target))
  | .invalidating target =>
    ({ s with valid := ⟨s.valid.lists, ValidCache.invalidate s.valid.cache target⟩ }, none)

abbrev Running := Calls.Pool WordCaches Call

/-- A move of the running calls. -/
def step (p : Running) (m : Calls.Move Request) : Running := p.step start (advance casing checker) m

/-- The server as it starts. -/
def Initial (p : Running) : Prop := p.shared.Initial ∧ p.Quiet

/-! ## When a call is in time -/

/-- What an update that has written the lists is still to invalidate. -/
def Call.target : Call → Option (Option Word)
  | .raising target => some target
  | .invalidating target => some target
  | _ => none

/-- The call is still to invalidate what is cached of a word. -/
def Call.Invalidates (c : Call) (key : Word) : Prop :=
  c.target = some none ∨ c.target = some (some key)

/-- An update has written the lists and not yet raised the version. -/
def Pending (p : Running) : Prop := ∃ target, .raising target ∈ p.running

/-- No verdict is stored that the lists have outdated, unless its invalidation is still to come. -/
def StoresInTime (p : Running) (m : Calls.Move Request) : Prop :=
  ∀ n job valid results, m = .resume n → p.running[n]? = some (.storing job valid results) →
    ∀ e ∈ results, e.2.2 = ValidCache.verdict checker p.shared.valid.lists e.1 ∨
      ∃ c ∈ p.others n, c.Invalidates e.1

/-- A call of `short_words` that works under the current version finds no outdated verdict. -/
def ReadsInTime (p : Running) (m : Calls.Move Request) : Prop :=
  ∀ n job words, m = .resume n → p.running[n]? = some (.reading (some job) words) →
    job.version = p.shared.version → ¬Pending p →
      ∀ w ∈ words, ValidCache.Right checker p.shared.valid (toLowercase w)

/-- The condition on a move. -/
def Timely (p : Running) (m : Calls.Move Request) : Prop :=
  StoresInTime checker p m ∧ ReadsInTime checker p m

/-! ## The verdicts -/

/-- Every cached verdict is right, or its invalidation is still to come. -/
abbrev Sound (p : Running) : Prop :=
  Calls.Owing (fun s key => ValidCache.Right checker s.valid key) Call.Invalidates p

variable {casing checker}

theorem sound_of_initial {p : Running} (h : Initial p) : Sound checker p := by
  intro key
  refine Or.inl fun v hv => ?_
  rw [h.1.1] at hv
  cases hv

theorem sound_step {p : Running} {m : Calls.Move Request} (h : Sound checker p)
    (hm : StoresInTime checker p m) : Sound checker (step casing checker p m) := by
  refine Calls.owing_step start (advance casing checker) h m ?_
  intro n c hmove hc key hbefore hothers
  have hright (hnone : c.target = none) : ValidCache.Right checker p.shared.valid key := by
    rcases hbefore with hright | hinv | hinv
    · exact hright
    · rw [hnone] at hinv
      cases hinv
    · rw [hnone] at hinv
      cases hinv
  cases c with
  | seeing length => exact Or.inl (hright rfl)
  | recalling job => exact Or.inl (hright rfl)
  | reading job words => exact Or.inl (hright rfl)
  | computing job valid unknown => exact Or.inl (hright rfl)
  | keeping job list => exact Or.inl (hright rfl)
  | storing job valid results =>
    refine Or.inl ((hright rfl).store ?_)
    rintro e he rfl
    exact (hm n job valid results hmove hc e he).resolve_right fun ⟨d, hd, hinv⟩ =>
      hothers d hd hinv
  | writing u =>
    simp only [advance]
    cases hw : u.write p.shared.valid.lists with
    | none => exact Or.inl (hright rfl)
    | some w =>
      obtain ⟨lists, target⟩ := w
      by_cases hinv : target = none ∨ target = some key
      · exact Or.inr ⟨_, rfl, hinv.imp (congrArg some) (congrArg some)⟩
      · -- the verdict on a word that is not invalidated stays
        rw [not_or] at hinv
        exact Or.inl ((hright rfl).write hw hinv.1 hinv.2)
  | raising target =>
    rcases hbefore with hright | hinv
    · exact Or.inl hright
    · exact Or.inr ⟨_, rfl, hinv⟩
  | invalidating target =>
    refine Or.inl (ValidCache.right_invalidate fun hall hkey => hbefore.resolve_right ?_)
    rintro (hinv | hinv)
    · exact hall (Option.some.inj hinv)
    · exact hkey (Option.some.inj hinv)

/-! ## The lists -/

def Call.job : Call → Option Job
  | .recalling job => some job
  | .reading job _ => job
  | .computing job _ _ => job
  | .storing job _ _ => job
  | .keeping job _ => some job
  | _ => none

/-- The verdicts cached of the candidates are those of the lists. -/
def RightOn (casing : Casing) (checker : Option (Word → Bool)) (lists : Lists) (length : ℕ)
    (cache : Table Word Bool) : Prop :=
  ∀ w ∈ shortCandidates casing length, ValidCache.Right checker ⟨lists, cache⟩ (toLowercase w)

/-- What a call has found for a list so far is what the lists say. -/
def OnTrack (casing : Casing) (checker : Option (Word → Bool)) (lists : Lists) (length : ℕ) :
    Call → Prop
  | .reading _ words => words = shortCandidates casing length
  | .computing _ valid unknown => ∃ cache, RightOn casing checker lists length cache ∧
      ValidCache.readCache cache (shortCandidates casing length) = (valid, unknown)
  | .storing _ valid results => ∃ cache unknown, RightOn casing checker lists length cache ∧
      ValidCache.readCache cache (shortCandidates casing length) = (valid, unknown) ∧
        results = ValidCache.compute checker lists unknown
  | .keeping _ list => list = listing casing checker lists length
  | _ => True

/-- What is kept, and what is found so far, under the current version is what the lists say, as
long as no update has still to raise the version. -/
structure Tracked (casing : Casing) (checker : Option (Word → Bool)) (p : Running) : Prop where
  seen : ∀ c ∈ p.running, ∀ job ∈ c.job, job.version ≤ p.shared.version
  stamped : ∀ length v list, p.shared.short.lookup length = some (v, list) → v ≤ p.shared.version
  onTrack : ¬Pending p → ∀ c ∈ p.running, ∀ job ∈ c.job, job.version = p.shared.version →
    OnTrack casing checker p.shared.valid.lists job.length c
  kept : ¬Pending p → ∀ length list,
    p.shared.short.lookup length = some (p.shared.version, list) →
      list = listing casing checker p.shared.valid.lists length

theorem tracked_of_initial {p : Running} (h : Initial p) : Tracked casing checker p := by
  obtain ⟨⟨-, hshort⟩, hquiet⟩ := h
  rw [Calls.Pool.Quiet] at hquiet
  constructor
  · simp [hquiet]
  · intro length v list hentry
    rw [hshort] at hentry
    cases hentry
  · simp [hquiet]
  · intro _ length list hentry
    rw [hshort] at hentry
    cases hentry

/-- What is found with right verdicts is the list that the word lists determine. -/
theorem shortList_eq {lists : Lists} {length : ℕ} {cache : Table Word Bool} {valid : List Word}
    {unknown : List (Word × Word)} (h : RightOn casing checker lists length cache)
    (hread : ValidCache.readCache cache (shortCandidates casing length) = (valid, unknown)) :
    shortList casing (valid ++ ValidCache.accepted (ValidCache.compute checker lists unknown)) =
      listing casing checker lists length := by
  have hfilter := ValidCache.snd_filterValid checker ⟨lists, cache⟩
    (shortCandidates casing length)
  simp only [hread] at hfilter
  rw [← hfilter]
  exact shortList_congr (ValidCache.perm_filterValid h)

/-- A step that changes neither the word lists nor their version keeps what is tracked, if what is
left of the call is on track and what it keeps is right. -/
theorem Tracked.settle {p : Running} (h : Tracked casing checker p) {n : ℕ} {c : Call}
    (hc : p.running[n]? = some c) {r : WordCaches × Option Call}
    (hraises : ∀ target, c ≠ .raising target) (hlists : r.1.valid.lists = p.shared.valid.lists)
    (hversion : r.1.version = p.shared.version)
    (hcall : ∀ c', r.2 = some c' → ∀ job ∈ c'.job, job.version ≤ p.shared.version ∧
      (¬Pending p → job.version = p.shared.version →
        OnTrack casing checker p.shared.valid.lists job.length c'))
    (hshort : ∀ length v list, r.1.short.lookup length = some (v, list) →
      p.shared.short.lookup length = some (v, list) ∨ v ≤ p.shared.version ∧
        (¬Pending p → v = p.shared.version →
          list = listing casing checker p.shared.valid.lists length)) :
    Tracked casing checker (p.settle n r) := by
  have hpending : ¬Pending (p.settle n r) → ¬Pending p := by
    rintro hnot ⟨target, htarget⟩
    rcases (Calls.mem_running_iff hc _).mp htarget with hself | hother
    · exact hraises target hself.symm
    · exact hnot ⟨target, (Calls.mem_settle_iff hc r _).mpr (Or.inr hother)⟩
  have hshared : (p.settle n r).shared = r.1 := rfl
  constructor
  · intro c' hc' job hjob
    rw [hshared, hversion]
    rcases (Calls.mem_settle_iff hc r c').mp hc' with hself | hother
    · exact (hcall c' hself job hjob).1
    · exact h.seen c' ((Calls.mem_running_iff hc c').mpr (Or.inr hother)) job hjob
  · intro length v list hentry
    rw [hshared, hversion]
    rcases hshort length v list hentry with hbefore | hnew
    · exact h.stamped length v list hbefore
    · exact hnew.1
  · intro hnot c' hc' job hjob hcurrent
    rw [hshared, hversion] at hcurrent
    rw [hshared, hlists]
    rcases (Calls.mem_settle_iff hc r c').mp hc' with hself | hother
    · exact (hcall c' hself job hjob).2 (hpending hnot) hcurrent
    · exact h.onTrack (hpending hnot) c' ((Calls.mem_running_iff hc c').mpr (Or.inr hother)) job
        hjob hcurrent
  · intro hnot length list hentry
    rw [hshared, hversion] at hentry
    rw [hshared, hlists]
    rcases hshort length _ list hentry with hbefore | hnew
    · exact h.kept (hpending hnot) length list hbefore
    · exact hnew.2 (hpending hnot) rfl

/-- After the lists are written nothing is promised until the version is raised. -/
theorem Tracked.write {p : Running} (h : Tracked casing checker p) {n : ℕ} {u : ListUpdate}
    (hc : p.running[n]? = some (.writing u)) (lists : Lists) (target : Option Word) :
    Tracked casing checker
      (p.settle n ({ p.shared with valid := ⟨lists, p.shared.valid.cache⟩ },
        some (.raising target))) := by
  have hpending : Pending (p.settle n ({ p.shared with valid := ⟨lists, p.shared.valid.cache⟩ },
      some (.raising target))) := ⟨target, (Calls.mem_settle_iff hc _ _).mpr (Or.inl rfl)⟩
  refine ⟨fun c' hc' job hjob => ?_, h.stamped, fun hnot => absurd hpending hnot,
    fun hnot => absurd hpending hnot⟩
  rcases (Calls.mem_settle_iff hc _ c').mp hc' with hself | hother
  · obtain rfl := Option.some.inj hself
    cases hjob
  · exact h.seen c' ((Calls.mem_running_iff hc c').mpr (Or.inr hother)) job hjob

/-- The raise of the version outdates everything that was found before. -/
theorem Tracked.raise {p : Running} (h : Tracked casing checker p) {n : ℕ} {target : Option Word}
    (hc : p.running[n]? = some (.raising target)) :
    Tracked casing checker (p.settle n ({ p.shared with version := p.shared.version + 1 },
      some (.invalidating target))) := by
  have hseen : ∀ c' ∈ (p.settle n ({ p.shared with version := p.shared.version + 1 },
      some (.invalidating target))).running, ∀ job ∈ c'.job,
        job.version ≤ p.shared.version := by
    intro c' hc' job hjob
    rcases (Calls.mem_settle_iff hc _ c').mp hc' with hself | hother
    · obtain rfl := Option.some.inj hself
      cases hjob
    · exact h.seen c' ((Calls.mem_running_iff hc c').mpr (Or.inr hother)) job hjob
  refine ⟨fun c' hc' job hjob => Nat.le_succ_of_le (hseen c' hc' job hjob),
    fun length v list hentry => Nat.le_succ_of_le (h.stamped length v list hentry),
    fun _ c' hc' job hjob hcurrent => ?_, fun _ length list hentry => ?_⟩
  · have hle := hseen c' hc' job hjob
    rw [hcurrent] at hle
    exact absurd hle (Nat.not_succ_le_self _)
  · exact absurd (h.stamped length _ list hentry) (Nat.not_succ_le_self _)

theorem Tracked.resume {p : Running} (h : Tracked casing checker p) {n : ℕ} {c : Call}
    (hc : p.running[n]? = some c) (hm : ReadsInTime checker p (.resume n)) :
    Tracked casing checker (p.settle n (advance casing checker p.shared c)) := by
  have hmem : c ∈ p.running := List.mem_of_getElem? hc
  have hseen := h.seen c hmem
  have htrack := fun hnot => h.onTrack hnot c hmem
  cases c with
  | seeing length =>
    refine h.settle hc (by simp) rfl rfl ?_ fun _ _ _ hentry => Or.inl hentry
    rintro c' ⟨rfl⟩ job ⟨rfl⟩
    exact ⟨le_rfl, fun _ _ => trivial⟩
  | recalling job =>
    refine h.settle hc (by simp) rfl rfl ?_ fun _ _ _ hentry => Or.inl hentry
    intro c' hc' job' hjob
    simp only [advance] at hc'
    split at hc'
    · cases hc'
    · obtain rfl := Option.some.inj hc'
      obtain rfl := Option.some.inj hjob
      exact ⟨hseen job rfl, fun _ _ => rfl⟩
  | reading job words =>
    refine h.settle hc (by simp) rfl rfl ?_ fun _ _ _ hentry => Or.inl hentry
    intro c' hc' job' hjob
    simp only [advance] at hc'
    cases hread : ValidCache.readCache p.shared.valid.cache words with
    | mk valid unknown =>
      simp only [hread] at hc'
      have hright (j : Job) (hj : job = some j) (hnot : ¬Pending p)
          (hcurrent : j.version = p.shared.version) :
          RightOn casing checker p.shared.valid.lists j.length p.shared.valid.cache ∧
            ValidCache.readCache p.shared.valid.cache (shortCandidates casing j.length) =
              (valid, unknown) := by
        subst hj
        obtain rfl := htrack hnot j rfl hcurrent
        exact ⟨hm n j _ rfl hc hcurrent hnot, hread⟩
      split at hc'
      · rename_i hempty
        obtain ⟨j, rfl, rfl⟩ := Option.map_eq_some_iff.mp hc'
        obtain rfl := Option.some.inj hjob
        refine ⟨hseen j rfl, fun hnot hcurrent => ?_⟩
        obtain ⟨hrighton, hread'⟩ := hright j rfl hnot hcurrent
        have hlist := shortList_eq hrighton hread'
        rw [List.isEmpty_iff.mp hempty] at hlist
        simp only [ValidCache.compute, ValidCache.accepted, List.map_nil, List.filter_nil,
          List.append_nil] at hlist
        exact hlist
      · obtain rfl := Option.some.inj hc'
        exact ⟨hseen job' hjob, fun hnot hcurrent => ⟨_, hright job' hjob hnot hcurrent⟩⟩
  | computing job valid unknown =>
    refine h.settle hc (by simp) rfl rfl ?_ fun _ _ _ hentry => Or.inl hentry
    rintro c' ⟨rfl⟩ job' hjob
    refine ⟨hseen job' hjob, fun hnot hcurrent => ?_⟩
    obtain ⟨cache, hright, hread⟩ := htrack hnot job' hjob hcurrent
    exact ⟨cache, unknown, hright, hread, rfl⟩
  | storing job valid results =>
    refine h.settle hc (by simp) rfl rfl ?_ fun _ _ _ hentry => Or.inl hentry
    intro c' hc' job' hjob
    obtain ⟨job, rfl, rfl⟩ := Option.map_eq_some_iff.mp hc'
    obtain rfl := Option.some.inj hjob
    refine ⟨hseen job rfl, fun hnot hcurrent => ?_⟩
    obtain ⟨cache, unknown, hright, hread, rfl⟩ := htrack hnot job rfl hcurrent
    exact shortList_eq hright hread
  | keeping job list =>
    refine h.settle hc (by simp) rfl rfl (fun c' hc' => by cases hc') ?_
    intro length v list' hentry
    simp only [advance] at hentry
    rw [Table.lookup_insert] at hentry
    split at hentry
    · rename_i hlength
      obtain ⟨rfl, rfl⟩ := Prod.mk.inj (Option.some.inj hentry)
      refine Or.inr ⟨hseen job rfl, fun hnot hcurrent => ?_⟩
      rw [hlength]
      exact htrack hnot job rfl hcurrent
    · exact Or.inl hentry
  | writing u =>
    simp only [advance]
    cases u.write p.shared.valid.lists with
    | none =>
      exact h.settle hc (by simp) rfl rfl (fun c' hc' => by cases hc')
        fun _ _ _ hentry => Or.inl hentry
    | some w => exact h.write hc w.1 w.2
  | raising target => exact h.raise hc
  | invalidating target =>
    exact h.settle hc (by simp) rfl rfl (fun c' hc' => by cases hc')
      fun _ _ _ hentry => Or.inl hentry

/-- **Step.** -/
theorem tracked_step {p : Running} {m : Calls.Move Request} (h : Tracked casing checker p)
    (hm : ReadsInTime checker p m) : Tracked casing checker (step casing checker p m) := by
  cases m with
  | call request =>
    have hjob : (start request).job = none := by cases request <;> rfl
    have hpending : ¬Pending (step casing checker p (.call request)) → ¬Pending p := by
      rintro hnot ⟨target, htarget⟩
      exact hnot ⟨target, List.mem_append_left _ htarget⟩
    have hbefore : ∀ c ∈ (step casing checker p (.call request)).running, ∀ job ∈ c.job,
        c ∈ p.running := by
      intro c hc job hcjob
      rcases List.mem_append.mp hc with hc | hc
      · exact hc
      · rw [List.mem_singleton.mp hc, hjob] at hcjob
        cases hcjob
    exact ⟨fun c hc job hcjob => h.seen c (hbefore c hc job hcjob) job hcjob, h.stamped,
      fun hnot c hc job hcjob => h.onTrack (hpending hnot) c (hbefore c hc job hcjob) job hcjob,
      fun hnot => h.kept (hpending hnot)⟩
  | resume n =>
    cases hc : p.running[n]? with
    | none =>
      rw [step, Calls.Pool.step_resume_none start (advance casing checker) hc]
      exact h
    | some c =>
      rw [step, Calls.Pool.step_resume start (advance casing checker) hc]
      exact h.resume hc hm

/-- When nothing runs the caches are settled. -/
theorem settled_of_quiet {p : Running} (hsound : Sound checker p) (htracked : Tracked casing checker p)
    (hq : p.Quiet) : p.shared.Settled casing checker := by
  have hnot : ¬Pending p := by
    rintro ⟨target, htarget⟩
    rw [hq] at htarget
    cases htarget
  exact ⟨hsound.settled hq, htracked.stamped, htracked.kept hnot⟩

/-- **The lists of short words are current.** When nothing runs after timely moves, `short_words`
returns the list that the word lists determine. -/
theorem shortWords_of_timely {p : Running}
    (h : Runs.Reaches (step casing checker) Initial (Timely checker) p) (hq : p.Quiet)
    (length : ℕ) : (shortWords casing checker p.shared length).2 =
      listing casing checker p.shared.valid.lists length := by
  have hboth : Sound checker p ∧ Tracked casing checker p :=
    Runs.Reaches.invariant (step casing checker)
      (P := fun p => Sound checker p ∧ Tracked casing checker p)
      (fun _ hp => ⟨sound_of_initial hp, tracked_of_initial hp⟩)
      (fun _ _ hp hm => ⟨sound_step hp.1 hm.1, tracked_step hp.2 hm.2⟩) h
  exact (settled_of_quiet hboth.1 hboth.2 hq).shortWords_snd length

end

/-! ## A list of outdated verdicts -/

def eb : Word := ['E', 'B']

/-- A server with empty lists. -/
def fresh : Running := ⟨emptyCaches, []⟩

theorem fresh_initial : Initial fresh := ⟨emptyCaches_initial, rfl⟩

/-- `EB` is looked up and then voted out; the update has raised the version, and is still to
remove the word from the cache. -/
def early : List (Calls.Move Request) :=
  [.call (.filterValid [eb]), .resume 0, .resume 0, .resume 0,
   .call (.update (.markVotedRejected eb true)), .resume 0, .resume 0]

/-- `short_words` reads the new version and the old verdict, and keeps its list after the update
is through. -/
def between : List (Calls.Move Request) :=
  [.call (.shortWords 2), .resume 1, .resume 1, .resume 1, .resume 1, .resume 1, .resume 0, .resume 0]

/-- `short_words` reads the new version before the update is through and the verdicts after it. -/
def inTurn : List (Calls.Move Request) :=
  [.call (.shortWords 2), .resume 1, .resume 0] ++ List.replicate 5 (.resume 0)

theorem timely_call (checker : Option (Word → Bool)) (p : Running) (r : Request) :
    Timely checker p (.call r) :=
  ⟨fun _ _ _ _ hm => (by cases hm), fun _ _ _ hm => (by cases hm)⟩

/-- A step that neither reads nor stores verdicts is in time. -/
theorem timely_resume (checker : Option (Word → Bool)) {p : Running} {n : ℕ} {c : Call}
    (hc : p.running[n]? = some c) (hstore : ∀ job valid results, c ≠ .storing job valid results)
    (hread : ∀ job words, c ≠ .reading (some job) words) : Timely checker p (.resume n) := by
  constructor
  · rintro _ job valid results ⟨⟩ hget
    exact absurd (Option.some.inj (hc.symm.trans hget)) (hstore job valid results)
  · rintro _ job words ⟨⟩ hget
    exact absurd (Option.some.inj (hc.symm.trans hget)) (hread job words)

theorem early_timely :
    Runs.Along (step .hungarian ValidCache.lenient) (Timely ValidCache.lenient) fresh early := by
  refine ⟨timely_call _ _ _, timely_resume _ rfl nofun nofun, timely_resume _ rfl nofun nofun, ?_,
    timely_call _ _ _, timely_resume _ rfl nofun nofun, timely_resume _ rfl nofun nofun, trivial⟩
  constructor
  · rintro _ _ _ _ ⟨⟩ ⟨⟩ e he
    left
    revert e
    decide
  · rintro _ _ _ ⟨⟩ ⟨⟩

def ebVoted : Lists := ValidCache.markVoted Lists.empty (toLowercase eb) true

def ebCached : Table Word Bool := (∅ : Table Word Bool).insert (toLowercase eb) true

theorem run_early : Runs.run (step .hungarian ValidCache.lenient) fresh early =
    ⟨⟨⟨ebVoted, ebCached⟩, 1, ∅⟩, [.invalidating (some (toLowercase eb))]⟩ := rfl

theorem run_between {casing : Casing} {cache : Table Word Bool} (lists : Lists) (version : ℕ)
    (target : Option Word) (checker : Option (Word → Bool)) {valid : List Word}
    {unknown : List (Word × Word)}
    (hread : ValidCache.readCache cache (shortCandidates casing 2) = (valid, unknown))
    (hne : unknown ≠ []) :
    ∃ d, Runs.run (step casing checker) ⟨⟨⟨lists, cache⟩, version, ∅⟩, [.invalidating target]⟩
      between = ⟨⟨⟨lists, d⟩, version, (∅ : Table ℕ (ℕ × List ShortWord)).insert 2 (version,
        shortList casing (valid ++ ValidCache.accepted (ValidCache.compute checker lists unknown)))⟩,
          []⟩ := by
  refine ⟨ValidCache.invalidate (ValidCache.store cache (ValidCache.compute checker lists unknown))
    target, ?_⟩
  simp [between, step, Calls.Pool.step, Calls.Pool.settle, advance, start, hread, hne, finish]

theorem mem_shortCandidates_two {word : Word} (hupper : Casing.hungarian.toUppercase word = word)
    (htiles : (tokenizeWord .hungarian word).map List.length = some 2)
    (hvowel : hasVowelUpper word = true) : word ∈ shortCandidates .hungarian 2 :=
  (mem_shortCandidates hupper).mpr ⟨htiles, hvowel⟩

/-- `AB` is still to be looked up if nothing is cached of it. -/
theorem read_unknown {cache : Table Word Bool} {valid : List Word} {unknown : List (Word × Word)}
    (hcache : cache.lookup ['a', 'b'] = none)
    (hread : ValidCache.readCache cache (shortCandidates .hungarian 2) = (valid, unknown)) :
    unknown ≠ [] := by
  have hab : ['A', 'B'] ∈ shortCandidates .hungarian 2 :=
    mem_shortCandidates_two (by decide) (by decide +kernel) (by decide)
  obtain ⟨-, rfl⟩ := Prod.mk.inj hread
  have hlower : toLowercase ['A', 'B'] = ['a', 'b'] := by decide
  have hunknown : ['A', 'B'] ∈ ((shortCandidates .hungarian 2).dedup.filter fun w =>
      Lexicon.wellShaped w).filter fun w => (cache.lookup (toLowercase w)).isNone :=
    List.mem_filter.mpr ⟨List.mem_filter.mpr ⟨List.mem_dedup.mpr hab, by decide⟩, by
      rw [hlower, hcache, Option.isNone_none]⟩
  exact List.ne_nil_of_mem (List.mem_map_of_mem hunknown)

/-- The old verdict on `EB` is read, and another word is still to be looked up. -/
theorem read_ebCached {valid : List Word} {unknown : List (Word × Word)}
    (hread : ValidCache.readCache ebCached (shortCandidates .hungarian 2) = (valid, unknown)) :
    eb ∈ valid ∧ unknown ≠ [] := by
  refine ⟨?_, read_unknown (by decide) hread⟩
  have heb : eb ∈ shortCandidates .hungarian 2 :=
    mem_shortCandidates_two (by decide) (by decide +kernel) (by decide)
  obtain ⟨rfl, -⟩ := Prod.mk.inj hread
  exact List.mem_filter.mpr ⟨List.mem_filter.mpr ⟨List.mem_dedup.mpr heb, by decide⟩, by decide⟩

/-- A call of `short_words` that runs alone and finds no outdated verdict is in time, and comes to
its end. -/
theorem recalling_timely {casing : Casing} (checker : Option (Word → Bool)) (lists : Lists)
    {cache : Table Word Bool} (version : ℕ) {valid : List Word} {unknown : List (Word × Word)}
    (hright : RightOn casing checker lists 2 cache)
    (hread : ValidCache.readCache cache (shortCandidates casing 2) = (valid, unknown))
    (hne : unknown ≠ []) :
    let p : Running := ⟨⟨⟨lists, cache⟩, version, ∅⟩, [.recalling ⟨2, version⟩]⟩
    Runs.Along (step casing checker) (Timely checker) p (List.replicate 5 (.resume 0)) ∧
      (Runs.run (step casing checker) p (List.replicate 5 (.resume 0))).Quiet := by
  intro p
  let results := ValidCache.compute checker lists unknown
  let reading : Running :=
    ⟨p.shared, [.reading (some ⟨2, version⟩) (shortCandidates casing 2)]⟩
  let computing : Running := ⟨p.shared, [.computing (some ⟨2, version⟩) valid unknown]⟩
  let storing : Running := ⟨p.shared, [.storing (some ⟨2, version⟩) valid results]⟩
  let keeping : Running := ⟨⟨⟨lists, ValidCache.store cache results⟩, version, ∅⟩,
    [.keeping ⟨2, version⟩ (shortList casing (valid ++ ValidCache.accepted results))]⟩
  have hreading : step casing checker p (.resume 0) = reading := rfl
  have hcomputing : step casing checker reading (.resume 0) = computing := by
    simp [reading, computing, p, step, Calls.Pool.step, Calls.Pool.settle, advance, hread, hne]
  have hstoring : step casing checker computing (.resume 0) = storing := rfl
  have hkeeping : step casing checker storing (.resume 0) = keeping := rfl
  have hreads : Timely checker reading (.resume 0) := by
    constructor
    · rintro _ _ _ _ ⟨⟩ ⟨⟩
    · rintro _ _ _ ⟨⟩ ⟨⟩ - - w hw
      exact hright w hw
  have hstores : Timely checker storing (.resume 0) := by
    constructor
    · rintro _ _ _ _ ⟨⟩ ⟨⟩ e he
      obtain ⟨u, -, rfl⟩ := List.mem_map.mp he
      exact .inl rfl
    · rintro _ _ _ ⟨⟩ ⟨⟩
  simp only [List.replicate, Runs.along_cons, Runs.run_cons, hreading, hcomputing, hstoring, hkeeping]
  refine ⟨⟨?_, hreads, ?_, hstores, ?_, trivial⟩, ?_⟩
  · exact timely_resume checker (c := .recalling ⟨2, version⟩) rfl (by simp) (by simp)
  · exact timely_resume checker (c := .computing (some ⟨2, version⟩) valid unknown) rfl
      (by simp) (by simp)
  · exact timely_resume checker (c := .keeping ⟨2, version⟩ _) rfl (by simp) (by simp)
  · rfl

/-- The list that was found across the update is current. -/
theorem shortWords_inTurn : (shortWords .hungarian ValidCache.lenient
      (Runs.run (step .hungarian ValidCache.lenient) fresh (early ++ inTurn)).shared 2).2 =
    listing .hungarian ValidCache.lenient (Runs.run (step .hungarian ValidCache.lenient) fresh
      (early ++ inTurn)).shared.valid.lists 2 := by
  let recalling : Running :=
    ⟨⟨⟨ebVoted, ValidCache.invalidate ebCached (some (toLowercase eb))⟩, 1, ∅⟩, [.recalling ⟨2, 1⟩]⟩
  -- with `EB` the only verdict is gone
  have hnone (key : Word) : recalling.shared.valid.cache.lookup key = none := by
    change (ebCached.erase (toLowercase eb)).lookup key = none
    rw [Table.lookup_erase]
    split
    · rfl
    · rename_i hne
      rw [ebCached, Table.lookup_insert, if_neg hne]
      rfl
  cases hread : ValidCache.readCache recalling.shared.valid.cache (shortCandidates .hungarian 2) with
  | mk valid unknown =>
    obtain ⟨htimely, hquiet⟩ := recalling_timely ValidCache.lenient ebVoted 1
      (fun w _ v hv => absurd ((hnone _).symm.trans hv) nofun) hread (read_unknown (hnone _) hread)
    have hall : Runs.Along (step .hungarian ValidCache.lenient) (Timely ValidCache.lenient) fresh
        (early ++ inTurn) := by
      rw [Runs.along_append, run_early]
      refine ⟨early_timely, timely_call _ _ _, ?_, ?_, htimely⟩
      · exact timely_resume _ (c := .seeing 2) rfl nofun nofun
      · exact timely_resume _ (c := .invalidating (some (toLowercase eb))) rfl nofun nofun
    refine shortWords_of_timely ⟨fresh, early ++ inTurn, fresh_initial, hall, rfl⟩ ?_ 2
    have hmeets : Runs.run (step .hungarian ValidCache.lenient)
        ⟨⟨⟨ebVoted, ebCached⟩, 1, ∅⟩, [.invalidating (some (toLowercase eb))]⟩
        [.call (.shortWords 2), .resume 1, .resume 0] = recalling := rfl
    rw [Runs.run_append, run_early, inTurn, Runs.run_append, hmeets]
    exact hquiet

/-- **A list that outlives its verdicts.** Nothing runs, `EB` is rejected by vote, and the list of
the words of two tiles that is kept with the version of the lists still has it. -/
theorem stale_list :
    ¬∀ (casing : Casing) (checker : Option (Word → Bool)) (p : Running),
      Runs.Reaches (step casing checker) Initial (fun _ _ => True) p → p.Quiet →
        ∀ length ∈ shortLengths, (shortWords casing checker p.shared length).2 =
          listing casing checker p.shared.valid.lists length := by
  intro h
  cases hread : ValidCache.readCache ebCached (shortCandidates .hungarian 2) with
  | mk valid unknown =>
    obtain ⟨heb, hne⟩ := read_ebCached hread
    obtain ⟨d, hrun⟩ := run_between ebVoted 1 (some (toLowercase eb)) ValidCache.lenient
      hread hne
    rw [← run_early, ← Runs.run_append] at hrun
    have hstale := h .hungarian ValidCache.lenient _ ⟨fresh, early ++ between, fresh_initial,
      Runs.along_of_forall _ (fun _ _ _ => trivial) _, hrun⟩ rfl 2 (by decide)
    rw [shortWords_of_lookup (AList.lookup_insert _)] at hstale
    have hmem : eb ∈ (listing .hungarian ValidCache.lenient ebVoted 2).map ShortWord.word := by
      rw [← hstale, words_shortList, List.mem_mergeSort]
      exact List.mem_append_left _ heb
    have hrejected : Lexicon.accepts ⟨ValidCache.lenient, ebVoted⟩ eb = false := by decide
    rw [mem_words_listing, hrejected] at hmem
    cases hmem.2.2

end ScrabbleMagyar.ShortCache
