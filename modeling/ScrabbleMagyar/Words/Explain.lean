import ScrabbleMagyar.Words.AffixLanguage
import Mathlib.Data.List.Destutter
import Mathlib.Data.String.Basic

/-!
# The word inspector

The derivations that the word inspector shows for a word (`explain` in `words/affix.rs`). They are
found by a search of their own beside the one that decides: `matchingKind` stops at the first
entry of a spelling that takes the suffix, where the decision looks at all of them.

* `explain_iff`: without prefix rules an explanation is shown exactly for the accepted words, and
  one that is not risky exactly for those valid without risky derivations, as long as no plain
  derivation is hidden behind a homonym.
* `homonym_hidden`: a word for which it is.
-/

namespace ScrabbleMagyar

def Derived.asStr : Derived → String
  | noun => "noun"
  | adj => "adj"
  | other => "other"

/-- The names of the risks, by their bit. -/
def riskNameTable : List (UInt8 × String) :=
  [(1, "familiar"), (riskEssive, "essive"), (riskPoss, "possessive"), (8, "derived"),
   (16, "derivation")]

def riskNames (rule : Option Rule) : List String :=
  match rule with
  | some rule => (riskNameTable.filter fun e => rule.risk &&& e.1 ≠ 0).map Prod.snd
  | none => []

/-- A derivation as the word inspector shows it. -/
structure Explanation where
  stem : Word
  pfx : Option Word
  suffixes : List Word
  risky : Bool
  risk : List String
  adjective : Bool
  derived : Option String
  deriving DecidableEq

/-- A derivation that was found: the arguments of `add`. -/
structure Hit where
  stem : Word
  pfx : Option Word
  suffixes : List Word
  rule : Option Rule
  kind : UInt8
  outer : Option Rule

namespace Hit

def explanation (h : Hit) : Explanation where
  stem := h.stem
  pfx := h.pfx
  suffixes := h.suffixes
  risky := h.rule.any fun r => isRisky h.kind r h.outer
  risk := ((riskNames h.rule ++ riskNames h.outer).mergeSort (· ≤ ·)).destutter (· ≠ ·)
  adjective := h.kind &&& kindAdj ≠ 0
  derived := (h.rule.bind Rule.derived).map Derived.asStr

/-- Add a derivation to those found, unless there are enough or it is among them. -/
def add (limit : ℕ) (found : List Explanation) (h : Hit) : List Explanation :=
  if found.length ≥ limit then found
  else if found.contains h.explanation then found
  else found ++ [h.explanation]

end Hit

namespace AffixChecker

/-- The kind of the first entry of a stem that takes the affixes. -/
def matchingKind (c : AffixChecker) (stem : Word) (rule : Rule) (pfx : Option Rule)
    (outerFlag : Option UInt8) : Option UInt8 :=
  ((c.usableEntries stem).find? fun entry =>
    if !entry.flags.contains rule.flag && !pfx.any (fun p => p.contHas rule.flag) then false
    else if pfx.any fun p => !entry.flags.contains p.flag && !rule.contHas p.flag then false
    else if outerFlag.any fun f => !rule.contHas f then false
    else true).map Entry.kind

/-- The body of the loop of `suffixHits`: one rule, on what is left of the word. -/
def hitSuffix (c : AffixChecker) (pfx : Option Rule) (outerFlag : Option UInt8) (base : Word)
    (rule : Rule) : Option (Rule × Word × UInt8) :=
  if outerFlag.isSome && rule.cont.isNone then none
  else if rule.onlyInCompound then none
  else if outerFlag.isNone && rule.needAffix && !pfx.any (fun p => !p.needAffix) then none
  else if pfx.any fun p => !(rule.cross && p.cross) then none
  else
    let stem := base ++ rule.strip
    if !rule.condOkSuffix stem then none
    else (c.matchingKind stem rule pfx outerFlag).map fun kind => (rule, stem, kind)

/-- The hits of `suffixCheck`: the rule, the stem and the kind of the entry. -/
def suffixHits (c : AffixChecker) (word : Word) (pfx : Option Rule) (outerFlag : Option UInt8) :
    List (Rule × Word × UInt8) :=
  (c.suffixCandidates word).flatMap fun (add, rules) =>
    rules.filterMap (c.hitSuffix pfx outerFlag (word.take (word.length - add.length)))

/-- The body of the loop over the prefixes. -/
def hitsOfPrefix (c : AffixChecker) (rest : Word) (prule : Rule) : List Hit :=
  if prule.onlyInCompound then []
  else
    let stem := prule.strip ++ rest
    if !prule.condOkPrefix stem then []
    else
      (match (c.usableEntries stem).find? fun e => e.flags.contains prule.flag with
        | some entry => [⟨stem, some prule.add, [], some prule, entry.kind, none⟩]
        | none => []) ++
      if prule.cross then
        (c.suffixHits stem (some prule) none).map fun (srule, sstem, kind) =>
          ⟨sstem, some prule.add, [srule.add], some srule, kind, none⟩
      else []

/-- The body of the loop over the outer suffixes. -/
def hitsOfOuter (c : AffixChecker) (base : Word) (orule : Rule) : List Hit :=
  if !c.contFlags orule.flag || orule.onlyInCompound then []
  else
    let inner := base ++ orule.strip
    if !orule.condOkSuffix inner then []
    else (c.suffixHits inner none (some orule.flag)).map fun (irule, stem, kind) =>
      ⟨stem, none, [irule.add, orule.add], some irule, kind, some orule⟩

/-- All derivations that are found, in the order of the search. -/
def hits (c : AffixChecker) (word : Word) : List Hit :=
  (if c.hasStem word then [⟨word, none, [], none, 0, none⟩] else []) ++
  ((c.prefixCandidates word).flatMap fun (add, prules) =>
    prules.flatMap (c.hitsOfPrefix (word.drop add.length))) ++
  ((c.suffixHits word none none).map fun (srule, stem, kind) =>
    ⟨stem, none, [srule.add], some srule, kind, none⟩) ++
  (c.suffixCandidates word).flatMap fun (add, orules) =>
    orules.flatMap (c.hitsOfOuter (word.take (word.length - add.length)))

/-- The derivations of a lower case word, at most `limit` of them. -/
def explain (c : AffixChecker) (word : Word) (limit : ℕ) : List Explanation :=
  (c.hits word).foldl (Hit.add limit) []

/-! ## What is found -/

theorem mem_foldl_add {limit : ℕ} {l : List Hit} {found : List Explanation}
    (hlimit : found.length + l.length ≤ limit) (e : Explanation) :
    e ∈ l.foldl (Hit.add limit) found ↔ e ∈ found ∨ ∃ h ∈ l, h.explanation = e := by
  induction l generalizing found with
  | nil => simp
  | cons h l ih =>
    rw [List.length_cons] at hlimit
    have hroom : ¬found.length ≥ limit := by omega
    have hadd : Hit.add limit found h =
        if h.explanation ∈ found then found else found ++ [h.explanation] := by
      simp only [Hit.add, hroom, if_false, List.contains_iff_mem]
    rw [List.foldl_cons, hadd]
    split
    · rename_i hmem
      rw [ih (by omega)]
      simp only [List.mem_cons, exists_eq_or_imp]
      constructor
      · rintro (he | hrest)
        · exact .inl he
        · exact .inr (.inr hrest)
      · rintro (he | rfl | hrest)
        · exact .inl he
        · exact .inl hmem
        · exact .inr hrest
    · rw [ih (by simp; omega), List.mem_append, List.mem_singleton, or_assoc, eq_comm]
      simp only [List.mem_cons, exists_eq_or_imp]

variable {c : AffixChecker} {word stem : Word}

/-- A search that gathers finds what every suffix rule contributes whose text can be taken off. -/
theorem mem_suffixCandidates_flatMap {β : Type*} (word : Word) (f : Word → Rule → List β) (x : β) :
    (x ∈ (c.suffixCandidates word).flatMap fun (add, rules) =>
        rules.flatMap (f (word.take (word.length - add.length)))) ↔
      ∃ r ∈ c.suffixes, ∃ base, word = base ++ r.add ∧ Searched base r.add ∧ x ∈ f base r := by
  classical
  have hany := suffixCandidates_any_iff (c := c) word fun base r => decide (x ∈ f base r)
  simpa [List.any_eq_true, List.mem_flatMap] using hany

/-- The first of the usable entries of a stem that has the flag. -/
def Foremost (c : AffixChecker) (stem : Word) (flag : UInt8) (e : Entry) : Prop :=
  ∃ before after, c.usableEntries stem = before ++ e :: after ∧ flag ∈ e.flags ∧
    ∀ d ∈ before, flag ∉ d.flags

theorem Foremost.usable {flag : UInt8} {e : Entry} (h : c.Foremost stem flag e) :
    c.UsableEntry stem e := by
  obtain ⟨before, after, heq, -⟩ := h
  exact mem_usableEntries.mp (by simp [heq])

theorem find?_flag_iff {flag : UInt8} {e : Entry} :
    (c.usableEntries stem).find? (fun e => e.flags.contains flag) = some e ↔
      c.Foremost stem flag e := by
  rw [List.find?_eq_some_iff_append]
  simp only [Foremost, List.contains_iff_mem, Bool.not_eq_true', ← Bool.not_eq_true]
  constructor
  · rintro ⟨hflag, before, after, heq, hbefore⟩
    exact ⟨before, after, heq, hflag, hbefore⟩
  · rintro ⟨before, after, heq, hflag, hbefore⟩
    exact ⟨hflag, before, after, heq, hbefore⟩

/-- A stem with an entry that has the flag has a first one. -/
theorem exists_foremost {flag : UInt8} {e : Entry} (entry : c.UsableEntry stem e)
    (hflag : flag ∈ e.flags) : ∃ e', c.Foremost stem flag e' := by
  have hsome : ((c.usableEntries stem).find? fun e => e.flags.contains flag).isSome = true :=
    List.find?_isSome.mpr ⟨e, mem_usableEntries.mpr entry, by simpa using hflag⟩
  obtain ⟨e', he'⟩ := Option.isSome_iff_exists.mp hsome
  exact ⟨e', find?_flag_iff.mp he'⟩

theorem matchingKind_iff (r : Rule) (outer : Option Rule) (kind : UInt8) :
    c.matchingKind stem r none (outer.map Rule.flag) = some kind ↔
      (∀ o, outer = some o → r.contHas o.flag = true) ∧
        ∃ e, c.Foremost stem r.flag e ∧ e.kind = kind := by
  unfold matchingKind
  by_cases hcont : ∀ o, outer = some o → r.contHas o.flag = true
  · have hany : ((outer.map Rule.flag).any fun f => !r.contHas f) = false := by
      cases outer with
      | none => rfl
      | some o => simpa using hcont o rfl
    have htest : (fun entry : Entry =>
        if !entry.flags.contains r.flag && !(none : Option Rule).any (fun p => p.contHas r.flag) then
          false
        else if (none : Option Rule).any
            fun p => !entry.flags.contains p.flag && !r.contHas p.flag then
          false
        else if (outer.map Rule.flag).any fun f => !r.contHas f then false
        else true) = fun entry => entry.flags.contains r.flag := by
      funext entry
      simp [hany]
    rw [htest, Option.map_eq_some_iff]
    simp only [find?_flag_iff]
    exact ⟨fun h => ⟨hcont, h⟩, fun h => h.2⟩
  · obtain ⟨o, rfl, hnot⟩ : ∃ o, outer = some o ∧ r.contHas o.flag = false := by
      simpa using hcont
    simp only [hcont, false_and, iff_false, Option.map_some, Option.any_some, hnot]
    rw [List.find?_eq_none.mpr]
    · simp
    · intro entry _
      simp

theorem hitSuffix_iff (outer : Option Rule) (base : Word) (r : Rule) (x : Rule × Word × UInt8) :
    c.hitSuffix none (outer.map Rule.flag) base r = some x ↔
      r.onlyInCompound = false ∧ (∀ cond, r.cond = some cond → cond.FitsEnd (base ++ r.strip)) ∧
        (outer = none → r.needAffix = false) ∧ (∀ o, outer = some o → r.contHas o.flag = true) ∧
        ∃ e, c.Foremost (base ++ r.strip) r.flag e ∧ x = (r, base ++ r.strip, e.kind) := by
  have hkind : ((c.matchingKind (base ++ r.strip) r none (outer.map Rule.flag)).map
      fun kind => (r, base ++ r.strip, kind)) = some x ↔
        (∀ o, outer = some o → r.contHas o.flag = true) ∧
          ∃ e, c.Foremost (base ++ r.strip) r.flag e ∧ x = (r, base ++ r.strip, e.kind) := by
    rw [Option.map_eq_some_iff]
    simp only [matchingKind_iff]
    constructor
    · rintro ⟨_, ⟨hcont, e, he, rfl⟩, rfl⟩
      exact ⟨hcont, e, he, rfl⟩
    · rintro ⟨hcont, e, he, rfl⟩
      exact ⟨_, ⟨hcont, e, he, rfl⟩, rfl⟩
  unfold hitSuffix
  rw [← hkind, ← condOkSuffix_iff]
  -- a rule without continuation flags continues with no outer suffix
  by_cases hnone : (outer.map Rule.flag).isSome && r.cont.isNone
  · simp only [hnone, if_true, reduceCtorEq, false_iff]
    rintro ⟨-, -, -, hfound⟩
    obtain ⟨hcont, -⟩ := hkind.mp hfound
    cases outer with
    | none => simp at hnone
    | some o =>
      have ho := hcont o rfl
      have hr : r.cont = none := by simpa using hnone
      simp [Rule.contHas, hr] at ho
  · simp only [hnone, Bool.false_eq_true, if_false]
    cases r.onlyInCompound <;> cases outer <;> cases r.needAffix <;>
      cases r.condOkSuffix (base ++ r.strip) <;> simp

/-- The suffix `r` on a stem makes the word, alone or under the suffix `outer`. -/
inductive Chain (c : AffixChecker) (word stem : Word) (r : Rule) : Option Rule → Prop
  | one (hr : r ∈ c.suffixes) {base : Word} (on : r.SuffixOn Searched base stem word)
      (alone : r.needAffix = false) : Chain c word stem r none
  | two (o : Rule) (ho : o ∈ c.suffixes) (hr : r ∈ c.suffixes) {base base' inner : Word}
      (outerOn : o.SuffixOn Searched base inner word) (on : r.SuffixOn Searched base' stem inner)
      (continued : r.contHas o.flag = true) : Chain c word stem r (some o)

/-- What is found with the suffixes at the end of a word. -/
theorem mem_suffixHits_iff (outer : Option Rule) (x : Rule × Word × UInt8) :
    x ∈ c.suffixHits word none (outer.map Rule.flag) ↔
      ∃ r ∈ c.suffixes, ∃ base stem, r.SuffixOn Searched base stem word ∧
        (outer = none → r.needAffix = false) ∧ (∀ o, outer = some o → r.contHas o.flag = true) ∧
        ∃ e, c.Foremost stem r.flag e ∧ x = (r, stem, e.kind) := by
  have hmem := mem_suffixCandidates_flatMap (c := c) word
    (fun base r => (c.hitSuffix none (outer.map Rule.flag) base r).toList) x
  have hfilter : c.suffixHits word none (outer.map Rule.flag) =
      (c.suffixCandidates word).flatMap fun (add, rules) => rules.flatMap fun r =>
        (c.hitSuffix none (outer.map Rule.flag) (word.take (word.length - add.length)) r).toList := by
    simp only [suffixHits, List.filterMap_eq_flatMap_toList]
  rw [hfilter, hmem]
  refine exists_congr fun r => and_congr_right fun _ => ?_
  simp only [Option.mem_toList, hitSuffix_iff]
  constructor
  · rintro ⟨base, hword, hcut, hstanding, hfits, halone, hcont, e, he, rfl⟩
    exact ⟨base, _, ⟨hword, rfl, hcut, hfits, hstanding⟩, halone, hcont, e, he, rfl⟩
  · rintro ⟨base, stem, hon, halone, hcont, e, he, rfl⟩
    obtain rfl := hon.stem_eq
    exact ⟨base, hon.form_eq, hon.cut, hon.standing, hon.fits, halone, hcont, e, he, rfl⟩

/-- What is found with an outer suffix. -/
theorem mem_hitsOfOuter_iff (base : Word) (o : Rule) (h : Hit) :
    h ∈ c.hitsOfOuter base o ↔
      o.onlyInCompound = false ∧ (∀ cond, o.cond = some cond → cond.FitsEnd (base ++ o.strip)) ∧
        ∃ r ∈ c.suffixes, ∃ base' stem, r.SuffixOn Searched base' stem (base ++ o.strip) ∧
          r.contHas o.flag = true ∧ ∃ e, c.Foremost stem r.flag e ∧
            h = ⟨stem, none, [r.add, o.add], some r, e.kind, some o⟩ := by
  have hinner : h ∈ (c.suffixHits (base ++ o.strip) none (some o.flag)).map (fun (irule, stem, kind) =>
      (⟨stem, none, [irule.add, o.add], some irule, kind, some o⟩ : Hit)) ↔
        ∃ r ∈ c.suffixes, ∃ base' stem, r.SuffixOn Searched base' stem (base ++ o.strip) ∧
          r.contHas o.flag = true ∧ ∃ e, c.Foremost stem r.flag e ∧
            h = ⟨stem, none, [r.add, o.add], some r, e.kind, some o⟩ := by
    rw [List.mem_map, show some o.flag = (some o).map Rule.flag from rfl]
    simp only [mem_suffixHits_iff]
    constructor
    · rintro ⟨_, ⟨r, hr, base', stem, on, -, hcont, e, he, rfl⟩, rfl⟩
      exact ⟨r, hr, base', stem, on, hcont o rfl, e, he, rfl⟩
    · rintro ⟨r, hr, base', stem, on, hcont, e, he, rfl⟩
      refine ⟨_, ⟨r, hr, base', stem, on, nofun, ?_, e, he, rfl⟩, rfl⟩
      rintro _ ⟨⟩
      exact hcont
  unfold hitsOfOuter
  by_cases hnoted : c.contFlags o.flag = true
  · rw [← hinner, ← condOkSuffix_iff, hnoted]
    cases o.onlyInCompound <;> cases hcond : o.condOkSuffix (base ++ o.strip) <;> simp [hcond]
  · -- the flag of an outer suffix is among the continuation flags noted at loading
    have hfalse : c.contFlags o.flag = false := by simpa using hnoted
    simp only [hfalse, Bool.not_false, Bool.true_or, if_true, List.not_mem_nil, false_iff]
    rintro ⟨-, -, r, hr, base', stem, -, hcont, -⟩
    exact hnoted (c.contFlags_of_contHas r (List.mem_append_right _ hr) _ hcont)

/-- Without prefix rules the inspector finds the word itself, and every chain of suffixes with the
first entry that takes it. -/
theorem mem_hits_iff (hpfx : c.prefixes = []) (h : Hit) :
    h ∈ c.hits word ↔ c.hasStem word = true ∧ h = ⟨word, none, [], none, 0, none⟩ ∨
      ∃ stem r outer e, c.Chain word stem r outer ∧ c.Foremost stem r.flag e ∧
        h = ⟨stem, none, r.add :: outer.toList.map Rule.add, some r, e.kind, outer⟩ := by
  have hnopfx : c.prefixCandidates word = [] := by
    simp [prefixCandidates, rulesFor, hpfx]
  have hone : h ∈ (c.suffixHits word none none).map (fun s =>
      (⟨s.2.1, none, [s.1.add], some s.1, s.2.2, none⟩ : Hit)) ↔
        ∃ r ∈ c.suffixes, ∃ base stem, r.SuffixOn Searched base stem word ∧ r.needAffix = false ∧
          ∃ e, c.Foremost stem r.flag e ∧ h = ⟨stem, none, [r.add], some r, e.kind, none⟩ := by
    rw [List.mem_map, show (none : Option UInt8) = (none : Option Rule).map Rule.flag from rfl]
    simp only [mem_suffixHits_iff]
    constructor
    · rintro ⟨_, ⟨r, hr, base, stem, on, halone, -, e, he, rfl⟩, rfl⟩
      exact ⟨r, hr, base, stem, on, halone trivial, e, he, rfl⟩
    · rintro ⟨r, hr, base, stem, on, halone, e, he, rfl⟩
      exact ⟨_, ⟨r, hr, base, stem, on, fun _ => halone, by simp, e, he, rfl⟩, rfl⟩
  have hself : h ∈ (if c.hasStem word then [(⟨word, none, [], none, 0, none⟩ : Hit)] else []) ↔
      c.hasStem word = true ∧ h = ⟨word, none, [], none, 0, none⟩ := by
    split <;> simp_all
  unfold hits
  rw [hnopfx, List.flatMap_nil, List.append_nil, List.mem_append, List.mem_append, hself,
    mem_suffixCandidates_flatMap]
  refine (or_congr_left (or_congr_right hone)).trans ?_
  rw [or_assoc]
  simp only [mem_hitsOfOuter_iff]
  refine or_congr_right ⟨?_, ?_⟩
  · rintro (⟨r, hr, base, stem, on, alone, e, he, rfl⟩ |
      ⟨o, ho, base, hword, hcut, hstanding, hfits, r, hr, base', stem, on, continued, e, he, rfl⟩)
    · exact ⟨stem, r, none, e, .one hr on alone, he, rfl⟩
    · exact ⟨stem, r, some o, e,
        .two o ho hr ⟨hword, rfl, hcut, hfits, hstanding⟩ on continued, he, rfl⟩
  · rintro ⟨stem, r, outer, e, hchain, he, rfl⟩
    cases hchain with
    | one hr on alone => exact .inl ⟨r, hr, _, stem, on, alone, e, he, rfl⟩
    | two o ho hr outerOn on continued =>
      obtain rfl := outerOn.stem_eq
      exact .inr ⟨o, ho, _, outerOn.form_eq, outerOn.cut, outerOn.standing, outerOn.fits, r, hr, _,
        stem, on, continued, e, he, rfl⟩

/-- Without prefix rules the decision looks for the word itself, or a chain of suffixes with any
entry that takes it. -/
theorem compute_iff_chain (hpfx : c.prefixes = []) (hfree : ¬c.Forbidden word) (allowRisky : Bool) :
    c.compute word allowRisky = true ↔ c.hasStem word = true ∨
      ∃ stem r outer e, c.Chain word stem r outer ∧ c.UsableEntry stem e ∧ r.flag ∈ e.flags ∧
        Tolerated allowRisky r outer e := by
  have hnopfx (two : Bool) : c.prefixCheck word two allowRisky = false := by
    simp [prefixCheck, prefixCandidates, rulesFor, hpfx]
  rw [compute_eq word allowRisky hfree, hnopfx, hnopfx]
  simp only [Bool.or_eq_true, Bool.false_eq_true, or_false, or_assoc, suffixCheck_none_iff,
    suffixCheckTwo_none_iff]
  refine or_congr_right ⟨?_, ?_⟩
  · rintro (⟨r, hr, base, stem, on, e, entry, licensed, alone, tolerated⟩ |
      ⟨o, ho, base, inner, outerOn, r, hr, base', stem, on, e, entry, licensed, continued, tolerated⟩)
    · exact ⟨stem, r, none, e, .one hr on alone, entry, licensed, tolerated⟩
    · exact ⟨stem, r, some o, e, .two o ho hr outerOn on continued, entry, licensed, tolerated⟩
  · rintro ⟨stem, r, outer, e, hchain, entry, licensed, tolerated⟩
    cases hchain with
    | one hr on alone => exact .inl ⟨r, hr, _, stem, on, e, entry, licensed, alone, tolerated⟩
    | two o ho hr outerOn on continued =>
      exact .inr ⟨o, ho, _, _, outerOn, r, hr, _, stem, on, e, entry, licensed, continued, tolerated⟩

/-! ## The inspector and the decision -/

/-- If some chain of suffixes is not risky with one of the homonyms of its stem, then some chain
is not risky with the first homonym that takes it. -/
def Unhidden (c : AffixChecker) (word : Word) : Prop :=
  (∃ stem r outer e, c.Chain word stem r outer ∧ c.UsableEntry stem e ∧ r.flag ∈ e.flags ∧
    isRisky e.kind r outer = false) →
  ∃ stem r outer e, c.Chain word stem r outer ∧ c.Foremost stem r.flag e ∧
    isRisky e.kind r outer = false

theorem mem_explain_iff {limit : ℕ} (hlimit : (c.hits word).length ≤ limit) (e : Explanation) :
    e ∈ c.explain word limit ↔ ∃ h ∈ c.hits word, h.explanation = e := by
  rw [explain, mem_foldl_add (by simpa using hlimit)]
  simp

/-- With room for all of them there is an explanation exactly if the word is accepted with risky
derivations. -/
theorem explain_ne_nil_iff (hpfx : c.prefixes = []) (hfree : ¬c.Forbidden word) {limit : ℕ}
    (hlimit : (c.hits word).length ≤ limit) :
    c.explain word limit ≠ [] ↔ c.compute word true = true := by
  rw [compute_iff_chain hpfx hfree]
  constructor
  · intro hne
    obtain ⟨e, he⟩ := List.exists_mem_of_ne_nil _ hne
    obtain ⟨h, hmem, rfl⟩ := (mem_explain_iff hlimit e).mp he
    rcases (mem_hits_iff hpfx h).mp hmem with ⟨hstem, -⟩ | ⟨stem, r, outer, e, hchain, hfirst, rfl⟩
    · exact .inl hstem
    · obtain ⟨_, _, -, hflag, -⟩ := id hfirst
      exact .inr ⟨stem, r, outer, e, hchain, hfirst.usable, hflag, fun _ => rfl⟩
  · intro h
    obtain ⟨h, hmem⟩ : ∃ h, h ∈ c.hits word := by
      rcases h with hstem | ⟨stem, r, outer, e, hchain, entry, hflag, -⟩
      · exact ⟨_, (mem_hits_iff hpfx _).mpr (.inl ⟨hstem, rfl⟩)⟩
      · obtain ⟨e', hfirst⟩ := exists_foremost entry hflag
        exact ⟨_, (mem_hits_iff hpfx _).mpr (.inr ⟨stem, r, outer, e', hchain, hfirst, rfl⟩)⟩
    exact List.ne_nil_of_mem ((mem_explain_iff hlimit _).mpr ⟨h, hmem, rfl⟩)

/-- With room for all of them there is an explanation that is not risky exactly if the word stands
alone or some chain is not risky with the first homonym that takes it. -/
theorem exists_plain_explanation_iff (hpfx : c.prefixes = []) {limit : ℕ}
    (hlimit : (c.hits word).length ≤ limit) :
    (∃ e ∈ c.explain word limit, e.risky = false) ↔ c.hasStem word = true ∨
      ∃ stem r outer e, c.Chain word stem r outer ∧ c.Foremost stem r.flag e ∧
        isRisky e.kind r outer = false := by
  simp only [mem_explain_iff hlimit, mem_hits_iff hpfx]
  constructor
  · rintro ⟨_, ⟨h, ⟨hstem, -⟩ | ⟨stem, r, outer, e, hchain, hfirst, rfl⟩, rfl⟩, hplain⟩
    · exact .inl hstem
    · exact .inr ⟨stem, r, outer, e, hchain, hfirst, hplain⟩
  · rintro (hstem | ⟨stem, r, outer, e, hchain, hfirst, hplain⟩)
    · exact ⟨_, ⟨_, .inl ⟨hstem, rfl⟩, rfl⟩, rfl⟩
    · exact ⟨_, ⟨_, .inr ⟨stem, r, outer, e, hchain, hfirst, rfl⟩, rfl⟩, hplain⟩

/-- What the inspector should show of a word: an explanation if the word is accepted with risky
derivations, and one that is not risky if it is valid without them. -/
def Explains (c : AffixChecker) (word : Word) (limit : ℕ) : Prop :=
  (c.explain word limit ≠ [] ↔ c.compute word true = true) ∧
    ((∃ e ∈ c.explain word limit, e.risky = false) ↔ c.validWithoutRisky word = true)

/-- **The inspector explains the decision** on every word that is not forbidden, without prefix
rules and with room for all derivations, exactly if the word stands alone or no plain derivation
is hidden behind the first homonym. -/
theorem explain_iff (c : AffixChecker) (word : Word) (hpfx : c.prefixes = [])
    (hfree : ¬c.Forbidden word) :
    ∃ bound, ∀ limit, bound ≤ limit →
      (c.Explains word limit ↔ c.hasStem word = true ∨ c.Unhidden word) := by
  refine ⟨(c.hits word).length, fun limit hlimit => ?_⟩
  have hplain : c.validWithoutRisky word = true ↔ c.hasStem word = true ∨
      ∃ stem r outer e, c.Chain word stem r outer ∧ c.UsableEntry stem e ∧ r.flag ∈ e.flags ∧
        isRisky e.kind r outer = false := by
    rw [validWithoutRisky, compute_iff_chain hpfx hfree]
    simp [Tolerated]
  have hfirst : (∃ stem r outer e, c.Chain word stem r outer ∧ c.Foremost stem r.flag e ∧
      isRisky e.kind r outer = false) → ∃ stem r outer e, c.Chain word stem r outer ∧
        c.UsableEntry stem e ∧ r.flag ∈ e.flags ∧ isRisky e.kind r outer = false := by
    rintro ⟨stem, r, outer, e, hchain, hfirst, hnot⟩
    obtain ⟨_, _, -, hflag, -⟩ := id hfirst
    exact ⟨stem, r, outer, e, hchain, hfirst.usable, hflag, hnot⟩
  rw [Explains, hplain, exists_plain_explanation_iff hpfx hlimit, explain_ne_nil_iff hpfx hfree hlimit]
  constructor
  · rintro ⟨-, hagree⟩
    refine or_iff_not_imp_left.mpr fun hstem hsome => ?_
    exact (hagree.mpr (.inr hsome)).resolve_left hstem
  · intro hcond
    refine ⟨Iff.rfl, ?_, ?_⟩
    · exact fun h => h.imp_right hfirst
    · rintro (hstem | hsome)
      · exact .inl hstem
      · exact hcond.imp_right fun hunhidden => hunhidden hsome

/-! ## A hidden homonym -/

/-- The possessive suffix, which is risky on an adjective. -/
def possessiveLine : RuleLine := { RuleLine.plain false 65 [] ['e', 'm'] [] with risk := riskPoss }

/-- A stem that is a noun. -/
def nounChecker : AffixChecker :=
  load none none none none [possessiveLine] [(['ö', 'r', 'e', 'g'], ⟨[65], 0⟩)]

/-- The same stem, which is an adjective in the first place. -/
def homonymChecker : AffixChecker :=
  load none none none none [possessiveLine]
    [(['ö', 'r', 'e', 'g'], ⟨[65], kindAdj⟩), (['ö', 'r', 'e', 'g'], ⟨[65], 0⟩)]

/-- Nothing is hidden behind a stem that has one entry. -/
theorem explain_noun : ∃ bound, ∀ limit, bound ≤ limit →
    nounChecker.Explains ['ö', 'r', 'e', 'g', 'e', 'm'] limit := by
  have hfree : ¬nounChecker.Forbidden ['ö', 'r', 'e', 'g', 'e', 'm'] := by
    rintro ⟨e, f, -, hf, -⟩
    cases hf
  have hsole : nounChecker.usableEntries ['ö', 'r', 'e', 'g'] = [⟨[65], 0⟩] := rfl
  have hunhidden : nounChecker.Unhidden ['ö', 'r', 'e', 'g', 'e', 'm'] := by
    rintro ⟨stem, r, outer, e, hchain, hentry, hflag, hplain⟩
    obtain ⟨rfl, rfl⟩ := Prod.mk.inj (List.mem_singleton.mp hentry.mem)
    exact ⟨_, r, outer, _, hchain, ⟨[], [], hsole, hflag, nofun⟩, hplain⟩
  obtain ⟨bound, hbound⟩ := explain_iff nounChecker ['ö', 'r', 'e', 'g', 'e', 'm'] rfl hfree
  exact ⟨bound, fun limit hlimit => (hbound limit hlimit).mpr (.inr hunhidden)⟩

/-- **A hidden homonym.** The form is valid without risky derivations, but the inspector shows it
as risky only, because the adjective comes first. -/
theorem homonym_hidden :
    ¬ ∀ (c : AffixChecker) (word : Word), c.prefixes = [] → ¬c.Forbidden word →
      ∃ bound, ∀ limit, bound ≤ limit → c.Explains word limit := by
  intro h
  have hfree : ¬homonymChecker.Forbidden ['ö', 'r', 'e', 'g', 'e', 'm'] := by
    rintro ⟨e, f, -, hf, -⟩
    cases hf
  obtain ⟨bound, hbound⟩ := h homonymChecker ['ö', 'r', 'e', 'g', 'e', 'm'] rfl hfree
  let limit := max bound (homonymChecker.hits ['ö', 'r', 'e', 'g', 'e', 'm']).length
  have hplain := (hbound limit (le_max_left _ _)).2.mpr (by decide +kernel)
  obtain ⟨e, he, hnot⟩ := hplain
  obtain ⟨found, hfound, rfl⟩ := (mem_explain_iff (le_max_right _ _) e).mp he
  have hrisky : ∀ found ∈ homonymChecker.hits ['ö', 'r', 'e', 'g', 'e', 'm'],
      found.explanation.risky = true := by decide +kernel
  rw [hrisky found hfound] at hnot
  cases hnot

end AffixChecker

end ScrabbleMagyar
