import ScrabbleMagyar.Words.Affix
import ScrabbleMagyar.Foundations.Cuts

/-!
# The language of the affix checker

The words that the affix rules generate, stated without a search: `AffixChecker.Derives` has one
constructor for each shape of a derivation. It is taken over the cuts of a word that count
(`cuts`, what is left and what is taken off), because the search of the source has a limit.

* `compute_iff`: the search, with risky derivations allowed, accepts exactly the words that are
  not forbidden and have a derivation with cuts `Searched`. No order of the candidates and no
  early exit loses one.
* `compute_cuts`: with the plain reading of the cuts, that a letter is left, the two differ.
-/

namespace ScrabbleMagyar

/-! ## Conditions -/

namespace Cond

/-- The elements fit the letters at the end of a stem, one by one. -/
def FitsEnd (cond : Cond) (stem : Word) : Prop :=
  ∃ before letters, stem = before ++ letters ∧
    List.Forall₂ (fun (e : CondElem) c => e.matches c = true) cond.elems letters

/-- The elements fit the letters at the start of a stem, one by one. -/
def FitsStart (cond : Cond) (stem : Word) : Prop :=
  ∃ letters after, stem = letters ++ after ∧
    List.Forall₂ (fun (e : CondElem) c => e.matches c = true) cond.elems letters

theorem all_zip_iff {elems : List CondElem} {letters : List Char}
    (h : elems.length = letters.length) :
    ((elems.zip letters).all fun e => e.1.matches e.2) = true ↔
      List.Forall₂ (fun (e : CondElem) c => e.matches c = true) elems letters := by
  rw [List.forall₂_iff_zip, List.all_eq_true]
  exact ⟨fun hall => ⟨h, fun hmem => hall _ hmem⟩, fun hall e he => hall.2 he⟩

theorem matchesStart_iff (cond : Cond) (stem : Word) :
    cond.matchesStart stem = true ↔ cond.FitsStart stem := by
  unfold matchesStart FitsStart
  by_cases hshort : (stem.take cond.elems.length).length < cond.elems.length
  · simp only [hshort, if_true, Bool.false_eq_true, false_iff]
    rintro ⟨letters, after, rfl, hfits⟩
    rw [hfits.length_eq, List.take_left'] at hshort <;> simp at hshort ⊢
  · have hlen : cond.elems.length = (stem.take cond.elems.length).length := by
      rw [List.length_take] at hshort ⊢
      omega
    simp only [hshort, if_false]
    rw [all_zip_iff hlen]
    constructor
    · intro hfits
      exact ⟨_, _, (List.take_append_drop _ _).symm, hfits⟩
    · rintro ⟨letters, after, rfl, hfits⟩
      rwa [List.take_left' hfits.length_eq.symm]

/-- The end of a stem is the start of the stem read backwards. -/
theorem matchesEnd_eq (cond : Cond) (stem : Word) :
    cond.matchesEnd stem = (Cond.mk cond.elems.reverse).matchesStart stem.reverse := by
  simp only [matchesEnd, matchesStart, List.length_reverse]

theorem matchesEnd_iff (cond : Cond) (stem : Word) :
    cond.matchesEnd stem = true ↔ cond.FitsEnd stem := by
  rw [matchesEnd_eq, matchesStart_iff]
  constructor
  · rintro ⟨letters, after, hstem, hfits⟩
    refine ⟨after.reverse, letters.reverse, ?_, ?_⟩
    · rw [← List.reverse_append, ← hstem, List.reverse_reverse]
    · simpa using List.rel_reverse hfits
  · rintro ⟨before, letters, rfl, hfits⟩
    exact ⟨letters.reverse, before.reverse, by simp, List.rel_reverse hfits⟩

end Cond

/-! ## Derivations -/

/-- The suffix makes `form` of `stem`: it takes its `strip` off the end and adds its text. -/
structure Rule.SuffixOn (cuts : Word → Word → Prop) (r : Rule) (base stem form : Word) : Prop where
  form_eq : form = base ++ r.add
  stem_eq : stem = base ++ r.strip
  cut : cuts base r.add
  fits : ∀ cond, r.cond = some cond → cond.FitsEnd stem
  standing : r.onlyInCompound = false

/-- The prefix makes `form` of `stem`. -/
structure Rule.PrefixOn (cuts : Word → Word → Prop) (p : Rule) (rest stem form : Word) : Prop where
  form_eq : form = p.add ++ rest
  stem_eq : stem = p.strip ++ rest
  cut : cuts rest p.add
  fits : ∀ cond, p.cond = some cond → cond.FitsStart stem
  standing : p.onlyInCompound = false

namespace AffixChecker

variable (c : AffixChecker)

/-- An entry of a spelling that derivations may start from. -/
structure UsableEntry (stem : Word) (e : Entry) : Prop where
  mem : (stem, e) ∈ c.entries
  native : e.kind &&& kindForeign = 0
  allowed : ∀ f, c.forbidden = some f → f ∉ e.flags
  standing : ∀ f, c.onlyincompound = some f → f ∉ e.flags

/-- An entry of the spelling is forbidden. -/
def Forbidden (word : Word) : Prop :=
  ∃ e f, (word, e) ∈ c.entries ∧ c.forbidden = some f ∧ f ∈ e.flags

/-- A prefix and a suffix combine on an entry: both cross, and each is licensed by the entry or
by the other. -/
structure Combine (p r : Rule) (e : Entry) : Prop where
  cross : p.cross = true ∧ r.cross = true
  suffix : r.flag ∈ e.flags ∨ p.contHas r.flag = true
  pfx : p.flag ∈ e.flags ∨ r.contHas p.flag = true

/-- **The affix language**: the six shapes of a derivation of `form`. -/
inductive Derives (cuts : Word → Word → Prop) (form : Word) : Prop
  | stem (e : Entry) (entry : c.UsableEntry form e)
      (free : ∀ f, c.needaffix = some f → f ∉ e.flags)
  | prefixed (p : Rule) (hp : p ∈ c.prefixes) {rest stem : Word} (on : p.PrefixOn cuts rest stem form)
      (e : Entry) (entry : c.UsableEntry stem e) (licensed : p.flag ∈ e.flags)
  | suffixed (r : Rule) (hr : r ∈ c.suffixes) {base stem : Word} (on : r.SuffixOn cuts base stem form)
      (e : Entry) (entry : c.UsableEntry stem e) (licensed : r.flag ∈ e.flags)
      (alone : r.needAffix = false)
  | crossed (p r : Rule) (hp : p ∈ c.prefixes) (hr : r ∈ c.suffixes) {rest base inner stem : Word}
      (pfxOn : p.PrefixOn cuts rest inner form) (on : r.SuffixOn cuts base stem inner)
      (e : Entry) (entry : c.UsableEntry stem e) (combine : Combine p r e)
      (beside : r.needAffix = true → p.needAffix = false)
  | stacked (o r : Rule) (ho : o ∈ c.suffixes) (hr : r ∈ c.suffixes) {base base' inner stem : Word}
      (outerOn : o.SuffixOn cuts base inner form) (on : r.SuffixOn cuts base' stem inner)
      (e : Entry) (entry : c.UsableEntry stem e) (licensed : r.flag ∈ e.flags)
      (continued : r.contHas o.flag = true)
  | crossedStack (p o r : Rule) (hp : p ∈ c.prefixes) (ho : o ∈ c.suffixes) (hr : r ∈ c.suffixes)
      {rest base base' outer inner stem : Word} (pfxOn : p.PrefixOn cuts rest outer form)
      (outerOn : o.SuffixOn cuts base inner outer) (on : r.SuffixOn cuts base' stem inner)
      (e : Entry) (entry : c.UsableEntry stem e) (cross : p.cross = true ∧ o.cross = true)
      (continued : r.contHas o.flag = true)
      -- the prefix combines with the outer suffix if that licenses it, else with the inner one
      (combine : if o.contHas p.flag then r.flag ∈ e.flags else Combine p r e)

/-- A derivation with the suffix `r` on an entry counts, under the suffix `outer` if there is one:
a risky one only where it is allowed. -/
def Tolerated (allowRisky : Bool) (r : Rule) (outer : Option Rule) (e : Entry) : Prop :=
  isRisky e.kind r outer = true → allowRisky = true

/-- The derivations of `form` that count, with the affixes they use. -/
inductive Derivation (cuts : Word → Word → Prop) (allowRisky : Bool) (form : Word) :
    List Rule → Prop
  | stem (e : Entry) (entry : c.UsableEntry form e)
      (free : ∀ f, c.needaffix = some f → f ∉ e.flags) : Derivation cuts allowRisky form []
  | prefixed (p : Rule) (hp : p ∈ c.prefixes) {rest stem : Word} (on : p.PrefixOn cuts rest stem form)
      (e : Entry) (entry : c.UsableEntry stem e) (licensed : p.flag ∈ e.flags) :
      Derivation cuts allowRisky form [p]
  | suffixed (r : Rule) (hr : r ∈ c.suffixes) {base stem : Word} (on : r.SuffixOn cuts base stem form)
      (e : Entry) (entry : c.UsableEntry stem e) (licensed : r.flag ∈ e.flags)
      (alone : r.needAffix = false) (tolerated : Tolerated allowRisky r none e) :
      Derivation cuts allowRisky form [r]
  | crossed (p r : Rule) (hp : p ∈ c.prefixes) (hr : r ∈ c.suffixes) {rest base inner stem : Word}
      (pfxOn : p.PrefixOn cuts rest inner form) (on : r.SuffixOn cuts base stem inner)
      (e : Entry) (entry : c.UsableEntry stem e) (combine : Combine p r e)
      (beside : r.needAffix = true → p.needAffix = false) (tolerated : Tolerated allowRisky r none e) :
      Derivation cuts allowRisky form [p, r]
  | stacked (o r : Rule) (ho : o ∈ c.suffixes) (hr : r ∈ c.suffixes) {base base' inner stem : Word}
      (outerOn : o.SuffixOn cuts base inner form) (on : r.SuffixOn cuts base' stem inner)
      (e : Entry) (entry : c.UsableEntry stem e) (licensed : r.flag ∈ e.flags)
      (continued : r.contHas o.flag = true) (tolerated : Tolerated allowRisky r (some o) e) :
      Derivation cuts allowRisky form [r, o]
  | crossedStack (p o r : Rule) (hp : p ∈ c.prefixes) (ho : o ∈ c.suffixes) (hr : r ∈ c.suffixes)
      {rest base base' outer inner stem : Word} (pfxOn : p.PrefixOn cuts rest outer form)
      (outerOn : o.SuffixOn cuts base inner outer) (on : r.SuffixOn cuts base' stem inner)
      (e : Entry) (entry : c.UsableEntry stem e) (cross : p.cross = true ∧ o.cross = true)
      (continued : r.contHas o.flag = true)
      (combine : if o.contHas p.flag then r.flag ∈ e.flags else Combine p r e)
      (tolerated : Tolerated allowRisky r (some o) e) : Derivation cuts allowRisky form [p, r, o]

/-- The affix language is what the derivations reach with risky ones allowed. -/
theorem derives_iff {c : AffixChecker} {cuts : Word → Word → Prop} {form : Word} :
    c.Derives cuts form ↔ ∃ affixes, c.Derivation cuts true form affixes := by
  have hall {r : Rule} {outer : Option Rule} {e : Entry} : Tolerated true r outer e := fun _ => rfl
  constructor
  · intro h
    cases h with
    | stem e entry free => exact ⟨_, .stem e entry free⟩
    | prefixed p hp on e entry licensed => exact ⟨_, .prefixed p hp on e entry licensed⟩
    | suffixed r hr on e entry licensed alone =>
      exact ⟨_, .suffixed r hr on e entry licensed alone hall⟩
    | crossed p r hp hr pfxOn on e entry combine beside =>
      exact ⟨_, .crossed p r hp hr pfxOn on e entry combine beside hall⟩
    | stacked o r ho hr outerOn on e entry licensed continued =>
      exact ⟨_, .stacked o r ho hr outerOn on e entry licensed continued hall⟩
    | crossedStack p o r hp ho hr pfxOn outerOn on e entry cross continued combine =>
      exact ⟨_, .crossedStack p o r hp ho hr pfxOn outerOn on e entry cross continued combine
        hall⟩
  · rintro ⟨affixes, h⟩
    cases h with
    | stem e entry free => exact .stem e entry free
    | prefixed p hp on e entry licensed => exact .prefixed p hp on e entry licensed
    | suffixed r hr on e entry licensed alone => exact .suffixed r hr on e entry licensed alone
    | crossed p r hp hr pfxOn on e entry combine beside =>
      exact .crossed p r hp hr pfxOn on e entry combine beside
    | stacked o r ho hr outerOn on e entry licensed continued =>
      exact .stacked o r ho hr outerOn on e entry licensed continued
    | crossedStack p o r hp ho hr pfxOn outerOn on e entry cross continued combine =>
      exact .crossedStack p o r hp ho hr pfxOn outerOn on e entry cross continued combine

/-- Allowing risky derivations loses none. -/
theorem Derivation.mono {c : AffixChecker} {cuts : Word → Word → Prop} {form : Word}
    {affixes : List Rule} {allowRisky allowRisky' : Bool}
    (h : c.Derivation cuts allowRisky form affixes)
    (hle : allowRisky = true → allowRisky' = true) : c.Derivation cuts allowRisky' form affixes := by
  cases h with
  | stem e entry free => exact .stem e entry free
  | prefixed p hp on e entry licensed => exact .prefixed p hp on e entry licensed
  | suffixed r hr on e entry licensed alone tolerated =>
    exact .suffixed r hr on e entry licensed alone (hle ∘ tolerated)
  | crossed p r hp hr pfxOn on e entry combine beside tolerated =>
    exact .crossed p r hp hr pfxOn on e entry combine beside (hle ∘ tolerated)
  | stacked o r ho hr outerOn on e entry licensed continued tolerated =>
    exact .stacked o r ho hr outerOn on e entry licensed continued (hle ∘ tolerated)
  | crossedStack p o r hp ho hr pfxOn outerOn on e entry cross continued combine tolerated =>
    exact .crossedStack p o r hp ho hr pfxOn outerOn on e entry cross continued combine
      (hle ∘ tolerated)

/-- The cuts that the search tries: at most `maxAffixLen` letters are taken off, and something
is left, unless the form is empty. -/
def Searched : Word → Word → Prop := Cuts.Within maxAffixLen

variable {c}

/-! ## The parts of the search -/

theorem mem_entriesOf {word : Word} {e : Entry} : e ∈ c.entriesOf word ↔ (word, e) ∈ c.entries := by
  simp only [entriesOf, List.mem_map, List.mem_filter, decide_eq_true_eq]
  constructor
  · rintro ⟨⟨w, e'⟩, ⟨hmem, rfl⟩, rfl⟩
    exact hmem
  · intro hmem
    exact ⟨_, ⟨hmem, rfl⟩, rfl⟩

theorem any_contains_eq_false {mark : Option UInt8} {flags : List UInt8} :
    (mark.any fun f => flags.contains f) = false ↔ ∀ f, mark = some f → f ∉ flags := by
  cases mark <;> simp

theorem mem_usableEntries {word : Word} {e : Entry} :
    e ∈ c.usableEntries word ↔ c.UsableEntry word e := by
  rw [usableEntries, List.mem_filter, mem_entriesOf]
  constructor
  · rintro ⟨hmem, husable⟩
    split at husable
    · cases husable
    rename_i hnative
    split at husable
    · cases husable
    rename_i hallowed
    split at husable
    · cases husable
    rename_i hstanding
    exact ⟨hmem, by simpa using hnative, any_contains_eq_false.mp (by simpa using hallowed),
      any_contains_eq_false.mp (by simpa using hstanding)⟩
  · intro h
    refine ⟨h.mem, ?_⟩
    rw [if_neg (by simpa using h.native), any_contains_eq_false.mpr h.allowed,
      any_contains_eq_false.mpr h.standing]
    rfl

theorem isForbidden_iff (word : Word) : c.isForbidden word = true ↔ c.Forbidden word := by
  simp only [isForbidden, Forbidden, Option.any_eq_true, List.any_eq_true, mem_entriesOf,
    List.contains_eq_mem, decide_eq_true_eq]
  constructor
  · rintro ⟨f, hf, e, he, hmem⟩
    exact ⟨e, f, he, hf, hmem⟩
  · rintro ⟨e, f, he, hf, hmem⟩
    exact ⟨f, hf, e, he, hmem⟩

/-- What `stemOk` asks of an entry. -/
structure Licensed (rule : Rule) (pfx : Option Rule) (outerFlag : Option UInt8) (e : Entry) :
    Prop where
  suffix : rule.flag ∈ e.flags ∨ ∃ p, pfx = some p ∧ p.contHas rule.flag = true
  pfx : ∀ p, pfx = some p → p.flag ∈ e.flags ∨ rule.contHas p.flag = true
  outer : ∀ f, outerFlag = some f → rule.contHas f = true

theorem stemOk_iff (stem : Word) (rule : Rule) (pfx : Option Rule) (outerFlag : Option UInt8)
    (outerRule : Option Rule) (allowRisky : Bool) :
    c.stemOk stem rule pfx outerFlag outerRule allowRisky = true ↔
      ∃ e, c.UsableEntry stem e ∧ Licensed rule pfx outerFlag e ∧
        Tolerated allowRisky rule outerRule e := by
  simp only [stemOk, List.any_eq_true, mem_usableEntries]
  refine exists_congr fun e => and_congr_right fun _ => ?_
  have hsuffix : (!e.flags.contains rule.flag && !pfx.any fun p => p.contHas rule.flag) = false ↔
      (rule.flag ∈ e.flags ∨ ∃ p, pfx = some p ∧ p.contHas rule.flag = true) := by
    cases pfx with
    | none => simp
    | some p => simp; tauto
  have hpfx : (pfx.any fun p => !e.flags.contains p.flag && !rule.contHas p.flag) = false ↔
      ∀ p, pfx = some p → p.flag ∈ e.flags ∨ rule.contHas p.flag = true := by
    cases pfx with
    | none => simp
    | some p => simp; tauto
  have houter : (outerFlag.any fun f => !rule.contHas f) = false ↔
      ∀ f, outerFlag = some f → rule.contHas f = true := by
    cases outerFlag <;> simp
  have hrisk : (!allowRisky && isRisky e.kind rule outerRule) = false ↔
      Tolerated allowRisky rule outerRule e := by
    unfold Tolerated
    cases allowRisky <;> simp
  constructor
  · intro h
    split at h
    · cases h
    rename_i h₁
    split at h
    · cases h
    rename_i h₂
    split at h
    · cases h
    rename_i h₃
    split at h
    · cases h
    rename_i h₄
    exact ⟨⟨hsuffix.mp (by simpa using h₁), hpfx.mp (by simpa using h₂),
      houter.mp (by simpa using h₃)⟩, hrisk.mp (by simpa using h₄)⟩
  · rintro ⟨h, htolerated⟩
    rw [hsuffix.mpr h.suffix, hpfx.mpr h.pfx, houter.mpr h.outer, hrisk.mpr htolerated]
    rfl

/-- A search of the candidates finds every suffix rule whose text can be taken off. -/
theorem suffixCandidates_any_iff (word : Word) (P : Word → Rule → Bool) :
    ((c.suffixCandidates word).any fun (add, rules) =>
        rules.any (P (word.take (word.length - add.length)))) = true ↔
      ∃ r ∈ c.suffixes, ∃ base, word = base ++ r.add ∧ Searched base r.add ∧ P base r = true := by
  have hcuts := Cuts.exists_end_iff maxAffixLen word
    fun base add => ∃ r ∈ c.suffixes, r.add = add ∧ P base r = true
  calc _ ↔ ∃ k ∈ List.range (min (word.length - 1) maxAffixLen + 1), ∃ r ∈ c.suffixes,
        r.add = word.drop (word.length - k) ∧ P (word.take (word.length - k)) r = true := by
        simp only [suffixCandidates, List.any_eq_true, List.mem_filterMap]
        constructor
        · rintro ⟨⟨add, rules⟩, ⟨k, hk, hfound⟩, r, hr, hP⟩
          split at hfound
          · cases hfound
          obtain ⟨rfl, rfl⟩ := Prod.mk.inj (Option.some.inj hfound)
          obtain ⟨hmem, hadd⟩ := List.mem_filter.mp hr
          refine ⟨k, hk, r, hmem, by simpa using hadd, ?_⟩
          rw [List.mem_range] at hk
          rwa [List.length_drop, Nat.sub_sub_self (by omega)] at hP
        · rintro ⟨k, hk, r, hmem, hadd, hP⟩
          have hr : r ∈ rulesFor c.suffixes (word.drop (word.length - k)) :=
            List.mem_filter.mpr ⟨hmem, by simpa using hadd⟩
          refine ⟨_, ⟨k, hk, if_neg ?_⟩, r, hr, ?_⟩
          · simpa using List.ne_nil_of_mem hr
          · rw [List.mem_range] at hk
            rwa [List.length_drop, Nat.sub_sub_self (by omega)]
    _ ↔ _ := hcuts
    _ ↔ _ := by
        constructor
        · rintro ⟨base, add, hword, hcut, r, hr, rfl, hP⟩
          exact ⟨r, hr, base, hword, hcut, hP⟩
        · rintro ⟨r, hr, base, hword, hcut, hP⟩
          exact ⟨base, r.add, hword, hcut, r, hr, rfl, hP⟩

/-- A search of the candidates finds every prefix rule whose text can be taken off. -/
theorem prefixCandidates_any_iff (word : Word) (P : Word → Rule → Bool) :
    ((c.prefixCandidates word).any fun (add, rules) => rules.any (P (word.drop add.length))) = true ↔
      ∃ p ∈ c.prefixes, ∃ rest, word = p.add ++ rest ∧ Searched rest p.add ∧ P rest p = true := by
  have hcuts := Cuts.exists_start_iff maxAffixLen word
    fun rest add => ∃ p ∈ c.prefixes, p.add = add ∧ P rest p = true
  calc _ ↔ ∃ k ∈ List.range (min (word.length - 1) maxAffixLen + 1), ∃ p ∈ c.prefixes,
        p.add = word.take k ∧ P (word.drop k) p = true := by
        simp only [prefixCandidates, List.any_eq_true, List.mem_filterMap]
        constructor
        · rintro ⟨⟨add, rules⟩, ⟨k, hk, hfound⟩, p, hp, hP⟩
          split at hfound
          · cases hfound
          obtain ⟨rfl, rfl⟩ := Prod.mk.inj (Option.some.inj hfound)
          obtain ⟨hmem, hadd⟩ := List.mem_filter.mp hp
          refine ⟨k, hk, p, hmem, by simpa using hadd, ?_⟩
          rw [List.mem_range] at hk
          rwa [List.length_take, min_eq_left (by omega)] at hP
        · rintro ⟨k, hk, p, hmem, hadd, hP⟩
          have hp : p ∈ rulesFor c.prefixes (word.take k) :=
            List.mem_filter.mpr ⟨hmem, by simpa using hadd⟩
          refine ⟨_, ⟨k, hk, if_neg ?_⟩, p, hp, ?_⟩
          · simpa using List.ne_nil_of_mem hp
          · rw [List.mem_range] at hk
            rwa [List.length_take, min_eq_left (by omega)]
    _ ↔ _ := hcuts
    _ ↔ _ := by
        constructor
        · rintro ⟨rest, add, hword, hcut, p, hp, rfl, hP⟩
          exact ⟨p, hp, rest, hword, hcut, hP⟩
        · rintro ⟨p, hp, rest, hword, hcut, hP⟩
          exact ⟨rest, p.add, hword, hcut, p, hp, rfl, hP⟩

theorem condOkSuffix_iff (r : Rule) (stem : Word) :
    r.condOkSuffix stem = true ↔ ∀ cond, r.cond = some cond → cond.FitsEnd stem := by
  unfold Rule.condOkSuffix
  cases r.cond <;> simp [Cond.matchesEnd_iff]

theorem condOkPrefix_iff (r : Rule) (stem : Word) :
    r.condOkPrefix stem = true ↔ ∀ cond, r.cond = some cond → cond.FitsStart stem := by
  unfold Rule.condOkPrefix
  cases r.cond <;> simp [Cond.matchesStart_iff]

/-- Whether a suffix crosses with the prefix, if there is one. -/
theorem any_not_cross_eq_false {pfx : Option Rule} {r : Rule} :
    (pfx.any fun p => !(r.cross && p.cross)) = false ↔
      ∀ p, pfx = some p → p.cross = true ∧ r.cross = true := by
  cases pfx with
  | none => simp
  | some p => simp [and_comm]

/-- An innermost suffix is not left alone with its `NEEDAFFIX` mark. -/
def Beside (r : Rule) (pfx : Option Rule) : Prop :=
  r.needAffix = true → ∃ p, pfx = some p ∧ p.needAffix = false

theorem trySuffix_iff (pfx outer : Option Rule) (allowRisky : Bool) (base : Word) (r : Rule) :
    c.trySuffix pfx (outer.map Rule.flag) outer allowRisky base r = true ↔
      r.onlyInCompound = false ∧ (∀ cond, r.cond = some cond → cond.FitsEnd (base ++ r.strip)) ∧
        (∀ p, pfx = some p → p.cross = true ∧ r.cross = true) ∧ (outer = none → Beside r pfx) ∧
        ∃ e, c.UsableEntry (base ++ r.strip) e ∧ Licensed r pfx (outer.map Rule.flag) e ∧
          Tolerated allowRisky r outer e := by
  -- a rule without continuation flags continues with no outer suffix
  have hcont : (∃ e, c.UsableEntry (base ++ r.strip) e ∧ Licensed r pfx (outer.map Rule.flag) e ∧
      Tolerated allowRisky r outer e) → ((outer.map Rule.flag).isSome && r.cont.isNone) = false := by
    rintro ⟨e, -, hlicensed, -⟩
    cases outer with
    | none => rfl
    | some o =>
      have houter := hlicensed.outer o.flag rfl
      unfold Rule.contHas at houter
      cases hr : r.cont with
      | none => simp [hr] at houter
      | some cont => rfl
  have hbeside : ((outer.map Rule.flag).isNone && r.needAffix && !pfx.any fun p => !p.needAffix) =
      false ↔ (outer = none → Beside r pfx) := by
    unfold Beside
    cases outer <;> cases r.needAffix <;> cases pfx <;> simp
  unfold trySuffix
  constructor
  · intro h
    split at h
    · cases h
    split at h
    · cases h
    rename_i hstanding
    split at h
    · cases h
    rename_i hneed
    split at h
    · cases h
    rename_i hcross
    simp only at h
    split at h
    · cases h
    rename_i hcond
    exact ⟨by simpa using hstanding, (condOkSuffix_iff r _).mp (by simpa using hcond),
      any_not_cross_eq_false.mp (by simpa using hcross), hbeside.mp (by simpa using hneed),
      (stemOk_iff _ _ _ _ _ _).mp h⟩
  · rintro ⟨hstanding, hcond, hcross, hneed, hentry⟩
    rw [hcont hentry, hstanding, hbeside.mpr hneed, any_not_cross_eq_false.mpr hcross]
    simp only [Bool.false_eq_true, if_false, (condOkSuffix_iff r _).mpr hcond, Bool.not_true]
    exact (stemOk_iff _ _ _ _ _ _).mpr hentry

/-- The search for one suffix. -/
theorem suffixCheck_iff (word : Word) (pfx outer : Option Rule) (allowRisky : Bool) :
    c.suffixCheck word pfx (outer.map Rule.flag) outer allowRisky = true ↔
      ∃ r ∈ c.suffixes, ∃ base stem, r.SuffixOn Searched base stem word ∧
        (∀ p, pfx = some p → p.cross = true ∧ r.cross = true) ∧ (outer = none → Beside r pfx) ∧
        ∃ e, c.UsableEntry stem e ∧ Licensed r pfx (outer.map Rule.flag) e ∧
          Tolerated allowRisky r outer e := by
  refine (suffixCandidates_any_iff word _).trans (exists_congr fun r => and_congr_right fun _ => ?_)
  simp only [trySuffix_iff]
  constructor
  · rintro ⟨base, hword, hcut, hstanding, hcond, hcross, hneed, hentry⟩
    exact ⟨base, _, ⟨hword, rfl, hcut, hcond, hstanding⟩, hcross, hneed, hentry⟩
  · rintro ⟨base, stem, hon, hcross, hneed, hentry⟩
    obtain rfl := hon.stem_eq
    exact ⟨base, hon.form_eq, hon.cut, hon.standing, hon.fits, hcross, hneed, hentry⟩

/-- A suffix within the form of an outer one, which licenses the prefix or leaves it to this
one. -/
structure Inner (c : AffixChecker) (pfx : Option Rule) (o r : Rule) (base stem inner : Word)
    (e : Entry) : Prop where
  mem : r ∈ c.suffixes
  on : r.SuffixOn Searched base stem inner
  cross : ∀ p, (pfx.filter fun p => !o.contHas p.flag) = some p → p.cross = true ∧ r.cross = true
  entry : c.UsableEntry stem e
  licensed : Licensed r (pfx.filter fun p => !o.contHas p.flag) (some o.flag) e

theorem tryOuterSuffix_iff (pfx : Option Rule) (allowRisky : Bool) (base : Word) (o : Rule) :
    c.tryOuterSuffix pfx allowRisky base o = true ↔
      o.onlyInCompound = false ∧ (∀ cond, o.cond = some cond → cond.FitsEnd (base ++ o.strip)) ∧
        (∀ p, pfx = some p → p.cross = true ∧ o.cross = true) ∧
        ∃ r base' stem e, Inner c pfx o r base' stem (base ++ o.strip) e ∧
          Tolerated allowRisky r (some o) e := by
  have hinner : c.suffixCheck (base ++ o.strip) (pfx.filter fun p => !o.contHas p.flag)
      (some o.flag) (some o) allowRisky = true ↔
        ∃ r base' stem e, Inner c pfx o r base' stem (base ++ o.strip) e ∧
          Tolerated allowRisky r (some o) e := by
    rw [show some o.flag = (some o).map Rule.flag from rfl, suffixCheck_iff]
    constructor
    · rintro ⟨r, hr, base', stem, hon, hcross, -, e, hentry, hlicensed, htolerated⟩
      exact ⟨r, base', stem, e, ⟨hr, hon, hcross, hentry, hlicensed⟩, htolerated⟩
    · rintro ⟨r, base', stem, e, h, htolerated⟩
      exact ⟨r, h.mem, base', stem, h.on, h.cross, nofun, e, h.entry, h.licensed, htolerated⟩
  unfold tryOuterSuffix
  constructor
  · intro h
    split at h
    · cases h
    rename_i hstanding
    split at h
    · cases h
    rename_i hcross
    simp only at h
    split at h
    · cases h
    rename_i hcond
    obtain ⟨-, hstanding⟩ : c.contFlags o.flag = true ∧ o.onlyInCompound = false := by
      simpa using hstanding
    exact ⟨hstanding, (condOkSuffix_iff o _).mp (by simpa using hcond),
      any_not_cross_eq_false.mp (by simpa using hcross), hinner.mp h⟩
  · rintro ⟨hstanding, hcond, hcross, hrest⟩
    -- the flag of the outer suffix is among the continuation flags noted at loading
    have hnoted : c.contFlags o.flag = true := by
      obtain ⟨r, base', stem, e, h, -⟩ := hrest
      exact c.contFlags_of_contHas r (List.mem_append_right _ h.mem) _ (h.licensed.outer _ rfl)
    rw [hnoted, hstanding, any_not_cross_eq_false.mpr hcross]
    simp only [Bool.not_true, Bool.or_self, Bool.false_eq_true, if_false,
      (condOkSuffix_iff o _).mpr hcond]
    exact hinner.mpr hrest

/-- The search for two suffixes. -/
theorem suffixCheckTwo_iff (word : Word) (pfx : Option Rule) (allowRisky : Bool) :
    c.suffixCheckTwo word pfx allowRisky = true ↔
      ∃ o ∈ c.suffixes, ∃ base inner, o.SuffixOn Searched base inner word ∧
        (∀ p, pfx = some p → p.cross = true ∧ o.cross = true) ∧
        ∃ r base' stem e, Inner c pfx o r base' stem inner e ∧
          Tolerated allowRisky r (some o) e := by
  refine (suffixCandidates_any_iff word _).trans (exists_congr fun o => and_congr_right fun _ => ?_)
  simp only [tryOuterSuffix_iff]
  constructor
  · rintro ⟨base, hword, hcut, hstanding, hcond, hcross, hrest⟩
    exact ⟨base, _, ⟨hword, rfl, hcut, hcond, hstanding⟩, hcross, hrest⟩
  · rintro ⟨base, inner, hon, hcross, hrest⟩
    obtain rfl := hon.stem_eq
    exact ⟨base, hon.form_eq, hon.cut, hon.standing, hon.fits, hcross, hrest⟩

/-- The search for a prefix, whatever is then asked of its stem. -/
theorem prefixCheck_iff (word : Word) (twoSuffixes allowRisky : Bool) :
    c.prefixCheck word twoSuffixes allowRisky = true ↔
      ∃ p ∈ c.prefixes, ∃ rest stem, p.PrefixOn Searched rest stem word ∧
        if twoSuffixes then p.cross = true ∧ c.suffixCheckTwo stem (some p) allowRisky = true
        else (∃ e, c.UsableEntry stem e ∧ p.flag ∈ e.flags) ∨
          p.cross = true ∧ c.suffixCheck stem (some p) none none allowRisky = true := by
  have htry (rest : Word) (p : Rule) : c.tryPrefix twoSuffixes allowRisky rest p = true ↔
      p.onlyInCompound = false ∧ (∀ cond, p.cond = some cond → cond.FitsStart (p.strip ++ rest)) ∧
        if twoSuffixes then
          p.cross = true ∧ c.suffixCheckTwo (p.strip ++ rest) (some p) allowRisky = true
        else (∃ e, c.UsableEntry (p.strip ++ rest) e ∧ p.flag ∈ e.flags) ∨
          p.cross = true ∧ c.suffixCheck (p.strip ++ rest) (some p) none none allowRisky = true := by
    have hentry : ((c.usableEntries (p.strip ++ rest)).any fun e => e.flags.contains p.flag) = true ↔
        ∃ e, c.UsableEntry (p.strip ++ rest) e ∧ p.flag ∈ e.flags := by
      simp [mem_usableEntries]
    unfold tryPrefix
    rw [← condOkPrefix_iff, ← hentry]
    cases p.onlyInCompound <;> cases hcond : p.condOkPrefix (p.strip ++ rest) <;>
      cases twoSuffixes <;> simp [hcond]
  refine (prefixCandidates_any_iff word _).trans (exists_congr fun p => and_congr_right fun _ => ?_)
  simp only [htry]
  constructor
  · rintro ⟨rest, hword, hcut, hstanding, hcond, hrest⟩
    exact ⟨rest, _, ⟨hword, rfl, hcut, hcond, hstanding⟩, hrest⟩
  · rintro ⟨rest, stem, hon, hrest⟩
    obtain rfl := hon.stem_eq
    exact ⟨rest, hon.form_eq, hon.cut, hon.standing, hon.fits, hrest⟩

/-! ## The whole search -/

theorem hasStem_iff (word : Word) (hfree : ¬c.Forbidden word) :
    c.hasStem word = true ↔
      ∃ e, c.UsableEntry word e ∧ ∀ f, c.needaffix = some f → f ∉ e.flags := by
  have hforbidden : c.isForbidden word = false := by
    rw [← isForbidden_iff] at hfree
    simpa using hfree
  simp only [hasStem, hforbidden, Bool.false_eq_true, if_false, List.any_eq_true,
    mem_usableEntries, Bool.not_eq_true']
  exact exists_congr fun e => and_congr_right fun _ => any_contains_eq_false

theorem compute_eq (word : Word) (allowRisky : Bool) (hfree : ¬c.Forbidden word) :
    c.compute word allowRisky = (c.hasStem word || c.prefixCheck word false allowRisky ||
      c.suffixCheck word none none none allowRisky || c.suffixCheckTwo word none allowRisky ||
      c.prefixCheck word true allowRisky) := by
  have hforbidden : c.isForbidden word = false := by
    rw [← isForbidden_iff] at hfree
    simpa using hfree
  unfold compute
  rw [hforbidden]
  cases c.hasStem word <;> cases c.prefixCheck word false allowRisky <;>
    cases c.suffixCheck word none none none allowRisky <;>
      cases c.suffixCheckTwo word none allowRisky <;> rfl

theorem compute_of_forbidden {word : Word} (h : c.Forbidden word) (allowRisky : Bool) :
    c.compute word allowRisky = false := by
  unfold compute
  rw [if_pos ((isForbidden_iff word).mpr h)]

variable {allowRisky : Bool} {word : Word}

/-- The search for one suffix finds the derivations with one. -/
theorem suffixCheck_none_iff : c.suffixCheck word none none none allowRisky = true ↔
    ∃ r ∈ c.suffixes, ∃ base stem, r.SuffixOn Searched base stem word ∧
      ∃ e, c.UsableEntry stem e ∧ r.flag ∈ e.flags ∧ r.needAffix = false ∧
        Tolerated allowRisky r none e := by
  refine (suffixCheck_iff word none none allowRisky).trans
    (exists_congr fun r => and_congr_right fun _ =>
      exists_congr fun base => exists_congr fun stem => ?_)
  constructor
  · rintro ⟨on, -, hbeside, e, entry, hlicensed, htolerated⟩
    refine ⟨on, e, entry, hlicensed.suffix.resolve_right (by simp), ?_, htolerated⟩
    by_contra hneed
    obtain ⟨_, hnone, -⟩ := hbeside rfl (by simpa using hneed)
    cases hnone
  · rintro ⟨on, e, entry, licensed, alone, tolerated⟩
    exact ⟨on, nofun, fun _ hneed => by simp [alone] at hneed, e, entry,
      ⟨.inl licensed, nofun, nofun⟩, tolerated⟩

/-- The search for two suffixes finds the derivations with two. -/
theorem suffixCheckTwo_none_iff : c.suffixCheckTwo word none allowRisky = true ↔
    ∃ o ∈ c.suffixes, ∃ base inner, o.SuffixOn Searched base inner word ∧
      ∃ r ∈ c.suffixes, ∃ base' stem, r.SuffixOn Searched base' stem inner ∧
        ∃ e, c.UsableEntry stem e ∧ r.flag ∈ e.flags ∧ r.contHas o.flag = true ∧
          Tolerated allowRisky r (some o) e := by
  refine (suffixCheckTwo_iff word none allowRisky).trans
    (exists_congr fun o => and_congr_right fun _ => exists_congr fun base => exists_congr fun inner =>
      and_congr_right fun _ => ?_)
  constructor
  · rintro ⟨-, r, base', stem, e, h, tolerated⟩
    exact ⟨r, h.mem, base', stem, h.on, e, h.entry, h.licensed.suffix.resolve_right (by simp),
      h.licensed.outer _ rfl, tolerated⟩
  · rintro ⟨r, hr, base', stem, on, e, entry, licensed, continued, tolerated⟩
    refine ⟨nofun, r, base', stem, e, ⟨hr, on, nofun, entry, .inl licensed, nofun, ?_⟩, tolerated⟩
    rintro _ ⟨⟩
    exact continued

/-- Every derivation is found. -/
theorem compute_of_derivation {affixes : List Rule} (hfree : ¬c.Forbidden word)
    (h : c.Derivation Searched allowRisky word affixes) : c.compute word allowRisky = true := by
  rw [compute_eq word allowRisky hfree]
  simp only [Bool.or_eq_true]
  cases h with
  | stem e entry free =>
    refine .inl (.inl (.inl (.inl ?_)))
    exact (hasStem_iff word hfree).mpr ⟨e, entry, free⟩
  | prefixed p hp on e entry licensed =>
    refine .inl (.inl (.inl (.inr ?_)))
    exact (prefixCheck_iff word false _).mpr ⟨p, hp, _, _, on, .inl ⟨e, entry, licensed⟩⟩
  | suffixed r hr on e entry licensed alone tolerated =>
    refine .inl (.inl (.inr ?_))
    exact suffixCheck_none_iff.mpr ⟨r, hr, _, _, on, e, entry, licensed, alone, tolerated⟩
  | crossed p r hp hr pfxOn on e entry combine beside tolerated =>
    refine .inl (.inl (.inl (.inr ?_)))
    refine (prefixCheck_iff word false _).mpr ⟨p, hp, _, _, pfxOn, .inr ⟨combine.cross.1, ?_⟩⟩
    refine (suffixCheck_iff _ (some p) none _).mpr ⟨r, hr, _, _, on, ?_, ?_, e, entry, ?_, tolerated⟩
    · rintro _ ⟨⟩
      exact combine.cross
    · exact fun _ hneed => ⟨p, rfl, beside hneed⟩
    · refine ⟨combine.suffix.imp_right fun h => ⟨p, rfl, h⟩, ?_, nofun⟩
      rintro _ ⟨⟩
      exact combine.pfx
  | stacked o r ho hr outerOn on e entry licensed continued tolerated =>
    refine .inl (.inr ?_)
    exact suffixCheckTwo_none_iff.mpr ⟨o, ho, _, _, outerOn, r, hr, _, _, on, e, entry, licensed,
      continued, tolerated⟩
  | crossedStack p o r hp ho hr pfxOn outerOn on e entry cross continued combine tolerated =>
    refine .inr ?_
    refine (prefixCheck_iff word true _).mpr ⟨p, hp, _, _, pfxOn, cross.1, ?_⟩
    refine (suffixCheckTwo_iff _ (some p) _).mpr
      ⟨o, ho, _, _, outerOn, ?_, r, _, _, e, ⟨hr, on, ?_, entry, ?_⟩, tolerated⟩
    · rintro _ ⟨⟩
      exact cross
    · intro q hq
      obtain ⟨⟨⟩, hfree⟩ := Option.filter_eq_some_iff.mp hq
      rw [if_neg (by simpa using hfree)] at combine
      exact combine.cross
    · by_cases hp : o.contHas p.flag = true
      · rw [if_pos hp] at combine
        refine ⟨.inl combine, fun q hq => ?_, by rintro _ ⟨⟩; exact continued⟩
        obtain ⟨⟨⟩, hfree⟩ := Option.filter_eq_some_iff.mp hq
        simp [hp] at hfree
      · rw [if_neg hp] at combine
        have hkept : ((some p).filter fun p => !o.contHas p.flag) = some p := by simp [hp]
        rw [hkept]
        exact ⟨combine.suffix.imp_right fun h => ⟨p, rfl, h⟩, by rintro _ ⟨⟩; exact combine.pfx,
          by rintro _ ⟨⟩; exact continued⟩

/-- What is found with a prefix and a suffix is a derivation. -/
theorem Derivation.of_crossed {rest inner : Word} {p : Rule} (hp : p ∈ c.prefixes)
    (pfxOn : p.PrefixOn Searched rest inner word)
    (h : c.suffixCheck inner (some p) none none allowRisky = true) :
    ∃ affixes, c.Derivation Searched allowRisky word affixes := by
  obtain ⟨r, hr, base, stem, on, hcross, hbeside, e, entry, hlicensed, htolerated⟩ :=
    (suffixCheck_iff inner (some p) none _).mp h
  refine ⟨_, .crossed p r hp hr pfxOn on e entry ⟨hcross p rfl, ?_, hlicensed.pfx p rfl⟩
    (fun hneed => ?_) htolerated⟩
  · refine hlicensed.suffix.imp_right ?_
    rintro ⟨_, ⟨⟩, hcont⟩
    exact hcont
  · obtain ⟨_, ⟨⟩, hfree⟩ := hbeside rfl hneed
    exact hfree

/-- What is found with a prefix and two suffixes is a derivation. -/
theorem Derivation.of_crossedStack {rest outer : Word} {p : Rule} (hp : p ∈ c.prefixes)
    (pfxOn : p.PrefixOn Searched rest outer word)
    (h : c.suffixCheckTwo outer (some p) allowRisky = true) :
    ∃ affixes, c.Derivation Searched allowRisky word affixes := by
  obtain ⟨o, ho, base, inner, outerOn, hcross, r, base', stem, e, h, htolerated⟩ :=
    (suffixCheckTwo_iff outer (some p) _).mp h
  refine ⟨_, .crossedStack p o r hp ho h.mem pfxOn outerOn h.on e h.entry (hcross p rfl)
    (h.licensed.outer _ rfl) ?_ htolerated⟩
  by_cases hlicenses : o.contHas p.flag = true
  · rw [if_pos hlicenses]
    refine h.licensed.suffix.resolve_right ?_
    rintro ⟨_, hkept, -⟩
    obtain ⟨⟨⟩, hfree⟩ := Option.filter_eq_some_iff.mp hkept
    simp [hlicenses] at hfree
  · have hkept : ((some p).filter fun p => !o.contHas p.flag) = some p := by simp [hlicenses]
    rw [if_neg hlicenses]
    refine ⟨h.cross p hkept, h.licensed.suffix.imp_right ?_, h.licensed.pfx p hkept⟩
    rintro ⟨_, hq, hcont⟩
    obtain rfl := Option.some.inj (hkept.symm.trans hq)
    exact hcont

/-- Whatever is found is a derivation. -/
theorem derivation_of_compute (hfree : ¬c.Forbidden word) (h : c.compute word allowRisky = true) :
    ∃ affixes, c.Derivation Searched allowRisky word affixes := by
  rw [compute_eq word allowRisky hfree] at h
  simp only [Bool.or_eq_true] at h
  rcases h with (((hstem | hpfx) | hsuffix) | htwo) | hpfxTwo
  · obtain ⟨e, entry, free⟩ := (hasStem_iff word hfree).mp hstem
    exact ⟨_, .stem e entry free⟩
  · obtain ⟨p, hp, rest, inner, on, ⟨e, entry, licensed⟩ | ⟨-, hcheck⟩⟩ :=
      (prefixCheck_iff word false _).mp hpfx
    · exact ⟨_, .prefixed p hp on e entry licensed⟩
    · exact Derivation.of_crossed hp on hcheck
  · obtain ⟨r, hr, base, stem, on, e, entry, licensed, alone, tolerated⟩ :=
      suffixCheck_none_iff.mp hsuffix
    exact ⟨_, .suffixed r hr on e entry licensed alone tolerated⟩
  · obtain ⟨o, ho, base, inner, outerOn, r, hr, base', stem, on, e, entry, licensed, continued,
      tolerated⟩ := suffixCheckTwo_none_iff.mp htwo
    exact ⟨_, .stacked o r ho hr outerOn on e entry licensed continued tolerated⟩
  · obtain ⟨p, hp, rest, outer, on, -, hcheck⟩ := (prefixCheck_iff word true _).mp hpfxTwo
    exact Derivation.of_crossedStack hp on hcheck

/-- The search accepts the words that are not forbidden and have a derivation that counts. -/
theorem compute_iff_derivation : c.compute word allowRisky = true ↔
    ¬c.Forbidden word ∧ ∃ affixes, c.Derivation Searched allowRisky word affixes := by
  by_cases hforbidden : c.Forbidden word
  · simp [compute_of_forbidden hforbidden, hforbidden]
  · exact ⟨fun h => ⟨hforbidden, derivation_of_compute hforbidden h⟩,
      fun ⟨_, _, h⟩ => compute_of_derivation hforbidden h⟩

/-- **The search accepts the affix language**: with risky derivations allowed it accepts exactly
the words that are not forbidden and have a derivation. -/
theorem compute_iff (c : AffixChecker) (word : Word) :
    c.compute word true = true ↔ ¬c.Forbidden word ∧ c.Derives Searched word := by
  rw [compute_iff_derivation, derives_iff]

/-! ## Where the plain reading fails -/

/-- A cut that leaves a letter. -/
def LeavesLetter (left _taken : Word) : Prop := left ≠ []

/-- A prefix and two suffixes, every flag licensed by the entry or by another affix. -/
def Licensable (c : AffixChecker) (form : Word) : Prop :=
  ∃ p o r rest base base' outer inner stem e, p ∈ c.prefixes ∧ o ∈ c.suffixes ∧ r ∈ c.suffixes ∧
    p.PrefixOn LeavesLetter rest outer form ∧ o.SuffixOn LeavesLetter base inner outer ∧
    r.SuffixOn LeavesLetter base' stem inner ∧ c.UsableEntry stem e ∧ o.cross = true ∧
    Combine p r e ∧ r.contHas o.flag = true

theorem suffixOn_ne_nil {r : Rule} {base stem form : Word}
    (h : r.SuffixOn LeavesLetter base stem form) : form ≠ [] := by
  rw [h.form_eq]
  exact List.append_ne_nil_of_left_ne_nil h.cut _

theorem prefixOn_ne_nil {p : Rule} {rest stem form : Word}
    (h : p.PrefixOn LeavesLetter rest stem form) : form ≠ [] := by
  rw [h.form_eq]
  exact List.append_ne_nil_of_right_ne_nil _ h.cut

/-- A line of the affix file without a condition. -/
def RuleLine.plain (isPrefix : Bool) (flag : UInt8) (strip add : Word) (cont : List UInt8) :
    RuleLine :=
  { isPrefix, flag, cross := true, strip, add, cont, condition := ['.'], risk := 0, derived := none }

/-- A suffix that takes the only letter off a stem. -/
def bareChecker : AffixChecker :=
  load none none none none [.plain false 65 ['a'] [] []] [(['a'], ⟨[65], 0⟩)]

/-- An inner suffix of 41 letters, which the outer one takes off again. -/
def longChecker : AffixChecker :=
  load none none none none
    [.plain false 65 [] (List.replicate 41 'b') [66],
      .plain false 66 (List.replicate 41 'b') ['a'] []] [(['x'], ⟨[65], 0⟩)]

/-- A prefix that licenses the inner suffix and is licensed by the outer one. -/
def choiceChecker : AffixChecker :=
  load none none none none
    [.plain true 80 [] ['p'] [65], .plain false 65 [] ['r'] [66], .plain false 66 [] ['o'] [80]]
    [(['x'], ⟨[80], 0⟩)]

/-- The empty word is accepted without a letter left, a short word is refused whose inner suffix
is longer than the limit, and so is one whose prefix the outer suffix takes from the inner. -/
theorem compute_cuts :
    (bareChecker.compute [] true = true ∧ ¬bareChecker.Derives LeavesLetter []) ∧
      (longChecker.compute ['x', 'a'] true = false ∧ ¬longChecker.Forbidden ['x', 'a'] ∧
        longChecker.Derives LeavesLetter ['x', 'a']) ∧
      choiceChecker.compute ['p', 'x', 'r', 'o'] true = false ∧
      ¬choiceChecker.Forbidden ['p', 'x', 'r', 'o'] ∧
      choiceChecker.Licensable ['p', 'x', 'r', 'o'] := by
  refine ⟨⟨by decide +kernel, fun h => ?_⟩, ⟨by decide +kernel, ?_, ?_⟩, by decide +kernel, ?_, ?_⟩
  · cases h with
    | stem e entry =>
      have hmem : ([], e) ∈ [(['a'], (⟨[65], 0⟩ : Entry))] := entry.mem
      simp at hmem
    | prefixed p hp on => exact prefixOn_ne_nil on rfl
    | suffixed r hr on => exact suffixOn_ne_nil on rfl
    | crossed p r hp hr pfxOn => exact prefixOn_ne_nil pfxOn rfl
    | stacked o r ho hr outerOn => exact suffixOn_ne_nil outerOn rfl
    | crossedStack p o r hp ho hr pfxOn => exact prefixOn_ne_nil pfxOn rfl
  · rintro ⟨e, f, -, hf, -⟩
    cases hf
  · let start := empty none none none none
    let r := (RuleLine.plain false 65 [] (List.replicate 41 'b') [66]).rule start none
    let o := (RuleLine.plain false 66 (List.replicate 41 'b') ['a'] []).rule start none
    have hsuffixes : longChecker.suffixes = [r, o] := rfl
    exact .stacked o r (by simp [hsuffixes]) (by simp [hsuffixes])
      ⟨rfl, rfl, List.cons_ne_nil _ _, nofun, rfl⟩ ⟨rfl, rfl, List.cons_ne_nil 'x' [], nofun, rfl⟩
      ⟨[65], 0⟩ ⟨.head _, rfl, nofun, nofun⟩ (.head _) rfl
  · rintro ⟨e, f, -, hf, -⟩
    cases hf
  · let start := empty none none none none
    let p := (RuleLine.plain true 80 [] ['p'] [65]).rule start none
    let r := (RuleLine.plain false 65 [] ['r'] [66]).rule start none
    let o := (RuleLine.plain false 66 [] ['o'] [80]).rule start none
    have hlisted : choiceChecker.prefixes = [p] := rfl
    have hsuffixes : choiceChecker.suffixes = [r, o] := rfl
    exact ⟨p, o, r, ['x', 'r', 'o'], ['x', 'r'], ['x'], _, _, _, ⟨[80], 0⟩, by simp [hlisted],
      by simp [hsuffixes], by simp [hsuffixes], ⟨rfl, rfl, List.cons_ne_nil _ _, nofun, rfl⟩,
      ⟨rfl, rfl, List.cons_ne_nil _ _, nofun, rfl⟩, ⟨rfl, rfl, List.cons_ne_nil _ _, nofun, rfl⟩,
      ⟨.head _, rfl, nofun, nofun⟩, rfl, ⟨⟨rfl, rfl⟩, .inr rfl, .inl (.head _)⟩, rfl⟩

end AffixChecker

end ScrabbleMagyar
