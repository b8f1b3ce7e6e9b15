import ScrabbleMagyar.Words.Attested

/-!
# Inflected forms

The forms that the vocabulary of the bot is built from (`inflected_forms` in `words/affix.rs`): a
stem with one suffix, generated forwards. The checker retraces a suffix backwards, and only when
at most `maxAffixLen` letters are taken off and a letter is left.

* `mem_inflectedForms_iff`: what is generated.
* `accepted_iff`: every generated form is accepted exactly if those made by a cut that the checker
  does not try have another derivation.
-/

namespace ScrabbleMagyar

namespace AffixChecker

/-- Whether the ending of a rule is wanted. A lengthened last vowel of the stem does not count. -/
def wanted (adds : List Word) (rule : Rule) : Bool :=
  adds.contains rule.add ||
    match rule.add with
    | first :: rest =>
      if (rule.strip = ['a'] ∨ rule.strip = ['e']) ∧ (first = 'á' ∨ first = 'é') then
        adds.contains rest
      else false
    | [] => false

/-- The rules of a flag whose ending is wanted. -/
def wantedRules (c : AffixChecker) (adds : List Word) (flag : UInt8) : List Rule :=
  c.suffixes.filter fun rule =>
    !(rule.needAffix || rule.onlyInCompound) && wanted adds rule && rule.flag == flag

/-- The form of a stem with a suffix; `none` where it is not to be generated. -/
def inflect (c : AffixChecker) (maxFormLen : ℕ) (risky : Bool) (stem : Word) (entry : Entry)
    (rule : Rule) : Option Word :=
  if !rule.strip.isEmpty && !rule.strip.isSuffixOf stem then none
  else if !rule.condOkSuffix stem then none
  else
    let base := stem.take (stem.length - rule.strip.length)
    let form := base ++ rule.add
    if form = stem ∨ maxFormLen < form.length ∨ c.entries.any (fun e => e.1 = form) then none
    else if isRisky entry.kind rule none && !(risky && c.riskyAllowed form) then none
    else some form

/-- The forms of the stems with one suffix each, no form twice. -/
def inflectedForms (c : AffixChecker) (stems adds : List Word) (maxFormLen : ℕ) (risky : Bool) :
    List Word :=
  (stems.flatMap fun stem =>
    (c.usableEntries stem).flatMap fun entry =>
      entry.flags.flatMap fun flag =>
        (c.wantedRules adds flag).filterMap (c.inflect maxFormLen risky stem entry)).dedup

/-! ## What is generated -/

/-- A suffix makes a form of a stem that is to be generated, leaving `base` of the stem. -/
structure Generates (c : AffixChecker) (adds : List Word) (maxFormLen : ℕ) (risky : Bool)
    (stem : Word) (e : Entry) (r : Rule) (base form : Word) : Prop where
  entry : c.UsableEntry stem e
  mem : r ∈ c.suffixes
  licensed : r.flag ∈ e.flags
  alone : r.needAffix = false
  want : wanted adds r = true
  on : r.SuffixOn (fun _ _ => True) base stem form
  changed : form ≠ stem
  short : form.length ≤ maxFormLen
  fresh : ∀ d, (form, d) ∉ c.entries
  tolerated : Tolerated (risky && c.riskyAllowed form) r none e

variable {c : AffixChecker} {stems adds : List Word} {maxFormLen : ℕ} {risky : Bool}

theorem inflect_iff (stem : Word) (e : Entry) (r : Rule) (hstanding : r.onlyInCompound = false)
    (form : Word) :
    c.inflect maxFormLen risky stem e r = some form ↔
      ∃ base, r.SuffixOn (fun _ _ => True) base stem form ∧ form ≠ stem ∧ form.length ≤ maxFormLen ∧
        (∀ d, (form, d) ∉ c.entries) ∧ Tolerated (risky && c.riskyAllowed form) r none e := by
  unfold inflect
  by_cases hsuffix : r.strip <:+ stem
  · obtain ⟨base, rfl⟩ := hsuffix
    have hstrip : (!r.strip.isEmpty && !r.strip.isSuffixOf (base ++ r.strip)) = false := by
      simp
    have hbase : (base ++ r.strip).take ((base ++ r.strip).length - r.strip.length) = base := by
      simp
    have honly (base' : Word) : r.SuffixOn (fun _ _ => True) base' (base ++ r.strip) form ↔
        base' = base ∧ form = base ++ r.add ∧ r.condOkSuffix (base ++ r.strip) = true := by
      rw [condOkSuffix_iff]
      constructor
      · intro h
        obtain rfl := List.append_cancel_right h.stem_eq
        exact ⟨rfl, h.form_eq, h.fits⟩
      · rintro ⟨rfl, hform, hfits⟩
        exact ⟨hform, rfl, trivial, hfits, hstanding⟩
    have hfresh : c.entries.any (fun e => e.1 = form) = false ↔ ∀ d, (form, d) ∉ c.entries := by
      simp only [List.any_eq_false, decide_eq_true_eq]
      exact ⟨fun h d hd => h _ hd rfl, fun h e he heq => h e.2 (heq ▸ he)⟩
    have hrisk : (isRisky e.kind r none && !(risky && c.riskyAllowed form)) = false ↔
        Tolerated (risky && c.riskyAllowed form) r none e := by
      unfold Tolerated
      cases isRisky e.kind r none <;> simp
    rw [hstrip, hbase]
    simp only [honly, Bool.false_eq_true, if_false, exists_eq_left, and_assoc]
    by_cases hform : form = base ++ r.add
    · subst hform
      rw [← hfresh, ← hrisk]
      cases r.condOkSuffix (base ++ r.strip) <;>
        cases c.entries.any (fun e => e.1 = base ++ r.add) <;>
          cases isRisky e.kind r none && !(risky && c.riskyAllowed (base ++ r.add)) <;>
            simp
    · simp only [hform, false_and, iff_false]
      repeat' split
      all_goals simp [Ne.symm hform]
  · have hnot : r.strip.isSuffixOf stem = false :=
      Bool.eq_false_iff.mpr (mt List.isSuffixOf_iff_suffix.mp hsuffix)
    have hne : r.strip ≠ [] := fun hnil => hsuffix (hnil ▸ List.nil_suffix)
    have hstrip : (!r.strip.isEmpty && !r.strip.isSuffixOf stem) = true := by
      simp [hnot, hne]
    simp only [hstrip, if_true, reduceCtorEq, false_iff]
    rintro ⟨base, hon, -⟩
    exact hsuffix ⟨base, hon.stem_eq.symm⟩

theorem mem_inflectedForms_iff (form : Word) :
    form ∈ c.inflectedForms stems adds maxFormLen risky ↔
      ∃ stem ∈ stems, ∃ e r base, c.Generates adds maxFormLen risky stem e r base form := by
  simp only [inflectedForms, List.mem_dedup, List.mem_flatMap, List.mem_filterMap,
    mem_usableEntries, wantedRules, List.mem_filter]
  constructor
  · rintro ⟨stem, hstem, e, entry, flag, hflag, r, ⟨hr, hsel⟩, hform⟩
    simp only [Bool.and_eq_true, Bool.not_eq_true', Bool.or_eq_false_iff, beq_iff_eq] at hsel
    obtain ⟨⟨⟨halone, hstanding⟩, hwant⟩, rfl⟩ := hsel
    obtain ⟨base, hon, hchanged, hshort, hfresh, htolerated⟩ :=
      (inflect_iff stem e r hstanding form).mp hform
    exact ⟨stem, hstem, e, r, base, entry, hr, hflag, halone, hwant, hon, hchanged, hshort, hfresh,
      htolerated⟩
  · rintro ⟨stem, hstem, e, r, base, h⟩
    refine ⟨stem, hstem, e, h.entry, r.flag, h.licensed, r, ⟨h.mem, ?_⟩, ?_⟩
    · simp [h.alone, h.on.standing, h.want]
    · exact (inflect_iff stem e r h.on.standing form).mpr
        ⟨base, h.on, h.changed, h.short, h.fresh, h.tolerated⟩

/-! ## What is accepted -/

/-- The checker accepts a form; unless risky forms were asked for, it needs no risky derivation. -/
def Accepted (c : AffixChecker) (risky : Bool) (form : Word) : Prop :=
  c.check form = true ∧ (risky = false → c.validWithoutRisky form = true)

theorem accepted_iff_compute (form : Word) :
    c.Accepted risky form ↔ c.compute form (risky && c.riskyAllowed form) = true := by
  cases risky with
  | false =>
    simp only [Accepted, validWithoutRisky, Bool.false_and, true_implies, and_iff_right_iff_imp]
    exact fun h => c.compute_mono h nofun
  | true => simp [Accepted, check]

theorem Generates.not_forbidden {stem form base : Word} {e : Entry} {r : Rule}
    (h : c.Generates adds maxFormLen risky stem e r base form) : ¬c.Forbidden form := by
  rintro ⟨d, -, hd, -⟩
  exact h.fresh d hd

/-- A generated form whose cut the checker tries is accepted. -/
theorem Generates.accepted {stem form base : Word} {e : Entry} {r : Rule}
    (h : c.Generates adds maxFormLen risky stem e r base form) (hcut : Searched base r.add) :
    c.Accepted risky form := by
  have hon : r.SuffixOn Searched base stem form :=
    ⟨h.on.form_eq, h.on.stem_eq, hcut, h.on.fits, h.on.standing⟩
  have hder : c.Derivation Searched (risky && c.riskyAllowed form) form [r] :=
    .suffixed r h.mem hon e h.entry h.licensed h.alone h.tolerated
  exact (accepted_iff_compute form).mpr (compute_of_derivation h.not_forbidden hder)

/-- The suffix cannot be retraced: it replaces the whole stem, or it is too long. -/
def Untraceable (base : Word) (r : Rule) : Prop :=
  base = [] ∧ r.add ≠ [] ∨ maxAffixLen < r.add.length

theorem untraceable_iff (base : Word) (r : Rule) : Untraceable base r ↔ ¬Searched base r.add := by
  unfold Untraceable Searched Cuts.Within
  rw [not_and_or, not_or, not_ne_iff, not_le]

/-- **The inflected forms are accepted** exactly if each form made by a suffix that cannot be
retraced has another derivation. -/
theorem accepted_iff (c : AffixChecker) (stems adds : List Word) (maxFormLen : ℕ) (risky : Bool) :
    (∀ form ∈ c.inflectedForms stems adds maxFormLen risky, c.Accepted risky form) ↔
      ∀ stem ∈ stems, ∀ e r base form, c.Generates adds maxFormLen risky stem e r base form →
        Untraceable base r →
          ∃ affixes, c.Derivation Searched (risky && c.riskyAllowed form) form affixes := by
  constructor
  · intro h stem hstem e r base form hgen _
    have haccepted := h form ((mem_inflectedForms_iff form).mpr ⟨stem, hstem, e, r, base, hgen⟩)
    rw [accepted_iff_compute] at haccepted
    exact (compute_iff_derivation.mp haccepted).2
  · intro h form hform
    obtain ⟨stem, hstem, e, r, base, hgen⟩ := (mem_inflectedForms_iff form).mp hform
    by_cases hcut : Searched base r.add
    · exact hgen.accepted hcut
    · rw [accepted_iff_compute]
      obtain ⟨affixes, hder⟩ := h stem hstem e r base form hgen ((untraceable_iff base r).mpr hcut)
      exact compute_of_derivation hgen.not_forbidden hder

/-! ## A stem replaced as a whole -/

/-- A suffix that makes `azok` of `ez`. -/
def suppletiveChecker : AffixChecker :=
  load none none none none [.plain false 65 ['e', 'z'] ['a', 'z', 'o', 'k'] []]
    [(['e', 'z'], ⟨[65], 0⟩)]

example : suppletiveChecker.inflectedForms [['e', 'z']] [['a', 'z', 'o', 'k']] 12 false =
    [['a', 'z', 'o', 'k']] := by decide +kernel

/-- **A form that the checker rejects.** The suffix replaces the whole stem, so there is no letter
left when the checker takes it off. -/
theorem inflected_rejected :
    ¬ ∀ (c : AffixChecker) (stems adds : List Word) (maxFormLen : ℕ) (risky : Bool),
      ∀ form ∈ c.inflectedForms stems adds maxFormLen risky, c.Accepted risky form := by
  intro h
  have haccepted := h suppletiveChecker [['e', 'z']] [['a', 'z', 'o', 'k']] 12 false
    ['a', 'z', 'o', 'k'] (by decide +kernel)
  have hrejected : suppletiveChecker.check ['a', 'z', 'o', 'k'] = false := by decide +kernel
  rw [haccepted.1] at hrejected
  cases hrejected

end AffixChecker

end ScrabbleMagyar
