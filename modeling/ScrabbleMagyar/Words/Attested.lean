import ScrabbleMagyar.Words.AffixLanguage

/-!
# The attested words

A risky derivation counts only for the words of a list, if there is one (`words/affix.rs`). The
list can only rescue words: with a longer one, more words are accepted.

* `compute_mono`: whatever is accepted without risky derivations is accepted with them.
* `check_attested`: the verdict under a list, told apart by what the word needs.
-/

namespace ScrabbleMagyar

namespace AffixChecker

/-- The checker with another attested list, or without one. -/
def withAttested (c : AffixChecker) (attested : Option (List Word)) : AffixChecker :=
  { c with attested }

@[simp] theorem compute_withAttested (c : AffixChecker) (attested : Option (List Word))
    (word : Word) (allowRisky : Bool) :
    (c.withAttested attested).compute word allowRisky = c.compute word allowRisky :=
  rfl

theorem riskyAllowed_some (c : AffixChecker) (attested : List Word) (word : Word) :
    (c.withAttested (some attested)).riskyAllowed word = true ↔ word ∈ attested := by
  simp [riskyAllowed, withAttested]

theorem riskyAllowed_none (c : AffixChecker) (word : Word) :
    (c.withAttested none).riskyAllowed word = true := rfl

/-- A derivation that counts without the risky ones counts with them. -/
theorem compute_mono (c : AffixChecker) {word : Word} {allowRisky allowRisky' : Bool}
    (h : c.compute word allowRisky = true) (hle : allowRisky = true → allowRisky' = true) :
    c.compute word allowRisky' = true := by
  obtain ⟨hfree, affixes, hder⟩ := compute_iff_derivation.mp h
  exact compute_iff_derivation.mpr ⟨hfree, affixes, hder.mono hle⟩

theorem compute_true_of_false (c : AffixChecker) {word : Word} (h : c.compute word false = true) :
    c.compute word true = true :=
  c.compute_mono h nofun

theorem check_some_iff (c : AffixChecker) (attested : List Word) (word : Word) :
    (c.withAttested (some attested)).check word = true ↔
      c.validWithoutRisky word = true ∨ word ∈ attested ∧ c.needsAttestation word = true := by
  unfold check validWithoutRisky needsAttestation
  rw [compute_withAttested]
  by_cases hlisted : word ∈ attested
  · rw [(riskyAllowed_some c attested word).mpr hlisted]
    cases hplain : c.compute word false with
    | false => simp [hlisted]
    | true => simp [c.compute_true_of_false hplain]
  · have hrisky : (c.withAttested (some attested)).riskyAllowed word = false := by
      rw [← riskyAllowed_some c] at hlisted
      simpa using hlisted
    simp [hrisky, hlisted]

/-- **The attested list only rescues risky forms.** Risky derivations allowed, no word is lost;
under a list a word is accepted if it needs no risky derivation, or if it is listed and needs one;
a longer list accepts more, and without a list every risky derivation counts. -/
theorem check_attested (c : AffixChecker) (word : Word) :
    (c.compute word false = true → c.compute word true = true) ∧
      (∀ attested, (c.withAttested (some attested)).check word = true ↔
        (c.withAttested (some attested)).validWithoutRisky word = true ∨
          word ∈ attested ∧ (c.withAttested (some attested)).needsAttestation word = true) ∧
      (∀ attested attested' : List Word, attested ⊆ attested' →
        (c.withAttested (some attested)).check word = true →
          (c.withAttested (some attested')).check word = true) ∧
      (c.withAttested none).check word = (c.withAttested none).compute word true := by
  refine ⟨c.compute_true_of_false, fun attested => c.check_some_iff attested word, ?_, ?_⟩
  · intro attested attested' hsub h
    rw [check_some_iff] at h ⊢
    exact h.imp_right fun ⟨hlisted, hneeds⟩ => ⟨hsub hlisted, hneeds⟩
  · rw [check, riskyAllowed_none]

end AffixChecker

end ScrabbleMagyar
