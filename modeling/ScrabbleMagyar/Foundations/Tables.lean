import Mathlib.Data.List.AList
import Mathlib.Order.Lattice

/-!
# Tables

A hash map is Mathlib's `AList`: a list of entries in which a key occurs once. The lemmas here
say what a look-up makes of an insertion, a removal and a `retain`, each as an equation for every
key, which is the form in which `simp` follows several changes of one table.
-/

namespace ScrabbleMagyar

/-- A table of values `ν` by keys `κ`. -/
abbrev Table (κ ν : Type*) := AList fun _ : κ => ν

namespace Table

variable {κ ν : Type*} [DecidableEq κ]

theorem lookup_insert (t : Table κ ν) (k k' : κ) (v : ν) :
    (t.insert k v).lookup k' = if k' = k then some v else t.lookup k' := by
  by_cases h : k' = k
  · subst h
    rw [AList.lookup_insert, if_pos rfl]
  · rw [AList.lookup_insert_ne h, if_neg h]

theorem lookup_erase (t : Table κ ν) (k k' : κ) :
    (t.erase k).lookup k' = if k' = k then none else t.lookup k' := by
  by_cases h : k' = k
  · subst h
    rw [AList.lookup_erase, if_pos rfl]
  · rw [AList.lookup_erase_ne h, if_neg h]

/-- The entries that a predicate keeps. -/
def retain (t : Table κ ν) (p : κ → ν → Bool) : Table κ ν :=
  ⟨t.entries.filter fun e => p e.1 e.2, t.nodupKeys.sublist List.filter_sublist⟩

theorem lookup_retain (t : Table κ ν) (p : κ → ν → Bool) (k : κ) :
    (t.retain p).lookup k = (t.lookup k).filter (p k) := by
  ext v
  rw [Option.filter_eq_some_iff, ← Option.mem_def, AList.mem_lookup_iff, ← Option.mem_def,
    AList.mem_lookup_iff]
  exact List.mem_filter

/-- A filter that drops the entries of a key does not see the removal of the key. -/
theorem filter_erase (t : Table κ ν) {k : κ} {p : (Σ _ : κ, ν) → Bool}
    (hp : ∀ v, p ⟨k, v⟩ = false) : (t.erase k).entries.filter p = t.entries.filter p := by
  change (List.kerase k t.entries).filter p = t.entries.filter p
  generalize t.entries = l
  induction l with
  | nil => rfl
  | cons e l ih =>
    by_cases h : k = e.1
    · obtain ⟨k', v⟩ := e
      cases h
      rw [List.kerase_cons_eq rfl, List.filter_cons_of_neg (by simp [hp v])]
    · rw [List.kerase_cons_ne h, List.filter_cons, List.filter_cons, ih]

/-- A filter that drops the entries of a key does not see an insertion at the key. -/
theorem filter_insert (t : Table κ ν) {k : κ} (v : ν) {p : (Σ _ : κ, ν) → Bool}
    (hp : ∀ v, p ⟨k, v⟩ = false) : (t.insert k v).entries.filter p = t.entries.filter p := by
  change (⟨k, v⟩ :: List.kerase k t.entries).filter p = t.entries.filter p
  rw [List.filter_cons_of_neg (by simp [hp v])]
  exact filter_erase t hp

/-- A table filled from a list in which every key occurs once. -/
theorem lookup_foldl_insert {α : Type*} {key : α → κ} (val : α → ν) {l : List α}
    (h : (l.map key).Nodup) (t : Table κ ν) (k : κ) :
    (l.foldl (fun t a => t.insert (key a) (val a)) t).lookup k =
      ((l.find? fun a => key a = k).map val).or (t.lookup k) := by
  induction l generalizing t with
  | nil => rfl
  | cons a l ih =>
    obtain ⟨ha, hl⟩ := List.nodup_cons.mp h
    rw [List.foldl_cons, ih hl, lookup_insert]
    by_cases hk : key a = k
    · have hnone : (l.find? fun b => decide (key b = k)) = none := by
        rw [List.find?_eq_none]
        intro b hb heq
        exact ha (List.mem_map.mpr ⟨b, hb, (of_decide_eq_true heq).trans hk.symm⟩)
      simp [hk, hnone]
    · simp [hk, Ne.symm hk]

/-! ## The best value of a key -/

variable {γ : Type*} [LinearOrder γ]

/-- Enter a value at a key, unless there is one that is at least as good. -/
def improve (f : ν → γ) (t : Table κ ν) (e : κ × ν) : Table κ ν :=
  if (t.lookup e.1).any fun v => decide (f e.2 ≤ f v) then t else t.insert e.1 e.2

/-- At the key there is then a value at least as good. -/
theorem lookup_improve_self (f : ν → γ) (t : Table κ ν) (e : κ × ν) :
    ∃ v, (t.improve f e).lookup e.1 = some v ∧ f e.2 ≤ f v := by
  unfold improve
  split
  · rename_i hkept
    cases hv : t.lookup e.1 with
    | none => simp [hv] at hkept
    | some v => exact ⟨v, rfl, by simpa [hv] using hkept⟩
  · exact ⟨e.2, by rw [lookup_insert, if_pos rfl], le_rfl⟩

/-- No value gets worse. -/
theorem lookup_improve_of_some (f : ν → γ) {t : Table κ ν} {k : κ} {v : ν} (h : t.lookup k = some v)
    (e : κ × ν) : ∃ v', (t.improve f e).lookup k = some v' ∧ f v ≤ f v' := by
  unfold improve
  split
  · exact ⟨v, h, le_rfl⟩
  · rename_i hbetter
    rw [lookup_insert]
    split
    · rename_i hk
      subst hk
      rw [h, Option.any_some, decide_eq_true_eq, not_le] at hbetter
      exact ⟨e.2, rfl, hbetter.le⟩
    · exact ⟨v, h, le_rfl⟩

theorem of_lookup_improve {f : ν → γ} {t : Table κ ν} {e : κ × ν} {k : κ} {v : ν}
    (h : (t.improve f e).lookup k = some v) : e = (k, v) ∨ t.lookup k = some v := by
  unfold improve at h
  split at h
  · exact Or.inr h
  · rw [lookup_insert] at h
    split at h
    · rename_i hk
      exact Or.inl (Prod.ext hk.symm (Option.some.inj h))
    · exact Or.inr h

/-- What is in a table of best values was entered. -/
theorem of_lookup_foldl_improve {f : ν → γ} {l : List (κ × ν)} {t : Table κ ν} {k : κ} {v : ν}
    (h : (l.foldl (improve f) t).lookup k = some v) : (k, v) ∈ l ∨ t.lookup k = some v := by
  induction l generalizing t with
  | nil => exact Or.inr h
  | cons e l ih =>
    rcases ih h with hl | ht
    · exact Or.inl (List.mem_cons_of_mem e hl)
    · rcases of_lookup_improve ht with rfl | ht
      · exact Or.inl List.mem_cons_self
      · exact Or.inr ht

theorem lookup_foldl_improve_of_some (f : ν → γ) (l : List (κ × ν)) {t : Table κ ν} {k : κ} {v : ν}
    (h : t.lookup k = some v) : ∃ v', (l.foldl (improve f) t).lookup k = some v' ∧ f v ≤ f v' := by
  induction l generalizing t v with
  | nil => exact ⟨v, h, le_rfl⟩
  | cons e l ih =>
    obtain ⟨v₁, h₁, hle₁⟩ := lookup_improve_of_some f h e
    obtain ⟨v₂, h₂, hle₂⟩ := ih h₁
    exact ⟨v₂, h₂, hle₁.trans hle₂⟩

/-- A table of best values has, for everything entered, a value at least as good. -/
theorem lookup_foldl_improve (f : ν → γ) {l : List (κ × ν)} {k : κ} {v : ν} (h : (k, v) ∈ l)
    (t : Table κ ν) : ∃ v', (l.foldl (improve f) t).lookup k = some v' ∧ f v ≤ f v' := by
  induction l generalizing t with
  | nil => cases h
  | cons e l ih =>
    obtain rfl | h := List.mem_cons.mp h
    · obtain ⟨v₁, h₁, hle₁⟩ := lookup_improve_self f t (k, v)
      obtain ⟨v₂, h₂, hle₂⟩ := lookup_foldl_improve_of_some f l h₁
      exact ⟨v₂, h₂, hle₁.trans hle₂⟩
    · exact ih h _

end Table

end ScrabbleMagyar
