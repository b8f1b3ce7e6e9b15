import Mathlib.Data.List.Basic
import Mathlib.Data.List.Infix
import Mathlib.Data.List.Nodup
import Mathlib.Tactic.Common

/-!
# Searches that note what they find

A search that carries the list of what it has found from branch to branch, each member once by its
key. `Gathers key f P` says all of such a search `f`: it only adds at the end, the keys it adds are
those of `P`, and no key is added twice. The rules follow the way a search is written: noting one
member, one search after the other, a search under a condition, a search for each member of a list.
-/

namespace ScrabbleMagyar.Gather

variable {α κ : Type*}

/-- A search adds members with the given keys at the end of the list, and no key twice. -/
structure Gathers (key : α → κ) (f : List α → List α) (P : κ → Prop) : Prop where
  grows : ∀ l, l <+: f l
  keys : ∀ l k, k ∈ (f l).map key ↔ k ∈ l.map key ∨ P k
  nodup : ∀ l, (l.map key).Nodup → ((f l).map key).Nodup

/-- Note a member, unless its key is there. -/
def note [DecidableEq κ] (key : α → κ) (a : α) (l : List α) : List α :=
  if l.any fun b => key b = key a then l else l ++ [a]

variable {key : α → κ} {f g : List α → List α} {P Q : κ → Prop}

theorem Gathers.congr (h : Gathers key f P) (hPQ : ∀ k, P k ↔ Q k) : Gathers key f Q :=
  ⟨h.grows, fun l k => (h.keys l k).trans (or_congr_right (hPQ k)), h.nodup⟩

/-- A search that finds nothing. -/
theorem gathers_id (key : α → κ) : Gathers key (fun l => l) fun _ => False :=
  ⟨fun _ => List.prefix_rfl, fun _ _ => by simp, fun _ h => h⟩

theorem gathers_note [DecidableEq κ] (key : α → κ) (a : α) :
    Gathers key (note key a) fun k => k = key a := by
  have hany (l : List α) : (l.any fun b => key b = key a) = true ↔ key a ∈ l.map key := by simp
  refine ⟨fun l => ?_, fun l k => ?_, fun l hl => ?_⟩
  · unfold note
    split
    · exact List.prefix_rfl
    · exact List.prefix_append l [a]
  · unfold note
    split
    · rename_i hmem
      exact ⟨.inl, fun h => h.elim id fun hk => hk ▸ (hany l).mp hmem⟩
    · simp
  · unfold note
    split
    · exact hl
    · rename_i hnew
      rw [List.map_append, List.map_singleton, ← List.concat_eq_append]
      exact hl.concat fun hmem => hnew ((hany l).mpr hmem)

/-- One search after the other. -/
theorem Gathers.comp (hf : Gathers key f P) (hg : Gathers key g Q) :
    Gathers key (fun l => g (f l)) fun k => P k ∨ Q k :=
  ⟨fun l => (hf.grows l).trans (hg.grows (f l)), fun l k => by rw [hg.keys, hf.keys, or_assoc],
    fun l hl => hg.nodup _ (hf.nodup l hl)⟩

/-- A search under a condition. -/
theorem Gathers.ite {c : Prop} [Decidable c] (hf : c → Gathers key f P) :
    Gathers key (fun l => if c then f l else l) fun k => c ∧ P k := by
  by_cases hc : c
  · simpa [hc] using hf hc
  · simpa [hc] using gathers_id key

/-- A search for each member of a list, in its order. -/
theorem gathers_foldl {β : Type*} {xs : List β} {f : β → List α → List α} {P : β → κ → Prop}
    (h : ∀ x ∈ xs, Gathers key (f x) (P x)) :
    Gathers key (fun l => xs.foldl (fun l x => f x l) l) fun k => ∃ x ∈ xs, P x k := by
  induction xs with
  | nil => simpa using gathers_id key
  | cons x xs ih =>
    have hrest := ih fun y hy => h y (List.mem_cons_of_mem x hy)
    simpa using (h x List.mem_cons_self).comp hrest

/-- From the empty list, a search finds a member for each of its keys, and one only. -/
theorem Gathers.mem_iff (h : Gathers key f P) (k : κ) : (∃ a ∈ f [], key a = k) ↔ P k := by
  have hkeys := h.keys [] k
  simpa using hkeys

theorem Gathers.pairwise (h : Gathers key f P) : (f []).Pairwise fun a b => key a ≠ key b :=
  List.pairwise_map.mp (h.nodup [] List.nodup_nil)

end ScrabbleMagyar.Gather
