import Mathlib.Data.List.Basic
import Mathlib.Data.List.Induction
import Mathlib.Data.List.Nodup
import Mathlib.Tactic.Common

/-!
# Grouping the members of a list

The members of a list are taken one by one into the group of their key. A group is made at the
first member of its key, and the groups stand in the order in which they were made.

* `snd_of_mem_groups`: a group is the fold over the members of its key.
* `nodup_groups`, `mem_keys_groups`: there is one group for each key that occurs.
-/

namespace ScrabbleMagyar.Groups

variable {α κ σ : Type*} [DecidableEq κ] (key : α → κ) (fresh : κ → σ) (add : σ → α → σ)

/-- Take a member into the group of its key. -/
def note (groups : List (κ × σ)) (a : α) : List (κ × σ) :=
  if key a ∈ groups.map Prod.fst then
    groups.map fun g => if g.1 = key a then (g.1, add g.2 a) else g
  else groups ++ [(key a, add (fresh (key a)) a)]

def groups (l : List α) : List (κ × σ) := l.foldl (note key fresh add) []

/-- The members of a key, put together. -/
def total (l : List α) (k : κ) : σ := (l.filter fun a => key a = k).foldl add (fresh k)

theorem groups_concat (l : List α) (a : α) :
    groups key fresh add (l ++ [a]) = note key fresh add (groups key fresh add l) a := by
  simp [groups]

theorem total_concat_self (l : List α) (a : α) :
    total key fresh add (l ++ [a]) (key a) = add (total key fresh add l (key a)) a := by
  simp [total]

theorem total_concat_of_ne {l : List α} {a : α} {k : κ} (h : key a ≠ k) :
    total key fresh add (l ++ [a]) k = total key fresh add l k := by
  simp [total, h]

theorem map_fst_note_of_mem {gs : List (κ × σ)} {a : α} (h : key a ∈ gs.map Prod.fst) :
    (note key fresh add gs a).map Prod.fst = gs.map Prod.fst := by
  rw [note, if_pos h, List.map_map]
  refine List.map_congr_left fun g _ => ?_
  simp only [Function.comp_apply]
  split <;> rfl

theorem map_fst_note_of_not_mem {gs : List (κ × σ)} {a : α} (h : key a ∉ gs.map Prod.fst) :
    (note key fresh add gs a).map Prod.fst = gs.map Prod.fst ++ [key a] := by
  rw [note, if_neg h, List.map_append]
  rfl

/-- There is a group for every key that occurs. -/
theorem mem_keys_groups (l : List α) (k : κ) :
    k ∈ (groups key fresh add l).map Prod.fst ↔ k ∈ l.map key := by
  induction l using List.reverseRecOn with
  | nil => simp [groups]
  | append_singleton l a ih =>
    rw [groups_concat, List.map_append, List.mem_append, ← ih, List.map_singleton,
      List.mem_singleton]
    by_cases hmem : key a ∈ (groups key fresh add l).map Prod.fst
    · rw [map_fst_note_of_mem key fresh add hmem]
      exact ⟨.inl, fun h => h.elim id fun h => h ▸ hmem⟩
    · rw [map_fst_note_of_not_mem key fresh add hmem, List.mem_append, List.mem_singleton]

/-- There is no more than one group for a key. -/
theorem nodup_groups (l : List α) : ((groups key fresh add l).map Prod.fst).Nodup := by
  induction l using List.reverseRecOn with
  | nil => simp [groups]
  | append_singleton l a ih =>
    rw [groups_concat]
    by_cases hmem : key a ∈ (groups key fresh add l).map Prod.fst
    · rw [map_fst_note_of_mem key fresh add hmem]
      exact ih
    · rw [map_fst_note_of_not_mem key fresh add hmem, ← List.concat_eq_append]
      exact ih.concat hmem

/-- **A group** is the fold over the members of its key. -/
theorem snd_of_mem_groups {l : List α} {g : κ × σ} (h : g ∈ groups key fresh add l) :
    g.2 = total key fresh add l g.1 := by
  induction l using List.reverseRecOn generalizing g with
  | nil => exact absurd h (by simp [groups])
  | append_singleton l a ih =>
    rw [groups_concat, note] at h
    split at h
    · -- the group of the key takes the member in, the others are as before
      obtain ⟨g₀, hg₀, rfl⟩ := List.mem_map.mp h
      split
      · rename_i hkey
        rw [hkey, total_concat_self, ← hkey, ih hg₀]
      · rename_i hkey
        rw [total_concat_of_ne key fresh add (Ne.symm hkey), ih hg₀]
    · rename_i hnew
      rcases List.mem_append.mp h with hold | hlast
      · have hne : key a ≠ g.1 := fun heq => hnew (heq ▸ List.mem_map_of_mem hold)
        rw [total_concat_of_ne key fresh add hne, ih hold]
      · rw [List.mem_singleton.mp hlast, total_concat_self]
        -- no member of the key came before
        have hnone : l.filter (fun b => key b = key a) = [] := by
          rw [List.filter_eq_nil_iff]
          intro b hb hkey
          refine hnew ((mem_keys_groups key fresh add l _).mpr ?_)
          rw [← of_decide_eq_true hkey]
          exact List.mem_map_of_mem hb
        rw [total, hnone, List.foldl_nil]

end ScrabbleMagyar.Groups
