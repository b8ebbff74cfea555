/-
# Loops over a table that act on one key at a time

A loop over the entries of a table, each step of which reads and changes only what
is stored under the key of its entry, changes each key by its own entry's step
(`foldl_keyed`).  The entries that are looped over may be selected from the table
first, at most one for each key (`find?_filterMap_entries`).
-/

import Mathlib.Data.List.AList

namespace Sharun
namespace Basis

variable {σ ε κ ν α : Type*} [DecidableEq κ]

section Loops

variable {step : σ → ε → σ} {key : ε → κ} {get : σ → κ → ν}

omit [DecidableEq κ] in
/-- A key no entry of the loop has keeps what is stored under it. -/
theorem foldl_keyed_of_notMem (hother : ∀ s e k, k ≠ key e → get (step s e) k = get s k) {k : κ}
    {l : List ε} (s : σ) (h : k ∉ l.map key) : get (l.foldl step s) k = get s k := by
  induction l generalizing s with
  | nil => rfl
  | cons e l ih =>
    rw [List.map_cons, List.mem_cons, not_or] at h
    rw [List.foldl_cons, ih (step s e) h.2, hother s e k h.1]

/-- **The loop rule.**  A key is changed by the step of its own entry alone, as if the
loop began with that. -/
theorem foldl_keyed (hother : ∀ s e k, k ≠ key e → get (step s e) k = get s k)
    (hself : ∀ s s' e, get s (key e) = get s' (key e) →
      get (step s e) (key e) = get (step s' e) (key e))
    {l : List ε} (h : (l.map key).Nodup) (s : σ) (k : κ) :
    get (l.foldl step s) k =
      (l.find? (key · = k)).elim (get s k) fun e => get (step s e) k := by
  induction l generalizing s with
  | nil => rfl
  | cons e l ih =>
    obtain ⟨hnotMem, hl⟩ := List.nodup_cons.1 h
    rw [List.foldl_cons]
    by_cases hk : key e = k
    · subst hk
      rw [foldl_keyed_of_notMem hother _ hnotMem, List.find?_cons_of_pos (by simp)]
      rfl
    · rw [ih hl, List.find?_cons_of_neg (by simpa using hk)]
      have hsame := hother s e k (Ne.symm hk)
      cases hf : l.find? (key · = k) with
      | none => exact hsame
      | some d =>
        obtain rfl : key d = k := by simpa using List.find?_some hf
        exact hself (step s e) s d hsame

end Loops

section Selections

variable {select : (Sigma fun _ : κ => α) → Option ε} {key : ε → κ}

/-- The selection made for a key is the one made from what is stored under it. -/
theorem find?_filterMap_dlookup (hkey : ∀ x e, select x = some e → key e = x.1)
    {l : List (Sigma fun _ : κ => α)} (h : l.NodupKeys) (k : κ) :
    (l.filterMap select).find? (key · = k) = (l.dlookup k).bind fun a => select ⟨k, a⟩ := by
  induction l with
  | nil => rfl
  | cons x l ih =>
    obtain ⟨a, b⟩ := x
    obtain ⟨hnotMem, hl⟩ := List.nodupKeys_cons.1 h
    by_cases hk : a = k
    · subst hk
      rw [List.dlookup_cons_eq, Option.bind_some]
      cases hf : select ⟨a, b⟩ with
      | none =>
        rw [List.filterMap_cons_none hf, ih hl, List.dlookup_eq_none.2 hnotMem]
        rfl
      | some e =>
        rw [List.filterMap_cons_some hf, List.find?_cons_of_pos (by simpa using hkey _ e hf)]
    · rw [List.dlookup_cons_ne _ _ (Ne.symm hk), ← ih hl]
      cases hf : select ⟨a, b⟩ with
      | none => rw [List.filterMap_cons_none hf]
      | some e =>
        rw [List.filterMap_cons_some hf, List.find?_cons_of_neg]
        simpa [hkey _ e hf] using hk

omit [DecidableEq κ] in
/-- Of each key at most one selection is made. -/
theorem nodup_map_filterMap (hkey : ∀ x e, select x = some e → key e = x.1)
    {l : List (Sigma fun _ : κ => α)} (h : l.NodupKeys) : ((l.filterMap select).map key).Nodup := by
  have hsub : ((l.filterMap select).map key).Sublist l.keys := by
    clear h
    induction l with
    | nil => exact List.Sublist.slnil
    | cons x l ih =>
      cases hf : select x with
      | none =>
        rw [List.filterMap_cons_none hf, List.keys_cons]
        exact ih.cons _
      | some e =>
        rw [List.filterMap_cons_some hf, List.map_cons, hkey _ e hf, List.keys_cons]
        exact ih.cons_cons _
  exact List.Nodup.sublist hsub h

/-- The selection made from a table for a key. -/
theorem find?_filterMap_entries (hkey : ∀ x e, select x = some e → key e = x.1)
    (m : AList fun _ : κ => α) (k : κ) :
    (m.entries.filterMap select).find? (key · = k) =
      (m.lookup k).bind fun a => select ⟨k, a⟩ :=
  find?_filterMap_dlookup hkey m.nodupKeys k

end Selections

end Basis
end Sharun
