/-
# Replacing every occurrence of a pattern

`replace pat rep s` replaces the occurrences of `pat` in `s`, the leftmost first and
none that overlaps one before it, as string libraries do.  It is defined through
`scan`, which reads the list as a sequence of occurrences and of elements outside
them.

A replacement of `pat` by a single element `a` is undone by the replacement of `a` by
`pat` exactly when `a` is not met outside the occurrences (`replace_back`), and this
is so too where only a part of the replaced list, cut at its end, is looked at:
what is cut off is missed (`replace_back_of_prefix`).
-/

import Mathlib.Data.List.Basic
import Mathlib.Data.List.DropRight
import Mathlib.Data.List.ReduceOption

namespace Sharun
namespace Basis

variable {α : Type*} [DecidableEq α]

/-- The scan of a list for a pattern, with some elements of an occurrence still to be
passed over. -/
def scanFrom (pat : List α) : ℕ → List α → List (Option α)
  | _, [] => []
  | k + 1, _ :: s => scanFrom pat k s
  | 0, a :: s =>
    if pat.isPrefixOf (a :: s) then none :: scanFrom pat (pat.length - 1) s
    else some a :: scanFrom pat 0 s

/-- A list as it is read in search of a pattern: `none` is an occurrence, `some a` an
element outside the occurrences. -/
def scan (pat s : List α) : List (Option α) := scanFrom pat 0 s

/-- What an occurrence or an element becomes when occurrences are replaced. -/
def fill (rep : List α) : Option α → List α
  | none => rep
  | some a => [a]

/-- Every occurrence of `pat` in `s` replaced by `rep`; an empty pattern occurs before
each element and at the end. -/
def replace (pat rep s : List α) : List α :=
  if pat = [] then rep ++ s.flatMap fun a => a :: rep else (scan pat s).flatMap (fill rep)

/-- The elements outside the occurrences of a pattern. -/
def outside (pat s : List α) : List α := (scan pat s).reduceOption

section Scan

variable {pat : List α}

theorem scanFrom_eq (pat : List α) (k : ℕ) (s : List α) :
    scanFrom pat k s = scan pat (s.drop k) := by
  induction s generalizing k with
  | nil => cases k <;> rfl
  | cons a s ih =>
    cases k with
    | zero => rfl
    | succ k => exact ih k

theorem scan_append (hpat : pat ≠ []) (s : List α) : scan pat (pat ++ s) = none :: scan pat s := by
  cases pat with
  | nil => exact absurd rfl hpat
  | cons a pat =>
    have hpre : (a :: pat).isPrefixOf (a :: (pat ++ s)) = true :=
      List.isPrefixOf_iff_prefix.2 ⟨s, rfl⟩
    change (if (a :: pat).isPrefixOf (a :: (pat ++ s)) then _ else _) = _
    rw [if_pos hpre, scanFrom_eq]
    exact congrArg (fun l => none :: scan (a :: pat) l) List.drop_left

theorem scan_cons {a : α} {s : List α} (h : ¬ pat <+: a :: s) :
    scan pat (a :: s) = some a :: scan pat s :=
  if_neg fun hpre => h (List.isPrefixOf_iff_prefix.1 hpre)

/-- **The induction rule for scanning**: a list is empty, begins with an occurrence, or
begins with an element at which none does. -/
theorem scan_induction (hpat : pat ≠ []) {motive : List α → Prop} (nil : motive [])
    (occurrence : ∀ s, motive s → motive (pat ++ s))
    (element : ∀ a s, ¬ pat <+: a :: s → motive s → motive (a :: s)) (s : List α) : motive s := by
  have hlen : ∀ n, ∀ s : List α, s.length ≤ n → motive s := by
    intro n
    induction n with
    | zero =>
      intro s hs
      obtain rfl := List.eq_nil_of_length_eq_zero (Nat.le_zero.1 hs)
      exact nil
    | succ n ih =>
      intro s hs
      cases s with
      | nil => exact nil
      | cons a s =>
        by_cases h : pat <+: a :: s
        · obtain ⟨t, ht⟩ := h
          have hpos := List.length_pos_of_ne_nil hpat
          have htotal : pat.length + t.length = (a :: s).length := by
            rw [← List.length_append, ht]
          rw [← ht]
          exact occurrence t (ih t (by omega))
        · rw [List.length_cons] at hs
          exact element a s h (ih s (by omega))
  exact hlen s.length s le_rfl

omit [DecidableEq α] in
/-- An element that is not in the pattern parts a list. -/
theorem prefix_of_prefix_append {a : α} (ha : a ∉ pat) {s t : List α}
    (h : pat <+: s ++ a :: t) : pat <+: s := by
  rcases Nat.lt_or_ge s.length pat.length with hlt | hle
  · have htake := List.prefix_iff_eq_take.1 h
    have hmem : a ∈ (s ++ a :: t).take pat.length := by
      rw [List.take_append]
      refine List.mem_append_right _ ?_
      obtain ⟨k, hk⟩ := Nat.exists_eq_add_of_lt hlt
      rw [hk, show s.length + k + 1 - s.length = k + 1 by omega, List.take_succ_cons]
      exact List.mem_cons_self ..
    rw [← htake] at hmem
    exact absurd hmem ha
  · exact List.prefix_of_prefix_length_le h (List.prefix_append s _) hle

/-- The parts on either side of an element that is not in the pattern are scanned on
their own. -/
theorem scan_append_cons (hpat : pat ≠ []) {a : α} (ha : a ∉ pat) (s t : List α) :
    scan pat (s ++ a :: t) = scan pat s ++ some a :: scan pat t := by
  induction s using scan_induction hpat with
  | nil =>
    refine scan_cons fun h => ?_
    exact hpat (List.prefix_nil.1 (prefix_of_prefix_append ha (s := []) h))
  | occurrence s ih =>
    rw [List.append_assoc, scan_append hpat, scan_append hpat, ih, List.cons_append]
  | element b s h ih =>
    have hpre : ¬ pat <+: b :: (s ++ a :: t) := fun hpre =>
      h (prefix_of_prefix_append ha (s := b :: s) hpre)
    rw [List.cons_append, scan_cons hpre, scan_cons h, ih, List.cons_append]

/-- A pattern of one element. -/
theorem scan_singleton (a : α) (s : List α) :
    scan [a] s = s.map fun b => if b = a then none else some b := by
  induction s with
  | nil => rfl
  | cons b s ih =>
    by_cases h : b = a
    · subst h
      rw [show b :: s = [b] ++ s from rfl, scan_append (by simp), ih]
      simp
    · rw [scan_cons (by simpa [List.cons_prefix_cons] using Ne.symm h), ih]
      simp [h]

end Scan

section Replace

variable {pat rep : List α}

theorem replace_eq (hpat : pat ≠ []) (rep s : List α) :
    replace pat rep s = (scan pat s).flatMap (fill rep) := if_neg hpat

theorem replace_singleton (a : α) (rep s : List α) :
    replace [a] rep s = s.flatMap fun b => if b = a then rep else [b] := by
  rw [replace_eq (by simp), scan_singleton, List.flatMap_map]
  congr 1
  funext b
  split_ifs <;> rfl

theorem replace_append (hpat : pat ≠ []) (rep s : List α) :
    replace pat rep (pat ++ s) = rep ++ replace pat rep s := by
  rw [replace_eq hpat, scan_append hpat, replace_eq hpat]
  rfl

theorem replace_append_cons (hpat : pat ≠ []) (rep : List α) {a : α} (ha : a ∉ pat)
    (s t : List α) :
    replace pat rep (s ++ a :: t) = replace pat rep s ++ a :: replace pat rep t := by
  rw [replace_eq hpat, scan_append_cons hpat ha, List.flatMap_append, replace_eq hpat,
    replace_eq hpat]
  rfl

/-- **Lines are replaced one by one.** -/
theorem replace_intercalate (hpat : pat ≠ []) (rep : List α) {a : α} (ha : a ∉ pat)
    (l : List (List α)) :
    replace pat rep ([a].intercalate l) = [a].intercalate (l.map (replace pat rep)) := by
  induction l with
  | nil => rw [replace_eq hpat]; rfl
  | cons s l ih =>
    cases l with
    | nil =>
      rw [List.map_singleton, List.intercalate_singleton, List.intercalate_singleton]
    | cons s' l =>
      rw [List.map_cons, List.map_cons, List.intercalate_cons_cons, List.intercalate_cons_cons,
        ← List.map_cons, ← ih, List.append_assoc, List.append_assoc, List.singleton_append,
        List.singleton_append, replace_append_cons hpat rep ha]

/-- Elements that do not occur are not replaced. -/
theorem replace_of_notMem {a : α} {s : List α} (h : a ∉ s) (rep : List α) :
    replace [a] rep s = s := by
  rw [replace_singleton]
  induction s with
  | nil => rfl
  | cons b s ih =>
    rw [List.mem_cons, not_or] at h
    rw [List.flatMap_cons, ih h.2, if_neg (Ne.symm h.1), List.singleton_append]

/-- What is in a replaced list was there before or is in the replacement. -/
theorem mem_of_mem_replace (hpat : pat ≠ []) {a : α} {s : List α} (h : a ∈ replace pat rep s) :
    a ∈ s ∨ a ∈ rep := by
  induction s using scan_induction hpat with
  | nil =>
    rw [replace_eq hpat] at h
    exact absurd h List.not_mem_nil
  | occurrence s ih =>
    rw [replace_append hpat, List.mem_append] at h
    rcases h with h | h
    · exact Or.inr h
    · exact (ih h).imp_left (List.mem_append_right pat)
  | element b s hpre ih =>
    rw [replace_eq hpat, scan_cons hpre, List.flatMap_cons, ← replace_eq hpat] at h
    rcases List.mem_append.1 h with h | h
    · exact Or.inl (List.mem_cons.2 (Or.inl (List.mem_singleton.1 h)))
    · exact (ih h).imp_left (List.mem_cons_of_mem b)

end Replace

/-! ### Replacing back -/

section Back

variable {pat : List α} {a : α}

/-- With one element in the place of each occurrence, the scan is the replaced list. -/
theorem replace_by_singleton (hpat : pat ≠ []) (a : α) (s : List α) :
    replace pat [a] s = (scan pat s).map (·.getD a) := by
  rw [replace_eq hpat, List.map_eq_flatMap]
  congr 1
  funext o
  cases o <;> rfl

/-- **Replacing back**, in a part of the replaced list that is cut off at its end: the
list comes back exactly if nothing was cut off and the element that stands for the
pattern was not met outside its occurrences. -/
theorem replace_back_of_prefix (hpat : pat ≠ []) (a : α) (s : List α) {l : List (Option α)}
    (hl : l <+: scan pat s) :
    replace [a] pat (l.map (·.getD a)) = s ↔ l = scan pat s ∧ a ∉ outside pat s := by
  unfold outside
  induction s using scan_induction hpat generalizing l with
  | nil =>
    obtain rfl : l = [] := List.prefix_nil.1 hl
    exact iff_of_true (by rw [replace_singleton]; rfl) ⟨rfl, List.not_mem_nil⟩
  | occurrence s ih =>
    rw [scan_append hpat] at hl ⊢
    cases l with
    | nil =>
      refine iff_of_false (fun h => hpat ?_) (fun h => List.cons_ne_nil _ _ h.1.symm)
      rw [replace_singleton] at h
      exact (List.append_eq_nil_iff.1 h.symm).1
    | cons o l =>
      obtain ⟨rfl, htail⟩ := List.cons_prefix_cons.1 hl
      have hrest := ih htail
      rw [replace_singleton] at hrest ⊢
      rw [List.map_cons, List.flatMap_cons, Option.getD_none, if_pos rfl, List.append_right_inj,
        hrest, List.reduceOption_cons_of_none, List.cons.injEq, and_iff_right rfl]
  | element b s hpre ih =>
    rw [scan_cons hpre] at hl ⊢
    cases l with
    | nil =>
      refine iff_of_false (fun h => ?_) (fun h => List.cons_ne_nil _ _ h.1.symm)
      rw [replace_singleton] at h
      exact List.cons_ne_nil _ _ h.symm
    | cons o l =>
      obtain ⟨rfl, htail⟩ := List.cons_prefix_cons.1 hl
      have hrest := ih htail
      rw [replace_singleton] at hrest ⊢
      rw [List.map_cons, List.flatMap_cons, Option.getD_some, List.reduceOption_cons_of_some,
        List.mem_cons, not_or]
      by_cases hb : b = a
      · -- The element would become the pattern, which does not occur here.
        refine iff_of_false (fun h => hpre ?_) (fun h => h.2.1 hb.symm)
        rw [if_pos hb] at h
        exact ⟨_, h⟩
      · rw [if_neg hb, List.singleton_append, List.cons.injEq, and_iff_right rfl, hrest,
          List.cons.injEq, and_iff_right rfl]
        exact ⟨fun h => ⟨h.1, Ne.symm hb, h.2⟩, fun h => ⟨h.1, h.2.2⟩⟩

theorem replace_back (hpat : pat ≠ []) (a : α) (s : List α) :
    replace [a] pat (replace pat [a] s) = s ↔ a ∉ outside pat s := by
  rw [replace_by_singleton hpat, replace_back_of_prefix hpat a s (List.prefix_refl _),
    and_iff_right rfl]

end Back

end Basis
end Sharun
