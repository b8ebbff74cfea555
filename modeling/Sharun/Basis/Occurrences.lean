/-
# First and last occurrences

The elements of a list without repetitions, in the order in which they first occur
(`firstOccurrences`) or in which they last occur (`List.dedup`).  The two are one list when of
two elements the one that occurs first also comes to its last occurrence first
(`firstOccurrences_eq_dedup_iff`).  Inserting the elements from the last one on leaves the
second of them (`foldl_insert_reverse`).
-/

import Mathlib.Data.List.Dedup

namespace Sharun
namespace Basis

variable {α : Type*} [DecidableEq α] {l : List α} {a b : α}

/-- The elements in the order of their first occurrences. -/
def firstOccurrences : List α → List α
  | [] => []
  | a :: l => a :: (firstOccurrences l).filter (· ≠ a)

/-- Of two elements the one that occurs first also comes to its last occurrence first. -/
def SameOrder (l : List α) : Prop :=
  ∀ a ∈ l, ∀ b ∈ l, l.idxOf a < l.idxOf b → l.reverse.idxOf b < l.reverse.idxOf a

instance : DecidablePred (SameOrder (α := α)) := fun l => by unfold SameOrder; infer_instance

theorem mem_firstOccurrences : a ∈ firstOccurrences l ↔ a ∈ l := by
  induction l with
  | nil => rfl
  | cons b l ih =>
    rw [firstOccurrences, List.mem_cons, List.mem_cons, List.mem_filter, ih]
    by_cases hab : a = b <;> simp [hab]

theorem firstOccurrences_concat (l : List α) (a : α) : firstOccurrences (l ++ [a]) =
    if a ∈ l then firstOccurrences l else firstOccurrences l ++ [a] := by
  induction l with
  | nil => rfl
  | cons b l ih =>
    rw [List.cons_append, firstOccurrences, firstOccurrences, ih]
    by_cases hl : a ∈ l
    · rw [if_pos hl, if_pos (List.mem_cons_of_mem b hl)]
    · rw [if_neg hl, List.filter_append, List.filter_singleton]
      by_cases hab : a = b <;> simp [hab, hl]

/-- The other order, read backwards. -/
theorem dedup_eq (l : List α) : l.dedup = (firstOccurrences l.reverse).reverse := by
  induction l with
  | nil => rfl
  | cons a l ih =>
    rw [List.reverse_cons, firstOccurrences_concat, List.dedup_cons, ih]
    simp only [List.mem_reverse]
    split_ifs
    · rfl
    · rw [List.reverse_append]
      rfl

theorem pairwise_firstOccurrences (l : List α) :
    (firstOccurrences l).Pairwise fun a b => l.idxOf a < l.idxOf b := by
  induction l with
  | nil => exact List.Pairwise.nil
  | cons a l ih =>
    have hne : ∀ b ∈ (firstOccurrences l).filter (· ≠ a), (a :: l).idxOf b = l.idxOf b + 1 := by
      intro b hb
      have hb' : b ≠ a := by simpa using (List.mem_filter.1 hb).2
      exact List.idxOf_cons_ne l hb'.symm
    refine List.pairwise_cons.2 ⟨fun b hb => ?_, ?_⟩
    · rw [List.idxOf_cons_self, hne b hb]
      exact Nat.succ_pos _
    · refine (ih.filter _).imp_of_mem fun hb hc hlt => ?_
      rw [hne _ hb, hne _ hc]
      exact Nat.succ_lt_succ hlt

theorem nodup_firstOccurrences (l : List α) : (firstOccurrences l).Nodup :=
  (pairwise_firstOccurrences l).imp fun hlt => by
    rintro rfl
    exact Nat.lt_irrefl _ hlt

theorem pairwise_dedup (l : List α) :
    l.dedup.Pairwise fun a b => l.reverse.idxOf b < l.reverse.idxOf a := by
  rw [dedup_eq, List.pairwise_reverse]
  exact pairwise_firstOccurrences l.reverse

/-- **When the first and the last occurrences are in one order.** -/
theorem firstOccurrences_eq_dedup_iff : firstOccurrences l = l.dedup ↔ SameOrder l := by
  have hfirst := pairwise_firstOccurrences l
  have hlast := pairwise_dedup l
  constructor
  · intro heq a ha b hb hlt
    rw [← List.mem_dedup] at ha hb
    rw [heq] at hfirst
    obtain ⟨i, hi, rfl⟩ := List.getElem_of_mem ha
    obtain ⟨j, hj, rfl⟩ := List.getElem_of_mem hb
    -- the two stand in the order of their first occurrences
    rcases Nat.lt_trichotomy i j with hij | rfl | hij
    · exact List.pairwise_iff_getElem.1 hlast i j hi hj hij
    · exact absurd hlt (Nat.lt_irrefl _)
    · exact absurd (List.pairwise_iff_getElem.1 hfirst j i hj hi hij) (Nat.lt_asymm hlt)
  · intro hsame
    have hperm : (firstOccurrences l).Perm l.dedup :=
      (List.perm_ext_iff_of_nodup (nodup_firstOccurrences l) l.nodup_dedup).2 fun a => by
        rw [mem_firstOccurrences, List.mem_dedup]
    refine hperm.eq_of_pairwise (fun a b _ _ hab hba => absurd hba (Nat.lt_asymm hab)) hfirst ?_
    refine hlast.imp_of_mem fun {a b} ha hb hlt => ?_
    rw [List.mem_dedup] at ha hb
    rcases Nat.lt_trichotomy (l.idxOf a) (l.idxOf b) with hab | hab | hab
    · exact hab
    · rw [(List.idxOf_inj ha).1 hab] at hlt
      exact absurd hlt (Nat.lt_irrefl _)
    · exact absurd (hsame b hb a ha hab) (Nat.lt_asymm hlt)

/-- **Inserting from the last element on** leaves each at its last occurrence. -/
theorem foldl_insert_reverse {β : Type*} [DecidableEq β] [BEq β] [LawfulBEq β] (l : List β) :
    l.reverse.foldl (fun l a => l.insert a) [] = l.dedup := by
  rw [List.foldl_reverse]
  induction l with
  | nil => rfl
  | cons a l ih =>
    rw [List.foldr_cons, ih, List.dedup_cons]
    split_ifs with ha
    · exact List.insert_of_mem (List.mem_dedup.2 ha)
    · exact List.insert_of_not_mem fun h => ha (List.mem_dedup.1 h)

end Basis
end Sharun
