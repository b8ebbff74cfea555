/-
# Lists written with a separator

A list of non-empty words is written as one word with a separator between them, the empty
list as nothing (`elements` reads it back).  Whether a word is one of them can be seen on the
joined form by four comparisons (`mem_splitOn_iff`): it is all of it, its beginning up to a
separator, its end behind one, or between two of them.

A word is added by writing it before the others (`prepend`).  Adding words one after the
other, each only if it is not there, is folding `List.insert` (`foldl_insert`).
-/

import Mathlib.Data.List.Basic
import Mathlib.Data.List.Infix
import Mathlib.Data.List.Nodup

namespace Sharun
namespace Basis

variable {α : Type*} [DecidableEq α] {sep : α} {e s piece : List α}

omit [DecidableEq α] in
/-- No piece of a list that is split has an element it is split at. -/
theorem not_of_mem_splitOnP {p : α → Bool} (h : piece ∈ s.splitOnP p) :
    ∀ a ∈ piece, p a = false := by
  have hpieces : ∀ s acc : List α, (∀ a ∈ acc, p a = false) →
      ∀ piece ∈ List.splitOnPPrepend p s acc, ∀ a ∈ piece, p a = false := by
    intro s
    induction s with
    | nil =>
      intro acc hacc piece hpiece a ha
      rw [List.splitOnPPrepend_nil, List.mem_singleton] at hpiece
      rw [hpiece, List.mem_reverse] at ha
      exact hacc a ha
    | cons c s ih =>
      intro acc hacc piece hpiece
      rw [List.splitOnPPrepend_cons_eq_if] at hpiece
      split_ifs at hpiece with hc
      · rcases List.mem_cons.1 hpiece with rfl | hpiece
        · exact fun a ha => hacc a (List.mem_reverse.1 ha)
        · exact ih [] (by simp) piece hpiece
      · exact ih (c :: acc) (List.forall_mem_cons.2 ⟨by simpa using hc, hacc⟩) piece hpiece
  exact hpieces s [] (by simp) piece h

/-- No piece of a list that is split has the separator in it. -/
theorem notMem_of_mem_splitOn (h : piece ∈ s.splitOn sep) : sep ∉ piece := by
  rw [List.splitOn_eq_splitOnP] at h
  exact fun hmem => absurd (not_of_mem_splitOnP h sep hmem) (by simp)

omit [DecidableEq α] in
theorem intercalate_append {l₁ l₂ : List (List α)} (h₁ : l₁ ≠ []) (h₂ : l₂ ≠ []) :
    [sep].intercalate (l₁ ++ l₂) = [sep].intercalate l₁ ++ sep :: [sep].intercalate l₂ := by
  induction l₁ with
  | nil => exact absurd rfl h₁
  | cons word l₁ ih =>
    cases l₁ with
    | nil =>
      rw [List.singleton_append, List.intercalate_cons_of_ne_nil h₂, List.intercalate_singleton,
        List.append_assoc, List.singleton_append]
    | cons word' l₁ =>
      rw [List.cons_append, List.cons_append, List.intercalate_cons_cons,
        List.intercalate_cons_cons, ← List.cons_append, ih (List.cons_ne_nil _ _)]
      simp only [List.append_assoc]

/-- **A word is one of the pieces** when it is the whole list, its beginning, its end, or
somewhere inside, with separators around it. -/
theorem mem_splitOn_iff (he : sep ∉ e) : e ∈ s.splitOn sep ↔
    s = e ∨ e ++ [sep] <+: s ∨ sep :: e <:+ s ∨ sep :: e ++ [sep] <:+: s := by
  constructor
  · intro h
    obtain ⟨before, after, hsplit⟩ := List.append_of_mem h
    have hs : [sep].intercalate (s.splitOn sep) = s := List.intercalate_splitOn sep
    rw [hsplit] at hs
    by_cases hbefore : before = []
    · subst hbefore
      by_cases hafter : after = []
      · subst hafter
        rw [List.nil_append, List.intercalate_singleton] at hs
        exact .inl hs.symm
      · rw [List.nil_append, List.intercalate_cons_of_ne_nil hafter] at hs
        exact .inr (.inl ⟨_, hs⟩)
    · rw [intercalate_append hbefore (List.cons_ne_nil _ _)] at hs
      by_cases hafter : after = []
      · subst hafter
        rw [List.intercalate_singleton] at hs
        exact .inr (.inr (.inl ⟨_, hs⟩))
      · rw [List.intercalate_cons_of_ne_nil hafter] at hs
        exact .inr (.inr (.inr ⟨[sep].intercalate before, [sep].intercalate after, by
          rw [← hs]; simp⟩))
  · have hword : e.splitOn sep = [e] := List.splitOn_eq_singleton he
    rintro (rfl | ⟨rest, rfl⟩ | ⟨rest, rfl⟩ | ⟨before, after, rfl⟩)
    · rw [hword]
      exact List.mem_singleton_self s
    · rw [List.append_assoc, List.singleton_append, List.splitOn_append_cons_self, hword]
      exact List.mem_cons_self
    · rw [List.splitOn_append_cons_self, hword]
      exact List.mem_append_right _ (List.mem_singleton_self e)
    · rw [List.append_assoc, List.append_assoc, List.cons_append, List.splitOn_append_cons_self,
        List.singleton_append, List.splitOn_append_cons_self, hword]
      exact List.mem_append_right _ List.mem_cons_self

/-! ### The elements of a list that is written down -/

/-- The elements of a list in its written form. -/
def elements (sep : α) (s : List α) : List (List α) := if s = [] then [] else s.splitOn sep

/-- A word without a separator is one element at most. -/
theorem length_elements_le (hs : sep ∉ s) : (elements sep s).length ≤ 1 := by
  unfold elements
  split_ifs
  · exact Nat.zero_le 1
  · rw [List.splitOn_eq_singleton hs]
    exact le_rfl

/-- A list that is written down is read back, if no element is empty or has the separator in
it. -/
theorem elements_intercalate {l : List (List α)} (hl : ∀ e ∈ l, e ≠ [] ∧ sep ∉ e) :
    elements sep ([sep].intercalate l) = l := by
  by_cases hnil : l = []
  · rw [hnil]
    rfl
  · have hne : [sep].intercalate l ≠ [] := by
      obtain ⟨e, rest, rfl⟩ := List.exists_cons_of_ne_nil hnil
      have he := (hl e List.mem_cons_self).1
      cases rest with
      | nil => rwa [List.intercalate_singleton]
      | cons e' rest =>
        rw [List.intercalate_cons_cons]
        simp
    rw [elements, if_neg hne, List.splitOn_intercalate sep (fun e he => (hl e he).2) hnil]

/-- A piece stands in the written form as it is. -/
theorem infix_of_mem_splitOn (h : e ∈ s.splitOn sep) : e <:+: s := by
  rcases (mem_splitOn_iff (notMem_of_mem_splitOn h)).1 h with
    rfl | ⟨rest, rfl⟩ | ⟨rest, rfl⟩ | ⟨before, after, rfl⟩
  · exact List.infix_refl s
  · exact ⟨[], [sep] ++ rest, by simp⟩
  · exact ⟨rest ++ [sep], [], by simp⟩
  · exact ⟨before ++ [sep], [sep] ++ after, by simp⟩

/-- An element stands in the written form as it is. -/
theorem infix_of_mem_elements (h : e ∈ elements sep s) : e <:+: s := by
  unfold elements at h
  split_ifs at h with hs
  · exact absurd h List.not_mem_nil
  · exact infix_of_mem_splitOn h

/-- A word written before a list. -/
def prepend (sep : α) (e s : List α) : List α := if s = [] then e else e ++ sep :: s

@[simp] theorem elements_nil : elements sep ([] : List α) = [] := if_pos rfl

theorem elements_of_ne_nil (hs : s ≠ []) : elements sep s = s.splitOn sep := if_neg hs

omit [DecidableEq α] in
theorem prepend_ne_nil (he : e ≠ []) : prepend sep e s ≠ [] := by
  unfold prepend
  split_ifs
  · exact he
  · exact List.append_ne_nil_of_right_ne_nil _ (List.cons_ne_nil _ _)

/-- **A word written before a list is its first element**, and the others stay. -/
theorem elements_prepend (hne : e ≠ []) (he : sep ∉ e) :
    elements sep (prepend sep e s) = e :: elements sep s := by
  rw [elements_of_ne_nil (prepend_ne_nil hne)]
  unfold prepend
  split_ifs with hs
  · rw [hs, elements_nil, List.splitOn_eq_singleton he]
  · rw [List.splitOn_append_cons_self_of_not_mem he, elements_of_ne_nil hs]

/-! ### Adding what is not there -/

theorem mem_foldl_insert {β : Type*} [BEq β] [LawfulBEq β] {l es : List β} {a : β} :
    a ∈ es.foldl (fun l e => l.insert e) l ↔ a ∈ l ∨ a ∈ es := by
  induction es generalizing l with
  | nil => simp
  | cons e es ih =>
    rw [List.foldl_cons, ih, List.mem_insert_iff, List.mem_cons, or_assoc, or_left_comm]

/-- **Words that are added one after the other** stand before the list there was, each once,
and only those that were not in it. -/
theorem foldl_insert {β : Type*} [BEq β] [LawfulBEq β] (l es : List β) :
    ∃ added, es.foldl (fun l e => l.insert e) l = added ++ l ∧ added.Nodup ∧
      ∀ a ∈ added, a ∈ es ∧ a ∉ l := by
  induction es generalizing l with
  | nil => exact ⟨[], rfl, List.nodup_nil, by simp⟩
  | cons e es ih =>
    obtain ⟨added, hfold, hnodup, hnew⟩ := ih (l.insert e)
    rw [List.foldl_cons, hfold]
    by_cases he : e ∈ l
    · rw [List.insert_of_mem he] at hnew ⊢
      exact ⟨added, rfl, hnodup, fun a ha => ⟨List.mem_cons_of_mem _ (hnew a ha).1, (hnew a ha).2⟩⟩
    · rw [List.insert_of_not_mem he] at hnew ⊢
      refine ⟨added ++ [e], by simp, ?_, fun a ha => ?_⟩
      · rw [List.nodup_append_comm, List.singleton_append, List.nodup_cons]
        exact ⟨fun hmem => (hnew e hmem).2 List.mem_cons_self, hnodup⟩
      · rcases List.mem_append.1 ha with ha | ha
        · exact ⟨List.mem_cons_of_mem _ (hnew a ha).1,
            fun hmem => (hnew a ha).2 (List.mem_cons_of_mem _ hmem)⟩
        · rw [List.mem_singleton.1 ha]
          exact ⟨List.mem_cons_self, he⟩

end Basis
end Sharun
