/-
# Maximal runs

The maximal runs of elements with a property in a list (`runs`): what is between the elements
without it.  An element without the property ends a run, so that a list can be taken apart
there (`runs_append_cons`), and a list begins with a run as long as its elements have the
property (`mem_runs_iff`).
-/

import Mathlib.Data.List.TakeWhile
import Sharun.Basis.Separated

namespace Sharun
namespace Basis

variable {α : Type*} {p : α → Bool} {l r : List α}

/-- The maximal runs of elements with a property. -/
def runs (p : α → Bool) (l : List α) : List (List α) :=
  (l.splitOnP fun a => !p a).filter fun r => !r.isEmpty

@[simp] theorem runs_nil (p : α → Bool) : runs p [] = [] := rfl

theorem runs_append_cons (l₁ l₂ : List α) {a : α} (ha : p a = false) :
    runs p (l₁ ++ a :: l₂) = runs p l₁ ++ runs p l₂ := by
  unfold runs
  rw [List.splitOnP_append_cons l₁ l₂ (by rw [ha]; rfl), List.filter_append]

/-- No run goes on behind a list whose last element is none of a run. -/
theorem runs_append {l₁ : List α} (h : ∀ a ∈ l₁.getLast?, p a = false) (l₂ : List α) :
    runs p (l₁ ++ l₂) = runs p l₁ ++ runs p l₂ := by
  rcases List.eq_nil_or_concat l₁ with rfl | ⟨l₁, a, rfl⟩
  · rfl
  · have ha : p a = false := h a (by simp)
    rw [List.concat_eq_append, List.append_assoc, List.singleton_append, runs_append_cons _ _ ha,
      runs_append_cons l₁ [] ha, runs_nil, List.append_nil]

theorem runs_of_forall (h : ∀ a ∈ l, p a = true) (hne : l ≠ []) : runs p l = [l] := by
  unfold runs
  rw [List.splitOnP_eq_singleton fun a ha => by rw [h a ha]; rfl]
  exact List.filter_cons_of_pos (by simpa using hne)

/-- A list is taken apart where its first run ends. -/
theorem runs_eq (p : α → Bool) (l₁ l : List α) :
    runs p (l₁ ++ l) = runs p (l₁ ++ l.takeWhile p) ++ runs p (l.dropWhile p) := by
  have hsplit := List.takeWhile_append_dropWhile (p := p) (l := l)
  cases hdrop : l.dropWhile p with
  | nil =>
    rw [hdrop, List.append_nil] at hsplit
    rw [hsplit, runs_nil, List.append_nil]
  | cons a rest =>
    have ha := List.head?_dropWhile_not p l
    rw [hdrop] at ha hsplit
    rw [← hsplit, ← List.append_assoc, runs_append_cons _ _ ha, hsplit]
    exact congrArg (_ ++ ·) (runs_append_cons [] rest ha).symm

/-- What is before the first run does not matter. -/
theorem runs_dropWhile_not (p : α → Bool) (l : List α) :
    runs p (l.dropWhile (!p ·)) = runs p l := by
  induction l with
  | nil => rfl
  | cons a l ih =>
    cases ha : p a with
    | true => rw [List.dropWhile_cons_of_neg (by simp [ha])]
    | false =>
      rw [List.dropWhile_cons_of_pos (by simp [ha]), ih]
      exact (runs_append_cons [] l ha).symm

/-- A list that begins with a run. -/
theorem runs_cons {a : α} (ha : p a = true) (l : List α) :
    runs p (a :: l) = (a :: l).takeWhile p :: runs p ((a :: l).dropWhile p) := by
  have h := runs_eq p [] (a :: l)
  rw [List.nil_append, List.nil_append] at h
  rw [h, runs_of_forall (fun b hb => List.mem_takeWhile_imp hb), List.singleton_append]
  rw [List.takeWhile_cons_of_pos ha]
  exact List.cons_ne_nil _ _

theorem mem_runs_takeWhile : r ∈ runs p (l.takeWhile p) ↔ r = l.takeWhile p ∧ r ≠ [] := by
  by_cases hne : l.takeWhile p = []
  · rw [hne, runs_nil]
    simp
  · rw [runs_of_forall (fun a ha => List.mem_takeWhile_imp ha) hne, List.mem_singleton]
    exact ⟨fun h => ⟨h, h ▸ hne⟩, And.left⟩

/-- The runs of a list are its beginning, as far as it goes, and those behind it. -/
theorem mem_runs_iff : r ∈ runs p l ↔
    r = l.takeWhile p ∧ r ≠ [] ∨ r ∈ runs p (l.dropWhile p) := by
  have h := runs_eq p [] l
  rw [List.nil_append, List.nil_append] at h
  rw [h, List.mem_append, mem_runs_takeWhile]

theorem forall_of_mem_runs (h : r ∈ runs p l) : ∀ a ∈ r, p a = true := by
  intro a ha
  simpa using not_of_mem_splitOnP (List.mem_filter.1 h).1 a ha

end Basis
end Sharun
