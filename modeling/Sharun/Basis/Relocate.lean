/-
# Directories that are kept elsewhere

A table says of some locations where what belongs there is kept.  A location below several of
them belongs to the deepest (`deepest`), and goes with it (`forward`); `backward` finds the
name of a place.  A location that is itself below a place where something is kept stays where
it is, so that nothing is moved twice (`forward_forward`).

When no place lies below another one, every location that is moved is found again under its
own name (`backward_forward`); when the locations lie apart too, and apart from the places,
every place below one of them has a name that leads back to it (`forward_backward`).
-/

import Mathlib.Data.List.Infix
import Mathlib.Data.List.MinMax
import Mathlib.Data.List.Pairwise

namespace Sharun
namespace Basis

variable {N α : Type*} [DecidableEq N]

/-- The deepest of the locations a location lies below, the first of those of one depth. -/
def deepest (key : α → List N) (T : List α) (q : List N) : Option α :=
  (T.filter fun e => key e <+: q).argmax fun e => (key e).length

/-- What lies below one location, below another one. -/
def move (p p' q : List N) : List N := p' ++ q.drop p.length

/-- Where a location is kept. -/
def forward (T : List (List N × List N)) (q : List N) : List N :=
  if ∃ e ∈ T, e.2 <+: q then q
  else (deepest Prod.fst T q).elim q fun e => move e.1 e.2 q

/-- The name of a place. -/
def backward (T : List (List N × List N)) (q : List N) : List N :=
  (deepest Prod.snd T q).elim q fun e => move e.2 e.1 q

/-- None of the locations lies below another one. -/
def Apart (l : List (List N)) : Prop := l.Pairwise fun p q => ¬p <+: q ∧ ¬q <+: p

variable {key : α → List N} {T : List α} {e : α} {p p' q t : List N}

/-! ### The deepest location -/

theorem mem_of_deepest (h : deepest key T q = some e) : e ∈ T ∧ key e <+: q := by
  have hmem := List.mem_filter.1 (List.argmax_mem h)
  exact ⟨hmem.1, of_decide_eq_true hmem.2⟩

theorem deepest_eq_none_iff : deepest key T q = none ↔ ∀ e ∈ T, ¬key e <+: q := by
  unfold deepest
  rw [List.argmax_eq_none, List.filter_eq_nil_iff]
  simp only [decide_eq_true_eq]

/-- A location at the end of the table is taken when it is deeper than all before it. -/
theorem deepest_concat (key : α → List N) (T : List α) (e : α) (q : List N) :
    deepest key (T ++ [e]) q =
      if key e <+: q then
        match deepest key T q with
        | none => some e
        | some d => if (key d).length < (key e).length then some e else some d
      else deepest key T q := by
  unfold deepest
  by_cases h : key e <+: q
  · rw [if_pos h, List.filter_append, List.filter_singleton, decide_eq_true h, cond_true,
      List.argmax_concat]
    cases List.argmax (fun e => (key e).length) (T.filter fun e => key e <+: q) <;> rfl
  · rw [if_neg h, List.filter_append, List.filter_singleton, decide_eq_false h, cond_false,
      List.append_nil]

omit [DecidableEq N] in
/-- Of locations that lie apart, no two lead to the same one. -/
theorem eq_of_apart (h : Apart (T.map key)) {e e' : α} (he : e ∈ T) (he' : e' ∈ T)
    (hq : key e <+: q) (hq' : key e' <+: q) : e = e' := by
  induction T with
  | nil => exact absurd he List.not_mem_nil
  | cons d T ih =>
    obtain ⟨hd, hT⟩ := List.pairwise_cons.1 h
    -- the two are comparable, for both lead to `q`
    have hor := List.prefix_or_prefix_of_prefix hq hq'
    rcases List.mem_cons.1 he with hed | heT <;> rcases List.mem_cons.1 he' with hed' | heT'
    · rw [hed, hed']
    · rw [hed] at hor
      exact absurd hor (not_or.2 (hd _ (List.mem_map_of_mem heT')))
    · rw [hed'] at hor
      exact absurd hor.symm (not_or.2 (hd _ (List.mem_map_of_mem heT)))
    · exact ih hT heT heT'

theorem deepest_of_apart (h : Apart (T.map key)) (he : e ∈ T) (hq : key e <+: q) :
    deepest key T q = some e := by
  cases hdeepest : deepest key T q with
  | none => exact absurd hq (deepest_eq_none_iff.1 hdeepest e he)
  | some e' =>
    obtain ⟨he', hq'⟩ := mem_of_deepest hdeepest
    rw [eq_of_apart h he he' hq hq']

/-! ### Moving -/

section Moving

omit [DecidableEq N]

@[simp] theorem move_append (p p' t : List N) : move p p' (p ++ t) = p' ++ t := by
  unfold move
  rw [List.drop_left]

theorem prefix_move (p p' q : List N) : p' <+: move p p' q := List.prefix_append _ _

theorem move_move (p' : List N) (h : p <+: q) : move p' p (move p p' q) = q := by
  obtain ⟨t, rfl⟩ := h
  rw [move_append, move_append]

end Moving

variable {T : List (List N × List N)} {e : List N × List N}

theorem forward_of_kept (h : ∃ e ∈ T, e.2 <+: q) : forward T q = q := if_pos h

theorem forward_of_deepest (hkept : ¬∃ e ∈ T, e.2 <+: q) (h : deepest Prod.fst T q = some e) :
    forward T q = move e.1 e.2 q := by
  unfold forward
  rw [if_neg hkept, h]
  rfl

theorem forward_of_none (h : deepest Prod.fst T q = none) : forward T q = q := by
  unfold forward
  split_ifs
  · rfl
  · rw [h]
    rfl

theorem backward_of_deepest (h : deepest Prod.snd T q = some e) :
    backward T q = move e.2 e.1 q := by
  unfold backward
  rw [h]
  rfl

theorem backward_of_none (h : ¬∃ e ∈ T, e.2 <+: q) : backward T q = q := by
  have hnone : deepest Prod.snd T q = none :=
    deepest_eq_none_iff.2 fun e he hq => h ⟨e, he, hq⟩
  unfold backward
  rw [hnone]
  rfl

theorem forward_eq_or (T : List (List N × List N)) (q : List N) :
    forward T q = q ∨ ∃ e ∈ T, forward T q = move e.1 e.2 q := by
  by_cases hkept : ∃ e ∈ T, e.2 <+: q
  · exact .inl (forward_of_kept hkept)
  · cases hdeepest : deepest Prod.fst T q with
    | none => exact .inl (forward_of_none hdeepest)
    | some e => exact .inr ⟨e, (mem_of_deepest hdeepest).1, forward_of_deepest hkept hdeepest⟩

/-- What is moved is then below a place, so that it stays there. -/
theorem kept_of_forward (h : forward T q ≠ q) : ∃ e ∈ T, e.2 <+: forward T q := by
  by_cases hkept : ∃ e ∈ T, e.2 <+: q
  · exact absurd (forward_of_kept hkept) h
  · cases hdeepest : deepest Prod.fst T q with
    | none => exact absurd (forward_of_none hdeepest) h
    | some e =>
      rw [forward_of_deepest hkept hdeepest]
      exact ⟨e, (mem_of_deepest hdeepest).1, prefix_move _ _ _⟩

/-- **Nothing is moved twice.** -/
theorem forward_forward (T : List (List N × List N)) (q : List N) :
    forward T (forward T q) = forward T q := by
  by_cases h : forward T q = q
  · rw [h, h]
  · exact forward_of_kept (kept_of_forward h)

/-- **A location that is moved is found again under its name**, when the places lie apart. -/
theorem backward_forward (h : Apart (T.map Prod.snd)) (hkept : ¬∃ e ∈ T, e.2 <+: q) :
    backward T (forward T q) = q := by
  cases hdeepest : deepest Prod.fst T q with
  | none => rw [forward_of_none hdeepest, backward_of_none hkept]
  | some e =>
    obtain ⟨he, hq⟩ := mem_of_deepest hdeepest
    have hplace : deepest Prod.snd T (move e.1 e.2 q) = some e :=
      deepest_of_apart h he (prefix_move _ _ _)
    rw [forward_of_deepest hkept hdeepest, backward_of_deepest hplace]
    exact move_move _ hq

/-- **Every place that has a name is found by it**, when all locations and places lie apart. -/
theorem forward_backward (h : Apart (T.map Prod.fst ++ T.map Prod.snd))
    (hkept : ∃ e ∈ T, e.2 <+: q) : forward T (backward T q) = q := by
  obtain ⟨hfst, hsnd, hboth⟩ := List.pairwise_append.1 h
  obtain ⟨e, he, hq⟩ := hkept
  have hplace : deepest Prod.snd T q = some e := deepest_of_apart hsnd he hq
  have hname : backward T q = move e.2 e.1 q := backward_of_deepest hplace
  have hbelow : e.1 <+: move e.2 e.1 q := prefix_move _ _ _
  have hfree : ¬∃ d ∈ T, d.2 <+: move e.2 e.1 q := by
    rintro ⟨d, hd, hprefix⟩
    have hapart := hboth _ (List.mem_map_of_mem he) _ (List.mem_map_of_mem hd)
    exact not_or.2 hapart (List.prefix_or_prefix_of_prefix hbelow hprefix)
  rw [hname, forward_of_deepest hfree (deepest_of_apart hfst he hbelow)]
  exact move_move _ hq

end Basis
end Sharun
