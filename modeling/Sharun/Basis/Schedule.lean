/-
# The schedule of a timer, and a counter that is read

A setting of a timer fixes when it expires: never, once, or first at some instant and
with a period from then on (`Schedule`).  Counting its expirations can be interrupted:
once `n` of them have been counted, what is left is a schedule again (`after`), and the
two counts add up (`passed_after`).

A `Counter` is what a program sees of such a timer: the number of expirations that have
come since it last looked, or since the timer was set.
-/

import Sharun.Basis.Periods

namespace Sharun
namespace Basis

/-- When a timer expires: at `first`, and every `period` after it unless that is zero. -/
structure Schedule where
  first : Option ℤ
  period : ℕ
  deriving DecidableEq

namespace Schedule

/-- The schedule of a timer that is not set. -/
def never : Schedule := ⟨none, 0⟩

/-- The expiration after `k` others has come. -/
def Came (s : Schedule) (now : ℤ) (k : ℕ) : Prop :=
  ∃ d, s.first = some d ∧ d + s.period * k ≤ now ∧ (s.period = 0 → k = 0)

/-- The number of expirations that have come. -/
def passed (s : Schedule) (now : ℤ) : ℕ :=
  match s.first with
  | none => 0
  | some d =>
    if s.period = 0 then (if d ≤ now then 1 else 0) else instants d s.period now

/-- What is left of a schedule once `n` of its expirations have been counted. -/
def after (s : Schedule) (n : ℕ) : Schedule :=
  match s.first with
  | none => s
  | some d =>
    if s.period = 0 then (if n = 0 then s else ⟨none, 0⟩) else ⟨some (d + s.period * n), s.period⟩

variable {s : Schedule} {now : ℤ}

theorem lt_passed_iff {k : ℕ} : k < s.passed now ↔ s.Came now k := by
  rw [passed, Came]
  cases s.first with
  | none => simp
  | some d =>
    dsimp only
    by_cases hp : s.period = 0
    · rw [if_pos hp, hp]
      by_cases hd : d ≤ now
      · rw [if_pos hd]
        constructor
        · intro hk
          exact ⟨d, rfl, by simpa using hd, fun _ => by omega⟩
        · rintro ⟨_, _, _, hk⟩
          have := hk rfl
          omega
      · rw [if_neg hd]
        constructor
        · intro hk
          omega
        · rintro ⟨_, heq, hle, -⟩
          obtain rfl := Option.some.inj heq
          rw [Nat.cast_zero, zero_mul, add_zero] at hle
          exact absurd hle hd
    · have hpos : (0 : ℤ) < s.period := by omega
      rw [if_neg hp, lt_instants_iff hpos]
      constructor
      · intro hle
        exact ⟨d, rfl, hle, fun h => absurd h hp⟩
      · rintro ⟨_, heq, hle, -⟩
        obtain rfl := Option.some.inj heq
        exact hle

/-- What has come has come later too. -/
theorem passed_mono {now' : ℤ} (h : now ≤ now') : s.passed now ≤ s.passed now' := by
  by_contra hlt
  obtain ⟨d, hd, hle, hk⟩ := lt_passed_iff.1 (not_le.1 hlt)
  exact absurd (lt_passed_iff.2 ⟨d, hd, hle.trans h, hk⟩) (lt_irrefl _)

/-- Before the first expiration none has come. -/
theorem passed_early (h : ∀ d, s.first = some d → now < d) : s.passed now = 0 := by
  rw [passed]
  cases hd : s.first with
  | none => rfl
  | some d =>
    have hlt := h d hd
    dsimp only
    rw [if_neg (not_le.2 hlt), instants_of_lt hlt, ite_self]

theorem after_zero : s.after 0 = s := by
  obtain ⟨first, period⟩ := s
  rw [after]
  cases first with
  | none => rfl
  | some d =>
    dsimp only
    rw [if_pos rfl, Nat.cast_zero, mul_zero, add_zero, ite_self]

theorem after_after (n m : ℕ) : (s.after n).after m = s.after (n + m) := by
  obtain ⟨first, period⟩ := s
  cases first with
  | none => rfl
  | some d =>
    by_cases hp : period = 0
    · subst hp
      rcases Nat.eq_zero_or_pos n with rfl | hn
      · rw [after_zero, Nat.zero_add]
      · have hnm : n + m ≠ 0 := by omega
        simp only [after, if_true, if_neg (Nat.pos_iff_ne_zero.1 hn), if_neg hnm]
    · simp only [after, if_neg hp, Nat.cast_add, mul_add, add_assoc]

/-- **Counting can be interrupted.** -/
theorem passed_after {n : ℕ} (h : n ≤ s.passed now) :
    s.passed now = n + (s.after n).passed now := by
  obtain ⟨first, period⟩ := s
  cases first with
  | none =>
    obtain rfl : n = 0 := Nat.le_zero.1 h
    rfl
  | some d =>
    by_cases hp : period = 0
    · subst hp
      rcases Nat.eq_zero_or_pos n with rfl | hn
      · rw [after_zero, Nat.zero_add]
      · have hle : (⟨some d, 0⟩ : Schedule).passed now ≤ 1 := by
          simp only [passed, if_true]
          split <;> omega
        have hnone : (⟨some d, 0⟩ : Schedule).after n = never := by
          simp only [after, if_true, if_neg (Nat.pos_iff_ne_zero.1 hn)]
          rfl
        rw [hnone, passed_early (s := never) fun _ hd => absurd hd (by simp [never])]
        omega
    · have hpos : (0 : ℤ) < period := by omega
      simp only [passed, after, if_neg hp] at h ⊢
      exact instants_shift hpos h

end Schedule

/-- A counter of the expirations of a schedule, of which `taken` have been read. -/
structure Counter where
  schedule : Schedule
  taken : ℕ
  deriving DecidableEq

namespace Counter

/-- The counter of a timer that has just been set. -/
def set (schedule : Schedule) : Counter := ⟨schedule, 0⟩

/-- The expirations that have come since the last read or the setting. -/
def unread (c : Counter) (now : ℤ) : ℕ := c.schedule.passed now - c.taken

/-- The counter once it has been read. -/
def read (c : Counter) (now : ℤ) : Counter := ⟨c.schedule, c.schedule.passed now⟩

end Counter

end Basis
end Sharun
