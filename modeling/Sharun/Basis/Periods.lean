/-
# Instants that recur with a period

The instants `d`, `d + p`, `d + 2 * p`, … of a schedule, as integers, and how many of
them have come by some moment (`instants`).  The count can be taken in portions: once
`n` of them have been counted the rest is the count of the schedule that starts at
`d + p * n` (`instants_shift`), which is what an accumulator that moves its start along
relies on.
-/

import Mathlib.Data.Set.Card
import Mathlib.Order.Interval.Finset.Nat
import Mathlib.Algebra.Order.Group.Int

namespace Sharun
namespace Basis

/-- The number of instants `d + p * k`, `k ≥ 0`, not later than `now`. -/
def instants (d p now : ℤ) : ℕ := if now < d then 0 else ((now - d) / p).toNat + 1

section

variable {d p now : ℤ}

theorem instants_of_lt (h : now < d) : instants d p now = 0 := if_pos h

/-- From the first instant on it is the number of whole periods and one. -/
theorem instants_of_le (hp : 0 < p) (h : d ≤ now) :
    (instants d p now : ℤ) = (now - d) / p + 1 := by
  have hq : 0 ≤ (now - d) / p := Int.ediv_nonneg (by omega) hp.le
  rw [instants, if_neg (not_lt.2 h)]
  omega

/-- The instants that have come are the first ones. -/
theorem lt_instants_iff (hp : 0 < p) (k : ℕ) : k < instants d p now ↔ d + p * k ≤ now := by
  have hk : 0 ≤ p * (k : ℤ) := Int.mul_nonneg hp.le (by omega)
  by_cases h : now < d
  · rw [instants_of_lt h]
    omega
  · have hn := instants_of_le hp (not_lt.1 h)
    have hdiv : (k : ℤ) ≤ (now - d) / p ↔ (k : ℤ) * p ≤ now - d := Int.le_ediv_iff_mul_le hp
    rw [mul_comm] at hdiv
    constructor
    · intro hlt
      have := hdiv.1 (by omega)
      omega
    · intro hle
      have := hdiv.2 (by omega)
      omega

/-- It counts what it says. -/
theorem instants_eq_ncard (hp : 0 < p) :
    instants d p now = {k : ℕ | d + p * k ≤ now}.ncard := by
  have hset : {k : ℕ | d + p * k ≤ now} = Set.Iio (instants d p now) := by
    ext k
    exact (lt_instants_iff hp k).symm
  rw [hset, ← Finset.coe_Iio, Set.ncard_coe_finset, Nat.card_Iio]

/-- The next instant is still to come. -/
theorem lt_next (hp : 0 < p) : now < d + p * instants d p now := by
  by_contra h
  exact absurd ((lt_instants_iff hp _).2 (not_lt.1 h)) (lt_irrefl _)

/-- **Counting in portions.** -/
theorem instants_shift (hp : 0 < p) {n : ℕ} (h : n ≤ instants d p now) :
    instants d p now = n + instants (d + p * n) p now := by
  have hiff : ∀ k : ℕ, n + k < instants d p now ↔ k < instants (d + p * n) p now := by
    intro k
    rw [lt_instants_iff hp, lt_instants_iff hp, Nat.cast_add, mul_add, add_assoc]
  obtain ⟨m, hm⟩ := Nat.exists_eq_add_of_le h
  have hle : instants (d + p * n) p now ≤ m := by
    by_contra hlt
    have := (hiff m).2 (not_le.1 hlt)
    omega
  have hge : m ≤ instants (d + p * n) p now := by
    by_contra hlt
    have := (hiff (instants (d + p * n) p now)).1 (by omega)
    omega
  omega

/-- What has come has come later too. -/
theorem instants_mono (hp : 0 < p) {now' : ℤ} (h : now ≤ now') :
    instants d p now ≤ instants d p now' := by
  by_contra hlt
  have hnow := (lt_instants_iff hp _).1 (not_le.1 hlt)
  exact absurd ((lt_instants_iff hp _).2 (hnow.trans h)) (lt_irrefl _)

end

end Basis
end Sharun
