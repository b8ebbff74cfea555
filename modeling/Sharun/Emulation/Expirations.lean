/-
# What a tick finds due

The first loop of `tick` counts the periods a timer has missed, one addition at a time
and to at most `u32::MAX`.  In nanoseconds that is a closed form: the loop of `catchUp`
counts the instants of the schedule that have come (`catchUp_spec`), so a due timer
reports their number and is moved on by as many intervals (`expired_periodic`), as long
as the deadline it is moved to is still an `i64` of seconds.
-/

import Sharun.Emulation.Timers
import Sharun.Basis.Periods

namespace Sharun
namespace Emulation

open Machine Sharun.Basis

/-- `u32::MAX`, the largest count a tick reports. -/
abbrev maxCount : ℕ := 4294967295

/-- The count a tick comes to for a periodic timer. -/
def countAt (deadline interval now : Time) : ℕ :=
  min maxCount (instants deadline.ns interval.ns now.ns)

theorem ns_pos {t : Time} (h : t.Valid) (hne : t ≠ Time.zero) : 0 < t.ns := by
  obtain ⟨hs, hs', hn, hn'⟩ := h
  by_contra hle
  refine hne ?_
  obtain ⟨sec, nsec⟩ := t
  rw [Time.ns] at hle
  dsimp only at hs hn hle
  have hsec : sec = 0 := by omega
  have hnsec : nsec = 0 := by omega
  rw [hsec, hnsec]
  rfl

namespace Emulations

/-- **The loop that catches up** counts the instants that have come, as far as its fuel
goes, and moves the deadline past those it has counted. -/
theorem catchUp_spec {now interval : Time} (hn : now.Valid) (hi : interval.Valid)
    (hpos : 0 < interval.ns) (fuel : ℕ) (following : Time) (count : ℕ) (hf : following.Valid)
    (hlimit : following.ns +
      interval.ns * (min fuel (instants following.ns interval.ns now.ns) : ℕ) < Time.limit) :
    (catchUp now interval fuel following count).1.Valid ∧
      (catchUp now interval fuel following count).1.ns = following.ns +
        interval.ns * (min fuel (instants following.ns interval.ns now.ns) : ℕ) ∧
      (catchUp now interval fuel following count).2 =
        count + min fuel (instants following.ns interval.ns now.ns) := by
  induction fuel generalizing following count with
  | zero =>
    rw [Nat.zero_min, catchUp]
    exact ⟨hf, by simp, rfl⟩
  | succ fuel ih =>
    rw [catchUp]
    by_cases hlt : now.lt following = true
    · rw [if_pos hlt, instants_of_lt ((Time.lt_iff_ns hn hf).1 hlt), Nat.min_zero]
      exact ⟨hf, by simp, rfl⟩
    · have hle : following.ns ≤ now.ns := by
        by_contra hgt
        exact hlt ((Time.lt_iff_ns hn hf).2 (not_le.1 hgt))
      -- One more instant has come, and the rest is the count of the schedule after it.
      have hone : 1 ≤ instants following.ns interval.ns now.ns :=
        (lt_instants_iff hpos 0).2 (by simpa using hle)
      have hrest := instants_shift hpos hone
      rw [Nat.cast_one, mul_one] at hrest
      have hmin : min (fuel + 1) (instants following.ns interval.ns now.ns) =
          1 + min fuel (instants (following.ns + interval.ns) interval.ns now.ns) := by
        omega
      rw [hmin, Nat.cast_add, Nat.cast_one, mul_add, mul_one] at hlimit
      have hmul : 0 ≤ interval.ns *
          ((min fuel (instants (following.ns + interval.ns) interval.ns now.ns) : ℕ) : ℤ) :=
        Int.mul_nonneg hpos.le (by omega)
      obtain ⟨hvalid, hns⟩ := Time.add_spec hf hi (by omega)
      obtain ⟨hr, hrns, hrcount⟩ := ih (following.add interval) (count + 1) hvalid
        (by rw [hns]; omega)
      rw [if_neg hlt, hmin, Nat.cast_add, Nat.cast_one, mul_add, mul_one]
      refine ⟨hr, ?_, ?_⟩
      · rw [hrns, hns]
        omega
      · rw [hrcount, hns]
        omega

section

variable {env : Env} {fd : ℤ} {timer : Timer} {deadline now : Time}

/-- A timer whose deadline is still to come is not due. -/
theorem expired_early (hd : timer.deadline = some deadline)
    (hnow : env.tickClock fd timer.clockid = some now) (hdv : deadline.Valid) (hnv : now.Valid)
    (h : now.ns < deadline.ns) : expired env fd timer = none := by
  rw [expired, hd, hnow]
  exact if_pos ((Time.lt_iff_ns hnv hdv).2 h)

/-- A one-shot timer expires once. -/
theorem expired_once (hd : timer.deadline = some deadline)
    (hnow : env.tickClock fd timer.clockid = some now) (hdv : deadline.Valid) (hnv : now.Valid)
    (h : deadline.ns ≤ now.ns) (hzero : timer.interval = Time.zero) :
    expired env fd timer = some ⟨fd, 1, none⟩ := by
  have hlt : ¬ now.lt deadline = true := fun hlt =>
    absurd ((Time.lt_iff_ns hnv hdv).1 hlt) (not_lt.2 h)
  rw [expired, hd, hnow]
  dsimp only
  rw [if_neg hlt, if_neg (not_not.2 hzero)]

/-- **What a periodic timer reports**: the instants that have come, and the deadline is
moved past them. -/
theorem expired_periodic (hd : timer.deadline = some deadline)
    (hnow : env.tickClock fd timer.clockid = some now) (hdv : deadline.Valid) (hnv : now.Valid)
    (hi : timer.interval.Valid) (h : deadline.ns ≤ now.ns) (hne : timer.interval ≠ Time.zero)
    (hrange : deadline.ns + timer.interval.ns * countAt deadline timer.interval now <
      Time.limit) :
    ∃ next : Time,
      expired env fd timer = some ⟨fd, countAt deadline timer.interval now, some next⟩ ∧
      next.Valid ∧
      next.ns = deadline.ns + timer.interval.ns * countAt deadline timer.interval now := by
  have hpos := ns_pos hi hne
  have hlt : ¬ now.lt deadline = true := fun hlt =>
    absurd ((Time.lt_iff_ns hnv hdv).1 hlt) (not_lt.2 h)
  -- The first instant is the deadline itself, and the loop counts those after it.
  have hone : 1 ≤ instants deadline.ns timer.interval.ns now.ns :=
    (lt_instants_iff hpos 0).2 (by simpa using h)
  have hrest := instants_shift hpos hone
  rw [Nat.cast_one, mul_one] at hrest
  have hcount : countAt deadline timer.interval now =
      1 + min 4294967294 (instants (deadline.ns + timer.interval.ns) timer.interval.ns now.ns) := by
    rw [countAt, maxCount]
    omega
  rw [hcount, Nat.cast_add, Nat.cast_one, mul_add, mul_one] at hrange ⊢
  have hmul : 0 ≤ timer.interval.ns * ((min 4294967294
      (instants (deadline.ns + timer.interval.ns) timer.interval.ns now.ns) : ℕ) : ℤ) :=
    Int.mul_nonneg hpos.le (by omega)
  obtain ⟨hvalid, hns⟩ := Time.add_spec hdv hi (by omega)
  obtain ⟨hr, hrns, hrcount⟩ := catchUp_spec hnv hi hpos 4294967294
    (deadline.add timer.interval) 1 hvalid (by rw [hns]; omega)
  rw [hns] at hrns hrcount
  refine ⟨_, ?_, hr, by rw [hrns]; omega⟩
  rw [expired, hd, hnow]
  dsimp only
  rw [if_neg hlt, if_pos hne, hrcount]

/-- The deadline a due timer is moved to is valid, where it stays in range. -/
theorem expired_next_valid (hd : ∀ d, timer.deadline = some d → d.Valid)
    (hi : ∀ d, timer.deadline = some d → timer.interval.Valid)
    (hnv : ∀ now, env.tickClock fd timer.clockid = some now → now.Valid)
    (hrange : ∀ d now, timer.deadline = some d → env.tickClock fd timer.clockid = some now →
      timer.interval ≠ Time.zero → d.ns ≤ now.ns →
      d.ns + timer.interval.ns * countAt d timer.interval now < Time.limit)
    {due : Due} (hdue : expired env fd timer = some due) :
    ∀ t, due.next = some t → t.Valid := by
  have hexpired := hdue
  rw [expired] at hexpired
  split at hexpired
  · rename_i d now hdeadline hnow
    have hdv := hd d hdeadline
    by_cases hle : d.ns ≤ now.ns
    · by_cases hzero : timer.interval = Time.zero
      · rw [expired_once hdeadline hnow hdv (hnv now hnow) hle hzero] at hdue
        obtain rfl := Option.some.inj hdue
        exact fun t hnone => absurd hnone (by simp)
      · obtain ⟨next, heq, hvalid, -⟩ := expired_periodic hdeadline hnow hdv (hnv now hnow)
          (hi d hdeadline) hle hzero (hrange d now hdeadline hnow hzero hle)
        rw [heq] at hdue
        obtain rfl := Option.some.inj hdue
        intro t hnext
        obtain rfl := Option.some.inj hnext
        exact hvalid
    · rw [expired_early hdeadline hnow hdv (hnv now hnow) (not_le.1 hle)] at hdue
      exact absurd hdue (by simp)
  · exact absurd hexpired (by simp)

end

end Emulations
end Emulation
end Sharun
