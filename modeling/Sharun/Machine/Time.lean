/-
# Points in time and durations, as the tracer computes with them

`type Time = (i64, i64)`, `add` and `sub` of `src/emulated_syscalls.rs`: seconds
and nanoseconds, compared as tuples.  The sums are `i64` sums, which the release
build wraps, and neither function checks that the nanoseconds it is given are
below a second.

What they compute is stated in nanoseconds (`Time.ns`).  For times in the range
of a valid `timespec` (`Time.Valid`) `sub` is the truncated difference, and `add`
is the sum as long as that sum is in range too.
-/

import Sharun.Machine.Tracee

namespace Sharun
namespace Machine

/-- `type Time = (i64, i64)`: seconds and nanoseconds. -/
structure Time where
  sec : ℤ
  nsec : ℤ
  deriving DecidableEq, Repr

namespace Time

/-- `(0, 0)`. -/
def zero : Time := ⟨0, 0⟩

/-- `a < b` on tuples: seconds first. -/
def lt (a b : Time) : Bool := a.sec < b.sec || (a.sec == b.sec && a.nsec < b.nsec)

/-- `add(a, b)`. -/
def add (a b : Time) : Time :=
  let seconds := wrapI64 (a.sec + b.sec)
  let nanoseconds := wrapI64 (a.nsec + b.nsec)
  if 1000000000 ≤ nanoseconds then ⟨wrapI64 (seconds + 1), wrapI64 (nanoseconds - 1000000000)⟩
  else ⟨seconds, nanoseconds⟩

/-- `sub(a, b)`: `a - b`, clamped at zero. -/
def sub (a b : Time) : Time :=
  let seconds := wrapI64 (a.sec - b.sec)
  let nanoseconds := wrapI64 (a.nsec - b.nsec)
  let borrowed : Time :=
    if nanoseconds < 0 then ⟨wrapI64 (seconds - 1), wrapI64 (nanoseconds + 1000000000)⟩
    else ⟨seconds, nanoseconds⟩
  if borrowed.sec < 0 then zero else borrowed

/-- The time in nanoseconds. -/
def ns (t : Time) : ℤ := t.sec * 1000000000 + t.nsec

/-- What the kernel takes for a valid `timespec`, and what its clocks return. -/
structure Valid (t : Time) : Prop where
  sec_nonneg : 0 ≤ t.sec
  sec_lt : t.sec < 2 ^ 63
  nsec_nonneg : 0 ≤ t.nsec
  nsec_lt : t.nsec < 1000000000

instance (t : Time) : Decidable t.Valid :=
  decidable_of_iff (0 ≤ t.sec ∧ t.sec < 2 ^ 63 ∧ 0 ≤ t.nsec ∧ t.nsec < 1000000000)
    ⟨fun h => ⟨h.1, h.2.1, h.2.2.1, h.2.2.2⟩, fun h => ⟨h.1, h.2, h.3, h.4⟩⟩

/-- The first number of nanoseconds no `timespec` holds. -/
def limit : ℤ := 2 ^ 63 * 1000000000

theorem zero_valid : zero.Valid := ⟨le_rfl, by decide, le_rfl, by decide⟩

theorem Valid.ns_nonneg {t : Time} (h : t.Valid) : 0 ≤ t.ns := by
  have := h.sec_nonneg; have := h.nsec_nonneg
  unfold ns; omega

/-- Tuples of valid times are in the order of the times. -/
theorem lt_iff_ns {a b : Time} (ha : a.Valid) (hb : b.Valid) : a.lt b = true ↔ a.ns < b.ns := by
  obtain ⟨_, _, _, _⟩ := ha
  obtain ⟨_, _, _, _⟩ := hb
  simp only [lt, ns, Bool.or_eq_true, Bool.and_eq_true, decide_eq_true_eq, beq_iff_eq]
  omega

/-- **`add` adds**, for valid times whose sum is in range. -/
theorem add_spec {a b : Time} (ha : a.Valid) (hb : b.Valid) (h : a.ns + b.ns < limit) :
    (add a b).Valid ∧ (add a b).ns = a.ns + b.ns := by
  obtain ⟨_, _, _, _⟩ := ha
  obtain ⟨_, _, _, _⟩ := hb
  unfold ns limit at h
  have hs : wrapI64 (a.sec + b.sec) = a.sec + b.sec := wrapI64_of_range (by omega) (by omega)
  have hn : wrapI64 (a.nsec + b.nsec) = a.nsec + b.nsec := wrapI64_of_range (by omega) (by omega)
  simp only [add, hs, hn]
  split_ifs with hc
  · rw [wrapI64_of_range (x := a.sec + b.sec + 1) (by omega) (by omega),
      wrapI64_of_range (x := a.nsec + b.nsec - 1000000000) (by omega) (by omega)]
    refine ⟨⟨?_, ?_, ?_, ?_⟩, ?_⟩ <;> simp only [ns] <;> omega
  · refine ⟨⟨?_, ?_, ?_, ?_⟩, ?_⟩ <;> simp only [ns] <;> omega

/-- **`sub` is the truncated difference** of valid times. -/
theorem sub_spec {a b : Time} (ha : a.Valid) (hb : b.Valid) :
    (sub a b).Valid ∧ (sub a b).ns = max 0 (a.ns - b.ns) := by
  obtain ⟨_, _, _, _⟩ := ha
  obtain ⟨_, _, _, _⟩ := hb
  have hs : wrapI64 (a.sec - b.sec) = a.sec - b.sec := wrapI64_of_range (by omega) (by omega)
  have hn : wrapI64 (a.nsec - b.nsec) = a.nsec - b.nsec := wrapI64_of_range (by omega) (by omega)
  simp only [sub, hs, hn]
  by_cases hc : a.nsec - b.nsec < 0
  · rw [if_pos hc, wrapI64_of_range (x := a.nsec - b.nsec + 1000000000) (by omega) (by omega),
      wrapI64_of_range (x := a.sec - b.sec - 1) (by omega) (by omega)]
    dsimp only
    split_ifs with hz
    · exact ⟨zero_valid, by simp only [ns, zero]; omega⟩
    · refine ⟨⟨?_, ?_, ?_, ?_⟩, ?_⟩ <;> simp only [ns] <;> omega
  · rw [if_neg hc]
    dsimp only
    split_ifs with hz
    · exact ⟨zero_valid, by simp only [ns, zero]; omega⟩
    · refine ⟨⟨?_, ?_, ?_, ?_⟩, ?_⟩ <;> simp only [ns] <;> omega

end Time

/-- The seconds and nanoseconds of the `timespec` at an offset of some bytes. -/
def timeAt (bytes : List Byte) (offset : ℕ) : Time :=
  ⟨leI64 ((bytes.drop offset).take 8), leI64 ((bytes.drop (offset + 8)).take 8)⟩

/-- Outside the valid range both functions go wrong: a second's worth of
nanoseconds too many stays in the result of `sub`, and a sum past the last
second wraps to a time before the epoch. -/
example : Time.sub ⟨0, 5000000000⟩ Time.zero = ⟨0, 5000000000⟩ ∧
    Time.add ⟨1, 0⟩ ⟨9223372036854775807, 0⟩ = ⟨-9223372036854775808, 0⟩ := by
  decide

end Machine
end Sharun
