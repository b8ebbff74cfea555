/-
# The timeouts of calls that are rewritten

`ppoll` becomes `poll`, whose timeout is in milliseconds, and `futex` with the operations
of later kernels becomes `FUTEX_WAIT`, whose timeout is a length of time.  The tracer
converts what the caller has passed.

The milliseconds are rounded down, so they cover the timeout only where it is a whole
number of them, or more than `poll` can be given (`ppoll_timeout_covers_iff`).  A futex
wait keeps its length, be it given as such or as a point in time, with one exception: a
`FUTEX_WAIT` with the realtime flag, whose timeout is taken for a point in time though
it is a length (`futex_wait_kept_iff`).
-/

import Sharun.Machine.Pokes
import Sharun.Tracer.LowHalves

namespace Sharun
namespace Tracing

open Machine Emulation Sharun.Basis

/-- What a pointer to a timeout stands for: no timeout, or the valid `timespec` it points to. -/
def TimeoutAt (m : Memory) (ptr : U64) : Option Time → Prop
  | none => ptr = 0
  | some time => ptr ≠ 0 ∧ time.Valid ∧
    ∃ bytes, m.readStruct ptr 16 = some bytes ∧ timeAt bytes 0 = time

/-! ### Milliseconds for `poll` -/

/-- The timeout of a call to `poll`, which is an `int`. -/
def pollTimeout (regs : Regs) : ℤ := (regs.rdx.setWidth 32).toInt

/-- **Milliseconds for a timeout**: none at all for no timeout, zero for zero, and else as
many as cover it, or the most there are where it is longer than these. -/
structure MillisFor (timeout : Option Time) (ms : ℤ) : Prop where
  unlimited : ms = -1 ↔ timeout = none
  zero : ms = 0 ↔ ∃ time, timeout = some time ∧ time.ns = 0
  covers : ∀ time, timeout = some time → time.ns ≠ 0 →
    time.ns ≤ ms * 1000000 ∨ ms = 2 ^ 31 - 1 ∧ (2 ^ 31 - 1) * 1000000 < time.ns

section

variable {t : Tracee} {ptr : U64} {time : Time} {timeout : Option Time} {env : Env} {s : Tracer}
  {pid : Pid}

/-- The tracer rounds down, and no further than to the largest `int`. -/
theorem ppollTimeout_eq (h : TimeoutAt t.mem ptr (some time)) :
    ppollTimeout t ptr = min (2 ^ 31 - 1) (time.ns / 1000000) := by
  obtain ⟨hptr, ⟨hsec₁, hsec₂, hnsec₁, hnsec₂⟩, bytes, hread, rfl⟩ := h
  have hdiv : (timeAt bytes 0).nsec.tdiv 1000000 = (timeAt bytes 0).nsec / 1000000 :=
    Int.tdiv_eq_ediv_of_nonneg hnsec₁
  unfold ppollTimeout
  rw [if_neg hptr, hread]
  dsimp only
  rw [hdiv]
  unfold Time.ns
  omega

theorem ppollTimeout_none (h : TimeoutAt t.mem ptr none) : ppollTimeout t ptr = -1 := by
  have hptr : ptr = 0 := h
  unfold ppollTimeout
  rw [if_pos hptr]

/-- The register `poll` takes its timeout from. -/
theorem toInt_setWidth_asU64 {x : ℤ} (h₁ : -2 ^ 31 ≤ x) (h₂ : x < 2 ^ 31) :
    ((asU64 x).setWidth 32).toInt = x := by
  have hword : (asU64 x).setWidth 32 = BitVec.ofInt 32 x := by
    unfold asU64
    apply BitVec.eq_of_toNat_eq
    rw [BitVec.toNat_setWidth, BitVec.toNat_ofInt, BitVec.toNat_ofInt]
    omega
  rw [hword]
  exact BitVec.toInt_ofInt_eq_self (by decide) (by simpa using h₁) (by simpa using h₂)

theorem ppollTimeout_range (h : TimeoutAt t.mem ptr timeout) :
    -2 ^ 31 ≤ ppollTimeout t ptr ∧ ppollTimeout t ptr < 2 ^ 31 := by
  cases timeout with
  | none =>
    rw [ppollTimeout_none h]
    decide
  | some time =>
    have hns := h.2.1.ns_nonneg
    rw [ppollTimeout_eq h]
    omega

/-- Rounding down covers whole milliseconds. -/
theorem millisFor_ppollTimeout_iff (h : TimeoutAt t.mem ptr timeout) :
    MillisFor timeout (ppollTimeout t ptr) ↔ ∀ time, timeout = some time →
      time.nsec % 1000000 = 0 ∨ (2 ^ 31 - 1) * 1000000 < time.ns := by
  cases timeout with
  | none =>
    rw [ppollTimeout_none h]
    refine iff_of_true ⟨?_, ?_, ?_⟩ (by simp) <;> simp
  | some time =>
    have hns := h.2.1.ns_nonneg
    have hmod : time.ns % 1000000 = time.nsec % 1000000 := by
      unfold Time.ns
      omega
    rw [ppollTimeout_eq h]
    simp only [Option.some.injEq, forall_eq']
    constructor
    · intro hfor
      by_cases hzero : time.ns = 0
      · omega
      · have hcovers := hfor.covers time rfl hzero
        omega
    · intro hcond
      constructor
      · simp only [reduceCtorEq, iff_false]
        omega
      · simp only [Option.some.injEq, exists_eq_left']
        omega
      · rintro time' htime hne
        obtain rfl := Option.some.inj htime
        omega

/-- **When `poll` waits as long as `ppoll` was asked to**: just where the timeout is a whole
number of milliseconds, or more than `poll` can be given. -/
theorem Tracer.ppoll_timeout_covers_iff (s : Tracer) (env : Env) (pid : Pid)
    (hentry : s.entering pid = true) (hppoll : t.regs.origRax = Nr.ppoll)
    (hpoll : (s.onSyscallStop env pid t).2.regs.origRax = Nr.poll)
    (htimeout : TimeoutAt t.mem t.regs.rdx timeout) :
    MillisFor timeout (pollTimeout (s.onSyscallStop env pid t).2.regs) ↔
      ∀ time, timeout = some time →
        time.nsec % 1000000 = 0 ∨ (2 ^ 31 - 1) * 1000000 < time.ns := by
  have hstop : (s.onSyscallStop env pid t).2 =
      ((s.setInSyscall pid true).onSyscallEntry env pid t).2 := by
    rw [Tracer.onSyscallStop, hentry]
    rfl
  rw [hstop] at hpoll ⊢
  -- A tracee that is left alone would still be at its `ppoll`.
  have hleft : ((s.setInSyscall pid true).onSyscallEntry env pid t).2 ≠ t := by
    intro h
    rw [h, hppoll] at hpoll
    exact absurd hpoll (by decide)
  have hget : t.canGet = true := by
    by_contra hget
    refine hleft ?_
    rw [Tracer.onSyscallEntry, Tracee.getregs_eq_none.2 (Bool.not_eq_true _ ▸ hget)]
  have hcs : t.regs.cs = userCs := by
    by_contra hcs
    refine hleft ?_
    rw [Tracer.onSyscallEntry, Tracee.getregs_eq_some.2 ⟨hget, rfl⟩]
    dsimp only
    rw [if_pos hcs]
  have hne : ∀ n : U64, n ≠ Nr.ppoll → t.regs.origRax ≠ n := fun n hn he => hn (he ▸ hppoll)
  rw [onSyscallEntry_rest env _ pid hget hcs (hne _ (by decide)) (hne _ (by decide))
    (hne _ (by decide)), rewriteEntry_ppoll hppoll] at hleft ⊢
  split_ifs at hleft ⊢
  · cases hset : t.canSet with
    | false => exact absurd (Tracee.putregs_of_not_canSet hset _) hleft
    | true =>
      obtain ⟨hlow, hhigh⟩ := ppollTimeout_range htimeout
      rw [Tracee.putregs_of_canSet hset]
      show MillisFor timeout ((asU64 (ppollTimeout t t.regs.rdx)).setWidth 32).toInt ↔ _
      rw [toInt_setWidth_asU64 hlow hhigh]
      exact millisFor_ppollTimeout_iff htimeout
  · exact absurd rfl hleft

end

/-- A tracee at the entry stop of a call, with a `timespec` at `0x9000`. -/
def timedCall (time : Time) (nr a0 a1 a2 a3 : U64) : Tracee :=
  let bytes := leBytes 8 (asU64 time.sec) ++ leBytes 8 (asU64 time.nsec)
  { Tracee.entryOf nr a0 a1 a2 a3 with
    mem a := if (a - 0x9000).toNat < 16 then bytes[(a - 0x9000).toNat]? else some 0 }

/-- A `ppoll` of no descriptors, with the timeout at `0x9000`. -/
def ppollCall (time : Time) : Tracee := timedCall time Nr.ppoll 0 0 0x9000 0

/-- The call a kernel without `ppoll` gets to see. -/
def polled (time : Time) : Tracee :=
  ((Tracer.new 1 true false).onSyscallStop (.still Host.centos5) 1 (ppollCall time)).2

/-- Half a second is 500 milliseconds. -/
theorem Tracer.ppoll_timeout_covers_half :
    MillisFor (some ⟨0, 500000000⟩) (pollTimeout (polled ⟨0, 500000000⟩).regs) ∧
      pollTimeout (polled ⟨0, 500000000⟩).regs = 500 := by
  have htimeout : TimeoutAt (ppollCall ⟨0, 500000000⟩).mem (ppollCall ⟨0, 500000000⟩).regs.rdx
      (some ⟨0, 500000000⟩) :=
    ⟨by decide, by decide, _, rfl, by decide +kernel⟩
  refine ⟨(Tracer.ppoll_timeout_covers_iff (Tracer.new 1 true false) (.still Host.centos5) 1 rfl
    rfl (by decide +kernel) htimeout).2 ?_, by decide +kernel⟩
  intro time htime
  obtain rfl := Option.some.inj htime
  exact Or.inl (by decide)

/-- **A timeout below a millisecond is no timeout to wait for**: `poll` returns at once; and
one of a millisecond and a half ends after one. -/
theorem short_timeout_lost :
    (polled ⟨0, 500000⟩).regs.origRax = Nr.poll ∧ pollTimeout (polled ⟨0, 500000⟩).regs = 0 ∧
      ¬ MillisFor (some ⟨0, 500000⟩) (pollTimeout (polled ⟨0, 500000⟩).regs) ∧
      pollTimeout (polled ⟨0, 1500000⟩).regs = 1 := by
  have hzero : pollTimeout (polled ⟨0, 500000⟩).regs = 0 := by decide +kernel
  refine ⟨by decide +kernel, hzero, fun h => ?_, by decide +kernel⟩
  obtain ⟨time, htime, hns⟩ := h.zero.1 hzero
  obtain rfl := Option.some.inj htime
  exact absurd hns (by decide)

/-! ### The length of a futex wait -/

/-- The clock a futex operation selects. -/
def futexClock (op : BitVec 32) : ℤ :=
  if op &&& FUTEX_CLOCK_REALTIME ≠ 0 then CLOCK_REALTIME else CLOCK_MONOTONIC

/-- The operation of a futex call, an `int`, and its command. -/
def futexOp (regs : Regs) : BitVec 32 := regs.rsi.setWidth 32

def futexCommand (regs : Regs) : BitVec 32 := futexOp regs &&& FUTEX_CMD_MASK

/-- How many nanoseconds a wait with this timeout takes: the timeout of
`FUTEX_WAIT_BITSET` is a point in time on the clock of the operation, and that of
`FUTEX_WAIT` a length. -/
def WaitTakes (env : Env) (regs : Regs) (time : Time) (ns : ℤ) : Prop :=
  if futexCommand regs = FUTEX_WAIT_BITSET then
    ∃ now, env.clock 0 (futexClock (futexOp regs)) = some now ∧ ns = max 0 (time.ns - now.ns)
  else ns = time.ns

/-- The tracer sets out to convert the timeout of a wait. -/
def Timed (regs : Regs) : Prop :=
  regs.r10 ≠ 0 ∧
    (futexCommand regs = FUTEX_WAIT_BITSET ∨ futexOp regs &&& FUTEX_CLOCK_REALTIME ≠ 0)

/-- What a conversion needs: a clock that can be read, and scratch space. -/
def CanConvert (env : Env) (t : Tracee) : Prop :=
  (env.clock 0 (futexClock (futexOp t.regs))).isSome ∧
    (t.mem.readStruct (scratchFor t.regs) 16).isSome

/-- The call cannot be replaced: its timeout cannot be converted, or its registers cannot be
set. -/
def Unconvertible (env : Env) (t : Tracee) : Prop :=
  t.canSet = false ∨ Timed t.regs ∧ ¬ CanConvert env t

/-- The wait in the registers of a tracee waits on the same word for the same value, and as
long as the original. -/
structure SameWait (env : Env) (regs : Regs) (timeout : Option Time) (t : Tracee) : Prop where
  command : futexOp t.regs = FUTEX_WAIT
  word : t.regs.rdi = regs.rdi
  value : t.regs.rdx = regs.rdx
  timeout : ∃ timeout', TimeoutAt t.mem t.regs.r10 timeout' ∧
    Option.Rel (fun time time' => WaitTakes env regs time time'.ns) timeout timeout'

/-- **What is to become of a wait**: the same wait with an operation the kernel knows; but the
call is as it was where it cannot be replaced.  No memory changes but for scratch space. -/
structure WaitKept (env : Env) (timeout : Option Time) (t t' : Tracee) : Prop where
  replaced : ¬ Unconvertible env t → SameWait env t.regs timeout t'
  left : Unconvertible env t → t'.regs = t.regs
  spared : Changes (region (scratchFor t.regs) 16) t.mem t'.mem

section

variable {t : Tracee} {ptr : U64} {time now : Time} {timeout : Option Time} {env : Env}
  {s : Tracer} {pid : Pid} {realtime : Bool}

/-- The clock the tracer reads is that of the operation. -/
theorem clock_of_flag
    (hrealtime : realtime = decide (futexOp t.regs &&& FUTEX_CLOCK_REALTIME ≠ 0)) :
    (if realtime = true then CLOCK_REALTIME else CLOCK_MONOTONIC) =
      futexClock (futexOp t.regs) := by
  rw [hrealtime]
  simp only [decide_eq_true_eq]
  rfl

/-- A conversion that fails. -/
theorem reserveRelativeTimeout_fails (h : TimeoutAt t.mem t.regs.r10 (some time))
    (hrealtime : realtime = decide (futexOp t.regs &&& FUTEX_CLOCK_REALTIME ≠ 0))
    (hfails : ¬ CanConvert env t) :
    (reserveRelativeTimeout env t t.regs.r10 realtime t.regs.rsp).2 = .error () := by
  obtain ⟨hptr, -, bytes, hread, -⟩ := h
  unfold reserveRelativeTimeout
  rw [if_neg hptr, hread]
  dsimp only
  rw [clock_of_flag hrealtime]
  cases hnow : env.clock 0 (futexClock (futexOp t.regs)) with
  | none => rfl
  | some now =>
    dsimp only
    split
    · rfl
    · rename_i t' hwrite
      have hlen : (leBytes 8 (asU64 ((timeAt bytes 0).sub now).sec) ++
          leBytes 8 (asU64 ((timeAt bytes 0).sub now).nsec)).length = 8 * 2 := by simp
      have hok := Tracee.writeStruct_ok.symm.trans (congrArg Prod.snd hwrite)
      rw [hlen] at hok
      exact absurd ⟨by rw [hnow]; rfl, hok⟩ hfails

/-- **A conversion that is made**: what is left until the deadline is in scratch space. -/
theorem reserveRelativeTimeout_converts (h : TimeoutAt t.mem t.regs.r10 (some time))
    (hrealtime : realtime = decide (futexOp t.regs &&& FUTEX_CLOCK_REALTIME ≠ 0))
    (hnow : env.clock 0 (futexClock (futexOp t.regs)) = some now) (hvalid : now.Valid)
    (hmapped : (t.mem.readStruct (scratchFor t.regs) 16).isSome) :
    ∃ t', reserveRelativeTimeout env t t.regs.r10 realtime t.regs.rsp =
        (t', .ok (some (scratchFor t.regs))) ∧
      ∃ bytes, t'.mem.readStruct (scratchFor t.regs) 16 = some bytes ∧
        timeAt bytes 0 = Time.sub time now := by
  obtain ⟨hptr, htime, bytes, hread, rfl⟩ := h
  have hleft := (Time.sub_spec htime hvalid).1
  generalize hsub : Time.sub (timeAt bytes 0) now = left at hleft
  have hlen : (leBytes 8 (asU64 left.sec) ++ leBytes 8 (asU64 left.nsec)).length = 8 * 2 := by simp
  obtain ⟨t', hwrite⟩ : ∃ t', t.writeStruct ((t.regs.rsp - 512) &&& ~~~0xf)
      (leBytes 8 (asU64 left.sec) ++ leBytes 8 (asU64 left.nsec)) = (t', true) := by
    refine ⟨_, Prod.ext rfl (Tracee.writeStruct_ok.trans ?_)⟩
    rw [hlen]
    exact hmapped
  have hback := Tracee.readStruct_writeStruct hlen (by decide) hwrite
  refine ⟨t', ?_, _, hback, timeAt_leBytes hleft⟩
  unfold reserveRelativeTimeout
  rw [if_neg hptr, hread]
  dsimp only
  rw [clock_of_flag hrealtime, hnow]
  dsimp only
  rw [hsub, hwrite]
  rfl

/-- A call whose timeout has been looked at: it is left as it is, or gets its new operation
and the timeout in scratch space. -/
def converted (regs : Regs) : Tracee × Except Unit (Option U64) → Tracee
  | (t', .error _) => t'
  | (t', .ok none) => t'.putregs { regs with rsi := 0 }
  | (t', .ok (some scratch)) => t'.putregs { regs with rsp := scratch, r10 := scratch, rsi := 0 }

/-- What `translate_futex` makes of a wait. -/
theorem translateFutex_wait (hold : env.host.kernelLt 2 6 29 = true)
    (hcommand : futexCommand t.regs = FUTEX_WAIT ∨ futexCommand t.regs = FUTEX_WAIT_BITSET)
    (s : Tracer) (pid : Pid) :
    (s.translateFutex env pid t t.regs).2.1 =
      if futexOp t.regs = FUTEX_WAIT then t
      else if futexCommand t.regs = FUTEX_WAIT_BITSET ∨
          futexOp t.regs &&& FUTEX_CLOCK_REALTIME ≠ 0 then
        converted t.regs (reserveRelativeTimeout env t t.regs.r10
          (decide (futexOp t.regs &&& FUTEX_CLOCK_REALTIME ≠ 0)) t.regs.rsp)
      else t.putregs { t.regs with rsi := 0 } := by
  have hnew : futexCmd (t.regs.rsi.setWidth 32 &&& FUTEX_CMD_MASK) = FUTEX_WAIT := by
    show futexCmd (futexCommand t.regs) = FUTEX_WAIT
    rcases hcommand with h | h <;> rw [h] <;> decide
  rw [Tracer.translateFutex, if_neg (by simp [hold])]
  dsimp only
  rw [hnew]
  by_cases hsame : futexOp t.regs = FUTEX_WAIT
  · rw [if_pos hsame, if_pos (show FUTEX_WAIT = t.regs.rsi.setWidth 32 from hsame.symm)]
  · rw [if_neg hsame, if_neg (show FUTEX_WAIT ≠ t.regs.rsi.setWidth 32 from Ne.symm hsame)]
    by_cases hconverts : futexCommand t.regs = FUTEX_WAIT_BITSET ∨
        futexOp t.regs &&& FUTEX_CLOCK_REALTIME ≠ 0
    · rw [if_pos hconverts, if_pos ⟨rfl, hconverts.imp id decide_eq_true⟩]
      show (match reserveRelativeTimeout env t t.regs.r10
            (decide (futexOp t.regs &&& FUTEX_CLOCK_REALTIME ≠ 0)) t.regs.rsp with
          | (t', .error _) => (s, t', false)
          | (t', .ok none) => (s, t'.putregs { t.regs with rsi := 0 }, false)
          | (t', .ok (some scratch)) =>
            ({ s with reserved := Function.update s.reserved pid (some t.regs.rsp) },
              t'.putregs { t.regs with rsp := scratch, r10 := scratch, rsi := 0 }, true)).2.1 = _
      generalize reserveRelativeTimeout env t t.regs.r10 _ t.regs.rsp = r
      obtain ⟨t', e | none | scratch⟩ := r <;> rfl
    · rw [if_neg hconverts, if_neg fun h => hconverts (h.2.imp id of_decide_eq_true)]
      rfl

/-- Converting a timeout writes into scratch space and nowhere else. -/
theorem reserveRelativeTimeout_changes (env : Env) (t : Tracee) (ptr : U64) (realtime : Bool) :
    Changes (region (scratchFor t.regs) 16) t.mem
      (reserveRelativeTimeout env t ptr realtime t.regs.rsp).1.mem := by
  have hwritten : ∀ {left : Time} {t' : Tracee} {ok : Bool},
      t.writeStruct (scratchFor t.regs)
        (leBytes 8 (asU64 left.sec) ++ leBytes 8 (asU64 left.nsec)) = (t', ok) →
      Changes (region (scratchFor t.regs) 16) t.mem t'.mem := by
    intro left t' ok hwrite
    have hchanges := Tracee.writeStruct_changes (by simp) hwrite
    rwa [List.length_append, leBytes_length, leBytes_length] at hchanges
  unfold reserveRelativeTimeout
  split
  · exact .refl _ _
  · split
    · exact .refl _ _
    · split
      · exact .refl _ _
      · dsimp only
        split
        · rename_i hwrite
          exact hwritten hwrite
        · rename_i hwrite
          exact hwritten hwrite

/-- A wait whose timeout is not converted. -/
theorem waitKept_putregs (htimed : ¬ Timed t.regs) (htimeout : TimeoutAt t.mem t.regs.r10 timeout)
    (hrel : Option.Rel (fun time time' => WaitTakes env t.regs time time'.ns) timeout timeout) :
    WaitKept env timeout t (t.putregs { t.regs with rsi := 0 }) := by
  cases hset : t.canSet with
  | false =>
    rw [Tracee.putregs_of_not_canSet hset]
    exact ⟨fun h => absurd (Or.inl hset) h, fun _ => rfl, .refl _ _⟩
  | true =>
    rw [Tracee.putregs_of_canSet hset]
    refine ⟨fun _ => ⟨rfl, rfl, rfl, timeout, htimeout, hrel⟩, ?_, .refl _ _⟩
    rintro (h | ⟨h, -⟩)
    · exact absurd (hset.symm.trans h) (by decide)
    · exact absurd h htimed

/-- A wait whose timeout is converted takes as long as the deadline is away. -/
theorem waitTakes_sub_iff (hcommand : futexCommand t.regs = FUTEX_WAIT ∨
      futexCommand t.regs = FUTEX_WAIT_BITSET)
    (hnow : env.clock 0 (futexClock (futexOp t.regs)) = some now) (htime : time.Valid)
    (hvalid : now.Valid) :
    WaitTakes env t.regs time (Time.sub time now).ns ↔
      (futexCommand t.regs = FUTEX_WAIT → time.ns = 0 ∨ now.ns = 0) := by
  have htime₀ := htime.ns_nonneg
  have hnow₀ := hvalid.ns_nonneg
  unfold WaitTakes
  rw [(Time.sub_spec htime hvalid).2, hnow]
  rcases hcommand with h | h
  · rw [if_neg (by rw [h]; decide)]
    simp only [h, true_imp_iff]
    omega
  · rw [if_pos h]
    simp only [h, Option.some.injEq, exists_eq_left', true_iff]
    exact fun habsurd => absurd habsurd (by decide)

/-- A `FUTEX_WAIT` without a flag is left alone. -/
theorem waitKept_bare (hbare : futexOp t.regs = FUTEX_WAIT)
    (htimeout : TimeoutAt t.mem t.regs.r10 timeout) :
    ¬ Timed t.regs ∧ WaitKept env timeout t t := by
  have hcommand : futexCommand t.regs = FUTEX_WAIT := by
    unfold futexCommand
    rw [hbare]
    decide
  constructor
  · rintro ⟨-, h | h⟩
    · rw [hcommand] at h
      exact absurd h (by decide)
    · rw [hbare] at h
      exact h (by decide)
  · refine ⟨fun _ => ⟨hbare, rfl, rfl, timeout, htimeout, ?_⟩, fun _ => rfl, .refl _ _⟩
    cases timeout with
    | none => exact .none
    | some time => exact .some (by rw [WaitTakes, if_neg (by rw [hcommand]; decide)])

/-- A wait that cannot be replaced keeps its registers, whatever has become of its timeout. -/
theorem waitKept_unconvertible (hun : Unconvertible env t) {t' : Tracee}
    {result : Except Unit (Option U64)}
    (hreserve : reserveRelativeTimeout env t t.regs.r10 realtime t.regs.rsp = (t', result)) :
    WaitKept env timeout t t' := by
  have hregs := reserveRelativeTimeout_sameRegs env t t.regs.r10 realtime t.regs.rsp
  have hchanges := reserveRelativeTimeout_changes env t t.regs.r10 realtime
  rw [hreserve] at hregs hchanges
  exact ⟨fun h => absurd hun h, fun _ => hregs.regs, hchanges⟩

/-- **A wait whose timeout is converted** keeps its length where that is no length yet. -/
theorem waitKept_converted_iff
    (hcommand : futexCommand t.regs = FUTEX_WAIT ∨ futexCommand t.regs = FUTEX_WAIT_BITSET)
    (htimeout : TimeoutAt t.mem t.regs.r10 (some time)) (hun : ¬ Unconvertible env t)
    (hnow : env.clock 0 (futexClock (futexOp t.regs)) = some now) (hvalid : now.Valid)
    (hrealtime : realtime = decide (futexOp t.regs &&& FUTEX_CLOCK_REALTIME ≠ 0))
    (hmapped : (t.mem.readStruct (scratchFor t.regs) 16).isSome) :
    ∃ t', reserveRelativeTimeout env t t.regs.r10 realtime t.regs.rsp =
        (t', .ok (some (scratchFor t.regs))) ∧
      (WaitKept env (some time) t (t'.putregs
          { t.regs with rsp := scratchFor t.regs, r10 := scratchFor t.regs, rsi := 0 }) ↔
        scratchFor t.regs ≠ 0 ∧
          (futexCommand t.regs = FUTEX_WAIT → time.ns = 0 ∨ now.ns = 0)) := by
  obtain ⟨t', hreserve, bytes, hbytes, hsub⟩ :=
    reserveRelativeTimeout_converts htimeout hrealtime hnow hvalid hmapped
  refine ⟨t', hreserve, ?_⟩
  have hset : t.canSet = true := by
    rw [← Bool.not_eq_false]
    exact fun h => hun (Or.inl h)
  have hregs := reserveRelativeTimeout_sameRegs env t t.regs.r10 realtime t.regs.rsp
  have hchanges := reserveRelativeTimeout_changes env t t.regs.r10 realtime
  have htakes := waitTakes_sub_iff hcommand hnow htimeout.2.1 hvalid
  rw [hreserve] at hchanges hregs
  rw [Tracee.putregs_of_canSet (hregs.canSet.trans hset)]
  constructor
  · intro hkept
    obtain ⟨timeout', hat, hrel⟩ := (hkept.replaced hun).timeout
    cases hrel with
    | @some _ time' hlength =>
      obtain ⟨hne, -, bytes', hbytes', rfl⟩ := hat
      obtain rfl := Option.some.inj (hbytes.symm.trans hbytes')
      rw [hsub] at hlength
      exact ⟨hne, htakes.1 hlength⟩
  · rintro ⟨hne, hzero⟩
    have hleft : (Time.sub time now).Valid := (Time.sub_spec htimeout.2.1 hvalid).1
    exact ⟨fun _ => ⟨rfl, rfl, rfl, some (Time.sub time now), ⟨hne, hleft, bytes, hbytes, hsub⟩,
      .some (htakes.2 hzero)⟩, fun h => absurd h hun, hchanges⟩

/-- A wait with a timeout that cannot be replaced. -/
theorem waitKept_of_unconvertible (htimeout : TimeoutAt t.mem t.regs.r10 (some time))
    (hclock : ∀ now, env.clock 0 (futexClock (futexOp t.regs)) = some now → now.Valid)
    (hrealtime : realtime = decide (futexOp t.regs &&& FUTEX_CLOCK_REALTIME ≠ 0))
    (hun : Unconvertible env t) : WaitKept env (some time) t
      (converted t.regs (reserveRelativeTimeout env t t.regs.r10 realtime t.regs.rsp)) := by
  by_cases hcan : CanConvert env t
  · -- The clock and the memory can be read, so it is the registers.
    have hset : t.canSet = false := hun.resolve_right fun h => h.2 hcan
    obtain ⟨hread, hmapped⟩ := hcan
    obtain ⟨now, hnow⟩ := Option.isSome_iff_exists.1 hread
    obtain ⟨t', hreserve, -⟩ :=
      reserveRelativeTimeout_converts htimeout hrealtime hnow (hclock now hnow) hmapped
    have hregs := reserveRelativeTimeout_sameRegs env t t.regs.r10 realtime t.regs.rsp
    have hkept : WaitKept env (some time) t t' := waitKept_unconvertible hun hreserve
    rw [hreserve] at hregs ⊢
    rw [converted, Tracee.putregs_of_not_canSet (hregs.canSet.trans hset)]
    exact hkept
  · have herror := reserveRelativeTimeout_fails htimeout hrealtime hcan
    generalize hreserve : reserveRelativeTimeout env t t.regs.r10 realtime t.regs.rsp = r at herror
    obtain ⟨t', result⟩ := r
    obtain rfl : result = .error () := herror
    exact waitKept_unconvertible hun hreserve

/-- A wait with a timeout that can be. -/
theorem waitKept_of_convertible_iff
    (hcommand : futexCommand t.regs = FUTEX_WAIT ∨ futexCommand t.regs = FUTEX_WAIT_BITSET)
    (htimeout : TimeoutAt t.mem t.regs.r10 (some time))
    (hclock : ∀ now, env.clock 0 (futexClock (futexOp t.regs)) = some now → now.Valid)
    (hrealtime : realtime = decide (futexOp t.regs &&& FUTEX_CLOCK_REALTIME ≠ 0))
    (htimed : Timed t.regs) (hun : ¬ Unconvertible env t) :
    WaitKept env (some time) t
        (converted t.regs (reserveRelativeTimeout env t t.regs.r10 realtime t.regs.rsp)) ↔
      scratchFor t.regs ≠ 0 ∧ (futexCommand t.regs = FUTEX_WAIT → ∀ time' now,
        some time = some time' → env.clock 0 (futexClock (futexOp t.regs)) = some now →
          time'.ns = 0 ∨ now.ns = 0) := by
  obtain ⟨hread, hmapped⟩ : CanConvert env t := by
    by_contra hcan
    exact hun (Or.inr ⟨htimed, hcan⟩)
  obtain ⟨now, hnow⟩ := Option.isSome_iff_exists.1 hread
  obtain ⟨t', hreserve, hiff⟩ := waitKept_converted_iff hcommand htimeout hun hnow
    (hclock now hnow) hrealtime hmapped
  rw [hreserve, converted, hiff]
  refine and_congr_right fun _ => imp_congr_right fun _ => ⟨fun hzero time' now' htime hnow' => ?_,
    fun hzero => hzero time now rfl hnow⟩
  obtain rfl := Option.some.inj htime
  obtain rfl := Option.some.inj (hnow.symm.trans hnow')
  exact hzero

/-- **When a wait stays as long as it is**: a timeout that is converted has to be a point in
time, or the conversion comes to nothing; and the address of scratch space must not be the
null pointer. -/
theorem Tracer.futex_wait_kept_iff (s : Tracer) (env : Env) (pid : Pid)
    (hold : env.host.kernelLt 2 6 29 = true)
    (hcommand : futexCommand t.regs = FUTEX_WAIT ∨ futexCommand t.regs = FUTEX_WAIT_BITSET)
    (htimeout : TimeoutAt t.mem t.regs.r10 timeout)
    (hclock : ∀ now, env.clock 0 (futexClock (futexOp t.regs)) = some now → now.Valid) :
    WaitKept env timeout t (s.translateFutex env pid t t.regs).2.1 ↔
      (Timed t.regs → ¬ Unconvertible env t → scratchFor t.regs ≠ 0 ∧
        (futexCommand t.regs = FUTEX_WAIT → ∀ time now, timeout = some time →
          env.clock 0 (futexClock (futexOp t.regs)) = some now → time.ns = 0 ∨ now.ns = 0)) := by
  rw [translateFutex_wait hold hcommand]
  by_cases hbare : futexOp t.regs = FUTEX_WAIT
  · obtain ⟨htimed, hkept⟩ := waitKept_bare hbare htimeout
    rw [if_pos hbare]
    exact iff_of_true hkept fun h => absurd h htimed
  · rw [if_neg hbare]
    by_cases hconverts : futexCommand t.regs = FUTEX_WAIT_BITSET ∨
        futexOp t.regs &&& FUTEX_CLOCK_REALTIME ≠ 0
    · rw [if_pos hconverts]
      cases timeout with
      | none =>
        have hnull : t.regs.r10 = 0 := htimeout
        have htimed : ¬ Timed t.regs := fun h => h.1 hnull
        have hreserve : ∀ realtime, reserveRelativeTimeout env t t.regs.r10 realtime t.regs.rsp =
            (t, .ok none) := by
          intro realtime
          rw [reserveRelativeTimeout, if_pos hnull]
        rw [hreserve]
        exact iff_of_true (waitKept_putregs htimed htimeout .none) fun h => absurd h htimed
      | some time =>
        have htimed : Timed t.regs := ⟨htimeout.1, hconverts⟩
        rw [forall_prop_of_true htimed]
        by_cases hun : Unconvertible env t
        · exact iff_of_true (waitKept_of_unconvertible htimeout hclock rfl hun)
            fun h => absurd hun h
        · rw [forall_prop_of_true hun]
          exact waitKept_of_convertible_iff hcommand htimeout hclock rfl htimed hun
    · have htimed : ¬ Timed t.regs := fun h => hconverts h.2
      have hbitset : ¬ futexCommand t.regs = FUTEX_WAIT_BITSET := fun h => hconverts (Or.inl h)
      rw [if_neg hconverts]
      refine iff_of_true (waitKept_putregs htimed htimeout ?_) fun h => absurd h htimed
      cases timeout with
      | none => exact .none
      | some time => exact .some (by rw [WaitTakes, if_neg hbitset])

end

/-- A wait of an operation with five seconds at `0x9000`. -/
def fiveSeconds (op : U64) : Tracee := timedCall ⟨5, 0⟩ Nr.futex 0x6000 op 1 0x9000

/-- What a kernel without the operation gets to see, where the clocks read this. -/
def waited (now : Time) (op : U64) : Tracee :=
  ((Tracer.new 1 true false).translateFutex { Env.still Host.centos5 with clock _ _ := some now } 1
    (fiveSeconds op) (fiveSeconds op).regs).2.1

/-- A `FUTEX_WAIT_BITSET` until the fifth second takes four when the clock is at the first. -/
theorem Tracer.futex_wait_kept_bitset :
    WaitKept { Env.still Host.centos5 with clock _ _ := some ⟨1, 0⟩ } (some ⟨5, 0⟩) (fiveSeconds 9)
        (waited ⟨1, 0⟩ 9) ∧
      ((waited ⟨1, 0⟩ 9).mem.readStruct (waited ⟨1, 0⟩ 9).regs.r10 16).map (timeAt · 0) =
        some ⟨4, 0⟩ := by
  have htimeout : TimeoutAt (fiveSeconds 9).mem (fiveSeconds 9).regs.r10 (some ⟨5, 0⟩) :=
    ⟨by decide, by decide, _, rfl, by decide +kernel⟩
  have hclock : ∀ now, some (⟨1, 0⟩ : Time) = some now → now.Valid := by
    intro now h
    obtain rfl := Option.some.inj h
    decide
  refine ⟨(Tracer.futex_wait_kept_iff (Tracer.new 1 true false) _ 1 (by decide) (Or.inr (by decide))
    htimeout hclock).2 fun _ _ => ⟨by decide, fun h => ?_⟩, by decide +kernel⟩
  exact absurd h (by decide)

/-- **A wait for five seconds that does not wait at all**: with the realtime flag its timeout is
taken for a point in time, which has long passed. -/
theorem realtime_wait_ends_at_once :
    let env : Env := { Env.still Host.centos5 with clock _ _ := some ⟨1700000000, 0⟩ }
    let t := waited ⟨1700000000, 0⟩ 256
    futexCommand (fiveSeconds 256).regs = FUTEX_WAIT ∧
      (t.mem.readStruct t.regs.r10 16).map (timeAt · 0) = some ⟨0, 0⟩ ∧
      ¬ WaitKept env (some ⟨5, 0⟩) (fiveSeconds 256) t := by
  intro env t
  have hwait : futexCommand (fiveSeconds 256).regs = FUTEX_WAIT := by decide
  have hzero : (t.mem.readStruct t.regs.r10 16).map (timeAt · 0) = some ⟨0, 0⟩ := by
    decide +kernel
  refine ⟨hwait, hzero, fun h => ?_⟩
  have hun : ¬ Unconvertible env (fiveSeconds 256) := by
    rintro (h | ⟨-, h⟩)
    · exact absurd h (by decide)
    · exact h ⟨rfl, by decide +kernel⟩
  obtain ⟨timeout', hat, hrel⟩ := (h.replaced hun).timeout
  cases hrel with
  | some htakes =>
    obtain ⟨-, -, bytes, hread, htime⟩ := hat
    rw [hread, Option.map_some, htime] at hzero
    obtain rfl := Option.some.inj hzero
    rw [WaitTakes, if_neg (by rw [hwait]; decide)] at htakes
    exact absurd htakes (by decide)

end Tracing
end Sharun
