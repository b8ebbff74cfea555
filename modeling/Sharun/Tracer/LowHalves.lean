/-
# The half of a register the kernel reads

`SameDecision` says that `begin` and `on_syscall_stop` come to the same at two entry
stops the kernel cannot tell apart (`Twins`): the same call for the kernel to see, or the
same emulation, with its calls as the kernel sees them.  Whether they do is decided by
the few comparisons of whole registers collected in `Indifferent`, and by nothing else
(`same_decision_iff`).  Where it does not hold, an `ioctl` with a sign-extended request is
left alone on a kernel where the plain one is rewritten (`sign_extended_request`).
-/

import Sharun.Tracer.Twins
import Sharun.Tracer.Uses

namespace Sharun
namespace Tracing

open Machine Emulation Sharun.Basis

/-! ### Two stops -/

section

variable {env : Env} {s : Tracer} {pid : Pid} {t t' : Tracee}

/-- A call that `begin` declines. -/
theorem onTracedSyscall_declined (hidle : s.emulated.active pid = none)
    (h : (s.emulated.begin env pid t (s.entering pid)).2.2 = false) :
    (s.onTracedSyscall env pid t).tracer.emulated =
        (s.emulated.begin env pid t (s.entering pid)).1 ∧
      (s.onTracedSyscall env pid t).tracee =
        ({ s with emulated := (s.emulated.begin env pid t (s.entering pid)).1 }.onSyscallStop env
          pid (s.emulated.begin env pid t (s.entering pid)).2.1).2 := by
  rw [onTracedSyscall_idle env hidle]
  generalize s.emulated.begin env pid t (s.entering pid) = r at h
  obtain ⟨e, t₁, b⟩ := r
  obtain rfl : b = false := h
  exact ⟨Tracer.onSyscallStop_emulated .., rfl⟩

/-- A call that `begin` takes over. -/
theorem onTracedSyscall_taken (hidle : s.emulated.active pid = none)
    (h : (s.emulated.begin env pid t (s.entering pid)).2.2 = true) :
    (s.onTracedSyscall env pid t).tracer.emulated =
        (s.emulated.begin env pid t (s.entering pid)).1 ∧
      (s.onTracedSyscall env pid t).tracee =
        (s.emulated.begin env pid t (s.entering pid)).2.1 := by
  rw [onTracedSyscall_idle env hidle]
  generalize s.emulated.begin env pid t (s.entering pid) = r at h
  obtain ⟨e, t₁, b⟩ := r
  obtain rfl : b = true := h
  exact ⟨rfl, rfl⟩

theorem begin_declined_active (hidle : s.emulated.active pid = none) {entering : Bool}
    (h : (s.emulated.begin env pid t entering).2.2 = false) :
    (s.emulated.begin env pid t entering).1.active pid = none := by
  rw [((Emulations.begin_begun env s.emulated pid t entering).1.declined h).1, hidle]

/-- Two calls that are declined are decided alike where the kernel is to see the same. -/
theorem sameDecision_declined (hidle : s.emulated.active pid = none)
    (h : (s.emulated.begin env pid t (s.entering pid)).2.2 = false)
    (h' : (s.emulated.begin env pid t' (s.entering pid)).2.2 = false) :
    SameDecision pid (s.onTracedSyscall env pid t) (s.onTracedSyscall env pid t') ↔
      seen (callOf (s.onTracedSyscall env pid t).tracee.regs) =
        seen (callOf (s.onTracedSyscall env pid t').tracee.regs) := by
  have hnone : (s.onTracedSyscall env pid t).tracer.emulated.active pid = none := by
    rw [(onTracedSyscall_declined hidle h).1]
    exact begin_declined_active hidle h
  have hnone' : (s.onTracedSyscall env pid t').tracer.emulated.active pid = none := by
    rw [(onTracedSyscall_declined hidle h').1]
    exact begin_declined_active hidle h'
  constructor
  · intro hsame
    cases hsame with
    | passed hidle hidle' hcall => exact hcall
    | taken ha ha' hsame hcall hmem htimers => exact hcall
  · exact .passed hnone hnone'

/-- A call that is not rewritten in place is left as it is. -/
theorem onSyscallEntry_of_notMem (env : Env) (s : Tracer) (pid : Pid)
    (h : t.regs.origRax ∉ rewrittenCalls) : (s.onSyscallEntry env pid t).2 = t := by
  have hne : ∀ n : U64, n ∈ rewrittenCalls → t.regs.origRax ≠ n := fun n hn he => h (he ▸ hn)
  rw [Tracer.onSyscallEntry]
  split
  · rfl
  · rename_i regs hregs
    obtain ⟨-, rfl⟩ := Tracee.getregs_eq_some.1 hregs
    split_ifs
    · rfl
    · dsimp only
      rw [Tracer.translateCommon, if_neg (hne Nr.futex (by decide)),
        if_neg fun hc => hne Nr.pipe2 (by decide) hc.1,
        if_neg fun hc => hne Nr.statx (by decide) hc.1]
      dsimp only
      rw [Tracer.rewriteEntry, if_neg fun hc => hne Nr.epollCreate1 (by decide) hc.1,
        if_neg fun hc => hne Nr.prlimit64 (by decide) hc.1,
        if_neg fun hc => hne Nr.ioctl (by decide) hc.1, if_neg, if_neg fun hc =>
          hne Nr.ppoll (by decide) hc.1]
      rintro (hc | hc | hc)
      · exact hne Nr.clockGettime (by decide) hc
      · exact hne Nr.clockGetres (by decide) hc
      · exact hne Nr.clockNanosleep (by decide) hc

/-- A call that is taken over is an emulation in progress. -/
theorem onTracedSyscall_active (hidle : s.emulated.active pid = none)
    (h : (s.emulated.begin env pid t (s.entering pid)).2.2 = true) :
    ∃ a, (s.onTracedSyscall env pid t).tracer.emulated.active pid = some a := by
  obtain ⟨a, ha, -⟩ :=
    (Emulations.begin_begun env s.emulated pid t (s.entering pid)).1.started h
  refine ⟨a, ?_⟩
  rw [(onTracedSyscall_taken hidle h).1, ha, Function.update_self]

/-- A call that is neither taken over nor rewritten in place is left alone. -/
theorem onTracedSyscall_alone (hidle : s.emulated.active pid = none)
    (hentering : s.entering pid = true) (hnr : t.regs.origRax ∉ rewrittenCalls)
    (h : (s.emulated.begin env pid t (s.entering pid)).2.2 = false) :
    (s.onTracedSyscall env pid t).tracee.regs = t.regs := by
  have hsame := ((Emulations.begin_begun env s.emulated pid t (s.entering pid)).1.declined h).2.regs
  have hmode : ({ s with emulated := (s.emulated.begin env pid t (s.entering pid)).1 } :
      Tracer).entering pid = true := hentering
  rw [(onTracedSyscall_declined hidle h).2, Tracer.onSyscallStop, if_pos hmode,
    onSyscallEntry_of_notMem, hsame]
  rw [hsame]
  exact hnr

/-- Where no call is rewritten in place the decision is that of `begin`. -/
theorem sameDecision_iff_sameOutcome (h : Twins t t') (hidle : s.emulated.active pid = none)
    (hentering : s.entering pid = true) (hnr : t.regs.origRax ∉ rewrittenCalls) :
    SameDecision pid (s.onTracedSyscall env pid t) (s.onTracedSyscall env pid t') ↔
      SameOutcome pid (s.emulated.begin env pid t (s.entering pid))
        (s.emulated.begin env pid t' (s.entering pid)) := by
  have hnone : ∀ {u : Tracee}, (s.emulated.begin env pid u (s.entering pid)).2.2 = false →
      (s.onTracedSyscall env pid u).tracer.emulated.active pid = none := by
    intro u hu
    rw [(onTracedSyscall_declined hidle hu).1]
    exact begin_declined_active hidle hu
  have hdeclined : ∀ {u : Tracee}, (s.onTracedSyscall env pid u).tracer.emulated.active pid = none →
      (s.emulated.begin env pid u (s.entering pid)).2.2 = false := by
    intro u hu
    rw [← Bool.not_eq_true]
    intro hr
    obtain ⟨a, ha⟩ := onTracedSyscall_active hidle hr
    exact absurd (hu.symm.trans ha) (by simp)
  have htaken : ∀ {u : Tracee} {a : Active},
      (s.onTracedSyscall env pid u).tracer.emulated.active pid = some a →
      (s.emulated.begin env pid u (s.entering pid)).2.2 = true := by
    intro u a hu
    rw [← Bool.not_eq_false]
    intro hr
    exact absurd ((hnone hr).symm.trans hu) (by simp)
  constructor
  · intro hsame
    cases hsame with
    | passed hi hi' hcall => exact .declined (hdeclined hi) (hdeclined hi')
    | taken ha ha' hsame hcall hmem htimers =>
      obtain ⟨he, ht⟩ := onTracedSyscall_taken hidle (htaken ha)
      obtain ⟨he', ht'⟩ := onTracedSyscall_taken hidle (htaken ha')
      rw [he] at htimers
      rw [ht] at hcall hmem
      rw [he'] at htimers
      rw [ht'] at hcall hmem
      exact .taken (htaken ha) (htaken ha') (he ▸ ha) (he' ▸ ha') hsame hcall hmem htimers
  · intro hsame
    cases hsame with
    | declined hr hr' =>
      refine .passed (hnone hr) (hnone hr') ?_
      rw [onTracedSyscall_alone hidle hentering hnr hr, onTracedSyscall_alone hidle hentering
        (by rw [h.origRax]; exact hnr) hr']
      exact h.call
    | taken hr hr' ha ha' hsame hcall hmem htimers =>
      obtain ⟨he, ht⟩ := onTracedSyscall_taken hidle hr
      obtain ⟨he', ht'⟩ := onTracedSyscall_taken hidle hr'
      rw [← he] at ha htimers
      rw [← he'] at ha' htimers
      rw [← ht, ← ht'] at hcall hmem
      exact .taken ha ha' hsame hcall hmem htimers

end

/-! ### Calls that are rewritten in place -/

section

variable {env : Env} {s : Tracer} {pid : Pid} {t t' : Tracee}

/-- The call the kernel is to see once the registers of twins have been set. -/
theorem putregs_same_iff (h : Twins t t') (r r' : Regs) :
    seen (callOf (t.putregs r).regs) = seen (callOf (t'.putregs r').regs) ↔
      (t.canSet = true → seen (callOf r) = seen (callOf r')) := by
  have hset' := h.canSet
  cases hset : t.canSet with
  | true =>
    rw [hset] at hset'
    rw [Tracee.putregs_of_canSet hset, Tracee.putregs_of_canSet hset'.symm]
    exact ⟨fun hs _ => hs, fun hs => hs rfl⟩
  | false =>
    rw [hset] at hset'
    rw [Tracee.putregs_of_not_canSet hset, Tracee.putregs_of_not_canSet hset'.symm]
    exact iff_of_true h.call fun hs => absurd hs (by decide)

/-- What the memory holds makes no difference to the registers. -/
theorem putregs_regs_congr {u : Tracee} (h : t.SameRegs u) (r : Regs) :
    (u.putregs r).regs = (t.putregs r).regs := by
  cases hset : t.canSet with
  | true =>
    rw [Tracee.putregs_of_canSet hset, Tracee.putregs_of_canSet (h.canSet.trans hset)]
  | false =>
    rw [Tracee.putregs_of_not_canSet hset, Tracee.putregs_of_not_canSet (h.canSet.trans hset),
      h.regs]

theorem reserveRelativeTimeout_congr (hmem : t.mem = t'.mem) (ptr : U64) (realtime : Bool)
    (rsp : U64) : (reserveRelativeTimeout env t' ptr realtime rsp).2 =
      (reserveRelativeTimeout env t ptr realtime rsp).2 := by
  have hwrite : ∀ (addr : U64) (bytes : List Byte),
      (t'.writeStruct addr bytes).2 = (t.writeStruct addr bytes).2 := by
    intro addr bytes
    rw [Tracee.writeStruct, Tracee.writeStruct, hmem]
  rw [reserveRelativeTimeout, reserveRelativeTimeout, hmem]
  split
  · rfl
  · split
    · rfl
    · split
      · rfl
      · dsimp only
        split <;> rename_i heq <;> split <;> rename_i heq'
        · rfl
        · have hok := (congrArg Prod.snd heq).symm.trans
            ((hwrite _ _).trans (congrArg Prod.snd heq'))
          exact absurd hok (by simp)
        · have hok := (congrArg Prod.snd heq).symm.trans
            ((hwrite _ _).trans (congrArg Prod.snd heq'))
          exact absurd hok (by simp)
        · rfl

/-- The futex calls of twins. -/
theorem translateFutex_same (h : Twins t t') (hnr : t.regs.origRax = Nr.futex) :
    seen (callOf (s.translateFutex env pid t t.regs).2.1.regs) =
      seen (callOf (s.translateFutex env pid t' t'.regs).2.1.regs) := by
  have hop : t'.regs.rsi.setWidth 32 = t.regs.rsi.setWidth 32 := (read_int.1 (h.arg1 hnr)).symm
  have htimeout : t'.regs.r10 = t.regs.r10 := (h.arg3 hnr).symm
  have hreserve : ∀ (ptr : U64) (realtime : Bool) (rsp : U64),
      (reserveRelativeTimeout env t' ptr realtime rsp).2 =
        (reserveRelativeTimeout env t ptr realtime rsp).2 := reserveRelativeTimeout_congr h.mem
  have hregs := fun ptr realtime rsp => reserveRelativeTimeout_sameRegs env t ptr realtime rsp
  have hregs' := fun ptr realtime rsp => reserveRelativeTimeout_sameRegs env t' ptr realtime rsp
  rw [Tracer.translateFutex, Tracer.translateFutex, hop, htimeout, h.rsp]
  split_ifs
  · exact h.call
  dsimp only
  split_ifs
  · exact h.call
  · generalize (decide (t.regs.rsi.setWidth 32 &&& FUTEX_CLOCK_REALTIME ≠ 0)) = realtime
    specialize hreserve t.regs.r10 realtime t.regs.rsp
    specialize hregs t.regs.r10 realtime t.regs.rsp
    specialize hregs' t.regs.r10 realtime t.regs.rsp
    generalize reserveRelativeTimeout env t t.regs.r10 realtime t.regs.rsp = x at hreserve hregs
    generalize reserveRelativeTimeout env t' t.regs.r10 realtime t.regs.rsp = x' at hreserve hregs'
    obtain ⟨u, r⟩ := x
    obtain ⟨u', r'⟩ := x'
    obtain rfl : r' = r := hreserve
    cases r' with
    | error e =>
      dsimp only
      rw [hregs.regs, hregs'.regs]
      exact h.call
    | ok scratch =>
      cases scratch with
      | none =>
        dsimp only
        rw [putregs_regs_congr hregs, putregs_regs_congr hregs']
        exact (putregs_same_iff h _ _).2 fun _ => seen_congr h.origRax (h.arg0 rfl) rfl
          (h.arg2 rfl) rfl (h.arg4 rfl) (h.arg5 rfl)
      | some scratch =>
        dsimp only
        rw [putregs_regs_congr hregs, putregs_regs_congr hregs']
        exact (putregs_same_iff h _ _).2 fun _ => seen_congr h.origRax (h.arg0 rfl) rfl
          (h.arg2 rfl) rfl (h.arg4 rfl) (h.arg5 rfl)
  · exact (putregs_same_iff h _ _).2 fun _ => seen_congr h.origRax (h.arg0 rfl) rfl (h.arg2 rfl)
      rfl (h.arg4 rfl) (h.arg5 rfl)

theorem setupStatx_tracee (s : Tracer) (pid : Pid) (t : Tracee) :
    (s.setupStatx pid t t.regs).2 =
      if t.regs.r8 = 0 then t else t.putregs (Tracer.statxFallback t.regs) := by
  rw [Tracer.setupStatx, Tracee.putregs]
  split_ifs
  · rfl
  · cases t.setregs (Tracer.statxFallback t.regs) with
    | none => rfl
    | some u => rfl

/-- The `statx` calls of twins. -/
theorem setupStatx_same (h : Twins t t') (hnr : t.regs.origRax = Nr.statx) :
    seen (callOf (s.setupStatx pid t t.regs).2.regs) =
      seen (callOf (s.setupStatx pid t' t'.regs).2.regs) := by
  have hbuf : t'.regs.r8 = t.regs.r8 := (h.arg4 hnr).symm
  have hlow : low t'.regs.rdx = low t.regs.rdx := (read_int.1 (h.arg2 hnr)).symm
  have hempty := flag_congr AT_EMPTY_PATH hlow (by decide)
  have hlink := flag_congr AT_SYMLINK_NOFOLLOW hlow (by decide)
  have hfd := h.arg0 hnr
  have hpath := h.arg1 hnr
  rw [setupStatx_tracee, setupStatx_tracee, hbuf]
  split_ifs
  · exact h.call
  · refine (putregs_same_iff h _ _).2 fun _ => ?_
    rw [Tracer.statxFallback, Tracer.statxFallback, hempty, hlink, h.scratch]
    split_ifs
    · exact seen_congr rfl hfd rfl rfl rfl rfl rfl
    · exact seen_congr rfl hfd hpath rfl rfl rfl rfl

/-- The registers as they are. -/
theorem putregs_self (t : Tracee) : (t.putregs t.regs).regs = t.regs := by
  cases hset : t.canSet with
  | true => rw [Tracee.putregs_of_canSet hset]
  | false => rw [Tracee.putregs_of_not_canSet hset]

theorem setupTermios2_regs (s : Tracer) (pid : Pid) (hcs : t.regs.cs = userCs) :
    (s.setupTermios2 pid t t.regs).2.regs = (t.putregs
      { t.regs with rsi := (legacyTermiosRequest t.regs.rsi).getD t.regs.rsi }).regs := by
  rw [Tracer.setupTermios2, if_neg (not_not.2 hcs)]
  cases legacyTermiosRequest t.regs.rsi with
  | none => exact (putregs_self t).symm
  | some legacy =>
    rw [Option.getD_some, Tracee.putregs]
    dsimp only
    cases t.setregs { t.regs with rsi := legacy } with
    | none => rfl
    | some u =>
      dsimp only
      split_ifs
      · rfl
      · rfl

/-- A request that is translated is a 32-bit number, and not the one it becomes. -/
theorem legacyTermiosRequest_some {request legacy : U64}
    (h : legacyTermiosRequest request = some legacy) :
    request = (low request).setWidth 64 ∧ low legacy ≠ low request := by
  rw [legacyTermiosRequest] at h
  split_ifs at h with h₁ h₂ h₃ h₄
  · obtain rfl := Option.some.inj h
    rw [h₁]
    decide
  · obtain rfl := Option.some.inj h
    rw [h₂]
    decide
  · obtain rfl := Option.some.inj h
    rw [h₃]
    decide
  · obtain rfl := Option.some.inj h
    rw [h₄]
    decide

/-- The kernel is given the same request exactly where the tracer takes it for the same. -/
theorem legacyTermiosRequest_low {x y : U64} (h : low x = low y) :
    low ((legacyTermiosRequest x).getD x) = low ((legacyTermiosRequest y).getD y) ↔
      legacyTermiosRequest x = legacyTermiosRequest y := by
  cases hx : legacyTermiosRequest x with
  | none =>
    cases hy : legacyTermiosRequest y with
    | none => exact iff_of_true h rfl
    | some legacy =>
      refine iff_of_false (fun hlow => ?_) (by simp)
      rw [Option.getD_none, Option.getD_some] at hlow
      exact (legacyTermiosRequest_some hy).2 (hlow.symm.trans h)
  | some legacy =>
    cases hy : legacyTermiosRequest y with
    | none =>
      refine iff_of_false (fun hlow => ?_) (by simp)
      rw [Option.getD_none, Option.getD_some] at hlow
      exact (legacyTermiosRequest_some hx).2 (hlow.trans h.symm)
    | some legacy' =>
      have hxy : x = y := by
        rw [(legacyTermiosRequest_some hx).1, h, ← (legacyTermiosRequest_some hy).1]
      rw [hxy, hy] at hx
      rw [hx]
      exact iff_of_true rfl rfl

/-- The `ioctl` calls of twins. -/
theorem setupTermios2_same (h : Twins t t') (hnr : t.regs.origRax = Nr.ioctl)
    (hcs : t.regs.cs = userCs) :
    seen (callOf (s.setupTermios2 pid t t.regs).2.regs) =
        seen (callOf (s.setupTermios2 pid t' t'.regs).2.regs) ↔
      (t.canSet = true →
        legacyTermiosRequest t.regs.rsi = legacyTermiosRequest t'.regs.rsi) := by
  have hlow : low t.regs.rsi = low t'.regs.rsi := read_int.1 (h.arg1 hnr)
  rw [setupTermios2_regs s pid hcs, setupTermios2_regs s pid (h.cs.trans hcs),
    putregs_same_iff h]
  refine imp_congr_right fun _ => ?_
  rw [← legacyTermiosRequest_low hlow, ← read_int]
  constructor
  · intro hs
    have ha : (argOf t.regs.origRax 1).read _ = (argOf t'.regs.origRax 1).read _ :=
      congrArg Call.a1 hs
    rwa [h.origRax, hnr] at ha
  · intro ha
    refine seen_congr h.origRax (h.arg0 rfl) ?_ (h.arg2 rfl) (h.arg3 rfl) (h.arg4 rfl) (h.arg5 rfl)
    have hdecl : argOf t.regs.origRax 1 = .int := by rw [hnr]; rfl
    exact (congrArg (fun a : Arg => a.read _) hdecl).trans
      (ha.trans (congrArg (fun a : Arg => a.read _) hdecl).symm)

/-- The `prlimit64` calls of twins. -/
theorem prlimitFallback_same (h : Twins t t') (hnr : t.regs.origRax = Nr.prlimit64) :
    seen (callOf (Tracer.prlimitFallback t.regs)) =
      seen (callOf (Tracer.prlimitFallback t'.regs)) := by
  have hresource := h.arg1 hnr
  have hnew : t'.regs.rdx = t.regs.rdx := (h.arg2 hnr).symm
  have hold : t'.regs.r10 = t.regs.r10 := (h.arg3 hnr).symm
  rw [Tracer.prlimitFallback, Tracer.prlimitFallback, hnew, hold]
  cases decide (t.regs.rdx ≠ 0) with
  | true => exact seen_congr rfl hresource rfl rfl rfl rfl rfl
  | false => exact seen_congr rfl hresource rfl rfl rfl rfl rfl

theorem ppollTimeout_congr (hmem : t.mem = t'.mem) (ts : U64) :
    ppollTimeout t' ts = ppollTimeout t ts := by
  rw [ppollTimeout, ppollTimeout, hmem]

/-- The tracer once it has noted the number of a call. -/
def noted (s : Tracer) (pid : Pid) (nr : U64) : Tracer :=
  { s with lastSyscall := Function.update s.lastSyscall pid (some nr) }

/-- An entry stop of a 64-bit tracee. -/
theorem onSyscallEntry_long (env : Env) (s : Tracer) (pid : Pid) (hget : t.canGet = true)
    (hcs : t.regs.cs = userCs) :
    s.onSyscallEntry env pid t =
      match (noted s pid t.regs.origRax).translateCommon env pid t t.regs with
      | (s₁, u, some _) => (s₁, u)
      | (s₁, u, none) => s₁.rewriteEntry env pid u t.regs := by
  have hregs : t.getregs = some t.regs := Tracee.getregs_eq_some.2 ⟨hget, rfl⟩
  rw [Tracer.onSyscallEntry, hregs]
  dsimp only
  rw [if_neg (not_not.2 hcs)]
  rfl

/-- The entry stop of a call that only the every-syscall mode rewrites. -/
theorem onSyscallEntry_rest (env : Env) (s : Tracer) (pid : Pid) (hget : t.canGet = true)
    (hcs : t.regs.cs = userCs) (hfutex : t.regs.origRax ≠ Nr.futex)
    (hpipe : t.regs.origRax ≠ Nr.pipe2) (hstatx : t.regs.origRax ≠ Nr.statx) :
    s.onSyscallEntry env pid t =
      (noted s pid t.regs.origRax).rewriteEntry env pid t t.regs := by
  rw [onSyscallEntry_long env s pid hget hcs, Tracer.translateCommon, if_neg hfutex,
    if_neg fun hc => hpipe hc.1, if_neg fun hc => hstatx hc.1]

/-- What the comparisons of whole registers come to in the calls that are rewritten in
place. -/
def RewrittenAlike (env : Env) (t t' : Tracee) : Prop :=
  if t.regs.origRax = Nr.prlimit64 then
    env.host.prlimit64Missing = true → t.canSet = true → (t.regs.rdi = 0 ↔ t'.regs.rdi = 0)
  else if t.regs.origRax = Nr.ioctl then
    env.host.termios2Missing = true → t.canSet = true →
      legacyTermiosRequest t.regs.rsi = legacyTermiosRequest t'.regs.rsi
  else if t.regs.origRax = Nr.clockGettime ∨ t.regs.origRax = Nr.clockGetres ∨
      t.regs.origRax = Nr.clockNanosleep then
    t.canSet = true → low (env.host.clockidFor t.regs.rdi) = low (env.host.clockidFor t'.regs.rdi)
  else True

theorem rewriteEntry_prlimit64 (hnr : t.regs.origRax = Nr.prlimit64) (s : Tracer) (pid : Pid) :
    (s.rewriteEntry env pid t t.regs).2 =
      if env.host.prlimit64Missing = true ∧ t.regs.rdi = 0 then
        t.putregs (Tracer.prlimitFallback t.regs)
      else t := by
  have hne : ∀ n : U64, n ≠ Nr.prlimit64 → t.regs.origRax ≠ n := fun n hn he => hn (he ▸ hnr)
  rw [Tracer.rewriteEntry, if_neg fun hc => hne Nr.epollCreate1 (by decide) hc.1]
  by_cases hmissing : env.host.prlimit64Missing = true
  · rw [if_pos ⟨hnr, hmissing⟩]
    by_cases hself : t.regs.rdi = 0
    · rw [if_pos hself, if_pos ⟨hmissing, hself⟩]
    · rw [if_neg hself, if_neg fun hc => hself hc.2]
  · rw [if_neg fun hc => hmissing hc.2, if_neg fun hc => hne Nr.ioctl (by decide) hc.1, if_neg,
      if_neg fun hc => hne Nr.ppoll (by decide) hc.1, if_neg fun hc => hmissing hc.1]
    rintro (hc | hc | hc)
    · exact hne Nr.clockGettime (by decide) hc
    · exact hne Nr.clockGetres (by decide) hc
    · exact hne Nr.clockNanosleep (by decide) hc

theorem rewritten_prlimit64 (h : Twins t t') (hnr : t.regs.origRax = Nr.prlimit64)
    (s : Tracer) (pid : Pid) :
    seen (callOf (s.rewriteEntry env pid t t.regs).2.regs) =
        seen (callOf (s.rewriteEntry env pid t' t'.regs).2.regs) ↔
      (env.host.prlimit64Missing = true → t.canSet = true →
        (t.regs.rdi = 0 ↔ t'.regs.rdi = 0)) := by
  have hnr' : t'.regs.origRax = Nr.prlimit64 := h.origRax.trans hnr
  -- A call that is left alone keeps its number, and the number of its replacement is another.
  have hother : ∀ u u' : Tracee, u.regs.origRax = Nr.prlimit64 →
      seen (callOf (Tracer.prlimitFallback u'.regs)) ≠ seen (callOf u.regs) := by
    intro u u' hu hs
    have hc : (Tracer.prlimitFallback u'.regs).origRax = u.regs.origRax := congrArg Call.nr hs
    rw [hu, Tracer.prlimitFallback] at hc
    dsimp only at hc
    split_ifs at hc
    · exact absurd hc (by decide)
    · exact absurd hc (by decide)
  rw [rewriteEntry_prlimit64 hnr, rewriteEntry_prlimit64 hnr']
  cases env.host.prlimit64Missing with
  | false =>
    rw [if_neg (by simp), if_neg (by simp)]
    exact iff_of_true h.call fun hm => absurd hm (by decide)
  | true =>
    have hset' := h.canSet
    by_cases hself : t.regs.rdi = 0 <;> by_cases hself' : t'.regs.rdi = 0
    · rw [if_pos ⟨rfl, hself⟩, if_pos ⟨rfl, hself'⟩]
      exact iff_of_true ((putregs_same_iff h _ _).2 fun _ => prlimitFallback_same h hnr)
        fun _ _ => iff_of_true hself hself'
    · rw [if_pos ⟨rfl, hself⟩, if_neg fun hc => hself' hc.2]
      cases hset : t.canSet with
      | true =>
        rw [Tracee.putregs_of_canSet hset]
        exact iff_of_false (hother t' t hnr') fun hc => hself' ((hc rfl rfl).1 hself)
      | false =>
        rw [Tracee.putregs_of_not_canSet hset]
        exact iff_of_true h.call fun _ hs => absurd hs (by decide)
    · rw [if_neg fun hc => hself hc.2, if_pos ⟨rfl, hself'⟩]
      cases hset : t.canSet with
      | true =>
        rw [Tracee.putregs_of_canSet (hset'.symm.trans hset)]
        exact iff_of_false (hother t t' hnr).symm fun hc => hself ((hc rfl rfl).2 hself')
      | false =>
        rw [Tracee.putregs_of_not_canSet (hset'.symm.trans hset)]
        exact iff_of_true h.call fun _ hs => absurd hs (by decide)
    · rw [if_neg fun hc => hself hc.2, if_neg fun hc => hself' hc.2]
      exact iff_of_true h.call fun _ _ => iff_of_false hself hself'

theorem rewritten_ioctl (h : Twins t t') (hnr : t.regs.origRax = Nr.ioctl)
    (hcs : t.regs.cs = userCs) (s : Tracer) (pid : Pid) :
    seen (callOf (s.rewriteEntry env pid t t.regs).2.regs) =
        seen (callOf (s.rewriteEntry env pid t' t'.regs).2.regs) ↔
      (env.host.termios2Missing = true → t.canSet = true →
        legacyTermiosRequest t.regs.rsi = legacyTermiosRequest t'.regs.rsi) := by
  have hentry : ∀ {u : Tracee}, u.regs.origRax = Nr.ioctl →
      (s.rewriteEntry env pid u u.regs).2 =
        if env.host.termios2Missing = true then (s.setupTermios2 pid u u.regs).2 else u := by
    intro u hu
    rw [Tracer.rewriteEntry]
    cases env.host.termios2Missing with
    | false => simp [hu]
    | true => simp [hu]
  rw [hentry hnr, hentry (h.origRax.trans hnr)]
  cases env.host.termios2Missing with
  | false =>
    rw [if_neg (by decide), if_neg (by decide)]
    exact iff_of_true h.call fun hm => absurd hm (by decide)
  | true =>
    rw [if_pos rfl, if_pos rfl, setupTermios2_same h hnr hcs]
    exact ⟨fun hs _ => hs, fun hs => hs rfl⟩

theorem rewritten_clock (h : Twins t t') (hnr : t.regs.origRax = Nr.clockGettime ∨
      t.regs.origRax = Nr.clockGetres ∨ t.regs.origRax = Nr.clockNanosleep)
    (s : Tracer) (pid : Pid) :
    seen (callOf (s.rewriteEntry env pid t t.regs).2.regs) =
        seen (callOf (s.rewriteEntry env pid t' t'.regs).2.regs) ↔
      (t.canSet = true →
        low (env.host.clockidFor t.regs.rdi) = low (env.host.clockidFor t'.regs.rdi)) := by
  have hentry : ∀ {u : Tracee}, u.regs.origRax = Nr.clockGettime ∨
      u.regs.origRax = Nr.clockGetres ∨ u.regs.origRax = Nr.clockNanosleep →
      (s.rewriteEntry env pid u u.regs).2.regs =
        (u.putregs { u.regs with rdi := env.host.clockidFor u.regs.rdi }).regs := by
    intro u hu
    have hskip : (s.rewriteEntry env pid u u.regs).2 =
        if env.host.clockidFor u.regs.rdi ≠ u.regs.rdi then
          u.putregs { u.regs with rdi := env.host.clockidFor u.regs.rdi }
        else u := by
      have hne : ∀ n : U64, n ≠ Nr.clockGettime → n ≠ Nr.clockGetres → n ≠ Nr.clockNanosleep →
          u.regs.origRax ≠ n := by
        intro n h₁ h₂ h₃ he
        rcases hu with hu | hu | hu
        · exact h₁ (he.symm.trans hu)
        · exact h₂ (he.symm.trans hu)
        · exact h₃ (he.symm.trans hu)
      rw [Tracer.rewriteEntry,
        if_neg fun hc => hne Nr.epollCreate1 (by decide) (by decide) (by decide) hc.1,
        if_neg fun hc => hne Nr.prlimit64 (by decide) (by decide) (by decide) hc.1,
        if_neg fun hc => hne Nr.ioctl (by decide) (by decide) (by decide) hc.1, if_pos hu]
      dsimp only
      split_ifs
      · rfl
      · rfl
    rw [hskip]
    by_cases heq : env.host.clockidFor u.regs.rdi = u.regs.rdi
    · rw [if_neg (not_not.2 heq), heq]
      exact (putregs_self u).symm
    · rw [if_pos heq]
  have hdecl : argOf t.regs.origRax 0 = .int := by
    rcases hnr with hnr | hnr | hnr
    · rw [hnr]; rfl
    · rw [hnr]; rfl
    · rw [hnr]; rfl
  have hnr' := hnr
  rw [← h.origRax] at hnr'
  rw [hentry hnr, hentry hnr', putregs_same_iff h]
  refine imp_congr_right fun _ => ?_
  rw [← read_int, ← hdecl]
  constructor
  · intro hs
    have ha : (argOf t.regs.origRax 0).read _ = (argOf t'.regs.origRax 0).read _ :=
      congrArg Call.a0 hs
    rwa [h.origRax] at ha
  · intro ha
    exact seen_congr h.origRax ha (h.arg1 rfl) (h.arg2 rfl) (h.arg3 rfl) (h.arg4 rfl) (h.arg5 rfl)

theorem rewritten_epollCreate1 (h : Twins t t') (hnr : t.regs.origRax = Nr.epollCreate1)
    (s : Tracer) (pid : Pid) :
    seen (callOf (s.rewriteEntry env pid t t.regs).2.regs) =
      seen (callOf (s.rewriteEntry env pid t' t'.regs).2.regs) := by
  have hentry : ∀ {u : Tracee}, u.regs.origRax = Nr.epollCreate1 →
      (s.rewriteEntry env pid u u.regs).2 =
        if env.host.epollCreate1Missing = true then u.putregs
          { u.regs with origRax := Nr.epollCreate, rax := Nr.epollCreate, rdi := 1 }
        else u := by
    intro u hu
    rw [Tracer.rewriteEntry]
    cases env.host.epollCreate1Missing with
    | false => simp [hu]
    | true => simp [hu]
  rw [hentry hnr, hentry (h.origRax.trans hnr)]
  split_ifs
  · exact (putregs_same_iff h _ _).2 fun _ => rfl
  · exact h.call

theorem rewriteEntry_ppoll (hnr : t.regs.origRax = Nr.ppoll) (s : Tracer) (pid : Pid) :
    (s.rewriteEntry env pid t t.regs).2 =
      if env.host.ppollMissing = true then t.putregs
        { t.regs with
          rdx := asU64 (ppollTimeout t t.regs.rdx), origRax := Nr.poll, rax := Nr.poll }
      else t := by
  rw [Tracer.rewriteEntry]
  cases env.host.ppollMissing with
  | false => simp [hnr]
  | true => simp [hnr]

theorem rewritten_ppoll (h : Twins t t') (hnr : t.regs.origRax = Nr.ppoll)
    (s : Tracer) (pid : Pid) :
    seen (callOf (s.rewriteEntry env pid t t.regs).2.regs) =
      seen (callOf (s.rewriteEntry env pid t' t'.regs).2.regs) := by
  have hts : t'.regs.rdx = t.regs.rdx := (h.arg2 hnr).symm
  have hfds := h.arg0 hnr
  have hnfds := h.arg1 hnr
  rw [rewriteEntry_ppoll hnr, rewriteEntry_ppoll (h.origRax.trans hnr)]
  split_ifs
  · refine (putregs_same_iff h _ _).2 fun _ => ?_
    rw [hts, ppollTimeout_congr h.mem]
    exact seen_congr rfl hfds hnfds rfl rfl rfl rfl
  · exact h.call

theorem rewriteEntry_of_translated (s : Tracer) (pid : Pid)
    (hnr : t.regs.origRax = Nr.pipe2 ∨ t.regs.origRax = Nr.statx) :
    s.rewriteEntry env pid t t.regs = (s, t) := by
  have hne : ∀ n : U64, n ≠ Nr.pipe2 → n ≠ Nr.statx → t.regs.origRax ≠ n := by
    intro n h₁ h₂ he
    rcases hnr with hnr | hnr
    · exact h₁ (he.symm.trans hnr)
    · exact h₂ (he.symm.trans hnr)
  rw [Tracer.rewriteEntry, if_neg fun hc => hne Nr.epollCreate1 (by decide) (by decide) hc.1,
    if_neg fun hc => hne Nr.prlimit64 (by decide) (by decide) hc.1,
    if_neg fun hc => hne Nr.ioctl (by decide) (by decide) hc.1, if_neg,
    if_neg fun hc => hne Nr.ppoll (by decide) (by decide) hc.1]
  rintro (hc | hc | hc)
  · exact hne Nr.clockGettime (by decide) (by decide) hc
  · exact hne Nr.clockGetres (by decide) (by decide) hc
  · exact hne Nr.clockNanosleep (by decide) (by decide) hc

/-- The entry stop of a `pipe2` or a `statx`. -/
theorem onSyscallEntry_translated (env : Env) (s : Tracer) (pid : Pid) (hget : t.canGet = true)
    (hcs : t.regs.cs = userCs) (hnr : t.regs.origRax = Nr.pipe2 ∨ t.regs.origRax = Nr.statx) :
    (s.onSyscallEntry env pid t).2 =
      if t.regs.origRax = Nr.pipe2 ∧ env.host.pipe2Missing = true then
        t.putregs { t.regs with origRax := Nr.pipe, rax := Nr.pipe }
      else if t.regs.origRax = Nr.statx ∧ env.host.statxMissing = true then
        ((noted s pid t.regs.origRax).setupStatx pid t t.regs).2
      else t := by
  have hfutex : t.regs.origRax ≠ Nr.futex := by
    rcases hnr with hnr | hnr
    · rw [hnr]; decide
    · rw [hnr]; decide
  rw [onSyscallEntry_long env s pid hget hcs, Tracer.translateCommon, if_neg hfutex]
  by_cases hpipe : t.regs.origRax = Nr.pipe2 ∧ env.host.pipe2Missing = true
  · rw [if_pos hpipe, if_pos hpipe]
  by_cases hstatx : t.regs.origRax = Nr.statx ∧ env.host.statxMissing = true
  · rw [if_neg hpipe, if_neg hpipe, if_pos hstatx, if_pos hstatx]
  · rw [if_neg hpipe, if_neg hpipe, if_neg hstatx, if_neg hstatx]
    dsimp only
    rw [rewriteEntry_of_translated _ pid hnr]

theorem rewritten_translated (h : Twins t t') (hget : t.canGet = true) (hcs : t.regs.cs = userCs)
    (hnr : t.regs.origRax = Nr.pipe2 ∨ t.regs.origRax = Nr.statx) (s : Tracer) (pid : Pid) :
    seen (callOf (s.onSyscallEntry env pid t).2.regs) =
      seen (callOf (s.onSyscallEntry env pid t').2.regs) := by
  have hnr' := hnr
  rw [← h.origRax] at hnr'
  rw [onSyscallEntry_translated env s pid hget hcs hnr,
    onSyscallEntry_translated env s pid (h.canGet.symm.trans hget) (h.cs.trans hcs) hnr', h.origRax]
  split_ifs with hpipe hstatx
  · have hbuf := h.arg0 hpipe.1
    exact (putregs_same_iff h _ _).2 fun _ => seen_congr rfl hbuf rfl rfl rfl rfl rfl
  · exact setupStatx_same h hstatx.1
  · exact h.call

/-- **The calls that are rewritten in place.** -/
theorem rewritten_iff (h : Twins t t') (hget : t.canGet = true) (hcs : t.regs.cs = userCs)
    (hmem : t.regs.origRax ∈ rewrittenCalls) (s : Tracer) (pid : Pid) :
    seen (callOf (s.onSyscallEntry env pid t).2.regs) =
        seen (callOf (s.onSyscallEntry env pid t').2.regs) ↔ RewrittenAlike env t t' := by
  have hget' : t'.canGet = true := h.canGet.symm.trans hget
  have hcs' : t'.regs.cs = userCs := h.cs.trans hcs
  have hnr := h.origRax
  rw [RewrittenAlike]
  by_cases hfutex : t.regs.origRax = Nr.futex
  · rw [onSyscallEntry_long env s pid hget hcs, onSyscallEntry_long env s pid hget' hcs',
      Tracer.translateCommon, if_pos hfutex, Tracer.translateCommon,
      if_pos (hnr.trans hfutex), hnr, hfutex]
    exact iff_of_true (translateFutex_same h hfutex) (by simp)
  by_cases hpipe : t.regs.origRax = Nr.pipe2
  · refine iff_of_true (rewritten_translated h hget hcs (.inl hpipe) s pid) ?_
    simp [hpipe]
  by_cases hstatx : t.regs.origRax = Nr.statx
  · refine iff_of_true (rewritten_translated h hget hcs (.inr hstatx) s pid) ?_
    simp [hstatx]
  rw [onSyscallEntry_rest env s pid hget hcs hfutex hpipe hstatx,
    onSyscallEntry_rest env s pid hget' hcs' (hnr ▸ hfutex) (hnr ▸ hpipe) (hnr ▸ hstatx), hnr]
  split_ifs with hprlimit hioctl hclock
  · exact rewritten_prlimit64 h hprlimit _ pid
  · exact rewritten_ioctl h hioctl hcs _ pid
  · exact rewritten_clock h hclock _ pid
  · refine iff_of_true ?_ trivial
    have hleft : t.regs.origRax = Nr.epollCreate1 ∨ t.regs.origRax = Nr.ppoll := by
      simp only [rewrittenCalls, List.mem_cons, List.not_mem_nil, or_false, hfutex, hpipe, hstatx,
        hprlimit, hioctl, false_or] at hmem
      rcases hmem with hc | hc | hc | hc | hc
      · exact .inl hc
      · exact absurd (.inl hc) hclock
      · exact absurd (.inr (.inl hc)) hclock
      · exact absurd (.inr (.inr hc)) hclock
      · exact .inr hc
    rcases hleft with hleft | hleft
    · exact rewritten_epollCreate1 h hleft _ pid
    · exact rewritten_ppoll h hleft _ pid

end

/-! ### The numbers that are tracked -/

namespace FdKeys

variable {e : Emulations}

theorem new : FdKeys Emulations.new := by
  intro fd timer h
  exact absurd h (by simp [Emulations.new])

theorem of_timers {e' : Emulations} (h : FdKeys e) (ht : e'.timers = e.timers) : FdKeys e' := by
  intro fd timer hlookup
  rw [ht] at hlookup
  exact h fd timer hlookup

/-- Erased numbers are not tracked. -/
theorem closeFd (h : FdKeys e) (fd : ℤ) : FdKeys (e.closeFd fd) := by
  intro fd' timer hlookup
  by_cases hfd : fd' = fd
  · rw [Emulations.closeFd, hfd, AList.lookup_erase] at hlookup
    exact absurd hlookup (by simp)
  · rw [Emulations.closeFd, AList.lookup_erase_ne hfd] at hlookup
    exact h fd' timer hlookup

theorem begin (h : FdKeys e) (env : Env) (pid : Pid) (t : Tracee) (entering : Bool) :
    FdKeys (e.begin env pid t entering).1 := by
  have htables := Emulations.begin_tables env e pid t entering
  generalize e.begin env pid t entering = r at htables
  cases htables with
  | same hsame => exact h.of_timers (congrArg Prod.fst hsame)
  | close he hregs hcs hcall => exact h.closeFd _
  | @set s deadline r hs hd hset =>
    intro fd timer hlookup
    have ht : r.1.timers = e.withSetting s deadline := congrArg Prod.fst hset
    rw [ht, Emulations.withSetting] at hlookup
    by_cases hfd : fd = s.fd
    · rw [hfd]
      exact h s.fd s.timer (Emulations.setting_named hs).2
    · rw [AList.lookup_insert_ne hfd] at hlookup
      exact h fd timer hlookup

/-- A pipe is adopted under the number of its read end. -/
theorem adoption_fd {env : Env} {pid : Pid} {t : Tracee} {a : Option Active} {x : Adopted}
    (h : Emulations.adoption env pid t a = some x) : ∃ y : BitVec 32, x.fd = y.toInt := by
  rw [Emulations.adoption.eq_def] at h
  split at h
  · split_ifs at h
    split at h
    · rw [Emulations.capture, Option.bind_eq_some_iff] at h
      obtain ⟨raw, -, h⟩ := h
      obtain ⟨handle, -, rfl⟩ := Option.map_eq_some_iff.1 h
      exact ⟨leU32 (raw.take 4), rfl⟩
    · exact absurd h (by simp)
  · exact absurd h (by simp)

theorem step (h : FdKeys e) (env : Env) (pid : Pid) (t : Tracee) :
    FdKeys (e.step env pid t).1 := by
  intro fd timer hlookup
  have hstored := Emulations.step_stored env e pid t fd
  have hfst : (e.step env pid t).1.timers.lookup fd =
      (e.storedWith fd (Emulations.adoption env pid t (e.active pid))).1 :=
    congrArg Prod.fst hstored
  rw [hlookup] at hfst
  cases ha : Emulations.adoption env pid t (e.active pid) with
  | none =>
    rw [ha] at hfst
    exact h fd timer hfst.symm
  | some a =>
    rw [ha, Emulations.storedWith] at hfst
    by_cases hfd : fd = a.fd
    · rw [hfd]
      exact adoption_fd ha
    · rw [if_neg hfd] at hfst
      exact h fd timer hfst.symm

theorem tick (h : FdKeys e) (env : Env) (alarm : Bool) : FdKeys (e.tick env alarm) := by
  cases alarm with
  | false => exact h
  | true =>
    intro fd timer hlookup
    have hfst : (e.tick env true).timers.lookup fd = _ :=
      congrArg Prod.fst (Emulations.tick_stored env e fd)
    cases htracked : e.timers.lookup fd with
    | none =>
      have hnone : (e.stored fd).1 = none := htracked
      rw [hlookup, htracked] at hfst
      exact absurd (hfst.trans hnone) (by simp)
    | some timer' => exact h fd timer' htracked

/-- **The numbers tracked stay descriptor numbers.** -/
theorem next (h : FdKeys e) (x : Event) : FdKeys (e.next x) := by
  cases x with
  | begin env pid t entering => exact h.begin env pid t entering
  | step env pid t => exact h.step env pid t
  | tick env alarm => exact h.tick env alarm
  | forget pid => exact h.of_timers rfl

theorem foldl_next (child : Pid) (us : List Turn) :
    FdKeys (us.foldl Tracer.next (Tracer.new child true false)).emulated :=
  Tracer.foldl_emulated_keeps (fun _ x h => h.next x) FdKeys.new us

end FdKeys

/-! ### What decides -/

/-- What the comparisons of whole registers come to: in `eventfd` the initial value
against `u32::MAX` and, though `eventfd` has no flags, the second argument; in
`timerfd_create` the clock id, looked up by the whole register; the descriptors of
`timerfd_settime` and `timerfd_gettime`; the command of `fcntl`; and in the calls
rewritten in place what `RewrittenAlike` says. -/
def ComparedAlike (env : Env) (e : Emulations) (pid : Pid) (t t' : Tracee) : Prop :=
  if t.regs.origRax = Nr.eventfd ∨ t.regs.origRax = Nr.eventfd2 then
    EventfdReady env e pid t →
      (t.regs.rdi ≤ 0xffffffff ↔ t'.regs.rdi ≤ 0xffffffff) ∧
      (t.regs.rdi ≤ 0xffffffff →
        (t.regs.rsi &&& EFD_NONBLOCK = 0 ↔ t'.regs.rsi &&& EFD_NONBLOCK = 0))
  else if t.regs.origRax = Nr.timerfdCreate then
    Replaceable env.host.timerfdMissing t →
      low (env.host.clockidFor t.regs.rdi) = low (env.host.clockidFor t'.regs.rdi)
  else if t.regs.origRax = Nr.timerfdSettime then
    (∃ timer bytes deadline, SettimeReady env e t timer bytes deadline) ∨
      (∃ timer bytes deadline, SettimeReady env e t' timer bytes deadline) →
        t.regs.rdi = t'.regs.rdi
  else if t.regs.origRax = Nr.timerfdGettime then
    (∃ timer, GettimeReady env e t timer) ∨ (∃ timer, GettimeReady env e t' timer) →
      t.regs.rdi = t'.regs.rdi
  else if t.regs.origRax = Nr.fcntl then
    Replaceable (env.host.kernelLt 2 6 24) t →
      (t.regs.rsi = F_DUPFD_CLOEXEC ↔ t'.regs.rsi = F_DUPFD_CLOEXEC)
  else RewrittenAlike env t t'

/-- Nothing that is compared tells the stops apart, where the registers can be read. -/
def Indifferent (env : Env) (e : Emulations) (pid : Pid) (t t' : Tracee) : Prop :=
  t.canGet = true → ComparedAlike env e pid t t'

section

variable {env : Env} {e : Emulations} {s : Tracer} {pid : Pid} {t t' : Tracee}

/-- What `begin` chooses between at an entry stop of a 64-bit tracee. -/
theorem begin_long (env : Env) (e : Emulations) (pid : Pid) (hget : t.canGet = true)
    (hcs : t.regs.cs = userCs) :
    e.begin env pid t true =
      if t.regs.origRax = Nr.close then (e.closeFd t.regs.rdi.toInt, t, false)
      else if t.regs.origRax = Nr.eventfd then e.eventfd env pid t t.regs
      else if t.regs.origRax = Nr.eventfd2 then e.eventfd env pid t t.regs
      else if t.regs.origRax = Nr.timerfdCreate then e.timerfdCreate env pid t t.regs
      else if t.regs.origRax = Nr.timerfdSettime then e.timerfdSettime env pid t t.regs
      else if t.regs.origRax = Nr.timerfdGettime then e.timerfdGettime env pid t t.regs
      else if t.regs.origRax = Nr.fcntl then e.dupfdCloexec env pid t t.regs
      else if t.regs.origRax = Nr.pwritev then e.vectorIo env pid t t.regs true
      else if t.regs.origRax = Nr.preadv then e.vectorIo env pid t t.regs false
      else if t.regs.origRax = Nr.epollPwait then e.epollPwait env pid t t.regs
      else (e, t, false) := by
  have hregs : t.getregs = some t.regs := Tracee.getregs_eq_some.2 ⟨hget, rfl⟩
  rw [Emulations.begin, if_neg (by decide), hregs]
  dsimp only
  rw [if_neg (not_not.2 hcs)]

theorem vectorIo_sameOutcome (h : Twins t t') {write : Bool}
    (hnr : t.regs.origRax = Nr.pwritev ∨ t.regs.origRax = Nr.preadv) :
    SameOutcome pid (e.vectorIo env pid t t.regs write) (e.vectorIo env pid t' t'.regs write) := by
  have hne : ∀ regs, Emulations.vectorIoSteps regs write ≠ [] := fun regs => by
    simp [Emulations.vectorIoSteps]
  have hp := replaced_taken e pid t (env.host.kernelLt 2 6 30) (hne t.regs) (.call 1) 0
  have hp' := (replaced_taken e pid t' (env.host.kernelLt 2 6 30) (hne t'.regs) (.call 1) 0).trans
    (h.replaceable _)
  exact (sameOutcome_iff hp hp' fun hr _ => replaced_sameOutcome h (hne t.regs)
    (vectorIoSteps_same h hnr) (.call 1) 0 0 hr).2 ⟨Iff.rfl, fun _ _ => rfl⟩

theorem epollPwait_sameOutcome (h : Twins t t') (hnr : t.regs.origRax = Nr.epollPwait) :
    SameOutcome pid (e.epollPwait env pid t t.regs) (e.epollPwait env pid t' t'.regs) := by
  have hne : ∀ regs, Emulations.epollPwaitSteps regs ≠ [] := fun regs => by
    simp [Emulations.epollPwaitSteps]
  have hp := replaced_taken e pid t (env.host.kernelLt 2 6 19) (hne t.regs) (.call 1) 0
  have hp' := (replaced_taken e pid t' (env.host.kernelLt 2 6 19) (hne t'.regs) (.call 1) 0).trans
    (h.replaceable _)
  exact (sameOutcome_iff hp hp' fun hr _ => replaced_sameOutcome h (hne t.regs)
    (epollPwaitSteps_same h hnr) (.call 1) 0 0 hr).2 ⟨Iff.rfl, fun _ _ => rfl⟩

theorem sameOutcome_ite {c Q : Prop} [Decidable c] {a b a' b' : Emulations × Tracee × Bool}
    (h : c → (SameOutcome pid a a' ↔ Q)) (h' : ¬ c → (SameOutcome pid b b' ↔ Q)) :
    SameOutcome pid (if c then a else b) (if c then a' else b') ↔ Q := by
  by_cases hc : c
  · rw [if_pos hc, if_pos hc]
    exact h hc
  · rw [if_neg hc, if_neg hc]
    exact h' hc

/-- **The calls `begin` takes over.** -/
theorem begin_sameOutcome (h : Twins t t') (hkeys : FdKeys e) (hget : t.canGet = true)
    (hcs : t.regs.cs = userCs) (hnr : t.regs.origRax ∉ rewrittenCalls) :
    SameOutcome pid (e.begin env pid t true) (e.begin env pid t' true) ↔
      ComparedAlike env e pid t t' := by
  have hne : ∀ n : U64, n ∈ rewrittenCalls → t.regs.origRax ≠ n := fun n hn he => hnr (he ▸ hn)
  have halike : RewrittenAlike env t t' := by
    rw [RewrittenAlike, if_neg (hne Nr.prlimit64 (by decide)), if_neg (hne Nr.ioctl (by decide)),
      if_neg]
    · exact trivial
    rintro (hc | hc | hc)
    · exact hne Nr.clockGettime (by decide) hc
    · exact hne Nr.clockGetres (by decide) hc
    · exact hne Nr.clockNanosleep (by decide) hc
  rw [begin_long env e pid hget hcs, begin_long env e pid (h.canGet.symm.trans hget)
    (h.cs.trans hcs), h.origRax]
  -- A call for which no comparison is listed.
  have hothers : ∀ {P : Prop}, P → t.regs.origRax ≠ Nr.eventfd → t.regs.origRax ≠ Nr.eventfd2 →
      t.regs.origRax ≠ Nr.timerfdCreate → t.regs.origRax ≠ Nr.timerfdSettime →
      t.regs.origRax ≠ Nr.timerfdGettime → t.regs.origRax ≠ Nr.fcntl →
      (P ↔ ComparedAlike env e pid t t') := by
    intro P hP h₁ h₂ h₃ h₄ h₅ h₆
    rw [ComparedAlike, if_neg (not_or.2 ⟨h₁, h₂⟩), if_neg h₃, if_neg h₄, if_neg h₅, if_neg h₆]
    exact iff_of_true hP halike
  refine sameOutcome_ite (fun hc => ?_) fun _ => sameOutcome_ite (fun hc => ?_) fun h₁ =>
    sameOutcome_ite (fun hc => ?_) fun h₂ => sameOutcome_ite (fun hc => ?_) fun h₃ =>
    sameOutcome_ite (fun hc => ?_) fun h₄ => sameOutcome_ite (fun hc => ?_) fun h₅ =>
    sameOutcome_ite (fun hc => ?_) fun h₆ => sameOutcome_ite (fun hc => ?_) fun _ =>
    sameOutcome_ite (fun hc => ?_) fun _ => sameOutcome_ite (fun hc => ?_) fun _ => ?_
  · have hno : ∀ n : U64, n ≠ Nr.close → t.regs.origRax ≠ n := fun n hn he => hn (he ▸ hc)
    exact hothers (.declined rfl rfl) (hno _ (by decide)) (hno _ (by decide)) (hno _ (by decide))
      (hno _ (by decide)) (hno _ (by decide)) (hno _ (by decide))
  · rw [ComparedAlike, if_pos (.inl hc)]
    exact eventfd_sameOutcome h (.inl hc)
  · rw [ComparedAlike, if_pos (.inr hc)]
    exact eventfd_sameOutcome h (.inr hc)
  · rw [ComparedAlike, if_neg (not_or.2 ⟨h₁, h₂⟩), if_pos hc]
    exact timerfdCreate_sameOutcome h hc
  · rw [ComparedAlike, if_neg (not_or.2 ⟨h₁, h₂⟩), if_neg h₃, if_pos hc]
    exact timerfdSettime_sameOutcome h hkeys hc
  · rw [ComparedAlike, if_neg (not_or.2 ⟨h₁, h₂⟩), if_neg h₃, if_neg h₄, if_pos hc]
    exact timerfdGettime_sameOutcome h hkeys hc
  · rw [ComparedAlike, if_neg (not_or.2 ⟨h₁, h₂⟩), if_neg h₃, if_neg h₄, if_neg h₅, if_pos hc]
    exact dupfdCloexec_sameOutcome h hc
  · exact hothers (vectorIo_sameOutcome h (.inl hc)) h₁ h₂ h₃ h₄ h₅ h₆
  · exact hothers (vectorIo_sameOutcome h (.inr hc)) h₁ h₂ h₃ h₄ h₅ h₆
  · exact hothers (epollPwait_sameOutcome h hc) h₁ h₂ h₃ h₄ h₅ h₆
  · exact hothers (.declined rfl rfl) h₁ h₂ h₃ h₄ h₅ h₆

theorem comparedAlike_of_rewritten (hnr : t.regs.origRax ∈ rewrittenCalls) :
    ComparedAlike env e pid t t' ↔ RewrittenAlike env t t' := by
  have hne : ∀ n : U64, n ∉ rewrittenCalls → t.regs.origRax ≠ n := fun n hn he => hn (he ▸ hnr)
  rw [ComparedAlike, if_neg, if_neg (hne _ (by decide)), if_neg (hne _ (by decide)),
    if_neg (hne _ (by decide)), if_neg (hne _ (by decide))]
  rintro (hc | hc)
  · exact hne Nr.eventfd (by decide) hc
  · exact hne Nr.eventfd2 (by decide) hc

/-- Where the registers cannot be read every call is left alone. -/
theorem sameDecision_unread (h : Twins t t') (hidle : s.emulated.active pid = none)
    (hget : t.canGet = false) :
    SameDecision pid (s.onTracedSyscall env pid t) (s.onTracedSyscall env pid t') := by
  have hbegin : ∀ {u : Tracee}, u.canGet = false →
      s.emulated.begin env pid u (s.entering pid) = (s.emulated, u, false) := by
    intro u hu
    rw [Emulations.begin, Tracee.getregs_eq_none.2 hu, ite_self]
  have hregs : ∀ {u : Tracee}, u.canGet = false →
      (s.onTracedSyscall env pid u).tracee = u := by
    intro u hu
    rw [(onTracedSyscall_declined hidle (by rw [hbegin hu])).2, hbegin hu, Tracer.onSyscallStop]
    dsimp only
    split_ifs
    · rw [Tracer.onSyscallEntry, Tracee.getregs_eq_none.2 hu]
    · rw [Tracer.onSyscallExit, Tracee.getregs_eq_none.2 hu]
  have hget' : t'.canGet = false := h.canGet.symm.trans hget
  rw [sameDecision_declined hidle (by rw [hbegin hget]) (by rw [hbegin hget']), hregs hget,
    hregs hget']
  exact h.call

/-- **One stop of a tracee with no emulation in progress.** -/
theorem sameDecision_iff (h : Twins t t') (hkeys : FdKeys s.emulated)
    (hcs : t.regs.cs = userCs) (hidle : s.emulated.active pid = none)
    (hentering : s.entering pid = true) :
    SameDecision pid (s.onTracedSyscall env pid t) (s.onTracedSyscall env pid t') ↔
      Indifferent env s.emulated pid t t' := by
  rw [Indifferent]
  cases hget : t.canGet with
  | false =>
    exact iff_of_true (sameDecision_unread h hidle hget) fun hg => absurd hg (by decide)
  | true =>
    rw [forall_prop_of_true rfl]
    by_cases hnr : t.regs.origRax ∈ rewrittenCalls
    · have hnr' : t'.regs.origRax ∈ rewrittenCalls := by
        rw [h.origRax]
        exact hnr
      have hbegin := Tracer.begin_of_rewritten env s.emulated pid t (s.entering pid) hnr
      have hbegin' := Tracer.begin_of_rewritten env s.emulated pid t' (s.entering pid) hnr'
      rw [comparedAlike_of_rewritten hnr, sameDecision_declined hidle (by rw [hbegin])
        (by rw [hbegin']), (onTracedSyscall_declined hidle (by rw [hbegin])).2,
        (onTracedSyscall_declined hidle (by rw [hbegin'])).2, hbegin, hbegin',
        Tracer.onSyscallStop, Tracer.onSyscallStop]
      dsimp only
      rw [if_pos hentering, if_pos hentering]
      exact rewritten_iff h hget hcs hnr _ pid
    · rw [sameDecision_iff_sameOutcome h hidle hentering hnr, hentering]
      exact begin_sameOutcome h hkeys hget hcs hnr

end

/-- **Two entry stops the kernel cannot tell apart are decided alike exactly where what
the tracer compares does not tell them apart**, at any stop of a run in which every
system call is traced. -/
theorem same_decision_iff (child : Pid) (us : List Turn) {s : Tracer}
    (hs : s = us.foldl Tracer.next (Tracer.new child true false)) (env : Env) (alarm : Bool)
    {pid : Pid} (hidle : s.emulated.active pid = none) (hentering : s.entering pid = true)
    {t t' : Tracee} (h : Twins t t') (hcs : t.regs.cs = userCs) :
    SameDecision pid (s.turn ⟨env, alarm, .syscall pid, t⟩)
        (s.turn ⟨env, alarm, .syscall pid, t'⟩) ↔
      Indifferent env (s.emulated.tick env alarm) pid t t' := by
  have hmode : s.seccompMode = false := by
    rw [hs]
    exact ((Tracer.everySyscall_new child).foldl_next us).seccompMode
  have hkeys : FdKeys (s.emulated.tick env alarm) := by
    rw [hs]
    exact (FdKeys.foldl_next child us).tick env alarm
  have hturn : ∀ v : Tracee, s.turn ⟨env, alarm, .syscall pid, v⟩ =
      (s.ticked ⟨env, alarm, .syscall pid, v⟩).onTracedSyscall env pid v := by
    intro v
    rw [Tracer.turn, Tracer.handle.eq_def]
    exact if_neg (by rw [Tracer.ticked, hmode]; decide)
  rw [hturn, hturn]
  refine sameDecision_iff h hkeys hcs ?_ hentering
  rw [Tracer.ticked, Emulations.tick_active, hidle]

/-- An `ioctl(0, TCGETS2, p)` with a request in `rsi`. -/
def getsRequest (request : U64) : Tracee := .entryOf Nr.ioctl 0 request 0x9000 0

/-- The request as an `unsigned int` and sign-extended. -/
theorem twins_getsRequest : Twins (getsRequest 0x802c542a) (getsRequest 0xffffffff802c542a) :=
  ⟨by decide, rfl, rfl, rfl, rfl⟩

/-- The kernel of a 2.6.18 host, at the first stop of a tracee. -/
theorem same_decision_iff_ioctl :
    SameDecision 1
        ((Tracer.new 1 true false).turn
          ⟨.still .centos5, false, .syscall 1, getsRequest 0x802c542a⟩)
        ((Tracer.new 1 true false).turn
          ⟨.still .centos5, false, .syscall 1, getsRequest 0xffffffff802c542a⟩) ↔
      Indifferent (.still .centos5) (Emulations.new.tick (.still .centos5) false) 1
        (getsRequest 0x802c542a) (getsRequest 0xffffffff802c542a) :=
  same_decision_iff 1 [] rfl (.still .centos5) false rfl rfl twins_getsRequest rfl

/-- **A sign-extended request is another request to the tracer**, though not to the
kernel: on a kernel without `TCGETS2` the call is rewritten to `TCGETS` with the one and
left to fail with the other. -/
theorem sign_extended_request :
    Twins (getsRequest 0x802c542a) (getsRequest 0xffffffff802c542a) ∧
      ¬ SameDecision 1
        ((Tracer.new 1 true false).turn
          ⟨.still .centos5, false, .syscall 1, getsRequest 0x802c542a⟩)
        ((Tracer.new 1 true false).turn
          ⟨.still .centos5, false, .syscall 1, getsRequest 0xffffffff802c542a⟩) := by
  refine ⟨twins_getsRequest, fun h => ?_⟩
  have hcall : ∀ {x y : Handled}, SameDecision 1 x y →
      seen (callOf x.tracee.regs) = seen (callOf y.tracee.regs) := by
    intro x y hxy
    cases hxy with
    | passed hidle hidle' hcall => exact hcall
    | taken ha ha' hsame hcall hmem htimers => exact hcall
  exact absurd (hcall h) (by decide)

end Tracing
end Sharun
