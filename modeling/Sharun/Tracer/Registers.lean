/-
# The registers around a rewritten call

A system call of x86_64 changes `rax`, `rcx` and `r11` and nothing else
(`KernelReturn.apply`), and the code around it relies on that.  A call rewritten in
place has other registers at its entry stop than the application left there, and
the exit stop puts back the stack pointer alone (`exitStop_keeps`,
`onSyscallExit_regs`): so the application finds its registers as they were exactly
when the rewrite changed no argument register (`intact_exit_iff`, and
`registers_kept_iff` for the whole trip in both tracing modes).
-/

import Sharun.Tracer.Parity

namespace Sharun
namespace Tracing

open Machine Emulation

/-- The general-purpose registers a system call leaves alone, but for `rsp`. -/
structure Kept where
  rbx : U64
  rbp : U64
  r12 : U64
  r13 : U64
  r14 : U64
  r15 : U64
  rdi : U64
  rsi : U64
  rdx : U64
  r10 : U64
  r8 : U64
  r9 : U64
  deriving DecidableEq

/-- The registers of `Kept`. -/
def kept (r : Regs) : Kept :=
  ⟨r.rbx, r.rbp, r.r12, r.r13, r.r14, r.r15, r.rdi, r.rsi, r.rdx, r.r10, r.r8, r.r9⟩

/-! ### The exit stop -/

namespace ExitStop

/-- What the parts of an exit stop do but for the stack pointer: `rax` and the
tracee's memory change, and a change of the registers is never forgotten. -/
structure Keeps (x y : ExitStop) : Prop where
  kept : kept y.regs = kept x.regs
  tracee : x.tracee.SameRegs y.tracee
  dirty : x.dirty = true → y.dirty = true

/-- The same, with the stack pointer. -/
structure KeepsRsp (x y : ExitStop) : Prop extends Keeps x y where
  rsp : y.regs.rsp = x.regs.rsp

theorem Keeps.trans {x y z : ExitStop} (h : x.Keeps y) (h' : y.Keeps z) : x.Keeps z :=
  ⟨h'.kept.trans h.kept, h.tracee.trans h'.tracee, fun hx => h'.dirty (h.dirty hx)⟩

theorem KeepsRsp.refl (x : ExitStop) : x.KeepsRsp x := ⟨⟨rfl, .refl _, id⟩, rfl⟩

theorem KeepsRsp.trans {x y z : ExitStop} (h : x.KeepsRsp y) (h' : y.KeepsRsp z) : x.KeepsRsp z :=
  ⟨h.toKeeps.trans h'.toKeeps, h'.rsp.trans h.rsp⟩

theorem fail_keeps (x : ExitStop) (errno : ℤ) : x.KeepsRsp (x.fail errno) :=
  ⟨⟨rfl, .refl _, fun _ => rfl⟩, rfl⟩

theorem keeps_tracee {x : ExitStop} {t : Tracee} (h : x.tracee.SameRegs t) :
    x.KeepsRsp { x with tracee := t } := ⟨⟨rfl, h, id⟩, rfl⟩

theorem finishTermios2_keeps (x : ExitStop) (p : Option U64) : x.KeepsRsp (x.finishTermios2 p) := by
  unfold finishTermios2
  split
  · exact .refl x
  · split_ifs
    · exact .refl x
    · dsimp only
      split
      · rename_i h
        exact keeps_tracee (.of_writeStruct h)
      · rename_i h
        exact (keeps_tracee (.of_writeStruct h)).trans (fail_keeps _ _)

theorem finishStatx_keeps (x : ExitStop) (p : Option StatxState) :
    x.KeepsRsp (x.finishStatx p) := by
  unfold finishStatx
  split
  · exact .refl x
  · split_ifs
    · exact .refl x
    · split
      · exact fail_keeps x _
      · split
        · rename_i h
          exact keeps_tracee (.of_writeStruct h)
        · rename_i h
          exact (keeps_tracee (.of_writeStruct h)).trans (fail_keeps _ _)

theorem fillChunks_sameRegs {read : (off want : ℕ) → Option (Fin want → Byte)} {buf : U64}
    {count chunks off : ℕ} (t : Tracee) :
    t.SameRegs (fillChunks read buf count chunks off t).1 := by
  induction chunks generalizing off t with
  | zero => exact .refl t
  | succ chunks ih =>
    unfold fillChunks
    dsimp only
    split
    · exact .refl t
    · split
      · rename_i h
        exact .of_writeStruct h
      · rename_i h
        exact (Tracee.SameRegs.of_writeStruct h).trans (ih _)

theorem emulateGetrandom_sameRegs (env : Env) (t : Tracee) (buf : U64) (count : ℕ) :
    t.SameRegs (emulateGetrandom env t buf count).1 := by
  unfold emulateGetrandom
  split_ifs
  · exact .refl t
  · exact .refl t
  · split
    · exact .refl t
    · exact fillChunks_sameRegs t

theorem finishGetrandom_keeps (env : Env) (last : Option U64) (x : ExitStop) :
    x.KeepsRsp (x.finishGetrandom env last).1 := by
  unfold finishGetrandom
  split_ifs
  · have h := emulateGetrandom_sameRegs env x.tracee x.regs.rdi x.regs.rsi.toNat
    split
    · rename_i t heq
      rw [heq] at h
      exact ⟨⟨rfl, h, fun _ => rfl⟩, rfl⟩
    · rename_i t heq
      rw [heq] at h
      dsimp only
      split_ifs
      · exact (keeps_tracee h).trans (fail_keeps _ _)
      · exact keeps_tracee h
  · exact .refl x

theorem normalizeEcho_keeps (env : Env) (last : Option U64) (synthesized : Bool) (x : ExitStop) :
    x.KeepsRsp (x.normalizeEcho env last synthesized) := by
  unfold normalizeEcho
  split
  · exact .refl x
  · split_ifs
    · exact fail_keeps x _
    · exact .refl x

end ExitStop

namespace Tracer

/-- **What an exit stop makes of the registers**: none that a call leaves alone
changes, and the stack pointer becomes the one reserved, where there is one. -/
theorem exitStop_keeps (env : Env) (s : Tracer) (pid : Pid) (t : Tracee) (regs : Regs) :
    (⟨t, regs, false⟩ : ExitStop).Keeps (s.exitStop env pid t regs) ∧
      (s.exitStop env pid t regs).regs.rsp = (s.reserved pid).getD regs.rsp ∧
      ((s.reserved pid).isSome → (s.exitStop env pid t regs).dirty = true) := by
  unfold exitStop
  dsimp only
  have h₁ := ExitStop.finishTermios2_keeps ⟨t, regs, false⟩ (s.termios2Get pid)
  have h₂ := ExitStop.finishStatx_keeps
    ((⟨t, regs, false⟩ : ExitStop).finishTermios2 (s.termios2Get pid)) (s.statx pid)
  generalize hx : ((⟨t, regs, false⟩ : ExitStop).finishTermios2 (s.termios2Get pid)).finishStatx
    (s.statx pid) = x at h₂ ⊢
  have h₁₂ := h₁.trans h₂
  have h₃ := ExitStop.finishGetrandom_keeps env (s.lastSyscall pid) (x.restoreRsp (s.reserved pid))
  have h₄ := ExitStop.normalizeEcho_keeps env (s.lastSyscall pid)
    ((x.restoreRsp (s.reserved pid)).finishGetrandom env (s.lastSyscall pid)).2
    ((x.restoreRsp (s.reserved pid)).finishGetrandom env (s.lastSyscall pid)).1
  have h₃₄ := h₃.trans h₄
  cases hr : s.reserved pid with
  | none =>
    rw [hr] at h₃₄
    exact ⟨h₁₂.toKeeps.trans h₃₄.toKeeps, h₃₄.rsp.trans h₁₂.rsp, fun h => absurd h (by simp)⟩
  | some savedRsp =>
    rw [hr] at h₃₄
    have hrestore : x.Keeps (x.restoreRsp (some savedRsp)) := ⟨rfl, .refl _, fun _ => rfl⟩
    exact ⟨(h₁₂.toKeeps.trans hrestore).trans h₃₄.toKeeps, h₃₄.rsp, fun _ => h₃₄.dirty rfl⟩

/-- A tracee's registers can be read and written and show 64-bit code: an exit stop
can do its work. -/
structure Reachable (t : Tracee) : Prop where
  canGet : t.canGet = true
  canSet : t.canSet = true
  long : t.regs.cs = userCs

theorem Reachable.getregs {t : Tracee} (h : Reachable t) : t.getregs = some t.regs :=
  Tracee.getregs_eq_some.2 ⟨h.canGet, rfl⟩

theorem onSyscallExit_regs (env : Env) (s : Tracer) (pid : Pid) (t : Tracee) :
    kept (s.onSyscallExit env pid t).2.regs = kept t.regs ∧
      (Reachable t → (s.onSyscallExit env pid t).2.regs.rsp = (s.reserved pid).getD t.regs.rsp) ∧
      (¬ Reachable t → (s.onSyscallExit env pid t).2.regs.rsp = t.regs.rsp) := by
  unfold onSyscallExit
  split
  · rename_i hget
    rw [Tracee.getregs_eq_none] at hget
    exact ⟨rfl, fun h => absurd h.canGet (by simp [hget]), fun _ => rfl⟩
  · rename_i regs hget
    obtain ⟨hcan, rfl⟩ := Tracee.getregs_eq_some.1 hget
    split_ifs with hcs
    · exact ⟨rfl, fun h => absurd h.long hcs, fun _ => rfl⟩
    · obtain ⟨hkeeps, hrsp, hdirty⟩ := exitStop_keeps env s pid t t.regs
      rw [not_not] at hcs
      dsimp only
      unfold ExitStop.commit
      split_ifs with hd
      · cases hset : t.canSet with
        | true =>
          rw [Tracee.putregs_of_canSet (hkeeps.tracee.canSet.trans hset)]
          exact ⟨hkeeps.kept, fun _ => hrsp, fun h => absurd ⟨hcan, hset, hcs⟩ h⟩
        | false =>
          rw [Tracee.putregs_of_not_canSet (hkeeps.tracee.canSet.trans hset)]
          rw [hkeeps.tracee.regs]
          exact ⟨rfl, fun h => absurd h.canSet (by simp [hset]), fun _ => rfl⟩
      · have hnone : s.reserved pid = none := by
          cases hr : s.reserved pid with
          | none => rfl
          | some v => exact absurd (hdirty (by rw [hr]; rfl)) hd
        rw [hkeeps.tracee.regs, hnone]
        exact ⟨rfl, fun _ => rfl, fun _ => rfl⟩

end Tracer

/-! ### The entry stop -/

/-- Clearing the low four bits rounds down to a multiple of sixteen. -/
theorem and_not_15 (y : U64) : (y &&& ~~~(0xf : U64)).toNat = y.toNat / 16 * 16 := by
  have hbit : ∀ i, (0xf : U64).getLsbD i = decide (i < 4) := by
    intro i
    rw [show (0xf : U64) = BitVec.ofNat 64 (2 ^ 4 - 1) from rfl]
    simp only [BitVec.getLsbD_ofNat, Nat.testBit_two_pow_sub_one]
    by_cases h : i < 4 <;> simp [h]
    omega
  have h : y &&& ~~~(0xf : U64) = (y >>> 4) <<< 4 := by
    apply BitVec.eq_of_getLsbD_eq
    intro i hi
    simp only [BitVec.getLsbD_and, BitVec.getLsbD_not, hbit, BitVec.getLsbD_shiftLeft,
      BitVec.getLsbD_ushiftRight]
    by_cases h4 : i < 4
    · simp [h4]
    · simp [h4, hi, show 4 + (i - 4) = i by omega]
  rw [h, BitVec.toNat_shiftLeft, BitVec.toNat_ushiftRight, Nat.shiftLeft_eq,
    Nat.shiftRight_eq_div_pow]
  have := y.isLt
  omega

/-- Scratch space is not where the stack pointer points. -/
theorem scratchFor_ne (regs : Regs) : scratchFor regs ≠ regs.rsp := by
  intro h
  have h := congrArg BitVec.toNat h
  unfold scratchFor at h
  rw [and_not_15, BitVec.toNat_sub] at h
  have := regs.rsp.isLt
  simp at h
  omega

/-- The futex operation has a clock or a bitset the kernel knows nothing of, and its
timeout cannot be converted. -/
def FutexTimeoutFails (env : Env) (t : Tracee) (regs : Regs) : Prop :=
  let op := regs.rsi.setWidth 32
  let realtime : Bool := op &&& FUTEX_CLOCK_REALTIME ≠ 0
  (futexCmd (op &&& FUTEX_CMD_MASK) = FUTEX_WAIT ∧
      (op &&& FUTEX_CMD_MASK = FUTEX_WAIT_BITSET ∨ realtime = true)) ∧
    (reserveRelativeTimeout env t regs.r10 realtime regs.rsp).2 = .error ()

/-- The rewrite of a `futex` leaves its operation as it is. -/
def FutexKept (env : Env) (t : Tracee) (regs : Regs) : Prop :=
  env.host.kernelLt 2 6 29 = false ∨
    futexCmd (regs.rsi.setWidth 32 &&& FUTEX_CMD_MASK) = regs.rsi.setWidth 32 ∨
    FutexTimeoutFails env t regs

/-- The rewrite of a `statx` puts no argument where it was not. -/
def StatxKept (regs : Regs) : Prop :=
  regs.r8 = 0 ∨ regs.rdx &&& AT_EMPTY_PATH = 0 ∧ regs.r10 = regs.rdx &&& AT_SYMLINK_NOFOLLOW ∧
    regs.rdx = scratchFor regs

/-- The rewrites of both tracing modes leave the argument registers as they are. -/
structure CommonKept (env : Env) (t : Tracee) (regs : Regs) : Prop where
  futex : regs.origRax = Nr.futex → FutexKept env t regs
  statx : regs.origRax = Nr.statx → env.host.statxMissing = true → StatxKept regs

/-- The rewrites of the every-syscall mode leave the argument registers as they are. -/
structure EntryKept (env : Env) (t : Tracee) (regs : Regs) : Prop where
  epollCreate1 : regs.origRax = Nr.epollCreate1 → env.host.epollCreate1Missing = true →
    regs.rdi = 1
  prlimit64 : regs.origRax = Nr.prlimit64 → env.host.prlimit64Missing = true → regs.rdi = 0 →
    regs.rsi = 0 ∧ regs.rdx = 0 ∧ regs.r10 = 0
  ioctl : regs.origRax = Nr.ioctl → env.host.termios2Missing = true →
    legacyTermiosRequest regs.rsi = none
  clock : regs.origRax = Nr.clockGettime ∨ regs.origRax = Nr.clockGetres ∨
    regs.origRax = Nr.clockNanosleep → env.host.clockidFor regs.rdi = regs.rdi
  ppoll : regs.origRax = Nr.ppoll → env.host.ppollMissing = true →
    regs.rdx = asU64 (ppollTimeout t regs.rdx)

/-- A `statx` whose buffer is converted runs on a moved stack pointer. -/
def MovesStack (env : Env) (t : Tracee) (regs : Regs) : Prop :=
  t.canSet = true ∧ regs.origRax = Nr.statx ∧ env.host.statxMissing = true ∧ regs.r8 ≠ 0

/-- What an entry stop does to the registers and the reservation of its tracee:
whether the argument registers are as they were, and whether the stack pointer has
moved. -/
structure Patched (t : Tracee) (same moves : Prop) (reserved : Option U64) (t' : Tracee) :
    Prop where
  cs : t'.regs.cs = t.regs.cs
  args : kept t'.regs = kept t.regs ↔ same
  rsp : (¬ moves ∧ (reserved = none ∨ reserved = some t.regs.rsp) ∧ t'.regs.rsp = t.regs.rsp) ∨
    ((moves ∨ ¬ same) ∧ reserved = some t.regs.rsp ∧ t'.regs.rsp ≠ t.regs.rsp)

/-- Nothing was changed, for whatever reason. -/
theorem Patched.unchanged {t t' : Tracee} {same moves : Prop} {reserved : Option U64}
    (hregs : t'.regs = t.regs) (hsame : same) (hmoves : ¬ moves)
    (hr : reserved = none ∨ reserved = some t.regs.rsp) : Patched t same moves reserved t' where
  cs := by rw [hregs]
  args := by rw [hregs]; exact iff_of_true rfl hsame
  rsp := Or.inl ⟨hmoves, hr, by rw [hregs]⟩

theorem Patched.congr {t t' : Tracee} {same same' moves moves' : Prop} {reserved : Option U64}
    (h : Patched t same moves reserved t') (hs : same ↔ same') (hm : moves ↔ moves') :
    Patched t same' moves' reserved t' := by
  rw [← propext hs, ← propext hm]
  exact h

/-- Other registers were put in place, the stack pointer among those that stayed. -/
theorem Patched.put {t t₀ : Tracee} {regs' : Regs} {same moves : Prop}
    (h₀ : t.SameRegs t₀) (hcs : regs'.cs = t.regs.cs) (hrsp : regs'.rsp = t.regs.rsp)
    (hsame : t.canSet = true → (kept regs' = kept t.regs ↔ same)) (hfail : t.canSet = false → same)
    (hmoves : ¬ moves) : Patched t same moves none (t₀.putregs regs') := by
  cases hset : t.canSet with
  | true =>
    rw [Tracee.putregs_of_canSet (h₀.canSet.trans hset)]
    exact ⟨hcs, hsame hset, Or.inl ⟨hmoves, Or.inl rfl, hrsp⟩⟩
  | false =>
    rw [Tracee.putregs_of_not_canSet (h₀.canSet.trans hset)]
    exact .unchanged h₀.regs (hfail hset) hmoves (Or.inl rfl)

theorem reserveRelativeTimeout_sameRegs (env : Env) (t : Tracee) (ptr : U64) (realtime : Bool)
    (rsp : U64) : t.SameRegs (reserveRelativeTimeout env t ptr realtime rsp).1 := by
  unfold reserveRelativeTimeout
  by_cases hptr : ptr = 0
  · rw [if_pos hptr]
    exact .refl t
  · rw [if_neg hptr]
    split
    · exact .refl t
    · split
      · exact .refl t
      · dsimp only
        split
        · rename_i h
          exact .of_writeStruct h
        · rename_i h
          exact .of_writeStruct h

theorem reserveRelativeTimeout_scratch {env : Env} {t t' : Tracee} {ptr : U64} {realtime : Bool}
    {regs : Regs} {scratch : U64}
    (h : reserveRelativeTimeout env t ptr realtime regs.rsp = (t', .ok (some scratch))) :
    scratch = scratchFor regs := by
  unfold reserveRelativeTimeout at h
  by_cases hptr : ptr = 0
  · rw [if_pos hptr] at h
    exact absurd (congrArg Prod.snd h) (by simp)
  · rw [if_neg hptr] at h
    split at h
    · exact absurd (congrArg Prod.snd h) (by simp)
    · split at h
      · exact absurd (congrArg Prod.snd h) (by simp)
      · dsimp only at h
        split at h
        · exact absurd (congrArg Prod.snd h) (by simp)
        · have h := congrArg Prod.snd h
          simp only [Except.ok.injEq, Option.some.injEq] at h
          exact h.symm

/-- A new futex command is never the operation it replaces. -/
theorem futex_rsi_ne {regs : Regs} {cmd : BitVec 32} (h : cmd ≠ regs.rsi.setWidth 32) :
    (cmd.setWidth 64 : U64) ≠ regs.rsi := by
  intro he
  apply h
  rw [← he, BitVec.setWidth_setWidth_of_le _ (by omega), BitVec.setWidth_eq]

namespace Tracer

theorem translateFutex_patched (env : Env) (s : Tracer) (pid : Pid) (t : Tracee)
    (hr : s.reserved pid = none) :
    Patched t (t.canSet = false ∨ FutexKept env t t.regs) False
      ((s.translateFutex env pid t t.regs).1.reserved pid)
      (s.translateFutex env pid t t.regs).2.1 := by
  unfold translateFutex
  cases hk : env.host.kernelLt 2 6 29 with
  | false =>
    rw [if_pos (by simp)]
    exact .unchanged rfl (Or.inr (Or.inl hk)) id (Or.inl hr)
  | true =>
    rw [if_neg (by simp)]
    dsimp only
    by_cases hcmd : futexCmd (t.regs.rsi.setWidth 32 &&& FUTEX_CMD_MASK) = t.regs.rsi.setWidth 32
    · rw [if_pos hcmd]
      exact .unchanged rfl (Or.inr (Or.inr (Or.inl hcmd))) id (Or.inl hr)
    · rw [if_neg hcmd]
      have hrsi := futex_rsi_ne hcmd
      -- Wherever the operation is put in place, `rsi` is another one.
      have hne : ∀ {regs' : Regs}, regs'.rsi =
          (futexCmd (t.regs.rsi.setWidth 32 &&& FUTEX_CMD_MASK)).setWidth 64 →
            kept regs' ≠ kept t.regs :=
        fun hregs' h => hrsi (hregs'.symm.trans (congrArg Kept.rsi h))
      have hnot : t.canSet = true → ¬ FutexTimeoutFails env t t.regs →
          ¬ (t.canSet = false ∨ FutexKept env t t.regs) := by
        rintro hset hfails (h | h | h | h)
        · exact absurd h (by simp [hset])
        · exact absurd h (by simp [hk])
        · exact hcmd h
        · exact hfails h
      split_ifs with htimed
      · generalize hrealtime :
          (decide (t.regs.rsi.setWidth 32 &&& FUTEX_CLOCK_REALTIME ≠ 0)) = realtime at htimed
        have hregs := reserveRelativeTimeout_sameRegs env t t.regs.r10 realtime t.regs.rsp
        have hfails : ∀ x, (reserveRelativeTimeout env t t.regs.r10 realtime t.regs.rsp).2 = .ok x →
            ¬ FutexTimeoutFails env t t.regs := by
          rintro x hx ⟨-, he⟩
          rw [hrealtime, hx] at he
          exact absurd he (by simp)
        split
        · rename_i t₁ _ heq
          rw [heq] at hregs
          refine .unchanged hregs.regs (Or.inr (Or.inr (Or.inr ⟨?_, ?_⟩))) id (Or.inl hr)
          · rw [hrealtime]; exact htimed
          · rw [hrealtime, heq]
        · rename_i t₁ heq
          rw [heq] at hregs
          rw [hr]
          exact .put hregs rfl rfl
            (fun hset => iff_of_false (hne rfl) (hnot hset (hfails none (by rw [heq])))) Or.inl id
        · rename_i t₁ scratch heq
          rw [heq] at hregs
          dsimp only
          rw [Function.update_self]
          cases hset : t.canSet with
          | true =>
            have hharm := hnot hset (hfails (some scratch) (by rw [heq]))
            rw [hset] at hharm
            rw [Tracee.putregs_of_canSet (hregs.canSet.trans hset)]
            refine ⟨rfl, iff_of_false (hne rfl) hharm, Or.inr ⟨Or.inr hharm, rfl, ?_⟩⟩
            rw [reserveRelativeTimeout_scratch heq]
            exact scratchFor_ne t.regs
          | false =>
            rw [Tracee.putregs_of_not_canSet (hregs.canSet.trans hset)]
            exact .unchanged hregs.regs (Or.inl rfl) id (Or.inr rfl)
      · rw [hr]
        exact .put (.refl t) rfl rfl
          (fun hset => iff_of_false (hne rfl) (hnot hset fun h => htimed h.1)) Or.inl id

theorem setupStatx_patched (s : Tracer) (pid : Pid) (t : Tracee) (hr : s.reserved pid = none) :
    Patched t (t.canSet = false ∨ StatxKept t.regs) (t.canSet = true ∧ t.regs.r8 ≠ 0)
      ((s.setupStatx pid t t.regs).1.reserved pid) (s.setupStatx pid t t.regs).2 := by
  unfold setupStatx
  split_ifs with hr8
  · exact .unchanged rfl (Or.inr (Or.inl hr8)) (fun h => h.2 hr8) (Or.inl hr)
  · split
    · rename_i hset
      rw [Tracee.setregs_eq_none] at hset
      exact .unchanged rfl (Or.inl hset) (fun h => absurd h.1 (by simp [hset])) (Or.inl hr)
    · rename_i t₁ hset
      obtain ⟨hcan, rfl⟩ := Tracee.setregs_eq_some.1 hset
      dsimp only
      rw [Function.update_self]
      refine ⟨?_, ?_, Or.inr ⟨Or.inl ⟨hcan, hr8⟩, rfl, ?_⟩⟩
      · unfold statxFallback
        dsimp only
        split_ifs <;> rfl
      · have hsame : (t.canSet = false ∨ StatxKept t.regs) ↔ StatxKept t.regs := by simp [hcan]
        rw [hsame]
        unfold statxFallback StatxKept
        dsimp only
        split_ifs with hempty
        · refine iff_of_false (fun h => hempty ?_) ?_
          · have hrdx : (0 : U64) = t.regs.rdx := congrArg Kept.rdx h
            rw [← hrdx]
            rfl
          · rintro (h | ⟨h, -⟩)
            · exact hr8 h
            · exact hempty h
        · rw [not_not] at hempty
          constructor
          · intro h
            exact Or.inr ⟨hempty, (congrArg Kept.r10 h).symm, (congrArg Kept.rdx h).symm⟩
          · rintro (h | ⟨-, h10, hdx⟩)
            · exact absurd h hr8
            · simp only [kept, ← h10, ← hdx]
      · unfold statxFallback
        dsimp only
        split_ifs <;> exact scratchFor_ne t.regs

/-- What `translate_common` does, and that it leaves to the rest of an entry stop
exactly the calls it asks nothing of. -/
theorem translateCommon_patched (env : Env) (s : Tracer) (pid : Pid) (t : Tracee)
    (hr : s.reserved pid = none) :
    Patched t (t.canSet = false ∨ CommonKept env t t.regs) (MovesStack env t t.regs)
        ((s.translateCommon env pid t t.regs).1.reserved pid)
        (s.translateCommon env pid t t.regs).2.1 ∧
      ((s.translateCommon env pid t t.regs).2.2 = none →
        s.translateCommon env pid t t.regs = (s, t, none) ∧ CommonKept env t t.regs ∧
          ¬ MovesStack env t t.regs) ∧
      ((s.translateCommon env pid t t.regs).2.2.isSome → EntryKept env t t.regs) := by
  have hentry : ∀ {n : U64}, t.regs.origRax = n → n ∈ [Nr.futex, Nr.pipe2, Nr.statx] →
      EntryKept env t t.regs := by
    intro n hn hmem
    have hne : ∀ {m : U64}, m ∉ [Nr.futex, Nr.pipe2, Nr.statx] → t.regs.origRax ≠ m :=
      fun hm he => hm ((hn.symm.trans he) ▸ hmem)
    refine ⟨fun h => absurd h (hne (by decide)), fun h => absurd h (hne (by decide)),
      fun h => absurd h (hne (by decide)), ?_, fun h => absurd h (hne (by decide))⟩
    rintro (h | h | h) <;> exact absurd h (hne (by decide))
  unfold translateCommon
  split_ifs with hfutex hpipe hstatx
  · refine ⟨(translateFutex_patched env s pid t hr).congr (or_congr_right ?_) ?_,
      fun h => absurd h (by simp), fun _ => hentry hfutex (by decide)⟩
    · exact ⟨fun h => ⟨fun _ => h, fun hn => absurd (hfutex.symm.trans hn) (by decide)⟩,
        fun h => h.futex hfutex⟩
    · exact iff_of_false id fun h => absurd (hfutex.symm.trans h.2.1) (by decide)
  · have hkept : CommonKept env t t.regs :=
      ⟨fun hn => absurd hn hfutex, fun hn => absurd (hpipe.1.symm.trans hn) (by decide)⟩
    refine ⟨?_, fun h => absurd h (by simp), fun _ => hentry hpipe.1 (by decide)⟩
    dsimp only
    rw [hr]
    exact .put (.refl t) rfl rfl (fun _ => iff_of_true rfl (Or.inr hkept)) Or.inl
      fun h => absurd (hpipe.1.symm.trans h.2.1) (by decide)
  · refine ⟨(setupStatx_patched s pid t hr).congr (or_congr_right ?_) ?_,
      fun h => absurd h (by simp), fun _ => hentry hstatx.1 (by decide)⟩
    · exact ⟨fun h => ⟨fun hn => absurd hn hfutex, fun _ _ => h⟩,
        fun h => h.statx hstatx.1 hstatx.2⟩
    · exact ⟨fun h => ⟨h.1, hstatx.1, hstatx.2, h.2⟩, fun h => ⟨h.1, h.2.2.2⟩⟩
  · have hkept : CommonKept env t t.regs :=
      ⟨fun hn => absurd hn hfutex, fun hn hm => absurd ⟨hn, hm⟩ hstatx⟩
    have hmoves : ¬ MovesStack env t t.regs := fun h => hstatx ⟨h.2.1, h.2.2.1⟩
    exact ⟨.unchanged rfl (Or.inr hkept) hmoves (Or.inl hr), fun _ => ⟨rfl, hkept, hmoves⟩,
      fun h => absurd h (by simp)⟩

theorem legacyTermiosRequest_ne {request legacy : U64}
    (h : legacyTermiosRequest request = some legacy) : legacy ≠ request := by
  unfold legacyTermiosRequest at h
  split_ifs at h with h₁ h₂ h₃ h₄
  all_goals
    obtain rfl := Option.some.inj h
    subst request
    decide

theorem setupTermios2_patched (s : Tracer) (pid : Pid) (t : Tracee) (hr : s.reserved pid = none)
    (hcs : t.regs.cs = userCs) :
    Patched t (t.canSet = false ∨ legacyTermiosRequest t.regs.rsi = none) False
      ((s.setupTermios2 pid t t.regs).1.reserved pid) (s.setupTermios2 pid t t.regs).2 := by
  unfold setupTermios2
  rw [if_neg (not_not.2 hcs)]
  split
  · rename_i hlegacy
    exact .unchanged rfl (Or.inr hlegacy) id (Or.inl hr)
  · rename_i legacy hlegacy
    split
    · rename_i hset
      rw [Tracee.setregs_eq_none] at hset
      exact .unchanged rfl (Or.inl hset) id (Or.inl hr)
    · rename_i t₁ hset
      obtain ⟨hcan, rfl⟩ := Tracee.setregs_eq_some.1 hset
      have hput : Patched t (t.canSet = false ∨ legacyTermiosRequest t.regs.rsi = none) False none
          { t with regs := { t.regs with rsi := legacy } } := by
        refine ⟨rfl, iff_of_false (fun h => ?_) ?_, Or.inl ⟨id, Or.inl rfl, rfl⟩⟩
        · exact legacyTermiosRequest_ne hlegacy (congrArg Kept.rsi h)
        · simp [hcan, hlegacy]
      split_ifs
      · exact hr ▸ hput
      · exact hr ▸ hput

theorem rewriteEntry_patched (env : Env) (s : Tracer) (pid : Pid) (t : Tracee)
    (hr : s.reserved pid = none) (hcs : t.regs.cs = userCs) :
    Patched t (t.canSet = false ∨ EntryKept env t t.regs) False
      ((s.rewriteEntry env pid t t.regs).1.reserved pid) (s.rewriteEntry env pid t t.regs).2 := by
  -- In the branch of one call nothing is asked of the others.
  have other : ∀ {n m : U64} {P : Prop}, t.regs.origRax = n → n ≠ m → t.regs.origRax = m → P :=
    fun hn hne hm => absurd (hn.symm.trans hm) hne
  have clocks : ∀ {n : U64} {P : Prop}, t.regs.origRax = n →
      n ≠ Nr.clockGettime ∧ n ≠ Nr.clockGetres ∧ n ≠ Nr.clockNanosleep →
      (t.regs.origRax = Nr.clockGettime ∨ t.regs.origRax = Nr.clockGetres ∨
        t.regs.origRax = Nr.clockNanosleep) → P := by
    rintro n P hn ⟨h₁, h₂, h₃⟩ (hm | hm | hm)
    · exact other hn h₁ hm
    · exact other hn h₂ hm
    · exact other hn h₃ hm
  have put : ∀ {regs' : Regs}, regs'.cs = t.regs.cs → regs'.rsp = t.regs.rsp →
      (kept regs' = kept t.regs ↔ EntryKept env t t.regs) →
        Patched t (t.canSet = false ∨ EntryKept env t t.regs) False none (t.putregs regs') :=
    fun hcs hrsp h => .put (.refl t) hcs hrsp (fun hset => by rw [h]; simp [hset]) Or.inl id
  unfold rewriteEntry
  dsimp only
  split_ifs with hepoll hprlimit hself hioctl hclock hid hppoll
  · rw [hr]
    refine put rfl rfl ⟨fun h => ?_, fun h => ?_⟩
    · exact ⟨fun _ _ => (congrArg Kept.rdi h).symm, other hepoll.1 (by decide),
        other hepoll.1 (by decide), clocks hepoll.1 (by decide), other hepoll.1 (by decide)⟩
    · have hrdi := h.epollCreate1 hepoll.1 hepoll.2
      simp only [kept, hrdi]
  · rw [hr]
    refine put rfl rfl ⟨fun h => ?_, fun h => ?_⟩
    · have hrdi : t.regs.rsi = t.regs.rdi := congrArg Kept.rdi h
      have hrsi : (if decide (t.regs.rdx ≠ 0) = true then t.regs.rdx else t.regs.r10) =
        t.regs.rsi := congrArg Kept.rsi h
      rw [hself] at hrdi
      refine ⟨other hprlimit.1 (by decide), fun _ _ _ => ?_, other hprlimit.1 (by decide),
        clocks hprlimit.1 (by decide), other hprlimit.1 (by decide)⟩
      rw [hrdi] at hrsi
      by_cases hrdx : t.regs.rdx = 0
      · exact ⟨hrdi, hrdx, by simpa [hrdx] using hrsi⟩
      · rw [if_pos (decide_eq_true hrdx)] at hrsi
        exact absurd hrsi hrdx
    · obtain ⟨hrsi, hrdx, hr10⟩ := h.prlimit64 hprlimit.1 hprlimit.2 hself
      simp [kept, prlimitFallback, hrsi, hrdx, hr10, hself]
  · exact .unchanged rfl (Or.inr ⟨other hprlimit.1 (by decide), fun _ _ h => absurd h hself,
      other hprlimit.1 (by decide), clocks hprlimit.1 (by decide),
      other hprlimit.1 (by decide)⟩) id (Or.inl hr)
  · refine (setupTermios2_patched s pid t hr hcs).congr (or_congr_right ⟨fun h => ?_, fun h => ?_⟩)
      Iff.rfl
    · exact ⟨other hioctl.1 (by decide), other hioctl.1 (by decide), fun _ _ => h,
        clocks hioctl.1 (by decide), other hioctl.1 (by decide)⟩
    · exact h.ioctl hioctl.1 hioctl.2
  · rw [hr]
    refine put rfl rfl (iff_of_false (fun h => ?_) fun h => hid (h.clock hclock))
    exact hid (congrArg Kept.rdi h)
  · rw [not_not] at hid
    refine .unchanged rfl (Or.inr ⟨?_, ?_, ?_, fun _ => hid, ?_⟩) id (Or.inl hr)
    · exact fun hn => clocks hn (by decide) hclock
    · exact fun hn => clocks hn (by decide) hclock
    · exact fun hn => clocks hn (by decide) hclock
    · exact fun hn => clocks hn (by decide) hclock
  · rw [hr]
    refine put rfl rfl ⟨fun h => ?_, fun h => ?_⟩
    · exact ⟨other hppoll.1 (by decide), other hppoll.1 (by decide), other hppoll.1 (by decide),
        clocks hppoll.1 (by decide), fun _ _ => (congrArg Kept.rdx h).symm⟩
    · have hrdx := h.ppoll hppoll.1 hppoll.2
      simp only [kept, ← hrdx]
  · exact .unchanged rfl (Or.inr ⟨fun hn hm => absurd ⟨hn, hm⟩ hepoll,
      fun hn hm => absurd ⟨hn, hm⟩ hprlimit, fun hn hm => absurd ⟨hn, hm⟩ hioctl,
      fun hn => absurd hn hclock, fun hn hm => absurd ⟨hn, hm⟩ hppoll⟩) id (Or.inl hr)

/-- An entry stop of the every-syscall mode leaves the argument registers as they are. -/
def TracedKept (env : Env) (t : Tracee) : Prop :=
  t.canGet = false ∨ t.regs.cs ≠ userCs ∨ t.canSet = false ∨
    CommonKept env t t.regs ∧ EntryKept env t t.regs

/-- A seccomp stop leaves the argument registers as they are. -/
def FilteredKept (env : Env) (t : Tracee) : Prop :=
  t.canGet = false ∨ t.canSet = false ∨ CommonKept env t t.regs

theorem onSyscallEntry_patched (env : Env) (s : Tracer) (pid : Pid) (t : Tracee)
    (hr : s.reserved pid = none) :
    Patched t (TracedKept env t) (t.canGet = true ∧ t.regs.cs = userCs ∧ MovesStack env t t.regs)
      ((s.onSyscallEntry env pid t).1.reserved pid) (s.onSyscallEntry env pid t).2 := by
  unfold onSyscallEntry
  split
  · rename_i hget
    rw [Tracee.getregs_eq_none] at hget
    exact .unchanged rfl (Or.inl hget) (fun h => absurd h.1 (by simp [hget])) (Or.inl hr)
  · rename_i regs hget
    obtain ⟨hcan, rfl⟩ := Tracee.getregs_eq_some.1 hget
    split_ifs with hcs
    · exact .unchanged rfl (Or.inr (Or.inl hcs)) (fun h => hcs h.2.1) (Or.inl hr)
    rw [not_not] at hcs
    dsimp only
    obtain ⟨hcommon, hnone, hsome⟩ := translateCommon_patched env
      { s with lastSyscall := Function.update s.lastSyscall pid (some t.regs.origRax) } pid t hr
    generalize htc : translateCommon env
      { s with lastSyscall := Function.update s.lastSyscall pid (some t.regs.origRax) } pid t
      t.regs = r at hcommon hnone hsome
    obtain ⟨s₁, t₁, o⟩ := r
    cases o with
    | some needsExit =>
      have hentry := hsome rfl
      exact hcommon.congr (by simp [TracedKept, hcan, hcs, hentry]) (by simp [hcan, hcs])
    | none =>
      obtain ⟨heq, hkept, hmoves⟩ := hnone rfl
      obtain ⟨rfl, rfl, -⟩ : s₁ = _ ∧ t₁ = t ∧ True := by
        simpa using heq
      refine (rewriteEntry_patched env _ pid t₁ ?_ hcs).congr ?_ ?_
      · exact hr
      · simp [TracedKept, hcan, hcs, hkept]
      · simp [hmoves]

theorem onSeccompStop_patched (env : Env) (s : Tracer) (pid : Pid) (t : Tracee)
    (hr : s.reserved pid = none) :
    Patched t (FilteredKept env t) (t.canGet = true ∧ MovesStack env t t.regs)
      ((s.onSeccompStop env pid t).1.reserved pid) (s.onSeccompStop env pid t).2.1 := by
  unfold onSeccompStop
  split
  · rename_i hget
    rw [Tracee.getregs_eq_none] at hget
    exact .unchanged rfl (Or.inl hget) (fun h => absurd h.1 (by simp [hget])) (Or.inl hr)
  · rename_i regs hget
    obtain ⟨hcan, rfl⟩ := Tracee.getregs_eq_some.1 hget
    obtain ⟨hcommon, hnone, -⟩ := translateCommon_patched env s pid t hr
    generalize translateCommon env s pid t t.regs = r at hcommon hnone
    obtain ⟨s₁, t₁, o⟩ := r
    cases o with
    | some needsExit =>
      exact hcommon.congr (by simp [FilteredKept, hcan]) (by simp [hcan])
    | none =>
      obtain ⟨heq, hkept, hmoves⟩ := hnone rfl
      obtain ⟨rfl, rfl⟩ : s₁ = s ∧ t₁ = t := by simpa using heq
      dsimp only
      have hsame : Patched t₁ (FilteredKept env t₁)
          (t₁.canGet = true ∧ MovesStack env t₁ t₁.regs) none t₁ :=
        .unchanged rfl (Or.inr (Or.inr hkept)) (fun h => hmoves h.2) (Or.inl rfl)
      split_ifs
      · exact hr ▸ hsame
      · exact hr ▸ hsame

/-- The tracer traces the calls of a seccomp filter only. -/
structure Filtering (s : Tracer) : Prop where
  syscallMode : s.syscallMode = false
  seccompMode : s.seccompMode = true

end Tracer

/-! ### Around a call -/

/-- What the kernel leaves at the end of a call: a result in `rax`, whatever it likes
in `rcx` and `r11`, and a tracee that can be reached or not. -/
structure KernelReturn where
  rax : U64
  rcx : U64
  r11 : U64
  mem : Memory
  canGet : Bool
  canSet : Bool

/-- The tracee at the end of the call it was in. -/
def KernelReturn.apply (r : KernelReturn) (t : Tracee) : Tracee where
  regs := { t.regs with rax := r.rax, rcx := r.rcx, r11 := r.r11 }
  mem := r.mem
  canGet := r.canGet
  canSet := r.canSet

/-- The calls that are rewritten in place. -/
def rewrittenCalls : List U64 :=
  [Nr.futex, Nr.pipe2, Nr.statx, Nr.epollCreate1, Nr.prlimit64, Nr.ioctl, Nr.clockGettime,
    Nr.clockGetres, Nr.clockNanosleep, Nr.ppoll]

/-- A call of a tracee, from the stop `u` at its entry until it goes on, in which the
kernel returns `r`. -/
inductive Trip (s : Tracer) (pid : Pid) (u : Turn) (r : KernelReturn) : Tracee → Prop
  /-- Every-syscall mode: an entry stop and an exit stop. -/
  | traced (hmode : s.EverySyscall) (hu : u.wait = .syscall pid) (v : Turn)
      (hv : v.wait = .syscall pid) (ht : v.tracee = r.apply (s.turn u).tracee) :
      Trip s pid u r ((s.next u).turn v).tracee
  /-- A filtered call whose exit stop the tracer asks for, after an entry stop. -/
  | filtered (hmode : s.Filtering) (hu : u.wait = .event pid PTRACE_EVENT_SECCOMP)
      (hask : (s.turn u).resumed = some ⟨.syscall, pid, none⟩) (e v : Turn)
      (he : e.wait = .syscall pid) (hv : v.wait = .syscall pid)
      (ht : v.tracee = r.apply (s.turn u).tracee) :
      Trip s pid u r (((s.next u).next e).turn v).tracee
  /-- A filtered call the tracer lets run. -/
  | unwatched (hmode : s.Filtering) (hu : u.wait = .event pid PTRACE_EVENT_SECCOMP)
      (hask : (s.turn u).resumed = some ⟨.cont, pid, none⟩) :
      Trip s pid u r (r.apply (s.turn u).tracee)

/-- The registers a call leaves alone are as they were. -/
def Intact (t t' : Tracee) : Prop := kept t'.regs = kept t.regs ∧ t'.regs.rsp = t.regs.rsp

/-- The rewrite of a call does no harm: it changes no argument register, and the stack
pointer only where the exit stop can put it back. -/
def Harmless (everySyscall : Bool) (env : Env) (t : Tracee) (r : KernelReturn) : Prop :=
  if everySyscall then
    Tracer.TracedKept env t ∧
      (t.canGet = true ∧ t.regs.cs = userCs ∧ MovesStack env t t.regs →
        r.canGet = true ∧ r.canSet = true)
  else
    Tracer.FilteredKept env t ∧
      (t.canGet = true ∧ MovesStack env t t.regs →
        r.canGet = true ∧ r.canSet = true ∧ t.regs.cs = userCs)

namespace Tracer

/-- What a call comes to whose entry stop patched the tracee and whose exit stop the
tracer handles. -/
theorem intact_exit_iff {t t₁ : Tracee} {same moves : Prop} {s₁ : Tracer} {pid : Pid}
    (h : Patched t same moves (s₁.reserved pid) t₁) (env : Env) (r : KernelReturn) :
    Intact t (s₁.onSyscallExit env pid (r.apply t₁)).2 ↔
      same ∧ (moves → r.canGet = true ∧ r.canSet = true ∧ t.regs.cs = userCs) := by
  obtain ⟨hkept, hback, hleft⟩ := onSyscallExit_regs env s₁ pid (r.apply t₁)
  have hreach : Reachable (r.apply t₁) ↔
      r.canGet = true ∧ r.canSet = true ∧ t.regs.cs = userCs := by
    rw [← h.cs]
    exact ⟨fun h => ⟨h.canGet, h.canSet, h.long⟩, fun h => ⟨h.1, h.2.1, h.2.2⟩⟩
  have hargs : kept (s₁.onSyscallExit env pid (r.apply t₁)).2.regs = kept t.regs ↔ same := by
    rw [hkept]
    exact h.args
  unfold Intact
  rw [hargs, ← hreach]
  refine and_congr_right fun hsame => ?_
  have hrsp : (r.apply t₁).regs.rsp = t₁.regs.rsp := rfl
  rw [hrsp] at hback hleft
  rcases h.rsp with ⟨hmoves, hres, hstays⟩ | ⟨hmoves, hres, hmoved⟩
  · refine iff_of_true ?_ fun h => absurd h hmoves
    by_cases hr : Reachable (r.apply t₁)
    · rw [hback hr]
      rcases hres with hres | hres
      · rw [hres]; exact hstays
      · rw [hres]; rfl
    · rw [hleft hr, hstays]
  · have hm : moves := hmoves.resolve_right (not_not.2 hsame)
    by_cases hr : Reachable (r.apply t₁)
    · rw [hback hr, hres]
      exact iff_of_true rfl fun _ => hr
    · rw [hleft hr]
      exact iff_of_false hmoved fun h => hr (h hm)

/-- `begin` leaves a call that is rewritten in place alone. -/
theorem begin_of_rewritten (env : Env) (e : Emulations) (pid : Pid) (t : Tracee) (entering : Bool)
    (h : t.regs.origRax ∈ rewrittenCalls) : e.begin env pid t entering = (e, t, false) := by
  have hne : ∀ n : U64, n ∉ rewrittenCalls → t.regs.origRax ≠ n := fun n hn he => hn (he ▸ h)
  unfold Emulations.begin
  cases entering with
  | false => rfl
  | true =>
    rw [if_neg (by decide)]
    split
    · rfl
    · rename_i regs hregs
      obtain ⟨-, rfl⟩ := Tracee.getregs_eq_some.1 hregs
      rw [if_neg (hne Nr.close (by decide)), if_neg (hne Nr.eventfd (by decide)),
        if_neg (hne Nr.eventfd2 (by decide)), if_neg (hne Nr.timerfdCreate (by decide)),
        if_neg (hne Nr.timerfdSettime (by decide)), if_neg (hne Nr.timerfdGettime (by decide)),
        if_neg (hne Nr.fcntl (by decide)), if_neg (hne Nr.pwritev (by decide)),
        if_neg (hne Nr.preadv (by decide)), if_neg (hne Nr.epollPwait (by decide)), ite_self]

/-- A syscall stop that `begin` leaves alone, in every-syscall mode. -/
theorem turn_declined {s : Tracer} (hmode : s.EverySyscall) {pid : Pid} {u : Turn}
    (hu : u.wait = .syscall pid) (hactive : (s.view pid).active = none)
    (hbegin : (s.ticked u).emulated.begin u.env pid u.tracee (s.entering pid) =
      ((s.ticked u).emulated, u.tracee, false)) :
    (s.next u) = ((s.ticked u).onSyscallStop u.env pid u.tracee).1 ∧
      (s.turn u).tracee = ((s.ticked u).onSyscallStop u.env pid u.tracee).2 := by
  have hbusy : (s.ticked u).emulated.busy pid = false := by
    rw [Emulations.not_busy_iff, active_ticked]
    exact hactive
  have hturn : s.turn u =
      ((s.ticked u).onSyscallStop u.env pid u.tracee).1.resumed
        ((s.ticked u).onSyscallStop u.env pid u.tracee).2
        (((s.ticked u).onSyscallStop u.env pid u.tracee).1.resume pid none) := by
    rw [hmode.turn_eq hu, onTracedSyscall, if_neg (by simp [hbusy]),
      show (s.ticked u).entering pid = s.entering pid from rfl, hbegin]
  unfold next
  rw [hturn]
  exact ⟨rfl, rfl⟩

/-- The entry stop of a call that is rewritten in place, in every-syscall mode. -/
theorem turn_entry {s : Tracer} (hmode : s.EverySyscall) {pid : Pid}
    (hview : s.view pid = ⟨false, Pending.empty, none⟩) {u : Turn} (hu : u.wait = .syscall pid)
    (hcall : u.tracee.regs.origRax ∈ rewrittenCalls) :
    Patched u.tracee (TracedKept u.env u.tracee)
        (u.tracee.canGet = true ∧ u.tracee.regs.cs = userCs ∧
          MovesStack u.env u.tracee u.tracee.regs)
        ((s.next u).reserved pid) (s.turn u).tracee ∧
      ∃ p, (s.next u).view pid = ⟨true, p, none⟩ := by
  have hactive : (s.view pid).active = none := by rw [hview]
  have hentering : (s.ticked u).entering pid = true := by
    rw [entering_ticked, hview]
    rfl
  have hreserved : s.reserved pid = none := congrArg (fun v => v.pending.reserved) hview
  obtain ⟨hnext, hturn⟩ := turn_declined hmode hu hactive (begin_of_rewritten _ _ _ _ _ hcall)
  rw [hnext, hturn]
  unfold onSyscallStop
  dsimp only
  rw [hentering, if_pos rfl]
  refine ⟨onSyscallEntry_patched u.env _ pid u.tracee hreserved, ?_⟩
  obtain ⟨p, t', heq, -⟩ :=
    onSyscallEntry_eq u.env ((s.ticked u).setInSyscall pid true) pid u.tracee
  have hnone : (s.ticked u).emulated.active pid = none := (active_ticked s u pid).trans hactive
  rw [heq]
  exact ⟨p, by simp [view, setPending, setInSyscall, pending, hnone]⟩

/-- The exit stop of a call of the application's own, in every-syscall mode. -/
theorem turn_exit {s : Tracer} (hmode : s.EverySyscall) {pid : Pid} {p : Pending}
    (hview : s.view pid = ⟨true, p, none⟩) {v : Turn} (hv : v.wait = .syscall pid) :
    ∃ s' : Tracer, s'.pending pid = s.pending pid ∧
      (s.turn v).tracee = (s'.onSyscallExit v.env pid v.tracee).2 := by
  have hentering : (s.ticked v).entering pid = false := by
    rw [entering_ticked, hview]
    rfl
  have hactive : (s.view pid).active = none := by rw [hview]
  have hbegin : (s.ticked v).emulated.begin v.env pid v.tracee (s.entering pid) =
      ((s.ticked v).emulated, v.tracee, false) := by
    rw [show s.entering pid = false from hentering]
    rfl
  obtain ⟨-, hturn⟩ := turn_declined hmode hv hactive hbegin
  refine ⟨(s.ticked v).setInSyscall pid false, rfl, ?_⟩
  rw [hturn]
  unfold onSyscallStop
  dsimp only
  rw [hentering, if_neg (by decide)]

/-- A seccomp stop: the tracer asks for the exit stop, or lets the call run. -/
theorem turn_seccomp {s : Tracer} (hmode : s.Filtering) {pid : Pid} {u : Turn}
    (hu : u.wait = .event pid PTRACE_EVENT_SECCOMP) :
    (s.turn u).tracee = ((s.ticked u).onSeccompStop u.env pid u.tracee).2.1 ∧
      (((s.ticked u).onSeccompStop u.env pid u.tracee).2.2 = true ∧
          (s.turn u).resumed = some ⟨.syscall, pid, none⟩ ∧
          s.next u = { ((s.ticked u).onSeccompStop u.env pid u.tracee).1 with
            expectEntry := Function.update
              ((s.ticked u).onSeccompStop u.env pid u.tracee).1.expectEntry pid true } ∨
        ((s.ticked u).onSeccompStop u.env pid u.tracee).2.2 = false ∧
          (s.turn u).resumed = some ⟨.cont, pid, none⟩ ∧
          s.next u = ((s.ticked u).onSeccompStop u.env pid u.tracee).1) := by
  have hturn : s.turn u = (s.ticked u).onSeccompEvent u.env pid u.tracee := by
    unfold turn handle
    rw [hu]
    exact if_pos rfl
  unfold next
  rw [hturn]
  unfold onSeccompEvent
  obtain ⟨p, t', needsExit, h, -, -⟩ := onSeccompStop_eq u.env (s.ticked u) pid u.tracee
  rw [h]
  cases needsExit with
  | true => exact ⟨rfl, Or.inl ⟨rfl, rfl, rfl⟩⟩
  | false =>
    refine ⟨rfl, Or.inr ⟨rfl, ?_, rfl⟩⟩
    have hcont : ((s.ticked u).setPending pid p).syscallMode = false := hmode.syscallMode
    simp [resumed, resume, hcont]

/-- A syscall stop in seccomp mode that is owed: it is skipped. -/
theorem turn_owed {s : Tracer} (hmode : s.Filtering) {pid : Pid} {u : Turn}
    (hu : u.wait = .syscall pid) (hexpect : s.expectEntry pid = true) :
    s.turn u = resumed { s.ticked u with
        expectEntry := Function.update (s.ticked u).expectEntry pid false } u.tracee
      (resumeSyscall pid none) := by
  unfold turn handle
  rw [hu]
  dsimp only
  rw [if_pos (show (s.ticked u).seccompMode = true from hmode.seccompMode)]
  exact if_pos hexpect

/-- Any other syscall stop in seccomp mode is taken for the exit stop of a call. -/
theorem turn_unowed {s : Tracer} (hmode : s.Filtering) {pid : Pid} {u : Turn}
    (hu : u.wait = .syscall pid) (hexpect : s.expectEntry pid = false) :
    s.turn u = resumed ((s.ticked u).onSyscallExit u.env pid u.tracee).1
      ((s.ticked u).onSyscallExit u.env pid u.tracee).2 ⟨.cont, pid, none⟩ := by
  have hne : ¬ (s.ticked u).expectEntry pid = true := by simpa [ticked] using hexpect
  unfold turn handle
  rw [hu]
  dsimp only
  rw [if_pos (show (s.ticked u).seccompMode = true from hmode.seccompMode)]
  unfold onSeccompSyscall
  rw [if_neg hne]
  obtain ⟨p, t', heq, -⟩ := onSyscallExit_eq u.env (s.ticked u) pid u.tracee
  have hcont : ((s.ticked u).setPending pid p).syscallMode = false := hmode.syscallMode
  rw [heq]
  simp [resume, hcont]

/-- Calls are filtered or traced, not both. -/
theorem EverySyscall.not_filtering {s : Tracer} (h : s.EverySyscall) : ¬s.Filtering := fun h' =>
  Bool.false_ne_true (h.seccompMode.symm.trans h'.seccompMode)

theorem Filtering.next {s : Tracer} (h : s.Filtering) (u : Turn) : (s.next u).Filtering := by
  obtain ⟨-, hs, hc⟩ := next_modes s u
  exact ⟨hs.trans h.syscallMode, hc.trans h.seccompMode⟩

/-- **The registers around a rewritten call.**  In both tracing modes, a tracee that
goes on after a call the tracer rewrites in place finds every register that a call
leaves alone as it was, if and only if the rewrite does no harm. -/
theorem registers_kept_iff {s : Tracer} {pid : Pid} {u : Turn} {r : KernelReturn} {t' : Tracee}
    (hview : s.view pid = ⟨false, Pending.empty, none⟩)
    (hcall : u.tracee.regs.origRax ∈ rewrittenCalls) (h : Trip s pid u r t') :
    Intact u.tracee t' ↔ Harmless s.syscallMode u.env u.tracee r := by
  have hreserved : s.reserved pid = none := congrArg (fun v => v.pending.reserved) hview
  cases h with
  | traced hmode hu v hv ht =>
    obtain ⟨hentry, p, hview'⟩ := turn_entry hmode hview hu hcall
    obtain ⟨s', hpending, hexit⟩ := turn_exit (hmode.next u) hview' hv
    have hres : s'.reserved pid = (s.next u).reserved pid := congrArg Pending.reserved hpending
    rw [← hres] at hentry
    rw [hexit, ht, intact_exit_iff hentry, Harmless, if_pos hmode.syscallMode]
    refine and_congr_right fun _ => forall_congr' fun hm => ?_
    simp [hm.2.1]
  | filtered hmode hu hask e v he hv ht =>
    have hentry := onSeccompStop_patched u.env (s.ticked u) pid u.tracee hreserved
    obtain ⟨htracee, ⟨-, -, hnext⟩ | ⟨-, hcont, -⟩⟩ := turn_seccomp hmode hu
    · -- The entry stop is skipped, and the exit stop handled.
      have hexpect : (s.next u).expectEntry pid = true := by
        rw [hnext]
        exact Function.update_self ..
      have hskip : (s.next u).next e =
          { (s.next u).ticked e with
            expectEntry := Function.update ((s.next u).ticked e).expectEntry pid false } :=
        congrArg Handled.tracer (turn_owed (hmode.next u) he hexpect)
      have hdone : ((s.next u).next e).expectEntry pid = false := by
        rw [hskip]
        exact Function.update_self ..
      have hexit : (((s.next u).next e).turn v).tracee =
          ((((s.next u).next e).ticked v).onSyscallExit v.env pid v.tracee).2 :=
        congrArg Handled.tracee (turn_unowed ((hmode.next u).next e) hv hdone)
      have hres : (((s.next u).next e).ticked v).reserved pid =
          ((s.ticked u).onSeccompStop u.env pid u.tracee).1.reserved pid := by
        rw [hskip, hnext]
        rfl
      rw [← hres] at hentry
      rw [hexit, ht, htracee, intact_exit_iff hentry, Harmless,
        if_neg (by simp [hmode.syscallMode])]
    · exact absurd (hask.symm.trans hcont) (by simp)
  | unwatched hmode hu hask =>
    have hentry := onSeccompStop_patched u.env (s.ticked u) pid u.tracee hreserved
    obtain ⟨htracee, ⟨-, hsyscall, -⟩ | ⟨hno, -, -⟩⟩ := turn_seccomp hmode hu
    · exact absurd (hask.symm.trans hsyscall) (by simp)
    · obtain ⟨p, t', needsExit, heq, hp, -⟩ := onSeccompStop_eq u.env (s.ticked u) pid u.tracee
      rw [heq] at hno hentry htracee
      have hnone : ((s.ticked u).setPending pid p).reserved pid = none := by
        rw [hp hno]
        exact (congrArg Pending.reserved (pending_setPending _ pid _)).trans hreserved
      rw [hnone] at hentry
      rw [htracee, Harmless, if_neg (by simp [hmode.syscallMode])]
      unfold Intact
      rcases hentry.rsp with ⟨hmoves, -, hstays⟩ | ⟨-, hsome, -⟩
      · exact and_congr hentry.args (iff_of_true hstays fun h => absurd h hmoves)
      · exact absurd hsome (by simp)

/-- The kernel returns a descriptor. -/
def returnsThree : KernelReturn := ⟨3, 0, 0, fun _ => none, true, true⟩

/-- A `pipe2` is rewritten without harm. -/
theorem registers_kept_iff_pipe2 :
    let u := oldTurn (.syscall 1) (.entryOf Nr.pipe2 0x9000 0 0 0)
    let s := Tracer.new 1 true false
    let v := oldTurn (.syscall 1) (returnsThree.apply (s.turn u).tracee)
    Intact u.tracee ((s.next u).turn v).tracee ↔
      Harmless s.syscallMode u.env u.tracee returnsThree :=
  registers_kept_iff rfl (by decide) (.traced ⟨rfl, rfl⟩ rfl _ rfl rfl)

/-- **`epoll_create1(0)` comes back with another `rdi`**: the size handed to
`epoll_create`. -/
theorem epollCreate1_changes_rdi :
    ∃ t', Trip (Tracer.new 1 true false) 1
        (oldTurn (.syscall 1) (.entryOf Nr.epollCreate1 0 0 0 0)) returnsThree t' ∧
      t'.regs.rdi = 1 ∧ ¬ Intact (.entryOf Nr.epollCreate1 0 0 0 0) t' := by
  refine ⟨_, .traced ⟨rfl, rfl⟩ rfl (oldTurn (.syscall 1) (returnsThree.apply
    ((Tracer.new 1 true false).turn
      (oldTurn (.syscall 1) (.entryOf Nr.epollCreate1 0 0 0 0))).tracee)) rfl rfl, ?_, ?_⟩
  · decide
  · rintro ⟨hkept, -⟩
    exact absurd hkept (by decide)

end Tracer
end Tracing
end Sharun
