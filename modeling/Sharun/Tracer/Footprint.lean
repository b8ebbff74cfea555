/-
# The memory a call of the application may find changed

The layer changes the memory of a tracee in two ways: it pokes words, and it hands
buffers to the kernel with the calls it puts in place of the application's.  For a
call with the registers `regs` at its entry stop both stay within `footprint`: the
block of scratch space below the stack (`block`, which ends below the red zone,
`block_below`) and the buffers the application passed with the call itself
(`outputs`, one table for the application's calls and for those in their place).

`Framed` says what an entry stop leaves behind, in memory, in the registers and in
the records an exit stop collects, and there is one lemma about it for each function
an entry stop may run through.  An exit stop stays within the footprint as well, but
for the bytes behind the buffer of a `getrandom` that are zeroed where its last word is
not mapped to its end (`zeroedAt`, `onSyscallExit_changes_iff`).
-/

import Sharun.Machine.Pokes
import Sharun.Tracer.Injected
import Mathlib.Data.Set.Lattice

namespace Sharun
namespace Tracing

open Machine Emulation Sharun.Basis

/-! ### The buffers of a call -/

/-- Memory a call has the kernel fill. -/
structure Buffer where
  addr : U64
  len : ℕ
  deriving DecidableEq, Repr

/-- The addresses of a buffer. -/
def Buffer.bytes (b : Buffer) : Set U64 := region b.addr b.len

/-- The buffers an array of `iovec` names. -/
def vectors (m : Memory) (iov : U64) : ℕ → List Buffer
  | 0 => []
  | count + 1 =>
    match m.readStruct iov 16 with
    | none => []
    | some raw =>
      ⟨leU64 (raw.take 8), (leU64 (raw.drop 8)).toNat⟩ :: vectors m (iov + 16) count

/-- The buffers the kernel fills for a call, with the sizes of the x86_64 interface:
for the calls that are intercepted and for those the layer makes in their place. -/
def outputs (m : Memory) (c : Call) : List Buffer :=
  if c.nr = Nr.statx then [⟨c.a4, 256⟩]
  else if c.nr = Nr.newfstatat then [⟨c.a2, 144⟩]
  else if c.nr = Nr.fstat then [⟨c.a1, 144⟩]
  else if c.nr = Nr.ioctl then
    if c.a1 = TCGETS2 then [⟨c.a2, 44⟩] else if c.a1 = TCGETS then [⟨c.a2, 36⟩] else []
  else if c.nr = Nr.getrandom then [⟨c.a0, c.a1.toNat⟩]
  else if c.nr = Nr.timerfdSettime then if c.a3 = 0 then [] else [⟨c.a3, 32⟩]
  else if c.nr = Nr.timerfdGettime then [⟨c.a1, 32⟩]
  else if c.nr = Nr.preadv ∨ c.nr = Nr.readv then vectors m c.a1 c.a2.toNat
  else if c.nr = Nr.epollPwait ∨ c.nr = Nr.epollWait then [⟨c.a1, 12 * (c.a2.setWidth 32).toNat⟩]
  else if c.nr = Nr.rtSigprocmask then if c.a2 = 0 then [] else [⟨c.a2, 8⟩]
  else if c.nr = Nr.pipe2 ∨ c.nr = Nr.pipe then [⟨c.a0, 8⟩]
  else if c.nr = Nr.prlimit64 then [⟨c.a3, 16⟩]
  else if c.nr = Nr.getrlimit then [⟨c.a1, 16⟩]
  else if c.nr = Nr.ppoll ∨ c.nr = Nr.poll then [⟨c.a0, 8 * (c.a1.setWidth 32).toNat⟩]
  else if c.nr = Nr.clockGettime ∨ c.nr = Nr.clockGetres then [⟨c.a1, 16⟩]
  else if c.nr = Nr.clockNanosleep then [⟨c.a3, 16⟩]
  else if c.nr = Nr.futex then [⟨c.a0, 4⟩, ⟨c.a4, 4⟩]
  else []

/-- The addresses of the buffers of a call. -/
def outputBytes (m : Memory) (c : Call) : Set U64 := {a | ∃ b ∈ outputs m c, a ∈ b.bytes}

/-- The scratch space of a call: 264 bytes from the scratch address on. -/
def block (regs : Regs) : Set U64 := region (scratchFor regs) 264

/-- What may change on behalf of a call: scratch space and the call's own buffers. -/
def footprint (m : Memory) (regs : Regs) : Set U64 := block regs ∪ outputBytes m (callOf regs)

/-- A call asks the kernel for nothing outside the footprint. -/
def Fits (regs : Regs) (c : Call) : Prop := ∀ m, outputBytes m c ⊆ footprint m regs

section

variable {regs : Regs}

theorem block_subset (m : Memory) (regs : Regs) : block regs ⊆ footprint m regs :=
  Set.subset_union_left

/-- A part of the scratch space. -/
theorem region_subset_block {k n : ℕ} (h : k + n ≤ 264) (regs : Regs) :
    region (scratchFor regs + BitVec.ofNat 64 k) n ⊆ block regs := region_shift h _

theorem scratch_subset_block {n : ℕ} (h : n ≤ 264) (regs : Regs) :
    region (scratchFor regs) n ⊆ block regs := region_mono h _

/-- A buffer of the call is part of its footprint. -/
theorem buffer_subset {m : Memory} {b : Buffer} (h : b ∈ outputs m (callOf regs)) :
    b.bytes ⊆ footprint m regs :=
  fun _ ha => Or.inr ⟨b, h, ha⟩

theorem Fits.of_outputs_nil {c : Call} (h : ∀ m, outputs m c = []) : Fits regs c := by
  rintro m a ⟨b, hb, -⟩
  rw [h m] at hb
  exact absurd hb (by simp)

/-- A call that fills what the application's own call does. -/
theorem Fits.of_outputs_eq {c : Call} (h : ∀ m, outputs m c = outputs m (callOf regs)) :
    Fits regs c := by
  rintro m a ⟨b, hb, ha⟩
  rw [h m] at hb
  exact Or.inr ⟨b, hb, ha⟩

/-- A call that fills one buffer in scratch space. -/
theorem Fits.of_scratch {c : Call} {n : ℕ} (hn : n ≤ 264)
    (h : ∀ m, outputs m c = [⟨scratchFor regs, n⟩]) : Fits regs c := by
  rintro m a ⟨b, hb, ha⟩
  rw [h m, List.mem_singleton] at hb
  subst hb
  exact Or.inl (scratch_subset_block hn regs ha)

/-- The application's own call. -/
theorem Fits.own (regs : Regs) : Fits regs (callOf regs) := Fits.of_outputs_eq fun _ => rfl

end

/-! ### Scratch space -/

theorem scratchFor_toNat {regs : Regs} (h : 512 ≤ regs.rsp.toNat) :
    (scratchFor regs).toNat = (regs.rsp.toNat - 512) / 16 * 16 := by
  unfold scratchFor
  rw [and_not_15, BitVec.toNat_sub_of_le]
  · rfl
  · rw [BitVec.le_def]
    exact h

/-- **Scratch space is below the red zone.** -/
theorem block_below {regs : Regs} (h : 1024 ≤ regs.rsp.toNat) {a : U64} (ha : a ∈ block regs) :
    (regs.rsp.toNat - 512) / 16 * 16 ≤ a.toNat ∧ a.toNat < regs.rsp.toNat - 128 := by
  have hscratch : (scratchFor regs).toNat = (regs.rsp.toNat - 512) / 16 * 16 :=
    scratchFor_toNat (by omega)
  have hrsp := regs.rsp.isLt
  obtain ⟨hlow, hhigh⟩ := (mem_region_iff (by omega)).1 ha
  omega

/-- The decimal digits of a number below `10 ^ k`. -/
theorem length_toString_le {n k : ℕ} (hk : 0 < k) (h : n < 10 ^ k) :
    (toString n).toList.length ≤ k := by
  rw [Nat.toString_eq_ofList_toDigits, String.toList_ofList]
  exact (Nat.length_toDigits_le_iff (by decide) hk).2 h

/-- The address of an emulated eventfd leaves room below the initial value. -/
theorem eventfdAddress_length {pid : Pid} {sequence : ℕ} (hpid : pid < 2 ^ 31)
    (hsequence : sequence < 2 ^ 64) :
    (Emulations.eventfdAddress pid sequence).length ≤ 45 := by
  have hp := length_toString_le (k := 10) (by decide) (lt_of_lt_of_le hpid (by decide))
  have hs := length_toString_le (k := 20) (by decide) (lt_of_lt_of_le hsequence (by decide))
  have hname : ("sharun-efd-" : String).toList.length = 11 := by decide
  have hdash : ("-" : String).toList.length = 1 := by decide
  unfold Emulations.eventfdAddress
  simp only [List.length_append, List.length_map, leBytes_length, List.length_cons,
    List.length_nil, String.toList_append, hname, hdash]
  omega

/-! ### The calls of an emulation -/

/-- A step whose call fits, whatever the emulation knows by then. -/
def StepFits (regs : Regs) (step : Step) : Prop := ∀ q, Fits regs (build step q)

section

variable {regs : Regs}

/-- A step that has the kernel fill nothing. -/
theorem StepFits.of_nil {step : Step} (h : ∀ q m, outputs m (build step q) = []) :
    StepFits regs step := fun q => Fits.of_outputs_nil (h q)

theorem eventfdSteps_fit (regs : Regs) (length : ℕ) :
    ∀ step ∈ Emulations.eventfdSteps regs length, StepFits regs step := by
  unfold Emulations.eventfdSteps
  dsimp only
  rw [List.forall_mem_append, List.forall_mem_append]
  refine ⟨⟨?_, ?_⟩, ?_⟩
  · intro step hstep
    simp only [List.mem_cons, List.not_mem_nil, or_false] at hstep
    rcases hstep with rfl | rfl | rfl
    · exact .of_nil fun _ _ => rfl
    · exact .of_nil fun _ _ => rfl
    · exact .of_nil fun _ _ => rfl
  · split_ifs
    · exact List.forall_mem_singleton.2 (.of_nil fun _ _ => rfl)
    · exact List.forall_mem_nil _
  · split_ifs
    · exact List.forall_mem_singleton.2 (.of_nil fun _ _ => rfl)
    · exact List.forall_mem_nil _

theorem timerfdCreateSteps_fit (regs : Regs) :
    ∀ step ∈ Emulations.timerfdCreateSteps regs, StepFits regs step := by
  unfold Emulations.timerfdCreateSteps
  rw [List.forall_mem_append]
  constructor
  · intro step hstep
    simp only [List.mem_cons, List.not_mem_nil, or_false] at hstep
    rcases hstep with rfl | rfl
    · exact fun q => Fits.of_scratch (n := 8) (by decide) fun _ => rfl
    · exact .of_nil fun _ _ => rfl
  · split_ifs
    · exact List.forall_mem_singleton.2 (.of_nil fun _ _ => rfl)
    · exact List.forall_mem_nil _

theorem dupfdCloexecSteps_fit (regs : Regs) :
    ∀ step ∈ Emulations.dupfdCloexecSteps regs, StepFits regs step := by
  intro step hstep
  simp only [Emulations.dupfdCloexecSteps, List.mem_cons, List.not_mem_nil, or_false] at hstep
  rcases hstep with rfl | rfl
  · exact .of_nil fun _ _ => rfl
  · exact .of_nil fun _ _ => rfl

theorem vectorIoSteps_fit {write : Bool} (h : write = false → regs.origRax = Nr.preadv) :
    ∀ step ∈ Emulations.vectorIoSteps regs write, StepFits regs step := by
  intro step hstep
  simp only [Emulations.vectorIoSteps, List.mem_cons, List.not_mem_nil, or_false] at hstep
  rcases hstep with rfl | rfl
  · exact .of_nil fun _ _ => rfl
  · cases write with
    | true => exact .of_nil fun _ _ => rfl
    | false =>
      -- `readv` is given the vectors of `preadv`.
      refine fun q => Fits.of_outputs_eq fun m => ?_
      simp [outputs, callOf, h rfl, build]

theorem epollPwaitSteps_fit (h : regs.origRax = Nr.epollPwait) :
    ∀ step ∈ Emulations.epollPwaitSteps regs, StepFits regs step := by
  intro step hstep
  simp only [Emulations.epollPwaitSteps, List.mem_cons, List.not_mem_nil, or_false] at hstep
  rcases hstep with rfl | rfl | rfl
  · intro q
    by_cases hscratch : scratchFor regs = 0
    · exact Fits.of_outputs_nil fun m => if_pos hscratch
    · exact Fits.of_scratch (n := 8) (by decide) fun m => if_neg hscratch
  · refine fun q => Fits.of_outputs_eq fun m => ?_
    simp [outputs, callOf, h, build]
  · exact .of_nil fun _ _ => rfl

/-- **The calls of every plan fit.** -/
theorem planned_fit (e : Emulations) (pid : Pid) (regs : Regs) :
    ∀ step ∈ e.planned pid regs, StepFits regs step := by
  unfold Emulations.planned
  split_ifs with h₁ h₂ h₃ h₄ h₅ h₆
  · exact eventfdSteps_fit regs _
  · exact timerfdCreateSteps_fit regs
  · exact dupfdCloexecSteps_fit regs
  · exact vectorIoSteps_fit (by simp)
  · exact vectorIoSteps_fit fun _ => h₅
  · exact epollPwaitSteps_fit h₆
  · simp

end

/-! ### The entry stop -/

/-- What an entry stop of a call with the registers `regs` may do to its tracee: the
memory changes within the footprint, and the call in the registers afterwards fits. -/
structure Framed (regs : Regs) (t t' : Tracee) : Prop where
  memory : ∀ m, Changes (footprint m regs) t.mem t'.mem
  call : Fits regs (callOf t'.regs)

namespace Framed

variable {regs regs' : Regs} {t t₁ t₂ : Tracee}

theorem refl (t : Tracee) : Framed t.regs t t := ⟨fun _ => .refl _ _, Fits.own _⟩

theorem trans (h : Framed regs t t₁) (h' : Framed regs t₁ t₂) : Framed regs t t₂ :=
  ⟨fun m => (h.memory m).trans (h'.memory m), h'.call⟩

/-- A structure is written whose words lie within the footprint. -/
theorem write {addr : U64} {bytes : List Byte} {ok : Bool} (h : Framed regs t t₁)
    (hw : t₁.writeStruct addr bytes = (t₂, ok))
    (hsub : ∀ m, region addr (8 * ((bytes.length + 7) / 8)) ⊆ footprint m regs) :
    Framed regs t t₂ := by
  refine ⟨fun m => (h.memory m).trans ((Tracee.writeStruct_changes_words hw).mono (hsub m)), ?_⟩
  rw [(Tracee.SameRegs.of_writeStruct hw).regs]
  exact h.call

/-- A call that fits is put in the registers. -/
theorem set (h : Framed regs t t₁) (hset : t₁.setregs regs' = some t₂)
    (hfits : Fits regs (callOf regs')) : Framed regs t t₂ := by
  obtain ⟨-, rfl⟩ := Tracee.setregs_eq_some.1 hset
  exact ⟨h.memory, hfits⟩

theorem put (h : Framed regs t t₁) (hfits : Fits regs (callOf regs')) :
    Framed regs t (t₁.putregs regs') := by
  cases hset : t₁.canSet with
  | true =>
    rw [Tracee.putregs_of_canSet hset]
    exact ⟨h.memory, hfits⟩
  | false =>
    rw [Tracee.putregs_of_not_canSet hset]
    exact h

theorem ite {c : Prop} [Decidable c] {r r' : Emulations × Tracee × Bool}
    (h : c → Framed regs t r.2.1) (h' : Framed regs t r'.2.1) :
    Framed regs t (if c then r else r').2.1 := by
  split
  · rename_i hc
    exact h hc
  · exact h'

end Framed

/-! `Emulations::begin` -/

section

variable {regs : Regs} {t t₁ : Tracee} {pid : Pid}

theorem startSequence_framed (e : Emulations) {gadget : U64} {queue : List Step}
    (outcome : Outcome) (clockid : ℤ) (h : Framed regs t t₁)
    (hplan : ∀ step ∈ queue, StepFits regs step) :
    Framed regs t (e.startSequence pid t₁ regs gadget queue outcome clockid).2.1 := by
  unfold Emulations.startSequence
  cases queue with
  | nil => exact h
  | cons first queue =>
    dsimp only
    split
    · exact h
    · rename_i t₂ hset
      exact h.set hset (hplan first (List.mem_cons_self ..) _)

theorem standIn_framed (e : Emulations) (result : ℤ) (h : Framed regs t t₁) :
    Framed regs t (e.standIn pid t₁ regs result).2.1 := by
  unfold Emulations.standIn
  split
  · exact h
  · rename_i t₂ hset
    exact h.set hset (Fits.of_outputs_nil fun _ => rfl)

theorem eventfd_framed (env : Env) (e : Emulations) (hpid : pid < 2 ^ 31)
    (hsequence : e.sequence < 2 ^ 64) : Framed t.regs t (e.eventfd env pid t t.regs).2.1 := by
  have hlen := eventfdAddress_length hpid hsequence
  have haddress : ∀ m, region (scratchFor t.regs)
      (8 * (((Emulations.eventfdAddress pid e.sequence).length + 7) / 8)) ⊆ footprint m t.regs :=
    fun m => (scratch_subset_block (by omega) t.regs).trans (block_subset m t.regs)
  have hvalue : ∀ m, region (scratchFor t.regs + 256)
      (8 * (((leBytes 8 t.regs.rdi).length + 7) / 8)) ⊆ footprint m t.regs :=
    fun m => (region_subset_block (k := 256) (by rw [leBytes_length]) t.regs).trans
      (block_subset m t.regs)
  unfold Emulations.eventfd
  refine .ite (fun _ => .refl t) ?_
  dsimp only
  refine .ite (fun _ => .refl t) ?_
  split
  · exact .refl t
  split
  · rename_i t₁ hwrite
    exact (Framed.refl t).write hwrite haddress
  rename_i t₁ hwrite
  have h₁ := (Framed.refl t).write hwrite haddress
  have hwritten : ∀ {t₂ : Tracee} {ok : Bool},
      (if t.regs.rdi ≠ 0 then t₁.writeStruct (scratchFor t.regs + 256) (leBytes 8 t.regs.rdi)
        else (t₁, true)) = (t₂, ok) → Framed t.regs t t₂ := by
    intro t₂ ok heq
    split_ifs at heq
    · exact h₁.write heq hvalue
    · obtain rfl : t₁ = t₂ := congrArg Prod.fst heq
      exact h₁
  split
  · rename_i heq
    exact hwritten heq
  · rename_i heq
    exact startSequence_framed _ _ _ (hwritten heq) (eventfdSteps_fit t.regs _)

theorem timerfdCreate_framed (env : Env) (e : Emulations) :
    Framed t.regs t (e.timerfdCreate env pid t t.regs).2.1 :=
  Emulations.replaced_cases (P := fun r => Framed t.regs t r.2.1) (.refl t) fun _ _ =>
    startSequence_framed _ _ _ (.refl t) (timerfdCreateSteps_fit t.regs)

theorem itimerspecBytes_length (interval value : Time) :
    (Emulations.itimerspecBytes interval value).length = 32 := by
  simp [Emulations.itimerspecBytes]

theorem timerfdSettime_framed (env : Env) (e : Emulations)
    (h : t.regs.origRax = Nr.timerfdSettime) :
    Framed t.regs t (e.timerfdSettime env pid t t.regs).2.1 := by
  unfold Emulations.timerfdSettime
  dsimp only
  split
  · exact .refl t
  split
  · exact .refl t
  have hreported : ∀ {interval value : Time} {t₁ : Tracee} {ok : Bool},
      (if t.regs.r10 ≠ 0 then t.writeStruct t.regs.r10 (Emulations.itimerspecBytes interval value)
        else (t, true)) = (t₁, ok) → Framed t.regs t t₁ := by
    intro interval value t₁ ok heq
    split_ifs at heq with hold
    · refine (Framed.refl t).write heq fun m => ?_
      have houtputs : outputs m (callOf t.regs) = [⟨t.regs.r10, 32⟩] := by
        unfold outputs callOf
        rw [h]
        exact if_neg hold
      rw [itimerspecBytes_length]
      exact buffer_subset (b := ⟨t.regs.r10, 32⟩) (houtputs ▸ List.mem_singleton_self _)
    · obtain rfl : t = t₁ := congrArg Prod.fst heq
      exact .refl t
  split
  · rename_i heq
    exact hreported heq
  · rename_i heq
    split
    · exact hreported heq
    · exact standIn_framed _ _ (hreported heq)

theorem timerfdGettime_framed (env : Env) (e : Emulations)
    (h : t.regs.origRax = Nr.timerfdGettime) :
    Framed t.regs t (e.timerfdGettime env pid t t.regs).2.1 := by
  unfold Emulations.timerfdGettime
  split
  · exact .refl t
  dsimp only
  have hreported : ∀ {interval value : Time} {t₁ : Tracee} {ok : Bool},
      t.writeStruct t.regs.rsi (Emulations.itimerspecBytes interval value) = (t₁, ok) →
        Framed t.regs t t₁ := by
    intro interval value t₁ ok heq
    refine (Framed.refl t).write heq fun m => ?_
    rw [itimerspecBytes_length]
    exact buffer_subset (b := ⟨t.regs.rsi, 32⟩) (by simp [outputs, callOf, h])
  split
  · rename_i heq
    exact hreported heq
  · rename_i heq
    exact standIn_framed _ _ (hreported heq)

theorem dupfdCloexec_framed (env : Env) (e : Emulations) :
    Framed t.regs t (e.dupfdCloexec env pid t t.regs).2.1 :=
  Emulations.replaced_cases (P := fun r => Framed t.regs t r.2.1) (.refl t) fun _ _ =>
    startSequence_framed _ _ _ (.refl t) (dupfdCloexecSteps_fit t.regs)

theorem vectorIo_framed (env : Env) (e : Emulations) {write : Bool}
    (h : write = false → t.regs.origRax = Nr.preadv) :
    Framed t.regs t (e.vectorIo env pid t t.regs write).2.1 :=
  Emulations.replaced_cases (P := fun r => Framed t.regs t r.2.1) (.refl t) fun _ _ =>
    startSequence_framed _ _ _ (.refl t) (vectorIoSteps_fit h)

theorem epollPwait_framed (env : Env) (e : Emulations) (h : t.regs.origRax = Nr.epollPwait) :
    Framed t.regs t (e.epollPwait env pid t t.regs).2.1 :=
  Emulations.replaced_cases (P := fun r => Framed t.regs t r.2.1) (.refl t) fun _ _ =>
    startSequence_framed _ _ _ (.refl t) (epollPwaitSteps_fit h)

/-- **What `begin` does to a tracee.** -/
theorem begin_framed (env : Env) (e : Emulations) (t : Tracee) (entering : Bool)
    (hpid : pid < 2 ^ 31) (hsequence : e.sequence < 2 ^ 64) :
    Framed t.regs t (e.begin env pid t entering).2.1 := by
  unfold Emulations.begin
  refine .ite (fun _ => .refl t) ?_
  split
  · exact .refl t
  · rename_i regs hregs
    obtain ⟨-, rfl⟩ := Tracee.getregs_eq_some.1 hregs
    exact .ite (fun _ => .refl t) <| .ite (fun _ => .refl t) <|
      .ite (fun _ => eventfd_framed env e hpid hsequence) <|
      .ite (fun _ => eventfd_framed env e hpid hsequence) <|
      .ite (fun _ => timerfdCreate_framed env e) <|
      .ite (fun h => timerfdSettime_framed env e h) <|
      .ite (fun h => timerfdGettime_framed env e h) <|
      .ite (fun _ => dupfdCloexec_framed env e) <|
      .ite (fun _ => vectorIo_framed env e (by simp)) <|
      .ite (fun h => vectorIo_framed env e fun _ => h) <|
      .ite (fun h => epollPwait_framed env e h) (.refl t)

end

/-! The rewrites in place -/

/-- The records an exit stop collects were made for a call with these registers. -/
structure Recorded (regs : Regs) (p : Pending) : Prop where
  statx : ∀ st, p.statx = some st → regs.origRax = Nr.statx ∧ st = ⟨regs.r8, scratchFor regs⟩
  termios2Get : ∀ a, p.termios2Get = some a →
    regs.origRax = Nr.ioctl ∧ regs.rsi = TCGETS2 ∧ a = regs.rdx
  lastSyscall : p.lastSyscall = some Nr.getrandom → regs.origRax = Nr.getrandom

theorem recorded_empty (regs : Regs) : Recorded regs Pending.empty :=
  ⟨fun _ h => absurd h (by simp [Pending.empty]), fun _ h => absurd h (by simp [Pending.empty]),
    fun h => absurd h (by simp [Pending.empty])⟩

/-- A function of an entry stop: what it does to the tracee and to the records. -/
def Enters (regs : Regs) (pid : Pid) (t : Tracee) (s' : Tracer) (t' : Tracee) : Prop :=
  Framed regs t t' ∧ Recorded regs (s'.pending pid)

section

variable {s : Tracer} {pid : Pid} {t : Tracee}

theorem reserveRelativeTimeout_framed (env : Env) (t : Tracee) (ptr : U64) (realtime : Bool) :
    Framed t.regs t (reserveRelativeTimeout env t ptr realtime t.regs.rsp).1 := by
  unfold reserveRelativeTimeout
  by_cases hptr : ptr = 0
  · rw [if_pos hptr]
    exact .refl t
  rw [if_neg hptr]
  split
  · exact .refl t
  split
  · exact .refl t
  dsimp only
  have hwritten : ∀ {left : Time} {t₁ : Tracee} {ok : Bool},
      t.writeStruct (scratchFor t.regs)
        (leBytes 8 (asU64 left.sec) ++ leBytes 8 (asU64 left.nsec)) = (t₁, ok) →
      Framed t.regs t t₁ := by
    intro left t₁ ok heq
    refine (Framed.refl t).write heq fun m => ?_
    exact (scratch_subset_block (by simp) t.regs).trans (block_subset m t.regs)
  split
  · rename_i heq
    exact hwritten heq
  · rename_i heq
    exact hwritten heq

theorem translateFutex_enters (env : Env) (hp : Recorded t.regs (s.pending pid))
    (h : t.regs.origRax = Nr.futex) :
    Enters t.regs pid t (s.translateFutex env pid t t.regs).1
      (s.translateFutex env pid t t.regs).2.1 := by
  -- Wherever another operation is put in place, the futex words stay.
  have hfits : ∀ {regs' : Regs}, regs'.origRax = t.regs.origRax → regs'.rdi = t.regs.rdi →
      regs'.r8 = t.regs.r8 → Fits t.regs (callOf regs') := by
    intro regs' hnr hrdi hr8
    refine Fits.of_outputs_eq fun m => ?_
    simp [outputs, callOf, hnr, hrdi, hr8, h]
  unfold Tracer.translateFutex
  split_ifs
  · exact ⟨.refl t, hp⟩
  dsimp only
  split_ifs
  · exact ⟨.refl t, hp⟩
  · have hreserve := reserveRelativeTimeout_framed env t t.regs.r10
      (decide (t.regs.rsi.setWidth 32 &&& FUTEX_CLOCK_REALTIME ≠ 0))
    split
    · rename_i heq
      rw [heq] at hreserve
      exact ⟨hreserve, hp⟩
    · rename_i heq
      rw [heq] at hreserve
      exact ⟨hreserve.put (hfits rfl rfl rfl), hp⟩
    · rename_i heq
      rw [heq] at hreserve
      exact ⟨hreserve.put (hfits rfl rfl rfl), hp.statx, hp.termios2Get, hp.lastSyscall⟩
  · exact ⟨(Framed.refl t).put (hfits rfl rfl rfl), hp⟩

theorem setupStatx_enters (hp : Recorded t.regs (s.pending pid)) (h : t.regs.origRax = Nr.statx) :
    Enters t.regs pid t (s.setupStatx pid t t.regs).1 (s.setupStatx pid t t.regs).2 := by
  unfold Tracer.setupStatx
  split_ifs
  · exact ⟨.refl t, hp⟩
  split
  · exact ⟨.refl t, hp⟩
  · rename_i t₁ hset
    refine ⟨(Framed.refl t).set hset ?_, ?_, hp.termios2Get, hp.lastSyscall⟩
    · refine Fits.of_scratch (n := 144) (by decide) fun m => ?_
      unfold Tracer.statxFallback
      dsimp only
      split_ifs <;> rfl
    · intro st hst
      have hst : some ⟨t.regs.r8, scratchFor t.regs⟩ = some st := by
        simpa [Tracer.pending] using hst
      exact ⟨h, (Option.some.inj hst).symm⟩

theorem setupTermios2_enters (hp : Recorded t.regs (s.pending pid))
    (h : t.regs.origRax = Nr.ioctl) :
    Enters t.regs pid t (s.setupTermios2 pid t t.regs).1 (s.setupTermios2 pid t t.regs).2 := by
  unfold Tracer.setupTermios2
  split_ifs
  · exact ⟨.refl t, hp⟩
  split
  · exact ⟨.refl t, hp⟩
  rename_i legacy hlegacy
  split
  · exact ⟨.refl t, hp⟩
  rename_i t₁ hset
  have hget : legacy = TCGETS → t.regs.rsi = TCGETS2 := by
    rintro rfl
    unfold legacyTermiosRequest at hlegacy
    split_ifs at hlegacy with h₁
    · exact h₁
    all_goals exact absurd hlegacy (by decide)
  have hfits : Fits t.regs (callOf { t.regs with rsi := legacy }) := by
    have hne : legacy ≠ TCGETS2 := by
      unfold legacyTermiosRequest at hlegacy
      split_ifs at hlegacy <;> obtain rfl := Option.some.inj hlegacy <;> decide
    rintro m a ⟨b, hb, ha⟩
    by_cases hlegacy : legacy = TCGETS
    · -- `struct termios` is the first part of `struct termios2`.
      have hb : b = ⟨t.regs.rdx, 36⟩ := by simpa [outputs, callOf, h, hlegacy] using hb
      subst hb
      refine buffer_subset (b := ⟨t.regs.rdx, 44⟩) ?_
        (region_mono (m := 36) (n := 44) (by decide) _ ha)
      simp [outputs, callOf, h, hget hlegacy]
    · have hnil : outputs m (callOf { t.regs with rsi := legacy }) = [] := by
        unfold outputs callOf
        rw [h]
        exact (if_neg hne).trans (if_neg hlegacy)
      rw [hnil] at hb
      exact absurd hb (by simp)
  split_ifs with htcgets
  · refine ⟨(Framed.refl t).set hset hfits, hp.statx, ?_, hp.lastSyscall⟩
    intro a ha
    have ha : some t.regs.rdx = some a := by simpa [Tracer.pending] using ha
    exact ⟨h, hget htcgets, (Option.some.inj ha).symm⟩
  · exact ⟨(Framed.refl t).set hset hfits, hp⟩

theorem translateCommon_enters (env : Env) (hp : Recorded t.regs (s.pending pid)) :
    Enters t.regs pid t (s.translateCommon env pid t t.regs).1
        (s.translateCommon env pid t t.regs).2.1 ∧
      ((s.translateCommon env pid t t.regs).2.2 = none →
        (s.translateCommon env pid t t.regs).2.1 = t) := by
  unfold Tracer.translateCommon
  split_ifs with hfutex hpipe hstatx
  · exact ⟨translateFutex_enters env hp hfutex, fun h => absurd h (by simp)⟩
  · refine ⟨⟨(Framed.refl t).put (Fits.of_outputs_eq fun m => ?_), hp⟩, fun h => absurd h (by simp)⟩
    simp [outputs, callOf, hpipe.1]
  · exact ⟨setupStatx_enters hp hstatx.1, fun h => absurd h (by simp)⟩
  · exact ⟨⟨.refl t, hp⟩, fun _ => rfl⟩

theorem rewriteEntry_enters (env : Env) (hp : Recorded t.regs (s.pending pid)) :
    Enters t.regs pid t (s.rewriteEntry env pid t t.regs).1
      (s.rewriteEntry env pid t t.regs).2 := by
  unfold Tracer.rewriteEntry
  dsimp only
  split_ifs with hepoll hprlimit hself hioctl hclock hid hppoll
  · exact ⟨(Framed.refl t).put (Fits.of_outputs_nil fun _ => rfl), hp⟩
  · refine ⟨(Framed.refl t).put ?_, hp⟩
    by_cases hrdx : t.regs.rdx = 0
    · refine Fits.of_outputs_eq fun m => ?_
      simp [Tracer.prlimitFallback, outputs, callOf, hprlimit.1, hrdx]
    · refine Fits.of_outputs_nil fun m => ?_
      unfold Tracer.prlimitFallback
      rw [decide_eq_true hrdx]
      rfl
  · exact ⟨.refl t, hp⟩
  · exact setupTermios2_enters hp hioctl.1
  · refine ⟨(Framed.refl t).put (Fits.of_outputs_eq fun m => ?_), hp⟩
    rcases hclock with h | h | h <;> simp [outputs, callOf, h]
  · exact ⟨.refl t, hp⟩
  · refine ⟨(Framed.refl t).put (Fits.of_outputs_eq fun m => ?_), hp⟩
    simp [outputs, callOf, hppoll.1]
  · exact ⟨.refl t, hp⟩

theorem onSyscallEntry_enters (env : Env) (hp : Recorded t.regs (s.pending pid)) :
    Enters t.regs pid t (s.onSyscallEntry env pid t).1 (s.onSyscallEntry env pid t).2 := by
  unfold Tracer.onSyscallEntry
  split
  · exact ⟨.refl t, hp⟩
  rename_i regs hregs
  obtain ⟨-, rfl⟩ := Tracee.getregs_eq_some.1 hregs
  split_ifs
  · exact ⟨.refl t, hp⟩
  dsimp only
  rw [Tracer.update_lastSyscall]
  have hp' : Recorded t.regs ((s.setPending pid { s.pending pid with
      lastSyscall := some t.regs.origRax }).pending pid) := by
    rw [Tracer.pending_setPending]
    exact ⟨hp.statx, hp.termios2Get, fun h => Option.some.inj h⟩
  obtain ⟨henters, hsame⟩ := translateCommon_enters env hp'
  split
  · rename_i heq
    rw [heq] at henters
    exact henters
  · rename_i s₁ t₁ heq
    rw [heq] at henters hsame
    obtain rfl : t₁ = t := hsame rfl
    exact rewriteEntry_enters env henters.2

theorem onSeccompStop_enters (env : Env) (hp : Recorded t.regs (s.pending pid)) :
    Enters t.regs pid t (s.onSeccompStop env pid t).1 (s.onSeccompStop env pid t).2.1 := by
  unfold Tracer.onSeccompStop
  split
  · exact ⟨.refl t, hp⟩
  rename_i regs hregs
  obtain ⟨-, rfl⟩ := Tracee.getregs_eq_some.1 hregs
  obtain ⟨henters, -⟩ := translateCommon_enters env hp
  split
  · rename_i heq
    rw [heq] at henters
    exact henters
  · rename_i s₁ t₁ heq
    rw [heq] at henters
    split_ifs with hgetrandom
    · rw [Tracer.update_lastSyscall]
      refine ⟨henters.1, ?_⟩
      rw [Tracer.pending_setPending]
      exact ⟨henters.2.statx, henters.2.termios2Get, fun _ => hgetrandom.1⟩
    · exact henters

/-- A `getrandom` is left as it is. -/
theorem translateCommon_getrandom (env : Env) (s : Tracer) (pid : Pid)
    (h : t.regs.origRax = Nr.getrandom) :
    s.translateCommon env pid t t.regs = (s, t, none) := by
  unfold Tracer.translateCommon
  simp [h]

theorem onSyscallEntry_getrandom (env : Env) (s : Tracer) (pid : Pid)
    (h : t.regs.origRax = Nr.getrandom) : (s.onSyscallEntry env pid t).2 = t := by
  unfold Tracer.onSyscallEntry
  split
  · rfl
  rename_i regs hregs
  obtain ⟨-, rfl⟩ := Tracee.getregs_eq_some.1 hregs
  split_ifs
  · rfl
  · dsimp only
    rw [translateCommon_getrandom env _ pid h]
    unfold Tracer.rewriteEntry
    simp [h]

theorem onSeccompStop_getrandom (env : Env) (s : Tracer) (pid : Pid)
    (h : t.regs.origRax = Nr.getrandom) : (s.onSeccompStop env pid t).2.1 = t := by
  unfold Tracer.onSeccompStop
  split
  · rfl
  rename_i regs hregs
  obtain ⟨-, rfl⟩ := Tracee.getregs_eq_some.1 hregs
  rw [translateCommon_getrandom env s pid h]
  dsimp only
  split_ifs <;> rfl

theorem begin_getrandom (env : Env) (e : Emulations) (pid : Pid) (entering : Bool)
    (h : t.regs.origRax = Nr.getrandom) : e.begin env pid t entering = (e, t, false) := by
  unfold Emulations.begin
  cases entering with
  | false => rfl
  | true =>
    rw [if_neg (by decide)]
    split
    · rfl
    rename_i regs hregs
    obtain ⟨-, rfl⟩ := Tracee.getregs_eq_some.1 hregs
    simp [h]

end

/-! ### The exit stop -/

section

variable {regs : Regs} {x : ExitStop}

/-- The parts of an exit stop change memory within the footprint. -/
def ExitStop.Within (regs : Regs) (x y : ExitStop) : Prop :=
  ∀ m, Changes (footprint m regs) x.tracee.mem y.tracee.mem

theorem ExitStop.Within.refl (regs : Regs) (x : ExitStop) : x.Within regs x :=
  fun _ => .refl _ _

theorem ExitStop.Within.trans {y z : ExitStop} (h : x.Within regs y) (h' : y.Within regs z) :
    x.Within regs z := fun m => (h m).trans (h' m)

theorem finishTermios2_within {p : Option U64}
    (hp : ∀ a, p = some a → regs.origRax = Nr.ioctl ∧ regs.rsi = TCGETS2 ∧ a = regs.rdx)
    (x : ExitStop) : x.Within regs (x.finishTermios2 p) := by
  unfold ExitStop.finishTermios2
  cases p with
  | none => exact .refl regs x
  | some a =>
    obtain ⟨hnr, hrsi, rfl⟩ := hp a rfl
    dsimp only
    split_ifs
    · exact .refl regs x
    have hwritten : ∀ {speed : ℕ} {t : Tracee} {ok : Bool},
        x.tracee.writeStruct (regs.rdx + BitVec.ofNat 64 TERMIOS2_ISPEED)
          (leBytes 4 (BitVec.ofNat 32 speed) ++ leBytes 4 (BitVec.ofNat 32 speed)) = (t, ok) →
        ∀ m, Changes (footprint m regs) x.tracee.mem t.mem := by
      intro speed t ok heq m
      refine (Tracee.writeStruct_changes (by simp) heq).mono ?_
      refine (region_shift (n := 44) (by simp) regs.rdx).trans ?_
      exact buffer_subset (b := ⟨regs.rdx, 44⟩) (by simp [outputs, callOf, hnr, hrsi])
    split
    · rename_i heq
      exact hwritten heq
    · rename_i heq
      exact hwritten heq

theorem wrBytes_length {bytes value : List Byte} {offset n : ℕ} (h : bytes.length = n)
    (hfits : offset + value.length ≤ n) : (wrBytes bytes offset value).length = n := by
  unfold wrBytes
  simp only [List.length_append, List.length_take, List.length_drop]
  omega

theorem buildStatx_length (stat : List Byte) : (buildStatx stat).length = 256 := by
  unfold buildStatx
  dsimp only
  iterate 19 refine wrBytes_length ?_ (by rw [leBytes_length]; decide)
  exact List.length_replicate

theorem finishStatx_within {p : Option StatxState}
    (hp : ∀ st, p = some st → regs.origRax = Nr.statx ∧ st = ⟨regs.r8, scratchFor regs⟩)
    (x : ExitStop) : x.Within regs (x.finishStatx p) := by
  unfold ExitStop.finishStatx
  cases p with
  | none => exact .refl regs x
  | some st =>
    obtain ⟨hnr, rfl⟩ := hp st rfl
    dsimp only
    split_ifs
    · exact .refl regs x
    split
    · exact .refl regs x
    have hwritten : ∀ {stat : List Byte} {t : Tracee} {ok : Bool},
        x.tracee.writeStruct regs.r8 (buildStatx stat) = (t, ok) →
        ∀ m, Changes (footprint m regs) x.tracee.mem t.mem := by
      intro stat t ok heq m
      have hlen : 8 ∣ (buildStatx stat).length := by
        rw [buildStatx_length]
        decide
      refine (Tracee.writeStruct_changes hlen heq).mono ?_
      rw [buildStatx_length]
      exact buffer_subset (b := ⟨regs.r8, 256⟩) (by simp [outputs, callOf, hnr])
    split
    · rename_i heq
      exact hwritten heq
    · rename_i heq
      exact hwritten heq

/-- The reads of so many chunks, from a place of the buffer on, succeed. -/
def ReadsAll (read : (off want : ℕ) → Option (Fin want → Byte)) (count : ℕ) : ℕ → ℕ → Prop
  | 0, _ => True
  | chunks + 1, off =>
    (read off (min (count - off) 65536)).isSome ∧
      ReadsAll read count chunks (off + min (count - off) 65536)

/-- **What the chunks of `emulate_getrandom` do behind the buffer**: should all of them be read,
the last one spills. -/
theorem fillChunks_behind {read : (off want : ℕ) → Option (Fin want → Byte)} {buf : U64}
    {count chunks off : ℕ} (hchunks : chunks = (count - off + 65535) / 65536) (t : Tracee) {a : U64}
    (ha : a ∉ region (buf + BitVec.ofNat 64 off) (count - off)) :
    (ReadsAll read count chunks off ∧
        a ∈ t.mem.spilled (buf + BitVec.ofNat 64 off) (count - off) →
      (fillChunks read buf count chunks off t).1.mem a = some 0) ∧
    ((ReadsAll read count chunks off →
        a ∉ t.mem.spilled (buf + BitVec.ofNat 64 off) (count - off)) →
      (fillChunks read buf count chunks off t).1.mem a = t.mem a) := by
  induction chunks generalizing off t with
  | zero =>
    refine ⟨fun h => absurd h.2.2.1 ?_, fun _ => rfl⟩
    omega
  | succ chunks ih =>
    rw [fillChunks, ReadsAll]
    cases hread : read off (min (count - off) 65536) with
    | none => exact ⟨fun h => absurd h.1.1 (by simp), fun _ => rfl⟩
    | some dst =>
      have hlen : (List.ofFn dst).length = min (count - off) 65536 := List.length_ofFn
      have hdist : count - off ≤ (a - (buf + BitVec.ofNat 64 off)).toNat := not_lt.1 ha
      have hout : a ∉ region (buf + BitVec.ofNat 64 off) (List.ofFn dst).length := by
        rw [hlen]
        exact fun h => ha (region_mono (Nat.min_le_left _ _) _ h)
      have hbehind := Memory.writeStruct_behind (m := t.mem) hout
      have hok : (t.mem.writeStruct (buf + BitVec.ofNat 64 off) (List.ofFn dst)).2 = true ↔
          region (buf + BitVec.ofNat 64 off) (8 * (((List.ofFn dst).length + 7) / 8)) ⊆
            t.mem.mapped := Memory.writeStruct_ok_iff
      have hmapped : (t.mem.writeStruct (buf + BitVec.ofNat 64 off) (List.ofFn dst)).1.mapped =
          t.mem.mapped := Memory.writeWords_mapped ..
      dsimp only
      rw [and_iff_right (show (some dst).isSome = true from rfl)]
      unfold Tracee.writeStruct
      generalize t.mem.writeStruct (buf + BitVec.ofNat 64 off) (List.ofFn dst) = r
        at hbehind hok hmapped ⊢
      obtain ⟨m₁, ok⟩ := r
      rw [hlen] at hbehind hok
      rcases lt_or_ge (count - off) 65536 with hlast | hfull
      · -- The last chunk, which alone may be no whole number of words.
        obtain rfl : chunks = 0 := by omega
        rw [Nat.min_eq_left hlast.le] at hbehind
        cases ok with
        | false => exact ⟨fun h => hbehind.1 h.2, fun h => hbehind.2 (h trivial)⟩
        | true => exact ⟨fun h => hbehind.1 h.2, fun h => hbehind.2 (h trivial)⟩
      · rw [Nat.min_eq_right hfull] at hbehind hok ⊢
        rw [Memory.spilled_of_whole (by decide)] at hbehind
        have hkept : m₁ a = t.mem a := hbehind.2 (Set.notMem_empty a)
        cases ok with
        | false =>
          refine ⟨fun h => absurd (hok.2 ?_) Bool.false_ne_true, fun _ => hkept⟩
          exact (region_mono (by omega) _).trans h.2.2.2.1
        | true =>
          have hfirst : region (buf + BitVec.ofNat 64 off) 65536 ⊆ m₁.mapped := by
            rw [show m₁.mapped = t.mem.mapped from hmapped]
            exact hok.1 rfl
          have hnext : buf + BitVec.ofNat 64 (off + 65536) =
              buf + BitVec.ofNat 64 off + BitVec.ofNat 64 65536 := by
            rw [BitVec.ofNat_add, ← BitVec.add_assoc]
          have hleft : count - (off + 65536) = count - off - 65536 := by omega
          have hspilled : a ∈ m₁.spilled (buf + BitVec.ofNat 64 (off + 65536))
              (count - (off + 65536)) ↔
              a ∈ t.mem.spilled (buf + BitVec.ofNat 64 off) (count - off) := by
            rw [hnext, hleft, Memory.mem_spilled_shift (by decide) hfull hfirst hdist,
              Memory.spilled_congr hmapped]
          obtain ⟨hzero, hsame⟩ := @ih (off + 65536) (by omega) { t with mem := m₁ } (by
            rw [hnext, hleft]
            exact fun h => ha (region_shift (by omega) _ h))
          dsimp only at hzero hsame ⊢
          rw [hspilled] at hzero hsame
          exact ⟨hzero, fun h => (hsame h).trans hkept⟩

/-- The bytes that `emulate_getrandom` zeroes behind the buffer. -/
def zeroed (env : Env) (m : Memory) (buf : U64) (count : ℕ) : Set U64 :=
  {a | buf ≠ 0 ∧ (∃ read, env.urandom = some read ∧
    ReadsAll read count ((count + 65535) / 65536) 0) ∧ a ∈ m.spilled buf count}

theorem emulateGetrandom_of_read {env : Env} {read : (off want : ℕ) → Option (Fin want → Byte)}
    {buf : U64} {count : ℕ} (hcount : count ≠ 0) (hbuf : buf ≠ 0) (h : env.urandom = some read)
    (t : Tracee) : emulateGetrandom env t buf count =
      fillChunks read buf count ((count + 65535) / 65536) 0 t := by
  rw [emulateGetrandom, if_neg hcount, if_neg hbuf, h]

/-- **What `emulate_getrandom` does behind the buffer.** -/
theorem emulateGetrandom_behind (env : Env) (t : Tracee) {buf : U64} {count : ℕ} {a : U64}
    (ha : a ∉ region buf count) :
    (a ∈ zeroed env t.mem buf count → (emulateGetrandom env t buf count).1.mem a = some 0) ∧
      (a ∉ zeroed env t.mem buf count →
        (emulateGetrandom env t buf count).1.mem a = t.mem a) := by
  by_cases hcount : count = 0
  · rw [emulateGetrandom, if_pos hcount]
    refine ⟨fun h => absurd h.2.2.2.1 ?_, fun _ => rfl⟩
    omega
  by_cases hbuf : buf = 0
  · rw [emulateGetrandom, if_neg hcount, if_pos hbuf]
    exact ⟨fun h => absurd hbuf h.1, fun _ => rfl⟩
  cases hurandom : env.urandom with
  | none =>
    rw [emulateGetrandom, if_neg hcount, if_neg hbuf, hurandom]
    exact ⟨fun ⟨_, ⟨_, hread, _⟩, _⟩ => by simp [hurandom] at hread, fun _ => rfl⟩
  | some read =>
    rw [emulateGetrandom_of_read hcount hbuf hurandom]
    have haddr : buf + BitVec.ofNat 64 0 = buf := BitVec.add_zero buf
    have hbehind := @fillChunks_behind read buf count _ 0 rfl t a
    rw [haddr, Nat.sub_zero] at hbehind
    obtain ⟨hzero, hsame⟩ := hbehind ha
    refine ⟨fun ⟨_, ⟨read', hread', hall⟩, hspilled⟩ => ?_, fun h => ?_⟩
    · obtain rfl := Option.some.inj (hurandom.symm.trans hread')
      exact hzero ⟨hall, hspilled⟩
    · exact hsame fun hall hspilled => h ⟨hbuf, ⟨read, hurandom, hall⟩, hspilled⟩

/-! Of the parts that follow `finish_statx` only `emulate_getrandom` writes. -/

theorem finishGetrandom_mem (env : Env) (last : Option U64) (x : ExitStop) :
    (x.finishGetrandom env last).1.tracee.mem =
      if last = some Nr.getrandom ∧ env.host.getrandomMissing then
        (emulateGetrandom env x.tracee x.regs.rdi x.regs.rsi.toNat).1.mem
      else x.tracee.mem := by
  unfold ExitStop.finishGetrandom
  split_ifs with hlast
  · split
    · rename_i heq
      rw [heq]
    · rename_i heq
      rw [heq]
      dsimp only
      split_ifs <;> rfl
  · rfl

theorem commit_normalizeEcho_mem (env : Env) (last : Option U64) (synthesized : Bool)
    (x : ExitStop) : (x.normalizeEcho env last synthesized).commit.mem = x.tracee.mem := by
  have htracee : (x.normalizeEcho env last synthesized).tracee = x.tracee := by
    unfold ExitStop.normalizeEcho
    split
    · rfl
    · split_ifs <;> rfl
  rw [← htracee]
  unfold ExitStop.commit
  split_ifs
  · exact Tracee.putregs_mem _ _
  · rfl

theorem restoreRsp_tracee (x : ExitStop) (reserved : Option U64) :
    (x.restoreRsp reserved).tracee = x.tracee := by
  unfold ExitStop.restoreRsp
  split <;> rfl

theorem restoreRsp_kept (x : ExitStop) (reserved : Option U64) :
    kept (x.restoreRsp reserved).regs = kept x.regs := by
  unfold ExitStop.restoreRsp
  split <;> rfl

/-- The memory after an exit stop. -/
theorem onSyscallExit_mem {s : Tracer} {pid : Pid} {t : Tracee} (hget : t.canGet = true)
    (hlong : t.regs.cs = userCs) (env : Env) : (s.onSyscallExit env pid t).2.mem =
      let y := (((⟨t, t.regs, false⟩ : ExitStop).finishTermios2 (s.termios2Get pid)).finishStatx
        (s.statx pid))
      if s.lastSyscall pid = some Nr.getrandom ∧ env.host.getrandomMissing then
        (emulateGetrandom env y.tracee t.regs.rdi t.regs.rsi.toNat).1.mem
      else y.tracee.mem := by
  have hkeeps := (ExitStop.finishTermios2_keeps ⟨t, t.regs, false⟩ (s.termios2Get pid)).trans
    (ExitStop.finishStatx_keeps
      ((⟨t, t.regs, false⟩ : ExitStop).finishTermios2 (s.termios2Get pid)) (s.statx pid))
  rw [Tracer.onSyscallExit, Tracee.getregs_eq_some.2 ⟨hget, rfl⟩]
  dsimp only
  rw [if_neg (not_not.2 hlong)]
  unfold Tracer.exitStop
  dsimp only
  rw [commit_normalizeEcho_mem, finishGetrandom_mem, restoreRsp_tracee]
  generalize ((⟨t, t.regs, false⟩ : ExitStop).finishTermios2 (s.termios2Get pid)).finishStatx
    (s.statx pid) = y at hkeeps ⊢
  have hsame := (restoreRsp_kept y (s.reserved pid)).trans hkeeps.kept
  have hrdi : (y.restoreRsp (s.reserved pid)).regs.rdi = t.regs.rdi := congrArg Kept.rdi hsame
  have hrsi : (y.restoreRsp (s.reserved pid)).regs.rsi = t.regs.rsi := congrArg Kept.rsi hsame
  rw [hrdi, hrsi]

/-- The bytes that an exit stop zeroes behind the buffer of a `getrandom`. -/
def zeroedAt (env : Env) (s : Tracer) (pid : Pid) (t : Tracee) : Set U64 :=
  {a | s.lastSyscall pid = some Nr.getrandom ∧ env.host.getrandomMissing = true ∧
    t.canGet = true ∧ t.regs.cs = userCs ∧ a ∈ zeroed env t.mem t.regs.rdi t.regs.rsi.toNat}

section

variable {s : Tracer} {pid : Pid} {t : Tracee}

/-- A tracee whose registers cannot be read, or that runs other code, is left as it is. -/
theorem onSyscallExit_unreached (env : Env) (h : ¬ (t.canGet = true ∧ t.regs.cs = userCs)) :
    (s.onSyscallExit env pid t).2 = t := by
  rw [Tracer.onSyscallExit]
  split
  · rfl
  · rename_i hregs
    obtain ⟨hget, rfl⟩ := Tracee.getregs_eq_some.1 hregs
    rw [if_pos fun hlong => h ⟨hget, hlong⟩]

/-- The exit stop of any other call stays within the footprint. -/
theorem onSyscallExit_changes (hp : Recorded regs (s.pending pid)) (env : Env)
    (h : ¬ (s.lastSyscall pid = some Nr.getrandom ∧ env.host.getrandomMissing = true))
    (m : Memory) : Changes (footprint m regs) t.mem (s.onSyscallExit env pid t).2.mem := by
  by_cases hreach : t.canGet = true ∧ t.regs.cs = userCs
  · rw [onSyscallExit_mem hreach.1 hreach.2]
    dsimp only
    rw [if_neg h]
    exact (finishTermios2_within hp.termios2Get ⟨t, t.regs, false⟩).trans
      (finishStatx_within hp.statx _) m
  · rw [onSyscallExit_unreached env hreach]
    exact .refl _ _

/-- **What an exit stop does behind the buffer of a `getrandom`.** -/
theorem onSyscallExit_behind (hp : Recorded regs (s.pending pid)) (env : Env)
    (hlast : s.lastSyscall pid = some Nr.getrandom) (hmissing : env.host.getrandomMissing = true)
    {a : U64} (ha : a ∉ region t.regs.rdi t.regs.rsi.toNat) :
    (a ∈ zeroedAt env s pid t → (s.onSyscallExit env pid t).2.mem a = some 0) ∧
      (a ∉ zeroedAt env s pid t → (s.onSyscallExit env pid t).2.mem a = t.mem a) := by
  -- Nothing else is recorded.
  have hnr := hp.lastSyscall hlast
  have hstatx : s.statx pid = none := by
    rw [Option.eq_none_iff_forall_ne_some]
    exact fun st hst => absurd (hnr.symm.trans (hp.statx st hst).1) (by decide)
  have htermios2 : s.termios2Get pid = none := by
    rw [Option.eq_none_iff_forall_ne_some]
    exact fun p hp' => absurd (hnr.symm.trans (hp.termios2Get p hp').1) (by decide)
  by_cases hreach : t.canGet = true ∧ t.regs.cs = userCs
  · have hmem := @onSyscallExit_mem s pid t hreach.1 hreach.2 env
    rw [hstatx, htermios2] at hmem
    dsimp only at hmem
    rw [if_pos ⟨hlast, hmissing⟩] at hmem
    obtain ⟨hzero, hsame⟩ := emulateGetrandom_behind env t ha
    rw [hmem]
    exact ⟨fun h => hzero h.2.2.2.2,
      fun h => hsame fun hz => h ⟨hlast, hmissing, hreach.1, hreach.2, hz⟩⟩
  · rw [onSyscallExit_unreached env hreach]
    exact ⟨fun h => absurd ⟨h.2.2.1, h.2.2.2.1⟩ hreach, fun _ => rfl⟩

/-- **When an exit stop stays within the footprint**, with the records made at the entry of the
call: unless it zeroes a byte that is not zero, behind the buffer of a `getrandom` and outside
of scratch space. -/
theorem onSyscallExit_changes_iff (hp : Recorded regs (s.pending pid))
    (hargs : regs.origRax = Nr.getrandom → kept t.regs = kept regs) (env : Env) :
    (∀ m, Changes (footprint m regs) t.mem (s.onSyscallExit env pid t).2.mem) ↔
      ¬ ∃ a ∈ zeroedAt env s pid t, a ∉ block regs ∧ t.mem a ≠ some 0 := by
  by_cases hanswers : s.lastSyscall pid = some Nr.getrandom ∧ env.host.getrandomMissing = true
  · obtain ⟨hlast, hmissing⟩ := hanswers
    have hnr := hp.lastSyscall hlast
    have hrdi : t.regs.rdi = regs.rdi := congrArg Kept.rdi (hargs hnr)
    have hrsi : t.regs.rsi = regs.rsi := congrArg Kept.rsi (hargs hnr)
    have hfootprint : ∀ m, footprint m regs =
        block regs ∪ region t.regs.rdi t.regs.rsi.toNat := by
      intro m
      have houtputs : outputs m (callOf regs) = [⟨regs.rdi, regs.rsi.toNat⟩] := by
        simp [outputs, callOf, hnr]
      rw [footprint, outputBytes, houtputs, hrdi, hrsi]
      simp [Buffer.bytes]
    constructor
    · rintro hchanges ⟨a, ha, hblock, hne⟩
      have hbehind : a ∉ region t.regs.rdi t.regs.rsi.toNat := not_lt.2 ha.2.2.2.2.2.2.1
      have hout : a ∉ footprint (fun _ => none) regs := by
        rw [hfootprint]
        exact fun h => h.elim hblock hbehind
      refine hne ((hchanges _ hout).symm.trans ?_)
      exact (onSyscallExit_behind hp env hlast hmissing hbehind).1 ha
    · intro hspills m a hout
      rw [hfootprint, Set.mem_compl_iff, Set.mem_union, not_or] at hout
      obtain ⟨hzero, hsame⟩ := onSyscallExit_behind hp env hlast hmissing hout.2
      by_cases ha : a ∈ zeroedAt env s pid t
      · have hold : t.mem a = some 0 := by
          by_contra hne
          exact hspills ⟨a, ha, hout.1, hne⟩
        rw [hzero ha, hold]
      · exact hsame ha
  · refine iff_of_true (onSyscallExit_changes hp env hanswers) ?_
    rintro ⟨a, ha, -⟩
    exact hanswers ⟨ha.1, ha.2.1⟩

end

end

end Tracing
end Sharun
