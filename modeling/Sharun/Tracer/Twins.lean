/-
# Two calls the kernel cannot tell apart

Linux declares the arguments of a system call as 32-bit or as 64-bit numbers
(`signature`) and reads of each register what it has declared, nothing of those a call
does not use (`seen`).  Two entry stops it cannot tell apart (`Twins`) may still differ
in the upper halves, and the tracer compares whole registers.

`SameOutcome` says that `begin` treats two such stops alike, that is that it leaves
both calls alone or answers both by the same emulation.  For each call it emulates there
is a lemma here that says where it does (`eventfd_sameOutcome` and the others).
-/

import Sharun.Tracer.Injected
import Sharun.Emulation.Timers

namespace Sharun
namespace Tracing

open Machine Emulation Sharun.Basis

/-! ### What the kernel reads -/

/-- How an argument is declared. -/
inductive Arg
  | unused
  | int
  | long
  deriving DecidableEq, Repr

/-- What the kernel reads of a register. -/
def Arg.read : Arg → U64 → U64
  | .unused, _ => 0
  | .int, x => (x.setWidth 32).setWidth 64
  | .long, x => x

/-- The declarations of the calls that are intercepted and of those made in their place,
one for each argument; other calls are of no concern here. -/
def signature (nr : U64) : List Arg :=
  if nr = Nr.write then [.int, .long, .long]
  else if nr = Nr.close then [.int]
  else if nr = Nr.fstat then [.int, .long]
  else if nr = Nr.poll then [.long, .int, .int]
  else if nr = Nr.lseek then [.int, .long, .int]
  else if nr = Nr.rtSigprocmask then [.int, .long, .long, .long]
  else if nr = Nr.ioctl then [.int, .int, .long]
  else if nr = Nr.readv ∨ nr = Nr.writev then [.long, .long, .long]
  else if nr = Nr.pipe then [.long]
  else if nr = Nr.socket then [.int, .int, .int]
  else if nr = Nr.connect ∨ nr = Nr.bind then [.int, .long, .int]
  else if nr = Nr.fcntl then [.int, .int, .long]
  else if nr = Nr.getrlimit ∨ nr = Nr.setrlimit then [.int, .long]
  else if nr = Nr.futex then [.long, .int, .int, .long, .long, .int]
  else if nr = Nr.epollCreate then [.int]
  else if nr = Nr.clockGettime ∨ nr = Nr.clockGetres then [.int, .long]
  else if nr = Nr.clockNanosleep then [.int, .int, .long, .long]
  else if nr = Nr.epollWait then [.int, .long, .int, .int]
  else if nr = Nr.newfstatat then [.int, .long, .long, .int]
  else if nr = Nr.ppoll then [.long, .int, .long, .long, .long]
  else if nr = Nr.epollPwait then [.int, .long, .int, .int, .long, .long]
  else if nr = Nr.timerfdCreate then [.int, .int]
  else if nr = Nr.eventfd then [.int]
  else if nr = Nr.timerfdSettime then [.int, .int, .long, .long]
  else if nr = Nr.timerfdGettime then [.int, .long]
  else if nr = Nr.eventfd2 then [.int, .int]
  else if nr = Nr.epollCreate1 then [.int]
  else if nr = Nr.pipe2 then [.long, .int]
  else if nr = Nr.preadv ∨ nr = Nr.pwritev then [.long, .long, .long, .long, .long]
  else if nr = Nr.prlimit64 then [.int, .int, .long, .long]
  else if nr = Nr.getrandom then [.long, .long, .int]
  else if nr = Nr.statx then [.int, .long, .int, .int, .long]
  else []

/-- The declaration of one argument. -/
def argOf (nr : U64) (i : ℕ) : Arg := ((signature nr)[i]?).getD .unused

/-- A call as the kernel sees it. -/
def seen (c : Call) : Call :=
  ⟨c.nr, (argOf c.nr 0).read c.a0, (argOf c.nr 1).read c.a1, (argOf c.nr 2).read c.a2,
    (argOf c.nr 3).read c.a3, (argOf c.nr 4).read c.a4, (argOf c.nr 5).read c.a5⟩

/-- The registers but for those of the arguments. -/
def bare (regs : Regs) : Regs :=
  { regs with rdi := 0, rsi := 0, rdx := 0, r10 := 0, r8 := 0, r9 := 0 }

/-- Two entry stops the kernel cannot tell apart: the same call to its eyes, the same
memory, and the same in every register that holds no argument. -/
structure Twins (t t' : Tracee) : Prop where
  call : seen (callOf t.regs) = seen (callOf t'.regs)
  rest : bare t.regs = bare t'.regs
  mem : t.mem = t'.mem
  canGet : t.canGet = t'.canGet
  canSet : t.canSet = t'.canSet

/-! ### The decision at an entry stop -/

/-- Two steps the tracer treats alike and whose calls the kernel cannot tell apart. -/
structure SameStep (step step' : Step) : Prop where
  call : ∀ q, seen (build step q) = seen (build step' q)
  always : step.always = step'.always
  returnsFd : step.returnsFd = step'.returnsFd

/-- Two emulations that run the same calls and answer alike. -/
inductive SameEmulation : Active → Active → Prop
  | sequence {q q' : Sequence} (hgadget : q.gadget = q'.gadget) (houtcome : q.outcome = q'.outcome)
      (hclock : q.clockid = q'.clockid)
      (hsteps : List.Forall₂ SameStep (q.running.toList ++ q.queue)
        (q'.running.toList ++ q'.queue)) :
      SameEmulation (.sequence q) (.sequence q')
  | fixup (result : ℤ) : SameEmulation (.fixup result) (.fixup result)

/-- The same decision at two stops of a tracee: the call is left alone or rewritten to the
same call, or it is taken over by the same emulation, with the same timers and the same
bytes in memory. -/
inductive SameDecision (pid : Pid) (h h' : Handled) : Prop
  | passed (hidle : h.tracer.emulated.active pid = none)
      (hidle' : h'.tracer.emulated.active pid = none)
      (hcall : seen (callOf h.tracee.regs) = seen (callOf h'.tracee.regs))
  | taken {a a' : Active} (ha : h.tracer.emulated.active pid = some a)
      (ha' : h'.tracer.emulated.active pid = some a') (hsame : SameEmulation a a')
      (hcall : seen (callOf h.tracee.regs) = seen (callOf h'.tracee.regs))
      (hmem : h.tracee.mem = h'.tracee.mem)
      (htimers : h.tracer.emulated.timers = h'.tracer.emulated.timers)

/-! ### What twins share -/

/-- Calls of one number whose arguments read alike are the same call. -/
theorem seen_congr {c c' : Call} (hnr : c'.nr = c.nr)
    (h₀ : (argOf c.nr 0).read c.a0 = (argOf c.nr 0).read c'.a0)
    (h₁ : (argOf c.nr 1).read c.a1 = (argOf c.nr 1).read c'.a1)
    (h₂ : (argOf c.nr 2).read c.a2 = (argOf c.nr 2).read c'.a2)
    (h₃ : (argOf c.nr 3).read c.a3 = (argOf c.nr 3).read c'.a3)
    (h₄ : (argOf c.nr 4).read c.a4 = (argOf c.nr 4).read c'.a4)
    (h₅ : (argOf c.nr 5).read c.a5 = (argOf c.nr 5).read c'.a5) : seen c = seen c' := by
  rw [seen, seen, hnr, h₀, h₁, h₂, h₃, h₄, h₅]

/-- The lower half of a register. -/
def low (x : U64) : BitVec 32 := x.setWidth 32

theorem read_int {x y : U64} : Arg.int.read x = Arg.int.read y ↔ low x = low y := by
  constructor
  · intro h
    have hlow : ∀ z : U64, ((z.setWidth 32).setWidth 64).setWidth 32 = low z := by
      intro z
      rw [BitVec.setWidth_setWidth_of_le _ (by decide), BitVec.setWidth_eq]
      rfl
    have h := congrArg (BitVec.setWidth 32) h
    rwa [Arg.read, Arg.read, hlow, hlow] at h
  · intro h
    exact congrArg (BitVec.setWidth 64) h

namespace Twins

variable {t t' : Tracee}

theorem origRax (h : Twins t t') : t'.regs.origRax = t.regs.origRax :=
  (congrArg Regs.origRax h.rest).symm

theorem cs (h : Twins t t') : t'.regs.cs = t.regs.cs := (congrArg Regs.cs h.rest).symm

theorem rsp (h : Twins t t') : t'.regs.rsp = t.regs.rsp := (congrArg Regs.rsp h.rest).symm

theorem rip (h : Twins t t') : t'.regs.rip = t.regs.rip := (congrArg Regs.rip h.rest).symm

theorem scratch (h : Twins t t') : scratchFor t'.regs = scratchFor t.regs := by
  rw [scratchFor, scratchFor, h.rsp]

theorem gadget (h : Twins t t') : gadgetFor t' t'.regs = gadgetFor t t.regs := by
  rw [gadgetFor, gadgetFor, h.rip, h.mem]

section

variable (h : Twins t t') {nr : U64} (hnr : t.regs.origRax = nr)

include h hnr

theorem arg0 : (argOf nr 0).read t.regs.rdi = (argOf nr 0).read t'.regs.rdi := by
  have ha : (argOf t.regs.origRax 0).read t.regs.rdi =
    (argOf t'.regs.origRax 0).read t'.regs.rdi := congrArg Call.a0 h.call
  rwa [h.origRax, hnr] at ha

theorem arg1 : (argOf nr 1).read t.regs.rsi = (argOf nr 1).read t'.regs.rsi := by
  have ha : (argOf t.regs.origRax 1).read t.regs.rsi =
    (argOf t'.regs.origRax 1).read t'.regs.rsi := congrArg Call.a1 h.call
  rwa [h.origRax, hnr] at ha

theorem arg2 : (argOf nr 2).read t.regs.rdx = (argOf nr 2).read t'.regs.rdx := by
  have ha : (argOf t.regs.origRax 2).read t.regs.rdx =
    (argOf t'.regs.origRax 2).read t'.regs.rdx := congrArg Call.a2 h.call
  rwa [h.origRax, hnr] at ha

theorem arg3 : (argOf nr 3).read t.regs.r10 = (argOf nr 3).read t'.regs.r10 := by
  have ha : (argOf t.regs.origRax 3).read t.regs.r10 =
    (argOf t'.regs.origRax 3).read t'.regs.r10 := congrArg Call.a3 h.call
  rwa [h.origRax, hnr] at ha

theorem arg4 : (argOf nr 4).read t.regs.r8 = (argOf nr 4).read t'.regs.r8 := by
  have ha : (argOf t.regs.origRax 4).read t.regs.r8 =
    (argOf t'.regs.origRax 4).read t'.regs.r8 := congrArg Call.a4 h.call
  rwa [h.origRax, hnr] at ha

theorem arg5 : (argOf nr 5).read t.regs.r9 = (argOf nr 5).read t'.regs.r9 := by
  have ha : (argOf t.regs.origRax 5).read t.regs.r9 =
    (argOf t'.regs.origRax 5).read t'.regs.r9 := congrArg Call.a5 h.call
  rwa [h.origRax, hnr] at ha

end

/-- A structure is written alike. -/
theorem writeStruct_mem (h : Twins t t') (addr : U64) (bytes : List Byte) :
    (t'.writeStruct addr bytes).1.mem = (t.writeStruct addr bytes).1.mem ∧
      (t'.writeStruct addr bytes).2 = (t.writeStruct addr bytes).2 := by
  rw [Tracee.writeStruct, Tracee.writeStruct, h.mem]
  exact ⟨rfl, rfl⟩

end Twins

/-! ### Taking over a call -/

/-- The same outcome of `begin`: the call is left alone at both stops, or the same
emulation takes it over. -/
inductive SameOutcome (pid : Pid) (r r' : Emulations × Tracee × Bool) : Prop
  | declined (h : r.2.2 = false) (h' : r'.2.2 = false)
  | taken (h : r.2.2 = true) (h' : r'.2.2 = true) {a a' : Active} (ha : r.1.active pid = some a)
      (ha' : r'.1.active pid = some a') (hsame : SameEmulation a a')
      (hcall : seen (callOf r.2.1.regs) = seen (callOf r'.2.1.regs))
      (hmem : r.2.1.mem = r'.2.1.mem) (htimers : r.1.timers = r'.1.timers)

/-- Where it is known when a call is taken over. -/
theorem sameOutcome_iff {pid : Pid} {r r' : Emulations × Tracee × Bool} {P P' Q : Prop}
    (hr : r.2.2 = true ↔ P) (hr' : r'.2.2 = true ↔ P')
    (hboth : P → P' → (SameOutcome pid r r' ↔ Q)) :
    SameOutcome pid r r' ↔ (P ↔ P') ∧ (P → P' → Q) := by
  constructor
  · intro h
    refine ⟨?_, fun hp hp' => (hboth hp hp').1 h⟩
    rw [← hr, ← hr']
    cases h with
    | declined h h' => rw [h, h']
    | taken h h' => rw [h, h']
  · rintro ⟨hiff, hq⟩
    by_cases hp : P
    · exact (hboth hp (hiff.1 hp)).2 (hq hp (hiff.1 hp))
    · have hp' : ¬ P' := fun h => hp (hiff.2 h)
      rw [← hr, Bool.not_eq_true] at hp
      rw [← hr', Bool.not_eq_true] at hp'
      exact .declined hp hp'

/-- Where what the outcomes depend on decides that too. -/
theorem sameOutcome_iff_or {pid : Pid} {r r' : Emulations × Tracee × Bool} {P P' Q : Prop}
    (hr : r.2.2 = true ↔ P) (hr' : r'.2.2 = true ↔ P')
    (hboth : P → P' → (SameOutcome pid r r' ↔ Q)) (hq : Q → (P ↔ P')) :
    SameOutcome pid r r' ↔ (P ∨ P' → Q) := by
  rw [sameOutcome_iff hr hr' hboth]
  constructor
  · rintro ⟨hiff, hboth⟩ (hp | hp')
    · exact hboth hp (hiff.1 hp)
    · exact hboth (hiff.2 hp') hp'
  · intro h
    refine ⟨⟨fun hp => ?_, fun hp' => ?_⟩, fun hp _ => h (Or.inl hp)⟩
    · exact (hq (h (Or.inl hp))).1 hp
    · exact (hq (h (Or.inr hp'))).2 hp'

section

variable {pid : Pid} {t t' : Tracee} {regs regs' : Regs} {gadget : U64}

/-- The record a sequence starts with. -/
def started (regs : Regs) (gadget : U64) (first : Step) (rest : List Step) (outcome : Outcome)
    (clockid : ℤ) : Sequence :=
  { saved := regs, gadget, queue := rest, running := some first, atEntry := false, results := []
    outcome, fd := -1, readEnd := -1, writeEnd := -1, clockid }

theorem startSequence_cons (e : Emulations) (hset : t.canSet = true) (first : Step)
    (rest : List Step) (outcome : Outcome) (clockid : ℤ) :
    e.startSequence pid t regs gadget (first :: rest) outcome clockid =
      (e.setActive pid (.sequence (started regs gadget first rest outcome clockid)),
        { t with
          regs := withCall regs (build first (started regs gadget first rest outcome clockid)) },
        true) := by
  have hregs : ∀ r, t.setregs r = some { t with regs := r } :=
    fun r => Tracee.setregs_eq_some.2 ⟨hset, rfl⟩
  rw [Emulations.startSequence]
  dsimp only
  rw [hregs]
  rfl

/-- A sequence is started where the registers can be set. -/
theorem startSequence_taken (e : Emulations) {queue : List Step} (hne : queue ≠ [])
    (outcome : Outcome) (clockid : ℤ) :
    (e.startSequence pid t regs gadget queue outcome clockid).2.2 = true ↔ t.canSet = true := by
  cases queue with
  | nil => exact absurd rfl hne
  | cons first rest =>
    cases hset : t.canSet with
    | true =>
      rw [startSequence_cons e hset]
    | false =>
      have hnone : ∀ r, t.setregs r = none := fun r => Tracee.setregs_eq_none.2 hset
      rw [Emulations.startSequence]
      dsimp only
      rw [hnone]

/-- Two sequences are the same outcome where their steps are alike and their clocks are
the same. -/
theorem startSequence_sameOutcome {e e' : Emulations} (htimers : e.timers = e'.timers)
    (hmem : t.mem = t'.mem) (hset : t.canSet = true) (hset' : t'.canSet = true)
    {queue queue' : List Step} (hne : queue ≠ []) (hne' : queue' ≠ []) (outcome : Outcome)
    (clockid clockid' : ℤ) :
    SameOutcome pid (e.startSequence pid t regs gadget queue outcome clockid)
      (e'.startSequence pid t' regs' gadget queue' outcome clockid') ↔
    List.Forall₂ SameStep queue queue' ∧ clockid = clockid' := by
  obtain ⟨first, rest, rfl⟩ := List.exists_cons_of_ne_nil hne
  obtain ⟨first', rest', rfl⟩ := List.exists_cons_of_ne_nil hne'
  rw [startSequence_cons e hset, startSequence_cons e' hset']
  constructor
  · intro h
    cases h with
    | declined h h' => exact absurd h (by simp)
    | taken h h' ha ha' hsame hcall hmem htimers =>
      rw [Emulations.setActive_active_self] at ha ha'
      obtain rfl := Option.some.inj ha
      obtain rfl := Option.some.inj ha'
      cases hsame with
      | sequence hgadget houtcome hclock hsteps => exact ⟨hsteps, hclock⟩
  · rintro ⟨hsteps, hclock⟩
    refine .taken rfl rfl (Emulations.setActive_active_self ..)
      (Emulations.setActive_active_self ..) (.sequence rfl rfl hclock hsteps) ?_ hmem htimers
    have hfirst : SameStep first first' := (List.forall₂_cons.1 hsteps).1
    dsimp only
    rw [Injected.callOf_withCall, Injected.callOf_withCall, hfirst.call]
    exact congrArg seen (Sequence.build_congr rfl first')

end

/-! ### The calls that are taken over by a sequence -/

/-- A call the kernel lacks can be replaced by a sequence: the instruction to go back to
is found and the registers can be set. -/
structure Replaceable (missing : Bool) (t : Tracee) : Prop where
  missing : missing = true
  gadget : (gadgetFor t t.regs).isSome = true
  canSet : t.canSet = true

/-- The address of an eventfd, and its initial value if it is not zero, can be written. -/
structure EventfdWritable (e : Emulations) (pid : Pid) (t : Tracee) (initial : U64) : Prop where
  address : (t.writeStruct (scratchFor t.regs)
    (Emulations.eventfdAddress pid e.sequence)).2 = true
  value : initial ≠ 0 → ((t.writeStruct (scratchFor t.regs)
    (Emulations.eventfdAddress pid e.sequence)).1.writeStruct (scratchFor t.regs + 256)
      (leBytes 8 initial)).2 = true

namespace Twins

variable {t t' : Tracee} (h : Twins t t')

include h

theorem replaceable (missing : Bool) : Replaceable missing t' ↔ Replaceable missing t := by
  constructor
  · rintro ⟨hm, hg, hs⟩
    exact ⟨hm, h.gadget ▸ hg, h.canSet ▸ hs⟩
  · rintro ⟨hm, hg, hs⟩
    exact ⟨hm, by rw [h.gadget]; exact hg, h.canSet ▸ hs⟩

theorem eventfdWritable (e : Emulations) (pid : Pid) (initial : U64) :
    EventfdWritable e pid t' initial ↔ EventfdWritable e pid t initial := by
  obtain ⟨hmem, hok⟩ := h.writeStruct_mem (scratchFor t.regs)
    (Emulations.eventfdAddress pid e.sequence)
  have hvalue : ((t'.writeStruct (scratchFor t.regs)
        (Emulations.eventfdAddress pid e.sequence)).1.writeStruct (scratchFor t.regs + 256)
          (leBytes 8 initial)).2 =
      ((t.writeStruct (scratchFor t.regs)
        (Emulations.eventfdAddress pid e.sequence)).1.writeStruct (scratchFor t.regs + 256)
          (leBytes 8 initial)).2 := by
    rw [Tracee.writeStruct, hmem]
    rfl
  constructor
  · rintro ⟨ha, hv⟩
    rw [h.scratch] at ha hv
    rw [hok] at ha
    rw [hvalue] at hv
    exact ⟨ha, hv⟩
  · rintro ⟨ha, hv⟩
    rw [← hok] at ha
    rw [← hvalue] at hv
    exact ⟨by rw [h.scratch]; exact ha, by rw [h.scratch]; exact hv⟩

end Twins

section

variable {env : Env} {e : Emulations} {pid : Pid} {t t' : Tracee}

/-- The calls whose handler asks for a missing call and a gadget and starts a sequence. -/
theorem replaced_taken (e : Emulations) (pid : Pid) (t : Tracee) (missing : Bool)
    {queue : List Step} (hne : queue ≠ []) (outcome : Outcome) (clockid : ℤ) :
    (if !missing then (e, t, false) else match gadgetFor t t.regs with
      | none => (e, t, false)
      | some gadget => e.startSequence pid t t.regs gadget queue outcome clockid).2.2 = true ↔
    Replaceable missing t := by
  cases missing with
  | false => exact iff_of_false (by simp) fun h => absurd h.missing (by decide)
  | true =>
    rw [if_neg (by decide)]
    cases hgadget : gadgetFor t t.regs with
    | none => exact iff_of_false (by simp) fun h => absurd h.gadget (by simp [hgadget])
    | some gadget =>
      refine (startSequence_taken e hne outcome clockid).trans
        ⟨fun hs => ⟨rfl, ?_, hs⟩, fun h => h.canSet⟩
      rw [hgadget]
      rfl

/-- Two of them with alike steps. -/
theorem replaced_sameOutcome (h : Twins t t') {missing : Bool} {queue queue' : List Step}
    (hne : queue ≠ []) (hsteps : List.Forall₂ SameStep queue queue') (outcome : Outcome)
    (clockid clockid' : ℤ) (hr : Replaceable missing t) :
    SameOutcome pid
      (if !missing then (e, t, false) else match gadgetFor t t.regs with
        | none => (e, t, false)
        | some gadget => e.startSequence pid t t.regs gadget queue outcome clockid)
      (if !missing then (e, t', false) else match gadgetFor t' t'.regs with
        | none => (e, t', false)
        | some gadget => e.startSequence pid t' t'.regs gadget queue' outcome clockid') ↔
    clockid = clockid' := by
  obtain ⟨rfl, hgadget, hset⟩ := hr
  obtain ⟨gadget, hg⟩ := Option.isSome_iff_exists.1 hgadget
  have hne' : queue' ≠ [] := by
    rintro rfl
    exact hne (List.forall₂_nil_right_iff.1 hsteps)
  rw [if_neg (by decide), if_neg (by decide), h.gadget, hg]
  refine (startSequence_sameOutcome rfl h.mem hset (h.canSet ▸ hset) hne hne' ..).trans ?_
  exact and_iff_right hsteps

/-- The calls of an `fcntl` of twins. -/
theorem dupfdCloexecSteps_same (h : Twins t t') (hnr : t.regs.origRax = Nr.fcntl) :
    List.Forall₂ SameStep (Emulations.dupfdCloexecSteps t.regs)
      (Emulations.dupfdCloexecSteps t'.regs) := by
  refine .cons ⟨fun q => ?_, rfl, rfl⟩ (.cons ⟨fun _ => rfl, rfl, rfl⟩ .nil)
  exact seen_congr rfl (h.arg0 hnr) rfl (h.arg2 hnr) rfl rfl rfl

theorem vectorIoSteps_same (h : Twins t t') {write : Bool}
    (hnr : t.regs.origRax = Nr.pwritev ∨ t.regs.origRax = Nr.preadv) :
    List.Forall₂ SameStep (Emulations.vectorIoSteps t.regs write)
      (Emulations.vectorIoSteps t'.regs write) := by
  -- All arguments of these are 64-bit numbers.
  have hargs : t'.regs.rdi = t.regs.rdi ∧ t'.regs.rsi = t.regs.rsi ∧ t'.regs.rdx = t.regs.rdx ∧
      t'.regs.r10 = t.regs.r10 := by
    rcases hnr with hnr | hnr
    · exact ⟨(h.arg0 hnr).symm, (h.arg1 hnr).symm, (h.arg2 hnr).symm, (h.arg3 hnr).symm⟩
    · exact ⟨(h.arg0 hnr).symm, (h.arg1 hnr).symm, (h.arg2 hnr).symm, (h.arg3 hnr).symm⟩
  rw [Emulations.vectorIoSteps, Emulations.vectorIoSteps, hargs.1, hargs.2.1, hargs.2.2.1,
    hargs.2.2.2]
  exact .cons ⟨fun _ => rfl, rfl, rfl⟩ (.cons ⟨fun _ => rfl, rfl, rfl⟩ .nil)

theorem epollPwaitSteps_same (h : Twins t t') (hnr : t.regs.origRax = Nr.epollPwait) :
    List.Forall₂ SameStep (Emulations.epollPwaitSteps t.regs)
      (Emulations.epollPwaitSteps t'.regs) := by
  -- The four arguments of the wait are declared alike in both calls.
  have h₀ := h.arg0 hnr
  have h₁ := h.arg1 hnr
  have h₂ := h.arg2 hnr
  have h₃ := h.arg3 hnr
  have hmask : t'.regs.r8 = t.regs.r8 := (h.arg4 hnr).symm
  rw [Emulations.epollPwaitSteps, Emulations.epollPwaitSteps, h.scratch, hmask]
  refine .cons ⟨fun _ => rfl, rfl, rfl⟩ (.cons ⟨fun q => ?_, rfl, rfl⟩
    (.cons ⟨fun _ => rfl, rfl, rfl⟩ .nil))
  exact seen_congr rfl h₀ h₁ h₂ h₃ rfl rfl

/-- A flag in the lower half of a register. -/
theorem flag_congr (flag : U64) {x y : U64} (hlow : low x = low y)
    (hflag : (low flag).setWidth 64 = flag) : x &&& flag = y &&& flag := by
  have hand : ∀ z : U64, z &&& flag = (low z &&& low flag).setWidth 64 := by
    intro z
    apply BitVec.eq_of_getLsbD_eq
    intro i hi
    have hbit : flag.getLsbD i = ((low flag).setWidth 64).getLsbD i := by rw [hflag]
    simp only [low, BitVec.getLsbD_setWidth, BitVec.getLsbD_and] at hbit ⊢
    by_cases h32 : i < 32
    · simp [h32, hi]
    · have hclear : flag.getLsbD i = false := by
        rw [hbit]
        simp [h32]
      simp [h32, hclear]
  rw [hand x, hand y, hlow]

theorem timerfdCreateSteps_same (h : Twins t t') (hnr : t.regs.origRax = Nr.timerfdCreate) :
    List.Forall₂ SameStep (Emulations.timerfdCreateSteps t.regs)
      (Emulations.timerfdCreateSteps t'.regs) := by
  have hflags := flag_congr TFD_NONBLOCK (read_int.1 (h.arg1 hnr)) (by decide)
  rw [Emulations.timerfdCreateSteps, Emulations.timerfdCreateSteps, h.scratch, hflags]
  refine List.rel_append (.cons ⟨fun _ => rfl, rfl, rfl⟩ (.cons ⟨fun _ => rfl, rfl, rfl⟩ .nil)) ?_
  split_ifs
  · exact .cons ⟨fun _ => rfl, rfl, rfl⟩ .nil
  · exact .nil

/-! ### Outcomes of `begin` at twins -/

theorem eventfd_taken (env : Env) (e : Emulations) (pid : Pid) (t : Tracee) :
    (e.eventfd env pid t t.regs).2.2 = true ↔ t.regs.rdi ≤ 0xffffffff ∧
      Replaceable env.host.eventfdMissing t ∧ EventfdWritable e pid t t.regs.rdi := by
  rw [Emulations.eventfd]
  cases hmissing : env.host.eventfdMissing with
  | false => exact iff_of_false (by simp) fun h => absurd h.2.1.missing (by decide)
  | true =>
    rw [if_neg (by decide)]
    dsimp only
    by_cases hfits : t.regs.rdi ≤ 0xffffffff
    · rw [if_neg (BitVec.not_lt.2 hfits)]
      cases hgadget : gadgetFor t t.regs with
      | none =>
        exact iff_of_false (by simp) fun h => absurd h.2.1.gadget (by simp [hgadget])
      | some gadget =>
        have hsome : (gadgetFor t t.regs).isSome = true := by rw [hgadget]; rfl
        dsimp only
        split
        · rename_i t₁ haddress
          refine iff_of_false (by simp) fun h => ?_
          exact absurd h.2.2.address (by rw [haddress]; simp)
        · rename_i t₁ haddress
          split
          · rename_i t₂ hvalue
            refine iff_of_false (by simp) fun h => ?_
            split_ifs at hvalue with hzero
            · have hv := h.2.2.value hzero
              rw [haddress, hvalue] at hv
              exact absurd hv (by simp)
            · exact absurd (congrArg Prod.snd hvalue) (by simp)
          · rename_i t₂ hvalue
            have hset : t₂.canSet = t.canSet := by
              have h₁ := (Tracee.SameRegs.of_writeStruct haddress).canSet
              split_ifs at hvalue with hzero
              · exact (Tracee.SameRegs.of_writeStruct hvalue).canSet.trans h₁
              · obtain rfl : t₁ = t₂ := congrArg Prod.fst hvalue
                exact h₁
            rw [startSequence_taken _ (by simp [Emulations.eventfdSteps]), hset]
            constructor
            · intro hs
              refine ⟨hfits, ⟨rfl, hsome, hs⟩, by rw [haddress], fun hzero => ?_⟩
              rw [if_pos hzero] at hvalue
              rw [haddress, hvalue]
            · exact fun h => h.2.1.canSet
    · rw [if_pos (BitVec.not_le.1 hfits)]
      exact iff_of_false (by simp) fun h => hfits h.1

/-- The tracee once the address and the initial value of an eventfd are written. -/
def eventfdWritten (e : Emulations) (pid : Pid) (t : Tracee) (initial : U64) : Tracee :=
  let addressed := (t.writeStruct (scratchFor t.regs) (Emulations.eventfdAddress pid e.sequence)).1
  if initial ≠ 0 then (addressed.writeStruct (scratchFor t.regs + 256) (leBytes 8 initial)).1
  else addressed

theorem eventfdWritten_mem (initial : U64) :
    (eventfdWritten e pid t initial).mem =
      let m := (t.mem.writeStruct (scratchFor t.regs)
        (Emulations.eventfdAddress pid e.sequence)).1
      if initial ≠ 0 then (m.writeStruct (scratchFor t.regs + 256) (leBytes 8 initial)).1
      else m := by
  rw [eventfdWritten]
  dsimp only
  split_ifs
  · rfl
  · rfl

theorem eventfdWritten_canSet (initial : U64) :
    (eventfdWritten e pid t initial).canSet = t.canSet := by
  rw [eventfdWritten]
  split_ifs
  · rfl
  · rfl

theorem eventfd_eq (hfits : t.regs.rdi ≤ 0xffffffff)
    (hmissing : env.host.eventfdMissing = true) {gadget : U64}
    (hgadget : gadgetFor t t.regs = some gadget) (hw : EventfdWritable e pid t t.regs.rdi) :
    e.eventfd env pid t t.regs =
      { e with sequence := e.sequence + 1 }.startSequence pid
        (eventfdWritten e pid t t.regs.rdi) t.regs gadget
        (Emulations.eventfdSteps t.regs (Emulations.eventfdAddress pid e.sequence).length)
        (.call 0) 0 := by
  have haddress : t.writeStruct (scratchFor t.regs) (Emulations.eventfdAddress pid e.sequence) =
      ((t.writeStruct (scratchFor t.regs) (Emulations.eventfdAddress pid e.sequence)).1, true) :=
    Prod.ext rfl hw.address
  rw [Emulations.eventfd, hmissing, if_neg (by decide)]
  dsimp only
  rw [if_neg (BitVec.not_lt.2 hfits), hgadget, eventfdWritten]
  dsimp only
  rw [haddress]
  dsimp only
  by_cases hzero : t.regs.rdi = 0
  · rw [if_neg (not_not.2 hzero), if_neg (not_not.2 hzero)]
  · rw [if_pos hzero, if_pos hzero]
    cases hvalue : (t.writeStruct (scratchFor t.regs)
        (Emulations.eventfdAddress pid e.sequence)).1.writeStruct (scratchFor t.regs + 256)
          (leBytes 8 t.regs.rdi) with
    | mk t₂ ok =>
      have hok := hw.value hzero
      rw [hvalue] at hok
      obtain rfl : ok = true := hok
      rfl

/-- The steps of an eventfd tell whether it blocks. -/
theorem eventfdSteps_same (h : Twins t t') (hrdi : t'.regs.rdi = t.regs.rdi) (length : ℕ) :
    List.Forall₂ SameStep (Emulations.eventfdSteps t.regs length)
        (Emulations.eventfdSteps t'.regs length) ↔
      (t.regs.rsi &&& EFD_NONBLOCK = 0 ↔ t'.regs.rsi &&& EFD_NONBLOCK = 0) := by
  have hrefl : ∀ l : List Step, List.Forall₂ SameStep l l :=
    fun l => List.forall₂_same.2 fun _ _ => ⟨fun _ => rfl, rfl, rfl⟩
  rw [Emulations.eventfdSteps, Emulations.eventfdSteps, h.scratch, hrdi]
  by_cases hb : t.regs.rsi &&& EFD_NONBLOCK = 0 <;> by_cases hb' : t'.regs.rsi &&& EFD_NONBLOCK = 0
  · rw [if_neg (not_not.2 hb), if_neg (not_not.2 hb')]
    exact iff_of_true (hrefl _) (iff_of_true hb hb')
  · rw [if_neg (not_not.2 hb), if_pos hb']
    refine iff_of_false (fun hs => ?_) fun hs => hb' (hs.1 hb)
    have hlen := hs.length_eq
    simp only [List.length_append, List.length_cons, List.length_nil] at hlen
    omega
  · rw [if_pos hb, if_neg (not_not.2 hb')]
    refine iff_of_false (fun hs => ?_) fun hs => hb (hs.2 hb')
    have hlen := hs.length_eq
    simp only [List.length_append, List.length_cons, List.length_nil] at hlen
    omega
  · rw [if_pos hb, if_pos hb']
    exact iff_of_true (hrefl _) (iff_of_false hb hb')

/-- What an eventfd needs, but for an initial value that fits a `u32` as the tracer
reads it. -/
structure EventfdReady (env : Env) (e : Emulations) (pid : Pid) (t : Tracee) : Prop where
  replaceable : Replaceable env.host.eventfdMissing t
  writable : EventfdWritable e pid t ((low t.regs.rdi).setWidth 64)

/-- A register whose upper half is zero is its lower half. -/
theorem fits_iff (x : U64) : x ≤ 0xffffffff ↔ x = (low x).setWidth 64 := by
  rw [BitVec.le_def, ← BitVec.toNat_inj, BitVec.toNat_setWidth, low, BitVec.toNat_setWidth]
  have hx := x.isLt
  constructor
  · intro h
    have h : x.toNat ≤ 4294967295 := h
    omega
  · intro h
    show x.toNat ≤ 4294967295
    omega

/-- Where two calls need the same but for one condition each. -/
theorem gated_iff {F F' R Q : Prop} :
    ((F ∧ R ↔ F' ∧ R) ∧ (F ∧ R → F' ∧ R → Q)) ↔ (R → (F ↔ F') ∧ (F → Q)) := by
  constructor
  · rintro ⟨hiff, hq⟩ hr
    have hF : F ↔ F' := ⟨fun hf => (hiff.1 ⟨hf, hr⟩).1, fun hf => (hiff.2 ⟨hf, hr⟩).1⟩
    exact ⟨hF, fun hf => hq ⟨hf, hr⟩ ⟨hF.1 hf, hr⟩⟩
  · intro h
    refine ⟨⟨?_, ?_⟩, ?_⟩
    · exact fun hf => ⟨(h hf.2).1.1 hf.1, hf.2⟩
    · exact fun hf => ⟨(h hf.2).1.2 hf.1, hf.2⟩
    · exact fun hf _ => (h hf.2).2 hf.1

/-- The two eventfds of twins. -/
theorem eventfd_sameOutcome (h : Twins t t')
    (hnr : t.regs.origRax = Nr.eventfd ∨ t.regs.origRax = Nr.eventfd2) :
    SameOutcome pid (e.eventfd env pid t t.regs) (e.eventfd env pid t' t'.regs) ↔
      (EventfdReady env e pid t →
        (t.regs.rdi ≤ 0xffffffff ↔ t'.regs.rdi ≤ 0xffffffff) ∧
        (t.regs.rdi ≤ 0xffffffff →
          (t.regs.rsi &&& EFD_NONBLOCK = 0 ↔ t'.regs.rsi &&& EFD_NONBLOCK = 0))) := by
  have hlow : low t'.regs.rdi = low t.regs.rdi := by
    rcases hnr with hnr | hnr
    · exact (read_int.1 (h.arg0 hnr)).symm
    · exact (read_int.1 (h.arg0 hnr)).symm
  have hready : ∀ {u : Tracee}, u.regs.rdi ≤ 0xffffffff →
      (EventfdWritable e pid u u.regs.rdi ↔
        EventfdWritable e pid u ((low u.regs.rdi).setWidth 64)) := by
    intro u hu
    rw [← (fits_iff _).1 hu]
  have hp : (e.eventfd env pid t t.regs).2.2 = true ↔
      t.regs.rdi ≤ 0xffffffff ∧ EventfdReady env e pid t := by
    rw [eventfd_taken]
    refine and_congr_right fun hu => ?_
    rw [hready hu]
    exact ⟨fun hr => ⟨hr.1, hr.2⟩, fun hr => ⟨hr.1, hr.2⟩⟩
  have hp' : (e.eventfd env pid t' t'.regs).2.2 = true ↔
      t'.regs.rdi ≤ 0xffffffff ∧ EventfdReady env e pid t := by
    rw [eventfd_taken]
    refine and_congr_right fun hu => ?_
    rw [hready hu, h.replaceable, h.eventfdWritable, hlow]
    exact ⟨fun hr => ⟨hr.1, hr.2⟩, fun hr => ⟨hr.1, hr.2⟩⟩
  rw [sameOutcome_iff hp hp' (Q := t.regs.rsi &&& EFD_NONBLOCK = 0 ↔
    t'.regs.rsi &&& EFD_NONBLOCK = 0)]
  · exact gated_iff
  · rintro ⟨hfits, hr⟩ ⟨hfits', -⟩
    have hrdi : t'.regs.rdi = t.regs.rdi := by
      rw [(fits_iff _).1 hfits', hlow, ← (fits_iff _).1 hfits]
    obtain ⟨gadget, hgadget⟩ := Option.isSome_iff_exists.1 hr.replaceable.gadget
    have hw := (hready hfits).2 hr.writable
    have hw' : EventfdWritable e pid t' t'.regs.rdi := by
      rw [h.eventfdWritable, hrdi]
      exact hw
    have hmem : (eventfdWritten e pid t t.regs.rdi).mem =
        (eventfdWritten e pid t' t'.regs.rdi).mem := by
      rw [eventfdWritten_mem, eventfdWritten_mem, hrdi, h.scratch, h.mem]
    rw [eventfd_eq hfits hr.replaceable.missing hgadget hw,
      eventfd_eq hfits' hr.replaceable.missing (h.gadget.trans hgadget) hw']
    refine (startSequence_sameOutcome rfl hmem
      ((eventfdWritten_canSet _).trans hr.replaceable.canSet)
      ((eventfdWritten_canSet _).trans (h.canSet ▸ hr.replaceable.canSet))
      (by simp [Emulations.eventfdSteps]) (by simp [Emulations.eventfdSteps]) ..).trans ?_
    rw [and_iff_left rfl]
    exact eventfdSteps_same h hrdi _

/-- The two timerfds of twins. -/
theorem timerfdCreate_sameOutcome (h : Twins t t') (hnr : t.regs.origRax = Nr.timerfdCreate) :
    SameOutcome pid (e.timerfdCreate env pid t t.regs) (e.timerfdCreate env pid t' t'.regs) ↔
      (Replaceable env.host.timerfdMissing t →
        low (env.host.clockidFor t.regs.rdi) = low (env.host.clockidFor t'.regs.rdi)) := by
  have hne : ∀ regs, Emulations.timerfdCreateSteps regs ≠ [] := fun regs => by
    simp [Emulations.timerfdCreateSteps]
  have hp := replaced_taken e pid t env.host.timerfdMissing (hne t.regs) .adopted
    ((env.host.clockidFor t.regs.rdi).setWidth 32).toInt
  have hp' := (replaced_taken e pid t' env.host.timerfdMissing (hne t'.regs) .adopted
    ((env.host.clockidFor t'.regs.rdi).setWidth 32).toInt).trans (h.replaceable _)
  refine (sameOutcome_iff hp hp' fun hr _ => replaced_sameOutcome h (hne t.regs)
    (timerfdCreateSteps_same h hnr) .adopted _ _ hr).trans ?_
  rw [BitVec.toInt_inj, low, low]
  exact ⟨fun hb hr => hb.2 hr hr, fun hb => ⟨Iff.rfl, fun hr _ => hb hr⟩⟩

theorem dupfdCloexec_eq (env : Env) (e : Emulations) (pid : Pid) (t : Tracee) :
    e.dupfdCloexec env pid t t.regs =
      if !(decide (t.regs.rsi = F_DUPFD_CLOEXEC) && env.host.kernelLt 2 6 24) then (e, t, false)
      else match gadgetFor t t.regs with
        | none => (e, t, false)
        | some gadget =>
          e.startSequence pid t t.regs gadget (Emulations.dupfdCloexecSteps t.regs)
            (.call 0) 0 := by
  rw [Emulations.dupfdCloexec]
  cases hlt : env.host.kernelLt 2 6 24 with
  | false =>
    rw [if_pos (Or.inr (by decide)), Bool.and_false]
    rfl
  | true =>
    by_cases hcmd : t.regs.rsi = F_DUPFD_CLOEXEC
    · rw [if_neg (by simp [hcmd]), decide_eq_true hcmd]
      rfl
    · rw [if_pos (Or.inl hcmd), decide_eq_false hcmd]
      rfl

/-- The two `fcntl`s of twins. -/
theorem dupfdCloexec_sameOutcome (h : Twins t t') (hnr : t.regs.origRax = Nr.fcntl) :
    SameOutcome pid (e.dupfdCloexec env pid t t.regs) (e.dupfdCloexec env pid t' t'.regs) ↔
      (Replaceable (env.host.kernelLt 2 6 24) t →
        (t.regs.rsi = F_DUPFD_CLOEXEC ↔ t'.regs.rsi = F_DUPFD_CLOEXEC)) := by
  have hne : ∀ regs, Emulations.dupfdCloexecSteps regs ≠ [] := fun regs => by
    simp [Emulations.dupfdCloexecSteps]
  have hand : ∀ {u : Tracee} {c : Prop} [Decidable c] {b : Bool},
      Replaceable (decide c && b) u ↔ c ∧ Replaceable b u := by
    intro u c _ b
    constructor
    · rintro ⟨hm, hg, hs⟩
      rw [Bool.and_eq_true, decide_eq_true_iff] at hm
      exact ⟨hm.1, hm.2, hg, hs⟩
    · rintro ⟨hc, hm, hg, hs⟩
      exact ⟨by rw [decide_eq_true hc, hm]; rfl, hg, hs⟩
  rw [dupfdCloexec_eq, dupfdCloexec_eq]
  by_cases hboth : t.regs.rsi = F_DUPFD_CLOEXEC ↔ t'.regs.rsi = F_DUPFD_CLOEXEC
  · rw [← decide_eq_decide.2 hboth]
    have hp := replaced_taken e pid t (decide (t.regs.rsi = F_DUPFD_CLOEXEC) &&
      env.host.kernelLt 2 6 24) (hne t.regs) (.call 0) 0
    have hp' := (replaced_taken e pid t' (decide (t.regs.rsi = F_DUPFD_CLOEXEC) &&
      env.host.kernelLt 2 6 24) (hne t'.regs) (.call 0) 0).trans (h.replaceable _)
    refine iff_of_true ((sameOutcome_iff hp hp' fun hr _ => replaced_sameOutcome h (hne t.regs)
      (dupfdCloexecSteps_same h hnr) (.call 0) 0 0 hr).2 ⟨Iff.rfl, fun _ _ => rfl⟩) fun _ => hboth
  · have hp := (replaced_taken e pid t (decide (t.regs.rsi = F_DUPFD_CLOEXEC) &&
      env.host.kernelLt 2 6 24) (hne t.regs) (.call 0) 0).trans hand
    have hp' := ((replaced_taken e pid t' (decide (t'.regs.rsi = F_DUPFD_CLOEXEC) &&
      env.host.kernelLt 2 6 24) (hne t'.regs) (.call 0) 0).trans (h.replaceable _)).trans hand
    refine (sameOutcome_iff hp hp' (Q := False) fun hr hr' => ?_).trans ?_
    · exact absurd (iff_of_true hr.1 hr'.1) hboth
    · rw [gated_iff]
      exact ⟨fun hb hr => (hb hr).1, fun hb hr => absurd (hb hr) hboth⟩

/-! ### Settings and queries of a timer -/

/-- What `timerfd_settime` reports in place of the old value, where it is asked for. -/
def reported (env : Env) (t : Tracee) (timer : Timer) : Tracee × Bool :=
  if t.regs.r10 ≠ 0 then
    let now := (env.clock 0 timer.clockid).getD Time.zero
    let remaining := timer.deadline.elim Time.zero fun deadline => Time.sub deadline now
    t.writeStruct t.regs.r10 (Emulations.itimerspecBytes timer.interval remaining)
  else (t, true)

/-- What a setting needs: a tracked descriptor, a readable new value, room for the old
one and a clock that can be read. -/
structure SettimeReady (env : Env) (e : Emulations) (t : Tracee) (timer : Timer)
    (requested : List Byte) (deadline : Option Time) : Prop where
  tracked : e.timers.lookup t.regs.rdi.toInt = some timer
  read : t.mem.readStruct t.regs.rdx 32 = some requested
  written : (reported env t timer).2 = true
  clock : Emulations.deadlineFor env timer.clockid t.regs.rsi (timeAt requested 16) = some deadline
  canSet : t.canSet = true

/-- The setting a `timerfd_settime` asks for. -/
def settingAt (t : Tracee) (timer : Timer) (bytes : List Byte) : Setting :=
  ⟨t.regs.rdi.toInt, timer, timeAt bytes 0, timeAt bytes 16, t.regs.rsi⟩

/-- The registers of the call that stands in for one that is answered at once. -/
def standInRegs (regs : Regs) : Regs := { regs with origRax := Nr.getpid, rax := Nr.getpid }

theorem standIn_eq (e : Emulations) (pid : Pid) {t : Tracee} (regs : Regs) (result : ℤ)
    (hset : t.canSet = true) : e.standIn pid t regs result =
      (e.setActive pid (.fixup result), { t with regs := standInRegs regs }, true) := by
  have hregs : t.setregs (standInRegs regs) = some { t with regs := standInRegs regs } :=
    Tracee.setregs_eq_some.2 ⟨hset, rfl⟩
  rw [standInRegs] at hregs
  rw [Emulations.standIn, hregs]
  rfl

theorem standIn_taken (e : Emulations) (pid : Pid) (t : Tracee) (regs : Regs) (result : ℤ) :
    (e.standIn pid t regs result).2.2 = true ↔ t.canSet = true := by
  cases hset : t.canSet with
  | true => rw [standIn_eq e pid regs result hset]
  | false =>
    have hnone : ∀ r, t.setregs r = none := fun r => Tracee.setregs_eq_none.2 hset
    rw [Emulations.standIn, hnone]

theorem reported_canSet (env : Env) (t : Tracee) (timer : Timer) :
    (reported env t timer).1.canSet = t.canSet := by
  rw [reported]
  split <;> rfl

theorem timerfdSettime_eq (env : Env) (e : Emulations) (pid : Pid) (t : Tracee) :
    e.timerfdSettime env pid t t.regs =
      match e.timers.lookup t.regs.rdi.toInt with
      | none => (e, t, false)
      | some timer =>
        match t.mem.readStruct t.regs.rdx 32 with
        | none => (e, t, false)
        | some requested =>
          match reported env t timer with
          | (t, false) => (e, t, false)
          | (t', true) =>
            match Emulations.deadlineFor env timer.clockid t.regs.rsi (timeAt requested 16) with
            | none => (e, t', false)
            | some deadline =>
              ({ e with timers := e.withSetting (settingAt t timer requested) deadline }.arm
                env).standIn pid t' t.regs 0 := rfl

/-- A setting that finds what it needs. -/
theorem timerfdSettime_ready {timer : Timer} {bytes : List Byte} {deadline : Option Time}
    (h : SettimeReady env e t timer bytes deadline) :
    e.timerfdSettime env pid t t.regs =
      (({ e with timers := e.withSetting (settingAt t timer bytes) deadline }.arm env).setActive
          pid (.fixup 0),
        { (reported env t timer).1 with regs := standInRegs t.regs }, true) := by
  have hreported : reported env t timer = ((reported env t timer).1, true) :=
    Prod.ext rfl h.written
  rw [timerfdSettime_eq, h.tracked]
  dsimp only
  rw [h.read]
  dsimp only
  rw [hreported]
  dsimp only
  rw [h.clock]
  exact standIn_eq _ pid _ 0 ((reported_canSet env t timer).trans h.canSet)

theorem timerfdSettime_taken (env : Env) (e : Emulations) (pid : Pid) (t : Tracee) :
    (e.timerfdSettime env pid t t.regs).2.2 = true ↔
      ∃ timer bytes deadline, SettimeReady env e t timer bytes deadline := by
  constructor
  · intro h
    rw [timerfdSettime_eq] at h
    split at h
    · exact absurd h (by simp)
    · rename_i timer htracked
      split at h
      · exact absurd h (by simp)
      · rename_i bytes hread
        split at h
        · exact absurd h (by simp)
        · rename_i t₁ hreported
          split at h
          · exact absurd h (by simp)
          · rename_i deadline hclock
            have hset := reported_canSet env t timer
            rw [standIn_taken] at h
            rw [hreported] at hset
            exact ⟨timer, bytes, deadline, htracked, hread, by rw [hreported], hclock,
              hset.symm.trans h⟩
  · rintro ⟨timer, bytes, deadline, h⟩
    rw [timerfdSettime_ready h]

/-- What a query needs. -/
structure GettimeReady (env : Env) (e : Emulations) (t : Tracee) (timer : Timer) : Prop where
  tracked : e.timers.lookup t.regs.rdi.toInt = some timer
  written : (t.writeStruct t.regs.rsi (Emulations.itimerspecBytes timer.interval
    (timer.deadline.elim Time.zero fun deadline =>
      Time.sub deadline ((env.clock 0 timer.clockid).getD Time.zero)))).2 = true
  canSet : t.canSet = true

/-- A query that finds what it needs. -/
theorem timerfdGettime_ready {timer : Timer} (h : GettimeReady env e t timer) :
    e.timerfdGettime env pid t t.regs =
      (e.setActive pid (.fixup 0),
        { (t.writeStruct t.regs.rsi (Emulations.itimerspecBytes timer.interval
          (timer.deadline.elim Time.zero fun deadline =>
            Time.sub deadline ((env.clock 0 timer.clockid).getD Time.zero)))).1 with
          regs := standInRegs t.regs }, true) := by
  rw [Emulations.timerfdGettime, h.tracked]
  dsimp only
  cases hw : t.writeStruct t.regs.rsi (Emulations.itimerspecBytes timer.interval
      (timer.deadline.elim Time.zero fun deadline =>
        Time.sub deadline ((env.clock 0 timer.clockid).getD Time.zero))) with
  | mk t₁ ok =>
    have hok := h.written
    rw [hw] at hok
    obtain rfl : ok = true := hok
    exact standIn_eq e pid _ 0 ((Tracee.SameRegs.of_writeStruct hw).canSet.trans h.canSet)

theorem timerfdGettime_taken (env : Env) (e : Emulations) (pid : Pid) (t : Tracee) :
    (e.timerfdGettime env pid t t.regs).2.2 = true ↔ ∃ timer, GettimeReady env e t timer := by
  constructor
  · intro h
    rw [Emulations.timerfdGettime] at h
    split at h
    · exact absurd h (by simp)
    · rename_i timer htracked
      dsimp only at h
      split at h
      · exact absurd h (by simp)
      · rename_i t₁ hw
        rw [standIn_taken, (Tracee.SameRegs.of_writeStruct hw).canSet] at h
        exact ⟨timer, htracked, by rw [hw], h⟩
  · rintro ⟨timer, h⟩
    rw [timerfdGettime_ready h]

/-- The numbers tracked are those of descriptors, which are 32-bit. -/
def FdKeys (e : Emulations) : Prop :=
  ∀ fd timer, e.timers.lookup fd = some timer → ∃ x : BitVec 32, fd = x.toInt

/-- Two registers with one lower half that both hold a tracked number are equal. -/
theorem FdKeys.inj (hkeys : FdKeys e) {x y : U64} (hlow : low x = low y) {timer timer' : Timer}
    (hx : e.timers.lookup x.toInt = some timer) (hy : e.timers.lookup y.toInt = some timer') :
    x = y := by
  have hback : ∀ (z : U64) (w : BitVec 32), z.toInt = w.toInt → low z = w := by
    intro z w hz
    have hz' := BitVec.toInt_eq_toNat_cond z
    have hw' := BitVec.toInt_eq_toNat_cond w
    have hzlt := z.isLt
    have hwlt := w.isLt
    apply BitVec.eq_of_toNat_eq
    rw [low, BitVec.toNat_setWidth]
    split_ifs at hz' hw' <;> omega
  obtain ⟨a, ha⟩ := hkeys _ _ hx
  obtain ⟨b, hb⟩ := hkeys _ _ hy
  have hab : a = b := by rw [← hback x a ha, ← hback y b hb, hlow]
  exact BitVec.eq_of_toInt_eq (by rw [ha, hb, hab])

/-- The two settings of twins. -/
theorem timerfdSettime_sameOutcome (h : Twins t t') (hkeys : FdKeys e)
    (hnr : t.regs.origRax = Nr.timerfdSettime) :
    SameOutcome pid (e.timerfdSettime env pid t t.regs) (e.timerfdSettime env pid t' t'.regs) ↔
      ((∃ timer bytes deadline, SettimeReady env e t timer bytes deadline) ∨
        (∃ timer bytes deadline, SettimeReady env e t' timer bytes deadline) →
          t.regs.rdi = t'.regs.rdi) := by
  have hlow : low t.regs.rdi = low t'.regs.rdi := read_int.1 (h.arg0 hnr)
  have hflags := flag_congr TFD_TIMER_ABSTIME (read_int.1 (h.arg1 hnr)) (by decide)
  have hnew : t'.regs.rdx = t.regs.rdx := (h.arg2 hnr).symm
  have hold : t'.regs.r10 = t.regs.r10 := (h.arg3 hnr).symm
  have hdeadline : ∀ (clockid : ℤ) (value : Time),
      Emulations.deadlineFor env clockid t'.regs.rsi value =
        Emulations.deadlineFor env clockid t.regs.rsi value := by
    intro clockid value
    rw [Emulations.deadlineFor, Emulations.deadlineFor, hflags]
  have hreported : ∀ timer : Timer, (reported env t' timer).2 = (reported env t timer).2 ∧
      (reported env t' timer).1.mem = (reported env t timer).1.mem := by
    intro timer
    rw [reported, reported, hold]
    split
    · rw [Tracee.writeStruct, Tracee.writeStruct, h.mem]
      exact ⟨rfl, rfl⟩
    · exact ⟨rfl, h.mem.symm⟩
  have hready : t.regs.rdi = t'.regs.rdi → ∀ timer bytes deadline,
      (SettimeReady env e t' timer bytes deadline ↔ SettimeReady env e t timer bytes deadline) := by
    intro hrdi timer bytes deadline
    constructor
    · rintro ⟨ht, hr, hw, hc, hs⟩
      rw [← hrdi] at ht
      rw [hnew, ← h.mem] at hr
      rw [(hreported timer).1] at hw
      rw [hdeadline] at hc
      exact ⟨ht, hr, hw, hc, h.canSet ▸ hs⟩
    · rintro ⟨ht, hr, hw, hc, hs⟩
      rw [hrdi] at ht
      rw [← hnew, h.mem] at hr
      rw [← (hreported timer).1] at hw
      rw [← hdeadline] at hc
      exact ⟨ht, hr, hw, hc, h.canSet ▸ hs⟩
  refine sameOutcome_iff_or (timerfdSettime_taken ..) (timerfdSettime_taken ..) ?_ fun hrdi => ?_
  · rintro ⟨timer, bytes, deadline, hr⟩ ⟨timer', bytes', deadline', hr'⟩
    have hrdi := hkeys.inj hlow hr.tracked hr'.tracked
    refine iff_of_true ?_ hrdi
    rw [timerfdSettime_ready hr, timerfdSettime_ready ((hready hrdi _ _ _).2 hr)]
    have hsetting : e.withSetting (settingAt t' timer bytes) deadline =
        e.withSetting (settingAt t timer bytes) deadline := by
      rw [settingAt, settingAt, hrdi]
      rfl
    rw [hsetting]
    refine .taken rfl rfl (Emulations.setActive_active_self ..)
      (Emulations.setActive_active_self ..) (.fixup 0) rfl (hreported timer).2.symm rfl
  · simp only [hready hrdi]

/-- The two queries of twins. -/
theorem timerfdGettime_sameOutcome (h : Twins t t') (hkeys : FdKeys e)
    (hnr : t.regs.origRax = Nr.timerfdGettime) :
    SameOutcome pid (e.timerfdGettime env pid t t.regs) (e.timerfdGettime env pid t' t'.regs) ↔
      ((∃ timer, GettimeReady env e t timer) ∨ (∃ timer, GettimeReady env e t' timer) →
        t.regs.rdi = t'.regs.rdi) := by
  have hlow : low t.regs.rdi = low t'.regs.rdi := read_int.1 (h.arg0 hnr)
  have haddr : t'.regs.rsi = t.regs.rsi := (h.arg1 hnr).symm
  have hready : t.regs.rdi = t'.regs.rdi → ∀ timer,
      (GettimeReady env e t' timer ↔ GettimeReady env e t timer) := by
    intro hrdi timer
    constructor
    · rintro ⟨ht, hw, hs⟩
      rw [← hrdi] at ht
      rw [haddr, Tracee.writeStruct, ← h.mem] at hw
      exact ⟨ht, hw, h.canSet ▸ hs⟩
    · rintro ⟨ht, hw, hs⟩
      rw [hrdi] at ht
      rw [← haddr, Tracee.writeStruct, h.mem] at hw
      exact ⟨ht, hw, h.canSet ▸ hs⟩
  refine sameOutcome_iff_or (timerfdGettime_taken ..) (timerfdGettime_taken ..) ?_ fun hrdi => ?_
  · rintro ⟨timer, hr⟩ ⟨timer', hr'⟩
    have hrdi := hkeys.inj hlow hr.tracked hr'.tracked
    refine iff_of_true ?_ hrdi
    rw [timerfdGettime_ready hr, timerfdGettime_ready ((hready hrdi _).2 hr), haddr]
    refine .taken rfl rfl (Emulations.setActive_active_self ..)
      (Emulations.setActive_active_self ..) (.fixup 0) rfl ?_ rfl
    rw [Tracee.writeStruct, Tracee.writeStruct, h.mem]
  · simp only [hready hrdi]

end

end Tracing
end Sharun
