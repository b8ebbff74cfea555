/-
# The signals an emulated `epoll_pwait` lets in

`epoll_pwait` puts a signal mask in force for the wait alone, so that a signal the
caller has blocked can end it, and its handler is entered before the call returns.
The emulation makes three calls of it, and the tracer holds back a signal that is
delivered between them: it is suppressed, and queued again at the stop that ends the
emulation, when the caller's mask has been put back and blocks it.

`Waiting` runs the tracer beside the kernel's side of this: the mask in force, the
masks in the tracee's memory, the signals queued for it and the handlers entered.  A
queued signal the mask does not block is delivered before the tracee goes on, and
`rt_sigprocmask` does what the registers ask for.

The one signal the tracer does not hold back is `SIGTRAP`.  A handler of it is entered
inside the emulation, with a frame on the stack and more signals blocked, and the first
call the handler makes, be it its `rt_sigreturn`, is taken for the next one of the three:
at its exit stop the tracer sends the tracee on to the call after that.
-/

import Sharun.Tracer.Injected
import Mathlib.Data.Finset.Option

namespace Sharun
namespace Tracing

open Machine Emulation Sharun.Basis

/-- The signals that are blocked. -/
abbrev Mask := Finset ℤ

/-- A signal can have a handler to enter. -/
def handled (sig : ℤ) : Bool := sig ≠ 0 && sig ≠ Signo.SIGSTOP

/-- What is kept of a tracee while it is in a handler. -/
structure Frame where
  regs : Regs
  mask : Mask
  deriving DecidableEq

/-- What the kernel does to enter a handler: the registers it keeps in the frame, those the
handler starts with, the memory with the frame and the masks in it, and the signals that are
blocked while the handler runs. -/
structure HandlerEntry where
  kept : Regs
  regs : Regs
  mem : Memory
  stored : U64 → Option Mask
  blocks : Mask

/-- A tracee in an emulated `epoll_pwait`, with the kernel's record of its signals. -/
structure Waiting where
  call : Injected
  /-- The mask in force. -/
  mask : Mask
  /-- The masks in the tracee's memory. -/
  stored : U64 → Option Mask
  /-- The signals queued. -/
  pending : Finset ℤ
  /-- The signals queued at the last entry stop, which the mask then blocks. -/
  blocked : Finset ℤ
  /-- The handlers entered. -/
  entered : List ℤ
  /-- The frame of the handler that the tracee is in. -/
  frame : Option Frame
  /-- The signals delivered that had no handler. -/
  ignored : Finset ℤ
  /-- What the calls of the emulation have returned. -/
  results : List U64
  /-- The signals queued at the start or sent before the entry stop of the last call. -/
  timely : Finset ℤ
  /-- The signals sent after it. -/
  tardy : Finset ℤ
  /-- The signal held back last. -/
  held : Option ℤ

/-- What becomes of such a tracee. -/
inductive Happening
  /-- A signal is sent to it. -/
  | send (sig : ℤ)
  /-- It stops because a signal is to be delivered, which may have a handler. -/
  | signal (env : Env) (alarm : Bool) (sig : ℤ) (handler : Option HandlerEntry)
  | enter (r : Served)
  /-- The exit stop of a call, with the masks in memory where it or another thread has written
  there, and the addresses that can be written. -/
  | leave (r : Served) (written : Option (U64 → Option Mask)) (writable : U64 → Bool)
  /-- The entry stop of a call that a handler makes. -/
  | call (env : Env) (alarm : Bool) (t : Tracee) (stored : U64 → Option Mask)
  /-- The exit stop of such a call, with the mask it leaves. -/
  | ret (env : Env) (alarm : Bool) (t : Tracee) (mask : Mask) (stored : U64 → Option Mask)
  /-- A turn that is about another tracee. -/
  | other (u : Turn)

/-- What `rt_sigprocmask(SIG_SETMASK, set, old)` leaves: the mask, the masks in memory,
the result. -/
def setMask (mask : Mask) (stored : U64 → Option Mask) (writable : U64 → Bool) (set old : U64) :
    Mask × (U64 → Option Mask) × ℤ :=
  match if set = 0 then some mask else stored set with
  | none => (mask, stored, -Errno.EFAULT)
  | some new =>
    if old = 0 then (new, stored, 0)
    else if writable old then (new, Function.update stored old (some mask), 0)
    else (new, stored, -Errno.EFAULT)

namespace Waiting

/-- The tracee at the stop `u` where its call is taken over. -/
def start (s : Tracer) (u : Turn) (mask : Mask) (stored : U64 → Option Mask)
    (pending : Finset ℤ) : Waiting :=
  ⟨Injected.start s u, mask, stored, pending, pending, [], none, ∅, [], pending, ∅, none⟩

/-- The call the tracee is in replaces the mask. -/
def setsMask (x : Waiting) : Bool :=
  (callOf x.call.tracee.regs).nr = Nr.rtSigprocmask &&
    (callOf x.call.tracee.regs).a0 = SIG_SETMASK

/-- What that call leaves. -/
def kernel (x : Waiting) (writable : U64 → Bool) : Mask × (U64 → Option Mask) × ℤ :=
  setMask x.mask x.stored writable (callOf x.call.tracee.regs).a1 (callOf x.call.tracee.regs).a2

/-- The entry stop of the last of the three calls has been, the fifth of the six stops. -/
def late (x : Waiting) : Bool := 5 ≤ x.call.stops

/-- The turn of the loop at which a signal is to be delivered. -/
def signalTurn (x : Waiting) (pid : Pid) (env : Env) (alarm : Bool) (sig : ℤ) : Turn :=
  ⟨env, alarm, .stopped pid sig, x.call.tracee⟩

/-- The turn of the loop at the exit stop of a call. -/
def leaveTurn (x : Waiting) (pid : Pid) (r : Served) : Turn :=
  ⟨r.exitEnv, r.exitAlarm, .syscall pid, r.ret.apply x.call.tracee⟩

/-- The kernel has a signal to deliver that the tracer passes on: its handler is entered, or
there is none. -/
def deliver (x : Waiting) (sig : ℤ) : Option HandlerEntry → Waiting
  | none => { x with ignored := insert sig x.ignored }
  | some h =>
    { x with
      call := { x.call with tracee := { x.call.tracee with regs := h.regs, mem := h.mem } }
      mask := x.mask ∪ h.blocks
      stored := h.stored
      entered := x.entered ++ [sig]
      frame := some ⟨h.kept, x.mask⟩ }

/-- What becomes of the tracee: a signal the tracer passes on at its delivery has its
handler entered, and one it passes on at a syscall stop is queued. -/
def step (pid : Pid) (gadget : U64) (x : Waiting) : Happening → Waiting
  | .send sig =>
    { x with
      pending := insert sig x.pending
      timely := if x.late then x.timely else insert sig x.timely
      tardy := if x.late then insert sig x.tardy else x.tardy }
  | .signal env alarm sig handler =>
    let h := x.call.tracer.turn (x.signalTurn pid env alarm sig)
    let y : Waiting :=
      { x with
        call := { x.call with tracer := h.tracer, tracee := h.tracee }
        pending := x.pending.erase sig
        held := if Tracer.heldBack sig then some sig else x.held }
    match (h.signalTo pid).filter handled with
    | none => y
    | some sig => y.deliver sig handler
  | .enter r => { x with call := (x.call.enter pid gadget r).getD x.call, blocked := x.pending }
  | .leave r written writable =>
    let h := x.call.tracer.turn (x.leaveTurn pid r)
    { x with
      call := (x.call.leave pid r).getD x.call
      mask := if x.setsMask then (x.kernel writable).1 else x.mask
      stored := if x.setsMask then (x.kernel writable).2.1 else written.getD x.stored
      pending := x.pending ∪ (h.signalTo pid).toFinset
      results := x.results ++ [r.ret.rax] }
  | .call env alarm t stored =>
    { x with call := (x.call.stop pid env alarm t true).getD x.call, stored, blocked := x.pending }
  | .ret env alarm t mask stored =>
    let h := x.call.tracer.turn ⟨env, alarm, .syscall pid, t⟩
    { x with
      call := (x.call.stop pid env alarm t false).getD x.call
      mask, stored
      frame := none
      pending := x.pending ∪ (h.signalTo pid).toFinset }
  | .other u => { x with call := { x.call with tracer := x.call.tracer.next u } }

/-- The emulation is in progress. -/
def Busy (pid : Pid) (x : Waiting) : Prop := x.call.tracer.emulated.busy pid = true

instance (pid : Pid) (x : Waiting) : Decidable (x.Busy pid) := inferInstanceAs (Decidable (_ = _))

/-- A handler has been entered from where the tracer left the tracee, unless it was in one. -/
def Keeps (x : Waiting) (handler : Option HandlerEntry) : Prop :=
  x.frame = none → ∀ h ∈ handler, h.kept = x.call.tracee.regs

instance (x : Waiting) (handler : Option HandlerEntry) : Decidable (x.Keeps handler) :=
  inferInstanceAs (Decidable (_ → _))

/-- `rt_sigreturn` puts back what is in the frame. -/
def Returns (x : Waiting) (t : Tracee) (mask : Mask) : Prop :=
  (callOf x.call.tracee.regs).nr = rtSigreturn →
    ∀ f ∈ x.frame, t.regs = { f.regs with origRax := -1 } ∧ mask = f.mask

instance (x : Waiting) (t : Tracee) (mask : Mask) : Decidable (x.Returns t mask) :=
  inferInstanceAs (Decidable (_ → _))

/-- What the kernel lets happen while the emulation is in progress: a queued signal the
mask does not block is delivered before the tracee goes on, a call returns what it left, an
error number or a number that is not negative, and it is the handler the tracee is in that
makes calls. -/
def Kernel (pid : Pid) (x : Waiting) : Happening → Prop
  | .send _ => x.Busy pid
  | .signal _ _ sig handler =>
    x.Busy pid ∧ x.call.inside = false ∧ sig ∈ x.pending ∧ sig ∉ x.mask ∧ x.Keeps handler
  | .enter _ =>
    x.Busy pid ∧ x.call.inside = false ∧ x.frame.isNone = true ∧ x.pending ⊆ x.mask
  | .leave r _ writable =>
    x.Busy pid ∧ x.call.inside = true ∧ x.frame.isNone = true ∧
      r.ret.canGet = true ∧ r.ret.canSet = true ∧
      (x.setsMask = true → r.ret.rax = asU64 (x.kernel writable).2.2) ∧
      (0 ≤ r.ret.rax.toInt ∨ isError r.ret.rax.toInt = true)
  | .call _ _ _ _ =>
    x.Busy pid ∧ x.call.inside = false ∧ x.frame.isSome = true ∧ x.pending ⊆ x.mask
  | .ret _ _ t mask _ =>
    x.Busy pid ∧ x.call.inside = true ∧ x.frame.isSome = true ∧
      t.canGet = true ∧ t.canSet = true ∧ x.Returns t mask
  | .other u => x.Busy pid ∧ u.wait.pid ≠ some pid

instance (pid : Pid) (x : Waiting) : (e : Happening) → Decidable (x.Kernel pid e)
  | .send _ => inferInstanceAs (Decidable (x.Busy pid))
  | .signal _ _ _ _ => inferInstanceAs (Decidable (_ ∧ _))
  | .enter _ => inferInstanceAs (Decidable (_ ∧ _))
  | .leave _ _ _ => inferInstanceAs (Decidable (_ ∧ _))
  | .call _ _ _ _ => inferInstanceAs (Decidable (_ ∧ _))
  | .ret _ _ _ _ _ => inferInstanceAs (Decidable (_ ∧ _))
  | .other _ => inferInstanceAs (Decidable (_ ∧ _))

/-- The emulated call has returned with `EINTR`. -/
def Interrupted (pid : Pid) (x : Waiting) : Prop :=
  x.call.tracer.emulated.busy pid = false ∧ x.call.tracee.regs.rax = asU64 (-Errno.EINTR)

/-- The call that puts a mask in force for the wait has failed. -/
def refused (x : Waiting) : Bool := x.results.head?.any (isError ·.toInt)

/-- The handler of a signal is entered before the application goes on: it has been, or
the signal is queued and not blocked. -/
def Enters (x : Waiting) (sig : ℤ) : Prop :=
  sig ∈ x.entered ∨ sig ∈ x.pending ∧ sig ∉ x.mask

end Waiting

/-! ### A signal stop inside an emulation -/

namespace Tracer

variable {s : Tracer} {pid : Pid} {u : Turn}

theorem heldBack_eq (sig : ℤ) : heldBack sig = (handled sig && sig ≠ Signo.SIGTRAP) := by
  simp [heldBack, handled]

/-- A signal that comes to a busy tracee is held back or passed on. -/
theorem onSignal_busy (self : Tracer) (hbusy : self.emulated.busy pid = true)
    (hmode : self.seccompMode = false) (sig : ℤ) (t : Tracee) :
    self.onSignal pid sig t =
      if heldBack sig then
        { self with
          stashedSignal := Function.update self.stashedSignal pid (some sig) }.resumed t
            (self.resume pid none)
      else self.resumed t (self.resume pid (some sig)) := by
  have hpending : self.pendingExit pid = false := by
    unfold pendingExit
    rw [hmode]
    rfl
  unfold onSignal
  rw [hbusy, Bool.true_and]
  cases hheld : heldBack sig with
  | true => rfl
  | false =>
    have hill : sig ≠ Signo.SIGILL := by
      rintro rfl
      exact absurd hheld (by decide)
    rw [if_neg (by simp), if_neg hill, if_neg (by simp)]
    dsimp only
    rw [if_neg (by simp [hpending]), if_neg (by simp)]

/-- What a signal stop inside an emulation comes to: the tracee and the emulation are
left as they are, and `SIGTRAP` is the one signal that gets in. -/
structure SignalStop (s : Tracer) (pid : Pid) (sig : ℤ) (t : Tracee) (h : Handled) : Prop where
  tracee : h.tracee = t
  active : h.tracer.emulated.active pid = s.emulated.active pid
  flag : h.tracer.inSyscall pid = s.inSyscall pid
  held : h.tracer.stashedSignal pid = if heldBack sig then some sig else s.stashedSignal pid
  passed : (h.signalTo pid).filter handled = if sig = Signo.SIGTRAP then some sig else none

theorem onSignal_signalStop (self : Tracer) (hbusy : self.emulated.busy pid = true)
    (hmode : self.seccompMode = false) (sig : ℤ) (t : Tracee) :
    SignalStop self pid sig t (self.onSignal pid sig t) := by
  rw [onSignal_busy self hbusy hmode]
  cases hheld : heldBack sig with
  | true =>
    have hsig : sig ≠ Signo.SIGTRAP := by
      rintro rfl
      exact absurd hheld (by decide)
    rw [if_pos rfl]
    refine ⟨rfl, rfl, rfl, ?_, ?_⟩
    · rw [hheld, if_pos rfl]
      exact Function.update_self ..
    · rw [if_neg hsig]
      exact congrArg (Option.filter handled) (signalTo_resume _ _ t pid none)
  | false =>
    rw [if_neg (by simp)]
    refine ⟨rfl, rfl, rfl, by rw [hheld]; rfl, ?_⟩
    rw [signalTo_resume]
    by_cases hsig : sig = Signo.SIGTRAP
    · rw [hsig]
      rfl
    · rw [heldBack_eq] at hheld
      rw [if_neg hsig, Option.filter_eq_none_iff]
      simpa [hsig] using hheld

theorem onStopped_signalStop (self : Tracer) (hbusy : self.emulated.busy pid = true)
    (hmode : self.seccompMode = false) (sig : ℤ) (t : Tracee) :
    SignalStop self pid sig t (self.onStopped pid sig t) := by
  unfold onStopped
  dsimp only
  split_ifs with hnew hstop
  · -- A new tracee that stops to be configured is resumed without its `SIGSTOP`.
    obtain rfl := hstop
    exact ⟨rfl, rfl, rfl, rfl, congrArg (Option.filter handled) (signalTo_resume ..)⟩
  · have h := onSignal_signalStop
      { self with configured := Function.update self.configured pid true } hbusy hmode sig t
    exact ⟨h.tracee, h.active, h.flag, h.held, h.passed⟩
  · exact onSignal_signalStop self hbusy hmode sig t

theorem turn_signalStop (hmode : s.EverySyscall) (hbusy : s.emulated.busy pid = true) {sig : ℤ}
    (hu : u.wait = .stopped pid sig) : SignalStop s pid sig u.tracee (s.turn u) := by
  have hactive : (s.ticked u).emulated.active pid = s.emulated.active pid := by simp [ticked]
  have hbusy' : (s.ticked u).emulated.busy pid = true := by
    rw [Emulations.busy_iff, hactive, ← Emulations.busy_iff]
    exact hbusy
  have hturn : s.turn u = (s.ticked u).onStopped pid sig u.tracee := by
    unfold turn handle
    rw [hu]
  have h := onStopped_signalStop (s.ticked u) hbusy' hmode.seccompMode sig u.tracee
  rw [hturn]
  exact ⟨h.tracee, h.active.trans hactive, h.flag, h.held, h.passed⟩

end Tracer

/-! ### What a turn leaves of the call in progress -/

namespace Injected

variable {x : Injected} {pid : Pid} {regs : Regs} {flag : Option Bool} {s : Sequence} {step : Step}

/-- The call in progress is a matter of the tracer's record of the tracee. -/
theorem AtCall.of_tracer (h : AtCall pid regs flag x s step) {tracer : Tracer}
    (hmode : tracer.EverySyscall)
    (hactive : tracer.emulated.active pid = x.tracer.emulated.active pid)
    (hflag : tracer.inSyscall pid = x.tracer.inSyscall pid) :
    AtCall pid regs flag { x with tracer } s step :=
  ⟨hmode, hactive.trans h.active, hflag.trans h.flag, h.running, h.saved, h.gadget, h.atEntry,
    h.stops, h.call, h.sent⟩

theorem AtCall.busy (h : AtCall pid regs flag x s step) :
    x.tracer.emulated.busy pid = true := Emulations.busy_iff.2 ⟨_, h.active⟩

/-- A turn that is about another tracee leaves the call and the signal held as they are. -/
theorem AtCall.other (h : AtCall pid regs flag x s step) {u : Turn}
    (hu : u.wait.pid ≠ some pid) :
    AtCall pid regs flag { x with tracer := x.tracer.next u } s step ∧
      (x.tracer.next u).stashedSignal pid = x.tracer.stashedSignal pid := by
  have hslot := Tracer.next_slot_of_ne x.tracer u hu
  exact ⟨h.of_tracer (h.mode.next u) (congrArg Slot.active hslot) (congrArg Slot.inSyscall hslot),
    congrArg Slot.stashedSignal hslot⟩

/-- A stop is a turn of the tracer. -/
theorem tracer_of_stop {env : Env} {alarm : Bool} {t : Tracee} {inside : Bool} {x' : Injected}
    (h : x.stop pid env alarm t inside = some x') :
    x'.tracer = x.tracer.next ⟨env, alarm, .syscall pid, t⟩ := by
  unfold Injected.stop at h
  dsimp only at h
  split_ifs at h
  rw [← Option.some.inj h]

/-- The signal held is kept at a stop after which the emulation goes on, and passed on at
the one that ends it. -/
theorem stash_of_stop (hmode : x.tracer.EverySyscall) (hbusy : x.tracer.emulated.busy pid = true)
    (env : Env) (alarm : Bool) (t : Tracee) :
    let u : Turn := ⟨env, alarm, .syscall pid, t⟩
    ((x.tracer.next u).emulated.busy pid = true →
      (x.tracer.next u).stashedSignal pid = x.tracer.stashedSignal pid ∧
        (x.tracer.turn u).signalTo pid = none) ∧
    ((x.tracer.next u).emulated.busy pid = false →
      (x.tracer.turn u).signalTo pid = x.tracer.stashedSignal pid) := by
  intro u
  have h := Tracer.turn_holdStep hmode u pid
  rw [hbusy] at h
  generalize (x.tracer.next u).emulated.busy pid = b at h ⊢
  generalize (x.tracer.next u).stashedSignal pid = st at h ⊢
  generalize (x.tracer.turn u).signalTo pid = o at h ⊢
  change Tracer.HoldStep pid true b (x.tracer.stashedSignal pid) st (.syscall pid) o at h
  generalize x.tracer.stashedSignal pid = st' at h ⊢
  cases h with
  | other h => exact absurd rfl h
  | inside => exact ⟨fun _ => ⟨rfl, rfl⟩, fun hb => absurd hb (by simp)⟩
  | finish => exact ⟨fun hb => absurd hb (by simp), fun _ => rfl⟩

end Injected
end Tracing
end Sharun
