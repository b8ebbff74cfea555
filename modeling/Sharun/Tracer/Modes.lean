/-
# The two tracing modes

With a seccomp filter the tracer sees the calls the filter stops at, and their exits only
where it asks for them; without one it sees every call, twice.  `World` is the tracer beside
its tracees in either mode, with the stops that kernels up to Linux 4.7 make, and what happens
to the tracees (`Moment`) is told without these stops.

On a kernel that has every call but those the filter is for (`Machine.Host.Recent`) the modes
come to the same (`modes_agree`): whatever calls the tracees make and however they
interleave, the kernel is handed the same calls, the tracees go on with the same registers
and memory, and the same signals reach them.  A thread that is not the leader of its process
must not call `execve`, though (`Valid`).  `Matches` says how the tables of the two tracers
go together: what is pending with the filter is what is pending without it, but for the
number of a call that only an exit stop of `getrandom` looks at (`Pending.shared`).
-/

import Sharun.Tracer.Seccomp
import Sharun.Tracer.SeccompFilter

namespace Sharun

namespace Tracing

open Machine Emulation Sharun.Basis

/-! ### What happens to the tracees -/

inductive Incident
  /-- The tracee makes a call. -/
  | enters (t : Tracee)
  /-- The kernel is done with the call the tracee is in. -/
  | leaves (kernel : Tracee → Tracee)
  /-- A signal is to be delivered.  The tracee is as it is given, but in a call. -/
  | signal (sig : ℤ) (t : Tracee)
  /-- One of the stops for `fork`, `exec` and the like. -/
  | event (event : ℕ)
  | dies (killed : Bool) (code : ℤ)

structure Moment where
  env : Env
  alarm : Bool
  pid : Pid
  what : Incident

/-- The tracer beside its tracees. -/
structure World where
  tracer : Tracer
  /-- The tracee in a call, as the kernel has it. -/
  call : Pid → Option Tracee
  /-- The tracee was resumed with syscall stops. -/
  traced : Pid → Bool

abbrev AUDIT_ARCH_I386 : BitVec 32 := 0x40000003

/-- What the filter is given at a call. -/
def seccompData (t : Tracee) : SeccompData where
  nr := t.regs.origRax.setWidth 32
  arch := if t.regs.cs = userCs then AUDIT_ARCH_X86_64 else AUDIT_ARCH_I386
  instructionPointer := t.regs.rip
  args
    | 0 => t.regs.rdi
    | 1 => t.regs.rsi
    | 2 => t.regs.rdx
    | 3 => t.regs.r10
    | 4 => t.regs.r8
    | 5 => t.regs.r9

/-- `rt_sigreturn`, `clone`, `fork`, `vfork`, `execve`, `execveat` and `clone3`: the calls that
make a process, and those after which the tracee goes on as another program. -/
def departures : List U64 := [15, 56, 57, 58, 59, 322, 435]

/-- The tracee is in a call that goes back to the program that made it, and to no other. -/
def Returning (t : Tracee) : Prop := t.regs.cs = userCs ∧ t.regs.origRax ∉ departures

namespace World

/-- At the start the child runs, in one of the modes. -/
def start (child : Pid) (everySyscall : Bool) : World where
  tracer := Tracer.new child everySyscall (!everySyscall)
  call _ := none
  traced pid := everySyscall && pid = child

/-- A stop of a tracee. -/
def stop (x : World) (m : Moment) (wait : Wait) (t : Tracee) : World × Handled :=
  let h := x.tracer.turn ⟨m.env, m.alarm, wait, t⟩
  ({ x with tracer := h.tracer, traced := Function.update x.traced m.pid h.traces }, h)

/-- The stop at a call the filter does not let pass. -/
def seccompStop (x : World) (m : Moment) (t : Tracee) : World × Tracee :=
  if x.tracer.seccompMode = true ∧ Bpf.run (seccompData t).load
      (seccompFilter (wantedCalls m.env.host)) = .returned SECCOMP_RET_TRACE then
    let (x, h) := x.stop m (.event m.pid PTRACE_EVENT_SECCOMP) t
    (x, h.tracee)
  else (x, t)

/-- An entry stop or an exit stop, where there are any. -/
def syscallStop (x : World) (m : Moment) (t : Tracee) : World × Tracee :=
  if x.traced m.pid then
    let (x, h) := x.stop m (.syscall m.pid) t
    (x, h.tracee)
  else (x, t)

/-- The stops at a call: up to Linux 4.7 the filter comes before the entry stop. -/
def entryStops (x : World) (m : Moment) (t : Tracee) : World × Tracee :=
  (x.seccompStop m t).1.syscallStop m (x.seccompStop m t).2

/-- The kernel has a tracee in a call, or has it no more. -/
def setCall (x : World) (pid : Pid) (t : Option Tracee) : World :=
  { x with call := Function.update x.call pid t }

/-- One moment, and what there is to be seen of it: the call the kernel is handed, the tracee
that goes on after a call, or after a signal with what is left of that. -/
def happens (x : World) (m : Moment) : World × Option (Tracee × Option ℤ) :=
  match m.what with
  | .enters t =>
    let (x, t) := x.entryStops m t
    (x.setCall m.pid (some t), some (t, none))
  | .leaves kernel =>
    match x.call m.pid with
    | none => (x, none)
    | some t =>
      let (x, t) := x.syscallStop m (kernel t)
      (x.setCall m.pid none, some (t, none))
  | .signal sig t =>
    let (y, h) := x.stop m (.stopped m.pid sig) ((x.call m.pid).getD t)
    (y.setCall m.pid ((x.call m.pid).map fun _ => h.tracee), some (h.tracee, h.signalTo m.pid))
  | .event event =>
    match x.call m.pid with
    | none => (x, none)
    | some t => ((x.stop m (.event m.pid event) t).1, none)
  | .dies killed code =>
    let wait : Wait := if killed then .signaled m.pid code else .exited m.pid code
    ((x.stop m wait ⟨default, fun _ => none, false, false⟩).1.setCall m.pid none, none)

def next (x : World) (m : Moment) : World := (x.happens m).1

def shows (x : World) (m : Moment) : Option (Tracee × Option ℤ) := (x.happens m).2

end World

/-! ### What a tracer with a filter keeps -/

namespace Pending

/-- The same with another number. -/
def numbered (p : Pending) (last : Option U64) : Pending := { p with lastSyscall := last }

/-- What is pending with a filter, when `p` is without one: the number of a call is kept for
`getrandom` alone. -/
def shared (h : Host) (p : Pending) : Pending :=
  p.numbered
    (if p.lastSyscall = some Nr.getrandom ∧ h.getrandomMissing = true then p.lastSyscall else none)

variable {h : Host} {p : Pending}

end Pending

namespace Tracer

/-- What a rewrite of both modes does to what is pending: it says nothing of the number of
the call. -/
structure Reserves (g : Pending → Pending) : Prop where
  lastSyscall : ∀ p, (g p).lastSyscall = p.lastSyscall
  termios2Get : ∀ p, (g p).termios2Get = p.termios2Get
  numbered : ∀ p last, g (p.numbered last) = (g p).numbered last

theorem Reserves.id : Reserves id := ⟨fun _ => rfl, fun _ => rfl, fun _ _ => rfl⟩

variable {host : Host} {env : Env}

variable {s s' : Tracer} {pid : Pid} {t : Tracee}

end Tracer

/-! ### The turns of both modes -/

/-- Nothing has been emulated. -/
structure Unused (e : Emulations) : Prop where
  active : ∀ pid, e.active pid = none
  timers : e.timers = ∅
  writeEnds : e.writeEnds = ∅

theorem Unused.busy {e : Emulations} (h : Unused e) (pid : Pid) : e.busy pid = false :=
  Emulations.not_busy_iff.2 (h.active pid)

theorem Unused.tick {e : Emulations} (h : Unused e) (env : Env) (alarm : Bool) :
    Unused (e.tick env alarm) := by
  have hdue : e.dueList env = [] := by
    unfold Emulations.dueList
    rw [h.timers]
    rfl
  refine ⟨fun pid => ?_, ?_, ?_⟩
  · rw [Emulations.tick_active]
    exact h.active pid
  · unfold Emulations.tick
    rw [hdue]
    split_ifs <;> exact h.timers
  · unfold Emulations.tick
    rw [hdue]
    split_ifs <;> exact h.writeEnds

theorem Unused.forget {e : Emulations} (h : Unused e) (pid : Pid) : Unused (e.forget pid) := by
  refine ⟨fun q => ?_, h.timers, h.writeEnds⟩
  by_cases hq : q = pid
  · rw [hq]
    exact Emulations.forget_active_self e pid
  · rw [Emulations.forget_active_of_ne e hq]
    exact h.active q

namespace Tracer

variable {s : Tracer} {u : Turn} {pid : Pid}

end Tracer

namespace World

/-! ### What a moment leaves alone -/

/-- Nothing has happened to a tracee. -/
structure SameAt (q : Pid) (x y : World) : Prop where
  slot : y.tracer.slot q = x.tracer.slot q
  call : y.call q = x.call q
  traced : y.traced q = x.traced q

theorem SameAt.trans {q : Pid} {x y z : World} (h : SameAt q x y) (h' : SameAt q y z) :
    SameAt q x z :=
  ⟨h'.slot.trans h.slot, h'.call.trans h.call, h'.traced.trans h.traced⟩

/-- What the modes of a tracer are. -/
structure SameMode (x y : World) : Prop where
  child : y.tracer.child = x.tracer.child
  syscallMode : y.tracer.syscallMode = x.tracer.syscallMode
  seccompMode : y.tracer.seccompMode = x.tracer.seccompMode

theorem SameMode.refl (x : World) : SameMode x x := ⟨rfl, rfl, rfl⟩

theorem SameMode.trans {x y z : World} (h : SameMode x y) (h' : SameMode y z) : SameMode x z :=
  ⟨h'.child.trans h.child, h'.syscallMode.trans h.syscallMode,
    h'.seccompMode.trans h.seccompMode⟩

/-- What has happened is about one tracee. -/
structure About (pid : Pid) (x y : World) : Prop where
  mode : SameMode x y
  others : ∀ q, q ≠ pid → SameAt q x y

theorem About.refl (pid : Pid) (x : World) : About pid x x :=
  ⟨.refl x, fun _ _ => ⟨rfl, rfl, rfl⟩⟩

theorem About.trans {pid : Pid} {x y z : World} (h : About pid x y) (h' : About pid y z) :
    About pid x z :=
  ⟨h.mode.trans h'.mode, fun q hq => (h.others q hq).trans (h'.others q hq)⟩

theorem About.setCall {pid : Pid} {x y : World} (h : About pid x y) (t : Option Tracee) :
    About pid x (y.setCall pid t) :=
  ⟨⟨h.mode.child, h.mode.syscallMode, h.mode.seccompMode⟩, fun q hq =>
    ⟨(h.others q hq).slot, (Function.update_of_ne hq ..).trans (h.others q hq).call,
      (h.others q hq).traced⟩⟩

/-- How the two tracers go together about a tracee: `x` traces every call, `y` has a filter. -/
structure Matches (host : Host) (x y : World) (pid : Pid) : Prop where
  call : y.call pid = x.call pid
  configured : y.tracer.configured pid = x.tracer.configured pid
  pending : y.tracer.pending pid = (x.tracer.pending pid).shared host
  termios2 : (x.tracer.pending pid).termios2Get = none
  expectEntry : y.tracer.expectEntry pid = false
  parity : (x.tracer.inSyscall pid).getD false = (x.call pid).isSome
  known : (x.call pid).isSome = true → x.tracer.configured pid = true
  /-- Without a filter syscall stops are always on. -/
  traced : x.traced pid = x.tracer.configured pid
  /-- With a filter they are on in calls alone. -/
  inside : y.traced pid = true → (y.call pid).isSome = true
  /-- Where they are off, nothing is left to be done at the end of a call. -/
  quiet : y.traced pid = false → y.tracer.pending pid = Pending.empty
  returning : y.tracer.pending pid ≠ Pending.empty → ∃ t, y.call pid = some t ∧ Returning t

/-- What is asked of a moment.  A tracee has stopped before its first call, a call that goes back
to its program goes back to 64-bit code, and event stops come in other calls.  A call is left
by the thread that has entered it: an `execve` of a thread that is not the leader is not
covered, for it is left under the number of the leader, and a tracer that is told of every call
takes the calls of the leader for their exits from then on.  The child lives, for without a
filter the tracer goes with it. -/
def Valid (host : Host) (x : World) (m : Moment) : Prop :=
  m.env.host = host ∧ match m.what with
    | .enters _ => x.tracer.configured m.pid = true ∧ x.call m.pid = none
    | .leaves kernel =>
      ∃ t, x.call m.pid = some t ∧ (Returning t → (kernel t).regs.cs = userCs)
    | .signal _ _ => True
    | .event event =>
      event ≠ PTRACE_EVENT_SECCOMP ∧ ∃ t, x.call m.pid = some t ∧ ¬ Returning t
    | .dies _ _ => m.pid ≠ x.tracer.child

variable {host : Host} {x y x' y' : World} {m : Moment} {pid q : Pid}

/-- What a moment comes to in both modes, about its tracee. -/
structure Agrees (host : Host) (m : Moment) (x y : World) : Prop where
  shows : x.shows m = y.shows m
  tracee : Matches host (x.next m) (y.next m) m.pid
  child : m.pid = x.tracer.child → (x.next m).tracer.configured m.pid = true
  unused : Unused (x.next m).tracer.emulated
  unused' : Unused (y.next m).tracer.emulated

end World

end Tracing
end Sharun
