/-
# The loop of `Tracer::supervise`

One turn of the loop serves the emulated deadlines (`tick`), waits for a stop
(`wait_any`) and handles it (`handle`): the tables of the tracer and the registers
and memory of the stopped tracee change, and at most one `ptrace` request resumes
the tracee, with or without a signal.  A run of the tracer is the fold of `turn`
over the turns it makes; what a turn is given (the stop, the tracee as it is in
that stop, the kernel's answers) is the record `Turn`.
-/

import Sharun.Tracer.Rewrites

namespace Sharun
namespace Tracing

open Machine Emulation

abbrev PTRACE_EVENT_EXEC : ℕ := 4

abbrev PTRACE_EVENT_SECCOMP : ℕ := 7

/-- `Wait`, and the two kinds of error `wait_any` returns. -/
inductive Wait
  | exited (pid : Pid) (code : ℤ)
  | signaled (pid : Pid) (sig : ℤ)
  | stopped (pid : Pid) (sig : ℤ)
  | event (pid : Pid) (event : ℕ)
  | syscall (pid : Pid)
  /-- `ECHILD`: no tracee is left. -/
  | noChild
  /-- Any other error, `EINTR` among them. -/
  | interrupted
  deriving DecidableEq

/-- The tracee a wait result is about. -/
def Wait.pid : Wait → Option Pid
  | .exited pid _ => some pid
  | .signaled pid _ => some pid
  | .stopped pid _ => some pid
  | .event pid _ => some pid
  | .syscall pid => some pid
  | .noChild => none
  | .interrupted => none

/-- The decoding of a wait status in `wait_any`. -/
def Wait.ofStatus (pid : Pid) (s : ℕ) : Wait :=
  if s % 128 = 0 then .exited pid (s / 256 % 256 : ℕ)
  else if s % 256 = 127 then
    let sig := s / 256 % 256
    if sig / 128 % 2 = 1 then .syscall pid
    else if s / 65536 ≠ 0 then .event pid (s / 65536)
    else .stopped pid sig
  else .signaled pid (s % 128 : ℕ)

/-- `PTRACE_CONT` and `PTRACE_SYSCALL`. -/
inductive Request
  | cont
  | syscall
  deriving DecidableEq

/-- A `ptrace_resume`. -/
structure Resume where
  request : Request
  pid : Pid
  sig : Option ℤ
  deriving DecidableEq

/-- The signal a resume passes on, `0` for none. -/
def Resume.data (r : Resume) : ℤ := r.sig.getD 0

/-- What handling a stop comes to. -/
structure Handled where
  tracer : Tracer
  tracee : Tracee
  resumed : Option Resume
  /-- The process exits with this code. -/
  exits : Option ℤ

/-- `emulate_sigill`: an `XGETBV` is answered and skipped. -/
def emulateSigill (t : Tracee) : Tracee × Bool :=
  match t.getregs with
  | none => (t, false)
  | some regs =>
    match t.mem.peekWord regs.rip with
    | none => (t, false)
    | some word =>
      if word &&& 0xffffff ≠ 0xd0010f then (t, false)
      else match t.setregs { regs with rax := 0, rdx := 0, rip := regs.rip + 3 } with
        | none => (t, false)
        | some t => (t, true)

namespace Tracer

/-- `resume(pid, sig)`. -/
def resume (self : Tracer) (pid : Pid) (sig : Option ℤ) : Resume :=
  ⟨if self.syscallMode then .syscall else .cont, pid, sig⟩

/-- `resume_syscall(pid, sig)`. -/
def resumeSyscall (pid : Pid) (sig : Option ℤ) : Resume := ⟨.syscall, pid, sig⟩

/-- The tracee is resumed and the loop goes on. -/
def resumed (self : Tracer) (t : Tracee) (r : Resume) : Handled := ⟨self, t, some r, none⟩

/-- The arms for `Wait::Exited` and `Wait::Signaled`. -/
def onGone (self : Tracer) (pid : Pid) (t : Tracee) (code : ℤ) : Handled :=
  let self := self.forget pid
  if pid ≠ self.child then ⟨self, t, none, none⟩
  else if self.seccompMode then ⟨{ self with mainCode := some code }, t, none, none⟩
  else ⟨self, t, none, some code⟩

/-- A signal stop must hold a tracee back: its exit stop is still to come. -/
def pendingExit (self : Tracer) (pid : Pid) : Bool :=
  self.seccompMode && ((self.reserved pid).isSome || self.expectEntry pid ||
    (self.statx pid).isSome || (self.lastSyscall pid).isSome)

/-- The signals a tracee in an emulation is never spared: the arm of
`Wait::Stopped` holds back every other one. -/
def heldBack (sig : ℤ) : Bool := sig ≠ 0 && sig ≠ Signo.SIGSTOP && sig ≠ Signo.SIGTRAP

/-- The part of the arm for `Wait::Stopped` after a new tracee is configured. -/
def onSignal (self : Tracer) (pid : Pid) (sig : ℤ) (t : Tracee) : Handled :=
  if self.emulated.busy pid && heldBack sig then
    let self :=
      { self with stashedSignal := Function.update self.stashedSignal pid (some sig) }
    self.resumed t (self.resume pid none)
  else
    let (t, suppress) := if sig = Signo.SIGILL then emulateSigill t else (t, false)
    if self.pendingExit pid then
      self.resumed t (resumeSyscall pid (if suppress then none else some sig))
    else if suppress then self.resumed t (self.resume pid none)
    else self.resumed t (self.resume pid (some sig))

/-- The arm for `Wait::Stopped`: a newly traced child stops once to be configured. -/
def onStopped (self : Tracer) (pid : Pid) (sig : ℤ) (t : Tracee) : Handled :=
  if pid ≠ self.child ∧ !self.configured pid then
    let self := { self with configured := Function.update self.configured pid true }
    if sig = Signo.SIGSTOP then self.resumed t (self.resume pid none) else self.onSignal pid sig t
  else self.onSignal pid sig t

/-- The arm for a `PTRACE_EVENT_SECCOMP` stop. -/
def onSeccompEvent (env : Env) (self : Tracer) (pid : Pid) (t : Tracee) : Handled :=
  match self.onSeccompStop env pid t with
  | (self, t, true) =>
    let self := { self with expectEntry := Function.update self.expectEntry pid true }
    self.resumed t (resumeSyscall pid none)
  | (self, t, false) => self.resumed t (self.resume pid none)

/-- The arm for `Wait::Syscall` in seccomp mode. -/
def onSeccompSyscall (env : Env) (self : Tracer) (pid : Pid) (t : Tracee) : Handled :=
  if self.expectEntry pid then
    let self := { self with expectEntry := Function.update self.expectEntry pid false }
    self.resumed t (resumeSyscall pid none)
  else
    let (self, t) := self.onSyscallExit env pid t
    self.resumed t (self.resume pid none)

/-- A stop inside an emulation; at its end the held signal is delivered. -/
def onEmulated (env : Env) (self : Tracer) (pid : Pid) (t : Tracee) : Handled :=
  let (emulated, t) := self.emulated.step env pid t
  let self := { self with emulated }
  if self.emulated.busy pid then self.resumed t (self.resume pid none)
  else match self.stashedSignal pid with
    | some sig =>
      let self := { self with stashedSignal := Function.update self.stashedSignal pid none }
      self.resumed t (self.resume pid (some sig))
    | none => self.resumed t (self.resume pid none)

/-- The arm for `Wait::Syscall` when every call is traced. -/
def onTracedSyscall (env : Env) (self : Tracer) (pid : Pid) (t : Tracee) : Handled :=
  if self.emulated.busy pid then self.onEmulated env pid t
  else
    match self.emulated.begin env pid t (self.entering pid) with
    | (emulated, t, true) =>
      let self := { self with emulated }
      self.resumed t (self.resume pid none)
    | (emulated, t, false) =>
      let (self, t) := { self with emulated }.onSyscallStop env pid t
      self.resumed t (self.resume pid none)

/-- The `match wait_any()` of `supervise`. -/
def handle (env : Env) (self : Tracer) (wait : Wait) (t : Tracee) : Handled :=
  match wait with
  | .exited pid code => self.onGone pid t code
  | .signaled pid sig => self.onGone pid t (128 + sig)
  | .stopped pid sig => self.onStopped pid sig t
  | .event pid event =>
    if event = PTRACE_EVENT_SECCOMP then self.onSeccompEvent env pid t
    else self.resumed t (self.resume pid none)
  | .syscall pid =>
    if self.seccompMode then self.onSeccompSyscall env pid t else self.onTracedSyscall env pid t
  | .noChild => ⟨self, t, none, some (self.mainCode.getD 0)⟩
  | .interrupted => ⟨self, t, none, none⟩

end Tracer

/-- What one turn of the loop is given. -/
structure Turn where
  env : Env
  /-- `ALARM` was set when `tick` looked. -/
  alarm : Bool
  wait : Wait
  /-- The tracee the wait result is about, as it is in its stop. -/
  tracee : Tracee

namespace Tracer

/-- The tracer after the `tick` that begins a turn. -/
def ticked (self : Tracer) (u : Turn) : Tracer :=
  { self with emulated := self.emulated.tick u.env u.alarm }

/-- One turn of the loop. -/
def turn (self : Tracer) (u : Turn) : Handled := (self.ticked u).handle u.env u.wait u.tracee

/-- The tracer after a turn. -/
def next (self : Tracer) (u : Turn) : Tracer := (self.turn u).tracer

end Tracer

end Tracing
end Sharun
