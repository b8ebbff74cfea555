/-
# Filtered calls: the exit stop that belongs to them

In seccomp mode a tracee runs without syscall stops until a call of the filter
stops it.  When the exit stop is needed the tracer asks for syscall stops
(`PTRACE_SYSCALL`) and remembers that it owes an entry stop (`expect_entry`): up to
Linux 4.7 a seccomp stop comes before the entry stop of its call, from 4.8 on it
comes after it, and the next stop is the exit stop (`ReportOrder`).

`Phase` is where a tracee is between two stops, and `Watched` runs the tracer
beside it.  With the order up to 4.7 every exit stop of a filtered call is handled,
no other stop is, and nothing is pending while the application runs
(`exit_handled_once`); with the other order the exit stop is taken for the owed
entry (`exit_stop_skipped`).
-/

import Sharun.Tracer.Registers

namespace Sharun
namespace Tracing

open Machine Emulation Sharun.Basis

/-- When a kernel reports a filtered call that is resumed with `PTRACE_SYSCALL`. -/
inductive ReportOrder
  /-- Up to 4.7: an entry stop, then the exit stop. -/
  | entryFirst
  /-- From 4.8 on: the exit stop. -/
  | exitOnly
  deriving DecidableEq

/-- Where a tracee is between two stops. -/
inductive Phase
  /-- It has not been stopped yet. -/
  | fresh
  /-- In the application's code, or in a call of no interest. -/
  | user
  /-- In the application's code, with syscall stops on. -/
  | traced
  /-- In a call whose entry stop was reported with syscall stops on. -/
  | entered
  /-- In a filtered call whose entry stop and exit stop are to come. -/
  | awaitEntry
  /-- In a filtered call whose exit stop is to come. -/
  | awaitExit
  deriving DecidableEq

/-- The phase after a stop, from whether the tracee is resumed with syscall stops. -/
def Phase.next (order : ReportOrder) (traces : Bool) (stop : Stop) (phase : Phase) : Phase :=
  if traces = false then .user
  else match stop with
  | .event _ e =>
    if e = PTRACE_EVENT_SECCOMP then
      match order with
      | .entryFirst => .awaitEntry
      | .exitOnly => .awaitExit
    else if phase = .entered then .entered
    else .traced
  | .entry _ => if phase = .awaitEntry then .awaitExit else .entered
  | .signal _ _ =>
    if phase = .awaitEntry ∨ phase = .awaitExit ∨ phase = .entered then phase else .traced
  | _ => .traced

/-- The tracee is resumed with syscall stops. -/
def Handled.traces (h : Handled) : Bool := h.resumed.any (·.request = .syscall)

namespace Tracer

/-- Something is pending for a tracee. -/
def Pends (s : Tracer) (pid : Pid) : Prop :=
  s.pending pid ≠ Pending.empty ∨ s.expectEntry pid = true

/-- In seccomp mode nothing else is pending than what a signal stop looks for. -/
theorem pendingExit_iff {s : Tracer} (hmode : s.Filtering) {pid : Pid}
    (h : s.termios2Get pid = none) : s.pendingExit pid = true ↔ s.Pends pid := by
  unfold pendingExit Pends pending
  rw [hmode.seccompMode, h, Bool.true_and]
  cases s.reserved pid <;> cases s.statx pid <;> cases s.lastSyscall pid <;>
    simp [Pending.empty]

/-- A signal stop of a tracee that is in no emulation and, where something is pending
for it, is not new: the tracer keeps what is pending, and keeps the syscall stops on
exactly when something is. -/
theorem turn_stopped {s : Tracer} (hmode : s.Filtering) {pid : Pid} {sig : ℤ} {u : Turn}
    (hu : u.wait = .stopped pid sig) (hidle : s.emulated.active pid = none)
    (hold : pid = s.child ∨ s.configured pid = true ∨ s.pendingExit pid = false) :
    (s.next u).pending pid = s.pending pid ∧ (s.next u).expectEntry pid = s.expectEntry pid ∧
      (s.next u).emulated.active pid = none ∧
      (pid = s.child ∨ (s.next u).configured pid = true) ∧
      (s.turn u).traces = s.pendingExit pid := by
  have hbusy : (s.ticked u).emulated.busy pid = false := by
    rw [Emulations.not_busy_iff]
    simpa [ticked] using hidle
  have hactive : (s.ticked u).emulated.active pid = none := by simpa [ticked] using hidle
  have hsignal : ∀ s' : Tracer, s'.emulated = (s.ticked u).emulated →
      s'.syscallMode = false → s'.pendingExit pid = s.pendingExit pid →
      ∃ t r, s'.onSignal pid sig u.tracee = s'.resumed t r ∧
        decide (r.request = .syscall) = s.pendingExit pid := by
    intro s' he hs hp
    unfold onSignal
    rw [he, hbusy, Bool.false_and, if_neg (by simp)]
    generalize (if sig = Signo.SIGILL then emulateSigill u.tracee else (u.tracee, false)) = q
    obtain ⟨t, suppress⟩ := q
    dsimp only
    rw [hp]
    split_ifs with h₁ h₂ h₃
    · exact ⟨t, _, rfl, by simp [resumeSyscall, h₁]⟩
    · exact ⟨t, _, rfl, by simp [resumeSyscall, h₁]⟩
    · exact ⟨t, _, rfl, by simp [resume, hs, h₁]⟩
    · exact ⟨t, _, rfl, by simp [resume, hs, h₁]⟩
  have hturn : s.turn u = (s.ticked u).onStopped pid sig u.tracee := by
    unfold turn handle
    rw [hu]
  unfold next
  rw [hturn]
  unfold onStopped
  dsimp only
  split_ifs with hnew hstop
  · have hpends : s.pendingExit pid = false := by
      rcases hold with h | h | h
      · exact absurd h hnew.1
      · exact absurd hnew.2 (by simp [ticked, h])
      · exact h
    refine ⟨rfl, rfl, hactive, Or.inr (Function.update_self ..), ?_⟩
    simp [Handled.traces, resumed, resume, ticked, hmode.syscallMode, hpends]
  · obtain ⟨t, r, heq, hr⟩ := hsignal { s.ticked u with
      configured := Function.update (s.ticked u).configured pid true } rfl hmode.syscallMode rfl
    rw [heq]
    exact ⟨rfl, rfl, hactive, Or.inr (Function.update_self ..), hr⟩
  · obtain ⟨t, r, heq, hr⟩ := hsignal (s.ticked u) rfl hmode.syscallMode rfl
    rw [heq]
    refine ⟨rfl, rfl, hactive, ?_, hr⟩
    by_cases hchild : pid = s.child
    · exact Or.inl hchild
    · refine Or.inr ?_
      by_contra hconf
      exact hnew ⟨hchild, by simpa using hconf⟩

/-- The other event stops of a tracee in no filtered call. -/
theorem turn_event {s : Tracer} (hmode : s.Filtering) {pid : Pid} {e : ℕ} {u : Turn}
    (hu : u.wait = .event pid e) (he : e ≠ PTRACE_EVENT_SECCOMP) :
    s.turn u = (s.ticked u).resumed u.tracee ⟨.cont, pid, none⟩ := by
  unfold turn handle
  rw [hu]
  dsimp only
  rw [if_neg he]
  simp [resume, ticked, hmode.syscallMode]

end Tracer

/-- The tracer beside the phases of its tracees, with what was pending for a tracee
right after its last seccomp stop. -/
structure Watched where
  tracer : Tracer
  phase : Pid → Phase
  made : Pid → Pending

namespace Watched

/-- At the start the child runs and no other tracee has been stopped yet. -/
def start (child : Pid) : Watched where
  tracer := Tracer.new child false true
  phase pid := if pid = child then .user else .fresh
  made _ := Pending.empty

/-- One turn: the tracer's, and where the stopped tracee goes from there. -/
def step (order : ReportOrder) (x : Watched) (k : KernelTurn) : Watched :=
  let h := x.tracer.turn k.turn
  let go (pid : Pid) : Pid → Phase :=
    Function.update x.phase pid (Phase.next order h.traces k.stop (x.phase pid))
  match k.stop with
  | .entry pid | .exit pid | .signal pid _ => { x with tracer := h.tracer, phase := go pid }
  | .event pid e =>
    { tracer := h.tracer
      phase := go pid
      made :=
        if e = PTRACE_EVENT_SECCOMP then
          Function.update x.made pid (h.tracer.pending pid)
        else x.made }
  | .threadExec leader thread =>
    { x with tracer := h.tracer, phase := Function.update (go leader) thread .fresh }
  | .exited pid _ | .signaled pid _ =>
    { x with tracer := h.tracer, phase := Function.update x.phase pid .fresh }
  | .noChild | .interrupted => { x with tracer := h.tracer }

/-- The stops the kernel can make.  The filter lets only calls of 64-bit code stop, so
that is what their exit stops show; no filtered call starts a process, and none execs. -/
def Reports (order : ReportOrder) (x : Watched) (k : KernelTurn) : Prop :=
  match k.stop with
  | .entry pid => x.phase pid = .awaitEntry ∨ x.phase pid = .traced
  | .exit pid => x.phase pid = .awaitExit ∧ ¬ Short k.tracee ∨ x.phase pid = .entered
  | .event pid e =>
    if e = PTRACE_EVENT_SECCOMP then
      x.phase pid = .user ∨ order = .entryFirst ∧ x.phase pid = .traced ∨
        order = .exitOnly ∧ x.phase pid = .entered
    else x.phase pid = .user ∨ x.phase pid = .traced ∨ x.phase pid = .entered
  | .threadExec leader thread => leader ≠ thread ∧ x.phase leader ≠ .fresh ∧
      (x.phase thread = .user ∨ x.phase thread = .traced ∨ x.phase thread = .entered)
  | _ => True

/-- What the exit stop of a filtered call comes to: what is pending was made at the
seccomp stop of the same call; it is applied, the reserved stack pointer put back, and
nothing is left. -/
structure Completes (x : Watched) (k : KernelTurn) (pid : Pid) : Prop where
  made : x.tracer.pending pid = x.made pid
  applied : (x.tracer.turn k.turn).tracee =
    ((x.tracer.ticked k.turn).exitStop k.env pid k.tracee k.tracee.regs).commit
  rsp : ∀ v, x.tracer.reserved pid = some v → (x.tracer.turn k.turn).tracee.regs.rsp = v
  clear : ¬ (x.tracer.next k.turn).Pends pid

/-- A turn is as it should be: nothing is pending for a tracee that runs the
application's code; one for which something is pending afterwards is resumed with
syscall stops; a stop is taken for an exit stop exactly when it is one, and then the call
is completed. -/
structure Right (x : Watched) (k : KernelTurn) : Prop where
  user : ∀ pid, x.phase pid = .user ∨ x.phase pid = .traced → ¬ x.tracer.Pends pid
  resume : ∀ r, (x.tracer.turn k.turn).resumed = some r → (x.tracer.next k.turn).Pends r.pid →
    r.request = .syscall
  entry : ∀ pid, k.stop = .entry pid → x.tracer.expectEntry pid = true
  exit : ∀ pid, k.stop = .exit pid → x.tracer.expectEntry pid = false ∧ x.Completes k pid

/-- The tracee can be reached at its exit stops, and no thread execs while its group's
leader is in a filtered call. -/
def Regular (x : Watched) (k : KernelTurn) : Prop :=
  match k.stop with
  | .exit _ => k.tracee.canGet = true ∧ k.tracee.canSet = true
  | .threadExec leader _ => x.phase leader ≠ .awaitEntry ∧ x.phase leader ≠ .awaitExit
  | _ => True

/-- The tracer agrees with the kernel about a tracee. -/
structure Agrees (x : Watched) (pid : Pid) : Prop where
  idle : x.tracer.emulated.active pid = none
  termios2 : x.tracer.termios2Get pid = none
  old : x.phase pid ≠ .fresh → pid = x.tracer.child ∨ x.tracer.configured pid = true
  clear : x.phase pid = .fresh ∨ x.phase pid = .user → ¬ x.tracer.Pends pid
  owed : x.phase pid = .awaitEntry →
    x.tracer.expectEntry pid = true ∧ x.tracer.pending pid = x.made pid
  due : x.phase pid = .awaitExit →
    x.tracer.expectEntry pid = false ∧ x.tracer.pending pid = x.made pid
  /-- The tracer never leaves syscall stops on. -/
  untraced : x.phase pid ≠ .traced ∧ x.phase pid ≠ .entered

theorem start_agrees (child pid : Pid) : (start child).Agrees pid where
  idle := rfl
  termios2 := rfl
  old h := by
    by_cases hp : pid = child
    · exact Or.inl hp
    · exact absurd (by simp [start, hp]) h
  clear _ := by simp [start, Tracer.Pends, Tracer.pending, Tracer.new, Pending.empty]
  owed h := by
    by_cases hp : pid = child <;> exact absurd h (by simp [start, hp])
  due h := by
    by_cases hp : pid = child <;> exact absurd h (by simp [start, hp])
  untraced := by
    by_cases hp : pid = child <;> simp [start, hp]

@[simp] theorem step_tracer (order : ReportOrder) (x : Watched) (k : KernelTurn) :
    (x.step order k).tracer = x.tracer.next k.turn := by
  unfold step
  cases k.stop <;> rfl

/-- A turn in which nothing happens to a tracee keeps the agreement about it. -/
theorem Agrees.same {x y : Watched} {pid : Pid} (h : x.Agrees pid)
    (hchild : y.tracer.child = x.tracer.child) (hslot : y.tracer.slot pid = x.tracer.slot pid)
    (hphase : y.phase pid = x.phase pid) (hmade : y.made pid = x.made pid) : y.Agrees pid := by
  have hpending : y.tracer.pending pid = x.tracer.pending pid := congrArg Slot.pending hslot
  have hexpect : y.tracer.expectEntry pid = x.tracer.expectEntry pid :=
    congrArg Slot.expectEntry hslot
  have hconf : y.tracer.configured pid = x.tracer.configured pid := congrArg Slot.configured hslot
  have hpends : y.tracer.Pends pid ↔ x.tracer.Pends pid := by
    unfold Tracer.Pends
    rw [hpending, hexpect]
  exact
    { idle := (congrArg Slot.active hslot).trans h.idle
      termios2 := (congrArg Pending.termios2Get hpending).trans h.termios2
      old := by rw [hphase, hchild, hconf]; exact h.old
      clear := by rw [hphase, hpends]; exact h.clear
      owed := by rw [hphase, hexpect, hpending, hmade]; exact h.owed
      due := by rw [hphase, hexpect, hpending, hmade]; exact h.due
      untraced := by rw [hphase]; exact h.untraced }

/-- The agreement about a tracee for which nothing is pending. -/
theorem Agrees.of_clear {x : Watched} {pid : Pid} (hidle : x.tracer.emulated.active pid = none)
    (hclear : ¬ x.tracer.Pends pid)
    (hphase : x.phase pid = .fresh ∨ x.phase pid = .user ∧
      (pid = x.tracer.child ∨ x.tracer.configured pid = true)) : x.Agrees pid where
  idle := hidle
  termios2 := by
    have hempty : x.tracer.pending pid = Pending.empty := by
      by_contra h
      exact hclear (Or.inl h)
    exact congrArg Pending.termios2Get hempty
  old h := (hphase.resolve_left h).2
  clear _ := hclear
  owed h := by rcases hphase with hp | ⟨hp, -⟩ <;> exact absurd (hp.symm.trans h) (by simp)
  due h := by rcases hphase with hp | ⟨hp, -⟩ <;> exact absurd (hp.symm.trans h) (by simp)
  untraced := by rcases hphase with hp | ⟨hp, -⟩ <;> simp [hp]

/-- What a stop of a tracee comes to: it is resumed with syscall stops where something
is pending for it, and the agreement about it is kept. -/
def Handles (order : ReportOrder) (x : Watched) (k : KernelTurn) (pid : Pid) : Prop :=
  (∀ r, (x.tracer.turn k.turn).resumed = some r → (x.tracer.next k.turn).Pends r.pid →
    r.request = .syscall) ∧ (x.step order k).Agrees pid

variable {x : Watched} {k : KernelTurn} {pid : Pid}

/-- The phase of the stopped tracee. -/
theorem step_phase (order : ReportOrder) (x : Watched) {k : KernelTurn} {pid : Pid}
    (h : k.stop = .entry pid ∨ k.stop = .exit pid ∨ (∃ sig, k.stop = .signal pid sig) ∨
      ∃ e, k.stop = .event pid e) :
    (x.step order k).phase pid =
      Phase.next order (x.tracer.turn k.turn).traces k.stop (x.phase pid) := by
  unfold step
  rcases h with h | h | ⟨sig, h⟩ | ⟨e, h⟩ <;> rw [h] <;> exact Function.update_self ..

/-- What was pending after the last seccomp stop stays in mind at other stops. -/
theorem step_made (order : ReportOrder) (x : Watched) {k : KernelTurn}
    (h : ∀ pid, k.stop ≠ .event pid PTRACE_EVENT_SECCOMP) :
    (x.step order k).made = x.made := by
  unfold step
  cases hstop : k.stop with
  | event pid e =>
    have he : e ≠ PTRACE_EVENT_SECCOMP := by
      rintro rfl
      exact h pid hstop
    exact if_neg he
  | _ => rfl

theorem Agrees.entry (hmode : x.tracer.Filtering) (h : x.Agrees pid) (hstop : k.stop = .entry pid)
    (hphase : x.phase pid = .awaitEntry) : x.Handles .entryFirst k pid := by
  obtain ⟨hexpect, hmade⟩ := h.owed hphase
  have hwait : k.turn.wait = .syscall pid := by rw [KernelTurn.turn, hstop]; rfl
  have hturn := Tracer.turn_owed hmode hwait hexpect
  have hnext := congrArg Handled.tracer hturn
  refine ⟨fun r hr _ => ?_, ?_⟩
  · rw [hturn] at hr
    obtain rfl := Option.some.inj hr
    rfl
  have hgoes : (x.step .entryFirst k).phase pid = .awaitExit := by
    rw [step_phase _ x (Or.inl hstop), hturn, hstop, hphase]
    rfl
  have htracer := (step_tracer .entryFirst x k).trans hnext
  have hkept := step_made .entryFirst x (k := k) (by simp [hstop])
  have hold := h.old (by simp [hphase])
  rw [Tracer.resumed_tracer] at htracer
  refine ⟨?_, ?_, fun _ => ?_, ?_, ?_, fun _ => ?_, ?_⟩
  · rw [htracer]
    simpa [Tracer.ticked] using h.idle
  · rw [htracer]
    exact h.termios2
  · rw [htracer]
    exact hold
  · simp [hgoes]
  · simp [hgoes]
  · rw [htracer, hkept]
    exact ⟨Function.update_self .., hmade⟩
  · simp [hgoes]

theorem Agrees.exit (hmode : x.tracer.Filtering) (h : x.Agrees pid) (hstop : k.stop = .exit pid)
    (hphase : x.phase pid = .awaitExit) (hlong : ¬ Short k.tracee)
    (hget : k.tracee.canGet = true) (hset : k.tracee.canSet = true) :
    x.Completes k pid ∧ x.Handles .entryFirst k pid := by
  obtain ⟨hexpect, hmade⟩ := h.due hphase
  have hwait : k.turn.wait = .syscall pid := by rw [KernelTurn.turn, hstop]; rfl
  have hregs : k.tracee.getregs = some k.tracee.regs := Tracee.getregs_eq_some.2 ⟨hget, rfl⟩
  have hcs : k.tracee.regs.cs = userCs := by
    by_contra hcs
    exact hlong ⟨_, hregs, hcs⟩
  have hexit : (x.tracer.ticked k.turn).onSyscallExit k.env pid k.tracee =
      ((x.tracer.ticked k.turn).clearPending pid,
        ((x.tracer.ticked k.turn).exitStop k.env pid k.tracee k.tracee.regs).commit) := by
    unfold Tracer.onSyscallExit
    rw [hregs]
    exact if_neg (not_not.2 hcs)
  have hturn := Tracer.turn_unowed hmode hwait hexpect
  rw [show k.turn.env = k.env from rfl, show k.turn.tracee = k.tracee from rfl, hexit] at hturn
  have hnext : x.tracer.next k.turn = (x.tracer.ticked k.turn).clearPending pid :=
    congrArg Handled.tracer hturn
  have hclear : ¬ (x.tracer.next k.turn).Pends pid := by
    rw [hnext]
    have hexpect' : (x.tracer.ticked k.turn).expectEntry pid = false := hexpect
    rintro (hp | hp)
    · rw [Tracer.clearPending_eq, Tracer.pending_setPending] at hp
      exact hp rfl
    · exact absurd hp (by simp [Tracer.clearPending, hexpect'])
  refine ⟨⟨hmade, congrArg Handled.tracee hturn, fun v hv => ?_, hclear⟩, fun r hr hp => ?_, ?_⟩
  · obtain ⟨-, hback, -⟩ := Tracer.onSyscallExit_regs k.env (x.tracer.ticked k.turn) pid k.tracee
    have hrsp := hback ⟨hget, hset, hcs⟩
    rw [hexit, show (x.tracer.ticked k.turn).reserved pid = some v from hv] at hrsp
    rw [hturn]
    exact hrsp
  · rw [hturn] at hr
    obtain rfl := Option.some.inj hr
    exact absurd hp hclear
  · refine .of_clear ?_ ?_ (Or.inr ⟨?_, ?_⟩)
    · rw [step_tracer, hnext]
      simpa [Tracer.ticked, Tracer.clearPending] using h.idle
    · rw [step_tracer]
      exact hclear
    · rw [step_phase _ x (Or.inr (Or.inl hstop)), hturn]
      rfl
    · rw [step_tracer, hnext]
      exact h.old (by simp [hphase])

theorem Agrees.signal (hmode : x.tracer.Filtering) (h : x.Agrees pid) {sig : ℤ}
    (hstop : k.stop = .signal pid sig) : x.Handles .entryFirst k pid := by
  have hwait : k.turn.wait = .stopped pid sig := by rw [KernelTurn.turn, hstop]; rfl
  have hiff := Tracer.pendingExit_iff hmode h.termios2
  have hstart : pid = x.tracer.child ∨ x.tracer.configured pid = true ∨
      x.tracer.pendingExit pid = false := by
    by_cases hfresh : x.phase pid = .fresh
    · refine Or.inr (Or.inr ?_)
      have hclear := h.clear (Or.inl hfresh)
      rw [← hiff] at hclear
      simpa using hclear
    · rcases h.old hfresh with hc | hc
      · exact Or.inl hc
      · exact Or.inr (Or.inl hc)
  obtain ⟨hpending, hexpect, hactive, hold, htraces⟩ :=
    Tracer.turn_stopped hmode hwait h.idle hstart
  have hpends : (x.tracer.next k.turn).Pends pid ↔ x.tracer.Pends pid := by
    unfold Tracer.Pends
    rw [hpending, hexpect]
  refine ⟨fun r hr hp => ?_, ?_⟩
  · have hpid : r.pid = pid := by
      have := Tracer.handle_resumed_pid k.env (x.tracer.ticked k.turn) k.turn.wait k.tracee hr
      rw [hwait] at this
      exact (Option.some.inj this).symm
    rw [hpid, hpends, ← hiff, ← htraces] at hp
    simpa [Handled.traces, hr] using hp
  have hphase := step_phase .entryFirst x (k := k) (Or.inr (Or.inr (Or.inl ⟨sig, hstop⟩)))
  rw [htraces, hstop] at hphase
  have hkept := step_made .entryFirst x (k := k) (by simp [hstop])
  by_cases hp : x.tracer.Pends pid
  · have hpe : x.tracer.pendingExit pid = true := hiff.2 hp
    rw [hpe] at hphase
    have hwaits : x.phase pid = .awaitEntry ∨ x.phase pid = .awaitExit := by
      have hnot : ¬ (x.phase pid = .fresh ∨ x.phase pid = .user) := fun hc => h.clear hc hp
      have := h.untraced
      cases hx : x.phase pid <;> simp [hx] at hnot this ⊢
    have hsame : (x.step .entryFirst k).phase pid = x.phase pid := by
      rw [hphase]
      rcases hwaits with hx | hx <;> rw [hx] <;> rfl
    refine ⟨?_, ?_, fun _ => ?_, fun hc => ?_, fun hc => ?_, fun hc => ?_, ?_⟩
    · rw [step_tracer]; exact hactive
    · rw [step_tracer]
      exact (congrArg Pending.termios2Get hpending).trans h.termios2
    · rw [step_tracer, (Tracer.next_modes x.tracer k.turn).1]; exact hold
    · rw [hsame] at hc
      exact absurd hp (h.clear hc)
    · rw [hsame] at hc
      rw [step_tracer, hkept, hexpect, hpending]
      exact h.owed hc
    · rw [hsame] at hc
      rw [step_tracer, hkept, hexpect, hpending]
      exact h.due hc
    · rw [hsame]; exact h.untraced
  · have hpe : x.tracer.pendingExit pid = false := by
      rw [← Bool.not_eq_true, hiff]
      exact hp
    rw [hpe] at hphase
    refine .of_clear ?_ ?_ (Or.inr ⟨hphase, ?_⟩)
    · rw [step_tracer]; exact hactive
    · rw [step_tracer, hpends]; exact hp
    · rw [step_tracer, (Tracer.next_modes x.tracer k.turn).1]; exact hold

theorem Agrees.seccomp (hmode : x.tracer.Filtering) (h : x.Agrees pid)
    (hstop : k.stop = .event pid PTRACE_EVENT_SECCOMP) (hphase : x.phase pid = .user) :
    x.Handles .entryFirst k pid := by
  have hwait : k.turn.wait = .event pid PTRACE_EVENT_SECCOMP := by rw [KernelTurn.turn, hstop]; rfl
  have hclear := h.clear (Or.inr hphase)
  have hold := h.old (by simp [hphase])
  have hgoes := step_phase .entryFirst x (k := k) (Or.inr (Or.inr (Or.inr ⟨_, hstop⟩)))
  obtain ⟨p, t', needsExit, heq, hp, htermios⟩ :=
    Tracer.onSeccompStop_eq k.turn.env (x.tracer.ticked k.turn) pid k.turn.tracee
  obtain ⟨-, ⟨hneeds, hask, hnext⟩ | ⟨hneeds, hcont, hnext⟩⟩ := Tracer.turn_seccomp hmode hwait
  · rw [heq] at hnext
    refine ⟨fun r hr _ => ?_, ?_⟩
    · rw [hask] at hr
      obtain rfl := Option.some.inj hr
      rfl
    have hawait : (x.step .entryFirst k).phase pid = .awaitEntry := by
      rw [hgoes, hstop, Handled.traces, hask]
      rfl
    have hmade : (x.step .entryFirst k).made pid = (x.tracer.next k.turn).pending pid := by
      unfold step
      rw [hstop]
      exact Function.update_self ..
    refine ⟨?_, ?_, fun _ => ?_, ?_, fun _ => ?_, ?_, ?_⟩
    · rw [step_tracer, hnext]
      simpa [Tracer.ticked, Tracer.setPending] using h.idle
    · rw [step_tracer, hnext]
      have hp' : p.termios2Get = none := htermios.trans h.termios2
      exact (congrArg Pending.termios2Get (Tracer.pending_setPending _ pid p)).trans hp'
    · rw [step_tracer, hnext]
      exact hold
    · simp [hawait]
    · rw [step_tracer, hmade]
      refine ⟨?_, rfl⟩
      rw [hnext]
      exact Function.update_self ..
    · simp [hawait]
    · simp [hawait]
  · rw [heq] at hnext hneeds
    have hsame : x.tracer.next k.turn = x.tracer.ticked k.turn := by
      rw [hnext, hp hneeds]
      exact Tracer.setPending_pending _ pid
    refine ⟨fun r hr hpends => ?_, .of_clear ?_ ?_ (Or.inr ⟨?_, ?_⟩)⟩
    · rw [hcont] at hr
      obtain rfl := Option.some.inj hr
      rw [hsame] at hpends
      exact absurd hpends hclear
    · rw [step_tracer, hsame]
      simpa [Tracer.ticked] using h.idle
    · rw [step_tracer, hsame]
      exact hclear
    · rw [hgoes, hstop, Handled.traces, hcont]
      rfl
    · rw [step_tracer, hsame]
      exact hold

/-- An event stop that is no seccomp stop, of a tracee for which nothing is pending. -/
theorem Agrees.event (hmode : x.tracer.Filtering) (h : x.Agrees pid) {e : ℕ}
    (hwait : k.turn.wait = .event pid e) (he : e ≠ PTRACE_EVENT_SECCOMP)
    (hphase : x.phase pid = .user)
    (hgoes : (x.step .entryFirst k).phase pid = Phase.next .entryFirst
      (x.tracer.turn k.turn).traces k.stop (x.phase pid)) : x.Handles .entryFirst k pid := by
  have hturn := Tracer.turn_event hmode hwait he
  have hclear := h.clear (Or.inr hphase)
  have hnext : x.tracer.next k.turn = x.tracer.ticked k.turn := congrArg Handled.tracer hturn
  refine ⟨fun r hr hpends => ?_, .of_clear ?_ ?_ (Or.inr ⟨?_, ?_⟩)⟩
  · rw [hturn] at hr
    obtain rfl := Option.some.inj hr
    rw [hnext] at hpends
    exact absurd hpends hclear
  · rw [step_tracer, hnext]
    simpa [Tracer.ticked] using h.idle
  · rw [step_tracer, hnext]
    exact hclear
  · rw [hgoes, hturn]
    rfl
  · rw [step_tracer, hnext]
    exact h.old (by simp [hphase])

theorem onGone_handles (code : ℤ)
    (hturn : x.tracer.turn k.turn = (x.tracer.ticked k.turn).onGone pid k.tracee code)
    (hphase : (x.step .entryFirst k).phase pid = .fresh) : x.Handles .entryFirst k pid := by
  have hview : (x.tracer.next k.turn).view pid = ⟨false, Pending.empty, none⟩ := by
    unfold Tracer.next
    rw [hturn]
    exact Tracer.view_onGone _ pid k.tracee code
  have hnone : (x.tracer.turn k.turn).resumed = none ∧
      (x.tracer.next k.turn).expectEntry pid = false := by
    unfold Tracer.next
    rw [hturn]
    unfold Tracer.onGone
    dsimp only
    split_ifs <;> exact ⟨rfl, Function.update_self ..⟩
  refine ⟨fun r hr => absurd (hnone.1.symm.trans hr) (by simp), .of_clear ?_ ?_ (Or.inl hphase)⟩
  · rw [step_tracer]
    exact congrArg View.active hview
  · rw [step_tracer]
    rintro (hp | hp)
    · exact hp (congrArg View.pending hview)
    · exact absurd hp (by simp [hnone.2])

/-- A turn keeps the agreement about every tracee it is not about. -/
theorem Agrees.step_of_ne {q : Pid} (h : x.Agrees q) (hq : k.stop.wait.pid ≠ some q)
    (hthread : ∀ leader, k.stop ≠ .threadExec leader q) :
    (x.step .entryFirst k).Agrees q := by
  have hne : ∀ pid, k.stop.wait.pid = some pid → q ≠ pid := fun pid hp he => hq (he ▸ hp)
  have hslot : (x.step .entryFirst k).tracer.slot q = x.tracer.slot q := by
    rw [step_tracer]
    exact Tracer.next_slot_of_ne x.tracer k.turn hq
  have hchild : (x.step .entryFirst k).tracer.child = x.tracer.child := by
    rw [step_tracer]
    exact (Tracer.next_modes x.tracer k.turn).1
  have hphase : (x.step .entryFirst k).phase q = x.phase q := by
    unfold step
    cases hstop : k.stop with
    | threadExec leader thread =>
      have hqt : q ≠ thread := fun he => hthread leader (he ▸ hstop)
      rw [hstop] at hne
      exact (Function.update_of_ne hqt ..).trans (Function.update_of_ne (hne leader rfl) ..)
    | noChild => rfl
    | interrupted => rfl
    | _ => rw [hstop] at hne; exact Function.update_of_ne (hne _ rfl) ..
  have hmade : (x.step .entryFirst k).made q = x.made q := by
    unfold step
    cases hstop : k.stop with
    | event pid e =>
      rw [hstop] at hne
      dsimp only
      split_ifs
      · exact Function.update_of_ne (hne pid rfl) ..
      · rfl
    | _ => rfl
  exact h.same hchild hslot hphase hmade

/-- The id of a thread that has execed is free again. -/
theorem Agrees.vanished {leader : Pid} (h : x.Agrees pid)
    (hstop : k.stop = .threadExec leader pid) (hne : leader ≠ pid) (hphase : x.phase pid = .user) :
    (x.step .entryFirst k).Agrees pid := by
  have hslot : (x.tracer.next k.turn).slot pid = x.tracer.slot pid := by
    refine Tracer.next_slot_of_ne x.tracer k.turn ?_
    rw [KernelTurn.turn, hstop]
    exact fun he => hne (Option.some.inj he)
  have hfresh : (x.step .entryFirst k).phase pid = .fresh := by
    unfold step
    rw [hstop]
    exact Function.update_self ..
  refine .of_clear ?_ ?_ (Or.inl hfresh)
  · rw [step_tracer]
    exact (congrArg Slot.active hslot).trans h.idle
  · rw [step_tracer]
    unfold Tracer.Pends
    rw [show (x.tracer.next k.turn).pending pid = _ from congrArg Slot.pending hslot,
      show (x.tracer.next k.turn).expectEntry pid = _ from congrArg Slot.expectEntry hslot]
    exact h.clear (Or.inr hphase)

/-- **One turn** with the order of stops up to 4.7. -/
theorem agrees_step (hmode : x.tracer.Filtering) (h : ∀ pid, x.Agrees pid)
    (hrep : x.Reports .entryFirst k) (hreg : x.Regular k) :
    x.Right k ∧ ∀ pid, (x.step .entryFirst k).Agrees pid := by
  have hclear : ∀ pid, x.phase pid = .user ∨ x.phase pid = .traced → ¬ x.tracer.Pends pid := by
    rintro pid (hp | hp)
    · exact (h pid).clear (Or.inr hp)
    · exact absurd hp (h pid).untraced.1
  have huser : ∀ pid, (x.phase pid = .user ∨ x.phase pid = .traced ∨ x.phase pid = .entered) →
      x.phase pid = .user := by
    rintro pid (hp | hp | hp)
    · exact hp
    · exact absurd hp (h pid).untraced.1
    · exact absurd hp (h pid).untraced.2
  -- All but the stopped tracee are as they were.
  have hall : ∀ pid, k.stop.wait.pid = some pid → (∀ l t, k.stop ≠ .threadExec l t) →
      (x.step .entryFirst k).Agrees pid → ∀ q, (x.step .entryFirst k).Agrees q := by
    intro pid hwait hno hown q
    by_cases hq : q = pid
    · rw [hq]; exact hown
    · refine (h q).step_of_ne (fun he => hq ?_) fun l => hno l q
      exact (Option.some.inj (hwait.symm.trans he)).symm
  -- A stop that is no syscall stop of a tracee.
  have hother : ∀ pid, k.stop.wait.pid = some pid → (∀ l t, k.stop ≠ .threadExec l t) →
      (∀ q, k.stop ≠ .entry q) → (∀ q, k.stop ≠ .exit q) → x.Handles .entryFirst k pid →
      x.Right k ∧ ∀ q, (x.step .entryFirst k).Agrees q := by
    intro pid hwait hno hentry hexit hhandles
    exact ⟨⟨hclear, hhandles.1, fun q hq => absurd hq (hentry q), fun q hq => absurd hq (hexit q)⟩,
      hall pid hwait hno hhandles.2⟩
  -- A turn without a stop.
  have hnothing : k.stop.wait.pid = none → (∀ l t, k.stop ≠ .threadExec l t) →
      (x.tracer.turn k.turn).resumed = none →
      x.Right k ∧ ∀ q, (x.step .entryFirst k).Agrees q := by
    intro hwait hno hnone
    refine ⟨⟨hclear, fun r hr => absurd (hnone.symm.trans hr) (by simp), fun q hq => ?_,
      fun q hq => ?_⟩, fun q => (h q).step_of_ne (by simp [hwait]) fun l => hno l q⟩
    · exact absurd hwait (by simp [hq, Stop.wait, Wait.pid])
    · exact absurd hwait (by simp [hq, Stop.wait, Wait.pid])
  unfold Reports at hrep
  unfold Regular at hreg
  cases hstop : k.stop with
  | entry pid =>
    rw [hstop] at hrep
    have hphase := hrep.resolve_right (h pid).untraced.1
    obtain ⟨hresume, hagrees⟩ := (h pid).entry hmode hstop hphase
    refine ⟨⟨hclear, hresume, fun q hq => ?_, fun q hq => ?_⟩,
      hall pid (by rw [hstop]; rfl) (by simp [hstop]) hagrees⟩
    · rw [hstop, Stop.entry.injEq] at hq
      exact hq ▸ ((h pid).owed hphase).1
    · exact absurd hq (by simp [hstop])
  | exit pid =>
    rw [hstop] at hrep hreg
    obtain ⟨hphase, hlong⟩ := hrep.resolve_right (h pid).untraced.2
    obtain ⟨hcompletes, hresume, hagrees⟩ :=
      (h pid).exit hmode hstop hphase hlong hreg.1 hreg.2
    refine ⟨⟨hclear, hresume, fun q hq => ?_, fun q hq => ?_⟩,
      hall pid (by rw [hstop]; rfl) (by simp [hstop]) hagrees⟩
    · exact absurd hq (by simp [hstop])
    · rw [hstop, Stop.exit.injEq] at hq
      exact hq ▸ ⟨((h pid).due hphase).1, hcompletes⟩
  | signal pid sig =>
    exact hother pid (by rw [hstop]; rfl) (by simp [hstop]) (by simp [hstop]) (by simp [hstop])
      ((h pid).signal hmode hstop)
  | event pid e =>
    rw [hstop] at hrep
    refine hother pid (by rw [hstop]; rfl) (by simp [hstop]) (by simp [hstop]) (by simp [hstop]) ?_
    dsimp only at hrep
    split_ifs at hrep with he
    · subst he
      refine (h pid).seccomp hmode hstop ?_
      rcases hrep with hp | ⟨-, hp⟩ | ⟨hp, -⟩
      · exact hp
      · exact absurd hp (h pid).untraced.1
      · exact absurd hp (by decide)
    · exact (h pid).event hmode (by rw [KernelTurn.turn, hstop]; rfl) he (huser pid hrep)
        (step_phase _ x (Or.inr (Or.inr (Or.inr ⟨e, hstop⟩))))
  | threadExec leader thread =>
    rw [hstop] at hrep hreg
    obtain ⟨hne, hfresh, hthread⟩ := hrep
    have hleader : x.phase leader = .user := by
      have := (h leader).untraced
      cases hp : x.phase leader <;> simp [hp] at hfresh hreg this ⊢
    have hgoes : (x.step .entryFirst k).phase leader = Phase.next .entryFirst
        (x.tracer.turn k.turn).traces k.stop (x.phase leader) := by
      unfold step
      rw [hstop]
      exact (Function.update_of_ne hne ..).trans (Function.update_self ..)
    obtain ⟨hresume, hagrees⟩ := (h leader).event (e := PTRACE_EVENT_EXEC) hmode
      (by rw [KernelTurn.turn, hstop]; rfl) (by decide) hleader hgoes
    refine ⟨⟨hclear, hresume, by simp [hstop], by simp [hstop]⟩, fun q => ?_⟩
    by_cases hq : q = thread
    · rw [hq]
      exact (h thread).vanished hstop hne (huser thread hthread)
    by_cases hl : q = leader
    · rw [hl]; exact hagrees
    · refine (h q).step_of_ne ?_ ?_
      · rw [hstop]
        exact fun he => hl (Option.some.inj he).symm
      · simp [hstop, Ne.symm hq]
  | exited pid code =>
    refine hother pid (by rw [hstop]; rfl) (by simp [hstop]) (by simp [hstop]) (by simp [hstop])
      (onGone_handles code ?_ ?_)
    · unfold Tracer.turn Tracer.handle
      rw [KernelTurn.turn, hstop]
      rfl
    · unfold step
      rw [hstop]
      exact Function.update_self ..
  | signaled pid sig =>
    refine hother pid (by rw [hstop]; rfl) (by simp [hstop]) (by simp [hstop]) (by simp [hstop])
      (onGone_handles (128 + sig) ?_ ?_)
    · unfold Tracer.turn Tracer.handle
      rw [KernelTurn.turn, hstop]
      rfl
    · unfold step
      rw [hstop]
      exact Function.update_self ..
  | noChild =>
    refine hnothing (by rw [hstop]; rfl) (by simp [hstop]) ?_
    unfold Tracer.turn Tracer.handle
    rw [KernelTurn.turn, hstop]
    rfl
  | interrupted =>
    refine hnothing (by rw [hstop]; rfl) (by simp [hstop]) ?_
    unfold Tracer.turn Tracer.handle
    rw [KernelTurn.turn, hstop]
    rfl

/-- **With the order of stops up to 4.7 every filtered call is completed once, at its
own exit stop**: in every run in which the tracee can be reached at its exit stops and
no thread execs while its group's leader is in a filtered call, nothing is pending while
the application runs, and a tracee is resumed with syscall stops while something is. -/
theorem exit_handled_once (child : Pid) (ks : List KernelTurn)
    (h : Along (step .entryFirst) (fun x k => x.Reports .entryFirst k ∧ x.Regular k)
      (start child) ks) :
    Along (step .entryFirst) Right (start child) ks := by
  have hturn : ∀ (x : Watched) (k : KernelTurn), (x.tracer.Filtering ∧ ∀ pid, x.Agrees pid) →
      x.Reports .entryFirst k ∧ x.Regular k →
        x.Right k ∧ (x.step .entryFirst k).tracer.Filtering ∧
          ∀ pid, (x.step .entryFirst k).Agrees pid := by
    rintro x k ⟨hmode, hagrees⟩ ⟨hrep, hreg⟩
    obtain ⟨hright, hnext⟩ := agrees_step hmode hagrees hrep hreg
    refine ⟨hright, ?_, hnext⟩
    rw [step_tracer]
    exact hmode.next k.turn
  exact along_of_invariant hturn ⟨⟨rfl, rfl⟩, start_agrees child⟩ h

/-- A `statx` of a buffer at `0xa000`, at its seccomp stop. -/
def statxEntry : Tracee :=
  let t := Tracee.entryOf Nr.statx 3 0x9000 0 0x7ff
  { t with regs := { t.regs with r8 := 0xa000 } }

/-- The same call as `newfstatat`, at its entry and exit stops. -/
def statxInside : Tracee := { statxEntry with regs := Tracer.statxFallback statxEntry.regs }

/-- A host of the 4.9 release, which lacks `statx`. -/
def linux4_9 : Host :=
  ⟨some (4, 9, 0), false, false, false, false, false, true, false, false, fun _ => false⟩

def statxTurn (stop : Stop) (t : Tracee) : KernelTurn := ⟨Env.still linux4_9, false, stop, t⟩

/-- A signal arrives before the entry stop of a filtered `statx`. -/
theorem exit_handled_once_statx :
    Along (step .entryFirst) Right (start 1)
      [statxTurn (.event 1 PTRACE_EVENT_SECCOMP) statxEntry,
        statxTurn (.signal 1 10) statxInside, statxTurn (.entry 1) statxInside,
        statxTurn (.exit 1) statxInside] := by
  refine exit_handled_once 1 _ ⟨⟨Or.inl rfl, trivial⟩, ⟨trivial, trivial⟩, ⟨Or.inl rfl, trivial⟩,
    ⟨Or.inl ⟨rfl, ?_⟩, rfl, rfl⟩, trivial⟩
  rintro ⟨regs, hregs, hcs⟩
  obtain rfl := Option.some.inj hregs
  exact hcs rfl

/-- **From 4.8 on the exit stop of a `statx` is taken for the entry stop that is owed.** -/
theorem exit_stop_skipped :
    let ks := [statxTurn (.event 1 PTRACE_EVENT_SECCOMP) statxEntry,
      statxTurn (.exit 1) statxInside]
    Along (step .exitOnly) (Reports .exitOnly) (start 1) ks ∧
      ¬ Along (step .exitOnly) Right (start 1) ks := by
  refine ⟨⟨Or.inl rfl, Or.inl ⟨rfl, ?_⟩, trivial⟩, ?_⟩
  · rintro ⟨regs, hregs, hcs⟩
    obtain rfl := Option.some.inj hregs
    exact hcs rfl
  · rintro ⟨-, hexit, -⟩
    exact absurd (hexit.exit 1 rfl).1 (by decide)

end Watched
end Tracing
end Sharun
