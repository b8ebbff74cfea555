/-
# A tracee that makes the calls of an emulation

An emulation and its tracee take turns: the tracer puts a call into the registers,
the tracee makes it and stops, and so on until the application's registers are put
back.  `Injected.run` lets the two run, with a tracee that does what its registers
say: at an entry stop it makes the call they hold, and from an exit stop it enters
the kernel only if it has been sent to the `syscall` instruction it came from, and
stops there only if it was resumed with syscall stops.

Whatever the kernel returns, the calls made are those of the plan up to the first
that fails and at most one marked `always` after it, in at most two stops for each
planned call, and the tracee is left with the registers it had but for the result
(`sequence_runs`).
-/

import Sharun.Emulation.Sequences
import Sharun.Tracer.Registers

namespace Sharun
namespace Tracing

open Machine Emulation Sharun.Basis

/-- What a call of a sequence meets with: the turns at its entry stop and at its exit
stop, and what the kernel leaves at its end. -/
structure Served where
  entryEnv : Env
  entryAlarm : Bool
  exitEnv : Env
  exitAlarm : Bool
  ret : KernelReturn

/-- The call in the registers at an entry stop. -/
def callOf (regs : Regs) : Call :=
  ⟨regs.origRax, regs.rdi, regs.rsi, regs.rdx, regs.r10, regs.r8, regs.r9⟩

/-- The call a handler returns with. -/
abbrev rtSigreturn : U64 := 15

/-- The registers at the entry stop a `syscall` instruction at `rip` leads to. -/
def enterKernel (regs : Regs) : Regs :=
  { regs with
    origRax := regs.rax, rax := asU64 (-Errno.ENOSYS), rip := regs.rip + 2
    rcx := regs.rip + 2, r11 := regs.eflags }

/-- A tracee in an emulation, as the tracer left it at its last stop. -/
structure Injected where
  tracer : Tracer
  tracee : Tracee
  /-- It is at an entry stop, about to make the call in its registers. -/
  inside : Bool
  made : List Call
  /-- The stops so far, the one at which the emulation began among them. -/
  stops : ℕ

namespace Injected

/-- The tracee at the stop `u`, where its call was taken over. -/
def start (s : Tracer) (u : Turn) : Injected := ⟨s.next u, (s.turn u).tracee, true, [], 1⟩

/-- A syscall stop of the tracee, after which it goes on to the next one. -/
def stop (x : Injected) (pid : Pid) (env : Env) (alarm : Bool) (t : Tracee) (inside : Bool) :
    Option Injected :=
  let u : Turn := ⟨env, alarm, .syscall pid, t⟩
  if (x.tracer.turn u).resumed.any (·.request = .syscall) then
    some
      { x with
        tracer := x.tracer.next u, tracee := (x.tracer.turn u).tracee, inside
        stops := x.stops + 1 }
  else none

/-- The entry stop of the call that has been set up. -/
def enter (x : Injected) (pid : Pid) (gadget : U64) (r : Served) : Option Injected :=
  if x.inside then some x
  else if x.tracee.regs.rip = gadget then
    x.stop pid r.entryEnv r.entryAlarm { x.tracee with regs := enterKernel x.tracee.regs } true
  else none

/-- The call is made, up to its exit stop. -/
def leave (x : Injected) (pid : Pid) (r : Served) : Option Injected :=
  { x with made := x.made ++ [callOf x.tracee.regs] }.stop pid r.exitEnv r.exitAlarm
    (r.ret.apply x.tracee) false

/-- One call, from the stop at which it was set up to its exit stop. -/
def trip (x : Injected) (pid : Pid) (gadget : U64) (r : Served) : Option Injected :=
  (x.enter pid gadget r).bind (·.leave pid r)

/-- The tracee runs until its emulation is over. -/
def run (pid : Pid) (gadget : U64) : Injected → List Served → Option Injected
  | x, [] => some x
  | x, r :: rs =>
    if x.tracer.emulated.busy pid then (x.trip pid gadget r).bind (run pid gadget · rs)
    else some x

end Injected

/-- The calls of a plan up to the first that fails. -/
def upTo (pid : Pid) : List Step → List Served → List Step
  | step :: plan, r :: rs =>
    if step.fails r.exitEnv pid r.ret.mem r.ret.rax.toInt then [step] else step :: upTo pid plan rs
  | _, _ => []

/-- The calls that are made for some steps: the first from the record `q` of the
emulation, the others from what it knows then. -/
def callsOf (q q' : Sequence) : List Step → List Call
  | [] => []
  | first :: rest => build first q :: rest.map (build · q')

/-! ### One stop -/

/-- A stop where no emulation is in progress. -/
theorem onTracedSyscall_idle (env : Env) {s : Tracer} {pid : Pid}
    (hidle : s.emulated.active pid = none) (t : Tracee) :
    s.onTracedSyscall env pid t =
      match s.emulated.begin env pid t (s.entering pid) with
      | (emulated, t, true) =>
        let self := { s with emulated }
        self.resumed t (self.resume pid none)
      | (emulated, t, false) =>
        let (self, t) := { s with emulated }.onSyscallStop env pid t
        self.resumed t (self.resume pid none) := by
  rw [Tracer.onTracedSyscall]
  exact if_neg (by simp [Emulations.not_busy_iff.2 hidle])

/-- What the entry stop of a call comes to, where nothing is recorded: the call is taken over,
or `on_syscall_stop` has it. -/
inductive Entering (s : Tracer) (pid : Pid) (u : Turn) : Prop
  | taken {e : Emulations} {t : Tracee}
      (hbegin : (s.ticked u).emulated.begin u.env pid u.tracee true = (e, t, true))
      (hnext : s.next u = { s.ticked u with emulated := e }) (htracee : (s.turn u).tracee = t)
  | own {e : Emulations} {t : Tracee} {s₀ : Tracer}
      (hbegin : (s.ticked u).emulated.begin u.env pid u.tracee true = (e, t, false))
      (hsame : u.tracee.SameRegs t) (hidle : (s.next u).emulated.active pid = none)
      (hempty : s₀.pending pid = Pending.empty)
      (hnext : s.next u = (s₀.onSyscallEntry u.env pid t).1)
      (htracee : (s.turn u).tracee = (s₀.onSyscallEntry u.env pid t).2)

/-- **The entry stop of a call**, where every call is traced. -/
theorem entering_of_fresh {s : Tracer} {pid : Pid} {u : Turn} (hmode : s.EverySyscall)
    (hview : s.view pid = ⟨false, Pending.empty, none⟩) (hu : u.wait = .syscall pid) :
    Entering s pid u := by
  have hidle : (s.ticked u).emulated.active pid = none :=
    (Tracer.active_ticked s u pid).trans (congrArg View.active hview)
  have hentering : (s.ticked u).entering pid = true := by
    rw [Tracer.entering_ticked, hview]
    rfl
  obtain ⟨hbegun, -⟩ := Emulations.begin_begun u.env (s.ticked u).emulated pid u.tracee true
  have hturn := hmode.turn_eq hu
  rw [onTracedSyscall_idle u.env hidle, hentering] at hturn
  generalize hbegin : (s.ticked u).emulated.begin u.env pid u.tracee true = r at hbegun hturn
  obtain ⟨e, t, taken⟩ := r
  cases taken with
  | true => exact .taken hbegin (congrArg Handled.tracer hturn) (congrArg Handled.tracee hturn)
  | false =>
    obtain ⟨hactive, hsame⟩ := hbegun.declined rfl
    have hnext : s.next u = ({ s.ticked u with emulated := e }.onSyscallStop u.env pid t).1 :=
      congrArg Handled.tracer hturn
    have htracee :
        (s.turn u).tracee = ({ s.ticked u with emulated := e }.onSyscallStop u.env pid t).2 :=
      congrArg Handled.tracee hturn
    have hnone : (s.next u).emulated.active pid = none := by
      obtain ⟨p, t', heq, -⟩ :=
        Tracer.onSyscallStop_eq u.env { s.ticked u with emulated := e } pid t
      rw [hnext, heq]
      exact (congrFun hactive pid).trans hidle
    have hentering' : ({ s.ticked u with emulated := e } : Tracer).entering pid = true := hentering
    rw [Tracer.onSyscallStop, hentering', if_pos rfl] at hnext htracee
    have hempty : ({ s.ticked u with emulated := e }.setInSyscall pid true).pending pid =
        Pending.empty := congrArg View.pending hview
    exact .own hbegin hsame hnone hempty hnext htracee

namespace Tracer

variable {s : Tracer} {pid : Pid} {u : Turn}

/-- A stop inside an emulation belongs to it. -/
theorem turn_emulated (hmode : s.EverySyscall) (hu : u.wait = .syscall pid) {a : Active}
    (ha : s.emulated.active pid = some a) :
    (s.turn u).tracee = ((s.ticked u).emulated.step u.env pid u.tracee).2 ∧
      (s.next u).emulated = ((s.ticked u).emulated.step u.env pid u.tracee).1 ∧
      (s.next u).inSyscall = s.inSyscall ∧
      (s.turn u).resumed.any (·.request = .syscall) = true := by
  have hbusy : (s.ticked u).emulated.busy pid = true := by
    refine Emulations.busy_iff.2 ⟨a, ?_⟩
    simpa [ticked] using ha
  have hticked : (s.ticked u).syscallMode = true := hmode.syscallMode
  have hturn : s.turn u = (s.ticked u).onEmulated u.env pid u.tracee := by
    rw [hmode.turn_eq hu, onTracedSyscall, if_pos hbusy]
  unfold next
  rw [hturn]
  unfold onEmulated
  dsimp only
  split_ifs
  · exact ⟨rfl, rfl, rfl, by simp [resumed, resume, hticked]⟩
  · split
    · exact ⟨rfl, rfl, rfl, by simp [resumed, resume, hticked]⟩
    · exact ⟨rfl, rfl, rfl, by simp [resumed, resume, hticked]⟩

end Tracer

namespace Injected

variable {x : Injected} {pid : Pid}

/-- A stop inside an emulation is its own, and the tracee goes on to the next. -/
theorem stop_emulated (hmode : x.tracer.EverySyscall) {a : Active}
    (ha : x.tracer.emulated.active pid = some a) (env : Env) (alarm : Bool) (t : Tracee)
    (inside : Bool) :
    ∃ (x' : Injected) (e : Emulations),
      x.stop pid env alarm t inside = some x' ∧ x'.tracer.EverySyscall ∧
      e.active = x.tracer.emulated.active ∧ x'.tracer.emulated = (e.step env pid t).1 ∧
      x'.tracee = (e.step env pid t).2 ∧ x'.tracer.inSyscall = x.tracer.inSyscall ∧
      x'.inside = inside ∧ x'.made = x.made ∧ x'.stops = x.stops + 1 := by
  obtain ⟨htracee, hemulated, hin, hresumed⟩ :=
    Tracer.turn_emulated (u := ⟨env, alarm, .syscall pid, t⟩) hmode rfl ha
  refine ⟨_, (x.tracer.ticked ⟨env, alarm, .syscall pid, t⟩).emulated, if_pos hresumed,
    hmode.next _, ?_, hemulated, htracee, hin, rfl, rfl, rfl⟩
  simp [Tracer.ticked]

/-! ### One call -/

/-- The registers a tracee has at a call of its emulation, those it had at the call
that is emulated, and the record of the emulation. -/
structure AtCall (pid : Pid) (regs : Regs) (flag : Option Bool) (x : Injected) (s : Sequence)
    (step : Step) : Prop where
  mode : x.tracer.EverySyscall
  active : x.tracer.emulated.active pid = some (.sequence s)
  flag : x.tracer.inSyscall pid = flag
  running : s.running = some step
  saved : s.saved = regs
  gadget : s.gadget = regs.rip - 2
  atEntry : s.atEntry = !x.inside
  stops : x.stops = 2 * x.made.length + if x.inside then 1 else 0
  /-- At an entry stop the registers hold the call. -/
  call : x.inside = true → callOf x.tracee.regs = build step s
  /-- At an exit stop they lead to it. -/
  sent : x.inside = false → x.tracee.regs.rip = regs.rip - 2 ∧
    callOf (enterKernel x.tracee.regs) = build step s

/-- The emulation is over and the application goes on. -/
structure Over (pid : Pid) (regs : Regs) (flag : Option Bool) (x : Injected) : Prop where
  mode : x.tracer.EverySyscall
  idle : x.tracer.emulated.active pid = none
  flag : x.tracer.inSyscall pid = flag
  stops : x.stops = 2 * x.made.length
  regs : x.tracee.regs = { regs with rax := x.tracee.regs.rax }

/-- A call has ended, and `s` is the record of the emulation: the next call is set up, or the
emulation is over. -/
structure After (pid : Pid) (regs : Regs) (flag : Option Bool) (x : Injected) (s : Sequence) :
    Prop where
  again : ∀ step queue, s.next = (some step, queue) →
    AtCall pid regs flag x { s with queue, running := some step, atEntry := true } step
  done : s.next.1 = none → Over pid regs flag x ∧ x.tracee.regs.rax = asU64 s.answer

section

variable {regs : Regs} {flag : Option Bool} {s : Sequence} {step : Step}

theorem callOf_withCall (regs : Regs) (call : Call) : callOf (withCall regs call) = call := rfl

/-- From where the call was set up to where it is made. -/
theorem AtCall.enter (h : AtCall pid regs flag x s step) (r : Served) :
    ∃ x', x.enter pid (regs.rip - 2) r = some x' ∧ x'.inside = true ∧ x'.made = x.made ∧
      AtCall pid regs flag x' { s with atEntry := false } step := by
  cases hin : x.inside with
  | true =>
    have hentry : s.atEntry = false := by rw [h.atEntry, hin]; rfl
    have hsame : { s with atEntry := false } = s := by rw [← hentry]
    refine ⟨x, if_pos hin, hin, rfl, ?_⟩
    rw [hsame]
    exact h
  | false =>
    have hentry : s.atEntry = true := by rw [h.atEntry, hin]; rfl
    obtain ⟨hrip, hcall⟩ := h.sent hin
    obtain ⟨x', e, hstop, hmode, he, hemulated, htracee, hflag, hinside, hmade, hstops⟩ :=
      stop_emulated h.mode h.active r.entryEnv r.entryAlarm
        { x.tracee with regs := enterKernel x.tracee.regs } true
    have hactive : e.active pid = some (.sequence s) := by rw [he, h.active]
    rw [Emulations.step_entry r.entryEnv hactive hentry] at hemulated htracee
    have hregs : x'.tracee.regs = enterKernel x.tracee.regs := by rw [htracee]
    refine ⟨x', ?_, hinside, hmade, ?_⟩
    · unfold Injected.enter
      rw [if_neg (by simp [hin]), if_pos hrip]
      exact hstop
    · have hold := h.stops
      rw [hin, if_neg (by decide)] at hold
      refine ⟨hmode, ?_, ?_, h.running, h.saved, h.gadget, ?_, ?_, fun _ => ?_, fun hout => ?_⟩
      · rw [hemulated]
        exact Emulations.setActive_active_self ..
      · rw [hflag]
        exact h.flag
      · rw [hinside]
        rfl
      · rw [hstops, hmade, hinside, if_pos rfl]
        omega
      · rw [hregs, hcall]
        exact Sequence.build_congr rfl step
      · exact absurd (hinside.symm.trans hout) (by decide)

/-- From where the call is made to its exit stop: the next one is set up there, or the
emulation is over. -/
theorem AtCall.leave (h : AtCall pid regs flag x s step) (hin : x.inside = true) {r : Served}
    (hget : r.ret.canGet = true) (hset : r.ret.canSet = true) :
    ∃ x', x.leave pid r = some x' ∧ x'.inside = false ∧ x'.made = x.made ++ [build step s] ∧
      After pid regs flag x' (s.returned r.exitEnv pid r.ret.mem r.ret.rax.toInt) := by
  have hentry : s.atEntry = false := by rw [h.atEntry, hin]; rfl
  have hcall : callOf x.tracee.regs = build step s := h.call hin
  obtain ⟨x', e, hstop, hmode, he, hemulated, htracee, hflag, hinside, hmade, hstops⟩ :=
    stop_emulated (x := { x with made := x.made ++ [callOf x.tracee.regs] }) h.mode h.active
      r.exitEnv r.exitAlarm (r.ret.apply x.tracee) false
  have hactive : e.active pid = some (.sequence s) := by
    rw [he]
    exact h.active
  have hmade' : x'.made = x.made ++ [build step s] := by
    rw [hmade, hcall]
  have hstops' : x'.stops = 2 * x'.made.length := by
    have hold := h.stops
    rw [hin, if_pos rfl] at hold
    rw [hstops, hmade, List.length_append, List.length_singleton]
    dsimp only
    omega
  have hflag' : x'.tracer.inSyscall pid = flag := by
    rw [hflag]
    exact h.flag
  refine ⟨x', hstop, hinside, hmade', fun step' queue hnext => ?_, fun hnext => ?_⟩
  · obtain ⟨hactive', hregs⟩ := Emulations.step_again r.exitEnv hactive hentry
      (t := r.ret.apply x.tracee) hget hset hnext
    rw [← hemulated] at hactive'
    rw [← htracee] at hregs
    refine ⟨hmode, hactive', hflag', rfl, ?_, ?_, ?_, ?_, fun hout => ?_, fun _ => ?_⟩
    · rw [← h.saved]
      exact s.returned_saved ..
    · rw [← h.gadget]
      exact s.returned_gadget ..
    · rw [hinside]
      rfl
    · rw [hstops', hinside]
      rfl
    · exact absurd (hinside.symm.trans hout) (by decide)
    · rw [hregs]
      exact ⟨h.gadget, Sequence.build_congr rfl step'⟩
  · obtain ⟨hidle, hregs⟩ := Emulations.step_over r.exitEnv hactive hentry
      (t := r.ret.apply x.tracee) hget hset hnext
    rw [← hemulated] at hidle
    rw [← htracee] at hregs
    refine ⟨⟨hmode, hidle, hflag', hstops', ?_⟩, ?_⟩
    · rw [hregs, ← h.saved]
    · rw [hregs]
      rfl

/-- **One call**: it is the one its step asks for, and after it the next one is set up
or the emulation is over. -/
theorem AtCall.trip (h : AtCall pid regs flag x s step) {r : Served} (hget : r.ret.canGet = true)
    (hset : r.ret.canSet = true) :
    ∃ x', x.trip pid (regs.rip - 2) r = some x' ∧ x'.made = x.made ++ [build step s] ∧
      After pid regs flag x' (s.returned r.exitEnv pid r.ret.mem r.ret.rax.toInt) := by
  obtain ⟨x₁, henter, hin, hmade₁, h₁⟩ := h.enter r
  obtain ⟨x', hleave, -, hmade, hafter⟩ := h₁.leave hin hget hset
  rw [s.returned_atEntry r.exitEnv pid r.ret.mem r.ret.rax.toInt] at hafter
  refine ⟨x', ?_, ?_, hafter.again, hafter.done⟩
  · unfold Injected.trip
    rw [henter]
    exact hleave
  · rw [hmade, hmade₁, Sequence.build_congr rfl step]
    rfl

/-! ### A whole emulation -/

/-- The run goes on with the next call. -/
theorem AtCall.run_cons (h : AtCall pid regs flag x s step) {r : Served} {x' : Injected}
    (hx : x.trip pid (regs.rip - 2) r = some x') (rs : List Served) :
    run pid (regs.rip - 2) x (r :: rs) = run pid (regs.rip - 2) x' rs := by
  unfold Injected.run
  rw [if_pos (Emulations.busy_iff.2 ⟨_, h.active⟩), hx, Option.bind_some]
  cases rs <;> rfl

theorem Over.run_eq (h : Over pid regs flag x) (gadget : U64) (rs : List Served) :
    run pid gadget x rs = some x := by
  have hbusy : x.tracer.emulated.busy pid = false := Emulations.not_busy_iff.2 h.idle
  unfold Injected.run
  cases rs with
  | nil => rfl
  | cons r rs => exact if_neg (by simp [hbusy])

/-- The steps that are run of a plan: those up to the first that fails, and at most one
marked `always` after it. -/
def Ran (pid : Pid) (plan : List Step) (rs : List Served) (ran : List Step) : Prop :=
  ∃ later, ran = upTo pid plan rs ++ later ∧ later.length ≤ 1 ∧
    ∀ step ∈ later, step.always = true ∧ step ∈ plan.drop (upTo pid plan rs).length

theorem callsOf_eq {q q' : Sequence} (h : q.ends = q'.ends) {k : Sequence} (hk : k.ends = q'.ends)
    (ran : List Step) : callsOf q k ran = ran.map (build · q') := by
  have hbuild : (build · k) = (build · q') := funext fun step => Sequence.build_congr hk step
  cases ran with
  | nil => rfl
  | cons step ran =>
    rw [callsOf, hbuild, Sequence.build_congr h step]
    rfl

/-- The calls a run makes, from the one that is set up on, and the record of the sequence
at its end. -/
def drive (pid : Pid) : Sequence → Step → List Served → List Call × Sequence
  | s, _, [] => ([], s)
  | s, step, r :: rs =>
    let s' := s.returned r.exitEnv pid r.ret.mem r.ret.rax.toInt
    match s'.next with
    | (some step', queue) =>
      let rest := drive pid { s' with queue, running := some step', atEntry := true } step' rs
      (build step s :: rest.1, rest.2)
    | (none, _) => ([build step s], s')

theorem drive_again {r : Served} {rs : List Served} {step' : Step} {queue : List Step}
    (h : (s.returned r.exitEnv pid r.ret.mem r.ret.rax.toInt).next = (some step', queue)) :
    drive pid s step (r :: rs) =
      let rest := drive pid { s.returned r.exitEnv pid r.ret.mem r.ret.rax.toInt with
        queue, running := some step', atEntry := true } step' rs
      (build step s :: rest.1, rest.2) := by
  rw [drive]
  dsimp only
  rw [h]

theorem drive_over {r : Served} {rs : List Served}
    (h : (s.returned r.exitEnv pid r.ret.mem r.ret.rax.toInt).next.1 = none) :
    drive pid s step (r :: rs) =
      ([build step s], s.returned r.exitEnv pid r.ret.mem r.ret.rax.toInt) := by
  have hpair : (s.returned r.exitEnv pid r.ret.mem r.ret.rax.toInt).next =
      (none, (s.returned r.exitEnv pid r.ret.mem r.ret.rax.toInt).next.2) := Prod.ext h rfl
  rw [drive]
  dsimp only
  rw [hpair]

/-- **What a run comes to**: the calls it makes and what the application is handed. -/
theorem AtCall.run_drive (rs : List Served) (x : Injected) (s : Sequence) (step : Step)
    (h : AtCall pid regs flag x s step)
    (hreach : ∀ r ∈ rs, r.ret.canGet = true ∧ r.ret.canSet = true)
    (hlen : s.queue.length < rs.length) :
    ∃ x', run pid (regs.rip - 2) x rs = some x' ∧ Over pid regs flag x' ∧
      x'.made = x.made ++ (drive pid s step rs).1 ∧
      x'.tracee.regs.rax = asU64 (drive pid s step rs).2.answer := by
  induction rs generalizing x s step with
  | nil => exact absurd hlen (Nat.not_lt_zero _)
  | cons r rs ih =>
    obtain ⟨hget, hset⟩ := hreach r (List.mem_cons_self ..)
    obtain ⟨x', hx, hmade, hagain, hover⟩ := h.trip hget hset
    rw [h.run_cons hx]
    cases hnext : (s.returned r.exitEnv pid r.ret.mem r.ret.rax.toInt).next with
    | mk first queue =>
      cases first with
      | none =>
        obtain ⟨hdone, hanswer⟩ := hover (congrArg Prod.fst hnext)
        rw [drive_over (congrArg Prod.fst hnext)]
        exact ⟨x', hdone.run_eq .., hdone, hmade, hanswer⟩
      | some step' =>
        have hshort := Sequence.length_of_next hnext
        rw [Sequence.returned_queue] at hshort
        rw [List.length_cons] at hlen
        obtain ⟨x'', hrun, hdone, hmade', hanswer⟩ :=
          ih x' _ step' (hagain step' queue hnext)
            (fun r' hr' => hreach r' (List.mem_cons_of_mem r hr')) (by dsimp only; omega)
        rw [drive_again hnext]
        refine ⟨x'', hrun, hdone, ?_, hanswer⟩
        rw [hmade', hmade, List.append_assoc]
        rfl

/-- A call made after a failure is the last one. -/
theorem AtCall.run_undo (h : AtCall pid regs flag x s step) (hfailed : s.failure.isNone = false)
    {r : Served} (hget : r.ret.canGet = true) (hset : r.ret.canSet = true) (rs : List Served) :
    ∃ x', run pid (regs.rip - 2) x (r :: rs) = some x' ∧ Over pid regs flag x' ∧
      x'.made = x.made ++ [build step s] := by
  obtain ⟨x', hx, hmade, -, hover⟩ := h.trip hget hset
  obtain ⟨hdone, -⟩ :=
    hover (s.next_of_second_failure r.exitEnv pid r.ret.mem r.ret.rax.toInt hfailed)
  exact ⟨x', by rw [h.run_cons hx, hdone.run_eq], hdone, hmade⟩

/-- **The rest of an emulation** in which nothing has failed yet. -/
theorem AtCall.run_rest {queue : List Step} (rs : List Served) (x : Injected) (s : Sequence)
    (step : Step) (h : AtCall pid regs flag x s step) (hok : s.failure.isNone = true)
    (hqueue : s.queue = queue) (hpipe : ∀ buffer, .pipe buffer ∉ queue)
    (hreach : ∀ r ∈ rs, r.ret.canGet = true ∧ r.ret.canSet = true)
    (hlen : queue.length < rs.length) :
    ∃ x' ran r rest, rs = r :: rest ∧ run pid (regs.rip - 2) x rs = some x' ∧
      Over pid regs flag x' ∧ Ran pid (step :: queue) rs ran ∧
      x'.made = x.made ++
        callsOf s (s.returned r.exitEnv pid r.ret.mem r.ret.rax.toInt) ran := by
  induction queue generalizing rs x s step with
  | nil =>
    obtain ⟨r, rest, rfl⟩ := List.exists_cons_of_length_pos hlen
    obtain ⟨hget, hset⟩ := hreach r (List.mem_cons_self ..)
    obtain ⟨x', hx, hmade, -, hover⟩ := h.trip hget hset
    have hempty : (s.returned r.exitEnv pid r.ret.mem r.ret.rax.toInt).queue = [] :=
      (s.returned_queue ..).trans hqueue
    obtain ⟨hdone, -⟩ := hover (Sequence.next_of_empty hempty)
    have hupTo : upTo pid [step] (r :: rest) = [step] := by
      unfold upTo
      split <;> rfl
    refine ⟨x', [step], r, rest, rfl, by rw [h.run_cons hx, hdone.run_eq], hdone,
      ⟨[], by rw [hupTo, List.append_nil], by simp, by simp⟩, hmade⟩
  | cons step' queue ih =>
    obtain ⟨r, rest, rfl⟩ := List.exists_cons_of_length_pos (Nat.zero_lt_of_lt hlen)
    obtain ⟨hget, hset⟩ := hreach r (List.mem_cons_self ..)
    obtain ⟨x', hx, hmade, hagain, hover⟩ := h.trip hget hset
    have hrest : queue.length < rest.length := by simpa using hlen
    have hreach' : ∀ r ∈ rest, r.ret.canGet = true ∧ r.ret.canSet = true :=
      fun r' hr' => hreach r' (List.mem_cons_of_mem r hr')
    have hq : (s.returned r.exitEnv pid r.ret.mem r.ret.rax.toInt).queue = step' :: queue :=
      (s.returned_queue ..).trans hqueue
    have hfailure := s.returned_failure r.exitEnv pid r.ret.mem r.ret.rax.toInt h.running
    rw [hok, Bool.true_and] at hfailure
    cases hfails : step.fails r.exitEnv pid r.ret.mem r.ret.rax.toInt with
    | true =>
      -- Nothing is left but a call that takes back what was done.
      rw [hfails] at hfailure
      have hupTo : upTo pid (step :: step' :: queue) (r :: rest) = [step] := by
        unfold upTo
        exact if_pos hfails
      cases hnext : (s.returned r.exitEnv pid r.ret.mem r.ret.rax.toInt).next.1 with
      | none =>
        obtain ⟨hdone, -⟩ := hover hnext
        refine ⟨x', [step], r, rest, rfl, by rw [h.run_cons hx, hdone.run_eq], hdone,
          ⟨[], by rw [hupTo, List.append_nil], by simp, by simp⟩, hmade⟩
      | some undo =>
        obtain ⟨hmem, halways, -⟩ := Sequence.next_of_failure hfailure (Prod.ext hnext rfl)
        rw [hq] at hmem
        have hat := hagain undo _ (Prod.ext hnext rfl)
        obtain ⟨r', rest', rfl⟩ := List.exists_cons_of_length_pos (Nat.zero_lt_of_lt hrest)
        obtain ⟨hget', hset'⟩ := hreach' r' (List.mem_cons_self ..)
        obtain ⟨x'', hrun, hdone, hmade'⟩ := hat.run_undo hfailure hget' hset' rest'
        refine ⟨x'', [step, undo], r, r' :: rest', rfl, by rw [h.run_cons hx, hrun], hdone,
          ⟨[undo], by rw [hupTo]; rfl, by simp, ?_⟩, ?_⟩
        · intro later hlater
          obtain rfl := List.mem_singleton.1 hlater
          rw [hupTo]
          exact ⟨halways, hmem⟩
        · rw [hmade', hmade, List.append_assoc]
          rfl
    | false =>
      rw [hfails] at hfailure
      have hupTo : upTo pid (step :: step' :: queue) (r :: rest) =
          step :: upTo pid (step' :: queue) rest := by
        rw [upTo, if_neg (by simp [hfails])]
      have hnext := Sequence.next_of_success hfailure
      rw [hq] at hnext
      have hat := hagain step' queue hnext
      obtain ⟨x'', ran, r', rest', rfl, hrun, hdone, ⟨later, hran, hlater, hundo⟩, hmade'⟩ :=
        ih rest x' _ step' hat hfailure rfl
          (fun buffer hmem => hpipe buffer (List.mem_cons_of_mem _ hmem)) hreach' hrest
      refine ⟨x'', step :: ran, r, r' :: rest', rfl, by rw [h.run_cons hx, hrun], hdone,
        ⟨later, by rw [hupTo, hran]; rfl, hlater, ?_⟩, ?_⟩
      · intro undo hmem
        rw [hupTo]
        exact hundo undo hmem
      · obtain ⟨more, hresults, -⟩ := s.returned_results r.exitEnv pid r.ret.mem r.ret.rax.toInt
        have hlast := Sequence.returned_ends r'.exitEnv pid r'.ret.mem r'.ret.rax.toInt hat.running
          (fun buffer hb => hpipe buffer (hb ▸ List.mem_cons_self ..)) (by simp [hresults])
        rw [hmade', hmade, List.append_assoc]
        exact congrArg (fun calls => x.made ++ build step s :: calls) (callsOf_eq rfl hlast ran)

end

/-! ### Every emulation -/

/-- The stop at which an emulation begins. -/
theorem turn_taken {s : Tracer} (hmode : s.EverySyscall) {u : Turn} (hu : u.wait = .syscall pid)
    (hidle : s.emulated.active pid = none) {a : Active}
    (htaken : (s.next u).emulated.active pid = some a) :
    (s.next u).emulated =
        ((s.ticked u).emulated.begin u.env pid u.tracee (s.entering pid)).1 ∧
      (s.turn u).tracee =
        ((s.ticked u).emulated.begin u.env pid u.tracee (s.entering pid)).2.1 ∧
      (s.next u).inSyscall = s.inSyscall ∧ s.entering pid = true := by
  have hidle' : (s.ticked u).emulated.active pid = none := by simpa [Tracer.ticked] using hidle
  have hbusy : (s.ticked u).emulated.busy pid = false := Emulations.not_busy_iff.2 hidle'
  obtain ⟨hbegun, hentering⟩ :=
    Emulations.begin_begun u.env (s.ticked u).emulated pid u.tracee (s.entering pid)
  have hturn := hmode.turn_eq hu
  have hsame : (s.ticked u).entering pid = s.entering pid := rfl
  unfold Tracer.next at htaken ⊢
  rw [hturn] at htaken ⊢
  unfold Tracer.onTracedSyscall at htaken ⊢
  rw [if_neg (by simp [hbusy]), hsame] at htaken ⊢
  generalize (s.ticked u).emulated.begin u.env pid u.tracee (s.entering pid) = r
    at hbegun hentering htaken ⊢
  obtain ⟨e, t, taken⟩ := r
  cases taken with
  | true => exact ⟨rfl, rfl, rfl, hentering rfl⟩
  | false =>
    obtain ⟨hactive, -⟩ := hbegun.declined rfl
    obtain ⟨p, t', hstop, -⟩ :=
      Tracer.onSyscallStop_eq u.env { s.ticked u with emulated := e } pid t
    dsimp only at htaken
    rw [hstop] at htaken
    change e.active pid = some a at htaken
    rw [show e.active = _ from hactive, hidle'] at htaken
    exact absurd htaken (by simp)

theorem start_atCall {s : Tracer} (hmode : s.EverySyscall) {u : Turn} (hu : u.wait = .syscall pid)
    (hidle : s.emulated.active pid = none) {regs : Regs} (hregs : u.tracee.getregs = some regs)
    {q : Sequence} (htaken : (s.next u).emulated.active pid = some (.sequence q)) :
    ∃ first, (s.ticked u).emulated.planned pid regs = first :: q.queue ∧
      q.outcome = Emulations.answeredBy regs ∧ q.results = [] ∧
      AtCall pid regs (s.inSyscall pid) (start s u) q first := by
  obtain ⟨hemulated, htracee, hflag, hentering⟩ := turn_taken hmode hu hidle htaken
  have hidle' : (s.ticked u).emulated.active pid = none := by simpa [Tracer.ticked] using hidle
  have hactive := htaken
  rw [hemulated] at htaken
  obtain ⟨regs', hregs', hstarting⟩ := Emulations.begin_sequence u.env hidle' htaken
  obtain rfl : regs = regs' := Option.some.inj (hregs.symm.trans hregs')
  obtain ⟨first, hrun, hplan, hcall⟩ := hstarting.plan
  refine ⟨first, hplan, hstarting.outcome, hstarting.results, hmode.next u, hactive,
    congrFun hflag pid, hrun, hstarting.saved, hstarting.gadget, hstarting.atEntry, rfl,
    fun _ => ?_, fun hout => ?_⟩
  · change callOf (s.turn u).tracee.regs = build first q
    rw [htracee, hcall, callOf_withCall]
  · exact absurd hout (by simp [start])

theorem upTo_length_le (pid : Pid) (plan : List Step) (rs : List Served) :
    (upTo pid plan rs).length ≤ plan.length := by
  induction plan generalizing rs with
  | nil =>
    unfold upTo
    exact le_rfl
  | cons step plan ih =>
    cases rs with
    | nil =>
      unfold upTo
      exact Nat.zero_le _
    | cons r rs =>
      unfold upTo
      split
      · simp
      · simpa using ih rs

/-- No more calls are made than were planned. -/
theorem Ran.length_le {plan : List Step} {rs : List Served} {ran : List Step}
    (h : Ran pid plan rs ran) : ran.length ≤ plan.length := by
  obtain ⟨later, rfl, hlater, hmem⟩ := h
  rw [List.length_append]
  cases later with
  | nil => exact upTo_length_le pid plan rs
  | cons step rest =>
    have hdrop := (hmem step (List.mem_cons_self ..)).2
    have hpos := List.length_pos_of_mem hdrop
    rw [List.length_drop] at hpos
    omega

theorem callsOf_length (q q' : Sequence) (ran : List Step) :
    (callsOf q q' ran).length = ran.length := by
  cases ran with
  | nil => rfl
  | cons step ran =>
    rw [callsOf, List.length_cons, List.length_map, List.length_cons]

/-- **The run of an emulated call**, whatever the kernel returns for the calls in its
place: they are made in the order of the plan, up to the first that fails, with at most
one marked `always` after it, in at most two stops for each planned call; and after the
last the registers are those of the entry stop but for `rax`, no emulation is in
progress, and the next syscall stop is taken for an entry. -/
theorem sequence_runs {s : Tracer} {pid : Pid} {u : Turn} {regs : Regs} {q : Sequence}
    {rs : List Served} (hmode : s.EverySyscall) (hu : u.wait = .syscall pid)
    (hidle : s.emulated.busy pid = false) (hregs : u.tracee.getregs = some regs)
    (htaken : (s.next u).emulated.active pid = some (.sequence q))
    (hreach : ∀ r ∈ rs, r.ret.canGet = true ∧ r.ret.canSet = true)
    (hlen : ((s.ticked u).emulated.planned pid regs).length ≤ rs.length) :
    ∃ x ran r rest, rs = r :: rest ∧ run pid (regs.rip - 2) (start s u) rs = some x ∧
      Ran pid ((s.ticked u).emulated.planned pid regs) rs ran ∧
      x.made = callsOf q (q.returned r.exitEnv pid r.ret.mem r.ret.rax.toInt) ran ∧
      x.stops ≤ 2 * ((s.ticked u).emulated.planned pid regs).length ∧
      x.tracee.regs = { regs with rax := x.tracee.regs.rax } ∧
      x.tracer.emulated.busy pid = false ∧ x.tracer.inSyscall pid = s.inSyscall pid ∧
      x.tracer.entering pid = true := by
  have hnone := Emulations.not_busy_iff.1 hidle
  obtain ⟨-, -, -, hentering⟩ := turn_taken hmode hu hnone htaken
  obtain ⟨first, hplan, -, hresults, hat⟩ := start_atCall hmode hu hnone hregs htaken
  have hpipe : ∀ buffer, .pipe buffer ∉ q.queue := by
    intro buffer
    have h := (s.ticked u).emulated.planned_noPipe pid regs buffer
    rw [hplan] at h
    exact h
  have hok : q.failure.isNone = true := by
    unfold Sequence.failure
    rw [hresults]
    rfl
  rw [hplan] at hlen
  obtain ⟨x, ran, r, rest, hrs, hrun, hover, hran, hmade⟩ :=
    hat.run_rest rs (start s u) q first hok rfl hpipe hreach hlen
  rw [← hplan] at hran
  have hmade' : x.made = callsOf q (q.returned r.exitEnv pid r.ret.mem r.ret.rax.toInt) ran := hmade
  refine ⟨x, ran, r, rest, hrs, hrun, hran, hmade', ?_, hover.regs,
    Emulations.not_busy_iff.2 hover.idle, hover.flag, ?_⟩
  · have hle := hran.length_le
    rw [hover.stops, hmade', callsOf_length]
    omega
  · unfold Tracer.entering
    rw [hover.flag]
    exact hentering

/-- A call that returns this and leaves the memory empty. -/
def served (rax : U64) : Served :=
  ⟨.still Host.centos5, false, .still Host.centos5, false, rax, 0, 0, fun _ => none, true, true⟩

/-- A duplicate of descriptor 3 whose `FD_CLOEXEC` cannot be set. -/
theorem sequence_runs_dupfd :
    let s := Tracer.new 1 true false
    let u := Tracer.oldTurn (.syscall 1) (.entryOf Nr.fcntl 3 F_DUPFD_CLOEXEC 10 0)
    let rs := [served 10, served (-9)]
    let plan := (s.ticked u).emulated.planned 1 u.tracee.regs
    ∃ q x ran r rest, rs = r :: rest ∧ run 1 (u.tracee.regs.rip - 2) (start s u) rs = some x ∧
      Ran 1 plan rs ran ∧
      x.made = callsOf q (q.returned r.exitEnv 1 r.ret.mem r.ret.rax.toInt) ran ∧
      x.stops ≤ 2 * plan.length ∧
      x.tracee.regs = { u.tracee.regs with rax := x.tracee.regs.rax } ∧
      x.tracer.emulated.busy 1 = false ∧ x.tracer.inSyscall 1 = s.inSyscall 1 ∧
      x.tracer.entering 1 = true :=
  ⟨_, sequence_runs ⟨rfl, rfl⟩ rfl rfl rfl rfl (by decide) (by decide)⟩

end Injected
end Tracing
end Sharun
