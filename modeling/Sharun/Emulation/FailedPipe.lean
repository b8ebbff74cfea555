/-
# A timerfd whose pipe cannot be made

The pipe of an emulated `timerfd_create` is adopted when its call returns, from the two
numbers in its buffer, whatever the call returned.  A pipe that could not be made has
left the buffer as it was, and that is scratch memory which earlier emulations have used.
So the error is handed to the application, and the tables are left alone, exactly if
what is in the buffer cannot be adopted (`failed_pipe_refused_iff`).

In every reachable state a sequence that makes a pipe makes it first (`PipeFirst`).
-/

import Sharun.Emulation.Sequences
import Sharun.Emulation.Isolation

namespace Sharun
namespace Emulation

open Machine Sharun.Basis

/-- A pipe is the first thing a sequence makes, and its read end answers the call. -/
structure Sequence.PipeFirst (s : Sequence) : Prop where
  queue : ∀ buffer, .pipe buffer ∉ s.queue
  running : ∀ buffer, s.running = some (.pipe buffer) →
    s.results = [] ∧ s.outcome = .adopted ∧ s.fd = -1

namespace Emulations

/-- So it is for every tracee. -/
def PipesFirst (self : Emulations) : Prop :=
  ∀ pid s, self.active pid = some (.sequence s) → s.PipeFirst

theorem Starting.pipeFirst {self : Emulations} {pid : Pid} {regs : Regs} {t : Tracee}
    {q : Sequence} (h : Starting regs (self.planned pid regs) (answeredBy regs) t q) :
    q.PipeFirst := by
  obtain ⟨first, hrun, hplan, -⟩ := h.plan
  constructor
  · intro buffer
    have htail := self.planned_noPipe pid regs buffer
    rw [hplan] at htail
    exact htail
  · intro buffer hpipe
    obtain rfl : first = .pipe buffer := Option.some.inj (hrun.symm.trans hpipe)
    exact ⟨h.results, h.outcome.trans (answeredBy_of_pipe hplan), h.fd⟩

/-- The calls that follow make no pipe. -/
theorem advance_pipeFirst (env : Env) (self : Emulations) (pid : Pid) (t : Tracee) (regs : Regs)
    {s s' : Sequence} (h : s.PipeFirst)
    (hs' : (self.advance env pid t regs s).1.active pid = some (.sequence s')) :
    s'.PipeFirst := by
  have hadopt := Sequence.adopt_snd env self pid t s regs.rax.toInt
  unfold advance at hs'
  dsimp only at hs'
  rw [hadopt] at hs'
  split at hs'
  · rename_i step queue hnext
    rw [setActive_active_self] at hs'
    obtain rfl := Active.sequence.inj (Option.some.inj hs')
    obtain ⟨hstep, hqueue⟩ := Sequence.mem_of_next hnext
    rw [Sequence.returned_queue] at hstep hqueue
    refine ⟨fun buffer hmem => h.queue buffer (hqueue hmem), fun buffer hrun => ?_⟩
    obtain rfl : step = .pipe buffer := Option.some.inj hrun
    exact absurd hstep (h.queue buffer)
  · rw [forget_active_self] at hs'
    exact absurd hs' (by simp)

theorem step_pipeFirst (env : Env) (self : Emulations) (pid : Pid) (t : Tracee) {s' : Sequence}
    (h : self.PipesFirst) (hs' : (self.step env pid t).1.active pid = some (.sequence s')) :
    s'.PipeFirst := by
  unfold step at hs'
  cases ha : self.active pid with
  | none =>
    rw [ha] at hs'
    exact h pid s' hs'
  | some a =>
    rw [ha] at hs'
    cases a with
    | fixup result => exact absurd hs' (by simp)
    | sequence s =>
      dsimp only at hs'
      split_ifs at hs' with hentry
      · rw [setActive_active_self] at hs'
        obtain rfl := Active.sequence.inj (Option.some.inj hs')
        exact ⟨(h pid s ha).queue, (h pid s ha).running⟩
      · cases hregs : t.getregs with
        | none =>
          rw [hregs] at hs'
          exact absurd hs' (by simp)
        | some regs =>
          rw [hregs] at hs'
          exact advance_pipeFirst env self pid t regs (h pid s ha) hs'

end Emulations

namespace Shared

open Emulations

/-- Every use the tracer makes of its emulations keeps the pipes first. -/
theorem next_pipesFirst {s : Shared} {e : Event} (h : s.emulated.PipesFirst) (he : s.Called e) :
    (s.next e).emulated.PipesFirst := by
  intro pid q hq
  change (s.emulated.next e).active pid = some (.sequence q) at hq
  by_cases hpid : e.pid = some pid
  · cases e with
    | begin env p t entering =>
      obtain rfl : p = pid := Option.some.inj hpid
      obtain ⟨regs, -, hstarting⟩ := begin_sequence env (not_busy_iff.1 he) hq
      exact hstarting.pipeFirst
    | step env p t =>
      obtain rfl : p = pid := Option.some.inj hpid
      exact step_pipeFirst env s.emulated p t h hq
    | tick env alarm => exact absurd hpid (by simp [Event.pid])
    | forget p =>
      obtain rfl : p = pid := Option.some.inj hpid
      exact absurd hq (by simp [Emulations.next])
  · rw [next_active_of_ne s.emulated hpid] at hq
    exact h pid q hq

/-- In every reachable state the pipes come first. -/
theorem foldl_pipesFirst {es : List Event} (hes : Along next Called start es) :
    (es.foldl next start).emulated.PipesFirst :=
  @foldl_invariant _ _ next Called (fun s => s.emulated.PipesFirst)
    (fun _ _ h he => next_pipesFirst h he) _ _ (fun _ _ hq => absurd hq (by simp [start, new])) hes

end Shared

namespace Emulations

variable {self : Emulations} {pid : Pid} {t : Tracee} {s : Sequence} {buffer : U64}

/-- What is to become of the exit stop of a pipe that could not be made: the error is
the answer, the tables are left alone, and nothing is adopted. -/
structure Refused (env : Env) (self : Emulations) (pid : Pid) (t : Tracee) (s : Sequence) :
    Prop where
  idle : (self.step env pid t).1.active pid = none
  answer : (self.step env pid t).2.regs = { s.saved with rax := t.regs.rax }
  tables : (self.step env pid t).1.tables = self.tables
  adopts : self.adopts (.step env pid t) = none

/-- What is adopted when the call that makes a pipe returns. -/
theorem adoption_of_pipe (env : Env) (hactive : self.active pid = some (.sequence s))
    (hrun : s.running = some (.pipe buffer)) (hentry : s.atEntry = false)
    (hget : t.canGet = true) :
    adoption env pid t (self.active pid) = capture env pid t buffer s.clockid := by
  rw [hactive]
  unfold adoption
  dsimp only
  rw [if_pos ⟨hentry, hget⟩, hrun]

theorem capture_isNone (env : Env) (pid : Pid) (t : Tracee) (buffer : U64) (clockid : ℤ) :
    capture env pid t buffer clockid = none ↔ pipeEnds env pid t.mem buffer = none := by
  unfold capture pipeEnds
  cases t.mem.readStruct buffer 8 with
  | none => simp
  | some raw => simp

/-- The error of the pipe is the answer where nothing has been adopted. -/
theorem returned_answer (env : Env) (pid : Pid) (mem : Memory) {rax : ℤ} (h : s.PipeFirst)
    (hrun : s.running = some (.pipe buffer)) (herr : isError rax = true)
    (hends : pipeEnds env pid mem buffer = none) :
    (s.returned env pid mem rax).next.1 = none ∧ (s.returned env pid mem rax).answer = rax := by
  obtain ⟨hresults, houtcome, hfd⟩ := h.running buffer hrun
  have hreturned : s.returned env pid mem rax =
      { s.collect rax with results := [rax, -Errno.EIO] } := by
    unfold Sequence.returned
    rw [hrun]
    dsimp only
    rw [hends]
    dsimp only
    rw [s.collect_results, hresults]
    rfl
  have hall : (s.returned env pid mem rax).results = [rax, -Errno.EIO] := by rw [hreturned]
  have hadopted : (s.returned env pid mem rax).outcome = .adopted :=
    (s.returned_outcome ..).trans houtcome
  have hnothing : (s.returned env pid mem rax).fd = -1 := by
    rw [hreturned]
    unfold Sequence.collect
    dsimp only
    rw [hrun, if_neg (by simp [Step.returnsFd])]
    exact hfd
  refine ⟨Sequence.next_of_first_failure hall herr, ?_⟩
  unfold Sequence.answer Sequence.failure
  rw [hadopted, hnothing, hall, List.find?_cons_of_pos herr]
  rfl

/-- **A `timerfd_create` whose pipe cannot be made**, in every reachable state and whatever
is in memory: the application is told the error and nothing is adopted exactly if what is
in the buffer cannot be read, or its second number is no descriptor of the tracee that
can be opened for writing. -/
theorem failed_pipe_refused_iff {es : List Event} (env : Env)
    (hes : Along Shared.next Shared.Called Shared.start es)
    (hactive : (es.foldl Shared.next Shared.start).emulated.active pid = some (.sequence s))
    (hrun : s.running = some (.pipe buffer)) (hentry : s.atEntry = false)
    (hget : t.canGet = true) (hset : t.canSet = true) (herr : isError t.regs.rax.toInt = true) :
    Refused env (es.foldl Shared.next Shared.start).emulated pid t s ↔
      pipeEnds env pid t.mem buffer = none := by
  have hfirst := Shared.foldl_pipesFirst hes pid s hactive
  generalize (es.foldl Shared.next Shared.start).emulated = self at hactive
  have hadoption := adoption_of_pipe env hactive hrun hentry hget
  constructor
  · rintro ⟨-, -, -, hnone⟩
    change adoption env pid t (self.active pid) = none at hnone
    rw [hadoption] at hnone
    exact (capture_isNone ..).1 hnone
  · intro hends
    have hnone := hadoption.trans ((capture_isNone env pid t buffer s.clockid).2 hends)
    obtain ⟨hnext, hanswer⟩ := returned_answer env pid t.mem hfirst hrun herr hends
    obtain ⟨hidle, hregs⟩ := step_over env hactive hentry hget hset hnext
    refine ⟨hidle, ?_, ?_, hnone⟩
    · rw [hregs, hanswer]
      exact congrArg (fun rax => { s.saved with rax }) (BitVec.ofInt_toInt ..)
    · have htables := step_tables env self pid t
      rw [hnone] at htables
      exact htables

/-- A `timerfd_create` in a process that has no descriptors left. -/
theorem failed_pipe_refused_iff_emfile :
    let env := { Env.still Host.centos5 with openWrite := fun _ _ => none }
    let es : List Event := [.begin env 1 (.entryOf Nr.timerfdCreate 1 0 0 0) true]
    ∃ s, Refused env (es.foldl Shared.next Shared.start).emulated 1 (.exitOf (-24)) s := by
  intro env es
  have hes : Along Shared.next Shared.Called Shared.start es := ⟨rfl, trivial⟩
  exact ⟨_, (failed_pipe_refused_iff env hes rfl rfl rfl rfl rfl (by decide)).2 rfl⟩

/-- A `timerfd_create`, which gets descriptor 5, and the `timerfd_settime` that arms it for
five seconds; then another `timerfd_create`. -/
def secondTimer : List Event :=
  let env := Env.still Host.centos5
  let armed := { Tracee.entryOf Nr.timerfdSettime 5 0 0x9000 0 with
    mem := fun a => some (if a = 0x9010 then 5 else 0) }
  [.begin env 1 (.entryOf Nr.timerfdCreate 1 0 0 0) true, .step env 1 Shared.pipeMade,
    .step env 1 (.exitOf 0), .step env 1 (.exitOf 0), .begin env 1 armed true,
    .step env 1 (.exitOf 0), .begin env 1 (.entryOf Nr.timerfdCreate 1 0 0 0) true]

/-- **A pipe that could not be made is adopted**: the second `timerfd_create` fails for want
of descriptors and finds the first one's pair in its buffer.  The application gets the
descriptor of the first timer, which is disarmed. -/
theorem stale_pair_adopted :
    let env := Env.still Host.centos5
    let self := (secondTimer.foldl Shared.next Shared.start).emulated
    let t := { Shared.pipeMade with regs := (Tracee.exitOf (-24)).regs }
    Along Shared.next Shared.Called Shared.start secondTimer ∧
      (∃ s, self.active 1 = some (.sequence s) ∧ s.running = some (.pipe 0x7e00)) ∧
      self.stored 5 = (some ⟨1, some ⟨6, 0⟩, Time.zero⟩, some 0) ∧
      (self.step env 1 t).2.regs.rax = 5 ∧
      (self.step env 1 t).1.stored 5 = (some ⟨1, none, Time.zero⟩, some 0) :=
  ⟨⟨rfl, trivial, trivial, trivial, rfl, trivial, rfl, trivial⟩, ⟨_, rfl, rfl⟩, by decide +kernel,
    by decide +kernel, by decide +kernel⟩

end Emulations
end Emulation
end Sharun
