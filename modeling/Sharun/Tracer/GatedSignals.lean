/-
# The handler of a signal that only the wait lets in

`EpollPwait` runs an emulated `epoll_pwait` beside the kernel's record of the tracee's
signals.  Every such run is on a `Course`.  While no handler is entered, the three calls
of `pwaitCalls` are made one after the other (`Straight`), and nothing but a `SIGTRAP`
is delivered before the last of them has been made.  Once the handler of a `SIGTRAP` has
been entered, the tracer takes the stops of whatever call comes next for those of its
own (`Ahead`), so that one of the three is left out.

What is queued at the end is known in either case (`Queue`): the signals sent since the
entry stop of the last call, the one held back, and those that stop left queued.  So it
is known when the handler of a signal that only the wait lets in has been entered, or
is entered then (`gated_signal_entered_iff`).
-/

import Sharun.Tracer.EpollPwait

namespace Sharun
namespace Tracing

open Machine Emulation Sharun.Basis

/-- The calls of an emulated `epoll_pwait`. -/
def pwaitCalls (regs : Regs) : List Call :=
  [⟨Nr.rtSigprocmask, SIG_SETMASK, regs.r8, scratchFor regs, 8, 0, 0⟩,
    ⟨Nr.epollWait, regs.rdi, regs.rsi, regs.rdx, regs.r10, 0, 0⟩,
    ⟨Nr.rtSigprocmask, SIG_SETMASK, scratchFor regs, 0, 8, 0, 0⟩]

theorem not_isError_of_nonneg {rc : ℤ} (h : 0 ≤ rc) : isError rc = false := by
  unfold isError
  simp only [Bool.and_eq_false_iff, decide_eq_false_iff_not]
  omega

/-- The wait's own result is the answer. -/
theorem answer_of_wait {s : Sequence} {set wait restore : ℤ} (houtcome : s.outcome = .call 1)
    (hresults : s.results = [set, wait, restore]) (hset : 0 ≤ set)
    (hwait : 0 ≤ wait ∨ isError wait = true) : s.answer = wait := by
  unfold Sequence.answer Sequence.failure
  rw [houtcome, hresults]
  change (if 0 ≤ wait then wait else _) = wait
  rw [List.find?_cons_of_neg (by simp [not_isError_of_nonneg hset])]
  split_ifs with hpos
  · rfl
  · rw [List.find?_cons_of_pos (hwait.resolve_left hpos)]
    rfl

/-- Where the first call fails its error is the answer. -/
theorem answer_of_refused {s : Sequence} {rax : ℤ} (houtcome : s.outcome = .call 1)
    (hresults : s.results = [rax]) (hfailed : isError rax = true) : s.answer = rax := by
  unfold Sequence.answer Sequence.failure
  rw [houtcome, hresults, List.find?_cons_of_pos hfailed]
  rfl

/-- How far an emulated `epoll_pwait` has come: the call that is set up or in progress, what
those before it have returned and the ones still to come. -/
inductive PwaitStage (regs : Regs) (s : Sequence) : Step → Prop
  | set (hresults : s.results = [])
      (hqueue : s.queue = [.epollWait regs.rdi regs.rsi regs.rdx regs.r10,
        .sigprocmask (scratchFor regs) 0 true]) :
      PwaitStage regs s (.sigprocmask regs.r8 (scratchFor regs) false)
  | wait (hresults : s.results = [0])
      (hqueue : s.queue = [.sigprocmask (scratchFor regs) 0 true]) :
      PwaitStage regs s (.epollWait regs.rdi regs.rsi regs.rdx regs.r10)
  | restore (wait : ℤ) (hresults : s.results = [0, wait]) (hqueue : s.queue = []) :
      PwaitStage regs s (.sigprocmask (scratchFor regs) 0 true)

namespace PwaitStage

variable {regs : Regs} {s : Sequence} {step : Step}

theorem length_le (h : PwaitStage regs s step) : s.results.length ≤ 2 := by
  cases h with
  | set hresults => simp [hresults]
  | wait hresults => simp [hresults]
  | restore _ hresults => simp [hresults]

theorem not_pipe (h : PwaitStage regs s step) (buffer : U64) : step ≠ .pipe buffer := by
  cases h <;> simp

theorem build_eq (h : PwaitStage regs s step) :
    (pwaitCalls regs).take s.results.length ++ [build step s] =
      (pwaitCalls regs).take (s.results.length + 1) := by
  cases h with
  | set hresults => rw [hresults]; rfl
  | wait hresults => rw [hresults]; rfl
  | restore _ hresults => rw [hresults]; rfl

/-- The record at the entry stop of a call is as far as the one before it. -/
theorem atEntry (h : PwaitStage regs s step) (b : Bool) :
    PwaitStage regs { s with atEntry := b } step := by
  cases h with
  | set hresults hqueue => exact .set hresults hqueue
  | wait hresults hqueue => exact .wait hresults hqueue
  | restore wait hresults hqueue => exact .restore wait hresults hqueue

/-- After the first call, should it have succeeded, the wait is next. -/
theorem next_set (hresults : s.results = []) (hqueue : s.queue =
      [.epollWait regs.rdi regs.rsi regs.rdx regs.r10, .sigprocmask (scratchFor regs) 0 true])
    {set : ℤ} (hok : 0 ≤ set) :
    (s.collect set).next = (some (.epollWait regs.rdi regs.rsi regs.rdx regs.r10),
      [.sigprocmask (scratchFor regs) 0 true]) := by
  have hsuccess : (s.collect set).failure.isNone = true := by
    unfold Sequence.failure
    rw [s.collect_results, hresults]
    simp [not_isError_of_nonneg hok]
  have hnext := Sequence.next_of_success hsuccess
  change _ = (s.queue.head?, s.queue.tail) at hnext
  rw [hnext, hqueue]
  rfl

/-- After the wait the last call is next, whatever the wait has returned. -/
theorem next_wait {set : ℤ} (hresults : s.results = [set]) (hok : 0 ≤ set)
    (hqueue : s.queue = [.sigprocmask (scratchFor regs) 0 true]) (wait : ℤ) :
    (s.collect wait).next = (some (.sigprocmask (scratchFor regs) 0 true), []) := by
  refine Sequence.next_of_always hqueue rfl ?_
  unfold Sequence.tookEffect
  rw [s.collect_results, hresults]
  simp [hok]

/-- Once the first call has succeeded the emulation goes on to the last. -/
theorem next (h : PwaitStage regs s step) (hne : s.results ≠ []) (rax : ℤ) :
    (∃ step' queue, (s.collect rax).next = (some step', queue) ∧
      PwaitStage regs
        { s.collect rax with queue, running := some step', atEntry := true } step') ∨
    (s.collect rax).next.1 = none ∧ s.results.length = 2 := by
  cases h with
  | set hresults => exact absurd hresults hne
  | wait hresults hqueue =>
    refine Or.inl ⟨_, _, next_wait hresults le_rfl hqueue rax, .restore rax ?_ rfl⟩
    change s.results ++ [rax] = _
    rw [hresults]
    rfl
  | restore _ hresults hqueue =>
    exact Or.inr ⟨Sequence.next_of_empty hqueue, by rw [hresults]; rfl⟩

end PwaitStage

namespace Injected

/-- The tracer takes the stops of a tracee for those of the call `step`, whatever call the
tracee makes. -/
structure Ahead (pid : Pid) (x : Injected) (s : Sequence) (step : Step) : Prop where
  mode : x.tracer.EverySyscall
  active : x.tracer.emulated.active pid = some (.sequence s)
  running : s.running = some step
  atEntry : s.atEntry = !x.inside
  stops : x.stops = 2 * s.results.length + if x.inside then 1 else 0

section

variable {pid : Pid} {regs : Regs} {flag : Option Bool} {x : Injected} {s : Sequence} {step : Step}

theorem AtCall.ahead (h : AtCall pid regs flag x s step)
    (hmade : x.made.length = s.results.length) : Ahead pid x s step :=
  ⟨h.mode, h.active, h.running, h.atEntry, by rw [h.stops, hmade]⟩

theorem Ahead.busy (h : Ahead pid x s step) : x.tracer.emulated.busy pid = true :=
  Emulations.busy_iff.2 ⟨_, h.active⟩

/-- The tracer's record of the tracee is all there is to it. -/
theorem Ahead.of_tracer (h : Ahead pid x s step) {x' : Injected} (hmode : x'.tracer.EverySyscall)
    (hactive : x'.tracer.emulated.active pid = x.tracer.emulated.active pid)
    (hinside : x'.inside = x.inside) (hstops : x'.stops = x.stops) : Ahead pid x' s step :=
  ⟨hmode, hactive.trans h.active, h.running, by rw [hinside]; exact h.atEntry,
    by rw [hstops, hinside]; exact h.stops⟩

/-- The entry stop of a call, which is taken for that of `step`. -/
theorem Ahead.entry (h : Ahead pid x s step) (hin : x.inside = false) (env : Env) (alarm : Bool)
    (t : Tracee) :
    ∃ x', x.stop pid env alarm t true = some x' ∧ x'.inside = true ∧ x'.made = x.made ∧
      Ahead pid x' { s with atEntry := false } step := by
  have hentry : s.atEntry = true := by rw [h.atEntry, hin]; rfl
  obtain ⟨x', e, hstop, hmode, he, hemulated, -, -, hinside, hmade, hstops⟩ :=
    stop_emulated h.mode h.active env alarm t true
  have hactive : e.active pid = some (.sequence s) := by rw [he, h.active]
  rw [Emulations.step_entry env hactive hentry] at hemulated
  refine ⟨x', hstop, hinside, hmade, hmode, ?_, h.running, ?_, ?_⟩
  · rw [hemulated]
    exact Emulations.setActive_active_self ..
  · rw [hinside]
    rfl
  · rw [hstops, h.stops, hin, hinside]
    rfl

/-- The exit stop of a call: what it returned is taken for what `step` returned. -/
theorem Ahead.exit (h : Ahead pid x s step) (hin : x.inside = true)
    (hpipe : ∀ buffer, step ≠ .pipe buffer) (env : Env) (alarm : Bool) {t : Tracee}
    (hget : t.canGet = true) (hset : t.canSet = true) :
    ∃ x', x.stop pid env alarm t false = some x' ∧ x'.inside = false ∧ x'.made = x.made ∧
      (∀ step' queue, (s.collect t.regs.rax.toInt).next = (some step', queue) →
        Ahead pid x' { s.collect t.regs.rax.toInt with
          queue, running := some step', atEntry := true } step') ∧
      ((s.collect t.regs.rax.toInt).next.1 = none → x'.tracer.emulated.busy pid = false) := by
  have hentry : s.atEntry = false := by rw [h.atEntry, hin]; rfl
  obtain ⟨x', e, hstop, hmode, he, hemulated, -, -, hinside, hmade, hstops⟩ :=
    stop_emulated h.mode h.active env alarm t false
  have hactive : e.active pid = some (.sequence s) := by rw [he, h.active]
  have hreturned := s.returned_eq_collect env pid t.mem t.regs.rax.toInt h.running hpipe
  refine ⟨x', hstop, hinside, hmade, fun step' queue hnext => ?_, fun hnext => ?_⟩
  · rw [← hreturned] at hnext
    obtain ⟨hactive', -⟩ := Emulations.step_again env hactive hentry hget hset hnext
    rw [← hemulated, hreturned] at hactive'
    refine ⟨hmode, hactive', rfl, by rw [hinside]; rfl, ?_⟩
    change x'.stops = 2 * (s.collect t.regs.rax.toInt).results.length + _
    rw [hstops, h.stops, hin, hinside, s.collect_results, List.length_append]
    rfl
  · rw [← hreturned] at hnext
    obtain ⟨hidle, -⟩ := Emulations.step_over env hactive hentry hget hset hnext
    rw [← hemulated] at hidle
    exact Emulations.not_busy_iff.2 hidle

end

end Injected

namespace Waiting

open Injected (AtCall Ahead)

/-- The mask that is in force once the last call has been made: what is in memory at the
scratch address by then, should there be one. -/
def putBack (regs : Regs) (w : Mask) (x : Waiting) : Mask :=
  if scratchFor regs = 0 then w else (x.stored (scratchFor regs)).getD w

/-! ### The course of the emulation -/

/-- The signals queued and held while the emulation is in progress. -/
structure Queue (pid : Pid) (x : Waiting) : Prop where
  held : x.call.tracer.stashedSignal pid = x.held
  early : x.late = false → x.tardy = ∅
  late : x.late = true → x.pending = x.blocked ∪ x.tardy

/-- The signals queued at its end. -/
def Queued (x : Waiting) : Prop := x.pending = x.blocked ∪ x.tardy ∪ x.held.toFinset

/-- No handler has been entered, and the calls are made one after the other. -/
structure Straight (regs : Regs) (c w : Mask) (x : Waiting) (s : Sequence) : Prop where
  entered : x.entered = []
  frame : x.frame = none
  results : x.results.map (·.toInt) = s.results
  sound : ∀ r ∈ x.results, 0 ≤ r.toInt ∨ isError r.toInt = true
  made : x.call.made = (pwaitCalls regs).take s.results.length
  first : s.results = [] → x.call.inside = true ∧ x.mask = c ∧
    (if regs.r8 = 0 then some c else x.stored regs.r8) = some w
  waits : s.results ≠ [] → x.mask = w
  sent : x.pending ⊆ x.timely ∪ x.tardy
  trap : Signo.SIGTRAP ∈ x.timely →
    Signo.SIGTRAP ∈ (if x.late then w else x.pending) ∨ Signo.SIGTRAP ∈ x.ignored
  blocked : x.late = true → x.blocked ⊆ w

/-- The handler of a `SIGTRAP` has been entered, and no other. -/
structure Trapped (x : Waiting) : Prop where
  entered : x.entered ≠ []
  only : ∀ sig ∈ x.entered, sig = Signo.SIGTRAP
  timely : Signo.SIGTRAP ∈ x.timely
  served : ∃ r rest, x.results = r :: rest ∧ isError r.toInt = false

/-- The emulation has ended and no handler has been entered. -/
inductive Finished (regs : Regs) (w : Mask) (x : Waiting) : Prop
  | refused (hresults : x.results = [asU64 (-Errno.EFAULT)])
      (hmade : x.call.made = (pwaitCalls regs).take 1)
      (hrax : x.call.tracee.regs.rax = asU64 (-Errno.EFAULT))
  | served (wait last : U64) (hresults : x.results = [0, wait, last])
      (hmade : x.call.made = pwaitCalls regs) (hrax : x.call.tracee.regs.rax = wait)
      (hmask : x.mask = putBack regs w x) (hqueued : x.Queued) (hblocked : x.blocked ⊆ w)
      (htrap : Signo.SIGTRAP ∈ x.timely → Signo.SIGTRAP ∈ w ∨ Signo.SIGTRAP ∈ x.ignored)

/-- Where a run of the emulation has come to. -/
inductive Course (pid : Pid) (regs : Regs) (flag : Option Bool) (c w : Mask) (x : Waiting) : Prop
  | inside {s : Sequence} {step : Step} (hat : AtCall pid regs flag x.call s step)
      (houtcome : s.outcome = .call 1) (hstage : PwaitStage regs s step)
      (hstraight : Straight regs c w x s) (hqueue : Queue pid x)
  | ended (hidle : x.call.tracer.emulated.busy pid = false) (hentered : x.entered = [])
      (hfinished : Finished regs w x)
  /-- A handler has been entered: at least one of the calls made so far was its own, or the
  next one will be. -/
  | astray {s : Sequence} {step : Step} (hahead : Ahead pid x.call s step)
      (hstage : PwaitStage regs s step) (hqueue : Queue pid x) (htrapped : Trapped x)
      (hmade : x.call.made.length + (if x.frame.isSome then 0 else 1) ≤ s.results.length)
      (hne : s.results ≠ [])
  | strayed (hidle : x.call.tracer.emulated.busy pid = false) (htrapped : Trapped x)
      (hmade : x.call.made.length ≤ 2) (hqueued : x.Queued)

section

variable {pid : Pid} {regs : Regs} {flag : Option Bool} {c w : Mask} {x y : Waiting}
  {s : Sequence} {step : Step}

theorem late_iff (h : Ahead pid x.call s step) (hle : s.results.length ≤ 2) :
    x.late = true ↔ s.results.length = 2 ∧ x.call.inside = true := by
  unfold late
  rw [decide_eq_true_iff, h.stops]
  cases x.call.inside
  · simp only [Bool.false_eq_true, if_false, and_false, iff_false]
    omega
  · simp only [if_true, and_true]
    omega

/-- At an exit stop it is not yet late. -/
theorem early_of_exit (h : Ahead pid x.call s step) (hle : s.results.length ≤ 2)
    (hin : x.call.inside = false) : x.late = false := by
  rw [← Bool.not_eq_true, late_iff h hle, hin]
  exact fun hc => absurd hc.2 (by decide)

theorem Straight.length_made (h : Straight regs c w x s) (hstage : PwaitStage regs s step) :
    x.call.made.length = s.results.length := by
  rw [h.made, List.length_take]
  exact min_eq_left (hstage.length_le.trans (Nat.le_succ 2))

/-- Past the first call, it has succeeded. -/
theorem Straight.served (h : Straight regs c w x s) (hstage : PwaitStage regs s step)
    (hne : s.results ≠ []) : ∃ r rest, x.results = r :: rest ∧ isError r.toInt = false := by
  have hresults := h.results
  cases hx : x.results with
  | nil =>
    rw [hx] at hresults
    exact absurd hresults.symm hne
  | cons r rest =>
    refine ⟨r, rest, rfl, ?_⟩
    rw [hx, List.map_cons] at hresults
    have hzero : r.toInt = 0 := by
      cases hstage with
      | set hempty => exact absurd hempty hne
      | wait hone => exact (List.cons.inj (hresults.trans hone)).1
      | restore _ htwo => exact (List.cons.inj (hresults.trans htwo)).1
    rw [hzero]
    decide

/-- Before the last call nothing is known of what is queued. -/
theorem Queue.of_early (h : Queue pid x) (hearly : x.late = false)
    (hheld : y.call.tracer.stashedSignal pid = y.held) (htardy : y.tardy = x.tardy)
    (hlate : y.late = true → y.pending = y.blocked) : Queue pid y := by
  have hnone : y.tardy = ∅ := htardy.trans (h.early hearly)
  refine ⟨hheld, fun _ => hnone, fun hl => ?_⟩
  rw [hnone, Finset.union_empty]
  exact hlate hl

theorem Queue.send (h : Queue pid x) (gadget : U64) (sig : ℤ) :
    Queue pid (x.step pid gadget (.send sig)) := by
  have hlate : (x.step pid gadget (.send sig)).late = x.late := rfl
  have htardy : (x.step pid gadget (.send sig)).tardy =
      if x.late then insert sig x.tardy else x.tardy := rfl
  refine ⟨h.held, fun hl => ?_, fun hl => ?_⟩
  · rw [hlate] at hl
    rw [htardy, if_neg (by simp [hl])]
    exact h.early hl
  · rw [hlate] at hl
    rw [htardy, if_pos hl]
    change insert sig x.pending = x.blocked ∪ insert sig x.tardy
    rw [h.late hl, Finset.union_insert]

theorem Trapped.send (h : Trapped x) (gadget : U64) (sig : ℤ) :
    Trapped (x.step pid gadget (.send sig)) := by
  refine ⟨h.entered, h.only, ?_, h.served⟩
  change _ ∈ if x.late then x.timely else insert sig x.timely
  split_ifs
  · exact h.timely
  · exact Finset.mem_insert_of_mem h.timely

theorem course_send (h : Course pid regs flag c w x) (hbusy : x.Busy pid) (gadget : U64)
    (sig : ℤ) : Course pid regs flag c w (x.step pid gadget (.send sig)) := by
  cases h with
  | ended hidle => exact absurd (hidle.symm.trans hbusy) (by decide)
  | strayed hidle => exact absurd (hidle.symm.trans hbusy) (by decide)
  | astray hahead hstage hqueue htrapped hmade hne =>
    exact .astray hahead hstage (hqueue.send gadget sig) (htrapped.send gadget sig) hmade hne
  | inside hat houtcome hstage hs hqueue =>
    refine .inside hat houtcome hstage ⟨hs.entered, hs.frame, hs.results, hs.sound, hs.made,
      hs.first, hs.waits, ?_, ?_, hs.blocked⟩ (hqueue.send gadget sig)
    · change insert sig x.pending ⊆ (if x.late then x.timely else insert sig x.timely) ∪
        (if x.late then insert sig x.tardy else x.tardy)
      split_ifs
      · rw [Finset.union_insert]
        exact Finset.insert_subset_insert sig hs.sent
      · rw [Finset.insert_union]
        exact Finset.insert_subset_insert sig hs.sent
    change _ ∈ (if x.late then x.timely else insert sig x.timely) →
      _ ∈ (if x.late then w else insert sig x.pending) ∨ _ ∈ x.ignored
    have htrap := hs.trap
    split_ifs at htrap ⊢ with hl
    · exact htrap
    · intro hmem
      rcases Finset.mem_insert.1 hmem with heq | hmem
      · exact Or.inl (heq ▸ Finset.mem_insert_self ..)
      · exact (htrap hmem).imp_left fun h => Finset.mem_insert_of_mem h

/-- The tracee at a signal stop inside the emulation, before anything is delivered. -/
def atSignal (x : Waiting) (pid : Pid) (env : Env) (alarm : Bool) (sig : ℤ) : Waiting :=
  { x with
    call := { x.call with tracer := x.call.tracer.next (x.signalTurn pid env alarm sig) }
    pending := x.pending.erase sig
    held := if Tracer.heldBack sig then some sig else x.held }

/-- A signal stop: `SIGTRAP` is delivered, and nothing else. -/
theorem step_signal (hmode : x.call.tracer.EverySyscall) (hbusy : x.Busy pid) (gadget : U64)
    (env : Env) (alarm : Bool) (sig : ℤ) (handler : Option HandlerEntry) :
    x.step pid gadget (.signal env alarm sig handler) =
      if sig = Signo.SIGTRAP then (x.atSignal pid env alarm sig).deliver sig handler
      else x.atSignal pid env alarm sig := by
  have hstop := Tracer.turn_signalStop (u := x.signalTurn pid env alarm sig) hmode hbusy rfl
  unfold step
  dsimp only
  rw [hstop.passed, hstop.tracee]
  by_cases hsig : sig = Signo.SIGTRAP
  · rw [if_pos hsig, if_pos hsig]
    rfl
  · rw [if_neg hsig, if_neg hsig]
    rfl

theorem Queue.atSignal (h : Queue pid x) (hmode : x.call.tracer.EverySyscall)
    (hbusy : x.Busy pid) (hearly : x.late = false) (env : Env) (alarm : Bool) (sig : ℤ) :
    Queue pid (x.atSignal pid env alarm sig) := by
  have hstop := Tracer.turn_signalStop (u := x.signalTurn pid env alarm sig) hmode hbusy rfl
  refine h.of_early hearly (hstop.held.trans ?_) rfl fun hl => ?_
  · rw [h.held]
    rfl
  · exact absurd (hearly.symm.trans hl) (by decide)

theorem course_signal (h : Course pid regs flag c w x) (hbusy : x.Busy pid)
    (hout : x.call.inside = false) (gadget : U64) (env : Env) (alarm : Bool) {sig : ℤ}
    (hpending : sig ∈ x.pending) (handler : Option HandlerEntry) :
    Course pid regs flag c w (x.step pid gadget (.signal env alarm sig handler)) := by
  cases h with
  | ended hidle => exact absurd (hidle.symm.trans hbusy) (by decide)
  | strayed hidle => exact absurd (hidle.symm.trans hbusy) (by decide)
  | @astray s step hahead hstage hqueue htrapped hmade hne =>
    have hstop :=
      Tracer.turn_signalStop (u := x.signalTurn pid env alarm sig) hahead.mode hbusy rfl
    have hearly := early_of_exit hahead hstage.length_le hout
    have hqueue' := hqueue.atSignal hahead.mode hbusy hearly env alarm sig
    have hahead' : Ahead pid (x.atSignal pid env alarm sig).call s step :=
      hahead.of_tracer (hahead.mode.next _) hstop.active rfl rfl
    rw [step_signal hahead.mode hbusy]
    split_ifs with hsig
    · cases handler with
      | none =>
        exact .astray hahead' hstage ⟨hqueue'.held, hqueue'.early, hqueue'.late⟩
          ⟨htrapped.entered, htrapped.only, htrapped.timely, htrapped.served⟩ hmade hne
      | some h =>
        refine .astray (hahead'.of_tracer hahead'.mode rfl rfl rfl) hstage
          ⟨hqueue'.held, hqueue'.early, hqueue'.late⟩
          ⟨by simp [deliver], ?_, htrapped.timely, htrapped.served⟩ ?_ hne
        · intro other hother
          rcases List.mem_append.1 hother with hother | hother
          · exact htrapped.only other hother
          · exact (List.mem_singleton.1 hother).trans hsig
        · exact (Nat.le_add_right ..).trans hmade
    · exact .astray hahead' hstage hqueue'
        ⟨htrapped.entered, htrapped.only, htrapped.timely, htrapped.served⟩ hmade hne
  | @inside s step hat houtcome hstage hs hqueue =>
    have hlength := hs.length_made hstage
    have hahead := hat.ahead hlength
    have hstop := Tracer.turn_signalStop (u := x.signalTurn pid env alarm sig) hat.mode hbusy rfl
    have hearly := early_of_exit hahead hstage.length_le hout
    have hqueue' := hqueue.atSignal hat.mode hbusy hearly env alarm sig
    have hat' : AtCall pid regs flag (x.atSignal pid env alarm sig).call s step :=
      hat.of_tracer (hat.mode.next _) hstop.active hstop.flag
    have hne : s.results ≠ [] := fun hempty =>
      absurd (hout.symm.trans (hs.first hempty).1) (by decide)
    have htrap := hs.trap
    rw [hearly] at htrap
    have hsent := (Finset.erase_subset sig x.pending).trans hs.sent
    rw [step_signal hat.mode hbusy]
    split_ifs with hsig
    · cases handler with
      | none =>
        refine .inside hat' houtcome hstage ⟨hs.entered, hs.frame, hs.results, hs.sound, hs.made,
          hs.first, hs.waits, hsent, fun _ => Or.inr ?_, hs.blocked⟩
          ⟨hqueue'.held, hqueue'.early, hqueue'.late⟩
        exact hsig ▸ Finset.mem_insert_self ..
      | some h =>
        have hahead' : Ahead pid (x.atSignal pid env alarm sig).call s step := hat'.ahead hlength
        refine .astray (hahead'.of_tracer hahead'.mode rfl rfl rfl) hstage
          ⟨hqueue'.held, hqueue'.early, hqueue'.late⟩ ⟨by simp [deliver], ?_, ?_, ?_⟩ ?_ hne
        · intro other hother
          change other ∈ x.entered ++ [sig] at hother
          rw [hs.entered] at hother
          exact (List.mem_singleton.1 hother).trans hsig
        · have hmem := hs.sent hpending
          rw [hqueue.early hearly, Finset.union_empty, hsig] at hmem
          exact hmem
        · exact hs.served hstage hne
        · exact hlength.le
    · refine .inside hat' houtcome hstage ⟨hs.entered, hs.frame, hs.results, hs.sound, hs.made,
        hs.first, hs.waits, hsent, fun hmem => ?_, hs.blocked⟩ hqueue'
      change _ ∈ (if x.late then w else x.pending.erase sig) ∨ _ ∈ x.ignored
      rw [hearly]
      exact (htrap hmem).imp_left fun h => Finset.mem_erase.2 ⟨Ne.symm hsig, h⟩

/-! ### Entry stops -/

/-- The signal held is kept at an entry stop. -/
theorem Queue.atEntry (h : Queue pid x) (hahead : Ahead pid x.call s step)
    (hearly : x.late = false) {env : Env} {alarm : Bool} {t : Tracee}
    (hstop : x.call.stop pid env alarm t true = some y.call)
    (hbusy : y.call.tracer.emulated.busy pid = true) (hheld : y.held = x.held)
    (htardy : y.tardy = x.tardy) (hblocked : y.pending = y.blocked) : Queue pid y := by
  have htracer := Injected.tracer_of_stop hstop
  refine h.of_early hearly ?_ htardy fun _ => hblocked
  rw [htracer] at hbusy ⊢
  rw [((Injected.stash_of_stop hahead.mode hahead.busy ..).1 hbusy).1, hheld]
  exact h.held

/-- The entry stop of a call that is not one of the three, or not in its place. -/
theorem course_entry (hahead : Ahead pid x.call s step) (hstage : PwaitStage regs s step)
    (hqueue : Queue pid x) (htrapped : Trapped y)
    (hmade : x.call.made.length + (if x.frame.isSome then 0 else 1) ≤ s.results.length)
    (hne : s.results ≠ []) (hout : x.call.inside = false) {env : Env} {alarm : Bool} {t : Tracee}
    (hstop : x.call.stop pid env alarm t true = some y.call) (hheld : y.held = x.held)
    (htardy : y.tardy = x.tardy) (hblocked : y.pending = y.blocked) (hframe : y.frame = x.frame) :
    Course pid regs flag c w y := by
  have hearly := early_of_exit hahead hstage.length_le hout
  obtain ⟨x', hx, -, hsame, hahead'⟩ := hahead.entry hout env alarm t
  obtain rfl : y.call = x' := Option.some.inj (hstop.symm.trans hx)
  refine .astray hahead' (hstage.atEntry false)
    (hqueue.atEntry hahead hearly hstop hahead'.busy hheld htardy hblocked) htrapped ?_ hne
  rw [hsame, hframe]
  exact hmade

theorem course_call (h : Course pid regs flag c w x) (hbusy : x.Busy pid)
    (hout : x.call.inside = false) (hframe : x.frame.isSome = true) (gadget : U64) (env : Env)
    (alarm : Bool) (t : Tracee) (stored : U64 → Option Mask) :
    Course pid regs flag c w (x.step pid gadget (.call env alarm t stored)) := by
  cases h with
  | ended hidle => exact absurd (hidle.symm.trans hbusy) (by decide)
  | strayed hidle => exact absurd (hidle.symm.trans hbusy) (by decide)
  | inside _ _ _ hs =>
    rw [hs.frame] at hframe
    exact absurd hframe (by decide)
  | astray hahead hstage hqueue htrapped hmade hne =>
    obtain ⟨x', hx, -⟩ := hahead.entry hout env alarm t
    have hcall : (x.step pid gadget (.call env alarm t stored)).call = x' := by
      change (x.call.stop pid env alarm t true).getD x.call = x'
      rw [hx]
      rfl
    exact course_entry hahead hstage hqueue
      ⟨htrapped.entered, htrapped.only, htrapped.timely, htrapped.served⟩ hmade hne hout
      (hx.trans (congrArg some hcall.symm)) rfl rfl rfl rfl

theorem course_enter (h : Course pid regs flag c w x) (hbusy : x.Busy pid)
    (hout : x.call.inside = false) (hblocked : x.pending ⊆ x.mask) (r : Served) :
    Course pid regs flag c w (x.step pid (regs.rip - 2) (.enter r)) := by
  have hcall : ∀ x', x.call.enter pid (regs.rip - 2) r = some x' →
      (x.step pid (regs.rip - 2) (.enter r)).call = x' := fun x' hx => by
    change (x.call.enter pid (regs.rip - 2) r).getD x.call = x'
    rw [hx]
    rfl
  cases h with
  | ended hidle => exact absurd (hidle.symm.trans hbusy) (by decide)
  | strayed hidle => exact absurd (hidle.symm.trans hbusy) (by decide)
  | astray hahead hstage hqueue htrapped hmade hne =>
    have htrapped' : Trapped (x.step pid (regs.rip - 2) (.enter r)) :=
      ⟨htrapped.entered, htrapped.only, htrapped.timely, htrapped.served⟩
    cases hx : x.call.enter pid (regs.rip - 2) r with
    | some x' =>
      have hstop := hx
      unfold Injected.enter at hstop
      rw [if_neg (by simp [hout])] at hstop
      split_ifs at hstop
      exact course_entry hahead hstage hqueue htrapped' hmade hne hout
        (hstop.trans (congrArg some (hcall x' hx).symm)) rfl rfl rfl rfl
    | none =>
      -- The tracee is not where its next call was set up.
      have hsame : (x.step pid (regs.rip - 2) (.enter r)).call = x.call := by
        change (x.call.enter pid (regs.rip - 2) r).getD x.call = x.call
        rw [hx]
        rfl
      have hearly := early_of_exit hahead hstage.length_le hout
      refine .astray (by rw [hsame]; exact hahead) hstage
        (hqueue.of_early hearly (by rw [hsame]; exact hqueue.held) rfl fun _ => rfl) htrapped' ?_
        hne
      rw [hsame]
      exact hmade
  | inside hat houtcome hstage hs hqueue =>
    have hahead := hat.ahead (hs.length_made hstage)
    have hearly := early_of_exit hahead hstage.length_le hout
    obtain ⟨x', hx, hinside, hmade, hat'⟩ := hat.enter r
    obtain ⟨t, hstop⟩ : ∃ t, x.call.stop pid r.entryEnv r.entryAlarm t true = some x' := by
      unfold Injected.enter at hx
      rw [if_neg (by simp [hout])] at hx
      split_ifs at hx
      exact ⟨_, hx⟩
    have hx' := hcall x' hx
    have htrap := hs.trap
    rw [hearly] at htrap
    have hmask : x.mask = w := hs.waits fun hempty =>
      absurd (hout.symm.trans (hs.first hempty).1) (by decide)
    rw [← hx'] at hstop hat' hmade hinside
    refine .inside hat' houtcome (hstage.atEntry false)
      ⟨hs.entered, hs.frame, hs.results, hs.sound, hmade.trans hs.made,
        fun hempty => ⟨hinside, (hs.first hempty).2⟩, hs.waits, hs.sent, fun hmem => ?_,
        fun _ => hmask ▸ hblocked⟩
      (hqueue.atEntry hahead hearly hstop hat'.busy rfl rfl rfl)
    refine (htrap hmem).imp_left fun hpending => ?_
    split_ifs
    · exact hmask ▸ hblocked hpending
    · exact hpending

theorem course_other (h : Course pid regs flag c w x) (hbusy : x.Busy pid) (gadget : U64)
    {u : Turn} (hu : u.wait.pid ≠ some pid) :
    Course pid regs flag c w (x.step pid gadget (.other u)) := by
  have hslot := Tracer.next_slot_of_ne x.call.tracer u hu
  have hstash : (x.call.tracer.next u).stashedSignal pid = x.call.tracer.stashedSignal pid :=
    congrArg Slot.stashedSignal hslot
  have hqueue : ∀ h : Queue pid x, Queue pid (x.step pid gadget (.other u)) := fun h =>
    ⟨hstash.trans h.held, h.early, h.late⟩
  cases h with
  | ended hidle => exact absurd (hidle.symm.trans hbusy) (by decide)
  | strayed hidle => exact absurd (hidle.symm.trans hbusy) (by decide)
  | inside hat houtcome hstage hs hq =>
    exact .inside (hat.other hu).1 houtcome hstage
      ⟨hs.entered, hs.frame, hs.results, hs.sound, hs.made, hs.first, hs.waits, hs.sent, hs.trap,
        hs.blocked⟩ (hqueue hq)
  | astray hahead hstage hq htrapped hmade hne =>
    exact .astray (hahead.of_tracer (hahead.mode.next u) (congrArg Slot.active hslot) rfl rfl)
      hstage (hqueue hq)
      ⟨htrapped.entered, htrapped.only, htrapped.timely, htrapped.served⟩ hmade hne

/-! ### Exit stops -/

/-- The signal held is kept at an exit stop after which the emulation goes on, and queued
at the last one. -/
theorem Queue.atExit (h : Queue pid x) (hahead : Ahead pid x.call s step) {made : List Call}
    {env : Env} {alarm : Bool} {t : Tracee}
    (hstop : Injected.stop { x.call with made } pid env alarm t false = some y.call)
    (hheld : y.held = x.held) (htardy : y.tardy = x.tardy) (hblocked : y.blocked = x.blocked)
    (hpending : y.pending = x.pending ∪
      ((x.call.tracer.turn ⟨env, alarm, .syscall pid, t⟩).signalTo pid).toFinset) :
    (y.call.tracer.emulated.busy pid = true → x.late = false → y.late = false →
      Queue pid y ∧ y.pending = x.pending) ∧
    (y.call.tracer.emulated.busy pid = false → x.late = true → y.Queued) := by
  have htracer := Injected.tracer_of_stop hstop
  obtain ⟨hagain, hover⟩ := Injected.stash_of_stop hahead.mode hahead.busy env alarm t
  constructor
  · intro hbusy hearly hearly'
    rw [htracer] at hbusy
    obtain ⟨hstash, hnone⟩ := hagain hbusy
    rw [hnone] at hpending
    refine ⟨h.of_early hearly ?_ htardy fun hl => absurd (hearly'.symm.trans hl) (by decide),
      hpending.trans (Finset.union_empty _)⟩
    rw [htracer, hheld]
    exact hstash.trans h.held
  · intro hidle hlate
    rw [htracer] at hidle
    rw [hover hidle, h.held, h.late hlate] at hpending
    unfold Queued
    rw [hpending, hheld, htardy, hblocked]

/-- The exit stop of a call, once a handler has been entered. -/
theorem course_exit (hahead : Ahead pid x.call s step) (hstage : PwaitStage regs s step)
    (hqueue : Queue pid x) (htrapped : Trapped y) (hne : s.results ≠ [])
    (hin : x.call.inside = true) (made : List Call) {env : Env} {alarm : Bool} {t : Tracee}
    (hget : t.canGet = true) (hset : t.canSet = true) (hmade : made.length ≤ s.results.length)
    (hstop : Injected.stop { x.call with made } pid env alarm t false = some y.call)
    (hheld : y.held = x.held) (htardy : y.tardy = x.tardy) (hblocked : y.blocked = x.blocked)
    (hpending : y.pending = x.pending ∪
      ((x.call.tracer.turn ⟨env, alarm, .syscall pid, t⟩).signalTo pid).toFinset)
    (hframe : y.frame = none) : Course pid regs flag c w y := by
  obtain ⟨hagain, hover⟩ := hqueue.atExit hahead hstop hheld htardy hblocked hpending
  have hahead' : Ahead pid { x.call with made } s step :=
    hahead.of_tracer hahead.mode rfl rfl rfl
  obtain ⟨x', hx, hout, hsame, hnext, hend⟩ :=
    hahead'.exit hin hstage.not_pipe env alarm hget hset
  obtain rfl : y.call = x' := Option.some.inj (hstop.symm.trans hx)
  have hlate := late_iff hahead hstage.length_le
  rw [hin, and_iff_left rfl] at hlate
  rcases hstage.next hne t.regs.rax.toInt with ⟨step', queue, hstep', hstage'⟩ | ⟨hlast, htwo⟩
  · have hahead'' := hnext step' queue hstep'
    have hlength : ({ s.collect t.regs.rax.toInt with
        queue, running := some step', atEntry := true } : Sequence).results.length =
          s.results.length + 1 := by
      change (s.collect t.regs.rax.toInt).results.length = _
      rw [s.collect_results, List.length_append]
      rfl
    have hle := hstage'.length_le
    have hearly : x.late = false := by
      rw [← Bool.not_eq_true, hlate]
      omega
    have hearly' := early_of_exit hahead'' hle hout
    refine .astray hahead'' hstage' (hagain hahead''.busy hearly hearly').1 htrapped ?_ ?_
    · rw [hlength, hframe, hsame]
      exact Nat.add_le_add_right hmade 1
    · rw [← List.length_pos_iff_ne_nil, hlength]
      exact Nat.succ_pos _
  · have hidle := hend hlast
    refine .strayed hidle htrapped ?_ (hover hidle (hlate.2 htwo))
    rw [hsame, ← htwo]
    exact hmade

theorem course_ret (h : Course pid regs flag c w x) (hbusy : x.Busy pid)
    (hin : x.call.inside = true) (hframe : x.frame.isSome = true) (gadget : U64) {env : Env}
    {alarm : Bool} {t : Tracee} (hget : t.canGet = true) (hset : t.canSet = true) (mask : Mask)
    (stored : U64 → Option Mask) :
    Course pid regs flag c w (x.step pid gadget (.ret env alarm t mask stored)) := by
  cases h with
  | ended hidle => exact absurd (hidle.symm.trans hbusy) (by decide)
  | strayed hidle => exact absurd (hidle.symm.trans hbusy) (by decide)
  | inside _ _ _ hs =>
    rw [hs.frame] at hframe
    exact absurd hframe (by decide)
  | astray hahead hstage hqueue htrapped hmade hne =>
    obtain ⟨x', hx, -⟩ := hahead.exit hin hstage.not_pipe env alarm hget hset
    have hcall : (x.step pid gadget (.ret env alarm t mask stored)).call = x' := by
      change (x.call.stop pid env alarm t false).getD x.call = x'
      rw [hx]
      rfl
    refine course_exit hahead hstage hqueue
      ⟨htrapped.entered, htrapped.only, htrapped.timely, htrapped.served⟩ hne hin x.call.made
      hget hset ?_ (hx.trans (congrArg some hcall.symm)) rfl rfl rfl rfl rfl
    rw [hframe] at hmade
    exact hmade

/-! ### The three calls -/

theorem setMask_of_some {mask new : Mask} {stored : U64 → Option Mask} {set : U64}
    (h : (if set = 0 then some mask else stored set) = some new) (writable : U64 → Bool)
    (old : U64) : setMask mask stored writable set old =
      if old = 0 then (new, stored, 0)
      else if writable old then (new, Function.update stored old (some mask), 0)
      else (new, stored, -Errno.EFAULT) := by
  unfold setMask
  rw [h]

/-- A mask is put in force, or the call fails. -/
theorem setMask_new {mask new : Mask} {stored : U64 → Option Mask} {set : U64}
    (h : (if set = 0 then some mask else stored set) = some new) (writable : U64 → Bool)
    (old : U64) :
    (setMask mask stored writable set old).1 = new ∧
      (setMask mask stored writable set old).2.2 = 0 ∨
    (setMask mask stored writable set old).2.2 = -Errno.EFAULT := by
  rw [setMask_of_some h]
  split_ifs
  · exact Or.inl ⟨rfl, rfl⟩
  · exact Or.inl ⟨rfl, rfl⟩
  · exact Or.inr rfl

/-- The mask at an address is put in force, and memory is left as it is. -/
theorem setMask_restores (mask : Mask) (stored : U64 → Option Mask) (writable : U64 → Bool)
    (set : U64) : (setMask mask stored writable set 0).1 =
      if set = 0 then mask else ((setMask mask stored writable set 0).2.1 set).getD mask := by
  unfold setMask
  by_cases hset : set = 0
  · rw [if_pos hset, if_pos hset]
    rfl
  · rw [if_neg hset, if_neg hset]
    cases hstored : stored set with
    | none => simp [hstored]
    | some new => simp [hstored]

/-- The call a step makes replaces the mask when it is an `rt_sigprocmask`. -/
theorem kernel_of_sigprocmask {mask saved : U64} {always : Bool}
    (hcall : callOf x.call.tracee.regs = build (.sigprocmask mask saved always) s) :
    x.setsMask = true ∧ ∀ writable, x.kernel writable =
      setMask x.mask x.stored writable mask saved := by
  unfold setsMask kernel
  rw [hcall]
  exact ⟨rfl, fun _ => rfl⟩

theorem setsMask_of_epollWait {epfd events maxevents timeout : U64}
    (hcall : callOf x.call.tracee.regs = build (.epollWait epfd events maxevents timeout) s) :
    x.setsMask = false := by
  unfold setsMask
  rw [hcall]
  rfl

/-- What the exit stop of a call leaves as it is, and what it does about the signals. -/
theorem leave_stop (hahead : Ahead pid x.call s step) (hqueue : Queue pid x) (gadget : U64)
    {r : Served} {x' : Injected} (hx : x.call.leave pid r = some x')
    (written : Option (U64 → Option Mask)) (writable : U64 → Bool) :
    let y := x.step pid gadget (.leave r written writable)
    y.call = x' ∧
      (x'.tracer.emulated.busy pid = true → x.late = false → y.late = false →
        Queue pid y ∧ y.pending = x.pending) ∧
      (x'.tracer.emulated.busy pid = false → x.late = true → y.Queued) := by
  intro y
  have hcall : y.call = x' := by
    change (x.call.leave pid r).getD x.call = x'
    rw [hx]
    rfl
  have hstop := hx
  unfold Injected.leave at hstop
  rw [← hcall] at hstop ⊢
  exact ⟨rfl, hqueue.atExit hahead hstop rfl rfl rfl rfl⟩

/-- After a call of the emulation the next one is set up. -/
theorem course_again (hat : AtCall pid regs flag x.call s step) (hstage : PwaitStage regs s step)
    (hs : Straight regs c w x s) (hqueue : Queue pid x) {r : Served}
    {written : Option (U64 → Option Mask)} {writable : U64 → Bool} {x' : Injected}
    (hx : x.call.leave pid r = some x') (hout : x'.inside = false)
    (hmade : x'.made = x.call.made ++ [build step s])
    (hsound : 0 ≤ r.ret.rax.toInt ∨ isError r.ret.rax.toInt = true) {s' : Sequence}
    {step' : Step} (hat' : AtCall pid regs flag x' s' step') (houtcome : s'.outcome = .call 1)
    (hstage' : PwaitStage regs s' step') (hresults : s'.results = s.results ++ [r.ret.rax.toInt])
    (hmask : (x.step pid (regs.rip - 2) (.leave r written writable)).mask = w) :
    Course pid regs flag c w (x.step pid (regs.rip - 2) (.leave r written writable)) := by
  have hahead := hat.ahead (hs.length_made hstage)
  obtain ⟨hcall, hagain, -⟩ := leave_stop hahead hqueue (regs.rip - 2) hx written writable
  have hlength : s'.results.length = s.results.length + 1 := by
    rw [hresults, List.length_append]
    rfl
  have hcalls : x'.made = (pwaitCalls regs).take s'.results.length := by
    rw [hmade, hs.made, hstage.build_eq, hlength]
  have hne : s'.results ≠ [] := by
    rw [← List.length_pos_iff_ne_nil, hlength]
    exact Nat.succ_pos _
  have hearly : x.late = false := by
    rw [← Bool.not_eq_true, late_iff hahead hstage.length_le]
    have hle := hstage'.length_le
    omega
  rw [← hcall] at hat' hout hcalls
  have hlength' : (x.step pid (regs.rip - 2) (.leave r written writable)).call.made.length =
      s'.results.length := by
    rw [hcalls, List.length_take]
    exact min_eq_left (hstage'.length_le.trans (Nat.le_succ 2))
  have hearly' := early_of_exit (hat'.ahead hlength') hstage'.length_le hout
  obtain ⟨hqueue', hpending⟩ := hagain (hcall ▸ hat'.busy) hearly hearly'
  refine .inside hat' houtcome hstage' ⟨hs.entered, hs.frame, ?_, ?_, hcalls,
    fun hempty => absurd hempty hne, fun _ => hmask, ?_, fun hmem => ?_,
    fun hl => absurd (hearly'.symm.trans hl) (by decide)⟩ hqueue'
  · change (x.results ++ [r.ret.rax]).map _ = _
    rw [List.map_append, hs.results, hresults]
    rfl
  · intro rax hrax
    rcases List.mem_append.1 hrax with hrax | hrax
    · exact hs.sound rax hrax
    · rw [List.mem_singleton.1 hrax]
      exact hsound
  · rw [hpending]
    exact hs.sent
  · have htrap := hs.trap hmem
    rw [hearly] at htrap
    rw [hearly', hpending]
    exact htrap

/-- The exit stop of the call that puts the mask of the wait in force. -/
theorem course_set (hat : AtCall pid regs flag x.call s
      (.sigprocmask regs.r8 (scratchFor regs) false))
    (houtcome : s.outcome = .call 1) (hs : Straight regs c w x s) (hqueue : Queue pid x)
    (hinside : x.call.inside = true) {r : Served} {written : Option (U64 → Option Mask)}
    {writable : U64 → Bool} (hget : r.ret.canGet = true) (hset : r.ret.canSet = true)
    (hkernel : x.setsMask = true → r.ret.rax = asU64 (x.kernel writable).2.2)
    (hsound : 0 ≤ r.ret.rax.toInt ∨ isError r.ret.rax.toInt = true) (hresults : s.results = [])
    (hqueue' : s.queue = [.epollWait regs.rdi regs.rsi regs.rdx regs.r10,
      .sigprocmask (scratchFor regs) 0 true]) :
    Course pid regs flag c w (x.step pid (regs.rip - 2) (.leave r written writable)) := by
  have hstage : PwaitStage regs s _ := .set hresults hqueue'
  obtain ⟨x', hx, hout, hmade, hafter⟩ := hat.leave hinside hget hset
  obtain ⟨hsets, hker⟩ := kernel_of_sigprocmask (hat.call hinside)
  obtain ⟨-, hmask, hw⟩ := hs.first hresults
  have hrax := hkernel hsets
  rw [hker, hmask] at hrax
  rw [s.returned_eq_collect _ _ _ _ hat.running (by simp)] at hafter
  have hcollected := s.collect_results r.ret.rax.toInt
  rw [hresults, List.nil_append] at hcollected
  rcases setMask_new hw writable (scratchFor regs) with ⟨hnew, hzero⟩ | hefault
  · have hok : r.ret.rax.toInt = 0 := by
      rw [hrax, hzero]
      decide
    rw [hok] at hafter
    have hat' := hafter.again _ _ (PwaitStage.next_set hresults hqueue' le_rfl)
    refine course_again hat hstage hs hqueue hx hout hmade hsound hat' houtcome
      (.wait (by rw [← hok]; exact hcollected) rfl) (by rw [← hok]; rfl) ?_
    change (if x.setsMask then (x.kernel writable).1 else x.mask) = w
    rw [if_pos hsets, hker, hmask]
    exact hnew
  · have hvalue : r.ret.rax = asU64 (-Errno.EFAULT) := by rw [hrax, hefault]
    have herr : isError r.ret.rax.toInt = true := by
      rw [hvalue]
      decide
    obtain ⟨hdone, hanswer⟩ := hafter.done (Sequence.next_of_first_failure hcollected herr)
    rw [answer_of_refused (s := s.collect _) houtcome hcollected herr, hvalue] at hanswer
    obtain ⟨hcall, -⟩ := leave_stop (hat.ahead (hs.length_made hstage)) hqueue (regs.rip - 2) hx
      written writable
    refine .ended ?_ hs.entered (.refused ?_ ?_ ?_)
    · rw [hcall]
      exact Emulations.not_busy_iff.2 hdone.idle
    · change x.results ++ [r.ret.rax] = _
      rw [List.map_eq_nil_iff.1 (hs.results.trans hresults), hvalue]
      rfl
    · rw [hcall, hmade, hs.made, hstage.build_eq, hresults]
      rfl
    · rw [hcall, hanswer]
      decide

/-- The exit stop of the wait. -/
theorem course_wait (hat : AtCall pid regs flag x.call s
      (.epollWait regs.rdi regs.rsi regs.rdx regs.r10))
    (houtcome : s.outcome = .call 1) (hs : Straight regs c w x s) (hqueue : Queue pid x)
    (hinside : x.call.inside = true) {r : Served} {written : Option (U64 → Option Mask)}
    {writable : U64 → Bool} (hget : r.ret.canGet = true) (hset : r.ret.canSet = true)
    (hsound : 0 ≤ r.ret.rax.toInt ∨ isError r.ret.rax.toInt = true) (hresults : s.results = [0])
    (hqueue' : s.queue = [.sigprocmask (scratchFor regs) 0 true]) :
    Course pid regs flag c w (x.step pid (regs.rip - 2) (.leave r written writable)) := by
  obtain ⟨x', hx, hout, hmade, hafter⟩ := hat.leave hinside hget hset
  rw [s.returned_eq_collect _ _ _ _ hat.running (by simp)] at hafter
  have hcollected := s.collect_results r.ret.rax.toInt
  rw [hresults] at hcollected
  have hat' := hafter.again _ _ (PwaitStage.next_wait hresults le_rfl hqueue' _)
  refine course_again hat (.wait hresults hqueue') hs hqueue hx hout hmade hsound hat' houtcome
    (.restore r.ret.rax.toInt hcollected rfl) rfl ?_
  change (if x.setsMask then _ else x.mask) = w
  rw [setsMask_of_epollWait (hat.call hinside)]
  exact hs.waits (by simp [hresults])

/-- The exit stop of the call that puts the caller's mask back. -/
theorem course_restore (hat : AtCall pid regs flag x.call s
      (.sigprocmask (scratchFor regs) 0 true))
    (houtcome : s.outcome = .call 1) (hs : Straight regs c w x s) (hqueue : Queue pid x)
    (hinside : x.call.inside = true) {r : Served} {written : Option (U64 → Option Mask)}
    {writable : U64 → Bool} (hget : r.ret.canGet = true) (hset : r.ret.canSet = true) {wait : ℤ}
    (hresults : s.results = [0, wait]) (hqueue' : s.queue = []) :
    Course pid regs flag c w (x.step pid (regs.rip - 2) (.leave r written writable)) := by
  have hstage : PwaitStage regs s _ := .restore wait hresults hqueue'
  have hahead := hat.ahead (hs.length_made hstage)
  obtain ⟨x', hx, -, hmade, hafter⟩ := hat.leave hinside hget hset
  obtain ⟨hcall, -, hfinal⟩ := leave_stop hahead hqueue (regs.rip - 2) hx written writable
  obtain ⟨hsets, hker⟩ := kernel_of_sigprocmask (hat.call hinside)
  rw [s.returned_eq_collect _ _ _ _ hat.running (by simp)] at hafter
  obtain ⟨hdone, hanswer⟩ := hafter.done (Sequence.next_of_empty hqueue')
  have hidle := Emulations.not_busy_iff.2 hdone.idle
  have hlate : x.late = true :=
    (late_iff hahead hstage.length_le).2 ⟨by rw [hresults]; rfl, hinside⟩
  -- The results of the first two calls, as the kernel has returned them.
  obtain ⟨set, wait', hx₂⟩ : ∃ set wait', x.results = [set, wait'] :=
    List.length_eq_two.1 (by rw [← List.length_map (f := (·.toInt)), hs.results, hresults]; rfl)
  have hboth := hs.results.trans hresults
  rw [hx₂] at hboth
  obtain ⟨hset₀, hrest⟩ := List.cons.inj hboth
  obtain ⟨rfl, -⟩ := List.cons.inj hrest
  have hzero : set = 0 := by
    rw [← BitVec.ofInt_toInt (x := set), show set.toInt = 0 from hset₀]
    rfl
  have hcollected := s.collect_results r.ret.rax.toInt
  rw [hresults] at hcollected
  have hvalue : (s.collect r.ret.rax.toInt).answer = wait'.toInt :=
    answer_of_wait houtcome hcollected le_rfl
      (hs.sound wait' (by rw [hx₂]; exact List.mem_cons_of_mem _ (List.mem_singleton_self _)))
  rw [hvalue] at hanswer
  have htrap := hs.trap
  rw [hlate, if_pos rfl] at htrap
  refine .ended (by rw [hcall]; exact hidle) hs.entered (.served wait' r.ret.rax ?_ ?_ ?_ ?_
    (hfinal hidle hlate) (hs.blocked hlate) htrap)
  · change x.results ++ [r.ret.rax] = _
    rw [hx₂, hzero]
    rfl
  · rw [hcall, hmade, hs.made, hstage.build_eq, hresults]
    rfl
  · rw [hcall, hanswer]
    exact BitVec.ofInt_toInt ..
  · change (if x.setsMask then (x.kernel writable).1 else x.mask) =
      if scratchFor regs = 0 then w
      else ((if x.setsMask then (x.kernel writable).2.1 else written.getD x.stored) _).getD w
    rw [if_pos hsets, if_pos hsets, hker, hs.waits (by simp [hresults])]
    exact setMask_restores ..

theorem course_leave (h : Course pid regs flag c w x) (hbusy : x.Busy pid)
    (hinside : x.call.inside = true) (hframe : x.frame.isNone = true) {r : Served}
    {written : Option (U64 → Option Mask)} {writable : U64 → Bool}
    (hget : r.ret.canGet = true) (hset : r.ret.canSet = true)
    (hkernel : x.setsMask = true → r.ret.rax = asU64 (x.kernel writable).2.2)
    (hsound : 0 ≤ r.ret.rax.toInt ∨ isError r.ret.rax.toInt = true) :
    Course pid regs flag c w (x.step pid (regs.rip - 2) (.leave r written writable)) := by
  cases h with
  | ended hidle => exact absurd (hidle.symm.trans hbusy) (by decide)
  | strayed hidle => exact absurd (hidle.symm.trans hbusy) (by decide)
  | astray hahead hstage hqueue htrapped hmade hne =>
    have hahead' :
        Ahead pid { x.call with made := x.call.made ++ [callOf x.call.tracee.regs] } _ _ :=
      hahead.of_tracer hahead.mode rfl rfl rfl
    obtain ⟨x', hx, -⟩ := hahead'.exit hinside hstage.not_pipe r.exitEnv r.exitAlarm
      (t := r.ret.apply x.call.tracee) hget hset
    obtain ⟨hcall, -⟩ := leave_stop hahead hqueue (regs.rip - 2) hx written writable
    have hnone := Option.isNone_iff_eq_none.1 hframe
    refine course_exit hahead hstage hqueue ⟨htrapped.entered, htrapped.only, htrapped.timely, ?_⟩
      hne hinside (x.call.made ++ [callOf x.call.tracee.regs]) (t := r.ret.apply x.call.tracee)
      hget hset ?_ (hx.trans (congrArg some hcall.symm)) rfl rfl rfl rfl hnone
    · obtain ⟨first, rest, hresults, hok⟩ := htrapped.served
      refine ⟨first, rest ++ [r.ret.rax], ?_, hok⟩
      change x.results ++ [r.ret.rax] = _
      rw [hresults]
      rfl
    · rw [hnone] at hmade
      rw [List.length_append]
      exact hmade
  | inside hat houtcome hstage hs hqueue =>
    cases hstage with
    | set hresults hqueue' =>
      exact course_set hat houtcome hs hqueue hinside hget hset hkernel hsound hresults hqueue'
    | wait hresults hqueue' =>
      exact course_wait hat houtcome hs hqueue hinside hget hset hsound hresults hqueue'
    | restore wait hresults hqueue' =>
      exact course_restore hat houtcome hs hqueue hinside hget hset hresults hqueue'

/-- **What becomes of the tracee** keeps the emulation on its course. -/
theorem course_step (h : Course pid regs flag c w x) {e : Happening} (hk : x.Kernel pid e) :
    Course pid regs flag c w (x.step pid (regs.rip - 2) e) := by
  cases e with
  | send sig => exact course_send h hk _ sig
  | signal env alarm sig handler =>
    obtain ⟨hbusy, hout, hpending, -, -⟩ := hk
    exact course_signal h hbusy hout _ env alarm hpending handler
  | enter r =>
    obtain ⟨hbusy, hout, -, hblocked⟩ := hk
    exact course_enter h hbusy hout hblocked r
  | leave r written writable =>
    obtain ⟨hbusy, hinside, hframe, hget, hset, hkernel, hsound⟩ := hk
    exact course_leave h hbusy hinside hframe hget hset hkernel hsound
  | call env alarm t stored =>
    obtain ⟨hbusy, hout, hframe, -⟩ := hk
    exact course_call h hbusy hout hframe _ env alarm t stored
  | ret env alarm t mask stored =>
    obtain ⟨hbusy, hinside, hframe, hget, hset, -⟩ := hk
    exact course_ret h hbusy hinside hframe _ hget hset mask stored
  | other u =>
    obtain ⟨hbusy, hu⟩ := hk
    exact course_other h hbusy _ hu

end

/-! ### Whole runs -/

section

variable {pid : Pid} {s : Tracer} {u : Turn} {regs : Regs} {q : Sequence} {c w : Mask}
  {stored : U64 → Option Mask} {es : List Happening} {sig : ℤ}

/-- The stop at which an `epoll_pwait` is taken over: its first call is set up. -/
theorem start_pwait (hmode : s.EverySyscall) (hu : u.wait = .syscall pid)
    (hidle : s.emulated.busy pid = false) (hregs : u.tracee.getregs = some regs)
    (hnr : regs.origRax = Nr.epollPwait)
    (htaken : (s.next u).emulated.active pid = some (.sequence q)) :
    AtCall pid regs (s.inSyscall pid) (Injected.start s u) q
        (.sigprocmask regs.r8 (scratchFor regs) false) ∧
      q.queue = (Emulations.epollPwaitSteps regs).tail ∧ q.results = [] ∧ q.outcome = .call 1 := by
  obtain ⟨first, hplan, houtcome, hresults, hat⟩ :=
    Injected.start_atCall hmode hu (Emulations.not_busy_iff.1 hidle) hregs htaken
  have hsteps : (s.ticked u).emulated.planned pid regs = Emulations.epollPwaitSteps regs := by
    unfold Emulations.planned
    simp [hnr]
  rw [hsteps] at hplan
  obtain ⟨rfl, hqueue⟩ := List.cons.inj hplan
  have hanswered : Emulations.answeredBy regs = .call 1 := by
    unfold Emulations.answeredBy
    simp [hnr]
  exact ⟨hat, hqueue.symm, hresults, houtcome.trans hanswered⟩

theorem start_course (hs : Tracer.HoldInv s) (hu : u.wait = .syscall pid)
    (hidle : s.emulated.busy pid = false) (hregs : u.tracee.getregs = some regs)
    (hnr : regs.origRax = Nr.epollPwait)
    (htaken : (s.next u).emulated.active pid = some (.sequence q))
    (hw : (if regs.r8 = 0 then some c else stored regs.r8) = some w) (pending : Finset ℤ) :
    Course pid regs (s.inSyscall pid) c w (start s u c stored pending) := by
  obtain ⟨hat, hqueue, hresults, houtcome⟩ := start_pwait hs.mode hu hidle hregs hnr htaken
  have hearly : (start s u c stored pending).late = false := rfl
  have hstash : (s.next u).stashedSignal pid = none := by
    have hold : s.stashedSignal pid = none := by
      rw [← Option.not_isSome_iff_eq_none]
      intro h
      exact absurd (hidle.symm.trans (hs.stash_busy pid h)) (by decide)
    have h := Tracer.turn_holdStep hs.mode u pid
    rw [hidle, hu, hold] at h
    generalize (s.next u).emulated.busy pid = b at h
    generalize (s.next u).stashedSignal pid = st at h ⊢
    generalize (s.turn u).signalTo pid = o at h
    cases h with
    | other h => rfl
    | traced => rfl
  refine .inside hat houtcome (.set hresults hqueue)
    ⟨rfl, rfl, hresults.symm, fun _ h => absurd h List.not_mem_nil, by rw [hresults]; rfl,
      fun _ => ⟨rfl, rfl, hw⟩, fun hne => absurd hresults hne, Finset.subset_union_left,
      Or.inl, fun hl => absurd (hearly.symm.trans hl) (by decide)⟩
    ⟨hstash, fun _ => rfl, fun hl => absurd (hearly.symm.trans hl) (by decide)⟩

/-- Every run of an emulated `epoll_pwait` is on its course. -/
theorem course_run (hs : Tracer.HoldInv s) (hu : u.wait = .syscall pid)
    (hidle : s.emulated.busy pid = false) (hregs : u.tracee.getregs = some regs)
    (hnr : regs.origRax = Nr.epollPwait)
    (htaken : (s.next u).emulated.active pid = some (.sequence q))
    (hw : (if regs.r8 = 0 then some c else stored regs.r8) = some w) {pending : Finset ℤ}
    (hes : Along (Waiting.step pid (regs.rip - 2)) (Kernel pid) (start s u c stored pending) es) :
    Course pid regs (s.inSyscall pid) c w
      (es.foldl (Waiting.step pid (regs.rip - 2)) (start s u c stored pending)) :=
  @foldl_invariant _ _ (Waiting.step pid (regs.rip - 2)) (Kernel pid)
    (Course pid regs (s.inSyscall pid) c w) (fun _ _ h hk => course_step h hk) _ _
    (start_course hs hu hidle hregs hnr htaken hw pending) hes

theorem mem_queued {x : Waiting} (h : x.Queued) :
    sig ∈ x.pending ↔ sig ∈ x.tardy ∨ x.held = some sig ∨ sig ∈ x.blocked := by
  rw [show x.pending = _ from h, Finset.mem_union, Finset.mem_union, Option.mem_toFinset,
    Option.mem_def]
  tauto

/-- **The handler of a signal that only the wait lets in**, where the emulated
`epoll_pwait` has returned with `EINTR`, whatever came between its calls: it is entered
exactly if the signal is `SIGTRAP` and was sent before the entry stop of the last call, or
the mask that is in force at the end does not block it and it is queued then.  The mask
is the one the last call has put back, and what is queued is the signal held back last
and those sent after that stop; but where a handler has been entered, one of the three
calls has been left out, and what the mask blocked at that stop may be let in as well. -/
theorem gated_signal_entered_iff (hs : Tracer.HoldInv s) (hu : u.wait = .syscall pid)
    (hidle : s.emulated.busy pid = false) (hregs : u.tracee.getregs = some regs)
    (hnr : regs.origRax = Nr.epollPwait)
    (htaken : (s.next u).emulated.active pid = some (.sequence q))
    (hw : (if regs.r8 = 0 then some c else stored regs.r8) = some w) {pending : Finset ℤ}
    (hes : Along (Waiting.step pid (regs.rip - 2)) (Kernel pid) (start s u c stored pending) es)
    (hgated : sig ∉ w) :
    let x := es.foldl (Waiting.step pid (regs.rip - 2)) (start s u c stored pending)
    sig ∉ x.ignored → x.Interrupted pid ∨ sig ∈ x.entered →
      (x.Enters sig ↔ sig = Signo.SIGTRAP ∧ sig ∈ x.timely ∨
        sig ∉ (if x.entered = [] then putBack regs w x else x.mask) ∧
          (sig ∈ x.tardy ∨ x.held = some sig ∨ x.entered ≠ [] ∧ sig ∈ x.blocked)) := by
  intro x hhandled hend
  have hcourse : Course pid regs (s.inSyscall pid) c w x :=
    course_run hs hu hidle hregs hnr htaken hw hes
  unfold Enters
  cases hcourse with
  | inside hat _ _ hstraight =>
    rcases hend with hend | hend
    · exact absurd (hend.1.symm.trans hat.busy) (by decide)
    · exact absurd hend (by simp [hstraight.entered])
  | astray hahead _ _ htrapped =>
    rcases hend with hend | hend
    · exact absurd (hend.1.symm.trans hahead.busy) (by decide)
    · obtain rfl := htrapped.only sig hend
      exact iff_of_true (Or.inl hend) (Or.inl ⟨rfl, htrapped.timely⟩)
  | strayed _ htrapped _ hqueued =>
    rw [if_neg htrapped.entered]
    by_cases hsig : sig = Signo.SIGTRAP
    · refine iff_of_true (Or.inl ?_) (Or.inl ⟨hsig, hsig ▸ htrapped.timely⟩)
      obtain ⟨other, hother⟩ := List.exists_mem_of_ne_nil _ htrapped.entered
      rw [hsig, ← htrapped.only other hother]
      exact hother
    · rw [or_iff_right fun hmem => hsig (htrapped.only sig hmem),
        or_iff_right fun htrap => hsig htrap.1, mem_queued hqueued, and_comm,
        and_iff_right htrapped.entered]
  | ended _ hentered hfinished =>
    rw [hentered] at hend ⊢
    obtain ⟨-, hintr⟩ := hend.resolve_right List.not_mem_nil
    rw [or_iff_right List.not_mem_nil, if_pos rfl]
    cases hfinished with
    | refused _ _ hrax =>
      rw [hrax] at hintr
      exact absurd hintr (by decide)
    | served _ _ _ _ _ hmask hqueued hblocked htrap =>
      have hnot : ¬ (sig = Signo.SIGTRAP ∧ sig ∈ x.timely) := by
        rintro ⟨rfl, htimely⟩
        exact (htrap htimely).elim hgated hhandled
      have hnot' : sig ∉ x.blocked := fun hmem => hgated (hblocked hmem)
      rw [or_iff_right hnot, mem_queued hqueued, hmask, and_comm, or_iff_left hnot']
      simp

end

/-- The stop at which an `epoll_pwait` with its mask at `0x9000` is taken over. -/
def pwaitTurn : Turn :=
  let t := Tracee.entryOf Nr.epollPwait 3 0x9100 8 (-1)
  Tracer.oldTurn (.syscall 1) { t with regs := { t.regs with r8 := 0x9000 } }

/-- The masks in memory: the one at `0x9000` blocks nothing. -/
def pwaitMasks (address : U64) : Option Mask := if address = 0x9000 then some ∅ else none

/-- The tracee as it starts out, with some signals blocked. -/
def pwaitStart (mask : Mask) : Waiting :=
  start (Tracer.new 1 true false) pwaitTurn mask pwaitMasks ∅

/-- The tracee after some more. -/
abbrev pwaitAfter (x : Waiting) (es : List Happening) : Waiting :=
  es.foldl (Waiting.step 1 (pwaitTurn.tracee.regs.rip - 2)) x

/-- Signals are sent during the wait, which ends it. -/
def waitRun (sigs : List ℤ) : List Happening :=
  let served := Injected.served
  [.leave (served 0) none fun _ => true, .enter (served 0)] ++ sigs.map .send ++
    [.leave (served (asU64 (-Errno.EINTR))) none fun _ => true]

/-- The signal that ends the wait comes to its delivery, and the last call is made. -/
def pwaitRun (sig : ℤ) : List Happening :=
  let served := Injected.served
  waitRun [sig] ++ [.signal (.still Host.centos5) false sig none, .enter (served 0),
    .leave (served 0) none fun _ => true]

/-- A handler at `0x600000`, with its frame on the stack. -/
def handlerAt (x : Waiting) : HandlerEntry :=
  let regs := x.call.tracee.regs
  ⟨regs, { regs with rip := 0x600000, rsp := regs.rsp - 1024 }, x.call.tracee.mem, x.stored, ∅⟩

/-- A `SIGTRAP` comes to its delivery after the wait, its handler is entered and returns, and its
`rt_sigreturn` is taken for the call that puts the caller's mask back. -/
def trapRun (x : Waiting) : List Happening :=
  let env := Env.still Host.centos5
  let returned : Tracee :=
    { x.call.tracee with regs := { x.call.tracee.regs with origRax := -1 } }
  [.signal env false Signo.SIGTRAP (some (handlerAt x)),
    .call env false (.entryOf rtSigreturn 0 0 0 0) x.stored,
    .ret env false returned x.mask x.stored]

/-- A `SIGTRAP` that the caller has blocked ends the wait, and its handler is entered. -/
theorem gated_signal_entered_iff_trap :
    let es := waitRun [Signo.SIGTRAP]
    let y := pwaitAfter (pwaitStart {Signo.SIGTRAP}) es
    (pwaitAfter y (trapRun y)).Enters Signo.SIGTRAP := by
  intro es y
  have hes : Along (Waiting.step 1 (pwaitTurn.tracee.regs.rip - 2)) (Kernel 1)
      (start (Tracer.new 1 true false) pwaitTurn {Signo.SIGTRAP} pwaitMasks ∅)
      (es ++ trapRun y) := by
    decide +kernel
  have hw : (if pwaitTurn.tracee.regs.r8 = 0 then some {Signo.SIGTRAP}
      else pwaitMasks pwaitTurn.tracee.regs.r8) = some (∅ : Mask) := by
    decide +kernel
  have h := gated_signal_entered_iff (Tracer.holdInv_new 1) rfl rfl rfl rfl rfl hw hes
    (Finset.notMem_empty Signo.SIGTRAP)
  rw [List.foldl_append] at h
  refine (h ?_ (Or.inl ⟨?_, ?_⟩)).2 (Or.inl ⟨rfl, ?_⟩)
  · decide +kernel
  · decide +kernel
  · decide +kernel
  · decide +kernel

/-- **A `SIGUSR1` that the caller has blocked ends the wait and its handler is not
entered**: it is held back, and queued again when the mask that blocks it is back. -/
theorem usr1_not_entered :
    let x := pwaitAfter (pwaitStart {10}) (pwaitRun 10)
    Along (Waiting.step 1 (pwaitTurn.tracee.regs.rip - 2)) (Kernel 1) (pwaitStart {10})
        (pwaitRun 10) ∧
      10 ∈ x.timely ∧ x.Interrupted 1 ∧ ¬ x.Enters 10 := by
  unfold Interrupted Enters
  decide +kernel

end Waiting
end Tracing
end Sharun
