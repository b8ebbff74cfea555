/-
# The mask an emulated `epoll_pwait` puts back

The first of its three calls saves the caller's signal mask at the scratch address and
the last one puts in force what is there by then.  Whatever the calls return, the last
one is made exactly if the first has not failed, and the application is handed the
result of the wait or, where there was none, the error of the first (`drive_refused`,
`drive_served`).

So it is as long as no handler is entered in between.  Nothing keeps the saved mask where
it is in the meantime, and the handler of a `SIGTRAP` takes the place of one of the three
calls: `mask_put_back_iff` says when the calls are made, the application gets its answer
and the mask afterwards is the caller's.
-/

import Sharun.Tracer.GatedSignals

namespace Sharun
namespace Tracing

open Machine Emulation Sharun.Basis

/-- What the kernel leaves at the end of a call: the registers can be reached, and the
result is an error number or not negative. -/
structure Served.Sound (r : Served) : Prop where
  canGet : r.ret.canGet = true
  canSet : r.ret.canSet = true
  result : 0 ≤ r.ret.rax.toInt ∨ isError r.ret.rax.toInt = true

theorem Served.Sound.isError_iff {r : Served} (h : r.Sound) :
    isError r.ret.rax.toInt = false ↔ 0 ≤ r.ret.rax.toInt :=
  ⟨fun hok => h.result.resolve_right (by simp [hok]), not_isError_of_nonneg⟩

namespace Injected

section

variable {pid : Pid} {regs : Regs} {s : Sequence} {r₁ r₂ r₃ : Served} {rs : List Served}

/-- A call that fails, or that is the last one, ends the run. -/
theorem drive_last {step : Step} (hrunning : s.running = some step)
    (hpipe : ∀ buffer, step ≠ .pipe buffer) (h : (s.collect r₁.ret.rax.toInt).next.1 = none) :
    drive pid s step (r₁ :: rs) = ([build step s], s.collect r₁.ret.rax.toInt) := by
  have hreturned :=
    s.returned_eq_collect r₁.exitEnv pid r₁.ret.mem r₁.ret.rax.toInt hrunning hpipe
  rw [drive_over (by rw [hreturned]; exact h), hreturned]

/-- Another call comes after it. -/
theorem drive_next {step step' : Step} {queue : List Step} (hrunning : s.running = some step)
    (hpipe : ∀ buffer, step ≠ .pipe buffer)
    (h : (s.collect r₁.ret.rax.toInt).next = (some step', queue)) :
    drive pid s step (r₁ :: rs) =
      let rest := drive pid { s.collect r₁.ret.rax.toInt with
        queue, running := some step', atEntry := true } step' rs
      (build step s :: rest.1, rest.2) := by
  have hreturned :=
    s.returned_eq_collect r₁.exitEnv pid r₁.ret.mem r₁.ret.rax.toInt hrunning hpipe
  rw [drive_again (by rw [hreturned]; exact h), hreturned]

/-- Where the first call fails it is the only one. -/
theorem drive_refused (hrunning : s.running = some (.sigprocmask regs.r8 (scratchFor regs) false))
    (hresults : s.results = []) (houtcome : s.outcome = .call 1)
    (hfailed : isError r₁.ret.rax.toInt = true) :
    let last := drive pid s (.sigprocmask regs.r8 (scratchFor regs) false) (r₁ :: rs)
    last.1 = (pwaitCalls regs).take 1 ∧ last.2.answer = r₁.ret.rax.toInt := by
  have hcollected := s.collect_results r₁.ret.rax.toInt
  rw [hresults, List.nil_append] at hcollected
  rw [drive_last hrunning (by simp) (Sequence.next_of_first_failure hcollected hfailed)]
  exact ⟨rfl, answer_of_refused (s := s.collect _) houtcome hcollected hfailed⟩

/-- Where it succeeds the others follow, and the wait is the one that is answered with. -/
theorem drive_served (hrunning : s.running = some (.sigprocmask regs.r8 (scratchFor regs) false))
    (hqueue : s.queue = (Emulations.epollPwaitSteps regs).tail) (hresults : s.results = [])
    (houtcome : s.outcome = .call 1) (hok : 0 ≤ r₁.ret.rax.toInt)
    (hwait : 0 ≤ r₂.ret.rax.toInt ∨ isError r₂.ret.rax.toInt = true) :
    let last :=
      drive pid s (.sigprocmask regs.r8 (scratchFor regs) false) (r₁ :: r₂ :: r₃ :: rs)
    last.1 = pwaitCalls regs ∧ last.2.answer = r₂.ret.rax.toInt := by
  rw [drive_next hrunning (by simp) (PwaitStage.next_set hresults hqueue hok)]
  -- The wait returns, and the last call is made whatever it returned.
  generalize hs' : ({ s.collect r₁.ret.rax.toInt with
    queue := [.sigprocmask (scratchFor regs) 0 true]
    running := some (.epollWait regs.rdi regs.rsi regs.rdx regs.r10), atEntry := true } :
      Sequence) = s'
  have hresults' : s'.results = [r₁.ret.rax.toInt] := by
    rw [← hs']
    change s.results ++ _ = _
    rw [hresults, List.nil_append]
  have hsecond : (s'.collect r₂.ret.rax.toInt).next =
      (some (.sigprocmask (scratchFor regs) 0 true), []) :=
    PwaitStage.next_wait hresults' hok (by rw [← hs']) _
  rw [drive_next (by rw [← hs']) (by simp) hsecond]
  generalize hs'' : ({ s'.collect r₂.ret.rax.toInt with
    queue := [], running := some (.sigprocmask (scratchFor regs) 0 true), atEntry := true } :
      Sequence) = s''
  have hresults'' : (s''.collect r₃.ret.rax.toInt).results =
      [r₁.ret.rax.toInt, r₂.ret.rax.toInt, r₃.ret.rax.toInt] := by
    rw [s''.collect_results, ← hs'']
    change s'.results ++ _ ++ _ = _
    rw [hresults']
    rfl
  have houtcome'' : s''.outcome = .call 1 := by
    rw [← hs'', ← hs']
    exact houtcome
  rw [drive_last (by rw [← hs'']) (by simp) (Sequence.next_of_empty (by rw [← hs'']; rfl))]
  exact ⟨rfl, answer_of_wait (s := s''.collect r₃.ret.rax.toInt) houtcome'' hresults'' hok hwait⟩

end

end Injected

namespace Waiting

variable {pid : Pid} {s : Tracer} {u : Turn} {regs : Regs} {q : Sequence} {c : Mask}
  {stored : U64 → Option Mask}

/-- Once an emulated `epoll_pwait` has returned: where its first call has failed no other was made
and its error is the answer; else the last one was made, the result of the wait is the
answer, and the mask is the caller's. -/
def PutBack (regs : Regs) (c : Mask) (x : Waiting) : Prop :=
  if x.refused then
    x.call.made = (pwaitCalls regs).take 1 ∧ x.results = [x.call.tracee.regs.rax]
  else
    x.call.made = pwaitCalls regs ∧ x.results[1]? = some x.call.tracee.regs.rax ∧ x.mask = c

/-- **The mask of the caller, once an emulated `epoll_pwait` has returned.**  Whatever its
calls return: where the first fails no other is made, and its error is the answer; else
the last puts in force the mask at the address where the first saved the caller's, and
the result of the wait is the answer.  In a run with signals that is so exactly if no
handler is entered inside the emulation, and what the last call has put in force is
the caller's mask: it is still in memory there, or was not replaced. -/
theorem mask_put_back_iff (hs : Tracer.HoldInv s) (hu : u.wait = .syscall pid)
    (hidle : s.emulated.busy pid = false) (hregs : u.tracee.getregs = some regs)
    (hnr : regs.origRax = Nr.epollPwait)
    (htaken : (s.next u).emulated.active pid = some (.sequence q)) :
    (∀ r₁ r₂ r₃ : Served, r₁.Sound → r₂.Sound → r₃.Sound →
      ∃ x, Injected.run pid (regs.rip - 2) (Injected.start s u) [r₁, r₂, r₃] = some x ∧
        x.tracer.emulated.busy pid = false ∧
        if isError r₁.ret.rax.toInt then
          x.made = (pwaitCalls regs).take 1 ∧ x.tracee.regs.rax = r₁.ret.rax
        else x.made = pwaitCalls regs ∧ x.tracee.regs.rax = r₂.ret.rax) ∧
    ∀ (pending : Finset ℤ) (w : Mask) (es : List Happening),
      (if regs.r8 = 0 then some c else stored regs.r8) = some w →
      Along (Waiting.step pid (regs.rip - 2)) (Kernel pid) (start s u c stored pending) es →
      let x := es.foldl (Waiting.step pid (regs.rip - 2)) (start s u c stored pending)
      x.call.tracer.emulated.busy pid = false →
        (PutBack regs c x ↔ x.entered = [] ∧ (x.refused = true ∨
          if scratchFor regs = 0 then w = c else (x.stored (scratchFor regs)).getD w = c)) := by
  refine ⟨fun r₁ r₂ r₃ h₁ h₂ h₃ => ?_, fun pending w es hw hes => ?_⟩
  · obtain ⟨hat, hqueue, hresults, houtcome⟩ := start_pwait hs.mode hu hidle hregs hnr htaken
    have hreach : ∀ r ∈ [r₁, r₂, r₃], r.ret.canGet = true ∧ r.ret.canSet = true := by
      simp [h₁.canGet, h₁.canSet, h₂.canGet, h₂.canSet, h₃.canGet, h₃.canSet]
    obtain ⟨x, hrun, hover, hmade, hanswer⟩ :=
      hat.run_drive [r₁, r₂, r₃] _ _ _ hreach (by rw [hqueue]; exact Nat.lt_succ_self 2)
    refine ⟨x, hrun, Emulations.not_busy_iff.2 hover.idle, ?_⟩
    have hmade' : x.made = (Injected.drive pid q _ [r₁, r₂, r₃]).1 := hmade
    have hback : ∀ {rax : U64}, asU64 rax.toInt = rax := BitVec.ofInt_toInt ..
    split_ifs with hfailed
    · obtain ⟨hcalls, hvalue⟩ :=
        Injected.drive_refused hat.running hresults houtcome hfailed
      rw [hmade', hanswer, hcalls, hvalue]
      exact ⟨rfl, hback⟩
    · rw [Bool.not_eq_true] at hfailed
      obtain ⟨hcalls, hvalue⟩ := Injected.drive_served hat.running hqueue hresults houtcome
        (h₁.isError_iff.1 hfailed) h₂.result
      rw [hmade', hanswer, hcalls, hvalue]
      exact ⟨rfl, hback⟩
  · intro x hidle'
    have hcourse : Course pid regs (s.inSyscall pid) c w x :=
      course_run hs hu hidle hregs hnr htaken hw hes
    unfold PutBack
    cases hcourse with
    | inside hat => exact absurd (hidle'.symm.trans hat.busy) (by decide)
    | astray hahead => exact absurd (hidle'.symm.trans hahead.busy) (by decide)
    | strayed _ htrapped hmade =>
      obtain ⟨first, rest, hresults, hok⟩ := htrapped.served
      have hserved : x.refused = false := by
        unfold refused
        rw [hresults]
        exact hok
      rw [hserved, if_neg (by decide)]
      refine iff_of_false (fun h => ?_) fun h => htrapped.entered h.1
      rw [h.1] at hmade
      exact absurd hmade (by simp [pwaitCalls])
    | ended _ hentered hfinished =>
      rw [and_iff_right hentered]
      cases hfinished with
      | refused hresults hmade hrax =>
        have hrefused : x.refused = true := by
          unfold refused
          rw [hresults]
          decide
        rw [if_pos hrefused]
        exact iff_of_true ⟨hmade, by rw [hresults, hrax]⟩ (Or.inl hrefused)
      | served wait last hresults hmade hrax hmask =>
        have hserved : x.refused = false := by
          unfold refused
          rw [hresults]
          exact show isError (0 : U64).toInt = false by decide
        have hsecond : x.results[1]? = some x.call.tracee.regs.rax := by
          rw [hresults, hrax]
          rfl
        rw [hserved, if_neg (by decide), and_iff_right hmade, and_iff_right hsecond, hmask,
          or_iff_right (by decide)]
        unfold putBack
        split_ifs <;> rfl

/-- A `SIGUSR1` that ends the wait and is held back is blocked again afterwards. -/
theorem mask_put_back_iff_usr1 :
    PutBack pwaitTurn.tracee.regs {10} (pwaitAfter (pwaitStart {10}) (pwaitRun 10)) := by
  have hes : Along (Waiting.step 1 (pwaitTurn.tracee.regs.rip - 2)) (Kernel 1)
      (start (Tracer.new 1 true false) pwaitTurn {10} pwaitMasks ∅) (pwaitRun 10) := by
    decide +kernel
  have hw : (if pwaitTurn.tracee.regs.r8 = 0 then some {10}
      else pwaitMasks pwaitTurn.tracee.regs.r8) = some (∅ : Mask) := by
    decide +kernel
  refine (((mask_put_back_iff (Tracer.holdInv_new 1) rfl rfl rfl rfl rfl).2 ∅ ∅ (pwaitRun 10) hw
    hes) ?_).2 ⟨?_, Or.inr ?_⟩
  · decide +kernel
  · decide +kernel
  · decide +kernel

/-- A `SIGUSR1` and a `SIGTRAP` end the wait; the one is held back, the other's handler is entered
and returns. -/
def twoSignals : List Happening :=
  let es := waitRun [10, Signo.SIGTRAP] ++ [.signal (.still Host.centos5) false 10 none]
  es ++ trapRun (pwaitAfter (pwaitStart {10}) es)

/-- **The `rt_sigreturn` of a handler takes the place of the last call**: the wait has returned
with `EINTR` and its mask stays in force, so that the signal held back is let in. -/
theorem trap_leaves_wait_mask :
    let x := pwaitAfter (pwaitStart {10}) twoSignals
    Along (Waiting.step 1 (pwaitTurn.tracee.regs.rip - 2)) (Kernel 1) (pwaitStart {10}) twoSignals ∧
      x.Interrupted 1 ∧ x.mask = ∅ ∧ x.Enters 10 ∧ ¬ PutBack pwaitTurn.tracee.regs {10} x := by
  unfold Interrupted Enters PutBack
  decide +kernel

/-- The stop at which an `epoll_pwait` is taken over whose events are to be written at the
scratch address. -/
def overlapTurn : Turn :=
  let t := Tracee.entryOf Nr.epollPwait 3 0 8 (-1)
  Tracer.oldTurn (.syscall 1)
    { t with regs := { t.regs with rsi := scratchFor t.regs, r8 := 0x9000 } }

/-- The wait returns one event, whose first eight bytes read as a mask are the one that
blocks `SIGHUP`. -/
def overlapRun : List Happening :=
  let served := Injected.served
  let memory := fun address =>
    if address = scratchFor overlapTurn.tracee.regs then some {1} else pwaitMasks address
  [.leave (served 0) none fun _ => true, .enter (served 0),
    .leave (served 1) (some memory) fun _ => true, .enter (served 0),
    .leave (served 0) none fun _ => true]

/-- **The events overwrite the saved mask**, and what is put in force is not the mask the
caller had. -/
theorem events_put_in_force :
    let gadget := overlapTurn.tracee.regs.rip - 2
    let x₀ := start (Tracer.new 1 true false) overlapTurn {10} pwaitMasks ∅
    let x := overlapRun.foldl (Waiting.step 1 gadget) x₀
    Along (Waiting.step 1 gadget) (Kernel 1) x₀ overlapRun ∧
      x.call.tracer.emulated.busy 1 = false ∧ x.call.made = pwaitCalls overlapTurn.tracee.regs ∧
      x.call.tracee.regs.rax = 1 ∧ x₀.mask = {10} ∧ x.mask = {1} := by
  decide +kernel

end Waiting
end Tracing
end Sharun
