/-
# The calls of a sequence

What `start_sequence` and `step` of `src/emulated_syscalls.rs` make of a plan, seen
from one tracee: how an emulation starts out (`begin_sequence`), what its record is
once a call has returned (`Sequence.returned`), and which call comes next
(`next_of_success`, `next_of_failure`).
-/

import Sharun.Emulation.Active

namespace Sharun
namespace Emulation

open Machine

namespace Emulations

/-- The calls planned for an emulated call. -/
def planned (self : Emulations) (pid : Pid) (regs : Regs) : List Step :=
  if regs.origRax = Nr.eventfd ∨ regs.origRax = Nr.eventfd2 then
    eventfdSteps regs (eventfdAddress pid self.sequence).length
  else if regs.origRax = Nr.timerfdCreate then timerfdCreateSteps regs
  else if regs.origRax = Nr.fcntl then dupfdCloexecSteps regs
  else if regs.origRax = Nr.pwritev then vectorIoSteps regs true
  else if regs.origRax = Nr.preadv then vectorIoSteps regs false
  else if regs.origRax = Nr.epollPwait then epollPwaitSteps regs
  else []

/-- What such a call answers once its calls have succeeded. -/
def answeredBy (regs : Regs) : Outcome :=
  if regs.origRax = Nr.timerfdCreate then .adopted
  else if regs.origRax = Nr.pwritev ∨ regs.origRax = Nr.preadv ∨ regs.origRax = Nr.epollPwait then
    .call 1
  else .call 0

/-- Only the first call of a plan makes a pipe. -/
theorem planned_noPipe (self : Emulations) (pid : Pid) (regs : Regs) (buffer : U64) :
    .pipe buffer ∉ (self.planned pid regs).tail := by
  unfold planned
  split_ifs
  · unfold eventfdSteps
    split_ifs <;> simp
  · unfold timerfdCreateSteps
    split_ifs <;> simp
  all_goals
    simp [dupfdCloexecSteps, vectorIoSteps, epollPwaitSteps]

/-- A plan that begins with a pipe is that of a timerfd. -/
theorem answeredBy_of_pipe {self : Emulations} {pid : Pid} {regs : Regs} {buffer : U64}
    {rest : List Step} (h : self.planned pid regs = .pipe buffer :: rest) :
    answeredBy regs = .adopted := by
  unfold planned at h
  split_ifs at h with heventfd htimerfd
  · exact absurd (List.cons.inj h).1 (by simp)
  · exact if_pos htimerfd
  all_goals exact absurd (List.cons.inj h).1 (by simp)

/-- A sequence at its start: the first call of the plan is set up in the registers. -/
structure Starting (regs : Regs) (plan : List Step) (outcome : Outcome) (t : Tracee)
    (q : Sequence) : Prop where
  saved : q.saved = regs
  gadget : q.gadget = regs.rip - 2
  atEntry : q.atEntry = false
  results : q.results = []
  outcome : q.outcome = outcome
  fd : q.fd = -1
  plan : ∃ first, q.running = some first ∧ plan = first :: q.queue ∧
    t.regs = withCall regs (build first q)

/-- Where an outcome of `begin` has a sequence in progress, it has just started. -/
def StartsOnly (pid : Pid) (regs : Regs) (plan : List Step) (outcome : Outcome)
    (r : Emulations × Tracee × Bool) : Prop :=
  ∀ q, r.1.active pid = some (.sequence q) → Starting regs plan outcome r.2.1 q

section

variable {self : Emulations} {pid : Pid} {t : Tracee} {regs : Regs} {plan : List Step}
  {outcome : Outcome}

theorem StartsOnly.idle (h : self.active pid = none) (t : Tracee) (b : Bool) :
    StartsOnly pid regs plan outcome (self, t, b) := by
  intro q hq
  exact absurd (h.symm.trans hq) (by simp)

theorem StartsOnly.ite {c : Prop} [Decidable c] {r r' : Emulations × Tracee × Bool}
    (h : c → StartsOnly pid regs plan outcome r) (h' : StartsOnly pid regs plan outcome r') :
    StartsOnly pid regs plan outcome (if c then r else r') := by
  split
  · rename_i hc
    exact h hc
  · exact h'

theorem standIn_startsOnly (h : self.active pid = none) (result : ℤ) :
    StartsOnly pid regs plan outcome (self.standIn pid t regs result) := by
  unfold standIn
  split
  · exact .idle h t false
  · intro q hq
    rw [setActive_active_self] at hq
    exact absurd hq (by simp)

theorem gadgetFor_eq {gadget : U64} (h : gadgetFor t regs = some gadget) :
    gadget = regs.rip - 2 := by
  unfold gadgetFor at h
  dsimp only at h
  split at h
  · exact absurd h (by simp)
  · split_ifs at h
    exact (Option.some.inj h).symm

theorem startSequence_startsOnly (h : self.active pid = none) {gadget : U64}
    (hgadget : gadget = regs.rip - 2) (clockid : ℤ) :
    StartsOnly pid regs plan outcome
      (self.startSequence pid t regs gadget plan outcome clockid) := by
  unfold startSequence
  cases plan with
  | nil => exact .idle h t false
  | cons first queue =>
    dsimp only
    split
    · exact .idle h t false
    · rename_i t' hset
      obtain ⟨-, rfl⟩ := Tracee.setregs_eq_some.1 hset
      intro q hq
      rw [setActive_active_self] at hq
      obtain rfl := Active.sequence.inj (Option.some.inj hq)
      exact ⟨rfl, hgadget, rfl, rfl, rfl, rfl, first, rfl, rfl, rfl⟩

theorem eventfd_startsOnly (env : Env) (h : self.active pid = none) :
    StartsOnly pid regs (eventfdSteps regs (eventfdAddress pid self.sequence).length) (.call 0)
      (self.eventfd env pid t regs) := by
  unfold eventfd
  split
  · exact .idle h t false
  dsimp only
  split
  · exact .idle h t false
  split
  · exact .idle h t false
  rename_i gadget hgadget
  split
  · exact .idle (by exact h) _ false
  split
  · exact .idle (by exact h) _ false
  exact startSequence_startsOnly (by exact h) (gadgetFor_eq hgadget) _

theorem timerfdCreate_startsOnly (env : Env) (h : self.active pid = none) :
    StartsOnly pid regs (timerfdCreateSteps regs) .adopted (self.timerfdCreate env pid t regs) :=
  replaced_cases (P := StartsOnly pid regs (timerfdCreateSteps regs) .adopted) (.idle h t false)
    fun _ hgadget => startSequence_startsOnly h (gadgetFor_eq hgadget) _

theorem timerfdSettime_startsOnly (env : Env) (h : self.active pid = none) :
    StartsOnly pid regs plan outcome (self.timerfdSettime env pid t regs) := by
  unfold timerfdSettime
  dsimp only
  split
  · exact .idle h t false
  split
  · exact .idle h t false
  split
  · exact .idle h _ false
  split
  · exact .idle h _ false
  exact standIn_startsOnly (by exact h) 0

theorem timerfdGettime_startsOnly (h : self.active pid = none) (env : Env) :
    StartsOnly pid regs plan outcome (self.timerfdGettime env pid t regs) := by
  unfold timerfdGettime
  split
  · exact .idle h t false
  dsimp only
  split
  · exact .idle h _ false
  exact standIn_startsOnly h 0

theorem dupfdCloexec_startsOnly (env : Env) (h : self.active pid = none) :
    StartsOnly pid regs (dupfdCloexecSteps regs) (.call 0) (self.dupfdCloexec env pid t regs) :=
  replaced_cases (P := StartsOnly pid regs (dupfdCloexecSteps regs) (.call 0)) (.idle h t false)
    fun _ hgadget => startSequence_startsOnly h (gadgetFor_eq hgadget) _

theorem vectorIo_startsOnly (env : Env) (h : self.active pid = none) (write : Bool) :
    StartsOnly pid regs (vectorIoSteps regs write) (.call 1) (self.vectorIo env pid t regs write) :=
  replaced_cases (P := StartsOnly pid regs (vectorIoSteps regs write) (.call 1)) (.idle h t false)
    fun _ hgadget => startSequence_startsOnly h (gadgetFor_eq hgadget) _

theorem epollPwait_startsOnly (env : Env) (h : self.active pid = none) :
    StartsOnly pid regs (epollPwaitSteps regs) (.call 1) (self.epollPwait env pid t regs) :=
  replaced_cases (P := StartsOnly pid regs (epollPwaitSteps regs) (.call 1)) (.idle h t false)
    fun _ hgadget => startSequence_startsOnly h (gadgetFor_eq hgadget) _

/-- **How an emulation starts out**: at an entry stop, with the calls planned for the
call the tracee is about to make. -/
theorem begin_sequence (env : Env) {entering : Bool} (h : self.active pid = none)
    {q : Sequence} (hq : (self.begin env pid t entering).1.active pid = some (.sequence q)) :
    ∃ regs, t.getregs = some regs ∧
      Starting regs (self.planned pid regs) (answeredBy regs)
        (self.begin env pid t entering).2.1 q := by
  unfold begin at hq ⊢
  cases entering with
  | false => exact absurd (h.symm.trans hq) (by simp)
  | true =>
    rw [if_neg (by decide)] at hq ⊢
    cases hregs : t.getregs with
    | none =>
      rw [hregs] at hq
      exact absurd (h.symm.trans hq) (by simp)
    | some regs =>
      rw [hregs] at hq
      refine ⟨regs, rfl, ?_⟩
      dsimp only at hq ⊢
      revert q
      have hplan : ∀ {nr : U64} {steps : List Step} {answer : Outcome}
          {r : Emulations × Tracee × Bool}, regs.origRax = nr →
          (regs.origRax = nr → self.planned pid regs = steps ∧ answeredBy regs = answer) →
          StartsOnly pid regs steps answer r →
          StartsOnly pid regs (self.planned pid regs) (answeredBy regs) r := by
        intro nr steps answer r hnr hsteps hr
        rw [(hsteps hnr).1, (hsteps hnr).2]
        exact hr
      exact StartsOnly.ite (fun _ => .idle h t false) <|
        .ite (fun _ => .idle h t false) <|
        .ite (fun hc => hplan hc (fun hc => by simp [planned, answeredBy, hc])
          (eventfd_startsOnly env h)) <|
        .ite (fun hc => hplan hc (fun hc => by simp [planned, answeredBy, hc])
          (eventfd_startsOnly env h)) <|
        .ite (fun hc => hplan hc (fun hc => by simp [planned, answeredBy, hc])
          (timerfdCreate_startsOnly env h)) <|
        .ite (fun _ => timerfdSettime_startsOnly env h) <|
        .ite (fun _ => timerfdGettime_startsOnly h env) <|
        .ite (fun hc => hplan hc (fun hc => by simp [planned, answeredBy, hc])
          (dupfdCloexec_startsOnly env h)) <|
        .ite (fun hc => hplan hc (fun hc => by simp [planned, answeredBy, hc])
          (vectorIo_startsOnly env h true)) <|
        .ite (fun hc => hplan hc (fun hc => by simp [planned, answeredBy, hc])
          (vectorIo_startsOnly env h false)) <|
        .ite (fun hc => hplan hc (fun hc => by simp [planned, answeredBy, hc])
          (epollPwait_startsOnly env h)) <|
        .idle h t false

end

/-! ### A call that has returned -/

/-- The descriptors of a pipe the tracee has made, where the tracer can read them and
take its own write handle. -/
def pipeEnds (env : Env) (pid : Pid) (mem : Memory) (buffer : U64) : Option (ℤ × ℤ) :=
  (mem.readStruct buffer 8).bind fun raw =>
    (env.openWrite pid (leI32 (raw.drop 4))).map fun _ => (leI32 (raw.take 4), leI32 (raw.drop 4))

theorem capturePipe_snd (env : Env) (self : Emulations) (pid : Pid) (t : Tracee) (buffer : U64)
    (clockid : ℤ) :
    (self.capturePipe env pid t buffer clockid).2 = pipeEnds env pid t.mem buffer := by
  unfold capturePipe pipeEnds
  cases t.mem.readStruct buffer 8 with
  | none => rfl
  | some raw =>
    rw [Option.bind_some]
    dsimp only
    cases env.openWrite pid (leI32 (raw.drop 4)) with
    | none => rfl
    | some handle => rfl

end Emulations

/-- A call of a sequence fails: it returns an error or, for the pipe, leaves one the
tracer cannot take over. -/
def Step.fails (env : Env) (pid : Pid) (mem : Memory) (rax : ℤ) (step : Step) : Bool :=
  isError rax || match step with
    | .pipe buffer => (Emulations.pipeEnds env pid mem buffer).isNone
    | _ => false

namespace Sequence

/-- The record of a sequence once its running call has returned. -/
def returned (s : Sequence) (env : Env) (pid : Pid) (mem : Memory) (rax : ℤ) : Sequence :=
  match s.running with
  | some (.pipe buffer) =>
    match Emulations.pipeEnds env pid mem buffer with
    | some (readEnd, writeEnd) => { s.collect rax with readEnd, writeEnd, fd := readEnd }
    | none => { s.collect rax with results := (s.collect rax).results ++ [-Errno.EIO] }
  | _ => s.collect rax

theorem adopt_snd (env : Env) (self : Emulations) (pid : Pid) (t : Tracee) (s : Sequence)
    (rax : ℤ) :
    (self.adopt env pid t (s.collect rax) s.running).2 = s.returned env pid t.mem rax := by
  unfold Emulations.adopt returned
  cases s.running with
  | none => rfl
  | some step =>
    cases step with
    | pipe buffer =>
      have h := Emulations.capturePipe_snd env self pid t buffer (s.collect rax).clockid
      dsimp only
      rw [← h]
      split <;> rename_i heq <;> rw [heq]
    | _ => rfl

section

variable (s : Sequence) (env : Env) (pid : Pid) (mem : Memory) (rax : ℤ)

@[simp] theorem returned_saved : (s.returned env pid mem rax).saved = s.saved := by
  unfold returned
  split
  · split <;> rfl
  · rfl

@[simp] theorem returned_gadget : (s.returned env pid mem rax).gadget = s.gadget := by
  unfold returned
  split
  · split <;> rfl
  · rfl

@[simp] theorem returned_queue : (s.returned env pid mem rax).queue = s.queue := by
  unfold returned
  split
  · split <;> rfl
  · rfl

@[simp] theorem returned_outcome : (s.returned env pid mem rax).outcome = s.outcome := by
  unfold returned
  split
  · split <;> rfl
  · rfl

/-- Which stop it is makes no difference. -/
theorem returned_atEntry : ({ s with atEntry := false }).returned env pid mem rax =
    { s.returned env pid mem rax with atEntry := false } := by
  unfold returned
  dsimp only
  split
  · split <;> rfl
  · rfl

/-- Nothing but its result is taken from a call that makes no pipe. -/
theorem returned_eq_collect {step : Step} (hrun : s.running = some step)
    (hpipe : ∀ buffer, step ≠ .pipe buffer) : s.returned env pid mem rax = s.collect rax := by
  unfold returned
  rw [hrun]
  cases step with
  | pipe buffer => exact absurd rfl (hpipe buffer)
  | _ => rfl

/-- The results of the calls before stay as they are, at the front. -/
theorem returned_results : ∃ more, (s.returned env pid mem rax).results = s.results ++ rax :: more ∧
    ∀ r ∈ more, r = -Errno.EIO := by
  unfold returned
  split
  · split
    · exact ⟨[], rfl, by simp⟩
    · exact ⟨[-Errno.EIO], by simp [collect], by simp⟩
  · exact ⟨[], rfl, by simp⟩

theorem collect_results : (s.collect rax).results = s.results ++ [rax] := rfl

theorem isError_eio : isError (-Errno.EIO) = true := by decide

/-- A failure is on record exactly when one was before or the running call fails. -/
theorem returned_failure {step : Step} (hrun : s.running = some step) :
    (s.returned env pid mem rax).failure.isNone =
      (s.failure.isNone && !step.fails env pid mem rax) := by
  have hcollect : (s.collect rax).failure.isNone = (s.failure.isNone && !isError rax) := by
    unfold failure collect
    dsimp only
    rw [List.find?_append]
    cases List.find? isError s.results with
    | none =>
      cases herr : isError rax with
      | true => simp [herr]
      | false => simp [herr]
    | some r => rfl
  unfold returned
  rw [hrun]
  cases step with
  | pipe buffer =>
    unfold Step.fails
    dsimp only
    cases Emulations.pipeEnds env pid mem buffer with
    | some ends => exact hcollect.trans (by simp)
    | none =>
      unfold failure
      dsimp only
      rw [List.find?_append]
      cases hfind : List.find? isError (s.collect rax).results with
      | none => simp [isError_eio]
      | some r => simp
  | _ => exact hcollect.trans (by simp [Step.fails])

end

/-- As long as nothing fails the calls are made in the order of the plan. -/
theorem next_of_success {s : Sequence} (h : s.failure.isNone = true) :
    s.next = (s.queue.head?, s.queue.tail) := by
  unfold next
  rw [if_pos h]

/-- Once nothing is left the sequence is over. -/
theorem next_of_empty {s : Sequence} (h : s.queue = []) : s.next.1 = none := by
  unfold next
  rw [h]
  split_ifs <;> rfl

/-- A call marked `always` that is next is made whatever happens, once there is something
to undo. -/
theorem next_of_always {s : Sequence} {step : Step} {queue : List Step}
    (h : s.queue = step :: queue) (halways : step.always = true)
    (heffect : s.tookEffect = true) : s.next = (some step, queue) := by
  unfold next
  rw [h]
  split_ifs
  · rfl
  · rw [List.dropWhile_cons_of_neg (by simp [halways])]
    rfl

/-- An error is negative. -/
theorem not_nonneg_of_isError {rc : ℤ} (h : isError rc = true) : ¬ 0 ≤ rc := by
  unfold isError at h
  simp only [Bool.and_eq_true, decide_eq_true_eq] at h
  omega

/-- Where the first call fails no other is made. -/
theorem next_of_first_failure {s : Sequence} {rax : ℤ} {more : List ℤ}
    (h : s.results = rax :: more) (herr : isError rax = true) : s.next.1 = none := by
  have hfailure : s.failure.isNone = false := by
    unfold failure
    rw [h, List.find?_cons_of_pos herr]
    rfl
  have heffect : s.tookEffect = false := by
    unfold tookEffect
    rw [h]
    cases more with
    | nil => rfl
    | cons r more =>
      rw [List.dropLast_cons_of_ne_nil (by simp), List.all_cons,
        decide_eq_false (not_nonneg_of_isError herr), Bool.false_and, Bool.and_false]
  unfold next
  rw [if_neg (by simp [hfailure]), if_neg (by simp [heffect])]
  rfl

/-- The calls that are left are calls of the sequence. -/
theorem mem_of_next {s : Sequence} {step : Step} {queue : List Step}
    (h : s.next = (some step, queue)) : step ∈ s.queue ∧ queue ⊆ s.queue := by
  have hsub : ∀ {l : List Step}, l ⊆ s.queue → l.head? = some step → l.tail = queue →
      step ∈ s.queue ∧ queue ⊆ s.queue := by
    intro l hl hhead htail
    have hmem : step ∈ l := List.mem_of_head? hhead
    have hsub : queue ⊆ l := htail ▸ List.tail_subset l
    exact ⟨hl hmem, fun x hx => hl (hsub hx)⟩
  have hhead := congrArg Prod.fst h
  have htail := congrArg Prod.snd h
  unfold next at hhead htail
  split_ifs at hhead htail
  · exact hsub (List.Subset.refl _) hhead htail
  · exact hsub (List.dropWhile_subset _) hhead htail
  · exact absurd hhead (by simp)

/-- A call that is made is taken off the queue. -/
theorem length_of_next {s : Sequence} {step : Step} {queue : List Step}
    (h : s.next = (some step, queue)) : queue.length < s.queue.length := by
  have htail : ∀ {l : List Step}, l.length ≤ s.queue.length → l.head? = some step →
      l.tail = queue → queue.length < s.queue.length := by
    intro l hle hhead htail
    cases l with
    | nil => exact absurd hhead (by simp)
    | cons first rest =>
      rw [← htail]
      exact hle
  have hhead := congrArg Prod.fst h
  have hqueue := congrArg Prod.snd h
  unfold next at hhead hqueue
  split_ifs at hhead hqueue
  · exact htail le_rfl hhead hqueue
  · exact htail (List.dropWhile_suffix _).length_le hhead hqueue
  · exact absurd hhead (by simp)

/-- After a failure nothing is made but a call marked `always`. -/
theorem next_of_failure {s : Sequence} (h : s.failure.isNone = false) {step : Step}
    {queue : List Step} (hnext : s.next = (some step, queue)) :
    step ∈ s.queue ∧ step.always = true ∧ s.tookEffect = true := by
  have hhead := congrArg Prod.fst hnext
  unfold next at hhead
  rw [if_neg (by simp [h])] at hhead
  dsimp only at hhead
  split_ifs at hhead with heffect
  · refine ⟨List.dropWhile_subset _ (List.mem_of_head? hhead), ?_, heffect⟩
    have hdrop := List.head?_dropWhile_not (fun x : Step => !x.always) s.queue
    rw [hhead] at hdrop
    simpa using hdrop
  · exact absurd hhead (by simp)

/-- Once a call has been made after a failure nothing else is. -/
theorem next_of_second_failure (s : Sequence) (env : Env) (pid : Pid) (mem : Memory) (rax : ℤ)
    (h : s.failure.isNone = false) : (s.returned env pid mem rax).next.1 = none := by
  obtain ⟨more, hresults, -⟩ := s.returned_results env pid mem rax
  obtain ⟨r, hr⟩ := Option.isSome_iff_exists.1 (by simpa using h)
  have herr : isError r = true := List.find?_some hr
  have hmem : r ∈ s.results := List.mem_of_find?_eq_some hr
  have hdrop : r ∈ (s.returned env pid mem rax).results.dropLast := by
    rw [hresults, List.dropLast_append_of_ne_nil (by simp)]
    exact List.mem_append_left _ hmem
  have hfailure : (s.returned env pid mem rax).failure.isNone = false := by
    unfold failure
    rw [hresults, List.find?_append]
    unfold failure at hr
    rw [hr]
    rfl
  have heffect : (s.returned env pid mem rax).tookEffect = false := by
    unfold tookEffect
    rw [Bool.and_eq_false_iff]
    refine Or.inr ?_
    rw [List.all_eq_false]
    exact ⟨r, hdrop, by simpa using not_nonneg_of_isError herr⟩
  unfold next
  rw [if_neg (by simp [hfailure]), if_neg (by simp [heffect])]
  rfl

/-- What is known of the descriptors of an emulation. -/
def ends (s : Sequence) : ℤ × ℤ × ℤ := (s.fd, s.readEnd, s.writeEnd)

/-- A later call that makes no pipe tells nothing about them. -/
theorem returned_ends {s : Sequence} (env : Env) (pid : Pid) (mem : Memory) (rax : ℤ)
    {step : Step} (hrun : s.running = some step) (hpipe : ∀ buffer, step ≠ .pipe buffer)
    (hlater : s.results ≠ []) : (s.returned env pid mem rax).ends = s.ends := by
  have hlen : (s.results ++ [rax]).length ≠ 1 := by
    have hpos := List.length_pos_of_ne_nil hlater
    rw [List.length_append, List.length_singleton]
    omega
  rw [s.returned_eq_collect env pid mem rax hrun hpipe]
  unfold ends collect
  dsimp only
  rw [if_neg fun h => hlen h.1]

/-- A call names descriptors through what is known of them alone. -/
theorem build_congr {s s' : Sequence} (h : s.ends = s'.ends) (step : Step) :
    build step s = build step s' := by
  have hfd : s.fd = s'.fd := congrArg Prod.fst h
  have hread : s.readEnd = s'.readEnd := congrArg (fun x => x.2.1) h
  have hwrite : s.writeEnd = s'.writeEnd := congrArg (fun x => x.2.2) h
  have hof : s.fdOf = s'.fdOf := by
    funext which
    unfold fdOf
    rw [hfd, hread, hwrite]
  unfold build
  rw [hof]

end Sequence

namespace Emulations

variable {self : Emulations} {pid : Pid} {s : Sequence}

/-- The entry stop of a call of a sequence. -/
theorem step_entry (env : Env) (h : self.active pid = some (.sequence s))
    (hentry : s.atEntry = true) (t : Tracee) :
    self.step env pid t = (self.setActive pid (.sequence { s with atEntry := false }), t) := by
  unfold step
  rw [h]
  exact if_pos hentry

/-- The exit stop of a call of a sequence after which another is made. -/
theorem step_again (env : Env) (h : self.active pid = some (.sequence s))
    (hentry : s.atEntry = false) {t : Tracee} (hget : t.canGet = true) (hset : t.canSet = true)
    {step : Step} {queue : List Step}
    (hnext : (s.returned env pid t.mem t.regs.rax.toInt).next = (some step, queue)) :
    (self.step env pid t).1.active pid = some (.sequence
        { s.returned env pid t.mem t.regs.rax.toInt with
          queue, running := some step, atEntry := true }) ∧
      (self.step env pid t).2.regs =
        { withCall t.regs (build step (s.returned env pid t.mem t.regs.rax.toInt)) with
          rip := s.gadget } := by
  have hadopt := Sequence.adopt_snd env self pid t s t.regs.rax.toInt
  have hregs : t.getregs = some t.regs := Tracee.getregs_eq_some.2 ⟨hget, rfl⟩
  unfold Emulations.step
  rw [h]
  dsimp only
  rw [if_neg (by simp [hentry]), hregs]
  dsimp only
  unfold advance
  dsimp only
  rw [hadopt, hnext]
  refine ⟨setActive_active_self .., ?_⟩
  dsimp only
  rw [Tracee.putregs_of_canSet hset, Sequence.returned_gadget]
  rfl

/-- The exit stop of a call where the registers cannot be read. -/
theorem step_unread (env : Env) (h : self.active pid = some (.sequence s))
    (hentry : s.atEntry = false) {t : Tracee} (hget : t.canGet = false) :
    (self.step env pid t).1.active pid = none := by
  unfold step
  rw [h]
  dsimp only
  rw [if_neg (by simp [hentry]), Tracee.getregs_eq_none.2 hget]
  exact forget_active_self ..

/-- The exit stop of the last call of a sequence. -/
theorem step_over (env : Env) (h : self.active pid = some (.sequence s))
    (hentry : s.atEntry = false) {t : Tracee} (hget : t.canGet = true) (hset : t.canSet = true)
    (hnext : (s.returned env pid t.mem t.regs.rax.toInt).next.1 = none) :
    (self.step env pid t).1.active pid = none ∧ (self.step env pid t).2.regs =
      { s.saved with rax := asU64 (s.returned env pid t.mem t.regs.rax.toInt).answer } := by
  have hadopt := Sequence.adopt_snd env self pid t s t.regs.rax.toInt
  have hregs : t.getregs = some t.regs := Tracee.getregs_eq_some.2 ⟨hget, rfl⟩
  have hpair : (s.returned env pid t.mem t.regs.rax.toInt).next =
      (none, (s.returned env pid t.mem t.regs.rax.toInt).next.2) := Prod.ext hnext rfl
  unfold Emulations.step
  rw [h]
  dsimp only
  rw [if_neg (by simp [hentry]), hregs]
  dsimp only
  unfold advance
  dsimp only
  rw [hadopt, hpair]
  refine ⟨forget_active_self .., ?_⟩
  dsimp only
  rw [Tracee.putregs_of_canSet hset, Sequence.returned_saved]

end Emulations
end Emulation
end Sharun
