/-
# What an emulated `eventfd` answers

An eventfd is built of three to five calls, and the application is handed what the first
of them returned: the rule by which an answer is chosen looks at the others only where
that one is not a descriptor (`answer_of_first`).  It is the rule for sequences whose
later calls are mere cleanup.  So the answer is a descriptor whenever there is a socket,
and the error of the first call that fails only where that is the first of all, or
none does (`eventfd_answer_iff`).
-/

import Sharun.Tracer.SavedMask

namespace Sharun
namespace Tracing

open Machine Emulation

namespace Injected

section

variable {pid : Pid} {regs : Regs} {s : Sequence} {step : Step} {r : Served}

/-- A run adds to the results, and leaves the rule for the answer as it is. -/
theorem drive_adds (rs : List Served) (s : Sequence) (step : Step) :
    s.results <+: (drive pid s step rs).2.results ∧
      (drive pid s step rs).2.outcome = s.outcome := by
  induction rs generalizing s step with
  | nil => exact ⟨List.prefix_rfl, rfl⟩
  | cons r rs ih =>
    obtain ⟨more, hresults, -⟩ := s.returned_results r.exitEnv pid r.ret.mem r.ret.rax.toInt
    have houtcome := s.returned_outcome r.exitEnv pid r.ret.mem r.ret.rax.toInt
    have hadds : s.results <+: (s.returned r.exitEnv pid r.ret.mem r.ret.rax.toInt).results :=
      hresults ▸ List.prefix_append ..
    cases hnext : (s.returned r.exitEnv pid r.ret.mem r.ret.rax.toInt).next with
    | mk first queue =>
      cases first with
      | none =>
        rw [drive_over (congrArg Prod.fst hnext)]
        exact ⟨hadds, houtcome⟩
      | some step' =>
        rw [drive_again hnext]
        obtain ⟨hlater, houtcome'⟩ := ih
          { s.returned r.exitEnv pid r.ret.mem r.ret.rax.toInt with
            queue, running := some step', atEntry := true } step'
        exact ⟨hadds.trans hlater, houtcome'.trans houtcome⟩

/-- The result of its first call is the first. -/
theorem drive_results (rs : List Served) (hresults : s.results = []) :
    ∃ more, (drive pid s step (r :: rs)).2.results = r.ret.rax.toInt :: more := by
  obtain ⟨more, hreturned, -⟩ := s.returned_results r.exitEnv pid r.ret.mem r.ret.rax.toInt
  rw [hresults, List.nil_append] at hreturned
  cases hnext : (s.returned r.exitEnv pid r.ret.mem r.ret.rax.toInt).next with
  | mk first queue =>
    cases first with
    | none =>
      rw [drive_over (congrArg Prod.fst hnext)]
      exact ⟨more, hreturned⟩
    | some step' =>
      rw [drive_again hnext]
      have hadds : (s.returned r.exitEnv pid r.ret.mem r.ret.rax.toInt).results <+:
          (drive pid { s.returned r.exitEnv pid r.ret.mem r.ret.rax.toInt with
            queue, running := some step', atEntry := true } step' rs).2.results :=
        (drive_adds rs { s.returned r.exitEnv pid r.ret.mem r.ret.rax.toInt with
          queue, running := some step', atEntry := true } step').1
      obtain ⟨later, hlater⟩ := hadds
      refine ⟨more ++ later, ?_⟩
      rw [← List.cons_append, ← hreturned]
      exact hlater.symm

/-- The result of the first call is the answer, where the rule is to answer with it. -/
theorem answer_of_first {rax : ℤ} {more : List ℤ} (houtcome : s.outcome = .call 0)
    (hresults : s.results = rax :: more) (hsound : 0 ≤ rax ∨ isError rax = true) :
    s.answer = rax := by
  unfold Sequence.answer Sequence.failure
  rw [houtcome, hresults]
  change (if 0 ≤ rax then rax else _) = rax
  split_ifs with hpos
  · rfl
  · rw [List.find?_cons_of_pos (hsound.resolve_left hpos)]
    rfl

end

/-- The error of the first call that fails. -/
def firstError (rs : List Served) : Option ℤ := (rs.map (·.ret.rax.toInt)).find? isError

/-- What an emulated call that is built of several is to answer: a descriptor only if no
call fails, and else the error of the first that does. -/
def Answers (rs : List Served) (rax : U64) : Prop :=
  (0 ≤ rax.toInt → firstError rs = none) ∧ ∀ e, firstError rs = some e → rax = asU64 e

instance (rs : List Served) (rax : U64) : Decidable (Answers rs rax) :=
  decidable_of_iff ((0 ≤ rax.toInt → firstError rs = none) ∧
    ∀ e ∈ firstError rs, rax = asU64 e) Iff.rfl

theorem firstError_eq_none {rs : List Served} :
    firstError rs = none ↔ ∀ r ∈ rs, isError r.ret.rax.toInt = false := by
  simp [firstError]

/-- The result of the first call is the right answer if it is an error, or none fails. -/
theorem answers_iff {r : Served} {rs : List Served} (hsound : r.Sound) :
    Answers (r :: rs) r.ret.rax ↔
      isError r.ret.rax.toInt = true ∨ ∀ r' ∈ r :: rs, isError r'.ret.rax.toInt = false := by
  rw [← firstError_eq_none]
  unfold Answers
  cases herr : isError r.ret.rax.toInt with
  | true =>
    refine iff_of_true ⟨fun hpos => ?_, fun e he => ?_⟩ (Or.inl rfl)
    · exact absurd (not_isError_of_nonneg hpos) (by simp [herr])
    · unfold firstError at he
      rw [List.map_cons, List.find?_cons_of_pos herr] at he
      rw [← Option.some.inj he]
      exact (BitVec.ofInt_toInt ..).symm
  | false =>
    rw [or_iff_right (by simp)]
    refine ⟨fun h => h.1 (hsound.isError_iff.1 herr), fun hnone => ⟨fun _ => hnone, ?_⟩⟩
    rw [hnone]
    exact fun e he => absurd he (by simp)

/-- **What an emulated `eventfd` answers**, whatever its calls return: the result of the
first one.  That is a descriptor only if no call fails, and else the error of the first
that does, exactly if the first call is the one that fails, or none is. -/
theorem eventfd_answer_iff {s : Tracer} {pid : Pid} {u : Turn} {regs : Regs} {q : Sequence}
    {r : Served} {rs : List Served} (hmode : s.EverySyscall) (hu : u.wait = .syscall pid)
    (hidle : s.emulated.busy pid = false) (hregs : u.tracee.getregs = some regs)
    (hnr : regs.origRax = Nr.eventfd ∨ regs.origRax = Nr.eventfd2)
    (htaken : (s.next u).emulated.active pid = some (.sequence q))
    (hsound : ∀ r' ∈ r :: rs, r'.Sound) :
    let steps := Emulations.eventfdSteps regs
      (Emulations.eventfdAddress pid (s.ticked u).emulated.sequence).length
    steps.length = (r :: rs).length →
      ∃ x, run pid (regs.rip - 2) (start s u) (r :: rs) = some x ∧
        x.tracer.emulated.busy pid = false ∧ x.tracee.regs.rax = r.ret.rax ∧
        (Answers (r :: rs) x.tracee.regs.rax ↔ isError r.ret.rax.toInt = true ∨
          ∀ r' ∈ r :: rs, isError r'.ret.rax.toInt = false) := by
  intro steps hlen
  obtain ⟨first, hplan, houtcome, hresults, hat⟩ :=
    start_atCall hmode hu (Emulations.not_busy_iff.1 hidle) hregs htaken
  have hsteps : (s.ticked u).emulated.planned pid regs = steps := if_pos hnr
  have hanswered : Emulations.answeredBy regs = .call 0 := by
    unfold Emulations.answeredBy
    rcases hnr with hnr | hnr
    · simp [hnr]
    · simp [hnr]
  rw [hsteps] at hplan
  rw [hplan, List.length_cons] at hlen
  obtain ⟨x, hrun, hover, -, hrax⟩ := hat.run_drive (r :: rs) _ _ _
    (fun r' hr' => ⟨(hsound r' hr').canGet, (hsound r' hr').canSet⟩) (by omega)
  have houtcome' : (drive pid q first (r :: rs)).2.outcome = q.outcome :=
    (drive_adds (r :: rs) q first).2
  obtain ⟨more, hmore⟩ := drive_results rs hresults
  have hsound' := hsound r (List.mem_cons_self ..)
  have hanswer : x.tracee.regs.rax = r.ret.rax := by
    rw [hrax, answer_of_first (houtcome'.trans (houtcome.trans hanswered)) hmore hsound'.result]
    exact BitVec.ofInt_toInt ..
  refine ⟨x, hrun, Emulations.not_busy_iff.2 hover.idle, hanswer, ?_⟩
  rw [hanswer]
  exact answers_iff hsound'

theorem served_sound {rax : U64} (h : 0 ≤ rax.toInt ∨ isError rax.toInt = true) :
    (served rax).Sound := ⟨rfl, rfl, h⟩

/-- The stop at which an `eventfd` that starts at zero is taken over. -/
def eventfdTurn : Turn := Tracer.oldTurn (.syscall 1) (.entryOf Nr.eventfd 0 0 0 0)

/-- A process that has no descriptors left is told so. -/
theorem eventfd_answer_iff_emfile :
    ∃ x, run 1 (eventfdTurn.tracee.regs.rip - 2) (start (Tracer.new 1 true false) eventfdTurn)
        [served (-24), served 0, served 0] = some x ∧
      Answers [served (-24), served 0, served 0] x.tracee.regs.rax := by
  have hsound : ∀ r ∈ [served (-24), served 0, served 0], r.Sound := by
    simp only [List.forall_mem_cons]
    exact ⟨served_sound (by decide), served_sound (by decide), served_sound (by decide), by simp⟩
  obtain ⟨x, hrun, -, -, hiff⟩ := eventfd_answer_iff (s := Tracer.new 1 true false)
    (u := eventfdTurn) ⟨rfl, rfl⟩ rfl rfl rfl (Or.inl rfl) rfl hsound rfl
  exact ⟨x, hrun, hiff.2 (Or.inl (by decide))⟩

/-- **An eventfd whose socket cannot be bound**: the application is handed the descriptor
of a socket that is connected to nothing. -/
theorem unbound_socket_returned :
    let rs := [served 3, served (-98), served 0]
    ∃ x, run 1 (eventfdTurn.tracee.regs.rip - 2) (start (Tracer.new 1 true false) eventfdTurn)
        rs = some x ∧
      x.tracer.emulated.busy 1 = false ∧ x.made.map Call.nr = [Nr.socket, Nr.bind] ∧
      firstError rs = some (-98) ∧ x.tracee.regs.rax = 3 ∧ ¬ Answers rs x.tracee.regs.rax := by
  refine ⟨_, rfl, ?_⟩
  decide +kernel

end Injected
end Tracing
end Sharun
