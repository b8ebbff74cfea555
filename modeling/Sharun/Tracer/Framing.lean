/-
# The stops of a call, and what they change

A call begins at an entry stop, a syscall stop of the every-syscall mode or a stop of
the seccomp filter (`AtEntry`), and goes on with the syscall stops of its tracee that
are taken for stops of the call (`InCall`): the owed entry stop and the exit stop of a
call rewritten in place, the stops of the calls of an emulation.  In between the tracer
handles stops of other tracees and signals (`Aside`).  `StopOf` are these stops, with
whatever memory the tracee has at each of them and whatever the kernel has returned;
that a system call leaves the argument registers alone is all that is asked of it.

`Owes` holds after every stop of a call (`StopOf.owes`): what is recorded belongs to
the call, and the calls still planned fit its footprint.  From it, `memory_framed_iff`:
the layer stays within the footprint at every stop but one, the exit stop of a
`getrandom` whose buffer ends in a word that is not mapped to its end (`Spills`).
-/

import Sharun.Tracer.Footprint

namespace Sharun
namespace Tracing

open Machine Emulation Sharun.Basis

/-! ### The stops of a call -/

/-- A turn that is about other tracees, or about a signal of this one. -/
def Aside (pid : Pid) (u : Turn) : Prop :=
  u.wait.pid = some pid → ∃ sig, u.wait = .stopped pid sig

namespace Tracer

/-- The next syscall stop of a tracee is taken for one of the call it is in. -/
def InCall (s : Tracer) (pid : Pid) : Prop :=
  s.seccompMode = true ∨ s.emulated.busy pid = true ∨ s.entering pid = false

end Tracer

/-- The turn is about the entry stop of a call. -/
inductive AtEntry (s : Tracer) (pid : Pid) (u : Turn) : Prop
  | traced (hmode : s.EverySyscall) (hu : u.wait = .syscall pid)
  | filtered (hmode : s.Filtering) (hu : u.wait = .event pid PTRACE_EVENT_SECCOMP)

/-- The stops of the call whose entry stop is the turn `u` from the state `s`: each with
the state it finds. -/
inductive StopOf (s : Tracer) (pid : Pid) (u : Turn) : Tracer → Turn → Prop
  | entry : StopOf s pid u s u
  | later {s' : Tracer} {v : Turn} (h : StopOf s pid u s' v) {between : List Turn}
      (haside : ∀ x ∈ between, Aside pid x) {w : Turn} (hw : w.wait = .syscall pid)
      (hin : (between.foldl Tracer.next (s'.next v)).InCall pid)
      (hkept : kept w.tracee.regs = kept (s'.turn v).tracee.regs) :
      StopOf s pid u (between.foldl Tracer.next (s'.next v)) w

/-- What the tracer owes a call with the registers `regs`, the tracee as it was left. -/
structure Owes (regs : Regs) (pid : Pid) (s : Tracer) (t : Tracee) : Prop where
  mode : s.EverySyscall ∨ s.Filtering ∧ s.emulated.active pid = none
  recorded : Recorded regs (s.pending pid)
  steps : ∀ q, s.emulated.active pid = some (.sequence q) → ∀ step ∈ q.queue, StepFits regs step
  /-- A `getrandom` is answered at its exit stop, from the registers it was made with. -/
  getrandom : regs.origRax = Nr.getrandom →
    kept t.regs = kept regs ∧ s.emulated.active pid = none

namespace Tracer

/-- A turn aside changes neither the mode nor what is kept about the call. -/
theorem view_next_aside {s : Tracer} {pid : Pid} {u : Turn} (h : Aside pid u) :
    (s.next u).view pid = s.view pid := by
  by_cases hpid : u.wait.pid = some pid
  · obtain ⟨sig, hsig⟩ := h hpid
    exact view_next_stopped hsig
  · exact view_of_slot (next_slot_of_ne s u hpid)

end Tracer

theorem Owes.congr {regs : Regs} {pid : Pid} {s s' : Tracer} {t t' : Tracee}
    (h : Owes regs pid s t) (hsyscall : s'.syscallMode = s.syscallMode)
    (hseccomp : s'.seccompMode = s.seccompMode)
    (hview : s'.view pid = s.view pid) (hkept : kept t'.regs = kept t.regs) :
    Owes regs pid s' t' := by
  have hpending : s'.pending pid = s.pending pid := congrArg View.pending hview
  have hactive : s'.emulated.active pid = s.emulated.active pid := congrArg View.active hview
  refine ⟨?_, ?_, ?_, ?_⟩
  · rw [hactive]
    exact h.mode.imp (fun h => ⟨hsyscall.trans h.1, hseccomp.trans h.2⟩)
      fun h => ⟨⟨hsyscall.trans h.1.1, hseccomp.trans h.1.2⟩, h.2⟩
  · rw [hpending]
    exact h.recorded
  · rw [hactive]
    exact h.steps
  · rw [hactive, hkept]
    exact h.getrandom

/-- The turns in between. -/
theorem Owes.aside {regs : Regs} {pid : Pid} {t : Tracee} {between : List Turn}
    (haside : ∀ x ∈ between, Aside pid x) {s : Tracer} (h : Owes regs pid s t) :
    Owes regs pid (between.foldl Tracer.next s) t := by
  induction between generalizing s with
  | nil => exact h
  | cons u us ih =>
    refine ih (fun x hx => haside x (List.mem_cons_of_mem u hx)) ?_
    obtain ⟨-, hsyscall, hseccomp⟩ := Tracer.next_modes s u
    exact h.congr hsyscall hseccomp
      (Tracer.view_next_aside (haside u (List.mem_cons_self ..))) rfl

/-! ### The stops of an emulation -/

/-- What a stop of an emulation does: nothing in memory, and the call set up for the
tracee fits, like those that are left. -/
theorem step_framed {regs : Regs} (e : Emulations) (pid : Pid)
    (h : ∀ q, e.active pid = some (.sequence q) → ∀ step ∈ q.queue, StepFits regs step)
    (env : Env) (t : Tracee) :
    (e.step env pid t).2.mem = t.mem ∧
      ∀ q, (e.step env pid t).1.active pid = some (.sequence q) →
        (∀ step ∈ q.queue, StepFits regs step) ∧
        (q.atEntry = true → t.canSet = true →
          Fits regs (callOf (enterKernel (e.step env pid t).2.regs))) := by
  have hover : ∀ {e' : Emulations} {q : Sequence} {P : Prop},
      (e'.forget pid).active pid = some (.sequence q) → P := by
    intro e' q P hq
    rw [Emulations.forget_active_self] at hq
    exact absurd hq (by simp)
  unfold Emulations.step
  split
  · rename_i hnone
    exact ⟨rfl, fun q hq => absurd (hnone.symm.trans hq) (by simp)⟩
  · refine ⟨?_, fun q hq => hover hq⟩
    dsimp only
    split
    · rfl
    · exact Tracee.putregs_mem _ _
  · rename_i s hactive
    have hsteps := h s hactive
    split_ifs with hentry
    · refine ⟨rfl, fun q hq => ?_⟩
      rw [Emulations.setActive_active_self] at hq
      obtain rfl := Active.sequence.inj (Option.some.inj hq)
      exact ⟨hsteps, fun hat => absurd hat (by simp)⟩
    split
    · exact ⟨rfl, fun q hq => hover hq⟩
    rename_i regs' hregs
    obtain ⟨-, rfl⟩ := Tracee.getregs_eq_some.1 hregs
    unfold Emulations.advance
    dsimp only
    rw [Sequence.adopt_snd]
    split
    · rename_i step queue hnext
      obtain ⟨hmem, hsub⟩ := Sequence.mem_of_next hnext
      rw [Sequence.returned_queue] at hmem hsub
      refine ⟨Tracee.putregs_mem _ _, fun q hq => ?_⟩
      rw [Emulations.setActive_active_self] at hq
      obtain rfl := Active.sequence.inj (Option.some.inj hq)
      refine ⟨fun step' hstep' => hsteps step' (hsub hstep'), fun _ hset => ?_⟩
      dsimp only
      rw [Tracee.putregs_of_canSet hset]
      exact hsteps step hmem _
    · exact ⟨Tracee.putregs_mem _ _, fun q hq => hover hq⟩

/-! ### One stop -/

/-- The stop is the exit stop of a `getrandom`, and a byte that is not zero is zeroed at it,
behind the buffer and outside of scratch space. -/
def Spills (s : Tracer) (pid : Pid) (u : Turn) (regs : Regs) : Prop :=
  (s.Filtering → s.expectEntry pid = false) ∧
    ∃ a ∈ zeroedAt u.env s pid u.tracee, a ∉ block regs ∧ u.tracee.mem a ≠ some 0

/-- What a stop does for a call: memory changes within the footprint unless the stop spills,
what is owed afterwards belongs to the call, and a call that is set up fits. -/
structure StopFramed (regs : Regs) (pid : Pid) (s : Tracer) (u : Turn) : Prop where
  memory : (∀ m, Changes (footprint m regs) u.tracee.mem (s.turn u).tracee.mem) ↔
    ¬ Spills s pid u regs
  owes : Owes regs pid (s.next u) (s.turn u).tracee
  injected : ∀ q, (s.next u).emulated.active pid = some (.sequence q) → q.atEntry = true →
    u.tracee.canSet = true → Fits regs (callOf (enterKernel (s.turn u).tracee.regs))

section

variable {regs : Regs} {s : Tracer} {pid : Pid} {u : Turn}

/-- An exit stop collects what was recorded for the call, or leaves it there. -/
theorem onSyscallExit_recorded {s : Tracer} (h : Recorded regs (s.pending pid)) (env : Env)
    (t : Tracee) : Recorded regs ((s.onSyscallExit env pid t).1.pending pid) ∧
      (s.onSyscallExit env pid t).1.emulated = s.emulated := by
  obtain ⟨p, t', heq, hp | ⟨hp, -⟩⟩ := Tracer.onSyscallExit_eq env s pid t
  · rw [heq, hp, Tracer.pending_setPending]
    exact ⟨recorded_empty regs, rfl⟩
  · rw [heq, hp, Tracer.pending_setPending]
    exact ⟨h, rfl⟩

/-- An exit stop, in either mode. -/
theorem exit_framed (h : Owes regs pid s u.tracee) (s₀ : Tracer)
    (hunowed : s.Filtering → s.expectEntry pid = false)
    (hpending : s₀.pending pid = s.pending pid)
    (hactive : s₀.emulated.active pid = s.emulated.active pid)
    (hidle : s.emulated.active pid = none)
    (hnext : s.next u = (s₀.onSyscallExit u.env pid u.tracee).1)
    (hturn : (s.turn u).tracee = (s₀.onSyscallExit u.env pid u.tracee).2) :
    StopFramed regs pid s u := by
  have hp : Recorded regs (s₀.pending pid) := by
    rw [hpending]
    exact h.recorded
  obtain ⟨hrecorded, hemulated⟩ := onSyscallExit_recorded hp u.env u.tracee
  have hnone : (s.next u).emulated.active pid = none := by
    rw [hnext, hemulated, hactive, hidle]
  have hmode : (s.next u).EverySyscall ∨
      (s.next u).Filtering ∧ (s.next u).emulated.active pid = none :=
    h.mode.imp (fun h => h.next u) fun h => ⟨h.1.next u, hnone⟩
  refine ⟨?_, ⟨hmode, ?_, fun q hq => ?_, fun hnr => ⟨?_, hnone⟩⟩, fun q hq => ?_⟩
  · have hlast : s₀.lastSyscall pid = s.lastSyscall pid := congrArg Pending.lastSyscall hpending
    rw [hturn, onSyscallExit_changes_iff hp (fun hnr => (h.getrandom hnr).1), Spills, zeroedAt,
      zeroedAt, hlast, and_iff_right hunowed]
  · rw [hnext]
    exact hrecorded
  · exact absurd (hnone.symm.trans hq) (by simp)
  · rw [hturn]
    exact (Tracer.onSyscallExit_regs u.env s₀ pid u.tracee).1.trans (h.getrandom hnr).1
  · exact absurd (hnone.symm.trans hq) (by simp)

/-- A later stop of the call in every-syscall mode. -/
theorem traced_stop_framed (hmode : s.EverySyscall) (h : Owes regs pid s u.tracee)
    (hu : u.wait = .syscall pid) (hin : s.InCall pid) : StopFramed regs pid s u := by
  cases hactive : s.emulated.active pid with
  | some a =>
    obtain ⟨hturn, hnext, -, -⟩ := Tracer.turn_emulated hmode hu hactive
    have hticked : (s.ticked u).emulated.active pid = s.emulated.active pid := by
      simp [Tracer.ticked]
    obtain ⟨hmem, hstep⟩ := step_framed (s.ticked u).emulated pid
      (by rw [hticked]; exact h.steps) u.env u.tracee
    have hpending : (s.next u).pending pid = s.pending pid := by
      have hview := Tracer.view_next_syscall hmode hu
      generalize hv : s.view pid = v at hview
      generalize hv' : (s.next u).view pid = v' at hview
      have hsome : v.active = some a := by rw [← hv]; exact hactive
      cases hview with
      | emulated hmoves => exact (congrArg View.pending hv').trans (congrArg View.pending hv).symm
      | _ => exact absurd hsome (by simp)
    refine ⟨?_, ⟨Or.inl (hmode.next u), ?_, fun q hq => ?_, fun hnr => ?_⟩,
      fun q hq hentry hset => ?_⟩
    · rw [hturn, hmem]
      refine iff_of_true (fun m => .refl _ _) ?_
      rintro ⟨-, a, ha, -⟩
      have hidle := (h.getrandom (h.recorded.lastSyscall ha.1)).2
      exact absurd (hidle.symm.trans hactive) (by simp)
    · rw [hpending]
      exact h.recorded
    · rw [hnext] at hq
      exact (hstep q hq).1
    · exact absurd ((h.getrandom hnr).2.symm.trans hactive) (by simp)
    · rw [hnext] at hq
      rw [hturn]
      exact (hstep q hq).2 hentry hset
  | none =>
    have hentering : s.entering pid = false := by
      rcases hin with hin | hin | hin
      · exact absurd (hmode.seccompMode.symm.trans hin) (by decide)
      · exact absurd ((Emulations.not_busy_iff.2 hactive).symm.trans hin) (by decide)
      · exact hin
    have hbegin : (s.ticked u).emulated.begin u.env pid u.tracee (s.entering pid) =
        ((s.ticked u).emulated, u.tracee, false) := by
      rw [hentering]
      rfl
    obtain ⟨hnext, hturn⟩ := Tracer.turn_declined hmode hu hactive hbegin
    have hticked : (s.ticked u).entering pid = false := hentering
    unfold Tracer.onSyscallStop at hnext hturn
    dsimp only at hnext hturn
    rw [hticked, if_neg (by decide)] at hnext hturn
    exact exit_framed h ((s.ticked u).setInSyscall pid false)
      (fun hfilter => absurd hfilter hmode.not_filtering) rfl
      (by simp [Tracer.setInSyscall, Tracer.ticked]) hactive hnext hturn

/-- A later stop of the call in seccomp mode: the owed entry stop, or the exit stop. -/
theorem filtered_stop_framed (hmode : s.Filtering) (h : Owes regs pid s u.tracee)
    (hidle : s.emulated.active pid = none) (hu : u.wait = .syscall pid) :
    StopFramed regs pid s u := by
  cases hexpect : s.expectEntry pid with
  | true =>
    have hturn := Tracer.turn_owed hmode hu hexpect
    have hview : (s.next u).view pid = s.view pid := by
      unfold Tracer.next
      rw [hturn]
      exact Tracer.view_ticked s u pid
    have htracee : (s.turn u).tracee = u.tracee := by rw [hturn]; rfl
    obtain ⟨-, hsyscall, hseccomp⟩ := Tracer.next_modes s u
    refine ⟨?_, h.congr hsyscall hseccomp hview (by rw [htracee]), fun q hq => ?_⟩
    · rw [htracee]
      refine iff_of_true (fun m => .refl _ _) fun hspills => ?_
      exact absurd (hexpect.symm.trans (hspills.1 hmode)) (by decide)
    · exact absurd (hidle.symm.trans ((congrArg View.active hview).symm.trans hq)) (by simp)
  | false =>
    have hturn := Tracer.turn_unowed hmode hu hexpect
    exact exit_framed h (s.ticked u) (fun _ => hexpect) rfl (by simp [Tracer.ticked]) hidle
      (congrArg Handled.tracer hturn) (congrArg Handled.tracee hturn)

/-- The serial number of emulated eventfds is nothing `tick` touches. -/
theorem tick_sequence (env : Env) (alarm : Bool) (e : Emulations) :
    (e.tick env alarm).sequence = e.sequence := by
  have hserve : ∀ (e : Emulations) (due : Emulations.Due),
      (e.serve env due).sequence = e.sequence := by
    intro e due
    have hset : ∀ deadline, (e.setDeadline due.fd deadline).sequence = e.sequence := by
      intro deadline
      unfold Emulations.setDeadline
      split <;> rfl
    unfold Emulations.serve
    split
    · rfl
    split
    · exact hset _
    · split
      · exact hset _
      · rfl
    · rfl
  have hfold : ∀ (l : List Emulations.Due) (e : Emulations),
      (l.foldl (Emulations.serve env) e).sequence = e.sequence := by
    intro l
    induction l with
    | nil => exact fun _ => rfl
    | cons due l ih => exact fun e => (ih _).trans (hserve e due)
  unfold Emulations.tick
  split_ifs
  · rfl
  · exact hfold _ _

/-- What the entry stop of a call does. -/
structure EntryFramed (regs : Regs) (pid : Pid) (s : Tracer) (u : Turn) : Prop where
  framed : Framed regs u.tracee (s.turn u).tracee
  owes : Owes regs pid (s.next u) (s.turn u).tracee
  fresh : ∀ q, (s.next u).emulated.active pid = some (.sequence q) → q.atEntry = false

/-- The entry stop of a call that the tracer rewrites in place or leaves as it is. -/
theorem EntryFramed.of_enters {s₁ : Tracer} {t₁ : Tracee}
    (hmode : (s.next u).EverySyscall ∨ (s.next u).Filtering)
    (hnext : (s.next u).pending pid = s₁.pending pid)
    (hidle : (s.next u).emulated.active pid = none) (hturn : (s.turn u).tracee = t₁)
    (henters : Enters regs pid u.tracee s₁ t₁)
    (hgetrandom : regs.origRax = Nr.getrandom → kept t₁.regs = kept regs) :
    EntryFramed regs pid s u := by
  have hnever : ∀ {q : Sequence} {P : Prop},
      (s.next u).emulated.active pid = some (.sequence q) → P :=
    fun hq => absurd (hidle.symm.trans hq) (by simp)
  rw [← hturn] at henters hgetrandom
  refine ⟨henters.1, ⟨hmode.imp id fun h => ⟨h, hidle⟩, ?_, fun q hq => hnever hq,
    fun hnr => ⟨hgetrandom hnr, hidle⟩⟩, fun q hq => hnever hq⟩
  rw [hnext]
  exact henters.2

/-- Nothing that is recorded is due. -/
theorem recorded_of_empty {s₀ : Tracer} (h : s₀.pending pid = Pending.empty) :
    Recorded regs (s₀.pending pid) := by
  rw [h]
  exact recorded_empty _

/-- The stop of the filter at a call. -/
theorem filtered_entry_framed (hmode : s.Filtering) (hu : u.wait = .event pid PTRACE_EVENT_SECCOMP)
    (hview : s.view pid = ⟨false, Pending.empty, none⟩) : EntryFramed u.tracee.regs pid s u := by
  have hticked : (s.ticked u).emulated.active pid = none :=
    (Tracer.active_ticked s u pid).trans (congrArg View.active hview)
  obtain ⟨hturn, hasked⟩ := Tracer.turn_seccomp hmode hu
  obtain ⟨p, t', needsExit, heq, -, -⟩ := Tracer.onSeccompStop_eq u.env (s.ticked u) pid u.tracee
  have hsame : ((s.ticked u).onSeccompStop u.env pid u.tracee).1.emulated.active pid = none := by
    rw [heq]
    exact hticked
  have hnext : (s.next u).pending pid =
        ((s.ticked u).onSeccompStop u.env pid u.tracee).1.pending pid ∧
      (s.next u).emulated.active pid = none := by
    rcases hasked with ⟨-, -, hnext⟩ | ⟨-, -, hnext⟩
    · rw [hnext]
      exact ⟨rfl, hsame⟩
    · rw [hnext]
      exact ⟨rfl, hsame⟩
  have hempty : (s.ticked u).pending pid = Pending.empty := congrArg View.pending hview
  refine .of_enters (Or.inr (hmode.next u)) hnext.1 hnext.2 hturn
    (onSeccompStop_enters u.env (recorded_of_empty hempty)) fun hnr => ?_
  rw [onSeccompStop_getrandom u.env _ pid hnr]

/-- The plan of an emulation that has just begun touches what the call may touch. -/
theorem begun_fits {e : Emulations} {t : Tracee} {taken : Bool}
    (hidle : (s.ticked u).emulated.active pid = none)
    (hbegin : (s.ticked u).emulated.begin u.env pid u.tracee true = (e, t, taken)) {q : Sequence}
    (hq : e.active pid = some (.sequence q)) :
    q.atEntry = false ∧ ∀ step ∈ q.queue, StepFits u.tracee.regs step := by
  have hstarted : ((s.ticked u).emulated.begin u.env pid u.tracee true).1.active pid =
      some (.sequence q) := by
    rw [hbegin]
    exact hq
  obtain ⟨regs, hregs, hstarting⟩ := Emulations.begin_sequence u.env hidle hstarted
  obtain ⟨-, rfl⟩ := Tracee.getregs_eq_some.1 hregs
  obtain ⟨first, -, hplan, -⟩ := hstarting.plan
  refine ⟨hstarting.atEntry, fun step hstep => ?_⟩
  refine planned_fit (s.ticked u).emulated pid u.tracee.regs step ?_
  rw [hplan]
  exact List.mem_cons_of_mem _ hstep

/-- The entry stop of a call where every call is traced. -/
theorem traced_entry_framed (hmode : s.EverySyscall) (hu : u.wait = .syscall pid)
    (hview : s.view pid = ⟨false, Pending.empty, none⟩) (hpid : pid < 2 ^ 31)
    (hsequence : s.emulated.sequence < 2 ^ 64) : EntryFramed u.tracee.regs pid s u := by
  have hticked : (s.ticked u).emulated.active pid = none :=
    (Tracer.active_ticked s u pid).trans (congrArg View.active hview)
  have hsequence' : (s.ticked u).emulated.sequence < 2 ^ 64 := by
    rw [show (s.ticked u).emulated.sequence = s.emulated.sequence from tick_sequence ..]
    exact hsequence
  have hframed : Framed u.tracee.regs u.tracee
      ((s.ticked u).emulated.begin u.env pid u.tracee true).2.1 :=
    begin_framed u.env (s.ticked u).emulated u.tracee true hpid hsequence'
  have hmode' : (s.next u).EverySyscall := hmode.next u
  cases entering_of_fresh hmode hview hu with
  | taken hbegin hnext htracee =>
    rw [hbegin] at hframed
    have hempty : (s.next u).pending pid = Pending.empty := by
      rw [hnext]
      exact congrArg View.pending hview
    refine ⟨?_, ⟨Or.inl hmode', recorded_of_empty hempty, fun q hq => ?_, fun hnr => ?_⟩,
      fun q hq => ?_⟩
    · rw [htracee]
      exact hframed
    · rw [hnext] at hq
      exact (begun_fits hticked hbegin hq).2
    · rw [begin_getrandom u.env _ pid true hnr] at hbegin
      exact absurd (congrArg (fun r => r.2.2) hbegin) (by simp)
    · rw [hnext] at hq
      exact (begun_fits hticked hbegin hq).1
  | @own _ t s₀ hbegin hsame hidle hempty hnext htracee =>
    rw [hbegin] at hframed
    have hrecorded : Recorded t.regs (s₀.pending pid) := recorded_of_empty hempty
    have henters := onSyscallEntry_enters u.env hrecorded
    rw [hsame.regs] at henters
    refine .of_enters (Or.inl hmode') (by rw [hnext]) hidle htracee
      ⟨hframed.trans henters.1, henters.2⟩ fun hnr => ?_
    rw [onSyscallEntry_getrandom u.env _ pid (by rw [hsame.regs]; exact hnr), hsame.regs]

/-- **The entry stop of a call.** -/
theorem entry_framed (hentry : AtEntry s pid u)
    (hview : s.view pid = ⟨false, Pending.empty, none⟩) (hpid : pid < 2 ^ 31)
    (hsequence : s.emulated.sequence < 2 ^ 64) : EntryFramed u.tracee.regs pid s u := by
  cases hentry with
  | filtered hmode hu => exact filtered_entry_framed hmode hu hview
  | traced hmode hu => exact traced_entry_framed hmode hu hview hpid hsequence

/-! ### Every stop -/

/-- After every stop of a call the tracer owes it what was recorded for it. -/
theorem StopOf.owes {s' : Tracer} {v : Turn} (h : StopOf s pid u s' v)
    (hentry : EntryFramed regs pid s u) : Owes regs pid (s'.next v) (s'.turn v).tracee ∧
      (s' = s ∧ v = u ∨ StopFramed regs pid s' v) := by
  induction h with
  | entry => exact ⟨hentry.owes, Or.inl ⟨rfl, rfl⟩⟩
  | @later s' v _ between haside w hw hin hkept ih =>
    have howes : Owes regs pid (between.foldl Tracer.next (s'.next v)) w.tracee :=
      (ih.1.aside haside).congr rfl rfl rfl hkept
    have hstop : StopFramed regs pid (between.foldl Tracer.next (s'.next v)) w := by
      rcases howes.mode with hmode | ⟨hmode, hidle⟩
      · exact traced_stop_framed hmode howes hw hin
      · exact filtered_stop_framed hmode howes hidle hw
    exact ⟨hstop.owes, Or.inr hstop⟩

/-- Nothing spills where nothing is recorded. -/
theorem not_spills_of_fresh (hview : s.view pid = ⟨false, Pending.empty, none⟩) :
    ¬ Spills s pid u regs := by
  rintro ⟨-, a, ha, -⟩
  have hlast : s.lastSyscall pid = none :=
    congrArg (fun v => v.pending.lastSyscall) hview
  exact absurd (hlast.symm.trans ha.1) (by simp)

end

/-- The memory around a call with the registers `regs` at its entry stop, and at the stop `v`
of it in the state `s'`: where its scratch space lies, what the stop changes, and what the
kernel is asked to fill by the call made in its place and by those made after it. -/
structure MemoryFramed (s : Tracer) (pid : Pid) (u : Turn) (regs : Regs) (s' : Tracer)
    (v : Turn) : Prop where
  /-- Scratch space begins at `rsp - 512`, rounded down to 16, and ends below the red zone. -/
  below : ∀ a ∈ block regs,
    (regs.rsp.toNat - 512) / 16 * 16 ≤ a.toNat ∧ a.toNat < regs.rsp.toNat - 128
  /-- The address and the initial value of an emulated eventfd. -/
  parts : Disjoint
      (region (scratchFor regs) (Emulations.eventfdAddress pid s.emulated.sequence).length)
      (region (scratchFor regs + 256) 8) ∧
    region (scratchFor regs) (Emulations.eventfdAddress pid s.emulated.sequence).length ⊆
      block regs ∧ region (scratchFor regs + 256) 8 ⊆ block regs
  /-- The words that are poked. -/
  poked : ∀ m, Changes (footprint m regs) v.tracee.mem (s'.turn v).tracee.mem
  /-- The call that is made at the entry stop. -/
  rewritten : ∀ m, outputBytes m (callOf (s.turn u).tracee.regs) ⊆ footprint m regs
  /-- A call that is set up at an exit stop, as it is entered. -/
  injected : ∀ q, (s'.next v).emulated.active pid = some (.sequence q) → q.atEntry = true →
    v.tracee.canSet = true →
    ∀ m, outputBytes m (callOf (enterKernel (s'.turn v).tracee.regs)) ⊆ footprint m regs

/-- **What the layer may change in a tracee's memory.**  For every call, in both tracing
modes, and at each of its stops, whatever the memory is there: words are poked and buffers
are handed to the kernel within the scratch space of the call, which ends below the red
zone, and within the buffers the application passed with it, and nothing else, exactly if
the stop does not spill. -/
theorem memory_framed_iff {s s' : Tracer} {pid : Pid} {u v : Turn} {regs : Regs}
    (hentry : AtEntry s pid u) (hview : s.view pid = ⟨false, Pending.empty, none⟩)
    (hregs : u.tracee.getregs = some regs) (hrsp : 1024 ≤ regs.rsp.toNat)
    (hpid : pid < 2 ^ 31) (hsequence : s.emulated.sequence < 2 ^ 64)
    (hstop : StopOf s pid u s' v) :
    MemoryFramed s pid u regs s' v ↔ ¬ Spills s' pid v regs := by
  obtain ⟨-, rfl⟩ := Tracee.getregs_eq_some.1 hregs
  have hframed := entry_framed hentry hview hpid hsequence
  have hlen := eventfdAddress_length hpid hsequence
  have hpoked : (∀ m, Changes (footprint m u.tracee.regs) v.tracee.mem (s'.turn v).tracee.mem) ↔
      ¬ Spills s' pid v u.tracee.regs := by
    rcases (hstop.owes hframed).2 with ⟨rfl, rfl⟩ | h
    · exact iff_of_true hframed.framed.memory (not_spills_of_fresh hview)
    · exact h.memory
  refine ⟨fun h => hpoked.1 h.poked, fun h => ⟨fun a ha => block_below hrsp ha, ⟨?_, ?_, ?_⟩,
    hpoked.2 h, hframed.framed.call, fun q hq hat hset => ?_⟩⟩
  · exact region_disjoint (k := 256) (by omega) (by decide) _
  · exact scratch_subset_block (by omega) _
  · exact region_subset_block (k := 256) (by decide) _
  · rcases (hstop.owes hframed).2 with ⟨rfl, rfl⟩ | h
    · exact absurd ((hframed.fresh q hq).symm.trans hat) (by decide)
    · exact h.injected q hq hat hset

/-- A turn on a 2.6.18 kernel at a stop of a `getrandom` of one byte at `0x1ffd`, where memory
ends before `0x2000` and holds these bytes. -/
def lastPageTurn (byte : Byte) : Turn :=
  Tracer.oldTurn (.syscall 1)
    { Tracee.entryOf Nr.getrandom 0x1ffd 1 0 0 with
      mem := fun a => if a.toNat < 0x2000 then some byte else none }

/-- The exit stop of that call. -/
theorem lastPageTurn_stopOf (byte : Byte) :
    StopOf (.new 1 true false) 1 (lastPageTurn byte)
      ((Tracer.new 1 true false).next (lastPageTurn byte)) (lastPageTurn byte) :=
  @StopOf.later _ _ _ _ _ .entry [] (fun _ hx => absurd hx List.not_mem_nil) _ rfl
    (Or.inr (Or.inr rfl)) rfl

/-- **Bytes behind a buffer are zeroed**: the poke of the last word fails, after it has written
the two bytes up to the end of the mapping. -/
theorem last_word_spills :
    ¬ ∀ (s s' : Tracer) (pid : Pid) (u v : Turn) (regs : Regs), AtEntry s pid u →
      s.view pid = ⟨false, Pending.empty, none⟩ → u.tracee.getregs = some regs →
      1024 ≤ regs.rsp.toNat → pid < 2 ^ 31 → s.emulated.sequence < 2 ^ 64 →
      StopOf s pid u s' v → MemoryFramed s pid u regs s' v := by
  intro hall
  have hframed := hall _ _ _ _ _ _ (.traced ⟨rfl, rfl⟩ rfl) rfl rfl (by decide) (by decide)
    (by decide) (lastPageTurn_stopOf 1)
  have hout : (0x1fff : U64) ∉ footprint (fun _ => none) (lastPageTurn 1).tracee.regs := by
    rintro (hblock | ⟨b, hb, hbuffer⟩)
    · exact absurd hblock (show ¬ ((0x1fff : U64) - scratchFor _).toNat < 264 by decide)
    · obtain rfl := List.mem_singleton.1
        (show b ∈ [(⟨0x1ffd, 1⟩ : Buffer)] from hb)
      exact absurd hbuffer (show ¬ ((0x1fff : U64) - 0x1ffd).toNat < 1 by decide)
  exact absurd (hframed.poked _ hout) (by decide)

/-- Where these bytes are zero nothing is different. -/
theorem memory_framed_iff_zeros :
    MemoryFramed (.new 1 true false) 1 (lastPageTurn 0) (lastPageTurn 0).tracee.regs
      ((Tracer.new 1 true false).next (lastPageTurn 0)) (lastPageTurn 0) := by
  refine (memory_framed_iff (.traced ⟨rfl, rfl⟩ rfl) rfl rfl (by decide) (by decide) (by decide)
    (lastPageTurn_stopOf 0)).2 ?_
  rintro ⟨-, a, ha, -, hne⟩
  have hmapped : region 0x1ffd ((a - 0x1ffd).toNat + 1) ⊆ (lastPageTurn 0).tracee.mem.mapped :=
    ha.2.2.2.2.2.2.2.2.1
  have hbyte : ((lastPageTurn 0).tracee.mem a).isSome := hmapped (Nat.lt_succ_self _)
  refine hne ?_
  show (if a.toNat < 0x2000 then some (0 : Byte) else none) = some 0
  have hbyte : (if a.toNat < 0x2000 then some (0 : Byte) else none).isSome := hbyte
  split_ifs at hbyte ⊢ with hlt
  · rfl
  · exact absurd hbyte (by simp)

end Tracing
end Sharun
