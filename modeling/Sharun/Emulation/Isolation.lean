/-
# One process's timers and another's calls

`src/emulated_syscalls.rs` keeps the timerfds of all tracees in one table, keyed by
the descriptor number alone.  The calls of a process leave another's timers as they
are, and as they would be without those calls, as long as every number it closes or
sets, and every number it gets for a new timerfd, is one under which no timer of the
other is stored (`timers_isolated`).  Nothing in the code sees to that: a fork that
closes its copy of the descriptor removes the timer (`close_in_fork`).

Whose timer it is, is not recorded in the source; the run carries it along
(`Shared.creator`).
-/

import Sharun.Emulation.Timers
import Sharun.Emulation.Sequences

namespace Sharun
namespace Emulation

open Machine Sharun.Basis

/-! ### The part of an emulation that ends in the tables -/

/-- `matches!(step, Step::Pipe { .. })`. -/
def Step.isPipe : Step → Bool
  | .pipe _ => true
  | _ => false

/-- A pipe is still to be made or adopted. -/
def Sequence.makesPipe (s : Sequence) : Bool := s.running.any Step.isPipe || s.queue.any Step.isPipe

/-- The sequence in progress, where it makes a pipe. -/
def pipePart : Option Active → Option Sequence
  | some (.sequence s) => if s.makesPipe then some s else none
  | _ => none

theorem pipePart_eq_some {a : Option Active} {s : Sequence} (h : pipePart a = some s) :
    a = some (.sequence s) := by
  unfold pipePart at h
  split at h
  · split_ifs at h
    obtain rfl := Option.some.inj h
    rfl
  · exact absurd h (by simp)

theorem pipePart_sequence_eq_none {s : Sequence} (h : pipePart (some (.sequence s)) = none) :
    s.makesPipe = false := by
  unfold pipePart at h
  dsimp only at h
  split_ifs at h with hs
  simpa using hs

namespace Emulations

/-- No pipe is on its way for a tracee. -/
def NoPipe (pid : Pid) (r : Emulations × Tracee × Bool) : Prop :=
  pipePart (r.1.active pid) = none

theorem standIn_noPipe {self : Emulations} {pid : Pid} (h : pipePart (self.active pid) = none)
    (t : Tracee) (regs : Regs) (result : ℤ) : NoPipe pid (self.standIn pid t regs result) := by
  unfold standIn
  split
  · exact h
  · unfold NoPipe
    rw [setActive_active_self]
    rfl

theorem startSequence_noPipe {self : Emulations} {pid : Pid}
    (h : pipePart (self.active pid) = none) (t : Tracee) (regs : Regs) (gadget : U64)
    {queue : List Step} (hqueue : queue.any Step.isPipe = false) (outcome : Outcome)
    (clockid : ℤ) : NoPipe pid (self.startSequence pid t regs gadget queue outcome clockid) := by
  unfold startSequence
  cases queue with
  | nil => exact h
  | cons first queue =>
    dsimp only
    split
    · exact h
    · rw [List.any_cons, Bool.or_eq_false_iff] at hqueue
      unfold NoPipe
      rw [setActive_active_self]
      refine if_neg ?_
      simp [Sequence.makesPipe, hqueue.1, hqueue.2]

theorem epollPwait_noPipe (env : Env) {self : Emulations} {pid : Pid}
    (h : pipePart (self.active pid) = none) (t : Tracee) (regs : Regs) :
    NoPipe pid (self.epollPwait env pid t regs) :=
  replaced_cases (P := NoPipe pid) h fun _ _ => startSequence_noPipe h t regs _ rfl _ _

theorem vectorIo_noPipe (env : Env) {self : Emulations} {pid : Pid}
    (h : pipePart (self.active pid) = none) (t : Tracee) (regs : Regs) (write : Bool) :
    NoPipe pid (self.vectorIo env pid t regs write) :=
  replaced_cases (P := NoPipe pid) h fun _ _ => startSequence_noPipe h t regs _ rfl _ _

theorem dupfdCloexec_noPipe (env : Env) {self : Emulations} {pid : Pid}
    (h : pipePart (self.active pid) = none) (t : Tracee) (regs : Regs) :
    NoPipe pid (self.dupfdCloexec env pid t regs) :=
  replaced_cases (P := NoPipe pid) h fun _ _ => startSequence_noPipe h t regs _ rfl _ _

theorem eventfdSteps_noPipe (regs : Regs) (length : ℕ) :
    (eventfdSteps regs length).any Step.isPipe = false := by
  unfold eventfdSteps
  split <;> split <;> rfl

theorem eventfd_noPipe (env : Env) {self : Emulations} {pid : Pid}
    (h : pipePart (self.active pid) = none) (t : Tracee) (regs : Regs) :
    NoPipe pid (self.eventfd env pid t regs) := by
  unfold eventfd
  split
  · exact h
  dsimp only
  split
  · exact h
  split
  · exact h
  split
  · exact h
  split
  · exact h
  exact startSequence_noPipe (by exact h) _ regs _ (eventfdSteps_noPipe regs _) _ _

theorem timerfdGettime_noPipe (env : Env) {self : Emulations} {pid : Pid}
    (h : pipePart (self.active pid) = none) (t : Tracee) (regs : Regs) :
    NoPipe pid (self.timerfdGettime env pid t regs) := by
  unfold timerfdGettime
  split
  · exact h
  dsimp only
  split
  · exact h
  exact standIn_noPipe h _ regs 0

theorem timerfdSettime_noPipe (env : Env) {self : Emulations} {pid : Pid}
    (h : pipePart (self.active pid) = none) (t : Tracee) (regs : Regs) :
    NoPipe pid (self.timerfdSettime env pid t regs) := by
  unfold timerfdSettime
  dsimp only
  split
  · exact h
  split
  · exact h
  split
  · exact h
  split
  · exact h
  exact standIn_noPipe (by exact h) _ regs 0

/-- The two outcomes have the same pipe on its way. -/
def SamePipe (pid : Pid) (r r' : Emulations × Tracee × Bool) : Prop :=
  pipePart (r.1.active pid) = pipePart (r'.1.active pid)

theorem SamePipe.ite {pid : Pid} {c : Prop} [Decidable c] {a b a' b' : Emulations × Tracee × Bool}
    (h : SamePipe pid a a') (h' : SamePipe pid b b') :
    SamePipe pid (if c then a else b) (if c then a' else b') := by
  split
  · exact h
  · exact h'

theorem SamePipe.of_noPipe {pid : Pid} {r r' : Emulations × Tracee × Bool} (h : NoPipe pid r)
    (h' : NoPipe pid r') : SamePipe pid r r' := h.trans h'.symm

theorem startSequence_samePipe {self self' : Emulations} {pid : Pid} {t : Tracee}
    (h : SamePipe pid (self, t, false) (self', t, false)) (regs : Regs) (gadget : U64)
    (queue : List Step) (outcome : Outcome) (clockid : ℤ) :
    SamePipe pid (self.startSequence pid t regs gadget queue outcome clockid)
      (self'.startSequence pid t regs gadget queue outcome clockid) := by
  unfold startSequence
  cases queue with
  | nil => exact h
  | cons first queue =>
    dsimp only
    cases t.setregs (withCall regs (build first _)) with
    | none => exact h
    | some t' =>
      unfold SamePipe
      rw [setActive_active_self, setActive_active_self]

/-- A `timerfd_create` starts out without a look at the state. -/
theorem timerfdCreate_samePipe (env : Env) {self self' : Emulations} {pid : Pid} {t : Tracee}
    (h : SamePipe pid (self, t, false) (self', t, false)) (regs : Regs) :
    SamePipe pid (self.timerfdCreate env pid t regs) (self'.timerfdCreate env pid t regs) := by
  unfold timerfdCreate
  refine .ite h ?_
  dsimp only
  cases gadgetFor t regs with
  | none => exact h
  | some gadget => exact startSequence_samePipe h regs gadget _ _ _

/-- The pipe `begin` sets out to make for an idle tracee. -/
theorem begin_samePipe (env : Env) {self self' : Emulations} {pid : Pid}
    (h : pipePart (self.active pid) = none) (h' : pipePart (self'.active pid) = none)
    (t : Tracee) (entering : Bool) :
    SamePipe pid (self.begin env pid t entering) (self'.begin env pid t entering) := by
  have hsame : ∀ t' b, SamePipe pid (self, t', b) (self', t', b) := fun _ _ => .of_noPipe h h'
  unfold begin
  cases entering with
  | false => exact hsame t false
  | true =>
    rw [if_neg (by decide), if_neg (by decide)]
    cases t.getregs with
    | none => exact hsame t false
    | some regs =>
      exact .ite (hsame t false) <| .ite (.of_noPipe h h') <|
        .ite (.of_noPipe (eventfd_noPipe env h t regs) (eventfd_noPipe env h' t regs)) <|
        .ite (.of_noPipe (eventfd_noPipe env h t regs) (eventfd_noPipe env h' t regs)) <|
        .ite (timerfdCreate_samePipe env (hsame t false) regs) <|
        .ite (.of_noPipe (timerfdSettime_noPipe env h t regs)
          (timerfdSettime_noPipe env h' t regs)) <|
        .ite (.of_noPipe (timerfdGettime_noPipe env h t regs)
          (timerfdGettime_noPipe env h' t regs)) <|
        .ite (.of_noPipe (dupfdCloexec_noPipe env h t regs) (dupfdCloexec_noPipe env h' t regs)) <|
        .ite (.of_noPipe (vectorIo_noPipe env h t regs true)
          (vectorIo_noPipe env h' t regs true)) <|
        .ite (.of_noPipe (vectorIo_noPipe env h t regs false)
          (vectorIo_noPipe env h' t regs false)) <|
        .ite (.of_noPipe (epollPwait_noPipe env h t regs) (epollPwait_noPipe env h' t regs))
          (hsame t false)

/-! ### A stop of a sequence -/

/-- What is adopted at a stop is settled by the pipe on its way. -/
theorem adoption_congr (env : Env) (pid : Pid) (t : Tracee) {a a' : Option Active}
    (h : pipePart a = pipePart a') : adoption env pid t a = adoption env pid t a' := by
  have hnone : ∀ {a : Option Active}, pipePart a = none → adoption env pid t a = none := by
    intro a ha
    unfold adoption
    split
    · rename_i s
      have hs := pipePart_sequence_eq_none ha
      split_ifs
      · split
        · rename_i buffer hrun
          exact absurd hs (by simp [Sequence.makesPipe, hrun, Step.isPipe])
        · rfl
      · rfl
    · rfl
  cases ha : pipePart a with
  | none => rw [hnone ha, hnone (h.symm.trans ha)]
  | some s => rw [pipePart_eq_some ha, pipePart_eq_some (h.symm.trans ha)]

theorem advance_active_congr (env : Env) (self self' : Emulations) (pid : Pid) (t : Tracee)
    (regs : Regs) (s : Sequence) :
    (self.advance env pid t regs s).1.active pid =
      (self'.advance env pid t regs s).1.active pid := by
  unfold advance
  dsimp only
  rw [Sequence.adopt_snd, Sequence.adopt_snd]
  split
  · rw [setActive_active_self, setActive_active_self]
  · rw [forget_active_self, forget_active_self]

/-- Where an emulation moves on to depends on where it is. -/
theorem step_active_congr (env : Env) {self self' : Emulations} {pid : Pid}
    (h : self.active pid = self'.active pid) (t : Tracee) :
    (self.step env pid t).1.active pid = (self'.step env pid t).1.active pid := by
  unfold step
  rw [h]
  cases hactive : self'.active pid with
  | none => exact h.trans hactive |>.trans hactive.symm
  | some a =>
    cases a with
    | fixup result => exact (forget_active_self ..).trans (forget_active_self ..).symm
    | sequence s =>
      dsimp only
      split
      · rw [setActive_active_self, setActive_active_self]
      · cases t.getregs with
        | none => exact (forget_active_self ..).trans (forget_active_self ..).symm
        | some regs => exact advance_active_congr env self self' pid t regs s

/-- Once the pipe is made, or where none is to be made, none is on its way. -/
theorem step_noPipe (env : Env) {self : Emulations} {pid : Pid}
    (h : pipePart (self.active pid) = none) (t : Tracee) :
    pipePart ((self.step env pid t).1.active pid) = none := by
  unfold step
  cases hactive : self.active pid with
  | none => exact h
  | some a =>
    rw [hactive] at h
    cases a with
    | fixup result => exact congrArg pipePart (forget_active_self self pid)
    | sequence s =>
      have hs := pipePart_sequence_eq_none h
      obtain ⟨-, hqueue⟩ := Bool.or_eq_false_iff.1 hs
      dsimp only
      split
      · rw [setActive_active_self]
        exact if_neg (Bool.not_eq_true _ ▸ hs)
      · cases t.getregs with
        | none => exact congrArg pipePart (forget_active_self self pid)
        | some regs =>
          have hq := s.returned_queue env pid t.mem regs.rax.toInt
          unfold advance
          dsimp only
          rw [Sequence.adopt_snd]
          split
          · rename_i step queue hnext
            obtain ⟨hstep, hsub⟩ := Sequence.mem_of_next hnext
            rw [hq] at hstep hsub
            rw [List.any_eq_false] at hqueue
            have hleft : queue.any Step.isPipe = false :=
              List.any_eq_false.2 fun x hx => hqueue x (hsub hx)
            rw [setActive_active_self]
            refine if_neg ?_
            simp [Sequence.makesPipe, hqueue step hstep, hleft]
          · exact congrArg pipePart (forget_active_self _ pid)

/-- A stop of a tracee settles the pipe on its way from that pipe. -/
theorem step_samePipe (env : Env) {self self' : Emulations} {pid : Pid}
    (h : pipePart (self.active pid) = pipePart (self'.active pid)) (t : Tracee) :
    pipePart ((self.step env pid t).1.active pid) =
      pipePart ((self'.step env pid t).1.active pid) := by
  cases hs : pipePart (self.active pid) with
  | none => rw [step_noPipe env hs, step_noPipe env (h.symm.trans hs)]
  | some s =>
    have hsame : self.active pid = self'.active pid :=
      (pipePart_eq_some hs).trans (pipePart_eq_some (h.symm.trans hs)).symm
    rw [step_active_congr env hsame]

/-- What an event adopts. -/
def adopts (self : Emulations) : Event → Option Adopted
  | .step env pid t => adoption env pid t (self.active pid)
  | _ => none

/-- The number an event closes or sets, or gets for a new timerfd. -/
def names (self : Emulations) : Event → Option ℤ
  | .begin _ _ t entering => named t entering
  | .step env pid t => (adoption env pid t (self.active pid)).map Adopted.fd
  | _ => none

theorem next_active_of_ne (self : Emulations) {e : Event} {pid : Pid} (h : e.pid ≠ some pid) :
    (self.next e).active pid = self.active pid := by
  cases e with
  | begin env p t entering =>
    exact begin_active_of_ne env self (fun heq => h (congrArg some heq.symm)) t entering
  | step env p t => exact step_active_of_ne env self (fun heq => h (congrArg some heq.symm)) t
  | tick env alarm => exact congrFun (tick_active env alarm self) pid
  | forget p => exact forget_active_of_ne self (fun heq => h (congrArg some heq.symm))

/-- An event of a tracee leaves a number alone that it does not name. -/
theorem next_stored_of_ne (self : Emulations) {e : Event} {fd : ℤ} (htick : e.pid ≠ none)
    (h : self.names e ≠ some fd) : (self.next e).stored fd = self.stored fd := by
  cases e with
  | begin env pid t entering =>
    exact begin_stored_of_free env self pid t entering fun hnamed => absurd hnamed h
  | step env pid t =>
    refine (step_stored env self pid t fd).trans ?_
    cases ha : adoption env pid t (self.active pid) with
    | none => rfl
    | some a =>
      have hne : fd ≠ a.fd := by
        rintro rfl
        exact h (congrArg (Option.map Adopted.fd) ha)
      exact if_neg hne
  | tick env alarm => exact absurd rfl htick
  | forget pid => rfl

/-- What an event leaves under a number depends on what it finds there and on the pipe
on its way for the tracee. -/
theorem next_stored_congr {self self' : Emulations} {e : Event} {fd : ℤ}
    (h : self.stored fd = self'.stored fd) (hadopts : self.adopts e = self'.adopts e) :
    (self.next e).stored fd = (self'.next e).stored fd := by
  cases e with
  | begin env pid t entering => exact begin_stored_congr env pid t entering h
  | step env pid t =>
    change adoption env pid t (self.active pid) = adoption env pid t (self'.active pid) at hadopts
    refine (step_stored env self pid t fd).trans (.trans ?_ (step_stored env self' pid t fd).symm)
    rw [hadopts]
    unfold storedWith
    rw [h]
  | tick env alarm => exact tick_stored_congr env alarm h
  | forget pid => exact h

theorem next_stored_of_adopts {self : Emulations} {e : Event} {a : Adopted}
    (h : self.adopts e = some a) (fd : ℤ) : (self.next e).stored fd =
      if fd = a.fd then (some a.timer, some a.handle) else self.stored fd := by
  cases e with
  | step env pid t =>
    change adoption env pid t (self.active pid) = some a at h
    refine (step_stored env self pid t fd).trans ?_
    rw [h]
    rfl
  | begin env pid t entering => exact absurd h (by simp [adopts])
  | tick env alarm => exact absurd h (by simp [adopts])
  | forget pid => exact absurd h (by simp [adopts])

theorem names_of_adopts {self : Emulations} {e : Event} {a : Adopted}
    (h : self.adopts e = some a) : self.names e = some a.fd := by
  cases e with
  | step env pid t => exact congrArg (Option.map Adopted.fd) h
  | begin env pid t entering => exact absurd h (by simp [adopts])
  | tick env alarm => exact absurd h (by simp [adopts])
  | forget pid => exact absurd h (by simp [adopts])

/-- An event that adopts nothing leaves a number free. -/
theorem next_stored_free {self : Emulations} {e : Event} {fd : ℤ}
    (h : self.stored fd = (none, none)) (hadopts : self.adopts e = none) :
    (self.next e).stored fd = (none, none) := by
  cases e with
  | begin env pid t entering =>
    exact (begin_stored_of_free env self pid t entering fun _ => h).trans h
  | step env pid t =>
    change adoption env pid t (self.active pid) = none at hadopts
    refine (step_stored env self pid t fd).trans ?_
    rw [hadopts]
    exact h
  | tick env alarm =>
    cases alarm with
    | false => exact h
    | true =>
      have hnone : self.timers.lookup fd = none := congrArg Prod.fst h
      refine (tick_stored env self fd).trans ?_
      rw [hnone]
      exact h
  | forget pid => exact h

end Emulations

/-! ### Two runs -/

/-- The emulations, with the tracee that made the timer last stored under a number. -/
structure Shared where
  emulated : Emulations
  creator : ℤ → Option Pid

namespace Shared

/-- Before the first event. -/
def start : Shared := ⟨Emulations.new, fun _ => none⟩

/-- The state after an event. -/
def next (s : Shared) (e : Event) : Shared where
  emulated := s.emulated.next e
  creator :=
    match s.emulated.adopts e with
    | none => s.creator
    | some a => Function.update s.creator a.fd e.pid

/-- The timer under a number was made by one of the tracees that are left out. -/
def Foreign (dropped : Pid → Bool) (s : Shared) (fd : ℤ) : Prop :=
  (s.creator fd).any dropped = true

/-- `supervise` hands a stop to `begin` only when no emulation is in progress. -/
def Called (s : Shared) : Event → Prop
  | .begin _ pid _ _ => s.emulated.busy pid = false
  | _ => True

/-- The event is about a tracee that is left out. -/
def Drops (dropped : Pid → Bool) (e : Event) : Prop := e.pid.any dropped = true

/-- What a call of a tracee that is left out closes, sets or gets is a number with no
timer of another under it. -/
def Apart (dropped : Pid → Bool) (s : Shared) (e : Event) : Prop :=
  Drops dropped e → ∀ fd, s.emulated.names e = some fd →
    s.Foreign dropped fd ∨ s.emulated.stored fd = (none, none)

/-- A call of a tracee that is left out changes no timer of another. -/
def Spares (dropped : Pid → Bool) (s : Shared) (e : Event) : Prop :=
  Drops dropped e → ∀ fd, ¬ s.Foreign dropped fd → s.emulated.stored fd ≠ (none, none) →
    (s.next e).emulated.stored fd = s.emulated.stored fd

/-- A run and the run without some tracees: the others have the same pipes on their way
and the same timers. -/
structure Agree (dropped : Pid → Bool) (s s' : Shared) : Prop where
  pipes : ∀ pid, dropped pid = false →
    pipePart (s.emulated.active pid) = pipePart (s'.emulated.active pid)
  same : ∀ fd, ¬ s.Foreign dropped fd → s.emulated.stored fd = s'.emulated.stored fd
  free : ∀ fd, s.Foreign dropped fd → s'.emulated.stored fd = (none, none)

theorem spares {dropped : Pid → Bool} {s : Shared} {e : Event} (h : s.Apart dropped e) :
    s.Spares dropped e := by
  intro hdrop fd hown hstored
  have htick : e.pid ≠ none := by
    intro hnone
    unfold Drops at hdrop
    rw [hnone] at hdrop
    exact absurd hdrop (by simp)
  refine s.emulated.next_stored_of_ne htick fun hnames => ?_
  rcases h hdrop fd hnames with hforeign | hfree
  · exact hown hforeign
  · exact hstored hfree

section Agreement

variable {dropped : Pid → Bool} {s s' : Shared} {e : Event}

theorem foreign_next_of_none (h : s.emulated.adopts e = none) (fd : ℤ) :
    (s.next e).Foreign dropped fd ↔ s.Foreign dropped fd := by
  unfold Foreign next
  rw [h]

theorem foreign_next_self {a : Adopted} (h : s.emulated.adopts e = some a) :
    (s.next e).Foreign dropped a.fd ↔ Drops dropped e := by
  unfold Foreign next
  rw [h]
  dsimp only
  rw [Function.update_self]
  rfl

theorem foreign_next_of_ne {a : Adopted} (h : s.emulated.adopts e = some a) {fd : ℤ}
    (hfd : fd ≠ a.fd) : (s.next e).Foreign dropped fd ↔ s.Foreign dropped fd := by
  unfold Foreign next
  rw [h]
  dsimp only
  rw [Function.update_of_ne hfd]

/-- An event of a tracee that is kept happens in both runs alike. -/
theorem Agree.adopts (h : Agree dropped s s') (hkeep : ¬ Drops dropped e) :
    s.emulated.adopts e = s'.emulated.adopts e := by
  cases e with
  | step env pid t =>
    have hpid : dropped pid = false := Bool.not_eq_true _ ▸ hkeep
    exact Emulations.adoption_congr env pid t (h.pipes pid hpid)
  | begin env pid t entering => rfl
  | tick env alarm => rfl
  | forget pid => rfl

theorem Agree.pipes_next (h : Agree dropped s s') (hcalled : s.Called e) {pid : Pid}
    (hpid : dropped pid = false) :
    pipePart ((s.emulated.next e).active pid) = pipePart ((s'.emulated.next e).active pid) := by
  by_cases hq : e.pid = some pid
  · cases e with
    | begin env q t entering =>
      obtain rfl : q = pid := Option.some.inj hq
      have hidle : pipePart (s.emulated.active q) = none := by
        rw [Emulations.not_busy_iff.1 hcalled]
        rfl
      have hidle' := (h.pipes q hpid).symm.trans hidle
      exact Emulations.begin_samePipe env hidle hidle' t entering
    | step env q t =>
      obtain rfl : q = pid := Option.some.inj hq
      exact Emulations.step_samePipe env (h.pipes q hpid) t
    | tick env alarm => exact absurd hq (by simp [Event.pid])
    | forget q =>
      obtain rfl : q = pid := Option.some.inj hq
      exact congrArg pipePart
        ((Emulations.forget_active_self ..).trans (Emulations.forget_active_self ..).symm)
  · rw [s.emulated.next_active_of_ne hq, s'.emulated.next_active_of_ne hq]
    exact h.pipes pid hpid

/-- A step both runs take. -/
theorem Agree.next (h : Agree dropped s s') (hcalled : s.Called e) (hkeep : ¬ Drops dropped e) :
    Agree dropped (s.next e) (s'.next e) := by
  have hadopts := h.adopts hkeep
  refine ⟨fun pid hpid => h.pipes_next hcalled hpid, fun fd hown => ?_, fun fd hforeign => ?_⟩
  · cases ha : s.emulated.adopts e with
    | none =>
      rw [foreign_next_of_none ha] at hown
      exact Emulations.next_stored_congr (h.same fd hown) hadopts
    | some a =>
      refine (s.emulated.next_stored_of_adopts ha fd).trans
        (.trans ?_ (s'.emulated.next_stored_of_adopts (hadopts ▸ ha) fd).symm)
      by_cases hfd : fd = a.fd
      · rw [if_pos hfd, if_pos hfd]
      · rw [foreign_next_of_ne ha hfd] at hown
        rw [if_neg hfd, if_neg hfd, h.same fd hown]
  · cases ha : s.emulated.adopts e with
    | none =>
      rw [foreign_next_of_none ha] at hforeign
      exact Emulations.next_stored_free (h.free fd hforeign) (hadopts ▸ ha)
    | some a =>
      have hfd : fd ≠ a.fd := by
        rintro rfl
        exact hkeep ((foreign_next_self ha).1 hforeign)
      rw [foreign_next_of_ne ha hfd] at hforeign
      refine (s'.emulated.next_stored_of_adopts (hadopts ▸ ha) fd).trans ?_
      rw [if_neg hfd, h.free fd hforeign]

/-- A step the run without some tracees does not take. -/
theorem Agree.drop (h : Agree dropped s s') (hapart : s.Apart dropped e)
    (hdrop : Drops dropped e) : Agree dropped (s.next e) s' := by
  refine ⟨fun pid hpid => ?_, fun fd hown => ?_, fun fd hforeign => ?_⟩
  · have hq : e.pid ≠ some pid := by
      intro heq
      unfold Drops at hdrop
      rw [heq] at hdrop
      exact absurd hdrop (by simp [hpid])
    rw [← h.pipes pid hpid]
    exact congrArg pipePart (s.emulated.next_active_of_ne hq)
  · cases ha : s.emulated.adopts e with
    | none =>
      rw [foreign_next_of_none ha] at hown
      rw [← h.same fd hown]
      by_cases hfree : s.emulated.stored fd = (none, none)
      · rw [hfree]
        exact Emulations.next_stored_free hfree ha
      · exact spares hapart hdrop fd hown hfree
    | some a =>
      have hfd : fd ≠ a.fd := by
        rintro rfl
        exact hown ((foreign_next_self ha).2 hdrop)
      rw [foreign_next_of_ne ha hfd] at hown
      rw [← h.same fd hown]
      exact (s.emulated.next_stored_of_adopts ha fd).trans (if_neg hfd)
  · cases ha : s.emulated.adopts e with
    | none => exact h.free fd ((foreign_next_of_none ha fd).1 hforeign)
    | some a =>
      by_cases hfd : fd = a.fd
      · subst hfd
        by_cases hold : s.Foreign dropped a.fd
        · exact h.free a.fd hold
        · have hnames : s.emulated.names e = some a.fd := Emulations.names_of_adopts ha
          rw [← h.same a.fd hold]
          exact (hapart hdrop a.fd hnames).resolve_left hold
      · exact h.free fd ((foreign_next_of_ne ha hfd).1 hforeign)

end Agreement

theorem start_agree (dropped : Pid → Bool) : Agree dropped start start :=
  ⟨fun _ _ => rfl, fun _ _ => rfl, fun _ h => absurd h (by simp [Foreign, start])⟩

/-- The events of a run that are about no tracee that is left out. -/
def without (dropped : Pid → Bool) (es : List Event) : List Event :=
  es.filter fun e => !e.pid.any dropped

/-- **Timers are another's to change only by their number**: in every run in which no
call of certain tracees closes, sets or gets a number with a timer of another under it,
none of their calls changes such a timer, and each is as it would be without them:
its deadline, its interval and the pipe its expirations go to. -/
theorem timers_isolated (dropped : Pid → Bool) (es : List Event)
    (h : Along next (fun s e => s.Called e ∧ s.Apart dropped e) start es) :
    Along next (fun s e => s.Spares dropped e) start es ∧
      ∀ fd, ¬ (es.foldl next start).Foreign dropped fd →
        (es.foldl next start).emulated.stored fd =
          ((without dropped es).foldl next start).emulated.stored fd := by
  refine ⟨h.mono fun s e hok => spares hok.2, fun fd hown => ?_⟩
  have hkeep : ∀ s s' e, Agree dropped s s' → s.Called e ∧ s.Apart dropped e →
      (!e.pid.any dropped) = true → Agree dropped (s.next e) (s'.next e) := by
    intro s s' e hagree hok hk
    exact hagree.next hok.1 (by simpa [Drops] using hk)
  have hdrop : ∀ s s' e, Agree dropped s s' → s.Called e ∧ s.Apart dropped e →
      (!e.pid.any dropped) = false → Agree dropped (s.next e) s' := by
    intro s s' e hagree hok hk
    exact hagree.drop hok.2 (by simpa [Drops] using hk)
  exact (foldl_erase hkeep hdrop (start_agree dropped) h).same fd hown

/-- A tracee whose `pipe` has just returned the descriptors 5 and 6. -/
def pipeMade : Tracee :=
  { Tracee.exitOf 0 with
    mem := fun a => some (if a = 0x7e00 then 5 else if a = 0x7e04 then 6 else 0) }

/-- A `timerfd_create` of tracee 1, which gets descriptor 5, then a `close` by tracee 2. -/
def closeRun (fd : U64) : List Event :=
  let env := Env.still Host.centos5
  [.begin env 1 (.entryOf Nr.timerfdCreate 1 0 0 0) true, .step env 1 pipeMade,
    .step env 1 (.exitOf 0), .step env 1 (.exitOf 0),
    .begin env 2 (.entryOf Nr.close fd 0 0 0) true]

/-- A `close` of another number leaves the timer as it is. -/
theorem timers_isolated_close :
    Along next (fun s e => s.Spares (· == 2) e) start (closeRun 7) ∧
      ∀ fd, ¬ ((closeRun 7).foldl next start).Foreign (· == 2) fd →
        ((closeRun 7).foldl next start).emulated.stored fd =
          ((without (· == 2) (closeRun 7)).foldl next start).emulated.stored fd := by
  have hkept : ∀ s e, e.pid = some 1 → Apart (· == 2) s e := by
    intro s e he hdrop
    unfold Drops at hdrop
    rw [he] at hdrop
    exact absurd hdrop (by decide)
  refine timers_isolated (· == 2) (closeRun 7) ⟨⟨rfl, hkept _ _ rfl⟩, ⟨trivial, hkept _ _ rfl⟩,
    ⟨trivial, hkept _ _ rfl⟩, ⟨trivial, hkept _ _ rfl⟩, ⟨rfl, fun _ fd hfd => ?_⟩, trivial⟩
  obtain rfl : 7 = fd := Option.some.inj hfd
  exact Or.inr (by decide)

/-- **A fork that closes its copy of a timerfd removes the timer**: the number is the
same in both processes, and the table knows no process. -/
theorem close_in_fork :
    Along next Called start (closeRun 5) ∧
      ((closeRun 5).foldl next start).creator 5 = some 1 ∧
      ((closeRun 5).foldl next start).emulated.stored 5 = (none, none) ∧
      ((without (· == 2) (closeRun 5)).foldl next start).emulated.stored 5 =
        (some ⟨1, none, Time.zero⟩, some 0) :=
  ⟨⟨rfl, trivial, trivial, trivial, rfl, trivial⟩, by decide, by decide, by decide⟩

end Shared
end Emulation
end Sharun
