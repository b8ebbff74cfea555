/-
# Entry stops and exit stops

A syscall stop does not say whether it is an entry or an exit.  In every-syscall
mode the tracer counts: `in_syscall` for the application's own calls, `at_entry`
for the calls of an emulation.  What it does at one stop is `SyscallStep`
(`view_next_syscall`), on the part of a tracee's record the count and the pending
records live in (`View`).

The kernel knows better: for each tracee it is in a call or in user code, and its
stops are entries and exits accordingly (`Stop`).
-/

import Sharun.Tracer.HeldSignals

namespace Sharun
namespace Tracing

open Machine Emulation Sharun.Basis

/-- What the tracer keeps about the calls of a tracee. -/
structure View where
  inSyscall : Bool
  pending : Pending
  active : Option Active
  deriving DecidableEq

/-- The next syscall stop is taken for an entry. -/
def View.entry (v : View) : Bool :=
  match v.active with
  | none => !v.inSyscall
  | some (.sequence s) => s.atEntry
  | some (.fixup _) => false

/-- The registers can be read and show 64-bit code. -/
def Long (t : Tracee) : Prop := ∃ regs, t.getregs = some regs ∧ regs.cs = userCs

/-- The registers can be read and show other code. -/
def Short (t : Tracee) : Prop := ∃ regs, t.getregs = some regs ∧ regs.cs ≠ userCs

namespace Tracer

/-- The view of a tracee. -/
def view (s : Tracer) (pid : Pid) : View :=
  ⟨(s.inSyscall pid).getD false, s.pending pid, s.emulated.active pid⟩

theorem view_of_slot {s s' : Tracer} {pid : Pid} (h : s'.slot pid = s.slot pid) :
    s'.view pid = s.view pid := by
  have hin : s'.inSyscall pid = s.inSyscall pid := congrArg Slot.inSyscall h
  have hpending : s'.pending pid = s.pending pid := congrArg Slot.pending h
  have hactive : s'.emulated.active pid = s.emulated.active pid := congrArg Slot.active h
  unfold view
  rw [hin, hpending, hactive]

@[simp] theorem view_ticked (s : Tracer) (u : Turn) (pid : Pid) :
    (s.ticked u).view pid = s.view pid := view_of_slot (ticked_slot s u pid)

theorem active_ticked (s : Tracer) (u : Turn) (pid : Pid) :
    (s.ticked u).emulated.active pid = (s.view pid).active :=
  congrArg View.active (view_ticked s u pid)

/-- Syscall stops are taken for entry and exit stops in turn. -/
theorem entering_ticked (s : Tracer) (u : Turn) (pid : Pid) :
    (s.ticked u).entering pid = !(s.view pid).inSyscall := rfl

end Tracer

/-- What the tracer does at a syscall stop of a tracee whose registers are those of
`t`. -/
inductive SyscallStep (t : Tracee) : View → View → Prop
  /-- A call is taken over. -/
  | taken {p : Pending} (a : Active) (h : (⟨false, p, some a⟩ : View).entry = false) :
      SyscallStep t ⟨false, p, none⟩ ⟨false, p, some a⟩
  /-- An entry stop of the application's own call. -/
  | entry {p p' : Pending} (h : ¬ Long t → p' = p) :
      SyscallStep t ⟨false, p, none⟩ ⟨true, p', none⟩
  /-- An exit stop of the application's own call. -/
  | exit {p p' : Pending} (h : p' = Pending.empty ∨ p' = p ∧ Short t) :
      SyscallStep t ⟨true, p, none⟩ ⟨false, p', none⟩
  /-- A stop of an emulation. -/
  | emulated {b : Bool} {p : Pending} {a : Active} {a' : Option Active}
      (h : Emulations.Moves (some a) a') : SyscallStep t ⟨b, p, some a⟩ ⟨b, p, a'⟩

namespace Tracer

theorem starts_entry {t : Tracee} {a : Active} (h : Emulations.Starts t a) (p : Pending) :
    (⟨false, p, some a⟩ : View).entry = false := by
  cases h with
  | sequence first hregs hrun hentry hresults => exact hentry
  | fixup result => rfl

theorem onEmulated_view (env : Env) (s : Tracer) (pid : Pid) (t : Tracee) :
    ((s.onEmulated env pid t).tracer.view pid) =
      { s.view pid with active := (s.emulated.step env pid t).1.active pid } := by
  unfold onEmulated
  dsimp only
  split_ifs
  · rfl
  · split <;> rfl

theorem onTracedSyscall_step (env : Env) (s : Tracer) (pid : Pid) (t : Tracee) :
    SyscallStep t (s.view pid) ((s.onTracedSyscall env pid t).tracer.view pid) := by
  cases hactive : s.emulated.active pid with
  | some a =>
    have hbusy : s.emulated.busy pid = true := Emulations.busy_iff.2 ⟨a, hactive⟩
    obtain ⟨a', hstep, hmoves⟩ := Emulations.step_moves env s.emulated pid t
    unfold onTracedSyscall
    rw [if_pos hbusy, onEmulated_view, hstep, Function.update_self]
    unfold view
    rw [hactive] at hmoves ⊢
    exact .emulated hmoves
  | none =>
    have hbusy : s.emulated.busy pid = false := Emulations.not_busy_iff.2 hactive
    obtain ⟨hbegun, hentering⟩ :=
      Emulations.begin_begun env s.emulated pid t (s.entering pid)
    unfold onTracedSyscall
    rw [if_neg (by simp [hbusy])]
    split
    · rename_i emulated t' h
      rw [h] at hbegun hentering
      obtain ⟨a, ha, hstarts⟩ := hbegun.started rfl
      have hin : (s.inSyscall pid).getD false = false := by
        simpa [entering] using hentering rfl
      have hactive' : emulated.active pid = some a := by
        rw [show emulated.active = _ from ha, Function.update_self]
      have hview : ((({ s with emulated } : Tracer)).view pid) =
          ⟨false, s.pending pid, some a⟩ := by
        simp only [view, hin, hactive']
        rfl
      rw [resumed_tracer, hview]
      unfold view
      rw [hin, hactive]
      exact .taken a (starts_entry hstarts _)
    · rename_i emulated t' h
      rw [h] at hbegun
      obtain ⟨hsame, hregs⟩ := hbegun.declined rfl
      obtain ⟨p, t'', hstop, hentry, hexit⟩ :=
        onSyscallStop_eq env ({ s with emulated } : Tracer) pid t'
      rw [hstop]
      have hview : (((({ s with emulated } : Tracer).setInSyscall pid
          (s.entering pid)).setPending pid p).view pid) = ⟨s.entering pid, p, none⟩ := by
        have ha : emulated.active pid = none := by rw [hsame, hactive]
        simp [view, setPending, setInSyscall, pending, ha]
      change SyscallStep t (s.view pid) (((({ s with emulated } : Tracer).setInSyscall pid
          (s.entering pid)).setPending pid p).view pid)
      rw [hview]
      unfold view
      rw [hactive]
      rw [hregs.getregs] at hentry hexit
      cases he : s.entering pid with
      | true =>
        have hin : (s.inSyscall pid).getD false = false := by simpa [entering] using he
        rw [hin]
        refine .entry fun hlong => hentry he fun regs hr hcs => hlong ⟨regs, hr, hcs⟩
      | false =>
        have hin : (s.inSyscall pid).getD false = true := by simpa [entering] using he
        rw [hin]
        exact .exit (hexit he)

/-- **What the tracer does at a syscall stop**, in every-syscall mode. -/
theorem view_next_syscall {s : Tracer} (hmode : s.EverySyscall) {u : Turn} {pid : Pid}
    (h : u.wait = .syscall pid) : SyscallStep u.tracee (s.view pid) ((s.next u).view pid) := by
  have hstep := onTracedSyscall_step u.env (s.ticked u) pid u.tracee
  rwa [view_ticked, ← hmode.turn_eq h] at hstep

/-- Signal stops leave the view of the stopped tracee alone. -/
theorem view_next_stopped {s : Tracer} {u : Turn} {pid : Pid} {sig : ℤ}
    (h : u.wait = .stopped pid sig) : (s.next u).view pid = s.view pid := by
  have hsignal : ∀ s : Tracer, (s.onSignal pid sig u.tracee).tracer.view pid = s.view pid := by
    intro s
    unfold onSignal
    split_ifs
    · rfl
    all_goals
      dsimp only
      split_ifs <;> rfl
  unfold next turn handle
  rw [h]
  dsimp only
  rw [← view_ticked s u pid]
  unfold onStopped
  dsimp only
  split_ifs
  · rfl
  · exact hsignal _
  · exact hsignal _

/-- Event stops leave the view of the stopped tracee alone. -/
theorem view_next_event {s : Tracer} {u : Turn} {pid : Pid} {event : ℕ}
    (h : u.wait = .event pid event) (hevent : event ≠ PTRACE_EVENT_SECCOMP) :
    (s.next u).view pid = s.view pid := by
  unfold next turn handle
  rw [h]
  dsimp only
  rw [if_neg hevent, resumed_tracer, view_ticked]

/-- Nothing is left of a tracee that is gone. -/
theorem view_onGone (s : Tracer) (pid : Pid) (t : Tracee) (code : ℤ) :
    (s.onGone pid t code).tracer.view pid = ⟨false, Pending.empty, none⟩ := by
  have hforget : (s.forget pid).view pid = ⟨false, Pending.empty, none⟩ := by
    simp [view, forget, clearPending, pending, Pending.empty]
  unfold onGone
  dsimp only
  split_ifs
  · exact hforget
  · exact hforget
  · exact hforget

theorem view_next_exited {s : Tracer} {u : Turn} {pid : Pid} {code : ℤ}
    (h : u.wait = .exited pid code) : (s.next u).view pid = ⟨false, Pending.empty, none⟩ := by
  unfold next turn handle
  rw [h]
  exact view_onGone _ pid u.tracee code

theorem view_next_signaled {s : Tracer} {u : Turn} {pid : Pid} {sig : ℤ}
    (h : u.wait = .signaled pid sig) : (s.next u).view pid = ⟨false, Pending.empty, none⟩ := by
  unfold next turn handle
  rw [h]
  exact view_onGone _ pid u.tracee (128 + sig)

end Tracer

/-- At a stop taken for an entry the next one is an exit; what is pending changes only
at the entry of a 64-bit call that is not taken over. -/
theorem SyscallStep.of_entry {t : Tracee} {v v' : View} (h : SyscallStep t v v')
    (hv : v.entry = true) (hidle : v.active ≠ none → v.inSyscall = false) :
    v'.entry = false ∧ (v'.active ≠ none → v'.inSyscall = false) ∧
      (¬ Long t ∨ v'.active ≠ none → v'.pending = v.pending) := by
  cases h with
  | taken a ha => exact ⟨ha, fun _ => rfl, fun _ => rfl⟩
  | entry hp =>
    refine ⟨rfl, fun h => absurd rfl h, ?_⟩
    rintro (hlong | hactive)
    · exact hp hlong
    · exact absurd rfl hactive
  | exit hp => exact absurd hv (by simp [View.entry])
  | emulated hm =>
    have hb := hidle (by simp)
    cases hm with
    | fixup result => exact absurd hv (by simp [View.entry])
    | enter hs => exact ⟨rfl, fun _ => hb, fun _ => rfl⟩
    | again hs hs' => exact absurd hv (by simp [View.entry, hs])
    | done hs => exact absurd hv (by simp [View.entry, hs])

/-- At a stop taken for an exit the next one is an entry, and what is pending is
dropped, unless the stop belongs to an emulation or shows other than 64-bit code. -/
theorem SyscallStep.of_exit {t : Tracee} {v v' : View} (h : SyscallStep t v v')
    (hv : v.entry = false) (hidle : v.active ≠ none → v.inSyscall = false) :
    v'.entry = true ∧ (v'.active ≠ none → v'.inSyscall = false) ∧
      (v'.pending = Pending.empty ∨ v'.pending = v.pending ∧ (v.active ≠ none ∨ Short t)) := by
  cases h with
  | taken a ha => exact absurd hv (by simp [View.entry])
  | entry hp => exact absurd hv (by simp [View.entry])
  | exit hp =>
    refine ⟨rfl, fun h => absurd rfl h, ?_⟩
    rcases hp with hp | ⟨hp, hshort⟩
    · exact Or.inl hp
    · exact Or.inr ⟨hp, Or.inr hshort⟩
  | emulated hm =>
    have hb := hidle (by simp)
    cases hm with
    | fixup result =>
      exact ⟨by simpa [View.entry] using hb, fun _ => hb, Or.inr ⟨rfl, Or.inl (by simp)⟩⟩
    | enter hs => exact absurd hv (by simp [View.entry, hs])
    | again hs hs' => exact ⟨hs', fun _ => hb, Or.inr ⟨rfl, Or.inl (by simp)⟩⟩
    | done hs =>
      exact ⟨by simpa [View.entry] using hb, fun _ => hb, Or.inr ⟨rfl, Or.inl (by simp)⟩⟩

/-- An emulation that is in progress after an exit stop was so before it. -/
theorem SyscallStep.busy_of_exit {t : Tracee} {v v' : View} (h : SyscallStep t v v')
    (hv : v.entry = false) {a : Active} (ha : v'.active = some a) : v.active ≠ none := by
  cases h with
  | taken a' ha' => exact absurd hv (by simp [View.entry])
  | entry hp => exact absurd ha (by simp)
  | exit hp => exact absurd ha (by simp)
  | emulated hm => simp

/-! ### The kernel's side -/

/-- A stop as the kernel makes it. -/
inductive Stop
  | entry (pid : Pid)
  | exit (pid : Pid)
  | signal (pid : Pid) (sig : ℤ)
  | event (pid : Pid) (event : ℕ)
  /-- The exec event of a thread that does not lead its group: it goes on under the
  id of its leader, and its own vanishes. -/
  | threadExec (leader thread : Pid)
  | exited (pid : Pid) (code : ℤ)
  | signaled (pid : Pid) (sig : ℤ)
  | noChild
  | interrupted
  deriving DecidableEq

/-- What the tracer sees of a stop. -/
def Stop.wait : Stop → Wait
  | .entry pid => .syscall pid
  | .exit pid => .syscall pid
  | .signal pid sig => .stopped pid sig
  | .event pid e => .event pid e
  | .threadExec leader _ => .event leader PTRACE_EVENT_EXEC
  | .exited pid code => .exited pid code
  | .signaled pid sig => .signaled pid sig
  | .noChild => .noChild
  | .interrupted => .interrupted

/-- A turn of the loop, with the stop the kernel makes. -/
structure KernelTurn where
  env : Env
  alarm : Bool
  stop : Stop
  tracee : Tracee

def KernelTurn.turn (k : KernelTurn) : Turn := ⟨k.env, k.alarm, k.stop.wait, k.tracee⟩

end Tracing
end Sharun
