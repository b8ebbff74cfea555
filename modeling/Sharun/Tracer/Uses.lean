/-
# What the loop of `supervise` does with its emulations

`Emulation.Event` lists the uses that can be made of `Emulations`, and the results
about deadlines, isolation and failed pipes speak of runs of such events.  The loop of
`supervise` makes one to two of them in a turn (`Tracer.uses`): it serves the deadlines
(`tick`), and then hands the stop to `begin`, to `step` or to `forget`, or leaves the
emulations alone.  So the emulations after a run of the tracer are those after a run of
events (`foldl_emulated`), and keep what every such event keeps (`foldl_emulated_keeps`).
-/

import Sharun.Emulation.Isolation
import Sharun.Tracer.Slots

namespace Sharun
namespace Tracing

open Machine Emulation Sharun.Basis

namespace Tracer

/-- The use the handling of a stop makes of the emulations. -/
def use (self : Tracer) (u : Turn) : List Event :=
  match u.wait with
  | .exited pid _ => [.forget pid]
  | .signaled pid _ => [.forget pid]
  | .syscall pid =>
    if self.seccompMode then []
    else if self.emulated.busy pid then [.step u.env pid u.tracee]
    else [.begin u.env pid u.tracee (self.entering pid)]
  | _ => []

/-- The uses a turn makes of them. -/
def uses (self : Tracer) (u : Turn) : List Event := .tick u.env u.alarm :: self.use u

/-- The uses a run makes of them. -/
def allUses : Tracer → List Turn → List Event
  | _, [] => []
  | self, u :: us => self.uses u ++ (self.next u).allUses us

section

variable (env : Env) (self : Tracer) (pid : Pid) (t : Tracee)

theorem onGone_emulated (code : ℤ) :
    (self.onGone pid t code).tracer.emulated = self.emulated.forget pid := by
  rw [onGone]
  split_ifs
  · rfl
  · rfl
  · rfl

theorem onSignal_emulated (sig : ℤ) :
    (self.onSignal pid sig t).tracer.emulated = self.emulated := by
  rw [onSignal]
  split
  · rfl
  · generalize (if sig = Signo.SIGILL then emulateSigill t else (t, false)) = answered
    obtain ⟨t', suppress⟩ := answered
    dsimp only
    split_ifs
    · rfl
    · rfl
    · rfl
    · rfl

theorem onStopped_emulated (sig : ℤ) :
    (self.onStopped pid sig t).tracer.emulated = self.emulated := by
  rw [onStopped]
  split_ifs
  · rfl
  · exact onSignal_emulated _ pid t sig
  · exact onSignal_emulated self pid t sig

theorem onSeccompEvent_emulated :
    (self.onSeccompEvent env pid t).tracer.emulated = self.emulated := by
  obtain ⟨p, t', needsExit, h, -⟩ := onSeccompStop_eq env self pid t
  rw [onSeccompEvent, h]
  cases needsExit with
  | false => rfl
  | true => rfl

theorem onSeccompSyscall_emulated :
    (self.onSeccompSyscall env pid t).tracer.emulated = self.emulated := by
  obtain ⟨p, t', h, -⟩ := onSyscallExit_eq env self pid t
  rw [onSeccompSyscall, h]
  split_ifs
  · rfl
  · rfl

/-- A syscall stop leaves the emulations alone. -/
theorem onSyscallStop_emulated : (self.onSyscallStop env pid t).1.emulated = self.emulated := by
  obtain ⟨p, t', h, -⟩ := onSyscallStop_eq env self pid t
  rw [h]
  rfl

theorem onEmulated_emulated :
    (self.onEmulated env pid t).tracer.emulated = (self.emulated.step env pid t).1 := by
  rw [onEmulated]
  dsimp only
  split_ifs
  · rfl
  · split
    · rfl
    · rfl

theorem onTracedSyscall_emulated :
    (self.onTracedSyscall env pid t).tracer.emulated =
      if self.emulated.busy pid then (self.emulated.step env pid t).1
      else (self.emulated.begin env pid t (self.entering pid)).1 := by
  rw [onTracedSyscall]
  split_ifs
  · exact onEmulated_emulated env self pid t
  · split
    · rename_i heq
      rw [heq]
      rfl
    · rename_i heq
      rw [heq]
      exact onSyscallStop_emulated env _ pid _

end

/-- **A turn uses the emulations as `uses` says.** -/
theorem next_emulated (self : Tracer) (u : Turn) :
    (self.next u).emulated = (self.uses u).foldl Emulations.next self.emulated := by
  have hbusy : ∀ pid, (self.ticked u).emulated.busy pid = self.emulated.busy pid := by
    intro pid
    rw [Emulations.busy, Emulations.busy, ticked, Emulations.tick_active]
  rw [uses, List.foldl_cons, use, next, turn]
  cases u.wait with
  | exited pid code => exact onGone_emulated (self.ticked u) pid u.tracee code
  | signaled pid sig => exact onGone_emulated (self.ticked u) pid u.tracee (128 + sig)
  | stopped pid sig => exact onStopped_emulated (self.ticked u) pid u.tracee sig
  | event pid event =>
    rw [handle.eq_def]
    dsimp only
    split_ifs
    · exact onSeccompEvent_emulated u.env (self.ticked u) pid u.tracee
    · rfl
  | syscall pid =>
    rw [handle.eq_def]
    dsimp only
    rw [show (self.ticked u).seccompMode = self.seccompMode from rfl]
    split_ifs with hmode hstep
    · exact onSeccompSyscall_emulated u.env (self.ticked u) pid u.tracee
    · rw [onTracedSyscall_emulated, if_pos ((hbusy pid).trans hstep)]
      rfl
    · rw [onTracedSyscall_emulated, if_neg (by rw [hbusy]; exact hstep)]
      rfl
  | noChild => rfl
  | interrupted => rfl

/-- **The emulations after a run of the tracer.** -/
theorem foldl_emulated (self : Tracer) (us : List Turn) :
    (us.foldl next self).emulated = (self.allUses us).foldl Emulations.next self.emulated := by
  induction us generalizing self with
  | nil => rfl
  | cons u us ih => rw [List.foldl_cons, ih, next_emulated, allUses, List.foldl_append]

/-- What every use keeps, every run of the tracer keeps. -/
theorem foldl_emulated_keeps {Inv : Emulations → Prop} (h : ∀ e x, Inv e → Inv (e.next x))
    {self : Tracer} (hs : Inv self.emulated) (us : List Turn) :
    Inv (us.foldl next self).emulated := by
  rw [foldl_emulated]
  exact foldl_keeps h hs _

end Tracer

end Tracing
end Sharun
