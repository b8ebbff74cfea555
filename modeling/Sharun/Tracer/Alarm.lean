/-
# `SIGALRM` and the wait

The interval timer of the tracer raises `SIGALRM`; its handler sets `ALARM`
(`on_alarm`), and `tick` serves the deadlines when it finds it set.  The handler is
installed without `SA_RESTART`, so that a signal makes a waiting `waitpid` return.
A signal that lands earlier runs the handler and no more.

A turn of the loop is taken apart here into the points between which a signal can
land (`Point`).  The loop is never stuck, that is, blocked with `ALARM` set, exactly
when every signal that lands between `tick`'s swap and the entry into `waitpid` finds
a stop ready there (`never_stuck_iff`); a signal in that window before a wait with
nothing to report is lost (`alarm_lost`).
-/

import Sharun.Tracer.Supervise
import Sharun.Basis.Run

namespace Sharun
namespace Tracing

open Machine Emulation Sharun.Basis

/-- Where the tracer is in a turn of its loop. -/
inductive Point
  /-- About to swap `ALARM`. -/
  | swap
  /-- `ALARM` was set: about to hand out the expirations. -/
  | serve
  | arm
  /-- About to enter `waitpid`. -/
  | enter
  | blocked
  /-- `waitpid` has returned with a stop. -/
  | handle (wait : Wait) (t : Tracee)

/-- The tracer, its flag, and where it is. -/
structure Loop where
  point : Point
  alarm : Bool
  tracer : Tracer
  /-- A signal has landed since the last swap, outside `waitpid`. -/
  landed : Bool

/-- What happens next. -/
inductive LoopEvent
  | sigalrm
  /-- The tracer goes on; where it waits, a stop is ready for it or not. -/
  | run (env : Env) (ready : Option (Wait × Tracee))

namespace Loop

/-- The loop starts at its first `tick`. -/
def start (tracer : Tracer) : Loop := ⟨.swap, false, tracer, false⟩

/-- `waitpid` returns with a stop where one is ready. -/
def await (s : Loop) : Option (Wait × Tracee) → Loop
  | some (wait, t) => { s with point := .handle wait t }
  | none => { s with point := .blocked }

def step (s : Loop) : LoopEvent → Loop
  | .sigalrm =>
    match s.point with
    -- `EINTR`: the loop goes round.
    | .blocked => { s with point := .swap, alarm := true }
    | _ => { s with alarm := true, landed := true }
  | .run env ready =>
    match s.point with
    | .swap =>
      { s with point := if s.alarm then .serve else .enter, alarm := false, landed := false }
    | .serve =>
      let emulated := (s.tracer.emulated.dueList env).foldl (Emulations.serve env) s.tracer.emulated
      { s with point := .arm, tracer := { s.tracer with emulated } }
    | .arm =>
      { s with point := .enter, tracer := { s.tracer with emulated := s.tracer.emulated.arm env } }
    | .enter => s.await ready
    | .blocked => s.await ready
    | .handle wait t => { s with point := .swap, tracer := (s.tracer.handle env wait t).tracer }

/-- Waiting for a stop with `ALARM` set. -/
def Stuck (s : Loop) : Prop := s.point = .blocked ∧ s.alarm = true

/-- A signal that has landed since the swap finds a stop ready at the wait. -/
def Covered (s : Loop) : LoopEvent → Prop
  | .run _ none => s.point = .enter → s.landed = false
  | _ => True

/-- Between the swap and the wait the flag is set by what has landed; a wait that
blocks does so with the flag clear. -/
structure Good (s : Loop) : Prop where
  window : s.point = .serve ∨ s.point = .arm ∨ s.point = .enter → s.alarm = s.landed
  blocked : s.point = .blocked → s.alarm = false

theorem start_good (tracer : Tracer) : (start tracer).Good :=
  ⟨by rintro (h | h | h) <;> exact absurd h (by simp [start]), fun h => absurd h (by simp [start])⟩

theorem await_good {s : Loop} {ready : Option (Wait × Tracee)}
    (h : ready = none → s.alarm = false) : (s.await ready).Good := by
  cases ready with
  | none => exact ⟨by rintro (h | h | h) <;> exact absurd h (by simp [await]), fun _ => h rfl⟩
  | some r =>
    refine ⟨?_, fun h => absurd h (by simp [await])⟩
    rintro (h | h | h) <;> exact absurd h (by simp [await])

/-- A step keeps the flag in step with what has landed, as long as a signal that has
landed does not meet a wait with nothing to report. -/
theorem Good.step {s : Loop} (h : s.Good) {e : LoopEvent} (he : s.Covered e) :
    (s.step e).Good := by
  obtain ⟨point, alarm, tracer, landed⟩ := s
  cases e with
  | sigalrm =>
    cases point with
    | blocked =>
      refine ⟨?_, fun hp => absurd hp (by simp [Loop.step])⟩
      rintro (hp | hp | hp) <;> exact absurd hp (by simp [Loop.step])
    | _ => exact ⟨fun _ => rfl, fun hp => absurd hp (by simp [Loop.step])⟩
  | run env ready =>
    cases point with
    | swap =>
      refine ⟨fun _ => rfl, fun hp => ?_⟩
      cases alarm <;> exact absurd hp (by simp [Loop.step])
    | serve =>
      exact ⟨fun _ => h.window (Or.inl rfl), fun hp => absurd hp (by simp [Loop.step])⟩
    | arm =>
      exact ⟨fun _ => h.window (Or.inr (Or.inl rfl)), fun hp => absurd hp (by simp [Loop.step])⟩
    | enter =>
      refine await_good fun hready => ?_
      subst hready
      exact (h.window (Or.inr (Or.inr rfl))).trans (he rfl)
    | blocked => exact await_good fun _ => h.blocked rfl
    | handle wait t =>
      refine ⟨?_, fun hp => absurd hp (by simp [Loop.step])⟩
      rintro (hp | hp | hp) <;> exact absurd hp (by simp [Loop.step])

theorem Good.not_stuck {s : Loop} (h : s.Good) : ¬ s.Stuck := by
  rintro ⟨hp, ha⟩
  rw [h.blocked hp] at ha
  exact absurd ha (by decide)

/-- A signal that meets a wait with nothing to report leaves the loop stuck. -/
theorem Good.stuck {s : Loop} (h : s.Good) {e : LoopEvent} (he : ¬ s.Covered e) :
    (s.step e).Stuck := by
  obtain ⟨point, alarm, tracer, landed⟩ := s
  cases e with
  | sigalrm => exact absurd trivial he
  | run env ready =>
    cases ready with
    | some r => exact absurd trivial he
    | none =>
      have hp : point = .enter ∧ landed = true := by
        simpa [Covered] using he
      obtain ⟨rfl, rfl⟩ := hp
      exact ⟨rfl, h.window (Or.inr (Or.inr rfl))⟩

/-- **The loop is never blocked with `ALARM` set exactly when every signal is
covered**: in any run, however signals and steps interleave. -/
theorem never_stuck_iff (tracer : Tracer) (es : List LoopEvent) :
    Along step (fun s e => ¬ (s.step e).Stuck) (start tracer) es ↔
      Along step Covered (start tracer) es := by
  have hiff : ∀ {s : Loop}, s.Good → (Along step (fun s e => ¬ (s.step e).Stuck) s es ↔
      Along step Covered s es) := by
    induction es with
    | nil => exact fun _ => Iff.rfl
    | cons e es ih =>
      intro s h
      by_cases he : s.Covered e
      · have hnext := h.step he
        exact and_congr (iff_of_true hnext.not_stuck he) (ih hnext)
      · exact iff_of_false (fun hrun => hrun.1 (h.stuck he)) fun hrun => he hrun.1
  exact hiff (start_good tracer)

/-- **A signal between the swap and the wait is lost**: the loop blocks with `ALARM`
set, and only a stop of some tracee wakes it. -/
theorem alarm_lost :
    ¬ Along step (fun s e => ¬ (s.step e).Stuck) (start (Tracer.new 1 true false))
      [.run (Env.still .centos5) none, .sigalrm, .run (Env.still .centos5) none] := by
  rintro ⟨-, -, hstuck, -⟩
  exact hstuck ⟨rfl, rfl⟩

end Loop
end Tracing
end Sharun
