/-
# The exit code

A process that is run under the tracer is to end as it would have ended without it: what the
parent of the tracer sees is the exit code of the child, or 128 and the number of the signal
that has killed it, as a shell tells it.

The kernel tells of its processes in status words, which `wait_any` takes apart; what it takes
out of them is what was put in (`ofStatus_status`).  In every run of the loop the tracer then
exits with the code of the child (`exit_code`): at once where there is no filter, and with one
when no process is left that it is installed in.
-/

import Sharun.Basis.Run
import Sharun.Tracer.Slots

namespace Sharun
namespace Tracing

open Machine Emulation Sharun.Basis

/-! ### Status words -/

/-- What happens to a process. -/
inductive Change
  | exited (code : ℕ)
  | killed (sig : ℕ) (core : Bool)
  | stopped (sig : ℕ)
  | event (number : ℕ)
  | syscall

namespace Change

/-- The codes and signals there are. -/
def Valid : Change → Prop
  | exited code => code < 256
  | killed sig _ => 0 < sig ∧ sig < 127
  | stopped sig => sig < 128
  | event number => 0 < number
  | syscall => True

/-- The word `waitpid` returns, with `PTRACE_O_TRACESYSGOOD`. -/
def status : Change → ℕ
  | exited code => code * 256
  | killed sig core => sig + if core then 128 else 0
  | stopped sig => sig * 256 + 127
  | event number => number * 65536 + 5 * 256 + 127
  | syscall => (5 + 128) * 256 + 127

def wait (pid : Pid) : Change → Wait
  | exited code => .exited pid code
  | killed sig _ => .signaled pid sig
  | stopped sig => .stopped pid sig
  | event number => .event pid number
  | syscall => .syscall pid

/-- The exit status a shell tells of a process that has ended. -/
def exitStatus : Change → Option ℤ
  | exited code => some code
  | killed sig _ => some (128 + sig)
  | _ => none

/-- **`wait_any` takes out of a status word what was put in.** -/
theorem ofStatus_status (pid : Pid) {c : Change} (h : c.Valid) :
    Wait.ofStatus pid c.status = c.wait pid := by
  unfold Wait.ofStatus
  cases c with
  | exited code =>
    have hcode : code < 256 := h
    have hmod : code * 256 % 128 = 0 := by omega
    have hval : code * 256 / 256 % 256 = code := by omega
    unfold status wait
    rw [if_pos hmod, hval]
  | killed sig core =>
    obtain ⟨hpos, hlt⟩ : 0 < sig ∧ sig < 127 := h
    have hword : ∀ n, n = 0 ∨ n = 128 → (sig + n) % 128 = sig ∧ (sig + n) % 256 ≠ 127 := by
      rintro n (rfl | rfl) <;> omega
    obtain ⟨hmod, hne⟩ := hword (if core then 128 else 0) (by cases core <;> simp)
    unfold status wait
    rw [hmod, if_neg (by omega), if_neg hne]
  | stopped sig =>
    have hsig : sig < 128 := h
    have hmod : (sig * 256 + 127) % 128 ≠ 0 := by omega
    have hstop : (sig * 256 + 127) % 256 = 127 := by omega
    have hval : (sig * 256 + 127) / 256 % 256 = sig := by omega
    have hevent : (sig * 256 + 127) / 65536 = 0 := by omega
    unfold status wait
    dsimp only
    rw [if_neg hmod, if_pos hstop, hval, if_neg (by omega), hevent, if_neg (by simp)]
  | event number =>
    have hpos : 0 < number := h
    have hmod : (number * 65536 + 5 * 256 + 127) % 128 ≠ 0 := by omega
    have hstop : (number * 65536 + 5 * 256 + 127) % 256 = 127 := by omega
    have hval : (number * 65536 + 5 * 256 + 127) / 256 % 256 = 5 := by omega
    have hevent : (number * 65536 + 5 * 256 + 127) / 65536 = number := by omega
    unfold status wait
    dsimp only
    rw [if_neg hmod, if_pos hstop, hval, if_neg (by omega), hevent, if_pos (by omega)]
  | syscall => rfl

end Change

/-! ### What a turn does about the end -/

namespace Tracer

variable {s : Tracer} {u : Turn} {pid : Pid}

/-- The loop goes on, and the code of the child is what it was. -/
structure GoesOn (s : Tracer) (h : Handled) : Prop where
  exits : h.exits = none
  mainCode : h.tracer.mainCode = s.mainCode

theorem goesOn_onSignal (s : Tracer) (pid : Pid) (sig : ℤ) (t : Tracee) :
    GoesOn s (s.onSignal pid sig t) := by
  unfold onSignal
  split_ifs
  · exact ⟨rfl, rfl⟩
  all_goals
    dsimp only
    split_ifs <;> exact ⟨rfl, rfl⟩

theorem goesOn_onStopped (s : Tracer) (pid : Pid) (sig : ℤ) (t : Tracee) :
    GoesOn s (s.onStopped pid sig t) := by
  unfold onStopped
  dsimp only
  split_ifs
  · exact ⟨rfl, rfl⟩
  · obtain ⟨hexits, hcode⟩ := goesOn_onSignal
      { s with configured := Function.update s.configured pid true } pid sig t
    exact ⟨hexits, hcode⟩
  · exact goesOn_onSignal s pid sig t

theorem goesOn_onSeccompEvent (env : Env) (s : Tracer) (pid : Pid) (t : Tracee) :
    GoesOn s (s.onSeccompEvent env pid t) := by
  obtain ⟨p, t', needsExit, h, -, -⟩ := onSeccompStop_eq env s pid t
  unfold onSeccompEvent
  rw [h]
  cases needsExit <;> exact ⟨rfl, rfl⟩

theorem goesOn_onSeccompSyscall (env : Env) (s : Tracer) (pid : Pid) (t : Tracee) :
    GoesOn s (s.onSeccompSyscall env pid t) := by
  unfold onSeccompSyscall
  split_ifs
  · exact ⟨rfl, rfl⟩
  · obtain ⟨p, t', h, -⟩ := onSyscallExit_eq env s pid t
    rw [h]
    exact ⟨rfl, rfl⟩

theorem goesOn_onTracedSyscall (env : Env) (s : Tracer) (pid : Pid) (t : Tracee) :
    GoesOn s (s.onTracedSyscall env pid t) := by
  unfold onTracedSyscall
  split_ifs
  · unfold onEmulated
    dsimp only
    split_ifs
    · exact ⟨rfl, rfl⟩
    · split <;> exact ⟨rfl, rfl⟩
  · split
    · exact ⟨rfl, rfl⟩
    · rename_i emulated t' _
      obtain ⟨p, t'', h, -⟩ := onSyscallStop_eq env { s with emulated } pid t'
      rw [h]
      exact ⟨rfl, rfl⟩

/-- A tracee that has not ended leaves the loop going on. -/
theorem goesOn_turn {c : Change} (hc : c.exitStatus = none) (hu : u.wait = c.wait pid) :
    GoesOn s (s.turn u) := by
  have hhandle : GoesOn (s.ticked u) ((s.ticked u).handle u.env u.wait u.tracee) := by
    rw [hu]
    cases c with
    | exited code => exact absurd hc (by simp [Change.exitStatus])
    | killed sig core => exact absurd hc (by simp [Change.exitStatus])
    | stopped sig => exact goesOn_onStopped _ pid sig u.tracee
    | event number =>
      unfold Change.wait handle
      dsimp only
      split_ifs
      · exact goesOn_onSeccompEvent u.env _ pid u.tracee
      · exact ⟨rfl, rfl⟩
    | syscall =>
      unfold Change.wait handle
      dsimp only
      split_ifs
      · exact goesOn_onSeccompSyscall u.env _ pid u.tracee
      · exact goesOn_onTracedSyscall u.env _ pid u.tracee
  exact ⟨hhandle.exits, hhandle.mainCode⟩

/-- A tracee that has ended. -/
theorem turn_ended {c : Change} {code : ℤ} (hc : c.exitStatus = some code)
    (hu : u.wait = c.wait pid) : s.turn u = (s.ticked u).onGone pid u.tracee code := by
  unfold turn handle
  rw [hu]
  cases c with
  | exited n =>
    obtain rfl := Option.some.inj hc
    rfl
  | killed sig core =>
    obtain rfl := Option.some.inj hc
    rfl
  | stopped sig => exact absurd hc (by simp [Change.exitStatus])
  | event number => exact absurd hc (by simp [Change.exitStatus])
  | syscall => exact absurd hc (by simp [Change.exitStatus])

theorem goesOn_onGone (hne : pid ≠ s.child) (t : Tracee) (code : ℤ) :
    GoesOn s (s.onGone pid t code) := by
  have hgone : s.onGone pid t code = ⟨s.forget pid, t, none, none⟩ := if_pos hne
  rw [hgone]
  exact ⟨rfl, rfl⟩

/-- With a filter the code of the child is kept, and else it is the tracer's. -/
theorem onGone_child (hchild : pid = s.child) (t : Tracee) (code : ℤ) :
    (s.onGone pid t code).exits = (if s.seccompMode then none else some code) ∧
      (s.seccompMode = true → (s.onGone pid t code).tracer.mainCode = some code) := by
  cases hmode : s.seccompMode with
  | true =>
    have hgone : s.onGone pid t code =
        ⟨{ s.forget pid with mainCode := some code }, t, none, none⟩ :=
      (if_neg (not_not.2 hchild)).trans (if_pos hmode)
    rw [hgone]
    exact ⟨rfl, fun _ => rfl⟩
  | false =>
    have hoff : ¬(s.forget pid).seccompMode = true :=
      fun hon => absurd (hmode.symm.trans hon) (by simp)
    have hgone : s.onGone pid t code = ⟨s.forget pid, t, none, some code⟩ :=
      (if_neg (not_not.2 hchild)).trans (if_neg hoff)
    rw [hgone]
    exact ⟨rfl, fun h => absurd h (by simp)⟩

end Tracer

/-! ### The tracer among the processes -/

/-- What `waitpid` tells. -/
inductive Report
  | change (pid : Pid) (c : Change)
  /-- There is no process left. -/
  | noChild
  | interrupted

namespace Report

def wait : Report → Wait
  | change pid c => .ofStatus pid c.status
  | noChild => .noChild
  | interrupted => .interrupted

/-- The processes there are after it. -/
def living (before : Pid → Bool) : Report → Pid → Bool
  | change pid c => if c.exitStatus.isSome then Function.update before pid false else before
  | noChild => before
  | interrupted => before

/-- How the child has ended. -/
def ended (child : Pid) (before : Option Change) : Report → Option Change
  | change pid c => if pid = child ∧ c.exitStatus.isSome = true then some c else before
  | noChild => before
  | interrupted => before

def deserted (before : Bool) : Report → Bool
  | noChild => true
  | _ => before

end Report

/-- A new process, or a round of the loop. -/
inductive Occurrence
  | born (pid : Pid)
  | round (env : Env) (alarm : Bool) (report : Report) (t : Tracee)

structure Family where
  tracer : Tracer
  /-- The code the tracer has exited with. -/
  exited : Option ℤ
  living : Pid → Bool
  ended : Option Change
  /-- The tracer has been told that there is no process left. -/
  deserted : Bool

namespace Family

def start (child : Pid) (everySyscall filter : Bool) : Family where
  tracer := Tracer.new child everySyscall filter
  exited := none
  living pid := pid = child
  ended := none
  deserted := false

def step (x : Family) : Occurrence → Family
  | .born pid => { x with living := Function.update x.living pid true }
  | .round env alarm report t =>
    -- there are no more rounds once the tracer has exited
    if x.exited.isSome then x
    else
      let h := x.tracer.turn ⟨env, alarm, report.wait, t⟩
      { tracer := h.tracer
        exited := h.exits
        living := report.living x.living
        ended := report.ended x.tracer.child x.ended
        deserted := report.deserted x.deserted }

/-- What is taken for granted: a process has a process it comes from, what the tracer is told is
so, and the number of the child is not used again, which would be taken for the child.  That a
thread takes over the number of its leader when it execs is left out. -/
def Valid (x : Family) : Occurrence → Prop
  | .born pid => pid ≠ x.tracer.child ∧ ∃ parent, x.living parent = true
  | .round _ _ (.change pid c) _ => c.Valid ∧ x.living pid = true
  | .round _ _ .noChild _ => ∀ pid, x.living pid = false
  | .round _ _ .interrupted _ => True

/-- How the tracer of a child stands to the processes. -/
structure Inv (pid : Pid) (filter : Bool) (x : Family) : Prop where
  child : x.tracer.child = pid
  seccompMode : x.tracer.seccompMode = filter
  exited : x.exited =
    if filter = true ∧ x.deserted = false then none else x.ended.bind Change.exitStatus
  mainCode : filter = true → x.tracer.mainCode = x.ended.bind Change.exitStatus
  living : x.living pid = x.ended.isNone
  status : ∀ c, x.ended = some c → c.exitStatus.isSome = true
  outlived : x.deserted = true → ∀ q, x.living q = false

theorem inv_start (child : Pid) (everySyscall filter : Bool) :
    Inv child filter (start child everySyscall filter) where
  child := rfl
  seccompMode := rfl
  exited := by cases filter <;> rfl
  mainCode := fun _ => rfl
  living := decide_eq_true rfl
  status := fun _ h => absurd h (by simp [start])
  outlived := fun h => absurd h Bool.false_ne_true

variable {child : Pid} {filter : Bool} {x : Family}

theorem Inv.born (h : Inv child filter x) {pid : Pid} (hv : Valid x (.born pid)) :
    Inv child filter (x.step (.born pid)) where
  child := h.child
  seccompMode := h.seccompMode
  exited := h.exited
  mainCode := h.mainCode
  living := (Function.update_of_ne (h.child ▸ hv.1).symm ..).trans h.living
  status := h.status
  outlived := fun hdeserted => by
    obtain ⟨parent, hparent⟩ := hv.2
    exact absurd ((h.outlived hdeserted parent).symm.trans hparent) (by simp)

/-- What the loop does not look at leaves the tracer as it stands. -/
theorem Inv.goesOn (h : Inv child filter x) (hexited : x.exited = none) {u : Turn}
    (hturn : Tracer.GoesOn x.tracer (x.tracer.turn u)) :
    Inv child filter { x with
      tracer := (x.tracer.turn u).tracer, exited := (x.tracer.turn u).exits } := by
  obtain ⟨hchild, -, hseccomp⟩ := Tracer.next_modes x.tracer u
  exact
    { child := hchild.trans h.child
      seccompMode := hseccomp.trans h.seccompMode
      exited := (hturn.exits.trans hexited.symm).trans h.exited
      mainCode := fun hfilter => hturn.mainCode.trans (h.mainCode hfilter)
      living := h.living
      status := h.status
      outlived := h.outlived }

/-- The round in which a process is told to have ended. -/
theorem Inv.ended (h : Inv child filter x) (hexited : x.exited = none) {u : Turn} {pid : Pid}
    {c : Change} {code : ℤ} (hcode : c.exitStatus = some code) (hu : u.wait = c.wait pid)
    (hliving : x.living pid = true) :
    Inv child filter { x with
      tracer := (x.tracer.turn u).tracer
      exited := (x.tracer.turn u).exits
      living := Function.update x.living pid false
      ended := if pid = x.tracer.child ∧ c.exitStatus.isSome = true then some c else x.ended } := by
  have hdeserted : x.deserted = false := by
    by_contra hdeserted
    exact absurd ((h.outlived (by simpa using hdeserted) pid).symm.trans hliving) (by simp)
  obtain ⟨hchild, -, hseccomp⟩ := Tracer.next_modes x.tracer u
  have hturn := Tracer.turn_ended (s := x.tracer) hcode hu
  by_cases hpid : pid = x.tracer.child
  · have hends : (if pid = x.tracer.child ∧ c.exitStatus.isSome = true then some c else x.ended) =
        some c := if_pos ⟨hpid, by rw [hcode]; rfl⟩
    have hgone : (x.tracer.turn u).exits = (if filter then none else some code) ∧
        (filter = true → (x.tracer.turn u).tracer.mainCode = some code) := by
      have hmode : (x.tracer.ticked u).seccompMode = filter := h.seccompMode
      have hgone := Tracer.onGone_child (s := x.tracer.ticked u) hpid u.tracee code
      rw [hmode] at hgone
      rw [hturn]
      exact hgone
    rw [hends]
    exact
      { child := hchild.trans h.child
        seccompMode := hseccomp.trans h.seccompMode
        exited := by
          rw [hgone.1, hdeserted, Option.bind_some, hcode]
          cases filter <;> rfl
        mainCode := fun hfilter => (hgone.2 hfilter).trans hcode.symm
        living := by
          rw [hpid, h.child]
          exact Function.update_self ..
        status := fun c' hc' => by
          obtain rfl := Option.some.inj hc'
          rw [hcode]
          rfl
        outlived := fun hno => absurd (hdeserted.symm.trans hno) (by simp) }
  · have hends : (if pid = x.tracer.child ∧ c.exitStatus.isSome = true then some c else x.ended) =
        x.ended := if_neg fun hboth => hpid hboth.1
    have hgone : Tracer.GoesOn x.tracer (x.tracer.turn u) := by
      have hgoes := Tracer.goesOn_onGone (s := x.tracer.ticked u) hpid u.tracee code
      rw [hturn]
      exact ⟨hgoes.exits, hgoes.mainCode⟩
    have hrest := h.goesOn hexited hgone
    have hother : child ≠ pid := fun hsame => hpid (hsame.symm.trans h.child.symm)
    rw [hends]
    exact
      { child := hrest.child
        seccompMode := hrest.seccompMode
        exited := hrest.exited
        mainCode := hrest.mainCode
        living := (Function.update_of_ne hother ..).trans h.living
        status := h.status
        outlived := fun hno => absurd (hdeserted.symm.trans hno) (by simp) }

/-- The rounds while the tracer has not exited. -/
theorem Inv.round (h : Inv child filter x) (hexited : x.exited = none) {env : Env}
    {alarm : Bool} {report : Report} {t : Tracee} (hv : Valid x (.round env alarm report t)) :
    Inv child filter (x.step (.round env alarm report t)) := by
  have hstep : x.step (.round env alarm report t) =
      { tracer := (x.tracer.turn ⟨env, alarm, report.wait, t⟩).tracer
        exited := (x.tracer.turn ⟨env, alarm, report.wait, t⟩).exits
        living := report.living x.living
        ended := report.ended x.tracer.child x.ended
        deserted := report.deserted x.deserted } := by
    unfold step
    rw [hexited]
    rfl
  rw [hstep]
  cases report with
  | change pid c =>
    have hwait : (Report.change pid c).wait = c.wait pid := Change.ofStatus_status pid hv.1
    cases hcode : c.exitStatus with
    | none =>
      have hgoes := h.goesOn hexited (Tracer.goesOn_turn (s := x.tracer)
        (u := ⟨env, alarm, (Report.change pid c).wait, t⟩) hcode hwait)
      unfold Report.living Report.ended Report.deserted
      dsimp only
      rw [hcode, if_neg (by simp), if_neg (by simp)]
      exact hgoes
    | some code =>
      have hended := h.ended hexited (u := ⟨env, alarm, (Report.change pid c).wait, t⟩) hcode hwait
        hv.2
      unfold Report.living Report.ended Report.deserted
      dsimp only
      rw [hcode, if_pos (by simp)]
      rw [hcode] at hended
      exact hended
  | noChild =>
    have hended : ∃ c, x.ended = some c := by
      have hliving := h.living
      rw [hv child] at hliving
      exact Option.isSome_iff_exists.1 (by simpa using hliving.symm)
    obtain ⟨c, hc⟩ := hended
    obtain ⟨code, hcode⟩ := Option.isSome_iff_exists.1 (h.status c hc)
    have hexit := h.exited
    rw [hexited, hc, Option.bind_some, hcode] at hexit
    cases filter with
    | false => exact absurd hexit (by simp)
    | true =>
      have hmain := h.mainCode rfl
      rw [hc, Option.bind_some, hcode] at hmain
      exact
        { child := h.child
          seccompMode := h.seccompMode
          exited := by
            have hexits : (x.tracer.turn ⟨env, alarm, Report.noChild.wait, t⟩).exits =
                some (x.tracer.mainCode.getD 0) := rfl
            rw [hexits, hmain]
            exact ((congrArg (Option.bind · Change.exitStatus) hc).trans hcode).symm
          mainCode := h.mainCode
          living := h.living
          status := h.status
          outlived := fun _ => hv }
  | interrupted => exact h.goesOn hexited ⟨rfl, rfl⟩

theorem Inv.step (h : Inv child filter x) {o : Occurrence} (hv : Valid x o) :
    Inv child filter (x.step o) := by
  cases o with
  | born pid => exact h.born hv
  | round env alarm report t =>
    cases hexited : x.exited with
    | none => exact h.round hexited hv
    | some code =>
      have hstill : x.step (.round env alarm report t) = x := by
        unfold Family.step
        rw [hexited]
        rfl
      rw [hstill]
      exact h

/-- **The tracer exits as its child does.**  In every run it has exited once the child has
ended, where there is no filter, and else once there is no process left, by when the child has
ended; its code is the exit status of the child. -/
theorem exit_code (child : Pid) (everySyscall filter : Bool) {os : List Occurrence}
    (h : Along step Valid (start child everySyscall filter) os) :
    (os.foldl step (start child everySyscall filter)).exited =
        (if filter = true ∧ (os.foldl step (start child everySyscall filter)).deserted = false then
          none
        else (os.foldl step (start child everySyscall filter)).ended.bind Change.exitStatus) ∧
      ((os.foldl step (start child everySyscall filter)).deserted = true →
        (∀ pid, (os.foldl step (start child everySyscall filter)).living pid = false) ∧
          (os.foldl step (start child everySyscall filter)).ended.isSome = true) := by
  have hstep : ∀ x o, Inv child filter x → Valid x o → Inv child filter (x.step o) :=
    fun _ _ hx hv => hx.step hv
  have hinv := foldl_invariant hstep (inv_start child everySyscall filter) h
  refine ⟨hinv.exited, fun hdeserted => ⟨hinv.outlived hdeserted, ?_⟩⟩
  have hchild := hinv.living.symm.trans (hinv.outlived hdeserted child)
  refine Option.isSome_iff_ne_none.2 fun hnone => ?_
  rw [hnone] at hchild
  exact absurd hchild (by decide)

/-- A child that exits with 3 while a process of its own goes on and is killed. -/
def outlivedChild : List Occurrence :=
  let round (report : Report) : Occurrence :=
    .round (Env.still Host.centos5) false report ⟨default, fun _ => none, false, false⟩
  [.born 2, round (.change 1 (.exited 3)), round (.change 2 (.killed 9 false)), round .noChild]

theorem exit_code_outlived :
    (outlivedChild.foldl step (start 1 false true)).exited = some 3 := by
  have hnone : ∀ pid,
      ((outlivedChild.take 3).foldl step (start 1 false true)).living pid = false := by
    intro pid
    change Function.update (Function.update (Function.update (fun pid => decide (pid = 1)) 2 true) 1
      false) 2 false pid = false
    by_cases h2 : pid = 2
    · rw [h2, Function.update_self]
    · rw [Function.update_of_ne h2]
      by_cases h1 : pid = 1
      · rw [h1, Function.update_self]
      · rw [Function.update_of_ne h1, Function.update_of_ne h2]
        exact decide_eq_false h1
  have hvalid : Along step Valid (start 1 false true) outlivedChild :=
    ⟨⟨by decide, 1, rfl⟩, ⟨(by decide : 3 < 256), rfl⟩, ⟨(by decide : 0 < 9 ∧ 9 < 127), rfl⟩, hnone,
      trivial⟩
  exact (exit_code 1 false true hvalid).1.trans rfl

end Family

end Tracing
end Sharun
