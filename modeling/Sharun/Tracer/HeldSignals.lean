/-
# Signals that arrive inside an emulation

A tracee in an emulation must not run application code, so the arm for
`Wait::Stopped` holds its signals back (`heldBack`) in `stashed_signal`, and the
arm for `Wait::Syscall` passes the held one on at the stop that ends the
emulation.

`HoldStep` says what a turn of the loop may do to the emulation, to the slot and
to the signal passed on, for one tracee; `turn_holdStep` is the only place where
the arms are looked at.  From it: a slot is filled only during an emulation
(`stash_busy`), and over a whole emulation the signals passed on are the last one
held, if any (`passed_window`).
-/

import Sharun.Tracer.Slots
import Sharun.Basis.Run

namespace Sharun
namespace Tracing

open Machine Emulation Sharun.Basis

/-- The signal a handled stop passes to a tracee. -/
def Handled.signalTo (h : Handled) (pid : Pid) : Option ℤ :=
  match h.resumed with
  | none => none
  | some r => if r.pid = pid then r.sig else none

/-- The signal a wait result holds back from a tracee in an emulation. -/
def Wait.heldStop (pid : Pid) : Wait → Option ℤ
  | .stopped p sig => if p = pid ∧ Tracer.heldBack sig = true then some sig else none
  | _ => none

namespace Tracer

/-- The tracer traces every call: the mode of kernels without seccomp filters. -/
structure EverySyscall (s : Tracer) : Prop where
  syscallMode : s.syscallMode = true
  seccompMode : s.seccompMode = false

/-- A syscall stop, where every call is traced. -/
theorem EverySyscall.turn_eq {s : Tracer} (h : s.EverySyscall) {u : Turn} {pid : Pid}
    (hu : u.wait = .syscall pid) :
    s.turn u = (s.ticked u).onTracedSyscall u.env pid u.tracee := by
  unfold turn handle
  rw [hu]
  exact if_neg (by simp [ticked, h.seccompMode])

/-- The signals a run passes to a tracee, but for those it is never spared. -/
def passed (pid : Pid) : Tracer → List Turn → List ℤ
  | _, [] => []
  | self, u :: us =>
    (((self.turn u).signalTo pid).filter heldBack).toList ++ passed pid (self.next u) us

/-- The signals held back from a tracee over some turns, in their order. -/
def heldStops (pid : Pid) (us : List Turn) : List ℤ := us.filterMap fun u => u.wait.heldStop pid

/-- What a turn does for one tracee: whether it is in an emulation before and
after, what its slot holds before and after, the wait result, and the signal
passed to it. -/
inductive HoldStep (pid : Pid) :
    Bool → Bool → Option ℤ → Option ℤ → Wait → Option ℤ → Prop
  /-- The turn is about another tracee. -/
  | other {b s wait} (h : wait.pid ≠ some pid) : HoldStep pid b b s s wait none
  | exited {b s} (code : ℤ) : HoldStep pid b false s none (.exited pid code) none
  | signaled {b s} (sig : ℤ) : HoldStep pid b false s none (.signaled pid sig) none
  | held {s} (sig : ℤ) (h : heldBack sig = true) :
      HoldStep pid true true s (some sig) (.stopped pid sig) none
  | passed {b s} (sig : ℤ) (o : Option ℤ) (ho : o = none ∨ o = some sig)
      (h : b = true → heldBack sig = false) : HoldStep pid b b s s (.stopped pid sig) o
  | event {b s} (event : ℕ) : HoldStep pid b b s s (.event pid event) none
  /-- A stop inside an emulation that goes on. -/
  | inside {s} : HoldStep pid true true s s (.syscall pid) none
  /-- The last stop of an emulation. -/
  | finish {s} : HoldStep pid true false s none (.syscall pid) s
  /-- A call of the application's own, taken over or not. -/
  | traced {b s} : HoldStep pid false b s s (.syscall pid) none

section

variable {self : Tracer} {pid : Pid} {t : Tracee} {env : Env}

@[simp] theorem resumed_tracer (self : Tracer) (t : Tracee) (r : Resume) :
    (self.resumed t r).tracer = self := rfl

@[simp] theorem signalTo_resume (self s : Tracer) (t : Tracee) (pid : Pid) (sig : Option ℤ) :
    (self.resumed t (s.resume pid sig)).signalTo pid = sig := by
  simp [resumed, resume, Handled.signalTo]

@[simp] theorem signalTo_resumeSyscall (self : Tracer) (t : Tracee) (pid : Pid)
    (sig : Option ℤ) : (self.resumed t (resumeSyscall pid sig)).signalTo pid = sig := by
  simp [resumed, resumeSyscall, Handled.signalTo]

theorem onGone_signalTo (self : Tracer) (pid q : Pid) (t : Tracee) (code : ℤ) :
    (self.onGone pid t code).signalTo q = none := by
  unfold onGone
  dsimp only
  split_ifs <;> rfl

/-- Only the stopped tracee is resumed. -/
theorem handle_resumed_pid (env : Env) (self : Tracer) (wait : Wait) (t : Tracee) {r : Resume}
    (h : (self.handle env wait t).resumed = some r) : wait.pid = some r.pid := by
  have hr : ∀ {s : Tracer} {t : Tracee} {r' : Resume}, (s.resumed t r').resumed = some r → r' = r :=
    fun h => Option.some.inj h
  cases wait with
  | exited p code =>
    unfold handle onGone at h
    dsimp only at h
    split_ifs at h
  | signaled p sig =>
    unfold handle onGone at h
    dsimp only at h
    split_ifs at h
  | stopped p sig =>
    have hsig : ∀ s : Tracer, (s.onSignal p sig t).resumed = some r → p = r.pid := by
      intro s hs
      unfold onSignal at hs
      split_ifs at hs
      · rw [← hr hs]; rfl
      all_goals
        dsimp only at hs
        split_ifs at hs <;> rw [← hr hs] <;> rfl
    unfold handle onStopped at h
    dsimp only at h
    split_ifs at h
    · rw [← hr h]; rfl
    · exact congrArg some (hsig _ h)
    · exact congrArg some (hsig _ h)
  | event p event =>
    unfold handle onSeccompEvent at h
    dsimp only at h
    split_ifs at h
    · split at h <;> rw [← hr h] <;> rfl
    · rw [← hr h]; rfl
  | syscall p =>
    unfold handle onSeccompSyscall onTracedSyscall onEmulated at h
    dsimp only at h
    split_ifs at h
    · rw [← hr h]; rfl
    · rw [← hr h]; rfl
    · rw [← hr h]; rfl
    · split at h <;> rw [← hr h] <;> rfl
    · split at h <;> rw [← hr h] <;> rfl
  | noChild => exact absurd h (by simp [handle])
  | interrupted => exact absurd h (by simp [handle])

theorem signalTo_of_ne (env : Env) (self : Tracer) {wait : Wait} (t : Tracee)
    (h : wait.pid ≠ some pid) : (self.handle env wait t).signalTo pid = none := by
  unfold Handled.signalTo
  split
  · rfl
  · rename_i r hr
    rw [handle_resumed_pid env self wait t hr] at h
    exact if_neg fun he => h (congrArg some he)

theorem onSignal_holdStep (self : Tracer) (pid : Pid) (sig : ℤ) (t : Tracee) :
    HoldStep pid (self.emulated.busy pid) ((self.onSignal pid sig t).tracer.emulated.busy pid)
      (self.stashedSignal pid) ((self.onSignal pid sig t).tracer.stashedSignal pid)
      (.stopped pid sig) ((self.onSignal pid sig t).signalTo pid) := by
  unfold onSignal
  split_ifs with h hill
  · rw [Bool.and_eq_true] at h
    dsimp only
    rw [signalTo_resume, resumed_tracer]
    dsimp only
    rw [Function.update_self, h.1]
    exact .held sig h.2
  all_goals
    have hb : self.emulated.busy pid = true → heldBack sig = false := by
      simpa using h
    dsimp only
    split_ifs <;> simp only [signalTo_resume, signalTo_resumeSyscall, resumed_tracer]
    all_goals
      first
      | exact .passed sig none (Or.inl rfl) hb
      | exact .passed sig (some sig) (Or.inr rfl) hb

theorem onStopped_holdStep (self : Tracer) (pid : Pid) (sig : ℤ) (t : Tracee) :
    HoldStep pid (self.emulated.busy pid) ((self.onStopped pid sig t).tracer.emulated.busy pid)
      (self.stashedSignal pid) ((self.onStopped pid sig t).tracer.stashedSignal pid)
      (.stopped pid sig) ((self.onStopped pid sig t).signalTo pid) := by
  unfold onStopped
  dsimp only
  split_ifs with hnew hstop
  · rw [signalTo_resume, resumed_tracer]
    exact .passed sig none (Or.inl rfl) fun _ => by rw [hstop]; decide
  · exact onSignal_holdStep { self with configured := Function.update self.configured pid true }
      pid sig t
  · exact onSignal_holdStep self pid sig t

theorem onTracedSyscall_holdStep (env : Env) (self : Tracer) (pid : Pid) (t : Tracee) :
    HoldStep pid (self.emulated.busy pid)
      ((self.onTracedSyscall env pid t).tracer.emulated.busy pid) (self.stashedSignal pid)
      ((self.onTracedSyscall env pid t).tracer.stashedSignal pid) (.syscall pid)
      ((self.onTracedSyscall env pid t).signalTo pid) := by
  unfold onTracedSyscall
  split_ifs with hbusy
  · rw [hbusy]
    unfold onEmulated
    dsimp only
    split_ifs with hstill
    · rw [signalTo_resume, resumed_tracer, hstill]
      exact .inside
    · rw [Bool.not_eq_true] at hstill
      split
      · rename_i sig hsig
        rw [signalTo_resume, resumed_tracer, hstill, hsig]
        dsimp only
        rw [Function.update_self]
        exact .finish
      · rename_i hsig
        rw [signalTo_resume, resumed_tracer, hstill, hsig]
        exact .finish
  · rw [Bool.not_eq_true] at hbusy
    rw [hbusy]
    split
    · rw [signalTo_resume]
      exact .traced
    · rename_i emulated t' h
      obtain ⟨p, t'', hstop, -⟩ := onSyscallStop_eq env { self with emulated } pid t'
      rw [hstop]
      dsimp only
      rw [signalTo_resume]
      exact .traced

end

/-- **What a turn does about the signals of a tracee**, in every-syscall mode. -/
theorem turn_holdStep {self : Tracer} (hmode : self.EverySyscall) (u : Turn) (pid : Pid) :
    HoldStep pid (self.emulated.busy pid) ((self.next u).emulated.busy pid)
      (self.stashedSignal pid) ((self.next u).stashedSignal pid) u.wait
      ((self.turn u).signalTo pid) := by
  have hbusy : self.emulated.busy pid = (self.ticked u).emulated.busy pid := by
    simp [ticked, Emulations.busy]
  by_cases hw : u.wait.pid = some pid
  · rw [hbusy]
    unfold next turn
    cases hwait : u.wait with
    | exited p code =>
      obtain rfl : p = pid := by simpa [hwait, Wait.pid] using hw
      rw [handle, onGone_signalTo]
      have hgone : ((self.ticked u).onGone p u.tracee code).tracer.emulated.busy p = false ∧
          ((self.ticked u).onGone p u.tracee code).tracer.stashedSignal p = none := by
        unfold onGone
        dsimp only
        split_ifs <;> simp [forget, Emulations.busy]
      rw [hgone.1, hgone.2]
      exact .exited code
    | signaled p sig =>
      obtain rfl : p = pid := by simpa [hwait, Wait.pid] using hw
      rw [handle, onGone_signalTo]
      have hgone : ((self.ticked u).onGone p u.tracee (128 + sig)).tracer.emulated.busy p = false ∧
          ((self.ticked u).onGone p u.tracee (128 + sig)).tracer.stashedSignal p = none := by
        unfold onGone
        dsimp only
        split_ifs <;> simp [forget, Emulations.busy]
      rw [hgone.1, hgone.2]
      exact .signaled sig
    | stopped p sig =>
      obtain rfl : p = pid := by simpa [hwait, Wait.pid] using hw
      exact onStopped_holdStep (self.ticked u) p sig u.tracee
    | event p event =>
      obtain rfl : p = pid := by simpa [hwait, Wait.pid] using hw
      unfold handle
      dsimp only
      split_ifs
      · unfold onSeccompEvent
        obtain ⟨q, t', needsExit, h, -⟩ := onSeccompStop_eq u.env (self.ticked u) p u.tracee
        rw [h]
        cases needsExit with
        | true =>
          dsimp only
          rw [signalTo_resumeSyscall]
          exact .event event
        | false =>
          dsimp only
          rw [signalTo_resume]
          exact .event event
      · rw [signalTo_resume]
        exact .event event
    | syscall p =>
      obtain rfl : p = pid := by simpa [hwait, Wait.pid] using hw
      have hstep := onTracedSyscall_holdStep u.env (self.ticked u) p u.tracee
      rwa [← hmode.turn_eq hwait, turn, hwait] at hstep
    | noChild => exact absurd hw (by simp [hwait, Wait.pid])
    | interrupted => exact absurd hw (by simp [hwait, Wait.pid])
  · have hslot := next_slot_of_ne self u hw
    have hactive : (self.next u).emulated.active pid = self.emulated.active pid :=
      congrArg Slot.active hslot
    have hstash : (self.next u).stashedSignal pid = self.stashedSignal pid :=
      congrArg Slot.stashedSignal hslot
    have hsame : (self.next u).emulated.busy pid = self.emulated.busy pid := by
      simp [Emulations.busy, hactive]
    rw [turn, signalTo_of_ne u.env _ u.tracee hw, hsame, hstash]
    exact .other hw

/-! ### Whole runs -/

theorem EverySyscall.next {self : Tracer} (h : self.EverySyscall) (u : Turn) :
    (self.next u).EverySyscall := by
  obtain ⟨-, hs, hc⟩ := next_modes self u
  exact ⟨hs.trans h.syscallMode, hc.trans h.seccompMode⟩

theorem EverySyscall.foldl_next {self : Tracer} (h : self.EverySyscall) (us : List Turn) :
    (us.foldl Tracer.next self).EverySyscall :=
  foldl_keeps (fun _ u hs => hs.next u) h us

theorem everySyscall_new (child : Pid) : (Tracer.new child true false).EverySyscall := ⟨rfl, rfl⟩

/-- A signal is held only for a tracee in an emulation. -/
structure HoldInv (s : Tracer) : Prop where
  mode : s.EverySyscall
  stash_busy : ∀ pid, (s.stashedSignal pid).isSome → s.emulated.busy pid = true

theorem holdInv_new (child : Pid) : HoldInv (Tracer.new child true false) :=
  ⟨everySyscall_new child, fun _ h => absurd h (by simp [Tracer.new])⟩

/-- A turn that leaves a signal held leaves the tracee in an emulation. -/
theorem HoldStep.stash_busy {pid : Pid} {b b' : Bool} {s s' o : Option ℤ} {wait : Wait}
    (h : HoldStep pid b b' s s' wait o) (hs : s.isSome → b = true) : s'.isSome → b' = true := by
  cases h with
  | other h => exact hs
  | exited code => exact fun h => absurd h (by simp)
  | signaled sig => exact fun h => absurd h (by simp)
  | held sig h => exact fun _ => rfl
  | passed sig o ho h => exact hs
  | event event => exact hs
  | inside => exact fun _ => rfl
  | finish => exact fun h => absurd h (by simp)
  | traced => exact fun h => absurd (hs h) (by simp)

theorem HoldInv.next {self : Tracer} (h : HoldInv self) (u : Turn) : HoldInv (self.next u) :=
  ⟨h.mode.next u, fun pid => (turn_holdStep h.mode u pid).stash_busy (h.stash_busy pid)⟩

theorem holdInv_foldl (child : Pid) (us : List Turn) :
    HoldInv (us.foldl Tracer.next (Tracer.new child true false)) :=
  foldl_keeps (fun _ u hs => hs.next u) (holdInv_new child) us

/-- Inside an emulation a turn replaces what is held by the signal it holds back,
and passes nothing on that could have been held. -/
theorem HoldStep.inside_emulation {pid : Pid} {s s' o : Option ℤ} {wait : Wait}
    (h : HoldStep pid true true s s' wait o) :
    s' = (wait.heldStop pid).or s ∧ o.filter heldBack = none := by
  cases h with
  | other h =>
    refine ⟨?_, rfl⟩
    cases wait with
    | stopped p sig =>
      have hp : p ≠ pid := fun he => h (congrArg some he)
      simp [Wait.heldStop, hp]
    | _ => rfl
  | held sig h => exact ⟨by simp [Wait.heldStop, h], rfl⟩
  | passed sig o ho h =>
    have hsig := h rfl
    refine ⟨by simp [Wait.heldStop, hsig], ?_⟩
    rcases ho with rfl | rfl
    · rfl
    · simp [hsig]
  | event event => exact ⟨rfl, rfl⟩
  | inside => exact ⟨rfl, rfl⟩

theorem heldStops_cons (pid : Pid) (u : Turn) (us : List Turn) :
    heldStops pid (u :: us) = (u.wait.heldStop pid).toList ++ heldStops pid us := by
  unfold heldStops
  cases hh : u.wait.heldStop pid with
  | none => exact List.filterMap_cons_none hh
  | some sig => exact List.filterMap_cons_some hh

theorem getLast?_heldStops_cons (pid : Pid) (u : Turn) (us : List Turn) :
    (heldStops pid (u :: us)).getLast? =
      (heldStops pid us).getLast?.or (u.wait.heldStop pid) := by
  rw [heldStops_cons, List.getLast?_append]
  cases u.wait.heldStop pid <;> rfl

theorem heldBack_of_mem_heldStops {pid : Pid} {us : List Turn} {sig : ℤ}
    (h : sig ∈ heldStops pid us) : heldBack sig = true := by
  obtain ⟨u, -, hu⟩ := List.mem_filterMap.1 h
  unfold Wait.heldStop at hu
  split at hu
  · split_ifs at hu with hb
    obtain rfl := Option.some.inj hu
    exact hb.2
  · exact absurd hu (by simp)

theorem passed_append (pid : Pid) (self : Tracer) (us vs : List Turn) :
    self.passed pid (us ++ vs) =
      self.passed pid us ++ (us.foldl Tracer.next self).passed pid vs := by
  induction us generalizing self with
  | nil => rfl
  | cons u us ih => simp only [List.cons_append, passed, ih, List.append_assoc, List.foldl_cons]

/-- Over turns inside an emulation the slot ends up with the last signal held back,
and no signal that could have been held is passed on. -/
theorem inside_run {self : Tracer} {pid : Pid} {us : List Turn} (hmode : self.EverySyscall)
    (hbusy : self.emulated.busy pid = true)
    (hus : Along Tracer.next (fun s u => (s.next u).emulated.busy pid = true) self us) :
    (us.foldl Tracer.next self).stashedSignal pid =
        (heldStops pid us).getLast?.or (self.stashedSignal pid) ∧
      self.passed pid us = [] ∧ (us.foldl Tracer.next self).emulated.busy pid = true := by
  induction us generalizing self with
  | nil => exact ⟨rfl, rfl, hbusy⟩
  | cons u us ih =>
    obtain ⟨hu, hus⟩ := hus
    have hstep := turn_holdStep hmode u pid
    rw [hbusy, hu] at hstep
    obtain ⟨hslot, hpass⟩ := hstep.inside_emulation
    obtain ⟨hlast, hnone, hend⟩ := ih (hmode.next u) hu hus
    refine ⟨?_, ?_, hend⟩
    · rw [List.foldl_cons, hlast, hslot, getLast?_heldStops_cons, Option.or_assoc]
    · rw [passed, hpass, hnone]; rfl

/-- The turns from the one that takes over a call of a tracee to the stop at which
its emulation ends. -/
structure Window (s : Tracer) (pid : Pid) (takeover : Turn) (mid : List Turn) (finish : Turn) :
    Prop where
  idle : s.emulated.busy pid = false
  inside : Along Tracer.next (fun s u => (s.next u).emulated.busy pid = true) s (takeover :: mid)
  stop : finish.wait = .syscall pid
  ended : (((takeover :: mid).foldl Tracer.next s).next finish).emulated.busy pid = false

/-- Over a whole emulation the last signal held back is passed on, and no other. -/
theorem passed_window {self : Tracer} {pid : Pid} {takeover finish : Turn} {mid : List Turn}
    (h : HoldInv self) (hw : Window self pid takeover mid finish) :
    self.passed pid (takeover :: mid ++ [finish]) = (heldStops pid mid).getLast?.toList ∧
      (((takeover :: mid).foldl Tracer.next self).turn finish).signalTo pid =
        (heldStops pid mid).getLast? ∧
      (((takeover :: mid).foldl Tracer.next self).next finish).stashedSignal pid = none := by
  obtain ⟨hidle, ⟨hstart, hmid⟩, hstop, hover⟩ := hw
  have hstash : self.stashedSignal pid = none := by
    cases hs : self.stashedSignal pid with
    | none => rfl
    | some sig => exact absurd (h.stash_busy pid (by rw [hs]; rfl)) (by simp [hidle])
  -- The stop that takes the call over passes nothing on and leaves the slot empty.
  have hbegin := turn_holdStep h.mode takeover pid
  rw [hidle, hstart, hstash] at hbegin
  obtain ⟨hnone, hempty⟩ : (self.turn takeover).signalTo pid = none ∧
      (self.next takeover).stashedSignal pid = none := by
    generalize (self.next takeover).stashedSignal pid = s' at hbegin
    generalize (self.turn takeover).signalTo pid = o at hbegin
    generalize takeover.wait = wait at hbegin
    cases hbegin with
    | traced => exact ⟨rfl, rfl⟩
  obtain ⟨hlast, hpassed, hbusy⟩ := inside_run (h.mode.next takeover) hstart hmid
  rw [hempty, Option.or_none] at hlast
  -- The last stop passes on what the slot holds, and empties it.
  have hend := turn_holdStep ((h.mode.next takeover).foldl_next mid) finish pid
  rw [List.foldl_cons] at hover ⊢
  rw [hbusy, hover, hstop, hlast] at hend
  obtain ⟨hsignal, hcleared⟩ :
      ((mid.foldl Tracer.next (self.next takeover)).turn finish).signalTo pid =
          (heldStops pid mid).getLast? ∧
        ((mid.foldl Tracer.next (self.next takeover)).next finish).stashedSignal pid = none := by
    generalize ((mid.foldl Tracer.next (self.next takeover)).next finish).stashedSignal pid = s'
      at hend
    generalize ((mid.foldl Tracer.next (self.next takeover)).turn finish).signalTo pid = o at hend
    cases hend with
    | finish => exact ⟨rfl, rfl⟩
  refine ⟨?_, hsignal, hcleared⟩
  have hheld : (heldStops pid mid).getLast?.filter heldBack = (heldStops pid mid).getLast? := by
    cases hl : (heldStops pid mid).getLast? with
    | none => rfl
    | some sig => simp [heldBack_of_mem_heldStops (List.mem_of_getLast? hl)]
  rw [List.cons_append, passed, hnone, passed_append, hpassed]
  simp [passed, hsignal, hheld]

/-- A signal is passed on as it arrives or, out of the slot, at the last stop of an
emulation. -/
theorem HoldStep.origin {pid : Pid} {b b' : Bool} {s s' : Option ℤ} {wait : Wait} {sig : ℤ}
    (h : HoldStep pid b b' s s' wait (some sig)) :
    wait = .stopped pid sig ∨
      wait = .syscall pid ∧ b = true ∧ b' = false ∧ s = some sig ∧ s' = none := by
  cases h with
  | passed sig' o ho h =>
    rcases ho with ho | ho
    · exact absurd ho (by simp)
    · exact Or.inl (by rw [Option.some.inj ho])
  | finish => exact Or.inr ⟨rfl, rfl, rfl, rfl, rfl⟩

/-- A turn that leaves the tracee in an emulation passes on no signal that could
have been held. -/
theorem HoldStep.spared {pid : Pid} {b : Bool} {s s' : Option ℤ} {wait : Wait} {sig : ℤ}
    (h : HoldStep pid b true s s' wait (some sig)) : heldBack sig = false := by
  cases h with
  | passed sig' o ho h =>
    rcases ho with ho | ho
    · exact absurd ho (by simp)
    · rw [Option.some.inj ho]
      exact h rfl

theorem heldBack_eq_false {sig : ℤ} :
    heldBack sig = false ↔ sig = 0 ∨ sig = Signo.SIGSTOP ∨ sig = Signo.SIGTRAP := by
  simp only [heldBack, Bool.and_eq_false_iff, decide_eq_false_iff_not, not_not, or_assoc]

/-- **Signals wait for the end of an emulation and are delivered once.**  In every
run in every-syscall mode a signal is held only for a tracee in an emulation; from
the stop that takes a call over until the last stop of its emulation the tracee is
resumed with no signal but `SIGSTOP` and `SIGTRAP`; a signal is passed on as it
arrives or, out of the slot, which that empties, at the last stop of an emulation;
and over a whole emulation the signals passed on are the last one held back, in the
resume from the last stop. -/
theorem held_signal_delivered_once (child pid : Pid) (us : List Turn) :
    let s := us.foldl Tracer.next (Tracer.new child true false)
    ((s.stashedSignal pid).isSome → s.emulated.busy pid = true) ∧
    (∀ u r, (s.next u).emulated.busy pid = true → (s.turn u).resumed = some r → r.pid = pid →
      r.data = 0 ∨ r.data = Signo.SIGSTOP ∨ r.data = Signo.SIGTRAP) ∧
    (∀ u sig, (s.turn u).signalTo pid = some sig → u.wait = .stopped pid sig ∨
      u.wait = .syscall pid ∧ s.emulated.busy pid = true ∧ (s.next u).emulated.busy pid = false ∧
        s.stashedSignal pid = some sig ∧ (s.next u).stashedSignal pid = none) ∧
    ∀ takeover mid finish, Window s pid takeover mid finish →
      s.passed pid (takeover :: mid ++ [finish]) = (heldStops pid mid).getLast?.toList ∧
      (((takeover :: mid).foldl Tracer.next s).turn finish).signalTo pid =
        (heldStops pid mid).getLast? ∧
      (((takeover :: mid).foldl Tracer.next s).next finish).stashedSignal pid = none := by
  intro s
  have hinv : HoldInv s := holdInv_foldl child us
  refine ⟨hinv.stash_busy pid, ?_, ?_, fun _ _ _ hw => passed_window hinv hw⟩
  · intro u r hbusy hr hpid
    have hstep := turn_holdStep hinv.mode u pid
    have hsig : (s.turn u).signalTo pid = r.sig := by simp [Handled.signalTo, hr, hpid]
    rw [hbusy, hsig] at hstep
    unfold Resume.data
    cases h : r.sig with
    | none => exact Or.inl rfl
    | some sig =>
      rw [h] at hstep
      exact heldBack_eq_false.1 hstep.spared
  · intro u sig hsig
    have hstep := turn_holdStep hinv.mode u pid
    rw [hsig] at hstep
    exact hstep.origin

/-- A turn on a 2.6.18 kernel. -/
def oldTurn (wait : Wait) (t : Tracee) : Turn := ⟨Env.still .centos5, false, wait, t⟩

/-- The stops inside an `F_DUPFD_CLOEXEC` of descriptor 3 that are interrupted by
`SIGUSR1` and then by `SIGUSR2`. -/
def dupfdInside : List Turn :=
  [oldTurn (.stopped 1 10) (.exitOf 0), oldTurn (.syscall 1) (.exitOf 7),
    oldTurn (.stopped 1 12) (.exitOf 7), oldTurn (.syscall 1) (.exitOf 7)]

/-- The second signal is delivered when the descriptor is made and marked; the first
was overwritten. -/
theorem held_signal_delivered_once_dupfd :
    (Tracer.new 1 true false).passed 1
      (oldTurn (.syscall 1) (.entryOf Nr.fcntl 3 F_DUPFD_CLOEXEC 0 0) :: dupfdInside ++
        [oldTurn (.syscall 1) (.exitOf 0)]) = [12] :=
  ((held_signal_delivered_once 1 1 []).2.2.2
    (oldTurn (.syscall 1) (.entryOf Nr.fcntl 3 F_DUPFD_CLOEXEC 0 0)) dupfdInside
    (oldTurn (.syscall 1) (.exitOf 0))
    ⟨by decide, ⟨by decide, by decide, by decide, by decide, by decide, trivial⟩, rfl,
      by decide⟩).1

end Tracer
end Tracing
end Sharun
