/-
# What the tracer keeps about one tracee

The tables of `Tracer` and of `Emulations` that are keyed by pid make up a record
per tracee (`Slot`).  Handling a stop of one tracee leaves the records of all
others alone (`next_slot_of_ne`), `tick` leaves all of them alone, and the
rewrites at syscall stops change only what an exit stop collects (`Pending`):
`onSyscallStop_eq` and the lemmas before it say so once for each function, and
every invariant of the tracer is derived from them.
-/

import Sharun.Tracer.Supervise
import Sharun.Emulation.Active

namespace Sharun
namespace Tracing

open Machine Emulation

/-- What an exit stop collects. -/
structure Pending where
  lastSyscall : Option U64
  statx : Option StatxState
  termios2Get : Option U64
  reserved : Option U64
  deriving DecidableEq

/-- Nothing is pending. -/
def Pending.empty : Pending := ⟨none, none, none, none⟩

/-- The record of one tracee. -/
structure Slot where
  configured : Bool
  inSyscall : Option Bool
  pending : Pending
  active : Option Active
  stashedSignal : Option ℤ
  expectEntry : Bool

namespace Tracer

/-- What the exit stop of a tracee will collect. -/
def pending (self : Tracer) (pid : Pid) : Pending :=
  ⟨self.lastSyscall pid, self.statx pid, self.termios2Get pid, self.reserved pid⟩

/-- The tables with other pending records for a tracee. -/
def setPending (self : Tracer) (pid : Pid) (p : Pending) : Tracer :=
  { self with
    lastSyscall := Function.update self.lastSyscall pid p.lastSyscall
    statx := Function.update self.statx pid p.statx
    termios2Get := Function.update self.termios2Get pid p.termios2Get
    reserved := Function.update self.reserved pid p.reserved }

/-- The record of a tracee. -/
def slot (self : Tracer) (pid : Pid) : Slot :=
  ⟨self.configured pid, self.inSyscall pid, self.pending pid, self.emulated.active pid,
    self.stashedSignal pid, self.expectEntry pid⟩

@[simp] theorem setPending_pending (self : Tracer) (pid : Pid) :
    self.setPending pid (self.pending pid) = self := by
  simp [setPending, pending]

@[simp] theorem setPending_setPending (self : Tracer) (pid : Pid) (p q : Pending) :
    (self.setPending pid p).setPending pid q = self.setPending pid q := by
  simp [setPending]

@[simp] theorem pending_setPending (self : Tracer) (pid : Pid) (p : Pending) :
    (self.setPending pid p).pending pid = p := by
  simp [setPending, pending]

theorem clearPending_eq (self : Tracer) (pid : Pid) :
    self.clearPending pid = self.setPending pid Pending.empty := rfl

theorem update_reserved (self : Tracer) (pid : Pid) (v : Option U64) :
    { self with reserved := Function.update self.reserved pid v } =
      self.setPending pid { self.pending pid with reserved := v } := by
  simp [setPending, pending]

theorem update_lastSyscall (self : Tracer) (pid : Pid) (v : Option U64) :
    { self with lastSyscall := Function.update self.lastSyscall pid v } =
      self.setPending pid { self.pending pid with lastSyscall := v } := by
  simp [setPending, pending]

theorem update_termios2Get (self : Tracer) (pid : Pid) (v : Option U64) :
    { self with termios2Get := Function.update self.termios2Get pid v } =
      self.setPending pid { self.pending pid with termios2Get := v } := by
  simp [setPending, pending]

theorem update_reserved_statx (self : Tracer) (pid : Pid) (v : Option U64)
    (w : Option StatxState) :
    { self with
        reserved := Function.update self.reserved pid v
        statx := Function.update self.statx pid w } =
      self.setPending pid { self.pending pid with reserved := v, statx := w } := by
  simp [setPending, pending]

/-! ### The rewrites change only what is pending -/

theorem translateFutex_eq (env : Env) (self : Tracer) (pid : Pid) (t : Tracee) (regs : Regs) :
    ∃ p t' needsExit, self.translateFutex env pid t regs = (self.setPending pid p, t', needsExit) ∧
      (needsExit = false → p = self.pending pid) ∧
      p.termios2Get = (self.pending pid).termios2Get := by
  have same : ∀ t' : Tracee, ∃ p t'' needsExit,
      (self, t', false) = (self.setPending pid p, t'', needsExit) ∧
        (needsExit = false → p = self.pending pid) ∧
        p.termios2Get = (self.pending pid).termios2Get :=
    fun t' => ⟨self.pending pid, t', false, by rw [setPending_pending], fun _ => rfl, rfl⟩
  unfold translateFutex
  split_ifs
  · exact same t
  dsimp only
  split_ifs
  · exact same t
  · split
    · exact same _
    · exact same _
    · exact ⟨_, _, _, Prod.ext (update_reserved self pid _) rfl, fun h => absurd h (by simp), rfl⟩
  · exact same _

theorem setupStatx_eq (self : Tracer) (pid : Pid) (t : Tracee) (regs : Regs) :
    ∃ p t', self.setupStatx pid t regs = (self.setPending pid p, t') ∧
      p.termios2Get = (self.pending pid).termios2Get := by
  have same : ∃ p t', (self, t) = (self.setPending pid p, t') ∧
      p.termios2Get = (self.pending pid).termios2Get :=
    ⟨self.pending pid, t, by rw [setPending_pending], rfl⟩
  unfold setupStatx
  split_ifs
  · exact same
  · split
    · exact same
    · exact ⟨_, _, Prod.ext (update_reserved_statx self pid _ _) rfl, rfl⟩

theorem setupTermios2_eq (self : Tracer) (pid : Pid) (t : Tracee) (regs : Regs) :
    ∃ p t', self.setupTermios2 pid t regs = (self.setPending pid p, t') := by
  have same : ∀ t' : Tracee, ∃ p t'', (self, t') = (self.setPending pid p, t'') :=
    fun t' => ⟨self.pending pid, t', by rw [setPending_pending]⟩
  unfold setupTermios2
  split_ifs
  · exact same t
  · split
    · exact same t
    · split
      · exact same t
      · split_ifs
        · exact ⟨_, _, Prod.ext (update_termios2Get self pid _) rfl⟩
        · exact same _

theorem translateCommon_eq (env : Env) (self : Tracer) (pid : Pid) (t : Tracee) (regs : Regs) :
    ∃ p t' r, self.translateCommon env pid t regs = (self.setPending pid p, t', r) ∧
      (r ≠ some true → p = self.pending pid) ∧
      p.termios2Get = (self.pending pid).termios2Get := by
  unfold translateCommon
  split_ifs
  · obtain ⟨p, t', b, h, hp, ht⟩ := translateFutex_eq env self pid t regs
    rw [h]
    exact ⟨p, t', some b, rfl, fun hb => hp (by simpa using hb), ht⟩
  · exact ⟨self.pending pid, _, some false, by rw [setPending_pending], fun _ => rfl, rfl⟩
  · obtain ⟨p, t', h, ht⟩ := setupStatx_eq self pid t regs
    rw [h]
    exact ⟨p, t', some true, rfl, fun hb => absurd rfl hb, ht⟩
  · exact ⟨self.pending pid, t, none, by rw [setPending_pending], fun _ => rfl, rfl⟩

theorem rewriteEntry_eq (env : Env) (self : Tracer) (pid : Pid) (t : Tracee) (regs : Regs) :
    ∃ p t', self.rewriteEntry env pid t regs = (self.setPending pid p, t') := by
  have same : ∀ t' : Tracee, ∃ p t'', (self, t') = (self.setPending pid p, t'') :=
    fun t' => ⟨self.pending pid, t', by rw [setPending_pending]⟩
  unfold rewriteEntry
  dsimp only
  split_ifs
  · exact same _
  · exact same _
  · exact same _
  · exact setupTermios2_eq self pid t regs
  · exact same _
  · exact same _
  · exact same _
  · exact same _

/-- **An entry stop changes only what is pending**, and that only for a 64-bit
tracee whose registers can be read. -/
theorem onSyscallEntry_eq (env : Env) (self : Tracer) (pid : Pid) (t : Tracee) :
    ∃ p t', self.onSyscallEntry env pid t = (self.setPending pid p, t') ∧
      ((∀ regs, t.getregs = some regs → regs.cs ≠ userCs) → p = self.pending pid) := by
  unfold onSyscallEntry
  split
  · exact ⟨self.pending pid, t, by rw [setPending_pending], fun _ => rfl⟩
  · rename_i regs hregs
    split_ifs with hcs
    · exact ⟨self.pending pid, t, by rw [setPending_pending], fun _ => rfl⟩
    · dsimp only
      rw [update_lastSyscall]
      obtain ⟨p, t', r, h, -⟩ := translateCommon_eq env (self.setPending pid
        { self.pending pid with lastSyscall := some regs.origRax }) pid t regs
      rw [h, setPending_setPending]
      cases r with
      | some b => exact ⟨p, t', rfl, fun hno => absurd (not_not.1 hcs) (hno regs hregs)⟩
      | none =>
        obtain ⟨q, t'', hq⟩ := rewriteEntry_eq env (self.setPending pid p) pid t' regs
        dsimp only
        rw [hq, setPending_setPending]
        exact ⟨q, t'', rfl, fun hno => absurd (not_not.1 hcs) (hno regs hregs)⟩

/-- **An exit stop collects everything that is pending**, unless the tracee shows a
32-bit code segment: then it is left as it is. -/
theorem onSyscallExit_eq (env : Env) (self : Tracer) (pid : Pid) (t : Tracee) :
    ∃ p t', self.onSyscallExit env pid t = (self.setPending pid p, t') ∧
      (p = Pending.empty ∨
        p = self.pending pid ∧ ∃ regs, t.getregs = some regs ∧ regs.cs ≠ userCs) := by
  unfold onSyscallExit
  split
  · exact ⟨Pending.empty, t, rfl, Or.inl rfl⟩
  · rename_i regs hregs
    split_ifs with hcs
    · exact ⟨self.pending pid, t, by rw [setPending_pending], Or.inr ⟨rfl, regs, hregs, hcs⟩⟩
    · exact ⟨Pending.empty, _, rfl, Or.inl rfl⟩

/-- `on_syscall_stop` toggles the parity and changes what is pending. -/
theorem onSyscallStop_eq (env : Env) (self : Tracer) (pid : Pid) (t : Tracee) :
    ∃ p t', self.onSyscallStop env pid t =
        ((self.setInSyscall pid (self.entering pid)).setPending pid p, t') ∧
      (self.entering pid = true →
        (∀ regs, t.getregs = some regs → regs.cs ≠ userCs) → p = self.pending pid) ∧
      (self.entering pid = false → p = Pending.empty ∨
        p = self.pending pid ∧ ∃ regs, t.getregs = some regs ∧ regs.cs ≠ userCs) := by
  unfold onSyscallStop
  dsimp only
  split_ifs with h
  · obtain ⟨p, t', he, hp⟩ :=
      onSyscallEntry_eq env (self.setInSyscall pid (self.entering pid)) pid t
    rw [he]
    exact ⟨p, t', rfl, fun _ => hp, fun hf => absurd h (by simp [hf])⟩
  · obtain ⟨p, t', he, hp⟩ :=
      onSyscallExit_eq env (self.setInSyscall pid (self.entering pid)) pid t
    rw [he]
    exact ⟨p, t', rfl, fun ht => absurd ht h, fun _ => hp⟩

theorem onSeccompStop_eq (env : Env) (self : Tracer) (pid : Pid) (t : Tracee) :
    ∃ p t' needsExit, self.onSeccompStop env pid t = (self.setPending pid p, t', needsExit) ∧
      (needsExit = false → p = self.pending pid) ∧
      p.termios2Get = (self.pending pid).termios2Get := by
  unfold onSeccompStop
  split
  · exact ⟨self.pending pid, t, false, by rw [setPending_pending], fun _ => rfl, rfl⟩
  · rename_i regs hregs
    obtain ⟨p, t', r, h, hp, ht⟩ := translateCommon_eq env self pid t regs
    rw [h]
    cases r with
    | some b => exact ⟨p, t', b, rfl, fun hb => hp (by simp [hb]), ht⟩
    | none =>
      obtain rfl := hp (by simp)
      dsimp only
      rw [setPending_pending]
      split_ifs
      · exact ⟨_, _, _, Prod.ext (update_lastSyscall self pid _) rfl, fun h => absurd h (by simp),
          rfl⟩
      · exact ⟨self.pending pid, t', false, by rw [setPending_pending], fun _ => rfl, rfl⟩

/-! ### Only the record of the tracee in hand changes -/

/-- What a stop of one tracee may do to the tracer: the mode and the records of all
other tracees stay. -/
structure Local (pid : Pid) (old new : Tracer) : Prop where
  child : new.child = old.child
  syscallMode : new.syscallMode = old.syscallMode
  seccompMode : new.seccompMode = old.seccompMode
  slot : ∀ q, q ≠ pid → new.slot q = old.slot q

theorem Local.refl (pid : Pid) (self : Tracer) : Local pid self self :=
  ⟨rfl, rfl, rfl, fun _ _ => rfl⟩

theorem Local.trans {pid : Pid} {a b c : Tracer} (h : Local pid a b) (h' : Local pid b c) :
    Local pid a c :=
  ⟨h'.child.trans h.child, h'.syscallMode.trans h.syscallMode,
    h'.seccompMode.trans h.seccompMode, fun q hq => (h'.slot q hq).trans (h.slot q hq)⟩

theorem local_setPending (self : Tracer) (pid : Pid) (p : Pending) :
    Local pid self (self.setPending pid p) :=
  ⟨rfl, rfl, rfl, fun q hq => by simp [slot, setPending, pending, hq]⟩

theorem local_setInSyscall (self : Tracer) (pid : Pid) (inside : Bool) :
    Local pid self (self.setInSyscall pid inside) :=
  ⟨rfl, rfl, rfl, fun q hq => by simp [slot, setInSyscall, pending, hq]⟩

theorem local_configured (self : Tracer) (pid : Pid) (b : Bool) :
    Local pid self { self with configured := Function.update self.configured pid b } :=
  ⟨rfl, rfl, rfl, fun q hq => by simp [slot, pending, hq]⟩

theorem local_stashedSignal (self : Tracer) (pid : Pid) (sig : Option ℤ) :
    Local pid self { self with stashedSignal := Function.update self.stashedSignal pid sig } :=
  ⟨rfl, rfl, rfl, fun q hq => by simp [slot, pending, hq]⟩

theorem local_expectEntry (self : Tracer) (pid : Pid) (b : Bool) :
    Local pid self { self with expectEntry := Function.update self.expectEntry pid b } :=
  ⟨rfl, rfl, rfl, fun q hq => by simp [slot, pending, hq]⟩

theorem local_emulated (self : Tracer) {pid : Pid} {e : Emulations}
    (h : ∀ q, q ≠ pid → e.active q = self.emulated.active q) :
    Local pid self { self with emulated := e } :=
  ⟨rfl, rfl, rfl, fun q hq => by simp [slot, pending, h q hq]⟩

theorem local_forget (self : Tracer) (pid : Pid) : Local pid self (self.forget pid) :=
  ⟨rfl, rfl, rfl, fun q hq => by
    simp [slot, forget, clearPending, pending, hq, Emulations.forget_active_of_ne _ hq]⟩

theorem local_onSyscallStop (env : Env) (self : Tracer) (pid : Pid) (t : Tracee) :
    Local pid self (self.onSyscallStop env pid t).1 := by
  obtain ⟨p, t', h, -⟩ := onSyscallStop_eq env self pid t
  rw [h]
  exact (local_setInSyscall self pid _).trans (local_setPending _ pid p)

theorem local_onGone (self : Tracer) (pid : Pid) (t : Tracee) (code : ℤ) :
    Local pid self (self.onGone pid t code).tracer := by
  unfold onGone
  dsimp only
  split_ifs
  · exact local_forget self pid
  · exact ⟨rfl, rfl, rfl, (local_forget self pid).slot⟩
  · exact local_forget self pid

theorem local_onSignal (self : Tracer) (pid : Pid) (sig : ℤ) (t : Tracee) :
    Local pid self (self.onSignal pid sig t).tracer := by
  unfold onSignal
  split_ifs
  · exact local_stashedSignal self pid _
  all_goals
    dsimp only
    split_ifs <;> exact Local.refl pid self

theorem local_onStopped (self : Tracer) (pid : Pid) (sig : ℤ) (t : Tracee) :
    Local pid self (self.onStopped pid sig t).tracer := by
  unfold onStopped
  dsimp only
  split_ifs
  · exact local_configured self pid true
  · exact (local_configured self pid true).trans (local_onSignal _ pid sig t)
  · exact local_onSignal self pid sig t

theorem local_onSeccompEvent (env : Env) (self : Tracer) (pid : Pid) (t : Tracee) :
    Local pid self (self.onSeccompEvent env pid t).tracer := by
  unfold onSeccompEvent
  obtain ⟨p, t', needsExit, h, -, -⟩ := onSeccompStop_eq env self pid t
  rw [h]
  cases needsExit with
  | true => exact (local_setPending self pid p).trans (local_expectEntry _ pid true)
  | false => exact local_setPending self pid p

theorem local_onSeccompSyscall (env : Env) (self : Tracer) (pid : Pid) (t : Tracee) :
    Local pid self (self.onSeccompSyscall env pid t).tracer := by
  unfold onSeccompSyscall
  split_ifs
  · exact local_expectEntry self pid false
  · obtain ⟨p, t', h, -⟩ := onSyscallExit_eq env self pid t
    rw [h]
    exact local_setPending self pid p

theorem local_onEmulated (env : Env) (self : Tracer) (pid : Pid) (t : Tracee) :
    Local pid self (self.onEmulated env pid t).tracer := by
  have hstep : Local pid self { self with emulated := (self.emulated.step env pid t).1 } :=
    local_emulated self fun q hq => Emulations.step_active_of_ne env _ hq t
  unfold onEmulated
  dsimp only
  split_ifs
  · exact hstep
  · split
    · exact hstep.trans (local_stashedSignal _ pid none)
    · exact hstep

theorem local_onTracedSyscall (env : Env) (self : Tracer) (pid : Pid) (t : Tracee) :
    Local pid self (self.onTracedSyscall env pid t).tracer := by
  have hbegin := fun q (hq : q ≠ pid) =>
    Emulations.begin_active_of_ne env self.emulated hq t (self.entering pid)
  unfold onTracedSyscall
  split_ifs
  · exact local_onEmulated env self pid t
  · split
    · rename_i emulated t' h
      rw [h] at hbegin
      exact local_emulated self hbegin
    · rename_i emulated t' h
      rw [h] at hbegin
      exact (local_emulated self hbegin).trans (local_onSyscallStop env _ pid t')

/-- **Handling a stop touches only the record of the stopped tracee.** -/
theorem local_handle (env : Env) (self : Tracer) (wait : Wait) (t : Tracee) (pid : Pid)
    (h : wait.pid = some pid) : Local pid self (self.handle env wait t).tracer := by
  cases wait with
  | exited p code => obtain rfl := Option.some.inj h; exact local_onGone self p t code
  | signaled p sig => obtain rfl := Option.some.inj h; exact local_onGone self p t _
  | stopped p sig => obtain rfl := Option.some.inj h; exact local_onStopped self p sig t
  | event p event =>
    obtain rfl := Option.some.inj h
    unfold handle
    dsimp only
    split_ifs
    · exact local_onSeccompEvent env self p t
    · exact Local.refl p self
  | syscall p =>
    obtain rfl := Option.some.inj h
    unfold handle
    dsimp only
    split_ifs
    · exact local_onSeccompSyscall env self p t
    · exact local_onTracedSyscall env self p t
  | noChild => exact absurd h (by simp [Wait.pid])
  | interrupted => exact absurd h (by simp [Wait.pid])

@[simp] theorem ticked_slot (self : Tracer) (u : Turn) (q : Pid) :
    (self.ticked u).slot q = self.slot q := by
  simp [slot, ticked, pending]

/-- **A turn changes no record but that of the tracee it is about**, and no mode. -/
theorem next_slot_of_ne (self : Tracer) (u : Turn) {q : Pid} (h : u.wait.pid ≠ some q) :
    (self.next u).slot q = self.slot q := by
  unfold next turn
  cases hw : u.wait.pid with
  | none =>
    have hsame : ((self.ticked u).handle u.env u.wait u.tracee).tracer = self.ticked u := by
      cases hwait : u.wait <;> rw [hwait] at hw <;>
        first | rfl | exact absurd hw (by simp [Wait.pid])
    rw [hsame, ticked_slot]
  | some pid =>
    have hq : q ≠ pid := fun he => h (he ▸ hw)
    rw [(local_handle u.env _ u.wait u.tracee pid hw).slot q hq, ticked_slot]

theorem next_modes (self : Tracer) (u : Turn) :
    (self.next u).child = self.child ∧ (self.next u).syscallMode = self.syscallMode ∧
      (self.next u).seccompMode = self.seccompMode := by
  unfold next turn
  cases hw : u.wait.pid with
  | none =>
    cases hwait : u.wait <;> rw [hwait] at hw <;>
      first | exact ⟨rfl, rfl, rfl⟩ | exact absurd hw (by simp [Wait.pid])
  | some pid =>
    have h := local_handle u.env (self.ticked u) u.wait u.tracee pid hw
    exact ⟨h.child, h.syscallMode, h.seccompMode⟩

end Tracer
end Tracing
end Sharun
