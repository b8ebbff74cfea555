/-
# The timer tables

What each function of `src/emulated_syscalls.rs` does to the emulated timerfds:
`begin` erases a descriptor that is closed and changes one that is set
(`begin_tables`), `step` adopts the pipe of a new one (`step_tables`), and `tick`
treats each descriptor by itself, as if there were no other (`tick_stored`).

A run of the emulations is a list of the uses the tracer makes of them (`Event`),
folded with `next`.
-/

import Sharun.Emulation.Active
import Sharun.Basis.Run
import Sharun.Basis.Keyed

namespace Sharun
namespace Emulation

open Machine Sharun.Basis

/-- A use the tracer makes of its emulations. -/
inductive Event
  | begin (env : Env) (pid : Pid) (t : Tracee) (entering : Bool)
  | step (env : Env) (pid : Pid) (t : Tracee)
  | tick (env : Env) (alarm : Bool)
  | forget (pid : Pid)

/-- The tracee an event is about. -/
def Event.pid : Event → Option Pid
  | .begin _ pid _ _ => some pid
  | .step _ pid _ => some pid
  | .tick _ _ => none
  | .forget pid => some pid

/-- A `timerfd_settime` of an emulated descriptor. -/
structure Setting where
  fd : ℤ
  timer : Timer
  interval : Time
  value : Time
  flags : U64
  deriving DecidableEq

/-- The descriptor, timer and write end that come into the tables together. -/
structure Adopted where
  fd : ℤ
  timer : Timer
  handle : Handle
  deriving DecidableEq

namespace Emulations

/-- The state after an event. -/
def next (self : Emulations) : Event → Emulations
  | .begin env pid t entering => (self.begin env pid t entering).1
  | .step env pid t => (self.step env pid t).1
  | .tick env alarm => self.tick env alarm
  | .forget pid => self.forget pid

/-- The timers, their write ends and the interval timer. -/
def tables (self : Emulations) :
    (AList fun _ : ℤ => Timer) × (AList fun _ : ℤ => Handle) × Itimerval :=
  (self.timers, self.writeEnds, self.itimer)

/-- What is stored under a descriptor number. -/
def stored (self : Emulations) (fd : ℤ) : Option Timer × Option Handle :=
  (self.timers.lookup fd, self.writeEnds.lookup fd)

theorem stored_of_tables {self self' : Emulations} (h : self'.tables = self.tables) (fd : ℤ) :
    self'.stored fd = self.stored fd := by
  have ht : self'.timers = self.timers := congrArg Prod.fst h
  have hw : self'.writeEnds = self.writeEnds := congrArg (fun x => x.2.1) h
  unfold stored
  rw [ht, hw]

/-! ### Calls -/

/-- The setting a `timerfd_settime` at an entry stop asks for. -/
def setting (self : Emulations) (t : Tracee) (entering : Bool) : Option Setting :=
  match entering, t.getregs with
  | true, some regs =>
    if regs.cs = userCs ∧ regs.origRax = Nr.timerfdSettime then
      match self.timers.lookup regs.rdi.toInt, t.mem.readStruct regs.rdx 32 with
      | some timer, some requested =>
        some ⟨regs.rdi.toInt, timer, timeAt requested 0, timeAt requested 16, regs.rsi⟩
      | _, _ => none
    else none
  | _, _ => none

/-- The timers once a setting has been made. -/
def withSetting (self : Emulations) (s : Setting) (deadline : Option Time) :
    AList fun _ : ℤ => Timer :=
  self.timers.insert s.fd { s.timer with interval := s.interval, deadline }

theorem startSequence_tables (self : Emulations) (pid : Pid) (t : Tracee) (regs : Regs)
    (gadget : U64) (queue : List Step) (outcome : Outcome) (clockid : ℤ) :
    (self.startSequence pid t regs gadget queue outcome clockid).1.tables = self.tables := by
  unfold startSequence
  split
  · rfl
  · dsimp only
    split <;> rfl

theorem standIn_tables (self : Emulations) (pid : Pid) (t : Tracee) (regs : Regs) (result : ℤ) :
    (self.standIn pid t regs result).1.tables = self.tables := by
  unfold standIn
  split <;> rfl

theorem epollPwait_tables (env : Env) (self : Emulations) (pid : Pid) (t : Tracee) (regs : Regs) :
    (self.epollPwait env pid t regs).1.tables = self.tables :=
  replaced_cases (P := fun r => r.1.tables = self.tables) rfl fun _ _ => startSequence_tables ..

theorem vectorIo_tables (env : Env) (self : Emulations) (pid : Pid) (t : Tracee) (regs : Regs)
    (write : Bool) : (self.vectorIo env pid t regs write).1.tables = self.tables :=
  replaced_cases (P := fun r => r.1.tables = self.tables) rfl fun _ _ => startSequence_tables ..

theorem dupfdCloexec_tables (env : Env) (self : Emulations) (pid : Pid) (t : Tracee)
    (regs : Regs) : (self.dupfdCloexec env pid t regs).1.tables = self.tables :=
  replaced_cases (P := fun r => r.1.tables = self.tables) rfl fun _ _ => startSequence_tables ..

theorem eventfd_tables (env : Env) (self : Emulations) (pid : Pid) (t : Tracee) (regs : Regs) :
    (self.eventfd env pid t regs).1.tables = self.tables := by
  unfold eventfd
  dsimp only
  split_ifs
  · rfl
  · rfl
  all_goals
    split
    · rfl
    split
    · rfl
  · split
    · rfl
    · exact startSequence_tables ..
  · exact startSequence_tables ..

theorem timerfdCreate_tables (env : Env) (self : Emulations) (pid : Pid) (t : Tracee)
    (regs : Regs) : (self.timerfdCreate env pid t regs).1.tables = self.tables :=
  replaced_cases (P := fun r => r.1.tables = self.tables) rfl fun _ _ => startSequence_tables ..

theorem timerfdGettime_tables (env : Env) (self : Emulations) (pid : Pid) (t : Tracee)
    (regs : Regs) : (self.timerfdGettime env pid t regs).1.tables = self.tables := by
  unfold timerfdGettime
  split
  · rfl
  · dsimp only
    split
    · rfl
    · exact standIn_tables ..

/-- What `begin` does to the tables. -/
inductive BeginTables (env : Env) (self : Emulations) (t : Tracee) (entering : Bool) :
    Emulations × Tracee × Bool → Prop
  | same {r : Emulations × Tracee × Bool} (h : r.1.tables = self.tables) :
      BeginTables env self t entering r
  /-- A descriptor is closed. -/
  | close {regs : Regs} (he : entering = true) (hregs : t.getregs = some regs)
      (hcs : regs.cs = userCs) (hcall : regs.origRax = Nr.close) :
      BeginTables env self t entering (self.closeFd regs.rdi.toInt, t, false)
  /-- A timer is set. -/
  | set {s : Setting} {deadline : Option Time} {r : Emulations × Tracee × Bool}
      (hs : self.setting t entering = some s)
      (hd : deadlineFor env s.timer.clockid s.flags s.value = some deadline)
      (h : r.1.tables = (self.withSetting s deadline, self.writeEnds,
        itimerval (soonest env (self.withSetting s deadline).entries))) :
      BeginTables env self t entering r

theorem BeginTables.ite {env : Env} {self : Emulations} {t : Tracee} {entering : Bool} {c : Prop}
    [Decidable c] {r r' : Emulations × Tracee × Bool} (h : c → BeginTables env self t entering r)
    (h' : BeginTables env self t entering r') :
    BeginTables env self t entering (if c then r else r') := by
  split
  · rename_i hc
    exact h hc
  · exact h'

theorem timerfdSettime_tables (env : Env) (self : Emulations) (pid : Pid) {t : Tracee}
    {regs : Regs} (hregs : t.getregs = some regs) (hcs : regs.cs = userCs)
    (hcall : regs.origRax = Nr.timerfdSettime) :
    BeginTables env self t true (self.timerfdSettime env pid t regs) := by
  unfold timerfdSettime
  dsimp only
  split
  · exact .same rfl
  · rename_i timer hlookup
    split
    · exact .same rfl
    · rename_i requested hread
      split
      · exact .same rfl
      · split
        · exact .same rfl
        · rename_i deadline hdeadline
          refine .set (s := ⟨regs.rdi.toInt, timer, timeAt requested 0, timeAt requested 16,
            regs.rsi⟩) ?_ hdeadline (standIn_tables ..)
          unfold setting
          rw [hregs]
          simp only [hcs, hcall, and_self, if_true, hlookup, hread]

/-- **What `begin` does to the tables**: nothing, or a descriptor is closed, or a
timer is set. -/
theorem begin_tables (env : Env) (self : Emulations) (pid : Pid) (t : Tracee) (entering : Bool) :
    BeginTables env self t entering (self.begin env pid t entering) := by
  unfold begin
  cases entering with
  | false => exact .same rfl
  | true =>
    rw [if_neg (by decide)]
    split
    · exact .same rfl
    · rename_i regs hregs
      by_cases hcs : regs.cs = userCs
      · rw [if_neg (not_not.2 hcs)]
        exact .ite (fun hcall => .close rfl hregs hcs hcall) <|
          .ite (fun _ => .same (eventfd_tables ..)) <|
          .ite (fun _ => .same (eventfd_tables ..)) <|
          .ite (fun _ => .same (timerfdCreate_tables ..)) <|
          .ite (fun hcall => timerfdSettime_tables env self pid hregs hcs hcall) <|
          .ite (fun _ => .same (timerfdGettime_tables ..)) <|
          .ite (fun _ => .same (dupfdCloexec_tables ..)) <|
          .ite (fun _ => .same (vectorIo_tables ..)) <|
          .ite (fun _ => .same (vectorIo_tables ..)) <|
          .ite (fun _ => .same (epollPwait_tables ..)) (.same rfl)
      · rw [if_pos hcs]
        exact .same rfl

/-! ### Adopting a pipe -/

/-- What `capture_pipe` adopts, where the pipe's numbers can be read and its write end
opened. -/
def capture (env : Env) (pid : Pid) (t : Tracee) (buffer : U64) (clockid : ℤ) : Option Adopted :=
  (t.mem.readStruct buffer 8).bind fun raw =>
    (env.openWrite pid (leI32 (raw.drop 4))).map fun handle =>
      ⟨leI32 (raw.take 4), ⟨clockid, none, Time.zero⟩, handle⟩

/-- What `step` adopts at a stop of a tracee, from the emulation in progress for it. -/
def adoption (env : Env) (pid : Pid) (t : Tracee) : Option Active → Option Adopted
  | some (.sequence s) =>
    if s.atEntry = false ∧ t.canGet = true then
      match s.running with
      | some (.pipe buffer) => capture env pid t buffer s.clockid
      | _ => none
    else none
  | _ => none

/-- What is stored under a number once something has been adopted. -/
def storedWith (self : Emulations) (fd : ℤ) : Option Adopted → Option Timer × Option Handle
  | none => self.stored fd
  | some a => if fd = a.fd then (some a.timer, some a.handle) else self.stored fd

/-- The tables once something has been adopted. -/
def tablesWith (self : Emulations) :
    Option Adopted → (AList fun _ : ℤ => Timer) × (AList fun _ : ℤ => Handle) × Itimerval
  | none => self.tables
  | some a => (self.timers.insert a.fd a.timer, self.writeEnds.insert a.fd a.handle, self.itimer)

theorem capturePipe_tables (env : Env) (self : Emulations) (pid : Pid) (t : Tracee)
    (buffer : U64) (clockid : ℤ) :
    (self.capturePipe env pid t buffer clockid).1.tables =
      self.tablesWith (capture env pid t buffer clockid) := by
  unfold capturePipe capture
  cases t.mem.readStruct buffer 8 with
  | none => rfl
  | some raw =>
    rw [Option.bind_some]
    dsimp only
    cases env.openWrite pid (leI32 (raw.drop 4)) with
    | none => rfl
    | some handle => rfl

theorem adopt_tables (env : Env) (self : Emulations) (pid : Pid) {t : Tracee} {s s' : Sequence}
    (hreach : s.atEntry = false ∧ t.canGet = true) (hclock : s'.clockid = s.clockid) :
    (self.adopt env pid t s' s.running).1.tables =
      self.tablesWith (adoption env pid t (some (.sequence s))) := by
  unfold adopt adoption
  dsimp only
  rw [if_pos hreach]
  cases hrun : s.running with
  | none => rfl
  | some step =>
    cases step with
    | pipe buffer =>
      have h := capturePipe_tables env self pid t buffer s.clockid
      rw [hclock]
      dsimp only
      split <;> rename_i heq <;> rw [heq] at h <;> exact h
    | _ => rfl

/-- **What `step` does to the tables**: the pipe of a new timerfd is adopted. -/
theorem step_tables (env : Env) (self : Emulations) (pid : Pid) (t : Tracee) :
    (self.step env pid t).1.tables =
      self.tablesWith (adoption env pid t (self.active pid)) := by
  unfold step
  cases self.active pid with
  | none => rfl
  | some a =>
    cases a with
    | fixup result => rfl
    | sequence s =>
      dsimp only
      cases hentry : s.atEntry with
      | true =>
        have hnone : adoption env pid t (some (.sequence s)) = none :=
          if_neg (by simp [hentry])
        rw [hnone]
        rfl
      | false =>
        rw [if_neg (by decide)]
        cases hregs : t.getregs with
        | none =>
          have hnone : adoption env pid t (some (.sequence s)) = none :=
            if_neg (by simp [Tracee.getregs_eq_none.1 hregs])
          rw [hnone]
          rfl
        | some regs =>
          obtain ⟨hget, -⟩ := Tracee.getregs_eq_some.1 hregs
          have hclock : (s.collect regs.rax.toInt).clockid = s.clockid := rfl
          have h := adopt_tables env self pid ⟨hentry, hget⟩ hclock
          unfold advance
          dsimp only
          split
          · exact h
          · exact h

theorem step_stored (env : Env) (self : Emulations) (pid : Pid) (t : Tracee) (fd : ℤ) :
    (self.step env pid t).1.stored fd =
      self.storedWith fd (adoption env pid t (self.active pid)) := by
  have h := step_tables env self pid t
  cases ha : adoption env pid t (self.active pid) with
  | none => exact stored_of_tables (by rw [h, ha]; rfl) fd
  | some a =>
    rw [ha] at h
    have ht : (self.step env pid t).1.timers = self.timers.insert a.fd a.timer :=
      congrArg Prod.fst h
    have hw : (self.step env pid t).1.writeEnds = self.writeEnds.insert a.fd a.handle :=
      congrArg (fun x => x.2.1) h
    unfold stored storedWith
    rw [ht, hw]
    dsimp only
    by_cases hfd : fd = a.fd
    · rw [if_pos hfd, hfd, AList.lookup_insert, AList.lookup_insert]
    · rw [if_neg hfd, AList.lookup_insert_ne hfd, AList.lookup_insert_ne hfd]
      rfl

/-! ### Serving deadlines -/

theorem setDeadline_stored_of_ne (self : Emulations) {fd fd' : ℤ} (h : fd ≠ fd')
    (deadline : Option Time) : (self.setDeadline fd' deadline).stored fd = self.stored fd := by
  unfold setDeadline
  split
  · rfl
  · exact Prod.ext (AList.lookup_insert_ne h) rfl

theorem closeFd_stored_self (self : Emulations) (fd : ℤ) :
    (self.closeFd fd).stored fd = (none, none) :=
  Prod.ext (AList.lookup_erase ..) (AList.lookup_erase ..)

theorem closeFd_stored_of_ne (self : Emulations) {fd fd' : ℤ} (h : fd ≠ fd') :
    (self.closeFd fd').stored fd = self.stored fd :=
  Prod.ext (AList.lookup_erase_ne h) (AList.lookup_erase_ne h)

/-- Serving a descriptor leaves the others alone. -/
theorem serve_stored_of_ne (env : Env) (self : Emulations) (due : Due) (fd : ℤ)
    (h : fd ≠ due.fd) : (self.serve env due).stored fd = self.stored fd := by
  unfold serve
  split
  · exact Prod.ext (AList.lookup_erase_ne h) rfl
  · split
    · exact setDeadline_stored_of_ne self h _
    · split
      · exact setDeadline_stored_of_ne self h _
      · rfl
    · exact closeFd_stored_of_ne self h

theorem setDeadline_stored_congr {self self' : Emulations} {fd : ℤ}
    (h : self.stored fd = self'.stored fd) (deadline : Option Time) :
    (self.setDeadline fd deadline).stored fd = (self'.setDeadline fd deadline).stored fd := by
  have ht : self.timers.lookup fd = self'.timers.lookup fd := congrArg Prod.fst h
  have hw : self.writeEnds.lookup fd = self'.writeEnds.lookup fd := congrArg Prod.snd h
  unfold setDeadline
  rw [ht]
  cases self'.timers.lookup fd with
  | none => exact h
  | some timer =>
    refine Prod.ext ?_ hw
    dsimp only [stored]
    rw [AList.lookup_insert, AList.lookup_insert]

/-- Serving a descriptor looks at what is stored under it and nothing else. -/
theorem serve_stored_congr (env : Env) (self self' : Emulations) (due : Due)
    (h : self.stored due.fd = self'.stored due.fd) :
    (self.serve env due).stored due.fd = (self'.serve env due).stored due.fd := by
  have hw : self.writeEnds.lookup due.fd = self'.writeEnds.lookup due.fd := congrArg Prod.snd h
  unfold serve
  rw [hw]
  cases hlookup : self'.writeEnds.lookup due.fd with
  | none =>
    refine Prod.ext ?_ hw
    dsimp only [stored]
    rw [AList.lookup_erase, AList.lookup_erase]
  | some handle =>
    dsimp only
    cases env.pipeWrite handle with
    | full => exact setDeadline_stored_congr h _
    | again =>
      cases due.next with
      | none => exact h
      | some next => exact setDeadline_stored_congr h _
    | gone => rw [closeFd_stored_self, closeFd_stored_self]

theorem expired_fd {env : Env} {fd : ℤ} {timer : Timer} {due : Due}
    (h : expired env fd timer = some due) : due.fd = fd := by
  unfold expired at h
  split at h
  · split_ifs at h
    · obtain rfl := Option.some.inj h
      rfl
    · obtain rfl := Option.some.inj h
      rfl
  · exact absurd h (by simp)

theorem arm_stored (env : Env) (self : Emulations) (fd : ℤ) :
    (self.arm env).stored fd = self.stored fd := rfl

/-- **`tick` treats each descriptor by itself**: a timer is served if it is due, as if
it were the only one. -/
theorem tick_stored (env : Env) (self : Emulations) (fd : ℤ) :
    (self.tick env true).stored fd =
      ((self.timers.lookup fd).bind (expired env fd)).elim (self.stored fd)
        fun due => (self.serve env due).stored fd := by
  have hkey : ∀ (x : Sigma fun _ : ℤ => Timer) (due : Due),
      expired env x.1 x.2 = some due → due.fd = x.1 := fun x due => expired_fd
  have hnodup : ((self.dueList env).map Due.fd).Nodup :=
    nodup_map_filterMap hkey self.timers.nodupKeys
  have hother : ∀ (s : Emulations) (due : Due) (k : ℤ), k ≠ due.fd →
      (s.serve env due).stored k = s.stored k := serve_stored_of_ne env
  have hloop := foldl_keyed hother (serve_stored_congr env) hnodup self fd
  have hfind : (self.dueList env).find? (Due.fd · = fd) =
      (self.timers.lookup fd).bind (expired env fd) :=
    find?_filterMap_entries hkey self.timers fd
  unfold tick
  rw [if_neg (by decide), arm_stored, hloop, hfind]

/-- What `tick` leaves under a number depends on what it finds there. -/
theorem tick_stored_congr (env : Env) (alarm : Bool) {self self' : Emulations} {fd : ℤ}
    (h : self.stored fd = self'.stored fd) :
    (self.tick env alarm).stored fd = (self'.tick env alarm).stored fd := by
  cases alarm with
  | false => exact h
  | true =>
    have ht : self.timers.lookup fd = self'.timers.lookup fd := congrArg Prod.fst h
    rw [tick_stored, tick_stored, ht, h]
    cases hdue : (self'.timers.lookup fd).bind (expired env fd) with
    | none => rfl
    | some due =>
      obtain ⟨timer, -, hexp⟩ := Option.bind_eq_some_iff.1 hdue
      obtain rfl := expired_fd hexp
      exact serve_stored_congr env self self' due h

/-! ### One number at a time -/

theorem stored_congr {self self' r r' : Emulations} {fd : ℤ} (hr : r.tables = self.tables)
    (hr' : r'.tables = self'.tables) (h : self.stored fd = self'.stored fd) :
    r.stored fd = r'.stored fd := by
  rw [stored_of_tables hr, stored_of_tables hr', h]

/-- A setting looks at the timer it is for and changes that alone. -/
theorem timerfdSettime_stored_congr (env : Env) (pid : Pid) (t : Tracee) (regs : Regs)
    {self self' : Emulations} {fd : ℤ} (h : self.stored fd = self'.stored fd)
    (hown : fd = regs.rdi.toInt) :
    (self.timerfdSettime env pid t regs).1.stored fd =
      (self'.timerfdSettime env pid t regs).1.stored fd := by
  subst hown
  have ht : self.timers.lookup regs.rdi.toInt = self'.timers.lookup regs.rdi.toInt :=
    congrArg Prod.fst h
  have hw : self.writeEnds.lookup regs.rdi.toInt = self'.writeEnds.lookup regs.rdi.toInt :=
    congrArg Prod.snd h
  unfold timerfdSettime
  dsimp only
  rw [ht]
  split
  · exact h
  split
  · exact h
  split
  · exact h
  split
  · exact h
  rw [stored_of_tables (standIn_tables ..), stored_of_tables (standIn_tables ..)]
  refine Prod.ext ?_ hw
  dsimp only [stored, arm]
  rw [AList.lookup_insert, AList.lookup_insert]

theorem timerfdSettime_stored_of_ne (env : Env) (self : Emulations) (pid : Pid) (t : Tracee)
    {regs : Regs} {fd : ℤ} (h : fd ≠ regs.rdi.toInt) :
    (self.timerfdSettime env pid t regs).1.stored fd = self.stored fd := by
  unfold timerfdSettime
  dsimp only
  split
  · rfl
  split
  · rfl
  split
  · rfl
  split
  · rfl
  rw [stored_of_tables (standIn_tables ..)]
  exact Prod.ext (AList.lookup_insert_ne h) rfl

/-- The number a call at an entry stop closes or sets. -/
def named (t : Tracee) (entering : Bool) : Option ℤ :=
  match entering, t.getregs with
  | true, some regs =>
    if regs.cs = userCs ∧ (regs.origRax = Nr.close ∨ regs.origRax = Nr.timerfdSettime) then
      some regs.rdi.toInt
    else none
  | _, _ => none

/-- The two outcomes store the same under a number. -/
def SameStored (fd : ℤ) (r r' : Emulations × Tracee × Bool) : Prop :=
  r.1.stored fd = r'.1.stored fd

theorem SameStored.ite {fd : ℤ} {c : Prop} [Decidable c] {a b a' b' : Emulations × Tracee × Bool}
    (h : c → SameStored fd a a') (h' : SameStored fd b b') :
    SameStored fd (if c then a else b) (if c then a' else b') := by
  split
  · rename_i hc
    exact h hc
  · exact h'

/-- What `begin` leaves under a number depends on what it finds there. -/
theorem begin_stored_congr (env : Env) (pid : Pid) (t : Tracee) (entering : Bool)
    {self self' : Emulations} {fd : ℤ} (h : self.stored fd = self'.stored fd) :
    SameStored fd (self.begin env pid t entering) (self'.begin env pid t entering) := by
  unfold begin
  cases entering with
  | false => exact h
  | true =>
    rw [if_neg (by decide), if_neg (by decide)]
    cases t.getregs with
    | none => exact h
    | some regs =>
      refine .ite (fun _ => h) <| .ite (fun _ => ?_) <|
        .ite (fun _ => stored_congr (eventfd_tables ..) (eventfd_tables ..) h) <|
        .ite (fun _ => stored_congr (eventfd_tables ..) (eventfd_tables ..) h) <|
        .ite (fun _ => stored_congr (timerfdCreate_tables ..) (timerfdCreate_tables ..) h) <|
        .ite (fun _ => ?_) <|
        .ite (fun _ => stored_congr (timerfdGettime_tables ..) (timerfdGettime_tables ..) h) <|
        .ite (fun _ => stored_congr (dupfdCloexec_tables ..) (dupfdCloexec_tables ..) h) <|
        .ite (fun _ => stored_congr (vectorIo_tables ..) (vectorIo_tables ..) h) <|
        .ite (fun _ => stored_congr (vectorIo_tables ..) (vectorIo_tables ..) h) <|
        .ite (fun _ => stored_congr (epollPwait_tables ..) (epollPwait_tables ..) h) h
      · by_cases hfd : fd = regs.rdi.toInt
        · unfold SameStored
          rw [hfd, closeFd_stored_self, closeFd_stored_self]
        · unfold SameStored
          rw [closeFd_stored_of_ne self hfd, closeFd_stored_of_ne self' hfd, h]
      · by_cases hfd : fd = regs.rdi.toInt
        · exact timerfdSettime_stored_congr env pid t regs h hfd
        · unfold SameStored
          rw [timerfdSettime_stored_of_ne env self pid t hfd,
            timerfdSettime_stored_of_ne env self' pid t hfd, h]

theorem setting_named {self : Emulations} {t : Tracee} {entering : Bool} {s : Setting}
    (h : self.setting t entering = some s) :
    named t entering = some s.fd ∧ self.timers.lookup s.fd = some s.timer := by
  unfold setting at h
  split at h
  · rename_i regs hregs
    split_ifs at h with hcall
    split at h
    · rename_i timer requested hlookup hread
      obtain rfl := Option.some.inj h
      refine ⟨?_, hlookup⟩
      unfold named
      rw [hregs]
      exact if_pos ⟨hcall.1, Or.inr hcall.2⟩
    · exact absurd h (by simp)
  · exact absurd h (by simp)

/-- `begin` leaves a number alone that the call does not name, or that has nothing
stored under it. -/
theorem begin_stored_of_free (env : Env) (self : Emulations) (pid : Pid) (t : Tracee)
    (entering : Bool) {fd : ℤ} (h : named t entering = some fd → self.stored fd = (none, none)) :
    (self.begin env pid t entering).1.stored fd = self.stored fd := by
  have htables := begin_tables env self pid t entering
  generalize self.begin env pid t entering = r at htables
  cases htables with
  | same hsame => exact stored_of_tables hsame fd
  | @close regs he hregs hcs hcall =>
    by_cases hfd : fd = regs.rdi.toInt
    · have hnamed : named t entering = some fd := by
        unfold named
        rw [he, hregs, hfd]
        exact if_pos ⟨hcs, Or.inl hcall⟩
      rw [h hnamed, hfd, closeFd_stored_self]
    · exact closeFd_stored_of_ne self hfd
  | @set s deadline r hs hd hset =>
    obtain ⟨hnamed, hlookup⟩ := setting_named hs
    have hfd : fd ≠ s.fd := by
      rintro rfl
      have hnone : self.timers.lookup s.fd = none := congrArg Prod.fst (h hnamed)
      rw [hlookup] at hnone
      exact absurd hnone (by simp)
    have htimers : r.1.timers = self.withSetting s deadline := congrArg Prod.fst hset
    have hends : r.1.writeEnds = self.writeEnds := congrArg (fun x => x.2.1) hset
    unfold stored
    rw [htimers, hends]
    exact Prod.ext (AList.lookup_insert_ne hfd) rfl

end Emulations
end Emulation
end Sharun
