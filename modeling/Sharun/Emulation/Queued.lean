/-
# What is read from an emulated timerfd

The application reads its end of a pipe, into which `tick` writes a count of eight bytes
whenever it finds the timer due.  A timerfd has one counter, which a read takes as a
whole and a new setting clears; the pipe keeps one count after the other and
`timerfd_settime` does not look at it.

The two agree as long as at most one count is ever queued when the descriptor is read,
and none when it is set (`reads_like_timerfd`): then what is queued is what the counter
holds, and what is stored of the timer is the rest of its schedule (`Follows`).  A count
left over from the setting before is read as one of the new setting
(`replaced_setting_read`).
-/

import Sharun.Emulation.Counts
import Sharun.Emulation.Deadlines
import Sharun.Basis.Schedule

namespace Sharun
namespace Emulation

open Machine Sharun.Basis

/-- When a timer expires from now on. -/
def Timer.schedule (timer : Timer) : Schedule :=
  ⟨timer.deadline.map Time.ns, timer.interval.ns.toNat⟩

/-- When a timerfd expires for which `timerfd_settime` is given these values. -/
def Setting.schedule (env : Env) (s : Setting) : Schedule where
  first :=
    if s.value = Time.zero then none
    else if s.flags &&& TFD_TIMER_ABSTIME ≠ 0 then some s.value.ns
    else (env.clock 1 s.timer.clockid).map fun now => now.ns + s.value.ns
  period := s.interval.ns.toNat

/-- A count as a read returns it; where there is none to return, nothing. -/
def countBytes (n : ℕ) : List Byte := if n = 0 then [] else leBytes 8 (BitVec.ofNat 64 n)

theorem countBytes_of_pos {n : ℕ} (h : 0 < n) : countBytes n = leBytes 8 (BitVec.ofNat 64 n) :=
  if_neg (Nat.pos_iff_ne_zero.1 h)

theorem length_countBytes {n : ℕ} (h : 0 < n) : (countBytes n).length = 8 := by
  rw [countBytes_of_pos h, leBytes_length]

namespace Emulations

/-! ### Settings -/

/-- What is stored of a sensible setting expires when it says. -/
theorem schedule_settled {env : Env} (henv : env.ClockOk) {s : Setting} (h : s.Sensible env)
    {deadline : Option Time}
    (hd : deadlineFor env s.timer.clockid s.flags s.value = some deadline) :
    ({ s.timer with interval := s.interval, deadline } : Timer).schedule = s.schedule env := by
  rw [Timer.schedule, Setting.schedule]
  dsimp only
  congr 1
  cases deadline with
  | none =>
    have hzero : s.value = Time.zero := by
      by_contra hne
      rw [deadlineFor, if_neg hne] at hd
      split_ifs at hd
      · exact absurd hd (by simp)
      · obtain ⟨now, -, hnone⟩ := Option.map_eq_some_iff.1 hd
        exact absurd hnone (by simp)
    rw [if_pos hzero]
    rfl
  | some d =>
    have hne : s.value ≠ Time.zero := by
      intro hzero
      rw [deadlineFor, if_pos hzero] at hd
      exact absurd hd (by simp)
    rw [if_neg hne]
    by_cases habs : s.flags &&& TFD_TIMER_ABSTIME = 0
    · obtain ⟨now, hnow, hns⟩ := (deadlineFor_valid henv h hd).2.2 habs
      rw [if_neg (not_not.2 habs), hnow, Option.map_some, Option.map_some, hns]
    · rw [deadlineFor, if_neg hne, if_pos habs] at hd
      obtain rfl := Option.some.inj (Option.some.inj hd)
      rw [if_pos habs]
      rfl

/-- The old value is written where the caller asks for it. -/
def writesOld (env : Env) (t : Tracee) (regs : Regs) (timer : Timer) : Tracee × Bool :=
  if regs.r10 ≠ 0 then
    let now := (env.clock 0 timer.clockid).getD Time.zero
    let remaining := timer.deadline.elim Time.zero fun deadline => Time.sub deadline now
    t.writeStruct regs.r10 (itimerspecBytes timer.interval remaining)
  else (t, true)

/-- The setting an event puts in force for a descriptor, and the turn of the loop in
which it does. -/
def settles (fd : ℤ) (self : Emulations) : Event → Option (Env × Setting)
  | .begin env _ t entering =>
    match t.getregs, self.setting t entering with
    | some regs, some s =>
      if s.fd = fd ∧ (writesOld env t regs s.timer).2 = true ∧
          (deadlineFor env s.timer.clockid s.flags s.value).isSome then some (env, s)
      else none
    | _, _ => none
  | _ => none

/-- The number a call at an entry stop closes. -/
def closes (t : Tracee) (entering : Bool) : Option ℤ :=
  match entering, t.getregs with
  | true, some regs =>
    if regs.cs = userCs ∧ regs.origRax = Nr.close then some regs.rdi.toInt else none
  | _, _ => none

/-- The number an event closes, or gets for a new timerfd. -/
def renews (self : Emulations) : Event → Option ℤ
  | .begin _ _ t entering => closes t entering
  | e => (self.adopts e).map Adopted.fd

theorem begin_eq_settime (env : Env) (self : Emulations) (pid : Pid) {t : Tracee} {regs : Regs}
    (hregs : t.getregs = some regs) (hcs : regs.cs = userCs)
    (hcall : regs.origRax = Nr.timerfdSettime) :
    self.begin env pid t true = self.timerfdSettime env pid t regs := by
  rw [begin, if_neg (by decide), hregs]
  dsimp only
  rw [if_neg (not_not.2 hcs), hcall, if_neg (by decide), if_neg (by decide), if_neg (by decide),
    if_neg (by decide), if_pos rfl]

theorem named_spec {t : Tracee} {entering : Bool} {fd : ℤ} (h : named t entering = some fd) :
    ∃ regs, entering = true ∧ t.getregs = some regs ∧ regs.cs = userCs ∧
      (regs.origRax = Nr.close ∨ regs.origRax = Nr.timerfdSettime) ∧ regs.rdi.toInt = fd := by
  rw [named.eq_def] at h
  split at h
  · rename_i regs hregs
    split_ifs at h with hcall
    exact ⟨regs, rfl, hregs, hcall.1, hcall.2, Option.some.inj h⟩
  · exact absurd h (by simp)

section

variable {self : Emulations} {fd : ℤ} {e : Event}

/-- What a setting stores. -/
theorem next_settles {env : Env} {s : Setting} (h : self.settles fd e = some (env, s)) :
    ∃ deadline, deadlineFor env s.timer.clockid s.flags s.value = some deadline ∧
      self.timers.lookup fd = some s.timer ∧
      (self.next e).stored fd =
        (some { s.timer with interval := s.interval, deadline }, self.writeEnds.lookup fd) := by
  cases e with
  | begin env' pid t entering =>
    rw [settles] at h
    split at h
    · rename_i regs s' hregs hs
      split_ifs at h with hput
      obtain ⟨rfl, rfl⟩ := Prod.mk.inj (Option.some.inj h)
      obtain ⟨rfl, hold, hdeadline⟩ := hput
      obtain ⟨deadline, hd⟩ := Option.isSome_iff_exists.1 hdeadline
      refine ⟨deadline, hd, (setting_named hs).2, ?_⟩
      cases entering with
      | false => exact absurd hs (by simp [setting])
      | true =>
        rw [setting.eq_def, hregs] at hs
        dsimp only at hs
        split_ifs at hs with hcall
        split at hs
        · rename_i timer requested hlookup hread
          obtain rfl := Option.some.inj hs
          rw [Emulations.next, begin_eq_settime env' self pid hregs hcall.1 hcall.2]
          dsimp only at hold hd ⊢
          rw [writesOld] at hold
          rw [timerfdSettime]
          dsimp only
          rw [hlookup]
          dsimp only
          rw [hread]
          dsimp only
          split
          · rename_i hwritten
            rw [hwritten] at hold
            exact absurd hold (by simp)
          · rw [hd]
            dsimp only
            rw [stored_of_tables (standIn_tables ..)]
            exact Prod.ext (AList.lookup_insert ..) rfl
        · exact absurd hs (by simp)
    · exact absurd h (by simp)
  | _ => exact absurd h (by simp [settles])

theorem settles_begin {env : Env} {s : Setting} (h : self.settles fd e = some (env, s)) :
    (ClocksOk e → env.ClockOk) ∧ ∀ env', e ≠ .tick env' true := by
  cases e with
  | begin env' pid t entering =>
    rw [settles] at h
    split at h
    · split_ifs at h
      obtain ⟨rfl, -⟩ := Prod.mk.inj (Option.some.inj h)
      exact ⟨fun hclocks => hclocks, fun _ he => Event.noConfusion he⟩
    · exact absurd h (by simp)
  | _ => exact absurd h (by simp [settles])

/-- Only ticks and settings change what is stored of a timerfd. -/
theorem next_unsettled (hsettles : self.settles fd e = none) (hrenews : self.renews e ≠ some fd)
    (htick : ∀ env, e ≠ .tick env true) : (self.next e).stored fd = self.stored fd := by
  by_cases hnamed : self.names e = some fd
  · cases e with
    | begin env pid t entering =>
      obtain ⟨regs, rfl, hregs, hcs, hcall, rfl⟩ := named_spec hnamed
      rcases hcall with hclose | hset
      · have hcloses : closes t true = some regs.rdi.toInt := by
          rw [closes.eq_def, hregs]
          exact if_pos ⟨hcs, hclose⟩
        exact absurd hcloses hrenews
      · rw [Emulations.next, begin_eq_settime env self pid hregs hcs hset]
        rw [settles, setting.eq_def, hregs] at hsettles
        dsimp only at hsettles
        rw [if_pos ⟨hcs, hset⟩] at hsettles
        rw [timerfdSettime]
        dsimp only
        cases hlookup : self.timers.lookup regs.rdi.toInt with
        | none => rfl
        | some timer =>
          cases hread : t.mem.readStruct regs.rdx 32 with
          | none => rfl
          | some requested =>
            rw [hlookup, hread] at hsettles
            dsimp only at hsettles ⊢
            split
            · rfl
            · rename_i t' hwritten
              have hold : (writesOld env t regs timer).2 = true := by
                rw [writesOld]
                exact congrArg Prod.snd hwritten
              cases hd : deadlineFor env timer.clockid regs.rsi (timeAt requested 16) with
              | none => rfl
              | some deadline =>
                rw [if_pos ⟨rfl, hold, by rw [hd]; rfl⟩] at hsettles
                exact absurd hsettles (by simp)
    | step env pid t => exact absurd hnamed hrenews
    | tick env alarm => exact absurd hnamed (by simp [names])
    | forget pid => exact absurd hnamed (by simp [names])
  · exact next_stored_quiet hnamed htick

theorem adopts_timer {a : Adopted} (h : self.adopts e = some a) :
    a.timer = ⟨a.timer.clockid, none, Time.zero⟩ := by
  cases e with
  | step env pid t => exact adoption_timer h
  | _ => exact absurd h (by simp [adopts])

end

/-! ### Ticks -/

/-- The bytes a tick writes into the pipe of a descriptor. -/
def arrives (fd : ℤ) (self : Emulations) : Event → List Byte
  | .tick env true =>
    match self.handed env fd, self.writeEnds.lookup fd with
    | some count, some handle =>
      if env.pipeWrite handle = .full then leBytes 8 (BitVec.ofNat 64 count) else []
    | _, _ => []
  | _ => []

/-- No count is lost on its way: there is a reader, and the write of a count that is not
tried again succeeds. -/
def Lands (fd : ℤ) (self : Emulations) (e : Event) : Prop :=
  ∀ env timer handle, e = .tick env true → self.stored fd = (some timer, some handle) →
    env.pipeWrite handle ≠ .gone ∧
      (timer.interval ≠ Time.zero → env.pipeWrite handle = .full)

theorem arrives_of_not_tick {self : Emulations} {fd : ℤ} {e : Event}
    (hno : ∀ env, e ≠ .tick env true) : self.arrives fd e = [] := by
  cases e with
  | tick env alarm =>
    cases alarm with
    | false => rfl
    | true => exact absurd rfl (hno env)
  | _ => rfl

theorem reading_of_not_tick {fd clockid : ℤ} {e : Event} (hno : ∀ env, e ≠ .tick env true) :
    reading fd clockid e = none := by
  cases e with
  | tick env alarm =>
    cases alarm with
    | false => rfl
    | true => exact absurd rfl (hno env)
  | _ => rfl

section

variable {env : Env} {self : Emulations} {fd : ℤ} {timer : Timer} {handle : Handle}

theorem arrives_eq (h : self.stored fd = (some timer, some handle)) :
    self.arrives fd (.tick env true) =
      (expired env fd timer).elim [] fun due =>
        if env.pipeWrite handle = .full then leBytes 8 (BitVec.ofNat 64 due.count) else [] := by
  have hw : self.writeEnds.lookup fd = some handle := congrArg Prod.snd h
  rw [arrives, handed_eq h, hw]
  cases expired env fd timer with
  | none => rfl
  | some due => rfl

/-- What one tick does: so many expirations of the schedule are counted, and the rest of
it stays. -/
structure Ticked (env : Env) (e : Emulations) (fd : ℤ) (timer : Timer) (handle : Handle)
    (n : ℕ) (timer' : Timer) : Prop where
  arrives : e.arrives fd (.tick env true) = countBytes n
  passed : ∀ now, env.tickClock fd timer.clockid = some now →
    n ≤ timer.schedule.passed now.ns
  unread : env.tickClock fd timer.clockid = none → n = 0
  stored : (e.tick env true).stored fd = (some timer', some handle)
  schedule : timer'.schedule = timer.schedule.after n
  clockid : timer'.clockid = timer.clockid
  ready : timer'.Ready

/-- A timer that is not due stays. -/
theorem ticked_idle (h : self.stored fd = (some timer, some handle)) (hready : timer.Ready)
    (hidle : expired env fd timer = none) : Ticked env self fd timer handle 0 timer where
  arrives := by
    rw [arrives_eq h, hidle]
    rfl
  passed _ _ := Nat.zero_le _
  unread _ := rfl
  stored := by rw [tick_stored_idle h hidle, h]
  schedule := Schedule.after_zero.symm
  clockid := rfl
  ready := hready

theorem schedule_passed {d now : Time} (hd : timer.deadline = some d) :
    timer.schedule.passed now.ns =
      if timer.interval.ns.toNat = 0 then (if d.ns ≤ now.ns then 1 else 0)
      else instants d.ns timer.interval.ns.toNat now.ns := by
  rw [Schedule.passed, Timer.schedule, hd]
  rfl

/-- The one expiration of a one-shot timer. -/
theorem ticked_once (h : self.stored fd = (some timer, some handle)) (hready : timer.Ready)
    {d now : Time} (hd : timer.deadline = some d)
    (hnow : env.tickClock fd timer.clockid = some now) (hnv : now.Valid)
    (hle : d.ns ≤ now.ns) (hzero : timer.interval = Time.zero)
    (hgone : env.pipeWrite handle ≠ .gone) :
    ∃ n timer', Ticked env self fd timer handle n timer' := by
  have hdue := expired_once hd hnow (hready d hd).1 hnv hle hzero
  have hafter := tick_stored_due h hdue
  have hperiod : timer.interval.ns.toNat = 0 := by
    rw [hzero]
    rfl
  cases hw : env.pipeWrite handle with
  | full =>
    rw [hw] at hafter
    refine ⟨1, { timer with deadline := none }, ?_, fun now' hnow' => ?_, fun hnone => ?_, hafter,
      ?_, rfl, fun _ hnone => absurd hnone (by simp)⟩
    · rw [arrives_eq h, hdue, countBytes_of_pos one_pos]
      exact if_pos hw
    · obtain rfl := Option.some.inj (hnow.symm.trans hnow')
      rw [schedule_passed hd, if_pos hperiod, if_pos hle]
    · exact absurd (hnow.symm.trans hnone) (by simp)
    · rw [Schedule.after, Timer.schedule, Timer.schedule, hd]
      dsimp only [Option.map_some, Option.map_none]
      rw [if_pos hperiod, if_neg one_ne_zero, hperiod]
  | again =>
    -- Nothing is written, and the deadline is kept for the next tick.
    rw [hw] at hafter
    refine ⟨0, timer, ?_, fun _ _ => Nat.zero_le _, fun _ => rfl, hafter,
      Schedule.after_zero.symm, rfl, hready⟩
    rw [arrives_eq h, hdue]
    exact if_neg (by rw [hw]; decide)
  | gone => exact absurd hw hgone

/-- The expirations of a periodic timer. -/
theorem ticked_periodic (h : self.stored fd = (some timer, some handle)) (hready : timer.Ready)
    {d now : Time} (hd : timer.deadline = some d)
    (hnow : env.tickClock fd timer.clockid = some now) (hnv : now.Valid)
    (hle : d.ns ≤ now.ns) (hne : timer.interval ≠ Time.zero)
    (hrange : d.ns + timer.interval.ns * countAt d timer.interval now < Time.limit)
    (hfull : env.pipeWrite handle = .full) :
    ∃ n timer', Ticked env self fd timer handle n timer' := by
  obtain ⟨hdv, hi⟩ := hready d hd
  have hpos := ns_pos hi hne
  have hcast : (timer.interval.ns.toNat : ℤ) = timer.interval.ns := Int.toNat_of_nonneg hpos.le
  have hperiod : timer.interval.ns.toNat ≠ 0 := by omega
  obtain ⟨next, hdue, hnext, hns⟩ := expired_periodic hd hnow hdv hnv hi hle hne hrange
  have hafter := tick_stored_due h hdue
  rw [hfull] at hafter
  have hone : 0 < countAt d timer.interval now := by
    have hfirst : 0 < instants d.ns timer.interval.ns now.ns :=
      (lt_instants_iff hpos 0).2 (by simpa using hle)
    rw [countAt, maxCount]
    omega
  refine ⟨countAt d timer.interval now, { timer with deadline := some next }, ?_,
    fun now' hnow' => ?_, fun hnone => ?_, hafter, ?_, rfl, fun t ht => ?_⟩
  · rw [arrives_eq h, hdue, countBytes_of_pos hone]
    exact if_pos hfull
  · obtain rfl := Option.some.inj (hnow.symm.trans hnow')
    rw [schedule_passed hd, if_neg hperiod, hcast]
    exact Nat.min_le_right ..
  · exact absurd (hnow.symm.trans hnone) (by simp)
  · rw [Schedule.after, Timer.schedule, Timer.schedule, hd]
    dsimp only [Option.map_some]
    rw [if_neg hperiod, hns, hcast]
  · obtain rfl := Option.some.inj ht
    exact ⟨hnext, hi⟩

/-- **One tick** of a valid timer that is kept in range. -/
theorem tick_ticked (h : self.stored fd = (some timer, some handle)) (hready : timer.Ready)
    (hclock : env.ClockOk) (hrange : self.StaysInRange fd (.tick env true))
    (hlands : self.Lands fd (.tick env true)) :
    ∃ n timer', Ticked env self fd timer handle n timer' := by
  have ht : self.timers.lookup fd = some timer := congrArg Prod.fst h
  obtain ⟨hgone, hfull⟩ := hlands env timer handle rfl h
  cases hd : timer.deadline with
  | none => exact ⟨0, timer, ticked_idle h hready (by rw [expired, hd])⟩
  | some d =>
    cases hnow : env.tickClock fd timer.clockid with
    | none => exact ⟨0, timer, ticked_idle h hready (by rw [expired, hd, hnow])⟩
    | some now =>
      have hnv := hclock.tickClock fd _ now hnow
      by_cases hle : d.ns ≤ now.ns
      · by_cases hzero : timer.interval = Time.zero
        · exact ticked_once h hready hd hnow hnv hle hzero hgone
        · exact ticked_periodic h hready hd hnow hnv hle hzero
            (hrange timer d now ht hd hnow hzero hle) (hfull hzero)
      · have hidle := expired_early hd hnow (hready d hd).1 hnv (not_le.1 hle)
        exact ⟨0, timer, ticked_idle h hready hidle⟩

end

end Emulations

/-! ### The pipe and the counter -/

/-- What happens around one emulated timerfd: the tracer uses its emulations, or so many
bytes of the descriptor are read while the clock of the timer shows a time. -/
inductive Action
  | use (e : Event)
  | read (size : ℕ) (now : Time)

/-- The emulations, what is queued in the pipe of a descriptor, and for comparison the
counter of a timerfd that is set and read alike, with the last reading of its clock. -/
structure Watched where
  emulations : Emulations
  queued : List Byte
  counter : Counter
  latest : ℤ

namespace Watched

/-- A descriptor that an event has just made. -/
def created (self : Emulations) (e : Event) : Watched := ⟨self.next e, [], .set .never, 0⟩

/-- One action.  A read takes the oldest bytes of the pipe. -/
def next (fd clockid : ℤ) (s : Watched) : Action → Watched
  | .use e =>
    { emulations := s.emulations.next e
      queued := s.queued ++ s.emulations.arrives fd e
      counter :=
        (s.emulations.settles fd e).elim s.counter fun (env, new) => .set (new.schedule env)
      latest := (Emulations.reading fd clockid e).elim s.latest Time.ns }
  | .read size now =>
    { s with queued := s.queued.drop size, counter := s.counter.read now.ns, latest := now.ns }

/-- The descriptor shows what a timerfd would: it is readable only when an expiration of
the setting in force has come that has not been read, and a read returns their number. -/
def LikeTimerfd (fd clockid : ℤ) (s : Watched) : Action → Prop
  | .use e =>
    let s' := s.next fd clockid (.use e)
    s'.queued ≠ [] → 0 < s'.counter.unread s'.latest
  | .read size now => s.queued.take size = countBytes (s.counter.unread now.ns)

/-- The descriptor is not closed, and its clock reads valid times and does not go back. -/
def Proper (fd clockid : ℤ) (s : Watched) : Action → Prop
  | .use e =>
    s.emulations.renews e ≠ some fd ∧ Emulations.ClocksOk e ∧
      ∀ now, Emulations.reading fd clockid e = some now → s.latest ≤ now.ns
  | .read _ now => s.latest ≤ now.ns

/-- Nothing is queued when the timer is set, and at most one count when it is read; what
is due then has been served, the settings are valid, and no count is lost. -/
def Drained (fd : ℤ) (s : Watched) : Action → Prop
  | .use e =>
    (∀ env new, s.emulations.settles fd e = some (env, new) →
        s.queued = [] ∧ new.Sensible env) ∧
      s.emulations.StaysInRange fd e ∧ s.emulations.Lands fd e
  | .read size now =>
    8 ≤ size ∧ s.queued.length ≤ 8 ∧
      ∀ timer d, s.emulations.timers.lookup fd = some timer → timer.deadline = some d →
        now.ns < d.ns

/-- What is queued are the counts since the last read, and what is stored of the timer is
the schedule in force after them. -/
structure Follows (fd clockid : ℤ) (s : Watched) (timer : Timer) (handle : Handle)
    (counts : List ℕ) : Prop where
  stored : s.emulations.stored fd = (some timer, some handle)
  clockid : timer.clockid = clockid
  ready : timer.Ready
  queued : s.queued = (counts.map countBytes).flatten
  pos : ∀ n ∈ counts, 0 < n
  schedule : timer.schedule = s.counter.schedule.after (s.counter.taken + counts.sum)
  passed : s.counter.taken + counts.sum ≤ s.counter.schedule.passed s.latest

section

variable {fd clockid : ℤ} {s : Watched} {timer : Timer} {handle : Handle} {counts : List ℕ}

/-- What is queued has not been read. -/
theorem Follows.unread (h : Follows fd clockid s timer handle counts) (hq : s.queued ≠ []) :
    0 < s.counter.unread s.latest := by
  have hsum : 0 < counts.sum := by
    cases counts with
    | nil => exact absurd h.queued hq
    | cons n counts =>
      have hn := h.pos n (List.mem_cons_self ..)
      rw [List.sum_cons]
      omega
  have := h.passed
  rw [Counter.unread]
  omega

/-- Of eight bytes at most there is one count at most. -/
theorem Follows.countBytes_sum (h : Follows fd clockid s timer handle counts)
    (hq : s.queued.length ≤ 8) : s.queued = countBytes counts.sum := by
  rw [h.queued] at hq ⊢
  match counts with
  | [] => rfl
  | [n] => simp
  | n :: m :: rest =>
    have hn := length_countBytes (h.pos n (by simp))
    have hm := length_countBytes (h.pos m (by simp))
    simp only [List.map_cons, List.flatten_cons, List.length_append, hn, hm] at hq
    omega

/-- **One read.** -/
theorem Follows.read (h : Follows fd clockid s timer handle counts) {size : ℕ} {now : Time}
    (hproper : Proper fd clockid s (.read size now)) (hdrained : Drained fd s (.read size now)) :
    LikeTimerfd fd clockid s (.read size now) ∧
      Follows fd clockid (s.next fd clockid (.read size now)) timer handle [] := by
  obtain ⟨hsize, hlength, hserved⟩ := hdrained
  have ht : s.emulations.timers.lookup fd = some timer := congrArg Prod.fst h.stored
  -- The rest of the schedule is still to come.
  have hrest : timer.schedule.passed now.ns = 0 := by
    refine Schedule.passed_early fun d hd => ?_
    obtain ⟨d', hd', rfl⟩ := Option.map_eq_some_iff.1 hd
    exact hserved timer d' ht hd'
  have hall : s.counter.schedule.passed now.ns = s.counter.taken + counts.sum := by
    have hcounted := h.passed.trans (Schedule.passed_mono hproper)
    rw [Schedule.passed_after hcounted, ← h.schedule, hrest, Nat.add_zero]
  constructor
  · rw [LikeTimerfd, List.take_of_length_le (hlength.trans hsize), h.countBytes_sum hlength,
      Counter.unread, hall, Nat.add_sub_cancel_left]
  · refine ⟨h.stored, h.clockid, h.ready, ?_, fun n hn => absurd hn (by simp), ?_, ?_⟩
    · exact List.drop_of_length_le (hlength.trans hsize)
    · change timer.schedule = s.counter.schedule.after (s.counter.schedule.passed now.ns + 0)
      rw [Nat.add_zero, hall, h.schedule]
    · exact le_rfl

/-- A tick adds what it reports. -/
theorem Follows.tick (h : Follows fd clockid s timer handle counts) {env : Env}
    (hproper : Proper fd clockid s (.use (.tick env true)))
    (hdrained : Drained fd s (.use (.tick env true))) :
    ∃ timer' counts',
      Follows fd clockid (s.next fd clockid (.use (.tick env true))) timer' handle counts' := by
  obtain ⟨-, hclocks, hlatest⟩ := hproper
  obtain ⟨-, hrange, hlands⟩ := hdrained
  obtain ⟨n, timer', htick⟩ := Emulations.tick_ticked h.stored h.ready hclocks hrange hlands
  have hclockid := h.clockid
  let s' := s.next fd clockid (.use (.tick env true))
  have hlater : s.latest ≤ s'.latest ∧ n ≤ timer.schedule.passed s'.latest := by
    change s.latest ≤ (env.tickClock fd clockid).elim s.latest Time.ns ∧
      n ≤ timer.schedule.passed ((env.tickClock fd clockid).elim s.latest Time.ns)
    cases hnow : env.tickClock fd clockid with
    | none =>
      obtain rfl := htick.unread (hclockid ▸ hnow)
      exact ⟨le_rfl, Nat.zero_le _⟩
    | some now => exact ⟨hlatest now hnow, htick.passed now (hclockid ▸ hnow)⟩
  have hpassed : s.counter.taken + counts.sum + n ≤ s.counter.schedule.passed s'.latest := by
    have hbefore := h.passed.trans (Schedule.passed_mono hlater.1)
    rw [Schedule.passed_after hbefore, ← h.schedule]
    exact Nat.add_le_add_left hlater.2 _
  have hschedule : timer'.schedule =
      s.counter.schedule.after (s.counter.taken + counts.sum + n) := by
    rw [htick.schedule, h.schedule, Schedule.after_after]
  have hqueued : s'.queued = (counts.map countBytes).flatten ++ countBytes n := by
    rw [← h.queued, ← htick.arrives]
    rfl
  rcases Nat.eq_zero_or_pos n with rfl | hn
  · refine ⟨timer', counts, htick.stored, htick.clockid.trans hclockid, htick.ready, ?_, h.pos,
      hschedule, hpassed⟩
    rw [hqueued]
    exact List.append_nil _
  · refine ⟨timer', counts ++ [n], htick.stored, htick.clockid.trans hclockid, htick.ready, ?_,
      fun m hm => ?_, ?_, ?_⟩
    · rw [hqueued, List.map_append, List.flatten_append]
      simp
    · rcases List.mem_append.1 hm with hmem | hmem
      · exact h.pos m hmem
      · rwa [List.mem_singleton.1 hmem]
    · rw [List.sum_append, List.sum_singleton, ← Nat.add_assoc]
      exact hschedule
    · rw [List.sum_append, List.sum_singleton, ← Nat.add_assoc]
      exact hpassed

/-- A setting starts over, where nothing is queued. -/
theorem Follows.set (h : Follows fd clockid s timer handle counts) {e : Event} {env : Env}
    {new : Setting} (hsettles : s.emulations.settles fd e = some (env, new))
    (hclocks : Emulations.ClocksOk e) (hqueued : s.queued = []) (hsensible : new.Sensible env) :
    ∃ timer', Follows fd clockid (s.next fd clockid (.use e)) timer' handle [] := by
  obtain ⟨deadline, hd, hlookup, hstored⟩ := Emulations.next_settles hsettles
  have ht : s.emulations.timers.lookup fd = some timer := congrArg Prod.fst h.stored
  have hhandle : s.emulations.writeEnds.lookup fd = some handle := congrArg Prod.snd h.stored
  have htimer : new.timer = timer := Option.some.inj (hlookup.symm.trans ht)
  obtain ⟨henv, hno⟩ := Emulations.settles_begin hsettles
  have hcounter : (s.next fd clockid (.use e)).counter = .set (new.schedule env) := by
    rw [Watched.next, hsettles]
    rfl
  refine ⟨{ new.timer with interval := new.interval, deadline }, ?_, ?_, fun d hsome => ?_, ?_,
    fun n hn => absurd hn (by simp), ?_, ?_⟩
  · rw [← hhandle]
    exact hstored
  · rw [← h.clockid, ← htimer]
  · obtain rfl : deadline = some d := hsome
    obtain ⟨hvalid, hi, -⟩ := Emulations.deadlineFor_valid (henv hclocks) hsensible hd
    exact ⟨hvalid, hi⟩
  · rw [Watched.next, hqueued, Emulations.arrives_of_not_tick hno]
    rfl
  · rw [hcounter]
    exact (Emulations.schedule_settled (henv hclocks) hsensible hd).trans Schedule.after_zero.symm
  · rw [hcounter]
    exact Nat.zero_le _

/-- **One use** of the emulations. -/
theorem Follows.use (h : Follows fd clockid s timer handle counts) {e : Event}
    (hproper : Proper fd clockid s (.use e)) (hdrained : Drained fd s (.use e)) :
    ∃ timer' counts', Follows fd clockid (s.next fd clockid (.use e)) timer' handle counts' := by
  rcases Emulations.tick_or_not e with ⟨env, rfl⟩ | hno
  · exact h.tick hproper hdrained
  · cases hsettles : s.emulations.settles fd e with
    | some settled =>
      obtain ⟨env, new⟩ := settled
      obtain ⟨hqueued, hsensible⟩ := hdrained.1 env new hsettles
      obtain ⟨timer', hset⟩ := h.set hsettles hproper.2.1 hqueued hsensible
      exact ⟨timer', [], hset⟩
    | none =>
      have hstored := Emulations.next_unsettled hsettles hproper.1 hno
      have hsame : s.next fd clockid (.use e) = { s with emulations := s.emulations.next e } := by
        rw [Watched.next, hsettles, Emulations.arrives_of_not_tick hno, List.append_nil,
          Emulations.reading_of_not_tick hno]
        rfl
      rw [hsame]
      exact ⟨timer, counts, hstored.trans h.stored, h.clockid, h.ready, h.queued, h.pos,
        h.schedule, h.passed⟩

/-- A new descriptor follows its counter. -/
theorem follows_created {self : Emulations} {e : Event} {a : Adopted}
    (h : self.adopts e = some a) :
    Follows a.fd a.timer.clockid (created self e) a.timer a.handle [] where
  stored := (Emulations.next_stored_of_adopts h a.fd).trans (if_pos rfl)
  clockid := rfl
  ready := by
    rw [Emulations.adopts_timer h]
    exact fun d hd => absurd hd (by simp)
  queued := rfl
  pos n hn := absurd hn (by simp)
  schedule := by
    rw [Emulations.adopts_timer h]
    rfl
  passed := Nat.zero_le _

end

/-- **A descriptor that is drained in time is read like a timerfd**: in every run in which
nothing is queued when the timer is set, and at most one count when it is read, it is
readable only when an expiration of the setting in force has come, and a read returns the
number of those that have come since the last read or setting. -/
theorem reads_like_timerfd (es : List Event) {e : Event} {a : Adopted}
    (hadopts : (es.foldl Emulations.next Emulations.new).adopts e = some a) {as : List Action}
    (hproper : Along (next a.fd a.timer.clockid) (Proper a.fd a.timer.clockid)
      (created (es.foldl Emulations.next Emulations.new) e) as)
    (hdrained : Along (next a.fd a.timer.clockid) (Drained a.fd)
      (created (es.foldl Emulations.next Emulations.new) e) as) :
    Along (next a.fd a.timer.clockid) (LikeTimerfd a.fd a.timer.clockid)
      (created (es.foldl Emulations.next Emulations.new) e) as := by
  have hone : ∀ (s : Watched) (action : Action),
      (∃ timer counts, Follows a.fd a.timer.clockid s timer a.handle counts) →
      Proper a.fd a.timer.clockid s action ∧ Drained a.fd s action →
      LikeTimerfd a.fd a.timer.clockid s action ∧ ∃ timer counts, Follows a.fd a.timer.clockid
        (s.next a.fd a.timer.clockid action) timer a.handle counts := by
    rintro s action ⟨timer, counts, h⟩ ⟨hp, hd⟩
    cases action with
    | use e =>
      obtain ⟨timer', counts', h'⟩ := h.use hp hd
      exact ⟨h'.unread, timer', counts', h'⟩
    | read size now =>
      obtain ⟨hlike, h'⟩ := h.read hp hd
      exact ⟨hlike, timer, [], h'⟩
  exact along_of_invariant hone ⟨a.timer, [], follows_created hadopts⟩ (hproper.and hdrained)

/-- The call that makes descriptor 5 a timerfd of the monotonic clock, up to the stop at
which its pipe is adopted. -/
def creation : List Event :=
  [.begin (.still Host.centos5) 1 (.entryOf Nr.timerfdCreate 1 0 0 0) true]

/-- That stop. -/
def creationEnd : Event :=
  .step (.still Host.centos5) 1 { Tracee.exitOf 0 with
    mem := fun a => some (if a = 0x7e00 then 5 else if a = 0x7e04 then 6 else 0 : Byte) }

/-- The descriptor is set to an absolute value. -/
def setEvent (interval value : Time) : Event :=
  .begin (.still Host.centos5) 1 { Tracee.entryOf Nr.timerfdSettime 5 1 0x9000 0 with
    mem := fun a =>
      some (((Emulations.itimerspecBytes interval value)[(a - 0x9000).toNat]?).getD 0) } true

def setTo (interval value : Time) : Action := .use (setEvent interval value)

/-- A tick when the clock reads so many seconds. -/
def tickAt (sec : ℤ) : Action :=
  .use (.tick { Env.still Host.centos5 with tickClock := fun _ _ => some ⟨sec, 0⟩ } true)

/-- The descriptor when it has been made. -/
def start : Watched := created (creation.foldl Emulations.next Emulations.new) creationEnd

theorem start_adopts : (creation.foldl Emulations.next Emulations.new).adopts creationEnd =
    some ⟨5, ⟨1, none, Time.zero⟩, 0⟩ := by
  decide +kernel

theorem tickAt_clockOk {sec : ℤ} (h : (⟨sec, 0⟩ : Time).Valid) :
    ({ Env.still Host.centos5 with tickClock := fun _ _ => some ⟨sec, 0⟩ } : Env).ClockOk where
  clock := (Emulations.still_clockOk Host.centos5).clock
  tickClock _ _ t ht := by
    obtain rfl := Option.some.inj ht
    exact h
  armClock := (Emulations.still_clockOk Host.centos5).armClock

theorem setTo_proper (interval value : Time) (s : Watched) :
    Proper 5 1 s (setTo interval value) := by
  refine ⟨fun h => ?_, Emulations.still_clockOk _,
    fun now hnow => ?_⟩
  · have hnone : (none : Option ℤ) = some 5 := h
    exact absurd hnone (by simp)
  · have hnone : (none : Option Time) = some now := hnow
    exact absurd hnone (by simp)

theorem tickAt_proper {sec : ℤ} {s : Watched} (h : (⟨sec, 0⟩ : Time).Valid)
    (hlatest : s.latest ≤ sec * 1000000000) : Proper 5 1 s (tickAt sec) := by
  refine ⟨by simp [Emulations.renews, Emulations.adopts], tickAt_clockOk h, fun now hnow => ?_⟩
  obtain rfl : (⟨sec, 0⟩ : Time) = now := Option.some.inj hnow
  change s.latest ≤ sec * 1000000000 + 0
  omega

/-- One count, read in time. -/
theorem reads_like_timerfd_once : Along (next 5 1) (LikeTimerfd 5 1) start
    [setTo Time.zero ⟨1, 0⟩, tickAt 1, .read 8 ⟨1, 0⟩] := by
  have hset : ([setTo Time.zero ⟨1, 0⟩].foldl (next 5 1) start).emulations.stored 5 =
      (some ⟨1, some ⟨1, 0⟩, Time.zero⟩, some 0) := by decide +kernel
  have hread : ([setTo Time.zero ⟨1, 0⟩, tickAt 1].foldl (next 5 1) start).emulations.stored 5 =
      (some ⟨1, none, Time.zero⟩, some 0) := by decide +kernel
  have hlatest : ([setTo Time.zero ⟨1, 0⟩, tickAt 1].foldl (next 5 1) start).latest ≤
      1000000000 := by decide +kernel
  refine reads_like_timerfd creation start_adopts
    ⟨setTo_proper .., tickAt_proper (by decide) (by decide +kernel), hlatest, trivial⟩
    ⟨⟨fun env new hsettles => ⟨rfl, ?_⟩, fun timer d now _ _ hnow => ?_,
        fun env timer handle he => ?_⟩,
      ⟨fun env new hsettles => ?_, fun timer d now ht _ _ hne => ?_,
        fun env timer handle he hs => ?_⟩,
      ⟨le_rfl, ?_, fun timer d ht hd => ?_⟩, trivial⟩
  · have hnew : (start.emulations.settles 5 (setEvent Time.zero ⟨1, 0⟩)).map Prod.snd =
        some ⟨5, ⟨1, none, Time.zero⟩, Time.zero, ⟨1, 0⟩, 1⟩ := by decide +kernel
    have hsome : start.emulations.settles 5 (setEvent Time.zero ⟨1, 0⟩) = some (env, new) :=
      hsettles
    rw [hsome] at hnew
    obtain rfl := Option.some.inj hnew
    exact ⟨fun _ => by decide, fun _ => by decide, fun _ hrel => absurd hrel (by decide)⟩
  · have hnone : (none : Option Time) = some now := hnow
    exact absurd hnone (by simp)
  · exact Event.noConfusion he
  · exact absurd hsettles (by simp [Emulations.settles])
  · have htimer := congrArg Prod.fst hset
    obtain rfl := Option.some.inj (htimer.symm.trans ht)
    exact absurd rfl hne
  · obtain ⟨rfl, -⟩ := Event.tick.inj he
    exact ⟨fun hgone => Written.noConfusion hgone, fun _ => rfl⟩
  · decide +kernel
  · have htimer := congrArg Prod.fst hread
    obtain rfl := Option.some.inj (htimer.symm.trans ht)
    exact absurd hd (by simp)

/-- The descriptor when its one expiration has come and it has been disarmed. -/
def disarmed : Watched :=
  [setTo Time.zero ⟨1, 0⟩, tickAt 1, setTo Time.zero Time.zero].foldl (next 5 1) start

/-- **A count outlives its setting**: an expiration has come and the timer is disarmed, and
the descriptor is readable still and a read returns one. -/
theorem replaced_setting_read :
    Along (next 5 1) (Proper 5 1) start
        [setTo Time.zero ⟨1, 0⟩, tickAt 1, setTo Time.zero Time.zero, .read 8 ⟨1, 0⟩] ∧
      ¬ Along (next 5 1) (LikeTimerfd 5 1) start
        [setTo Time.zero ⟨1, 0⟩, tickAt 1, setTo Time.zero Time.zero, .read 8 ⟨1, 0⟩] ∧
      disarmed.counter = .set .never ∧ disarmed.queued.take 8 = countBytes 1 := by
  have hcounter : disarmed.counter = .set .never := by decide +kernel
  have hqueued : disarmed.queued = countBytes 1 := by decide +kernel
  have hlatest : disarmed.latest = 1000000000 := by decide +kernel
  refine ⟨⟨setTo_proper .., tickAt_proper (by decide) (by decide +kernel), setTo_proper ..,
    hlatest.le, trivial⟩, fun h => ?_, hcounter, ?_⟩
  · have hread : disarmed.queued.take 8 = countBytes (disarmed.counter.unread 1000000000) :=
      h.2.2.2.1
    rw [hqueued, hcounter] at hread
    exact absurd hread (by decide)
  · rw [hqueued]
    decide

/-- Of two counts that are queued a read of eight bytes returns the first. -/
example (s : Watched)
    (h : s = [setTo ⟨1, 0⟩ ⟨1, 0⟩, tickAt 1, tickAt 2].foldl (next 5 1) start) :
    s.queued.take 8 = countBytes 1 ∧ s.counter.unread 2000000000 = 2 := by
  subst h
  decide +kernel

end Watched

end Emulation
end Sharun
