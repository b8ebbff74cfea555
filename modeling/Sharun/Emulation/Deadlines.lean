/-
# The interval timer

One `ITIMER_REAL` serves the timers of all tracees: `arm` in
`src/emulated_syscalls.rs` sets it to what is left of the nearest deadline.  As long
as every deadline is a valid `timespec`, `arm` computes a value the kernel accepts,
which is on exactly when some deadline is to be served and goes off in time
(`accurate_of_ready`).

The deadlines come from the applications.  Nothing checks the values they pass to
`timerfd_settime`, where the kernel's own call fails with `EINVAL`, and nothing keeps
a sum in range; a run in which they happen to be valid and in range keeps every
deadline valid (`deadlines_accurate`), one invalid value is enough for a value
`setitimer` refuses (`value_refused`).
-/

import Sharun.Emulation.Expirations

namespace Sharun
namespace Emulation

open Machine Sharun.Basis

/-! ### Valid deadlines -/

/-- A deadline and the periods after it are valid times. -/
def Timer.Ready (timer : Timer) : Prop :=
  ∀ d, timer.deadline = some d → d.Valid ∧ timer.interval.Valid

/-- A setting the kernel's own call would take, and whose deadline is in range. -/
structure Setting.Sensible (env : Env) (s : Setting) : Prop where
  value : s.value ≠ Time.zero → s.value.Valid
  interval : s.value ≠ Time.zero → s.interval.Valid
  in_range : s.value ≠ Time.zero → s.flags &&& TFD_TIMER_ABSTIME = 0 →
    ∀ now, env.clock 1 s.timer.clockid = some now → now.ns + s.value.ns < Time.limit

/-- The number of periods between a deadline and the one `tick` moves it to. -/
def periods (deadline interval now : Time) : ℤ :=
  min 4294967294 ((now.ns - deadline.ns) / interval.ns) + 1

namespace Emulations

/-- Every deadline is valid. -/
def Ready (self : Emulations) : Prop :=
  ∀ fd timer, self.timers.lookup fd = some timer → timer.Ready

/-- Every deadline `tick` moves on stays in range. -/
def InRange (env : Env) (self : Emulations) : Prop :=
  ∀ fd timer deadline now, self.timers.lookup fd = some timer → timer.deadline = some deadline →
    env.tickClock fd timer.clockid = some now → now.lt deadline = false →
    timer.interval ≠ Time.zero →
    deadline.ns + timer.interval.ns * periods deadline timer.interval now < Time.limit

/-! ### What `arm` computes -/

theorem left_valid {env : Env} (henv : env.ClockOk) {fd : ℤ} {timer : Timer} (h : timer.Ready)
    {rest : Time} (hleft : left env fd timer = some rest) :
    ∃ d now, timer.deadline = some d ∧ env.armClock fd timer.clockid = some now ∧ rest.Valid ∧
      rest.ns = max 0 (d.ns - now.ns) := by
  unfold left at hleft
  split at hleft
  · rename_i d now hd hnow
    obtain rfl := Option.some.inj hleft
    obtain ⟨hvalid, -⟩ := h d hd
    have hspec := Time.sub_spec hvalid (henv.armClock fd _ now hnow)
    exact ⟨d, now, hd, hnow, hspec⟩
  · exact absurd hleft (by simp)

theorem left_of_deadline {env : Env} {fd : ℤ} {timer : Timer} {d now : Time}
    (hd : timer.deadline = some d) (hnow : env.armClock fd timer.clockid = some now) :
    left env fd timer = some (Time.sub d now) := by
  unfold left
  rw [hd, hnow]

/-- A time is as near as every one a loop of `arm` has seen. -/
def Nearest (env : Env) (timers : List (Sigma fun _ : ℤ => Timer)) (best : Time) : Prop :=
  ∀ x ∈ timers, ∀ rest, left env x.1 x.2 = some rest → best.ns ≤ rest.ns

/-- **The loop of `arm` finds the least time left**, starting from one that it may have
found before. -/
theorem soonest_spec {env : Env} (timers : List (Sigma fun _ : ℤ => Timer))
    (hvalid : ∀ x ∈ timers, ∀ rest, left env x.1 x.2 = some rest → rest.Valid) :
    (soonest env timers = none ∧ ∀ x ∈ timers, left env x.1 x.2 = none) ∨
      ∃ best, soonest env timers = some best ∧ best.Valid ∧ Nearest env timers best ∧
        ∃ x ∈ timers, left env x.1 x.2 = some best := by
  unfold soonest
  induction timers using List.reverseRecOn with
  | nil => exact Or.inl ⟨rfl, by simp⟩
  | append_singleton timers x ih =>
    have hinit := ih fun y hy => hvalid y (List.mem_append_left _ hy)
    have hlast : x ∈ timers ++ [x] := List.mem_append_right _ (List.mem_singleton_self x)
    have hnearest : ∀ {best : Time}, Nearest env timers best →
        (∀ rest, left env x.1 x.2 = some rest → best.ns ≤ rest.ns) →
          Nearest env (timers ++ [x]) best := by
      intro best hbest hx y hy
      rcases List.mem_append.1 hy with hy | hy
      · exact hbest y hy
      · obtain rfl := List.mem_singleton.1 hy
        exact hx
    rw [List.foldl_append, List.foldl_cons, List.foldl_nil]
    cases hx : left env x.1 x.2 with
    | none =>
      rcases hinit with ⟨hnone, hall⟩ | ⟨best, hbest, hv, hmin, y, hy, hattained⟩
      · refine Or.inl ⟨by rw [hnone], fun y hy => ?_⟩
        rcases List.mem_append.1 hy with hy | hy
        · exact hall y hy
        · obtain rfl := List.mem_singleton.1 hy
          exact hx
      · refine Or.inr ⟨best, by rw [hbest], hv, hnearest hmin (by simp [hx]), y,
          List.mem_append_left _ hy, hattained⟩
    | some rest =>
      have hrest := hvalid x hlast rest hx
      rcases hinit with ⟨hnone, hall⟩ | ⟨best, hbest, hv, hmin, y, hy, hattained⟩
      · refine Or.inr ⟨rest, by rw [hnone], hrest, hnearest (fun y hy r hr => ?_) ?_, x, hlast, hx⟩
        · exact absurd (hall y hy) (by simp [hr])
        · intro r hr
          rw [hx] at hr
          exact (congrArg Time.ns (Option.some.inj hr)).le
      · rw [hbest]
        dsimp only
        by_cases hlt : rest.lt best = true
        · have hns := (Time.lt_iff_ns hrest hv).1 hlt
          refine Or.inr ⟨rest, if_pos hlt, hrest, hnearest (fun y hy r hr => ?_) ?_, x, hlast, hx⟩
          · have := hmin y hy r hr
            omega
          · intro r hr
            rw [hx] at hr
            exact (congrArg Time.ns (Option.some.inj hr)).le
        · have hns : ¬ rest.ns < best.ns := fun h => hlt ((Time.lt_iff_ns hrest hv).2 h)
          refine Or.inr ⟨best, if_neg hlt, hv, hnearest hmin fun r hr => ?_, y,
            List.mem_append_left _ hy, hattained⟩
          rw [hx] at hr
          obtain rfl := Option.some.inj hr
          omega

end Emulations

/-- The time of an interval timer's value in nanoseconds. -/
def Itimerval.ns (v : Itimerval) : ℤ := v.tvSec * 1000000000 + v.tvUsec * 1000

/-- What the kernel accepts of `setitimer`. -/
structure Itimerval.Accepted (v : Itimerval) : Prop where
  sec_nonneg : 0 ≤ v.tvSec
  usec_nonneg : 0 ≤ v.tvUsec
  usec_lt : v.tvUsec < 1000000

instance (v : Itimerval) : Decidable v.Accepted :=
  decidable_of_iff (0 ≤ v.tvSec ∧ 0 ≤ v.tvUsec ∧ v.tvUsec < 1000000)
    ⟨fun h => ⟨h.1, h.2.1, h.2.2⟩, fun h => ⟨h.1, h.2, h.3⟩⟩

/-- The value for a valid time is accepted and on, and at most a microsecond over it. -/
theorem itimerval_spec {rest : Time} (h : rest.Valid) :
    (Emulations.itimerval (some rest)).Accepted ∧ Emulations.itimerval (some rest) ≠ ⟨0, 0⟩ ∧
      (Emulations.itimerval (some rest)).ns ≤ rest.ns + 1000 := by
  obtain ⟨hs, hs', hn, hn'⟩ := h
  have hdiv : rest.nsec.tdiv 1000 = rest.nsec / 1000 := Int.tdiv_eq_ediv_of_nonneg hn
  unfold Emulations.itimerval
  dsimp only
  rw [hdiv]
  by_cases hzero : rest.sec = 0 ∧ rest.nsec / 1000 = 0
  · rw [if_pos hzero, hzero.1]
    refine ⟨⟨le_rfl, by decide, by decide⟩, by decide, ?_⟩
    unfold Itimerval.ns Time.ns
    dsimp only
    omega
  · rw [if_neg hzero]
    refine ⟨⟨hs, ?_, ?_⟩, fun heq => hzero ?_, ?_⟩
    · dsimp only
      omega
    · dsimp only
      omega
    · exact ⟨congrArg Itimerval.tvSec heq, congrArg Itimerval.tvUsec heq⟩
    · unfold Itimerval.ns Time.ns
      dsimp only
      omega

namespace Emulations

/-- What `arm` asks of `setitimer` serves every deadline on a readable clock. -/
structure Accurate (env : Env) (s : Emulations) : Prop where
  accepted : (s.arm env).itimer.Accepted
  on_iff : (s.arm env).itimer ≠ ⟨0, 0⟩ ↔ ∃ fd timer d now, s.timers.lookup fd = some timer ∧
    timer.deadline = some d ∧ env.armClock fd timer.clockid = some now
  in_time : ∀ fd timer d now, s.timers.lookup fd = some timer → timer.deadline = some d →
    env.armClock fd timer.clockid = some now →
    (s.arm env).itimer.ns ≤ max 0 (d.ns - now.ns) + 1000

/-- **`arm` serves valid deadlines.** -/
theorem accurate_of_ready {env : Env} (henv : env.ClockOk) {self : Emulations} (h : self.Ready) :
    self.Accurate env := by
  have hlookup : ∀ x ∈ self.timers.entries, self.timers.lookup x.1 = some x.2 := fun x hx =>
    AList.mem_lookup_iff.2 hx
  have hready : ∀ x ∈ self.timers.entries, x.2.Ready := fun x hx => h x.1 x.2 (hlookup x hx)
  have hvalid : ∀ x ∈ self.timers.entries, ∀ rest, left env x.1 x.2 = some rest → rest.Valid := by
    intro x hx rest hleft
    obtain ⟨d, now, -, -, hrest, -⟩ := left_valid henv (hready x hx) hleft
    exact hrest
  have harm : (self.arm env).itimer = itimerval (soonest env self.timers.entries) := rfl
  rcases soonest_spec self.timers.entries hvalid with ⟨hnone, hall⟩ | ⟨best, hbest, hv, hmin, x, hx,
    hattained⟩
  · rw [hnone] at harm
    have hidle : ∀ fd timer d now, self.timers.lookup fd = some timer →
        timer.deadline = some d → env.armClock fd timer.clockid = some now → False := by
      intro fd timer d now hfd hd hnow
      have hleft := hall ⟨fd, timer⟩ (AList.mem_lookup_iff.1 hfd)
      rw [left_of_deadline hd hnow] at hleft
      exact absurd hleft (by simp)
    refine ⟨harm ▸ by decide, ⟨fun hne => absurd harm hne, ?_⟩, ?_⟩
    · rintro ⟨fd, timer, d, now, hfd, hd, hnow⟩
      exact (hidle fd timer d now hfd hd hnow).elim
    · intro fd timer d now hfd hd hnow
      exact (hidle fd timer d now hfd hd hnow).elim
  · rw [hbest] at harm
    obtain ⟨haccepted, hon, hns⟩ := itimerval_spec hv
    refine ⟨harm ▸ haccepted, ⟨fun _ => ?_, fun _ => harm ▸ hon⟩, ?_⟩
    · obtain ⟨d, now, hd, hnow, -, -⟩ := left_valid henv (hready x hx) hattained
      exact ⟨x.1, x.2, d, now, hlookup x hx, hd, hnow⟩
    · intro fd timer d now hfd hd hnow
      have hmem : ⟨fd, timer⟩ ∈ self.timers.entries := AList.mem_lookup_iff.1 hfd
      have hleft := left_of_deadline hd hnow
      obtain ⟨d', now', hd', hnow', -, hrest⟩ := left_valid henv (hready _ hmem) hleft
      obtain rfl : d = d' := Option.some.inj (hd.symm.trans hd')
      obtain rfl : now = now' := Option.some.inj (hnow.symm.trans hnow')
      have hle : best.ns ≤ (Time.sub d now).ns := hmin _ hmem _ hleft
      rw [harm]
      omega

/-- A new timer is not set. -/
theorem adoption_timer {env : Env} {pid : Pid} {t : Tracee} {a : Option Active} {x : Adopted}
    (h : adoption env pid t a = some x) : x.timer = ⟨x.timer.clockid, none, Time.zero⟩ := by
  unfold adoption at h
  split at h
  · split_ifs at h
    split at h
    · unfold capture at h
      obtain ⟨raw, -, h⟩ := Option.bind_eq_some_iff.1 h
      obtain ⟨handle, -, rfl⟩ := Option.map_eq_some_iff.1 h
      rfl
    · exact absurd h (by simp)
  · exact absurd h (by simp)

/-! ### What `tick` computes -/

/-- The count of a due timer, as a number of periods. -/
theorem countAt_eq_periods {deadline interval now : Time} (hpos : 0 < interval.ns)
    (h : deadline.ns ≤ now.ns) :
    (countAt deadline interval now : ℤ) = periods deadline interval now := by
  have hn := instants_of_le hpos h
  rw [countAt, periods, maxCount]
  omega

/-- The deadline a due timer is moved to is valid. -/
theorem expired_valid {env : Env} (henv : env.ClockOk) {fd : ℤ} {timer : Timer}
    (h : timer.Ready)
    (hrange : ∀ deadline now, timer.deadline = some deadline →
      env.tickClock fd timer.clockid = some now → now.lt deadline = false →
      timer.interval ≠ Time.zero →
      deadline.ns + timer.interval.ns * periods deadline timer.interval now < Time.limit)
    {due : Due} (hdue : expired env fd timer = some due) :
    timer.interval.Valid ∧ ∀ d, due.next = some d → d.Valid := by
  constructor
  · rw [expired] at hdue
    split at hdue
    · rename_i deadline now hd hnow
      exact (h deadline hd).2
    · exact absurd hdue (by simp)
  · refine expired_next_valid (fun d hd => (h d hd).1) (fun d hd => (h d hd).2)
      (henv.tickClock fd _) (fun d now hd hnow hne hle => ?_) hdue
    have hlt : now.lt d = false := by
      rw [← Bool.not_eq_true]
      exact fun hlt => absurd
        ((Time.lt_iff_ns (henv.tickClock fd _ now hnow) (h d hd).1).1 hlt) (not_lt.2 hle)
    rw [countAt_eq_periods (ns_pos (h d hd).2 hne) hle]
    exact hrange d now hd hnow hlt hne

/-- Serving a timer moves its deadline where `tick` wants it, or leaves it. -/
theorem serve_lookup {env : Env} {self : Emulations} {due : Due} {timer : Timer}
    (h : (self.serve env due).timers.lookup due.fd = some timer) :
    ∃ old, self.timers.lookup due.fd = some old ∧ timer.interval = old.interval ∧
      (timer.deadline = old.deadline ∨ timer.deadline = due.next) := by
  have hset : ∀ {deadline : Option Time},
      (self.setDeadline due.fd deadline).timers.lookup due.fd = some timer →
        ∃ old, self.timers.lookup due.fd = some old ∧ timer.interval = old.interval ∧
          timer.deadline = deadline := by
    intro deadline hlookup
    unfold setDeadline at hlookup
    split at hlookup
    · rename_i hnone
      rw [hnone] at hlookup
      exact absurd hlookup (by simp)
    · rename_i old hold
      rw [AList.lookup_insert] at hlookup
      obtain rfl := Option.some.inj hlookup
      exact ⟨old, hold, rfl, rfl⟩
  unfold serve at h
  split at h
  · rw [AList.lookup_erase] at h
    exact absurd h (by simp)
  · split at h
    · obtain ⟨old, hold, hi, hd⟩ := hset h
      exact ⟨old, hold, hi, Or.inr hd⟩
    · split at h
      · rename_i next hnext
        obtain ⟨old, hold, hi, hd⟩ := hset h
        exact ⟨old, hold, hi, Or.inr (hd.trans hnext.symm)⟩
      · exact ⟨timer, h, rfl, Or.inl rfl⟩
    · have hgone := congrArg Prod.fst (self.closeFd_stored_self due.fd)
      change (self.closeFd due.fd).timers.lookup due.fd = none at hgone
      rw [hgone] at h
      exact absurd h (by simp)

/-! ### Every event keeps the deadlines valid -/

theorem ready_tick {env : Env} (henv : env.ClockOk) {self : Emulations} (h : self.Ready)
    (alarm : Bool) (hrange : alarm = true → self.InRange env) : (self.tick env alarm).Ready := by
  cases alarm with
  | false => exact h
  | true =>
    intro fd timer hlookup
    have hstored := congrArg Prod.fst (tick_stored env self fd)
    change (self.tick env true).timers.lookup fd = _ at hstored
    rw [hlookup] at hstored
    cases hdue : (self.timers.lookup fd).bind (expired env fd) with
    | none =>
      rw [hdue] at hstored
      exact h fd timer hstored.symm
    | some due =>
      rw [hdue] at hstored
      obtain ⟨old, hold, hexp⟩ := Option.bind_eq_some_iff.1 hdue
      obtain rfl := expired_fd hexp
      obtain ⟨hi, hnext⟩ := expired_valid henv (h _ old hold)
        (fun deadline now hd hnow => hrange rfl _ old deadline now hold hd hnow) hexp
      obtain ⟨old', hold', hinterval, hdeadline⟩ := serve_lookup hstored.symm
      obtain rfl : old = old' := Option.some.inj (hold.symm.trans hold')
      intro d hd
      rw [hinterval]
      refine ⟨?_, hi⟩
      rcases hdeadline with hsame | hmoved
      · exact (h _ old hold d (hsame ▸ hd)).1
      · exact hnext d (hmoved ▸ hd)

theorem ready_step {self : Emulations} (h : self.Ready) (env : Env) (pid : Pid) (t : Tracee) :
    (self.step env pid t).1.Ready := by
  intro fd timer hlookup
  have hstored := congrArg Prod.fst (step_stored env self pid t fd)
  change (self.step env pid t).1.timers.lookup fd = _ at hstored
  rw [hlookup] at hstored
  unfold storedWith at hstored
  split at hstored
  · exact h fd timer hstored.symm
  · rename_i a ha
    split_ifs at hstored
    · -- A timer that has just been adopted is not armed.
      obtain rfl := Option.some.inj hstored
      intro d hd
      rw [adoption_timer ha] at hd
      exact absurd hd (by simp)
    · exact h fd timer hstored.symm

/-- The deadline of a sensible setting is valid, and so are its periods; where the
setting is relative, the deadline is not before the moment it was made. -/
theorem deadlineFor_valid {env : Env} (henv : env.ClockOk) {s : Setting} (h : s.Sensible env)
    {d : Time} (hd : deadlineFor env s.timer.clockid s.flags s.value = some (some d)) :
    d.Valid ∧ s.interval.Valid ∧ (s.flags &&& TFD_TIMER_ABSTIME = 0 →
      ∃ now, env.clock 1 s.timer.clockid = some now ∧ d.ns = now.ns + s.value.ns) := by
  unfold deadlineFor at hd
  split_ifs at hd with hzero habs
  · exact absurd hd (by simp)
  · obtain rfl := Option.some.inj (Option.some.inj hd)
    exact ⟨h.value hzero, h.interval hzero, fun hrel => absurd hrel habs⟩
  · obtain ⟨now, hnow, heq⟩ := Option.map_eq_some_iff.1 hd
    obtain rfl := Option.some.inj heq
    have hrel : s.flags &&& TFD_TIMER_ABSTIME = 0 := not_not.1 habs
    obtain ⟨hvalid, hns⟩ := Time.add_spec (henv.clock 1 _ now hnow) (h.value hzero)
      (h.in_range hzero hrel now hnow)
    exact ⟨hvalid, h.interval hzero, fun _ => ⟨now, hnow, hns⟩⟩

theorem ready_begin {env : Env} (henv : env.ClockOk) {self : Emulations} (h : self.Ready)
    (pid : Pid) (t : Tracee) (entering : Bool)
    (hset : ∀ s, self.setting t entering = some s → s.Sensible env) :
    (self.begin env pid t entering).1.Ready := by
  have htables := begin_tables env self pid t entering
  generalize self.begin env pid t entering = r at htables
  cases htables with
  | same hsame =>
    have htimers : r.1.timers = self.timers := congrArg Prod.fst hsame
    intro fd timer hlookup
    exact h fd timer (htimers ▸ hlookup)
  | @close regs he hregs hcs hcall =>
    intro fd timer hlookup
    change AList.lookup fd (self.timers.erase regs.rdi.toInt) = some timer at hlookup
    by_cases hfd : fd = regs.rdi.toInt
    · rw [hfd, AList.lookup_erase] at hlookup
      exact absurd hlookup (by simp)
    · rw [AList.lookup_erase_ne hfd] at hlookup
      exact h fd timer hlookup
  | @set s deadline r hs hd hsettled =>
    have htimers : r.1.timers = self.withSetting s deadline := congrArg Prod.fst hsettled
    intro fd timer hlookup
    rw [htimers] at hlookup
    unfold withSetting at hlookup
    by_cases hfd : fd = s.fd
    · rw [hfd, AList.lookup_insert] at hlookup
      obtain rfl := Option.some.inj hlookup
      intro d hsome
      change deadline = some d at hsome
      obtain ⟨hvalid, hi, -⟩ := deadlineFor_valid henv (hset s hs) (hsome ▸ hd)
      exact ⟨hvalid, hi⟩
    · rw [AList.lookup_insert_ne hfd] at hlookup
      exact h fd timer hlookup

/-! ### Whole runs -/

/-- A `timerfd_settime` that is carried out stores the deadline it works out. -/
theorem begin_setting {env : Env} {self : Emulations} {pid : Pid} {t : Tracee} {entering : Bool}
    {s : Setting} (hs : self.setting t entering = some s)
    (htaken : (self.begin env pid t entering).2.2 = true) :
    ∃ deadline, deadlineFor env s.timer.clockid s.flags s.value = some deadline ∧
      (self.begin env pid t entering).1.timers = self.withSetting s deadline := by
  unfold setting at hs
  split at hs
  · rename_i regs hregs
    split_ifs at hs with hcall
    obtain ⟨hcs, hnr⟩ := hcall
    split at hs
    · rename_i timer requested hlookup hread
      obtain rfl := Option.some.inj hs
      have hbegin : self.begin env pid t true = self.timerfdSettime env pid t regs := by
        unfold begin
        rw [if_neg (by decide), hregs]
        dsimp only
        rw [if_neg (not_not.2 hcs), hnr, if_neg (by decide), if_neg (by decide),
          if_neg (by decide), if_neg (by decide), if_pos rfl]
      rw [hbegin] at htaken ⊢
      unfold timerfdSettime at htaken ⊢
      dsimp only at htaken ⊢
      rw [hlookup] at htaken ⊢
      dsimp only at htaken ⊢
      rw [hread] at htaken ⊢
      dsimp only at htaken ⊢
      split at htaken
      · exact absurd htaken (by simp)
      · split at htaken
        · exact absurd htaken (by simp)
        · rename_i deadline hdeadline
          rw [hdeadline]
          exact ⟨deadline, rfl, congrArg Prod.fst (standIn_tables ..)⟩
    · exact absurd hs (by simp)
  · exact absurd hs (by simp)

/-- The clocks of an event's turn read valid times. -/
def ClocksOk : Event → Prop
  | .begin env _ _ _ => env.ClockOk
  | .tick env _ => env.ClockOk
  | _ => True

/-- The values an application passes are sensible, and no deadline runs out of range. -/
def Sensible (self : Emulations) : Event → Prop
  | .begin env _ t entering => ∀ s, self.setting t entering = some s → s.Sensible env
  | .tick env alarm => alarm = true → self.InRange env
  | _ => True

/-- A relative setting with a valid value gives no deadline before the moment it is
made. -/
def NotEarly (self : Emulations) : Event → Prop
  | .begin env pid t entering => ∀ s d, self.setting t entering = some s →
      s.flags &&& TFD_TIMER_ABSTIME = 0 → s.value.Valid →
      (self.begin env pid t entering).2.2 = true →
      ((self.begin env pid t entering).1.timers.lookup s.fd).bind Timer.deadline = some d →
      ∃ now, env.clock 1 s.timer.clockid = some now ∧ now.ns ≤ d.ns
  | _ => True

theorem notEarly_of_sensible {self : Emulations} {e : Event} (hclocks : ClocksOk e)
    (h : self.Sensible e) : self.NotEarly e := by
  cases e with
  | begin env pid t entering =>
    intro s d hs hrel hvalue htaken hd
    obtain ⟨deadline, hdeadline, htimers⟩ := begin_setting hs htaken
    rw [htimers] at hd
    unfold withSetting at hd
    rw [AList.lookup_insert, Option.bind_some] at hd
    change deadline = some d at hd
    obtain ⟨-, -, hafter⟩ := deadlineFor_valid hclocks (h s hs) (hd ▸ hdeadline)
    obtain ⟨now, hnow, hns⟩ := hafter hrel
    have hpos := hvalue.ns_nonneg
    exact ⟨now, hnow, by omega⟩
  | step env pid t => trivial
  | tick env alarm => trivial
  | forget pid => trivial

theorem ready_next {self : Emulations} {e : Event} (hready : self.Ready) (hclocks : ClocksOk e)
    (h : self.Sensible e) : (self.next e).Ready := by
  cases e with
  | begin env pid t entering => exact ready_begin hclocks hready pid t entering h
  | step env pid t => exact ready_step hready env pid t
  | tick env alarm => exact ready_tick hclocks hready alarm h
  | forget pid => exact hready

/-- **Valid settings are served**: in every run in which the values applications pass
are valid times and no deadline runs out of range, what `arm` asks of `setitimer` is
accepted, on exactly when a deadline is to be served, and in time, and no relative
setting gives a deadline before the moment it is made. -/
theorem deadlines_accurate (es : List Event)
    (h : Along next (fun s e => ClocksOk e ∧ s.Sensible e) new es) :
    Along next NotEarly new es ∧
      ∀ env : Env, env.ClockOk → (es.foldl next new).Accurate env := by
  have hnew : new.Ready := by
    intro fd timer hlookup
    change AList.lookup fd (∅ : AList fun _ : ℤ => Timer) = some timer at hlookup
    rw [AList.lookup_empty] at hlookup
    exact absurd hlookup (by simp)
  have hready : (es.foldl next new).Ready :=
    foldl_invariant (fun s e hs hok => ready_next hs hok.1 hok.2) hnew h
  exact ⟨h.mono fun s e hok => notEarly_of_sensible hok.1 hok.2,
    fun env henv => accurate_of_ready henv hready⟩

/-- A `timerfd_settime` of descriptor 5, which tracee 1 has made on the monotonic
clock, when that clock reads one second. -/
def settingRun (flags : U64) (value : Time) : List Event :=
  let env := Env.still Host.centos5
  let created := fun a : U64 => some (if a = 0x7e00 then 5 else if a = 0x7e04 then 6 else 0 : Byte)
  let passed := fun a : U64 =>
    some (((itimerspecBytes Time.zero value)[(a - 0x9000).toNat]?).getD 0)
  [.begin env 1 (.entryOf Nr.timerfdCreate 1 0 0 0) true,
    .step env 1 { Tracee.exitOf 0 with mem := created },
    .begin env 1 { Tracee.entryOf Nr.timerfdSettime 5 flags 0x9000 0 with mem := passed } true]

theorem still_clockOk (host : Host) : (Env.still host).ClockOk := by
  have hvalid : (⟨1, 0⟩ : Time).Valid := by decide
  refine ⟨fun k id t ht => ?_, fun fd id t ht => ?_, fun fd id t ht => ?_⟩ <;>
    obtain rfl := Option.some.inj ht <;> exact hvalid

/-- A relative setting of five seconds. -/
theorem deadlines_accurate_five :
    Along next NotEarly new (settingRun 0 ⟨5, 0⟩) ∧ ∀ env : Env, env.ClockOk →
      ((settingRun 0 ⟨5, 0⟩).foldl next new).Accurate env := by
  refine deadlines_accurate _ ⟨⟨still_clockOk _, fun s hs => ?_⟩, ⟨trivial, trivial⟩,
    ⟨still_clockOk _, fun s hs => ?_⟩, trivial⟩
  · have hnone : new.setting (.entryOf Nr.timerfdCreate 1 0 0 0) true = none := by decide
    exact absurd (hnone.symm.trans hs) (by simp)
  · have hsome : s = ⟨5, ⟨1, none, Time.zero⟩, Time.zero, ⟨5, 0⟩, 0⟩ :=
      (Option.some.inj (.trans (by decide) hs)).symm
    subst hsome
    refine ⟨fun _ => by decide, fun _ => by decide, fun _ _ now hnow => ?_⟩
    obtain rfl : (⟨1, 0⟩ : Time) = now := Option.some.inj hnow
    decide

/-- **One invalid value is enough**: five seconds' worth of nanoseconds over the clock
make a value `setitimer` refuses, and the largest relative value a deadline before the
epoch. -/
theorem value_refused :
    ¬ ((settingRun 1 ⟨1, 5000000000⟩).foldl next new).Accurate (.still Host.centos5) ∧
      ((settingRun 0 ⟨9223372036854775807, 0⟩).foldl next new).timers.lookup 5 =
        some ⟨1, some ⟨-9223372036854775808, 0⟩, Time.zero⟩ := by
  refine ⟨fun h => ?_, by decide +kernel⟩
  have haccepted := h.accepted
  exact absurd haccepted (by decide)

end Emulations
end Emulation
end Sharun
