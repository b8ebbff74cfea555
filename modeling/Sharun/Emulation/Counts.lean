/-
# The expirations a timer reports

What a tick writes into the pipe of a descriptor (`handed`), and what it leaves of the
timer (`Counted`), in terms of the instants of the timer's schedule.  A count that is
written is taken off the schedule, since the deadline moves on by as many intervals, so
over a run in which every write succeeds the counts add up to all the instants that
have come (`expirations_counted`).

The additions are those of `i64` seconds.  An interval that takes the deadline past
their range wraps it to before the epoch, and the loop goes on counting from there
(`wrapped_deadline_counted`).
-/

import Sharun.Emulation.Expirations
import Sharun.Emulation.Isolation

namespace Sharun
namespace Emulation

open Machine Sharun.Basis

namespace Emulations

/-! ### A timer and its write end -/

/-- Every timer has the write end of its pipe. -/
def Paired (self : Emulations) : Prop :=
  ∀ fd timer, self.timers.lookup fd = some timer → ∃ handle, self.writeEnds.lookup fd = some handle

/-- What is stored under a number is a timer with its write end, or no timer. -/
theorem paired_iff {self : Emulations} : self.Paired ↔
    ∀ fd, (self.stored fd).1 = none ∨
      ∃ timer handle, self.stored fd = (some timer, some handle) := by
  constructor
  · intro h fd
    cases ht : self.timers.lookup fd with
    | none => exact .inl ht
    | some timer =>
      obtain ⟨handle, hw⟩ := h fd timer ht
      exact .inr ⟨timer, handle, Prod.ext ht hw⟩
  · intro h fd timer ht
    rcases h fd with hnone | ⟨timer', handle, hboth⟩
    · exact absurd (hnone.symm.trans ht) (by simp)
    · exact ⟨handle, congrArg Prod.snd hboth⟩

section

variable {self : Emulations} {fd : ℤ} {timer : Timer} {handle : Handle}

/-- A deadline is set for the timer that is stored. -/
theorem setDeadline_stored (h : self.stored fd = (some timer, some handle))
    (deadline : Option Time) :
    (self.setDeadline fd deadline).stored fd = (some { timer with deadline }, some handle) := by
  have ht : self.timers.lookup fd = some timer := congrArg Prod.fst h
  have hw : self.writeEnds.lookup fd = some handle := congrArg Prod.snd h
  rw [setDeadline, ht]
  exact Prod.ext (AList.lookup_insert ..) hw

/-- What serving a due timer leaves of it. -/
theorem serve_stored {env : Env} {due : Due} (h : self.stored due.fd = (some timer, some handle)) :
    (self.serve env due).stored due.fd =
      match env.pipeWrite handle with
      | .full => (some { timer with deadline := due.next }, some handle)
      | .again =>
        (some { timer with deadline := due.next.elim timer.deadline some }, some handle)
      | .gone => (none, none) := by
  have hw : self.writeEnds.lookup due.fd = some handle := congrArg Prod.snd h
  rw [serve, hw]
  dsimp only
  cases env.pipeWrite handle with
  | full => exact setDeadline_stored h _
  | again =>
    cases due.next with
    | none => exact h
    | some next => exact setDeadline_stored h _
  | gone => exact self.closeFd_stored_self due.fd

/-- What a tick leaves of a timer. -/
theorem tick_stored_due {env : Env} (h : self.stored fd = (some timer, some handle)) {due : Due}
    (hdue : expired env fd timer = some due) :
    (self.tick env true).stored fd =
      match env.pipeWrite handle with
      | .full => (some { timer with deadline := due.next }, some handle)
      | .again =>
        (some { timer with deadline := due.next.elim timer.deadline some }, some handle)
      | .gone => (none, none) := by
  have ht : self.timers.lookup fd = some timer := congrArg Prod.fst h
  obtain rfl := expired_fd hdue
  rw [tick_stored, ht, Option.bind_some, hdue]
  exact serve_stored h

theorem tick_stored_idle {env : Env} (h : self.stored fd = (some timer, some handle))
    (hidle : expired env fd timer = none) : (self.tick env true).stored fd = self.stored fd := by
  have ht : self.timers.lookup fd = some timer := congrArg Prod.fst h
  rw [tick_stored, ht, Option.bind_some, hidle]
  rfl

end

theorem paired_new : new.Paired := by
  intro fd timer h
  exact absurd h (by simp [new])

/-- A timer is stored and dropped together with its write end. -/
theorem Paired.next {self : Emulations} (h : self.Paired) (e : Event) : (self.next e).Paired := by
  rw [paired_iff] at h ⊢
  intro fd
  cases e with
  | begin env pid t entering =>
    have htables := begin_tables env self pid t entering
    rw [Emulations.next]
    generalize self.begin env pid t entering = r at htables
    cases htables with
    | same hsame =>
      rw [stored_of_tables hsame]
      exact h fd
    | @close regs he hregs hcs hcall =>
      by_cases hfd : fd = regs.rdi.toInt
      · rw [hfd, closeFd_stored_self]
        exact .inl rfl
      · rw [closeFd_stored_of_ne self hfd]
        exact h fd
    | @set s deadline r hs hd hset =>
      have ht : r.1.timers = self.withSetting s deadline := congrArg Prod.fst hset
      have hw : r.1.writeEnds = self.writeEnds := congrArg (fun x => x.2.1) hset
      rw [stored, ht, hw, withSetting]
      by_cases hfd : fd = s.fd
      · rcases h s.fd with hnone | ⟨timer, handle, hboth⟩
        · exact absurd (hnone.symm.trans (setting_named hs).2) (by simp)
        · have hhandle : self.writeEnds.lookup s.fd = some handle := congrArg Prod.snd hboth
          rw [hfd, AList.lookup_insert, hhandle]
          exact .inr ⟨_, handle, rfl⟩
      · rw [AList.lookup_insert_ne hfd]
        exact h fd
  | step env pid t =>
    rw [Emulations.next, step_stored]
    cases adoption env pid t (self.active pid) with
    | none => exact h fd
    | some a =>
      rw [storedWith]
      split_ifs
      · exact .inr ⟨a.timer, a.handle, rfl⟩
      · exact h fd
  | tick env alarm =>
    cases alarm with
    | false => exact h fd
    | true =>
      rw [Emulations.next]
      rcases h fd with hnone | ⟨timer, handle, hboth⟩
      · have ht : self.timers.lookup fd = none := hnone
        rw [tick_stored, ht]
        exact .inl hnone
      · cases hdue : expired env fd timer with
        | none =>
          rw [tick_stored_idle hboth hdue]
          exact .inr ⟨timer, handle, hboth⟩
        | some due =>
          rw [tick_stored_due hboth hdue]
          cases env.pipeWrite handle with
          | full => exact .inr ⟨_, handle, rfl⟩
          | again => exact .inr ⟨_, handle, rfl⟩
          | gone => exact .inl rfl
  | forget pid => exact h fd

/-! ### What a tick reports -/

/-- The count a tick hands to the pipe of a descriptor. -/
def handed (env : Env) (self : Emulations) (fd : ℤ) : Option ℕ :=
  ((self.timers.lookup fd).bind (expired env fd)).bind fun due =>
    (self.writeEnds.lookup fd).map fun _ => due.count

/-- The count that arrives in it. -/
def written (fd : ℤ) (self : Emulations) : Event → ℕ
  | .tick env true =>
    match self.handed env fd, self.writeEnds.lookup fd with
    | some count, some handle => if env.pipeWrite handle = .full then count else 0
    | _, _ => 0
  | _ => 0

/-- The reading a tick takes for the timer of a descriptor. -/
def reading (fd clockid : ℤ) : Event → Option Time
  | .tick env true => env.tickClock fd clockid
  | _ => none

/-- A tick is right about a timer with deadline `d` when its clock reads `now`. -/
structure Counted (env : Env) (e : Emulations) (fd : ℤ) (timer : Timer) (handle : Handle)
    (d now : Time) : Prop where
  early : now.ns < d.ns →
    e.handed env fd = none ∧ (e.tick env true).stored fd = e.stored fd
  /-- The whole periods since the deadline and one are reported, and the deadline moves on
  by as many intervals, past the reading unless the count was capped. -/
  periodic : d.ns ≤ now.ns → timer.interval ≠ Time.zero → ∃ (n : ℕ) (next : Time),
    e.handed env fd = some n ∧
    (n : ℤ) = min 4294967295 ((now.ns - d.ns) / timer.interval.ns + 1) ∧
    next.Valid ∧ next.ns = d.ns + timer.interval.ns * n ∧
    ((now.ns - d.ns) / timer.interval.ns + 1 ≤ 4294967295 → now.ns < next.ns) ∧
    (env.pipeWrite handle = .full →
      (e.tick env true).stored fd = (some { timer with deadline := some next }, some handle))
  /-- The one expiration of a one-shot timer is kept until it is written. -/
  once : d.ns ≤ now.ns → timer.interval = Time.zero →
    e.handed env fd = some 1 ∧
    (env.pipeWrite handle = .full →
      (e.tick env true).stored fd = (some { timer with deadline := none }, some handle)) ∧
    (env.pipeWrite handle = .again → (e.tick env true).stored fd = e.stored fd) ∧
    ∀ timer', (e.tick env true).timers.lookup fd = some timer' → timer'.deadline = none →
      env.pipeWrite handle = .full

/-- A tick that serves a descriptor is right about its timer. -/
def TicksRight (fd : ℤ) (self : Emulations) (e : Event) : Prop :=
  ∀ env timer handle d now, e = .tick env true → self.stored fd = (some timer, some handle) →
    timer.deadline = some d → env.tickClock fd timer.clockid = some now →
    Counted env self fd timer handle d now

/-- The deadline a tick moves a timer to is an `i64` of seconds. -/
def StaysInRange (fd : ℤ) (self : Emulations) (e : Event) : Prop :=
  ∀ timer d now, self.timers.lookup fd = some timer → timer.deadline = some d →
    reading fd timer.clockid e = some now → timer.interval ≠ Time.zero → d.ns ≤ now.ns →
    d.ns + timer.interval.ns * countAt d timer.interval now < Time.limit

/-- The write of a count succeeds. -/
def Delivered (fd : ℤ) (self : Emulations) (e : Event) : Prop :=
  ∀ env handle, e = .tick env true → self.writeEnds.lookup fd = some handle →
    env.pipeWrite handle = .full

/-- No count is capped. -/
def Uncapped (fd : ℤ) (self : Emulations) (e : Event) : Prop :=
  ∀ timer d now, self.timers.lookup fd = some timer → timer.deadline = some d →
    reading fd timer.clockid e = some now → timer.interval ≠ Time.zero →
    instants d.ns timer.interval.ns now.ns ≤ maxCount

section

variable {env : Env} {self : Emulations} {fd : ℤ} {timer : Timer} {handle : Handle} {d now : Time}

theorem handed_eq (h : self.stored fd = (some timer, some handle)) :
    self.handed env fd = (expired env fd timer).map Due.count := by
  have ht : self.timers.lookup fd = some timer := congrArg Prod.fst h
  have hw : self.writeEnds.lookup fd = some handle := congrArg Prod.snd h
  rw [handed, ht, hw, Option.bind_some]
  cases expired env fd timer with
  | none => rfl
  | some due => rfl

/-- The count in terms of whole periods. -/
theorem countAt_eq (hpos : 0 < timer.interval.ns) (h : d.ns ≤ now.ns) :
    (countAt d timer.interval now : ℤ) =
      min 4294967295 ((now.ns - d.ns) / timer.interval.ns + 1) := by
  have hn := instants_of_le hpos h
  rw [countAt, maxCount]
  omega

/-- **A tick is right about a valid timer** it keeps in range. -/
theorem tick_counted (h : self.stored fd = (some timer, some handle))
    (hd : timer.deadline = some d) (hnow : env.tickClock fd timer.clockid = some now)
    (hdv : d.Valid) (hnv : now.Valid) (hi : timer.interval.Valid)
    (hrange : timer.interval ≠ Time.zero → d.ns ≤ now.ns →
      d.ns + timer.interval.ns * countAt d timer.interval now < Time.limit) :
    Counted env self fd timer handle d now where
  early hlt := by
    have hidle := expired_early hd hnow hdv hnv hlt
    constructor
    · rw [handed_eq h, hidle]
      rfl
    · exact tick_stored_idle h hidle
  periodic hle hne := by
    obtain ⟨next, hdue, hnext, hns⟩ :=
      expired_periodic hd hnow hdv hnv hi hle hne (hrange hne hle)
    have hpos := ns_pos hi hne
    have hcount := countAt_eq hpos hle
    refine ⟨countAt d timer.interval now, next, ?_, hcount, hnext, hns, ?_, ?_⟩
    · rw [handed_eq h, hdue]
      rfl
    · intro huncapped
      have hall : countAt d timer.interval now = instants d.ns timer.interval.ns now.ns := by
        have hn := instants_of_le hpos hle
        rw [countAt, maxCount]
        omega
      rw [hns, hall]
      exact lt_next hpos
    · intro hfull
      rw [tick_stored_due h hdue, hfull]
  once hle hzero := by
    have hdue := expired_once hd hnow hdv hnv hle hzero
    have hafter := tick_stored_due h hdue
    refine ⟨?_, ?_, ?_, ?_⟩
    · rw [handed_eq h, hdue]
      rfl
    · intro hfull
      rw [hafter, hfull]
    · intro hagain
      rw [hafter, hagain, h]
      rfl
    · intro timer' ht hnone
      have hfst : (self.tick env true).timers.lookup fd = _ := congrArg Prod.fst hafter
      rw [ht] at hfst
      cases hw : env.pipeWrite handle with
      | full => rfl
      | again =>
        rw [hw] at hfst
        obtain rfl := Option.some.inj hfst
        rw [show ({ timer with deadline := timer.deadline } : Timer).deadline = timer.deadline
          from rfl, hd] at hnone
        exact absurd hnone (by simp)
      | gone =>
        rw [hw] at hfst
        exact absurd hfst (by simp)

end

/-! ### Whole runs -/

/-- What a run finds under the number of a timer. -/
def Holds (fd : ℤ) (timer : Timer) (self : Emulations) : Prop :=
  (self.timers.lookup fd = none) ∨ ∃ d handle,
    self.stored fd = (some { timer with deadline := d }, some handle) ∧ ∀ t, d = some t → t.Valid

/-- An event that does not name the number and is no tick leaves it alone. -/
theorem next_stored_quiet {self : Emulations} {fd : ℤ} {e : Event}
    (hquiet : self.names e ≠ some fd) (htick : ∀ env, e ≠ .tick env true) :
    (self.next e).stored fd = self.stored fd := by
  cases e with
  | begin env pid t entering => exact self.next_stored_of_ne (by simp [Event.pid]) hquiet
  | step env pid t => exact self.next_stored_of_ne (by simp [Event.pid]) hquiet
  | tick env alarm =>
    cases alarm with
    | false => rfl
    | true => exact absurd rfl (htick env)
  | forget pid => rfl

theorem tick_or_not (e : Event) : (∃ env, e = .tick env true) ∨ ∀ env, e ≠ .tick env true := by
  by_cases h : ∃ env, e = .tick env true
  · exact .inl h
  · exact .inr fun env he => h ⟨env, he⟩

section

variable {self : Emulations} {fd : ℤ} {timer : Timer} {e : Event}

/-- What one tick does to a timer that is kept in range. -/
theorem holds_tick {env : Env} {d : Option Time} {handle : Handle} (hi : timer.interval.Valid)
    (h : self.stored fd = (some { timer with deadline := d }, some handle))
    (hd : ∀ t, d = some t → t.Valid)
    (hnv : ∀ now, env.tickClock fd timer.clockid = some now → now.Valid)
    (hrange : self.StaysInRange fd (.tick env true)) :
    Holds fd timer (self.tick env true) ∧ self.TicksRight fd (.tick env true) := by
  have ht : self.timers.lookup fd = some { timer with deadline := d } := congrArg Prod.fst h
  constructor
  · cases hdue : expired env fd { timer with deadline := d } with
    | none =>
      refine .inr ⟨d, handle, ?_, hd⟩
      rw [tick_stored_idle h hdue, h]
    | some due =>
      have hnext : ∀ t, due.next = some t → t.Valid := by
        refine expired_next_valid ?_ ?_ ?_ ?_ hdue
        · exact hd
        · exact fun _ _ => hi
        · exact hnv
        · exact fun t now hdeadline hnow hne hle => hrange _ t now ht hdeadline hnow hne hle
      have hafter := tick_stored_due h hdue
      cases hw : env.pipeWrite handle with
      | full =>
        rw [hw] at hafter
        exact .inr ⟨due.next, handle, hafter, hnext⟩
      | again =>
        rw [hw] at hafter
        refine .inr ⟨due.next.elim d some, handle, hafter, ?_⟩
        cases hn : due.next with
        | none => exact hd
        | some next =>
          intro t heq
          obtain rfl := Option.some.inj heq
          exact hnext _ hn
      | gone =>
        rw [hw] at hafter
        exact .inl (congrArg Prod.fst hafter)
  · intro env' timer' handle' t now henv hstored hdeadline hnow
    obtain ⟨rfl, -⟩ := Event.tick.inj henv
    rw [h] at hstored
    obtain ⟨heq, hhandle⟩ := Prod.mk.inj hstored
    obtain rfl := Option.some.inj heq
    obtain rfl := Option.some.inj hhandle
    exact tick_counted h hdeadline hnow (hd t hdeadline) (hnv now hnow) hi
      fun hne hle => hrange _ t now ht hdeadline hnow hne hle

/-- **One event** of a run in which nothing else is done to the timer. -/
theorem Holds.next (h : Holds fd timer self) (hi : timer.interval.Valid)
    (hquiet : self.names e ≠ some fd)
    (hnv : ∀ now, reading fd timer.clockid e = some now → now.Valid)
    (hrange : self.StaysInRange fd e) :
    Holds fd timer (self.next e) ∧ self.TicksRight fd e := by
  rcases tick_or_not e with ⟨env, rfl⟩ | hno
  · rcases h with hnone | ⟨d, handle, hstored, hd⟩
    · constructor
      · refine .inl ?_
        have hfst : (self.tick env true).timers.lookup fd = _ :=
          congrArg Prod.fst (self.tick_stored env fd)
        rw [Emulations.next, hfst, hnone]
        exact hnone
      · intro env' timer' handle' t now henv hstored
        exact absurd (hnone.symm.trans (congrArg Prod.fst hstored)) (by simp)
    · exact holds_tick hi hstored hd hnv hrange
  · refine ⟨?_, fun env timer' handle' t now henv => absurd henv (hno env)⟩
    have hsame := next_stored_quiet hquiet hno
    rcases h with hnone | ⟨d, handle, hstored, hd⟩
    · exact .inl ((congrArg Prod.fst hsame).trans hnone)
    · exact .inr ⟨d, handle, hsame.trans hstored, hd⟩

end

/-- Every tick of a run is right about the timer of a descriptor that is left to it. -/
theorem ticksRight_along {fd : ℤ} {timer : Timer} (hi : timer.interval.Valid) {self : Emulations}
    (h : Holds fd timer self) {es : List Event}
    (hnv : ∀ now ∈ es.filterMap (reading fd timer.clockid), now.Valid)
    (hquiet : Along next (fun s e => s.names e ≠ some fd) self es)
    (hrange : Along next (StaysInRange fd) self es) : Along next (TicksRight fd) self es := by
  induction es generalizing self with
  | nil => exact trivial
  | cons e es ih =>
    have hone : ∀ now, reading fd timer.clockid e = some now → now.Valid :=
      fun now hnow => hnv now (List.mem_filterMap.2 ⟨e, List.mem_cons_self .., hnow⟩)
    obtain ⟨hholds, hright⟩ := h.next hi hquiet.1 hone hrange.1
    refine ⟨hright, ih hholds (fun now hnow => ?_) hquiet.2 hrange.2⟩
    obtain ⟨e', he', hread⟩ := List.mem_filterMap.1 hnow
    exact hnv now (List.mem_filterMap.2 ⟨e', List.mem_cons_of_mem _ he', hread⟩)

/-- One tick whose write succeeds: what it writes is what has come of the schedule, and the
schedule goes on after it. -/
theorem written_tick {env : Env} {self : Emulations} {fd : ℤ} {timer : Timer} {handle : Handle}
    {d now : Time} (h : self.stored fd = (some timer, some handle))
    (hd : timer.deadline = some d) (hi : timer.interval.Valid)
    (hne : timer.interval ≠ Time.zero) (hdv : d.Valid)
    (hnow : env.tickClock fd timer.clockid = some now) (hnv : now.Valid)
    (hrange : self.StaysInRange fd (.tick env true)) (hfull : env.pipeWrite handle = .full)
    (huncapped : self.Uncapped fd (.tick env true)) :
    self.written fd (.tick env true) = instants d.ns timer.interval.ns now.ns ∧
      ∃ d' : Time, d'.Valid ∧
        d'.ns = d.ns + timer.interval.ns * instants d.ns timer.interval.ns now.ns ∧
        (self.tick env true).stored fd =
          (some { timer with deadline := some d' }, some handle) := by
  have ht : self.timers.lookup fd = some timer := congrArg Prod.fst h
  have hw : self.writeEnds.lookup fd = some handle := congrArg Prod.snd h
  by_cases hle : d.ns ≤ now.ns
  · have hall : countAt d timer.interval now = instants d.ns timer.interval.ns now.ns :=
      Nat.min_eq_right (huncapped timer d now ht hd hnow hne)
    obtain ⟨d', hdue, hvalid, hns⟩ := expired_periodic hd hnow hdv hnv hi hle hne
      (hrange timer d now ht hd hnow hne hle)
    rw [hall] at hdue hns
    refine ⟨?_, d', hvalid, hns, ?_⟩
    · rw [written, handed_eq h, hdue, hw]
      exact if_pos hfull
    · rw [tick_stored_due h hdue, hfull]
  · have hidle := expired_early hd hnow hdv hnv (not_le.1 hle)
    rw [instants_of_lt (not_le.1 hle)]
    refine ⟨?_, d, hdv, by simp, ?_⟩
    · rw [written, handed_eq h, hidle]
      rfl
    · rw [tick_stored_idle h hidle, h]
      exact Prod.ext (congrArg some (by rw [← hd])) rfl

theorem written_of_not_tick {self : Emulations} {fd : ℤ} {e : Event}
    (hno : ∀ env, e ≠ .tick env true) : self.written fd e = 0 := by
  cases e with
  | tick env alarm =>
    cases alarm with
    | false => rfl
    | true => exact absurd rfl (hno env)
  | _ => rfl

/-- Where nothing is read nothing is written, and the timer stays as it is. -/
theorem written_unread {self : Emulations} {fd : ℤ} {timer : Timer} {handle : Handle} {e : Event}
    (h : self.stored fd = (some timer, some handle)) (hread : reading fd timer.clockid e = none)
    (hquiet : self.names e ≠ some fd) :
    self.written fd e = 0 ∧ (self.next e).stored fd = self.stored fd := by
  rcases tick_or_not e with ⟨env, rfl⟩ | hno
  · have hidle : expired env fd timer = none := by
      rw [reading] at hread
      rw [expired, hread]
      cases timer.deadline with
      | none => rfl
      | some d => rfl
    constructor
    · rw [written, handed_eq h, hidle]
      rfl
    · exact tick_stored_idle h hidle
  · exact ⟨written_of_not_tick hno, next_stored_quiet hquiet hno⟩

/-- **The counts written add up** to the instants that have come. -/
theorem total_written {fd : ℤ} {timer : Timer} (hi : timer.interval.Valid)
    (hne : timer.interval ≠ Time.zero) {handle : Handle} {es : List Event} {self : Emulations}
    {d : Time} (hdv : d.Valid)
    (h : self.stored fd = (some { timer with deadline := some d }, some handle))
    (hnv : ∀ now ∈ es.filterMap (reading fd timer.clockid), now.Valid)
    (hmono : (es.filterMap (reading fd timer.clockid)).Pairwise fun a b => a.ns ≤ b.ns)
    (hquiet : Along next (fun s e => s.names e ≠ some fd) self es)
    (hrange : Along next (StaysInRange fd) self es)
    (hfull : Along next (Delivered fd) self es) (huncapped : Along next (Uncapped fd) self es) :
    total next (written fd) self es =
      ((es.filterMap (reading fd timer.clockid)).getLast?).elim 0 fun now =>
        instants d.ns timer.interval.ns now.ns := by
  have hpos := ns_pos hi hne
  induction es generalizing self d with
  | nil => rfl
  | cons e es ih =>
    cases hread : reading fd timer.clockid e with
    | none =>
      -- Nothing is read, so nothing is written and the timer stays.
      rw [List.filterMap_cons_none hread] at hnv hmono ⊢
      have hkept := written_unread h hread hquiet.1
      rw [total, hkept.1, Nat.zero_add]
      exact ih hdv (hkept.2.trans h) hnv hmono hquiet.2 hrange.2 hfull.2 huncapped.2
    | some now =>
      rw [List.filterMap_cons_some hread] at hnv hmono ⊢
      obtain ⟨env, rfl⟩ : ∃ env, e = .tick env true := by
        rcases tick_or_not e with he | hno
        · exact he
        · cases e with
          | tick env alarm =>
            cases alarm with
            | false => exact absurd hread (by simp [reading])
            | true => exact ⟨env, rfl⟩
          | _ => exact absurd hread (by simp [reading])
      have hhandle : self.writeEnds.lookup fd = some handle := congrArg Prod.snd h
      obtain ⟨hwritten, d', hvalid, hns, hstored⟩ := written_tick h rfl hi hne hdv hread
        (hnv now (List.mem_cons_self ..)) hrange.1 (hfull.1 env handle rfl hhandle) huncapped.1
      have hafter : (self.next (.tick env true)).stored fd =
          (some { timer with deadline := some d' }, some handle) := hstored
      dsimp only at hwritten hns
      rw [List.pairwise_cons] at hmono
      have hrest := ih hvalid hafter (fun t ht => hnv t (List.mem_cons_of_mem _ ht)) hmono.2
        hquiet.2 hrange.2 hfull.2 huncapped.2
      rw [total, hwritten, hrest, List.getLast?_cons]
      cases hlast : (es.filterMap (reading fd timer.clockid)).getLast? with
      | none => rfl
      | some last =>
        -- The instants up to the last reading are those written now and those after them.
        have hle := hmono.1 last (List.mem_of_getLast? hlast)
        dsimp only [Option.elim, Option.getD]
        rw [hns, ← instants_shift hpos (instants_mono hpos hle)]

/-- **The expirations of a timer are counted right**, along every run in which nothing
else is done to its descriptor and its deadlines stay in range: every tick reports the
periods that have come, and where every write succeeds and no count is capped the counts
add up to the instants of the schedule that are not later than the last reading. -/
theorem expirations_counted (es₀ : List Event) {fd : ℤ} {timer : Timer} {d₀ : Time}
    (hlookup : (es₀.foldl next new).timers.lookup fd = some timer)
    (hd : timer.deadline = some d₀) (hdv : d₀.Valid) (hi : timer.interval.Valid)
    {es : List Event} (hnv : ∀ now ∈ es.filterMap (reading fd timer.clockid), now.Valid)
    (hmono : (es.filterMap (reading fd timer.clockid)).Pairwise fun a b => a.ns ≤ b.ns)
    (hquiet : Along next (fun s e => s.names e ≠ some fd) (es₀.foldl next new) es)
    (hrange : Along next (StaysInRange fd) (es₀.foldl next new) es) :
    Along next (TicksRight fd) (es₀.foldl next new) es ∧
      (timer.interval ≠ Time.zero → Along next (Delivered fd) (es₀.foldl next new) es →
        Along next (Uncapped fd) (es₀.foldl next new) es →
        ∀ now, (es.filterMap (reading fd timer.clockid)).getLast? = some now →
          total next (written fd) (es₀.foldl next new) es =
            {k : ℕ | d₀.ns + timer.interval.ns * k ≤ now.ns}.ncard) := by
  have hpaired : (es₀.foldl next new).Paired :=
    foldl_keeps (fun _ e hs => hs.next e) paired_new es₀
  obtain ⟨handle, hhandle⟩ := hpaired fd timer hlookup
  have hstored : (es₀.foldl next new).stored fd =
      (some { timer with deadline := some d₀ }, some handle) := by
    rw [← hd]
    exact Prod.ext hlookup hhandle
  have hvalid : ∀ t, some d₀ = some t → t.Valid := by
    intro t ht
    obtain rfl := Option.some.inj ht
    exact hdv
  constructor
  · exact ticksRight_along hi (.inr ⟨some d₀, handle, hstored, hvalid⟩) hnv hquiet hrange
  · intro hne hfull huncapped now hlast
    have htotal := total_written hi hne hdv hstored hnv hmono hquiet hrange hfull huncapped
    rw [htotal, hlast, ← instants_eq_ncard (ns_pos hi hne)]
    rfl

/-- A timerfd under the number 5 with an absolute value of one second and an interval,
set when the clock reads one second. -/
def intervalRun (interval : Time) : List Event :=
  let env := Env.still Host.centos5
  let created := fun a : U64 => some (if a = 0x7e00 then 5 else if a = 0x7e04 then 6 else 0 : Byte)
  let passed := fun a : U64 =>
    some (((itimerspecBytes interval ⟨1, 0⟩)[(a - 0x9000).toNat]?).getD 0)
  [.begin env 1 (.entryOf Nr.timerfdCreate 1 0 0 0) true,
    .step env 1 { Tracee.exitOf 0 with mem := created },
    .begin env 1 { Tracee.entryOf Nr.timerfdSettime 5 1 0x9000 0 with mem := passed } true]

/-- A tick of the loop while the clock reads one second. -/
def stillTick : Event := .tick (.still Host.centos5) true

/-- An interval of two seconds, of which one instant has come. -/
theorem expirations_counted_two :
    total next (written 5) ((intervalRun ⟨2, 0⟩).foldl next new) [stillTick] =
      {k : ℕ | (1000000000 : ℤ) + 2000000000 * k ≤ 1000000000}.ncard := by
  have hlookup : ((intervalRun ⟨2, 0⟩).foldl next new).timers.lookup 5 =
      some ⟨1, some ⟨1, 0⟩, ⟨2, 0⟩⟩ := by decide +kernel
  have hreading : [stillTick].filterMap (reading 5 1) = [⟨1, 0⟩] := rfl
  have hnow : ∀ now ∈ [stillTick].filterMap (reading 5 1), now.Valid := by
    rw [hreading]
    decide
  -- What the guards speak of is this timer and this reading.
  have hfound : ∀ {timer : Timer} {d now : Time},
      ((intervalRun ⟨2, 0⟩).foldl next new).timers.lookup 5 = some timer →
      timer.deadline = some d → reading 5 timer.clockid stillTick = some now →
      timer.interval = ⟨2, 0⟩ ∧ d = ⟨1, 0⟩ ∧ now = ⟨1, 0⟩ := by
    intro timer d now ht hd hread
    obtain rfl := Option.some.inj (hlookup.symm.trans ht)
    exact ⟨rfl, (Option.some.inj hd).symm, (Option.some.inj hread).symm⟩
  refine (expirations_counted (intervalRun ⟨2, 0⟩) hlookup rfl (by decide) (by decide) hnow
    (List.pairwise_singleton ..) ⟨by simp [names, stillTick], trivial⟩ ⟨?_, trivial⟩).2
    (by decide) ⟨?_, trivial⟩ ⟨?_, trivial⟩ ⟨1, 0⟩ rfl
  · intro timer d now ht hd hread hne hle
    obtain ⟨hinterval, rfl, rfl⟩ := hfound ht hd hread
    rw [hinterval]
    decide
  · intro env handle he hw
    obtain ⟨rfl, -⟩ := Event.tick.inj he
    rfl
  · intro timer d now ht hd hread hne
    obtain ⟨hinterval, rfl, rfl⟩ := hfound ht hd hread
    rw [hinterval]
    decide

/-- **An interval of `i64::MAX` seconds wraps the deadline**, to before the epoch: one
expiration has come and three are reported. -/
theorem wrapped_deadline_counted :
    ((intervalRun ⟨9223372036854775807, 0⟩).foldl next new).timers.lookup 5 =
        some ⟨1, some ⟨1, 0⟩, ⟨9223372036854775807, 0⟩⟩ ∧
      ((intervalRun ⟨9223372036854775807, 0⟩).foldl next new).handed (.still Host.centos5) 5 =
        some 3 ∧
      ¬ TicksRight 5 ((intervalRun ⟨9223372036854775807, 0⟩).foldl next new) stillTick := by
  have hlookup : ((intervalRun ⟨9223372036854775807, 0⟩).foldl next new).stored 5 =
      (some ⟨1, some ⟨1, 0⟩, ⟨9223372036854775807, 0⟩⟩, some 0) := by decide +kernel
  have hhanded : ((intervalRun ⟨9223372036854775807, 0⟩).foldl next new).handed
      (.still Host.centos5) 5 = some 3 := by decide +kernel
  refine ⟨congrArg Prod.fst hlookup, hhanded, fun h => ?_⟩
  obtain ⟨n, next, hn, hcount, -⟩ :=
    (h _ _ _ _ _ rfl hlookup rfl rfl).periodic (by decide) (by decide)
  obtain rfl : 3 = n := Option.some.inj (hhanded.symm.trans hn)
  exact absurd hcount (by decide)

end Emulations
end Emulation
end Sharun
