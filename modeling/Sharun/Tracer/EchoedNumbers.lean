/-
# Numbers that come back as results

A traced call beyond the table of a kernel before 2.6.19 does nothing and leaves its own
number in `rax`.  The exit stop turns that into `-ENOSYS` (`normalizeEcho`): where the
number is above 279, the call was not given another number at its entry stop, its result
was not made up by the tracer, and it equals the number.

What an exit stop hands back but for this is the result of the call itself, or `-EFAULT`
where the structure it filled cannot be converted (`ownResult`, `onSyscallExit_rax`).  A
call above 279 that is rewritten has another number (`onSyscallEntry_number`), and a stop
of an emulation is none of the application's calls (`step_result`).  So every call of a
2.6.18 kernel comes back with the result it should (`results_right_iff`); on 2.6.17, whose
table ends at 278, all but call 279 do (`echo_in_2_6_17`).
-/

import Sharun.Tracer.Getrandom
import Sharun.Tracer.LowHalves

namespace Sharun
namespace Tracing

open Machine Emulation Sharun.Basis

/-! ### The exit stop but for the rule -/

/-- What the kernel has filled at an exit stop cannot be read, or what is made of it cannot
be written. -/
def unconvertible (p : Pending) (m : Memory) : Bool :=
  p.termios2Get.any (fun a => (m.readStruct (a + BitVec.ofNat 64 TERMIOS2_ISPEED) 8).isNone) ||
    p.statx.any fun st =>
      (m.readStruct st.scratch 144).isNone || (m.readStruct st.statxbuf 256).isNone

/-- The result of a call, but for numbers that come back. -/
def ownResult (p : Pending) (t : Tracee) : U64 :=
  if t.regs.rax = 0 ∧ unconvertible p t.mem = true then asU64 (-Errno.EFAULT) else t.regs.rax

namespace ExitStop

/-- The registers that were not set are those of the tracee. -/
def Clean (x : ExitStop) : Prop := x.dirty = true ∨ x.tracee.regs = x.regs

theorem commit_regs {x : ExitStop} (h : x.Clean) (hset : x.tracee.canSet = true) :
    x.commit.regs = x.regs := by
  rw [commit]
  split_ifs with hdirty
  · rw [Tracee.putregs_of_canSet hset]
  · exact h.resolve_left hdirty

/-- A part of an exit stop that replaces the result by `rax`. -/
structure Gives (x y : ExitStop) (rax : U64) : Prop where
  regs : y.regs = { x.regs with rax }
  tracee : x.tracee.SameRegs y.tracee
  mapped : y.tracee.mem.mapped = x.tracee.mem.mapped
  clean : x.Clean → y.Clean

theorem Gives.same (x : ExitStop) : x.Gives x x.regs.rax := ⟨rfl, .refl _, rfl, id⟩

/-- A structure is written, and the call fails where that cannot be done. -/
theorem Gives.written {x : ExitStop} {t : Tracee} {addr : U64} {bytes : List Byte} {ok : Bool}
    (h : x.tracee.writeStruct addr bytes = (t, ok)) :
    x.Gives { x with tracee := t } x.regs.rax ∧
      x.Gives ({ x with tracee := t }.fail Errno.EFAULT) (asU64 (-Errno.EFAULT)) ∧
      (x.tracee.mem.readStruct addr bytes.length).isNone = !ok := by
  have hsame : x.tracee.SameRegs t := .of_writeStruct h
  have hmapped : t.mem.mapped = x.tracee.mem.mapped := by
    rw [← congrArg (fun r => r.1.mem) h]
    exact Memory.writeWords_mapped ..
  have hok : (x.tracee.mem.readStruct addr bytes.length).isSome = ok :=
    Tracee.writeStruct_ok.symm.trans (congrArg Prod.snd h)
  refine ⟨⟨rfl, hsame, hmapped, fun hclean => ?_⟩, ⟨rfl, hsame, hmapped, fun _ => Or.inl rfl⟩, ?_⟩
  · exact hclean.imp id fun hregs => hsame.regs.trans hregs
  · rw [← hok, Option.not_isSome]

theorem finishTermios2_gives (x : ExitStop) (p : Option U64) :
    x.Gives (x.finishTermios2 p)
      (if x.regs.rax = 0 ∧ p.any (fun a => (x.tracee.mem.readStruct
          (a + BitVec.ofNat 64 TERMIOS2_ISPEED) 8).isNone) = true then asU64 (-Errno.EFAULT)
        else x.regs.rax) := by
  cases p with
  | none =>
    rw [if_neg fun h => absurd h.2 (by simp)]
    exact .same x
  | some a =>
    rw [finishTermios2, Option.any_some]
    by_cases hrax : x.regs.rax = 0
    · rw [if_neg (not_not.2 hrax)]
      dsimp only
      split
      · rename_i t hwrite
        obtain ⟨hdone, -, hok⟩ := Gives.written hwrite
        rw [List.length_append, leBytes_length] at hok
        rw [if_neg fun h => absurd (hok.symm.trans h.2) (by decide)]
        exact hdone
      · rename_i t hwrite
        obtain ⟨-, hfail, hok⟩ := Gives.written hwrite
        rw [List.length_append, leBytes_length] at hok
        rw [if_pos ⟨hrax, hok⟩]
        exact hfail
    · rw [if_pos hrax, if_neg fun h => hrax h.1]
      exact .same x

theorem finishStatx_gives (x : ExitStop) (p : Option StatxState) :
    x.Gives (x.finishStatx p)
      (if x.regs.rax = 0 ∧ p.any (fun st => (x.tracee.mem.readStruct st.scratch 144).isNone ||
          (x.tracee.mem.readStruct st.statxbuf 256).isNone) = true then asU64 (-Errno.EFAULT)
        else x.regs.rax) := by
  cases p with
  | none =>
    rw [if_neg fun h => absurd h.2 (by simp)]
    exact .same x
  | some st =>
    rw [finishStatx, Option.any_some]
    by_cases hrax : x.regs.rax = 0
    · rw [if_neg (not_not.2 hrax)]
      split
      · rename_i hstat
        rw [hstat, if_pos ⟨hrax, rfl⟩]
        exact ⟨rfl, .refl _, rfl, fun _ => Or.inl rfl⟩
      rename_i stat hstat
      rw [hstat]
      split
      · rename_i t hwrite
        obtain ⟨hdone, -, hok⟩ := Gives.written hwrite
        rw [buildStatx_length] at hok
        rw [hok, if_neg fun h => absurd h.2 (by simp)]
        exact hdone
      · rename_i t hwrite
        obtain ⟨-, hfail, hok⟩ := Gives.written hwrite
        rw [buildStatx_length] at hok
        rw [hok, if_pos ⟨hrax, rfl⟩]
        exact hfail
    · rw [if_pos hrax, if_neg fun h => hrax h.1]
      exact .same x

/-- **The two conversions together** leave the result of the call. -/
theorem conversions_give (p : Pending) (t : Tracee) :
    (⟨t, t.regs, false⟩ : ExitStop).Gives
      (((⟨t, t.regs, false⟩ : ExitStop).finishTermios2 p.termios2Get).finishStatx p.statx)
      (ownResult p t) := by
  have h₁ := finishTermios2_gives ⟨t, t.regs, false⟩ p.termios2Get
  generalize (⟨t, t.regs, false⟩ : ExitStop).finishTermios2 p.termios2Get = y at h₁ ⊢
  have h₂ := finishStatx_gives y p.statx
  simp only [Memory.readStruct_isNone_congr h₁.mapped] at h₂
  have hrax := congrArg Regs.rax h₁.regs
  dsimp only at hrax
  have hresult :
      (if y.regs.rax = 0 ∧ p.statx.any (fun st => (t.mem.readStruct st.scratch 144).isNone ||
          (t.mem.readStruct st.statxbuf 256).isNone) = true then asU64 (-Errno.EFAULT)
        else y.regs.rax) = ownResult p t := by
    rw [hrax, ownResult, unconvertible]
    generalize p.termios2Get.any _ = speeds
    generalize p.statx.any _ = stat
    by_cases h0 : t.regs.rax = 0
    · cases speeds <;> simp [h0]
    · have hne : ∀ P : Prop, ¬(t.regs.rax = 0 ∧ P) := fun _ h => h0 h.1
      rw [if_neg (hne _), if_neg (hne _), if_neg (hne _)]
  rw [hresult] at h₂
  refine ⟨?_, h₁.tracee.trans h₂.tracee, h₂.mapped.trans h₁.mapped, fun h => h₂.clean (h₁.clean h)⟩
  rw [h₂.regs, h₁.regs]

/-- The scratch reservation does not touch the result. -/
theorem restoreRsp_regs (x : ExitStop) (saved : Option U64) :
    (x.restoreRsp saved).regs.rax = x.regs.rax ∧ (x.restoreRsp saved).regs.cs = x.regs.cs ∧
      (x.restoreRsp saved).regs.origRax = x.regs.origRax ∧
      (x.restoreRsp saved).tracee = x.tracee ∧ (x.Clean → (x.restoreRsp saved).Clean) := by
  cases saved with
  | none => exact ⟨rfl, rfl, rfl, rfl, id⟩
  | some rsp => exact ⟨rfl, rfl, rfl, rfl, fun _ => Or.inl rfl⟩

/-- **The rule**, on a kernel whose numbers come back, for a call whose result is not the
tracer's. -/
theorem normalizeEcho_rax {env : Env} {x : ExitStop} {nr : U64}
    (hkernel : env.host.kernelEchoesNumber = true) (hcs : x.regs.cs = userCs) :
    (x.normalizeEcho env (some nr) false).regs.rax =
        (if 279 < nr ∧ x.regs.origRax = nr ∧ x.regs.rax = nr then asU64 (-Errno.ENOSYS)
          else x.regs.rax) ∧
      (x.normalizeEcho env (some nr) false).tracee = x.tracee ∧
      (x.Clean → (x.normalizeEcho env (some nr) false).Clean) := by
  rw [normalizeEcho]
  by_cases h : 279 < nr ∧ x.regs.origRax = nr ∧ x.regs.rax = nr
  · obtain ⟨habove, hnr, hrax⟩ := h
    rw [if_pos ⟨rfl, ⟨hcs, habove, hkernel, hnr⟩, hrax⟩, if_pos ⟨habove, hnr, hrax⟩]
    exact ⟨rfl, rfl, fun _ => Or.inl rfl⟩
  · rw [if_neg fun h' => h ⟨h'.2.1.2.1, h'.2.1.2.2.2, h'.2.2⟩, if_neg h]
    exact ⟨rfl, rfl, id⟩

/-- **On a kernel from 2.6.19 on the rule changes nothing.** -/
theorem normalizeEcho_of_newer {env : Env} (h : env.host.kernelEchoesNumber = false)
    (last : Option U64) (synthesized : Bool) (x : ExitStop) :
    x.normalizeEcho env last synthesized = x := by
  cases last with
  | none => rfl
  | some nr => exact if_neg fun h' => absurd (h.symm.trans h'.2.1.2.2.1) (by decide)

end ExitStop

section

variable {env : Env} {s : Tracer} {pid : Pid} {t : Tracee} {p : Pending} {nr : U64}

/-- **What an exit stop hands back** for a call that the tracer does not answer itself. -/
theorem onSyscallExit_rax (hpending : s.pending pid = p) (hlast : p.lastSyscall = some nr)
    (hreach : Tracer.Reachable t) (hkernel : env.host.kernelEchoesNumber = true)
    (hnot : ¬(nr = Nr.getrandom ∧ env.host.getrandomMissing = true)) :
    (s.onSyscallExit env pid t).2.regs.rax =
      if 279 < nr ∧ t.regs.origRax = nr ∧ ownResult p t = nr then asU64 (-Errno.ENOSYS)
      else ownResult p t := by
  subst hpending
  have hlast' : s.lastSyscall pid = some nr := hlast
  have hgives := ExitStop.conversions_give (s.pending pid) t
  rw [Tracer.onSyscallExit, hreach.getregs]
  dsimp only
  rw [if_neg (not_not.2 hreach.long), Tracer.exitStop, hlast']
  dsimp only
  generalize hy : ((⟨t, t.regs, false⟩ : ExitStop).finishTermios2 (s.termios2Get pid)).finishStatx
    (s.statx pid) = y
  have hgives' : (⟨t, t.regs, false⟩ : ExitStop).Gives y (ownResult (s.pending pid) t) := by
    rw [← hy]
    exact hgives
  obtain ⟨hrax, hcs, hnr, htracee, hclean⟩ := y.restoreRsp_regs (s.reserved pid)
  generalize y.restoreRsp (s.reserved pid) = z at hrax hcs hnr htracee hclean ⊢
  have hfinish : ExitStop.finishGetrandom env (some nr) z = (z, false) := by
    rw [ExitStop.finishGetrandom, if_neg fun h => hnot ⟨Option.some.inj h.1, h.2⟩]
  rw [hfinish]
  have hy₀ := hgives'.regs
  obtain ⟨hresult, htracee', hclean'⟩ := @ExitStop.normalizeEcho_rax env z nr hkernel
    (by rw [hcs, hy₀]; exact hreach.long)
  rw [ExitStop.commit_regs (hclean' (hclean (hgives'.clean (Or.inr rfl)))), hresult, hrax, hnr, hy₀]
  rw [htracee', htracee]
  exact hgives'.tracee.canSet.trans hreach.canSet

/-- **What it hands back for a `getrandom`** whose number has come back: the number of bytes,
or an error where they could not be written. -/
theorem onSyscallExit_rax_getrandom (hpending : s.pending pid = Pending.getrandom)
    (hreach : Tracer.Reachable t) (hmissing : env.host.getrandomMissing = true)
    (hrax : t.regs.rax = Nr.getrandom) :
    (s.onSyscallExit env pid t).2.regs.rax =
      if (emulateGetrandom env t t.regs.rdi t.regs.rsi.toNat).2 = true then t.regs.rsi
      else asU64 (-Errno.ENOSYS) := by
  generalize hemulate : emulateGetrandom env t t.regs.rdi t.regs.rsi.toNat = r
  obtain ⟨t', ok⟩ := r
  rw [onSyscallExit_getrandom hpending hreach hmissing hemulate fun _ => hrax]
  rfl

end

/-! ### The entry stop -/

section

variable {t t' : Tracee}

/-- The call is left alone, or given another number. -/
def Renumbered (t t' : Tracee) : Prop := t'.regs = t.regs ∨ t'.regs.origRax ≠ t.regs.origRax

theorem renumbered_putregs {regs : Regs} (h : regs.origRax ≠ t.regs.origRax) :
    Renumbered t (t.putregs regs) := by
  cases hset : t.canSet with
  | true =>
    rw [Tracee.putregs_of_canSet hset]
    exact Or.inr h
  | false =>
    rw [Tracee.putregs_of_not_canSet hset]
    exact Or.inl rfl

theorem renumbered_setupStatx (s : Tracer) (pid : Pid) (h : t.regs.origRax = Nr.statx) :
    Renumbered t (s.setupStatx pid t t.regs).2 := by
  rw [Tracer.setupStatx]
  split_ifs
  · exact Or.inl rfl
  split
  · exact Or.inl rfl
  · rename_i hset
    obtain ⟨-, rfl⟩ := Tracee.setregs_eq_some.1 hset
    right
    show (Tracer.statxFallback t.regs).origRax ≠ t.regs.origRax
    rw [Tracer.statxFallback, h]
    split_ifs
    · exact show Nr.fstat ≠ Nr.statx by decide
    · exact show Nr.newfstatat ≠ Nr.statx by decide

theorem renumbered_rewriteEntry (env : Env) (s : Tracer) (pid : Pid)
    (h : t.regs.origRax = Nr.epollCreate1 ∨ t.regs.origRax = Nr.prlimit64) :
    Renumbered t (s.rewriteEntry env pid t t.regs).2 := by
  rcases h with hepoll | hprlimit
  · have hentry : (s.rewriteEntry env pid t t.regs).2 =
        if env.host.epollCreate1Missing = true then t.putregs
          { t.regs with origRax := Nr.epollCreate, rax := Nr.epollCreate, rdi := 1 }
        else t := by
      rw [Tracer.rewriteEntry]
      cases env.host.epollCreate1Missing <;> simp [hepoll]
    rw [hentry]
    split_ifs
    · exact renumbered_putregs (hepoll ▸ show Nr.epollCreate ≠ Nr.epollCreate1 by decide)
    · exact Or.inl rfl
  · rw [rewriteEntry_prlimit64 hprlimit]
    split_ifs
    · refine renumbered_putregs ?_
      rw [Tracer.prlimitFallback, hprlimit]
      dsimp only
      split_ifs
      · exact show Nr.setrlimit ≠ Nr.prlimit64 by decide
      · exact show Nr.getrlimit ≠ Nr.prlimit64 by decide
    · exact Or.inl rfl

/-- **A call above 278 that is rewritten gets another number.** -/
theorem onSyscallEntry_number (env : Env) (s : Tracer) (pid : Pid)
    (hreach : Tracer.Reachable t) (habove : 278 < t.regs.origRax) :
    Renumbered t (s.onSyscallEntry env pid t).2 := by
  by_cases hmem : t.regs.origRax ∈ rewrittenCalls
  · have hne : ∀ n : U64, ¬278 < n → t.regs.origRax ≠ n := fun n hn he => hn (he ▸ habove)
    have hfour : ∀ n ∈ rewrittenCalls, 278 < n →
        n = Nr.pipe2 ∨ n = Nr.statx ∨ n = Nr.epollCreate1 ∨ n = Nr.prlimit64 := by
      simp [rewrittenCalls]
    rcases hfour _ hmem habove with hpipe | hstatx | hrest
    · rw [onSyscallEntry_translated env s pid hreach.canGet hreach.long (Or.inl hpipe)]
      split_ifs with h₁ h₂
      · exact renumbered_putregs (hpipe ▸ show Nr.pipe ≠ Nr.pipe2 by decide)
      · exact absurd (hpipe.symm.trans h₂.1) (by decide)
      · exact Or.inl rfl
    · rw [onSyscallEntry_translated env s pid hreach.canGet hreach.long (Or.inr hstatx)]
      split_ifs with h₁ h₂
      · exact absurd (hstatx.symm.trans h₁.1) (by decide)
      · exact renumbered_setupStatx _ pid hstatx
      · exact Or.inl rfl
    · have hother : ∀ n : U64, n ≠ Nr.epollCreate1 → n ≠ Nr.prlimit64 → t.regs.origRax ≠ n :=
        fun n h₁ h₂ he => hrest.elim (fun h => h₁ (he.symm.trans h)) fun h => h₂ (he.symm.trans h)
      rw [onSyscallEntry_rest env s pid hreach.canGet hreach.long (hne _ (by decide))
        (hother _ (by decide) (by decide)) (hother _ (by decide) (by decide))]
      exact renumbered_rewriteEntry env _ pid hrest
  · rw [onSyscallEntry_of_notMem env s pid hmem]
    exact Or.inl rfl

end

/-- The rewrites leave the number that was noted. -/
theorem translateCommon_lastSyscall (env : Env) (s : Tracer) (pid : Pid) (t : Tracee)
    (regs : Regs) : (s.translateCommon env pid t regs).1.lastSyscall = s.lastSyscall := by
  rw [Tracer.translateCommon]
  split_ifs
  · rw [Tracer.translateFutex]
    split_ifs
    · rfl
    dsimp only
    split_ifs
    · rfl
    · split <;> rfl
    · rfl
  · rfl
  · rw [Tracer.setupStatx]
    split_ifs
    · rfl
    · cases t.setregs (Tracer.statxFallback regs) <;> rfl
  · rfl

theorem rewriteEntry_lastSyscall (env : Env) (s : Tracer) (pid : Pid) (t : Tracee)
    (regs : Regs) : (s.rewriteEntry env pid t regs).1.lastSyscall = s.lastSyscall := by
  rw [Tracer.rewriteEntry]
  dsimp only
  split_ifs
  all_goals try rfl
  rw [Tracer.setupTermios2]
  split_ifs
  · rfl
  split
  · rfl
  split
  · rfl
  · split_ifs <;> rfl

/-- **An entry stop notes the number the application asked for.** -/
theorem onSyscallEntry_lastSyscall (env : Env) (s : Tracer) (pid : Pid) {t : Tracee}
    (hreach : Tracer.Reachable t) :
    (s.onSyscallEntry env pid t).1.lastSyscall pid = some t.regs.origRax := by
  have hnoted : (noted s pid t.regs.origRax).lastSyscall pid = some t.regs.origRax :=
    Function.update_self ..
  rw [onSyscallEntry_long env s pid hreach.canGet hreach.long]
  have hcommon := translateCommon_lastSyscall env (noted s pid t.regs.origRax) pid t t.regs
  generalize (noted s pid t.regs.origRax).translateCommon env pid t t.regs = r at hcommon ⊢
  obtain ⟨s₁, t₁, needsExit⟩ := r
  cases needsExit with
  | some needsExit => exact (congrFun hcommon pid).trans hnoted
  | none =>
    have hrest := rewriteEntry_lastSyscall env s₁ pid t₁ t.regs
    exact (congrFun hrest pid).trans ((congrFun hcommon pid).trans hnoted)

/-! ### The last stop of an emulation -/

/-- The result that an emulation hands back at its last stop. -/
def resultOf (env : Env) (pid : Pid) (t : Tracee) : Active → ℤ
  | .fixup result => result
  | .sequence q => (q.returned env pid t.mem t.regs.rax.toInt).answer

/-- **The result of an emulated call is that of its emulation.** -/
theorem step_result {e : Emulations} {pid : Pid} {a : Active} (ha : e.active pid = some a)
    (env : Env) {t : Tracee} (hreach : Tracer.Reachable t)
    (hover : (e.step env pid t).1.active pid = none) :
    (e.step env pid t).2.regs.rax = asU64 (resultOf env pid t a) := by
  cases a with
  | fixup result =>
    rw [Emulations.step, ha]
    dsimp only
    rw [hreach.getregs]
    dsimp only
    rw [Tracee.putregs_of_canSet hreach.canSet]
    rfl
  | sequence q =>
    cases hentry : q.atEntry with
    | true =>
      rw [Emulations.step_entry env ha hentry, Emulations.setActive_active_self] at hover
      exact absurd hover (by simp)
    | false =>
      generalize hnext : (q.returned env pid t.mem t.regs.rax.toInt).next = next
      obtain ⟨step, queue⟩ := next
      cases step with
      | none =>
        obtain ⟨-, hregs⟩ :=
          Emulations.step_over env ha hentry hreach.canGet hreach.canSet (congrArg Prod.fst hnext)
        rw [hregs]
        rfl
      | some step =>
        obtain ⟨hactive, -⟩ :=
          Emulations.step_again env ha hentry hreach.canGet hreach.canSet hnext
        exact absurd (hactive.symm.trans hover) (by simp)

/-! ### A whole call -/

/-- A kernel before 2.6.19, by its release, and the last number of its table. -/
inductive Echoing (host : Host) : U64 → Prop
  | v17 (h : host.release = some (2, 6, 17)) : Echoing host 278
  | v18 (h : host.release = some (2, 6, 18)) : Echoing host 279

/-- A call above the table does nothing, and its number is left for its result. -/
def KernelReturn.Echoes (top : U64) (t : Tracee) (r : KernelReturn) : Prop :=
  top < t.regs.origRax → r.rax = t.regs.origRax ∧ r.mem = t.mem

/-- The turn `v`, from the state `s'`, is about the last stop of the call whose entry stop
is the turn `u` from the state `s`. -/
inductive LastStop (top : U64) (s : Tracer) (pid : Pid) (u : Turn) : Tracer → Turn → Prop
  /-- The exit stop of a call that is not taken over, where the kernel has returned `r`. -/
  | exit {s' : Tracer} {v : Turn} (hidle : (s.next u).emulated.active pid = none)
      (hexit : ExitOf s pid u s' v) (r : KernelReturn)
      (ht : v.tracee = r.apply (s.turn u).tracee) (hecho : r.Echoes top (s.turn u).tracee) :
      LastStop top s pid u s' v
  /-- The stop at which the emulation of a call ends. -/
  | emulated {s' : Tracer} {v : Turn} {a a' : Active}
      (htaken : (s.next u).emulated.active pid = some a) (hstop : StopOf s pid u s' v)
      (hv : v.wait = .syscall pid) (hbusy : s'.emulated.active pid = some a')
      (hover : (s'.next v).emulated.active pid = none) : LastStop top s pid u s' v

/-- A call of 64-bit code on a kernel before 2.6.19, where every call is traced, from its
entry stop `u` in the state `s` to its last stop `v` in the state `s'`. -/
structure TracedCall (top : U64) (s : Tracer) (pid : Pid) (u : Turn) (s' : Tracer) (v : Turn) :
    Prop where
  mode : s.EverySyscall
  stop : u.wait = .syscall pid
  before : s.view pid = ⟨false, Pending.empty, none⟩
  entry : Tracer.Reachable u.tracee
  last : LastStop top s pid u s' v
  kernel : Echoing v.env.host top
  reach : Tracer.Reachable v.tracee

/-- The tracer makes up the result of a `getrandom` whose buffer it has filled. -/
def Synthesized (env : Env) (regs : Regs) (t : Tracee) : Prop :=
  regs.origRax = Nr.getrandom ∧ env.host.getrandomMissing = true ∧
    (emulateGetrandom env t regs.rdi regs.rsi.toNat).2 = true

instance (env : Env) (regs : Regs) (t : Tracee) : Decidable (Synthesized env regs t) :=
  inferInstanceAs (Decidable (_ ∧ _ ∧ _))

/-- The result that the application is to get.  That of an emulation is its own; the
number of bytes is that of a `getrandom` that is answered; a call above the table that has
been left alone is to fail; any other call has the result of what was called in its place,
or its own. -/
def rightResult (top : U64) (s : Tracer) (pid : Pid) (u : Turn) (s' : Tracer) (v : Turn) : U64 :=
  match s'.emulated.active pid with
  | some a => asU64 (resultOf v.env pid v.tracee a)
  | none =>
    if Synthesized v.env u.tracee.regs v.tracee then u.tracee.regs.rsi
    else if top < u.tracee.regs.origRax ∧ (s.turn u).tracee.regs = u.tracee.regs then
      asU64 (-Errno.ENOSYS)
    else ownResult ((s.next u).pending pid) v.tracee

section

variable {top : U64} {s s' : Tracer} {pid : Pid} {u v : Turn}

theorem Echoing.echoes {host : Host} (h : Echoing host top) : host.kernelEchoesNumber = true := by
  rcases h with h | h
  · rw [Host.kernelEchoesNumber, Host.kernelLt, h]
    rfl
  · rw [Host.kernelEchoesNumber, Host.kernelLt, h]
    rfl

/-- No number up to 278 is above a table. -/
theorem Echoing.above {host : Host} (h : Echoing host top) {nr : U64} (hnr : top < nr) :
    278 < nr := by
  cases h with
  | v17 h => exact hnr
  | v18 h =>
    have hlt : 279 < nr.toNat := hnr
    exact Nat.lt_of_succ_lt hlt

/-- The numbers for which the rule asks are above the table. -/
theorem Echoing.lt {host : Host} (h : Echoing host top) {nr : U64} (hnr : 279 < nr) :
    top < nr := by
  cases h with
  | v17 h =>
    have hlt : 279 < nr.toNat := hnr
    exact Nat.lt_of_succ_lt hlt
  | v18 h => exact hnr

/-- The numbers for which the rule asks are all those above the table, but for one. -/
theorem Echoing.above_iff {host : Host} (h : Echoing host top) {nr : U64} (hnr : top < nr) :
    279 < nr ↔ ¬(host.release = some (2, 6, 17) ∧ nr = 279) := by
  cases h with
  | v17 h =>
    rw [and_iff_right h]
    have hlt : 278 < nr.toNat := hnr
    constructor
    · rintro habove rfl
      exact absurd habove (by decide)
    · intro hne
      have hne' : nr.toNat ≠ 279 := fun he => hne (BitVec.eq_of_toNat_eq he)
      show 279 < nr.toNat
      omega
  | v18 h =>
    refine iff_of_true hnr fun h' => ?_
    exact absurd (h.symm.trans h'.1) (by simp)

/-- On 2.6.17 call 279 is above the table. -/
theorem Echoing.lt_279 {host : Host} (h : Echoing host top)
    (hrelease : host.release = some (2, 6, 17)) : top < 279 := by
  cases h with
  | v17 h => decide
  | v18 h => exact absurd (h.symm.trans hrelease) (by simp)

/-- The calls of an emulation are traced like the others. -/
theorem StopOf.everySyscall (h : StopOf s pid u s' v) (hmode : s.EverySyscall) :
    s'.EverySyscall := by
  induction h with
  | entry => exact hmode
  | later h haside hw hin hkept ih => exact (ih.next _).foldl_next _

/-- Where no emulation is in progress after the entry stop of a call, none is at its exit
stop. -/
theorem ExitOf.idle (h : ExitOf s pid u s' v) (hmode : s.EverySyscall)
    (hidle : (s.next u).emulated.active pid = none) : s'.emulated.active pid = none := by
  cases h with
  | traced _ hu haside hv =>
    obtain ⟨hview, -⟩ := foldl_aside haside (s.next u)
    exact (congrArg View.active hview).trans hidle
  | filtered hfilter =>
    exact absurd hfilter hmode.not_filtering

/-- **The entry stop of a call that is not taken over**: the call is given over to
`on_syscall_stop`, with the registers as they were. -/
theorem turn_own (hmode : s.EverySyscall) (hbefore : s.view pid = ⟨false, Pending.empty, none⟩)
    (hu : u.wait = .syscall pid) (hidle : (s.next u).emulated.active pid = none) :
    ∃ (s₀ : Tracer) (t : Tracee), s₀.pending pid = Pending.empty ∧ u.tracee.SameRegs t ∧
      (s.next u).pending pid = (s₀.onSyscallEntry u.env pid t).1.pending pid ∧
      (s.turn u).tracee = (s₀.onSyscallEntry u.env pid t).2 := by
  cases entering_of_fresh hmode hbefore hu with
  | @taken e t hbegin hnext _ =>
    obtain ⟨hbegun, -⟩ := Emulations.begin_begun u.env (s.ticked u).emulated pid u.tracee true
    rw [hbegin] at hbegun
    obtain ⟨a, ha, -⟩ := hbegun.started rfl
    have hactive : (s.next u).emulated.active pid = some a := by
      rw [hnext]
      exact (congrFun ha pid).trans (Function.update_self ..)
    exact absurd (hidle.symm.trans hactive) (by simp)
  | @own e t s₀ _ hsame _ hempty hnext htracee =>
    exact ⟨s₀, t, hempty, hsame, congrArg (·.pending pid) hnext, htracee⟩

/-- Call 279 is not taken over. -/
theorem not_taken_279 (hmode : s.EverySyscall)
    (hbefore : s.view pid = ⟨false, Pending.empty, none⟩) (hu : u.wait = .syscall pid)
    (hnr : u.tracee.regs.origRax = 279) : (s.next u).emulated.active pid = none := by
  have hdeclined : (s.ticked u).emulated.begin u.env pid u.tracee (s.entering pid) =
      ((s.ticked u).emulated, u.tracee, false) := by
    unfold Emulations.begin
    cases s.entering pid with
    | false => rfl
    | true =>
      rw [if_neg (by decide)]
      split
      · rfl
      rename_i regs hregs
      obtain ⟨-, rfl⟩ := Tracee.getregs_eq_some.1 hregs
      simp [hnr]
  obtain ⟨hnext, -⟩ := Tracer.turn_declined hmode hu (congrArg View.active hbefore) hdeclined
  obtain ⟨q, t', hstop, -⟩ := Tracer.onSyscallStop_eq u.env (s.ticked u) pid u.tracee
  rw [hnext, hstop]
  exact (Tracer.active_ticked s u pid).trans (congrArg View.active hbefore)

/-- A call that is not taken over: `on_syscall_stop` has it at both stops, in the states `s₀`
and `s₁`, with the tracee as it was but for memory at the first. -/
structure OwnCall (s : Tracer) (pid : Pid) (u : Turn) (s' : Tracer) (v : Turn) (s₀ s₁ : Tracer)
    (t : Tracee) : Prop where
  reach : Tracer.Reachable t
  regs : t.regs = u.tracee.regs
  empty : s₀.pending pid = Pending.empty
  idle : s'.emulated.active pid = none
  recorded : (s.next u).pending pid = (s₀.onSyscallEntry u.env pid t).1.pending pid
  left : (s.turn u).tracee = (s₀.onSyscallEntry u.env pid t).2
  kept : s₁.pending pid = (s.next u).pending pid
  handed : (s'.turn v).tracee = (s₁.onSyscallExit v.env pid v.tracee).2

theorem TracedCall.own (h : TracedCall top s pid u s' v)
    (hidle : (s.next u).emulated.active pid = none) (hexit : ExitOf s pid u s' v) :
    ∃ s₀ s₁ t, OwnCall s pid u s' v s₀ s₁ t := by
  obtain ⟨s₁, hkept, hhanded⟩ := hexit.turn_eq (congrArg View.active h.before)
    (congrArg View.inSyscall h.before) hidle fun hfilter => absurd hfilter h.mode.not_filtering
  obtain ⟨s₀, t, hempty, hsame, hrecorded, hleft⟩ := turn_own h.mode h.before h.stop hidle
  have hreach : Tracer.Reachable t := ⟨hsame.canGet.trans h.entry.canGet,
    hsame.canSet.trans h.entry.canSet, (congrArg Regs.cs hsame.regs).trans h.entry.long⟩
  exact ⟨s₀, s₁, t, hreach, hsame.regs, hempty, hexit.idle h.mode hidle, hrecorded, hleft, hkept,
    hhanded⟩

section

variable {s₀ s₁ : Tracer} {t : Tracee} {r : KernelReturn}

/-- A `getrandom` that the kernel does not have: it is answered, or fails. -/
theorem OwnCall.getrandom (hown : OwnCall s pid u s' v s₀ s₁ t)
    (h : TracedCall top s pid u s' v) (ht : v.tracee = r.apply (s.turn u).tracee)
    (hecho : r.Echoes top (s.turn u).tracee) (hnr : u.tracee.regs.origRax = Nr.getrandom)
    (hmissing : v.env.host.getrandomMissing = true) :
    (s'.turn v).tracee.regs.rax = rightResult top s pid u s' v := by
  have hnr' : t.regs.origRax = Nr.getrandom := (congrArg Regs.origRax hown.regs).trans hnr
  have hregs : (s.turn u).tracee.regs = u.tracee.regs := by
    rw [hown.left, onSyscallEntry_getrandom u.env s₀ pid hnr']
    exact hown.regs
  have hrecorded : s₁.pending pid = Pending.getrandom := by
    rw [hown.kept, hown.recorded]
    exact (onSyscallEntry_pending_getrandom u.env s₀ hown.reach hnr' hown.empty).1
  have habove : top < u.tracee.regs.origRax := by
    rw [hnr]
    rcases h.kernel with h' | h' <;> decide
  have hrax : v.tracee.regs.rax = Nr.getrandom := by
    rw [ht, ← hnr, ← hregs]
    exact (hecho (by rw [hregs]; exact habove)).1
  have hrdi : v.tracee.regs.rdi = u.tracee.regs.rdi := by
    rw [ht, ← hregs]
    rfl
  have hrsi : v.tracee.regs.rsi = u.tracee.regs.rsi := by
    rw [ht, ← hregs]
    rfl
  rw [hown.handed, rightResult, hown.idle,
    onSyscallExit_rax_getrandom hrecorded h.reach hmissing hrax, hrdi, hrsi]
  dsimp only
  by_cases hok : (emulateGetrandom v.env v.tracee u.tracee.regs.rdi
      u.tracee.regs.rsi.toNat).2 = true
  · rw [if_pos hok, if_pos ⟨hnr, hmissing, hok⟩]
  · rw [if_neg hok, if_neg fun h' => hok h'.2.2, if_pos ⟨habove, hregs⟩]

/-- The result of any other call, by the rule. -/
theorem OwnCall.rax (hown : OwnCall s pid u s' v s₀ s₁ t) (h : TracedCall top s pid u s' v)
    (ht : v.tracee = r.apply (s.turn u).tracee)
    (hnot : ¬(u.tracee.regs.origRax = Nr.getrandom ∧ v.env.host.getrandomMissing = true)) :
    (s'.turn v).tracee.regs.rax =
      if 279 < u.tracee.regs.origRax ∧
          (s.turn u).tracee.regs.origRax = u.tracee.regs.origRax ∧
            ownResult ((s.next u).pending pid) v.tracee = u.tracee.regs.origRax then
        asU64 (-Errno.ENOSYS)
      else ownResult ((s.next u).pending pid) v.tracee := by
  have hlast : (s₁.pending pid).lastSyscall = some u.tracee.regs.origRax := by
    rw [hown.kept, hown.recorded, ← hown.regs]
    exact onSyscallEntry_lastSyscall u.env s₀ pid hown.reach
  have hleft : v.tracee.regs.origRax = (s.turn u).tracee.regs.origRax := by
    rw [ht]
    rfl
  rw [hown.handed, onSyscallExit_rax rfl hlast h.reach h.kernel.echoes hnot, hown.kept, hleft]

/-- A call above the table that has been left alone: its number comes back, and is told from a
result where it is above 279. -/
theorem OwnCall.echoed_iff (hown : OwnCall s pid u s' v s₀ s₁ t)
    (h : TracedCall top s pid u s' v) (ht : v.tracee = r.apply (s.turn u).tracee)
    (hecho : r.Echoes top (s.turn u).tracee)
    (hnot : ¬(u.tracee.regs.origRax = Nr.getrandom ∧ v.env.host.getrandomMissing = true))
    (habove : top < u.tracee.regs.origRax) (hregs : (s.turn u).tracee.regs = u.tracee.regs) :
    (s'.turn v).tracee.regs.rax = rightResult top s pid u s' v ↔ 279 < u.tracee.regs.origRax := by
  have hrax : v.tracee.regs.rax = u.tracee.regs.origRax := by
    rw [ht, ← hregs]
    exact (hecho (by rw [hregs]; exact habove)).1
  have hresult : ownResult ((s.next u).pending pid) v.tracee = u.tracee.regs.origRax := by
    rw [ownResult, if_neg, hrax]
    rw [hrax]
    rintro ⟨h0, -⟩
    have hzero := h.kernel.above habove
    rw [h0] at hzero
    exact absurd hzero (by decide)
  rw [hown.rax h ht hnot, rightResult, hown.idle, hresult, hregs]
  dsimp only
  rw [if_neg fun h' : Synthesized v.env u.tracee.regs v.tracee => hnot ⟨h'.1, h'.2.1⟩]
  by_cases h279 : 279 < u.tracee.regs.origRax
  · rw [if_pos ⟨h279, rfl, rfl⟩, if_pos ⟨habove, rfl⟩]
    exact iff_of_true rfl h279
  · rw [if_neg fun h' => h279 h'.1, if_pos ⟨habove, rfl⟩]
    refine iff_of_false (fun he => h279 ?_) h279
    rw [he]
    decide

/-- Any other call has its own result: above the table it has another number by now. -/
theorem OwnCall.other (hown : OwnCall s pid u s' v s₀ s₁ t) (h : TracedCall top s pid u s' v)
    (ht : v.tracee = r.apply (s.turn u).tracee)
    (hnot : ¬(u.tracee.regs.origRax = Nr.getrandom ∧ v.env.host.getrandomMissing = true))
    (hother : ¬(top < u.tracee.regs.origRax ∧ (s.turn u).tracee.regs = u.tracee.regs)) :
    (s'.turn v).tracee.regs.rax = rightResult top s pid u s' v := by
  have hrule : ¬(279 < u.tracee.regs.origRax ∧
      (s.turn u).tracee.regs.origRax = u.tracee.regs.origRax ∧
        ownResult ((s.next u).pending pid) v.tracee = u.tracee.regs.origRax) := by
    rintro ⟨h279, hsame, -⟩
    have habove := h.kernel.lt h279
    have hcall : 278 < t.regs.origRax := by
      rw [hown.regs]
      exact h.kernel.above habove
    rw [hown.left] at hother hsame
    rcases onSyscallEntry_number u.env s₀ pid hown.reach hcall with hregs | hne
    · exact hother ⟨habove, hregs.trans hown.regs⟩
    · exact hne (hsame.trans (congrArg Regs.origRax hown.regs).symm)
  rw [hown.rax h ht hnot, if_neg hrule, rightResult, hown.idle]
  dsimp only
  rw [if_neg fun h' : Synthesized v.env u.tracee.regs v.tracee => hnot ⟨h'.1, h'.2.1⟩,
    if_neg hother]

/-- Call 279 is left alone. -/
theorem OwnCall.left_279 (hown : OwnCall s pid u s' v s₀ s₁ t)
    (hnr : u.tracee.regs.origRax = 279) : (s.turn u).tracee.regs = u.tracee.regs := by
  have hmem : t.regs.origRax ∉ rewrittenCalls := by
    rw [hown.regs, hnr]
    simp [rewrittenCalls]
  rw [hown.left, onSyscallEntry_of_notMem u.env s₀ pid hmem]
  exact hown.regs

end

/-- **The exit stop of a call that is not taken over.** -/
theorem TracedCall.exit_iff (h : TracedCall top s pid u s' v)
    (hidle : (s.next u).emulated.active pid = none) (hexit : ExitOf s pid u s' v)
    {r : KernelReturn} (ht : v.tracee = r.apply (s.turn u).tracee)
    (hecho : r.Echoes top (s.turn u).tracee) :
    (s'.turn v).tracee.regs.rax = rightResult top s pid u s' v ↔
      ¬(v.env.host.release = some (2, 6, 17) ∧ u.tracee.regs.origRax = 279) := by
  obtain ⟨s₀, s₁, t, hown⟩ := h.own hidle hexit
  by_cases hgetrandom : u.tracee.regs.origRax = Nr.getrandom ∧ v.env.host.getrandomMissing = true
  · obtain ⟨hnr, hmissing⟩ := hgetrandom
    refine iff_of_true (hown.getrandom h ht hecho hnr hmissing) fun h' => ?_
    exact absurd (hnr.symm.trans h'.2) (by decide)
  by_cases hleft : top < u.tracee.regs.origRax ∧ (s.turn u).tracee.regs = u.tracee.regs
  · obtain ⟨habove, hregs⟩ := hleft
    rw [hown.echoed_iff h ht hecho hgetrandom habove hregs]
    exact h.kernel.above_iff habove
  · refine iff_of_true (hown.other h ht hgetrandom hleft) fun ⟨hrelease, hnr⟩ => hleft ⟨?_, ?_⟩
    · rw [hnr]
      exact h.kernel.lt_279 hrelease
    · exact hown.left_279 hnr

/-- **Every call of a kernel before 2.6.19 has the result it is to have**, but for call 279
of 2.6.17; and from 2.6.19 on the rule changes nothing. -/
theorem results_right_iff (h : TracedCall top s pid u s' v) :
    ((s'.turn v).tracee.regs.rax = rightResult top s pid u s' v ↔
      ¬(v.env.host.release = some (2, 6, 17) ∧ u.tracee.regs.origRax = 279)) ∧
    ∀ env : Env, env.host.kernelLt 2 6 19 = false →
      ∀ (last : Option U64) (synthesized : Bool) (x : ExitStop),
        x.normalizeEcho env last synthesized = x := by
  constructor
  · cases h.last with
    | exit hidle hexit r ht hecho => exact h.exit_iff hidle hexit ht hecho
    | emulated htaken hstop hv hbusy hover =>
      have hmode : s'.EverySyscall := hstop.everySyscall h.mode
      obtain ⟨htracee, hemulated, -, -⟩ := Tracer.turn_emulated hmode hv hbusy
      have hticked : (s'.ticked v).emulated.active pid = some _ :=
        (Tracer.active_ticked s' v pid).trans hbusy
      rw [htracee, rightResult, hbusy]
      rw [hemulated] at hover
      refine iff_of_true (step_result hticked v.env h.reach hover) fun ⟨_, hnr⟩ => ?_
      exact absurd (htaken.symm.trans (not_taken_279 h.mode h.before h.stop hnr)) (by simp)
  · exact fun env henv => ExitStop.normalizeEcho_of_newer henv

end

/-- A syscall stop on a 2.6 kernel that has none of the calls that are probed. -/
def stopOn (patch : ℕ) (t : Tracee) : Turn :=
  ⟨.still { Host.centos5 with release := some (2, 6, patch) }, false, .syscall 1, t⟩

/-- The kernel does nothing, and leaves the number of the call. -/
def echo (t : Tracee) : KernelReturn := ⟨t.regs.origRax, 0, 0, t.mem, true, true⟩

/-- `clone3` on 2.6.18. -/
theorem results_right_iff_clone3 :
    let s := Tracer.new 1 true false
    let u := stopOn 18 (.entryOf 435 0 0 0 0)
    let v := stopOn 18 ((echo (s.turn u).tracee).apply (s.turn u).tracee)
    ((s.next u).turn v).tracee.regs.rax = rightResult 279 s 1 u (s.next u) v ∧
      (⟨u.tracee, u.tracee.regs, false⟩ : ExitStop).normalizeEcho (.still
        { Host.centos5 with release := some (2, 6, 19) }) (some 435) false =
          ⟨u.tracee, u.tracee.regs, false⟩ := by
  intro s u v
  have hexit : ExitOf s 1 u (s.next u) v :=
    @ExitOf.traced _ _ _ [] _ ⟨rfl, rfl⟩ rfl (fun _ hx => absurd hx List.not_mem_nil) rfl
  have hecho : (echo (s.turn u).tracee).Echoes 279 (s.turn u).tracee := fun _ => ⟨rfl, rfl⟩
  have hcall : TracedCall 279 s 1 u (s.next u) v :=
    ⟨⟨rfl, rfl⟩, rfl, rfl, ⟨rfl, rfl, rfl⟩, .exit rfl hexit _ rfl hecho, .v18 rfl, ⟨rfl, rfl, rfl⟩⟩
  obtain ⟨hright, hnewer⟩ := results_right_iff hcall
  exact ⟨hright.2 (by decide), hnewer _ (by decide) _ _ _⟩

/-- **`move_pages`, call 279, comes back as 279 on 2.6.17**: its table ends one number
before the one from which the rule asks. -/
theorem echo_in_2_6_17 :
    ¬∀ (top : U64) (s : Tracer) (pid : Pid) (u : Turn) (s' : Tracer) (v : Turn),
      TracedCall top s pid u s' v →
      (s'.turn v).tracee.regs.rax = rightResult top s pid u s' v := by
  intro hall
  let s := Tracer.new 1 true false
  let u := stopOn 17 (.entryOf 279 0 0 0 0)
  let v := stopOn 17 ((echo (s.turn u).tracee).apply (s.turn u).tracee)
  have hexit : ExitOf s 1 u (s.next u) v :=
    @ExitOf.traced _ _ _ [] _ ⟨rfl, rfl⟩ rfl (fun _ hx => absurd hx List.not_mem_nil) rfl
  have hecho : (echo (s.turn u).tracee).Echoes 278 (s.turn u).tracee := fun _ => ⟨rfl, rfl⟩
  have hcall : TracedCall 278 s 1 u (s.next u) v :=
    ⟨⟨rfl, rfl⟩, rfl, rfl, ⟨rfl, rfl, rfl⟩, .exit rfl hexit _ rfl hecho, .v17 rfl, ⟨rfl, rfl, rfl⟩⟩
  exact (hcall.exit_iff rfl hexit rfl hecho).1 (hall _ _ _ _ _ _ hcall) ⟨rfl, rfl⟩

end Tracing
end Sharun
