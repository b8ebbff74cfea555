/-
# The emulation in progress for a tracee

What each function of `src/emulated_syscalls.rs` does to the table `active`: `tick`
leaves it alone, `begin` either leaves it alone or starts an emulation for the
tracee it was called for (`begin_begun`), and `step` moves the emulation of its
tracee on or ends it (`step_moves`).  Nothing is ever done to the entry of another
tracee.
-/

import Sharun.Emulation.Syscalls

namespace Sharun
namespace Emulation

open Machine

namespace Emulations

@[simp] theorem setActive_active_self (self : Emulations) (pid : Pid) (a : Active) :
    (self.setActive pid a).active pid = some a := by
  simp [setActive]

@[simp] theorem forget_active_self (self : Emulations) (pid : Pid) :
    (self.forget pid).active pid = none := by
  simp [forget]

theorem forget_active_of_ne (self : Emulations) {pid q : Pid} (h : q ≠ pid) :
    (self.forget pid).active q = self.active q := by
  simp [forget, h]

theorem busy_iff {self : Emulations} {pid : Pid} :
    self.busy pid = true ↔ ∃ a, self.active pid = some a := by
  simp [busy, Option.isSome_iff_exists]

theorem not_busy_iff {self : Emulations} {pid : Pid} :
    self.busy pid = false ↔ self.active pid = none := by
  simp [busy]

@[simp] theorem arm_active (env : Env) (self : Emulations) :
    (self.arm env).active = self.active := rfl

@[simp] theorem closeFd_active (self : Emulations) (fd : ℤ) :
    (self.closeFd fd).active = self.active := rfl

@[simp] theorem setDeadline_active (self : Emulations) (fd : ℤ) (deadline : Option Time) :
    (self.setDeadline fd deadline).active = self.active := by
  unfold setDeadline; split <;> rfl

@[simp] theorem serve_active (env : Env) (self : Emulations) (due : Due) :
    (self.serve env due).active = self.active := by
  unfold serve
  split
  · rfl
  · split
    · exact setDeadline_active _ _ _
    · split
      · exact setDeadline_active _ _ _
      · rfl
    · rfl

/-- `tick` does nothing to the emulations in progress. -/
@[simp] theorem tick_active (env : Env) (alarm : Bool) (self : Emulations) :
    (self.tick env alarm).active = self.active := by
  have hfold : ∀ (l : List Due) (self : Emulations),
      (l.foldl (serve env) self).active = self.active := by
    intro l
    induction l with
    | nil => exact fun _ => rfl
    | cons due l ih => exact fun self => (ih _).trans (serve_active env self due)
  unfold tick
  split_ifs
  · rfl
  · exact hfold _ _

/-! ### Taking over a call -/

/-- How an emulation starts out: with its first call about to run, or with the
result it will put in place. -/
inductive Starts (t : Tracee) : Active → Prop
  | sequence {s : Sequence} (first : Step) (hregs : t.getregs = some s.saved)
      (hrun : s.running = some first) (hentry : s.atEntry = false) (hresults : s.results = []) :
      Starts t (.sequence s)
  | fixup (result : ℤ) : Starts t (.fixup result)

/-- What `begin` and the functions it calls come to: the call is left alone, and so
are the emulations in progress and the registers, or an emulation starts for this
tracee. -/
structure Begun (old : Emulations) (pid : Pid) (t : Tracee) (r : Emulations × Tracee × Bool) :
    Prop where
  declined : r.2.2 = false → r.1.active = old.active ∧ t.SameRegs r.2.1
  started : r.2.2 = true →
    ∃ a, r.1.active = Function.update old.active pid (some a) ∧ Starts t a

theorem Begun.decline {self self' : Emulations} {pid : Pid} {t t' : Tracee}
    (h : self'.active = self.active) (ht : t.SameRegs t') : Begun self pid t (self', t', false) :=
  ⟨fun _ => ⟨h, ht⟩, fun hr => absurd hr (by simp)⟩

theorem Begun.same (self : Emulations) (pid : Pid) (t : Tracee) :
    Begun self pid t (self, t, false) := Begun.decline rfl (.refl t)

theorem Begun.ite {self : Emulations} {pid : Pid} {t : Tracee} {c : Prop} [Decidable c]
    {r r' : Emulations × Tracee × Bool} (h : Begun self pid t r) (h' : Begun self pid t r') :
    Begun self pid t (if c then r else r') := by
  split
  · exact h
  · exact h'

theorem standIn_begun {self self' : Emulations} {pid : Pid} {t t' : Tracee} {regs : Regs}
    {result : ℤ} (h : self'.active = self.active) (ht : t.SameRegs t') :
    Begun self pid t (self'.standIn pid t' regs result) := by
  unfold standIn
  split
  · exact Begun.decline h ht
  · exact ⟨fun hr => absurd hr (by simp), fun _ =>
      ⟨_, congrArg (Function.update · pid _) h, .fixup result⟩⟩

theorem startSequence_begun {self self' : Emulations} {pid : Pid} {t t' : Tracee} {regs : Regs}
    {gadget : U64} {queue : List Step} {outcome : Outcome} {clockid : ℤ}
    (h : self'.active = self.active) (ht : t.SameRegs t') (hregs : t.getregs = some regs) :
    Begun self pid t (self'.startSequence pid t' regs gadget queue outcome clockid) := by
  unfold startSequence
  split
  · exact Begun.decline h ht
  · dsimp only
    split
    · exact Begun.decline h ht
    · exact ⟨fun hr => absurd hr (by simp), fun _ =>
        ⟨_, congrArg (Function.update · pid _) h, .sequence _ hregs rfl rfl rfl⟩⟩

/-- **The calls whose handler asks for a missing call and a gadget, and starts a sequence.**
What holds where the call is left alone and where the sequence is started holds of the
handler. -/
theorem replaced_cases {P : Emulations × Tracee × Bool → Prop} {self : Emulations} {pid : Pid}
    {t : Tracee} {regs : Regs} {c : Prop} [Decidable c] {queue : List Step} {outcome : Outcome}
    {clockid : ℤ} (hleft : P (self, t, false))
    (hstart : ∀ gadget, gadgetFor t regs = some gadget →
      P (self.startSequence pid t regs gadget queue outcome clockid)) :
    P (if c then (self, t, false) else match gadgetFor t regs with
      | none => (self, t, false)
      | some gadget => self.startSequence pid t regs gadget queue outcome clockid) := by
  split_ifs
  · exact hleft
  · cases hgadget : gadgetFor t regs with
    | none => exact hleft
    | some gadget => exact hstart gadget hgadget

theorem epollPwait_begun (env : Env) (self : Emulations) (pid : Pid) {t : Tracee} {regs : Regs}
    (hregs : t.getregs = some regs) : Begun self pid t (self.epollPwait env pid t regs) :=
  replaced_cases (P := Begun self pid t) (.same self pid t) fun _ _ =>
    startSequence_begun rfl (.refl t) hregs

theorem vectorIo_begun (env : Env) (self : Emulations) (pid : Pid) {t : Tracee} {regs : Regs}
    (write : Bool) (hregs : t.getregs = some regs) :
    Begun self pid t (self.vectorIo env pid t regs write) :=
  replaced_cases (P := Begun self pid t) (.same self pid t) fun _ _ =>
    startSequence_begun rfl (.refl t) hregs

theorem dupfdCloexec_begun (env : Env) (self : Emulations) (pid : Pid) {t : Tracee} {regs : Regs}
    (hregs : t.getregs = some regs) : Begun self pid t (self.dupfdCloexec env pid t regs) :=
  replaced_cases (P := Begun self pid t) (.same self pid t) fun _ _ =>
    startSequence_begun rfl (.refl t) hregs

theorem eventfd_begun (env : Env) (self : Emulations) (pid : Pid) {t : Tracee} {regs : Regs}
    (hregs : t.getregs = some regs) : Begun self pid t (self.eventfd env pid t regs) := by
  unfold eventfd
  dsimp only
  split_ifs
  · exact .same self pid t
  · exact .same self pid t
  all_goals
    split
    · exact .same self pid t
    split
    · rename_i t₁ hwrite
      exact .decline rfl (.of_writeStruct hwrite)
  · rename_i t₁ hwrite
    have h₁ := Tracee.SameRegs.of_writeStruct hwrite
    split
    · rename_i t₂ hwrite'
      exact .decline rfl (h₁.trans (.of_writeStruct hwrite'))
    · rename_i t₂ hwrite'
      exact startSequence_begun rfl (h₁.trans (.of_writeStruct hwrite')) hregs
  · rename_i t₁ hwrite
    exact startSequence_begun rfl (.of_writeStruct hwrite) hregs

theorem timerfdCreate_begun (env : Env) (self : Emulations) (pid : Pid) {t : Tracee} {regs : Regs}
    (hregs : t.getregs = some regs) : Begun self pid t (self.timerfdCreate env pid t regs) :=
  replaced_cases (P := Begun self pid t) (.same self pid t) fun _ _ =>
    startSequence_begun rfl (.refl t) hregs

theorem timerfdSettime_begun (env : Env) (self : Emulations) (pid : Pid) {t : Tracee}
    {regs : Regs} : Begun self pid t (self.timerfdSettime env pid t regs) := by
  unfold timerfdSettime
  dsimp only
  split
  · exact .same self pid t
  · split
    · exact .same self pid t
    · have hwritten : ∀ {t' : Tracee} {ok : Bool} {bytes : List Byte},
          (if regs.r10 ≠ 0 then t.writeStruct regs.r10 bytes else (t, true)) = (t', ok) →
            t.SameRegs t' := by
        intro t' ok bytes h
        split_ifs at h
        · exact .of_writeStruct h
        · obtain rfl : t = t' := congrArg Prod.fst h
          exact .refl t
      split
      · rename_i heq
        exact .decline rfl (hwritten heq)
      · rename_i heq
        split
        · exact .decline rfl (hwritten heq)
        · exact standIn_begun rfl (hwritten heq)

theorem timerfdGettime_begun (env : Env) (self : Emulations) (pid : Pid) {t : Tracee}
    {regs : Regs} : Begun self pid t (self.timerfdGettime env pid t regs) := by
  unfold timerfdGettime
  split
  · exact .same self pid t
  · dsimp only
    split
    · rename_i heq
      exact .decline rfl (.of_writeStruct heq)
    · rename_i heq
      exact standIn_begun rfl (.of_writeStruct heq)

/-- **What `begin` does to the emulations in progress**: nothing, or it starts one
for its tracee, and that only at an entry stop. -/
theorem begin_begun (env : Env) (self : Emulations) (pid : Pid) (t : Tracee) (entering : Bool) :
    Begun self pid t (self.begin env pid t entering) ∧
      ((self.begin env pid t entering).2.2 = true → entering = true) := by
  unfold begin
  cases entering with
  | false => exact ⟨.same self pid t, fun h => absurd h (by simp)⟩
  | true =>
    refine ⟨?_, fun _ => rfl⟩
    rw [if_neg (by decide)]
    split
    · exact .same self pid t
    · rename_i regs hregs
      exact .ite (.same self pid t) <| .ite (.decline rfl (.refl t)) <|
        .ite (eventfd_begun env self pid hregs) <| .ite (eventfd_begun env self pid hregs) <|
        .ite (timerfdCreate_begun env self pid hregs) <|
        .ite (timerfdSettime_begun env self pid) <| .ite (timerfdGettime_begun env self pid) <|
        .ite (dupfdCloexec_begun env self pid hregs) <|
        .ite (vectorIo_begun env self pid true hregs) <|
        .ite (vectorIo_begun env self pid false hregs) <|
        .ite (epollPwait_begun env self pid hregs) (.same self pid t)

/-! ### Moving on -/

@[simp] theorem capturePipe_active (env : Env) (self : Emulations) (pid : Pid) (t : Tracee)
    (buffer : U64) (clockid : ℤ) :
    (self.capturePipe env pid t buffer clockid).1.active = self.active := by
  unfold capturePipe
  split
  · rfl
  · dsimp only
    split <;> rfl

@[simp] theorem adopt_active (env : Env) (self : Emulations) (pid : Pid) (t : Tracee)
    (s : Sequence) (done : Option Step) :
    (self.adopt env pid t s done).1.active = self.active := by
  unfold adopt
  split
  · rename_i buffer
    have h := capturePipe_active env self pid t buffer s.clockid
    split <;> rename_i heq <;> rw [heq] at h <;> exact h
  · rfl

/-- What `step` does to the emulation of its tracee, from what it finds and whether
the registers can be read to what it leaves. -/
inductive Moves : Option Active → Option Active → Prop
  | idle : Moves none none
  | fixup (result : ℤ) : Moves (some (.fixup result)) none
  /-- The entry stop of a call of the sequence. -/
  | enter {s : Sequence} (h : s.atEntry = true) :
      Moves (some (.sequence s)) (some (.sequence { s with atEntry := false }))
  /-- An exit stop, with another call set up. -/
  | again {s s' : Sequence} (h : s.atEntry = false) (h' : s'.atEntry = true) :
      Moves (some (.sequence s)) (some (.sequence s'))
  /-- An exit stop, and the sequence is over. -/
  | done {s : Sequence} (h : s.atEntry = false) : Moves (some (.sequence s)) none

/-- **What `step` does to the emulations in progress.** -/
theorem step_moves (env : Env) (self : Emulations) (pid : Pid) (t : Tracee) :
    ∃ a, (self.step env pid t).1.active = Function.update self.active pid a ∧
      Moves (self.active pid) a := by
  unfold step
  split
  · rename_i h
    exact ⟨none, by rw [← h, Function.update_eq_self], h ▸ .idle⟩
  · rename_i result h
    exact ⟨none, rfl, h ▸ .fixup result⟩
  · rename_i s h
    rw [h]
    split_ifs with hentry
    · exact ⟨_, rfl, .enter hentry⟩
    · rw [Bool.not_eq_true] at hentry
      split
      · exact ⟨none, rfl, .done hentry⟩
      · unfold advance
        dsimp only
        split
        · exact ⟨_, congrArg (Function.update · pid _) (adopt_active ..), .again hentry rfl⟩
        · exact ⟨none, congrArg (Function.update · pid _) (adopt_active ..), .done hentry⟩

theorem begin_active_of_ne (env : Env) (self : Emulations) {pid q : Pid} (h : q ≠ pid)
    (t : Tracee) (entering : Bool) :
    (self.begin env pid t entering).1.active q = self.active q := by
  obtain ⟨hb, -⟩ := begin_begun env self pid t entering
  cases hr : (self.begin env pid t entering).2.2 with
  | false => rw [(hb.declined hr).1]
  | true =>
    obtain ⟨a, ha, -⟩ := hb.started hr
    rw [ha, Function.update_of_ne h]

theorem step_active_of_ne (env : Env) (self : Emulations) {pid q : Pid} (h : q ≠ pid)
    (t : Tracee) : (self.step env pid t).1.active q = self.active q := by
  obtain ⟨a, ha, -⟩ := step_moves env self pid t
  rw [ha, Function.update_of_ne h]

end Emulations

end Emulation
end Sharun
