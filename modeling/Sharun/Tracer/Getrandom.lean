/-
# `getrandom`, answered at its exit stop

A kernel without `getrandom` lets the call run into its error, and `emulate_getrandom`
fills the buffer at the exit stop: from `/dev/urandom`, in chunks of 64 KiB, word by
word.  A chunk is a whole number of words, so the chunks come to one `write_struct` of
all the bytes that were read (`fillChunks_eq`), and what that succeeds on is known.

`ExitOf` are the exit stops of a call, in both tracing modes and with the stops of other
tracees and signals in between; at the exit stop of a `getrandom` nothing is recorded but
the call (`ExitOf.getrandom`).  There the buffer is filled and the count returned exactly
if the count is zero, or the buffer is not null and the words it lies in are mapped to
their last byte (`getrandom_answered_iff`): a buffer of no whole number of words at the
end of a mapping is not (`last_word_unmapped`).
-/

import Sharun.Tracer.Framing

namespace Sharun
namespace Tracing

open Machine Emulation Sharun.Basis

/-! ### One write -/

section

variable {read : (off want : ℕ) → Option (Fin want → Byte)} {count chunks off : ℕ}

/-- The bytes that the reads of so many chunks give, from a place of the buffer on. -/
def drawnFrom (read : (off want : ℕ) → Option (Fin want → Byte)) (count : ℕ) : ℕ → ℕ → List Byte
  | 0, _ => []
  | chunks + 1, off =>
    let want := min (count - off) 65536
    (match read off want with
      | none => []
      | some dst => List.ofFn dst) ++ drawnFrom read count chunks (off + want)

/-- The bytes that are read for a buffer. -/
def drawn (read : (off want : ℕ) → Option (Fin want → Byte)) (count : ℕ) : List Byte :=
  drawnFrom read count ((count + 65535) / 65536) 0

theorem length_drawnFrom (hread : ∀ off want, (read off want).isSome)
    (hchunks : chunks = (count - off + 65535) / 65536) :
    (drawnFrom read count chunks off).length = count - off := by
  induction chunks generalizing off with
  | zero =>
    rw [drawnFrom, List.length_nil]
    omega
  | succ chunks ih =>
    obtain ⟨dst, hdst⟩ := Option.isSome_iff_exists.1 (hread off (min (count - off) 65536))
    rw [drawnFrom, hdst, List.length_append, List.length_ofFn, ih (by omega)]
    omega

theorem length_drawn (hread : ∀ off want, (read off want).isSome) :
    (drawn read count).length = count := length_drawnFrom hread (by rw [Nat.sub_zero])

/-- **The chunks are one write.** -/
theorem fillChunks_eq (hread : ∀ off want, (read off want).isSome) (buf : U64)
    (hchunks : chunks = (count - off + 65535) / 65536) (t : Tracee) :
    fillChunks read buf count chunks off t =
      t.writeStruct (buf + BitVec.ofNat 64 off) (drawnFrom read count chunks off) := by
  induction chunks generalizing off t with
  | zero => simp [fillChunks, drawnFrom, Tracee.writeStruct, Memory.writeStruct, Memory.writeWords]
  | succ chunks ih =>
    obtain ⟨dst, hdst⟩ := Option.isSome_iff_exists.1 (hread off (min (count - off) 65536))
    rw [fillChunks, drawnFrom, hdst]
    dsimp only
    generalize hwrite : t.writeStruct (buf + BitVec.ofNat 64 off) (List.ofFn dst) = w
    obtain ⟨t₁, ok⟩ := w
    rcases lt_or_ge (count - off) 65536 with hlast | hfull
    · obtain rfl : chunks = 0 := by omega
      rw [drawnFrom, List.append_nil, hwrite]
      cases ok <;> rfl
    · have hlen : (List.ofFn dst).length = 8 * 8192 := by
        rw [List.length_ofFn]
        omega
      rw [Tracee.writeStruct_append hlen, hwrite]
      cases ok with
      | false => rfl
      | true =>
        dsimp only
        rw [if_pos rfl, ih (by omega), Nat.min_eq_right hfull, BitVec.ofNat_add,
          ← BitVec.add_assoc]

/-- **`emulate_getrandom` is one write of the bytes it reads.** -/
theorem emulateGetrandom_eq {env : Env} (hurandom : env.urandom = some read)
    (hread : ∀ off want, (read off want).isSome) {buf : U64} (hcount : count ≠ 0) (hbuf : buf ≠ 0)
    (t : Tracee) : emulateGetrandom env t buf count = t.writeStruct buf (drawn read count) := by
  have haddr : buf + BitVec.ofNat 64 0 = buf := BitVec.add_zero buf
  rw [emulateGetrandom_of_read hcount hbuf hurandom,
    fillChunks_eq hread buf (by rw [Nat.sub_zero]), haddr]
  rfl

/-- What `emulate_getrandom` needs: the whole words of the buffer. -/
def Fillable (m : Memory) (buf : U64) (count : ℕ) : Prop :=
  count = 0 ∨ buf ≠ 0 ∧ region buf (8 * ((count + 7) / 8)) ⊆ m.mapped

/-- **When `emulate_getrandom` succeeds.** -/
theorem emulateGetrandom_ok_iff {env : Env} (hurandom : env.urandom = some read)
    (hread : ∀ off want, (read off want).isSome) {buf : U64} (t : Tracee) :
    (emulateGetrandom env t buf count).2 = true ↔ Fillable t.mem buf count := by
  rw [Fillable]
  by_cases hcount : count = 0
  · rw [emulateGetrandom, if_pos hcount]
    exact iff_of_true rfl (Or.inl hcount)
  rw [or_iff_right hcount]
  by_cases hbuf : buf = 0
  · rw [emulateGetrandom, if_neg hcount, if_pos hbuf]
    exact iff_of_false Bool.false_ne_true fun h => h.1 hbuf
  · rw [emulateGetrandom_eq hurandom hread hcount hbuf, and_iff_right hbuf,
      Tracee.writeStruct_ok_iff, length_drawn hread]

/-- **After it has succeeded** the buffer holds what was read. -/
theorem bytesAt_emulateGetrandom {env : Env} (hurandom : env.urandom = some read)
    (hread : ∀ off want, (read off want).isSome) (hbound : count ≤ 2 ^ 64) {buf : U64}
    {t t' : Tracee} (h : emulateGetrandom env t buf count = (t', true)) :
    t'.mem.bytesAt buf count = some (drawn read count) := by
  by_cases hcount : count = 0
  · subst hcount
    rw [List.eq_nil_of_length_eq_zero (length_drawn hread)]
    rfl
  by_cases hbuf : buf = 0
  · rw [emulateGetrandom, if_neg hcount, if_pos hbuf] at h
    exact absurd (congrArg Prod.snd h) Bool.false_ne_true
  · rw [emulateGetrandom_eq hurandom hread hcount hbuf] at h
    have hlen : (drawn read count).length = count := length_drawn hread
    have hbytes := Tracee.bytesAt_writeStruct (by rw [hlen]; exact hbound) h
    rwa [hlen] at hbytes

end

/-! ### The exit stop of a call -/

/-- The turn `v`, from the state `s'`, is about the exit stop of the call whose entry stop
is the turn `u` from the state `s`.  Other tracees, and signals of this one, are handled
in between. -/
inductive ExitOf (s : Tracer) (pid : Pid) (u : Turn) : Tracer → Turn → Prop
  | traced {between : List Turn} {v : Turn} (hmode : s.EverySyscall) (hu : u.wait = .syscall pid)
      (haside : ∀ x ∈ between, Aside pid x) (hv : v.wait = .syscall pid) :
      ExitOf s pid u (between.foldl Tracer.next (s.next u)) v
  /-- A filtered call comes to the entry stop that is owed first. -/
  | filtered {before after : List Turn} {e v : Turn} (hmode : s.Filtering)
      (hu : u.wait = .event pid PTRACE_EVENT_SECCOMP) (hbefore : ∀ x ∈ before, Aside pid x)
      (he : e.wait = .syscall pid) (hafter : ∀ x ∈ after, Aside pid x)
      (hv : v.wait = .syscall pid) :
      ExitOf s pid u (after.foldl Tracer.next ((before.foldl Tracer.next (s.next u)).next e)) v

section

variable {s s' : Tracer} {pid : Pid} {u v : Turn}

/-- A turn aside leaves an entry stop owed, or not. -/
theorem expectEntry_next_aside (h : Aside pid u) :
    (s.next u).expectEntry pid = s.expectEntry pid := by
  by_cases hpid : u.wait.pid = some pid
  · obtain ⟨sig, hsig⟩ := h hpid
    have hsignal : ∀ s : Tracer,
        (s.onSignal pid sig u.tracee).tracer.expectEntry pid = s.expectEntry pid := by
      intro s
      rw [Tracer.onSignal]
      split_ifs
      · rfl
      all_goals
        dsimp only
        split_ifs <;> rfl
    unfold Tracer.next Tracer.turn Tracer.handle
    rw [hsig]
    dsimp only
    rw [Tracer.onStopped]
    dsimp only
    split_ifs
    · rfl
    · exact hsignal _
    · exact hsignal _
  · exact congrArg Slot.expectEntry (Tracer.next_slot_of_ne s u hpid)

/-- What the turns aside leave as it is. -/
theorem foldl_aside {between : List Turn} (haside : ∀ x ∈ between, Aside pid x) (s : Tracer) :
    (between.foldl Tracer.next s).view pid = s.view pid ∧
      (between.foldl Tracer.next s).expectEntry pid = s.expectEntry pid := by
  induction between generalizing s with
  | nil => exact ⟨rfl, rfl⟩
  | cons x between ih =>
    obtain ⟨hview, hexpect⟩ := ih (fun y hy => haside y (List.mem_cons_of_mem x hy)) (s.next x)
    have hx : Aside pid x := haside x (List.mem_cons_self ..)
    exact ⟨hview.trans (Tracer.view_next_aside hx), hexpect.trans (expectEntry_next_aside hx)⟩

/-- **At the exit stop of a call that is not taken over, what its entry stop recorded is
collected.** -/
theorem ExitOf.turn_eq (h : ExitOf s pid u s' v) (hbefore : (s.view pid).active = none)
    (hentering : (s.view pid).inSyscall = false) (hidle : (s.next u).emulated.active pid = none)
    (howed : s.Filtering → (s.next u).expectEntry pid = true) :
    ∃ s₀ : Tracer, s₀.pending pid = (s.next u).pending pid ∧
      (s'.turn v).tracee = (s₀.onSyscallExit v.env pid v.tracee).2 := by
  cases h with
  | @traced between _ hmode hu haside hv =>
    have hinside : ((s.next u).view pid).inSyscall = true := by
      have hstep := Tracer.view_next_syscall hmode hu
      generalize s.view pid = w at hstep hbefore hentering
      generalize hw' : (s.next u).view pid = w' at hstep
      have hnone : w'.active = none := by
        rw [← hw']
        exact hidle
      cases hstep with
      | taken a ha => exact absurd hnone (by simp)
      | entry hp => rfl
      | exit hp => exact absurd hentering (by simp)
      | emulated hmoves => exact absurd hbefore (by simp)
    obtain ⟨hview, -⟩ := foldl_aside haside (s.next u)
    have hview' : (between.foldl Tracer.next (s.next u)).view pid =
        ⟨true, (s.next u).pending pid, none⟩ := by
      rw [hview, ← hinside, ← hidle]
      rfl
    obtain ⟨s₀, hpending, hturn⟩ := Tracer.turn_exit ((hmode.next u).foldl_next between) hview' hv
    exact ⟨s₀, hpending.trans (congrArg View.pending hview'), hturn⟩
  | @filtered before after e _ hmode hu hbefore' he hafter hv =>
    obtain ⟨hview₁, hexpect₁⟩ := foldl_aside hbefore' (s.next u)
    generalize hs₁ : before.foldl Tracer.next (s.next u) = s₁ at hview₁ hexpect₁ ⊢
    have hmode₁ : s₁.Filtering := by
      rw [← hs₁]
      exact foldl_keeps (fun _ x hx => hx.next x) (hmode.next u) before
    have hskip := Tracer.turn_owed hmode₁ he (hexpect₁.trans (howed hmode))
    obtain ⟨hview₂, hexpect₂⟩ := foldl_aside hafter (s₁.next e)
    have hmode₂ : (after.foldl Tracer.next (s₁.next e)).Filtering :=
      foldl_keeps (fun _ x hx => hx.next x) (hmode₁.next e) after
    have hdone : (s₁.next e).expectEntry pid = false := by
      rw [Tracer.next, hskip]
      exact Function.update_self ..
    have hpending : (s₁.next e).pending pid = s₁.pending pid := by
      rw [Tracer.next, hskip]
      rfl
    have hexit := Tracer.turn_unowed hmode₂ hv (hexpect₂.trans hdone)
    refine ⟨_, ?_, congrArg Handled.tracee hexit⟩
    calc ((after.foldl Tracer.next (s₁.next e)).ticked v).pending pid
        = (s₁.next e).pending pid := congrArg View.pending hview₂
      _ = s₁.pending pid := hpending
      _ = (s.next u).pending pid := congrArg View.pending hview₁

end

/-! ### The stops of a `getrandom` -/

/-- What the entry stop of a `getrandom` records. -/
def Pending.getrandom : Pending := ⟨some Nr.getrandom, none, none, none⟩

/-- A `getrandom` of 64-bit code, on a kernel without it, from the entry stop `u` in the
state `s` to the exit stop `v` in the state `s'`: nothing was recorded before, the kernel
leaves the argument registers alone, at the exit stop the tracee can be reached and its
buffer is mapped, and `read` is `/dev/urandom`. -/
structure GetrandomCall (s : Tracer) (pid : Pid) (u : Turn) (s' : Tracer) (v : Turn)
    (read : (off want : ℕ) → Option (Fin want → Byte)) : Prop where
  exit : ExitOf s pid u s' v
  before : s.view pid = ⟨false, Pending.empty, none⟩
  entry : Tracer.Reachable u.tracee
  number : u.tracee.regs.origRax = Nr.getrandom
  missing : u.env.host.getrandomMissing = true
  host : v.env.host = u.env.host
  kept : kept v.tracee.regs = kept u.tracee.regs
  reach : Tracer.Reachable v.tracee
  urandom : v.env.urandom = some read
  readable : ∀ off want, (read off want).isSome
  mapped : region u.tracee.regs.rdi u.tracee.regs.rsi.toNat ⊆ v.tracee.mem.mapped

/-- The `getrandom` made with the registers `regs` is answered at the exit stop `t`, which
leaves the tracee as `t'`: the emulation succeeds, the buffer holds the random bytes, and
the result is their number. -/
structure Answered (env : Env) (read : (off want : ℕ) → Option (Fin want → Byte)) (regs : Regs)
    (t t' : Tracee) : Prop where
  succeeds : (emulateGetrandom env t regs.rdi regs.rsi.toNat).2 = true
  filled : t'.mem.bytesAt regs.rdi regs.rsi.toNat = some (drawn read regs.rsi.toNat)
  result : t'.regs.rax = regs.rsi

section

variable {s s' : Tracer} {pid : Pid} {u v : Turn}
  {read : (off want : ℕ) → Option (Fin want → Byte)} {env : Env} {t t' : Tracee}

/-- The entry stop of a `getrandom` in every-syscall mode. -/
theorem onSyscallEntry_pending_getrandom (env : Env) (s : Tracer)
    (hreach : Tracer.Reachable t) (hnr : t.regs.origRax = Nr.getrandom)
    (hpending : s.pending pid = Pending.empty) :
    (s.onSyscallEntry env pid t).1.pending pid = Pending.getrandom ∧
      (s.onSyscallEntry env pid t).1.emulated = s.emulated := by
  rw [Tracer.onSyscallEntry, hreach.getregs]
  dsimp only
  rw [if_neg (not_not.2 hreach.long), translateCommon_getrandom env _ pid hnr]
  dsimp only
  rw [Tracer.rewriteEntry, hnr, if_neg (by simp), if_neg (by simp), if_neg (by simp),
    if_neg (by simp), if_neg (by simp), Tracer.update_lastSyscall, Tracer.pending_setPending,
    hpending]
  exact ⟨rfl, rfl⟩

/-- The stop of the filter at a `getrandom`. -/
theorem onSeccompStop_pending_getrandom (s : Tracer) (hreach : Tracer.Reachable t)
    (hnr : t.regs.origRax = Nr.getrandom) (hmissing : env.host.getrandomMissing = true)
    (hpending : s.pending pid = Pending.empty) :
    (s.onSeccompStop env pid t).1.pending pid = Pending.getrandom ∧
      (s.onSeccompStop env pid t).1.emulated = s.emulated ∧
      (s.onSeccompStop env pid t).2.2 = true := by
  rw [Tracer.onSeccompStop, hreach.getregs]
  dsimp only
  rw [translateCommon_getrandom env s pid hnr]
  dsimp only
  rw [if_pos ⟨hnr, hmissing⟩, Tracer.update_lastSyscall, Tracer.pending_setPending, hpending, hnr]
  exact ⟨rfl, rfl, rfl⟩

/-- At the exit stop of a `getrandom` there is nothing else to do. -/
theorem exitStop_getrandom (hpending : s.pending pid = Pending.getrandom) (env : Env)
    (t : Tracee) : s.exitStop env pid t t.regs =
      ExitStop.normalizeEcho env (some Nr.getrandom)
        (ExitStop.finishGetrandom env (some Nr.getrandom) ⟨t, t.regs, false⟩).2
        (ExitStop.finishGetrandom env (some Nr.getrandom) ⟨t, t.regs, false⟩).1 := by
  have hlast : s.lastSyscall pid = some Nr.getrandom := congrArg Pending.lastSyscall hpending
  have hstatx : s.statx pid = none := congrArg Pending.statx hpending
  have htermios2 : s.termios2Get pid = none := congrArg Pending.termios2Get hpending
  have hreserved : s.reserved pid = none := congrArg Pending.reserved hpending
  rw [Tracer.exitStop, hlast, hstatx, htermios2, hreserved]
  rfl

/-- What an answer to a `getrandom` puts in place of its number. -/
def getrandomResult (ok : Bool) (regs : Regs) : U64 :=
  if ok = true then regs.rsi else asU64 (-Errno.ENOSYS)

/-- The emulation at the exit stop, where it succeeds, and where the number of the call has
come back. -/
theorem finishGetrandom_eq {ok : Bool} (hmissing : env.host.getrandomMissing = true)
    (h : emulateGetrandom env t t.regs.rdi t.regs.rsi.toNat = (t', ok))
    (hrax : ok = false → t.regs.rax = Nr.getrandom) :
    ExitStop.finishGetrandom env (some Nr.getrandom) ⟨t, t.regs, false⟩ =
      (⟨t', { t.regs with rax := getrandomResult ok t.regs }, true⟩, ok) := by
  rw [ExitStop.finishGetrandom, if_pos ⟨rfl, hmissing⟩]
  dsimp only
  rw [h]
  cases ok with
  | true => rfl
  | false => exact congrArg (·, false) (if_pos (hrax rfl))

/-- The exit stop of a `getrandom` that is answered, or whose number has come back. -/
theorem onSyscallExit_getrandom {ok : Bool} (hpending : s.pending pid = Pending.getrandom)
    (hreach : Tracer.Reachable t) (hmissing : env.host.getrandomMissing = true)
    (h : emulateGetrandom env t t.regs.rdi t.regs.rsi.toNat = (t', ok))
    (hrax : ok = false → t.regs.rax = Nr.getrandom) :
    (s.onSyscallExit env pid t).2 =
      { t' with regs := { t.regs with rax := getrandomResult ok t.regs } } := by
  have hsame := ExitStop.emulateGetrandom_sameRegs env t t.regs.rdi t.regs.rsi.toNat
  rw [h] at hsame
  -- What was synthesised is no echo, and an error is no number.
  have hecho : ¬((!ok) = true ∧ getrandomResult ok t.regs = Nr.getrandom) := by
    rintro ⟨hfailed, he⟩
    rw [Bool.not_eq_true'] at hfailed
    subst hfailed
    exact absurd he (show asU64 (-Errno.ENOSYS) ≠ Nr.getrandom by decide)
  rw [Tracer.onSyscallExit, hreach.getregs]
  dsimp only
  rw [if_neg (not_not.2 hreach.long), exitStop_getrandom hpending,
    finishGetrandom_eq hmissing h hrax, ExitStop.normalizeEcho,
    if_neg fun h' => hecho ⟨h'.1, h'.2.2⟩, ExitStop.commit, if_pos rfl]
  exact Tracee.putregs_of_canSet (hsame.canSet.trans hreach.canSet) _

/-- **At the exit stop of a `getrandom` the call is recorded, and nothing else is.** -/
theorem GetrandomCall.turn_eq (h : GetrandomCall s pid u s' v read) :
    ∃ s₀ : Tracer, s₀.pending pid = Pending.getrandom ∧
      (s'.turn v).tracee = (s₀.onSyscallExit v.env pid v.tracee).2 := by
  have hpending : s.pending pid = Pending.empty := congrArg View.pending h.before
  have hactive : (s.view pid).active = none := congrArg View.active h.before
  have hentering : (s.view pid).inSyscall = false := congrArg View.inSyscall h.before
  have hticked : (s.ticked u).emulated.active pid = none :=
    (Tracer.active_ticked s u pid).trans hactive
  -- What the entry stop leaves, in either mode.
  have hafter : (s.next u).pending pid = Pending.getrandom ∧
      (s.next u).emulated.active pid = none ∧
      (s.Filtering → (s.next u).expectEntry pid = true) := by
    cases h.exit with
    | traced hmode hu haside hv =>
      obtain ⟨hnext, -⟩ := Tracer.turn_declined hmode hu hactive (begin_getrandom _ _ _ _ h.number)
      have hin : (s.ticked u).entering pid = true := by
        rw [Tracer.entering_ticked, hentering]
        rfl
      obtain ⟨hrecorded, hemulated⟩ :=
        onSyscallEntry_pending_getrandom u.env ((s.ticked u).setInSyscall pid true) h.entry
          h.number hpending
      rw [hnext, Tracer.onSyscallStop, hin, if_pos rfl]
      refine ⟨hrecorded, ?_, fun hfilter => absurd hfilter hmode.not_filtering⟩
      rw [hemulated]
      exact hticked
    | filtered hmode hu _ _ _ _ =>
      obtain ⟨hrecorded, hemulated, hexit⟩ :=
        onSeccompStop_pending_getrandom (s.ticked u) h.entry h.number h.missing hpending
      obtain ⟨-, ⟨-, -, hnext⟩ | ⟨hno, -, -⟩⟩ := Tracer.turn_seccomp hmode hu
      · rw [hnext]
        refine ⟨hrecorded, ?_, fun _ => Function.update_self ..⟩
        show ((s.ticked u).onSeccompStop u.env pid u.tracee).1.emulated.active pid = none
        rw [hemulated]
        exact hticked
      · exact absurd (hexit.symm.trans hno) (by decide)
  obtain ⟨hrecorded, hidle, howed⟩ := hafter
  obtain ⟨s₀, hpending', hturn⟩ := h.exit.turn_eq hactive hentering hidle howed
  exact ⟨s₀, hpending'.trans hrecorded, hturn⟩

/-- **When a `getrandom` is answered**: if it asks for nothing, or its buffer is not null
and the words that it lies in are mapped, to the last byte of the last one. -/
theorem getrandom_answered_iff (h : GetrandomCall s pid u s' v read) :
    Answered v.env read u.tracee.regs v.tracee (s'.turn v).tracee ↔
      Fillable v.tracee.mem u.tracee.regs.rdi u.tracee.regs.rsi.toNat := by
  have hrdi : v.tracee.regs.rdi = u.tracee.regs.rdi := congrArg Kept.rdi h.kept
  have hrsi : v.tracee.regs.rsi = u.tracee.regs.rsi := congrArg Kept.rsi h.kept
  rw [← emulateGetrandom_ok_iff h.urandom h.readable v.tracee]
  constructor
  · exact Answered.succeeds
  · intro hok
    obtain ⟨s₀, hpending, hturn⟩ := h.turn_eq
    generalize hemulate : emulateGetrandom v.env v.tracee u.tracee.regs.rdi
      u.tracee.regs.rsi.toNat = r at hok
    obtain ⟨t', ok⟩ := r
    obtain rfl : ok = true := hok
    have hmissing : v.env.host.getrandomMissing = true := by
      rw [h.host]
      exact h.missing
    have hemulate' : emulateGetrandom v.env v.tracee v.tracee.regs.rdi
        v.tracee.regs.rsi.toNat = (t', true) := by
      rw [hrdi, hrsi]
      exact hemulate
    have hexit := onSyscallExit_getrandom hpending h.reach hmissing hemulate'
      fun hfailed => absurd hfailed (by decide)
    have hbound : u.tracee.regs.rsi.toNat ≤ 2 ^ 64 := u.tracee.regs.rsi.isLt.le
    have hfilled := bytesAt_emulateGetrandom h.urandom h.readable hbound hemulate
    refine ⟨congrArg Prod.snd hemulate, ?_, ?_⟩
    · rw [hturn, hexit]
      exact hfilled
    · rw [hturn, hexit]
      exact hrsi

end

/-- A tracee in a `getrandom` of `count` bytes at `buf`. -/
def inGetrandom (buf count : U64) (mem : Memory) : Tracee :=
  { Tracee.entryOf Nr.getrandom buf count 0 0 with mem }

/-- A device that gives zeros. -/
def zeros (_off want : ℕ) : Option (Fin want → Byte) := some fun _ => 0

/-- The call on a 2.6.18 kernel, where every call is traced. -/
theorem getrandomCall_old (buf count : U64) {mem : Memory}
    (h : region buf count.toNat ⊆ mem.mapped) :
    GetrandomCall (.new 1 true false) 1 (Tracer.oldTurn (.syscall 1) (inGetrandom buf count mem))
      ((Tracer.new 1 true false).next (Tracer.oldTurn (.syscall 1) (inGetrandom buf count mem)))
      (Tracer.oldTurn (.syscall 1) (inGetrandom buf count mem)) zeros where
  exit := @ExitOf.traced _ _ _ [] _ ⟨rfl, rfl⟩ rfl (fun _ hx => absurd hx List.not_mem_nil) rfl
  before := rfl
  entry := ⟨rfl, rfl, rfl⟩
  number := rfl
  missing := rfl
  host := rfl
  kept := rfl
  reach := ⟨rfl, rfl, rfl⟩
  urandom := rfl
  readable _ _ := rfl
  mapped := h

/-- Twelve bytes, where all memory is mapped. -/
theorem getrandom_answered_iff_twelve :
    let u := Tracer.oldTurn (.syscall 1) (inGetrandom 0x4000 12 fun _ => some 0)
    Answered u.env zeros u.tracee.regs u.tracee
      (((Tracer.new 1 true false).next u).turn u).tracee :=
  (getrandom_answered_iff (getrandomCall_old 0x4000 12 fun _ _ => Option.isSome_some)).2
    (Or.inr ⟨by decide, fun _ _ => Option.isSome_some⟩)

/-- Memory that ends before `0x2000`. -/
def pageEnd : Memory := fun a => if a.toNat < 0x2000 then some 0 else none

/-- **Four bytes at the end of a mapping are not filled**: the word they begin is not
mapped to its end. -/
theorem last_word_unmapped :
    ¬∀ (s : Tracer) (pid : Pid) (u : Turn) (s' : Tracer) (v : Turn)
      (read : (off want : ℕ) → Option (Fin want → Byte)), GetrandomCall s pid u s' v read →
      Answered v.env read u.tracee.regs v.tracee (s'.turn v).tracee := by
  intro hall
  have hmapped : region (0x1ffc : U64) 4 ⊆ pageEnd.mapped := by
    intro a ha
    rw [mem_region_iff (by decide)] at ha
    have hlt : a.toNat < 0x2000 := ha.2
    show (pageEnd a).isSome
    rw [pageEnd, if_pos hlt]
    rfl
  have hanswered := hall _ _ _ _ _ _ (getrandomCall_old 0x1ffc 4 hmapped)
  rcases (emulateGetrandom_ok_iff rfl (fun _ _ => rfl) _).1 hanswered.succeeds with h | ⟨-, h⟩
  · exact absurd h (by decide)
  · have hbeyond : (0x2000 : U64) ∈ pageEnd.mapped := h (by rw [mem_region]; decide)
    exact absurd hbeyond (show ¬(pageEnd 0x2000).isSome by decide)

end Tracing
end Sharun
