/-
# A stopped tracee: its registers and its memory

`src/kernel_compat.rs` reaches a tracee through four requests: `getregs`,
`setregs`, and the word accesses `PTRACE_PEEKDATA` and `PTRACE_POKEDATA`
(`peek_word`, `poke_word`), over which `read_struct` and `write_struct` move
whole structures.

Registers and addresses are the machine's own 64-bit words (`U64`), memory is a
partial map from addresses to bytes, undefined where nothing is mapped.  A word
access fails exactly when one of its eight bytes is not mapped, and a poke that
fails has written the bytes before that one; a register access fails when the
tracee cannot be reached (`canGet`, `canSet`).
-/

import Mathlib.Data.BitVec
import Mathlib.Data.List.Basic

namespace Sharun
namespace Machine

abbrev U64 := BitVec 64

abbrev Byte := BitVec 8

/-- `Pid::as_raw`, by which every table of the tracer is keyed. -/
abbrev Pid := ℕ

/-- `user_regs_struct` of x86_64, in its order. -/
structure Regs where
  r15 : U64
  r14 : U64
  r13 : U64
  r12 : U64
  rbp : U64
  rbx : U64
  r11 : U64
  r10 : U64
  r9 : U64
  r8 : U64
  rax : U64
  rcx : U64
  rdx : U64
  rsi : U64
  rdi : U64
  origRax : U64
  rip : U64
  cs : U64
  eflags : U64
  rsp : U64
  ss : U64
  fsBase : U64
  gsBase : U64
  ds : U64
  es : U64
  fs : U64
  gs : U64
  deriving DecidableEq, Repr, Inhabited

/-- Bytes by address, `none` where nothing is mapped. -/
abbrev Memory := U64 → Option Byte

/-- A tracee in a ptrace stop, as the tracer can see and change it. -/
structure Tracee where
  regs : Regs
  mem : Memory
  /-- `PTRACE_GETREGS` succeeds. -/
  canGet : Bool
  /-- `PTRACE_SETREGS` succeeds. -/
  canSet : Bool

namespace Tracee

/-- `ptrace::getregs(pid)`. -/
def getregs (t : Tracee) : Option Regs := if t.canGet then some t.regs else none

/-- `ptrace::setregs(pid, regs)`, `none` on error. -/
def setregs (t : Tracee) (regs : Regs) : Option Tracee :=
  if t.canSet then some { t with regs := regs } else none

/-- `let _ = ptrace::setregs(pid, regs)`. -/
def putregs (t : Tracee) (regs : Regs) : Tracee := (t.setregs regs).getD t

theorem getregs_eq_some {t : Tracee} {r : Regs} :
    t.getregs = some r ↔ t.canGet = true ∧ t.regs = r := by
  unfold getregs; split_ifs with h <;> simp [h]

theorem getregs_eq_none {t : Tracee} : t.getregs = none ↔ t.canGet = false := by
  unfold getregs; split_ifs with h <;> simp [h]

theorem setregs_eq_some {t t' : Tracee} {r : Regs} :
    t.setregs r = some t' ↔ t.canSet = true ∧ t' = { t with regs := r } := by
  unfold setregs; split_ifs with h <;> simp [h, eq_comm]

theorem setregs_eq_none {t : Tracee} {r : Regs} : t.setregs r = none ↔ t.canSet = false := by
  unfold setregs; split_ifs with h <;> simp [h]

theorem putregs_of_canSet {t : Tracee} (h : t.canSet = true) (r : Regs) :
    t.putregs r = { t with regs := r } := by
  simp [putregs, setregs, h]

theorem putregs_of_not_canSet {t : Tracee} (h : t.canSet = false) (r : Regs) :
    t.putregs r = t := by
  simp [putregs, setregs, h]

@[simp] theorem putregs_mem (t : Tracee) (r : Regs) : (t.putregs r).mem = t.mem := by
  unfold putregs setregs; split_ifs <;> rfl

@[simp] theorem putregs_canGet (t : Tracee) (r : Regs) : (t.putregs r).canGet = t.canGet := by
  unfold putregs setregs; split_ifs <;> rfl

@[simp] theorem putregs_canSet (t : Tracee) (r : Regs) : (t.putregs r).canSet = t.canSet := by
  unfold putregs setregs; split_ifs <;> rfl

end Tracee

/-! ### Words and bytes -/

/-- The `n` bytes of a word, lowest first (`to_le_bytes`). -/
def leBytes {w : ℕ} (n : ℕ) (x : BitVec w) : List Byte :=
  (List.range n).map fun i => (x >>> (8 * i)).setWidth 8

/-- The number a byte list spells, lowest byte first. -/
def leNat (bytes : List Byte) : ℕ := bytes.foldr (fun b acc => b.toNat + 256 * acc) 0

/-- `u64::from_le_bytes`. -/
def leU64 (bytes : List Byte) : U64 := BitVec.ofNat 64 (leNat bytes)

/-- `u32::from_le_bytes`. -/
def leU32 (bytes : List Byte) : BitVec 32 := BitVec.ofNat 32 (leNat bytes)

/-- `i64::from_le_bytes`. -/
def leI64 (bytes : List Byte) : ℤ := (leU64 bytes).toInt

/-- `i32::from_ne_bytes` on a little-endian machine. -/
def leI32 (bytes : List Byte) : ℤ := (leU32 bytes).toInt

@[simp] theorem leBytes_length {w : ℕ} (n : ℕ) (x : BitVec w) : (leBytes n x).length = n := by
  simp [leBytes]

/-- `i64::wrapping_*`: the release build computes `i64` sums modulo `2^64`. -/
def wrapI64 (x : ℤ) : ℤ := (x + 2 ^ 63) % 2 ^ 64 - 2 ^ 63

theorem wrapI64_of_range {x : ℤ} (h₁ : -2 ^ 63 ≤ x) (h₂ : x < 2 ^ 63) : wrapI64 x = x := by
  unfold wrapI64; omega

/-- `x as u64` of an `i64`. -/
def asU64 (x : ℤ) : U64 := BitVec.ofInt 64 x

/-! ### Word accesses and whole structures -/

namespace Memory

/-- The `n` bytes from an address on, when all of them are mapped. -/
def bytesAt (m : Memory) (addr : U64) : ℕ → Option (List Byte)
  | 0 => some []
  | n + 1 => do
    let byte ← m addr
    let rest ← bytesAt m (addr + 1) n
    return byte :: rest

/-- `peek_word(pid, addr)`: a word access needs all its eight bytes mapped. -/
def peekWord (m : Memory) (addr : U64) : Option U64 := (m.bytesAt addr 8).map leU64

/-- `poke_word(pid, addr, val)`: the memory afterwards and whether the access succeeded.
The kernel writes the word up to its first byte that is not mapped. -/
def pokeWord (m : Memory) (addr val : U64) : Memory × Bool :=
  (fun a =>
    if (a - addr).toNat < 8 ∧ (m.bytesAt addr ((a - addr).toNat + 1)).isSome then
      some ((val >>> (8 * (a - addr).toNat)).setWidth 8)
    else m a,
  (m.peekWord addr).isSome)

/-- The loop of `read_struct`: `n` words from `addr` on. -/
def readWords (m : Memory) (addr : U64) : ℕ → Option (List Byte)
  | 0 => some []
  | n + 1 => do
    let word ← m.peekWord addr
    let rest ← readWords m (addr + 8) n
    return leBytes 8 word ++ rest

/-- `read_struct(pid, addr, len)`. -/
def readStruct (m : Memory) (addr : U64) (len : ℕ) : Option (List Byte) :=
  (m.readWords addr ((len + 7) / 8)).map (List.take len)

/-- The loop of `write_struct`: a full chunk is written as it is, a short tail is
merged with the word that is there. -/
def writeWords (m : Memory) (addr : U64) (bytes : List Byte) : ℕ → Memory × Bool
  | 0 => (m, true)
  | n + 1 =>
    let chunk :=
      if 8 ≤ bytes.length then bytes.take 8
      else bytes ++ (leBytes 8 ((m.peekWord addr).getD 0)).drop bytes.length
    match m.pokeWord addr (leU64 chunk) with
    | (m', false) => (m', false)
    | (m', true) => writeWords m' (addr + 8) (bytes.drop 8) n

/-- `write_struct(pid, addr, bytes)`: the memory afterwards and whether every
poke succeeded. -/
def writeStruct (m : Memory) (addr : U64) (bytes : List Byte) : Memory × Bool :=
  m.writeWords addr bytes ((bytes.length + 7) / 8)

end Memory

namespace Tracee

/-- `write_struct` on the tracee's memory. -/
def writeStruct (t : Tracee) (addr : U64) (bytes : List Byte) : Tracee × Bool :=
  ({ t with mem := (t.mem.writeStruct addr bytes).1 }, (t.mem.writeStruct addr bytes).2)

@[simp] theorem writeStruct_regs (t : Tracee) (addr : U64) (bytes : List Byte) :
    (t.writeStruct addr bytes).1.regs = t.regs := rfl

@[simp] theorem writeStruct_canGet (t : Tracee) (addr : U64) (bytes : List Byte) :
    (t.writeStruct addr bytes).1.canGet = t.canGet := rfl

@[simp] theorem writeStruct_canSet (t : Tracee) (addr : U64) (bytes : List Byte) :
    (t.writeStruct addr bytes).1.canSet = t.canSet := rfl

/-- Two views of one stop of a tracee: they differ in its memory at most. -/
structure SameRegs (t t' : Tracee) : Prop where
  regs : t'.regs = t.regs
  canGet : t'.canGet = t.canGet
  canSet : t'.canSet = t.canSet

theorem SameRegs.refl (t : Tracee) : t.SameRegs t := ⟨rfl, rfl, rfl⟩

theorem SameRegs.trans {a b c : Tracee} (h : a.SameRegs b) (h' : b.SameRegs c) : a.SameRegs c :=
  ⟨h'.regs.trans h.regs, h'.canGet.trans h.canGet, h'.canSet.trans h.canSet⟩

theorem SameRegs.getregs {t t' : Tracee} (h : t.SameRegs t') : t'.getregs = t.getregs := by
  unfold Tracee.getregs; rw [h.canGet, h.regs]

theorem SameRegs.of_writeStruct {t t' : Tracee} {addr : U64} {bytes : List Byte} {ok : Bool}
    (h : t.writeStruct addr bytes = (t', ok)) : t.SameRegs t' := by
  obtain rfl : (t.writeStruct addr bytes).1 = t' := congrArg Prod.fst h
  exact ⟨rfl, rfl, rfl⟩

/-- A 64-bit tracee at the entry stop of a call, its other registers zero, with a
`syscall` instruction at every even address and its stack at `0x8000`. -/
def entryOf (nr a0 a1 a2 a3 : U64) : Tracee where
  regs :=
    { (default : Regs) with
      origRax := nr, rdi := a0, rsi := a1, rdx := a2, r10 := a3
      rip := 0x1002, cs := 0x33, rsp := 0x8000 }
  mem a := some (if a.getLsbD 0 then 0x05 else 0x0f)
  canGet := true
  canSet := true

/-- The tracee at the exit stop of a call with this result. -/
def exitOf (result : U64) : Tracee :=
  { entryOf 0 0 0 0 0 with regs := { (entryOf 0 0 0 0 0).regs with rax := result } }

end Tracee

end Machine
end Sharun
