/-
# Calls rewritten in place: the syscall stops of `src/kernel_compat.rs`

At an entry stop a call the kernel lacks, or has in an older form, is replaced by
one it has (`onSyscallStop`, `onSeccompStop`); what the replacement needs at its
exit stop is kept per tracee in the tables of `Tracer` until `onSyscallExit`
applies it.  Both tracing modes share `translateCommon` and `onSyscallExit`.

Each function takes the tracer and the stopped tracee and returns them as it
leaves them.  A `HashMap` that is only looked up is a partial function, a
`HashSet` its characteristic function.  The diagnostics are left out.
-/

import Sharun.Emulation.Syscalls

namespace Sharun
namespace Tracing

open Machine Emulation

/-! ### Constants -/

abbrev FUTEX_CMD_MASK : BitVec 32 := 0x7f

abbrev FUTEX_WAIT : BitVec 32 := 0

abbrev FUTEX_WAKE : BitVec 32 := 1

abbrev FUTEX_WAIT_BITSET : BitVec 32 := 9

abbrev FUTEX_WAKE_BITSET : BitVec 32 := 10

abbrev FUTEX_CLOCK_REALTIME : BitVec 32 := 256

abbrev TCGETS2 : U64 := 0x802c542a

abbrev TCSETS2 : U64 := 0x402c542b

abbrev TCSETSW2 : U64 := 0x402c542c

abbrev TCSETSF2 : U64 := 0x402c542d

abbrev TCGETS : U64 := 0x5401

abbrev TCSETS : U64 := 0x5402

abbrev TCSETSW : U64 := 0x5403

abbrev TCSETSF : U64 := 0x5404

/-- Byte offset of `c_ispeed` in `struct termios2`. -/
abbrev TERMIOS2_ISPEED : ℕ := 36

abbrev AT_SYMLINK_NOFOLLOW : U64 := 0x100

abbrev AT_EMPTY_PATH : U64 := 0x1000

abbrev CLOCK_REALTIME : ℤ := 0

abbrev CLOCK_MONOTONIC : ℤ := 1

/-! ### The state -/

/-- `StatxState`. -/
structure StatxState where
  statxbuf : U64
  scratch : U64
  deriving DecidableEq

/-- `Tracer`. -/
structure Tracer where
  child : Pid
  configured : Pid → Bool
  inSyscall : Pid → Option Bool
  lastSyscall : Pid → Option U64
  statx : Pid → Option StatxState
  termios2Get : Pid → Option U64
  emulated : Emulations
  reserved : Pid → Option U64
  stashedSignal : Pid → Option ℤ
  expectEntry : Pid → Bool
  syscallMode : Bool
  seccompMode : Bool
  mainCode : Option ℤ

namespace Tracer

/-- The tracer `supervise` starts its loop with. -/
def new (child : Pid) (syscallMode seccompMode : Bool) : Tracer where
  child
  configured pid := pid = child
  inSyscall _ := none
  lastSyscall _ := none
  statx _ := none
  termios2Get _ := none
  emulated := Emulations.new
  reserved _ := none
  stashedSignal _ := none
  expectEntry _ := false
  syscallMode
  seccompMode
  mainCode := none

/-- `!*self.in_syscall.get(&pid).unwrap_or(&false)`: the next syscall stop is an entry. -/
def entering (self : Tracer) (pid : Pid) : Bool := !(self.inSyscall pid).getD false

/-- `self.in_syscall.insert(pid, inside)`. -/
def setInSyscall (self : Tracer) (pid : Pid) (inside : Bool) : Tracer :=
  { self with inSyscall := Function.update self.inSyscall pid (some inside) }

/-- The records an exit stop collects are dropped. -/
def clearPending (self : Tracer) (pid : Pid) : Tracer :=
  { self with
    termios2Get := Function.update self.termios2Get pid none
    statx := Function.update self.statx pid none
    reserved := Function.update self.reserved pid none
    lastSyscall := Function.update self.lastSyscall pid none }

/-- `forget(pid)`: all state of a tracee that is gone is dropped. -/
def forget (self : Tracer) (pid : Pid) : Tracer :=
  { self.clearPending pid with
    configured := Function.update self.configured pid false
    inSyscall := Function.update self.inSyscall pid none
    emulated := self.emulated.forget pid
    stashedSignal := Function.update self.stashedSignal pid none
    expectEntry := Function.update self.expectEntry pid false }

end Tracer

/-! ### Rewrites at the entry stop -/

/-- `reserve_relative_timeout`: the deadline at `timeoutPtr` as a timeout in scratch
space below the stack.  `error` when it cannot be converted, `ok none` when there
is none. -/
def reserveRelativeTimeout (env : Env) (t : Tracee) (timeoutPtr : U64) (realtime : Bool)
    (savedRsp : U64) : Tracee × Except Unit (Option U64) :=
  if timeoutPtr = 0 then (t, .ok none)
  else match t.mem.readStruct timeoutPtr 16 with
    | none => (t, .error ())
    | some raw =>
      match env.clock 0 (if realtime then CLOCK_REALTIME else CLOCK_MONOTONIC) with
      | none => (t, .error ())
      | some now =>
        -- The same borrow and the same clamp at zero as `sub` of the emulated calls.
        let left := Time.sub (timeAt raw 0) now
        let scratch := (savedRsp - 512) &&& ~~~0xf
        match t.writeStruct scratch (leBytes 8 (asU64 left.sec) ++ leBytes 8 (asU64 left.nsec)) with
        | (t, false) => (t, .error ())
        | (t, true) => (t, .ok (some scratch))

/-- The command handed to the kernel in place of a futex command. -/
def futexCmd (cmd : BitVec 32) : BitVec 32 :=
  if cmd = FUTEX_WAIT_BITSET then FUTEX_WAIT
  else if cmd = FUTEX_WAKE_BITSET then FUTEX_WAKE
  else cmd

/-- `legacy_termios_request`. -/
def legacyTermiosRequest (request : U64) : Option U64 :=
  if request = TCGETS2 then some TCGETS
  else if request = TCSETS2 then some TCSETS
  else if request = TCSETSW2 then some TCSETSW
  else if request = TCSETSF2 then some TCSETSF
  else none

/-- The millisecond timeout `ppoll` is given to `poll` with: `-1` for none, or for
one that cannot be read. -/
def ppollTimeout (t : Tracee) (ts : U64) : ℤ :=
  if ts = 0 then -1
  else match t.mem.readStruct ts 16 with
    | none => -1
    | some bytes =>
      let time := timeAt bytes 0
      let sat (x : ℤ) : ℤ := max (-2 ^ 63) (min (2 ^ 63 - 1) x)
      max (-1) (min (2 ^ 31 - 1) (sat (sat (time.sec * 1000) + time.nsec.tdiv 1000000)))

namespace Tracer

/-- `translate_futex`. -/
def translateFutex (env : Env) (self : Tracer) (pid : Pid) (t : Tracee) (regs : Regs) :
    Tracer × Tracee × Bool :=
  if !env.host.kernelLt 2 6 29 then (self, t, false)
  else
    let op := regs.rsi.setWidth 32
    let cmd := op &&& FUTEX_CMD_MASK
    let realtime : Bool := op &&& FUTEX_CLOCK_REALTIME ≠ 0
    let newCmd := futexCmd cmd
    if newCmd = op then (self, t, false)
    else if newCmd = FUTEX_WAIT ∧ (cmd = FUTEX_WAIT_BITSET ∨ realtime = true) then
      match reserveRelativeTimeout env t regs.r10 realtime regs.rsp with
      | (t, .error _) => (self, t, false)
      | (t, .ok none) => (self, t.putregs { regs with rsi := newCmd.setWidth 64 }, false)
      | (t, .ok (some scratch)) =>
        ({ self with reserved := Function.update self.reserved pid (some regs.rsp) },
          t.putregs { regs with rsp := scratch, r10 := scratch, rsi := newCmd.setWidth 64 }, true)
    else (self, t.putregs { regs with rsi := newCmd.setWidth 64 }, false)

/-- The registers of the call `setup_statx` puts in place of a `statx`. -/
def statxFallback (regs : Regs) : Regs :=
  let scratch := scratchFor regs
  if regs.rdx &&& AT_EMPTY_PATH ≠ 0 then
    { regs with rsp := scratch, rsi := scratch, rdx := 0, origRax := Nr.fstat, rax := Nr.fstat }
  else
    { regs with
      rsp := scratch, r10 := regs.rdx &&& AT_SYMLINK_NOFOLLOW, rdx := scratch,
      origRax := Nr.newfstatat, rax := Nr.newfstatat }

/-- `setup_statx`. -/
def setupStatx (self : Tracer) (pid : Pid) (t : Tracee) (regs : Regs) : Tracer × Tracee :=
  if regs.r8 = 0 then (self, t)
  else match t.setregs (statxFallback regs) with
    | none => (self, t)
    | some t =>
      ({ self with
          reserved := Function.update self.reserved pid (some regs.rsp)
          statx := Function.update self.statx pid (some ⟨regs.r8, scratchFor regs⟩) }, t)

/-- `setup_termios2`. -/
def setupTermios2 (self : Tracer) (pid : Pid) (t : Tracee) (regs : Regs) : Tracer × Tracee :=
  if regs.cs ≠ userCs then (self, t)
  else match legacyTermiosRequest regs.rsi with
    | none => (self, t)
    | some legacy =>
      match t.setregs { regs with rsi := legacy } with
      | none => (self, t)
      | some t =>
        if legacy = TCGETS then
          ({ self with termios2Get := Function.update self.termios2Get pid (some regs.rdx) }, t)
        else (self, t)

/-- `translate_common`: `some needsExit` when the call is one both modes rewrite. -/
def translateCommon (env : Env) (self : Tracer) (pid : Pid) (t : Tracee) (regs : Regs) :
    Tracer × Tracee × Option Bool :=
  if regs.origRax = Nr.futex then
    let (self, t, needsExit) := self.translateFutex env pid t regs
    (self, t, some needsExit)
  else if regs.origRax = Nr.pipe2 ∧ env.host.pipe2Missing then
    (self, t.putregs { regs with origRax := Nr.pipe, rax := Nr.pipe }, some false)
  else if regs.origRax = Nr.statx ∧ env.host.statxMissing then
    let (self, t) := self.setupStatx pid t regs
    (self, t, some true)
  else (self, t, none)

/-- `on_seccomp_stop`: whether the exit stop is needed too. -/
def onSeccompStop (env : Env) (self : Tracer) (pid : Pid) (t : Tracee) : Tracer × Tracee × Bool :=
  match t.getregs with
  | none => (self, t, false)
  | some regs =>
    match self.translateCommon env pid t regs with
    | (self, t, some needsExit) => (self, t, needsExit)
    | (self, t, none) =>
      if regs.origRax = Nr.getrandom ∧ env.host.getrandomMissing then
        ({ self with
            lastSyscall := Function.update self.lastSyscall pid (some regs.origRax) }, t, true)
      else (self, t, false)

/-- `prlimit64` on the calling process becomes `getrlimit` or `setrlimit`. -/
def prlimitFallback (regs : Regs) : Regs :=
  let setting : Bool := regs.rdx ≠ 0
  let number := if setting then Nr.setrlimit else Nr.getrlimit
  { regs with
    origRax := number, rax := number, rdi := regs.rsi,
    rsi := if setting then regs.rdx else regs.r10 }

/-- The chain of rewrites of `on_syscall_stop` after `translate_common`. -/
def rewriteEntry (env : Env) (self : Tracer) (pid : Pid) (t : Tracee) (regs : Regs) :
    Tracer × Tracee :=
  if regs.origRax = Nr.epollCreate1 ∧ env.host.epollCreate1Missing then
    (self, t.putregs { regs with origRax := Nr.epollCreate, rax := Nr.epollCreate, rdi := 1 })
  else if regs.origRax = Nr.prlimit64 ∧ env.host.prlimit64Missing then
    if regs.rdi = 0 then (self, t.putregs (prlimitFallback regs)) else (self, t)
  else if regs.origRax = Nr.ioctl ∧ env.host.termios2Missing then
    self.setupTermios2 pid t regs
  else if regs.origRax = Nr.clockGettime ∨ regs.origRax = Nr.clockGetres ∨
      regs.origRax = Nr.clockNanosleep then
    let useInstead := env.host.clockidFor regs.rdi
    if useInstead ≠ regs.rdi then (self, t.putregs { regs with rdi := useInstead }) else (self, t)
  else if regs.origRax = Nr.ppoll ∧ env.host.ppollMissing then
    (self,
      t.putregs { regs with
        rdx := asU64 (ppollTimeout t regs.rdx), origRax := Nr.poll, rax := Nr.poll })
  else (self, t)

/-- The entry half of `on_syscall_stop`. -/
def onSyscallEntry (env : Env) (self : Tracer) (pid : Pid) (t : Tracee) : Tracer × Tracee :=
  match t.getregs with
  | none => (self, t)
  | some regs =>
    if regs.cs ≠ userCs then (self, t)
    else
      let self :=
        { self with lastSyscall := Function.update self.lastSyscall pid (some regs.origRax) }
      match self.translateCommon env pid t regs with
      | (self, t, some _) => (self, t)
      | (self, t, none) => self.rewriteEntry env pid t regs

end Tracer

/-! ### Results at the exit stop -/

/-- `baud_from_cflag`. -/
def baudFromCflag (cflag : BitVec 32) : ℕ :=
  match (cflag &&& 0x100f).toNat with
  | 0x0001 => 50
  | 0x0002 => 75
  | 0x0003 => 110
  | 0x0004 => 134
  | 0x0005 => 150
  | 0x0006 => 200
  | 0x0007 => 300
  | 0x0008 => 600
  | 0x0009 => 1200
  | 0x000a => 1800
  | 0x000b => 2400
  | 0x000c => 4800
  | 0x000d => 9600
  | 0x000e => 19200
  | 0x000f => 38400
  | 0x1001 => 57600
  | 0x1002 => 115200
  | 0x1003 => 230400
  | 0x1004 => 460800
  | 0x1005 => 500000
  | 0x1006 => 576000
  | 0x1007 => 921600
  | 0x1008 => 1000000
  | 0x1009 => 1152000
  | 0x100a => 1500000
  | 0x100b => 2000000
  | 0x100c => 2500000
  | 0x100d => 3000000
  | 0x100e => 3500000
  | 0x100f => 4000000
  | _ => 0

/-- `rd_u32`. -/
def rdU32 (bytes : List Byte) (offset : ℕ) : BitVec 32 := leU32 ((bytes.drop offset).take 4)

/-- `rd_u64`. -/
def rdU64 (bytes : List Byte) (offset : ℕ) : U64 := leU64 ((bytes.drop offset).take 8)

/-- `wr_u32`, `wr_u64` and `copy_from_slice` into a range: `value` at an offset. -/
def wrBytes (bytes : List Byte) (offset : ℕ) (value : List Byte) : List Byte :=
  bytes.take offset ++ value ++ bytes.drop (offset + value.length)

/-- `dev_major`. -/
def devMajor (dev : U64) : BitVec 32 :=
  (((dev >>> 8) &&& 0xfff) ||| ((dev >>> 32) &&& ~~~0xfff)).setWidth 32

/-- `dev_minor`. -/
def devMinor (dev : U64) : BitVec 32 :=
  ((dev &&& 0xff) ||| ((dev >>> 12) &&& ~~~0xff)).setWidth 32

/-- `build_statx`: a `struct stat` as a `struct statx`. -/
def buildStatx (stat : List Byte) : List Byte :=
  let low32 (x : U64) : List Byte := leBytes 4 (x.setWidth 32)
  let s := List.replicate 256 0
  let s := wrBytes s 0 (leBytes 4 (0x7ff : BitVec 32))
  let s := wrBytes s 4 (low32 (rdU64 stat 56))
  let s := wrBytes s 16 (low32 (rdU64 stat 16))
  let s := wrBytes s 20 (leBytes 4 (rdU32 stat 28))
  let s := wrBytes s 24 (leBytes 4 (rdU32 stat 32))
  let s := wrBytes s 28 (leBytes 2 ((rdU32 stat 24).setWidth 16))
  let s := wrBytes s 32 (leBytes 8 (rdU64 stat 8))
  let s := wrBytes s 40 (leBytes 8 (rdU64 stat 48))
  let s := wrBytes s 48 (leBytes 8 (rdU64 stat 64))
  let s := wrBytes s 64 (leBytes 8 (rdU64 stat 72))
  let s := wrBytes s 72 (low32 (rdU64 stat 80))
  let s := wrBytes s 96 (leBytes 8 (rdU64 stat 104))
  let s := wrBytes s 104 (low32 (rdU64 stat 112))
  let s := wrBytes s 112 (leBytes 8 (rdU64 stat 88))
  let s := wrBytes s 120 (low32 (rdU64 stat 96))
  let s := wrBytes s 128 (leBytes 4 (devMajor (rdU64 stat 40)))
  let s := wrBytes s 132 (leBytes 4 (devMinor (rdU64 stat 40)))
  let s := wrBytes s 136 (leBytes 4 (devMajor (rdU64 stat 0)))
  wrBytes s 140 (leBytes 4 (devMinor (rdU64 stat 0)))

/-- The loop of `emulate_getrandom`, over chunks of 64 KiB. -/
def fillChunks (read : (off want : ℕ) → Option (Fin want → Byte)) (buf : U64) (count : ℕ) :
    ℕ → ℕ → Tracee → Tracee × Bool
  | 0, _, t => (t, true)
  | chunks + 1, off, t =>
    let want := min (count - off) 65536
    match read off want with
    | none => (t, false)
    | some dst =>
      match t.writeStruct (buf + BitVec.ofNat 64 off) (List.ofFn dst) with
      | (t, false) => (t, false)
      | (t, true) => fillChunks read buf count chunks (off + want) t

/-- `emulate_getrandom`. -/
def emulateGetrandom (env : Env) (t : Tracee) (buf : U64) (count : ℕ) : Tracee × Bool :=
  if count = 0 then (t, true)
  else if buf = 0 then (t, false)
  else match env.urandom with
    | none => (t, false)
    | some read => fillChunks read buf count ((count + 65535) / 65536) 0 t

/-- What `on_syscall_exit` carries from one of its parts to the next. -/
structure ExitStop where
  tracee : Tracee
  regs : Regs
  dirty : Bool

namespace ExitStop

/-- `rax` is replaced by an error. -/
def fail (x : ExitStop) (errno : ℤ) : ExitStop :=
  { x with regs := { x.regs with rax := asU64 (-errno) }, dirty := true }

/-- `finish_termios2`: the speed fields of a translated `TCGETS2` are filled in. -/
def finishTermios2 (x : ExitStop) : Option U64 → ExitStop
  | none => x
  | some termios2 =>
    if x.regs.rax ≠ 0 then x
    else
      let speed :=
        match x.tracee.mem.readStruct termios2 TERMIOS2_ISPEED with
        | none => 0
        | some termios => baudFromCflag (rdU32 termios 8)
      let speeds := leBytes 4 (BitVec.ofNat 32 speed) ++ leBytes 4 (BitVec.ofNat 32 speed)
      match x.tracee.writeStruct (termios2 + BitVec.ofNat 64 TERMIOS2_ISPEED) speeds with
      | (t, true) => { x with tracee := t }
      | (t, false) => { x with tracee := t }.fail Errno.EFAULT

/-- The `struct stat` of a translated `statx` is converted. -/
def finishStatx (x : ExitStop) : Option StatxState → ExitStop
  | none => x
  | some state =>
    if x.regs.rax ≠ 0 then x
    else match x.tracee.mem.readStruct state.scratch 144 with
      | none => x.fail Errno.EFAULT
      | some stat =>
        match x.tracee.writeStruct state.statxbuf (buildStatx stat) with
        | (t, true) => { x with tracee := t }
        | (t, false) => { x with tracee := t }.fail Errno.EFAULT

/-- The scratch reservation made at the entry stop is undone. -/
def restoreRsp (x : ExitStop) : Option U64 → ExitStop
  | none => x
  | some savedRsp => { x with regs := { x.regs with rsp := savedRsp }, dirty := true }

/-- `getrandom` is answered by the tracer; `true` when it was. -/
def finishGetrandom (env : Env) (last : Option U64) (x : ExitStop) : ExitStop × Bool :=
  if last = some Nr.getrandom ∧ env.host.getrandomMissing then
    match emulateGetrandom env x.tracee x.regs.rdi x.regs.rsi.toNat with
    | (t, true) => ({ tracee := t, regs := { x.regs with rax := x.regs.rsi }, dirty := true }, true)
    | (t, false) =>
      let x := { x with tracee := t }
      (if x.regs.rax = Nr.getrandom then x.fail Errno.ENOSYS else x, false)
  else (x, false)

/-- A call beyond the table of an old kernel that came back as its own number. -/
def normalizeEcho (env : Env) (last : Option U64) (synthesized : Bool) (x : ExitStop) : ExitStop :=
  match last with
  | none => x
  | some nr =>
    if !synthesized ∧ (x.regs.cs = userCs ∧ 279 < nr ∧ env.host.kernelEchoesNumber ∧
        x.regs.origRax = nr) ∧ x.regs.rax = nr then x.fail Errno.ENOSYS
    else x

/-- `if dirty { setregs }`. -/
def commit (x : ExitStop) : Tracee := if x.dirty then x.tracee.putregs x.regs else x.tracee

end ExitStop

namespace Tracer

/-- What `on_syscall_exit` makes of a 64-bit exit stop. -/
def exitStop (env : Env) (self : Tracer) (pid : Pid) (t : Tracee) (regs : Regs) : ExitStop :=
  let x : ExitStop := ⟨t, regs, false⟩
  let x := x.finishTermios2 (self.termios2Get pid)
  let x := x.finishStatx (self.statx pid)
  let x := x.restoreRsp (self.reserved pid)
  let (x, synthesized) := x.finishGetrandom env (self.lastSyscall pid)
  x.normalizeEcho env (self.lastSyscall pid) synthesized

/-- `on_syscall_exit`. -/
def onSyscallExit (env : Env) (self : Tracer) (pid : Pid) (t : Tracee) : Tracer × Tracee :=
  match t.getregs with
  | none => (self.clearPending pid, t)
  | some regs =>
    if regs.cs ≠ userCs then (self, t)
    else (self.clearPending pid, (self.exitStop env pid t regs).commit)

/-- `on_syscall_stop`. -/
def onSyscallStop (env : Env) (self : Tracer) (pid : Pid) (t : Tracee) : Tracer × Tracee :=
  let entering := self.entering pid
  let self := self.setInSyscall pid entering
  if entering then self.onSyscallEntry env pid t else self.onSyscallExit env pid t

end Tracer

end Tracing
end Sharun
