/-
# What the tracer learns from the kernel it runs on

Two kinds of answers.  The probes of `src/kernel_compat.rs` and
`src/emulated_syscalls.rs` are asked once and kept (`Host`): the release of the
kernel, which calls it lacks, and which clock ids it has.  The rest is answered
anew at every turn of the tracer's loop (`Env`): clock readings, whether a pipe
can be reopened through `/proc`, what a `write` into a pipe returns, random bytes.

A loop over the timers reads a clock once for each of them, so the readings of
`tick` and `arm` are kept by the descriptor of the timer they are for.
-/

import Sharun.Machine.Time

namespace Sharun
namespace Machine

/-! ### Numbers of the x86_64 interface -/

/-! System call numbers (`libc::SYS_*`). -/

namespace Nr

abbrev write : U64 := 1
abbrev close : U64 := 3
abbrev fstat : U64 := 5
abbrev poll : U64 := 7
abbrev lseek : U64 := 8
abbrev rtSigprocmask : U64 := 14
abbrev ioctl : U64 := 16
abbrev readv : U64 := 19
abbrev writev : U64 := 20
abbrev pipe : U64 := 22
abbrev getpid : U64 := 39
abbrev socket : U64 := 41
abbrev connect : U64 := 42
abbrev bind : U64 := 49
abbrev fcntl : U64 := 72
abbrev getrlimit : U64 := 97
abbrev setrlimit : U64 := 160
abbrev futex : U64 := 202
abbrev epollCreate : U64 := 213
abbrev clockGettime : U64 := 228
abbrev clockGetres : U64 := 229
abbrev clockNanosleep : U64 := 230
abbrev epollWait : U64 := 232
abbrev newfstatat : U64 := 262
abbrev ppoll : U64 := 271
abbrev epollPwait : U64 := 281
abbrev timerfdCreate : U64 := 283
abbrev eventfd : U64 := 284
abbrev timerfdSettime : U64 := 286
abbrev timerfdGettime : U64 := 287
abbrev eventfd2 : U64 := 290
abbrev epollCreate1 : U64 := 291
abbrev pipe2 : U64 := 293
abbrev preadv : U64 := 295
abbrev pwritev : U64 := 296
abbrev prlimit64 : U64 := 302
abbrev getrandom : U64 := 318
abbrev statx : U64 := 332

end Nr

/-! Error numbers (`libc::E*`). -/

namespace Errno

abbrev EINTR : ℤ := 4
abbrev EIO : ℤ := 5
abbrev EFAULT : ℤ := 14
abbrev EINVAL : ℤ := 22
abbrev ENOSYS : ℤ := 38

end Errno

/-! Signal numbers. -/

namespace Signo

abbrev SIGILL : ℤ := 4
abbrev SIGTRAP : ℤ := 5
abbrev SIGSTOP : ℤ := 19

end Signo

/-- The code segment of 64-bit user code. -/
abbrev userCs : U64 := 0x33

/-! ### The probes -/

/-- What the one-time probes found. -/
structure Host where
  /-- The numbers of `uname`'s release, `none` when `uname` fails. -/
  release : Option (ℕ × ℕ × ℕ)
  ppollMissing : Bool
  epollCreate1Missing : Bool
  prlimit64Missing : Bool
  pipe2Missing : Bool
  getrandomMissing : Bool
  statxMissing : Bool
  eventfdMissing : Bool
  timerfdMissing : Bool
  /-- The ids among 4 to 7 for which `clock_gettime` failed. -/
  clockMissing : U64 → Bool

namespace Host

/-- `kernel_lt(major, minor, patch)`: tuples in lexicographic order. -/
def kernelLt (h : Host) (major minor patch : ℕ) : Bool :=
  match h.release with
  | none => false
  | some (a, b, c) =>
    a < major || (a == major && (b < minor || (b == minor && c < patch)))

/-- `termios2_missing()`. -/
def termios2Missing (h : Host) : Bool := h.kernelLt 2 6 20

/-- `kernel_echoes_number()`. -/
def kernelEchoesNumber (h : Host) : Bool := h.kernelLt 2 6 19

/-- `clockid_replacements()`. -/
def clockidReplacements (h : Host) : List U64 :=
  [0, 1, 2, 3] ++ [(4, 1), (5, 0), (6, 1), (7, 1)].map
    fun (id, fallback) => if h.clockMissing id then fallback else id

/-- The clock id handed to the kernel in place of `id`. -/
def clockidFor (h : Host) (id : U64) : U64 :=
  (h.clockidReplacements[id.toNat]?).getD id

end Host

/-! ### The answers of one turn -/

/-- A descriptor of the tracer's own (`OwnedFd`): the write end of a pipe. -/
abbrev Handle := ℕ

/-- What `write(2)` of eight bytes into a pipe came to. -/
inductive Written
  /-- All eight bytes. -/
  | full
  /-- `EAGAIN` or `EINTR`. -/
  | again
  /-- Any other error: nobody reads the pipe. -/
  | gone
  deriving DecidableEq

/-- A clock id to its reading, `none` when the kernel has no such clock. -/
abbrev Clock := ℤ → Option Time

/-- What the kernel answers during one turn of the loop of `supervise`. -/
structure Env where
  host : Host
  /-- The `k`-th reading of a clock outside the loops over the timers. -/
  clock : ℕ → Clock
  /-- The reading `tick` takes for the timer of a descriptor. -/
  tickClock : ℤ → Clock
  /-- The reading `arm` takes for the timer of a descriptor. -/
  armClock : ℤ → Clock
  /-- Opening `/proc/<pid>/fd/<fd>` for writing. -/
  openWrite : Pid → ℤ → Option Handle
  pipeWrite : Handle → Written
  /-- `/dev/urandom`: `read_exact` of so many bytes at an offset; `none` when it
  cannot be opened. -/
  urandom : Option ((off want : ℕ) → Option (Fin want → Byte))

/-- Every clock reading is a `timespec` of the kernel's. -/
structure Env.ClockOk (env : Env) : Prop where
  clock : ∀ k id t, env.clock k id = some t → t.Valid
  tickClock : ∀ fd id t, env.tickClock fd id = some t → t.Valid
  armClock : ∀ fd id t, env.armClock fd id = some t → t.Valid

/-- The host of a 2.6.18 kernel, which has none of the calls that are probed. -/
def Host.centos5 : Host :=
  ⟨some (2, 6, 18), true, true, true, true, true, true, true, true, fun _ => true⟩

/-- A turn on a host whose clocks all read one second, where every pipe can be
reopened and takes what is written. -/
def Env.still (host : Host) : Env where
  host
  clock _ _ := some ⟨1, 0⟩
  tickClock _ _ := some ⟨1, 0⟩
  armClock _ _ := some ⟨1, 0⟩
  openWrite _ _ := some 0
  pipeWrite _ := .full
  urandom := some fun _ _ => some fun _ => 0

end Machine
end Sharun
