/-
# Emulated calls: `src/emulated_syscalls.rs`

A call the kernel lacks is answered by a short sequence of calls the tracee
makes itself.  The tracer rewrites the entry stop of the emulated call into the
first of them (`startSequence`) and is then handed every stop of the tracee
(`step`) until the sequence is over.  `timerfd_settime` and `timerfd_gettime`
need no sequence: the call is replaced by `getpid` (`standIn`), whose result is
overwritten.

The state is `Emulations`, as in the source: the emulation in progress for each
tracee, a counter, and the emulated timerfds with the write ends of their pipes,
both keyed by the descriptor number the application sees.  A `HashMap` that is
only looked up is a partial function, one that is iterated is an association
list without repeated keys.  Each function takes the state and the stopped
tracee and returns them as it leaves them.  The diagnostics are left out.
-/

import Sharun.Machine.Host
import Mathlib.Data.List.AList

namespace Sharun
namespace Emulation

open Machine

/-! ### Constants -/

abbrev EFD_NONBLOCK : U64 := 0x800

abbrev TFD_NONBLOCK : U64 := 0x800

abbrev TFD_TIMER_ABSTIME : U64 := 0x1

/-- The two instructions that enter the kernel: `syscall` and `int 0x80`. -/
abbrev SYSCALL64 : U64 := 0x050f

abbrev SYSCALL32 : U64 := 0x80cd

abbrev F_DUPFD : U64 := 0

abbrev F_SETFD : U64 := 2

abbrev F_SETFL : U64 := 4

abbrev F_DUPFD_CLOEXEC : U64 := 1030

abbrev FD_CLOEXEC : U64 := 1

abbrev O_NONBLOCK : U64 := 0x800

abbrev AF_UNIX : U64 := 1

abbrev SOCK_DGRAM : U64 := 2

abbrev SEEK_SET : U64 := 0

abbrev SIG_SETMASK : U64 := 2

/-! ### The state -/

/-- Which descriptor of the emulation a call refers to. -/
inductive Which
  | result
  | readEnd
  | writeEnd
  deriving DecidableEq

/-- One call of a sequence. -/
inductive Step
  | socket
  | pipe (buffer : U64)
  | attach (fd : Which) (addr length : U64) (connect : Bool)
  | nonblock (fd : Which)
  | writeInitial (fd : Which) (buffer : U64)
  | close (fd : Which)
  | fcntlDupfd (fd minimum : U64)
  | fcntlCloexec (fd : Which)
  | lseek (fd : U64) (offset : ℤ)
  | vectorIo (write : Bool) (fd iov count : U64)
  | sigprocmask (mask saved : U64) (always : Bool)
  | epollWait (epfd events maxevents timeout : U64)
  deriving DecidableEq

/-- `matches!(step, Step::Sigprocmask { always: true, .. })`. -/
def Step.always : Step → Bool
  | .sigprocmask _ _ always => always
  | _ => false

/-- `matches!(step, Step::Socket | Step::FcntlDupfd { .. })`: the calls that return
the descriptor the emulation is built on. -/
def Step.returnsFd : Step → Bool
  | .socket => true
  | .fcntlDupfd _ _ => true
  | _ => false

/-- Which of the completed calls answers the emulated one. -/
inductive Outcome
  | call (i : ℕ)
  | adopted
  deriving DecidableEq

/-- `Active::Sequence`. -/
structure Sequence where
  /-- Registers as they were at the entry stop of the emulated call. -/
  saved : Regs
  /-- The instruction the tracee is sent back to for the next call. -/
  gadget : U64
  queue : List Step
  running : Option Step
  /-- The stop in hand is the entry of the call set up last. -/
  atEntry : Bool
  results : List ℤ
  outcome : Outcome
  fd : ℤ
  readEnd : ℤ
  writeEnd : ℤ
  clockid : ℤ
  deriving DecidableEq

/-- An emulation in progress. -/
inductive Active
  | sequence (s : Sequence)
  | fixup (result : ℤ)
  deriving DecidableEq

/-- An emulated timerfd. -/
structure Timer where
  clockid : ℤ
  deadline : Option Time
  interval : Time
  deriving DecidableEq

/-- The value of `ITIMER_REAL` the tracer asks for; its interval is always zero. -/
structure Itimerval where
  tvSec : ℤ
  tvUsec : ℤ
  deriving DecidableEq, Repr

/-- `Emulations`.  The source keeps no record of the interval timer; `itimer` is
what `setitimer` was last given. -/
structure Emulations where
  active : Pid → Option Active
  sequence : ℕ
  timers : AList fun _ : ℤ => Timer
  writeEnds : AList fun _ : ℤ => Handle
  itimer : Itimerval

namespace Emulations

/-- `Emulations::new()`. -/
def new : Emulations where
  active _ := none
  sequence := 0
  timers := ∅
  writeEnds := ∅
  itimer := ⟨0, 0⟩

/-- `busy(pid)`. -/
def busy (self : Emulations) (pid : Pid) : Bool := (self.active pid).isSome

/-- `self.active.insert(pid, active)`. -/
def setActive (self : Emulations) (pid : Pid) (active : Active) : Emulations :=
  { self with active := Function.update self.active pid (some active) }

/-- `forget(pid)`, and the `self.active.remove(&pid)` of `step`. -/
def forget (self : Emulations) (pid : Pid) : Emulations :=
  { self with active := Function.update self.active pid none }

end Emulations

/-! ### Calls -/

/-- A system call: its number and its six arguments. -/
structure Call where
  nr : U64
  a0 : U64
  a1 : U64
  a2 : U64
  a3 : U64
  a4 : U64
  a5 : U64
  deriving DecidableEq

/-- `fd_of(which)`. -/
def Sequence.fdOf (s : Sequence) : Which → U64
  | .result => asU64 s.fd
  | .readEnd => asU64 s.readEnd
  | .writeEnd => asU64 s.writeEnd

/-- `build(step, active)`: the call a step asks for. -/
def build (step : Step) (s : Sequence) : Call :=
  match step with
  | .socket => ⟨Nr.socket, AF_UNIX, SOCK_DGRAM, 0, 0, 0, 0⟩
  | .pipe buffer => ⟨Nr.pipe, buffer, 0, 0, 0, 0, 0⟩
  | .attach fd addr length connect =>
    ⟨if connect then Nr.connect else Nr.bind, s.fdOf fd, addr, length, 0, 0, 0⟩
  | .nonblock fd => ⟨Nr.fcntl, s.fdOf fd, F_SETFL, O_NONBLOCK, 0, 0, 0⟩
  | .writeInitial fd buffer => ⟨Nr.write, s.fdOf fd, buffer, 8, 0, 0, 0⟩
  | .close fd => ⟨Nr.close, s.fdOf fd, 0, 0, 0, 0, 0⟩
  | .fcntlDupfd fd minimum => ⟨Nr.fcntl, fd, F_DUPFD, minimum, 0, 0, 0⟩
  | .fcntlCloexec fd => ⟨Nr.fcntl, s.fdOf fd, F_SETFD, FD_CLOEXEC, 0, 0, 0⟩
  | .lseek fd offset => ⟨Nr.lseek, fd, asU64 offset, SEEK_SET, 0, 0, 0⟩
  | .vectorIo write fd iov count =>
    ⟨if write then Nr.writev else Nr.readv, fd, iov, count, 0, 0, 0⟩
  | .sigprocmask mask saved _ => ⟨Nr.rtSigprocmask, SIG_SETMASK, mask, saved, 8, 0, 0⟩
  | .epollWait epfd events maxevents timeout =>
    ⟨Nr.epollWait, epfd, events, maxevents, timeout, 0, 0⟩

/-- The registers with a call in place of the one they hold. -/
def withCall (regs : Regs) (call : Call) : Regs :=
  { regs with
    origRax := call.nr, rax := call.nr, rdi := call.a0, rsi := call.a1, rdx := call.a2,
    r10 := call.a3, r8 := call.a4, r9 := call.a5 }

/-- `gadget_for(pid, regs)`: the instruction the tracee just executed. -/
def gadgetFor (t : Tracee) (regs : Regs) : Option U64 :=
  let address := regs.rip - 2
  match t.mem.peekWord address with
  | none => none
  | some word =>
    if word &&& 0xffff = SYSCALL64 ∨ word &&& 0xffff = SYSCALL32 then some address else none

/-- Scratch space below the caller's stack pointer. -/
def scratchFor (regs : Regs) : U64 := (regs.rsp - 512) &&& ~~~0xf

namespace Emulations

/-- `start_sequence`: the emulated call becomes the first call of the sequence. -/
def startSequence (self : Emulations) (pid : Pid) (t : Tracee) (regs : Regs) (gadget : U64)
    (queue : List Step) (outcome : Outcome) (clockid : ℤ) : Emulations × Tracee × Bool :=
  match queue with
  | [] => (self, t, false)
  | first :: queue =>
    let active : Sequence :=
      { saved := regs, gadget, queue, running := none, atEntry := false, results := [], outcome,
        fd := -1, readEnd := -1, writeEnd := -1, clockid }
    let call := build first active
    match t.setregs (withCall regs call) with
    | none => (self, t, false)
    | some t' => (self.setActive pid (.sequence { active with running := some first }), t', true)

/-- `stand_in`: the call is replaced with one that always succeeds. -/
def standIn (self : Emulations) (pid : Pid) (t : Tracee) (regs : Regs) (result : ℤ) :
    Emulations × Tracee × Bool :=
  match t.setregs { regs with origRax := Nr.getpid, rax := Nr.getpid } with
  | none => (self, t, false)
  | some t' => (self.setActive pid (.fixup result), t', true)

/-- The calls of an emulated `epoll_pwait`: the caller's mask is in force during
the wait and put back after it. -/
def epollPwaitSteps (regs : Regs) : List Step :=
  [.sigprocmask regs.r8 (scratchFor regs) false,
    .epollWait regs.rdi regs.rsi regs.rdx regs.r10,
    .sigprocmask (scratchFor regs) 0 true]

/-- `epoll_pwait` becomes `rt_sigprocmask`, `epoll_wait`, `rt_sigprocmask`. -/
def epollPwait (env : Env) (self : Emulations) (pid : Pid) (t : Tracee) (regs : Regs) :
    Emulations × Tracee × Bool :=
  if !env.host.kernelLt 2 6 19 then (self, t, false)
  else match gadgetFor t regs with
    | none => (self, t, false)
    | some gadget =>
      self.startSequence pid t regs gadget (epollPwaitSteps regs) (.call 1) 0

/-- The calls of an emulated `pwritev` or `preadv`. -/
def vectorIoSteps (regs : Regs) (write : Bool) : List Step :=
  [.lseek regs.rdi regs.r10.toInt, .vectorIo write regs.rdi regs.rsi regs.rdx]

/-- `pwritev` and `preadv` become `lseek` and `writev` or `readv`. -/
def vectorIo (env : Env) (self : Emulations) (pid : Pid) (t : Tracee) (regs : Regs)
    (write : Bool) : Emulations × Tracee × Bool :=
  if !env.host.kernelLt 2 6 30 then (self, t, false)
  else match gadgetFor t regs with
    | none => (self, t, false)
    | some gadget =>
      self.startSequence pid t regs gadget (vectorIoSteps regs write) (.call 1) 0

/-- The calls of an emulated `fcntl(F_DUPFD_CLOEXEC)`. -/
def dupfdCloexecSteps (regs : Regs) : List Step :=
  [.fcntlDupfd regs.rdi regs.rdx, .fcntlCloexec .result]

/-- `fcntl(F_DUPFD_CLOEXEC)` becomes `F_DUPFD` and `FD_CLOEXEC` on the result. -/
def dupfdCloexec (env : Env) (self : Emulations) (pid : Pid) (t : Tracee) (regs : Regs) :
    Emulations × Tracee × Bool :=
  if regs.rsi ≠ F_DUPFD_CLOEXEC ∨ !env.host.kernelLt 2 6 24 then (self, t, false)
  else match gadgetFor t regs with
    | none => (self, t, false)
    | some gadget =>
      self.startSequence pid t regs gadget (dupfdCloexecSteps regs) (.call 0) 0

/-- The abstract `sockaddr_un` of an emulated eventfd: the family, a leading NUL,
the name. -/
def eventfdAddress (pid : Pid) (sequence : ℕ) : List Byte :=
  leBytes 2 (BitVec.ofNat 16 1) ++ [0] ++
    ("sharun-efd-" ++ toString pid ++ "-" ++ toString sequence).toList.map
      fun c => BitVec.ofNat 8 c.toNat

/-- The calls of an emulated `eventfd(initial, flags)`, its address of some length
in scratch space and the initial value above it. -/
def eventfdSteps (regs : Regs) (length : ℕ) : List Step :=
  let scratch := scratchFor regs
  let length := BitVec.ofNat 64 length
  [.socket, .attach .result scratch length false, .attach .result scratch length true] ++
    (if regs.rsi &&& EFD_NONBLOCK ≠ 0 then [.nonblock .result] else []) ++
    (if regs.rdi ≠ 0 then [.writeInitial .result (scratch + 256)] else [])

/-- `eventfd` and `eventfd2` become a datagram socket connected to itself. -/
def eventfd (env : Env) (self : Emulations) (pid : Pid) (t : Tracee) (regs : Regs) :
    Emulations × Tracee × Bool :=
  if !env.host.eventfdMissing then (self, t, false)
  else
    let initial := regs.rdi
    if 0xffffffff < initial then (self, t, false)
    else match gadgetFor t regs with
      | none => (self, t, false)
      | some gadget =>
        let scratch := scratchFor regs
        let address := eventfdAddress pid self.sequence
        let self := { self with sequence := self.sequence + 1 }
        match t.writeStruct scratch address with
        | (t, false) => (self, t, false)
        | (t, true) =>
          let written :=
            if initial ≠ 0 then t.writeStruct (scratch + 256) (leBytes 8 initial) else (t, true)
          match written with
          | (t, false) => (self, t, false)
          | (t, true) =>
            self.startSequence pid t regs gadget (eventfdSteps regs address.length) (.call 0) 0

/-- The calls of an emulated `timerfd_create(clock, flags)`. -/
def timerfdCreateSteps (regs : Regs) : List Step :=
  [.pipe (scratchFor regs), .close .writeEnd] ++
    (if regs.rsi &&& TFD_NONBLOCK ≠ 0 then [.nonblock .readEnd] else [])

/-- `timerfd_create` becomes a pipe whose write end the tracer keeps. -/
def timerfdCreate (env : Env) (self : Emulations) (pid : Pid) (t : Tracee) (regs : Regs) :
    Emulations × Tracee × Bool :=
  if !env.host.timerfdMissing then (self, t, false)
  else
    let clockid := ((env.host.clockidFor regs.rdi).setWidth 32).toInt
    match gadgetFor t regs with
    | none => (self, t, false)
    | some gadget =>
      self.startSequence pid t regs gadget (timerfdCreateSteps regs) .adopted clockid

/-! ### Timers -/

/-- What is left until a timer's deadline, at the reading `arm` takes for it. -/
def left (env : Env) (fd : ℤ) (timer : Timer) : Option Time :=
  match timer.deadline, env.armClock fd timer.clockid with
  | some deadline, some now => some (Time.sub deadline now)
  | _, _ => none

/-- The loop of `arm`: the least time left. -/
def soonest (env : Env) (timers : List (Sigma fun _ : ℤ => Timer)) : Option Time :=
  timers.foldl (fun soonest entry =>
    match left env entry.1 entry.2 with
    | none => soonest
    | some left =>
      match soonest with
      | none => some left
      | some current => if left.lt current then some left else some current) none

/-- The value `arm` gives to `setitimer`: microseconds rounded down, but one where
that would leave nothing, since zero turns the timer off. -/
def itimerval : Option Time → Itimerval
  | none => ⟨0, 0⟩
  | some left =>
    let usec := left.nsec.tdiv 1000
    if left.sec = 0 ∧ usec = 0 then ⟨left.sec, 1⟩ else ⟨left.sec, usec⟩

/-- `arm()`. -/
def arm (env : Env) (self : Emulations) : Emulations :=
  { self with itimer := itimerval (soonest env self.timers.entries) }

/-- `push_time` twice: the bytes of an `itimerspec`. -/
def itimerspecBytes (interval value : Time) : List Byte :=
  leBytes 8 (asU64 interval.sec) ++ leBytes 8 (asU64 interval.nsec) ++
    leBytes 8 (asU64 value.sec) ++ leBytes 8 (asU64 value.nsec)

/-- The deadline a setting asks for: `some none` disarms, `none` when the clock
cannot be read. -/
def deadlineFor (env : Env) (clockid : ℤ) (flags : U64) (value : Time) : Option (Option Time) :=
  if value = Time.zero then some none
  else if flags &&& TFD_TIMER_ABSTIME ≠ 0 then some (some value)
  else (env.clock 1 clockid).map fun now => some (Time.add now value)

/-- `timerfd_settime` is bookkeeping only. -/
def timerfdSettime (env : Env) (self : Emulations) (pid : Pid) (t : Tracee) (regs : Regs) :
    Emulations × Tracee × Bool :=
  let fd := regs.rdi.toInt
  match self.timers.lookup fd with
  | none => (self, t, false)
  | some timer =>
    match t.mem.readStruct regs.rdx 32 with
    | none => (self, t, false)
    | some requested =>
      let interval := timeAt requested 0
      let value := timeAt requested 16
      let reported :=
        if regs.r10 ≠ 0 then
          let now := (env.clock 0 timer.clockid).getD Time.zero
          let remaining := timer.deadline.elim Time.zero fun deadline => Time.sub deadline now
          t.writeStruct regs.r10 (itimerspecBytes timer.interval remaining)
        else (t, true)
      match reported with
      | (t, false) => (self, t, false)
      | (t, true) =>
        match deadlineFor env timer.clockid regs.rsi value with
        | none => (self, t, false)
        | some deadline =>
          let self :=
            { self with timers := self.timers.insert fd { timer with interval, deadline } }
          (self.arm env).standIn pid t regs 0

/-- `timerfd_gettime` reports what is left of the deadline. -/
def timerfdGettime (env : Env) (self : Emulations) (pid : Pid) (t : Tracee) (regs : Regs) :
    Emulations × Tracee × Bool :=
  match self.timers.lookup regs.rdi.toInt with
  | none => (self, t, false)
  | some timer =>
    let now := (env.clock 0 timer.clockid).getD Time.zero
    let remaining := timer.deadline.elim Time.zero fun deadline => Time.sub deadline now
    match t.writeStruct regs.rsi (itimerspecBytes timer.interval remaining) with
    | (t, false) => (self, t, false)
    | (t, true) => self.standIn pid t regs 0

/-- The arm of `begin` for `close`: the emulated descriptor is no longer tracked. -/
def closeFd (self : Emulations) (fd : ℤ) : Emulations :=
  { self with timers := self.timers.erase fd, writeEnds := self.writeEnds.erase fd }

/-- `begin(pid, entering)`: take over the entry stop of a call that is emulated. -/
def begin (env : Env) (self : Emulations) (pid : Pid) (t : Tracee) (entering : Bool) :
    Emulations × Tracee × Bool :=
  if !entering then (self, t, false)
  else match t.getregs with
    | none => (self, t, false)
    | some regs =>
      if regs.cs ≠ userCs then (self, t, false)
      else if regs.origRax = Nr.close then (self.closeFd regs.rdi.toInt, t, false)
      else if regs.origRax = Nr.eventfd then self.eventfd env pid t regs
      else if regs.origRax = Nr.eventfd2 then self.eventfd env pid t regs
      else if regs.origRax = Nr.timerfdCreate then self.timerfdCreate env pid t regs
      else if regs.origRax = Nr.timerfdSettime then self.timerfdSettime env pid t regs
      else if regs.origRax = Nr.timerfdGettime then self.timerfdGettime env pid t regs
      else if regs.origRax = Nr.fcntl then self.dupfdCloexec env pid t regs
      else if regs.origRax = Nr.pwritev then self.vectorIo env pid t regs true
      else if regs.origRax = Nr.preadv then self.vectorIo env pid t regs false
      else if regs.origRax = Nr.epollPwait then self.epollPwait env pid t regs
      else (self, t, false)

/-! ### Advancing a sequence -/

/-- `capture_pipe`: adopt the pipe the tracee just made, keeping a write handle. -/
def capturePipe (env : Env) (self : Emulations) (pid : Pid) (t : Tracee) (buffer : U64)
    (clockid : ℤ) : Emulations × Option (ℤ × ℤ) :=
  match t.mem.readStruct buffer 8 with
  | none => (self, none)
  | some raw =>
    let readEnd := leI32 (raw.take 4)
    let writeEnd := leI32 (raw.drop 4)
    match env.openWrite pid writeEnd with
    | none => (self, none)
    | some handle =>
      ({ self with
          timers := self.timers.insert readEnd ⟨clockid, none, Time.zero⟩
          writeEnds := self.writeEnds.insert readEnd handle },
        some (readEnd, writeEnd))

end Emulations

/-- The range in which a result is an error number. -/
def isError (rc : ℤ) : Bool := -4095 ≤ rc && rc < 0

namespace Sequence

/-- A result is collected: the running call is done, and the first result is the
descriptor of the emulation when its call returns one. -/
def collect (s : Sequence) (rax : ℤ) : Sequence :=
  let results := s.results ++ [rax]
  { s with
    results
    running := none
    fd := if results.length = 1 ∧ s.running.any Step.returnsFd then rax else s.fd }

/-- `failure`: the first result that is an error. -/
def failure (s : Sequence) : Option ℤ := s.results.find? isError

/-- `took_effect`: everything before the last result succeeded. -/
def tookEffect (s : Sequence) : Bool :=
  1 < s.results.length && s.results.dropLast.all (0 ≤ ·)

/-- The next call to make and the calls left after it.  Once one has failed only a
step marked `always` still runs, and only where there is something to undo. -/
def next (s : Sequence) : Option Step × List Step :=
  let queue :=
    if s.failure.isNone then s.queue
    else if s.tookEffect then s.queue.dropWhile (!·.always)
    else []
  (queue.head?, queue.tail)

/-- The value handed to the application when the sequence is over. -/
def answer (s : Sequence) : ℤ :=
  let value :=
    match s.outcome with
    | .call i => (s.results[i]?).getD (-Errno.EINVAL)
    | .adopted => s.fd
  if 0 ≤ value then value else s.failure.getD value

end Sequence

namespace Emulations

/-- The pipe of a timerfd is adopted before the tracee closes its write end; when
that cannot be done an error is recorded in place of a half-built object. -/
def adopt (env : Env) (self : Emulations) (pid : Pid) (t : Tracee) (s : Sequence) :
    Option Step → Emulations × Sequence
  | some (.pipe buffer) =>
    match self.capturePipe env pid t buffer s.clockid with
    | (self, some (readEnd, writeEnd)) => (self, { s with readEnd, writeEnd, fd := readEnd })
    | (self, none) => (self, { s with results := s.results ++ [-Errno.EIO] })
  | _ => (self, s)

/-- The exit stop of a call of the sequence: its result is collected, and the next
call is set up or the application is handed its answer. -/
def advance (env : Env) (self : Emulations) (pid : Pid) (t : Tracee) (regs : Regs)
    (s : Sequence) : Emulations × Tracee :=
  let (self, s) := self.adopt env pid t (s.collect regs.rax.toInt) s.running
  match s.next with
  | (some step, queue) =>
    let s := { s with queue }
    let patched := { withCall regs (build step s) with rip := s.gadget }
    (self.setActive pid (.sequence { s with running := some step, atEntry := true }),
      t.putregs patched)
  | (none, _) => (self.forget pid, t.putregs { s.saved with rax := asU64 s.answer })

/-- `step(pid)`: advance an emulation by one stop. -/
def step (env : Env) (self : Emulations) (pid : Pid) (t : Tracee) : Emulations × Tracee :=
  match self.active pid with
  | none => (self, t)
  | some (.fixup result) =>
    (self.forget pid,
      match t.getregs with
      | none => t
      | some regs => t.putregs { regs with rax := asU64 result })
  | some (.sequence s) =>
    if s.atEntry then (self.setActive pid (.sequence { s with atEntry := false }), t)
    else match t.getregs with
      | none => (self.forget pid, t)
      | some regs => self.advance env pid t regs s

/-! ### Serving deadlines -/

/-- The loop that catches up with missed periods: `count` reaches at most
`u32::MAX`, so `fuel` is what is left of it. -/
def catchUp (now interval : Time) : ℕ → Time → ℕ → Time × ℕ
  | 0, following, count => (following, count)
  | fuel + 1, following, count =>
    if now.lt following then (following, count)
    else catchUp now interval fuel (Time.add following interval) (count + 1)

/-- A timer whose deadline has passed: how many periods have, and the deadline
after them. -/
structure Due where
  fd : ℤ
  count : ℕ
  next : Option Time
  deriving DecidableEq

/-- The body of the first loop of `tick`. -/
def expired (env : Env) (fd : ℤ) (timer : Timer) : Option Due :=
  match timer.deadline, env.tickClock fd timer.clockid with
  | some deadline, some now =>
    if now.lt deadline then none
    else if timer.interval ≠ Time.zero then
      let (following, count) :=
        catchUp now timer.interval 4294967294 (Time.add deadline timer.interval) 1
      some ⟨fd, count, some following⟩
    else some ⟨fd, 1, none⟩
  | _, _ => none

/-- `timer.deadline = deadline` for the timer of a descriptor, where there is one. -/
def setDeadline (self : Emulations) (fd : ℤ) (deadline : Option Time) : Emulations :=
  match self.timers.lookup fd with
  | none => self
  | some timer => { self with timers := self.timers.insert fd { timer with deadline } }

/-- The body of the second loop of `tick`. -/
def serve (env : Env) (self : Emulations) (due : Due) : Emulations :=
  match self.writeEnds.lookup due.fd with
  | none => { self with timers := self.timers.erase due.fd }
  | some handle =>
    match env.pipeWrite handle with
    | .full => self.setDeadline due.fd due.next
    | .again =>
      match due.next with
      | some next => self.setDeadline due.fd (some next)
      | none => self
    | .gone => self.closeFd due.fd

/-- The expirations found due. -/
def dueList (env : Env) (self : Emulations) : List Due :=
  self.timers.entries.filterMap fun entry => expired env entry.1 entry.2

/-- `tick()`, given whether `ALARM` was set. -/
def tick (env : Env) (alarm : Bool) (self : Emulations) : Emulations :=
  if !alarm then self
  else ((self.dueList env).foldl (serve env) self).arm env

end Emulations

end Emulation
end Sharun
