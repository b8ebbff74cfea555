import Sharun.Basis.Run
import Sharun.Machine.Time
import Sharun.Emulation.Syscalls
import Sharun.Tracer.Rewrites
import Sharun.Tracer.Supervise
import Sharun.Emulation.Active
import Sharun.Tracer.Slots
import Sharun.Tracer.HeldSignals
import Sharun.Tracer.Parity
import Sharun.Tracer.Registers
import Sharun.Basis.Keyed
import Sharun.Emulation.Timers
import Sharun.Tracer.Alarm
import Sharun.Tracer.Seccomp
import Sharun.Emulation.Isolation
import Sharun.Emulation.Deadlines
import Sharun.Emulation.Sequences
import Sharun.Tracer.Injected
import Sharun.Tracer.Traced
import Sharun.Tracer.EpollPwait
import Sharun.Tracer.GatedSignals
import Sharun.Basis.Replace
import Sharun.Launch.Text
import Sharun.Launch.LibPath
import Sharun.Tracer.SavedMask
import Sharun.Tracer.HalfBuilt
import Sharun.Emulation.FailedPipe
import Sharun.Launch.Main
import Sharun.Launch.Reexec
import Sharun.Preload.Children
import Sharun.Preload.External
import Sharun.Preload.PortableDirs
import Sharun.Basis.Options
import Sharun.Launch.Bwrap
import Sharun.Launch.OptionPositions
import Sharun.Launch.OptionArities
import Sharun.Launch.ReadOptions
import Sharun.Launch.SandboxOptions
import Sharun.Basis.Region
import Sharun.Machine.Pokes
import Sharun.Tracer.Footprint
import Sharun.Tracer.Framing
import Sharun.Tracer.LowHalves
import Sharun.Emulation.Counts
import Sharun.Basis.Schedule
import Sharun.Emulation.Queued
import Sharun.Launch.ArgsPipe
import Sharun.Preload.ChildPath
import Sharun.Tracer.Timeouts
import Sharun.Basis.FileTree
import Sharun.Basis.Substitute
import Sharun.Shell.Replacement
import Sharun.Tracer.StatxFiles
import Sharun.Basis.Bpf
import Sharun.Basis.Occurrences
import Sharun.Basis.Runs
import Sharun.Launch.AddToEnv
import Sharun.Launch.ElfHeaders
import Sharun.Launch.ExpandVars
import Sharun.Launch.LdCache
import Sharun.Launch.SystemBwrap
import Sharun.Launch.XdgDataDirs
import Sharun.Machine.Layout
import Sharun.Tracer.SeccompFilter
import Sharun.Tracer.StatxImage
import Sharun.Tracer.EchoedNumbers
import Sharun.Basis.Lexical
import Sharun.Basis.Relocate
import Sharun.Basis.Located
import Sharun.PathMap.Normalize
import Sharun.PathMap.Captures
import Sharun.PathMap.Config
import Sharun.PathMap.Forward
import Sharun.PathMap.Reverse
import Sharun.PathMap.FixPath
import Sharun.PathMap.Environment
import Sharun.PathMap.Process
import Sharun.PathMap.Listing
import Sharun.PathMap.StartupCwd
import Sharun.Tracer.Modes
import Sharun.PathMap.Descriptors
import Sharun.Tracer.ExitCode
import Sharun.Launch.Dotenv
