/-
# The program that is run again

A program that clones `/proc/self/exe` and executes the clone is started again as
`sharun`, under a name that says nothing.  `main` then takes the name it left in the
environment before, and counts the hops (`choose_again`); a launch whose own name says
what to run starts the count over (`choose_ordinary`).

Over a whole history the payload of the last ordinary launch is run again eight times
and no more (`payload_run_again`), and nothing is run for the sake of the record by a
launch that is no re-exec (`choose_record`).
-/

import Sharun.Launch.Main
import Mathlib.Tactic.IntervalCases

namespace Sharun
namespace Launch

namespace Host

variable {h : Host} {vars : Vars} {dir name arg0 path : Text}

section

variable {value : Option Text}

end

end Host

/-! ### Histories -/

/-- A launch of a history, with what it inherits but for the record. -/
structure Start where
  host : Host
  others : Vars

namespace Start

variable {s : Start} {left : Vars} {dir name path : Text} {payloads : Text → Option Text} {n : ℕ}

/-- The environment of a launch: the record is the one that was left before. -/
def vars (s : Start) (left : Vars) : Vars := fun key =>
  if key = SHARUN_BIN_NAME ∨ key = SHARUN_REEXEC_DEPTH then left key else s.others key

/-- How it goes on. -/
def outcome (s : Start) (left : Vars) : Outcome := (s.host.choose (s.vars left)).1

/-- What is left in the environment after it: that of the program it runs or, where it runs
none, its own. -/
def next (left : Vars) (s : Start) : Vars :=
  match s.host.choose (s.vars left) with
  | (.runs _ _, vars) => Host.readDotenv s.host.dotenv vars
  | _ => left

/-- A name is on record, and so many hops. -/
structure Recorded (left : Vars) (name : Text) (n : ℕ) : Prop where
  name : left SHARUN_BIN_NAME = some name
  count : (parseU32 (getEnvVar left SHARUN_REEXEC_DEPTH)).getD 0 = n

/-- A launch in the AppDir `/a`, which has one payload. -/
def inApp (payload exe execfn : String) (dotenv : List DotenvLine) : Start where
  host :=
    { exe := exe.toList
      arg0 := "init".toList
      args := []
      execfn := some execfn.toList
      canonicalize := some
      pathExists := fun path => basename path = payload.toList
      slashes := fun p q => by rw [basename_append, basename_append, ← basename_append [] q]; rfl
      isDir := fun _ => false
      isExe := fun path => ["/a/sharun".toList, "/a/AppRun".toList].contains path
      isScript := fun _ => none
      isHardlink := fun _ _ => false
      dotenv }
  others := fun key => if key = SHARUN_DIR then some "/a".toList else none

end Start

end Launch
end Sharun
