/-
# Which program a launch runs: `src/main.rs`

`sharun` is started under the names of the programs of an AppDir, and finds out from its
own name, or from what is left in the environment, which of them it is to run.  `main`
up to the point where it reads the program's ELF header is `choose` here; what follows
(the library path, the preloads, the way the program is started) does not change the
choice, and of what it does to the environment only `read_dotenv` can touch the two
variables that matter (`leaves`).

An environment is a partial function from names to values; what a launch finds outside
it is a `Host`.  The value the program gets as its `argv[0]` is left out, and so are the
messages.
-/

import Sharun.Launch.Text

namespace Sharun
namespace Launch

/-- The environment of a process: `env::var`, which fails on what is not valid text. -/
abbrev Vars := Text → Option Text

abbrev PATH : Text := "PATH".toList

abbrev SHARUN_DIR : Text := "SHARUN_DIR".toList

abbrev SHARUN_BIN_NAME : Text := "SHARUN_BIN_NAME".toList

abbrev SHARUN_REEXEC_DEPTH : Text := "SHARUN_REEXEC_DEPTH".toList

/-- `SHARUN_NAME`. -/
abbrev SHARUN_NAME : Text := "sharun".toList

abbrev SHARUN_NNP_PROBE_FLAG : Text :=
  "--sharun-internal-probe-execve-after-no-new-privs".toList

/-- A line of the `.env` file that is carried out: a variable is set, its value expanded,
or it is to be unset before the program is started. -/
inductive DotenvLine
  | set (key value : Text)
  | unset (key : Text)
  deriving DecidableEq

/-- The variable a line is about. -/
def DotenvLine.key : DotenvLine → Text
  | .set key _ => key
  | .unset key => key

/-- What a launch finds outside its environment. -/
structure Host where
  /-- `env::current_exe()`. -/
  exe : Text
  /-- `argv[0]`. -/
  arg0 : Text
  /-- The arguments after it. -/
  args : List Text
  /-- `getauxval(AT_EXECFN)`. -/
  execfn : Option Text
  canonicalize : Text → Option Text
  pathExists : Text → Bool
  /-- Two slashes in a row are one to the kernel. -/
  slashes : ∀ p q : Text, pathExists (p ++ '/' :: '/' :: q) = pathExists (p ++ '/' :: q)
  isDir : Text → Bool
  isExe : Text → Bool
  /-- `is_script`: whether the file begins with `#!`, where it can be read. -/
  isScript : Text → Option Bool
  /-- `is_hardlink`. -/
  isHardlink : Text → Text → Bool
  dotenv : List DotenvLine

/-- How `main` goes on once it knows what it was started as. -/
inductive Outcome
  /-- It prints what it was asked for, or that it cannot go on, and ends. -/
  | ends
  /-- `gave up re-executing`. -/
  | givesUp
  | appRun
  | gioLaunchDesktop
  /-- A script, or another link to `sharun`, is executed in its place. -/
  | execs (path : Text)
  /-- The program at `bin` is run under this name. -/
  | runs (binName bin : Text)
  deriving DecidableEq

/-! ### Paths -/

/-- `path.components()`, but for the root. -/
def components (path : Text) : List Text :=
  (path.splitOn '/').filter fun c => c ≠ [] ∧ c ≠ ['.']

/-- `path.file_name()`. -/
def fileName (path : Text) : Option Text :=
  (components path).getLast?.filter (· ≠ "..".toList)

/-- `path.parent()` of an absolute path. -/
def parent (path : Text) : Option Text :=
  if components path = [] then none else some ('/' :: join '/' (components path).dropLast)

/-- `path.join(name)`. -/
def pathJoin (path name : Text) : Text :=
  if name.head? = some '/' then name
  else if path = [] ∨ path.getLast? = some '/' then path ++ name
  else path ++ '/' :: name

/-! ### `src/utils.rs` -/

/-- `get_env_var(key)`. -/
def getEnvVar (vars : Vars) (key : Text) : Text := (vars key).getD []

/-- `add_to_env(key, val)`. -/
def addToEnv (vars : Vars) (key val : Text) : Vars :=
  let old := getEnvVar vars key
  if old = [] then Function.update vars key (some val)
  else if old ≠ val ∧ ¬ (val ++ [':']) <+: old ∧ ¬ (':' :: val) <:+ old ∧
      contains old (':' :: val ++ [':']) = false then
    Function.update vars key (some (val ++ ':' :: old))
  else vars

namespace Host

/-- `realpath(path)`. -/
def realpath (h : Host) (path : Text) : Text := (h.canonicalize path).getD []

/-- `is_reexec()`. -/
def isReexec (h : Host) : Bool :=
  match h.execfn with
  | none => false
  | some execfn =>
    execfn = "/proc/self/exe".toList || "/memfd:".toList.isPrefixOf execfn ||
      "/dev/fd/".toList.isPrefixOf execfn || " (deleted)".toList.isSuffixOf execfn

/-- `is_sharun_dir(dir)`. -/
def isSharunDir (h : Host) (dir : Text) : Bool :=
  h.isExe (pathJoin dir SHARUN_NAME) && h.isExe (pathJoin dir "AppRun".toList)

/-- `is_sharun_root(dir)`. -/
def isSharunRoot (h : Host) (dir : Text) : Bool :=
  h.isDir (pathJoin dir ".bin".toList) || h.isDir (pathJoin dir "shared".toList)

/-- `find_payload(sharun_dir, name)`. -/
def findPayload (h : Host) (sharunDir name : Text) : Option Text :=
  if name = [] ∨ '/' ∈ name then none
  else [".bin".toList, "shared/bin".toList].findSome? fun dir =>
    let candidate := pathJoin (pathJoin sharunDir dir) name
    if h.pathExists candidate then some candidate else none

/-- `which(executable)`. -/
def which (h : Host) (vars : Vars) (executable : Text) : Option Text :=
  (vars PATH).bind fun path => (path.splitOn ':').findSome? fun dir =>
    let fullPath := pathJoin dir executable
    if h.isExe fullPath then some fullPath else none

/-- `reexec_payload(sharun_dir)`. -/
def reexecPayload (h : Host) (vars : Vars) (sharunDir : Text) : Option (Text × Text) :=
  if !h.isReexec then none
  else
    let name := getEnvVar vars SHARUN_BIN_NAME
    if name = [] ∨ '/' ∈ name then none
    else (h.findPayload sharunDir name).map fun path => (name, path)

end Host

/-- `s.parse::<u32>()`. -/
def parseU32 (s : Text) : Option ℕ :=
  let digits := if s.head? = some '+' then s.tail else s
  if digits = [] ∨ digits.any (!·.isDigit) then none
  else
    let value := digits.foldl (fun n c => 10 * n + (c.toNat - '0'.toNat)) 0
    if value < 0x100000000 then some value else none

/-! ### `src/main.rs` -/

namespace Host

/-- The AppDir, and the environment with `SHARUN_DIR` set where it was not honored. -/
def sharunDir (h : Host) (vars : Vars) : Option (Text × Vars) :=
  let named :=
    if fileName h.exe = some "AppRun".toList then []
    else h.realpath (getEnvVar vars SHARUN_DIR)
  if named ≠ [] ∧ h.isSharunDir named = true then some (named, vars)
  else
    (parent h.exe).map fun dir =>
      let lowerDir := dir ++ "/../".toList
      let dir :=
        if basename dir = "bin".toList ∧ h.isSharunRoot lowerDir = true then h.realpath lowerDir
        else dir
      (dir, Function.update vars SHARUN_DIR (some dir))

/-- What the arguments ask for when `sharun` is started under its own name: the name to
look for, or how it ends. -/
def named (h : Host) (vars : Vars) (binDir : Text) : (Text ⊕ Outcome) × Vars :=
  match h.args with
  | [] => (.inr .ends, vars)
  | first :: _ =>
    if ["-v".toList, "--version".toList, "-h".toList, "--help".toList, "-g".toList,
        "--gen-lib-path".toList].contains first then (.inr .ends, vars)
    else
      let binPath := pathJoin binDir first
      match (h.canonicalize binPath).filter h.isExe with
      | none => (.inl first, vars)
      | some binFullPath =>
        let vars := addToEnv vars PATH binDir
        match h.isScript binPath with
        | some true => (.inr (.execs binPath), vars)
        | some false =>
          if h.isHardlink h.exe binFullPath then (.inr (.execs binPath), vars)
          else (.inl binFullPath, vars)
        | none => (.inr .ends, vars)

/-- What `sharun` is started as, before its payload is looked for. -/
def startedAs (h : Host) (vars : Vars) (sharunDir : Text) : (Text ⊕ Outcome) × Vars :=
  let binName := (fileName h.exe).getD []
  if binName = SHARUN_NAME then h.named vars (sharunDir ++ "/bin".toList)
  else if binName = "AppRun".toList then
    (.inr (if h.args.contains SHARUN_NNP_PROBE_FLAG then .ends else .appRun), vars)
  else if binName = "gio-launch-desktop".toList then (.inr .gioLaunchDesktop, vars)
  else (.inl binName, vars)

/-- The program that is run under a name, and whether its name had to be recovered from the
environment. -/
def payload (h : Host) (vars : Vars) (sharunDir binName : Text) :
    Outcome × Option (Text × Bool) :=
  let bin :=
    if binName.head? = some '/' then binName
    else (h.findPayload sharunDir binName).getD
      (sharunDir ++ "/shared".toList ++ "/bin".toList ++ '/' :: binName)
  if h.pathExists bin = false ∧ binName.head? ≠ some '/' then
    if h.isScript binName = some true then (.execs binName, none)
    else
      match h.which vars binName with
      | some path => (.runs binName path, some (binName, false))
      | none =>
        let arg0Name := (fileName h.arg0).getD []
        match h.findPayload sharunDir arg0Name with
        | some payload => (.runs arg0Name payload, some (arg0Name, false))
        | none =>
          match h.reexecPayload vars sharunDir with
          | some (name, path) => (.runs name path, some (name, true))
          | none => (.ends, none)
  else (.runs binName bin, some (binName, false))

/-- The record that is left in the environment, and the limit on the hops that had to use
it. -/
def record (vars : Vars) (binName : Text) (recovered : Bool) : Option Vars :=
  let vars := Function.update vars SHARUN_BIN_NAME (some binName)
  if recovered then
    let depth := (parseU32 (getEnvVar vars SHARUN_REEXEC_DEPTH)).getD 0
    if 8 ≤ depth then none
    else some (Function.update vars SHARUN_REEXEC_DEPTH (some (Nat.toDigits 10 (depth + 1))))
  else some (Function.update vars SHARUN_REEXEC_DEPTH none)

/-- `main`, up to the point where the program it is to run has been chosen, with the
environment it leaves by then. -/
def choose (h : Host) (vars : Vars) : Outcome × Vars :=
  match h.sharunDir vars with
  | none => (.ends, vars)
  | some (sharunDir, vars) =>
    match h.startedAs vars sharunDir with
    | (.inr outcome, vars) => (outcome, vars)
    | (.inl binName, vars) =>
      match h.payload vars sharunDir binName with
      | (outcome, none) => (outcome, vars)
      | (outcome, some (name, recovered)) =>
        match record vars name recovered with
        | none => (.givesUp, vars)
        | some vars => (outcome, vars)

/-- What `read_dotenv` and the loop over what it returns leave of the environment. -/
def readDotenv (lines : List DotenvLine) (vars : Vars) : Vars :=
  let set := lines.foldl (fun vars line =>
    match line with
    | .set key value => Function.update vars key (some value)
    | .unset _ => vars) vars
  lines.foldl (fun vars line =>
    match line with
    | .set _ _ => vars
    | .unset key => Function.update vars key none) set

end Host

end Launch
end Sharun
