/-
# The wrapper of `bwrap`: `src/bwrap_wrapper.rs`

A program of the AppImage that puts another one into a sandbox calls `bwrap` with options,
a command and the command's own arguments; or it writes the options into a pipe and
passes `--args N`.  The wrapper adds options of its own (`buildInjections`), takes
`--seccomp` away and looks for the command in the AppDir.

A loop over an index of the arguments is a recursion over the arguments here, and an index
that is moved on by more than one is a number of words to skip.  What a descriptor holds
is a text; bytes that are no text are read as replacement characters, by which no NUL comes
or goes.  Where the source ends the process, with a message or by a panic, the result is
`none`.
-/

import Sharun.Basis.Options
import Sharun.Launch.Text

namespace Sharun
namespace Launch
namespace Bwrap

open Sharun.Basis

abbrev ARGS : Text := "--args".toList

abbrev SECCOMP : Text := "--seccomp".toList

/-- What separates the options from the command. -/
abbrev SEP : Text := "--".toList

/-- What ends each word in a pipe. -/
def NUL : Char := Char.ofNat 0

/-- The options with two values. -/
def takeTwo : List Text :=
  ["--bind", "--ro-bind", "--bind-try", "--ro-bind-try", "--dev-bind", "--dev-bind-try",
    "--bind-data", "--ro-bind-data", "--file", "--ro-file", "--dev-mknod", "--symlink",
    "--chmod", "--bind-fd", "--ro-bind-fd", "--setenv"].map String.toList

/-- The options with one value. -/
def takeOne : List Text :=
  ["--tmpfs", "--proc", "--dev", "--devpts", "--mqueue", "--hostname", "--seccomp",
    "--block-fd", "--userns", "--uid", "--gid", "--chdir", "--unsetenv", "--lock-file",
    "--sync-fd", "--info-fd", "--json-status-fd", "--add-seccomp-fd", "--add-feature",
    "--args", "--dir", "--remount-ro", "--perms", "--size", "--argv0", "--overlay-src",
    "--tmp-overlay", "--ro-overlay", "--exec-label", "--file-label", "--userns-block-fd",
    "--pidns"].map String.toList

/-- `opt_arg_count(arg)`. -/
def optArgCount (arg : Text) : ℕ :=
  if arg = "--overlay".toList then 3
  else if takeTwo.contains arg then 2
  else if takeOne.contains arg then 1
  else 0

/-- `arg.starts_with('-')`. -/
def startsWithDash (arg : Text) : Bool := arg.head? = some '-'

/-- The loop of `find_cmd_idx`, with the number of values it still skips. -/
def findCmdFrom : ℕ → List Text → ℕ
  | _, [] => 0
  | k + 1, _ :: args => findCmdFrom k args + 1
  | 0, arg :: args =>
    if arg = SEP then 0
    else if startsWithDash arg then findCmdFrom (optArgCount arg) args + 1
    else 0

/-- `find_cmd_idx(args)`. -/
def findCmdIdx (args : List Text) : ℕ := findCmdFrom 0 args

/-- The loop that leaves out `--seccomp` and the word after it. -/
def stripSeccomp : List Text → List Text
  | [] => []
  | [arg] => if arg = SECCOMP then [] else [arg]
  | arg :: value :: args =>
    if arg = SECCOMP then stripSeccomp args else arg :: stripSeccomp (value :: args)

/-- `s.parse::<RawFd>()`. -/
def parseRawFd (s : Text) : Option ℤ :=
  let negative := s.head? = some '-'
  let digits := if negative ∨ s.head? = some '+' then s.tail else s
  if digits = [] ∨ digits.any (!·.isDigit) then none
  else
    let value : ℤ := digits.foldl (fun n c => 10 * n + (c.toNat - '0'.toNat)) 0
    let value := if negative then -value else value
    if -0x80000000 ≤ value ∧ value < 0x80000000 then some value else none

/-- `fd.to_string()`. -/
def showFd (fd : Fin 0x80000000) : Text := Nat.toDigits 10 fd

/-- The descriptors of the process. -/
structure Descriptors where
  /-- What can be read from a descriptor. -/
  pipes : ℤ → Text
  /-- The descriptor of the new pipe, where one can be made and written to. -/
  newPipe : Option (Fin 0x80000000)

/-- What the wrapper is given, and what it finds. -/
structure World extends Descriptors where
  appdir : Text
  sharunDir : Text
  path : Text
  noNul : NUL ∉ appdir ∧ NUL ∉ sharunDir ∧ NUL ∉ path
  /-- `main` passes the AppDir it has found, which is an absolute path. -/
  absolute : ∀ c ∈ appdir.head?, c = '/'
  /-- `access(candidate, X_OK)` succeeds. -/
  access : Text → Bool

namespace World

/-- `build_injections(appdir, sharun_dir, path)`. -/
def buildInjections (w : World) : List Text :=
  ["--proc".toList, "/proc".toList] ++
    (if w.appdir = [] then [] else ["--bind".toList, w.appdir, w.appdir]) ++
    ["--bind".toList, "/tmp".toList, "/tmp".toList] ++
    (if w.sharunDir = [] then []
      else ["--setenv".toList, "SHARUN_DIR".toList, w.sharunDir]) ++
    (if w.appdir = [] then [] else ["--setenv".toList, "APPDIR".toList, w.appdir]) ++
    (if w.path = [] then [] else ["--setenv".toList, "PATH".toList, w.path])

/-- `try_remap_path(path, appdir)`. -/
def tryRemapPath (w : World) (path : Text) : Option Text :=
  if path.head? ≠ some '/' ∨ w.appdir = [] then none
  else if basename path = [] then none
  else ["bin".toList, "lib".toList, "libexec".toList].findSome? fun dir =>
    let candidate := w.appdir ++ '/' :: dir ++ '/' :: basename path
    if w.access candidate then some candidate else none

/-- A command word, after `try_remap_path`. -/
def remapped (w : World) (cmd : Text) : Text := (w.tryRemapPath cmd).getD cmd

/-- The command is the first of these words. -/
def remapFirst (w : World) : List Text → List Text
  | [] => []
  | cmd :: own => w.remapped cmd :: own

/-- The loop of `remap_command`, with the number of values it still skips. -/
def remapFrom (w : World) : ℕ → List Text → List Text
  | _, [] => []
  | k + 1, arg :: args => arg :: w.remapFrom k args
  | 0, arg :: args =>
    if arg = SEP then arg :: w.remapFirst args
    else if startsWithDash arg then arg :: w.remapFrom (optArgCount arg) args
    else w.remapFirst (arg :: args)

/-- `remap_command(args, appdir)`. -/
def remapCommand (w : World) (args : List Text) : List Text :=
  if w.appdir = [] then args else w.remapFrom 0 args

end World

/-- The words a descriptor holds: `content.split(|&b| b == 0).filter(|s| !s.is_empty())`. -/
def Descriptors.fdArgs (d : Descriptors) (fd : ℤ) : List Text :=
  ((d.pipes fd).splitOn NUL).filter (· ≠ [])

/-- The options among them that `process_args_pipe` keeps. -/
def Descriptors.keptOpts (d : Descriptors) (fd : ℤ) : List Text :=
  stripSeccomp ((d.fdArgs fd).take (findCmdIdx (d.fdArgs fd)))

/-- The arguments that `process_args_pipe` puts together. -/
def Descriptors.newArgs (d : Descriptors) (args : List Text) (argsIdx : ℕ) (fd : ℤ)
    (newFd : Fin 0x80000000) : List Text :=
  args.take argsIdx ++ [ARGS, showFd newFd] ++ args.drop (argsIdx + 2) ++
    (d.fdArgs fd).drop (findCmdIdx (d.fdArgs fd))

/-- What `serialize_to_pipe` writes. -/
def serialize (args : List Text) : Text := args.flatMap (· ++ [NUL])

namespace World

/-- The options `process_args_pipe` writes into the new pipe. -/
def pipeOpts (w : World) (fd : ℤ) : List Text :=
  w.keptOpts fd ++ w.buildInjections

/-- `process_args_pipe`, with the new arguments and the new descriptor. -/
def processArgsPipe (w : World) (args : List Text) (argsIdx : ℕ) (fd : ℤ) :
    Option (List Text × Option (Fin 0x80000000)) :=
  -- there is no file with the descriptor -1, and `from_raw_fd` panics
  if fd = -1 then none
  else w.newPipe.map fun newFd => (w.remapCommand (w.newArgs args argsIdx fd newFd), some newFd)

/-- `process_args_direct`. -/
def processArgsDirect (w : World) (args : List Text) : List Text :=
  let stripped := stripSeccomp args
  let insertAt := findCmdIdx stripped
  w.remapCommand (stripped.take insertAt ++ w.buildInjections ++ stripped.drop insertAt)

end World

/-- The descriptor that `--args` at this index names. -/
def fdAt (args : List Text) (i : ℕ) : Option ℤ :=
  if args[i]? = some ARGS then args[i + 1]?.bind parseRawFd else none

/-- The loop of `process_bwrap_args`: the first `--args` with a descriptor. -/
def findArgs (args : List Text) : Option (ℕ × ℤ) := firstAt (fdAt args) (List.range args.length)

/-- `process_bwrap_args`. -/
def World.processBwrapArgs (w : World) (args : List Text) :
    Option (List Text × Option (Fin 0x80000000)) :=
  match findArgs args with
  | some (i, fd) => w.processArgsPipe args i fd
  | none => some (w.processArgsDirect args, none)

/-- What can be read from the descriptors after that: the pipe that was named has been read
to its end and closed, and the new one holds the options. -/
def World.pipesAfter (w : World) (args : List Text) (newFd : Option (Fin 0x80000000)) : ℤ → Text :=
  match findArgs args, newFd with
  | some (_, fd), some newFd => Function.update (Function.update w.pipes fd []) newFd
      (serialize (w.pipeOpts fd))
  | _, _ => w.pipes

/-! ### What the loops agree on -/

/-- The options of `bwrap`, by `opt_arg_count`. -/
def grammar : Grammar Text where
  isOption arg := arg ≠ SEP && startsWithDash arg
  arity := optArgCount

theorem isOption_iff {arg : Text} :
    grammar.isOption arg = true ↔ arg ≠ SEP ∧ startsWithDash arg = true := by
  unfold grammar
  simp

theorem findCmdFrom_values {k : ℕ} {vs : List Text} (h : vs.length = k) (args : List Text) :
    findCmdFrom k (vs ++ args) = k + findCmdIdx args := by
  induction vs generalizing k with
  | nil =>
    subst h
    exact (Nat.zero_add _).symm
  | cons v vs ih =>
    subst h
    show findCmdFrom vs.length (vs ++ args) + 1 = vs.length + 1 + findCmdIdx args
    rw [ih rfl]
    omega

/-- **`find_cmd_idx` goes past options with all their values.** -/
theorem findCmdIdx_flat_append (os : List (Opt grammar)) (args : List Text) :
    findCmdIdx (flat os ++ args) = (flat os).length + findCmdIdx args := by
  induction os with
  | nil => exact (Nat.zero_add _).symm
  | cons o os ih =>
    obtain ⟨hsep, hdash⟩ := isOption_iff.1 o.isOption
    have hvalues := findCmdFrom_values o.complete (flat os ++ args)
    rw [flat_cons, List.append_assoc, Opt.words, List.cons_append, findCmdIdx, findCmdFrom,
      if_neg hsep, if_pos hdash]
    show findCmdFrom (grammar.arity o.word) _ + 1 = _
    rw [hvalues, ih, List.length_append, List.length_cons, o.complete]
    omega

theorem findCmdFrom_short {k : ℕ} {vs : List Text} (h : vs.length ≤ k) :
    findCmdFrom k vs = vs.length := by
  induction vs generalizing k with
  | nil => cases k <;> rfl
  | cons v vs ih =>
    cases k with
    | zero => exact absurd h (by simp)
    | succ k => rw [findCmdFrom, ih (by simpa using h), List.length_cons]

/-- An option that lacks values takes all the words that are left. -/
theorem findCmdIdx_short {word : Text} {vs : List Text} (hword : grammar.isOption word = true)
    (h : vs.length < grammar.arity word) : findCmdIdx (word :: vs) = (word :: vs).length := by
  obtain ⟨hsep, hdash⟩ := isOption_iff.1 hword
  have hvalues : findCmdFrom (optArgCount word) vs = vs.length :=
    findCmdFrom_short (Nat.le_of_lt h)
  rw [findCmdIdx, findCmdFrom, if_neg hsep, if_pos hdash, hvalues, List.length_cons]

theorem findCmdIdx_of_stops {args : List Text} (h : grammar.Stops args) : findCmdIdx args = 0 := by
  cases args with
  | nil => rfl
  | cons arg args =>
    have harg : ¬ (arg ≠ SEP ∧ startsWithDash arg = true) := by
      rw [← isOption_iff, h arg rfl]
      exact Bool.false_ne_true
    rw [findCmdIdx, findCmdFrom]
    split_ifs with hsep hdash
    · rfl
    · exact absurd ⟨hsep, hdash⟩ harg
    · rfl

/-- **No `--seccomp` is left, in whatever position.** -/
theorem notMem_stripSeccomp (args : List Text) : SECCOMP ∉ stripSeccomp args := by
  induction args using stripSeccomp.induct with
  | case1 => exact List.not_mem_nil
  | case2 => simp [stripSeccomp]
  | case3 arg harg => simpa [stripSeccomp, harg] using Ne.symm harg
  | case4 value args ih =>
    rw [stripSeccomp, if_pos rfl]
    exact ih
  | case5 arg value args harg ih =>
    rw [stripSeccomp, if_neg harg, List.mem_cons, not_or]
    exact ⟨Ne.symm harg, ih⟩

variable {w : World}

theorem remapFrom_values {k : ℕ} {vs : List Text} (h : vs.length = k) (args : List Text) :
    w.remapFrom k (vs ++ args) = vs ++ w.remapFrom 0 args := by
  induction vs generalizing k with
  | nil =>
    subst h
    rfl
  | cons v vs ih =>
    subst h
    show v :: w.remapFrom vs.length (vs ++ args) = _
    rw [ih rfl, List.cons_append]

/-- **`remap_command` leaves options with all their values as they are.** -/
theorem remapCommand_flat_append (os : List (Opt grammar)) (args : List Text) :
    w.remapCommand (flat os ++ args) = flat os ++ w.remapCommand args := by
  unfold World.remapCommand
  split_ifs
  · rfl
  induction os with
  | nil => rfl
  | cons o os ih =>
    obtain ⟨hsep, hdash⟩ := isOption_iff.1 o.isOption
    have hvalues := remapFrom_values (w := w) o.complete (flat os ++ args)
    rw [flat_cons, List.append_assoc, Opt.words, List.cons_append, World.remapFrom, if_neg hsep,
      if_pos hdash]
    show o.word :: w.remapFrom (grammar.arity o.word) _ = _
    rw [hvalues, ih, List.cons_append, List.cons_append, List.append_assoc]

theorem remapFrom_short {k : ℕ} {vs : List Text} (h : vs.length ≤ k) : w.remapFrom k vs = vs := by
  induction vs generalizing k with
  | nil => cases k <;> rfl
  | cons v vs ih =>
    cases k with
    | zero => exact absurd h (by simp)
    | succ k => rw [World.remapFrom, ih (by simpa using h)]

theorem tryRemapPath_of_empty (h : w.appdir = []) (path : Text) : w.tryRemapPath path = none := by
  unfold World.tryRemapPath
  rw [if_pos (Or.inr h)]

theorem two_bind : 2 = optArgCount "--bind".toList := by decide

theorem two_setenv : 2 = optArgCount "--setenv".toList := by decide

/-- The options that the wrapper adds. -/
def World.injections (w : World) : List (Opt grammar) :=
  [⟨"--proc".toList, ["/proc".toList], by decide, by decide⟩] ++
    (if w.appdir = [] then []
      else [⟨"--bind".toList, [w.appdir, w.appdir], by decide, two_bind⟩]) ++
    [⟨"--bind".toList, ["/tmp".toList, "/tmp".toList], by decide, two_bind⟩] ++
    (if w.sharunDir = [] then []
      else [⟨"--setenv".toList, ["SHARUN_DIR".toList, w.sharunDir], by decide, two_setenv⟩]) ++
    (if w.appdir = [] then []
      else [⟨"--setenv".toList, ["APPDIR".toList, w.appdir], by decide, two_setenv⟩]) ++
    (if w.path = [] then []
      else [⟨"--setenv".toList, ["PATH".toList, w.path], by decide, two_setenv⟩])

/-- **The words that are added are options with all their values.** -/
theorem buildInjections_eq (w : World) : w.buildInjections = flat w.injections := by
  unfold World.buildInjections World.injections
  split_ifs <;> rfl

end Bwrap
end Launch
end Sharun
