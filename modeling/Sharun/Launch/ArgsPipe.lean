/-
# Options that go through a pipe

`process_args_pipe` reads the options of an application from one pipe and writes them,
with those it adds, into another.  Words are ended by NUL bytes there, and the reader drops
the empty pieces, of which the one after the last NUL is no word and any other is
(`decodeWords_serializeBytes`).  So the words come through as they are exactly when none of
them is empty (`words_kept_iff`).

The new pipe is written before anything can read it, and it holds 65536 bytes.  The write
comes to an end exactly when the options fit (`not_blocked_iff`).
-/

import Sharun.Basis.Utf8
import Sharun.Launch.OptionArities
import Sharun.Launch.SandboxOptions

namespace Sharun
namespace Launch
namespace Bwrap

open Sharun.Basis

variable {words : List Text}

/-! ### Words and bytes -/

/-- The bytes `serialize_to_pipe` writes. -/
def serializeBytes (args : List Text) : List UInt8 := args.flatMap fun arg => utf8 arg ++ [0]

/-- The words `process_args_pipe` takes from what it has read: `content.split(|&b| b == 0)
.filter(|s| !s.is_empty()).map(|s| String::from_utf8_lossy(s))`. -/
def decodeWords (content : List UInt8) : List Text :=
  ((content.splitOn 0).filter (· ≠ [])).map lossy

theorem serializeBytes_eq (args : List Text) : serializeBytes args = utf8 (serialize args) := by
  induction args with
  | nil => rfl
  | cons arg args ih =>
    rw [serializeBytes, List.flatMap_cons, serialize, List.flatMap_cons, utf8_append, utf8_append]
    exact congrArg (utf8 arg ++ [0] ++ ·) ih

/-- A NUL is one byte. -/
theorem utf8_NUL : utf8 [NUL] = [0] := by decide

/-- What is taken from pieces that are encoded texts. -/
theorem decode_pieces (pieces : List Text) :
    ((pieces.map utf8).filter (· ≠ [])).map lossy = pieces.filter (· ≠ []) := by
  induction pieces with
  | nil => rfl
  | cons piece pieces ih =>
    rw [List.map_cons]
    by_cases hpiece : piece = []
    · rw [List.filter_cons_of_neg (by simpa [utf8_eq_nil] using hpiece),
        List.filter_cons_of_neg (by simpa using hpiece), ih]
    · rw [List.filter_cons_of_pos (by simpa [utf8_eq_nil] using hpiece),
        List.filter_cons_of_pos (by simpa using hpiece), List.map_cons, lossy_utf8, ih]

/-- The words of a text are those that are taken from its bytes. -/
theorem fdArgs_eq (d : Descriptors) (fd : ℤ) : d.fdArgs fd = decodeWords (utf8 (d.pipes fd)) := by
  rw [decodeWords, splitOn_utf8 (by decide) utf8_NUL, decode_pieces, Descriptors.fdArgs]

/-- **What is read back** are the words that are not empty. -/
theorem decodeWords_serializeBytes (h : ∀ word ∈ words, NUL ∉ word) :
    decodeWords (serializeBytes words) = words.filter (· ≠ []) := by
  have hpieces : (serialize words).splitOn NUL = words ++ [[]] := splitOn_terminated h
  rw [serializeBytes_eq, decodeWords, splitOn_utf8 (by decide) utf8_NUL, hpieces, decode_pieces,
    List.filter_append]
  exact List.append_nil _

/-! ### Options that come through -/

/-- **The options of an application come through**: they are read back as they are, and the
new pipe holds them without `--seccomp` and its values, followed by those that are added,
and none of their words is left for the arguments. -/
structure PassesThrough (os : List (Opt manual)) : Prop where
  decoded : decodeWords (serializeBytes (flat os)) = flat os
  held : ∀ (w : World) (fd : ℤ), w.pipes fd = serialize (flat os) →
    heldWords (serialize (w.pipeOpts fd)) =
      flat (os.filter (·.word ≠ SECCOMP)) ++ w.buildInjections
  rest : ∀ (w : World) (fd : ℤ), w.pipes fd = serialize (flat os) →
    (w.fdArgs fd).drop (findCmdIdx (w.fdArgs fd)) = []

theorem decoded_iff (h : ∀ word ∈ words, NUL ∉ word) :
    decodeWords (serializeBytes words) = words ↔ [] ∉ words := by
  rw [decodeWords_serializeBytes h, List.filter_eq_self]
  constructor
  · intro hall hmem
    exact absurd (hall [] hmem) (by simp)
  · intro hnone word hword
    have hne : word ≠ [] := fun hempty => hnone (hempty ▸ hword)
    simpa using hne

section

variable {os : List (Opt manual)}

theorem findCmdFrom_le (k : ℕ) (args : List Text) : findCmdFrom k args ≤ args.length := by
  induction args generalizing k with
  | nil => cases k <;> exact le_rfl
  | cons arg args ih =>
    cases k with
    | zero =>
      rw [findCmdFrom, List.length_cons]
      have := ih (optArgCount arg)
      split_ifs <;> omega
    | succ k =>
      rw [findCmdFrom, List.length_cons]
      exact Nat.add_le_add_right (ih k) 1

theorem findCmdIdx_le (args : List Text) : findCmdIdx args ≤ args.length := findCmdFrom_le 0 args

/-- Options to the end. -/
theorem findCmdIdx_options_iff
    (hvalued : ∀ o ∈ os, o.word ∈ overlooked → ∀ v ∈ o.values, optArgCount v = 0) :
    findCmdIdx (flat os) = (flat os).length ↔ ∀ o ∈ os, InStep o := by
  have hiff := findCmdIdx_manual_iff hvalued (stops_nil : grammar.Stops [])
  rwa [List.append_nil] at hiff

/-- What the wrapper keeps of words that are not empty and options to the end. -/
theorem kept_of_options (hnul : ∀ word ∈ flat os, NUL ∉ word) (hempty : [] ∉ flat os)
    (hvalued : ∀ o ∈ os, o.word ∈ overlooked → ∀ v ∈ o.values, optArgCount v = 0)
    (hstep : ∀ o ∈ os, InStep o)
    (hkept : ∀ o ∈ os.filter (·.word ≠ SECCOMP), SECCOMP ∉ o.values) {d : Descriptors} {fd : ℤ}
    (hpipes : d.pipes fd = serialize (flat os)) :
    d.keptOpts fd = flat (os.filter (·.word ≠ SECCOMP)) ∧
      (d.fdArgs fd).drop (findCmdIdx (d.fdArgs fd)) = [] := by
  have hall : d.fdArgs fd = flat os := by
    rw [fdArgs_eq, hpipes, ← serializeBytes_eq, (decoded_iff hnul).2 hempty]
  have hcmd := (findCmdIdx_options_iff hvalued).2 hstep
  have hstrip := stripSeccomp_flat_append (by decide +kernel : manual.arity SECCOMP = 1) hkept []
  rw [List.append_nil, stripSeccomp, List.append_nil] at hstrip
  constructor
  · rw [Descriptors.keptOpts, hall, hcmd, List.take_length, hstrip]
  · rw [hall, hcmd, List.drop_length]

/-- **Which words come through.**  Words without a NUL are read back as they are exactly when
none of them is empty; and options come through exactly when besides none of them stops the
scan, and none but `--seccomp` has the value `--seccomp`. -/
theorem words_kept_iff (hnul : ∀ word ∈ words, NUL ∉ word) :
    (decodeWords (serializeBytes words) = words ↔ [] ∉ words) ∧
      ∀ os : List (Opt manual), flat os = words →
        (∀ o ∈ os, o.word ∈ overlooked → ∀ v ∈ o.values, optArgCount v = 0) →
        (PassesThrough os ↔ [] ∉ words ∧ (∀ o ∈ os, InStep o) ∧
          ∀ o ∈ os.filter (·.word ≠ SECCOMP), SECCOMP ∉ o.values) := by
  refine ⟨decoded_iff hnul, fun os hos hvalued => ?_⟩
  subst hos
  constructor
  · intro h
    have hempty := (decoded_iff hnul).1 h.decoded
    let w : World := { inA with pipes := fun _ => serialize (flat os) }
    have hall : w.fdArgs 3 = flat os := by
      rw [fdArgs_eq, ← serializeBytes_eq, h.decoded]
    have hrest := h.rest w 3 rfl
    rw [hall, List.drop_eq_nil_iff] at hrest
    have hcmd : findCmdIdx (flat os) = (flat os).length := le_antisymm (findCmdIdx_le _) hrest
    have hheld := h.held w 3 rfl
    rw [heldWords_serialize (noNul_pipeOpts w 3), World.pipeOpts, Descriptors.keptOpts, hall, hcmd,
      List.take_length] at hheld
    have hstrip : stripSeccomp (flat os) = flat (os.filter (·.word ≠ SECCOMP)) :=
      List.append_cancel_right hheld
    refine ⟨hempty, ?_, fun o ho hmem => ?_⟩
    · exact (findCmdIdx_options_iff hvalued).1 hcmd
    · refine notMem_stripSeccomp (flat os) ?_
      rw [hstrip]
      exact List.mem_flatMap.2 ⟨o, ho, List.mem_cons_of_mem _ hmem⟩
  · rintro ⟨hempty, hstep, hkept⟩
    refine ⟨(decoded_iff hnul).2 hempty, fun w fd hpipes => ?_, fun w fd hpipes => ?_⟩
    · rw [heldWords_serialize (noNul_pipeOpts w fd), World.pipeOpts,
        (kept_of_options hnul hempty hvalued hstep hkept hpipes).1]
    · exact (kept_of_options hnul hempty hvalued hstep hkept hpipes).2

end

/-- A variable is set. -/
theorem words_kept_set : decodeWords (serializeBytes (["--setenv", "VAR", "x"].map String.toList)) =
    ["--setenv", "VAR", "x"].map String.toList :=
  (words_kept_iff (by decide)).1.2 (by decide)

/-- A variable is set to nothing, and a directory is bound. -/
def emptyValue : List (Opt manual) :=
  [⟨"--setenv".toList, ["VAR".toList, []], isOption_setenv, arity_setenv⟩,
    ⟨"--bind".toList, ["/a".toList, "/b".toList], isOption_bind, arity_bind⟩]

/-- **An empty value is lost**, and the option after it becomes the value: the directories
are left for the arguments. -/
theorem empty_value_lost :
    decodeWords (serializeBytes (flat emptyValue)) =
        ["--setenv", "VAR", "--bind", "/a", "/b"].map String.toList ∧
      findCmdIdx (decodeWords (serializeBytes (flat emptyValue))) = 3 ∧
      ¬ PassesThrough emptyValue := by
  have hdecoded : decodeWords (serializeBytes (flat emptyValue)) =
      ["--setenv", "VAR", "--bind", "/a", "/b"].map String.toList := by
    rw [decodeWords_serializeBytes (by decide +kernel)]
    decide +kernel
  refine ⟨hdecoded, ?_, fun h => ?_⟩
  · rw [hdecoded]
    decide +kernel
  · exact absurd (hdecoded.symm.trans h.decoded) (by decide +kernel)

/-! ### The room in the pipe -/

/-- What a pipe holds. -/
abbrev PIPE_SIZE : ℕ := 65536

/-- A pipe that nothing reads yet. -/
structure Pipe where
  held : List UInt8
  fits : held.length ≤ PIPE_SIZE

namespace Pipe

/-- The pipe when it has been made. -/
def empty : Pipe := ⟨[], Nat.zero_le _⟩

/-- One more byte, where there is room for it. -/
def put (p : Pipe) (b : UInt8) : Option Pipe :=
  if h : p.held.length < PIPE_SIZE then
    some ⟨p.held ++ [b], by rw [List.length_append]; exact h⟩
  else none

/-- `writer.write_all(bytes)`.  Where the pipe is full before the end the writer waits for a
reader, and the only one is the writer itself. -/
def writeAll : Pipe → List UInt8 → Option Pipe
  | p, [] => some p
  | p, b :: bytes => (p.put b).bind fun p => p.writeAll bytes

/-- **A write comes to an end** exactly when there is room for all of it. -/
theorem writeAll_eq_none_iff {p : Pipe} {bytes : List UInt8} :
    p.writeAll bytes = none ↔ PIPE_SIZE < p.held.length + bytes.length := by
  induction bytes generalizing p with
  | nil =>
    have := p.fits
    simp only [writeAll, List.length_nil]
    constructor
    · intro h
      exact absurd h (by simp)
    · intro h
      omega
  | cons b bytes ih =>
    rw [writeAll, put, List.length_cons]
    split_ifs with hroom
    · rw [Option.bind_some, ih, List.length_append, List.length_singleton]
      omega
    · rw [Option.bind_none]
      exact ⟨fun _ => by omega, fun _ => rfl⟩

theorem held_of_writeAll {p p' : Pipe} {bytes : List UInt8} (h : p.writeAll bytes = some p') :
    p'.held = p.held ++ bytes := by
  induction bytes generalizing p with
  | nil =>
    obtain rfl := Option.some.inj h
    exact (List.append_nil _).symm
  | cons b bytes ih =>
    rw [writeAll, put] at h
    split_ifs at h
    · rw [ih h, List.append_assoc, List.singleton_append]
    · exact absurd h (by simp)

end Pipe

/-- What `process_args_pipe` comes to. -/
inductive Outcome
  | returned (args : List Text) (newFd : Fin 0x80000000) (pipe : Pipe)
  /-- The process has ended, with a message or by a panic. -/
  | exited
  /-- The write into the new pipe never returns. -/
  | blocked

/-- `process_args_pipe`, with the write into the new pipe and any injections. -/
def World.runArgsPipe (w : World) (args : List Text) (argsIdx : ℕ) (fd : ℤ)
    (injections : List Text) : Outcome :=
  if fd = -1 then .exited
  else
    match w.newPipe with
    | none => .exited
    | some newFd =>
      match Pipe.empty.writeAll (serializeBytes (w.keptOpts fd ++ injections)) with
      | none => .blocked
      | some pipe => .returned (w.remapCommand (w.newArgs args argsIdx fd newFd)) newFd pipe

/-- What it returns is what `process_args_pipe` returns, and the pipe holds the options. -/
theorem processArgsPipe_of_returned {w : World} {args new : List Text} {i : ℕ} {fd : ℤ}
    {newFd : Fin 0x80000000} {pipe : Pipe}
    (h : w.runArgsPipe args i fd w.buildInjections = .returned new newFd pipe) :
    w.processArgsPipe args i fd = some (new, some newFd) ∧
      pipe.held = utf8 (serialize (w.pipeOpts fd)) := by
  rw [World.runArgsPipe] at h
  rw [World.processArgsPipe]
  split_ifs at h ⊢
  split at h
  · cases h
  · rename_i newFd' hnew
    split at h
    · cases h
    · rename_i pipe' hpipe
      obtain ⟨rfl, rfl, rfl⟩ := Outcome.returned.inj h
      rw [hnew, Option.map_some, Pipe.held_of_writeAll hpipe, serializeBytes_eq]
      exact ⟨rfl, List.nil_append _⟩

/-- The bytes of some words in a pipe: those of their characters, and one more for each. -/
def wordBytes (words : List Text) : ℕ :=
  (words.map fun word => (word.map Char.utf8Size).sum + 1).sum

theorem length_serializeBytes (words : List Text) :
    (serializeBytes words).length = wordBytes words := by
  have hword : ∀ word : Text, (utf8 word).length = (word.map Char.utf8Size).sum := by
    intro word
    rw [utf8, List.length_flatMap]
    simp
  rw [serializeBytes, List.length_flatMap, wordBytes]
  simp [hword]

theorem wordBytes_append (words words' : List Text) :
    wordBytes (words ++ words') = wordBytes words + wordBytes words' := by
  rw [wordBytes, wordBytes, wordBytes, List.map_append, List.sum_append]

/-- Words that do not fit into a new pipe. -/
theorem writeAll_serializeBytes_eq_none (words : List Text) :
    Pipe.empty.writeAll (serializeBytes words) = none ↔ PIPE_SIZE < wordBytes words := by
  rw [Pipe.writeAll_eq_none_iff, length_serializeBytes, Pipe.empty, List.length_nil, Nat.zero_add]

/-- A new pipe that is too small. -/
theorem runArgsPipe_eq_blocked {w : World} {args : List Text} {i : ℕ} {fd : ℤ}
    {injections : List Text} (hfd : fd ≠ -1) (hnew : w.newPipe ≠ none)
    (hlarge : PIPE_SIZE < wordBytes (w.keptOpts fd) + wordBytes injections) :
    w.runArgsPipe args i fd injections = .blocked := by
  obtain ⟨newFd, hnew⟩ := Option.ne_none_iff_exists'.1 hnew
  rw [← wordBytes_append] at hlarge
  rw [World.runArgsPipe, if_neg hfd, hnew]
  dsimp only
  rw [(writeAll_serializeBytes_eq_none _).2 hlarge]

/-- **The wrapper does not hang** exactly when the options that are kept and those that are
added fit into the pipe, or nothing is written. -/
theorem not_blocked_iff (w : World) (args : List Text) (i : ℕ) (fd : ℤ) (injections : List Text) :
    w.runArgsPipe args i fd injections ≠ .blocked ↔
      fd = -1 ∨ w.newPipe = none ∨
        wordBytes (w.keptOpts fd) + wordBytes injections ≤ PIPE_SIZE := by
  constructor
  · intro h
    by_contra hnot
    obtain ⟨hfd, hnew, hlarge⟩ : fd ≠ -1 ∧ w.newPipe ≠ none ∧
        PIPE_SIZE < wordBytes (w.keptOpts fd) + wordBytes injections := by
      rwa [not_or, not_or, not_le] at hnot
    exact h (runArgsPipe_eq_blocked hfd hnew hlarge)
  · rw [World.runArgsPipe]
    rintro (hfd | hnew | hfits)
    · rw [if_pos hfd]
      exact Outcome.noConfusion
    · rw [hnew]
      split_ifs <;> exact Outcome.noConfusion
    · have hroom : Pipe.empty.writeAll (serializeBytes (w.keptOpts fd ++ injections)) ≠ none := by
        rw [Ne, writeAll_serializeBytes_eq_none, wordBytes_append, not_lt]
        exact hfits
      obtain ⟨pipe, hpipe⟩ := Option.ne_none_iff_exists'.1 hroom
      rw [hpipe]
      split_ifs
      · exact Outcome.noConfusion
      · cases w.newPipe <;> exact Outcome.noConfusion

/-- A directory is bound again and again. -/
def manyBinds : List (Opt manual) :=
  List.replicate 2048 ⟨"--ro-bind".toList, ["/usr/share".toList, "/usr/share".toList],
    by decide +kernel, by decide +kernel⟩

/-- The wrapper when these options are in the pipe it is to read. -/
def bindsInPipe : World := { inA with pipes := fun _ => serialize (flat manyBinds) }

theorem wordBytes_flat_replicate (n : ℕ) (o : Opt manual) :
    wordBytes (flat (List.replicate n o)) = n * wordBytes o.words := by
  induction n with
  | zero => rw [List.replicate_zero, flat_nil, Nat.zero_mul]; rfl
  | succ n ih =>
    rw [List.replicate_succ, flat_cons, wordBytes_append, ih, Nat.add_mul, Nat.one_mul,
      Nat.add_comm]

/-- **The launch hangs**: 2048 binds of 32 bytes fill the pipe, and there is no room for the
options that are added. -/
theorem launch_hangs :
    bindsInPipe.runArgsPipe [ARGS, "3".toList] 0 3 bindsInPipe.buildInjections = .blocked := by
  have hmem : ∀ o ∈ manyBinds, o.word = "--ro-bind".toList ∧
      o.values = ["/usr/share".toList, "/usr/share".toList] := by
    intro o ho
    rw [List.eq_of_mem_replicate ho]
    exact ⟨rfl, rfl⟩
  have hwords : ∀ word ∈ flat manyBinds,
      word = "--ro-bind".toList ∨ word = "/usr/share".toList := by
    intro word hword
    obtain ⟨o, ho, hin⟩ := List.mem_flatMap.1 hword
    obtain ⟨hw, hv⟩ := hmem o ho
    rw [Opt.words, hw, hv] at hin
    simpa using hin
  have hnul : ∀ word ∈ flat manyBinds, NUL ∉ word := by
    intro word hword
    rcases hwords word hword with rfl | rfl <;> decide
  have hempty : [] ∉ flat manyBinds := by
    intro hin
    rcases hwords [] hin with h | h <;> exact absurd h (by decide)
  have hplain : ∀ o ∈ manyBinds, o.word ∉ overlooked := by
    intro o ho
    rw [(hmem o ho).1]
    decide
  have hfilter : manyBinds.filter (·.word ≠ SECCOMP) = manyBinds := by
    rw [List.filter_eq_self]
    intro o ho
    rw [(hmem o ho).1]
    decide
  have hkept : bindsInPipe.keptOpts 3 = flat manyBinds := by
    have hvalues : ∀ o ∈ manyBinds.filter (·.word ≠ SECCOMP), SECCOMP ∉ o.values := by
      intro o ho
      rw [hfilter] at ho
      rw [(hmem o ho).2]
      decide
    have hpipes : bindsInPipe.toDescriptors.pipes 3 = serialize (flat manyBinds) := rfl
    have hoptions := kept_of_options hnul hempty
      (fun o ho hover => absurd hover (hplain o ho)) (fun o ho hover => absurd hover (hplain o ho))
      hvalues hpipes
    rw [hoptions.1, hfilter]
  refine runArgsPipe_eq_blocked (by decide) (by simp [bindsInPipe, inA]) ?_
  rw [hkept, manyBinds, wordBytes_flat_replicate]
  decide +kernel

end Bwrap
end Launch
end Sharun
