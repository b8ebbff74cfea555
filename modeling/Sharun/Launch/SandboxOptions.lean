/-
# The options that `bwrap` ends up with

The wrapper promises that none of the options is `--seccomp` and that its own are among
them.  It strips what it rewrites: the arguments if it finds no `--args N`, and else the pipe
that the first one names.  An option `--seccomp` beside that, or in another pipe, stays.
And what it adds is read only if the reading gets there with no option waiting for values.
`Kept` says of the arguments and of what the pipes hold when the promise is kept
(`guaranteed_iff`).
-/

import Sharun.Launch.ReadOptions
import Mathlib.Algebra.Order.BigOperators.Group.List
import Mathlib.Algebra.Order.Ring.Nat

namespace Sharun
namespace Launch
namespace Bwrap

open Sharun.Basis

def NoSeccomp (os : List (Text × List Text)) : Prop := ∀ o ∈ os, o.1 ≠ SECCOMP

def HasInjections (w : World) (os : List (Text × List Text)) : Prop :=
  ∀ inj ∈ w.injections, inj.read ∈ os

/-- **What the wrapper promises** of the options that `bwrap` ends up with. -/
structure Guaranteed (w : World) (os : List (Text × List Text)) : Prop where
  noSeccomp : NoSeccomp os
  injected : HasInjections w os

/-- The first option that is added. -/
abbrev PROC : Text × List Text := ("--proc".toList, ["/proc".toList])

/-- What is added after some words is read, if the reading gets there and the last option has
all its values; or if it takes `--proc /proc` for two values that it lacks, and the
options have that already. -/
def Placed (before : List Text) (others : List (Text × List Text)) : Prop :=
  Ends before ∧ (manual.missing before = 0 ∨ manual.missing before = 2 ∧ PROC ∈ others)

/-- The options that do not come from the new pipe. -/
def otherOptions (pipes : ℤ → Text) (newFd : ℤ) (args : List Text) : List (Text × List Text) :=
  ((readOptions args).filter (namedFd · ≠ some newFd)).flatMap (expand pipes)

/-! ### When the promise is kept -/

/-- The words that are left of some arguments without each `--seccomp` and the word after it. -/
inductive Without : List Text → List Text → Prop
  | nil : Without [] []
  | last : Without [SECCOMP] []
  | skip (value : Text) {args words : List Text} (h : Without args words) :
      Without (SECCOMP :: value :: args) words
  | keep {arg : Text} {args words : List Text} (harg : arg ≠ SECCOMP) (h : Without args words) :
      Without (arg :: args) (arg :: words)

/-- The words of a pipe that are not empty. -/
def wordsIn (content : Text) : List Text := (heldWords content).filter (· ≠ [])

/-- Where no `--args` is followed by a number: in the words that are left, the options before the
command, where `opt_arg_count` puts it, are read to their end and leave no value for what
is added to take, and none of them is `--seccomp`, be it in a pipe. -/
def DirectKept (pipes : ℤ → Text) (args : List Text) : Prop :=
  ∃ before rest, Without args (before ++ rest) ∧ grammar.Front before rest ∧
    NoSeccomp (bwrapOptions pipes before) ∧ Placed before (bwrapOptions pipes before)

/-- Where the first `--args` with a number, `fd`, is at `i` and the new pipe is `newFd`: that
`--args` is an option, unless another option happens to name the new pipe; no other option of
the arguments, and of what stands behind the options in the pipe `fd`, is `--seccomp`, be it
in another pipe; and those options, without `--seccomp`, are read to their end and leave no
value for what is added to take. -/
def PipeKept (pipes : ℤ → Text) (args : List Text) (i : ℕ) (fd newFd : ℤ) : Prop :=
  ∃ opts rest kept, wordsIn (pipes fd) = opts ++ rest ∧ grammar.Front opts rest ∧
    Without opts kept ∧
    ((∃ os : List (Opt manual), args.take i = flat os ∧ ∀ o ∈ os, takes o.read = true) ∨
      ∃ o ∈ readOptions (args ++ rest), namedFd o = some newFd) ∧
    let others := otherOptions (Function.update pipes fd []) newFd (args ++ rest)
    NoSeccomp others ∧ Placed kept (others ++ readOptions kept)

/-- What the wrapper must find for its promise to hold.  With the number -1 it panics, and nothing
is run. -/
def Kept (d : Descriptors) (args : List Text) : Prop :=
  ((∀ i, fdAt args i = none) → DirectKept d.pipes args) ∧
    ∀ i fd, fdAt args i = some fd → (∀ j < i, fdAt args j = none) → fd ≠ -1 →
      ∀ newFd ∈ d.newPipe, PipeKept d.pipes args i fd newFd

variable {w : World} {d : Descriptors} {args before rest : List Text}

theorem without_iff {words : List Text} : Without args words ↔ stripSeccomp args = words := by
  constructor
  · intro h
    induction h with
    | nil => rfl
    | last => simp [stripSeccomp]
    | skip value h ih => rwa [stripSeccomp, if_pos rfl]
    | keep harg h ih => rw [stripSeccomp_cons harg, ih]
  · rintro rfl
    induction args using stripSeccomp.induct with
    | case1 => exact .nil
    | case2 =>
      simp only [stripSeccomp, if_true]
      exact .last
    | case3 arg harg =>
      rw [stripSeccomp, if_neg harg]
      exact .keep harg .nil
    | case4 value args ih =>
      rw [stripSeccomp, if_pos rfl]
      exact .skip value ih
    | case5 arg value args harg ih =>
      rw [stripSeccomp, if_neg harg]
      exact .keep harg ih

/-- The reader of `process_args_pipe` drops the empty words. -/
theorem wordsIn_eq (d : Descriptors) (fd : ℤ) : wordsIn (d.pipes fd) = d.fdArgs fd := by
  unfold wordsIn heldWords Descriptors.fdArgs
  dsimp only
  split_ifs with hlast
  · obtain ⟨ys, hys⟩ := List.getLast?_eq_some_iff.1 hlast
    rw [hys, List.dropLast_concat, List.filter_append]
    simp
  · rfl

/-! ### Where what is added is read -/

/-- The first of the options that are added, and the others. -/
theorem injections_eq (w : World) : w.injections =
    ⟨"--proc".toList, ["/proc".toList], by decide, by decide⟩ :: w.injections.tail := rfl

theorem word_of_mem_injections {inj : Opt grammar} (h : inj ∈ w.injections) :
    inj.word ∈ ["--proc".toList, "--bind".toList, "--setenv".toList] := by
  unfold World.injections at h
  simp only [List.mem_append, List.mem_ite_nil_left, List.mem_singleton] at h
  rcases h with ((((rfl | ⟨-, rfl⟩) | rfl) | ⟨-, rfl⟩) | ⟨-, rfl⟩) | ⟨-, rfl⟩ <;> simp

theorem word_of_mem_tail {inj : Opt grammar} (h : inj ∈ w.injections.tail) :
    inj.word ∈ ["--bind".toList, "--setenv".toList] := by
  simp only [World.injections, List.cons_append, List.tail_cons, List.mem_append,
    List.mem_ite_nil_left, List.mem_cons, List.not_mem_nil, or_false, false_or] at h
  rcases h with (((⟨-, rfl⟩ | rfl) | ⟨-, rfl⟩) | ⟨-, rfl⟩) | ⟨-, rfl⟩ <;> simp

theorem namedFd_injection {inj : Opt grammar} (h : inj ∈ w.injections) :
    namedFd inj.read = none := by
  have hwords : ∀ word ∈ ["--proc".toList, "--bind".toList, "--setenv".toList], word ≠ ARGS := by
    decide
  unfold namedFd
  rw [Opt.read, if_neg (hwords _ (word_of_mem_injections h))]

/-- The options that are added are the same by the manual. -/
theorem exists_manual {injs : List (Opt grammar)} (h : ∀ inj ∈ injs, inj ∈ w.injections) :
    ∃ os : List (Opt manual), flat os = flat injs ∧ os.map Opt.read = injs.map Opt.read ∧
      ∀ o ∈ os, takes o.read = true := by
  have hwords : ∀ word ∈ ["--proc".toList, "--bind".toList, "--setenv".toList],
      manual.isOption word = true ∧ optArgCount word = manual.arity word ∧
        overlooked.contains word = false := by
    decide +kernel
  induction injs with
  | nil => exact ⟨[], rfl, rfl, fun o ho => absurd ho List.not_mem_nil⟩
  | cons inj injs ih =>
    obtain ⟨hinj, hinjs⟩ := List.forall_mem_cons.1 h
    obtain ⟨os, hflat, hread, htakes⟩ := ih hinjs
    obtain ⟨hoption, harity, hplain⟩ := hwords _ (word_of_mem_injections hinj)
    refine ⟨⟨inj.word, inj.values, hoption, inj.complete.trans harity⟩ :: os, ?_, ?_, ?_⟩
    · rw [flat_cons, flat_cons, hflat, Opt.words, Opt.words]
    · rw [List.map_cons, List.map_cons, hread, Opt.read, Opt.read]
    · exact List.forall_mem_cons.2 ⟨takes_of_plain hplain inj.values, htakes⟩

/-- **What is added is read** where the reading gets to it. -/
theorem readOptions_injections {injs : List (Opt grammar)} (h : ∀ inj ∈ injs, inj ∈ w.injections)
    (hrest : manual.Stops rest) : readOptions (flat injs ++ rest) = injs.map Opt.read := by
  obtain ⟨os, hflat, hread, htakes⟩ := exists_manual h
  rw [← hflat, ← hread, readOptions_flat_append htakes, readOptions_of_stops hrest,
    List.append_nil]

theorem three_le_length (w : World) : 3 ≤ w.buildInjections.length := by
  unfold World.buildInjections
  simp only [List.length_append, List.length_cons]
  omega

/-- What is read of the added words when an option has taken some of them. -/
theorem readOptions_drop_buildInjections {k : ℕ} (hpos : 0 < k) (hle : k ≤ 3)
    (hrest : manual.Stops rest) : readOptions (w.buildInjections.drop k ++ rest) =
      if k = 2 then w.injections.tail.map Opt.read else [] := by
  obtain rfl | rfl | rfl : k = 1 ∨ k = 2 ∨ k = 3 := by omega
  · exact readOptions_of_stops (stops_manual (stops_of_slash (by decide) _))
  · rw [buildInjections_eq, injections_eq]
    exact readOptions_injections (fun _ h => List.mem_of_mem_tail h) hrest
  · refine readOptions_of_stops (stops_manual ?_)
    unfold World.buildInjections
    by_cases happdir : w.appdir = []
    · simp only [if_pos happdir]
      exact stops_of_slash (by decide) _
    · obtain ⟨c, appdir, hcons⟩ := List.exists_cons_of_ne_nil happdir
      have hc : c = '/' := w.absolute c (by rw [hcons]; rfl)
      simp only [if_neg happdir]
      exact stops_of_slash (by rw [hcons, hc]; rfl) _

/-- What is read of the words before, when the last option there lacks `k` values and takes
them from what is added. -/
structure Swallows (w : World) (before rest : List Text) (k : ℕ) (os : List (Text × List Text))
    (word : Text) (vs : List Text) : Prop where
  missing : manual.missing before = k
  bounds : 0 < k ∧ k ≤ 3
  read : readOptions before = os ++ [(word, vs)]
  lacks : vs.length + k = manual.arity word
  swallowed : readOptions (before ++ w.buildInjections ++ rest) =
    os ++ if takes (word, vs ++ w.buildInjections.take k) then
      (word, vs ++ w.buildInjections.take k) ::
        if k = 2 then w.injections.tail.map Opt.read else []
    else []

/-- **What is added is read after the words before**, or the last option there takes a part of
it. -/
theorem read_before (w : World) (h : Ends before) (hrest : manual.Stops rest) :
    (manual.missing before = 0 ∧ readOptions (before ++ w.buildInjections ++ rest) =
        readOptions before ++ w.injections.map Opt.read) ∨
    ∃ k os word vs, Swallows w before rest k os word vs := by
  obtain ⟨os, tail, rfl, htakes, rfl | ⟨word, vs, rfl, hword, hlen⟩⟩ := h
  · left
    rw [List.append_nil]
    constructor
    · have hmissing := missing_flat_append os []
      rw [List.append_nil] at hmissing
      rw [hmissing, missing_of_stops stops_nil]
    · have hread := readOptions_flat_append htakes []
      rw [List.append_nil, readOptions_of_stops stops_nil, List.append_nil] at hread
      rw [List.append_assoc, readOptions_flat_append htakes, buildInjections_eq,
        readOptions_injections (fun _ h => h) hrest, hread]
  · right
    have hle := arity_manual_le word
    have htake : ∀ k ≤ 3, (w.buildInjections ++ rest).take k = w.buildInjections.take k ∧
        (w.buildInjections ++ rest).drop k = w.buildInjections.drop k ++ rest := by
      intro k hk
      have hlength := three_le_length w
      exact ⟨List.take_append_of_le_length (by omega), List.drop_append_of_le_length (by omega)⟩
    have hvs : takes (word, vs) = true := by
      by_cases hone : manual.arity word = 1
      · obtain rfl : vs = [] := List.eq_nil_of_length_eq_zero (by omega)
        simp [takes]
      · exact takes_of_ne_one hword hone vs
    refine ⟨manual.arity word - vs.length, os.map Opt.read, word, vs, ?_, ⟨by omega, by omega⟩, ?_,
      by omega, ?_⟩
    · rw [missing_flat_append]
      exact missing_short hword hlen
    · rw [readOptions_flat_append htakes]
      unfold readOptions
      rw [read_short hword hlen, List.takeWhile_cons_of_pos hvs, List.takeWhile_nil]
    · obtain ⟨htaken, hdropped⟩ := htake (manual.arity word - vs.length) (by omega)
      rw [List.append_assoc, List.append_assoc, readOptions_flat_append htakes,
        ← @readOptions_drop_buildInjections w rest (manual.arity word - vs.length) (by omega)
          (by omega) hrest]
      unfold readOptions
      rw [read_short_append hword hlen, htaken, hdropped, List.takeWhile_cons]

namespace Swallows

variable {k : ℕ} {os : List (Text × List Text)} {word : Text} {vs : List Text}

/-- An option that lacks values names no descriptor, and it names none with the words it takes
either. -/
theorem namedFd_eq (h : Swallows w before rest k os word vs) : namedFd (word, vs) = none ∧
    namedFd (word, vs ++ w.buildInjections.take k) = none := by
  unfold namedFd
  by_cases hword : word = ARGS
  · have hlacks := h.lacks
    have hone : manual.arity ARGS = 1 := by decide +kernel
    rw [hword, hone] at hlacks
    have hpos := h.bounds.1
    obtain rfl : vs = [] := List.eq_nil_of_length_eq_zero (by omega)
    obtain rfl : k = 1 := by simpa using hlacks
    rw [if_pos hword, if_pos hword]
    exact ⟨rfl, show parseRawFd "--proc".toList = none by decide⟩
  · rw [if_neg hword, if_neg hword]
    exact ⟨rfl, rfl⟩

/-- An option that takes two of the words is taken itself, and so are those behind. -/
theorem swallowed_two (h : Swallows w before rest 2 os word vs) :
    readOptions (before ++ w.buildInjections ++ rest) =
      os ++ (word, vs ++ w.buildInjections.take 2) :: w.injections.tail.map Opt.read := by
  have htakes : takes (word, vs ++ w.buildInjections.take 2) = true := by
    refine takes_of_plain ?_ _
    rw [← Bool.not_eq_true, List.contains_iff_mem]
    intro hmem
    have hone : ∀ word ∈ overlooked, manual.arity word = 1 := by decide +kernel
    have hlacks := h.lacks
    rw [hone word hmem] at hlacks
    omega
  rw [h.swallowed, htakes, if_pos rfl, if_pos rfl]

/-- One that takes another number of words leaves nothing that is read. -/
theorem swallowed_ne (h : Swallows w before rest k os word vs) (hk : k ≠ 2) :
    ∃ last, readOptions (before ++ w.buildInjections ++ rest) = os ++ last ∧
      ∀ o ∈ last, o = (word, vs ++ w.buildInjections.take k) := by
  refine ⟨_, h.swallowed, fun o ho => ?_⟩
  rw [if_neg hk] at ho
  split_ifs at ho
  · exact List.mem_singleton.1 ho
  · exact absurd ho List.not_mem_nil

end Swallows

section Placing

variable {e : Text × List Text → List (Text × List Text)}

theorem flatMap_injections (he : ∀ o, namedFd o = none → e o = [o]) {injs : List (Opt grammar)}
    (h : ∀ inj ∈ injs, inj ∈ w.injections) : (injs.map Opt.read).flatMap e = injs.map Opt.read := by
  induction injs with
  | nil => rfl
  | cons inj injs ih =>
    obtain ⟨hinj, hinjs⟩ := List.forall_mem_cons.1 h
    rw [List.map_cons, List.flatMap_cons, he _ (namedFd_injection hinj), ih hinjs,
      List.singleton_append]

theorem noSeccomp_injections {injs : List (Opt grammar)} (h : ∀ inj ∈ injs, inj ∈ w.injections) :
    NoSeccomp (injs.map Opt.read) := by
  have hwords : ∀ word ∈ ["--proc".toList, "--bind".toList, "--setenv".toList], word ≠ SECCOMP := by
    decide
  intro o ho
  obtain ⟨inj, hinj, rfl⟩ := List.mem_map.1 ho
  exact hwords _ (word_of_mem_injections (h inj hinj))

namespace Swallows

variable {k : ℕ} {os : List (Text × List Text)} {word : Text} {vs : List Text}

theorem flatMap_read (h : Swallows w before rest k os word vs)
    (he : ∀ o, namedFd o = none → e o = [o]) :
    (readOptions before).flatMap e = os.flatMap e ++ [(word, vs)] := by
  rw [h.read, List.flatMap_append, List.flatMap_cons, List.flatMap_nil, List.append_nil,
    he _ h.namedFd_eq.1]

theorem flatMap_two (h : Swallows w before rest 2 os word vs)
    (he : ∀ o, namedFd o = none → e o = [o]) :
    (readOptions (before ++ w.buildInjections ++ rest)).flatMap e =
      os.flatMap e ++
        (word, vs ++ w.buildInjections.take 2) :: w.injections.tail.map Opt.read := by
  rw [h.swallowed_two, List.flatMap_append, List.flatMap_cons, he _ h.namedFd_eq.2,
    flatMap_injections he fun _ h => List.mem_of_mem_tail h]
  rfl

theorem mem_flatMap_ne (h : Swallows w before rest k os word vs) (hk : k ≠ 2)
    (he : ∀ o, namedFd o = none → e o = [o]) {o : Text × List Text}
    (ho : o ∈ (readOptions (before ++ w.buildInjections ++ rest)).flatMap e) :
    o ∈ os.flatMap e ∨ o = (word, vs ++ w.buildInjections.take k) := by
  obtain ⟨last, hread, hlast⟩ := h.swallowed_ne hk
  rw [hread, List.flatMap_append, List.mem_append] at ho
  refine ho.imp_right fun ho => ?_
  obtain ⟨o', ho', hmem⟩ := List.mem_flatMap.1 ho
  rw [hlast o' ho', he _ h.namedFd_eq.2] at hmem
  exact List.mem_singleton.1 hmem

end Swallows

/-- **What is added brings no `--seccomp`.** -/
theorem noSeccomp_read (he : ∀ o, namedFd o = none → e o = [o]) (hrest : manual.Stops rest)
    (h : NoSeccomp ((readOptions before).flatMap e)) :
    NoSeccomp ((readOptions (before ++ w.buildInjections ++ rest)).flatMap e) := by
  rcases ends_or_stopped before with hends | hstopped
  · rcases read_before w hends hrest with ⟨-, hread⟩ | ⟨k, os, word, vs, hs⟩
    · rw [hread, List.flatMap_append, flatMap_injections he fun _ h => h]
      intro o ho
      rcases List.mem_append.1 ho with ho | ho
      · exact h o ho
      · exact noSeccomp_injections (fun _ h => h) o ho
    · rw [hs.flatMap_read he] at h
      have hword : word ≠ SECCOMP :=
        h (word, vs) (List.mem_append_right _ (List.mem_singleton_self _))
      intro o ho
      by_cases hk : k = 2
      · subst hk
        rw [hs.flatMap_two he, List.mem_append, List.mem_cons] at ho
        rcases ho with ho | rfl | ho
        · exact h o (List.mem_append_left _ ho)
        · exact hword
        · exact noSeccomp_injections (fun _ h => List.mem_of_mem_tail h) o ho
      · rcases hs.mem_flatMap_ne hk he ho with ho | rfl
        · exact h o (List.mem_append_left _ ho)
        · exact hword
  · rw [List.append_assoc, hstopped]
    exact h

/-- And it takes none away, where it is read. -/
theorem noSeccomp_of_read (he : ∀ o, namedFd o = none → e o = [o]) (hrest : manual.Stops rest)
    {others : List (Text × List Text)} (hplaced : Placed before others)
    (h : NoSeccomp ((readOptions (before ++ w.buildInjections ++ rest)).flatMap e)) :
    NoSeccomp ((readOptions before).flatMap e) := by
  rcases read_before w hplaced.1 hrest with ⟨-, hread⟩ | ⟨k, os, word, vs, hs⟩
  · rw [hread, List.flatMap_append] at h
    exact fun o ho => h o (List.mem_append_left _ ho)
  · have hpos := hs.bounds.1
    have htwo := hplaced.2
    rw [hs.missing] at htwo
    obtain ⟨rfl, -⟩ := htwo.resolve_left (by omega)
    rw [hs.flatMap_two he] at h
    rw [hs.flatMap_read he]
    intro o ho
    rcases List.mem_append.1 ho with ho | ho
    · exact h o (List.mem_append_left _ ho)
    · rw [List.mem_singleton.1 ho]
      exact h (word, vs ++ _) (List.mem_append_right _ List.mem_cons_self)

/-- No AppDir, and a `PATH` of so many characters. -/
def longPath (d : Descriptors) (n : ℕ) : World where
  toDescriptors := d
  appdir := []
  sharunDir := []
  path := List.replicate (n + 1) 'a'
  noNul := ⟨List.not_mem_nil, List.not_mem_nil,
    fun h => absurd (List.eq_of_mem_replicate h) (by decide)⟩
  absolute := by rintro c ⟨⟩
  access _ := false

/-- A `PATH` that no option speaks of. -/
theorem exists_fresh (d : Descriptors) (os : List (Text × List Text)) :
    ∃ w : World, w.toDescriptors = d ∧ w.appdir = [] ∧ w.sharunDir = [] ∧
      w.path.head? = some 'a' ∧ ∀ o ∈ os, w.path ∉ o.2 := by
  obtain ⟨n, hn⟩ : ∃ n, ∀ o ∈ os, ∀ v ∈ o.2, v.length ≤ n := by
    refine ⟨((os.flatMap Prod.snd).map List.length).sum, fun o ho v hv => ?_⟩
    exact List.single_le_sum (fun _ _ => Nat.zero_le _) _
      (List.mem_map.2 ⟨v, List.mem_flatMap.2 ⟨o, ho, hv⟩, rfl⟩)
  refine ⟨longPath d n, rfl, rfl, rfl, rfl, fun o ho hmem => ?_⟩
  have hlen := hn o ho _ hmem
  unfold longPath at hlen
  rw [List.length_replicate] at hlen
  omega

/-- What is added with such an AppDir and `PATH`. -/
theorem injections_fresh (happdir : w.appdir = []) (hsharun : w.sharunDir = [])
    (hpath : w.path.head? = some 'a') : w.injections.map Opt.read =
      [PROC, ("--bind".toList, ["/tmp".toList, "/tmp".toList]),
        ("--setenv".toList, ["PATH".toList, w.path])] := by
  have hne : w.path ≠ [] := by
    intro h
    rw [h] at hpath
    cases hpath
  unfold World.injections
  rw [if_pos happdir, if_pos happdir, if_pos hsharun, if_neg hne]
  rfl

theorem length_take_buildInjections {k : ℕ} (hk : k ≤ 3) :
    (w.buildInjections.take k).length = k := by
  have hlen := three_le_length w
  rw [List.length_take]
  omega

theorem proc_notMem_tail : PROC ∉ w.injections.tail.map Opt.read := by
  intro hmem
  obtain ⟨inj, hinj, heq⟩ := List.mem_map.1 hmem
  have hword := word_of_mem_tail hinj
  rw [show inj.word = "--proc".toList from congrArg Prod.fst heq] at hword
  exact absurd hword (by decide)

namespace Swallows

variable {k : ℕ} {os : List (Text × List Text)} {word : Text} {vs : List Text}

theorem length_taken (h : Swallows w before rest k os word vs) :
    (vs ++ w.buildInjections.take k).length = vs.length + k := by
  rw [List.length_append, length_take_buildInjections h.bounds.2]

/-- An option that lacks two values is no `--proc`, and neither is what it makes of them. -/
theorem proc_ne (h : Swallows w before rest 2 os word vs) :
    PROC ≠ (word, vs) ∧ PROC ≠ (word, vs ++ w.buildInjections.take 2) := by
  constructor
  · intro heq
    obtain ⟨hword, hvs⟩ := Prod.ext_iff.1 heq
    have hlacks := h.lacks
    have hone : manual.arity "--proc".toList = 1 := by decide +kernel
    dsimp only at hword hvs
    rw [← hword, ← hvs, hone] at hlacks
    cases hlacks
  · intro heq
    have hlen := h.length_taken
    have hsnd := (Prod.ext_iff.1 heq).2
    dsimp only at hsnd
    rw [← hsnd, List.length_singleton] at hlen
    omega

/-- **An option that takes `--proc` and its value, and no more**, costs that one. -/
theorem hasInjections (h : Swallows w before rest 2 os word vs) (others : List (Text × List Text))
    (he : ∀ o, namedFd o = none → e o = [o]) :
    HasInjections w (others ++ (readOptions (before ++ w.buildInjections ++ rest)).flatMap e) ↔
      PROC ∈ others ++ (readOptions before).flatMap e := by
  obtain ⟨hne, hne'⟩ := h.proc_ne
  rw [h.flatMap_two he, h.flatMap_read he]
  constructor
  · intro hall
    have hproc := hall _ (by rw [injections_eq]; exact List.mem_cons_self)
    change PROC ∈ _ at hproc
    simp only [List.mem_append, List.mem_cons, List.not_mem_nil, or_false] at hproc ⊢
    rcases hproc with hproc | hproc | hproc | hproc
    · exact Or.inl hproc
    · exact Or.inr (Or.inl hproc)
    · exact absurd hproc hne'
    · exact absurd hproc proc_notMem_tail
  · intro hproc inj hinj
    simp only [List.mem_append, List.mem_cons, List.not_mem_nil, or_false] at hproc ⊢
    rw [injections_eq] at hinj
    rcases List.mem_cons.1 hinj with rfl | hinj
    · rcases hproc with hproc | hproc | hproc
      · exact Or.inl hproc
      · exact Or.inr (Or.inl hproc)
      · exact absurd hproc hne
    · exact Or.inr (Or.inr (Or.inr (List.mem_map_of_mem hinj)))

/-- One that takes another number of words leaves nothing that is read, and a `PATH` no option
speaks of is not set. -/
theorem not_hasInjections (h : Swallows w before rest k os word vs) (hk : k ≠ 2)
    {others : List (Text × List Text)} (he : ∀ o, namedFd o = none → e o = [o])
    (happdir : w.appdir = []) (hsharun : w.sharunDir = []) (hpath : w.path.head? = some 'a')
    (hfresh : ∀ o ∈ others ++ (readOptions before).flatMap e, w.path ∉ o.2) :
    ¬ HasInjections w
      (others ++ (readOptions (before ++ w.buildInjections ++ rest)).flatMap e) := by
  intro hall
  have hmem : ("--setenv".toList, ["PATH".toList, w.path]) ∈ w.injections.map Opt.read := by
    rw [injections_fresh happdir hsharun hpath]
    simp
  obtain ⟨inj, hinj, heq⟩ := List.mem_map.1 hmem
  have hsetenv := hall inj hinj
  rw [heq] at hsetenv
  have hne : ("--setenv".toList, ["PATH".toList, w.path]) ≠
      (word, vs ++ w.buildInjections.take k) := by
    intro heq
    have hlen := h.length_taken
    have hpos := h.bounds.1
    have hsnd := (Prod.ext_iff.1 heq).2
    dsimp only at hsnd
    rw [← hsnd] at hlen
    simp only [List.length_cons, List.length_nil] at hlen
    obtain rfl : k = 1 := by omega
    have hlast : (["PATH".toList, w.path] : List Text).getLast? = some "--proc".toList := by
      rw [hsnd]
      exact List.getLast?_concat
    rw [show w.path = "--proc".toList from Option.some.inj hlast] at hpath
    exact absurd hpath (by decide)
  rw [h.flatMap_read he] at hfresh
  rcases List.mem_append.1 hsetenv with hsetenv | hsetenv
  · exact hfresh _ (List.mem_append_left _ hsetenv) (by simp)
  · rcases h.mem_flatMap_ne hk he hsetenv with hsetenv | hsetenv
    · exact hfresh _ (List.mem_append_right _ (List.mem_append_left _ hsetenv)) (by simp)
    · exact hne hsetenv

end Swallows

/-- **When all that is added is read, whatever it is.** -/
theorem hasInjections_iff (others : List (Text × List Text))
    (he : ∀ o, namedFd o = none → e o = [o]) (d : Descriptors) (hrest : manual.Stops rest) :
    (∀ w : World, w.toDescriptors = d → HasInjections w
      (others ++ (readOptions (before ++ w.buildInjections ++ rest)).flatMap e)) ↔
    Placed before (others ++ (readOptions before).flatMap e) := by
  constructor
  · intro hall
    obtain ⟨w, hd, happdir, hsharun, hpath, hfresh⟩ :=
      exists_fresh d (others ++ (readOptions before).flatMap e)
    have hinj := hall w hd
    rcases ends_or_stopped before with hends | hstopped
    · refine ⟨hends, ?_⟩
      rcases read_before w hends hrest with ⟨hmissing, -⟩ | ⟨k, os, word, vs, h⟩
      · exact Or.inl hmissing
      by_cases hk : k = 2
      · subst hk
        exact Or.inr ⟨h.missing, (h.hasInjections others he).1 hinj⟩
      · exact absurd hinj (h.not_hasInjections hk he happdir hsharun hpath hfresh)
    · -- Nothing that is added is read, and the `PATH` is spoken of nowhere.
      rw [List.append_assoc, hstopped] at hinj
      have hmem : ("--setenv".toList, ["PATH".toList, w.path]) ∈ w.injections.map Opt.read := by
        rw [injections_fresh happdir hsharun hpath]
        simp
      obtain ⟨inj, hmem', heq⟩ := List.mem_map.1 hmem
      exact absurd (by rw [heq]; simp) (hfresh _ (hinj inj hmem'))
  · rintro ⟨hends, hplaced⟩ w _
    rcases read_before w hends hrest with ⟨-, hread⟩ | ⟨k, os, word, vs, h⟩
    · intro inj hinj
      rw [hread, List.flatMap_append, flatMap_injections he fun _ h => h]
      exact List.mem_append_right _ (List.mem_append_right _ (List.mem_map_of_mem hinj))
    · have hpos := h.bounds.1
      rw [h.missing] at hplaced
      obtain ⟨rfl, hproc⟩ := hplaced.resolve_left (by omega)
      exact (h.hasInjections others he).2 hproc

end Placing

theorem guaranteed_remapCommand (w : World) (pipes : ℤ → Text) (args : List Text) :
    Guaranteed w (bwrapOptions pipes (w.remapCommand args)) ↔
      Guaranteed w (bwrapOptions pipes args) := by
  have hwords : ∀ word ∈ ["--proc".toList, "--bind".toList, "--setenv".toList],
      word ∉ overlooked := by
    decide
  have hseccomp : ∀ o : Text × List Text, o.1 = SECCOMP → o.1 ∉ overlooked := fun o ho => by
    rw [ho]
    decide
  have hmem := fun (o : Text × List Text) ho =>
    mem_bwrapOptions_remapCommand w pipes args (o := o) ho
  constructor
  · rintro ⟨hno, hinj⟩
    refine ⟨fun o ho heq => hno o ((hmem o (hseccomp o heq)).2 ho) heq, fun inj h => ?_⟩
    exact (hmem _ (hwords _ (word_of_mem_injections h))).1 (hinj inj h)
  · rintro ⟨hno, hinj⟩
    refine ⟨fun o ho heq => hno o ((hmem o (hseccomp o heq)).1 ho) heq, fun inj h => ?_⟩
    exact (hmem _ (hwords _ (word_of_mem_injections h))).2 (hinj inj h)

/-! ### The two paths -/

/-- **The direct path.** -/
theorem direct_iff (d : Descriptors) (args : List Text) :
    (∀ w : World, w.toDescriptors = d →
      Guaranteed w (bwrapOptions d.pipes (w.processArgsDirect args))) ↔
    DirectKept d.pipes args := by
  generalize hk : findCmdIdx (stripSeccomp args) = k
  have hfront : grammar.Front ((stripSeccomp args).take k) ((stripSeccomp args).drop k) :=
    hk ▸ front_findCmdIdx (stripSeccomp args)
  have hsplit : DirectKept d.pipes args ↔
      NoSeccomp (bwrapOptions d.pipes ((stripSeccomp args).take k)) ∧
        Placed ((stripSeccomp args).take k)
          (bwrapOptions d.pipes ((stripSeccomp args).take k)) := by
    constructor
    · rintro ⟨before, rest, hwithout, hfront', hkept⟩
      obtain ⟨rfl, -⟩ := front_iff.1 ⟨without_iff.1 hwithout, hfront'⟩
      rw [hk] at hkept
      exact hkept
    · intro hkept
      exact ⟨_, _, without_iff.2 (List.take_append_drop ..).symm, hfront, hkept⟩
  have hoptions : ∀ w : World, Guaranteed w (bwrapOptions d.pipes (w.processArgsDirect args)) ↔
      Guaranteed w ((readOptions ((stripSeccomp args).take k ++ w.buildInjections ++
        (stripSeccomp args).drop k)).flatMap (expand d.pipes)) := by
    intro w
    unfold World.processArgsDirect
    dsimp only
    rw [guaranteed_remapCommand, hk]
    rfl
  have hrest := stops_of_front hfront
  have he : ∀ o, namedFd o = none → expand d.pipes o = [o] := fun _ => expand_of_namedFd d.pipes
  have hinjected := @hasInjections_iff ((stripSeccomp args).take k) _ _ [] he d hrest
  simp only [List.nil_append] at hinjected
  simp only [hoptions]
  rw [hsplit]
  constructor
  · intro h
    have hplaced := hinjected.1 fun w hd => (h w hd).injected
    obtain ⟨w, hd, -⟩ := exists_fresh d []
    exact ⟨noSeccomp_of_read he hrest hplaced (h w hd).noSeccomp, hplaced⟩
  · rintro ⟨hno, hplaced⟩ w hd
    exact ⟨noSeccomp_read he hrest hno, hinjected.2 hplaced w hd⟩

theorem mem_of_mem_stripSeccomp {word : Text} (h : word ∈ stripSeccomp args) : word ∈ args := by
  induction args using stripSeccomp.induct with
  | case1 => exact h
  | case2 => simp [stripSeccomp] at h
  | case3 arg harg => simpa [stripSeccomp, harg] using h
  | case4 value args ih =>
    rw [stripSeccomp, if_pos rfl] at h
    exact List.mem_cons_of_mem _ (List.mem_cons_of_mem _ (ih h))
  | case5 arg value args harg ih =>
    rw [stripSeccomp, if_neg harg] at h
    rcases List.mem_cons.1 h with rfl | h
    · exact List.mem_cons_self
    · exact List.mem_cons_of_mem _ (ih h)

/-- No word that is written into the new pipe has a NUL in it. -/
theorem noNul_pipeOpts (w : World) (fd : ℤ) : ∀ word ∈ w.pipeOpts fd, NUL ∉ word := by
  intro word hword
  rcases List.mem_append.1 hword with hword | hword
  · have hmem := List.mem_of_mem_take (mem_of_mem_stripSeccomp hword)
    exact notMem_of_mem_splitOn (List.mem_filter.1 hmem).1
  · obtain ⟨happdir, hsharun, hpath⟩ := w.noNul
    unfold World.buildInjections at hword
    simp only [List.mem_append, List.mem_ite_nil_left, List.mem_cons, List.not_mem_nil,
      or_false] at hword
    rcases hword with (((((rfl | rfl) | ⟨-, rfl | rfl | rfl⟩) | rfl | rfl | rfl) |
      ⟨-, rfl | rfl | rfl⟩) | ⟨-, rfl | rfl | rfl⟩) | ⟨-, rfl | rfl | rfl⟩ <;>
      first | assumption | decide

/-- What the options of the new arguments stand for. -/
theorem expand_pipesAfter (w : World) {i : ℕ} {fd : ℤ} (h : findArgs args = some (i, fd))
    (newFd : Fin 0x80000000) (o : Text × List Text) :
    expand (w.pipesAfter args (some newFd)) o =
      if namedFd o = some (newFd : ℤ) then readOptions (w.pipeOpts fd)
      else expand (Function.update w.pipes fd []) o := by
  unfold World.pipesAfter expand
  rw [h]
  dsimp only
  cases hnamed : namedFd o with
  | none => rw [if_neg (by simp)]
  | some named =>
    by_cases heq : named = newFd
    · subst heq
      dsimp only
      rw [if_pos rfl, Function.update_self, heldWords_serialize (noNul_pipeOpts w fd)]
    · dsimp only
      rw [if_neg (by simpa using heq), Function.update_of_ne heq]

/-- The options come from the new pipe, if one names it, and from elsewhere. -/
theorem mem_bwrapOptions (w : World) {i : ℕ} {fd : ℤ} (h : findArgs args = some (i, fd))
    (newFd : Fin 0x80000000) (args' : List Text) (o : Text × List Text) :
    o ∈ bwrapOptions (w.pipesAfter args (some newFd)) args' ↔
      o ∈ otherOptions (Function.update w.pipes fd []) newFd args' ∨
      (∃ o' ∈ readOptions args', namedFd o' = some (newFd : ℤ)) ∧
        o ∈ readOptions (w.pipeOpts fd) := by
  unfold bwrapOptions otherOptions
  simp only [List.mem_flatMap, List.mem_filter, decide_eq_true_iff, expand_pipesAfter w h]
  constructor
  · rintro ⟨o', ho', ho⟩
    split_ifs at ho with hnamed
    · exact Or.inr ⟨⟨o', ho', hnamed⟩, ho⟩
    · exact Or.inl ⟨o', ⟨ho', hnamed⟩, ho⟩
  · rintro (⟨o', ⟨ho', hnamed⟩, ho⟩ | ⟨⟨o', ho', hnamed⟩, ho⟩)
    · exact ⟨o', ho', by rwa [if_neg hnamed]⟩
    · exact ⟨o', ho', by rwa [if_pos hnamed]⟩

/-- The new pipe holds no `--seccomp`. -/
theorem noSeccomp_pipeOpts (w : World) (fd : ℤ) : NoSeccomp (readOptions (w.pipeOpts fd)) := by
  have hkept : SECCOMP ∉ w.keptOpts fd := notMem_stripSeccomp _
  have hread : NoSeccomp (readOptions (w.keptOpts fd)) := by
    intro o ho heq
    exact hkept (heq ▸ fst_mem_of_mem_read ((List.takeWhile_prefix takes).mem ho))
  have h := @noSeccomp_read w (w.keptOpts fd) [] (fun o => [o]) (fun _ _ => rfl) stops_nil
    (by rw [List.flatMap_singleton']; exact hread)
  rw [List.append_nil, List.flatMap_singleton'] at h
  exact h

/-- **The pipe path**, by the arguments it makes. -/
theorem pipe_iff (d : Descriptors) {i : ℕ} {fd : ℤ} (h : findArgs args = some (i, fd))
    (newFd : Fin 0x80000000) :
    (∀ w : World, w.toDescriptors = d → Guaranteed w (bwrapOptions (w.pipesAfter args (some newFd))
      (w.remapCommand (d.newArgs args i fd newFd)))) ↔
    (∃ o ∈ readOptions (d.newArgs args i fd newFd), namedFd o = some (newFd : ℤ)) ∧
      NoSeccomp (otherOptions (Function.update d.pipes fd []) newFd (d.newArgs args i fd newFd)) ∧
      Placed (d.keptOpts fd) (otherOptions (Function.update d.pipes fd []) newFd
        (d.newArgs args i fd newFd) ++ readOptions (d.keptOpts fd)) := by
  set others := otherOptions (Function.update d.pipes fd []) newFd (d.newArgs args i fd newFd)
    with hothers
  have hmem : ∀ w : World, w.toDescriptors = d → ∀ o, o ∈ bwrapOptions
        (w.pipesAfter args (some newFd)) (d.newArgs args i fd newFd) ↔
      o ∈ others ∨
        (∃ o' ∈ readOptions (d.newArgs args i fd newFd), namedFd o' = some (newFd : ℤ)) ∧
          o ∈ readOptions (d.keptOpts fd ++ w.buildInjections) := by
    rintro w rfl o
    rw [mem_bwrapOptions w h]
    rfl
  have hiff := @hasInjections_iff (d.keptOpts fd) [] (fun o => [o]) others (fun _ _ => rfl) d
    stops_nil
  simp only [List.flatMap_singleton', List.append_nil] at hiff
  simp only [guaranteed_remapCommand]
  constructor
  · intro hall
    have hinj : ∀ w : World, w.toDescriptors = d → ∀ inj ∈ w.injections, inj.read ∈ others ∨
        (∃ o' ∈ readOptions (d.newArgs args i fd newFd), namedFd o' = some (newFd : ℤ)) ∧
          inj.read ∈ readOptions (d.keptOpts fd ++ w.buildInjections) :=
      fun w hd inj hmem' => (hmem w hd inj.read).1 ((hall w hd).injected inj hmem')
    -- a `PATH` that is not set elsewhere must come from the new pipe
    obtain ⟨w, hd, happdir, hsharun, hpath, hfresh⟩ := exists_fresh d others
    have hsetenv : ("--setenv".toList, ["PATH".toList, w.path]) ∈ w.injections.map Opt.read := by
      rw [injections_fresh happdir hsharun hpath]
      simp
    obtain ⟨inj, hinjmem, hread⟩ := List.mem_map.1 hsetenv
    have hnot : inj.read ∉ others := by
      rw [hread]
      exact fun hmem' => hfresh _ hmem' (by simp)
    obtain ⟨hnamed, -⟩ := (hinj w hd inj hinjmem).resolve_left hnot
    refine ⟨hnamed, fun o ho => (hall w hd).noSeccomp o ((hmem w hd o).2 (Or.inl ho)), ?_⟩
    refine hiff.1 fun w hd inj hinjmem => ?_
    rcases hinj w hd inj hinjmem with hmem' | ⟨-, hmem'⟩
    · exact List.mem_append_left _ hmem'
    · exact List.mem_append_right _ hmem'
  · rintro ⟨hnamed, hno, hplaced⟩ w hd
    constructor
    · intro o ho
      rcases (hmem w hd o).1 ho with ho | ⟨-, ho⟩
      · exact hno o ho
      · subst hd
        exact noSeccomp_pipeOpts w fd o ho
    · intro inj hinj
      have hmem' := hiff.2 hplaced w hd inj hinj
      rw [List.mem_append] at hmem'
      exact (hmem w hd inj.read).2 (hmem'.imp_right fun h => ⟨hnamed, h⟩)

section Replacing

variable {pre post : List Text} {n : Text} {fd : ℤ} {newFd : Fin 0x80000000} {pipes : ℤ → Text}

/-- An option names the new pipe if the `--args` that is rewritten is one, or another does. -/
theorem named_iff (hn : parseRawFd n = some fd) :
    (∃ o ∈ readOptions (pre ++ ARGS :: showFd newFd :: post), namedFd o = some (newFd : ℤ)) ↔
      (∃ os : List (Opt manual), pre = flat os ∧ ∀ o ∈ os, takes o.read = true) ∨
        ∃ o ∈ readOptions (pre ++ ARGS :: n :: post), namedFd o = some (newFd : ℤ) := by
  by_cases hpre : ∃ os : List (Opt manual), pre = flat os ∧ ∀ o ∈ os, takes o.read = true
  · refine iff_of_true ?_ (Or.inl hpre)
    obtain ⟨os, rfl, htakes⟩ := hpre
    refine ⟨(ARGS, [showFd newFd]), ?_, (namedFd_args _).trans (parseRawFd_showFd newFd)⟩
    rw [readOptions_args htakes]
    exact List.mem_append_right _ List.mem_cons_self
  · rw [or_iff_right hpre]
    refine exists_congr fun o => and_congr_left fun hnamed => ?_
    have hargs := (notMem_overlooked_of_namedFd (o := o) (by simp [hnamed])).1
    exact mem_readOptions_number hpre (not_option_of_number (parseRawFd_showFd newFd))
      (not_option_of_number hn) post (by rw [hargs, ← arity_args])

/-- The other options stay the same, but for values. -/
theorem mem_otherOptions_number (hn : parseRawFd n = some fd) {o : Text × List Text}
    (ho : manual.arity o.1 ≤ 1) :
    o ∈ otherOptions (Function.update pipes fd []) newFd (pre ++ ARGS :: showFd newFd :: post) ↔
      o ∈ otherOptions (Function.update pipes fd []) newFd (pre ++ ARGS :: n :: post) := by
  unfold otherOptions
  by_cases hpre : ∃ os : List (Opt manual), pre = flat os ∧ ∀ o ∈ os, takes o.read = true
  · obtain ⟨os, rfl, htakes⟩ := hpre
    have hnew : namedFd (ARGS, [showFd newFd]) = some (newFd : ℤ) :=
      (namedFd_args _).trans (parseRawFd_showFd newFd)
    have hold : namedFd (ARGS, [n]) = some fd := (namedFd_args n).trans hn
    -- The pipe that was named has been read to its end.
    have hempty : expand (Function.update pipes fd []) (ARGS, [n]) = [] := by
      unfold expand
      rw [hold]
      dsimp only
      rw [Function.update_self]
      exact readOptions_held_nil
    rw [readOptions_args htakes, readOptions_args htakes, List.filter_append, List.filter_append,
      List.filter_cons_of_neg (by simp [hnew]), List.filter_cons]
    split_ifs
    · rw [List.flatMap_append, List.flatMap_append, List.flatMap_cons, hempty, List.nil_append]
    · rfl
  · have hread : ∀ o', o ∈ expand (Function.update pipes fd []) o' →
        (o' ∈ readOptions (pre ++ ARGS :: showFd newFd :: post) ↔
          o' ∈ readOptions (pre ++ ARGS :: n :: post)) := by
      intro o' hmem
      refine mem_readOptions_number hpre (not_option_of_number (parseRawFd_showFd newFd))
        (not_option_of_number hn) post ?_
      by_cases hnamed : namedFd o' = none
      · rw [expand_of_namedFd _ hnamed, List.mem_singleton] at hmem
        exact hmem ▸ ho
      · rw [(notMem_overlooked_of_namedFd hnamed).1, ← arity_args]
    simp only [List.mem_flatMap, List.mem_filter]
    constructor
    · rintro ⟨o', ⟨ho', hother⟩, hmem⟩
      exact ⟨o', ⟨(hread o' hmem).1 ho', hother⟩, hmem⟩
    · rintro ⟨o', ⟨ho', hother⟩, hmem⟩
      exact ⟨o', ⟨(hread o' hmem).2 ho', hother⟩, hmem⟩

end Replacing

/-- **The pipe path.** -/
theorem pipeKept_iff (d : Descriptors) {i : ℕ} {fd : ℤ} (h : findArgs args = some (i, fd))
    (hfd : fdAt args i = some fd) (newFd : Fin 0x80000000) :
    (∀ w : World, w.toDescriptors = d → Guaranteed w (bwrapOptions (w.pipesAfter args (some newFd))
      (w.remapCommand (d.newArgs args i fd newFd)))) ↔ PipeKept d.pipes args i fd newFd := by
  rw [pipe_iff d h]
  obtain ⟨n, hn, hargs⟩ := split_of_fdAt hfd
  generalize hk : findCmdIdx (d.fdArgs fd) = k
  have hsplit : PipeKept d.pipes args i fd newFd ↔
      ((∃ os : List (Opt manual), args.take i = flat os ∧ ∀ o ∈ os, takes o.read = true) ∨
        ∃ o ∈ readOptions (args ++ (d.fdArgs fd).drop k), namedFd o = some (newFd : ℤ)) ∧
      NoSeccomp (otherOptions (Function.update d.pipes fd []) newFd
        (args ++ (d.fdArgs fd).drop k)) ∧
      Placed (d.keptOpts fd) (otherOptions (Function.update d.pipes fd []) newFd
        (args ++ (d.fdArgs fd).drop k) ++ readOptions (d.keptOpts fd)) := by
    constructor
    · rintro ⟨opts, rest, kept, hwords, hfront, hwithout, hkept⟩
      rw [wordsIn_eq] at hwords
      obtain ⟨rfl, rfl⟩ := front_iff.1 ⟨hwords, hfront⟩
      rw [show kept = d.keptOpts fd from (without_iff.1 hwithout).symm, hk] at hkept
      exact hkept
    · intro hkept
      refine ⟨_, _, d.keptOpts fd, ?_, hk ▸ front_findCmdIdx (d.fdArgs fd), ?_, hkept⟩
      · rw [wordsIn_eq, List.take_append_drop]
      · rw [without_iff, Descriptors.keptOpts, hk]
  have hnew : d.newArgs args i fd newFd =
      args.take i ++ ARGS :: showFd newFd :: (args.drop (i + 2) ++ (d.fdArgs fd).drop k) := by
    rw [Descriptors.newArgs, hk]
    simp
  have hold : args ++ (d.fdArgs fd).drop k =
      args.take i ++ ARGS :: n :: (args.drop (i + 2) ++ (d.fdArgs fd).drop k) := by
    conv_lhs => rw [hargs]
    simp
  have hone : ∀ {o : Text × List Text}, manual.arity o.1 ≤ 1 →
      (o ∈ otherOptions (Function.update d.pipes fd []) newFd (d.newArgs args i fd newFd) ↔
        o ∈ otherOptions (Function.update d.pipes fd []) newFd (args ++ (d.fdArgs fd).drop k)) := by
    intro o ho
    rw [hnew, hold]
    exact mem_otherOptions_number hn ho
  have hseccomp : ∀ o : Text × List Text, o.1 = SECCOMP → manual.arity o.1 ≤ 1 := by
    have harity : manual.arity SECCOMP ≤ 1 := by decide +kernel
    exact fun o ho => ho ▸ harity
  have hproc : manual.arity PROC.1 ≤ 1 := by decide +kernel
  have hno : NoSeccomp (otherOptions (Function.update d.pipes fd []) newFd
      (d.newArgs args i fd newFd)) ↔ NoSeccomp (otherOptions (Function.update d.pipes fd []) newFd
        (args ++ (d.fdArgs fd).drop k)) :=
    ⟨fun hall o ho heq => hall o ((hone (hseccomp o heq)).2 ho) heq,
      fun hall o ho heq => hall o ((hone (hseccomp o heq)).1 ho) heq⟩
  rw [hsplit, hno]
  unfold Placed
  rw [List.mem_append, List.mem_append, hone hproc, hnew, named_iff hn, ← hold]

/-- **When the wrapper keeps its promise**, whatever the AppDir, the `PATH` and the programs
that are found. -/
theorem guaranteed_iff (d : Descriptors) (args : List Text) :
    (∀ w : World, w.toDescriptors = d → ∀ res ∈ w.processBwrapArgs args,
      Guaranteed w (bwrapOptions (w.pipesAfter args res.2) res.1)) ↔ Kept d args := by
  have hrange : (List.range args.length).Pairwise (· < ·) := List.pairwise_lt_range
  have hfar : ∀ i, args.length ≤ i → fdAt args i = none := by
    intro i hi
    unfold fdAt
    rw [List.getElem?_eq_none hi]
    rfl
  unfold Kept
  cases hfind : findArgs args with
  | none =>
    have hnone : ∀ i, fdAt args i = none := by
      intro i
      rcases Nat.lt_or_ge i args.length with hlt | hge
      · exact firstAt_eq_none.1 hfind i (List.mem_range.2 hlt)
      · exact hfar i hge
    rw [and_iff_left fun i fd hfd => absurd ((hnone i).symm.trans hfd) (by simp),
      forall_prop_of_true hnone, ← direct_iff]
    refine forall₂_congr fun w hd => ?_
    have hpipes : w.pipesAfter args none = d.pipes := by
      unfold World.pipesAfter
      rw [hfind, hd]
    unfold World.processBwrapArgs
    rw [hfind]
    constructor
    · intro h
      rw [← hpipes]
      exact h (w.processArgsDirect args, none) rfl
    · rintro h res ⟨⟩
      rw [hpipes]
      exact h
  | some found =>
    obtain ⟨i, fd⟩ := found
    obtain ⟨-, hfd, hfirst⟩ := (firstAt_eq_some hrange).1 hfind
    have hbefore : ∀ j < i, fdAt args j = none := by
      intro j hj
      rcases Nat.lt_or_ge j args.length with hlt | hge
      · exact hfirst j (List.mem_range.2 hlt) hj
      · exact hfar j hge
    have hsome : ¬ ∀ i, fdAt args i = none := fun hnone =>
      absurd ((hnone i).symm.trans hfd) (by simp)
    rw [and_iff_right fun hnone => absurd hnone hsome]
    unfold World.processBwrapArgs World.processArgsPipe
    rw [hfind]
    dsimp only
    constructor
    · intro h j fd' hfd' hbefore' hne newFd hnew
      obtain rfl : j = i := by
        rcases Nat.lt_trichotomy j i with hlt | heq | hlt
        · exact absurd ((hbefore j hlt).symm.trans hfd') (by simp)
        · exact heq
        · exact absurd ((hbefore' i hlt).symm.trans hfd) (by simp)
      obtain rfl : fd = fd' := Option.some.inj (hfd.symm.trans hfd')
      rw [← pipeKept_iff d hfind hfd]
      rintro w rfl
      refine h w rfl (w.remapCommand (w.newArgs args j fd newFd), some newFd) ?_
      rw [if_neg hne]
      exact Option.mem_map.2 ⟨newFd, hnew, rfl⟩
    · rintro h w rfl res hres
      split_ifs at hres with hne
      · cases hres
      · obtain ⟨newFd, hnew, rfl⟩ := Option.mem_map.1 hres
        exact (pipeKept_iff w.toDescriptors hfind hfd newFd).2 (h i fd hfd hbefore hne newFd hnew)
          w rfl

/-- **An option `--seccomp` that is left**: it stands beside `--args`. -/
theorem seccomp_beside_args :
    let w := longPath ⟨fun _ => [], some 7⟩ 0
    let args := [SECCOMP, "3".toList, ARGS, "5".toList, "run".toList]
    let result := [SECCOMP, "3".toList, ARGS, "7".toList, "run".toList]
    w.processBwrapArgs args = some (result, some 7) ∧
      (SECCOMP, ["3".toList]) ∈ bwrapOptions (w.pipesAfter args (some 7)) result ∧
      ¬ Guaranteed w (bwrapOptions (w.pipesAfter args (some 7)) result) := by
  intro w args result
  have hmem : (SECCOMP, ["3".toList]) ∈ bwrapOptions (w.pipesAfter args (some 7)) result := by
    decide
  exact ⟨by decide, hmem, fun h => h.noSeccomp _ hmem rfl⟩

end Bwrap
end Launch
end Sharun
