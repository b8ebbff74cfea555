/-
# The arities of `bwrap`'s options

`find_cmd_idx` has to stay in step with `bwrap`'s own reading of its arguments, which is no
part of this repository; the options and the number of their values are those of bwrap(1)
(`manual`).  `opt_arg_count` has the same number for every one of them except for three
(`overlooked`), which take a value and are taken for options without one.  The scan then
stops at that value, unless it looks like an option itself.
-/

import Sharun.Launch.OptionPositions

namespace Sharun
namespace Launch
namespace Bwrap

open Sharun.Basis

/-! ### The options of bwrap(1) -/

def manualNone : List Text :=
  ["--help", "--version", "--level-prefix", "--unshare-all", "--share-net", "--unshare-user",
    "--unshare-user-try", "--unshare-ipc", "--unshare-pid", "--unshare-net", "--unshare-uts",
    "--unshare-cgroup", "--unshare-cgroup-try", "--disable-userns", "--assert-userns-disabled",
    "--clearenv", "--new-session", "--die-with-parent", "--as-pid-1"].map String.toList

def manualOne : List Text :=
  ["--args", "--argv0", "--userns", "--userns2", "--pidns", "--uid", "--gid", "--hostname",
    "--chdir", "--unsetenv", "--lock-file", "--sync-fd", "--remount-ro", "--overlay-src",
    "--tmp-overlay", "--ro-overlay", "--exec-label", "--file-label", "--proc", "--dev",
    "--tmpfs", "--mqueue", "--dir", "--seccomp", "--add-seccomp-fd", "--block-fd",
    "--userns-block-fd", "--info-fd", "--json-status-fd", "--cap-add", "--cap-drop", "--perms",
    "--size"].map String.toList

def manualTwo : List Text :=
  ["--setenv", "--bind", "--bind-try", "--dev-bind", "--dev-bind-try", "--ro-bind",
    "--ro-bind-try", "--bind-fd", "--ro-bind-fd", "--file", "--bind-data", "--ro-bind-data",
    "--symlink", "--chmod"].map String.toList

def manualThree : List Text := ["--overlay"].map String.toList

/-- The options of `bwrap`, by its manual. -/
def manual : Grammar Text where
  isOption arg := (manualNone ++ manualOne ++ manualTwo ++ manualThree).contains arg
  arity arg :=
    if manualThree.contains arg then 3
    else if manualTwo.contains arg then 2
    else if manualOne.contains arg then 1
    else 0

theorem isOption_bind : manual.isOption "--bind".toList = true := by decide +kernel

theorem isOption_setenv : manual.isOption "--setenv".toList = true := by decide +kernel

theorem arity_bind : 2 = manual.arity "--bind".toList := by decide +kernel

theorem arity_setenv : 2 = manual.arity "--setenv".toList := by decide +kernel

/-- The options with a value that `opt_arg_count` does not know. -/
def overlooked : List Text := ["--cap-add", "--cap-drop", "--userns2"].map String.toList

/-- What `bwrap` takes: options with all their values, and then `--` and more, or a command,
or nothing. -/
structure Accepted where
  opts : List (Opt manual)
  rest : List Text
  /-- A capability or a descriptor is no option with values. -/
  valued : ∀ o ∈ opts, o.word ∈ overlooked → ∀ v ∈ o.values, optArgCount v = 0
  /-- Any other word that starts with a dash is refused. -/
  stops : ∀ arg ∈ rest.head?, arg ≠ SEP → startsWithDash arg = false

namespace Accepted

def words (a : Accepted) : List Text := flat a.opts ++ a.rest

/-- Where `bwrap` finds `--` or its command; the length when there is none. -/
def cmdIdx (a : Accepted) : ℕ := (flat a.opts).length

end Accepted

/-- The scan does not stop at a value of the option. -/
def InStep (o : Opt manual) : Prop :=
  o.word ∈ overlooked → ∀ v ∈ o.values, startsWithDash v = true ∧ v ≠ SEP

instance (o : Opt manual) : Decidable (InStep o) :=
  inferInstanceAs (Decidable (_ → _))

/-- **The two tables agree** but for the options that are overlooked. -/
theorem arity_manual {word : Text} (h : manual.isOption word = true) :
    grammar.isOption word = true ∧
      if word ∈ overlooked then optArgCount word = 0 ∧ manual.arity word = 1
      else optArgCount word = manual.arity word := by
  have hall : ∀ word ∈ manualNone ++ manualOne ++ manualTwo ++ manualThree,
      grammar.isOption word = true ∧
        if word ∈ overlooked then optArgCount word = 0 ∧ manual.arity word = 1
        else optArgCount word = manual.arity word := by
    decide +kernel
  exact hall word (List.contains_iff_mem.1 h)

/-! ### The scan -/

/-- The value of an option that is overlooked. -/
theorem values_of_overlooked {o : Opt manual} (h : o.word ∈ overlooked) : ∃ v, o.values = [v] := by
  have harity := (arity_manual o.isOption).2
  rw [if_pos h] at harity
  exact List.length_eq_one_iff.1 (o.complete.trans harity.2)

/-- Options the scan keeps in step with are options of the wrapper's own, which may take an
overlooked option and its value for two. -/
theorem exists_flat_grammar {os : List (Opt manual)}
    (hvalued : ∀ o ∈ os, o.word ∈ overlooked → ∀ v ∈ o.values, optArgCount v = 0)
    (hstep : ∀ o ∈ os, InStep o) : ∃ os' : List (Opt grammar), flat os' = flat os := by
  induction os with
  | nil => exact ⟨[], rfl⟩
  | cons o os ih =>
    obtain ⟨hvalued₀, hvalued⟩ := List.forall_mem_cons.1 hvalued
    obtain ⟨hstep₀, hstep⟩ := List.forall_mem_cons.1 hstep
    obtain ⟨os', hos'⟩ := ih hvalued hstep
    obtain ⟨hoption, harity⟩ := arity_manual o.isOption
    by_cases hword : o.word ∈ overlooked
    · obtain ⟨v, hv⟩ := values_of_overlooked hword
      rw [if_pos hword] at harity
      have hmem : v ∈ o.values := by
        rw [hv]
        exact List.mem_singleton_self v
      obtain ⟨hdash, hsep⟩ := hstep₀ hword v hmem
      refine ⟨⟨o.word, [], hoption, harity.1.symm⟩ ::
        ⟨v, [], isOption_iff.2 ⟨hsep, hdash⟩, (hvalued₀ hword v hmem).symm⟩ :: os', ?_⟩
      rw [flat_cons, flat_cons, flat_cons, hos', Opt.words, Opt.words, Opt.words, hv]
      rfl
    · rw [if_neg hword] at harity
      refine ⟨⟨o.word, o.values, hoption, o.complete.trans harity.symm⟩ :: os', ?_⟩
      rw [flat_cons, flat_cons, hos', Opt.words, Opt.words]

/-- The scan stops at the value of an overlooked option. -/
theorem findCmdIdx_overlooked {o : Opt manual} (h : ¬ InStep o) (args : List Text) :
    findCmdIdx (o.words ++ args) = 1 := by
  obtain ⟨hword, v, hmem, hstop⟩ : o.word ∈ overlooked ∧ ∃ v ∈ o.values,
      ¬ (startsWithDash v = true ∧ v ≠ SEP) := by
    simpa only [InStep, Classical.not_imp, not_forall, exists_prop] using h
  obtain ⟨v', hv'⟩ := values_of_overlooked hword
  rw [hv', List.mem_singleton] at hmem
  subst hmem
  obtain ⟨hoption, harity⟩ := arity_manual o.isOption
  rw [if_pos hword] at harity
  have hstops : grammar.Stops (v :: args) := by
    rintro w ⟨⟩
    rw [← Bool.not_eq_true, isOption_iff, and_comm]
    exact hstop
  have hflat := findCmdIdx_flat_append [⟨o.word, [], hoption, harity.1.symm⟩] (v :: args)
  rw [findCmdIdx_of_stops hstops] at hflat
  rw [Opt.words, hv']
  exact hflat

/-- **The scan finds the command** exactly when it stops at no value. -/
theorem findCmdIdx_manual_iff {os : List (Opt manual)} {rest : List Text}
    (hvalued : ∀ o ∈ os, o.word ∈ overlooked → ∀ v ∈ o.values, optArgCount v = 0)
    (hstops : grammar.Stops rest) :
    findCmdIdx (flat os ++ rest) = (flat os).length ↔ ∀ o ∈ os, InStep o := by
  constructor
  · intro h
    induction os with
    | nil => exact fun o ho => absurd ho List.not_mem_nil
    | cons o os ih =>
      obtain ⟨hvalued₀, hvalued⟩ := List.forall_mem_cons.1 hvalued
      rw [flat_cons, List.append_assoc, List.length_append] at h
      by_cases hstep : InStep o
      · obtain ⟨os', hos'⟩ : ∃ os' : List (Opt grammar), flat os' = flat [o] :=
          exists_flat_grammar (List.forall_mem_singleton.2 hvalued₀)
            (List.forall_mem_singleton.2 hstep)
        rw [flat_cons, flat_nil, List.append_nil] at hos'
        rw [← hos', findCmdIdx_flat_append] at h
        exact List.forall_mem_cons.2 ⟨hstep, ih hvalued (by omega)⟩
      · -- The option itself and its value are two words, and the scan goes past one.
        rw [findCmdIdx_overlooked hstep, Opt.length_words] at h
        have hone : manual.arity o.word = 1 := by
          have hword : o.word ∈ overlooked := by
            by_contra hword
            exact hstep fun hmem => absurd hmem hword
          have harity := (arity_manual o.isOption).2
          rw [if_pos hword] at harity
          exact harity.2
        omega
  · intro hstep
    obtain ⟨os', hos'⟩ := exists_flat_grammar hvalued hstep
    rw [← hos', findCmdIdx_flat_append, findCmdIdx_of_stops hstops, Nat.add_zero]

namespace Accepted

variable {a : Accepted}

/-- The command is found where `bwrap` finds it, and what is added on the direct path comes
after the last option and before the command. -/
structure Placed (a : Accepted) : Prop where
  found : findCmdIdx a.words = a.cmdIdx
  added : ∀ (w : World) (args : List Text), stripSeccomp args = a.words →
    w.processArgsDirect args = flat a.opts ++ w.buildInjections ++ w.remapCommand a.rest

end Accepted

end Bwrap
end Launch
end Sharun
