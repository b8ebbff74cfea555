/-
# Options, values and the command of `bwrap`

Four loops of the wrapper decide on their own what is an option: the search for `--args`,
the one that strips `--seccomp`, `find_cmd_idx` and `remap_command`.  The last two go by
options and their values and always agree.  The first two look at every word, so that they
take a value or an argument of the command for an option if it looks like one; exactly
when neither meets such a word is a call handled as its options say
(`Call.handled_iff`).
-/

import Sharun.Launch.Bwrap

namespace Sharun
namespace Launch
namespace Bwrap

open Sharun.Basis

/-- A call of `bwrap`: options with all their values, `--` or not, a command and its own
arguments. -/
structure Call where
  opts : List (Opt grammar)
  sep : Bool
  cmd : Text
  own : List Text
  /-- Without `--`, the command is the first word that is not an option. -/
  noDash : sep = false → startsWithDash cmd = false

namespace Call

/-- The separator, the command and its own arguments. -/
def command (c : Call) (cmd : Text) : List Text := (if c.sep then [SEP] else []) ++ cmd :: c.own

/-- The arguments of `bwrap`. -/
def words (c : Call) : List Text := flat c.opts ++ c.command c.cmd

/-- The first of the options that is `--args` with a descriptor. -/
def argsOption (c : Call) : Option (ℕ × ℤ) := firstAt (fdAt c.words) (starts c.opts)

/-- The options without `--seccomp`. -/
def kept (c : Call) : List (Opt grammar) := c.opts.filter (·.word ≠ SECCOMP)

/-- **A call is handled as its options say.**  The `--args` that counts is an option; without
one, the result is made of the options that are kept, those that are added, and the command
with its own arguments; and with one, only its descriptor is replaced, and what the pipe
holds after its options follows the command's own arguments. -/
structure Handled (w : World) (c : Call) : Prop where
  args : findArgs c.words = c.argsOption
  direct : c.argsOption = none → w.processBwrapArgs c.words =
    some (flat c.kept ++ w.buildInjections ++ c.command (w.remapped c.cmd), none)
  pipe : ∀ i fd, c.argsOption = some (i, fd) → ∀ res ∈ w.processBwrapArgs c.words,
    ∃ newFd, res = ((flat c.opts).set (i + 1) (showFd newFd) ++ c.command (w.remapped c.cmd) ++
      (w.fdArgs fd).drop (findCmdIdx (w.fdArgs fd)), some newFd)

end Call

variable {w : World} {c : Call} {args vs : List Text} {arg : Text}

/-! ### Stripping -/

theorem stripSeccomp_cons (h : arg ≠ SECCOMP) (args : List Text) :
    stripSeccomp (arg :: args) = arg :: stripSeccomp args := by
  cases args with
  | nil => simp [stripSeccomp, h]
  | cons value args => rw [stripSeccomp, if_neg h]

theorem stripSeccomp_append (h : SECCOMP ∉ vs) (args : List Text) :
    stripSeccomp (vs ++ args) = vs ++ stripSeccomp args := by
  induction vs with
  | nil => rfl
  | cons v vs ih =>
    rw [List.mem_cons, not_or] at h
    rw [List.cons_append, stripSeccomp_cons (Ne.symm h.1), ih h.2, List.cons_append]

/-- **Stripping takes away the options that are `--seccomp`**, where no other one has such a
value. -/
theorem stripSeccomp_flat_append {g : Grammar Text} (hg : g.arity SECCOMP = 1) {os : List (Opt g)}
    (h : ∀ o ∈ os.filter (·.word ≠ SECCOMP), SECCOMP ∉ o.values) (args : List Text) :
    stripSeccomp (flat os ++ args) = flat (os.filter (·.word ≠ SECCOMP)) ++ stripSeccomp args := by
  induction os with
  | nil => rfl
  | cons o os ih =>
    rw [flat_cons, List.append_assoc, Opt.words, List.cons_append]
    by_cases ho : o.word = SECCOMP
    · have hone : o.values.length = 1 := by
        rw [o.complete, ho, hg]
      obtain ⟨value, hvalue⟩ := List.length_eq_one_iff.1 hone
      rw [List.filter_cons_of_neg (by simp [ho])] at h ⊢
      rw [hvalue, ho, List.singleton_append, stripSeccomp, if_pos rfl, ih h]
    · rw [List.filter_cons_of_pos (by simp [ho])] at h ⊢
      obtain ⟨hvalues, hos⟩ := List.forall_mem_cons.1 h
      rw [stripSeccomp_cons ho, stripSeccomp_append hvalues, ih hos, flat_cons, Opt.words,
        List.cons_append, List.cons_append, List.append_assoc]

/-! ### The command -/

theorem Call.stops_command (c : Call) : grammar.Stops (c.command c.cmd) := by
  unfold Call.command
  cases hsep : c.sep with
  | true =>
    rintro arg ⟨⟩
    decide
  | false =>
    rintro arg ⟨⟩
    show (decide (c.cmd ≠ SEP) && startsWithDash c.cmd) = false
    rw [c.noDash hsep, Bool.and_false]

/-- **`remap_command` finds the command.** -/
theorem Call.remapCommand_command (c : Call) (rest : List Text) :
    w.remapCommand (c.command c.cmd ++ rest) = c.command (w.remapped c.cmd) ++ rest := by
  unfold World.remapCommand
  split_ifs with happdir
  · unfold World.remapped
    rw [tryRemapPath_of_empty happdir, Option.getD_none]
  unfold Call.command
  cases hsep : c.sep with
  | true => rfl
  | false =>
    have hdash := c.noDash hsep
    have hne : c.cmd ≠ SEP := by
      intro h
      rw [h] at hdash
      exact absurd hdash (by decide)
    show w.remapFrom 0 (c.cmd :: (c.own ++ rest)) = _
    rw [World.remapFrom, if_neg hne, if_neg (by simp [hdash])]
    rfl

theorem remapped_eq_seccomp : w.remapped arg = SECCOMP ↔ arg = SECCOMP := by
  have hslash : '/' ∉ SECCOMP := by decide
  unfold World.remapped
  cases hr : w.tryRemapPath arg with
  | none => rfl
  | some r =>
    unfold World.tryRemapPath at hr
    split_ifs at hr with hroot
    rw [not_or, not_ne_iff] at hroot
    obtain ⟨dir, -, hdir⟩ := List.exists_of_findSome?_eq_some hr
    dsimp only at hdir
    split_ifs at hdir
    constructor
    · intro h
      rw [Option.getD_some, ← Option.some.inj hdir] at h
      exact absurd (h ▸ by simp : '/' ∈ SECCOMP) hslash
    · rintro rfl
      exact absurd hroot.1 (by decide)

theorem count_remapFirst (args : List Text) :
    (w.remapFirst args).count SECCOMP = args.count SECCOMP := by
  cases args with
  | nil => rfl
  | cons cmd own =>
    rw [World.remapFirst, List.count_cons, List.count_cons]
    simp only [beq_iff_eq, remapped_eq_seccomp]

/-- A command is never replaced by `--seccomp`. -/
theorem count_remapFrom (k : ℕ) (args : List Text) :
    (w.remapFrom k args).count SECCOMP = args.count SECCOMP := by
  induction args generalizing k with
  | nil => cases k <;> rfl
  | cons arg args ih =>
    cases k with
    | zero =>
      rw [World.remapFrom]
      split_ifs
      · rw [List.count_cons, List.count_cons, count_remapFirst]
      · rw [List.count_cons, List.count_cons, ih]
      · exact count_remapFirst (arg :: args)
    | succ k => rw [World.remapFrom, List.count_cons, List.count_cons, ih]

theorem count_remapCommand (args : List Text) :
    (w.remapCommand args).count SECCOMP = args.count SECCOMP := by
  unfold World.remapCommand
  split_ifs
  · rfl
  · exact count_remapFrom 0 args

/-! ### The two decisions -/

namespace Call

/-- **The search for `--args`** finds an option exactly when no word that only looks like one
comes first. -/
theorem findArgs_eq_iff (c : Call) : findArgs c.words = c.argsOption ↔
    ∀ i, (fdAt c.words i).isSome →
      i ∈ starts c.opts ∨ ∃ j ∈ starts c.opts, j < i ∧ (fdAt c.words j).isSome := by
  have hlen : ∀ i ∈ starts c.opts, i < c.words.length := by
    intro i hi
    have hi := lt_of_mem_starts hi
    rw [words, List.length_append]
    omega
  have hrange : ∀ i, (fdAt c.words i).isSome → i < c.words.length := by
    intro i hi
    by_contra hge
    rw [fdAt, List.getElem?_eq_none (by omega)] at hi
    exact Bool.false_ne_true hi
  unfold findArgs argsOption
  rw [firstAt_range_eq_iff (pairwise_starts c.opts) hlen]
  exact ⟨fun h i hi => h i (hrange i hi) hi, fun h i _ hi => h i hi⟩

theorem processArgsDirect_eq (c : Call) (hkept : ∀ o ∈ c.kept, SECCOMP ∉ o.values)
    (hcmd : c.cmd ≠ SECCOMP) (hown : SECCOMP ∉ c.own) :
    w.processArgsDirect c.words =
      flat c.kept ++ w.buildInjections ++ c.command (w.remapped c.cmd) := by
  have hcommand : SECCOMP ∉ c.command c.cmd := by
    have hsep : SECCOMP ∉ if c.sep then [SEP] else [] := by
      split_ifs <;> decide
    rw [command, List.mem_append, not_or, List.mem_cons, not_or]
    exact ⟨hsep, Ne.symm hcmd, hown⟩
  have hstripped : stripSeccomp c.words = flat c.kept ++ c.command c.cmd := by
    have htail := stripSeccomp_append hcommand []
    rw [words, stripSeccomp_flat_append (by decide) hkept, ← List.append_nil (c.command c.cmd),
      htail]
    rfl
  unfold World.processArgsDirect
  rw [hstripped]
  dsimp only
  rw [findCmdIdx_flat_append, findCmdIdx_of_stops c.stops_command, Nat.add_zero,
    List.take_left, List.drop_left, buildInjections_eq, ← flat_append, remapCommand_flat_append]
  have hremapped := c.remapCommand_command (w := w) []
  rw [List.append_nil, List.append_nil] at hremapped
  rw [hremapped]

/-- **The stripping of `--seccomp`** leaves the rest alone exactly when no other word looks
like it. -/
theorem processArgsDirect_eq_iff (c : Call) : w.processArgsDirect c.words =
      flat c.kept ++ w.buildInjections ++ c.command (w.remapped c.cmd) ↔
    (∀ o ∈ c.kept, SECCOMP ∉ o.values) ∧ c.cmd ≠ SECCOMP ∧ SECCOMP ∉ c.own := by
  constructor
  · intro h
    -- what comes out has the words `--seccomp` of what is added, and no others
    have hcount := congrArg (List.count SECCOMP) h
    have hstripped := List.count_eq_zero.2 (notMem_stripSeccomp c.words)
    rw [World.processArgsDirect, count_remapCommand, List.count_append, List.count_append,
      Nat.add_right_comm, ← List.count_append, List.take_append_drop, hstripped, command,
      List.count_append, List.count_append, List.count_append, List.count_cons] at hcount
    have hflat : (flat c.kept).count SECCOMP = 0 := by omega
    have hcmd : (if w.remapped c.cmd == SECCOMP then 1 else 0) = 0 := by omega
    have hown : c.own.count SECCOMP = 0 := by omega
    refine ⟨fun o ho hmem => ?_, fun heq => ?_, List.count_eq_zero.1 hown⟩
    · refine List.count_eq_zero.1 hflat (List.mem_flatMap.2 ⟨o, ho, ?_⟩)
      exact List.mem_cons_of_mem _ hmem
    · rw [remapped_eq_seccomp.2 heq] at hcmd
      exact absurd hcmd (by decide)
  · rintro ⟨hkept, hcmd, hown⟩
    exact c.processArgsDirect_eq hkept hcmd hown

/-- On the pipe path the descriptor of the option is replaced, and nothing else. -/
theorem processArgsPipe_eq (c : Call) {i : ℕ} {fd : ℤ} (h : c.argsOption = some (i, fd)) :
    ∀ res ∈ w.processArgsPipe c.words i fd, ∃ newFd,
      res = ((flat c.opts).set (i + 1) (showFd newFd) ++ c.command (w.remapped c.cmd) ++
        (w.fdArgs fd).drop (findCmdIdx (w.fdArgs fd)), some newFd) := by
  intro res hres
  obtain ⟨hi, hfd, -⟩ := (firstAt_eq_some (pairwise_starts c.opts)).1 h
  obtain ⟨pre, o, post, hopts, rfl⟩ := mem_starts.1 hi
  have hword : o.word = ARGS := by
    unfold fdAt at hfd
    split_ifs at hfd with hargs
    rw [words, hopts, flat_append, flat_cons, List.append_assoc, List.getElem?_append_right le_rfl,
      Nat.sub_self, Opt.words] at hargs
    exact Option.some.inj hargs
  have hone : o.values.length = 1 := by
    rw [o.complete, hword]
    decide
  obtain ⟨value, hvalue⟩ := List.length_eq_one_iff.1 hone
  unfold World.processArgsPipe at hres
  split_ifs at hres
  · cases hres
  · obtain ⟨newFd, -, rfl⟩ := Option.map_eq_some_iff.1 hres
    refine ⟨newFd, ?_⟩
    -- the option with its new value is an option again
    let o' : Opt grammar := ⟨ARGS, [showFd newFd], by decide, (by decide : 1 = optArgCount ARGS)⟩
    have hwords : c.words = flat pre ++ ARGS :: value :: (flat post ++ c.command c.cmd) := by
      rw [words, hopts, flat_append, flat_cons, Opt.words, hword, hvalue]
      simp
    have hopts' : (flat c.opts).set ((flat pre).length + 1) (showFd newFd) =
        flat (pre ++ o' :: post) := by
      rw [hopts, flat_append, flat_cons, Opt.words, hword, hvalue,
        List.set_append_right _ _ (by omega), Nat.add_sub_cancel_left, flat_append, flat_cons]
      rfl
    have hnew : c.words.take (flat pre).length ++ [ARGS, showFd newFd] ++
        c.words.drop ((flat pre).length + 2) = flat (pre ++ o' :: post) ++ c.command c.cmd := by
      rw [hwords, List.take_left, ← List.drop_drop, List.drop_left, flat_append, flat_cons]
      simp [o', Opt.words]
    rw [Descriptors.newArgs, hnew, hopts', List.append_assoc, remapCommand_flat_append,
      remapCommand_command, List.append_assoc]

/-- **When a call is handled as its options say.**  No value, and no word of the command, is
`--args` before a number ahead of the first option that is; and where no option is, no
value of another option than `--seccomp`, and no word of the command, is `--seccomp`. -/
theorem handled_iff (w : World) (c : Call) : c.Handled w ↔
    (∀ i, (fdAt c.words i).isSome →
      i ∈ starts c.opts ∨ ∃ j ∈ starts c.opts, j < i ∧ (fdAt c.words j).isSome) ∧
    (c.argsOption = none →
      (∀ o ∈ c.kept, SECCOMP ∉ o.values) ∧ c.cmd ≠ SECCOMP ∧ SECCOMP ∉ c.own) := by
  rw [← findArgs_eq_iff]
  constructor
  · rintro ⟨hargs, hdirect, -⟩
    refine ⟨hargs, fun hnone => ?_⟩
    have hresult := hdirect hnone
    rw [World.processBwrapArgs, hargs, hnone] at hresult
    exact c.processArgsDirect_eq_iff.1 (congrArg Prod.fst (Option.some.inj hresult))
  · rintro ⟨hargs, hstray⟩
    refine ⟨hargs, fun hnone => ?_, fun i fd hsome => ?_⟩
    · rw [World.processBwrapArgs, hargs, hnone]
      exact congrArg (fun r => some (r, none)) (c.processArgsDirect_eq_iff.2 (hstray hnone))
    · rw [World.processBwrapArgs, hargs, hsome]
      exact c.processArgsPipe_eq hsome

end Call

/-- A wrapper in the AppDir `/a`, with no pipe to read and 7 as its next descriptor. -/
def inA : World where
  appdir := "/a".toList
  sharunDir := "/a".toList
  path := "/bin".toList
  noNul := by decide
  absolute := by
    rintro c ⟨⟩
    rfl
  access _ := false
  pipes _ := []
  newPipe := some 7

/-- A command after `--`, with two arguments of its own. -/
def ownCall (first second : Text) : Call where
  opts := []
  sep := true
  cmd := "run".toList
  own := [first, second]
  noDash h := absurd h (by decide)

/-- **Arguments of the command that are lost**: `-- run --seccomp 5` runs the command without
its arguments, and `-- run --args 5` with `--args 7`. -/
theorem own_arguments_lost :
    (inA.processBwrapArgs (ownCall SECCOMP "5".toList).words =
        some (inA.buildInjections ++ [SEP, "run".toList], none) ∧
      ¬ (ownCall SECCOMP "5".toList).Handled inA) ∧
    inA.processBwrapArgs (ownCall ARGS "5".toList).words =
        some ([SEP, "run".toList, ARGS, "7".toList], some 7) ∧
      ¬ (ownCall ARGS "5".toList).Handled inA := by
  refine ⟨⟨by decide, fun h => ?_⟩, by decide, fun h => ?_⟩
  · have hargs := h.direct (by decide)
    exact absurd hargs (by decide)
  · exact absurd h.args (by decide)

end Bwrap
end Launch
end Sharun
