/-
# The `PATH` of a program

A program of the AppImage that has cleared its environment could not find the programs it
starts.  So `exec_common` ends by looking whether the environment it is about to pass has
a `PATH` that is not empty, and appends one that begins with the `bin` directory of the
AppImage where there is none.  What the program looks up is the first `PATH` of the array,
however: one that is empty hides the entry that is appended after it, and one that is set
further on (`path_ensured_iff`).
-/

import Sharun.Preload.External

namespace Sharun
namespace Preload

open Sharun.Launch (Text)

/-- `exec_common` up to its end: the process, and the environment the program would get if
nobody looked after its `PATH`. -/
def prepare (moves : Text → Bool) (p : Process) (prog : Program) : Process × Entries :=
  let p := p.unsetenv LD_DEBUG
  if cleans (getenv p.environ APPDIR) prog then
    let p := p.restorePortableDirs moves
    (p, createCleanedEnv (getenv p.environ APPDIR) p.envp)
  else (p, p.envp)

/-- The entries that are not about `PATH`. -/
def withoutPath (es : Entries) : Entries := es.filter fun e => !isEntry PATH e

/-- **What a program is to find**: a `PATH` that is not empty; the one that was passed, where
that is not empty, and else one that begins with the `bin` of the AppImage; and all other
entries as they are without that. -/
structure PathEnsured (appdir : Text) (given plain child : Entries) : Prop where
  found : ∃ value, getenv child PATH = some value ∧ value ≠ []
  own : ∀ value, value ≠ [] → getenv given PATH = some value → getenv child PATH = some value
  fallback : (∀ value, value ≠ [] → getenv given PATH ≠ some value) →
    ∃ rest, getenv child PATH = some (appdir ++ "/bin".toList ++ rest)
  others : withoutPath child = withoutPath plain

variable {moves : Text → Bool} {p : Process} {prog : Program} {name : Text} {es : Entries}

theorem getenv_filter_isEntry (es : Entries) (name : Text) :
    getenv (es.filter (isEntry name)) name = getenv es name :=
  getenv_filter fun _ _ he => he

/-- Of an array that is continued the first part counts, where it has the name at all. -/
theorem getenv_append (es es' : Entries) (name : Text) :
    getenv (es ++ es') name = (getenv es name).or (getenv es' name) := by
  unfold getenv
  rw [List.findSome?_append]

namespace Process

@[simp] theorem defaultPath_ne_nil (p : Process) : p.defaultPath ≠ [] := by
  have hbin : p.savedAppdir ++ "/bin:".toList ≠ [] :=
    List.append_ne_nil_of_right_ne_nil _ (by decide)
  exact List.append_ne_nil_of_left_ne_nil hbin _

theorem defaultPath_eq_append (p : Process) :
    ∃ rest, p.defaultPath = p.savedAppdir ++ "/bin".toList ++ rest := by
  unfold defaultPath
  exact ⟨':' :: _, by rw [List.append_assoc, List.append_assoc]; rfl⟩

end Process

/-- What was captured stays what it was. -/
theorem savedAppdir_prepare (moves : Text → Bool) (p : Process) (prog : Program) :
    (prepare moves p prog).1.savedAppdir = p.savedAppdir := by
  unfold prepare
  dsimp only
  split_ifs
  · exact Process.restorePortableDirs_of_preserved
      (P := fun q => q.savedAppdir = p.savedAppdir) (fun _ _ _ _ hq => hq) rfl
  · rfl

/-- **Cleaning takes no `PATH` away**, nor does what is done before it. -/
theorem getenv_prepare : getenv (prepare moves p prog).2 PATH = getenv p.envp PATH := by
  rw [← getenv_filter_isEntry, ← getenv_filter_isEntry p.envp]
  congr 1
  have hcleaned : ∀ (appdir : Option Text) (es : Entries),
      (createCleanedEnv appdir es).filter (isEntry PATH) = es.filter (isEntry PATH) := by
    intro appdir es
    cases appdir with
    | none => rfl
    | some appdir =>
      unfold createCleanedEnv
      rw [List.filter_filter]
      refine List.filter_congr fun e _ => ?_
      cases he : isEntry PATH e with
      | false => rfl
      | true =>
        rw [dropped_eq_false (by simp) he]
        rfl
  have hunset : (p.unsetenv LD_DEBUG).envp.filter (isEntry PATH) = p.envp.filter (isEntry PATH) :=
    Process.entries_unsetenv (by decide) (by decide) (by decide)
  unfold prepare
  dsimp only
  split_ifs
  · rw [hcleaned, Process.entries_restorePortableDirs (by decide) (by decide), hunset]
  · exact hunset

theorem execCommon_eq_ensurePath :
    execCommon moves p prog =
      ensurePath moves (prepare moves p prog).1 (prepare moves p prog).2 := by
  unfold execCommon prepare
  dsimp only
  split_ifs <;> rfl

/-- What is looked up after the repair is what was there first, be it empty. -/
theorem getenv_ensurePath (happdir : p.savedAppdir ≠ []) (es : Entries) :
    getenv (ensurePath moves p es).2 PATH = some ((getenv es PATH).getD p.defaultPath) := by
  have hnew : getenv [entry PATH p.defaultPath] PATH = some p.defaultPath :=
    getenv_cons_of_isEntry []
  unfold ensurePath
  cases hpath : getenv es PATH with
  | none =>
    have hnone : es.any setsPath = false := by
      rw [List.any_eq_false]
      intro e he
      unfold setsPath
      rw [getenv_eq_none.1 hpath e he, Bool.false_and]
      exact Bool.false_ne_true
    rw [if_pos ⟨happdir, hnone⟩]
    show getenv (es ++ [entry PATH p.defaultPath]) PATH = _
    rw [getenv_append, hpath, hnew]
    rfl
  | some value =>
    split_ifs
    · show getenv (es ++ [entry PATH p.defaultPath]) PATH = _
      rw [getenv_append, hpath]
      rfl
    · exact hpath

theorem withoutPath_ensurePath (es : Entries) :
    withoutPath (ensurePath moves p es).2 = withoutPath es := by
  unfold ensurePath
  split_ifs
  · show withoutPath (es ++ [entry PATH p.defaultPath]) = _
    unfold withoutPath
    rw [List.filter_append, List.filter_cons_of_neg (by simp), List.filter_nil, List.append_nil]
  · rfl

/-- **What the program looks up**: the `PATH` that was passed, be it empty, and else the new
one. -/
theorem getenv_execCommon (moves : Text → Bool) (prog : Program) (happdir : p.savedAppdir ≠ []) :
    getenv (execCommon moves p prog).2 PATH =
      some ((getenv p.envp PATH).getD (prepare moves p prog).1.defaultPath) := by
  have hsaved : (prepare moves p prog).1.savedAppdir ≠ [] := by
    rw [savedAppdir_prepare]
    exact happdir
  rw [execCommon_eq_ensurePath, getenv_ensurePath hsaved, getenv_prepare]

/-- **When a program finds its `PATH`**: unless the first one that is passed is empty. -/
theorem Process.path_ensured_iff (moves : Text → Bool) (p : Process) (prog : Program)
    (happdir : p.savedAppdir ≠ []) :
    PathEnsured p.savedAppdir p.envp (prepare moves p prog).2 (execCommon moves p prog).2 ↔
      getenv p.envp PATH ≠ some [] := by
  have hlookup := getenv_execCommon moves prog happdir
  constructor
  · intro h hempty
    obtain ⟨value, hvalue, hne⟩ := h.found
    rw [hlookup, hempty] at hvalue
    exact hne (Option.some.inj hvalue).symm
  · intro hne
    constructor
    · refine ⟨_, hlookup, ?_⟩
      cases hpath : getenv p.envp PATH with
      | none => exact Process.defaultPath_ne_nil _
      | some value =>
        rintro rfl
        exact hne hpath
    · intro value _ hvalue
      rw [hlookup, hvalue]
      rfl
    · intro hnone
      obtain ⟨rest, hrest⟩ := (prepare moves p prog).1.defaultPath_eq_append
      refine ⟨rest, ?_⟩
      cases hpath : getenv p.envp PATH with
      | none =>
        rw [hlookup, hpath, ← savedAppdir_prepare moves p prog, ← hrest]
        rfl
      | some value =>
        have hvalue : value ≠ [] := by
          rintro rfl
          exact hne hpath
        exact absurd hpath (hnone value hvalue)
    · rw [execCommon_eq_ensurePath, withoutPath_ensurePath]

/-- A process of the AppImage in `/tmp/app` that has been started with `PATH=/bin` and passes
these entries. -/
def passing (es : Entries) : Process := { inApp [] with passed := some es }

/-- A shell that is passed an empty environment finds the programs of the AppImage. -/
theorem Process.path_ensured_cleared :
    let p := passing []
    let sh : Program := ⟨"sh".toList, some "/bin/sh".toList⟩
    PathEnsured p.savedAppdir p.envp (prepare (fun _ => true) p sh).2
        (execCommon (fun _ => true) p sh).2 ∧
      (execCommon (fun _ => true) p sh).2 = ["PATH=/tmp/app/bin:/bin".toList] := by
  intro p sh
  have hensured := (Process.path_ensured_iff (fun _ => true) p sh (by decide)).2 (by decide)
  exact ⟨hensured, by decide +kernel⟩

/-- **An empty `PATH` stays what is found**: the new one comes after it, or does not come at
all where another `PATH` is set further on. -/
theorem empty_path_first :
    let sh : Program := ⟨"sh".toList, some "/bin/sh".toList⟩
    let child es := (execCommon (fun _ => true) (passing es) sh).2
    ¬ PathEnsured "/tmp/app".toList ["PATH=".toList]
        (prepare (fun _ => true) (passing ["PATH=".toList]) sh).2 (child ["PATH=".toList]) ∧
      child ["PATH=".toList] = ["PATH=".toList, "PATH=/tmp/app/bin:/bin".toList] ∧
      child ["PATH=".toList, "PATH=/bin".toList] = ["PATH=".toList, "PATH=/bin".toList] := by
  refine ⟨fun h => ?_, by decide +kernel, by decide +kernel⟩
  obtain ⟨value, hvalue, hne⟩ := h.found
  have hgiven : getenv (passing ["PATH=".toList]).envp PATH = some [] := by decide +kernel
  rw [getenv_execCommon _ _ (by decide), hgiven] at hvalue
  exact hne (Option.some.inj hvalue).symm

end Preload
end Sharun
