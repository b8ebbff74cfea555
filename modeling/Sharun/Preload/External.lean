/-
# What a program outside the AppImage gets

`is_external_process` compares as many characters as the shorter of two paths has.  So it
answers what it is meant to for every path but those that only share a prefix with
`APPDIR`: what `APPDIR` continues, and `APPDIR` continued within its last component
(`OnlySharesPrefix`).  For a program outside `APPDIR` the filter of
`create_cleaned_env` leaves out exactly the entries that point into the AppImage
(`dropped_iff`).

`exec_common` works on the environment of the process as well, and that may be the array
that is passed: besides the directories and `PATH`, which it restores on purpose, it
then takes `LD_DEBUG` from the program.
-/

import Sharun.Preload.Children

namespace Sharun
namespace Preload

open Sharun.Launch (Text contains contains_iff basename)

/-- The path is `APPDIR` or lies below it. -/
def Below (appdir path : Text) : Prop := path = appdir ∨ (appdir ++ ['/']) <+: path

/-- One of the two paths continues the other, and yet the path is not in `APPDIR`. -/
def OnlySharesPrefix (appdir path : Text) : Prop :=
  ¬ Below appdir path ∧ (path <+: appdir ∨ appdir <+: path)

/-- An entry that a program outside the AppImage must not get. -/
def Offends (appdir e : Text) : Prop :=
  (∃ var ∈ varsToUnset, ∃ value, e = entry var value ∧ appdir <:+: value) ∨
    ∃ value, e = entry LD_PRELOAD value ∧ "anylinux.so".toList <:+: value

theorem ldPreload_mem_varsToUnset : LD_PRELOAD ∈ varsToUnset := List.mem_map_of_mem (by simp)

/-- **The nested loop of `create_cleaned_env` finds what offends.** -/
theorem dropped_iff {appdir e : Text} : dropped appdir e = true ↔ Offends appdir e := by
  have hvalue : ∀ var : Text, ((valueIn var e).any fun value =>
      contains value appdir || (var = LD_PRELOAD && contains value "anylinux.so".toList)) = true ↔
        ∃ value, e = entry var value ∧
          (appdir <:+: value ∨ var = LD_PRELOAD ∧ "anylinux.so".toList <:+: value) := by
    intro var
    simp only [← valueIn_eq_some, ← contains_iff]
    cases valueIn var e with
    | none => simp
    | some value => simp
  unfold dropped
  rw [List.any_eq_true]
  constructor
  · rintro ⟨var, hvar, h⟩
    obtain ⟨value, he, happdir | ⟨rfl, hlib⟩⟩ := (hvalue var).1 h
    · exact Or.inl ⟨var, hvar, value, he, happdir⟩
    · exact Or.inr ⟨value, he, hlib⟩
  · rintro (⟨var, hvar, value, he, happdir⟩ | ⟨value, he, hlib⟩)
    · exact ⟨var, hvar, (hvalue var).2 ⟨value, he, Or.inl happdir⟩⟩
    · exact ⟨LD_PRELOAD, ldPreload_mem_varsToUnset,
        (hvalue LD_PRELOAD).2 ⟨value, he, Or.inr ⟨rfl, hlib⟩⟩⟩

instance (appdir e : Text) : Decidable (Offends appdir e) := decidable_of_iff _ dropped_iff

instance (appdir path : Text) : Decidable (Below appdir path) :=
  inferInstanceAs (Decidable (_ ∨ _))

instance (appdir path : Text) : Decidable (OnlySharesPrefix appdir path) :=
  inferInstanceAs (Decidable (_ ∧ _))

/-- What is neither an offending entry nor one of the excepted variables. -/
def isOther (appdir : Text) (excepted : List Text) (e : Text) : Bool :=
  !decide (Offends appdir e) && excepted.all fun name => !isEntry name e

/-- **The environment of a program outside the AppImage**, made of what was passed: nothing
in it offends, and all other entries, but for those of the excepted variables, are in it
as they were passed. -/
structure Cleaned (appdir : Text) (excepted : List Text) (given child : Entries) : Prop where
  offends : ∀ e ∈ child, ¬ Offends appdir e
  others : child.filter (isOther appdir excepted) = given.filter (isOther appdir excepted)

/-- What `exec_common` changes on purpose: it restores the directories and `PATH`, and
unsets `LD_DEBUG` in the environment of the process. -/
def changedOnPurpose (p : Process) : List Text :=
  PATH :: Process.portable ++ if p.passed = none then [LD_DEBUG] else []

variable {moves : Text → Bool} {p : Process} {prog : Program} {appdir path name e : Text}
  {excepted : List Text} {given child : Entries}

/-- **The decision is right for all paths that do not merely share a prefix.** -/
theorem isExternalProcess_iff (h : ¬ OnlySharesPrefix appdir path) :
    isExternalProcess (some appdir) path = false ↔ Below appdir path := by
  rw [isExternalProcess_eq_false]
  constructor
  · intro hprefix
    by_contra hbelow
    exact h ⟨hbelow, hprefix⟩
  · rintro (rfl | hbelow)
    · exact Or.inl List.prefix_rfl
    · exact Or.inr ((List.prefix_append appdir ['/']).trans hbelow)

theorem isOther_of_isEntry (hname : name ∈ excepted) (he : isEntry name e) :
    isOther appdir excepted e = false := by
  unfold isOther
  rw [Bool.and_eq_false_iff, List.all_eq_false]
  exact Or.inr ⟨name, hname, by simp [he]⟩

/-- Cleaning takes away what offends and nothing else. -/
theorem cleaned_createCleanedEnv (h : child.filter (isOther appdir excepted) =
    given.filter (isOther appdir excepted)) :
    Cleaned appdir excepted given (createCleanedEnv (some appdir) child) where
  offends := by
    intro e he
    unfold createCleanedEnv at he
    have hkept := (List.mem_filter.1 he).2
    rw [← dropped_iff]
    simpa using hkept
  others := by
    unfold createCleanedEnv
    rw [← h, List.filter_filter]
    refine List.filter_congr fun e _ => ?_
    unfold isOther
    cases hd : dropped appdir e with
    | false => simp
    | true => simp [dropped_iff.1 hd]

theorem wf_of_mem_varsToUnset : ∀ var ∈ varsToUnset, '=' ∉ var := by decide +kernel

/-- The variables the functions look at are not among those that are cleaned. -/
theorem notMem_varsToUnset : ∀ name ∈ PATH :: LD_DEBUG :: Process.portable,
    '=' ∉ name ∧ name ∉ varsToUnset := by decide +kernel

/-- The entries of these variables are kept. -/
theorem dropped_eq_false (hname : name ∈ PATH :: LD_DEBUG :: Process.portable)
    (he : isEntry name e) : dropped appdir e = false := by
  obtain ⟨hwf, hother⟩ := notMem_varsToUnset name hname
  rw [← Bool.not_eq_true, dropped_iff]
  have hentry : ∀ var ∈ varsToUnset, ∀ value, e ≠ entry var value := by
    rintro var hvar value rfl
    have hname := isEntry_unique hwf (wf_of_mem_varsToUnset var hvar) he (isEntry_entry var value)
    exact hother (hname ▸ hvar)
  rintro (⟨var, hvar, value, heq, -⟩ | ⟨value, heq, -⟩)
  · exact hentry var hvar value heq
  · exact hentry LD_PRELOAD ldPreload_mem_varsToUnset value heq

/-- The `PATH` that is added is none of the variables that are cleaned. -/
theorem Cleaned.ensurePath (h : Cleaned appdir excepted given child) (hpath : PATH ∈ excepted) :
    Cleaned appdir excepted given (ensurePath moves p child).2 := by
  unfold Preload.ensurePath
  split_ifs
  · constructor
    · intro e he
      rcases List.mem_append.1 he with he | he
      · exact h.offends e he
      · rw [List.mem_singleton.1 he]
        rw [← dropped_iff, dropped_eq_false (by simp) (isEntry_entry PATH _)]
        exact Bool.false_ne_true
    · rw [List.filter_append, h.others, List.filter_cons_of_neg, List.filter_nil, List.append_nil]
      rw [isOther_of_isEntry hpath (isEntry_entry PATH _)]
      exact Bool.false_ne_true
  · exact h

/-- What `exec_common` does to what is passed, before it is cleaned, is seen in the variables
it changes on purpose alone. -/
theorem filter_prepared :
    ((p.unsetenv LD_DEBUG).restorePortableDirs moves).envp.filter
        (isOther appdir (changedOnPurpose p)) =
      p.envp.filter (isOther appdir (changedOnPurpose p)) := by
  have hportable : ∀ e, ∀ name ∈ Process.portable, isEntry name e →
      isOther appdir (changedOnPurpose p) e = false := by
    intro e name hname he
    refine isOther_of_isEntry (List.mem_cons_of_mem _ ?_) he
    exact List.mem_append_left _ hname
  have hdebug : p.passed = none → ∀ e, isEntry LD_DEBUG e →
      isOther appdir (changedOnPurpose p) e = false := by
    intro hown e he
    refine isOther_of_isEntry (List.mem_cons_of_mem _ ?_) he
    rw [if_pos hown]
    exact List.mem_append_right _ (List.mem_singleton_self LD_DEBUG)
  rw [Process.filter_restorePortableDirs hportable, Process.filter_envp_unsetenv hdebug]

/-- **What a program outside the AppImage gets.**  Where the path does not merely share a
prefix with `APPDIR`, it is judged to be internal exactly when it is `APPDIR` or lies
below it; and a program that is not in `APPDIR` gets a cleaned environment from
`exec_common` and from `spawn_common`, in which the first has changed but the variables it
changes on purpose, and the second none. -/
theorem Process.outside_gets_cleaned (moves : Text → Bool) (p : Process) (prog : Program)
    (hset : getenv p.environ APPDIR = some appdir)
    (hshared : ¬ OnlySharesPrefix appdir prog.path) :
    (isExternalProcess (getenv p.environ APPDIR) prog.path = false ↔ Below appdir prog.path) ∧
      (¬ Below appdir prog.path →
        Cleaned appdir (changedOnPurpose p) p.envp (execCommon moves p prog).2 ∧
        Cleaned appdir [] p.envp (spawnCommon p prog)) := by
  have hdecision := isExternalProcess_iff hshared
  refine ⟨by rw [hset, hdecision], fun houtside => ?_⟩
  have hexternal : isExternalProcess (some appdir) prog.path = true := by
    rw [← Bool.not_eq_false, hdecision]
    exact houtside
  constructor
  · rw [execCommon_eq hset, if_pos (by simp [cleans, hexternal])]
    exact (cleaned_createCleanedEnv filter_prepared).ensurePath (by simp [changedOnPurpose])
  · unfold spawnCommon
    rw [hset, if_pos hexternal]
    exact cleaned_createCleanedEnv rfl

/-- A process of the AppImage in `/tmp/app`, with these entries beside `APPDIR` and `PATH`. -/
def inApp (others : Entries) : Process where
  environ := entry APPDIR "/tmp/app".toList :: entry PATH "/bin".toList :: others
  passed := none
  savedAppdir := "/tmp/app".toList
  savedPath := "/bin".toList

/-- A shell outside the AppImage does not get the library, and gets all the rest. -/
theorem Process.outside_gets_cleaned_sh :
    let p := inApp ["LD_PRELOAD=anylinux.so".toList, "LANG=C".toList]
    let sh : Program := ⟨"sh".toList, some "/bin/sh".toList⟩
    Cleaned "/tmp/app".toList (changedOnPurpose p) p.envp (execCommon (fun _ => true) p sh).2 ∧
      (execCommon (fun _ => true) p sh).2 = (inApp ["LANG=C".toList]).environ := by
  intro p sh
  have hset : getenv p.environ APPDIR = some "/tmp/app".toList := by decide
  have hcleaned := Process.outside_gets_cleaned (fun _ => true) p sh hset (by decide)
  exact ⟨(hcleaned.2 (by decide)).1, by decide +kernel⟩

/-- **A path that shares a prefix, and a variable that is lost**: what lies in `/tmp/app2` is
judged to be a part of `/tmp/app`; and a shell that is executed with the process's own
environment does not get its `LD_DEBUG`. -/
theorem sibling_internal_and_debug_lost :
    (isExternalProcess (some "/tmp/app".toList) "/tmp/app2/tool".toList = false ∧
      ¬ Below "/tmp/app".toList "/tmp/app2/tool".toList) ∧
    (execCommon (fun _ => true) (inApp ["LD_DEBUG=all".toList])
        ⟨"sh".toList, some "/bin/sh".toList⟩).2 = (inApp []).environ := by
  decide +kernel

end Preload
end Sharun
