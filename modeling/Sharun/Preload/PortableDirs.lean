/-
# The user's own directories

An AppImage in portable mode has its own `HOME` and XDG directories, and keeps the user's
in `REAL_HOME` and so on.  A program outside of it is to get the user's.
`restore_portable_dirs` puts them back, but into the environment of the process, where the
program gets what was passed; and `spawn_common` does not call it.  So a child gets the
user's directories by either way, and the same environment, only where what is passed has
them already (`same_environment_iff`).
-/

import Sharun.Preload.External

namespace Sharun
namespace Preload

open Sharun.Launch (Text contains basename)

/-- What `XDG_CACHE_HOME` is set to. -/
def cacheTarget (es : Entries) : Option Text :=
  let own := (getenv es (real XDG_CACHE_HOME)).filter (· ≠ [])
  if getenv es USE_HOST_XDG_CACHE_HOME = some "1".toList then own
  else ((getenv es HOST_XDG_CACHE_HOME).filter (· ≠ [])).or own

/-- The variable has the user's value, where there is one that is not empty. -/
def HasReal (es : Entries) (name : Text) (env : Entries) : Prop :=
  ∀ value ∈ getenv es (real name), value ≠ [] → getenv env name = some value

instance (es : Entries) (name : Text) (env : Entries) : Decidable (HasReal es name env) :=
  inferInstanceAs (Decidable (∀ value ∈ _, _))

/-- The directories of which a program outside the AppImage gets the user's. -/
def ownDirs : List Text := [HOME, XDG_DATA_HOME, XDG_CONFIG_HOME]

/-- **What a program gets**: the same by either way, and the user's directories in it. -/
def SameEnvironment (moves : Text → Bool) (p : Process) (prog : Program) : Prop :=
  (execCommon moves p prog).2 = spawnCommon p prog ∧
    ∀ name ∈ ownDirs, HasReal p.environ name (spawnCommon p prog)

instance (moves : Text → Bool) (p : Process) (prog : Program) :
    Decidable (SameEnvironment moves p prog) := inferInstanceAs (Decidable (_ ∧ _))

/-- Setting `XDG_CACHE_HOME` is not seen: it has the value already, or it is appended to an
array that has a new place. -/
def CacheUnseen (moves : Text → Bool) (es : Entries) : Prop :=
  ∀ value ∈ cacheTarget es, getenv es XDG_CACHE_HOME = some value ∨
    getenv es XDG_CACHE_HOME = none ∧ moves XDG_CACHE_HOME = true

instance (moves : Text → Bool) (es : Entries) : Decidable (CacheUnseen moves es) :=
  inferInstanceAs (Decidable (∀ value ∈ _, _))

variable {moves : Text → Bool} {p : Process} {prog : Program} {name source appdir : Text}

namespace Process

theorem restore_of_getenv
    (h : ∀ value ∈ getenv p.environ source, value ≠ [] → getenv p.environ name = some value) :
    p.restore moves name source = p := by
  unfold restore
  split
  · rfl
  · rename_i value hvalue
    obtain ⟨hsource, hne⟩ := Option.filter_eq_some_iff.1 hvalue
    exact setenv_of_getenv (h value hsource (by simpa using hne))

/-- The two steps about `XDG_CACHE_HOME` are one. -/
theorem restoreCache_eq : p.restoreCache moves =
    (cacheTarget p.environ).elim p (p.setenv moves XDG_CACHE_HOME) := by
  have hkept : ∀ value, ∀ name ∈ [USE_HOST_XDG_CACHE_HOME, HOST_XDG_CACHE_HOME],
      getenv (p.setenv moves XDG_CACHE_HOME value).environ name = getenv p.environ name := by
    intro value name hname
    have hwf : ∀ name ∈ [USE_HOST_XDG_CACHE_HOME, HOST_XDG_CACHE_HOME],
        '=' ∉ name ∧ XDG_CACHE_HOME ≠ name := by decide
    exact getenv_setEntry_of_ne (by decide) (hwf name hname).1 (hwf name hname).2 value _
  unfold restoreCache cacheTarget restore
  cases hown : (getenv p.environ (real XDG_CACHE_HOME)).filter (· ≠ []) with
  | none =>
    dsimp only
    split_ifs
    · rfl
    · cases (getenv p.environ HOST_XDG_CACHE_HOME).filter (· ≠ []) <;> rfl
  | some own =>
    dsimp only
    rw [hkept own _ (by simp), hkept own _ (by simp)]
    split_ifs
    · rfl
    · cases (getenv p.environ HOST_XDG_CACHE_HOME).filter (· ≠ []) with
      | none => rfl
      | some host => exact setenv_setenv own host

/-- Where the process has the user's directories, only `XDG_CACHE_HOME` is set. -/
theorem restorePortableDirs_eq (h : ∀ name ∈ ownDirs, HasReal p.environ name p.environ) :
    p.restorePortableDirs moves = p.restoreCache moves := by
  have hhome : HasReal (p.restoreCache moves).environ HOME (p.restoreCache moves).environ := by
    have hcache : ∀ name, '=' ∉ name → XDG_CACHE_HOME ≠ name →
        getenv (p.restoreCache moves).environ name = getenv p.environ name := by
      intro name hwf hne
      rw [restoreCache_eq]
      cases cacheTarget p.environ with
      | none => rfl
      | some value => exact getenv_setEntry_of_ne (by decide) hwf hne value p.environ
    intro value hvalue hne
    rw [hcache _ (by decide) (by decide)] at hvalue ⊢
    exact h HOME (by decide) value hvalue hne
  unfold restorePortableDirs
  dsimp only
  rw [restore_of_getenv (h XDG_DATA_HOME (by decide)),
    restore_of_getenv (h XDG_CONFIG_HOME (by decide)), restore_of_getenv hhome]

theorem passed_restorePortableDirs {es : Entries} (h : p.passed = some es) :
    (p.restorePortableDirs moves).passed = some es := by
  refine restorePortableDirs_of_preserved (P := fun q => q.passed = some es) ?_ h
  intro q name _ value hq
  unfold setenv envp
  rw [hq]
  split_ifs <;> rfl

end Process

theorem getenv_createCleanedEnv (hname : name ∈ Process.portable) (es : Entries) :
    getenv (createCleanedEnv (some appdir) es) name = getenv es name := by
  refine getenv_filter fun e _ he => ?_
  rw [dropped_eq_false (by simp [hname]) he]
  rfl

/-- The entries of a variable that `exec_common` does not touch stay where they are. -/
theorem mem_prepared (moves : Text → Bool) {e : Text} (hwf : '=' ∉ name) (hdebug : name ≠ LD_DEBUG)
    (hother : name ∉ Process.portable) (he : e ∈ p.envp) (hentry : isEntry name e) :
    e ∈ (p.unsetenv LD_DEBUG).envp ∧
      e ∈ ((p.unsetenv LD_DEBUG).restorePortableDirs moves).envp := by
  have hunset : (p.unsetenv LD_DEBUG).envp.filter (isEntry name) = p.envp.filter (isEntry name) :=
    Process.entries_unsetenv hwf (by decide) hdebug
  have hmem : e ∈ (p.unsetenv LD_DEBUG).envp.filter (isEntry name) := by
    rw [hunset]
    exact List.mem_filter.2 ⟨he, hentry⟩
  refine ⟨List.mem_of_mem_filter hmem, ?_⟩
  rw [← Process.entries_restorePortableDirs hwf hother] at hmem
  exact List.mem_of_mem_filter hmem

/-- The program is executed with what is left of the environment; its `PATH` needs no repair. -/
theorem execCommon_env (hset : getenv p.environ APPDIR = some appdir)
    (hpath : p.envp.any setsPath = true) :
    (execCommon moves p prog).2 =
      if cleans (some appdir) prog then
        createCleanedEnv (some appdir) ((p.unsetenv LD_DEBUG).restorePortableDirs moves).envp
      else (p.unsetenv LD_DEBUG).envp := by
  obtain ⟨e, he, hsets⟩ := List.any_eq_true.1 hpath
  have hentry : isEntry PATH e := (Bool.and_eq_true_iff.1 hsets).1
  have hkept : ∀ {q : Process} {env : Entries}, e ∈ env → (ensurePath moves q env).2 = env := by
    intro q env hmem
    have hany : env.any setsPath = true := List.any_eq_true.2 ⟨e, hmem, hsets⟩
    unfold ensurePath
    rw [if_neg (by simp [hany])]
  obtain ⟨hunset, hrestored⟩ :=
    mem_prepared moves (by decide) (by decide) (by decide) he hentry
  rw [execCommon_eq hset]
  split_ifs
  · refine hkept (List.mem_filter.2 ⟨hrestored, ?_⟩)
    rw [dropped_eq_false (by simp) hentry]
    rfl
  · exact hkept hunset

/-- What is passed and not cleaned away reaches a program that is spawned. -/
theorem mem_spawnCommon {e : Text} (hset : getenv p.environ APPDIR = some appdir) (he : e ∈ p.envp)
    (hkept : dropped appdir e = false) : e ∈ spawnCommon p prog := by
  unfold spawnCommon
  rw [hset]
  split_ifs
  · exact List.mem_filter.2 ⟨he, by simp [hkept]⟩
  · exact he

theorem getenv_spawnCommon (hset : getenv p.environ APPDIR = some appdir)
    (hname : name ∈ Process.portable) : getenv (spawnCommon p prog) name = getenv p.envp name := by
  unfold spawnCommon
  rw [hset]
  split_ifs
  · exact getenv_createCleanedEnv hname p.envp
  · rfl

theorem createCleanedEnv_eq_self {es : Entries} :
    createCleanedEnv (some appdir) es = es ↔ ∀ e ∈ es, dropped appdir e = false := by
  unfold createCleanedEnv
  rw [List.filter_eq_self]
  simp

/-- No `LD_DEBUG` is left where the environment of the process is passed. -/
theorem debug_execCommon (hset : getenv p.environ APPDIR = some appdir)
    (hpath : p.envp.any setsPath = true) (hown : p.passed = none) :
    ∀ e ∈ (execCommon moves p prog).2, isEntry LD_DEBUG e = false := by
  have hunset : ∀ e ∈ (p.unsetenv LD_DEBUG).envp, isEntry LD_DEBUG e = false := by
    intro e he
    unfold Process.unsetenv Process.envp at he
    rw [hown] at he
    simpa using (List.mem_filter.1 he).2
  have hrestored : ∀ e ∈ ((p.unsetenv LD_DEBUG).restorePortableDirs moves).envp,
      isEntry LD_DEBUG e = false := by
    have hfilter :
        ((p.unsetenv LD_DEBUG).restorePortableDirs moves).envp.filter (isEntry LD_DEBUG) =
          (p.unsetenv LD_DEBUG).envp.filter (isEntry LD_DEBUG) :=
      Process.entries_restorePortableDirs (by decide) (by decide)
    have hnone : (p.unsetenv LD_DEBUG).envp.filter (isEntry LD_DEBUG) = [] :=
      List.filter_eq_nil_iff.2 fun e he => by simp [hunset e he]
    intro e he
    exact Bool.eq_false_iff.2 (List.filter_eq_nil_iff.1 (hfilter.trans hnone) e he)
  rw [execCommon_env hset hpath]
  split_ifs
  · exact fun e he => hrestored e (List.mem_of_mem_filter he)
  · exact hunset

/-- **The own environment is passed**: setting `XDG_CACHE_HOME` is not seen by the program in
just the cases in which it cannot be. -/
theorem cacheUnseen_iff (hown : p.passed = none) :
    createCleanedEnv (some appdir) (p.restoreCache moves).envp =
      createCleanedEnv (some appdir) p.environ ↔ CacheUnseen moves p.environ := by
  have hlookup : ∀ es, getenv (createCleanedEnv (some appdir) es) XDG_CACHE_HOME =
      getenv es XDG_CACHE_HOME := getenv_createCleanedEnv (by decide)
  have henvp : p.envp = p.environ := by
    unfold Process.envp
    rw [hown]
    rfl
  unfold CacheUnseen
  rw [Process.restoreCache_eq]
  cases htarget : cacheTarget p.environ with
  | none => simp [henvp]
  | some target =>
    simp only [Option.elim_some, Option.mem_def, Option.some.injEq, forall_eq']
    -- a setting that shows is one that the lookup in what is passed shows
    have hshown : (p.setenv moves XDG_CACHE_HOME target).envp =
        setEntry XDG_CACHE_HOME target p.environ →
        createCleanedEnv (some appdir) (p.setenv moves XDG_CACHE_HOME target).envp =
          createCleanedEnv (some appdir) p.environ →
        getenv p.environ XDG_CACHE_HOME = some target := by
      intro hset h
      rw [← hlookup p.environ, ← h, hset, hlookup, getenv_setEntry_self]
    have hnow : getenv p.environ XDG_CACHE_HOME ≠ none ∨ moves XDG_CACHE_HOME = false →
        (p.setenv moves XDG_CACHE_HOME target).envp =
          setEntry XDG_CACHE_HOME target p.environ := by
      intro h
      unfold Process.setenv Process.envp
      rw [if_neg (by rcases h with h | h <;> simp [h]), hown]
      rfl
    constructor
    · intro h
      by_cases hmoved : getenv p.environ XDG_CACHE_HOME = none ∧ moves XDG_CACHE_HOME = true
      · exact Or.inr hmoved
      · rw [not_and_or, Bool.not_eq_true] at hmoved
        exact Or.inl (hshown (hnow hmoved) h)
    · rintro (h | h)
      · rw [Process.setenv_of_getenv h, henvp]
      · have hold : (p.setenv moves XDG_CACHE_HOME target).envp = p.envp := by
          unfold Process.setenv
          rw [if_pos h]
          rfl
        rw [hold, henvp]

theorem unsetenv_eq_self (h : ∀ e ∈ p.environ, isEntry LD_DEBUG e = false) :
    p.unsetenv LD_DEBUG = p := by
  unfold Process.unsetenv unsetEntry
  rw [List.filter_eq_self.2 fun e he => by simp [h e he]]

/-- Where another array is passed, it is not touched before it is cleaned. -/
theorem execCommon_env_of_passed {es : Entries} (hset : getenv p.environ APPDIR = some appdir)
    (hpath : p.envp.any setsPath = true) (hother : p.passed = some es) :
    (execCommon moves p prog).2 =
      if cleans (some appdir) prog then createCleanedEnv (some appdir) es else es := by
  have henvp : ∀ {q : Process}, q.passed = some es → q.envp = es := by
    intro q h
    unfold Process.envp
    rw [h]
    rfl
  have hunset : (p.unsetenv LD_DEBUG).passed = some es := hother
  rw [execCommon_env hset hpath, henvp (Process.passed_restorePortableDirs hunset), henvp hunset]

/-- Both ways to start a program find the same directories. -/
theorem hasReal_spawnCommon (p : Process) (prog : Program)
    (hset : getenv p.environ APPDIR = some appdir) :
    (∀ name ∈ ownDirs, HasReal p.environ name (spawnCommon p prog)) ↔
      ∀ name ∈ ownDirs, HasReal p.environ name p.envp := by
  have hportable : ∀ name ∈ ownDirs, name ∈ Process.portable := by decide
  refine forall₂_congr fun name hname => ?_
  unfold HasReal
  rw [getenv_spawnCommon hset (hportable name hname)]

/-- An array other than `environ` is executed as it is, or cleaned. -/
theorem same_of_passed {es : Entries} (hset : getenv p.environ APPDIR = some appdir)
    (hpath : p.envp.any setsPath = true) (hpassed : p.passed = some es) :
    (execCommon moves p prog).2 = spawnCommon p prog ↔
      (isExternalProcess (some appdir) prog.path = false → startsOthers prog.filename = true →
        ∀ e ∈ p.envp, dropped appdir e = false) := by
  have hspawn : spawnCommon p prog = if isExternalProcess (some appdir) prog.path then
      createCleanedEnv (some appdir) p.envp else p.envp := by
    unfold spawnCommon
    rw [hset]
  have henvp : p.envp = es := by
    unfold Process.envp
    rw [hpassed]
    rfl
  rw [execCommon_env_of_passed hset hpath hpassed, hspawn, henvp]
  unfold cleans
  cases isExternalProcess (some appdir) prog.path with
  | true => simp
  | false =>
    cases startsOthers prog.filename with
    | false => simp
    | true => simpa using createCleanedEnv_eq_self

/-- With `LD_DEBUG` set the two differ: only a program that is executed loses it. -/
theorem differ_of_debug (hset : getenv p.environ APPDIR = some appdir)
    (hpath : p.envp.any setsPath = true) (hpassed : p.passed = none)
    (hdebug : ¬ ∀ e ∈ p.environ, isEntry LD_DEBUG e = false) :
    (execCommon moves p prog).2 ≠ spawnCommon p prog := by
  have henvp : p.envp = p.environ := by
    unfold Process.envp
    rw [hpassed]
    rfl
  intro h
  refine hdebug fun e he => ?_
  by_contra hentry
  rw [Bool.not_eq_false] at hentry
  have hmem : e ∈ spawnCommon p prog :=
    mem_spawnCommon hset (henvp ▸ he) (dropped_eq_false (by simp) hentry)
  rw [← h] at hmem
  exact Bool.false_ne_true ((debug_execCommon hset hpath hpassed e hmem).symm.trans hentry)

/-- The array of the process itself, without `LD_DEBUG`. -/
theorem same_of_environ (hset : getenv p.environ APPDIR = some appdir)
    (hpath : p.envp.any setsPath = true) (hpassed : p.passed = none)
    (hreal : ∀ name ∈ ownDirs, HasReal p.environ name p.envp)
    (hdebug : ∀ e ∈ p.environ, isEntry LD_DEBUG e = false) :
    (execCommon moves p prog).2 = spawnCommon p prog ↔
      (cleans (some appdir) prog = true → CacheUnseen moves p.environ) ∧
        (isExternalProcess (some appdir) prog.path = false → startsOthers prog.filename = true →
          ∀ e ∈ p.envp, dropped appdir e = false) := by
  have hspawn : spawnCommon p prog = if isExternalProcess (some appdir) prog.path then
      createCleanedEnv (some appdir) p.envp else p.envp := by
    unfold spawnCommon
    rw [hset]
  have henvp : p.envp = p.environ := by
    unfold Process.envp
    rw [hpassed]
    rfl
  have hrestored : ((p.unsetenv LD_DEBUG).restorePortableDirs moves).envp =
      (p.restoreCache moves).envp := by
    rw [henvp] at hreal
    rw [unsetenv_eq_self hdebug, Process.restorePortableDirs_eq hreal]
  have hunseen : createCleanedEnv (some appdir) (p.restoreCache moves).envp =
      createCleanedEnv (some appdir) p.environ ↔ CacheUnseen moves p.environ :=
    cacheUnseen_iff hpassed
  rw [execCommon_env hset hpath, hspawn, hrestored, unsetenv_eq_self hdebug, henvp]
  unfold cleans
  cases isExternalProcess (some appdir) prog.path with
  | true => simpa using hunseen
  | false =>
    cases startsOthers prog.filename with
    | false => simp
    | true =>
      simp only [Bool.or_true, Bool.false_eq_true, if_true, if_false, forall_const]
      constructor
      · intro h
        have hkept : ∀ e ∈ p.environ, dropped appdir e = false := by
          intro e he
          rw [← h] at he
          simpa using (List.mem_filter.1 he).2
        exact ⟨hunseen.1 (h.trans (createCleanedEnv_eq_self.2 hkept).symm), hkept⟩
      · rintro ⟨hcache, hkept⟩
        rw [hunseen.2 hcache, createCleanedEnv_eq_self.2 hkept]

/-- **When a program gets the same environment by either way, with the user's directories in
it**: what is passed has the user's values already; where that is the process's own
environment, there is no `LD_DEBUG` in it, and `XDG_CACHE_HOME` is not changed before it
is cleaned; and where `xdg-open` or `gio-launch-desktop` is judged to be a part of the
AppImage, there is nothing to clean. -/
theorem Process.same_environment_iff (moves : Text → Bool) (p : Process) (prog : Program)
    (hset : getenv p.environ APPDIR = some appdir) (hpath : p.envp.any setsPath = true) :
    SameEnvironment moves p prog ↔
      (∀ name ∈ ownDirs, HasReal p.environ name p.envp) ∧
      (p.passed = none → (∀ e ∈ p.environ, isEntry LD_DEBUG e = false) ∧
        (cleans (some appdir) prog = true → CacheUnseen moves p.environ)) ∧
      (isExternalProcess (some appdir) prog.path = false → startsOthers prog.filename = true →
        ∀ e ∈ p.envp, dropped appdir e = false) := by
  unfold SameEnvironment
  rw [hasReal_spawnCommon p prog hset, and_comm]
  refine and_congr_right fun hreal => ?_
  cases hpassed : p.passed with
  | some es =>
    rw [same_of_passed hset hpath hpassed]
    exact (and_iff_right fun h => absurd h (Option.some_ne_none es)).symm
  | none =>
    rw [forall_prop_of_true rfl, and_assoc]
    by_cases hdebug : ∀ e ∈ p.environ, isEntry LD_DEBUG e = false
    · rw [and_iff_right hdebug]
      exact same_of_environ hset hpath hpassed hreal hdebug
    · exact iff_of_false (differ_of_debug hset hpath hpassed hdebug) fun h => hdebug h.1

/-- A shell gets the same by either way, where the user's directories are those of the
process. -/
theorem Process.same_environment_sh :
    SameEnvironment (fun _ => true) (inApp ["HOME=/home/u".toList, "REAL_HOME=/home/u".toList])
      ⟨"sh".toList, some "/bin/sh".toList⟩ := by
  have hset : getenv (inApp ["HOME=/home/u".toList, "REAL_HOME=/home/u".toList]).environ APPDIR =
      some "/tmp/app".toList := by decide
  exact (Process.same_environment_iff _ _ _ hset (by decide)).2
    ⟨by decide, fun _ => ⟨by decide, fun _ => by decide⟩, fun h => absurd h (by decide)⟩

/-- **A program that gets the AppImage's own home**: what is spawned keeps the portable `HOME`,
what is executed gets the user's; and with another array than `environ`, neither does. -/
theorem portable_home_kept :
    let p := inApp ["HOME=/tmp/app.home".toList, "REAL_HOME=/home/u".toList]
    let sh : Program := ⟨"sh".toList, some "/bin/sh".toList⟩
    let copied : Process := { p with passed := some p.environ }
    ¬ Below "/tmp/app".toList sh.path ∧ ¬ SameEnvironment (fun _ => true) p sh ∧
      ¬ SameEnvironment (fun _ => true) copied sh ∧
      getenv (execCommon (fun _ => true) p sh).2 HOME = some "/home/u".toList ∧
      getenv (spawnCommon p sh) HOME = some "/tmp/app.home".toList ∧
      getenv (execCommon (fun _ => true) copied sh).2 HOME = some "/tmp/app.home".toList := by
  decide +kernel

end Preload
end Sharun
