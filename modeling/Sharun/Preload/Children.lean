/-
# Launching programs from inside the AppImage: `lib/anylinux.c`

The library that is preloaded into the programs of an AppImage wraps the functions that
start a program.  A program outside the AppImage is to get an environment without the
variables that point into it, and with the user's own directories.

`exec_common` and `spawn_common` end by calling the function they wrap.  What matters
about that call is the array it passes as the environment, so this is what they return
here, `exec_common` with the environment of the process itself next to it.  The names
under which the wrappers are called, the arguments of the program and the messages are
left out; allocations succeed.
-/

import Sharun.Preload.Environ

namespace Sharun
namespace Preload

open Sharun.Launch (Text contains basename)

abbrev APPDIR : Text := "APPDIR".toList

abbrev PATH : Text := "PATH".toList

abbrev HOME : Text := "HOME".toList

abbrev XDG_DATA_HOME : Text := "XDG_DATA_HOME".toList

abbrev XDG_CONFIG_HOME : Text := "XDG_CONFIG_HOME".toList

abbrev XDG_CACHE_HOME : Text := "XDG_CACHE_HOME".toList

abbrev HOST_XDG_CACHE_HOME : Text := "HOST_XDG_CACHE_HOME".toList

abbrev USE_HOST_XDG_CACHE_HOME : Text := "USE_HOST_XDG_CACHE_HOME".toList

abbrev LD_DEBUG : Text := "LD_DEBUG".toList

abbrev LD_PRELOAD : Text := "LD_PRELOAD".toList

/-- `REAL_HOME` for `HOME`, and so on. -/
abbrev real (name : Text) : Text := "REAL_".toList ++ name

/-- `vars_to_unset`. -/
def varsToUnset : List Text :=
  ["ALSA_CONFIG_PATH", "BABL_PATH", "__EGL_VENDOR_LIBRARY_DIRS", "__EGL_VENDOR_LIBRARY_FILENAMES",
    "FOLKS_BACKEND_PATH", "FREI0R_PATH", "GBM_BACKENDS_PATH", "GCONV_PATH",
    "GDK_PIXBUF_MODULEDIR", "GDK_PIXBUF_MODULE_FILE", "GEGL_PATH", "GIO_MODULE_DIR",
    "GI_TYPELIB_PATH", "GSETTINGS_SCHEMA_DIR", "GS_LIB", "GST_PLUGIN_PATH", "GST_PLUGIN_SCANNER",
    "GST_PLUGIN_SYSTEM_PATH", "GST_PLUGIN_SYSTEM_PATH_1_0", "GTK_DATA_PREFIX", "GTK_EXE_PREFIX",
    "GTK_IM_MODULE_FILE", "GTK_PATH", "IMLIB2_FILTER_PATH", "IMLIB2_LOADER_PATH",
    "JACK_DRIVER_DIR", "LADSPA_PATH", "LD_LIBRARY_PATH", "LD_PRELOAD", "LIBDECOR_PLUGIN_DIR",
    "LIBGL_DRIVERS_PATH", "LIBHEIF_PLUGIN_PATH", "LIBVA_DRIVERS_PATH", "LOCPATH", "MAGIC",
    "MAGICK_CODER_FILTER_PATH", "MAGICK_CODER_MODULE_PATH", "MAGICK_CONFIGURE_PATH",
    "MAGICK_HOME", "MLT_PRESETS_PATH", "MLT_PROFILES_PATH", "MLT_REPOSITORY", "OPENSSL_CONF",
    "PATH_MAPPING", "PATH_MAPPING_EXCLUDE", "PERLLIB", "PEAS_PLUGIN_LOADERS_DIR",
    "PIPEWIRE_CONFIG_DIR", "PIPEWIRE_MODULE_DIR", "PYTHONHOME", "QT_PLUGIN_PATH",
    "SPA_PLUGIN_DIR", "TCL_LIBRARY", "TEXTDOMAINDIR", "TK_LIBRARY", "VK_DRIVER_FILES",
    "WEBKIT_EXEC_PATH", "WEBKIT_INJECTED_BUNDLE_PATH", "QT_XKB_CONFIG_ROOT", "XKB_CONFIG_ROOT",
    "XTABLES_LIBDIR"].map String.toList

/-! ### What is cleaned -/

/-- The loop of `create_cleaned_env` over `vars_to_unset`: whether an entry is left out. -/
def dropped (appdir e : Text) : Bool :=
  varsToUnset.any fun var => (valueIn var e).any fun value =>
    contains value appdir || (var = LD_PRELOAD && contains value "anylinux.so".toList)

/-- `create_cleaned_env(original_env)`, with what `getenv("APPDIR")` returns. -/
def createCleanedEnv (appdir : Option Text) (originalEnv : Entries) : Entries :=
  match appdir with
  | none => originalEnv
  | some appdir => originalEnv.filter fun e => !dropped appdir e

/-- `is_external_process(filename)`: the first characters of the two paths, as many as the
shorter one has, are compared. -/
def isExternalProcess (appdir : Option Text) (filename : Text) : Bool :=
  match appdir with
  | none => false
  | some appdir =>
    let n := min filename.length appdir.length
    filename.take n ≠ appdir.take n

/-! ### The process -/

/-- The process that launches a program, and the environment it passes. -/
structure Process where
  /-- `environ`. -/
  environ : Entries
  /-- The array that was passed, where it is not the one of `environ`. -/
  passed : Option Entries
  savedAppdir : Text
  savedPath : Text
  deriving DecidableEq

/-- The program that is to be launched, and what `canonicalize_file_name` makes of its
name. -/
structure Program where
  filename : Text
  canonical : Option Text
  deriving DecidableEq

/-- `path_to_check`. -/
def Program.path (prog : Program) : Text := prog.canonical.getD prog.filename

namespace Process

/-- What is found where `envp` points. -/
def envp (p : Process) : Entries := p.passed.getD p.environ

/-- `setenv(name, value, 1)`.  The array gets a new place when a name is appended and there
is no room for it (`moves`); who still points to the old place then sees the old entries. -/
def setenv (moves : Text → Bool) (p : Process) (name value : Text) : Process :=
  { p with
    environ := setEntry name value p.environ
    passed := if getenv p.environ name = none ∧ moves name = true then some p.envp else p.passed }

/-- `unsetenv(name)`. -/
def unsetenv (p : Process) (name : Text) : Process :=
  { p with environ := unsetEntry name p.environ }

/-- One step of `restore_portable_dirs`: a variable is set to the value of another one,
where that is set and not empty. -/
def restore (moves : Text → Bool) (p : Process) (name source : Text) : Process :=
  match (getenv p.environ source).filter (· ≠ []) with
  | none => p
  | some value => p.setenv moves name value

/-- The part of `restore_portable_dirs` that is about `XDG_CACHE_HOME`. -/
def restoreCache (moves : Text → Bool) (p : Process) : Process :=
  let p := p.restore moves XDG_CACHE_HOME (real XDG_CACHE_HOME)
  if getenv p.environ USE_HOST_XDG_CACHE_HOME = some "1".toList then p
  else p.restore moves XDG_CACHE_HOME HOST_XDG_CACHE_HOME

/-- `restore_portable_dirs()`. -/
def restorePortableDirs (moves : Text → Bool) (p : Process) : Process :=
  let p := p.restore moves XDG_DATA_HOME (real XDG_DATA_HOME)
  let p := p.restore moves XDG_CONFIG_HOME (real XDG_CONFIG_HOME)
  let p := p.restoreCache moves
  p.restore moves HOME (real HOME)

/-- The `PATH` of a program that would have none. -/
def defaultPath (p : Process) : Text :=
  p.savedAppdir ++ "/bin:".toList ++
    if p.savedPath = [] then "/usr/bin:/bin".toList else p.savedPath

end Process

/-- The programs of the AppImage that start programs outside of it. -/
def startsOthers (filename : Text) : Bool :=
  basename filename = "xdg-open".toList || basename filename = "gio-launch-desktop".toList

/-- Whether an entry sets `PATH` to something. -/
def setsPath (e : Text) : Bool := isEntry PATH e && e ≠ entry PATH []

/-- The end of `exec_common`, by which a program gets a `PATH` in any case. -/
def ensurePath (moves : Text → Bool) (p : Process) (env : Entries) : Process × Entries :=
  if p.savedAppdir ≠ [] ∧ env.any setsPath = false then
    (p.setenv moves PATH p.defaultPath, env ++ [entry PATH p.defaultPath])
  else (p, env)

/-- Whether `exec_common` cleans the environment: for programs outside the AppImage, and for
those that start such programs. -/
def cleans (appdir : Option Text) (prog : Program) : Bool :=
  isExternalProcess appdir prog.path || startsOthers prog.filename

/-- `exec_common`: what is left of the process, and the environment it executes the program
with. -/
def execCommon (moves : Text → Bool) (p : Process) (prog : Program) : Process × Entries :=
  let p := p.unsetenv LD_DEBUG
  if cleans (getenv p.environ APPDIR) prog then
    let p := p.restorePortableDirs moves
    ensurePath moves p (createCleanedEnv (getenv p.environ APPDIR) p.envp)
  else ensurePath moves p p.envp

/-- `spawn_common`: the environment the program is spawned with. -/
def spawnCommon (p : Process) (prog : Program) : Entries :=
  if isExternalProcess (getenv p.environ APPDIR) prog.path then
    createCleanedEnv (getenv p.environ APPDIR) p.envp
  else p.envp

/-! ### What the functions do -/

variable {moves : Text → Bool} {p : Process} {name source value : Text} {keep : Text → Bool}

theorem isExternalProcess_eq_false {appdir path : Text} :
    isExternalProcess (some appdir) path = false ↔ path <+: appdir ∨ appdir <+: path := by
  have htake : ∀ l l' : Text, l.take l.length = l'.take l.length ↔ l <+: l' := by
    intro l l'
    rw [List.take_length, List.prefix_iff_eq_take]
  unfold isExternalProcess
  simp only [ne_eq, decide_not, Bool.not_eq_false', decide_eq_true_iff]
  rcases Nat.le_total path.length appdir.length with hle | hle
  · rw [Nat.min_eq_left hle, htake path appdir]
    constructor
    · exact Or.inl
    · rintro (h | h)
      · exact h
      · obtain rfl := h.eq_of_length_le hle
        exact List.prefix_rfl
  · rw [Nat.min_eq_right hle, eq_comm, htake appdir path]
    constructor
    · exact Or.inr
    · rintro (h | h)
      · obtain rfl := h.eq_of_length_le hle
        exact List.prefix_rfl
      · exact h

namespace Process

@[simp] theorem setenv_environ (moves : Text → Bool) (p : Process) (name value : Text) :
    (p.setenv moves name value).environ = setEntry name value p.environ := rfl

/-- What is passed is the array that was passed, or the entries of the process as they were or
as they are now. -/
theorem envp_setenv (moves : Text → Bool) (p : Process) (name value : Text) :
    (p.setenv moves name value).envp = p.envp ∨
      p.passed = none ∧ (p.setenv moves name value).envp = setEntry name value p.envp := by
  unfold setenv envp
  cases hpassed : p.passed with
  | some es =>
    left
    split_ifs <;> rfl
  | none =>
    split_ifs
    · exact Or.inl rfl
    · exact Or.inr ⟨rfl, rfl⟩

/-- Setting a variable is not seen by a filter that leaves no entry of it. -/
theorem filter_envp_setenv (hkeep : ∀ e, isEntry name e → keep e = false) :
    (p.setenv moves name value).envp.filter keep = p.envp.filter keep := by
  rcases envp_setenv moves p name value with h | ⟨-, h⟩
  · rw [h]
  · rw [h, filter_setEntry hkeep]

theorem setenv_of_getenv (h : getenv p.environ name = some value) :
    p.setenv moves name value = p := by
  unfold setenv
  rw [setEntry_of_getenv h, if_neg (by simp [h])]

theorem setenv_setenv (value value' : Text) :
    (p.setenv moves name value).setenv moves name value' = p.setenv moves name value' := by
  have hset := getenv_setEntry_self name value p.environ
  unfold setenv
  simp only [hset, setEntry_setEntry, reduceCtorEq, false_and, if_false]

/-- Unsetting a variable is not seen by a filter that leaves no entry of it, nor where another
array is passed. -/
theorem filter_envp_unsetenv (hkeep : p.passed = none → ∀ e, isEntry name e → keep e = false) :
    (p.unsetenv name).envp.filter keep = p.envp.filter keep := by
  unfold unsetenv envp
  cases hpassed : p.passed with
  | some es => rfl
  | none =>
    show (unsetEntry name p.environ).filter keep = p.environ.filter keep
    unfold unsetEntry
    rw [List.filter_filter]
    refine List.filter_congr fun e _ => ?_
    cases he : isEntry name e with
    | false => rw [Bool.not_false, Bool.and_true]
    | true => rw [hkeep hpassed e he, Bool.false_and]

/-- The variables `restore_portable_dirs` sets. -/
def portable : List Text := [HOME, XDG_DATA_HOME, XDG_CONFIG_HOME, XDG_CACHE_HOME]

theorem restore_of_preserved {P : Process → Prop} (hname : name ∈ portable)
    (hset : ∀ p, ∀ name ∈ portable, ∀ value, P p → P (p.setenv moves name value)) (hp : P p) :
    P (p.restore moves name source) := by
  unfold restore
  split
  · exact hp
  · exact hset p name hname _ hp

theorem restoreCache_of_preserved {P : Process → Prop}
    (hset : ∀ p, ∀ name ∈ portable, ∀ value, P p → P (p.setenv moves name value)) (hp : P p) :
    P (p.restoreCache moves) := by
  have hcache : P (p.restore moves XDG_CACHE_HOME (real XDG_CACHE_HOME)) :=
    restore_of_preserved (by decide) hset hp
  unfold restoreCache
  dsimp only
  split_ifs
  · exact hcache
  · exact restore_of_preserved (by decide) hset hcache

/-- **What setting the variables keeps, restoring them keeps.** -/
theorem restorePortableDirs_of_preserved {P : Process → Prop}
    (hset : ∀ p, ∀ name ∈ portable, ∀ value, P p → P (p.setenv moves name value)) (hp : P p) :
    P (p.restorePortableDirs moves) := by
  have hdata : P (p.restore moves XDG_DATA_HOME (real XDG_DATA_HOME)) :=
    restore_of_preserved (by decide) hset hp
  have hconfig : P ((p.restore moves XDG_DATA_HOME (real XDG_DATA_HOME)).restore moves
      XDG_CONFIG_HOME (real XDG_CONFIG_HOME)) := restore_of_preserved (by decide) hset hdata
  exact restore_of_preserved (by decide) hset (restoreCache_of_preserved hset hconfig)

theorem getenv_restorePortableDirs (hname : '=' ∉ name) (hother : name ∉ portable) :
    getenv (p.restorePortableDirs moves).environ name = getenv p.environ name := by
  refine restorePortableDirs_of_preserved (P := fun q => getenv q.environ name = _) ?_ rfl
  intro q name' hname' value hq
  have hwf : ∀ name ∈ portable, '=' ∉ name := by decide
  rw [setenv_environ,
    getenv_setEntry_of_ne (hwf name' hname') hname (ne_of_mem_of_not_mem hname' hother), hq]

theorem filter_restorePortableDirs
    (hkeep : ∀ e, ∀ name ∈ portable, isEntry name e → keep e = false) :
    (p.restorePortableDirs moves).envp.filter keep = p.envp.filter keep := by
  refine restorePortableDirs_of_preserved (P := fun q => q.envp.filter keep = _) ?_ rfl
  intro q name hname value hq
  rw [filter_envp_setenv fun e => hkeep e name hname, hq]

/-- The entries of one variable are not touched when another one is unset. -/
theorem entries_unsetenv (hname : '=' ∉ name) (hname' : '=' ∉ name') (hne : name ≠ name') :
    (p.unsetenv name').envp.filter (isEntry name) = p.envp.filter (isEntry name) :=
  filter_envp_unsetenv fun _ _ he => Bool.eq_false_iff.2 fun h =>
    hne (isEntry_unique hname hname' h he)

/-- The entries of a variable that is not restored are not touched. -/
theorem entries_restorePortableDirs (hname : '=' ∉ name) (hother : name ∉ portable) :
    (p.restorePortableDirs moves).envp.filter (isEntry name) = p.envp.filter (isEntry name) := by
  have hwf : ∀ name ∈ portable, '=' ∉ name := by decide
  exact filter_restorePortableDirs fun _ name' hname' he => Bool.eq_false_iff.2 fun h =>
    ne_of_mem_of_not_mem hname' hother (isEntry_unique (hwf name' hname') hname he h)

end Process

/-- `APPDIR` is what it was all the way through `exec_common`. -/
theorem execCommon_eq {appdir : Text} {prog : Program}
    (hset : getenv p.environ APPDIR = some appdir) :
    execCommon moves p prog =
      if cleans (some appdir) prog then
        ensurePath moves ((p.unsetenv LD_DEBUG).restorePortableDirs moves) (createCleanedEnv
          (some appdir) ((p.unsetenv LD_DEBUG).restorePortableDirs moves).envp)
      else ensurePath moves (p.unsetenv LD_DEBUG) (p.unsetenv LD_DEBUG).envp := by
  have hunset : getenv (p.unsetenv LD_DEBUG).environ APPDIR = some appdir := by
    rw [← hset]
    exact getenv_unsetEntry_of_ne (by decide) (by decide) (by decide) p.environ
  have hrestored : getenv ((p.unsetenv LD_DEBUG).restorePortableDirs moves).environ APPDIR =
      some appdir := by
    rw [Process.getenv_restorePortableDirs (by decide) (by decide), hunset]
  unfold execCommon
  simp only [hunset, hrestored]

end Preload
end Sharun
