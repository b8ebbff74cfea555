/-
# Calls relative to a directory descriptor

The functions of `lib/path-mapping.c` that end in `at` are told a directory beside a path.
`absolute_from_dirfd` puts a relative path behind the name of this directory, as the library's
own `readlink` tells it, and what comes out is an absolute path for `fix_path`.

A process with open directories finds all of them where their names say (`run_names_at`): the
name of a directory is the location its path has led to by its text when it was opened, and
calls relative to it start at this name.  Other than a plain call, such a call may lead out of
a directory that is kept elsewhere, for the kernel gets an absolute path in any case
(`findAt_ok`).
-/

import Sharun.PathMap.Process

namespace Sharun
namespace PathMap

open Sharun.Basis
open Sharun.Launch (Text)

abbrev Fd := Fin 0x80000000

/-- `"/proc/self/fd/%d"`. -/
def fdPath (fd : Fd) : Text := "/proc/self/fd/".toList ++ Nat.toDigits 10 fd

def fdLoc (fd : Fd) : List Text :=
  ["proc".toList, "self".toList, "fd".toList, Nat.toDigits 10 fd]

/-- What the kernel knows of a process: its current directory, and the directories it has
open. -/
structure Process where
  cwd : List Text
  dirs : List (Fd × List Text)

/-- The directory a call is relative to: `none` is `AT_FDCWD`. -/
abbrev DirFd := Option Fd

variable (L : Layer) (T : FileTree (List Text) Text)

namespace Process

def dirOf (p : Process) (fd : Fd) : Option (List Text) :=
  (p.dirs.find? fun d => d.1 = fd).map Prod.snd

def base (p : Process) : DirFd → Option (List Text)
  | none => some p.cwd
  | some fd => p.dirOf fd

/-- The symbolic links of the kernel are those of the process to its directories. -/
def link (p : Process) (path : Text) : Option Text :=
  if path = PROC_SELF_CWD then some (pathOf p.cwd)
  else (p.dirs.find? fun d => fdPath d.1 = path).map fun d => pathOf d.2

/-- The current directory changes, if there is a directory to go to. -/
def entered (p : Process) (dir : Option (List Text)) : Process := { p with cwd := dir.getD p.cwd }

def closed (p : Process) (fd : Fd) : Process :=
  { p with dirs := p.dirs.filter fun d => d.1 ≠ fd }

/-- A directory is opened, if there is one. -/
def opened (p : Process) (fd : Fd) : Option (List Text) → Process
  | none => p
  | some dir => { p with dirs := (fd, dir) :: (p.closed fd).dirs }

/-- The names of the directories. -/
def names (p : Process) : Process :=
  ⟨L.nameOf p.cwd, p.dirs.map fun d => (d.1, L.nameOf d.2)⟩

end Process

def DirFd.path : DirFd → Text
  | none => PROC_SELF_CWD
  | some fd => fdPath fd

/-- `absolute_from_dirfd(dirfd, path, buffer, buffer_size)`. -/
def absoluteFromDirfd (p : Process) (dirfd : DirFd) (path : Text) (size : ℕ) : Safe Text :=
  if path.head? = some '/' then some path
  else (readlink L p.link dirfd.path (MAX_PATH - 1)).map fun
    | none => path
    | some [] => path
    | some base => if size < base.length + 1 + path.length + 1 then path else joinBase base path

/-- The object a function finds under a path. -/
def find (functionName : Text) (p : Process) (path : Text) : Safe (Option (List Text)) :=
  (fixPath L p.link functionName path).map fun fixed => lookup T p.cwd (fixed.getD path)

/-- The object a function finds under a path relative to a directory. -/
def findAt (functionName : Text) (p : Process) (dirfd : DirFd) (path : Text) :
    Safe (Option (List Text)) :=
  (absoluteFromDirfd L p dirfd path MAX_PATH).bind fun abs =>
    (fixPath L p.link functionName abs).map fun fixed =>
      if (fixed.getD abs).head? = some '/' then lookup T [] (fixed.getD abs)
      else (p.base dirfd).bind fun dir => lookup T dir (fixed.getD abs)

/-- What a process does to its directories. -/
inductive Action
  | chdir (path : Text)
  | fchdir (fd : Fd)
  | opens (fd : Fd) (path : Text)
  | opensAt (fd : Fd) (dirfd : DirFd) (path : Text)
  | closes (fd : Fd)

/-- The directory that is found, if it is one. -/
def directory (found : Safe (Option (List Text))) : Option (List Text) :=
  found.join.filter fun x => T.isDirectory x

/-- The directories of a process after a call. -/
def act (p : Process) : Action → Process
  | .chdir path => p.entered (directory T (find L T "chdir".toList p path))
  | .fchdir fd => p.entered (p.dirOf fd)
  | .opens fd path => p.opened fd (directory T (find L T "open".toList p path))
  | .opensAt fd dirfd path => p.opened fd (directory T (findAt L T "openat".toList p dirfd path))
  | .closes fd => p.closed fd

/-- The location a path leads to by its text, if there is a directory at its place. -/
def namedDirectory (name : List Text) (path : Text) : Option (List Text) :=
  (some (followPath name path)).filter fun loc => T.isDirectory (L.place loc)

/-- The names of the directories after a call, where directories are where their names say. -/
def actName (n : Process) : Action → Process
  | .chdir path => n.entered (namedDirectory L T n.cwd path)
  | .fchdir fd => n.entered (n.dirOf fd)
  | .opens fd path => n.opened fd (namedDirectory L T n.cwd path)
  | .opensAt fd dirfd path =>
    n.opened fd ((n.base dirfd).bind fun name => namedDirectory L T name path)
  | .closes fd => n.closed fd

/-! ### Links to directories -/

theorem proper_toDigits (fd : Fd) : Proper (Nat.toDigits 10 fd) := by
  have hdigit : ∀ c ∈ Nat.toDigits 10 fd, c.isDigit = true :=
    fun c hc => Nat.isDigit_of_mem_toDigits (by omega) (by omega) hc
  refine ⟨Nat.toDigits_ne_nil, fun hslash => ?_, fun hdot => ?_, fun hdots => ?_⟩
  · exact absurd (hdigit _ hslash) (by decide)
  · exact absurd (hdigit '.' (by rw [hdot]; simp)) (by decide)
  · exact absurd (hdigit '.' (by rw [hdots]; simp)) (by decide)

theorem proper_fdLoc (fd : Fd) : ∀ name ∈ fdLoc fd, Proper name := by
  have hfixed : ∀ name ∈ ["proc".toList, "self".toList, "fd".toList], Proper name := by decide
  rintro name hname
  rcases List.mem_append.1 (show name ∈ ["proc".toList, "self".toList, "fd".toList] ++
    [Nat.toDigits 10 fd] from hname) with hname | hname
  · exact hfixed name hname
  · rw [List.mem_singleton.1 hname]
    exact proper_toDigits fd

theorem fdPath_eq (fd : Fd) : fdPath fd = pathOf (fdLoc fd) := by
  unfold fdPath pathOf fdLoc render
  simp

theorem fdPath_injective : Function.Injective fdPath := by
  intro fd fd' h
  have hdigits : Nat.toDigits 10 fd = Nat.toDigits 10 fd' := List.append_cancel_left h
  have hval : (fd : ℕ) = fd' := by
    rw [← Nat.ofDigitChars_ten_toDigits (n := fd), hdigits, Nat.ofDigitChars_ten_toDigits]
  exact Fin.ext hval

theorem fdPath_ne (fd : Fd) : fdPath fd ≠ PROC_SELF_CWD := by
  intro h
  have htake : (fdPath fd).take 12 = "/proc/self/f".toList := by
    unfold fdPath
    rw [List.take_append_of_le_length (by decide)]
    decide
  rw [h] at htake
  exact absurd htake (by decide)

/-- The location of the link to a directory. -/
def DirFd.loc : DirFd → List Text
  | none => ["proc".toList, "self".toList, "cwd".toList]
  | some fd => fdLoc fd

theorem DirFd.proper_loc (dirfd : DirFd) : ∀ name ∈ dirfd.loc, Proper name := by
  cases dirfd with
  | none => exact (by decide : ∀ name ∈ ["proc".toList, "self".toList, "cwd".toList], Proper name)
  | some fd => exact proper_fdLoc fd

theorem DirFd.loc_ne_nil (dirfd : DirFd) : dirfd.loc ≠ [] := by
  cases dirfd <;> exact List.cons_ne_nil _ _

theorem DirFd.path_eq (dirfd : DirFd) : dirfd.path = pathOf dirfd.loc := by
  cases dirfd with
  | none => rfl
  | some fd => exact fdPath_eq fd

theorem DirFd.length_path_le (dirfd : DirFd) : dirfd.path.length ≤ 24 := by
  cases dirfd with
  | none => exact (by decide : PROC_SELF_CWD.length ≤ 24)
  | some fd =>
    have hdigits : (Nat.toDigits 10 fd).length ≤ 10 :=
      (Nat.length_toDigits_le_iff (by omega) (by omega)).2 (by omega)
    have hfixed : "/proc/self/fd/".toList.length = 14 := by decide
    unfold path fdPath
    rw [List.length_append]
    omega

variable {L T} {p : Process} {dirfd : DirFd} {dir : List Text} {path : Text}

theorem Process.link_path (h : p.base dirfd = some dir) :
    p.link dirfd.path = some (pathOf dir) := by
  cases dirfd with
  | none =>
    obtain rfl := Option.some.inj h
    exact if_pos rfl
  | some fd =>
    have hsame : (fun d : Fd × List Text => decide (fdPath d.1 = fdPath fd)) =
        fun d => decide (d.1 = fd) := by
      funext d
      exact decide_eq_decide.2 fdPath_injective.eq_iff
    unfold link DirFd.path
    rw [if_neg (fdPath_ne fd), hsame]
    unfold base dirOf at h
    obtain ⟨d, hd, rfl⟩ := Option.map_eq_some_iff.1 h
    rw [hd]
    rfl

/-! ### What is told of a directory -/

variable (L T) in
/-- No mapping is above the links of a process to its directories. -/
def Layer.Free : Prop := ∀ m ∈ L.config.mappings, ∀ dirfd : DirFd, ¬m.fromLoc <+: dirfd.loc

variable (L) in
/-- The path that is handed on. -/
def behind (dir : List Text) (path : Text) : Text :=
  if path.head? = some '/' then path else joinBase (pathOf (L.nameOf dir)) path

variable (L T) in
/-- What a call relative to a directory has to heed. -/
structure OkAt (dir : List Text) (path : Text) : Prop where
  fits : (joinBase (pathOf (L.nameOf dir)) path).length + 1 < MAX_PATH
  fitsPlace : (render (L.place (followPath (L.nameOf dir) path))).length + 2 < MAX_PATH
  /-- No place is named but by the name of what is kept there. -/
  named : ¬∃ d ∈ table L.config.mappings, d.2 <+: followPath (L.nameOf dir) path
  /-- A directory that is where its name says is found by the path. -/
  found : T.isDirectory (followPath (L.nameOf dir) path) = true →
    L.place (followPath (L.nameOf dir) path) = followPath (L.nameOf dir) path →
      (lookup T [] (behind L dir path)).isSome = true

theorem head_behind (dir : List Text) (path : Text) : (behind L dir path).head? = some '/' := by
  unfold behind
  split_ifs with habsolute
  · exact habsolute
  · exact head_joinBase path

section Plain

variable (hL : L.Plain)

include hL

/-- A name is told as it is. -/
theorem pmReverseReadlinkInplace_name (hdir : Settled L T dir) :
    pmReverseReadlinkInplace L (pathOf (L.nameOf dir)) (MAX_PATH - 1) =
      some (pathOf (L.nameOf dir)) := by
  have hfits := hdir.fitsName
  have hname : L.nameOf (L.nameOf dir) = L.nameOf dir :=
    pathOf_of_not_kept (not_kept_nameOf hL dir)
  rw [pmReverseReadlinkInplace, List.take_of_length_le (by omega),
    applyReverse_pathOf hL (proper_nameOf hdir.proper) (by rwa [hname]),
    if_neg (not_kept_nameOf hL dir)]

/-- A place is told by its name: what is excluded is where its name says. -/
theorem pmReverseReadlinkInplace_place (hdir : Settled L T dir) :
    pmReverseReadlinkInplace L (pathOf dir) (MAX_PATH - 1) = some (pathOf (L.nameOf dir)) := by
  have hlength := (normalized_pathOf hdir.proper).length_le
  have hfits := hdir.fits
  have hfitsName := hdir.fitsName
  rw [pmReverseReadlinkInplace, List.take_of_length_le (by omega),
    applyReverse_pathOf hL hdir.proper hfitsName]
  by_cases hkept : ∃ e ∈ table L.config.mappings, e.2 <+: dir
  · have hexcluded : ¬L.isExcluded (pathOf (L.nameOf dir)) = true := by
      intro hexcluded
      have hplace := hdir.place_name
      rw [Layer.place, if_pos ((isExcluded_iff hL
        (normalized_pathOf (proper_nameOf hdir.proper))).1 hexcluded)] at hplace
      have hnot := not_kept_nameOf hL dir
      rw [hplace] at hnot
      exact hnot hkept
    rw [if_pos hkept]
    dsimp only
    rw [if_neg hexcluded, List.take_of_length_le (by omega)]
  · rw [if_neg hkept, pathOf_of_not_kept hkept]

/-- **A link to a directory is told by the name of the directory.** -/
theorem reverseReadlink_plain (hdir : Settled L T dir) (path : Text) :
    reverseReadlink L path (pathOf dir) (MAX_PATH - 1) = some (pathOf (L.nameOf dir)) := by
  have hlength := (normalized_pathOf hdir.proper).length_le
  have hfits := hdir.fits
  have hfitsName := hdir.fitsName
  have hvirtual : ∃ buf, pmVirtualizeProcCwdReadlinkResult L path (pathOf dir) (MAX_PATH - 1) =
      some buf ∧ (buf = pathOf dir ∨ buf = pathOf (L.nameOf dir)) := by
    rw [pmVirtualizeProcCwdReadlinkResult, List.take_of_length_le (by omega),
      applyReverse_pathOf hL hdir.proper hfitsName]
    split_ifs with _ hkept
    · exact ⟨_, rfl, .inl rfl⟩
    · refine ⟨_, rfl, .inr ?_⟩
      rw [List.take_of_length_le (by omega)]
    · exact ⟨_, rfl, .inl rfl⟩
  obtain ⟨buf, hbuf, rfl | rfl⟩ := hvirtual
  · rw [reverseReadlink, hL.reverseEnabled, if_pos rfl, hbuf, Option.bind_some,
      if_neg (not_not.2 rfl), pmReverseReadlinkInplace_place hL hdir]
  · rw [reverseReadlink, hL.reverseEnabled, if_pos rfl, hbuf, Option.bind_some,
      pmReverseReadlinkInplace_name hL hdir, ite_self]

variable (hfree : L.Free)

include hfree

theorem readlink_dirfd (hbase : p.base dirfd = some dir) (hdir : Settled L T dir) :
    readlink L p.link dirfd.path (MAX_PATH - 1) = some (some (pathOf (L.nameOf dir))) := by
  have hpath := normalized_pathOf dirfd.proper_loc
  rw [← dirfd.path_eq] at hpath
  have hshort := dirfd.length_path_le
  have hplace : L.place dirfd.loc = dirfd.loc := by
    have hforward : forward (table L.config.mappings) dirfd.loc = dirfd.loc := by
      refine forward_of_none (deepest_eq_none_iff.2 ?_)
      intro e he
      obtain ⟨m, hm, rfl⟩ := List.mem_map.1 he
      exact hfree m hm dirfd
    rw [Layer.place, hforward, ite_self]
  have hmax : (24 : ℕ) + 2 < MAX_PATH := by decide
  have hrender : (render dirfd.loc).length ≤ 24 := by
    rw [← pathOf_of_ne_nil dirfd.loc_ne_nil, ← dirfd.path_eq]
    exact dirfd.length_path_le
  obtain ⟨_, -, hfix⟩ := fixPath_absolute hL p.link "readlink".toList hpath.head? (by omega)
    (by rw [hpath.lexical, hplace]; exact (Nat.add_le_add_right hrender 2).trans_lt hmax)
  rw [hpath.lexical, if_pos hplace] at hfix
  have htake : (pathOf dir).take (MAX_PATH - 1) = pathOf dir := by
    have hle := (normalized_pathOf hdir.proper).length_le
    have hfits := hdir.fits
    exact List.take_of_length_le (by omega)
  rw [readlink_eq_fixPath, hfix, Option.bind_some, Option.getD_none, p.link_path hbase]
  dsimp only
  rw [htake, reverseReadlink_plain hL hdir, Option.map_some]

/-- **What is handed on is behind the name of the directory.** -/
theorem absoluteFromDirfd_plain (hbase : p.base dirfd = some dir) (hdir : Settled L T dir)
    (hfits : (joinBase (pathOf (L.nameOf dir)) path).length + 1 < MAX_PATH) :
    absoluteFromDirfd L p dirfd path MAX_PATH = some (behind L dir path) := by
  unfold absoluteFromDirfd behind
  by_cases habsolute : path.head? = some '/'
  · rw [if_pos habsolute, if_pos habsolute]
  · have hroom : ¬MAX_PATH < (pathOf (L.nameOf dir)).length + 1 + path.length + 1 := by
      have hle : (pathOf (L.nameOf dir)).length + path.length ≤
          (joinBase (pathOf (L.nameOf dir)) path).length := by
        unfold joinBase
        split_ifs <;> simp only [List.length_append, List.length_singleton] <;> omega
      omega
    rw [if_neg habsolute, if_neg habsolute, readlink_dirfd hL hfree hbase hdir, Option.map_some]
    obtain ⟨rest, hname⟩ := exists_pathOf (L.nameOf dir)
    rw [hname] at hroom ⊢
    exact congrArg some (if_neg hroom)

/-- **A call relative to a directory.**  What it finds is at the place its path means, and when
there is a directory it is found. -/
theorem findAt_ok (functionName : Text) (hbase : p.base dirfd = some dir)
    (hdir : Settled L T dir) (hT : T.Located) (h : OkAt L T dir path) :
    ∃ found, findAt L T functionName p dirfd path = some found ∧
      (∀ x, found = some x → x = L.place (followPath (L.nameOf dir) path)) ∧
      (T.isDirectory (L.place (followPath (L.nameOf dir) path)) = true →
        found = some (L.place (followPath (L.nameOf dir) path))) := by
  have hfollow : lexical [] (components (behind L dir path)) =
      followPath (L.nameOf dir) path := by
    unfold behind followPath
    split_ifs
    · rfl
    · exact lexical_joinBase (proper_nameOf hdir.proper) path
  have hlength : (behind L dir path).length < MAX_PATH := by
    have hfits := h.fits
    unfold behind
    split_ifs
    · unfold joinBase at hfits
      rw [List.length_append] at hfits
      omega
    · omega
  obtain ⟨text, htext, hfix⟩ := fixPath_absolute hL p.link functionName
    (head_behind dir path) hlength (by rw [hfollow]; exact h.fitsPlace)
  rw [hfollow] at htext hfix
  rw [findAt, absoluteFromDirfd_plain hL hfree hbase hdir h.fits, Option.bind_some, hfix,
    Option.map_some]
  refine ⟨_, rfl, ?_⟩
  by_cases hplace : L.place (followPath (L.nameOf dir) path) = followPath (L.nameOf dir) path
  · rw [if_pos hplace, Option.getD_none, if_pos (head_behind dir path)]
    have hwhere : ∀ x, lookup T [] (behind L dir path) = some x →
        x = followPath (L.nameOf dir) path := by
      intro x hx
      rw [eq_of_lookup hT hx, followPath, if_pos (head_behind dir path), hfollow]
    refine ⟨fun x hx => (hwhere x hx).trans hplace.symm, fun hdirectory => ?_⟩
    rw [hplace] at hdirectory ⊢
    obtain ⟨x, hx⟩ := Option.isSome_iff_exists.1 (h.found hdirectory hplace)
    rw [hx, hwhere x hx]
  · rw [if_neg hplace, Option.getD_some, if_pos htext.head?]
    refine ⟨fun x hx => ?_, lookup_normalized hT htext⟩
    rw [eq_of_lookup hT hx, followPath_normalized htext]

end Plain

/-! ### Runs -/

namespace Process

theorem names_entered (p : Process) (dir : Option (List Text)) :
    (p.entered dir).names L = (p.names L).entered (dir.map L.nameOf) := by
  cases dir <;> rfl

theorem names_closed (p : Process) (fd : Fd) : (p.closed fd).names L = (p.names L).closed fd := by
  unfold names closed
  rw [List.filter_map]
  rfl

theorem names_opened (p : Process) (fd : Fd) (dir : Option (List Text)) :
    (p.opened fd dir).names L = (p.names L).opened fd (dir.map L.nameOf) := by
  cases dir with
  | none => rfl
  | some dir =>
    have hclosed := congrArg dirs (names_closed (L := L) p fd)
    unfold opened
    rw [Option.map_some, ← hclosed]
    rfl

theorem dirOf_names (p : Process) (fd : Fd) :
    (p.names L).dirOf fd = (p.dirOf fd).map L.nameOf := by
  unfold dirOf names
  rw [List.find?_map, Option.map_map, Option.map_map]
  rfl

theorem base_names (p : Process) (dirfd : DirFd) :
    (p.names L).base dirfd = (p.base dirfd).map L.nameOf := by
  cases dirfd with
  | none => rfl
  | some fd => exact dirOf_names p fd

variable (L T) in
/-- All directories of a process are where their names lead to. -/
structure Settles (p : Process) : Prop where
  cwd : Settled L T p.cwd
  dirs : ∀ d ∈ p.dirs, Settled L T d.2

variable {found : Option (List Text)}

theorem Settles.base (h : p.Settles L T) (hbase : p.base dirfd = some dir) : Settled L T dir := by
  cases dirfd with
  | none => exact Option.some.inj hbase ▸ h.cwd
  | some fd =>
    obtain ⟨d, hd, rfl⟩ := Option.map_eq_some_iff.1 hbase
    exact h.dirs d (List.mem_of_find?_eq_some hd)

theorem Settles.entered (h : p.Settles L T) (hfound : ∀ x, found = some x → Settled L T x) :
    (p.entered found).Settles L T := by
  cases found with
  | none => exact h
  | some x => exact ⟨hfound x rfl, h.dirs⟩

theorem Settles.closed (h : p.Settles L T) (fd : Fd) : (p.closed fd).Settles L T :=
  ⟨h.cwd, fun d hd => h.dirs d (List.mem_of_mem_filter hd)⟩

theorem Settles.opened (h : p.Settles L T) (fd : Fd)
    (hfound : ∀ x, found = some x → Settled L T x) : (p.opened fd found).Settles L T := by
  cases found with
  | none => exact h
  | some x => exact ⟨h.cwd, List.forall_mem_cons.2 ⟨hfound x rfl, (h.closed fd).dirs⟩⟩

end Process

variable (L T) in
/-- What a call has to heed that opens a directory or goes to one. -/
def Heeds (p : Process) : Action → Prop
  | .chdir path => Ok L T p.cwd (.use "chdir".toList path)
  | .fchdir _ => True
  | .opens _ path => Ok L T p.cwd (.use "open".toList path)
  | .opensAt _ dirfd path => ∃ dir, p.base dirfd = some dir ∧ OkAt L T dir path
  | .closes _ => True

/-- **The directory that is found is the one that is named.** -/
theorem directory_ok (hL : L.Plain) {loc : List Text} (hloc : ∀ name ∈ loc, Proper name)
    (hnamed : ¬∃ d ∈ table L.config.mappings, d.2 <+: loc)
    (hplace : (render (L.place loc)).length + 2 < MAX_PATH)
    (hfits : (pathOf loc).length + 1 < MAX_PATH) {r : Safe (Option (List Text))}
    (hr : ∃ found, r = some found ∧ (∀ x, found = some x → x = L.place loc) ∧
      (T.isDirectory (L.place loc) = true → found = some (L.place loc))) :
    (directory T r).map L.nameOf = (some loc).filter (fun loc => T.isDirectory (L.place loc)) ∧
      ∀ x, directory T r = some x → Settled L T x := by
  obtain ⟨found, rfl, hwhere, hfound⟩ := hr
  have hname := nameOf_place hL hnamed
  cases hdir : T.isDirectory (L.place loc) with
  | true =>
    have hdirectory : directory T (some found) = some (L.place loc) := by
      rw [hfound hdir]
      exact Option.filter_some_pos hdir
    have hthere : (some loc).filter (fun loc => T.isDirectory (L.place loc)) = some loc :=
      Option.filter_some_pos hdir
    rw [hdirectory, hthere, Option.map_some, hname]
    exact ⟨rfl, fun x hx => Option.some.inj hx ▸ settled_place hloc hname hdir hplace hfits⟩
  | false =>
    have hdirectory : directory T (some found) = none := by
      cases found with
      | none => rfl
      | some x =>
        rw [hwhere x rfl]
        exact Option.filter_some_neg hdir
    have hnone : (some loc).filter (fun loc => T.isDirectory (L.place loc)) = none :=
      Option.filter_some_neg hdir
    rw [hdirectory, hnone]
    exact ⟨rfl, fun x hx => absurd hx (by simp)⟩

/-- **One step.**  All directories stay where their names lead to, and the names change as if
directories were where their names say. -/
theorem act_ok (hL : L.Plain) (hfree : L.Free) (hT : T.Located) (hp : p.Settles L T) {a : Action}
    (ha : Heeds L T p a) :
    (act L T p a).Settles L T ∧ (act L T p a).names L = actName L T (p.names L) a := by
  have hproper : ∀ {dir : List Text}, Settled L T dir → ∀ path : Text,
      ∀ name ∈ followPath (L.nameOf dir) path, Proper name :=
    fun hdir _ _ => proper_of_mem_followPath (proper_nameOf hdir.proper)
  have hshort : ∀ {dir : List Text}, Settled L T dir → ∀ {path : Text},
      (joinBase (pathOf (L.nameOf dir)) path).length + 1 < MAX_PATH →
        (pathOf (followPath (L.nameOf dir) path)).length + 1 < MAX_PATH := by
    intro dir hdir path hfits
    have hle := length_pathOf_followPath_le (proper_nameOf (L := L) hdir.proper) path
    omega
  have hcwd : p.link PROC_SELF_CWD = some (pathOf p.cwd) := if_pos rfl
  cases a with
  | chdir path =>
    obtain ⟨hname, hsettled⟩ := directory_ok hL (hproper hp.cwd path) ha.named ha.fitsPlace
      (hshort hp.cwd ha.fits) (found_ok hL hT hcwd hp.cwd ha)
    refine ⟨hp.entered hsettled, ?_⟩
    unfold act
    rw [Process.names_entered]
    exact congrArg (p.names L).entered hname
  | fchdir fd =>
    refine ⟨hp.entered fun x hx => hp.base (show p.base (some fd) = some x from hx), ?_⟩
    unfold act
    rw [Process.names_entered]
    exact congrArg (p.names L).entered (Process.dirOf_names p fd).symm
  | opens fd path =>
    obtain ⟨hname, hsettled⟩ := directory_ok hL (hproper hp.cwd path) ha.named ha.fitsPlace
      (hshort hp.cwd ha.fits) (found_ok hL hT hcwd hp.cwd ha)
    refine ⟨hp.opened fd hsettled, ?_⟩
    unfold act
    rw [Process.names_opened]
    exact congrArg ((p.names L).opened fd) hname
  | opensAt fd dirfd path =>
    obtain ⟨dir, hbase, hok⟩ := ha
    have hdir := hp.base hbase
    obtain ⟨hname, hsettled⟩ := directory_ok hL (hproper hdir path) hok.named hok.fitsPlace
      (hshort hdir hok.fits) (findAt_ok hL hfree "openat".toList hbase hdir hT hok)
    have hstart : (p.names L).base dirfd = some (L.nameOf dir) := by
      rw [Process.base_names, hbase]
      rfl
    have hthere : ((p.names L).base dirfd).bind (fun name => namedDirectory L T name path) =
        namedDirectory L T (L.nameOf dir) path := by
      rw [hstart, Option.bind_some]
    refine ⟨hp.opened fd hsettled, ?_⟩
    unfold act
    rw [Process.names_opened]
    exact congrArg ((p.names L).opened fd) (hname.trans hthere.symm)
  | closes fd => exact ⟨hp.closed fd, Process.names_closed p fd⟩

theorem run_settles (hL : L.Plain) (hfree : L.Free) (hT : T.Located) {as : List Action} :
    ∀ {p : Process}, p.Settles L T → Along (act L T) (Heeds L T) p as →
      (as.foldl (act L T) p).Settles L T ∧
        (as.foldl (act L T) p).names L = as.foldl (actName L T) (p.names L) := by
  induction as with
  | nil => exact fun hp _ => ⟨hp, rfl⟩
  | cons a as ih =>
    rintro p hp ⟨ha, has⟩
    obtain ⟨hsettles, hnames⟩ := act_ok hL hfree hT hp ha
    rw [List.foldl_cons, List.foldl_cons, ← hnames]
    exact ih hsettles has

/-- **All open directories seem to be where their names say.**  After any run of calls that keep
to the names, the links to the current and to the open directories tell the locations their
paths have led to by their text, and a call relative to any of them finds what is at the place
of the location its path leads to from there. -/
theorem run_names_at (hL : L.Plain) (hfree : L.Free) (hT : T.Located) (hp : p.Settles L T)
    (as : List Action) (has : Along (act L T) (Heeds L T) p as) (dirfd : DirFd)
    (hopen : (as.foldl (act L T) p).base dirfd = some dir) :
    ∃ name, (as.foldl (actName L T) (p.names L)).base dirfd = some name ∧
      readlink L (as.foldl (act L T) p).link dirfd.path (MAX_PATH - 1) =
        some (some (pathOf name)) ∧
      ∀ functionName path, OkAt L T dir path →
        ∃ found, findAt L T functionName (as.foldl (act L T) p) dirfd path = some found ∧
          (∀ x, found = some x → x = L.place (followPath name path)) ∧
          (T.isDirectory (L.place (followPath name path)) = true →
            found = some (L.place (followPath name path))) := by
  obtain ⟨hsettles, hnames⟩ := run_settles hL hfree hT hp has
  have hdir := hsettles.base hopen
  refine ⟨L.nameOf dir, ?_, readlink_dirfd hL hfree hopen hdir, fun functionName path hok =>
    findAt_ok hL hfree functionName hopen hdir hT hok⟩
  rw [← hnames, Process.base_names, hopen]
  rfl

theorem free_usrLayer : usrLayer.Free := by
  intro m hm dirfd hbelow
  obtain rfl := List.mem_singleton.1 hm
  have hfirst : (dirfd.loc).head? = some "proc".toList := by cases dirfd <;> rfl
  obtain ⟨rest, hrest⟩ := hbelow
  have hfrom : (⟨"/usr".toList, "/app".toList, false⟩ : Mapping).fromLoc = ["usr".toList] := by
    decide
  rw [← hrest, hfrom] at hfirst
  exact absurd (Option.some.inj hfirst) (by decide)

/-- Where `/usr` is kept in `/app`, a process that opens `/usr/lib` reads this name from the link
to it, and finds `/usr/bin` from there under `../bin`. -/
theorem run_names_at_usr :
    readlink usrLayer
        ([.opensAt 3 none "/usr/lib".toList].foldl (act usrLayer allDirectories) ⟨[], []⟩).link
        (fdPath 3) (MAX_PATH - 1) = some (some "/usr/lib".toList) ∧
      findAt usrLayer allDirectories "openat".toList
        ([.opensAt 3 none "/usr/lib".toList].foldl (act usrLayer allDirectories) ⟨[], []⟩)
        (some 3) "../bin".toList = some (some ["app".toList, "bin".toList]) := by
  have hsettled : Settled usrLayer allDirectories [] :=
    ⟨fun _ h => absurd h List.not_mem_nil, rfl, by decide, by decide, by decide⟩
  have hopens : OkAt usrLayer allDirectories [] "/usr/lib".toList :=
    ⟨by decide, by decide, by decide, fun _ h => absurd h (by decide)⟩
  have hdir : ([Action.opensAt 3 none "/usr/lib".toList].foldl (act usrLayer allDirectories)
      ⟨[], []⟩).base (some 3) = some ["app".toList, "lib".toList] := by decide
  have hfurther : OkAt usrLayer allDirectories ["app".toList, "lib".toList] "../bin".toList :=
    ⟨by decide, by decide, by decide, fun _ h => absurd h (by decide)⟩
  obtain ⟨name, hname, hlink, hfind⟩ := run_names_at plain_usrLayer free_usrLayer
    located_allDirectories ⟨hsettled, fun _ h => absurd h List.not_mem_nil⟩
    [.opensAt 3 none "/usr/lib".toList] ⟨⟨[], rfl, hopens⟩, trivial⟩ (some 3) hdir
  have hbase : ([Action.opensAt 3 none "/usr/lib".toList].foldl (actName usrLayer allDirectories)
      (Process.names usrLayer ⟨[], []⟩)).base (some 3) = some ["usr".toList, "lib".toList] := by
    decide
  obtain rfl := Option.some.inj (hname.symm.trans hbase)
  obtain ⟨found, hfound, -, hdirectory⟩ := hfind "openat".toList _ hfurther
  exact ⟨hlink, hfound.trans (congrArg some (hdirectory rfl))⟩

end PathMap
end Sharun
