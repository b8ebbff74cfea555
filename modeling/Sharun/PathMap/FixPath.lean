/-
# What a call is given instead of its path

`pm_fix_path_common` of `lib/pathmap_common.h` is asked by every function that
`lib/path-mapping.c` stands before.  A relative path is put behind the name of the current
directory, as the library's own `readlink` tells it; the normalized path is what the
exclusions and the mappings are about.  Where nothing is mapped, the call gets the path as it
was written.

With plain directories, the path leads to a location by its text, starting at the name of
the current directory, and the call gets the place of this location (`fixPath_plain`).
-/

import Sharun.PathMap.Reverse

namespace Sharun
namespace PathMap

open Sharun.Basis
open Sharun.Launch (Text)

/-- What is computed, `none` where memory behind the end of a path is copied, or the stack is
used up. -/
abbrev Safe (α : Type) := Option α

/-- What the library relies on: the functions of libc, what has been configured, and how many
calls of the library's own `lstat` there is room for on the stack. -/
structure Layer where
  fnmatch : Fnmatch
  config : CommonConfig
  stack : ℕ

/-- A path that is copied into a buffer and normalized there; there is always room
(`exists_normalizeBuffer`). -/
def normalizeBuffer (path : Text) : Text :=
  (pmNormalizePathInplace (path.take (MAX_PATH - 1))).getD []

/-- The string that is returned. -/
def Reversed.text (path : Text) : Reversed → Safe Text
  | unchanged => some path
  | changed out => some out
  | overrun => none

variable (L : Layer)

/-- `pm_apply_mapping_with_config`, into a buffer of `MAX_PATH` characters. -/
def Layer.applyMapping (path : Text) : Option Text :=
  pmApplyMappingWithConfig L.fnmatch path MAX_PATH L.config.toMappingConfig

/-- `pm_apply_reverse_mapping_with_config`, into a buffer of `MAX_PATH` characters. -/
def Layer.applyReverse (path : Text) : Reversed :=
  pmApplyReverseMappingWithConfig L.fnmatch path MAX_PATH L.config.toMappingConfig

def Layer.isExcluded (path : Text) : Bool :=
  pmIsExcludedPrefix L.fnmatch path L.config.toMappingConfig

/-! ### `pm_fix_path_common` -/

/-- The directory of a path, up to its last slash. -/
def virtualDir (path : Text) : Text :=
  if '/' ∈ path then (path.rdropWhile (· ≠ '/')).dropLast else ['.']

/-- `pm_resolve_symlink_path_impl(original_path, mapped_path, …)`, `none` for the mapped path;
`link` is what the library's `lstat` and `readlink` say of a path that is a symbolic link. -/
def pmResolveSymlinkPathImpl (link : Text → Safe (Option Text)) (original mapped : Text) :
    Safe (Option Text) :=
  (link mapped).map fun
  | none => none
  | some [] => none
  | some content =>
    if content.head? = some '/' then some ((L.applyMapping content).getD content)
    else
      let path := virtualDir (original.take (MAX_PATH - 1)) ++ '/' :: content
      if path.length < MAX_PATH then
        some ((L.applyMapping (normalizeBuffer path)).getD (normalizeBuffer path))
      else none

/-- `pm_should_resolve_symlink(function_name, relsymlink)`. -/
def pmShouldResolveSymlink (functionName : Text) (relsymlink : Bool) : Bool :=
  if "readlink".toList <:+: functionName then false else relsymlink

/-- The functions that search `PATH`. -/
def searchFunctions : List Text :=
  ["execvp".toList, "execvpe".toList, "execlp".toList, "posix_spawnp".toList]

/-- `pm_fix_path_common`, from the match path on. -/
def fixMatchPath (link : Text → Safe (Option Text)) (functionName matchPath : Text) :
    Safe (Option Text) :=
  if L.isExcluded matchPath then some none
  else match L.applyMapping matchPath with
  | none => some none
  | some mapped =>
    if pmShouldResolveSymlink functionName L.config.relsymlink then
      (pmResolveSymlinkPathImpl L link matchPath mapped).map fun resolved =>
        some (resolved.getD mapped)
    else some (some mapped)

/-- A relative path behind the current directory. -/
def joinBase (base path : Text) : Text :=
  (if base.getLast? = some '/' then base else base ++ ['/']) ++ path

/-- `pm_fix_path_common(function_name, path, …)`, `none` for the path itself; `cwd` is what
`readlink("/proc/self/cwd", …)` returns, or nothing for an error. -/
def pmFixPathCommon (link : Text → Safe (Option Text)) (cwd : Safe (Option Text))
    (functionName path : Text) : Safe (Option Text) :=
  if path = ['.'] then some none
  else if '/' ∉ path ∧ searchFunctions.any (· = functionName) then some none
  else if path.head? = some '/' then fixMatchPath L link functionName (normalizeBuffer path)
  else cwd.bind fun
    | none => some none
    | some [] => some none
    | some base => fixMatchPath L link functionName (normalizeBuffer (joinBase base path))

/-! ### `readlink` and `getcwd` -/

/-- `pm_is_proc_cwd_path(path)`. -/
def pmIsProcCwdPath (path : Text) : Bool :=
  "/proc/".toList.isPrefixOf path && decide ("/cwd".toList <:+: path)

/-- `pm_virtualize_proc_cwd_readlink_result(path, buf, n, bufsiz, config)`: what is in the
buffer then. -/
def pmVirtualizeProcCwdReadlinkResult (path buf : Text) (bufsiz : ℕ) : Safe Text :=
  if pmIsProcCwdPath path = false then some buf
  else match L.applyReverse (buf.take (MAX_PATH - 1)) with
  | .unchanged => some buf
  | .changed virt => some (virt.take bufsiz)
  | .overrun => none

/-- `pm_reverse_readlink_inplace(buf, n, bufsiz, config)`. -/
def pmReverseReadlinkInplace (buf : Text) (bufsiz : ℕ) : Safe Text :=
  match L.applyReverse (buf.take (MAX_PATH - 1)) with
  | .unchanged => some buf
  | .changed virt => some (if L.isExcluded virt then buf else virt.take bufsiz)
  | .overrun => none

/-- What `readlink` makes of what it has read.  That the first step has changed something is
seen by the length. -/
def reverseReadlink (path buf : Text) (bufsiz : ℕ) : Safe Text :=
  if L.config.reverseEnabled then
    (pmVirtualizeProcCwdReadlinkResult L path buf bufsiz).bind fun buf' =>
      if buf'.length ≠ buf.length then some buf' else pmReverseReadlinkInplace L buf' bufsiz
  else some buf

def PROC_SELF_CWD : Text := "/proc/self/cwd".toList

/-- `readlink(pathname, buf, bufsiz)`, nothing for an error; `link` is what the kernel says of a
symbolic link, and `cwd` is as for `pm_fix_path_common`.  To read a link, none is resolved. -/
def readlinkFrom (link : Text → Option Text) (cwd : Safe (Option Text)) (pathname : Text)
    (bufsiz : ℕ) : Safe (Option Text) :=
  (pmFixPathCommon L (fun _ => some none) cwd "readlink".toList pathname).bind fun fixed =>
    match link (fixed.getD pathname) with
    | none => some none
    | some content =>
      (reverseReadlink L (fixed.getD pathname) (content.take bufsiz) bufsiz).map some

/-- `readlink("/proc/self/cwd", base, sizeof base - 1)`. -/
def procSelfCwd (link : Text → Option Text) : Safe (Option Text) :=
  readlinkFrom L link (some none) PROC_SELF_CWD (MAX_PATH - 1)

def readlink (link : Text → Option Text) (pathname : Text) (bufsiz : ℕ) : Safe (Option Text) :=
  readlinkFrom L link (procSelfCwd L link) pathname bufsiz

/-- The content of a symbolic link, as the library's own `lstat` and `readlink` tell it;
`lstat` maps the path once more, and resolves the link it is mapped to. -/
def symlinkContent (link : Text → Option Text) : ℕ → Text → Safe (Option Text)
  | 0, _ => none
  | stack + 1, path =>
    (pmFixPathCommon L (symlinkContent link stack) (procSelfCwd L link) "lstat".toList path).bind
      fun fixed =>
        if (link (fixed.getD path)).isSome then readlink L link path (MAX_PATH - 1) else some none

/-- `fix_path(function_name, path, …)`. -/
def fixPath (link : Text → Option Text) (functionName path : Text) : Safe (Option Text) :=
  pmFixPathCommon L (symlinkContent L link L.stack) (procSelfCwd L link) functionName path

/-- `getcwd(buf, size)`, with what libc returns; nothing where there is no room. -/
def getcwd (real : Text) (size : ℕ) : Safe (Option Text) :=
  ((L.applyReverse real).text real).map fun final =>
    if size = 0 ∨ size < final.length + 1 then none else some final

/-- **No link is resolved for a function that reads links**, so that it goes through `fix_path`
whatever room there is on the stack. -/
theorem pmFixPathCommon_readlink (own own' : Text → Safe (Option Text)) (cwd : Safe (Option Text))
    {functionName : Text} (hreads : "readlink".toList <:+: functionName) (path : Text) :
    pmFixPathCommon L own cwd functionName path = pmFixPathCommon L own' cwd functionName path := by
  have hresolve : pmShouldResolveSymlink functionName L.config.relsymlink = false := if_pos hreads
  have hmatch : fixMatchPath L own functionName = fixMatchPath L own' functionName := by
    funext matchPath
    unfold fixMatchPath
    rw [hresolve]
    rfl
  unfold pmFixPathCommon
  rw [hmatch]

theorem readlink_eq_fixPath (link : Text → Option Text) (pathname : Text) (bufsiz : ℕ) :
    readlink L link pathname bufsiz =
      (fixPath L link "readlink".toList pathname).bind fun fixed =>
        match link (fixed.getD pathname) with
        | none => some none
        | some content =>
          (reverseReadlink L (fixed.getD pathname) (content.take bufsiz) bufsiz).map some := by
  rw [readlink, readlinkFrom, fixPath, pmFixPathCommon_readlink L _ _ _ List.infix_rfl]

/-! ### Paths in buffers -/

theorem length_take_lt (path : Text) : (path.take (MAX_PATH - 1)).length < MAX_PATH :=
  (List.length_take_le _ _).trans_lt (by decide)

/-- There is always room to normalize a path. -/
theorem exists_normalizeBuffer (path : Text) :
    pmNormalizePathInplace (path.take (MAX_PATH - 1)) = some (normalizeBuffer path) := by
  unfold normalizeBuffer
  rw [pmNormalizePathInplace_eq _ (length_take_lt path), Option.getD_some]

/-- An absolute path that fits is normalized as a whole. -/
theorem normalized_normalizeBuffer {path : Text} (hlength : path.length < MAX_PATH)
    (habsolute : path.head? = some '/') :
    Normalized (normalizeBuffer path) (lexical [] (components path)) := by
  have htake : path.take (MAX_PATH - 1) = path := List.take_of_length_le (by omega)
  have hfits := pmNormalizePathInplace_of_fits hlength (.inl habsolute)
  have hbuffer := exists_normalizeBuffer path
  rw [htake, hfits] at hbuffer
  rw [← Option.some.inj hbuffer]
  exact normalized_normalForm
    (fun name hname => proper_of_mem_lexical (fun _ h => absurd h List.not_mem_nil) hname) _

theorem normalized_pathOf {loc : List Text} (hloc : ∀ name ∈ loc, Proper name) :
    Normalized (pathOf loc) loc := ⟨hloc, .inl rfl⟩

/-- Where a path leads by its text, for a process in a location. -/
def followPath (loc : List Text) (path : Text) : List Text :=
  lexical (if path.head? = some '/' then [] else loc) (components path)

theorem proper_of_mem_followPath {loc : List Text} (hloc : ∀ name ∈ loc, Proper name)
    {path name : Text} (h : name ∈ followPath loc path) : Proper name := by
  refine proper_of_mem_lexical (fun n hn => ?_) h
  split_ifs at hn
  · exact absurd hn List.not_mem_nil
  · exact hloc n hn

/-- A path behind the path of a location leads where it leads from there. -/
theorem lexical_joinBase {loc : List Text} (hloc : ∀ name ∈ loc, Proper name) (path : Text) :
    lexical [] (components (joinBase (pathOf loc) path)) = lexical loc (components path) := by
  unfold joinBase
  rcases List.eq_nil_or_concat' loc with rfl | ⟨before, name, rfl⟩
  · have hroot : components ('/' :: path) = components [] ++ components path :=
      components_append [] path
    have hpath : pathOf [] = ['/'] := rfl
    rw [hpath, if_pos (by rfl), List.singleton_append, hroot, lexical_append]
    rfl
  · have hpath : pathOf (before ++ [name]) = render (before ++ [name]) :=
      pathOf_of_ne_nil (by simp)
    have hlast : (render (before ++ [name])).getLast? ≠ some '/' := by
      rw [render_concat]
      exact (hloc name (by simp)).getLast?_append _
    rw [hpath, if_neg hlast, List.append_assoc, List.singleton_append, components_append,
      components_render hloc, lexical_append, lexical_cons, Component.follow, lexical_names,
      List.nil_append]

theorem head_joinBase {loc : List Text} (path : Text) :
    (joinBase (pathOf loc) path).head? = some '/' := by
  obtain ⟨rest, hrest⟩ := exists_pathOf loc
  rw [joinBase, hrest]
  split_ifs <;> rfl

/-- Where a path leads has no longer path. -/
theorem length_pathOf_followPath_le {loc : List Text} (hloc : ∀ name ∈ loc, Proper name)
    (path : Text) :
    (pathOf (followPath loc path)).length ≤ (joinBase (pathOf loc) path).length := by
  by_cases habsolute : path.head? = some '/'
  · have hle := length_pathOf_lexical_le habsolute
    have hjoin : path.length ≤ (joinBase (pathOf loc) path).length := by
      rw [joinBase, List.length_append]
      omega
    rw [followPath, if_pos habsolute]
    omega
  · rw [followPath, if_neg habsolute, ← lexical_joinBase hloc]
    exact length_pathOf_lexical_le (head_joinBase path)

/-! ### Plain layers -/

/-- The location of an exclusion. -/
def Exclude.loc (e : Exclude) : List Text := lexical [] (components e.pattern)

/-- A layer whose mappings and exclusions are plain directories that lie apart, and are neither
above nor below the link to the current directory. -/
structure Layer.Plain : Prop where
  mappings : ∀ m ∈ L.config.mappings, m.Plain ∧ hasWildcard m.toPath = false
  excludes : ∀ e ∈ L.config.excludes, e.isGlob = false ∧ Normalized e.pattern e.loc
  apart : Apart ((table L.config.mappings).map Prod.fst ++
    (table L.config.mappings).map Prod.snd)
  proc : ∀ m ∈ L.config.mappings, ¬m.fromLoc <+: lexical [] (components PROC_SELF_CWD) ∧
    ¬m.toLoc <+: lexical [] (components PROC_SELF_CWD)
  relsymlink : L.config.relsymlink = false
  reverseEnabled : L.config.reverseEnabled = true

/-- Some exclusion is above a location. -/
def Layer.Excluded (loc : List Text) : Prop := ∃ e ∈ L.config.excludes, e.loc <+: loc

instance Layer.excludedDecidable (loc : List Text) : Decidable (L.Excluded loc) :=
  inferInstanceAs (Decidable (∃ e ∈ L.config.excludes, e.loc <+: loc))

/-- The place of a location. -/
def Layer.place (loc : List Text) : List Text :=
  if L.Excluded loc then loc else forward (table L.config.mappings) loc

/-- The name of a real location. -/
def Layer.nameOf (loc : List Text) : List Text := backward (table L.config.mappings) loc

section Plain

variable {L} {link : Text → Option Text} {path : Text} {loc : List Text}

theorem Normalized.rdropWhile_eq (h : Normalized path loc) :
    path.rdropWhile (· = '/') = render loc := by
  obtain ⟨s, rfl, rfl | rfl⟩ := h.exists_append
  · rw [List.append_nil, rdropWhile_render h.proper]
  · rw [List.rdropWhile_concat_pos _ _ _ (by simp), rdropWhile_render h.proper]

theorem isExcluded_iff (h : L.Plain) (hpath : Normalized path loc) :
    L.isExcluded path = true ↔ L.Excluded loc := by
  have hmatches : ∀ e ∈ L.config.excludes,
      ((if e.isGlob then L.fnmatch e.pattern path else pmPathPrefixMatches e.pattern path) = true ↔
        e.loc <+: loc) := by
    intro e he
    obtain ⟨hglob, hpattern⟩ := h.excludes e he
    rw [hglob, if_neg (by simp)]
    exact pmPathPrefixMatches_iff hpattern.rdropWhile_eq hpattern.proper hpath
  unfold Layer.isExcluded pmIsExcludedPrefix Layer.Excluded
  rw [hpath.head?, decide_eq_true rfl, Bool.true_and, List.any_eq_true]
  exact exists_congr fun e => and_congr_right (hmatches e)

theorem forward_eq_of_place (h : L.place loc ≠ loc) :
    ¬L.Excluded loc ∧ L.place loc = forward (table L.config.mappings) loc := by
  unfold Layer.place at h ⊢
  split_ifs at h ⊢ with hexcluded
  · exact absurd rfl h
  · exact ⟨hexcluded, rfl⟩

theorem toLoc_ne_of_kept (h : L.Plain) (hkept : ∃ e ∈ table L.config.mappings, e.2 <+: loc) :
    loc ≠ [] := by
  obtain ⟨_, he, hbelow⟩ := hkept
  obtain ⟨m, hm, rfl⟩ := List.mem_map.1 he
  rintro rfl
  exact (h.mappings m hm).1.toLoc_ne (List.prefix_nil.1 hbelow)

/-- **The match path is mapped when its location has another place**, and then to a path of
this place. -/
theorem fixMatchPath_plain (h : L.Plain) (link : Text → Safe (Option Text)) (functionName : Text)
    (hpath : Normalized path loc) (hfits : (render (L.place loc)).length + 2 < MAX_PATH) :
    ∃ text, Normalized text (L.place loc) ∧ fixMatchPath L link functionName path =
      some (if L.place loc = loc then none else some text) := by
  by_cases hplace : L.place loc = loc
  · refine ⟨path, hplace.symm ▸ hpath, ?_⟩
    rw [if_pos hplace, fixMatchPath]
    by_cases hexcluded : L.isExcluded path = true
    · rw [if_pos hexcluded]
    · have hforward : forward (table L.config.mappings) loc = loc := by
        unfold Layer.place at hplace
        rwa [if_neg fun hex => hexcluded ((isExcluded_iff h hpath).2 hex)] at hplace
      rw [if_neg hexcluded, Layer.applyMapping, pmApplyMappingWithConfig_plain L.fnmatch MAX_PATH
        (fun m hm => (h.mappings m hm).1) hpath, if_pos (.inl hforward)]
  · obtain ⟨hexcluded, hforward⟩ := forward_eq_of_place hplace
    rw [hforward] at hplace hfits
    have hne := toLoc_ne_of_kept h (kept_of_forward hplace)
    have hnormalized : Normalized (forwardPath L.config.mappings loc path)
        (forward (table L.config.mappings) loc) := normalized_forwardPath hpath hne
    refine ⟨_, hforward ▸ hnormalized, ?_⟩
    have hlength : ¬MAX_PATH ≤ (forwardPath L.config.mappings loc path).length + 1 := by
      have hle := hnormalized.length_le
      omega
    rw [if_neg (hforward ▸ hplace), fixMatchPath,
      if_neg fun hex => hexcluded ((isExcluded_iff h hpath).1 hex), Layer.applyMapping,
      pmApplyMappingWithConfig_plain L.fnmatch MAX_PATH (fun m hm => (h.mappings m hm).1) hpath,
      if_neg (not_or.2 ⟨hplace, hlength⟩)]
    have hresolve : pmShouldResolveSymlink functionName L.config.relsymlink = false := by
      unfold pmShouldResolveSymlink
      rw [h.relsymlink, ite_self]
    dsimp only
    rw [hresolve]
    rfl

/-! ### The current directory -/

theorem proper_nameOf (hloc : ∀ name ∈ loc, Proper name) : ∀ name ∈ L.nameOf loc, Proper name :=
  backward_proper hloc

/-- A name is not below a place. -/
theorem not_kept_nameOf (h : L.Plain) (loc : List Text) :
    ¬∃ e ∈ table L.config.mappings, e.2 <+: L.nameOf loc := by
  obtain ⟨-, hsnd, hboth⟩ := List.pairwise_append.1 h.apart
  rintro ⟨e, he, hbelow⟩
  unfold Layer.nameOf at hbelow
  cases hdeepest : deepest Prod.snd (table L.config.mappings) loc with
  | none =>
    have hfree := deepest_eq_none_iff.1 hdeepest
    unfold backward at hbelow
    rw [hdeepest] at hbelow
    exact hfree e he hbelow
  | some d =>
    rw [backward_of_deepest hdeepest] at hbelow
    have hd := (mem_of_deepest hdeepest).1
    have happart := hboth _ (List.mem_map_of_mem hd) _ (List.mem_map_of_mem he)
    exact not_or.2 happart (List.prefix_or_prefix_of_prefix (prefix_move _ _ _) hbelow)

theorem nameOf_ne_nil (h : L.Plain) (hkept : ∃ e ∈ table L.config.mappings, e.2 <+: loc) :
    L.nameOf loc ≠ [] := by
  obtain ⟨e, he, hbelow⟩ := hkept
  have hdeepest := deepest_of_apart (List.pairwise_append.1 h.apart).2.1 he hbelow
  obtain ⟨m, hm, rfl⟩ := List.mem_map.1 he
  intro hnil
  have hprefix : m.fromLoc <+: L.nameOf loc := by
    rw [Layer.nameOf, backward_of_deepest hdeepest]
    exact prefix_move _ _ _
  rw [hnil] at hprefix
  exact (h.mappings m hm).1.fromLoc_ne (List.prefix_nil.1 hprefix)

/-- **The path of a real location is given its name.** -/
theorem applyReverse_pathOf (h : L.Plain) (hloc : ∀ name ∈ loc, Proper name)
    (hfits : (pathOf (L.nameOf loc)).length + 1 < MAX_PATH) :
    L.applyReverse (pathOf loc) =
      if ∃ e ∈ table L.config.mappings, e.2 <+: loc then .changed (pathOf (L.nameOf loc))
      else .unchanged := by
  rw [Layer.applyReverse, pmApplyReverseMappingWithConfig_plain L.fnmatch h.mappings
    (normalized_pathOf hloc) (by decide)]
  by_cases hkept : ∃ e ∈ table L.config.mappings, e.2 <+: loc
  · have hpath : backwardPath L.config.mappings loc (pathOf loc) = pathOf (L.nameOf loc) := by
      rw [backwardPath, pathOf_of_ne_nil (toLoc_ne_of_kept h hkept), List.drop_length,
        List.append_nil, pathOf_of_ne_nil (nameOf_ne_nil h hkept)]
      rfl
    rw [hpath, if_pos ⟨hkept, hfits⟩, if_pos hkept]
  · rw [if_neg fun h => hkept h.1, if_neg hkept]

theorem pathOf_of_not_kept (hkept : ¬∃ e ∈ table L.config.mappings, e.2 <+: loc) :
    L.nameOf loc = loc := backward_of_none hkept

/-- **`getcwd` tells the name of the current directory.** -/
theorem getcwd_plain (h : L.Plain) (hloc : ∀ name ∈ loc, Proper name)
    (hfits : (pathOf (L.nameOf loc)).length + 1 < MAX_PATH) {size : ℕ}
    (hsize : (pathOf (L.nameOf loc)).length < size) :
    getcwd L (pathOf loc) size = some (some (pathOf (L.nameOf loc))) := by
  have htext : (L.applyReverse (pathOf loc)).text (pathOf loc) =
      some (pathOf (L.nameOf loc)) := by
    rw [applyReverse_pathOf h hloc hfits]
    split_ifs with hkept
    · rfl
    · rw [pathOf_of_not_kept hkept]
      rfl
  rw [getcwd, htext, Option.map_some, if_neg (by omega)]

/-- The link to the current directory is not mapped. -/
theorem fix_procSelfCwd (h : L.Plain) (own : Text → Safe (Option Text)) :
    pmFixPathCommon L own (some none) "readlink".toList PROC_SELF_CWD = some none := by
  have hnormalized : Normalized (normalizeBuffer PROC_SELF_CWD)
      (lexical [] (components PROC_SELF_CWD)) :=
    normalized_normalizeBuffer (by decide) (by decide)
  have hforward : forward (table L.config.mappings) (lexical [] (components PROC_SELF_CWD)) =
      lexical [] (components PROC_SELF_CWD) := by
    refine forward_of_none (deepest_eq_none_iff.2 ?_)
    intro e he
    obtain ⟨m, hm, rfl⟩ := List.mem_map.1 he
    exact (h.proc m hm).1
  have hplace : L.place (lexical [] (components PROC_SELF_CWD)) =
      lexical [] (components PROC_SELF_CWD) := by
    rw [Layer.place, hforward, ite_self]
  obtain ⟨_, -, hfix⟩ := fixMatchPath_plain h own "readlink".toList hnormalized
    (by rw [hplace]; decide)
  rw [pmFixPathCommon, if_neg (by decide), if_neg (by decide), if_pos (by decide), hfix,
    if_pos hplace]

/-- **`readlink` tells it as well.** -/
theorem procSelfCwd_plain (h : L.Plain) (hloc : ∀ name ∈ loc, Proper name)
    (hlink : link PROC_SELF_CWD = some (pathOf loc)) (hlength : (pathOf loc).length < MAX_PATH)
    (hfits : (pathOf (L.nameOf loc)).length + 1 < MAX_PATH) :
    procSelfCwd L link = some (some (pathOf (L.nameOf loc))) := by
  have htake : (pathOf loc).take (MAX_PATH - 1) = pathOf loc :=
    List.take_of_length_le (by omega)
  have htake' : (pathOf (L.nameOf loc)).take (MAX_PATH - 1) = pathOf (L.nameOf loc) :=
    List.take_of_length_le (by omega)
  have hproc : pmIsProcCwdPath PROC_SELF_CWD = true := by decide
  have hname : L.nameOf (L.nameOf loc) = L.nameOf loc :=
    pathOf_of_not_kept (not_kept_nameOf h loc)
  -- the name is not below a place, so that it is told as it is
  have hsecond : pmReverseReadlinkInplace L (pathOf (L.nameOf loc)) (MAX_PATH - 1) =
      some (pathOf (L.nameOf loc)) := by
    rw [pmReverseReadlinkInplace, htake', applyReverse_pathOf h (proper_nameOf hloc)
      (by rwa [hname]), if_neg (not_kept_nameOf h loc)]
  have hvirtual : pmVirtualizeProcCwdReadlinkResult L PROC_SELF_CWD (pathOf loc) (MAX_PATH - 1) =
      some (pathOf (L.nameOf loc)) := by
    rw [pmVirtualizeProcCwdReadlinkResult, hproc, if_neg (by simp), htake,
      applyReverse_pathOf h hloc hfits]
    by_cases hkept : ∃ e ∈ table L.config.mappings, e.2 <+: loc
    · rw [if_pos hkept]
      dsimp only
      rw [htake']
    · rw [if_neg hkept, pathOf_of_not_kept hkept]
  rw [procSelfCwd, readlinkFrom, fix_procSelfCwd h, Option.bind_some, Option.getD_none, hlink]
  dsimp only
  rw [htake, reverseReadlink, h.reverseEnabled, if_pos rfl, hvirtual, Option.bind_some, hsecond,
    ite_self, Option.map_some]

/-- An absolute path is mapped by what it says alone. -/
theorem fixPath_absolute (h : L.Plain) (link : Text → Option Text) (functionName : Text)
    (habsolute : path.head? = some '/') (hlength : path.length < MAX_PATH)
    (hplace : (render (L.place (lexical [] (components path)))).length + 2 < MAX_PATH) :
    ∃ text, Normalized text (L.place (lexical [] (components path))) ∧
      fixPath L link functionName path = some
        (if L.place (lexical [] (components path)) = lexical [] (components path) then none
        else some text) := by
  obtain ⟨text, htext, hfix⟩ := fixMatchPath_plain h (symlinkContent L link L.stack) functionName
    (normalized_normalizeBuffer hlength habsolute) hplace
  have hdot : path ≠ ['.'] := by
    rintro rfl
    exact absurd habsolute (by simp)
  have hslash : '/' ∈ path := List.mem_of_mem_head? habsolute
  refine ⟨text, htext, ?_⟩
  rw [fixPath, pmFixPathCommon, if_neg hdot, if_neg fun hsearch => hsearch.1 hslash,
    if_pos habsolute, hfix]

/-- **A call is given the place of what its path means.**  The path leads to a location by its
text, from the name of the current directory; where this location has another place, the call
gets a path of it, and else the path as it was written. -/
theorem fixPath_plain (h : L.Plain) (hloc : ∀ name ∈ loc, Proper name)
    (hlink : link PROC_SELF_CWD = some (pathOf loc)) (hlength : (pathOf loc).length < MAX_PATH)
    (hfits : (pathOf (L.nameOf loc)).length + 1 < MAX_PATH) (functionName : Text)
    (hdot : path ≠ ['.']) (hsearch : '/' ∈ path ∨ functionName ∉ searchFunctions)
    (hpath : (joinBase (pathOf (L.nameOf loc)) path).length < MAX_PATH)
    (hplace : (render (L.place (followPath (L.nameOf loc) path))).length + 2 < MAX_PATH) :
    ∃ text, Normalized text (L.place (followPath (L.nameOf loc) path)) ∧
      fixPath L link functionName path = some
        (if L.place (followPath (L.nameOf loc) path) = followPath (L.nameOf loc) path then none
        else some text) := by
  by_cases habsolute : path.head? = some '/'
  · have hfollow : followPath (L.nameOf loc) path = lexical [] (components path) := by
      rw [followPath, if_pos habsolute]
    have hjoin : path.length ≤ (joinBase (pathOf (L.nameOf loc)) path).length := by
      rw [joinBase, List.length_append]
      omega
    rw [hfollow] at hplace ⊢
    exact fixPath_absolute h link functionName habsolute (by omega) hplace
  · have hfollow : followPath (L.nameOf loc) path =
        lexical [] (components (joinBase (pathOf (L.nameOf loc)) path)) := by
      rw [followPath, if_neg habsolute, lexical_joinBase (proper_nameOf hloc)]
    have hsearch' : ¬('/' ∉ path ∧ searchFunctions.any (· = functionName) = true) := by
      rintro ⟨hslash, hany⟩
      obtain ⟨name, hmem, heq⟩ := List.any_eq_true.1 hany
      exact hsearch.elim hslash fun hnot => hnot (of_decide_eq_true heq ▸ hmem)
    rw [hfollow] at hplace ⊢
    obtain ⟨text, htext, hfix⟩ := fixMatchPath_plain h (symlinkContent L link L.stack)
      functionName (normalized_normalizeBuffer hpath (head_joinBase path)) hplace
    refine ⟨text, htext, ?_⟩
    rw [fixPath, pmFixPathCommon, if_neg hdot, if_neg hsearch', if_neg habsolute,
      procSelfCwd_plain h hloc hlink hlength hfits, Option.bind_some]
    obtain ⟨rest, hbase⟩ := exists_pathOf (L.nameOf loc)
    rw [hbase] at hfix ⊢
    exact hfix

end Plain

end PathMap
end Sharun
