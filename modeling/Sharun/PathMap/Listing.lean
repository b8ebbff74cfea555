/-
# The names in a directory

`readdir` of `lib/path-mapping.c` gives an entry of a place the name it has where its
directory is mapped from.  The name is written over the one that is there, so that it must not
be longer; `pm_reverse_basename_from_dir` of `lib/pathmap_common.h` finds it.

The path of the entry is given its name on the way, and a target that matches as a pattern may
be longer than this path (`readdirName_overrun`).  Where every target has no wildcards, or stars
whose parts can be told, `readdir` stays inside of what it has been given, and no name gets
longer (`readdirName_contained`).

With plain directories, only an entry that is a place itself, in a directory below another
place, is renamed (`readdirName_plain`): the two searches among the mappings for an entry that
is called like a target are made only where the path of the entry has no other name, and no
directory below a place has such an entry.
-/

import Sharun.PathMap.FixPath

namespace Sharun
namespace PathMap

open Sharun.Basis
open Sharun.Launch (Text)

/-- What is behind the last slash of a path. -/
def baseName (path : Text) : Text := path.rtakeWhile (· ≠ '/')

/-- A path that is split at its last slash, unless it starts with this slash. -/
def splitLast (path : Text) : Option (Text × Text) :=
  if 1 < (path.rdropWhile (· ≠ '/')).length then
    some ((path.rdropWhile (· ≠ '/')).dropLast, baseName path)
  else none

variable (L : Layer)

/-- A new name, where there is room for it and the path it belongs to is not excluded. -/
def Layer.rename (path base : Text) (outSize : ℕ) : Option Text :=
  if base = [] ∨ outSize < base.length + 1 then none
  else if L.isExcluded path then none
  else some base

/-- An entry that is called like a target in its directory. -/
def Layer.renameTarget (dirNorm entry : Text) (outSize : ℕ) (m : Mapping) : Option Text :=
  (splitLast (m.toPath.take (MAX_PATH - 1))).bind fun (toDir, toBase) =>
    if dirNorm ≠ normalizeBuffer toDir ∨ entry ≠ toBase then none
    else L.rename m.fromPath (baseName m.fromPath) outSize

/-- An entry that is called like a target, in the directory FROM is in. -/
def Layer.renameSource (dirNorm entry : Text) (outSize : ℕ) (m : Mapping) : Option Text :=
  (splitLast (m.fromPath.take (MAX_PATH - 1))).bind fun (fromDir, fromBase) =>
    if dirNorm ≠ normalizeBuffer fromDir ∨ entry ≠ baseName m.toPath then none
    else L.rename m.fromPath fromBase outSize

/-- `pm_reverse_basename_from_dir(dirpath, entry_name, out_name, out_name_size, config)`, nothing
for -1. -/
def pmReverseBasenameFromDir (dirpath entry : Text) (outSize : ℕ) : Safe (Option Text) :=
  if entry = ['.'] ∨ entry = ['.', '.'] then some none
  else if (L.config.mappings.any fun m => pmPathPrefixMatches m.toPath dirpath) = false then
    some none
  else if MAX_PATH ≤ dirpath.length + 1 + entry.length + 1 then some none
  else match L.applyReverse (normalizeBuffer (dirpath ++ '/' :: entry)) with
  | .unchanged =>
    let dirNorm := normalizeBuffer dirpath
    some ((L.config.mappings.findSome? (L.renameTarget dirNorm entry outSize)).or
      (L.config.mappings.findSome? (L.renameSource dirNorm entry outSize)))
  | .changed virt => some (L.rename virt (baseName virt) outSize)
  | .overrun => none

/-- `NAME_MAX`. -/
def NAME_MAX : ℕ := 255

/-- `pm_reverse_basename_apply_inplace(dirpath, name, name_buf_capacity, config)`: the name
then. -/
def pmReverseBasenameApplyInplace (dirpath name : Text) (capacity : ℕ) : Safe Text :=
  if capacity = 0 then some name
  else
    let oldlen := min name.length (capacity - 1)
    if oldlen = 0 then some name
    else (pmReverseBasenameFromDir L dirpath name (NAME_MAX + 1)).map fun
      | none => name
      | some newName =>
        if oldlen < newName.length ∨ capacity < newName.length + 1 then name else newName

/-- `pm_is_under_any_to_prefix(abs_path, config)`. -/
def pmIsUnderAnyToPrefix (absPath : Text) : Bool :=
  absPath.head? = some '/' && L.config.mappings.any fun m =>
    if m.isGlob then L.fnmatch m.toPath absPath else pmPathPrefixMatches m.toPath absPath

/-- `reverse_fix_path(function_name, path, …)`, nothing for the path itself. -/
def reverseFixPath (path : Text) : Safe (Option Text) :=
  if L.config.reverseEnabled = false then some none
  else if pmIsUnderAnyToPrefix L path = false then some none
  else match L.applyReverse path with
  | .unchanged => some none
  | .changed out => some (if L.isExcluded out then none else some out)
  | .overrun => none

/-- The name `readdir` gives an entry of the directory `dirpath`. -/
def readdirName (dirpath name : Text) : Safe Text :=
  if MAX_PATH ≤ dirpath.length + 1 + name.length + 1 then some name
  else if L.config.reverseEnabled = false then some name
  else (reverseFixPath L (normalizeBuffer (dirpath ++ '/' :: name))).bind fun _ =>
    pmReverseBasenameApplyInplace L dirpath name (name.length + 1)

variable {L}

theorem eq_of_rename {path base name : Text} {outSize : ℕ}
    (h : L.rename path base outSize = some name) : name = base := by
  unfold Layer.rename at h
  split_ifs at h
  exact (Option.some.inj h).symm

/-! ### Room -/

/-- A name stays, or another one that is not longer is found for it. -/
theorem applyInplace_cases {dirpath name name' : Text} {capacity : ℕ}
    (h : pmReverseBasenameApplyInplace L dirpath name capacity = some name') :
    name' = name ∨ name'.length ≤ name.length ∧
      pmReverseBasenameFromDir L dirpath name (NAME_MAX + 1) = some (some name') := by
  rw [pmReverseBasenameApplyInplace] at h
  by_cases hcapacity : capacity = 0
  · rw [if_pos hcapacity] at h
    exact .inl (Option.some.inj h).symm
  · rw [if_neg hcapacity] at h
    dsimp only at h
    by_cases hold : min name.length (capacity - 1) = 0
    · rw [if_pos hold] at h
      exact .inl (Option.some.inj h).symm
    · rw [if_neg hold] at h
      obtain ⟨renamed, hrenamed, h⟩ := Option.map_eq_some_iff.1 h
      cases renamed with
      | none => exact .inl h.symm
      | some newName =>
        dsimp only at h
        split_ifs at h with hroom
        · exact .inl h.symm
        · subst h
          exact .inr ⟨by omega, hrenamed⟩

/-- A name is written over a name that is at least as long, and the two dots stay what they
are. -/
theorem readdirName_le {dirpath name name' : Text} (h : readdirName L dirpath name = some name') :
    name'.length ≤ name.length ∧
      (name = ['.'] ∨ name = ['.', '.'] → name' = name) := by
  unfold readdirName at h
  split_ifs at h
  · cases h
    exact ⟨le_rfl, fun _ => rfl⟩
  · cases h
    exact ⟨le_rfl, fun _ => rfl⟩
  · obtain ⟨_, -, h⟩ := Option.bind_eq_some_iff.1 h
    rcases applyInplace_cases h with rfl | ⟨hlength, hrenamed⟩
    · exact ⟨le_rfl, fun _ => rfl⟩
    · refine ⟨hlength, fun hdots => ?_⟩
      rw [pmReverseBasenameFromDir, if_pos hdots] at hrenamed
      cases hrenamed

section Readable

variable (hfnmatch : L.fnmatch.Divides) (hreadable : ∀ m ∈ L.config.mappings, m.Readable)

include hfnmatch hreadable

theorem applyReverse_ne_overrun (path : Text) : L.applyReverse path ≠ .overrun :=
  pmApplyReverseMappingWithConfig_ne_overrun hfnmatch hreadable path MAX_PATH

theorem exists_reverseFixPath (path : Text) : ∃ fixed, reverseFixPath L path = some fixed := by
  unfold reverseFixPath
  split_ifs
  · exact ⟨_, rfl⟩
  · exact ⟨_, rfl⟩
  · have hsafe := applyReverse_ne_overrun hfnmatch hreadable path
    cases hreverse : L.applyReverse path with
    | unchanged => exact ⟨_, rfl⟩
    | changed out => exact ⟨_, rfl⟩
    | overrun => exact absurd hreverse hsafe

theorem exists_pmReverseBasenameFromDir (dirpath entry : Text) (outSize : ℕ) :
    ∃ renamed, pmReverseBasenameFromDir L dirpath entry outSize = some renamed := by
  unfold pmReverseBasenameFromDir
  split_ifs
  · exact ⟨_, rfl⟩
  · exact ⟨_, rfl⟩
  · exact ⟨_, rfl⟩
  · have hsafe :=
      applyReverse_ne_overrun hfnmatch hreadable (normalizeBuffer (dirpath ++ '/' :: entry))
    cases hreverse : L.applyReverse (normalizeBuffer (dirpath ++ '/' :: entry)) with
    | unchanged => exact ⟨_, rfl⟩
    | changed virt => exact ⟨_, rfl⟩
    | overrun => exact absurd hreverse hsafe

/-- **`readdir` stays inside of what it has been given**, where every target with wildcards has
stars whose parts can be told and put into FROM: nothing but the path is read, a name is
written over one that is at least as long, and the two dots stay what they are. -/
theorem readdirName_contained (dirpath name : Text) :
    ∃ name', readdirName L dirpath name = some name' ∧ name'.length ≤ name.length ∧
      (name = ['.'] ∨ name = ['.', '.'] → name' = name) := by
  obtain ⟨name', hname'⟩ : ∃ name', readdirName L dirpath name = some name' := by
    obtain ⟨fixed, hfixed⟩ :=
      exists_reverseFixPath hfnmatch hreadable (normalizeBuffer (dirpath ++ '/' :: name))
    obtain ⟨renamed, hrenamed⟩ :=
      exists_pmReverseBasenameFromDir hfnmatch hreadable dirpath name (NAME_MAX + 1)
    unfold readdirName pmReverseBasenameApplyInplace
    rw [hfixed, hrenamed, Option.bind_some]
    dsimp only
    split_ifs <;> exact ⟨_, rfl⟩
  exact ⟨name', hname', readdirName_le hname'⟩

end Readable

/-- The layer with a pattern, where `fnmatch` is asked for one path only. -/
def optLayer : Layer where
  fnmatch := fun pattern path =>
    decide (pattern = optMapping.toPath ∧ path = "/app/foo/so/x".toList)
  config := { optConfig with relsymlink := false, reverseEnabled := true }
  stack := 8

theorem divides_optLayer : optLayer.fnmatch.Divides := by
  intro pattern path _ _ hmatches
  obtain ⟨rfl, rfl⟩ := of_decide_eq_true hmatches
  have hsplit : optMapping.toPath.splitOn '*' = ["/app/".toList, "/so/".toList, []] := by decide
  refine ⟨["foo".toList, "x".toList], ?_, by decide⟩
  rw [hsplit]
  exact ⟨fun h => absurd h (by decide), fun _ => ⟨rfl, rfl⟩, rfl⟩

/-- An entry below the target of a pattern, and the directory above. -/
theorem readdirName_contained_opt :
    (∃ name', readdirName optLayer "/app/foo/so".toList "x".toList = some name' ∧
      name'.length ≤ 1) ∧
      readdirName optLayer "/app/foo/so".toList "..".toList = some "..".toList := by
  have hreadable : ∀ m ∈ optLayer.config.mappings, m.Readable := by
    intro m hm
    obtain rfl := List.mem_singleton.1 hm
    have haligned : Aligned none optMapping.toPath := by decide
    exact .inr ⟨by decide, by decide, haligned.wholeSegments, by decide⟩
  obtain ⟨name', hname', hlength, -⟩ := readdirName_contained divides_optLayer hreadable
    "/app/foo/so".toList "x".toList
  obtain ⟨dots, hdots, -, hkeeps⟩ := readdirName_contained divides_optLayer hreadable
    "/app/foo/so".toList "..".toList
  exact ⟨⟨name', hname', hlength⟩, hdots.trans (congrArg some (hkeeps (.inr rfl)))⟩

theorem letters_le : [(⟨"/data/[a-z]".toList, "/app/[a-z]".toList, true⟩ : Mapping)].length ≤
    LIMIT := by decide

theorem letters_glob : ∀ m ∈ [(⟨"/data/[a-z]".toList, "/app/[a-z]".toList, true⟩ : Mapping)],
    m.isGlob = hasWildcard m.fromPath := by decide

/-- `PATH_MAPPING=/data/[a-z]:/app/[a-z]`, where `fnmatch` is asked for `/app/b`. -/
def lettersLayer : Layer where
  fnmatch := fun pattern path =>
    decide (pattern = "/app/[a-z]".toList ∧ path = "/app/b".toList)
  config := {
    mappings := [⟨"/data/[a-z]".toList, "/app/[a-z]".toList, true⟩]
    excludes := []
    mappings_le := letters_le
    excludes_le := Nat.zero_le _
    mappings_glob := letters_glob
    excludes_glob := noExcludes_glob
    relsymlink := false
    reverseEnabled := true }
  stack := 8

/-- The length of what is behind the target is four below zero. -/
theorem readdirName_overrun : readdirName lettersLayer "/app".toList "b".toList = none := by decide

/-! ### Plain directories -/

/-- The last name of a location is what is behind the last slash of its path. -/
theorem baseName_render {loc : List Text} {name : Text} (hname : Proper name) :
    baseName (render (loc ++ [name])) = name := by
  have hfree : ∀ c ∈ name.reverse, decide (c ≠ '/') = true :=
    fun c hc => decide_eq_true fun heq => hname.notMem (heq ▸ List.mem_reverse.1 hc)
  have hslash : (render loc ++ ['/']).reverse.takeWhile (· ≠ '/') = [] := by
    rw [List.reverse_concat]
    exact List.takeWhile_cons_of_neg (by simp)
  rw [render_concat, baseName, List.rtakeWhile, List.reverse_append,
    List.takeWhile_append_of_pos hfree, hslash, List.append_nil, List.reverse_reverse]

/-- The path of an entry of a directory. -/
theorem normalizeBuffer_entry {loc : List Text} {name : Text} (hloc : ∀ n ∈ loc, Proper n)
    (hname : Proper name) (hlength : (pathOf loc ++ '/' :: name).length < MAX_PATH) :
    normalizeBuffer (pathOf loc ++ '/' :: name) = render (loc ++ [name]) := by
  have hhead : (pathOf loc ++ '/' :: name).head? = some '/' := by
    obtain ⟨rest, hrest⟩ := exists_pathOf loc
    rw [hrest]
    rfl
  have hcomponents : components (pathOf loc ++ '/' :: name) =
      components (pathOf loc) ++ [.name name] := by
    rw [components_append, components_of_proper hname]
  have hloc' : lexical [] (components (pathOf loc ++ '/' :: name)) = loc ++ [name] := by
    rw [hcomponents, lexical_concat, (normalized_pathOf hloc).lexical, Component.follow]
  have hform : normalForm (loc ++ [name]) (components (pathOf loc ++ '/' :: name)) =
      render (loc ++ [name]) := by
    unfold normalForm
    rw [hcomponents, endsUp_concat, if_neg (by simp), pathOf_of_ne_nil (by simp)]
  have hfits := pmNormalizePathInplace_of_fits hlength (.inl hhead)
  have hbuffer := exists_normalizeBuffer (pathOf loc ++ '/' :: name)
  rw [List.take_of_length_le (by omega), hfits, hloc', hform] at hbuffer
  exact (Option.some.inj hbuffer).symm

/-- **Only a place in a place is renamed.**  An entry of a directory that gets another name is
itself the place of a directory, in a directory below another place; its name is then the
one of the directory that is kept there. -/
theorem readdirName_plain
    (hplain : ∀ m ∈ L.config.mappings, m.Plain ∧ hasWildcard m.toPath = false) {dir : List Text}
    {name name' : Text} (hdir : ∀ n ∈ dir, Proper n) (hname : Proper name)
    (hfits : (render (backward (table L.config.mappings) (dir ++ [name]))).length + 1 < MAX_PATH)
    (h : readdirName L (pathOf dir) name = some name') (hne : name' ≠ name) :
    ∃ m ∈ L.config.mappings, m.toLoc = dir ++ [name] ∧ m.fromLoc.getLast? = some name' ∧
      ∃ m' ∈ L.config.mappings, m'.toLoc <+: dir := by
  unfold readdirName at h
  split_ifs at h with hlong hreverse
  · exact absurd (Option.some.inj h).symm hne
  · exact absurd (Option.some.inj h).symm hne
  obtain ⟨_, -, h⟩ := Option.bind_eq_some_iff.1 h
  obtain ⟨-, hrenamed⟩ := (applyInplace_cases h).resolve_left hne
  have hproper : ∀ n ∈ dir ++ [name], Proper n := by
    intro n hn
    rcases List.mem_append.1 hn with hn | hn
    · exact hdir n hn
    · exact List.mem_singleton.1 hn ▸ hname
  rw [pmReverseBasenameFromDir, if_neg (not_or.2 ⟨hname.ne_dot, hname.ne_dots⟩)] at hrenamed
  by_cases hany : (L.config.mappings.any fun m => pmPathPrefixMatches m.toPath (pathOf dir)) = true
  · obtain ⟨m', hm', hmatches⟩ := List.any_eq_true.1 hany
    have hbelow := ((hplain m' hm').1.toPath_matches (normalized_pathOf hdir)).1 hmatches
    have hkept : ∃ e ∈ table L.config.mappings, e.2 <+: dir ++ [name] :=
      ⟨_, List.mem_map_of_mem hm', hbelow.trans (List.prefix_append _ _)⟩
    have hentry := normalizeBuffer_entry hdir hname
      (by simp only [List.length_append, List.length_cons]; omega)
    have hpath : Normalized (render (dir ++ [name])) (dir ++ [name]) :=
      ⟨hproper, .inl (pathOf_of_ne_nil (by simp)).symm⟩
    have hback : backwardPath L.config.mappings (dir ++ [name]) (render (dir ++ [name])) =
        render (backward (table L.config.mappings) (dir ++ [name])) := by
      rw [backwardPath, List.drop_length, List.append_nil]
    rw [if_neg (by rw [hany]; simp), if_neg hlong, hentry, Layer.applyReverse,
      pmApplyReverseMappingWithConfig_plain L.fnmatch hplain hpath (by decide), hback,
      if_pos ⟨hkept, hfits⟩] at hrenamed
    dsimp only at hrenamed
    have hbase : name' =
        baseName (render (backward (table L.config.mappings) (dir ++ [name]))) :=
      eq_of_rename (Option.some.inj hrenamed)
    cases hdeepest : deepest Prod.snd (table L.config.mappings) (dir ++ [name]) with
    | none =>
      obtain ⟨e, he, hprefix⟩ := hkept
      exact absurd hprefix (deepest_eq_none_iff.1 hdeepest e he)
    | some e =>
      obtain ⟨he, hprefix⟩ := mem_of_deepest hdeepest
      rw [backward_of_deepest hdeepest] at hbase
      obtain ⟨m, hm, rfl⟩ := List.mem_map.1 he
      rcases List.prefix_concat_iff.1 hprefix with heq | hinside
      · -- the entry is a place
        refine ⟨m, hm, heq, ?_, m', hm', hbelow⟩
        change m.toLoc = dir ++ [name] at heq
        obtain ⟨before, last, hlast⟩ :=
          (List.eq_nil_or_concat' m.fromLoc).resolve_left (hplain m hm).1.fromLoc_ne
        have hlastProper : Proper last :=
          m.proper_of_mem_fromLoc (by rw [hlast]; simp)
        dsimp only at hbase
        rw [move, heq, List.drop_length, List.append_nil, hlast, baseName_render hlastProper]
          at hbase
        rw [hlast, List.getLast?_concat, hbase]
      · -- the entry is below a place, and keeps its name there
        obtain ⟨rest, hrest⟩ := hinside
        dsimp only at hrest hbase
        rw [← hrest, List.append_assoc, move_append, ← List.append_assoc, baseName_render hname]
          at hbase
        exact absurd hbase hne
  · rw [if_pos (by simpa using hany)] at hrenamed
    cases hrenamed

theorem nested_le : [(⟨"/usr".toList, "/app".toList, false⟩ : Mapping),
    ⟨"/etc".toList, "/app/cfg".toList, false⟩].length ≤ LIMIT := by decide

theorem nested_glob : ∀ m ∈ [(⟨"/usr".toList, "/app".toList, false⟩ : Mapping),
    ⟨"/etc".toList, "/app/cfg".toList, false⟩], m.isGlob = hasWildcard m.fromPath := by decide

/-- `PATH_MAPPING=/usr:/app,/etc:/app/cfg`. -/
def nestedLayer : Layer where
  fnmatch := fun _ _ => false
  config := {
    mappings := [⟨"/usr".toList, "/app".toList, false⟩, ⟨"/etc".toList, "/app/cfg".toList, false⟩]
    excludes := []
    mappings_le := nested_le
    excludes_le := Nat.zero_le _
    mappings_glob := nested_glob
    excludes_glob := noExcludes_glob
    relsymlink := false
    reverseEnabled := true }
  stack := 8

/-- In `/app`, the entry `cfg` is the place of `/etc`. -/
theorem readdirName_plain_nested :
    ∃ m ∈ nestedLayer.config.mappings, m.toLoc = ["app".toList] ++ ["cfg".toList] ∧
      m.fromLoc.getLast? = some "etc".toList ∧
        ∃ m' ∈ nestedLayer.config.mappings, m'.toLoc <+: ["app".toList] := by
  have hplain : ∀ m ∈ nestedLayer.config.mappings, m.Plain ∧ hasWildcard m.toPath = false := by
    intro m hm
    rcases List.mem_cons.1 hm with rfl | hm
    · exact ⟨⟨rfl, by decide, by decide, by decide, by decide⟩, by decide⟩
    · obtain rfl := List.mem_singleton.1 hm
      exact ⟨⟨rfl, by decide, by decide, by decide, by decide⟩, by decide⟩
  exact readdirName_plain hplain (by decide) (by decide) (by decide)
    (show readdirName nestedLayer (pathOf ["app".toList]) "cfg".toList = some "etc".toList by
      decide)
    (by decide)

end PathMap
end Sharun
