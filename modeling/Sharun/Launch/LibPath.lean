/-
# `lib.path`

`gen_library_path` (`src/utils.rs`) writes the directories below the library
directory that hold libraries to a file, one a line, with `+` for the library
directory itself; `main` (`src/main.rs`) reads the file back as a search path.  Writing
is three replacements over the whole text and reading two, and nothing is escaped.

What is read is the search path that was meant exactly if no directory has a `+`
outside the places where the library directory's path stands in it, and the last one
does not end in white space there (`lib_path_read_back_iff`).
-/

import Sharun.Launch.Text

namespace Sharun
namespace Launch

open Sharun.Basis

/-- An entry of the walk over the library directory. -/
structure Entry where
  /-- `file_name().to_string_lossy()`. -/
  name : Text
  /-- `path().parent()`, where it is valid text. -/
  parent : Option Text
  parentIsDir : Bool

/-- The name of a library. -/
def isLibrary (name : Text) : Bool :=
  endsWith name ".so".toList || contains name ".so.".toList

/-- The directories `gen_library_path` collects. -/
def newPaths (libraryPath : Text) (entries : List Entry) : List Text :=
  entries.foldl
    (fun paths entry =>
      if isLibrary entry.name then
        match entry.parent with
        | none => paths
        | some parent =>
          if parent ≠ libraryPath ∧ entry.parentIsDir = true ∧ parent ∉ paths ∧
              basename parent ∉ ["lib-dynload".toList] then paths ++ [parent]
          else paths
      else paths)
    []

/-- `gen_library_path`: what it writes. -/
def genLibraryPath (libraryPath : Text) (entries : List Entry) : Text :=
  replace libraryPath ['+']
    (replace [':'] ['\n'] ("+:".toList ++ join ':' (newPaths libraryPath entries)))

/-- The search path `main` makes of the contents of `lib.path`. -/
def readLibPath (libraryPath libPathData : Text) : Text :=
  if libPathData = [] then libraryPath
  else replace ['+'] libraryPath (replace ['\n'] [':'] (trim libPathData))

/-- A directory below another one, that can be part of a search path. -/
structure Below (libraryPath dir : Text) : Prop where
  below : ∃ rest, dir = libraryPath ++ '/' :: rest
  colon : ':' ∉ dir
  newline : '\n' ∉ dir

section

variable {libraryPath : Text}

theorem replace_plus (h : libraryPath ≠ []) : replace libraryPath ['+'] ['+'] = ['+'] := by
  by_cases hpre : libraryPath <+: ['+']
  · obtain ⟨rest, hrest⟩ := hpre
    rcases List.append_eq_singleton_iff.1 hrest with ⟨hnil, -⟩ | ⟨hplus, -⟩
    · exact absurd hnil h
    · rw [hplus]
      decide
  · rw [replace_eq h, scan_cons hpre]
    rfl

/-- What is written for each of some lines. -/
theorem replace_lines (h : libraryPath ≠ []) (hnewline : '\n' ∉ libraryPath) {lines : List Text}
    (hlines : ∀ line ∈ lines, ':' ∉ line) :
    replace libraryPath ['+'] (replace [':'] ['\n'] (join ':' (['+'] :: lines))) =
      join '\n' (['+'] :: lines.map (replace libraryPath ['+'])) := by
  rw [replace_join '\n' (List.forall_mem_cons.2 ⟨by decide, hlines⟩)]
  unfold join
  rw [replace_intercalate h ['+'] hnewline, List.map_cons, replace_plus h]

/-- What is written when directories are found. -/
theorem genLibraryPath_eq (h : libraryPath ≠ []) (hnewline : '\n' ∉ libraryPath)
    {entries : List Entry} (hdirs : ∀ dir ∈ newPaths libraryPath entries, ':' ∉ dir)
    (hne : newPaths libraryPath entries ≠ []) :
    genLibraryPath libraryPath entries =
      join '\n' (['+'] :: (newPaths libraryPath entries).map (replace libraryPath ['+'])) := by
  rw [← replace_lines h hnewline hdirs]
  unfold genLibraryPath join
  obtain ⟨dir, dirs, hcons⟩ := List.exists_cons_of_ne_nil hne
  rw [hcons, List.intercalate_cons_cons]
  rfl

/-- What is written when none is. -/
theorem genLibraryPath_of_nil (h : libraryPath ≠ []) (hnewline : '\n' ∉ libraryPath)
    {entries : List Entry} (hnil : newPaths libraryPath entries = []) :
    genLibraryPath libraryPath entries = ['+', '\n'] := by
  have hcolon : ∀ line ∈ ([[]] : List Text), ':' ∉ line := by simp
  have hlines := replace_lines h hnewline hcolon
  have hempty : replace libraryPath ['+'] [] = [] := by
    rw [replace_eq h]
    rfl
  rw [List.map_singleton, hempty] at hlines
  unfold genLibraryPath
  rw [hnil]
  exact hlines

/-- What is read from lines of which only the last can have something to trim. -/
theorem readLibPath_join (libraryPath : Text) {lines : List Text} {last : Text}
    (hlines : ∀ line ∈ lines, '\n' ∉ line) (hlast : '\n' ∉ last)
    (hkept : last.rdropWhile isWhitespace ≠ []) :
    readLibPath libraryPath (join '\n' (['+'] :: (lines ++ [last]))) =
      join ':' (libraryPath :: (lines ++ [last.rdropWhile isWhitespace]).map
        (replace ['+'] libraryPath)) := by
  have hjoin : ∀ l : Text, join '\n' (['+'] :: (lines ++ [l])) =
      (join '\n' (['+'] :: lines) ++ ['\n']) ++ l := by
    intro l
    rw [← List.cons_append, join_concat '\n' (by simp), List.append_assoc, List.singleton_append]
  have hplus : ∃ rest, join '\n' (['+'] :: lines) = '+' :: rest := by
    cases lines with
    | nil => exact ⟨[], rfl⟩
    | cons line lines => exact ⟨_, join_cons '\n' ['+'] (by simp)⟩
  have htrim : trim (join '\n' (['+'] :: (lines ++ [last]))) =
      join '\n' (['+'] :: (lines ++ [last.rdropWhile isWhitespace])) := by
    obtain ⟨rest, hrest⟩ := hplus
    unfold trim
    rw [hjoin, hrest, List.cons_append, List.cons_append, List.dropWhile_cons_of_neg (by decide),
      ← List.cons_append, ← List.cons_append, ← hrest, rdropWhile_append _ hkept, ← hjoin]
  have hpieces : ∀ line ∈ ['+'] :: (lines ++ [last.rdropWhile isWhitespace]), '\n' ∉ line := by
    rw [List.forall_mem_cons, List.forall_mem_append, List.forall_mem_singleton]
    exact ⟨by decide, hlines, fun hmem => hlast ((List.rdropWhile_prefix _ _).subset hmem)⟩
  unfold readLibPath
  rw [if_neg, htrim, replace_join ':' hpieces]
  · unfold join
    rw [replace_intercalate (by simp) libraryPath (by decide), List.map_cons,
      replace_singleton '+' libraryPath ['+']]
    simp
  · rw [hjoin]
    simp

/-- A part of the line of a directory holds nothing but `+` that is not in the directory. -/
theorem notMem_line (h : libraryPath ≠ []) {c : Char} {dir line : Text} (hdir : c ∉ dir)
    (hc : c ≠ '+') (hline : line <+: replace libraryPath ['+'] dir) : c ∉ line := by
  intro hmem
  rcases mem_of_mem_replace h (hline.subset hmem) with hmem | hmem
  · exact hdir hmem
  · exact hc (List.mem_singleton.1 hmem)

/-- **What is read back** from what was written for some directories. -/
theorem readLibPath_genLibraryPath (h : libraryPath ≠ []) (hnewline : '\n' ∉ libraryPath)
    {entries : List Entry} (hdirs : ∀ dir ∈ newPaths libraryPath entries, Below libraryPath dir)
    {init : List Text} {last : Text} (hpaths : newPaths libraryPath entries = init ++ [last]) :
    readLibPath libraryPath (genLibraryPath libraryPath entries) =
      join ':' (libraryPath ::
        (init.map (fun dir => replace ['+'] libraryPath (replace libraryPath ['+'] dir)) ++
          [replace ['+'] libraryPath
            ((replace libraryPath ['+'] last).rdropWhile isWhitespace)])) := by
  rw [genLibraryPath_eq h hnewline (fun dir hdir => (hdirs dir hdir).colon) (by rw [hpaths]; simp)]
  rw [hpaths] at hdirs ⊢
  obtain ⟨hinit, hlast⟩ := List.forall_mem_append.1 hdirs
  rw [List.forall_mem_singleton] at hlast
  have hkept : (replace libraryPath ['+'] last).rdropWhile isWhitespace ≠ [] := by
    obtain ⟨rest, hrest⟩ := hlast.below
    rw [Ne, List.rdropWhile_eq_nil_iff, hrest, replace_append h]
    exact fun hall => absurd (hall '+' (List.mem_cons_self ..)) (by decide)
  have hlines : ∀ line ∈ init.map (replace libraryPath ['+']), '\n' ∉ line := by
    intro line hline
    obtain ⟨dir, hdir, rfl⟩ := List.mem_map.1 hline
    exact notMem_line h (hinit dir hdir).newline (by decide) (List.prefix_refl _)
  have hcut := notMem_line h hlast.newline (by decide) (List.prefix_refl _)
  rw [List.map_append, List.map_singleton, readLibPath_join libraryPath hlines hcut hkept,
    List.map_append, List.map_singleton, List.map_map]
  rfl

/-- The line of a directory, cut off at its end: it is read back as the directory exactly
if nothing was cut off and no `+` was in it but for those that stand for the library
directory. -/
theorem line_read_back_iff (h : libraryPath ≠ []) (dir : Text) :
    replace ['+'] libraryPath ((replace libraryPath ['+'] dir).rdropWhile isWhitespace) = dir ↔
      '+' ∉ outside libraryPath dir ∧
        ∀ c ∈ (replace libraryPath ['+'] dir).getLast?, isWhitespace c = false := by
  rw [replace_by_singleton h, rdropWhile_map,
    replace_back_of_prefix h '+' dir (List.rdropWhile_prefix _ _), and_comm]
  refine and_congr_right fun _ => ?_
  rw [List.rdropWhile_eq_self_iff, List.getLast?_map]
  cases hlast : (scan libraryPath dir).getLast? with
  | none =>
    rw [List.getLast?_eq_none_iff] at hlast
    simp [hlast]
  | some o =>
    obtain ⟨init, hinit⟩ := List.getLast?_eq_some_iff.1 hlast
    simp [hinit]

end

/-- **What is read back from `lib.path`**, for whatever the walk finds: the library directory
and the directories found below it, in their order, exactly if none of them has a `+`
outside the places where the library directory stands in it, and the last one does not
end in white space outside them. -/
theorem lib_path_read_back_iff {libraryPath : Text} (h : libraryPath ≠ [])
    (hcolon : ':' ∉ libraryPath) (hnewline : '\n' ∉ libraryPath) {entries : List Entry}
    (hdirs : ∀ dir ∈ newPaths libraryPath entries, Below libraryPath dir) :
    readLibPath libraryPath (genLibraryPath libraryPath entries) =
        join ':' (libraryPath :: newPaths libraryPath entries) ↔
      (∀ dir ∈ newPaths libraryPath entries, '+' ∉ outside libraryPath dir) ∧
        ∀ dir ∈ (newPaths libraryPath entries).getLast?,
          ∀ c ∈ (replace libraryPath ['+'] dir).getLast?, isWhitespace c = false := by
  have hread : ∀ {line : Text}, ':' ∉ line → ':' ∉ replace ['+'] libraryPath line :=
    fun hline hmem => (mem_of_mem_replace (by simp) hmem).elim hline hcolon
  rcases List.eq_nil_or_concat (newPaths libraryPath entries) with hnil | ⟨init, last, hconcat⟩
  · rw [genLibraryPath_of_nil h hnewline hnil, hnil]
    refine iff_of_true ?_ ⟨by simp, by simp⟩
    have hplus : replace ['\n'] [':'] (trim ['+', '\n']) = ['+'] := by decide
    unfold readLibPath join
    rw [if_neg (by simp), hplus, replace_singleton, List.intercalate_singleton]
    simp
  · rw [List.concat_eq_append] at hconcat
    rw [readLibPath_genLibraryPath h hnewline hdirs hconcat]
    rw [hconcat] at hdirs ⊢
    obtain ⟨hinit, hlast⟩ := List.forall_mem_append.1 hdirs
    rw [List.forall_mem_singleton] at hlast
    -- No piece of the search path holds a colon, so the two are compared piece by piece.
    rw [join_inj (List.cons_ne_nil _ _) (List.cons_ne_nil _ _), List.cons.injEq,
      and_iff_right rfl, List.forall_mem_append, List.forall_mem_singleton,
      List.getLast?_append_of_ne_nil _ (by simp), List.getLast?_singleton]
    · have hback := List.map_inj_left (l := init) (g := id)
        (f := fun dir => replace ['+'] libraryPath (replace libraryPath ['+'] dir))
      rw [List.map_id] at hback
      have hfirst := hback.trans (forall₂_congr fun dir _ => replace_back h '+' dir)
      have hsecond := line_read_back_iff h last
      constructor
      · intro heq
        obtain ⟨hpieces, hend⟩ := List.append_inj heq (by simp)
        obtain ⟨houtside, hwhite⟩ := hsecond.1 (List.singleton_inj.1 hend)
        refine ⟨⟨hfirst.1 hpieces, houtside⟩, fun dir hdir => ?_⟩
        rw [← Option.some.inj hdir]
        exact hwhite
      · rintro ⟨⟨hpieces, houtside⟩, hwhite⟩
        rw [hfirst.2 hpieces, hsecond.2 ⟨houtside, hwhite last rfl⟩]
    · rw [List.forall_mem_cons, List.forall_mem_append, List.forall_mem_singleton]
      refine ⟨hcolon, fun piece hmem => ?_, ?_⟩
      · obtain ⟨dir, hdir, rfl⟩ := List.mem_map.1 hmem
        exact hread (notMem_line h (hinit dir hdir).colon (by decide) (List.prefix_refl _))
      · exact hread (notMem_line h hlast.colon (by decide) (List.rdropWhile_prefix _ _))
    · exact List.forall_mem_cons.2 ⟨hcolon, fun dir hdir => (hdirs dir hdir).colon⟩

/-- The libraries of a directory and of one below it. -/
def gtkEntries (name : String) : List Entry :=
  [⟨"libgtk.so".toList, some ("/a/lib/" ++ name).toList, true⟩,
    ⟨"libim.so.1".toList, some ("/a/lib/" ++ name ++ "/im").toList, true⟩]

/-- Two directories with ordinary names. -/
theorem lib_path_read_back_iff_gtk :
    readLibPath "/a/lib".toList (genLibraryPath "/a/lib".toList (gtkEntries "gtk")) =
      join ':' ("/a/lib".toList :: newPaths "/a/lib".toList (gtkEntries "gtk")) := by
  have hpaths : newPaths "/a/lib".toList (gtkEntries "gtk") =
      ["/a/lib/gtk".toList, "/a/lib/gtk/im".toList] := by decide
  refine (lib_path_read_back_iff (by decide) (by decide) (by decide) ?_).2 ⟨?_, ?_⟩
  · rw [hpaths, List.forall_mem_cons, List.forall_mem_singleton]
    exact ⟨⟨⟨"gtk".toList, rfl⟩, by decide, by decide⟩,
      ⟨⟨"gtk/im".toList, rfl⟩, by decide, by decide⟩⟩
  · rw [hpaths, List.forall_mem_cons, List.forall_mem_singleton]
    decide
  · rw [hpaths]
    rintro last ⟨⟩ c ⟨⟩
    rfl

/-- **A `+` is read as the library directory.** -/
theorem plus_not_read_back :
    newPaths "/a/lib".toList (gtkEntries "gtk+") =
        ["/a/lib/gtk+".toList, "/a/lib/gtk+/im".toList] ∧
      readLibPath "/a/lib".toList (genLibraryPath "/a/lib".toList (gtkEntries "gtk+")) =
        "/a/lib:/a/lib/gtk/a/lib:/a/lib/gtk/a/lib/im".toList ∧
      readLibPath "/a/lib".toList (genLibraryPath "/a/lib".toList (gtkEntries "gtk+")) ≠
        join ':' ("/a/lib".toList :: newPaths "/a/lib".toList (gtkEntries "gtk+")) := by
  decide

end Launch
end Sharun
