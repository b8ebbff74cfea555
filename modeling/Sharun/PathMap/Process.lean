/-
# A process among mapped directories

A process that runs with the library of `lib/path-mapping.c` changes its current directory,
asks for it, and hands paths to functions that take one.  Each of these goes through
`fix_path`, and the kernel gets what is made of the path.

To such a process the directories seem to be where their names say (`run_names`): its current
directory is called by the location its paths have led to by their text, and every path it
uses leads to the place of the location it means.  It has to keep to the names, though: a
relative path that leads out of a directory that is kept elsewhere is handed on as it is, and
the kernel follows it from the place (`Ok.anchored`).
-/

import Sharun.Basis.Located
import Sharun.PathMap.Environment

namespace Sharun
namespace PathMap

open Sharun.Basis
open Sharun.Launch (Text)

variable (L : Layer) (T : FileTree (List Text) Text)

/-- How many symbolic links the kernel follows. -/
def SYMLINKS : ℕ := 40

/-- The object the kernel finds under a path. -/
def lookup (cwd : List Text) (path : Text) : Option (List Text) :=
  if path = [] then none
  else (T.walk true SYMLINKS (if path.head? = some '/' then T.root else cwd)
    (components path)).toOption

/-- The only symbolic link is the one to the current directory. -/
def kernelReadlink (cwd : List Text) (path : Text) : Option Text :=
  if path = PROC_SELF_CWD then some (pathOf cwd) else none

/-- The object a function finds under the path it is called with. -/
def call (functionName : Text) (cwd : List Text) (path : Text) : Safe (Option (List Text)) :=
  (fixPath L (kernelReadlink cwd) functionName path).map fun fixed =>
    lookup T cwd (fixed.getD path)

/-- A call of a function with a path, or of `chdir`. -/
inductive Event
  | chdir (path : Text)
  | use (functionName path : Text)

def Event.functionName : Event → Text
  | .chdir _ => "chdir".toList
  | .use functionName _ => functionName

def Event.path : Event → Text
  | .chdir path => path
  | .use _ path => path

/-- The current directory after a call. -/
def step (cwd : List Text) : Event → List Text
  | .chdir path =>
    match call L T "chdir".toList cwd path with
    | some (some found) => if T.isDirectory found then found else cwd
    | _ => cwd
  | .use _ _ => cwd

/-- The name of the current directory after a call, where directories are where their names
say. -/
def stepName (name : List Text) : Event → List Text
  | .chdir path =>
    if T.isDirectory (L.place (followPath name path)) then followPath name path else name
  | .use _ _ => name

/-- A process is in the directory its name leads to. -/
structure Settled (cwd : List Text) : Prop where
  proper : ∀ name ∈ cwd, Proper name
  isDirectory : T.isDirectory cwd = true
  place_name : L.place (L.nameOf cwd) = cwd
  fits : (render cwd).length + 2 < MAX_PATH
  fitsName : (pathOf (L.nameOf cwd)).length + 1 < MAX_PATH

/-- What a call has to heed. -/
structure Ok (cwd : List Text) (e : Event) : Prop where
  nonempty : e.path ≠ []
  search : '/' ∈ e.path ∨ e.functionName ∉ searchFunctions
  fits : (joinBase (pathOf (L.nameOf cwd)) e.path).length + 1 < MAX_PATH
  fitsPlace : (render (L.place (followPath (L.nameOf cwd) e.path))).length + 2 < MAX_PATH
  /-- No place is named but by the name of what is kept there. -/
  named : ¬∃ d ∈ table L.config.mappings, d.2 <+: followPath (L.nameOf cwd) e.path
  /-- A relative path does not lead out of a directory that is kept elsewhere. -/
  anchored : e.path.head? = some '/' ∨
    L.place (followPath (L.nameOf cwd) e.path) ≠ followPath (L.nameOf cwd) e.path ∨
      L.nameOf cwd = cwd
  /-- A directory that is where its name says is found by the path. -/
  found : T.isDirectory (followPath (L.nameOf cwd) e.path) = true →
    L.place (followPath (L.nameOf cwd) e.path) = followPath (L.nameOf cwd) e.path →
      (lookup T cwd e.path).isSome = true

variable {L T} {cwd : List Text} {e : Event}

/-! ### What the kernel finds -/

/-- What is found under a path is where the path leads. -/
theorem eq_of_lookup (hT : T.Located) {path : Text} {found : List Text}
    (h : lookup T cwd path = some found) : found = followPath cwd path := by
  rw [lookup] at h
  by_cases hnil : path = []
  · rw [if_pos hnil] at h
    exact absurd h (by simp)
  · rw [if_neg hnil, hT.root] at h
    unfold followPath
    cases hwalk : T.walk true SYMLINKS (if path.head? = some '/' then [] else cwd)
        (components path) with
    | error e => rw [hwalk] at h; exact absurd h (by simp [Except.toOption])
    | ok y =>
      rw [hwalk] at h
      exact (Option.some.inj h) ▸ FileTree.eq_lexical_of_walk hT hwalk

/-- A directory is found under its path. -/
theorem lookup_normalized (hT : T.Located) {path : Text} {loc : List Text}
    (hpath : Normalized path loc) (hdir : T.isDirectory loc = true) :
    lookup T cwd path = some loc := by
  have hne : path ≠ [] := by
    intro hnil
    have hhead := hpath.head?
    rw [hnil] at hhead
    exact absurd hhead (by simp)
  obtain ⟨cs, hcomponents, hcs⟩ := hpath.components
  have hroot : T.isDirectory [] = true := FileTree.isDirectory_of_append hT [] loc hdir
  have hwalk := FileTree.walk_names hT true SYMLINKS [] loc hdir hcs
  rw [lookup, if_neg hne, if_pos hpath.head?, hT.root, hcomponents,
    FileTree.walk_here_cons hroot, hwalk, List.nil_append]
  rfl

/-- A normalized path leads to its location from anywhere. -/
theorem followPath_normalized {path : Text} {loc : List Text} (hpath : Normalized path loc)
    (start : List Text) : followPath start path = loc := by
  rw [followPath, if_pos hpath.head?, hpath.lexical]

/-- The current directory is found under a dot. -/
theorem lookup_dot (hdir : T.isDirectory cwd = true) : lookup T cwd ['.'] = some cwd := by
  have hcomponents : components ['.'] = [.here] := rfl
  rw [lookup, if_neg (by simp), if_neg (by simp), hcomponents, FileTree.walk_here_cons hdir]
  rfl

/-! ### One call -/

/-- **One call.**  What it finds is at the place its path means, and when there is a directory
it is found. -/
theorem found_ok (hL : L.Plain) (hT : T.Located) {link : Text → Option Text}
    (hlink : link PROC_SELF_CWD = some (pathOf cwd)) (hcwd : Settled L T cwd)
    (h : Ok L T cwd e) :
    ∃ found, ((fixPath L link e.functionName e.path).map fun fixed =>
        lookup T cwd (fixed.getD e.path)) = some found ∧
      (∀ x, found = some x → x = L.place (followPath (L.nameOf cwd) e.path)) ∧
      (T.isDirectory (L.place (followPath (L.nameOf cwd) e.path)) = true →
        found = some (L.place (followPath (L.nameOf cwd) e.path))) := by
  by_cases hdot : e.path = ['.']
  · have hfollow : followPath (L.nameOf cwd) e.path = L.nameOf cwd := by
      rw [hdot]
      rfl
    have hfix : fixPath L link e.functionName e.path = some none := by
      rw [fixPath, pmFixPathCommon, if_pos hdot]
    refine ⟨some cwd, ?_, ?_, ?_⟩
    · rw [hfix, Option.map_some, Option.getD_none, hdot, lookup_dot hcwd.isDirectory]
    · rintro x hx
      rw [hfollow, hcwd.place_name]
      exact (Option.some.inj hx).symm
    · intro _
      rw [hfollow, hcwd.place_name]
  · have hlength : (pathOf cwd).length < MAX_PATH := by
      have hle := (normalized_pathOf hcwd.proper).length_le
      have hfits := hcwd.fits
      omega
    have hfits := h.fits
    obtain ⟨text, htext, hfix⟩ := fixPath_plain hL hcwd.proper hlink hlength hcwd.fitsName
      e.functionName hdot h.search (by omega) h.fitsPlace
    rw [hfix, Option.map_some]
    refine ⟨_, rfl, ?_⟩
    by_cases hplace : L.place (followPath (L.nameOf cwd) e.path) =
        followPath (L.nameOf cwd) e.path
    · have hsame : followPath cwd e.path = followPath (L.nameOf cwd) e.path := by
        rcases h.anchored with habsolute | hmoved | hname
        · rw [followPath, followPath, if_pos habsolute, if_pos habsolute]
        · exact absurd hplace hmoved
        · rw [hname]
      rw [if_pos hplace, Option.getD_none]
      refine ⟨fun x hx => ?_, fun hdir => ?_⟩
      · rw [eq_of_lookup hT hx, hsame, hplace]
      · rw [hplace] at hdir ⊢
        obtain ⟨x, hx⟩ := Option.isSome_iff_exists.1 (h.found hdir hplace)
        rw [hx, eq_of_lookup hT hx, hsame]
    · rw [if_neg hplace, Option.getD_some]
      refine ⟨fun x hx => ?_, lookup_normalized hT htext⟩
      rw [eq_of_lookup hT hx, followPath_normalized htext]

theorem call_ok (hL : L.Plain) (hT : T.Located) (hcwd : Settled L T cwd) (h : Ok L T cwd e) :
    ∃ found, call L T e.functionName cwd e.path = some found ∧
      (∀ x, found = some x → x = L.place (followPath (L.nameOf cwd) e.path)) ∧
      (T.isDirectory (L.place (followPath (L.nameOf cwd) e.path)) = true →
        found = some (L.place (followPath (L.nameOf cwd) e.path))) :=
  found_ok hL hT (show kernelReadlink cwd PROC_SELF_CWD = some (pathOf cwd) from if_pos rfl) hcwd h

/-- The name of the place of a location that is named by its name is this name. -/
theorem nameOf_place (hL : L.Plain) {loc : List Text}
    (hnamed : ¬∃ d ∈ table L.config.mappings, d.2 <+: loc) : L.nameOf (L.place loc) = loc := by
  by_cases hplace : L.place loc = loc
  · rw [hplace]
    exact pathOf_of_not_kept hnamed
  · rw [(forward_eq_of_place hplace).2]
    exact backward_forward (List.pairwise_append.1 hL.apart).2.1 hnamed

theorem proper_place {loc : List Text} (hloc : ∀ name ∈ loc, Proper name) :
    ∀ name ∈ L.place loc, Proper name := by
  unfold Layer.place
  split_ifs
  · exact hloc
  · exact forward_proper hloc

/-- A directory that is named by its name is one a process can be in. -/
theorem settled_place {loc : List Text} (hloc : ∀ name ∈ loc, Proper name)
    (hname : L.nameOf (L.place loc) = loc) (hdir : T.isDirectory (L.place loc) = true)
    (hplace : (render (L.place loc)).length + 2 < MAX_PATH)
    (hfits : (pathOf loc).length + 1 < MAX_PATH) : Settled L T (L.place loc) where
  proper := proper_place hloc
  isDirectory := hdir
  place_name := by rw [hname]
  fits := hplace
  fitsName := by rwa [hname]

/-- **One step.**  A process stays in the directory its name leads to, and the name changes as
if directories were where their names say. -/
theorem step_ok (hL : L.Plain) (hT : T.Located) (hcwd : Settled L T cwd) (h : Ok L T cwd e) :
    Settled L T (step L T cwd e) ∧ L.nameOf (step L T cwd e) = stepName L T (L.nameOf cwd) e := by
  cases e with
  | use functionName path => exact ⟨hcwd, rfl⟩
  | chdir path =>
    obtain ⟨found, hcall, hplace, hdirectory⟩ := call_ok hL hT hcwd h
    change call L T "chdir".toList cwd path = some found at hcall
    change ∀ x, found = some x → x = L.place (followPath (L.nameOf cwd) path) at hplace
    by_cases hdir : T.isDirectory (L.place (followPath (L.nameOf cwd) path)) = true
    · have hname := nameOf_place hL h.named
      change L.nameOf (L.place (followPath (L.nameOf cwd) path)) = _ at hname
      have hstep : step L T cwd (.chdir path) = L.place (followPath (L.nameOf cwd) path) := by
        rw [step, hcall, hdirectory hdir]
        exact if_pos hdir
      have hle := length_pathOf_followPath_le (proper_nameOf (L := L) hcwd.proper) path
      have hfits := h.fits
      rw [hstep, stepName, if_pos hdir, hname]
      refine ⟨settled_place ?_ hname hdir h.fitsPlace ?_, rfl⟩
      · exact fun n => proper_of_mem_followPath (proper_nameOf hcwd.proper)
      · exact (Nat.add_le_add_right hle 1).trans_lt hfits
    · have hstep : step L T cwd (.chdir path) = cwd := by
        rw [step, hcall]
        cases found with
        | none => rfl
        | some x => exact if_neg (hplace x rfl ▸ hdir)
      rw [hstep, stepName, if_neg hdir]
      exact ⟨hcwd, rfl⟩

/-! ### Whole runs -/

theorem run_settled (hL : L.Plain) (hT : T.Located) {es : List Event} :
    ∀ {cwd : List Text}, Settled L T cwd → Along (step L T) (Ok L T) cwd es →
      Settled L T (es.foldl (step L T) cwd) ∧
        L.nameOf (es.foldl (step L T) cwd) = es.foldl (stepName L T) (L.nameOf cwd) := by
  induction es with
  | nil => exact fun hcwd _ => ⟨hcwd, rfl⟩
  | cons e es ih =>
    rintro cwd hcwd ⟨he, hes⟩
    obtain ⟨hsettled, hname⟩ := step_ok hL hT hcwd he
    rw [List.foldl_cons, List.foldl_cons, ← hname]
    exact ih hsettled hes

/-- **Directories seem to be where their names say.**  After any run of calls that keep to the
names, `getcwd` tells the location the paths of the successful calls of `chdir` have led to by
their text, and a further call finds under its path what is at the place of the location
the path leads to. -/
theorem run_names (hL : L.Plain) (hT : T.Located) (hcwd : Settled L T cwd) (es : List Event)
    (hes : Along (step L T) (Ok L T) cwd es) :
    getcwd L (pathOf (es.foldl (step L T) cwd)) MAX_PATH =
        some (some (pathOf (es.foldl (stepName L T) (L.nameOf cwd)))) ∧
      ∀ e, Ok L T (es.foldl (step L T) cwd) e →
        ∃ found, call L T e.functionName (es.foldl (step L T) cwd) e.path = some found ∧
          (∀ x, found = some x →
            x = L.place (followPath (es.foldl (stepName L T) (L.nameOf cwd)) e.path)) ∧
          (T.isDirectory (L.place (followPath (es.foldl (stepName L T) (L.nameOf cwd)) e.path)) =
            true → found = some
              (L.place (followPath (es.foldl (stepName L T) (L.nameOf cwd)) e.path))) := by
  obtain ⟨hsettled, hname⟩ := run_settled hL hT hcwd hes
  rw [← hname]
  have hfits := hsettled.fitsName
  exact ⟨getcwd_plain hL hsettled.proper hfits (by omega), fun e he => call_ok hL hT hsettled he⟩

/-- A tree in which every location is a directory. -/
def allDirectories : FileTree (List Text) Text :=
  ⟨[], fun x => .directory x.dropLast fun n => some (x ++ [n])⟩

theorem located_allDirectories : allDirectories.Located where
  root := rfl
  noLink := fun _ _ h => by cases h
  parent := fun h => by cases h; rfl
  entry := fun h hn => by cases h; exact (Option.some.inj hn).symm
  entered := fun _ => ⟨_, _, rfl, rfl⟩

/-- Where `/usr` is kept in `/app`, a process that goes to `/usr/lib` and up from there is in
`/usr` as far as it is told. -/
theorem run_names_usr :
    getcwd usrLayer (pathOf ([.chdir "/usr/lib".toList, .chdir "..".toList].foldl
        (step usrLayer allDirectories) [])) MAX_PATH = some (some "/usr".toList) := by
  have hsettled : Settled usrLayer allDirectories [] :=
    ⟨fun _ h => absurd h List.not_mem_nil, rfl, by decide, by decide, by decide⟩
  have hcwd : step usrLayer allDirectories [] (.chdir "/usr/lib".toList) =
      ["app".toList, "lib".toList] := by decide
  have hfirst : Ok usrLayer allDirectories [] (.chdir "/usr/lib".toList) :=
    ⟨by decide, by decide, by decide, by decide, by decide, by decide,
      fun _ h => absurd h (by decide)⟩
  have hsecond : Ok usrLayer allDirectories ["app".toList, "lib".toList] (.chdir "..".toList) :=
    ⟨by decide, by decide, by decide, by decide, by decide, by decide,
      fun _ h => absurd h (by decide)⟩
  exact (run_names plain_usrLayer located_allDirectories hsettled
    [.chdir "/usr/lib".toList, .chdir "..".toList] ⟨hfirst, hcwd ▸ hsecond, trivial⟩).1

end PathMap
end Sharun
