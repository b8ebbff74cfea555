/-
# Directories of `XDG_DATA_DIRS` in another variable

`add_to_xdg_data_env` of `src/utils.rs` goes through the directories of `XDG_DATA_DIRS` from
the last one to the first and writes those that have a certain subdirectory before the ones
found so far, so that the first directory comes first.  `add_to_env` leaves an entry where it
is when it is there already.  A directory that is named more than once is therefore found at
its last place, while its priority is that of its first (`xdgOrdered_iff`).
-/

import Sharun.Basis.Occurrences
import Sharun.Launch.AddToEnv

namespace Sharun
namespace Launch

open Sharun.Basis

/-- `add_to_xdg_data_env(xdg_data_dirs, env, path)`. -/
def addToXdgDataEnv (pathExists : Text → Bool) (vars : Vars) (xdgDataDirs env path : Text) :
    Vars :=
  (xdgDataDirs.splitOn ':').reverse.foldl (fun vars xdgDataDir =>
    let envDataDir := pathJoin xdgDataDir path
    if pathExists envDataDir then addToEnv vars env envDataDir else vars) vars

/-- The variables `set_share_env` fills in this way, and the subdirectories they are for. -/
def xdgDataEnvs : List (Text × Text) :=
  [("GSETTINGS_SCHEMA_DIR".toList, "glib-2.0/schemas".toList),
    ("__EGL_VENDOR_LIBRARY_DIRS".toList, "glvnd/egl_vendor.d".toList),
    ("VK_DRIVER_FILES".toList, "vulkan/icd.d".toList)]

/-- The subdirectories that exist, in the order of `XDG_DATA_DIRS`. -/
def existingDirs (pathExists : Text → Bool) (xdgDataDirs path : Text) : List Text :=
  ((xdgDataDirs.splitOn ':').map (pathJoin · path)).filter pathExists

variable {pathExists : Text → Bool} {vars : Vars} {xdgDataDirs env path val : Text}

theorem pathJoin_colon {dir : Text} (hdir : ':' ∉ dir) (hpath : ':' ∉ path) :
    ':' ∉ pathJoin dir path := by
  unfold pathJoin
  split_ifs <;> simp [hdir, hpath]

theorem pathJoin_ne_nil (dir : Text) (hpath : path ≠ []) : pathJoin dir path ≠ [] := by
  unfold pathJoin
  split_ifs <;> simp [hpath]

/-- The subdirectories can be entries. -/
theorem existingDirs_entries (hne : path ≠ []) (hcolon : ':' ∉ path) :
    ∀ dir ∈ existingDirs pathExists xdgDataDirs path, dir ≠ [] ∧ ':' ∉ dir := by
  intro dir hdir
  obtain ⟨d, hd, rfl⟩ := List.mem_map.1 (List.mem_filter.1 hdir).1
  exact ⟨pathJoin_ne_nil d hne, pathJoin_colon (notMem_of_mem_splitOn hd) hcolon⟩

/-- The loop adds the subdirectories that exist, from the last one on. -/
theorem addToXdgDataEnv_eq : addToXdgDataEnv pathExists vars xdgDataDirs env path =
    (existingDirs pathExists xdgDataDirs path).reverse.foldl (fun vars dir => addToEnv vars env dir)
      vars := by
  unfold addToXdgDataEnv existingDirs
  rw [← List.filter_reverse, ← List.map_reverse, List.foldl_filter, List.foldl_map]

/-! ### Entries added to a text -/

/-- The entries of a variable. -/
def listOf (vars : Vars) (env : Text) : List Text := elements ':' (getEnvVar vars env)

theorem listOf_addToEnv (hne : val ≠ []) (hcolon : ':' ∉ val) :
    listOf (addToEnv vars env val) env = (listOf vars env).insert val := by
  unfold listOf
  rw [addToEnv_eq vars env hcolon]
  split_ifs with hin
  · exact (List.insert_of_mem hin).symm
  · rw [getEnvVar, Function.update_self, Option.getD_some, elements_prepend hne hcolon,
      List.insert_of_not_mem hin]

theorem addToEnv_of_mem (hcolon : ':' ∉ val) (hin : val ∈ listOf vars env) :
    addToEnv vars env val = vars := by
  rw [addToEnv_eq vars env hcolon]
  exact if_pos hin

theorem listOf_foldl {dirs : List Text} (h : ∀ dir ∈ dirs, dir ≠ [] ∧ ':' ∉ dir) :
    listOf (dirs.foldl (fun vars dir => addToEnv vars env dir) vars) env =
      dirs.foldl (fun l dir => l.insert dir) (listOf vars env) := by
  induction dirs generalizing vars with
  | nil => rfl
  | cons dir dirs ih =>
    obtain ⟨⟨hne, hcolon⟩, hdirs⟩ := List.forall_mem_cons.1 h
    rw [List.foldl_cons, List.foldl_cons, ih hdirs, listOf_addToEnv hne hcolon]

theorem foldl_addToEnv_of_mem {dirs : List Text}
    (h : ∀ dir ∈ dirs, ':' ∉ dir ∧ dir ∈ listOf vars env) :
    dirs.foldl (fun vars dir => addToEnv vars env dir) vars = vars := by
  induction dirs with
  | nil => rfl
  | cons dir dirs ih =>
    obtain ⟨⟨hcolon, hin⟩, hdirs⟩ := List.forall_mem_cons.1 h
    rw [List.foldl_cons, addToEnv_of_mem hcolon hin]
    exact ih hdirs

/-! ### What the variable holds -/

/-- **The variable holds each subdirectory that exists once**, at the place of its last
occurrence. -/
theorem listOf_addToXdgDataEnv (hunset : vars env = none) (hne : path ≠ [])
    (hcolon : ':' ∉ path) : listOf (addToXdgDataEnv pathExists vars xdgDataDirs env path) env =
      (existingDirs pathExists xdgDataDirs path).dedup := by
  have hdirs : ∀ dir ∈ existingDirs pathExists xdgDataDirs path, dir ≠ [] ∧ ':' ∉ dir :=
    existingDirs_entries hne hcolon
  have hnone : listOf vars env = [] := by
    unfold listOf getEnvVar
    rw [hunset]
    rfl
  rw [addToXdgDataEnv_eq, listOf_foldl fun dir hdir => hdirs dir (List.mem_reverse.1 hdir), hnone]
  exact foldl_insert_reverse (existingDirs pathExists xdgDataDirs path)

/-- **A second run changes nothing.** -/
theorem addToXdgDataEnv_again (hne : path ≠ []) (hcolon : ':' ∉ path) :
    addToXdgDataEnv pathExists (addToXdgDataEnv pathExists vars xdgDataDirs env path) xdgDataDirs
      env path = addToXdgDataEnv pathExists vars xdgDataDirs env path := by
  have hdirs : ∀ dir ∈ existingDirs pathExists xdgDataDirs path, dir ≠ [] ∧ ':' ∉ dir :=
    existingDirs_entries hne hcolon
  rw [addToXdgDataEnv_eq]
  refine foldl_addToEnv_of_mem fun dir hdir => ⟨(hdirs dir (List.mem_reverse.1 hdir)).2, ?_⟩
  rw [addToXdgDataEnv_eq, listOf_foldl fun dir hdir => hdirs dir (List.mem_reverse.1 hdir),
    mem_foldl_insert]
  exact .inr hdir

/-- The variable holds the subdirectories that exist, each once, in the order in which
`XDG_DATA_DIRS` first names them, and a second run changes nothing. -/
def XdgOrdered (pathExists : Text → Bool) (vars : Vars) (xdgDataDirs env path : Text) : Prop :=
  let after := addToXdgDataEnv pathExists vars xdgDataDirs env path
  listOf after env = firstOccurrences (existingDirs pathExists xdgDataDirs path) ∧
    addToXdgDataEnv pathExists after xdgDataDirs env path = after

/-- The two orders of the subdirectories are one, where the variable is filled as it is to be. -/
theorem XdgOrdered.sameOrder (h : XdgOrdered pathExists vars xdgDataDirs env path)
    (hunset : vars env = none) (hne : path ≠ []) (hcolon : ':' ∉ path) :
    SameOrder (existingDirs pathExists xdgDataDirs path) := by
  obtain ⟨hlist, -⟩ := h
  rw [listOf_addToXdgDataEnv hunset hne hcolon] at hlist
  exact firstOccurrences_eq_dedup_iff.1 hlist.symm

/-- **The priorities are those of `XDG_DATA_DIRS`** when, of two subdirectories that exist, the
one that is named first is also the one whose last mention comes first. -/
theorem xdgOrdered_iff (hunset : vars env = none) (hne : path ≠ []) (hcolon : ':' ∉ path) :
    XdgOrdered pathExists vars xdgDataDirs env path ↔
      SameOrder (existingDirs pathExists xdgDataDirs path) := by
  refine ⟨fun h => h.sameOrder hunset hne hcolon, fun h => ?_⟩
  refine ⟨?_, addToXdgDataEnv_again hne hcolon⟩
  rw [listOf_addToXdgDataEnv hunset hne hcolon]
  exact (firstOccurrences_eq_dedup_iff.2 h).symm

/-- The variables that are filled in this way fulfil the assumptions. -/
theorem xdgOrdered_iff_vulkan :
    XdgOrdered (fun _ => true) (fun _ => none) "/a:/b".toList "VK_DRIVER_FILES".toList
        "vulkan/icd.d".toList ↔
      SameOrder (existingDirs (fun _ => true) "/a:/b".toList "vulkan/icd.d".toList) :=
  xdgOrdered_iff rfl (by decide) (by decide)

/-- With `/a` named again at the end, `/b` comes first. -/
theorem xdg_named_again :
    ¬∀ (pathExists : Text → Bool) (vars : Vars) (xdgDataDirs env path : Text), vars env = none →
      (env, path) ∈ xdgDataEnvs → XdgOrdered pathExists vars xdgDataDirs env path := by
  intro hall
  have h := hall (fun _ => true) (fun _ => none) "/a:/b:/a".toList "VK_DRIVER_FILES".toList
    "vulkan/icd.d".toList rfl (by decide)
  have horder := h.sameOrder rfl (by decide) (by decide)
  revert horder
  decide

end Launch
end Sharun
