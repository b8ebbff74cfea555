/-
# The system's `bwrap`

Without a `bwrap` of its own an AppImage runs the one of the system.  `find_system_bwrap` of
`src/bwrap_wrapper.rs` looks for it along a search path and passes over `sharun` itself,
which is also found under that name.  It tells `sharun` by `is_hardlink` of `src/utils.rs`,
which compares inode numbers.  Those repeat across file systems, so that a `bwrap` with the
number of `sharun` on another device is passed over as well (`findSystemBwrap_iff`).
-/

import Sharun.Launch.Text

namespace Sharun
namespace Launch

open Sharun.Basis

/-- What `path.metadata()` tells of a file: which it is, and what it is. -/
structure Metadata where
  dev : ℕ
  ino : ℕ
  isFile : Bool
  mode : BitVec 32
  deriving DecidableEq

/-- The state of the file system: what the paths lead to. -/
abbrev Files := Text → Option Metadata

/-- `is_exe(path)`. -/
def Files.isExe (files : Files) (path : Text) : Bool :=
  match files path with
  | some metadata => metadata.isFile && metadata.mode &&& 0o111 ≠ 0
  | none => false

/-- `is_hardlink(path1, path2)`. -/
def Files.isHardlink (files : Files) (path1 path2 : Text) : Bool :=
  match files path1 with
  | some metadata1 =>
    match files path2 with
    | some metadata2 => metadata1.ino = metadata2.ino
    | none => false
  | none => false

/-- The candidate of a directory of the search path. -/
def bwrapIn (dir : Text) : Text := dir ++ "/bwrap".toList

/-- The loop of `find_system_bwrap`. -/
def findBwrapIn (files : Files) (sharun : Text) : List Text → Option Text
  | [] => none
  | dir :: dirs =>
    if dir = [] then findBwrapIn files sharun dirs
    else
      let candidate := bwrapIn dir
      if files.isExe candidate && !files.isHardlink sharun candidate then some candidate
      else findBwrapIn files sharun dirs

/-- `find_system_bwrap(search_path, sharun)`. -/
def findSystemBwrap (files : Files) (searchPath sharun : Text) : Option Text :=
  findBwrapIn files sharun (searchPath.splitOn ':')

/-! ### The first one that will do -/

/-- Two paths lead to one file: its device and its number there are the same. -/
def Files.sameFile (files : Files) (path1 path2 : Text) : Bool :=
  match files path1, files path2 with
  | some metadata1, some metadata2 =>
    metadata1.dev = metadata2.dev && metadata1.ino = metadata2.ino
  | _, _ => false

/-- The `bwrap` of a directory can be run in place of the missing one. -/
def Files.usable (files : Files) (sharun dir : Text) : Bool :=
  dir ≠ [] && files.isExe (bwrapIn dir) && !files.sameFile sharun (bwrapIn dir)

/-- The loop runs the `bwrap` of this directory. -/
def Files.taken (files : Files) (sharun dir : Text) : Bool :=
  dir ≠ [] && files.isExe (bwrapIn dir) && !files.isHardlink sharun (bwrapIn dir)

variable {files : Files} {sharun dir : Text}

theorem findBwrapIn_eq (files : Files) (sharun : Text) (dirs : List Text) :
    findBwrapIn files sharun dirs = (dirs.find? (files.taken sharun)).map bwrapIn := by
  induction dirs with
  | nil => rfl
  | cons dir dirs ih =>
    rw [findBwrapIn, List.find?_cons, ih]
    by_cases hne : dir = []
    · rw [if_pos hne, Files.taken, hne]
      rfl
    · rw [if_neg hne]
      cases htaken : files.isExe (bwrapIn dir) && !files.isHardlink sharun (bwrapIn dir) <;>
        simp [Files.taken, hne, htaken]

/-- A file has one number. -/
theorem isHardlink_of_sameFile {path1 path2 : Text} (h : files.sameFile path1 path2 = true) :
    files.isHardlink path1 path2 = true := by
  unfold Files.sameFile at h
  unfold Files.isHardlink
  cases h1 : files path1 with
  | none => rw [h1] at h; exact absurd h (by simp)
  | some metadata1 =>
    cases h2 : files path2 with
    | none => rw [h1, h2] at h; exact absurd h (by simp)
    | some metadata2 =>
      rw [h1, h2] at h
      simpa using (Bool.and_eq_true_iff.1 h).2

theorem usable_of_taken (h : files.taken sharun dir = true) : files.usable sharun dir = true := by
  unfold Files.taken at h
  unfold Files.usable
  rw [Bool.and_eq_true, Bool.not_eq_true'] at h ⊢
  refine ⟨h.1, ?_⟩
  by_contra hsame
  rw [isHardlink_of_sameFile (by simpa using hsame)] at h
  exact absurd h.2 (by simp)

theorem taken_iff (h : files.usable sharun dir = true) :
    files.taken sharun dir = true ↔ files.isHardlink sharun (bwrapIn dir) = false := by
  unfold Files.usable at h
  unfold Files.taken
  rw [(Bool.and_eq_true_iff.1 h).1, Bool.true_and, Bool.not_eq_true']

/-- Looking for less finds the same when what is found first is among it. -/
theorem find?_eq_iff {α : Type*} {p q : α → Bool} (hpq : ∀ a, p a = true → q a = true)
    (l : List α) : l.find? p = l.find? q ↔ ∀ a, l.find? q = some a → p a = true := by
  constructor
  · intro h a ha
    exact List.find?_some (h.trans ha)
  · intro h
    cases hq : l.find? q with
    | none =>
      rw [List.find?_eq_none] at hq ⊢
      exact fun a ha hp => hq a ha (hpq a hp)
    | some a =>
      obtain ⟨-, before, after, hl, hbefore⟩ := List.find?_eq_some_iff_append.1 hq
      refine List.find?_eq_some_iff_append.2 ⟨h a hq, before, after, hl, fun b hb => ?_⟩
      have hnot := hbefore b hb
      rw [Bool.not_eq_true'] at hnot ⊢
      by_contra hp
      rw [hpq b (by simpa using hp)] at hnot
      exact absurd hnot (by simp)

/-- **The first usable `bwrap` is found** when it does not share its inode number with
`sharun`, which then lies on another device. -/
theorem findSystemBwrap_iff (files : Files) (searchPath sharun : Text) :
    findSystemBwrap files searchPath sharun =
        ((searchPath.splitOn ':').find? (files.usable sharun)).map bwrapIn ↔
      ∀ dir, (searchPath.splitOn ':').find? (files.usable sharun) = some dir →
        files.isHardlink sharun (bwrapIn dir) = false := by
  have hinj : Function.Injective bwrapIn := fun _ _ h => List.append_cancel_right h
  rw [findSystemBwrap, findBwrapIn_eq, (Option.map_injective hinj).eq_iff,
    find?_eq_iff fun _ => usable_of_taken]
  exact forall₂_congr fun dir hdir => taken_iff (List.find?_some hdir)

/-- An AppImage on device 1 and a system on device 2, each with a file of number 7. -/
def collision : Files := fun path =>
  if path = "/mnt/sharun".toList then some ⟨1, 7, true, 0o755⟩
  else if path = "/bin/bwrap".toList then some ⟨2, 7, true, 0o755⟩
  else none

/-- The system's `bwrap` is taken for `sharun`. -/
theorem bwrap_lost :
    ¬∀ (files : Files) (searchPath sharun : Text), findSystemBwrap files searchPath sharun =
      ((searchPath.splitOn ':').find? (files.usable sharun)).map bwrapIn := by
  intro hall
  have h := hall collision "/bin".toList "/mnt/sharun".toList
  revert h
  decide

end Launch
end Sharun
