/-
# Looking up a path

A file tree has objects of three kinds: directories, in which names lead to objects,
symbolic links, which hold a path, and everything else.  `walk` follows the components of
a path from an object on: every component but the last has to lead to a directory, a
symbolic link is followed by walking its path first, and one at the end of the path only
on request.  Links may lead in a circle, so no more than so many of them are followed.

In a tree where every name leads to a directory no walk fails (`walk_full`).
-/

import Mathlib.Data.List.Basic

namespace Sharun
namespace Basis

/-- One step of a path. -/
inductive Component (N : Type*)
  | here
  | up
  | name (n : N)

structure Path (N : Type*) where
  absolute : Bool
  components : List (Component N)

/-- An object of a file tree. -/
inductive Kind (ν N : Type*)
  | directory (parent : ν) (entries : N → Option ν)
  | symlink (target : Path N)
  | other

structure FileTree (ν N : Type*) where
  root : ν
  kind : ν → Kind ν N

/-- Why a path leads nowhere. -/
inductive LookupError
  | notFound
  | notDirectory
  | tooManyLinks
  | badDescriptor
  deriving DecidableEq

namespace FileTree

variable {ν N : Type*} {T : FileTree ν N}

/-- A walk, with what becomes of it at a symbolic link that is followed: a function of the
directory the link is in, its path, and the components after it. -/
def walkWith (T : FileTree ν N) (onLink : ν → Path N → List (Component N) → Except LookupError ν)
    (follow : Bool) : ν → List (Component N) → Except LookupError ν
  | x, [] => .ok x
  | x, c :: cs =>
    match T.kind x with
    | .directory parent entries =>
      match c with
      | .here => walkWith T onLink follow x cs
      | .up => walkWith T onLink follow parent cs
      | .name n =>
        match entries n with
        | none => .error .notFound
        | some next =>
          match T.kind next with
          | .symlink target =>
            if cs.isEmpty && !follow then .ok next else onLink x target cs
          | _ => walkWith T onLink follow next cs
    | _ => .error .notDirectory

/-- The object a path leads to from another one, when no more than `links` symbolic links
are met. -/
def walk (T : FileTree ν N) (follow : Bool) : ℕ → ν → List (Component N) → Except LookupError ν
  | 0 => T.walkWith (fun _ _ _ => .error .tooManyLinks) follow
  | links + 1 => T.walkWith (fun x target cs =>
      T.walk follow links (if target.absolute then T.root else x) (target.components ++ cs)) follow

/-- Whether an object is a directory. -/
def isDirectory (T : FileTree ν N) (x : ν) : Bool :=
  match T.kind x with
  | .directory _ _ => true
  | _ => false

/-- A part of a tree that no name leads out of: directories that lack no entry. -/
def Full (T : FileTree ν N) (S : Set ν) : Prop :=
  ∀ x ∈ S, ∃ parent entries, T.kind x = .directory parent entries ∧ parent ∈ S ∧
    ∀ n, ∃ next ∈ S, entries n = some next

/-- **Where every name leads on, no walk fails.** -/
theorem walk_full {S : Set ν} (h : T.Full S) (follow : Bool) (links : ℕ) {x : ν} (hx : x ∈ S)
    (cs : List (Component N)) : ∃ y ∈ S, T.walk follow links x cs = .ok y := by
  have hwalk : ∀ onLink, ∃ y ∈ S, T.walkWith onLink follow x cs = .ok y := by
    intro onLink
    induction cs generalizing x with
    | nil => exact ⟨x, hx, rfl⟩
    | cons c cs ih =>
      obtain ⟨parent, entries, hkind, hparent, hentries⟩ := h x hx
      rw [walkWith, hkind]
      cases c with
      | here => exact ih hx
      | up => exact ih hparent
      | name n =>
        obtain ⟨next, hnext, hentry⟩ := hentries n
        obtain ⟨_, _, hnextKind, -, -⟩ := h next hnext
        dsimp only
        rw [hentry]
        dsimp only
        rw [hnextKind]
        exact ih hnext
  cases links with
  | zero => exact hwalk _
  | succ links => exact hwalk _

end FileTree
end Basis
end Sharun
