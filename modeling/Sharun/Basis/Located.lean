/-
# Trees without links

In a tree whose objects are their locations a name leads from a directory one level down, and
nothing leads anywhere else (`Located`).  A walk then ends where its path leads by its text
(`eq_lexical_of_walk`), and every directory is found by its names (`walk_names`).
-/

import Mathlib.Data.List.Induction
import Sharun.Basis.Lexical

namespace Sharun
namespace Basis

namespace FileTree

variable {N : Type*} {T : FileTree (List N) N}

/-- Every object is its location, none is a symbolic link, and what is in the tree is entered
in its directory. -/
structure Located (T : FileTree (List N) N) : Prop where
  root : T.root = []
  noLink : ∀ x target, T.kind x ≠ .symlink target
  parent : ∀ {x parent entries}, T.kind x = .directory parent entries → parent = x.dropLast
  entry : ∀ {x parent entries n y}, T.kind x = .directory parent entries →
    entries n = some y → y = x ++ [n]
  entered : ∀ {x n}, T.isDirectory (x ++ [n]) = true → ∃ parent entries,
    T.kind x = .directory parent entries ∧ entries n = some (x ++ [n])

variable {onLink : List N → Path N → List (Component N) → Except LookupError (List N)}
  {follow : Bool} {links : ℕ} {x y : List N} {cs : List (Component N)}

theorem isDirectory_of_kind {parent : List N} {entries : N → Option (List N)}
    (h : T.kind x = .directory parent entries) : T.isDirectory x = true := by
  unfold isDirectory
  rw [h]

theorem exists_kind_of_isDirectory (h : T.isDirectory x = true) :
    ∃ parent entries, T.kind x = .directory parent entries := by
  unfold isDirectory at h
  split at h
  · exact ⟨_, _, by assumption⟩
  · exact absurd h Bool.false_ne_true

/-! ### Where a walk ends -/

theorem eq_lexical_of_walkWith (h : T.Located) (hwalk : T.walkWith onLink follow x cs = .ok y) :
    y = lexical x cs := by
  induction cs generalizing x with
  | nil => exact (Except.ok.inj hwalk).symm
  | cons c cs ih =>
    unfold walkWith at hwalk
    split at hwalk
    · rename_i parent entries hkind
      cases c with
      | here => exact ih hwalk
      | up =>
        rw [lexical_cons, Component.follow, ← h.parent hkind]
        exact ih hwalk
      | name n =>
        dsimp only at hwalk
        split at hwalk
        · cases hwalk
        · rename_i next hnext
          split at hwalk
          · rename_i target hlink
            exact absurd hlink (h.noLink next target)
          · rw [lexical_cons, Component.follow, ← h.entry hkind hnext]
            exact ih hwalk
    · cases hwalk

/-- **A walk ends where its path leads by its text.** -/
theorem eq_lexical_of_walk (h : T.Located) (hwalk : T.walk follow links x cs = .ok y) :
    y = lexical x cs := by
  cases links with
  | zero => exact eq_lexical_of_walkWith h hwalk
  | succ links => exact eq_lexical_of_walkWith h hwalk

/-! ### The way to a directory -/

/-- Every location above a directory is one. -/
theorem isDirectory_of_append (h : T.Located) (x ns : List N)
    (hdir : T.isDirectory (x ++ ns) = true) : T.isDirectory x = true := by
  induction ns using List.reverseRecOn with
  | nil => rwa [List.append_nil] at hdir
  | append_singleton ns n ih =>
    rw [← List.append_assoc] at hdir
    obtain ⟨_, _, hkind, -⟩ := h.entered hdir
    exact ih (isDirectory_of_kind hkind)

theorem walkWith_here_cons (hdir : T.isDirectory x = true) :
    T.walkWith onLink follow x (.here :: cs) = T.walkWith onLink follow x cs := by
  obtain ⟨parent, entries, hkind⟩ := exists_kind_of_isDirectory hdir
  rw [walkWith, hkind]

/-- Dots lead nowhere from a directory. -/
theorem walkWith_here (hdir : T.isDirectory x = true) (hcs : ∀ c ∈ cs, c = .here) :
    T.walkWith onLink follow x cs = .ok x := by
  induction cs with
  | nil => rfl
  | cons c cs ih =>
    obtain ⟨rfl, hrest⟩ := List.forall_mem_cons.1 hcs
    rw [walkWith_here_cons hdir]
    exact ih hrest

theorem walk_here_cons (hdir : T.isDirectory x = true) :
    T.walk follow links x (.here :: cs) = T.walk follow links x cs := by
  cases links with
  | zero => exact walkWith_here_cons hdir
  | succ links => exact walkWith_here_cons hdir

theorem walkWith_names (h : T.Located) {ns : List N} (hdir : T.isDirectory (x ++ ns) = true)
    (hcs : ∀ c ∈ cs, c = .here) :
    T.walkWith onLink follow x (ns.map .name ++ cs) = .ok (x ++ ns) := by
  induction ns generalizing x with
  | nil =>
    rw [List.append_nil] at hdir ⊢
    exact walkWith_here hdir hcs
  | cons n ns ih =>
    rw [List.append_cons] at hdir ⊢
    have hnext := isDirectory_of_append h _ _ hdir
    obtain ⟨parent, entries, hkind, hentry⟩ := h.entered hnext
    obtain ⟨parent', entries', hkind'⟩ := exists_kind_of_isDirectory hnext
    rw [List.map_cons, List.cons_append, walkWith, hkind]
    dsimp only
    rw [hentry]
    dsimp only
    rw [hkind']
    exact ih hdir

/-- **A directory is found by the names that lead to it**, and by any dots behind them. -/
theorem walk_names (h : T.Located) (follow : Bool) (links : ℕ) (x ns : List N)
    (hdir : T.isDirectory (x ++ ns) = true) (hcs : ∀ c ∈ cs, c = .here) :
    T.walk follow links x (ns.map .name ++ cs) = .ok (x ++ ns) := by
  cases links with
  | zero => exact walkWith_names h hdir hcs
  | succ links => exact walkWith_names h hdir hcs

end FileTree
end Basis
end Sharun
