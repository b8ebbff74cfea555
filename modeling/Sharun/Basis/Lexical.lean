/-
# Paths that are followed by their text

A location is the list of the names that lead to it from the root.  A path can be followed
from a location without asking what is there: a name leads one level down, `up` one level up,
and from the root it leads nowhere else (`lexical`).  That is what happens to it in a tree
without symbolic links.
-/

import Sharun.Basis.FileTree

namespace Sharun
namespace Basis

variable {N : Type*}

/-- Where one component leads from a location. -/
def Component.follow (loc : List N) : Component N → List N
  | .here => loc
  | .up => loc.dropLast
  | .name n => loc ++ [n]

/-- Where a path leads from a location. -/
def lexical (loc : List N) (cs : List (Component N)) : List N := cs.foldl Component.follow loc

/-- The names in a path. -/
def Component.names (cs : List (Component N)) : List N :=
  cs.filterMap fun | .name n => some n | _ => none

/-- Whether the last component that leads anywhere leads up. -/
def endsUp (cs : List (Component N)) : Bool :=
  cs.foldl (fun up c => match c with | .here => up | .up => true | .name _ => false) false

variable {loc : List N} {cs : List (Component N)} {c : Component N}

@[simp] theorem lexical_nil (loc : List N) : lexical loc [] = loc := rfl

@[simp] theorem lexical_cons (loc : List N) (c : Component N) (cs : List (Component N)) :
    lexical loc (c :: cs) = lexical (c.follow loc) cs := rfl

theorem lexical_append (loc : List N) (cs cs' : List (Component N)) :
    lexical loc (cs ++ cs') = lexical (lexical loc cs) cs' := by
  unfold lexical
  exact List.foldl_append

theorem lexical_concat (loc : List N) (cs : List (Component N)) (c : Component N) :
    lexical loc (cs ++ [c]) = c.follow (lexical loc cs) := lexical_append loc cs [c]

/-- The path that is made of a location's names leads there. -/
theorem lexical_names (loc ns : List N) : lexical loc (ns.map .name) = loc ++ ns := by
  induction ns generalizing loc with
  | nil => exact (List.append_nil loc).symm
  | cons n ns ih =>
    rw [List.map_cons, lexical_cons, ih, Component.follow, List.append_assoc,
      List.singleton_append]

/-- Nothing new is met on the way. -/
theorem mem_lexical {n : N} (h : n ∈ lexical loc cs) : n ∈ loc ∨ n ∈ Component.names cs := by
  induction cs generalizing loc with
  | nil => exact .inl h
  | cons c cs ih =>
    rcases ih h with hloc | hcs
    · cases c with
      | here => exact .inl hloc
      | up => exact .inl (List.dropLast_subset loc hloc)
      | name n' =>
        rcases List.mem_append.1 hloc with hloc | hn
        · exact .inl hloc
        · refine .inr ?_
          rw [List.mem_singleton.1 hn]
          exact List.mem_cons_self
    · refine .inr ?_
      cases c with
      | here => exact hcs
      | up => exact hcs
      | name n' => exact List.mem_cons_of_mem n' hcs

theorem endsUp_concat (cs : List (Component N)) (c : Component N) : endsUp (cs ++ [c]) =
    match c with | .here => endsUp cs | .up => true | .name _ => false := by
  unfold endsUp
  rw [List.foldl_append]
  cases c <;> rfl

end Basis
end Sharun
