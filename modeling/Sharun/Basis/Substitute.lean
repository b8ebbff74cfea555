/-
# Substituting what matches

A pattern is given by the lists it matches as a whole.  Among the prefixes of a list that
match, the longest is taken (`matchLength`).  `substitute` replaces the leftmost non-empty
match, or all of them, each one being looked for after the one before it; and
`substitutePrefix` and `substituteSuffix` replace the longest match at the beginning or at
the end, which may be empty.
-/

import Mathlib.Data.List.Basic
import Mathlib.Data.Nat.Find

namespace Sharun
namespace Basis

variable {α : Type*}

/-- The length of the longest prefix that matches, zero where there is none. -/
def matchLength (m : List α → Bool) (s : List α) : ℕ :=
  Nat.findGreatest (fun n => m (s.take n) = true) s.length

/-- The scan for non-empty matches, with some elements of a match still to be passed over. -/
def substituteFrom (all : Bool) (m : List α → Bool) (r : List α) : ℕ → List α → List α
  | _, [] => []
  | k + 1, _ :: s => substituteFrom all m r k s
  | 0, a :: s =>
    let n := matchLength m (a :: s)
    if n = 0 then a :: substituteFrom all m r 0 s
    else if all then r ++ substituteFrom all m r (n - 1) s
    else r ++ s.drop (n - 1)

/-- The leftmost non-empty match replaced, or all of them. -/
def substitute (all : Bool) (m : List α → Bool) (r s : List α) : List α :=
  substituteFrom all m r 0 s

/-- The longest prefix that matches replaced. -/
def substitutePrefix (m : List α → Bool) (r s : List α) : List α :=
  let n := matchLength m s
  if m (s.take n) then r ++ s.drop n else s

/-- The longest suffix that matches replaced. -/
def substituteSuffix (m : List α → Bool) (r : List α) : List α → List α
  | [] => if m [] then r else []
  | a :: s => if m (a :: s) then r else a :: substituteSuffix m r s

variable {all : Bool} {m : List α → Bool} {r s : List α} {a : α} {n : ℕ}

/-! ### The longest match -/

theorem matchLength_le (m : List α → Bool) (s : List α) : matchLength m s ≤ s.length :=
  Nat.findGreatest_le _

theorem le_matchLength (hn : n ≤ s.length) (h : m (s.take n) = true) : n ≤ matchLength m s :=
  Nat.le_findGreatest hn h

/-- **The longest match matches**, where there is any. -/
theorem matchLength_matches (hn : n ≤ s.length) (h : m (s.take n) = true) :
    m (s.take (matchLength m s)) = true :=
  Nat.findGreatest_spec (P := fun n => m (s.take n) = true) hn h

theorem matchLength_eq_zero_iff :
    matchLength m s = 0 ↔ ∀ n, 0 < n → n ≤ s.length → m (s.take n) = false := by
  unfold matchLength
  rw [Nat.findGreatest_eq_zero_iff]
  simp only [Bool.not_eq_true]

/-- A match that no other one is longer than. -/
theorem matchLength_eq (hn : n ≤ s.length) (h : m (s.take n) = true)
    (hmax : ∀ k ≤ s.length, m (s.take k) = true → k ≤ n) : matchLength m s = n :=
  le_antisymm (hmax _ (matchLength_le m s) (matchLength_matches hn h)) (le_matchLength hn h)

/-! ### The scan -/

@[simp] theorem substitute_nil : substitute all m r [] = [] := rfl

theorem substituteFrom_eq (all : Bool) (m : List α → Bool) (r : List α) (k : ℕ) (s : List α) :
    substituteFrom all m r k s = substitute all m r (s.drop k) := by
  induction s generalizing k with
  | nil => cases k <;> rfl
  | cons a s ih =>
    cases k with
    | zero => rfl
    | succ k => exact ih k

/-- Where nothing matches the scan goes on with the next element. -/
theorem substitute_cons (h : matchLength m (a :: s) = 0) :
    substitute all m r (a :: s) = a :: substitute all m r s := by
  unfold substitute
  rw [substituteFrom, h]
  rfl

theorem substitute_all (hn : matchLength m s ≠ 0) :
    substitute true m r s = r ++ substitute true m r (s.drop (matchLength m s)) := by
  cases s with
  | nil => exact absurd (Nat.le_zero.1 (matchLength_le m [])) hn
  | cons a s =>
    obtain ⟨n, hlen⟩ := Nat.exists_eq_succ_of_ne_zero hn
    rw [substitute, substituteFrom, hlen]
    rw [if_neg (Nat.succ_ne_zero n), if_pos rfl, substituteFrom_eq]
    rfl

theorem substitute_once (hn : matchLength m s ≠ 0) :
    substitute false m r s = r ++ s.drop (matchLength m s) := by
  cases s with
  | nil => exact absurd (Nat.le_zero.1 (matchLength_le m [])) hn
  | cons a s =>
    obtain ⟨n, hlen⟩ := Nat.exists_eq_succ_of_ne_zero hn
    rw [substitute, substituteFrom, hlen]
    rfl

/-! ### The two ends -/

theorem substitutePrefix_nil (m : List α → Bool) (r : List α) :
    substitutePrefix m r [] = if m [] then r else [] := by
  unfold substitutePrefix
  dsimp only
  rw [List.take_nil, List.drop_nil, List.append_nil]

theorem substituteSuffix_of_match (h : m s = true) : substituteSuffix m r s = r := by
  cases s with
  | nil => rw [substituteSuffix, if_pos h]
  | cons a s => rw [substituteSuffix, if_pos h]

theorem substituteSuffix_cons (h : m (a :: s) = false) :
    substituteSuffix m r (a :: s) = a :: substituteSuffix m r s := by
  rw [substituteSuffix, if_neg (by simp [h])]

end Basis
end Sharun
