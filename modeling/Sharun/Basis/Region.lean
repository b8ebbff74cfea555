/-
# Regions of a circular address space

Addresses are words of some width `w`, and the region of `len` addresses from `a` on
goes on at zero where it reaches the end.  A region is told by the distance from its
start: `x` is in it when `x - a`, computed in words, is below `len`; so nothing about
a region asks whether it wraps around (`region_shift`, `region_add`), and where one
does not, it is an interval of numbers (`mem_region_iff`).

`Changes s f g` says of two contents of memory that they differ on `s` at most.
-/

import Mathlib.Data.BitVec
import Mathlib.Data.Set.Lattice
import Mathlib.Order.CompletePartialOrder

namespace Sharun
namespace Basis

variable {w : ℕ} {β : Type*}

/-- The `len` addresses from `a` on. -/
def region (a : BitVec w) (len : ℕ) : Set (BitVec w) := {x | (x - a).toNat < len}

theorem mem_region {x a : BitVec w} {len : ℕ} : x ∈ region a len ↔ (x - a).toNat < len := Iff.rfl

theorem region_mono {m n : ℕ} (h : m ≤ n) (a : BitVec w) : region a m ⊆ region a n :=
  fun _ hx => lt_of_lt_of_le hx h

@[simp] theorem region_zero (a : BitVec w) : region a 0 = ∅ :=
  Set.eq_empty_of_forall_notMem fun _ hx => absurd hx (Nat.not_lt_zero _)

/-- The distance from a start further on. -/
theorem sub_eq_sub_add (x a d : BitVec w) : x - a = x - (a + d) + d := by
  rw [← BitVec.sub_sub, BitVec.sub_add_cancel]

/-- A region that starts `k` further on and ends no later is part of the region. -/
theorem region_shift {k m n : ℕ} (h : k + m ≤ n) (a : BitVec w) :
    region (a + BitVec.ofNat w k) m ⊆ region a n := by
  intro x hx
  rw [mem_region] at hx ⊢
  have hk : (BitVec.ofNat w k).toNat ≤ k := by
    rw [BitVec.toNat_ofNat]
    exact Nat.mod_le ..
  calc (x - a).toNat
      = ((x - (a + BitVec.ofNat w k)).toNat + (BitVec.ofNat w k).toNat) % 2 ^ w := by
        rw [sub_eq_sub_add x a (BitVec.ofNat w k), BitVec.toNat_add]
    _ ≤ (x - (a + BitVec.ofNat w k)).toNat + (BitVec.ofNat w k).toNat := Nat.mod_le ..
    _ < n := by omega

/-- A region is its first `m` addresses and what is left. -/
theorem region_add (a : BitVec w) (m n : ℕ) :
    region a (m + n) = region a m ∪ region (a + BitVec.ofNat w m) n := by
  apply Set.Subset.antisymm
  · intro x hx
    rw [mem_region] at hx
    rcases lt_or_ge (x - a).toNat m with hlt | hge
    · exact Or.inl hlt
    · right
      have hm : (BitVec.ofNat w m).toNat = m := by
        rw [BitVec.toNat_ofNat]
        exact Nat.mod_eq_of_lt (lt_of_le_of_lt hge (x - a).isLt)
      have hle : BitVec.ofNat w m ≤ x - a := by
        rw [BitVec.le_def, hm]
        exact hge
      rw [mem_region, ← BitVec.sub_sub, BitVec.toNat_sub_of_le hle, hm]
      omega
  · exact Set.union_subset (region_mono (Nat.le_add_right m n) a) (region_shift le_rfl a)

/-- Two regions that follow one another share nothing, where they do not wrap around. -/
theorem region_disjoint {m k n : ℕ} (hmk : m ≤ k) (hkn : k + n ≤ 2 ^ w) (a : BitVec w) :
    Disjoint (region a m) (region (a + BitVec.ofNat w k) n) := by
  rw [Set.disjoint_left]
  intro x hx hx'
  rw [mem_region] at hx hx'
  have hd := (x - (a + BitVec.ofNat w k)).isLt
  rw [sub_eq_sub_add x a (BitVec.ofNat w k), BitVec.toNat_add, BitVec.toNat_ofNat,
    Nat.add_mod_mod, Nat.mod_eq_of_lt (by omega)] at hx
  omega

/-- A region that does not wrap around is an interval. -/
theorem mem_region_iff {a : BitVec w} {len : ℕ} (h : a.toNat + len ≤ 2 ^ w) {x : BitVec w} :
    x ∈ region a len ↔ a.toNat ≤ x.toNat ∧ x.toNat < a.toNat + len := by
  rw [mem_region, BitVec.toNat_sub]
  have ha := a.isLt
  have hx := x.isLt
  rcases le_or_gt a.toNat x.toNat with hle | hlt
  · rw [show 2 ^ w - a.toNat + x.toNat = x.toNat - a.toNat + 2 ^ w by omega,
      Nat.add_mod_right, Nat.mod_eq_of_lt (by omega)]
    omega
  · rw [Nat.mod_eq_of_lt (by omega)]
    omega

/-! ### What changes -/

/-- `f` and `g` differ on `s` at most. -/
def Changes (s : Set (BitVec w)) (f g : BitVec w → β) : Prop := Set.EqOn g f sᶜ

section

variable {s s' : Set (BitVec w)} {f g h : BitVec w → β}

theorem Changes.refl (s : Set (BitVec w)) (f : BitVec w → β) : Changes s f f := fun _ _ => rfl

theorem Changes.trans (hfg : Changes s f g) (hgh : Changes s g h) : Changes s f h :=
  Set.EqOn.trans hgh hfg

theorem Changes.mono (hs : s ⊆ s') (hfg : Changes s f g) : Changes s' f g :=
  Set.EqOn.mono (Set.compl_subset_compl.2 hs) hfg

end

end Basis
end Sharun
