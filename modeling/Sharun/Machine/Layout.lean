/-
# Structures laid out in memory

A structure of C without bit fields is its members one behind the other, paddings included,
each of them little-endian.  It is read by taking the members off the front of its image
in the order of their declaration (`u16`, `u32`, `u64`, `pad`), so no offset is written
down.
-/

import Sharun.Machine.Pokes

namespace Sharun
namespace Machine

/-- `u16::from_le_bytes`. -/
def leU16 (bytes : List Byte) : BitVec 16 := BitVec.ofNat 16 (leNat bytes)

/-! ### Taking members off an image -/

/-- A `uint16_t` and what is behind it. -/
def u16 (image : List Byte) : BitVec 16 × List Byte := (leU16 (image.take 2), image.drop 2)

/-- A `uint32_t` and what is behind it. -/
def u32 (image : List Byte) : BitVec 32 × List Byte := (leU32 (image.take 4), image.drop 4)

/-- A `uint64_t` and what is behind it. -/
def u64 (image : List Byte) : U64 × List Byte := (leU64 (image.take 8), image.drop 8)

/-- `n` bytes and what is behind them. -/
def pad (n : ℕ) (image : List Byte) : List Byte × List Byte := (image.take n, image.drop n)

/-- The bytes of a word spell its low bytes. -/
theorem leNat_leBytes {w : ℕ} (n : ℕ) (x : BitVec w) :
    leNat (leBytes n x) = x.toNat % 256 ^ n := by
  induction n generalizing x with
  | zero => rw [pow_zero, Nat.mod_one]; rfl
  | succ n ih =>
    have hsplit : leBytes (n + 1) x = x.setWidth 8 :: leBytes n (x >>> 8) := by
      unfold leBytes
      rw [List.range_succ_eq_map, List.map_cons, List.map_map]
      refine congrArg₂ _ (by simp) (List.map_congr_left fun i _ => ?_)
      change (x >>> (8 * (i + 1))).setWidth 8 = _
      rw [← BitVec.shiftRight_add, Nat.mul_add, Nat.add_comm]
    rw [hsplit, leNat_cons, ih, BitVec.toNat_setWidth, BitVec.toNat_ushiftRight,
      Nat.shiftRight_eq_div_pow, show (2 : ℕ) ^ 8 = 256 from rfl, Nat.pow_succ', Nat.mod_mul]

section Members

variable (rest : List Byte)

theorem u16_append (x : BitVec 16) : u16 (leBytes 2 x ++ rest) = (x, rest) := by
  unfold u16 leU16
  rw [List.take_left' (leBytes_length 2 x), List.drop_left' (leBytes_length 2 x), leNat_leBytes,
    show 256 ^ 2 = 2 ^ 16 from rfl, Nat.mod_eq_of_lt x.isLt, BitVec.ofNat_toNat, BitVec.setWidth_eq]

theorem u32_append (x : BitVec 32) : u32 (leBytes 4 x ++ rest) = (x, rest) := by
  unfold u32 leU32
  rw [List.take_left' (leBytes_length 4 x), List.drop_left' (leBytes_length 4 x), leNat_leBytes,
    show 256 ^ 4 = 2 ^ 32 from rfl, Nat.mod_eq_of_lt x.isLt, BitVec.ofNat_toNat, BitVec.setWidth_eq]

theorem u64_append (x : U64) : u64 (leBytes 8 x ++ rest) = (x, rest) := by
  unfold u64
  rw [List.take_left' (leBytes_length 8 x), List.drop_left' (leBytes_length 8 x), leU64_leBytes]

theorem pad_append {bytes : List Byte} {n : ℕ} (h : bytes.length = n) :
    pad n (bytes ++ rest) = (bytes, rest) := by
  unfold pad
  rw [List.take_left' h, List.drop_left' h]

end Members

end Machine
end Sharun
