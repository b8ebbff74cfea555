/-
# Classic BPF filters

A filter is a list of instructions with one accumulator.  `BPF_LD|BPF_W|BPF_ABS` loads a
32-bit word of the input, `BPF_JMP|BPF_JEQ|BPF_K` compares the accumulator with a constant
and passes over `jt` or `jf` instructions, `BPF_RET|BPF_K` ends the filter with its verdict.
The other instructions are left out: a program that comes to one of them is `invalid` here.

Jumps are relative to the next instruction and only go forward, so a run is a recursion over
the instructions that are left.  `Closed` is the check a kernel makes before it takes a filter:
no jump leaves it, and it ends in a return.  A table of comparisons that all go to one
instruction decides whether the accumulator is among its values (`runFrom_table`).
-/

import Mathlib.Data.BitVec
import Mathlib.Data.List.Basic

namespace Sharun
namespace Basis

/-- `struct sock_filter`. -/
structure SockFilter where
  code : BitVec 16
  jt : BitVec 8
  jf : BitVec 8
  k : BitVec 32
  deriving DecidableEq, Repr

namespace Bpf

abbrev LD_W_ABS : BitVec 16 := 0x20
abbrev JEQ_K : BitVec 16 := 0x15
abbrev RET_K : BitVec 16 := 0x06

/-- How a run ends. -/
inductive Verdict
  | returned (value : BitVec 32)
  /-- Behind the last instruction. -/
  | outside
  /-- At another instruction, or at a load from outside the input. -/
  | invalid
  deriving DecidableEq, Repr

variable (load : BitVec 32 → Option (BitVec 32))

/-- A run over the instructions that are left, `skip` of them still to be passed over, from
the accumulator `acc`. -/
def runFrom : ℕ → BitVec 32 → List SockFilter → Verdict
  | _, _, [] => .outside
  | skip + 1, acc, _ :: rest => runFrom skip acc rest
  | 0, acc, i :: rest =>
    if i.code = RET_K then .returned i.k
    else if i.code = JEQ_K then runFrom (if acc = i.k then i.jt else i.jf).toNat acc rest
    else if i.code = LD_W_ABS then
      match load i.k with
      | some word => runFrom 0 word rest
      | none => .invalid
    else .invalid

/-- A run of a whole filter. -/
def run (prog : List SockFilter) : Verdict := runFrom load 0 0 prog

/-- No jump leaves the program, and its last instruction is a return. -/
inductive Closed : List SockFilter → Prop
  | ret {i : SockFilter} (hi : i.code = RET_K) : Closed [i]
  | cons {i : SockFilter} {rest : List SockFilter}
      (hjump : i.code = JEQ_K → i.jt.toNat < rest.length ∧ i.jf.toNat < rest.length)
      (hrest : Closed rest) : Closed (i :: rest)

variable {load} {acc word : BitVec 32} {i : SockFilter} {prog rest : List SockFilter}

/-! ### One instruction -/

theorem runFrom_skip (skip : ℕ) (acc : BitVec 32) (prog : List SockFilter) :
    runFrom load skip acc prog = runFrom load 0 acc (prog.drop skip) := by
  induction prog generalizing skip with
  | nil => rw [List.drop_nil]; cases skip <;> rfl
  | cons i rest ih =>
    cases skip with
    | zero => rfl
    | succ skip => exact ih skip

theorem runFrom_ret (hi : i.code = RET_K) : runFrom load 0 acc (i :: rest) = .returned i.k :=
  if_pos hi

theorem runFrom_load (hi : i.code = LD_W_ABS) (hload : load i.k = some word) :
    runFrom load 0 acc (i :: rest) = runFrom load 0 word rest := by
  rw [runFrom, hi, if_neg (by decide), if_neg (by decide), if_pos rfl, hload]

theorem runFrom_compare (hi : i.code = JEQ_K) :
    runFrom load 0 acc (i :: rest) =
      runFrom load 0 acc (rest.drop (if acc = i.k then i.jt else i.jf).toNat) := by
  rw [runFrom, hi, if_neg (by decide), if_pos rfl, runFrom_skip]

/-! ### Closed programs -/

theorem Closed.length_pos (h : Closed prog) : 0 < prog.length := by
  cases h <;> exact Nat.succ_pos _

/-! ### A table of comparisons -/

/-- Comparisons with each of the values, a match going to the instruction `d` behind the
table. -/
def table (d : ℕ) : List (BitVec 32) → List SockFilter
  | [] => []
  | k :: ks => ⟨JEQ_K, BitVec.ofNat 8 (ks.length + d), 0, k⟩ :: table d ks

@[simp] theorem length_table (d : ℕ) (ks : List (BitVec 32)) : (table d ks).length = ks.length := by
  induction ks with
  | nil => rfl
  | cons k ks ih => exact congrArg Nat.succ ih

/-- **A table decides membership**, as long as its jumps fit into their eight bits. -/
theorem runFrom_table {d : ℕ} {ks : List (BitVec 32)} (hfit : ks.length + d ≤ 256)
    (acc : BitVec 32) (rest : List SockFilter) :
    runFrom load 0 acc (table d ks ++ rest) =
      runFrom load 0 acc (if acc ∈ ks then rest.drop d else rest) := by
  induction ks with
  | nil => rfl
  | cons k ks ih =>
    rw [List.length_cons] at hfit
    have hjt : (BitVec.ofNat 8 (ks.length + d)).toNat = ks.length + d :=
      Nat.mod_eq_of_lt (by omega)
    rw [table, List.cons_append, runFrom_compare rfl]
    by_cases hk : acc = k
    · rw [if_pos hk, hjt, if_pos (List.mem_cons.2 (.inl hk)), List.drop_append, length_table,
        List.drop_of_length_le (by rw [length_table]; omega), List.nil_append,
        Nat.add_sub_cancel_left]
    · rw [if_neg hk, show (0 : BitVec 8).toNat = 0 from rfl, List.drop_zero, ih (by omega)]
      simp only [List.mem_cons, hk, false_or]

/-- **A table is closed** when what follows it is, and holds the instruction its matches go
to. -/
theorem Closed.table {d : ℕ} {ks : List (BitVec 32)} (hfit : ks.length + d ≤ 256)
    (hd : ks ≠ [] → d < rest.length) (h : Closed rest) : Closed (table d ks ++ rest) := by
  induction ks with
  | nil => exact h
  | cons k ks ih =>
    rw [List.length_cons] at hfit
    have hd := hd (List.cons_ne_nil k ks)
    have hjt : (BitVec.ofNat 8 (ks.length + d)).toNat = ks.length + d :=
      Nat.mod_eq_of_lt (by omega)
    have hlen : (Bpf.table d ks ++ rest).length = ks.length + rest.length := by
      rw [List.length_append, length_table]
    refine .cons (fun _ => ?_) (ih (by omega) fun _ => hd)
    change (BitVec.ofNat 8 (ks.length + d)).toNat < (Bpf.table d ks ++ rest).length ∧
      0 < (Bpf.table d ks ++ rest).length
    rw [hjt, hlen]
    exact ⟨by omega, by omega⟩

end Bpf

end Basis
end Sharun
