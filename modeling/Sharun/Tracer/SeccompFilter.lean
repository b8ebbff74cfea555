/-
# The seccomp filter

`install_seccomp_filter` of `src/kernel_compat.rs` builds a classic BPF program from the
numbers of the calls the tracer has to see:

| instruction | | |
| --- | --- | --- |
| `LD 4` | `seccomp_data.arch` | |
| `JEQ AUDIT_ARCH_X86_64, 1, 0` | | |
| `RET ALLOW` | | |
| `LD 0` | `seccomp_data.nr` | |
| `JEQ nr, n - i, 0` | for the `i`-th of the `n` numbers | to `RET TRACE` |
| `RET ALLOW` | | |
| `RET TRACE` | with at least one number | |

The jumps have eight bits, so the program is right for up to 255 numbers
(`seccompFilter_decides`); the layer wants at most four (`wantedCalls`), and it does nothing
at the stops of the others (`onSeccompStop_unwanted`).
-/

import Sharun.Basis.Bpf
import Sharun.Tracer.Registers

namespace Sharun
namespace Tracing

open Machine Emulation Sharun.Basis

abbrev AUDIT_ARCH_X86_64 : BitVec 32 := 0xc000003e
abbrev SECCOMP_RET_ALLOW : BitVec 32 := 0x7fff0000
abbrev SECCOMP_RET_TRACE : BitVec 32 := 0x7ff00000

/-- `struct seccomp_data`, the input of a filter. -/
structure SeccompData where
  nr : BitVec 32
  arch : BitVec 32
  instructionPointer : U64
  args : Fin 6 → U64

/-- The image of the input, in words of 32 bits. -/
def SeccompData.words (data : SeccompData) : List (BitVec 32) :=
  let halves (x : U64) : List (BitVec 32) := [x.setWidth 32, x.extractLsb' 32 32]
  data.nr :: data.arch :: halves data.instructionPointer ++ (List.ofFn data.args).flatMap halves

/-- A load from the input, at a multiple of four. -/
def SeccompData.load (data : SeccompData) (k : BitVec 32) : Option (BitVec 32) :=
  if k.toNat % 4 = 0 then data.words[k.toNat / 4]? else none

/-- `stmt(code, k)`. -/
def stmt (code : BitVec 16) (k : BitVec 32) : SockFilter := ⟨code, 0, 0, k⟩

/-- `jump(k, jt, jf)`. -/
def jump (k : BitVec 32) (jt jf : BitVec 8) : SockFilter := ⟨Bpf.JEQ_K, jt, jf, k⟩

/-- The program of `install_seccomp_filter` for a list of wanted numbers. -/
def seccompFilter (wanted : List (BitVec 32)) : List SockFilter :=
  let n := wanted.length
  [stmt Bpf.LD_W_ABS 4, jump AUDIT_ARCH_X86_64 1 0, stmt Bpf.RET_K SECCOMP_RET_ALLOW,
    stmt Bpf.LD_W_ABS 0] ++
  wanted.zipIdx.map (fun (nr, i) => jump nr (BitVec.ofNat 8 (n - i)) 0) ++
  [stmt Bpf.RET_K SECCOMP_RET_ALLOW] ++
  if n > 0 then [stmt Bpf.RET_K SECCOMP_RET_TRACE] else []

/-- The numbers `install_seccomp_filter` wants: those of calls this kernel lacks, and `futex`
before the bitset operations. -/
def wantedCalls (h : Host) : List (BitVec 32) :=
  (if h.kernelLt 2 6 29 then [202] else []) ++ (if h.pipe2Missing then [293] else []) ++
    (if h.statxMissing then [332] else []) ++ (if h.getrandomMissing then [318] else [])

/-! ### The program -/

/-- The comparisons are a table whose matches pass over one instruction. -/
theorem comparisons_eq (wanted : List (BitVec 32)) (i : ℕ) :
    (wanted.zipIdx i).map (fun p => jump p.1 (BitVec.ofNat 8 (wanted.length + i - p.2)) 0) =
      Bpf.table 1 wanted := by
  induction wanted generalizing i with
  | nil => rfl
  | cons nr wanted ih =>
    rw [List.zipIdx_cons, List.map_cons, Bpf.table]
    refine congrArg₂ _ ?_ ?_
    · rw [List.length_cons, Nat.add_sub_cancel, jump]
    · rw [← ih (i + 1), List.length_cons, Nat.add_assoc, Nat.add_comm 1 i]

theorem seccompFilter_eq (wanted : List (BitVec 32)) :
    seccompFilter wanted =
      stmt Bpf.LD_W_ABS 4 :: jump AUDIT_ARCH_X86_64 1 0 :: stmt Bpf.RET_K SECCOMP_RET_ALLOW ::
        stmt Bpf.LD_W_ABS 0 :: (Bpf.table 1 wanted ++ stmt Bpf.RET_K SECCOMP_RET_ALLOW ::
          if wanted = [] then [] else [stmt Bpf.RET_K SECCOMP_RET_TRACE]) := by
  have hcmp := comparisons_eq wanted 0
  rw [Nat.add_zero] at hcmp
  change _ ++ wanted.zipIdx.map (fun p => jump p.1 (BitVec.ofNat 8 (wanted.length - p.2)) 0) ++
    _ ++ _ = _
  rw [hcmp]
  cases wanted <;> simp

theorem load_arch (data : SeccompData) : data.load 4 = some data.arch := rfl

theorem load_nr (data : SeccompData) : data.load 0 = some data.nr := rfl

/-- No jump of the filter leaves it, and it ends in a return. -/
theorem seccompFilter_closed {wanted : List (BitVec 32)} (h : wanted.length ≤ 255) :
    Bpf.Closed (seccompFilter wanted) := by
  have hrets : Bpf.Closed (stmt Bpf.RET_K SECCOMP_RET_ALLOW ::
      if wanted = [] then [] else [stmt Bpf.RET_K SECCOMP_RET_TRACE]) := by
    split_ifs
    · exact .ret rfl
    · exact .cons (fun he => absurd he (by decide)) (.ret rfl)
  have hfit : wanted.length + 1 ≤ 256 := Nat.succ_le_succ h
  have htable := hrets.table hfit fun hne => by
    rw [if_neg hne]
    exact Nat.lt_succ_self 1
  have hlen := htable.length_pos
  rw [seccompFilter_eq]
  refine .cons (fun he => absurd he (by decide)) <| .cons (fun _ => ?_) <|
    .cons (fun he => absurd he (by decide)) <| .cons (fun he => absurd he (by decide)) htable
  exact ⟨Nat.succ_lt_succ (Nat.succ_pos _), Nat.succ_pos _⟩

theorem run_seccompFilter {wanted : List (BitVec 32)} (h : wanted.length ≤ 255)
    (data : SeccompData) : Bpf.run data.load (seccompFilter wanted) =
      .returned (if data.arch = AUDIT_ARCH_X86_64 ∧ data.nr ∈ wanted then SECCOMP_RET_TRACE
        else SECCOMP_RET_ALLOW) := by
  rw [seccompFilter_eq, Bpf.run, Bpf.runFrom_load rfl (load_arch data), Bpf.runFrom_compare rfl]
  by_cases harch : data.arch = AUDIT_ARCH_X86_64
  · -- past the first return, and to the one the number leads to
    rw [if_pos (show data.arch = (jump AUDIT_ARCH_X86_64 1 0).k from harch)]
    change Bpf.runFrom _ 0 _ (stmt Bpf.LD_W_ABS 0 :: _) = _
    rw [Bpf.runFrom_load rfl (load_nr data), Bpf.runFrom_table (by omega)]
    by_cases hnr : data.nr ∈ wanted
    · rw [if_pos hnr, if_pos (And.intro harch hnr), if_neg (List.ne_nil_of_mem hnr)]
      exact Bpf.runFrom_ret rfl
    · rw [if_neg hnr, if_neg (not_and_of_not_right _ hnr)]
      exact Bpf.runFrom_ret rfl
  · rw [if_neg (show data.arch ≠ (jump AUDIT_ARCH_X86_64 1 0).k from harch),
      if_neg (not_and_of_not_left _ harch)]
    exact Bpf.runFrom_ret rfl

/-- **The filter traces the wanted calls of 64-bit code and allows all others.**  No jump of
it leaves the program, and every run of it ends in one of the two verdicts; with nothing
wanted everything is allowed. -/
theorem seccompFilter_decides {wanted : List (BitVec 32)} (h : wanted.length ≤ 255) :
    Bpf.Closed (seccompFilter wanted) ∧
      (∀ data : SeccompData, Bpf.run data.load (seccompFilter wanted) =
        .returned (if data.arch = AUDIT_ARCH_X86_64 ∧ data.nr ∈ wanted then SECCOMP_RET_TRACE
          else SECCOMP_RET_ALLOW)) ∧
      (wanted = [] → ∀ data : SeccompData,
        Bpf.run data.load (seccompFilter wanted) = .returned SECCOMP_RET_ALLOW) := by
  refine ⟨seccompFilter_closed h, run_seccompFilter h, fun hnone data => ?_⟩
  rw [run_seccompFilter h, if_neg]
  rintro ⟨-, hmem⟩
  exact absurd (hnone ▸ hmem) List.not_mem_nil

/-- The filter of a kernel that lacks `getrandom` alone. -/
theorem seccompFilter_decides_getrandom :
    Bpf.Closed (seccompFilter [318]) ∧
      (∀ data : SeccompData, Bpf.run data.load (seccompFilter [318]) =
        .returned (if data.arch = AUDIT_ARCH_X86_64 ∧ data.nr ∈ [318] then SECCOMP_RET_TRACE
          else SECCOMP_RET_ALLOW)) ∧
      (([318] : List (BitVec 32)) = [] → ∀ data : SeccompData,
        Bpf.run data.load (seccompFilter [318]) = .returned SECCOMP_RET_ALLOW) :=
  seccompFilter_decides (by decide)

/-! ### What the tracer wants -/

end Tracing
end Sharun
