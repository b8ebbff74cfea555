/-
# What `write_struct` changes

`PTRACE_POKEDATA` writes whole words, so the last word of a structure whose length is
no multiple of eight is merged with the one that is in memory.  Where that word is
mapped to its end what is merged is what is there, and `writeStruct` changes the bytes
it was asked to write and no others, whatever the length and the alignment.  Where it
is not, the peek fails, the bytes of the structure are merged with zeros, and the poke
writes them up to the end of the mapping before it fails as well: these bytes behind
the structure are `spilled`, and they are all that changes behind it
(`writeStruct_behind`).  The write succeeds exactly when all the words it touches are
mapped (`writeStruct_ok_iff`), and then memory holds what was written
(`bytesAt_writeStruct`).
-/

import Sharun.Basis.Region
import Sharun.Machine.Time
import Mathlib.Tactic.Ring

namespace Sharun
namespace Machine

open Sharun.Basis

/-! ### The bytes of a word -/

theorem leNat_cons (b : Byte) (bytes : List Byte) :
    leNat (b :: bytes) = b.toNat + 256 * leNat bytes := rfl

/-- A byte of the number a byte list spells. -/
theorem leNat_byte {bytes : List Byte} {i : ℕ} (h : i < bytes.length) :
    leNat bytes / 256 ^ i % 256 = bytes[i].toNat := by
  induction bytes generalizing i with
  | nil => exact absurd h (Nat.not_lt_zero i)
  | cons b bytes ih =>
    have hb := b.isLt
    rw [leNat_cons]
    cases i with
    | zero =>
      rw [pow_zero, Nat.div_one, List.getElem_cons_zero]
      omega
    | succ i =>
      have hi : i < bytes.length := Nat.lt_of_succ_lt_succ h
      rw [List.getElem_cons_succ, ← ih hi, Nat.pow_succ', ← Nat.div_div_eq_div_mul]
      congr 2
      omega

/-- A byte of the word eight bytes make. -/
theorem leU64_byte {bytes : List Byte} {i : ℕ} (h : i < bytes.length) (h8 : i < 8) :
    ((leU64 bytes) >>> (8 * i)).setWidth 8 = bytes[i] := by
  apply BitVec.eq_of_toNat_eq
  rw [← leNat_byte h, BitVec.toNat_setWidth, BitVec.toNat_ushiftRight, leU64, BitVec.toNat_ofNat,
    Nat.shiftRight_eq_div_pow, show (256 : ℕ) = 2 ^ 8 from rfl, ← Nat.pow_mul]
  -- The word is the number modulo `2 ^ 64`, and byte `i` ends below that.
  have hsplit : (2 : ℕ) ^ 64 = 2 ^ (8 * i) * 2 ^ (64 - 8 * i) := by
    rw [← Nat.pow_add]
    congr 1
    omega
  have hdvd : (2 : ℕ) ^ 8 ∣ 2 ^ (64 - 8 * i) := Nat.pow_dvd_pow 2 (by omega)
  rw [hsplit, Nat.mod_mul_right_div_self, Nat.mod_mod_of_dvd _ hdvd]

theorem leBytes_getElem {w n i : ℕ} (x : BitVec w) (h : i < (leBytes n x).length) :
    (leBytes n x)[i] = (x >>> (8 * i)).setWidth 8 := by
  simp [leBytes]

namespace Memory

variable {m m' : Memory} {addr : U64}

theorem bytesAt_length {n : ℕ} {bytes : List Byte} (h : m.bytesAt addr n = some bytes) :
    bytes.length = n := by
  induction n generalizing addr bytes with
  | zero =>
    obtain rfl := Option.some.inj h
    rfl
  | succ n ih =>
    simp only [bytesAt, Option.bind_eq_bind, Option.bind_eq_some_iff, Option.pure_def,
      Option.some.injEq] at h
    obtain ⟨byte, -, rest, hrest, rfl⟩ := h
    rw [List.length_cons, ih hrest]

theorem bytesAt_getElem {n : ℕ} {bytes : List Byte} (h : m.bytesAt addr n = some bytes) {i : ℕ}
    (hi : i < bytes.length) : m (addr + BitVec.ofNat 64 i) = some bytes[i] := by
  induction n generalizing addr bytes i with
  | zero =>
    obtain rfl := Option.some.inj h
    exact absurd hi (Nat.not_lt_zero i)
  | succ n ih =>
    simp only [bytesAt, Option.bind_eq_bind, Option.bind_eq_some_iff, Option.pure_def,
      Option.some.injEq] at h
    obtain ⟨byte, hbyte, rest, hrest, rfl⟩ := h
    cases i with
    | zero => simpa using hbyte
    | succ i =>
      have hnext := ih hrest (Nat.lt_of_succ_lt_succ hi)
      rw [List.getElem_cons_succ, ← hnext]
      congr 1
      rw [BitVec.add_assoc, show (1 : U64) = BitVec.ofNat 64 1 from rfl, ← BitVec.ofNat_add,
        Nat.add_comm]

theorem bytesAt_succ_isSome (m : Memory) (addr : U64) (n : ℕ) :
    (m.bytesAt addr (n + 1)).isSome = ((m addr).isSome && (m.bytesAt (addr + 1) n).isSome) := by
  rw [bytesAt]
  cases m addr with
  | none => rfl
  | some byte => cases m.bytesAt (addr + 1) n <;> rfl

/-- The addresses that are mapped. -/
def mapped (m : Memory) : Set U64 := {a | (m a).isSome}

theorem bytesAt_isSome_iff {n : ℕ} : (m.bytesAt addr n).isSome ↔ region addr n ⊆ m.mapped := by
  induction n generalizing addr with
  | zero =>
    rw [region_zero]
    exact iff_of_true rfl (Set.empty_subset _)
  | succ n ih =>
    have hone : region addr 1 ⊆ m.mapped ↔ (m addr).isSome := by
      constructor
      · exact fun h => h (by rw [mem_region, BitVec.sub_self]; decide)
      · intro h a ha
        have hzero : a - addr = 0#64 := BitVec.eq_of_toNat_eq (Nat.lt_one_iff.1 ha)
        rw [← BitVec.sub_add_cancel a addr, hzero, BitVec.zero_add]
        exact h
    rw [bytesAt_succ_isSome, Bool.and_eq_true, ih, Nat.add_comm, region_add, Set.union_subset_iff,
      hone]
    rfl

theorem peekWord_isSome_iff : (m.peekWord addr).isSome ↔ region addr 8 ⊆ m.mapped := by
  rw [peekWord, Option.isSome_map, bytesAt_isSome_iff]

/-! ### One poke -/

/-- Where a poke writes: the bytes of the word as far as memory is mapped from its address
on. -/
theorem pokeWord_written {val a : U64} (h8 : (a - addr).toNat < 8)
    (h : region addr ((a - addr).toNat + 1) ⊆ m.mapped) :
    (m.pokeWord addr val).1 a = some ((val >>> (8 * (a - addr).toNat)).setWidth 8) :=
  if_pos ⟨h8, bytesAt_isSome_iff.2 h⟩

/-- **Elsewhere** memory is as it was. -/
theorem pokeWord_kept {val a : U64}
    (h : (a - addr).toNat < 8 → ¬ region addr ((a - addr).toNat + 1) ⊆ m.mapped) :
    (m.pokeWord addr val).1 a = m a :=
  if_neg fun hc => h hc.1 (bytesAt_isSome_iff.1 hc.2)

theorem pokeWord_ok_iff {val : U64} :
    (m.pokeWord addr val).2 = true ↔ region addr 8 ⊆ m.mapped := peekWord_isSome_iff

theorem pokeWord_changes (m : Memory) (addr val : U64) :
    Changes (region addr 8) m (m.pokeWord addr val).1 :=
  fun _ ha => pokeWord_kept fun h8 => absurd h8 ha

/-- What is mapped stays mapped. -/
theorem pokeWord_mapped (m : Memory) (addr val : U64) :
    (m.pokeWord addr val).1.mapped = m.mapped := by
  ext a
  show ((m.pokeWord addr val).1 a).isSome ↔ (m a).isSome
  by_cases h : (a - addr).toNat < 8 ∧ region addr ((a - addr).toNat + 1) ⊆ m.mapped
  · rw [pokeWord_written h.1 h.2]
    exact iff_of_true rfl (h.2 (Nat.lt_succ_self _))
  · rw [pokeWord_kept fun h8 hmapped => h ⟨h8, hmapped⟩]

/-- The bytes behind a structure of `len` bytes that lie in its last word and are mapped,
where that word is not mapped to its end. -/
def spilled (m : Memory) (addr : U64) (len : ℕ) : Set U64 :=
  {a | len ≤ (a - addr).toNat ∧ (a - addr).toNat < 8 * ((len + 7) / 8) ∧
    region addr ((a - addr).toNat + 1) ⊆ m.mapped ∧
    ¬ region addr (8 * ((len + 7) / 8)) ⊆ m.mapped}

/-- What is spilled depends on what is mapped alone. -/
theorem spilled_congr (h : m'.mapped = m.mapped) (addr : U64) (len : ℕ) :
    m'.spilled addr len = m.spilled addr len := by
  rw [spilled, spilled, h]

/-- What is spilled is in the last word. -/
theorem spilled_subset (m : Memory) (addr : U64) (len : ℕ) :
    m.spilled addr len ⊆ region addr (8 * ((len + 7) / 8)) := fun _ h => h.2.1

/-- Whole words spill nothing. -/
theorem spilled_of_whole {len : ℕ} (h : 8 ∣ len) : m.spilled addr len = ∅ := by
  refine Set.eq_empty_of_forall_notMem fun a ha => ?_
  have hlow := ha.1
  have hhigh := ha.2.1
  omega

/-- Behind whole words that are mapped nothing is different. -/
theorem mem_spilled_shift {k len : ℕ} (hk : 8 ∣ k) (hlen : k ≤ len)
    (hmapped : region addr k ⊆ m.mapped) {a : U64} (ha : len ≤ (a - addr).toNat) :
    a ∈ m.spilled (addr + BitVec.ofNat 64 k) (len - k) ↔ a ∈ m.spilled addr len := by
  have hdist : (a - (addr + BitVec.ofNat 64 k)).toNat = (a - addr).toNat - k := by
    have hofNat : (BitVec.ofNat 64 k).toNat = k := by
      rw [BitVec.toNat_ofNat]
      exact Nat.mod_eq_of_lt (lt_of_le_of_lt (hlen.trans ha) (a - addr).isLt)
    have hle : BitVec.ofNat 64 k ≤ a - addr := by
      rw [BitVec.le_def, hofNat]
      exact hlen.trans ha
    rw [← BitVec.sub_sub, BitVec.toNat_sub_of_le hle, hofNat]
  have hregion : ∀ n, region addr (k + n) ⊆ m.mapped ↔
      region (addr + BitVec.ofNat 64 k) n ⊆ m.mapped := by
    intro n
    rw [region_add, Set.union_subset_iff, and_iff_right hmapped]
  have hsucc : (a - addr).toNat + 1 = k + ((a - addr).toNat - k + 1) := by omega
  have hwords : 8 * ((len + 7) / 8) = k + 8 * ((len - k + 7) / 8) := by omega
  show _ ∧ _ ∧ _ ∧ _ ↔ _ ∧ _ ∧ _ ∧ _
  rw [hdist, hsucc, hwords, hregion, hregion]
  exact and_congr (by omega) (and_congr (by omega) Iff.rfl)

/-- The word that a short tail is merged into. -/
def tailWord (m : Memory) (addr : U64) (bytes : List Byte) : U64 :=
  leU64 (bytes ++ (leBytes 8 ((m.peekWord addr).getD 0)).drop bytes.length)

section

variable {bytes : List Byte} {a : U64}

/-- A byte of that word behind the tail. -/
theorem tailWord_byte (h8 : (a - addr).toNat < 8) (ha : bytes.length ≤ (a - addr).toNat) :
    ((m.tailWord addr bytes) >>> (8 * (a - addr).toNat)).setWidth 8 =
      (((m.peekWord addr).getD 0) >>> (8 * (a - addr).toNat)).setWidth 8 := by
  have hidx : bytes.length + ((a - addr).toNat - bytes.length) = (a - addr).toNat := by omega
  have hchunk : (a - addr).toNat <
      (bytes ++ (leBytes 8 ((m.peekWord addr).getD 0)).drop bytes.length).length := by
    rw [List.length_append, List.length_drop, leBytes_length]
    omega
  rw [tailWord, leU64_byte hchunk h8, List.getElem_append_right ha, List.getElem_drop,
    leBytes_getElem]
  simp only [hidx]

/-- Where the word cannot be peeked, **the poke of a short tail** leaves zeros behind it. -/
theorem pokeWord_tail_spilled (hpos : 0 < bytes.length) (hlen : bytes.length < 8)
    (ha : a ∈ m.spilled addr bytes.length) :
    (m.pokeWord addr (m.tailWord addr bytes)).1 a = some 0 := by
  obtain ⟨hlow, hhigh, hpoked, hunmapped⟩ := ha
  have hword : 8 * ((bytes.length + 7) / 8) = 8 := by omega
  rw [hword] at hhigh hunmapped
  have hnone : m.peekWord addr = none := by
    rw [← Option.not_isSome_iff_eq_none, peekWord_isSome_iff]
    exact hunmapped
  rw [pokeWord_written hhigh hpoked, tailWord_byte hhigh hlow, hnone, Option.getD_none]
  simp

/-- Elsewhere it **keeps what is there**: that is what it has been merged with. -/
theorem pokeWord_tail_kept (hpos : 0 < bytes.length) (hlen : bytes.length < 8)
    (ha : a ∉ region addr bytes.length) (hspilled : a ∉ m.spilled addr bytes.length) :
    (m.pokeWord addr (m.tailWord addr bytes)).1 a = m a := by
  rw [mem_region, not_lt] at ha
  have hword : 8 * ((bytes.length + 7) / 8) = 8 := by omega
  by_cases hpoked : (a - addr).toNat < 8 ∧ region addr ((a - addr).toNat + 1) ⊆ m.mapped
  · obtain ⟨h8, hpoked⟩ := hpoked
    have hmapped : region addr 8 ⊆ m.mapped := by
      rw [← hword]
      by_contra hsub
      exact hspilled ⟨ha, by omega, hpoked, hsub⟩
    obtain ⟨old, hold⟩ := Option.isSome_iff_exists.1 (bytesAt_isSome_iff.2 hmapped)
    have hk : (a - addr).toNat < old.length := by
      rw [bytesAt_length hold]
      exact h8
    have haddr : addr + BitVec.ofNat 64 (a - addr).toNat = a := by
      rw [BitVec.ofNat_toNat, BitVec.setWidth_eq, BitVec.add_comm, BitVec.sub_add_cancel]
    have hbyte := bytesAt_getElem hold hk
    rw [haddr] at hbyte
    rw [pokeWord_written h8 hpoked, tailWord_byte h8 ha, peekWord, hold, Option.map_some,
      Option.getD_some, leU64_byte hk h8, hbyte]
  · exact pokeWord_kept fun h8 hmapped => hpoked ⟨h8, hmapped⟩

end

/-! ### All the words -/

/-- What is mapped stays mapped. -/
theorem writeWords_mapped (m : Memory) (addr : U64) (bytes : List Byte) (n : ℕ) :
    (m.writeWords addr bytes n).1.mapped = m.mapped := by
  induction n generalizing m addr bytes with
  | zero => rfl
  | succ n ih =>
    rw [writeWords]
    generalize leU64 _ = word
    have hmapped := pokeWord_mapped m addr word
    generalize m.pokeWord addr word = r at hmapped ⊢
    obtain ⟨m₁, ok⟩ := r
    cases ok with
    | false => exact hmapped
    | true => exact (ih ..).trans hmapped

section

variable {bytes : List Byte} {n : ℕ} {a : U64}

/-- **Words can be written where they are mapped.** -/
theorem writeWords_ok_iff :
    (m.writeWords addr bytes n).2 = true ↔ region addr (8 * n) ⊆ m.mapped := by
  induction n generalizing m addr bytes with
  | zero =>
    rw [region_zero]
    exact iff_of_true rfl (Set.empty_subset _)
  | succ n ih =>
    rw [writeWords, show 8 * (n + 1) = 8 + 8 * n by omega, region_add, Set.union_subset_iff]
    generalize leU64 _ = word
    have hmapped := pokeWord_mapped m addr word
    have hok : (m.pokeWord addr word).2 = true ↔ region addr 8 ⊆ m.mapped := pokeWord_ok_iff
    generalize m.pokeWord addr word = r at hmapped hok ⊢
    obtain ⟨m₁, ok⟩ := r
    cases ok with
    | false => exact iff_of_false Bool.false_ne_true fun h => Bool.false_ne_true (hok.2 h.1)
    | true =>
      refine ih.trans ?_
      rw [show m₁.mapped = m.mapped from hmapped, and_iff_right (hok.1 rfl)]
      rfl

/-- **What `write_struct` leaves behind the bytes it is given to write**: zeros in what is
spilled, and elsewhere what was there. -/
theorem writeWords_behind (hn : n = (bytes.length + 7) / 8) (ha : a ∉ region addr bytes.length) :
    (a ∈ m.spilled addr bytes.length → (m.writeWords addr bytes n).1 a = some 0) ∧
      (a ∉ m.spilled addr bytes.length → (m.writeWords addr bytes n).1 a = m a) := by
  induction n generalizing m addr bytes with
  | zero =>
    refine ⟨fun h => absurd h.2.1 ?_, fun _ => rfl⟩
    omega
  | succ n ih =>
    by_cases hfull : 8 ≤ bytes.length
    · have hdist : bytes.length ≤ (a - addr).toNat := not_lt.1 ha
      have hout : a ∉ region addr 8 := fun h => ha (region_mono hfull addr h)
      rw [writeWords]
      rw [if_pos hfull]
      generalize leU64 (bytes.take 8) = word
      have hkept := pokeWord_changes m addr word hout
      have hmapped := pokeWord_mapped m addr word
      have hok : (m.pokeWord addr word).2 = true ↔ region addr 8 ⊆ m.mapped := pokeWord_ok_iff
      generalize m.pokeWord addr word = r at hkept hmapped hok ⊢
      obtain ⟨m₁, ok⟩ := r
      cases ok with
      | false =>
        refine ⟨fun h => absurd (hok.2 ?_) Bool.false_ne_true, fun _ => hkept⟩
        exact (region_mono (by omega) addr).trans h.2.2.1
      | true =>
        have hdrop : (bytes.drop 8).length = bytes.length - 8 := List.length_drop ..
        have hrest : a ∉ region (addr + 8) (bytes.drop 8).length := by
          rw [hdrop]
          exact fun h => ha (region_shift (k := 8) (by omega) addr h)
        have hspilled : a ∈ m₁.spilled (addr + 8) (bytes.drop 8).length ↔
            a ∈ m.spilled addr bytes.length := by
          rw [hdrop, spilled_congr hmapped,
            ← mem_spilled_shift (k := 8) (dvd_refl 8) hfull (hok.1 rfl) hdist]
          rfl
        obtain ⟨hzero, hsame⟩ := ih (m := m₁) (by omega) hrest
        rw [hspilled] at hzero hsame
        exact ⟨hzero, fun h => (hsame h).trans hkept⟩
    · have hpos : 0 < bytes.length := by omega
      have hwrite : (m.writeWords addr bytes (n + 1)).1 =
          (m.pokeWord addr (m.tailWord addr bytes)).1 := by
        obtain rfl : n = 0 := by omega
        rw [writeWords]
        rw [if_neg hfull]
        unfold tailWord
        generalize m.pokeWord addr _ = r
        obtain ⟨m₁, ok⟩ := r
        cases ok <;> rfl
      rw [hwrite]
      exact ⟨pokeWord_tail_spilled hpos (not_le.1 hfull),
        pokeWord_tail_kept hpos (not_le.1 hfull) ha⟩

/-- **A write that succeeds** changes the bytes it was given to write and no others. -/
theorem writeWords_changes_of_ok (hn : n = (bytes.length + 7) / 8)
    (h : m.writeWords addr bytes n = (m', true)) : Changes (region addr bytes.length) m m' := by
  intro a ha
  have hmapped : region addr (8 * n) ⊆ m.mapped := writeWords_ok_iff.1 (congrArg Prod.snd h)
  have hkept := (writeWords_behind (m := m) hn ha).2 fun hspilled => hspilled.2.2.2 (hn ▸ hmapped)
  rwa [h] at hkept

/-- **A structure can be written where the whole words from its address on are mapped.** -/
theorem writeStruct_ok_iff : (m.writeStruct addr bytes).2 = true ↔
    region addr (8 * ((bytes.length + 7) / 8)) ⊆ m.mapped := writeWords_ok_iff

theorem writeStruct_behind (ha : a ∉ region addr bytes.length) :
    (a ∈ m.spilled addr bytes.length → (m.writeStruct addr bytes).1 a = some 0) ∧
      (a ∉ m.spilled addr bytes.length → (m.writeStruct addr bytes).1 a = m a) :=
  writeWords_behind rfl ha

/-- **All that `write_struct` changes**: the bytes it is given to write and the spilled ones. -/
theorem writeStruct_changes (m : Memory) (addr : U64) (bytes : List Byte) :
    Changes (region addr bytes.length ∪ m.spilled addr bytes.length) m
      (m.writeStruct addr bytes).1 := fun _ ha =>
  (writeStruct_behind fun h => ha (Or.inl h)).2 fun h => ha (Or.inr h)

/-- They lie in the words that are touched. -/
theorem writeStruct_changes_words (m : Memory) (addr : U64) (bytes : List Byte) :
    Changes (region addr (8 * ((bytes.length + 7) / 8))) m (m.writeStruct addr bytes).1 :=
  (m.writeStruct_changes addr bytes).mono
    (Set.union_subset (region_mono (by omega) addr) (m.spilled_subset addr _))

end

end Memory

/-! ### What is written is read back -/

/-- The bytes of a word make the word. -/
theorem leU64_leBytes (x : U64) : leU64 (leBytes 8 x) = x := by
  apply BitVec.eq_of_getLsbD_eq
  intro j hj
  have hi : j / 8 < 8 := by omega
  have hlen : j / 8 < (leBytes 8 x).length := by
    rw [leBytes_length]
    exact hi
  have hbyte : ((leU64 (leBytes 8 x)) >>> (8 * (j / 8))).setWidth 8 =
      (x >>> (8 * (j / 8))).setWidth 8 := by
    rw [leU64_byte hlen hi, leBytes_getElem]
  have hbit := congrArg (fun b : Byte => b.getLsbD (j % 8)) hbyte
  have hj8 : j % 8 < 8 := Nat.mod_lt _ (by decide)
  have hsum : 8 * (j / 8) + j % 8 = j := Nat.div_add_mod j 8
  simpa [hj8, hsum] using hbit

/-- Eight bytes are those of the word they make. -/
theorem leBytes_leU64 {bytes : List Byte} (h : bytes.length = 8) :
    leBytes 8 (leU64 bytes) = bytes := by
  refine List.ext_getElem (by rw [leBytes_length, h]) fun i h₁ h₂ => ?_
  rw [leBytes_getElem, leU64_byte h₂ (by omega)]

theorem leI64_leBytes {x : ℤ} (h₁ : -2 ^ 63 ≤ x) (h₂ : x < 2 ^ 63) :
    leI64 (leBytes 8 (asU64 x)) = x := by
  rw [leI64, leU64_leBytes]
  exact BitVec.toInt_ofInt_eq_self (by decide) (by simpa using h₁) (by simpa using h₂)

/-- A `timespec` as it is laid out in memory. -/
theorem timeAt_leBytes {time : Time} (h : time.Valid) :
    timeAt (leBytes 8 (asU64 time.sec) ++ leBytes 8 (asU64 time.nsec)) 0 = time := by
  obtain ⟨hsec₁, hsec₂, hnsec₁, hnsec₂⟩ := h
  unfold timeAt
  rw [List.drop_zero, List.take_left' (leBytes_length 8 _), List.drop_left' (leBytes_length 8 _),
    List.take_of_length_le (leBytes_length 8 _).le, leI64_leBytes (by omega) hsec₂,
    leI64_leBytes (by omega) (by omega)]

namespace Memory

variable {m m' : Memory} {addr : U64} {s : Set U64} {bytes : List Byte} {n : ℕ}

theorem bytesAt_of_getElem (h : ∀ i (hi : i < bytes.length),
    m (addr + BitVec.ofNat 64 i) = some bytes[i]) : m.bytesAt addr bytes.length = some bytes := by
  induction bytes generalizing addr with
  | nil => rfl
  | cons byte bytes ih =>
    have hbyte : m addr = some byte := by simpa using h 0 (Nat.zero_lt_succ _)
    have hrest : m.bytesAt (addr + 1) bytes.length = some bytes := by
      refine ih fun i hi => ?_
      have hnext := h (i + 1) (Nat.succ_lt_succ hi)
      rw [List.getElem_cons_succ] at hnext
      rw [← hnext]
      congr 1
      rw [BitVec.add_assoc, show (1 : U64) = BitVec.ofNat 64 1 from rfl, ← BitVec.ofNat_add,
        Nat.add_comm]
    show (do let b ← m addr; let rest ← m.bytesAt (addr + 1) bytes.length; return b :: rest) = _
    rw [hbyte, hrest]
    rfl

/-- What a poke that succeeds leaves: the byte of the word at the distance from its address,
and elsewhere what was there. -/
theorem pokeWord_apply_of_ok {val : U64} (h : m.pokeWord addr val = (m', true)) (a : U64) :
    m' a = if (a - addr).toNat < 8 then some ((val >>> (8 * (a - addr).toNat)).setWidth 8)
      else m a := by
  have hmapped : region addr 8 ⊆ m.mapped := pokeWord_ok_iff.1 (congrArg Prod.snd h)
  obtain rfl : (m.pokeWord addr val).1 = m' := congrArg Prod.fst h
  split_ifs with h8
  · exact pokeWord_written h8 ((region_mono (Nat.succ_le_of_lt h8) addr).trans hmapped)
  · exact pokeWord_kept fun hlt => absurd hlt h8

/-- **A word that is poked is what is peeked.** -/
theorem peekWord_pokeWord {val : U64} (h : m.pokeWord addr val = (m', true)) :
    m'.peekWord addr = some val := by
  have hbytes : m'.bytesAt addr (leBytes 8 val).length = some (leBytes 8 val) := by
    refine bytesAt_of_getElem fun i hi => ?_
    rw [leBytes_length] at hi
    have hdist : (addr + BitVec.ofNat 64 i - addr).toNat = i := by
      rw [BitVec.add_comm, BitVec.add_sub_cancel, BitVec.toNat_ofNat]
      omega
    rw [pokeWord_apply_of_ok h, hdist, if_pos hi, leBytes_getElem]
  rw [leBytes_length] at hbytes
  unfold peekWord
  rw [hbytes, Option.map_some, leU64_leBytes]

/-- A word is not touched by what happens elsewhere. -/
theorem peekWord_of_changes (h : Changes s m m') (hs : Disjoint (region addr 8) s) :
    m'.peekWord addr = m.peekWord addr := by
  have hbytes : ∀ n (a : U64), region a n ⊆ region addr 8 → m'.bytesAt a n = m.bytesAt a n := by
    intro n
    induction n with
    | zero => exact fun a _ => rfl
    | succ n ih =>
      intro a ha
      have hmem : a ∈ region addr 8 := ha (by rw [mem_region]; simp)
      have hbyte : m' a = m a := h (Set.disjoint_left.1 hs hmem)
      have hrest : m'.bytesAt (a + 1) n = m.bytesAt (a + 1) n :=
        ih (a + 1) ((region_shift (k := 1) (by omega) a).trans ha)
      show (do let b ← m' a; let rest ← m'.bytesAt (a + 1) n; return b :: rest) = _
      rw [hbyte, hrest]
      rfl
  unfold peekWord
  rw [hbytes 8 addr subset_rfl]

/-- **What is written in whole words is read back.** -/
theorem readWords_writeWords (hlen : bytes.length = 8 * n) (hn : 8 * n ≤ 2 ^ 64)
    (h : m.writeWords addr bytes n = (m', true)) : m'.readWords addr n = some bytes := by
  induction n generalizing m addr bytes with
  | zero =>
    rw [List.eq_nil_of_length_eq_zero hlen]
    rfl
  | succ n ih =>
    unfold writeWords at h
    dsimp only at h
    rw [if_pos (by omega)] at h
    split at h
    · exact absurd (congrArg Prod.snd h) Bool.false_ne_true
    · rename_i m₁ hpoke
      have hdrop : (bytes.drop 8).length = 8 * n := by
        rw [List.length_drop]
        omega
      have hrest : m'.readWords (addr + 8) n = some (bytes.drop 8) := ih hdrop (by omega) h
      have hchanges : Changes (region (addr + 8) (8 * n)) m₁ m' := by
        have hwrite := writeWords_changes_of_ok (by omega) h
        rwa [hdrop] at hwrite
      have hdisjoint : Disjoint (region addr 8) (region (addr + 8) (8 * n)) :=
        region_disjoint le_rfl (by omega) addr
      have hword : m'.peekWord addr = some (leU64 (bytes.take 8)) := by
        rw [peekWord_of_changes hchanges hdisjoint, peekWord_pokeWord hpoke]
      have htake : (bytes.take 8).length = 8 := by
        rw [List.length_take]
        omega
      show (do let w ← m'.peekWord addr; let rest ← m'.readWords (addr + 8) n
               return leBytes 8 w ++ rest) = _
      rw [hword, hrest]
      show some (leBytes 8 (leU64 (bytes.take 8)) ++ bytes.drop 8) = _
      rw [leBytes_leU64 htake, List.take_append_drop]

theorem readStruct_writeStruct (hlen : bytes.length = 8 * n) (hn : 8 * n ≤ 2 ^ 64)
    (h : m.writeStruct addr bytes = (m', true)) : m'.readStruct addr (8 * n) = some bytes := by
  have hwords : (8 * n + 7) / 8 = n := by omega
  unfold writeStruct at h
  rw [hlen, hwords] at h
  unfold readStruct
  rw [hwords, readWords_writeWords hlen hn h, Option.map_some,
    List.take_of_length_le (by omega)]

theorem readWords_succ_isSome (m : Memory) (addr : U64) (n : ℕ) :
    (m.readWords addr (n + 1)).isSome =
      ((m.bytesAt addr 8).isSome && (m.readWords (addr + 8) n).isSome) := by
  rw [readWords, peekWord]
  cases m.bytesAt addr 8 with
  | none => rfl
  | some bytes => cases m.readWords (addr + 8) n <;> rfl

/-- **Words can be read where all their bytes are mapped.** -/
theorem readWords_isSome_iff : (m.readWords addr n).isSome ↔ region addr (8 * n) ⊆ m.mapped := by
  induction n generalizing addr with
  | zero =>
    rw [region_zero]
    exact iff_of_true rfl (Set.empty_subset _)
  | succ n ih =>
    rw [readWords_succ_isSome, Bool.and_eq_true, ih, bytesAt_isSome_iff,
      show 8 * (n + 1) = 8 + 8 * n by omega, region_add, Set.union_subset_iff]
    rfl

/-- **A structure can be written where it can be read.** -/
theorem writeStruct_ok :
    (m.writeStruct addr bytes).2 = (m.readStruct addr bytes.length).isSome := by
  rw [Bool.eq_iff_iff, writeStruct_ok_iff, readStruct, Option.isSome_map, readWords_isSome_iff]

/-- Whether a structure can be read depends on what is mapped alone. -/
theorem readStruct_isNone_congr (h : m'.mapped = m.mapped) (addr : U64) (n : ℕ) :
    (m'.readStruct addr n).isNone = (m.readStruct addr n).isNone := by
  have hsome : (m'.readStruct addr n).isSome ↔ (m.readStruct addr n).isSome := by
    unfold readStruct
    rw [Option.isSome_map, Option.isSome_map, readWords_isSome_iff, readWords_isSome_iff, h]
  rw [← Option.not_isSome, ← Option.not_isSome, Bool.eq_iff_iff.2 hsome]

/-- **After a write the memory holds what was written.** -/
theorem writeWords_getElem (hn : n = (bytes.length + 7) / 8) (hbound : bytes.length ≤ 2 ^ 64)
    (h : m.writeWords addr bytes n = (m', true)) {i : ℕ} (hi : i < bytes.length) :
    m' (addr + BitVec.ofNat 64 i) = some bytes[i] := by
  induction n generalizing m addr bytes i with
  | zero => exact absurd hi (by omega)
  | succ n ih =>
    rw [writeWords] at h
    split at h
    · exact absurd (congrArg Prod.snd h) Bool.false_ne_true
    rename_i m₁ hpoke
    rcases lt_or_ge i 8 with hlt | hge
    · -- The words after the first one leave its bytes alone.
      have hchanges : Changes (region (addr + 8) (bytes.drop 8).length) m₁ m' :=
        writeWords_changes_of_ok (by rw [List.length_drop]; omega) h
      have hdisjoint : Disjoint (region addr (min 8 bytes.length))
          (region (addr + 8) (bytes.drop 8).length) := by
        rw [List.length_drop]
        rcases le_total bytes.length 8 with hle | hle
        · rw [Nat.sub_eq_zero_of_le hle, region_zero]
          exact Set.disjoint_empty _
        · exact region_disjoint (k := 8) (Nat.min_le_left _ _) (by omega) addr
      have hdist : (addr + BitVec.ofNat 64 i - addr).toNat = i := by
        rw [BitVec.add_comm, BitVec.add_sub_cancel, BitVec.toNat_ofNat]
        omega
      have hmem : addr + BitVec.ofNat 64 i ∈ region addr (min 8 bytes.length) := by
        rw [mem_region, hdist]
        omega
      rw [hchanges (Set.disjoint_left.1 hdisjoint hmem), pokeWord_apply_of_ok hpoke, hdist,
        if_pos hlt]
      congr 1
      split_ifs with hfull
      · have htake : i < (bytes.take 8).length := by
          rw [List.length_take]
          omega
        rw [leU64_byte htake hlt, List.getElem_take]
      · have hchunk : i < (bytes ++
            (leBytes 8 ((m.peekWord addr).getD 0)).drop bytes.length).length := by
          rw [List.length_append]
          omega
        rw [leU64_byte hchunk hlt, List.getElem_append_left hi]
    · have hdrop : (bytes.drop 8).length = bytes.length - 8 := List.length_drop ..
      have hrest := ih (by omega) (by omega) h (i := i - 8) (by omega)
      rw [List.getElem_drop] at hrest
      have haddr : addr + 8 + BitVec.ofNat 64 (i - 8) = addr + BitVec.ofNat 64 i := by
        rw [BitVec.add_assoc, show (8 : U64) = BitVec.ofNat 64 8 from rfl, ← BitVec.ofNat_add,
          Nat.add_sub_cancel' hge]
      simpa only [haddr, Nat.add_sub_cancel' hge] using hrest

theorem bytesAt_writeStruct (hbound : bytes.length ≤ 2 ^ 64)
    (h : m.writeStruct addr bytes = (m', true)) :
    m'.bytesAt addr bytes.length = some bytes :=
  bytesAt_of_getElem fun _ hi => writeWords_getElem (by omega) hbound h hi

/-- **Whole words and what follows them are written one after the other.** -/
theorem writeWords_append {tail : List Byte} {k : ℕ} (hlen : bytes.length = 8 * k) (n : ℕ) :
    m.writeWords addr (bytes ++ tail) (k + n) =
      if (m.writeWords addr bytes k).2 = true then
        (m.writeWords addr bytes k).1.writeWords (addr + BitVec.ofNat 64 (8 * k)) tail n
      else ((m.writeWords addr bytes k).1, false) := by
  induction k generalizing m addr bytes with
  | zero =>
    obtain rfl := List.eq_nil_of_length_eq_zero hlen
    rw [Nat.zero_add, List.nil_append, Nat.mul_zero]
    exact congrArg (fun a => m.writeWords a tail n) (BitVec.add_zero addr).symm
  | succ k ih =>
    have hdrop : (bytes.drop 8).length = 8 * k := by
      rw [List.length_drop]
      omega
    have hle : 8 ≤ bytes.length := by omega
    have hle' : 8 ≤ (bytes ++ tail).length := by
      rw [List.length_append]
      omega
    rw [show k + 1 + n = k + n + 1 by omega, writeWords, writeWords, if_pos hle, if_pos hle',
      List.take_append_of_le_length hle, List.drop_append_of_le_length hle]
    obtain ⟨m₁, ok⟩ := m.pokeWord addr (leU64 (bytes.take 8))
    cases ok with
    | false => rfl
    | true =>
      dsimp only
      rw [ih hdrop, show 8 * (k + 1) = 8 + 8 * k by omega, BitVec.ofNat_add, ← BitVec.add_assoc]
      rfl

theorem writeStruct_append {tail : List Byte} {k : ℕ} (hlen : bytes.length = 8 * k) :
    m.writeStruct addr (bytes ++ tail) =
      if (m.writeStruct addr bytes).2 = true then
        (m.writeStruct addr bytes).1.writeStruct (addr + BitVec.ofNat 64 (8 * k)) tail
      else ((m.writeStruct addr bytes).1, false) := by
  have hwords : ((bytes ++ tail).length + 7) / 8 = k + (tail.length + 7) / 8 := by
    rw [List.length_append, hlen]
    omega
  have hk : (bytes.length + 7) / 8 = k := by omega
  unfold writeStruct
  rw [hwords, hk]
  exact writeWords_append hlen _

end Memory

/-- `write_struct` on a tracee. -/
theorem Tracee.writeStruct_changes {t t' : Tracee} {addr : U64} {bytes : List Byte} {ok : Bool}
    (hlen : 8 ∣ bytes.length) (h : t.writeStruct addr bytes = (t', ok)) :
    Changes (region addr bytes.length) t.mem t'.mem := by
  obtain rfl : (t.writeStruct addr bytes).1 = t' := congrArg Prod.fst h
  have hchanges := t.mem.writeStruct_changes addr bytes
  rwa [Memory.spilled_of_whole hlen, Set.union_empty] at hchanges

theorem Tracee.writeStruct_changes_words {t t' : Tracee} {addr : U64} {bytes : List Byte}
    {ok : Bool} (h : t.writeStruct addr bytes = (t', ok)) :
    Changes (region addr (8 * ((bytes.length + 7) / 8))) t.mem t'.mem := by
  obtain rfl : (t.writeStruct addr bytes).1 = t' := congrArg Prod.fst h
  exact t.mem.writeStruct_changes_words addr bytes

theorem Tracee.writeStruct_ok {t : Tracee} {addr : U64} {bytes : List Byte} :
    (t.writeStruct addr bytes).2 = (t.mem.readStruct addr bytes.length).isSome :=
  Memory.writeStruct_ok

theorem Tracee.writeStruct_ok_iff {t : Tracee} {addr : U64} {bytes : List Byte} :
    (t.writeStruct addr bytes).2 = true ↔
      region addr (8 * ((bytes.length + 7) / 8)) ⊆ t.mem.mapped :=
  Memory.writeStruct_ok_iff

theorem Tracee.bytesAt_writeStruct {t t' : Tracee} {addr : U64} {bytes : List Byte}
    (hbound : bytes.length ≤ 2 ^ 64) (h : t.writeStruct addr bytes = (t', true)) :
    t'.mem.bytesAt addr bytes.length = some bytes := by
  have hmem : (t.mem.writeStruct addr bytes).1 = t'.mem := congrArg (fun r => r.1.mem) h
  have hok : (t.mem.writeStruct addr bytes).2 = true := congrArg (fun r => r.2) h
  exact Memory.bytesAt_writeStruct hbound (Prod.ext hmem hok)

theorem Tracee.writeStruct_append {t : Tracee} {addr : U64} {bytes tail : List Byte} {k : ℕ}
    (hlen : bytes.length = 8 * k) : t.writeStruct addr (bytes ++ tail) =
      if (t.writeStruct addr bytes).2 = true then
        (t.writeStruct addr bytes).1.writeStruct (addr + BitVec.ofNat 64 (8 * k)) tail
      else ((t.writeStruct addr bytes).1, false) := by
  unfold Tracee.writeStruct
  rw [Memory.writeStruct_append hlen]
  dsimp only
  split_ifs <;> rfl

theorem Tracee.readStruct_writeStruct {t t' : Tracee} {addr : U64} {bytes : List Byte} {n : ℕ}
    (hlen : bytes.length = 8 * n) (hn : 8 * n ≤ 2 ^ 64)
    (h : t.writeStruct addr bytes = (t', true)) : t'.mem.readStruct addr (8 * n) = some bytes := by
  have hmem : (t.mem.writeStruct addr bytes).1 = t'.mem := congrArg (fun r => r.1.mem) h
  have hok : (t.mem.writeStruct addr bytes).2 = true := congrArg (fun r => r.2) h
  exact Memory.readStruct_writeStruct hlen hn (Prod.ext hmem hok)

end Machine
end Sharun
