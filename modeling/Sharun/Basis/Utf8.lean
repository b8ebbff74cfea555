/-
# Texts and their bytes

The UTF-8 encoding of a text (`utf8`), and the decoding that puts a replacement character
where the bytes are none (`lossy`): as many bytes are replaced by one character as begin a
sequence that is then cut short.  What has been encoded is decoded as it was (`lossy_utf8`).

Words that are written one after the other, each with a terminator, can be told apart when
the terminator is in none of them (`splitOn_terminated`).  A byte below `80` stands for its
character wherever it is in an encoding (`mem_utf8_iff`), so that a text and its bytes have the
same pieces at a separator of one byte (`splitOn_utf8`).
-/

import Mathlib.Data.List.Basic
import Mathlib.Tactic.SplitIfs
import Sharun.Basis.Separated

namespace Sharun
namespace Basis

/-- The UTF-8 encoding of a text. -/
def utf8 (t : List Char) : List UInt8 := t.flatMap String.utf8EncodeChar

/-- The character whose encoding is at the front. -/
def decodeFirst (bytes : List UInt8) : Option Char := bytes.toByteArray.utf8DecodeChar? 0

/-- A byte `10xxxxxx`. -/
def isContinuation (b : UInt8) : Bool := 0x80 ≤ b && b ≤ 0xbf

/-- These may be the first two bytes of a sequence of three. -/
def beginsThree (b c : UInt8) : Bool :=
  (b == 0xe0 && 0xa0 ≤ c && c ≤ 0xbf) || (0xe1 ≤ b && b ≤ 0xec && isContinuation c) ||
    (b == 0xed && 0x80 ≤ c && c ≤ 0x9f) || (0xee ≤ b && b ≤ 0xef && isContinuation c)

/-- These may be the first two bytes of a sequence of four. -/
def beginsFour (b c : UInt8) : Bool :=
  (b == 0xf0 && 0x90 ≤ c && c ≤ 0xbf) || (0xf1 ≤ b && b ≤ 0xf3 && isContinuation c) ||
    (b == 0xf4 && 0x80 ≤ c && c ≤ 0x8f)

/-- How many bytes after the first belong to a sequence that is cut short. -/
def cutShort (b : UInt8) : List UInt8 → ℕ
  | [] => 0
  | c :: rest =>
    if beginsThree b c then 1
    else if beginsFour b c then (if rest.head?.any isContinuation then 2 else 1)
    else 0

/-- `String::from_utf8_lossy`: what is no encoding of a character is replaced. -/
def lossy : List UInt8 → List Char
  | [] => []
  | b :: rest =>
    match decodeFirst (b :: rest) with
    | some c => c :: lossy (rest.drop (c.utf8Size - 1))
    | none => Char.ofNat 0xfffd :: lossy (rest.drop (cutShort b rest))
termination_by bytes => bytes.length
decreasing_by
  all_goals
    rw [List.length_drop, List.length_cons]
    omega

theorem utf8_cons (c : Char) (t : List Char) : utf8 (c :: t) = String.utf8EncodeChar c ++ utf8 t :=
  List.flatMap_cons

theorem utf8_append (s t : List Char) : utf8 (s ++ t) = utf8 s ++ utf8 t := List.flatMap_append

theorem utf8_eq_nil {t : List Char} : utf8 t = [] ↔ t = [] := by
  cases t with
  | nil => simp [utf8]
  | cons c t => simp [utf8_cons, String.utf8EncodeChar_ne_nil]

theorem decodeFirst_utf8 (c : Char) (t : List Char) : decodeFirst (utf8 (c :: t)) = some c :=
  List.utf8DecodeChar?_utf8Encode_cons

/-- **What has been encoded is decoded as it was.** -/
theorem lossy_utf8 (t : List Char) : lossy (utf8 t) = t := by
  induction t with
  | nil => rw [utf8, List.flatMap_nil, lossy]
  | cons c t ih =>
    have hfirst := decodeFirst_utf8 c t
    rw [utf8_cons] at hfirst ⊢
    have hlength := String.length_utf8EncodeChar c
    cases henc : String.utf8EncodeChar c with
    | nil => exact absurd henc String.utf8EncodeChar_ne_nil
    | cons b bs =>
      rw [henc, List.length_cons] at hlength
      rw [henc, List.cons_append] at hfirst
      rw [List.cons_append, lossy, hfirst]
      dsimp only
      rw [show c.utf8Size - 1 = bs.length by omega, List.drop_left, ih]

/-- `String::from_utf8`, and `to_str` of an `OsStr`: the text with these bytes, if any. -/
def decode (bytes : List UInt8) : Option (List Char) :=
  if utf8 (lossy bytes) = bytes then some (lossy bytes) else none

theorem decode_eq_some {bytes : List UInt8} {t : List Char} :
    decode bytes = some t ↔ bytes = utf8 t := by
  unfold decode
  constructor
  · intro h
    split_ifs at h with hb
    rw [← Option.some.inj h, hb]
  · rintro rfl
    rw [if_pos (by rw [lossy_utf8]), lossy_utf8]

@[simp] theorem decode_utf8 (t : List Char) : decode (utf8 t) = some t := decode_eq_some.2 rfl

/-- The byte `ff` is in no encoding. -/
theorem decode_ff : decode [0xff] = none := by
  have hfirst : decodeFirst [0xff] = none := by decide
  have hlossy : lossy [0xff] = [Char.ofNat 0xfffd] := by
    rw [lossy, hfirst]
    simp [lossy]
  rw [decode, hlossy]
  decide

theorem utf8_injective : Function.Injective utf8 := fun s t h => by
  rw [← lossy_utf8 s, h, lossy_utf8]

/-- A byte below `80` is in the encoding of one character only, which it is all of. -/
theorem utf8EncodeChar_of_mem {c : Char} {b : UInt8} (hb : b < 0x80)
    (h : b ∈ String.utf8EncodeChar c) : String.utf8EncodeChar c = [b] := by
  -- All bytes of a longer sequence have their highest bit set.
  have hhigh : ∀ n : ℕ, 128 ≤ n → n < 256 → b ≠ UInt8.ofNat n := by
    intro n hge hlt he
    have hnat := congrArg UInt8.toNat he
    have hb := UInt8.lt_iff_toNat_lt.1 hb
    rw [UInt8.toNat_ofNat'] at hnat
    change b.toNat < 128 at hb
    omega
  rw [String.utf8EncodeChar] at h ⊢
  split_ifs at h ⊢ with h1 h2 h3
  · rw [List.mem_singleton.1 h]
  · simp only [List.mem_cons, List.not_mem_nil, or_false] at h
    rcases h with h | h
    · exact absurd h (hhigh _ (by omega) (by omega))
    · exact absurd h (hhigh _ (by omega) (by omega))
  · simp only [List.mem_cons, List.not_mem_nil, or_false] at h
    rcases h with h | h | h
    · exact absurd h (hhigh _ (by omega) (by omega))
    · exact absurd h (hhigh _ (by omega) (by omega))
    · exact absurd h (hhigh _ (by omega) (by omega))
  · simp only [List.mem_cons, List.not_mem_nil, or_false] at h
    rcases h with h | h | h | h
    · exact absurd h (hhigh _ (by omega) (by omega))
    · exact absurd h (hhigh _ (by omega) (by omega))
    · exact absurd h (hhigh _ (by omega) (by omega))
    · exact absurd h (hhigh _ (by omega) (by omega))

/-- A byte below `80` in the encoding of a text stands for its character. -/
theorem mem_utf8_iff {sep : Char} {b : UInt8} (hb : b < 0x80) (hsep : utf8 [sep] = [b])
    {t : List Char} : b ∈ utf8 t ↔ sep ∈ t := by
  have henc : String.utf8EncodeChar sep = [b] := by
    rw [← hsep, utf8, List.flatMap_singleton]
  constructor
  · intro h
    obtain ⟨c, hc, hmem⟩ := List.mem_flatMap.1 h
    have hsame : utf8 [c] = utf8 [sep] := by
      rw [hsep, utf8, List.flatMap_singleton, utf8EncodeChar_of_mem hb hmem]
    rwa [← (List.cons.inj (utf8_injective hsame)).1]
  · intro h
    exact List.mem_flatMap.2 ⟨sep, h, by rw [henc]; exact List.mem_singleton_self b⟩

/-- **The pieces of a text are those of its bytes**, at a separator of one byte. -/
theorem splitOn_utf8 {sep : Char} {b : UInt8} (hb : b < 0x80) (hsep : utf8 [sep] = [b])
    (t : List Char) : (utf8 t).splitOn b = (t.splitOn sep).map utf8 := by
  have hjoin : ∀ pieces : List (List Char), utf8 ([sep].intercalate pieces) =
      [b].intercalate (pieces.map utf8) := by
    intro pieces
    induction pieces with
    | nil => rfl
    | cons piece pieces ih =>
      cases pieces with
      | nil => simp
      | cons piece' pieces =>
        rw [List.map_cons, List.map_cons, List.intercalate_cons_cons, List.intercalate_cons_cons,
          utf8_append, utf8_append, ih, List.map_cons, hsep]
  have hne : (t.splitOn sep).map utf8 ≠ [] := by
    rw [Ne, List.map_eq_nil_iff]
    exact List.splitOn_ne_nil sep t
  have ht : utf8 t = [b].intercalate ((t.splitOn sep).map utf8) := by
    rw [← hjoin, List.intercalate_splitOn]
  rw [ht]
  refine List.splitOn_intercalate b ?_ hne
  intro bytes hbytes hmem
  obtain ⟨piece, hpiece, rfl⟩ := List.mem_map.1 hbytes
  exact notMem_of_mem_splitOn hpiece ((mem_utf8_iff hb hsep).1 hmem)

/-- **Words with a terminator can be told apart.** -/
theorem splitOn_terminated {α : Type*} [DecidableEq α] {sep : α} {words : List (List α)}
    (h : ∀ word ∈ words, sep ∉ word) :
    (words.flatMap (· ++ [sep])).splitOn sep = words ++ [[]] := by
  induction words with
  | nil => exact List.splitOn_nil sep
  | cons word words ih =>
    obtain ⟨hword, hwords⟩ := List.forall_mem_cons.1 h
    rw [List.flatMap_cons, List.append_assoc, List.singleton_append,
      List.splitOn_append_cons_self_of_not_mem hword, ih hwords, List.cons_append]

end Basis
end Sharun
