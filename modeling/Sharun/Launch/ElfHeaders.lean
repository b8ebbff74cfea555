/-
# The headers of a program

`get_elf` of `src/utils.rs` reads the beginning of a program for `is_static_elf`, which looks
for a `PT_INTERP` among the program headers.  How much it reads is computed from the section
headers: up to the end of their table, as `e_shoff` and `e_shnum` give it, on the assumption
that the table is the last thing in the file.  `readsHeaders_iff` says for which files what is
read holds the program headers too.

| member of the ELF header | offset | bytes |
| --- | ---: | ---: |
| `e_ident[EI_CLASS]`, `e_ident[EI_DATA]` | 4, 5 | 1 |
| `e_phoff` | 32 | 8 |
| `e_shoff` | 40 | 8 |
| `e_phentsize`, `e_phnum` | 54, 56 | 2 |
| `e_shnum` | 60 | 2 |

With `e_phnum` at `PN_XNUM` the number of program headers is the `sh_info` of the first
section header.  goblin, which parses what is read, is a parameter.
-/

import Mathlib.Data.BitVec
import Mathlib.Data.List.Basic
import Mathlib.Data.List.TakeDrop

namespace Sharun
namespace Launch

/-- A file, or the beginning of one. -/
abbrev Image := List UInt8

namespace Image

/-- `e_ident[EI_DATA]` is `ELFDATA2MSB`. -/
def bigEndian (image : Image) : Bool := image[5]? = some 2

/-- The number in `len` bytes at an offset, in the byte order of the file. -/
def field (image : Image) (off len : ℕ) : ℕ :=
  let bytes := (image.drop off).take len
  (if image.bigEndian then bytes else bytes.reverse).foldl (fun n byte => 256 * n + byte.toNat) 0

def phoff (image : Image) : ℕ := image.field 32 8

def shoff (image : Image) : ℕ := image.field 40 8

def phentsize (image : Image) : ℕ := image.field 54 2

def phnum (image : Image) : ℕ := image.field 56 2

def shnum (image : Image) : ℕ := image.field 60 2

end Image

/-- `required_bytes`: a sum of `u64`, modulo `2^64`. -/
def requiredBytes (file : Image) : ℕ := (file.shoff + file.shnum * 64) % 2 ^ 64

/-- `get_elf(path, is_elf32)`, `none` when the file ends before what is to be read. -/
def getElf (file : Image) (isElf32 : Bool) : Option Image :=
  if isElf32 then some file
  else if file.length < 64 then none
  else if file.length < requiredBytes file then none
  else some (file.take (requiredBytes file))

abbrev PT_INTERP : ℕ := 3

/-- `is_static_elf(elf_bytes)`, from the types of the program headers goblin finds. -/
def isStaticElf (parse : Image → Option (List ℕ)) (elfBytes : Image) : Bool :=
  match parse elfBytes with
  | some types => !types.any (· = PT_INTERP)
  | none => false

/-! ### The program headers of a file -/

abbrev PN_XNUM : ℕ := 0xffff

namespace Image

/-- The number of program headers. -/
def programHeaders (image : Image) : ℕ :=
  if image.phnum = PN_XNUM then image.field (image.shoff + 44) 4 else image.phnum

/-- Where the program header table ends. -/
def tableEnd (image : Image) : ℕ :=
  if image.programHeaders = 0 then 0 else image.phoff + image.programHeaders * 56

/-- The types of the program headers. -/
def segmentTypes (image : Image) : List ℕ :=
  (List.range image.programHeaders).map fun i => image.field (image.phoff + i * 56) 4

/-- An image of an ELF64 file that holds the ELF header and the program header table. -/
structure WellFormed (image : Image) : Prop where
  header : 64 ≤ image.length
  class64 : image.take 5 = [0x7f, 0x45, 0x4c, 0x46, 2]
  data : image[5]? = some 1 ∨ image[5]? = some 2
  /-- The first section header is there when it is needed for the number. -/
  number : image.phnum = PN_XNUM → image.shoff + 64 ≤ image.length
  entries : image.programHeaders ≠ 0 → image.phentsize = 56
  table : image.tableEnd ≤ image.length

instance : DecidablePred WellFormed := fun image =>
  decidable_of_iff (64 ≤ image.length ∧ image.take 5 = [0x7f, 0x45, 0x4c, 0x46, 2] ∧
      (image[5]? = some 1 ∨ image[5]? = some 2) ∧
      (image.phnum = PN_XNUM → image.shoff + 64 ≤ image.length) ∧
      (image.programHeaders ≠ 0 → image.phentsize = 56) ∧ image.tableEnd ≤ image.length)
    ⟨fun ⟨h1, h2, h3, h4, h5, h6⟩ => ⟨h1, h2, h3, h4, h5, h6⟩,
      fun h => ⟨h.header, h.class64, h.data, h.number, h.entries, h.table⟩⟩

variable {file : Image} {n : ℕ}

/-! ### Beginnings of a file -/

theorem bigEndian_take (hn : 64 ≤ n) : bigEndian (file.take n) = file.bigEndian := by
  unfold bigEndian
  rw [List.getElem?_take_of_lt (by omega)]

/-- What lies in the beginning of a file is read from it as from the file. -/
theorem field_take (hn : 64 ≤ n) {off len : ℕ} (h : off + len ≤ n) :
    field (file.take n) off len = file.field off len := by
  unfold field
  rw [bigEndian_take hn, List.drop_take, List.take_take, Nat.min_eq_left (by omega)]

theorem phnum_take (hn : 64 ≤ n) : phnum (file.take n) = file.phnum := field_take hn (by omega)

theorem shoff_take (hn : 64 ≤ n) : shoff (file.take n) = file.shoff := field_take hn (by omega)

theorem phoff_take (hn : 64 ≤ n) : phoff (file.take n) = file.phoff := field_take hn (by omega)

theorem phentsize_take (hn : 64 ≤ n) : phentsize (file.take n) = file.phentsize :=
  field_take hn (by omega)

theorem programHeaders_take (hn : 64 ≤ n) (h : file.phnum = PN_XNUM → file.shoff + 64 ≤ n) :
    programHeaders (file.take n) = file.programHeaders := by
  unfold programHeaders
  rw [phnum_take hn, shoff_take hn]
  split_ifs with hx
  · have := h hx
    exact field_take hn (by omega)
  · rfl

theorem tableEnd_take (hn : 64 ≤ n) (h : file.phnum = PN_XNUM → file.shoff + 64 ≤ n) :
    tableEnd (file.take n) = file.tableEnd := by
  unfold tableEnd
  rw [programHeaders_take hn h, phoff_take hn]

/-- **The beginning of a well-formed file is well-formed** when it holds the ELF header and the
program header table, and where it is needed the first section header. -/
theorem WellFormed.take_iff (hfile : WellFormed file) (hn : n ≤ file.length) :
    WellFormed (file.take n) ↔ 64 ≤ n ∧ file.tableEnd ≤ n ∧
      (file.phnum = PN_XNUM → file.shoff + 64 ≤ n) := by
  have hlen : (file.take n).length = n := List.length_take_of_le hn
  constructor
  · intro h
    have h64 : 64 ≤ n := hlen ▸ h.header
    have hnumber : file.phnum = PN_XNUM → file.shoff + 64 ≤ n := by
      have := h.number
      rwa [phnum_take h64, shoff_take h64, hlen] at this
    have htable := h.table
    rw [tableEnd_take h64 hnumber, hlen] at htable
    exact ⟨h64, htable, hnumber⟩
  · rintro ⟨h64, htable, hnumber⟩
    constructor
    · rwa [hlen]
    · rw [List.take_take, Nat.min_eq_left (by omega)]
      exact hfile.class64
    · rw [List.getElem?_take_of_lt (by omega)]
      exact hfile.data
    · rwa [phnum_take h64, shoff_take h64, hlen]
    · rw [programHeaders_take h64 hnumber, phentsize_take h64]
      exact hfile.entries
    · rwa [tableEnd_take h64 hnumber, hlen]

theorem segmentTypes_take (hn : 64 ≤ n) (htable : file.tableEnd ≤ n)
    (h : file.phnum = PN_XNUM → file.shoff + 64 ≤ n) :
    segmentTypes (file.take n) = file.segmentTypes := by
  unfold segmentTypes
  rw [programHeaders_take hn h, phoff_take hn]
  refine List.map_congr_left fun i hi => field_take hn ?_
  have hi := List.mem_range.1 hi
  unfold tableEnd at htable
  rw [if_neg (by omega)] at htable
  omega

end Image

open Image

/-! ### What is read -/

/-- `get_elf` returns a beginning of the file with the ELF header and the whole program header
table, and `is_static_elf` answers for the file. -/
def ReadsHeaders (parse : Image → Option (List ℕ)) (file : Image) : Prop :=
  ∃ elfBytes, getElf file false = some elfBytes ∧ elfBytes <+: file ∧ WellFormed elfBytes ∧
    segmentTypes elfBytes = segmentTypes file ∧
    (isStaticElf parse elfBytes = true ↔ PT_INTERP ∉ segmentTypes file)

theorem getElf_eq {file : Image} (hfile : 64 ≤ file.length) : getElf file false =
    if file.length < requiredBytes file then none else some (file.take (requiredBytes file)) := by
  unfold getElf
  rw [if_neg (by decide), if_neg (by omega)]

/-- What is read is within the file, and holds the headers. -/
theorem ReadsHeaders.bounds {parse : Image → Option (List ℕ)} {file : Image}
    (h : ReadsHeaders parse file) (hfile : WellFormed file) :
    64 ≤ requiredBytes file ∧ requiredBytes file ≤ file.length ∧
      file.tableEnd ≤ requiredBytes file ∧
      (file.phnum = PN_XNUM → file.shoff + 64 ≤ requiredBytes file) := by
  obtain ⟨elfBytes, heq, -, hwell, -⟩ := h
  rw [getElf_eq hfile.header] at heq
  split_ifs at heq with hshort
  obtain rfl := Option.some.inj heq
  obtain ⟨h64, htable, hnumber⟩ := (hfile.take_iff (by omega)).1 hwell
  exact ⟨h64, by omega, htable, hnumber⟩

/-- **The program headers are read** when the end of the section headers, as it is computed, is
behind the ELF header and the program header table, and within the file. -/
theorem readsHeaders_iff {parse : Image → Option (List ℕ)}
    (hparse : ∀ image, WellFormed image → parse image = some (segmentTypes image))
    {file : Image} (hfile : WellFormed file) :
    ReadsHeaders parse file ↔ 64 ≤ requiredBytes file ∧ requiredBytes file ≤ file.length ∧
      file.tableEnd ≤ requiredBytes file ∧
      (file.phnum = PN_XNUM → file.shoff + 64 ≤ requiredBytes file) := by
  refine ⟨fun h => h.bounds hfile, ?_⟩
  rintro ⟨h64, hle, htable, hnumber⟩
  have hwell : WellFormed (file.take (requiredBytes file)) :=
    (hfile.take_iff hle).2 ⟨h64, htable, hnumber⟩
  have htypes := segmentTypes_take h64 htable hnumber
  refine ⟨file.take (requiredBytes file), ?_, List.take_prefix _ _, hwell, htypes, ?_⟩
  · rw [getElf_eq hfile.header, if_neg (by omega)]
  · unfold isStaticElf
    rw [hparse _ hwell, htypes]
    change (!file.segmentTypes.any (· = PT_INTERP)) = true ↔ _
    rw [Bool.not_eq_true', ← Bool.not_eq_true, not_iff_not]
    simp

/-- A parser that reads what is there. -/
def parseHeaders (image : Image) : Option (List ℕ) :=
  if WellFormed image then some (segmentTypes image) else none

theorem parseHeaders_of_wellFormed (image : Image) (h : WellFormed image) :
    parseHeaders image = some (segmentTypes image) := if_pos h

/-- A program with one `PT_LOAD` segment and the given section headers. -/
def tinyElf (shoff shnum : UInt8) (sections : List UInt8) : Image :=
  [0x7f, 0x45, 0x4c, 0x46, 2, 1, 1, 0] ++ List.replicate 24 0 ++ [64, 0, 0, 0, 0, 0, 0, 0] ++
    [shoff, 0, 0, 0, 0, 0, 0, 0] ++ List.replicate 6 0 ++ [56, 0, 1, 0, 64, 0, shnum, 0, 0, 0] ++
    [1, 0, 0, 0] ++ List.replicate 52 0 ++ sections

/-- With one section header behind the program header. -/
theorem readsHeaders_iff_section :
    ReadsHeaders parseHeaders (tinyElf 120 1 (List.replicate 64 0)) ↔
      64 ≤ requiredBytes (tinyElf 120 1 (List.replicate 64 0)) ∧
      requiredBytes (tinyElf 120 1 (List.replicate 64 0)) ≤
        (tinyElf 120 1 (List.replicate 64 0)).length ∧
      (tinyElf 120 1 (List.replicate 64 0)).tableEnd ≤
        requiredBytes (tinyElf 120 1 (List.replicate 64 0)) ∧
      ((tinyElf 120 1 (List.replicate 64 0)).phnum = PN_XNUM →
        (tinyElf 120 1 (List.replicate 64 0)).shoff + 64 ≤
          requiredBytes (tinyElf 120 1 (List.replicate 64 0))) :=
  readsHeaders_iff parseHeaders_of_wellFormed (by decide +kernel)

/-- Without section headers nothing is read. -/
theorem sections_stripped :
    ¬∀ (parse : Image → Option (List ℕ)),
      (∀ image, WellFormed image → parse image = some (segmentTypes image)) →
      ∀ file, WellFormed file → ReadsHeaders parse file := by
  intro hall
  have hwell : WellFormed (tinyElf 0 0 []) := by decide +kernel
  have h := hall parseHeaders parseHeaders_of_wellFormed _ hwell
  have hbounds := h.bounds hwell
  revert hbounds
  decide +kernel

end Launch
end Sharun
