/-
# From `struct stat` to `struct statx`

`build_statx` of `src/kernel_compat.rs` moves some twenty members between two structures by
offsets.  Here the two structures are read member by member in the order of their
declarations (`Stat.ofBytes`, `Statx.ofBytes`), and the image that is built, read as a
`struct statx`, is that of the members that were read (`buildStatx_reports`).

`dev_major` and `dev_minor` take the two numbers of a device out of its 64-bit number:

| bits of the number | 0–7 | 8–19 | 20–43 | 44–63 |
| --- | --- | --- | --- | --- |
| | minor 0–7 | major 0–11 | minor 8–31 | major 12–31 |

so that no bit is lost, and `makedev` puts them together again.
-/

import Sharun.Machine.Layout
import Sharun.Tracer.Footprint

namespace Sharun
namespace Tracing

open Machine Emulation Sharun.Basis

/-! ### The two structures -/

/-- `struct stat` of x86_64, in its order. -/
structure Stat where
  dev : U64
  ino : U64
  nlink : U64
  mode : BitVec 32
  uid : BitVec 32
  gid : BitVec 32
  pad0 : BitVec 32
  rdev : U64
  size : U64
  blksize : U64
  blocks : U64
  atime : U64
  atimeNsec : U64
  mtime : U64
  mtimeNsec : U64
  ctime : U64
  ctimeNsec : U64
  unused : List Byte

/-- A `struct stat` from its 144 bytes. -/
def Stat.ofBytes (image : List Byte) : Stat :=
  let (dev, image) := u64 image
  let (ino, image) := u64 image
  let (nlink, image) := u64 image
  let (mode, image) := u32 image
  let (uid, image) := u32 image
  let (gid, image) := u32 image
  let (pad0, image) := u32 image
  let (rdev, image) := u64 image
  let (size, image) := u64 image
  let (blksize, image) := u64 image
  let (blocks, image) := u64 image
  let (atime, image) := u64 image
  let (atimeNsec, image) := u64 image
  let (mtime, image) := u64 image
  let (mtimeNsec, image) := u64 image
  let (ctime, image) := u64 image
  let (ctimeNsec, image) := u64 image
  let (unused, _) := pad 24 image
  { dev, ino, nlink, mode, uid, gid, pad0, rdev, size, blksize, blocks, atime, atimeNsec,
    mtime, mtimeNsec, ctime, ctimeNsec, unused }

/-- `struct statx_timestamp`. -/
structure StatxTimestamp where
  sec : U64
  nsec : BitVec 32
  reserved : BitVec 32
  deriving DecidableEq

/-- `struct statx`, in its order; the members behind the device numbers are `spare`. -/
structure Statx where
  mask : BitVec 32
  blksize : BitVec 32
  attributes : U64
  nlink : BitVec 32
  uid : BitVec 32
  gid : BitVec 32
  mode : BitVec 16
  spare0 : BitVec 16
  ino : U64
  size : U64
  blocks : U64
  attributesMask : U64
  atime : StatxTimestamp
  btime : StatxTimestamp
  ctime : StatxTimestamp
  mtime : StatxTimestamp
  rdevMajor : BitVec 32
  rdevMinor : BitVec 32
  devMajor : BitVec 32
  devMinor : BitVec 32
  spare : List Byte
  deriving DecidableEq

/-- A `struct statx_timestamp` and what is behind it. -/
def StatxTimestamp.ofBytes (image : List Byte) : StatxTimestamp × List Byte :=
  let (sec, image) := u64 image
  let (nsec, image) := u32 image
  let (reserved, image) := u32 image
  (⟨sec, nsec, reserved⟩, image)

/-- A `struct statx` from its 256 bytes. -/
def Statx.ofBytes (image : List Byte) : Statx :=
  let (mask, image) := u32 image
  let (blksize, image) := u32 image
  let (attributes, image) := u64 image
  let (nlink, image) := u32 image
  let (uid, image) := u32 image
  let (gid, image) := u32 image
  let (mode, image) := u16 image
  let (spare0, image) := u16 image
  let (ino, image) := u64 image
  let (size, image) := u64 image
  let (blocks, image) := u64 image
  let (attributesMask, image) := u64 image
  let (atime, image) := StatxTimestamp.ofBytes image
  let (btime, image) := StatxTimestamp.ofBytes image
  let (ctime, image) := StatxTimestamp.ofBytes image
  let (mtime, image) := StatxTimestamp.ofBytes image
  let (rdevMajor, image) := u32 image
  let (rdevMinor, image) := u32 image
  let (devMajor, image) := u32 image
  let (devMinor, image) := u32 image
  let (spare, _) := pad 112 image
  { mask, blksize, attributes, nlink, uid, gid, mode, spare0, ino, size, blocks, attributesMask,
    atime, btime, ctime, mtime, rdevMajor, rdevMinor, devMajor, devMinor, spare }

abbrev STATX_BASIC_STATS : BitVec 32 := 0x7ff

/-- A time of `struct stat` as one of `struct statx`. -/
def StatxTimestamp.ofStat (sec nsec : U64) : StatxTimestamp := ⟨sec, nsec.setWidth 32, 0⟩

/-- The basic statistics of a file as `statx` reports them: each member cut to the width it
has there, and everything else zero. -/
def Stat.basicStats (st : Stat) : Statx where
  mask := STATX_BASIC_STATS
  blksize := st.blksize.setWidth 32
  attributes := 0
  nlink := st.nlink.setWidth 32
  uid := st.uid
  gid := st.gid
  mode := st.mode.setWidth 16
  spare0 := 0
  ino := st.ino
  size := st.size
  blocks := st.blocks
  attributesMask := 0
  atime := .ofStat st.atime st.atimeNsec
  btime := ⟨0, 0, 0⟩
  ctime := .ofStat st.ctime st.ctimeNsec
  mtime := .ofStat st.mtime st.mtimeNsec
  rdevMajor := devMajor st.rdev
  rdevMinor := devMinor st.rdev
  devMajor := devMajor st.dev
  devMinor := devMinor st.dev
  spare := List.replicate 112 0

/-! ### Writing members in ascending order -/

/-- The image of a `struct statx`. -/
def StatxTimestamp.toBytes (x : StatxTimestamp) : List Byte :=
  leBytes 8 x.sec ++ leBytes 4 x.nsec ++ leBytes 4 x.reserved

def Statx.toBytes (x : Statx) : List Byte :=
  [leBytes 4 x.mask, leBytes 4 x.blksize, leBytes 8 x.attributes, leBytes 4 x.nlink,
    leBytes 4 x.uid, leBytes 4 x.gid, leBytes 2 x.mode, leBytes 2 x.spare0, leBytes 8 x.ino,
    leBytes 8 x.size, leBytes 8 x.blocks, leBytes 8 x.attributesMask, x.atime.toBytes,
    x.btime.toBytes, x.ctime.toBytes, x.mtime.toBytes, leBytes 4 x.rdevMajor,
    leBytes 4 x.rdevMinor, leBytes 4 x.devMajor, leBytes 4 x.devMinor, x.spare].flatten

theorem StatxTimestamp.ofBytes_toBytes (x : StatxTimestamp) (rest : List Byte) :
    StatxTimestamp.ofBytes (x.toBytes ++ rest) = (x, rest) := by
  simp only [StatxTimestamp.ofBytes, StatxTimestamp.toBytes, List.append_assoc, u64_append,
    u32_append]

/-- **What is laid out is read back.** -/
theorem Statx.ofBytes_toBytes {x : Statx} (h : x.spare.length = 112) :
    Statx.ofBytes x.toBytes = x := by
  have hspare := pad_append [] h
  simp only [Statx.ofBytes, Statx.toBytes, List.flatten_cons, List.flatten_nil, u64_append,
    u32_append, u16_append, StatxTimestamp.ofBytes_toBytes, hspare]

/-! ### The writes in ascending order -/

/-- An image of `size` bytes whose first `n` bytes are written and whose others are zero. -/
def Laid (size n : ℕ) (written image : List Byte) : Prop :=
  written.length = n ∧ n ≤ size ∧ image = written ++ List.replicate (size - n) 0

theorem Laid.empty (size : ℕ) : Laid size 0 [] (List.replicate size 0) :=
  ⟨rfl, Nat.zero_le _, rfl⟩

/-- A write behind what is written, and behind some bytes that stay zero. -/
theorem Laid.write {size n gap w : ℕ} {written image skipped value : List Byte}
    (h : Laid size n written image) (hskip : skipped = List.replicate gap 0)
    (hw : value.length = w) (hfits : n + gap + w ≤ size) :
    Laid size (n + gap + w) (written ++ skipped ++ value) (wrBytes image (n + gap) value) := by
  obtain ⟨hlen, hsize, rfl⟩ := h
  have hlen' : (written ++ skipped).length = n + gap := by
    rw [List.length_append, hlen, hskip, List.length_replicate]
  refine ⟨by rw [List.length_append, hlen', hw], hfits, ?_⟩
  have hzeros : List.replicate (size - n) (0 : Byte) =
      skipped ++ List.replicate (size - (n + gap)) 0 := by
    rw [hskip, List.replicate_append_replicate]
    congr 1
    omega
  unfold wrBytes
  rw [hzeros, ← List.append_assoc, List.take_left' hlen', ← hlen', List.drop_append,
    List.drop_of_length_le (Nat.le_add_right _ _), List.nil_append, Nat.add_sub_cancel_left,
    List.drop_replicate, hw, hlen', Nat.sub_sub]

/-- **The image that is built** is that of the basic statistics. -/
theorem buildStatx_eq (stat : List Byte) :
    buildStatx stat = (Stat.ofBytes stat).basicStats.toBytes := by
  have hnone : ([] : List Byte) = List.replicate 0 0 := rfl
  have hspare : leBytes 2 (0 : BitVec 16) = List.replicate 2 0 := rfl
  have hattributes : leBytes 8 (0 : U64) = List.replicate 8 0 := rfl
  have hreserved : leBytes 4 (0 : BitVec 32) = List.replicate 4 0 := rfl
  have hbtime : leBytes 4 (0 : BitVec 32) ++ StatxTimestamp.toBytes ⟨0, 0, 0⟩ =
      List.replicate 20 0 := rfl
  -- the writes in the order of the source, each with the zeros it leaves before it
  have h := (Laid.empty 256)
    |>.write hnone (leBytes_length 4 STATX_BASIC_STATS) (by decide)
    |>.write hnone (leBytes_length 4 ((rdU64 stat 56).setWidth 32)) (by decide)
    |>.write hattributes (leBytes_length 4 ((rdU64 stat 16).setWidth 32)) (by decide)
    |>.write hnone (leBytes_length 4 (rdU32 stat 28)) (by decide)
    |>.write hnone (leBytes_length 4 (rdU32 stat 32)) (by decide)
    |>.write hnone (leBytes_length 2 ((rdU32 stat 24).setWidth 16)) (by decide)
    |>.write hspare (leBytes_length 8 (rdU64 stat 8)) (by decide)
    |>.write hnone (leBytes_length 8 (rdU64 stat 48)) (by decide)
    |>.write hnone (leBytes_length 8 (rdU64 stat 64)) (by decide)
    |>.write hattributes (leBytes_length 8 (rdU64 stat 72)) (by decide)
    |>.write hnone (leBytes_length 4 ((rdU64 stat 80).setWidth 32)) (by decide)
    |>.write hbtime (leBytes_length 8 (rdU64 stat 104)) (by decide)
    |>.write hnone (leBytes_length 4 ((rdU64 stat 112).setWidth 32)) (by decide)
    |>.write hreserved (leBytes_length 8 (rdU64 stat 88)) (by decide)
    |>.write hnone (leBytes_length 4 ((rdU64 stat 96).setWidth 32)) (by decide)
    |>.write hreserved (leBytes_length 4 (devMajor (rdU64 stat 40))) (by decide)
    |>.write hnone (leBytes_length 4 (devMinor (rdU64 stat 40))) (by decide)
    |>.write hnone (leBytes_length 4 (devMajor (rdU64 stat 0))) (by decide)
    |>.write hnone (leBytes_length 4 (devMinor (rdU64 stat 0))) (by decide)
  have himage : buildStatx stat = _ := h.2.2
  rw [himage]
  simp only [Statx.toBytes, Stat.basicStats, Stat.ofBytes, StatxTimestamp.ofStat,
    StatxTimestamp.toBytes, u64, u32, pad, rdU64, rdU32, List.drop_drop, List.flatten_cons,
    List.flatten_nil, List.append_assoc, List.nil_append, List.append_nil]
  rfl

/-! ### Device numbers -/

/-- glibc's `makedev`. -/
def makedev (major minor : BitVec 32) : U64 :=
  ((major &&& 0xfff).setWidth 64 <<< 8) ||| ((major &&& 0xfffff000).setWidth 64 <<< 32) |||
    (minor &&& 0xff).setWidth 64 ||| ((minor &&& 0xffffff00).setWidth 64 <<< 12)

/-- The bits of a mask of the lowest ones. -/
theorem mask_bit {w : ℕ} (n : ℕ) (i : ℕ) :
    (BitVec.ofNat w (2 ^ n - 1)).getLsbD i = (decide (i < w) && decide (i < n)) := by
  rw [BitVec.getLsbD_ofNat, Nat.testBit_two_pow_sub_one]

theorem devMajor_bit (dev : U64) {i : ℕ} (hi : i < 32) :
    (devMajor dev).getLsbD i = dev.getLsbD (if i < 12 then 8 + i else 32 + i) := by
  have hmask : devMajor dev = (((dev >>> 8) &&& BitVec.ofNat 64 (2 ^ 12 - 1)) |||
      ((dev >>> 32) &&& ~~~(BitVec.ofNat 64 (2 ^ 12 - 1)))).setWidth 32 := rfl
  have hi' : i < 64 := by omega
  rw [hmask, BitVec.getLsbD_setWidth, BitVec.getLsbD_or, BitVec.getLsbD_and, BitVec.getLsbD_and,
    BitVec.getLsbD_not, mask_bit, BitVec.getLsbD_ushiftRight, BitVec.getLsbD_ushiftRight]
  split_ifs with h <;> simp [h, hi, hi']

theorem devMinor_bit (dev : U64) {i : ℕ} (hi : i < 32) :
    (devMinor dev).getLsbD i = dev.getLsbD (if i < 8 then i else 12 + i) := by
  have hmask : devMinor dev = ((dev &&& BitVec.ofNat 64 (2 ^ 8 - 1)) |||
      ((dev >>> 12) &&& ~~~(BitVec.ofNat 64 (2 ^ 8 - 1)))).setWidth 32 := rfl
  have hi' : i < 64 := by omega
  rw [hmask, BitVec.getLsbD_setWidth, BitVec.getLsbD_or, BitVec.getLsbD_and, BitVec.getLsbD_and,
    BitVec.getLsbD_not, mask_bit, BitVec.getLsbD_ushiftRight]
  split_ifs with h <;> simp [h, hi, hi']

/-- The lowest `n` bits of a number, moved to the left. -/
theorem lowPart_bit (x : BitVec 32) {n k i : ℕ} (hi : i < 64) :
    ((x &&& BitVec.ofNat 32 (2 ^ n - 1)).setWidth 64 <<< k).getLsbD i =
      (decide (k ≤ i ∧ i < k + n) && x.getLsbD (i - k)) := by
  rw [BitVec.getLsbD_shiftLeft, BitVec.getLsbD_setWidth, BitVec.getLsbD_and, mask_bit]
  by_cases hk : k ≤ i
  · have hn : i - k < n ↔ i < k + n := by omega
    by_cases h32 : i - k < 32
    · simp [hi, hk, h32, hn, show i - k < 64 by omega, Bool.and_comm]
    · simp [BitVec.getLsbD_of_ge x (i - k) (by omega)]
  · simp [hk, show i < k by omega]

/-- The bits of a number from the `n`-th on, moved to the left. -/
theorem highPart_bit (x : BitVec 32) {n k i : ℕ} (hi : i < 64) :
    ((x &&& ~~~(BitVec.ofNat 32 (2 ^ n - 1))).setWidth 64 <<< k).getLsbD i =
      (decide (k + n ≤ i) && x.getLsbD (i - k)) := by
  rw [BitVec.getLsbD_shiftLeft, BitVec.getLsbD_setWidth, BitVec.getLsbD_and, BitVec.getLsbD_not,
    mask_bit]
  by_cases hk : k ≤ i
  · have hn : decide (k + n ≤ i) = !decide (i - k < n) := by
      rw [← decide_not]
      exact decide_eq_decide.2 (by omega)
    by_cases h32 : i - k < 32
    · simp [hi, h32, hn, show ¬i < k by omega, show i - k < 64 by omega, Bool.and_comm]
    · simp [BitVec.getLsbD_of_ge x (i - k) (by omega)]
  · simp [show ¬k + n ≤ i by omega, show i < k by omega]

theorem makedev_bit (major minor : BitVec 32) {i : ℕ} (hi : i < 64) :
    (makedev major minor).getLsbD i =
      if i < 8 then minor.getLsbD i
      else if i < 20 then major.getLsbD (i - 8)
      else if i < 44 then minor.getLsbD (i - 12)
      else major.getLsbD (i - 32) := by
  have hparts : makedev major minor =
      ((major &&& BitVec.ofNat 32 (2 ^ 12 - 1)).setWidth 64 <<< 8) |||
        ((major &&& ~~~(BitVec.ofNat 32 (2 ^ 12 - 1))).setWidth 64 <<< 32) |||
        (minor &&& BitVec.ofNat 32 (2 ^ 8 - 1)).setWidth 64 <<< 0 |||
        ((minor &&& ~~~(BitVec.ofNat 32 (2 ^ 8 - 1))).setWidth 64 <<< 12) := by
    rw [BitVec.shiftLeft_zero]
    rfl
  rw [hparts, BitVec.getLsbD_or, BitVec.getLsbD_or, BitVec.getLsbD_or, lowPart_bit _ hi,
    highPart_bit _ hi, lowPart_bit _ hi, highPart_bit _ hi]
  split_ifs with h8 h20 h44
  · rw [decide_eq_false (by omega), decide_eq_false (by omega), decide_eq_true (by omega),
      decide_eq_false (by omega)]
    simp
  · rw [decide_eq_true (by omega), decide_eq_false (by omega), decide_eq_false (by omega),
      decide_eq_false (by omega)]
    simp
  · rw [decide_eq_false (by omega), decide_eq_false (by omega), decide_eq_false (by omega),
      decide_eq_true (by omega)]
    simp
  · rw [decide_eq_false (by omega), decide_eq_true (by omega), decide_eq_false (by omega),
      decide_eq_true (by omega)]
    simp [BitVec.getLsbD_of_ge minor (i - 12) (by omega)]

/-- **The two numbers of a device make its number again.** -/
theorem makedev_split (dev : U64) : makedev (devMajor dev) (devMinor dev) = dev := by
  refine BitVec.eq_of_getLsbD_eq fun i hi => ?_
  rw [makedev_bit _ _ hi]
  split_ifs with h8 h20 h44
  · rw [devMinor_bit dev (by omega), if_pos h8]
  · rw [devMajor_bit dev (by omega), if_pos (by omega)]
    congr 1
    omega
  · rw [devMinor_bit dev (by omega), if_neg (by omega)]
    congr 1
    omega
  · rw [devMajor_bit dev (by omega), if_neg (by omega)]
    congr 1
    omega

theorem devMajor_makedev (major minor : BitVec 32) : devMajor (makedev major minor) = major := by
  refine BitVec.eq_of_getLsbD_eq fun i hi => ?_
  rw [devMajor_bit _ hi]
  split_ifs with h
  · rw [makedev_bit _ _ (by omega), if_neg (by omega), if_pos (by omega), Nat.add_sub_cancel_left]
  · rw [makedev_bit _ _ (by omega), if_neg (by omega), if_neg (by omega), if_neg (by omega),
      Nat.add_sub_cancel_left]

theorem devMinor_makedev (major minor : BitVec 32) : devMinor (makedev major minor) = minor := by
  refine BitVec.eq_of_getLsbD_eq fun i hi => ?_
  rw [devMinor_bit _ hi]
  split_ifs with h
  · rw [makedev_bit _ _ (by omega), if_pos h]
  · rw [makedev_bit _ _ (by omega), if_neg (by omega), if_neg (by omega), if_pos (by omega),
      Nat.add_sub_cancel_left]

/-- The numbers of devices are the pairs of their major and minor numbers. -/
def devNumbers : U64 ≃ BitVec 32 × BitVec 32 where
  toFun dev := (devMajor dev, devMinor dev)
  invFun p := makedev p.1 p.2
  left_inv := makedev_split
  right_inv p := Prod.ext (devMajor_makedev p.1 p.2) (devMinor_makedev p.1 p.2)

/-! ### What the application gets -/

/-- **The image `build_statx` makes is the `struct statx` of the members of the `struct
stat`**, with the basic statistics as mask and every other byte zero; and the device numbers
in it are as good as those of the `struct stat`: splitting them is inverse to `makedev`, so
that two files on different devices are told apart. -/
theorem buildStatx_reports (stat : List Byte) :
    ((buildStatx stat).length = 256 ∧
      Statx.ofBytes (buildStatx stat) = (Stat.ofBytes stat).basicStats) ∧
    (Function.LeftInverse (fun p : BitVec 32 × BitVec 32 => makedev p.1 p.2)
        (fun dev => (devMajor dev, devMinor dev)) ∧
      Function.RightInverse (fun p : BitVec 32 × BitVec 32 => makedev p.1 p.2)
        (fun dev => (devMajor dev, devMinor dev)) ∧
      Function.Bijective fun dev => (devMajor dev, devMinor dev)) ∧
    ∀ stat' : List Byte,
      (Statx.ofBytes (buildStatx stat)).devMajor = (Statx.ofBytes (buildStatx stat')).devMajor ∧
        (Statx.ofBytes (buildStatx stat)).devMinor =
          (Statx.ofBytes (buildStatx stat')).devMinor ↔
      (Stat.ofBytes stat).dev = (Stat.ofBytes stat').dev := by
  have himage : ∀ stat : List Byte,
      Statx.ofBytes (buildStatx stat) = (Stat.ofBytes stat).basicStats := by
    intro stat
    rw [buildStatx_eq]
    exact Statx.ofBytes_toBytes List.length_replicate
  refine ⟨⟨buildStatx_length stat, himage stat⟩, ⟨devNumbers.left_inv, devNumbers.right_inv,
    devNumbers.bijective⟩, fun stat' => ?_⟩
  rw [himage, himage, ← devNumbers.injective.eq_iff]
  exact (Prod.ext_iff (x := devNumbers _) (y := devNumbers _)).symm

end Tracing
end Sharun
