/-
# The directories of `ld.so.cache`

`get_ld_cache_dirs` of `src/utils.rs` takes the directories of the cached libraries from the
cache file without reading its tables: whatever run of printable bytes begins with a slash
is taken for a path, and what is before its last slash for a directory.

A cache is its header and entries, the table of strings, each with a NUL behind it, and what
comes after (`LdCache`).  In the table the runs are the strings as long as these are printable
ASCII.  But a directory with another byte in its name is not found, a string is cut where it
has one, and the numbers before the table can look like a path, or be glued to the first
string.  `collects_iff` says when the directories are those of the strings, and
`mem_getLdCacheDirs` what is then returned.
-/

import Mathlib.Data.List.DropRight
import Mathlib.Data.List.Lex
import Mathlib.Data.List.Sort
import Sharun.Basis.Runs
import Sharun.Launch.AddToEnv

namespace Sharun
namespace Launch

open Sharun.Basis

abbrev slash : UInt8 := 0x2f

/-- `!(b < 0x20 || b > 0x7e)`. -/
def printable (b : UInt8) : Bool := 0x20 ≤ b && b ≤ 0x7e

/-- The directory a run is taken to be in: `&chunk[..pos]`, with the position of its last slash,
when it begins with a slash and that is not its last. -/
def chunkDir (chunk : List UInt8) : Option (List UInt8) :=
  if chunk.head? = some slash then
    let dir := (chunk.rdropWhile (· ≠ slash)).dropLast
    if dir = [] then none else some dir
  else none

/-- `if seen.insert(dir) { dirs.push(dir) }`. -/
def pushDir (dirs : List (List UInt8)) (dir : List UInt8) : List (List UInt8) :=
  if dir ∈ dirs then dirs else dirs ++ [dir]

/-- A turn of the outer loop goes on behind the run it has found. -/
theorem length_behind_run {data rest : List UInt8} {b : UInt8}
    (h : data.dropWhile (!printable ·) = b :: rest) :
    ((b :: rest).dropWhile printable).length < data.length := by
  have hb := List.head?_dropWhile_not (!printable ·) data
  rw [h] at hb
  have hb : printable b = true := by simpa using hb
  have hle := (List.dropWhile_suffix (l := data) (!printable ·)).length_le
  rw [h, List.length_cons] at hle
  rw [List.dropWhile_cons_of_pos hb]
  exact (List.dropWhile_suffix printable).length_le.trans_lt hle

/-- The outer loop of `get_ld_cache_dirs`, over the bytes that are left. -/
def scanDirs (dirs : List (List UInt8)) (data : List UInt8) : List (List UInt8) :=
  match _hrest : data.dropWhile (!printable ·) with
  | [] => dirs
  | b :: rest =>
    let chunk := (b :: rest).takeWhile printable
    let dirs := match chunkDir chunk with
      | some dir => pushDir dirs dir
      | none => dirs
    scanDirs dirs ((b :: rest).dropWhile printable)
termination_by data.length
decreasing_by exact length_behind_run _hrest

/-- `a <= b` of byte slices. -/
def bytesLE (a b : List UInt8) : Prop := a.map UInt8.toNat ≤ b.map UInt8.toNat

instance : DecidableRel bytesLE := fun a b => by unfold bytesLE; infer_instance

instance : Std.Total bytesLE := ⟨fun a b => le_total (a.map UInt8.toNat) (b.map UInt8.toNat)⟩

instance : IsTrans (List UInt8) bytesLE :=
  ⟨fun a b _ => le_trans (a := a.map UInt8.toNat) (b := b.map UInt8.toNat)⟩

/-- The directories `get_ld_cache_dirs` collects, sorted. -/
def ldCacheDirs (data : List UInt8) : List (List UInt8) :=
  (scanDirs [] data).insertionSort bytesLE

/-- `get_ld_cache_dirs(cache_file)`, from the content of the file. -/
def getLdCacheDirs (isDir : Text → Bool) (data : Option (List UInt8)) : Text :=
  match data with
  | none => []
  | some data => join ':' (((ldCacheDirs data).filterMap decode).filter isDir)

/-! ### Caches -/

/-- The content of a cache file. -/
structure LdCache where
  /-- The header and the entries. -/
  before : List UInt8
  strings : List (List UInt8)
  /-- What is behind the table of strings. -/
  after : List UInt8
  nonzero : ∀ s ∈ strings, 0 ∉ s

namespace LdCache

/-- The strings, each with a NUL behind it, between the rest. -/
def content (cache : LdCache) : List UInt8 :=
  cache.before ++ cache.strings.flatMap (· ++ [0]) ++ cache.after

end LdCache

/-- `dir` is the parent of the absolute path `path`, and not the root. -/
def IsParent (dir path : List UInt8) : Prop :=
  dir ≠ [] ∧ path.head? = some slash ∧ ∃ name, path = dir ++ slash :: name ∧ slash ∉ name

theorem chunkDir_eq_some {chunk dir : List UInt8} :
    chunkDir chunk = some dir ↔ IsParent dir chunk := by
  -- the part up to the last slash
  have hfront : ∀ dir name : List UInt8, slash ∉ name →
      (dir ++ slash :: name).rdropWhile (· ≠ slash) = dir ++ [slash] := by
    intro dir name hname
    have hall : ∀ b ∈ name.reverse, decide (b ≠ slash) = true := fun b hb =>
      decide_eq_true fun he => hname (he ▸ List.mem_reverse.1 hb)
    rw [List.rdropWhile, List.reverse_append, List.reverse_cons, List.append_assoc,
      List.dropWhile_append_of_pos hall, List.singleton_append,
      List.dropWhile_cons_of_neg (by simp), List.reverse_cons, List.reverse_reverse]
  unfold chunkDir IsParent
  constructor
  · intro h
    split_ifs at h with hhead
    dsimp only at h
    split_ifs at h with hdir
    obtain rfl := Option.some.inj h
    have hne : chunk.rdropWhile (· ≠ slash) ≠ [] := fun hnil => hdir (by rw [hnil]; rfl)
    have hlast := List.rdropWhile_last_not _ _ hne
    have hsplit := List.rdropWhile_append_rtakeWhile (p := (· ≠ slash)) (l := chunk)
    rw [← List.dropLast_append_getLast hne, List.append_assoc, List.singleton_append] at hsplit
    rw [show (chunk.rdropWhile (· ≠ slash)).getLast hne = slash by simpa using hlast] at hsplit
    refine ⟨hdir, hhead, _, hsplit.symm, fun hmem => ?_⟩
    exact absurd (List.mem_rtakeWhile_imp hmem) (by simp)
  · rintro ⟨hdir, hhead, name, rfl, hname⟩
    rw [if_pos hhead]
    dsimp only
    rw [hfront dir name hname, List.dropLast_concat, if_neg hdir]

/-- **The scan goes through the runs of printable bytes.** -/
theorem scanDirs_eq (dirs : List (List UInt8)) (data : List UInt8) :
    scanDirs dirs data = ((runs printable data).filterMap chunkDir).foldl pushDir dirs := by
  induction hn : data.length using Nat.strong_induction_on generalizing data dirs with
  | h n ih =>
    subst hn
    rw [scanDirs, ← runs_dropWhile_not]
    split
    · rename_i hrest
      rw [hrest]
      rfl
    · rename_i b rest hrest
      have hb := List.head?_dropWhile_not (!printable ·) data
      rw [hrest] at hb
      have hb : printable b = true := by simpa using hb
      rw [hrest, runs_cons hb, List.filterMap_cons]
      dsimp only
      rw [ih _ (length_behind_run hrest) _ _ rfl]
      cases chunkDir ((b :: rest).takeWhile printable) <;> rfl

theorem mem_foldl_pushDir {dirs new : List (List UInt8)} {dir : List UInt8} :
    dir ∈ new.foldl pushDir dirs ↔ dir ∈ dirs ∨ dir ∈ new := by
  induction new generalizing dirs with
  | nil => simp
  | cons d new ih =>
    rw [List.foldl_cons, ih, List.mem_cons, ← or_assoc]
    refine or_congr ?_ Iff.rfl
    unfold pushDir
    split_ifs with hd
    · exact ⟨.inl, fun h => h.elim id fun he => he ▸ hd⟩
    · rw [List.mem_append, List.mem_singleton]

/-- **What is collected** are the parents of the runs. -/
theorem mem_ldCacheDirs {data dir : List UInt8} :
    dir ∈ ldCacheDirs data ↔ ∃ r ∈ runs printable data, IsParent dir r := by
  rw [ldCacheDirs, List.mem_insertionSort, scanDirs_eq, mem_foldl_pushDir, List.mem_filterMap]
  simp only [List.not_mem_nil, false_or, chunkDir_eq_some]

/-! ### Strings and runs -/

namespace LdCache

/-- The directories that are collected are the parents of the absolute paths among the strings,
sorted and each once. -/
def Collects (cache : LdCache) : Prop :=
  (ldCacheDirs cache.content).Pairwise (fun a b => a.map UInt8.toNat < b.map UInt8.toNat) ∧
    ∀ dir, dir ∈ ldCacheDirs cache.content ↔ ∃ s ∈ cache.strings, IsParent dir s

/-- The byte before the table is printable, so that the first string continues a run. -/
def Glued (cache : LdCache) : Prop := ∃ b ∈ cache.before.getLast?, printable b = true

instance (cache : LdCache) : Decidable cache.Glued := by unfold Glued; infer_instance

/-- The strings that begin a run, if they begin with a printable byte. -/
def unglued (cache : LdCache) : List (List UInt8) :=
  if cache.Glued then cache.strings.tail else cache.strings

/-- The runs that are not the beginning of a string: before the table, with what is glued to
them, behind an unprintable byte of a string, and behind the table. -/
def strays (cache : LdCache) : List (List UInt8) :=
  match cache.strings with
  | [] => runs printable (cache.before ++ cache.after)
  | s :: _ =>
    runs printable (cache.before ++ if cache.Glued then s.takeWhile printable else []) ++
      cache.strings.flatMap (fun s => runs printable (s.dropWhile printable)) ++
        runs printable cache.after

/-- The runs of the strings of a table, and of what is behind it. -/
theorem mem_runs_table {strings : List (List UInt8)} {after r : List UInt8} :
    r ∈ runs printable (strings.flatMap (· ++ [0]) ++ after) ↔
      (∃ s ∈ strings, r ∈ runs printable s) ∨ r ∈ runs printable after := by
  induction strings with
  | nil => simp
  | cons s strings ih =>
    rw [List.flatMap_cons, List.append_assoc, List.append_assoc, List.singleton_append,
      runs_append_cons _ _ (by decide), List.mem_append, ih, ← or_assoc]
    simp

/-- The runs of a cache are the strays and the beginnings of its strings. -/
theorem mem_runs_content {cache : LdCache} {r : List UInt8} :
    r ∈ runs printable cache.content ↔ r ∈ cache.strays ∨
      ∃ s ∈ cache.unglued, r = s.takeWhile printable ∧ r ≠ [] := by
  unfold content strays unglued
  cases hstrings : cache.strings with
  | nil => simp
  | cons s strings =>
    -- the table ends the first string, and what is before it may be glued to that
    have hcontent : cache.before ++ (s :: strings).flatMap (· ++ [0]) ++ cache.after =
        (cache.before ++ s) ++ 0 :: (strings.flatMap (· ++ [0]) ++ cache.after) := by simp
    have hrest : (∃ s ∈ strings, r ∈ runs printable s) ↔
        (∃ s ∈ strings, r = s.takeWhile printable ∧ r ≠ []) ∨
          ∃ s ∈ strings, r ∈ runs printable (s.dropWhile printable) := by
      rw [← exists_or]
      refine exists_congr fun s => ?_
      rw [mem_runs_iff, ← and_or_left]
    rw [hcontent, runs_append_cons _ _ (by decide), List.mem_append, mem_runs_table, hrest,
      runs_eq printable cache.before s, List.mem_append]
    simp only [List.mem_append, List.mem_flatMap, List.exists_mem_cons_iff]
    by_cases hglued : cache.Glued
    · rw [if_pos hglued, if_pos hglued, List.tail_cons]
      exact Iff.of_eq (by ac_rfl)
    · have hlast : ∀ b ∈ cache.before.getLast?, printable b = false := fun b hb => by
        by_contra hp
        exact hglued ⟨b, hb, by simpa using hp⟩
      rw [if_neg hglued, if_neg hglued, List.append_nil, runs_append hlast, List.mem_append,
        mem_runs_takeWhile]
      simp only [List.exists_mem_cons_iff]
      exact Iff.of_eq (by ac_rfl)

end LdCache

/-- A path has one parent. -/
theorem IsParent.unique {dir dir' path : List UInt8} (h : IsParent dir path)
    (h' : IsParent dir' path) : dir = dir' := by
  rw [← chunkDir_eq_some] at h h'
  exact Option.some.inj (h.symm.trans h')

/-- An absolute path with another slash has a parent. -/
theorem exists_isParent {dir rest : List UInt8} (hdir : dir ≠ [])
    (hhead : dir.head? = some slash) : ∃ dir', IsParent dir' (dir ++ slash :: rest) := by
  induction hn : rest.length using Nat.strong_induction_on generalizing dir rest with
  | h n ih =>
    subst hn
    by_cases hmem : slash ∈ rest
    · obtain ⟨a, rest', rfl⟩ := List.append_of_mem hmem
      have hlt : rest'.length < (a ++ slash :: rest').length := by simp; omega
      have hhead' : (dir ++ slash :: a).head? = some slash := by
        rw [List.head?_append_of_ne_nil _ hdir, hhead]
      obtain ⟨dir', h⟩ := ih rest'.length hlt (by simp) hhead' rfl
      exact ⟨dir', by simpa using h⟩
    · exact ⟨dir, hdir, by rw [List.head?_append_of_ne_nil _ hdir, hhead], rest, rfl, hmem⟩

/-- A printable parent is found at the beginning of its path. -/
theorem IsParent.takeWhile {dir path : List UInt8} (h : IsParent dir path)
    (hdir : ∀ b ∈ dir, printable b = true) : IsParent dir (path.takeWhile printable) := by
  obtain ⟨hne, hhead, name, rfl, hname⟩ := h
  rw [List.takeWhile_append_of_pos hdir, List.takeWhile_cons_of_pos (by decide)]
  rw [List.head?_append_of_ne_nil _ hne] at hhead
  refine ⟨hne, by rw [List.head?_append_of_ne_nil _ hne, hhead], _, rfl, fun hmem => ?_⟩
  exact hname ((List.takeWhile_sublist printable).subset hmem)

/-- What is found at the beginning of a path whose parent is printable is that parent. -/
theorem IsParent.of_takeWhile {dir path : List UInt8} (h : IsParent dir (path.takeWhile printable))
    (hpath : ∀ dir, IsParent dir path → ∀ b ∈ dir, printable b = true) : IsParent dir path := by
  obtain ⟨hne, hhead, name, htake, -⟩ := id h
  obtain ⟨dir', h'⟩ : ∃ dir', IsParent dir' path := by
    rw [← List.takeWhile_append_dropWhile (p := printable) (l := path), htake, List.append_assoc,
      List.cons_append]
    rw [htake, List.head?_append_of_ne_nil _ hne] at hhead
    exact exists_isParent hne hhead
  rwa [h.unique (h'.takeWhile (hpath dir' h'))]

namespace LdCache

/-- The cache looks as `get_ld_cache_dirs` takes it to. -/
structure Clean (cache : LdCache) : Prop where
  /-- The names of the directories are printable. -/
  directories : ∀ s ∈ cache.strings, ∀ dir, IsParent dir s → ∀ b ∈ dir, printable b = true
  /-- What else looks like a path is in one of the directories. -/
  strays : ∀ r ∈ cache.strays, ∀ dir, IsParent dir r → ∃ s ∈ cache.strings, IsParent dir s
  /-- The directory of a first string that is glued to what is before it is found elsewhere. -/
  first : ∀ s ∈ cache.strings.head?, cache.Glued → ∀ dir, IsParent dir s →
    (∃ s' ∈ cache.strings.tail, IsParent dir s') ∨ ∃ r ∈ cache.strays, IsParent dir r

theorem mem_of_mem_unglued {cache : LdCache} {s : List UInt8} (h : s ∈ cache.unglued) :
    s ∈ cache.strings := by
  unfold unglued at h
  split_ifs at h
  · exact List.mem_of_mem_tail h
  · exact h

/-- Only the first string can be glued to what is before it. -/
theorem mem_head?_of_notMem_unglued {cache : LdCache} {s : List UInt8} (hs : s ∈ cache.strings)
    (h : s ∉ cache.unglued) : cache.Glued ∧ s ∈ cache.strings.head? := by
  unfold unglued at h
  split_ifs at h with hglued
  · refine ⟨hglued, ?_⟩
    cases hstrings : cache.strings with
    | nil =>
      rw [hstrings] at hs
      exact absurd hs List.not_mem_nil
    | cons a rest =>
      rw [hstrings] at hs h
      rcases List.mem_cons.1 hs with rfl | hs
      · rfl
      · exact absurd hs h
  · exact absurd hs h

/-- The directory of a string that begins a run is collected, where its name is printable. -/
theorem mem_ldCacheDirs_of_unglued {cache : LdCache} {s dir : List UInt8} (hs : s ∈ cache.unglued)
    (hparent : IsParent dir s) (hdir : ∀ b ∈ dir, printable b = true) :
    dir ∈ ldCacheDirs cache.content := by
  have htake := hparent.takeWhile hdir
  refine mem_ldCacheDirs.2 ⟨_, mem_runs_content.2 (.inr ⟨s, hs, rfl, fun hnil => ?_⟩), htake⟩
  obtain ⟨-, hhead, -⟩ := htake
  rw [hnil] at hhead
  exact absurd hhead (by simp)

/-- Where the directories are collected, the cache looks as it is to. -/
theorem Collects.clean {cache : LdCache} (h : cache.Collects) : cache.Clean := by
  obtain ⟨-, hmem⟩ := h
  simp only [mem_ldCacheDirs] at hmem
  have hdirs : ∀ s ∈ cache.strings, ∀ dir, IsParent dir s → ∀ b ∈ dir, printable b = true := by
    intro s hs dir hparent b hb
    obtain ⟨r, hr, -, -, name, rfl, -⟩ := (hmem dir).2 ⟨s, hs, hparent⟩
    exact forall_of_mem_runs hr b (List.mem_append_left _ hb)
  refine ⟨hdirs, fun r hr dir hparent => (hmem dir).1 ⟨r, mem_runs_content.2 (.inl hr), hparent⟩,
    fun s hs hglued dir hparent => ?_⟩
  obtain ⟨r, hr, hparent'⟩ := (hmem dir).2 ⟨s, List.mem_of_mem_head? hs, hparent⟩
  rcases mem_runs_content.1 hr with hstray | ⟨s', hs', rfl, -⟩
  · exact .inr ⟨r, hstray, hparent'⟩
  · have hin := mem_of_mem_unglued hs'
    rw [unglued, if_pos hglued] at hs'
    exact .inl ⟨s', hs', hparent'.of_takeWhile (hdirs s' hin)⟩

/-- Of a cache that does the directories are collected. -/
theorem Clean.mem_iff {cache : LdCache} (h : cache.Clean) (dir : List UInt8) :
    dir ∈ ldCacheDirs cache.content ↔ ∃ s ∈ cache.strings, IsParent dir s := by
  constructor
  · intro hin
    obtain ⟨r, hr, hparent⟩ := mem_ldCacheDirs.1 hin
    rcases mem_runs_content.1 hr with hstray | ⟨s, hs, rfl, -⟩
    · exact h.strays r hstray dir hparent
    · have hin := mem_of_mem_unglued hs
      exact ⟨s, hin, hparent.of_takeWhile (h.directories s hin)⟩
  · rintro ⟨s, hs, hparent⟩
    have hdir := h.directories s hs dir hparent
    by_cases hin : s ∈ cache.unglued
    · exact mem_ldCacheDirs_of_unglued hin hparent hdir
    · obtain ⟨hglued, hhead⟩ := mem_head?_of_notMem_unglued hs hin
      rcases h.first s hhead hglued dir hparent with ⟨s', hs', hparent'⟩ | ⟨r, hr, hparent'⟩
      · have hin' : s' ∈ cache.unglued := by
          rw [unglued, if_pos hglued]
          exact hs'
        exact mem_ldCacheDirs_of_unglued hin' hparent' hdir
      · exact mem_ldCacheDirs.2 ⟨r, mem_runs_content.2 (.inl hr), hparent'⟩

/-- **The search path that is returned.**  Of a cache that looks as it is to, its elements are the
directories that are there, as long as no name has a colon in it. -/
theorem mem_getLdCacheDirs {cache : LdCache} (h : cache.Clean) (isDir : Text → Bool)
    (hcolon : ∀ s ∈ cache.strings, ∀ dir, IsParent dir s → 58 ∉ dir) {t : Text} :
    t ∈ elements ':' (getLdCacheDirs isDir (some cache.content)) ↔
      isDir t = true ∧ ∃ s ∈ cache.strings, IsParent (utf8 t) s := by
  have hmem : ∀ t : Text, t ∈ (ldCacheDirs cache.content).filterMap decode ↔
      ∃ s ∈ cache.strings, IsParent (utf8 t) s := by
    intro t
    rw [List.mem_filterMap, ← h.mem_iff]
    simp only [decode_eq_some, exists_eq_right]
  have helements : ∀ t ∈ ((ldCacheDirs cache.content).filterMap decode).filter isDir,
      t ≠ [] ∧ ':' ∉ t := by
    intro t ht
    obtain ⟨s, hs, hparent⟩ := (hmem t).1 (List.mem_of_mem_filter ht)
    refine ⟨fun hnil => hparent.1 (utf8_eq_nil.2 hnil), fun hin => ?_⟩
    exact hcolon s hs _ hparent ((mem_utf8_iff (by decide) RawVars.utf8_colon).2 hin)
  unfold getLdCacheDirs join
  dsimp only
  rw [elements_intercalate helements, List.mem_filter, hmem, and_comm]

end LdCache

end Launch
end Sharun
