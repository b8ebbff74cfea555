/-
# The file a `statx` asks about

`setup_statx` replaces a `statx` by `newfstatat`, or by `fstat` where `AT_EMPTY_PATH` is
set, and what the kernel answers is then converted.  Which file an answer is about is
decided by the call, the path in the memory of the tracee and the files of the process
(`Files.Asks`).  `newfstatat` asks about the file `statx` does.  `fstat` asks about the
object of the descriptor, and `statx` does so too only where its path is empty as well
and the descriptor is not `AT_FDCWD` (`same_file_iff`).
-/

import Sharun.Basis.FileTree
import Sharun.Machine.Pokes
import Sharun.Tracer.LowHalves

namespace Sharun
namespace Tracing

open Machine Emulation Sharun.Basis

abbrev AT_FDCWD : ℤ := -100

abbrev slash : Byte := 0x2f

abbrev dot : Byte := 0x2e

/-- How many symbolic links the kernel follows. -/
abbrev MAXSYMLINKS : ℕ := 40

/-! ### Files -/

/-- The steps of a path.  A slash at its end asks for a directory, as a dot would. -/
def componentsOf (path : List Byte) : List (Component (List Byte)) :=
  let step (piece : List Byte) : Component (List Byte) :=
    if piece = [dot] then .here else if piece = [dot, dot] then .up else .name piece
  ((path.splitOn slash).filter (· ≠ [])).map step ++
    if path.getLast? = some slash then [.here] else []

/-- The files a process can ask about: a file tree, the current directory and the objects
its descriptors refer to. -/
structure Files (ν : Type) extends FileTree ν (List Byte) where
  cwd : ν
  table : ℕ → Option ν

namespace Files

variable {ν : Type}

/-- The object a descriptor refers to. -/
def opened (fs : Files ν) (fd : ℤ) : Except LookupError ν :=
  if fd < 0 then .error .badDescriptor
  else (fs.table fd.toNat).elim (.error .badDescriptor) .ok

/-- The same, where `AT_FDCWD` stands for the current directory. -/
def openedAt (fs : Files ν) (dirfd : ℤ) : Except LookupError ν :=
  if dirfd = AT_FDCWD then .ok fs.cwd else fs.opened dirfd

/-- The file a path names relative to a descriptor. -/
def named (fs : Files ν) (dirfd : ℤ) (path : List Byte) (follow : Bool) : Except LookupError ν :=
  if path = [] then .error .notFound
  else if path.head? = some slash then fs.walk follow MAXSYMLINKS fs.root (componentsOf path)
  else match fs.openedAt dirfd with
    | .error e => .error e
    | .ok dir =>
      if fs.isDirectory dir then fs.walk follow MAXSYMLINKS dir (componentsOf path)
      else .error .notDirectory

/-- The file the flags of `statx` and `newfstatat` select. -/
def selected (fs : Files ν) (dirfd : ℤ) (path : List Byte) (flags : U64) :
    Except LookupError ν :=
  if flags &&& AT_EMPTY_PATH ≠ 0 ∧ path = [] then fs.openedAt dirfd
  else fs.named dirfd path (flags &&& AT_SYMLINK_NOFOLLOW = 0)

end Files

/-- There is a string at an address, with a zero byte at its end. -/
def StringAt (m : Memory) (addr : U64) (path : List Byte) : Prop :=
  m.bytesAt addr (path ++ [0]).length = some (path ++ [0]) ∧ 0 ∉ path

/-- An argument that is an `int`. -/
def intArg (x : U64) : ℤ := (x.setWidth 32).toInt

/-- The file one of the calls `statx`, `newfstatat` and `fstat` asks about. -/
def Files.Asks {ν : Type} (fs : Files ν) (m : Memory) (c : Call)
    (file : Except LookupError ν) : Prop :=
  if c.nr = Nr.fstat then file = fs.opened (intArg c.a0)
  else if c.nr = Nr.newfstatat then
    ∃ path, StringAt m c.a1 path ∧ file = fs.selected (intArg c.a0) path c.a3
  else ∃ path, StringAt m c.a1 path ∧ file = fs.selected (intArg c.a0) path c.a2

/-- **Two calls ask about the same file**, whatever the files of the process are. -/
def SameFile (t t' : Tracee) : Prop :=
  ∀ (ν : Type) (fs : Files ν), ∃ file,
    fs.Asks t.mem (callOf t.regs) file ∧ fs.Asks t'.mem (callOf t'.regs) file

section

variable {m : Memory} {addr : U64} {path path' : List Byte} {t : Tracee}

/-- There is no more than one string at an address. -/
theorem StringAt.unique (h : StringAt m addr path) (h' : StringAt m addr path') :
    path = path' := by
  have hbyte : ∀ {p : List Byte}, StringAt m addr p → ∀ i (hi : i < (p ++ [0]).length),
      m (addr + BitVec.ofNat 64 i) = some (p ++ [0])[i] := fun hp i hi =>
    Memory.bytesAt_getElem hp.1 hi
  have hle : ∀ {p q : List Byte}, StringAt m addr p → StringAt m addr q → q.length ≤ p.length := by
    intro p q hp hq
    by_contra hlt
    rw [not_le] at hlt
    have hend := hbyte hp p.length (by simp)
    have hmid := hbyte hq p.length (by simp; omega)
    rw [List.getElem_append_left hlt, hend, Option.some.injEq,
      List.getElem_append_right le_rfl] at hmid
    refine hq.2 ?_
    simp only [Nat.sub_self, List.getElem_cons_zero] at hmid
    rw [hmid]
    exact List.getElem_mem hlt
  have hlen : path.length = path'.length := le_antisymm (hle h' h) (hle h h')
  have hbytes := h.1
  rw [List.length_append, hlen, ← List.length_append, h'.1] at hbytes
  exact (List.append_cancel_right (Option.some.inj hbytes)).symm

/-- `newfstatat` asks about the file `statx` does. -/
theorem asks_newfstatat {ν : Type} {fs : Files ν} {file : Except LookupError ν}
    (hflag : t.regs.rdx &&& AT_EMPTY_PATH = 0) :
    fs.Asks t.mem (callOf (Tracer.statxFallback t.regs)) file ↔
      ∃ path, StringAt t.mem t.regs.rsi path ∧
        file = fs.selected (intArg t.regs.rdi) path t.regs.rdx := by
  have hselected : ∀ path,
      fs.selected (intArg t.regs.rdi) path (t.regs.rdx &&& AT_SYMLINK_NOFOLLOW) =
        fs.selected (intArg t.regs.rdi) path t.regs.rdx := by
    intro path
    have hempty : t.regs.rdx &&& AT_SYMLINK_NOFOLLOW &&& AT_EMPTY_PATH = 0 := by
      rw [BitVec.and_assoc, show AT_SYMLINK_NOFOLLOW &&& AT_EMPTY_PATH = 0#64 by decide]
      exact BitVec.and_zero
    have hfollow : t.regs.rdx &&& AT_SYMLINK_NOFOLLOW &&& AT_SYMLINK_NOFOLLOW =
        t.regs.rdx &&& AT_SYMLINK_NOFOLLOW := by
      rw [BitVec.and_assoc, BitVec.and_self]
    rw [Files.selected, Files.selected, hempty, hflag, hfollow]
  have hcall : callOf (Tracer.statxFallback t.regs) =
      ⟨Nr.newfstatat, t.regs.rdi, t.regs.rsi, scratchFor t.regs,
        t.regs.rdx &&& AT_SYMLINK_NOFOLLOW, t.regs.r8, t.regs.r9⟩ := by
    rw [Tracer.statxFallback, if_neg (not_not.2 hflag)]
    rfl
  rw [hcall, Files.Asks, if_neg (show Nr.newfstatat ≠ Nr.fstat by decide), if_pos rfl]
  simp only [hselected]

/-- `fstat` asks about the object of the descriptor. -/
theorem asks_fstat {ν : Type} {fs : Files ν} {file : Except LookupError ν}
    (hflag : t.regs.rdx &&& AT_EMPTY_PATH ≠ 0) :
    fs.Asks t.mem (callOf (Tracer.statxFallback t.regs)) file ↔
      file = fs.opened (intArg t.regs.rdi) := by
  have hcall : callOf (Tracer.statxFallback t.regs) =
      ⟨Nr.fstat, t.regs.rdi, scratchFor t.regs, 0, t.regs.r10, t.regs.r8, t.regs.r9⟩ := by
    rw [Tracer.statxFallback, if_pos hflag]
    rfl
  rw [hcall, Files.Asks, if_pos rfl]

/-- The original asks about the file its path and its flags select. -/
theorem asks_statx {ν : Type} {fs : Files ν} {file : Except LookupError ν}
    (hnr : t.regs.origRax = Nr.statx) (hpath : StringAt t.mem t.regs.rsi path) :
    fs.Asks t.mem (callOf t.regs) file ↔
      file = fs.selected (intArg t.regs.rdi) path t.regs.rdx := by
  have hother : ∀ n : U64, n ≠ Nr.statx → (callOf t.regs).nr ≠ n := fun n hn h => hn (h ▸ hnr)
  rw [Files.Asks, if_neg (hother _ (by decide)), if_neg (hother _ (by decide))]
  constructor
  · rintro ⟨path', hpath', rfl⟩
    rw [hpath.unique hpath']
    rfl
  · rintro rfl
    exact ⟨path, hpath, rfl⟩

end

/-! ### Files that tell the calls apart -/

/-- Every path leads to a directory, and every descriptor refers to a pipe. -/
def allDirectories : Files (Option (List (List Byte))) where
  root := some []
  kind
    | none => .other
    | some d => .directory (some d.dropLast) fun n => some (some (d ++ [n]))
  cwd := some []
  table _ := some none

theorem full_allDirectories : allDirectories.Full {x | x ≠ none} := by
  intro x hx
  obtain ⟨d, rfl⟩ := Option.ne_none_iff_exists'.1 hx
  exact ⟨some d.dropLast, fun n => some (some (d ++ [n])), rfl, by simp, fun n => ⟨_, by simp, rfl⟩⟩

/-- A path that starts from a directory leads to another one. -/
theorem named_allDirectories {dirfd : ℤ} {path : List Byte} (hpath : path ≠ [])
    (hstart : path.head? = some slash ∨ dirfd = AT_FDCWD) (follow : Bool) :
    ∃ d, allDirectories.named dirfd path follow = .ok (some d) := by
  obtain ⟨y, hy, hwalk⟩ := FileTree.walk_full full_allDirectories follow MAXSYMLINKS
    (x := some []) (by simp) (componentsOf path)
  obtain ⟨d, rfl⟩ := Option.ne_none_iff_exists'.1 hy
  refine ⟨d, ?_⟩
  rw [Files.named, if_neg hpath]
  split_ifs with habsolute
  · exact hwalk
  · rw [Files.openedAt, if_pos (hstart.resolve_left habsolute)]
    exact hwalk

/-- A path that starts from a pipe leads nowhere. -/
theorem named_pipe {dirfd : ℤ} {path : List Byte} (hpath : path ≠ []) (hfd : 0 ≤ dirfd)
    (hrelative : path.head? ≠ some slash) (follow : Bool) :
    allDirectories.named dirfd path follow = .error .notDirectory := by
  have hcwd : dirfd ≠ AT_FDCWD := by
    rintro rfl
    exact absurd hfd (by decide)
  rw [Files.named, if_neg hpath, if_neg hrelative, Files.openedAt, if_neg hcwd, Files.opened,
    if_neg (not_lt.2 hfd)]
  rfl

/-- With `AT_EMPTY_PATH` set, the files of a process tell a path from the descriptor it is
relative to, but where there is no path, or no file for it to be relative to. -/
theorem selected_eq_opened_iff {dirfd : ℤ} {path : List Byte} {flags : U64}
    (hflag : flags &&& AT_EMPTY_PATH ≠ 0) :
    (∀ (ν : Type) (fs : Files ν), fs.selected dirfd path flags = fs.opened dirfd) ↔
      dirfd ≠ AT_FDCWD ∧ (path = [] ∨ dirfd < 0 ∧ path.head? ≠ some slash) := by
  have hselected : ∀ {ν : Type} (fs : Files ν), fs.selected dirfd path flags =
      if path = [] then fs.openedAt dirfd
      else fs.named dirfd path (flags &&& AT_SYMLINK_NOFOLLOW = 0) := by
    intro ν fs
    rw [Files.selected]
    exact if_congr (and_iff_right hflag) rfl rfl
  simp only [hselected]
  constructor
  · intro h
    have h := h _ allDirectories
    by_cases hcwd : dirfd = AT_FDCWD
    · -- The current directory is a file, and `AT_FDCWD` no descriptor.
      exfalso
      have hopened : allDirectories.opened dirfd = .error .badDescriptor := by
        rw [hcwd]
        rfl
      rw [hopened] at h
      split_ifs at h with hempty
      · rw [Files.openedAt, if_pos hcwd] at h
        cases h
      · obtain ⟨d, hd⟩ := named_allDirectories hempty (Or.inr hcwd)
          (flags &&& AT_SYMLINK_NOFOLLOW = 0)
        rw [hd] at h
        cases h
    · refine ⟨hcwd, or_iff_not_imp_left.2 fun hempty => ?_⟩
      rw [if_neg hempty] at h
      have hrelative : path.head? ≠ some slash := by
        intro habsolute
        obtain ⟨d, hd⟩ := named_allDirectories hempty (Or.inl habsolute)
          (flags &&& AT_SYMLINK_NOFOLLOW = 0)
        rw [hd, Files.opened] at h
        split_ifs at h
        cases h
      refine ⟨?_, hrelative⟩
      by_contra hfd
      rw [not_lt] at hfd
      rw [named_pipe hempty hfd hrelative, Files.opened, if_neg (not_lt.2 hfd)] at h
      cases h
  · rintro ⟨hcwd, hpath⟩ ν fs
    rcases hpath with hempty | ⟨hfd, hrelative⟩
    · rw [if_pos hempty, Files.openedAt, if_neg hcwd]
    · split_ifs with hempty
      · rw [Files.openedAt, if_neg hcwd]
      · rw [Files.named, if_neg hempty, if_neg hrelative, Files.openedAt, if_neg hcwd,
          Files.opened, if_pos hfd]

/-- **When the answer is about the file that was asked for**: without `AT_EMPTY_PATH`; and
with it, if the descriptor is not `AT_FDCWD` and the path is empty, or relative to no file at
all. -/
theorem Tracer.same_file_iff (s : Tracer) (pid : Pid) {t : Tracee} {path : List Byte}
    (hnr : t.regs.origRax = Nr.statx) (hbuf : t.regs.r8 ≠ 0) (hset : t.canSet = true)
    (hpath : StringAt t.mem t.regs.rsi path) :
    SameFile t (s.setupStatx pid t t.regs).2 ↔
      t.regs.rdx &&& AT_EMPTY_PATH = 0 ∨ intArg t.regs.rdi ≠ AT_FDCWD ∧
        (path = [] ∨ intArg t.regs.rdi < 0 ∧ path.head? ≠ some slash) := by
  rw [setupStatx_tracee, if_neg hbuf, Tracee.putregs_of_canSet hset]
  by_cases hflag : t.regs.rdx &&& AT_EMPTY_PATH = 0
  · refine iff_of_true (fun ν fs => ⟨_, (asks_statx hnr hpath).2 rfl, ?_⟩) (Or.inl hflag)
    exact (asks_newfstatat hflag).2 ⟨path, hpath, rfl⟩
  · rw [or_iff_right hflag, ← selected_eq_opened_iff hflag]
    refine forall₂_congr fun ν fs => ?_
    show (∃ file, fs.Asks t.mem (callOf t.regs) file ∧
      fs.Asks t.mem (callOf (Tracer.statxFallback t.regs)) file) ↔ _
    simp only [asks_statx hnr hpath, asks_fstat hflag, exists_eq_left]

/-- A `statx` with a path at `0x9000`. -/
def statxCall (dirfd flags : U64) (path : List Byte) : Tracee :=
  let t := Tracee.entryOf Nr.statx dirfd 0x9000 flags 0x7ff
  { t with
    regs := { t.regs with r8 := 0xa000 }
    mem a := if (a - 0x9000).toNat < path.length then path[(a - 0x9000).toNat]? else some 0 }

/-- The tracee after the entry stop. -/
def statxReplaced (t : Tracee) : Tracee :=
  ((Tracer.new 1 true false).setupStatx 1 t t.regs).2

/-- A `statx` of a name in the current directory. -/
theorem Tracer.same_file_cwd :
    SameFile (statxCall (asU64 AT_FDCWD) 0 [0x61])
      (statxReplaced (statxCall (asU64 AT_FDCWD) 0 [0x61])) := by
  have hpath : StringAt (statxCall (asU64 AT_FDCWD) 0 [0x61]).mem 0x9000 [0x61] :=
    ⟨by decide +kernel, by decide⟩
  exact (Tracer.same_file_iff (Tracer.new 1 true false) 1 rfl (by decide) rfl hpath).2
    (Or.inl (by decide))

/-- A directory with a file `a` in it, open as descriptor 3. -/
def oneFile : Files Bool where
  root := false
  kind
    | false => .directory false fun name => if name = [0x61] then some true else none
    | true => .other
  cwd := false
  table fd := if fd = 3 then some false else none

/-- **An answer about another file**: with `AT_EMPTY_PATH` set, a `statx` of the file `a` in a
directory is answered with the directory; and one of the current directory is not
answered. -/
theorem statx_other_file :
    let t := statxCall 3 AT_EMPTY_PATH [0x61]
    let cwd := statxCall (asU64 AT_FDCWD) AT_EMPTY_PATH []
    oneFile.Asks t.mem (callOf t.regs) (.ok true) ∧
      oneFile.Asks (statxReplaced t).mem (callOf (statxReplaced t).regs) (.ok false) ∧
      ¬ SameFile t (statxReplaced t) ∧ ¬ SameFile cwd (statxReplaced cwd) := by
  intro t cwd
  have hpath : StringAt t.mem t.regs.rsi [0x61] := ⟨by decide +kernel, by decide⟩
  have hempty : StringAt cwd.mem cwd.regs.rsi [] := ⟨by decide +kernel, by decide⟩
  have hflag : t.regs.rdx &&& AT_EMPTY_PATH ≠ 0 := by decide
  have hflag' : cwd.regs.rdx &&& AT_EMPTY_PATH ≠ 0 := by decide
  have hselected : oneFile.selected (intArg 3) [0x61] AT_EMPTY_PATH = .ok true := by
    have hcomponents : componentsOf [0x61] = [.name [0x61]] := rfl
    rw [Files.selected, if_neg (by decide), Files.named, if_neg (by decide), if_neg (by decide),
      hcomponents]
    rfl
  have hasks : ∀ {file}, oneFile.Asks t.mem (callOf t.regs) file ↔ file = .ok true :=
    hselected ▸ asks_statx rfl hpath
  have hasks' : ∀ {file}, oneFile.Asks (statxReplaced t).mem (callOf (statxReplaced t).regs) file ↔
      file = .ok false := asks_fstat hflag
  refine ⟨hasks.2 rfl, hasks'.2 rfl, fun h => ?_, fun h => ?_⟩
  · obtain ⟨file, hbefore, hafter⟩ := h Bool oneFile
    rw [hasks] at hbefore
    rw [hasks', hbefore] at hafter
    cases hafter
  · obtain ⟨file, hbefore, hafter⟩ := h Bool oneFile
    have hfd : intArg cwd.regs.rdi = AT_FDCWD := by decide
    have hcwd := (asks_statx rfl hempty).1 hbefore
    have hbad := (asks_fstat hflag').1 hafter
    rw [hfd, Files.selected, if_pos (by decide)] at hcwd
    rw [hfd, hcwd] at hbad
    cases hbad

end Tracing
end Sharun
