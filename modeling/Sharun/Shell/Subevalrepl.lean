/-
# The scan of `subevalrepl`: `tools/dash-pattern-replace.patch`

The patch gives dash the four pattern substitutions of bash, `${var/pat/str}`,
`${var//pat/str}`, `${var/#pat/str}` and `${var/%pat/str}`.  The stack of dash is one block
of bytes, in which the value of the variable comes first, followed by a NUL, and the
pattern after it, as a string too; what is built is appended, and moved over the value in
the end.  Strings in the block are read up to their NUL (`cstring`), so the scan tests a
part of the value by writing a NUL where it ends, and puts back what was there.

The block is a list of bytes up to `expdest`, and the `int` variables that hold offsets
into it are natural numbers; `bestend` is an `Option` in place of -1.  What dash itself
provides is a parameter (`Dash`).  The expansion of the pattern and of the replacement,
which comes before the scan, and the allocation of memory are left out.
-/

import Sharun.Machine.Tracee

namespace Sharun
namespace Shell

open Machine (Byte)

abbrev Bytes := List Byte

/-- `VSREPLACE`, `VSREPLACEALL`, `VSREPLACEBEG` and `VSREPLACEEND`, for `/`, `//`, `/#` and
`/%`. -/
inductive VsType
  | replace
  | replaceAll
  | replaceBeg
  | replaceEnd
  deriving DecidableEq, Repr

/-- What the scan calls. -/
structure Dash where
  /-- `pmatch(pattern, string)`. -/
  pmatch : Bytes → Bytes → Bool
  /-- `mbnext(p)` for what is found at `p`: the bytes to pass over before the next character,
  and the bytes it has (`mb & 0xff` and `mb >> 8`). -/
  mbnext : Bytes → ℕ × ℕ
  /-- What `memtodest(p, len, flag)` puts on the stack for a text. -/
  memtodest : Bytes → Bytes

/-- The string at an offset. -/
def cstring (stack : Bytes) (loc : ℕ) : Bytes := (stack.drop loc).takeWhile (· ≠ 0)

/-- `replcopy(from, n)`, which does nothing where `n` is not positive. -/
def replcopy (stack : Bytes) (start n : ℕ) : Bytes := stack ++ (stack.drop start).take n

/-- The characters of `"*?["`. -/
def wildcards : Bytes := [0x2a, 0x3f, 0x5b]

/-- The backslash. -/
abbrev escape : Byte := 0x5c

/-- The variables of `subevalrepl` that keep their values during the scan. -/
structure Plan where
  subtype : VsType
  startloc : ℕ
  endoff : ℕ
  strloc : ℕ
  c0 : Byte
  literal : Bool
  prefilter : Bool
  repl : Bytes

/-- `anchored`. -/
def Plan.anchored (plan : Plan) : Bool :=
  plan.subtype = .replaceBeg || plan.subtype = .replaceEnd

/-- What is decided before the scan. -/
def Plan.new (stack : Bytes) (subtype : VsType) (startloc patloc strloc : ℕ) (repl : Bytes) :
    Plan :=
  let str := cstring stack strloc
  let c0 := str.headD 0
  { subtype, startloc, endoff := patloc - 1, strloc, c0
    literal := str.all fun c => c ∉ wildcards
    prefilter := 0 < c0.toInt ∧ c0 ∉ wildcards ++ [escape]
    repl }

namespace Dash

/-- The match of `[off, eoff)`: its end is marked with a NUL, and put back. -/
def matchTo (d : Dash) (plan : Plan) (stack : Bytes) (off eoff : ℕ) : Bytes × Bool :=
  let c := stack.getD eoff 0
  let stack := stack.set eoff 0
  let ok := d.pmatch (cstring stack plan.strloc) (cstring stack off)
  (stack.set eoff c, ok)

/-- The next character after an offset, or the end of the value. -/
def advance (d : Dash) (plan : Plan) (stack : Bytes) (loc : ℕ) : ℕ :=
  let mb := d.mbnext (stack.drop loc)
  min plan.endoff (loc + (mb.1 + mb.2))

/-- The inner loop: `bestend` for the matches from `off` to `eoff` and beyond; `none` when it
runs out of fuel. -/
def findEnd (d : Dash) (plan : Plan) (off : ℕ) :
    ℕ → Bytes → ℕ → Option ℕ → Option (Bytes × Option ℕ)
  | 0, _, _, _ => none
  | fuel + 1, stack, eoff, bestend =>
    let (stack, ok) := d.matchTo plan stack off eoff
    if ok ∧ (off < eoff ∨ plan.anchored ∨ plan.endoff = plan.startloc) then
      if plan.literal then some (stack, some eoff)
      else if plan.endoff ≤ eoff then some (stack, some eoff)
      else d.findEnd plan off fuel stack (d.advance plan stack eoff) (some eoff)
    else if plan.endoff ≤ eoff then some (stack, bestend)
    else d.findEnd plan off fuel stack (d.advance plan stack eoff) bestend

/-- The body of the outer loop up to `bestend`. -/
def tryAt (d : Dash) (plan : Plan) (stack : Bytes) (off : ℕ) : Option (Bytes × Option ℕ) :=
  if plan.subtype = .replaceEnd then
    let ok := d.pmatch (cstring stack plan.strloc) (cstring stack off)
    some (stack, if ok then some plan.endoff else none)
  else if plan.prefilter ∧ stack.getD (off + (d.mbnext (stack.drop off)).1) 0 ≠ plan.c0 then
    some (stack, none)
  else d.findEnd plan off (plan.endoff - off + 1) stack off none

/-- The outer loop: the stack and `cursor` at its end; `none` when it runs out of fuel. -/
def scan (d : Dash) (plan : Plan) : ℕ → Bytes → ℕ → ℕ → Option (Bytes × ℕ)
  | 0, _, _, _ => none
  | fuel + 1, stack, cursor, off =>
    match d.tryAt plan stack off with
    | none => none
    | some (stack, some bestend) =>
      let stack := replcopy stack cursor (off - cursor)
      let stack := if plan.repl ≠ [] then stack ++ d.memtodest plan.repl else stack
      if plan.subtype ≠ .replaceAll then some (stack, bestend)
      else if plan.endoff ≤ bestend then some (stack, bestend)
      else d.scan plan fuel stack bestend bestend
    | some (stack, none) =>
      if plan.subtype = .replaceBeg ∨ plan.endoff ≤ off then some (stack, cursor)
      else d.scan plan fuel stack cursor (d.advance plan stack off)

/-- `subevalrepl` from `c0 = *str` on: what it leaves on the stack. -/
def subevalrepl (d : Dash) (subtype : VsType) (stack : Bytes) (startloc patloc strloc : ℕ)
    (repl : Bytes) : Option Bytes :=
  let plan := Plan.new stack subtype startloc patloc strloc repl
  let resoff := stack.length
  let scanned :=
    if cstring stack strloc = [] ∧ plan.anchored = false then some (stack, startloc)
    else d.scan plan (plan.endoff - startloc + 1) stack startloc startloc
  scanned.map fun (stack, cursor) =>
    let stack := replcopy stack cursor (plan.endoff - cursor)
    -- `memmove` to the value, after which the stack ends.
    stack.take startloc ++ stack.drop resoff

end Dash

end Shell
end Sharun
