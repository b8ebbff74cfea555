/-
# Pattern substitution as bash defines it

`reference` says what the four substitutions make of a value, by the longest matches of a
pattern (`Sharun.Basis.Substitute`).  The scan of `subevalrepl` finds just these
(`findEnd_best`): it passes over a part of the value only where the first character of the
pattern rules a match out, and stops at the first end of a match only where the pattern
matches strings of one length.  Each turn of its outer loop keeps the value and the pattern
where they are (`OnStack`), and appends what the reference makes of what it has passed
(`scan_matches`, `scan_end`).
-/

import Sharun.Basis.Substitute
import Sharun.Shell.Subevalrepl

namespace Sharun
namespace Shell

open Machine (Byte)
open Sharun.Basis

/-- **What the substitutions give**: `m` says what the pattern matches, and `r` is put in
place of a match. -/
def reference (subtype : VsType) (m : Bytes → Bool) (pat r value : Bytes) : Bytes :=
  match subtype with
  | .replaceBeg => substitutePrefix m r value
  | .replaceEnd => substituteSuffix m r value
  | .replace | .replaceAll =>
    if pat = [] then value
    else if value = [] then (if m [] then r else [])
    else substitute (subtype = .replaceAll) m r value

theorem reference_unanchored {subtype : VsType} (h : subtype = .replace ∨ subtype = .replaceAll)
    (m : Bytes → Bool) (pat r value : Bytes) :
    reference subtype m pat r value =
      if pat = [] then value
      else if value = [] then (if m [] then r else [])
      else substitute (subtype = .replaceAll) m r value := by
  rcases h with rfl | rfl <;> rfl

/-- What stands for a replacement in the result. -/
def Dash.inserted (d : Dash) (repl : Bytes) : Bytes := if repl = [] then [] else d.memtodest repl

/-- What the scan takes for granted of the functions it calls, for a value of single-byte
characters. -/
structure Dash.Assumed (d : Dash) (value : Bytes) : Prop where
  /-- Every character of the value has one byte. -/
  single : ∀ c s rest, (c :: s) <:+ value → d.mbnext (c :: (s ++ 0 :: rest)) = (0, 1)
  /-- There is nothing to pass over at the end of a string. -/
  stop : ∀ rest, (d.mbnext (0 :: rest)).1 = 0
  /-- A pattern without `*`, `?` and `[` matches strings of one length. -/
  literal : ∀ pat : Bytes, (∀ c ∈ pat, c ∉ wildcards) → ∀ s s', d.pmatch pat s = true →
    d.pmatch pat s' = true → s.length = s'.length
  /-- A pattern that begins with an ordinary character matches strings that begin with it. -/
  ordinary : ∀ (c : Byte) (pat s : Bytes), 0 < c.toInt → c ∉ wildcards ++ [escape] →
    d.pmatch (c :: pat) s = true → s.head? = some c

/-- The value and the pattern are on the stack, where the scan looks for them. -/
structure OnStack (plan : Plan) (before value pat stack : Bytes) : Prop where
  holdsValue : ∃ tail, stack = before ++ (value ++ 0 :: tail)
  holdsPattern : ∃ front rest, stack = front ++ (pat ++ 0 :: rest) ∧ front.length = plan.strloc
  start : plan.startloc = before.length
  stop : plan.endoff = before.length + value.length
  apart : plan.endoff < plan.strloc
  valueText : 0 ∉ value
  patternText : 0 ∉ pat

section

variable {d : Dash} {plan : Plan} {before value pat stack out s : Bytes} {i j k : ℕ}

/-! ### Strings on the stack -/

theorem cstring_append {front text rest : Bytes} (h : 0 ∉ text) :
    cstring (front ++ (text ++ 0 :: rest)) front.length = text := by
  unfold cstring
  rw [List.drop_left, List.takeWhile_append_of_pos fun c hc => ?_, List.takeWhile_cons_of_neg,
    List.append_nil]
  · simp
  · rw [decide_eq_true_iff]
    rintro rfl
    exact h hc

theorem set_end (front : Bytes) (c c' : Byte) (rest : Bytes) :
    (front ++ c :: rest).set front.length c' = front ++ c' :: rest := by
  induction front with
  | nil => rfl
  | cons a front ih =>
    show a :: (front ++ c :: rest).set front.length c' = _
    rw [ih]
    rfl

theorem getD_end (front : Bytes) (c : Byte) (rest : Bytes) :
    (front ++ c :: rest).getD front.length 0 = c := by
  rw [List.getD_eq_getElem?_getD, List.getElem?_append_right le_rfl, Nat.sub_self]
  rfl

namespace OnStack

theorem append (h : OnStack plan before value pat stack) (out : Bytes) :
    OnStack plan before value pat (stack ++ out) := by
  obtain ⟨tail, hvalue⟩ := h.holdsValue
  obtain ⟨front, rest, hpattern, hlength⟩ := h.holdsPattern
  refine { h with
    holdsValue := ⟨tail ++ out, ?_⟩, holdsPattern := ⟨front, rest ++ out, ?_, hlength⟩ }
  · rw [hvalue]
    simp
  · rw [hpattern]
    simp

theorem cstring_pattern (h : OnStack plan before value pat stack) :
    cstring stack plan.strloc = pat := by
  obtain ⟨front, rest, rfl, hlength⟩ := h.holdsPattern
  rw [← hlength, cstring_append h.patternText]

/-- What is left of the value from a place in it on. -/
theorem split (h : OnStack plan before value pat stack) (hi : i ≤ value.length) :
    ∃ tail, stack = (before ++ value.take i) ++ (value.drop i ++ 0 :: tail) ∧
      (before ++ value.take i).length = plan.startloc + i := by
  obtain ⟨tail, rfl⟩ := h.holdsValue
  refine ⟨tail, ?_, ?_⟩
  · rw [List.append_assoc, ← List.append_assoc (value.take i), List.take_append_drop]
  · rw [List.length_append, List.length_take_of_le hi, h.start]

theorem cstring_value (h : OnStack plan before value pat stack) (hi : i ≤ value.length) :
    cstring stack (plan.startloc + i) = value.drop i := by
  obtain ⟨tail, hstack, hlength⟩ := h.split hi
  rw [← hlength, hstack, cstring_append fun h0 => h.valueText (List.mem_of_mem_drop h0)]

/-- A part of the value that is copied. -/
theorem replcopy_eq (h : OnStack plan before value pat stack) (hk : j + k ≤ value.length) :
    replcopy stack (plan.startloc + j) k = stack ++ (value.drop j).take k := by
  obtain ⟨tail, hstack, hlength⟩ := h.split (i := j) (by omega)
  have hdrop : stack.drop (plan.startloc + j) = value.drop j ++ 0 :: tail := by
    rw [← hlength, hstack, List.drop_left]
  unfold replcopy
  rw [hdrop, List.take_append_of_le_length]
  rw [List.length_drop]
  omega

/-- **A part of the value is tested, and the stack is left as it was.** -/
theorem matchTo_eq (h : OnStack plan before value pat stack) (hk : i + k ≤ value.length) :
    d.matchTo plan stack (plan.startloc + i) (plan.startloc + i + k) =
      (stack, d.pmatch pat ((value.drop i).take k)) := by
  obtain ⟨tail, hstack, hlength⟩ := h.split hk
  rw [← Nat.add_assoc] at hlength
  -- The byte at the end of the part is one of the value, or the NUL after it.
  obtain ⟨c, post, hend⟩ : ∃ c post, value.drop (i + k) ++ 0 :: tail = c :: post := by
    cases value.drop (i + k) with
    | nil => exact ⟨0, tail, rfl⟩
    | cons c s => exact ⟨c, s ++ 0 :: tail, rfl⟩
  rw [hend] at hstack
  have hget : stack.getD (plan.startloc + i + k) 0 = c := by
    rw [hstack, ← hlength, getD_end]
  have hset : ∀ c', stack.set (plan.startloc + i + k) c' =
      (before ++ value.take (i + k)) ++ c' :: post := by
    intro c'
    rw [hstack, ← hlength, set_end]
  have hpat : cstring (stack.set (plan.startloc + i + k) 0) plan.strloc = pat := by
    have hbehind : plan.startloc + i + k < plan.strloc := by
      have hstart := h.start
      have hstop := h.stop
      have hapart := h.apart
      omega
    rw [cstring, List.drop_set_of_lt hbehind]
    exact h.cstring_pattern
  have hpart : cstring (stack.set (plan.startloc + i + k) 0) (plan.startloc + i) =
      (value.drop i).take k := by
    have hfront : (before ++ value.take i).length = plan.startloc + i := by
      rw [List.length_append, List.length_take_of_le (by omega), h.start]
    rw [hset, List.take_add, ← List.append_assoc, List.append_assoc, ← hfront, cstring_append]
    exact fun h0 => h.valueText (List.mem_of_mem_drop (List.mem_of_mem_take h0))
  unfold Dash.matchTo
  dsimp only
  rw [hget, hpat, hpart, List.set_set, hset, ← hstack]

end OnStack

theorem advance_eq (hd : d.Assumed value) (h : OnStack plan before value pat stack)
    (hi : i < value.length) : d.advance plan stack (plan.startloc + i) = plan.startloc + i + 1 := by
  obtain ⟨tail, hstack, hlength⟩ := h.split hi.le
  have hdrop : stack.drop (plan.startloc + i) =
      value[i] :: (value.drop (i + 1) ++ 0 :: tail) := by
    rw [← hlength, hstack, List.drop_left, List.drop_eq_getElem_cons hi]
    rfl
  have hsuffix : value[i] :: value.drop (i + 1) <:+ value := by
    rw [← List.drop_eq_getElem_cons hi]
    exact List.drop_suffix i value
  have hstart := h.start
  have hstop := h.stop
  unfold Dash.advance
  rw [hdrop, hd.single _ _ _ hsuffix]
  dsimp only
  omega

/-! ### The inner loop -/

/-- The end that has been found so far is that of the longest match before `bound`. -/
def Best (hit : ℕ → Prop) (off bound : ℕ) : Option ℕ → Prop
  | none => ∀ k < bound, ¬ hit k
  | some bestend => ∃ k < bound, bestend = off + k ∧ hit k ∧ ∀ k' < bound, hit k' → k' ≤ k

theorem Best.zero (hit : ℕ → Prop) (off : ℕ) : Best hit off 0 none :=
  fun k hk => absurd hk (Nat.not_lt_zero k)

theorem Best.hit {hit : ℕ → Prop} {off : ℕ} (h : hit k) :
    Best hit off (k + 1) (some (off + k)) :=
  ⟨k, Nat.lt_succ_self k, rfl, h, fun _ hk _ => Nat.le_of_lt_succ hk⟩

theorem Best.miss {hit : ℕ → Prop} {off : ℕ} {bestend : Option ℕ} (h : ¬ hit k)
    (hbest : Best hit off k bestend) : Best hit off (k + 1) bestend := by
  cases bestend with
  | none =>
    intro k' hk'
    rcases Nat.lt_succ_iff_lt_or_eq.1 hk' with hlt | rfl
    · exact hbest k' hlt
    · exact h
  | some bestend =>
    obtain ⟨n, hn, heq, hhit, hmax⟩ := hbest
    refine ⟨n, by omega, heq, hhit, fun k' hk' hhit' => ?_⟩
    rcases Nat.lt_succ_iff_lt_or_eq.1 hk' with hlt | rfl
    · exact hmax k' hlt hhit'
    · exact absurd hhit' h

/-- A match of so many characters from a place on counts. -/
def Hit (d : Dash) (plan : Plan) (pat value : Bytes) (i k : ℕ) : Prop :=
  d.pmatch pat ((value.drop i).take k) = true ∧
    (0 < k ∨ plan.anchored = true ∨ value = [])

/-- A pattern without wildcards has one length to match. -/
theorem Hit.unique (hd : d.Assumed value) (hliteral : ∀ c ∈ pat, c ∉ wildcards)
    (h : Hit d plan pat value i j) (h' : Hit d plan pat value i k) (hj : i + j ≤ value.length)
    (hk : i + k ≤ value.length) : j = k := by
  have hlength := hd.literal pat hliteral _ _ h.1 h'.1
  rw [List.length_take_of_le, List.length_take_of_le] at hlength
  · exact hlength
  · rw [List.length_drop]
    omega
  · rw [List.length_drop]
    omega

/-- **The inner loop finds the end of the longest match.** -/
theorem findEnd_best (hd : d.Assumed value) (h : OnStack plan before value pat stack)
    (hliteral : plan.literal = true → ∀ c ∈ pat, c ∉ wildcards) {fuel : ℕ}
    (hk : i + k ≤ value.length) (hfuel : value.length - (i + k) < fuel) {bestend : Option ℕ}
    (hbest : Best (Hit d plan pat value i) (plan.startloc + i) k bestend) :
    ∃ best, d.findEnd plan (plan.startloc + i) fuel stack (plan.startloc + i + k) bestend =
        some (stack, best) ∧
      Best (Hit d plan pat value i) (plan.startloc + i) (value.length - i + 1) best := by
  have hstart := h.start
  have hstop := h.stop
  induction fuel generalizing k bestend with
  | zero => exact absurd hfuel (Nat.not_lt_zero _)
  | succ fuel ih =>
    have hcond : (d.pmatch pat ((value.drop i).take k) = true ∧
        (plan.startloc + i < plan.startloc + i + k ∨ plan.anchored = true ∨
          plan.endoff = plan.startloc)) ↔ Hit d plan pat value i k := by
      have hempty : plan.endoff = plan.startloc ↔ value = [] := by
        rw [← List.length_eq_zero_iff]
        omega
      unfold Hit
      rw [hempty, Nat.lt_add_right_iff_pos]
    -- What the loop does after the test, with what it has found by then.
    have hnext : ∀ {bestend : Option ℕ},
        Best (Hit d plan pat value i) (plan.startloc + i) (k + 1) bestend →
        ∃ best, (if plan.endoff ≤ plan.startloc + i + k then some (stack, bestend)
            else d.findEnd plan (plan.startloc + i) fuel stack
              (d.advance plan stack (plan.startloc + i + k)) bestend) = some (stack, best) ∧
          Best (Hit d plan pat value i) (plan.startloc + i) (value.length - i + 1) best := by
      intro bestend hbest
      split_ifs with hend
      · refine ⟨bestend, rfl, ?_⟩
        rw [show value.length - i = k by omega]
        exact hbest
      · have hlt : i + k < value.length := by omega
        have hadvance := advance_eq hd h hlt
        rw [← Nat.add_assoc] at hadvance
        rw [hadvance]
        exact ih (by omega) (by omega) hbest
    rw [Dash.findEnd, h.matchTo_eq hk]
    dsimp only
    by_cases hhit : Hit d plan pat value i k
    · rw [if_pos (hcond.2 hhit)]
      split_ifs with hlit hend
      · refine ⟨some (plan.startloc + i + k), rfl, k, by omega, rfl, hhit, fun k' hk' hhit' => ?_⟩
        exact (Hit.unique hd (hliteral hlit) hhit' hhit (by omega) hk).le
      · have hall := hnext (Best.hit hhit)
        rw [if_pos hend] at hall
        exact hall
      · have hall := hnext (Best.hit hhit)
        rw [if_neg hend] at hall
        exact hall
    · rw [if_neg fun hok => hhit (hcond.1 hok)]
      exact hnext (Best.miss hhit hbest)

/-- What is decided before the scan is right about the pattern. -/
structure Judges (plan : Plan) (pat : Bytes) : Prop where
  literal : plan.literal = true → ∀ c ∈ pat, c ∉ wildcards
  prefilter : plan.prefilter = true → 0 < plan.c0.toInt ∧ plan.c0 ∉ wildcards ++ [escape] ∧
    ∃ rest, pat = plan.c0 :: rest

/-- The byte the prefilter looks at is the next one of the value, or the NUL after it. -/
theorem prefiltered_eq (hd : d.Assumed value) (h : OnStack plan before value pat stack)
    (hi : i ≤ value.length) :
    stack.getD (plan.startloc + i + (d.mbnext (stack.drop (plan.startloc + i))).1) 0 =
      (value.drop i).headD 0 := by
  obtain ⟨tail, hstack, hlength⟩ := h.split hi
  have hdrop : stack.drop (plan.startloc + i) = value.drop i ++ 0 :: tail := by
    rw [← hlength, hstack, List.drop_left]
  rw [hdrop]
  cases hrest : value.drop i with
  | nil =>
    rw [hrest, List.nil_append] at hstack
    rw [List.nil_append, hd.stop, Nat.add_zero, hstack, ← hlength, getD_end]
    rfl
  | cons c s =>
    have hsuffix : c :: s <:+ value := hrest ▸ List.drop_suffix i value
    rw [hrest, List.cons_append] at hstack
    rw [List.cons_append, hd.single _ _ _ hsuffix]
    dsimp only
    rw [Nat.add_zero, hstack, ← hlength, getD_end]
    rfl

/-- **A turn of the outer loop finds the end of the longest match**, but for matches at the end
of the value. -/
theorem tryAt_best (hd : d.Assumed value) (h : OnStack plan before value pat stack)
    (hjudges : Judges plan pat) (hsubtype : plan.subtype ≠ .replaceEnd) (hi : i ≤ value.length) :
    ∃ best, d.tryAt plan stack (plan.startloc + i) = some (stack, best) ∧
      Best (Hit d plan pat value i) (plan.startloc + i) (value.length - i + 1) best := by
  have hstart := h.start
  have hstop := h.stop
  unfold Dash.tryAt
  rw [if_neg hsubtype, prefiltered_eq hd h hi]
  split_ifs with hfilter
  · -- No match begins with another character than the pattern.
    refine ⟨none, rfl, fun k _ hhit => ?_⟩
    obtain ⟨hpositive, hordinary, rest, rfl⟩ := hjudges.prefilter hfilter.1
    have hhead := hd.ordinary _ _ _ hpositive hordinary hhit.1
    refine hfilter.2 ?_
    cases hrest : value.drop i with
    | nil =>
      rw [hrest, List.take_nil] at hhead
      cases hhead
    | cons c s =>
      rw [hrest] at hhead
      cases k with
      | zero => cases hhead
      | succ k => exact Option.some.inj hhead
  · exact findEnd_best hd h hjudges.literal (k := 0) (by omega) (by omega) (Best.zero _ _)

/-- The longest of the matches that are not empty. -/
theorem best_nonempty {hit : ℕ → Prop} {m : Bytes → Bool} {off : ℕ} {best : Option ℕ}
    (hhit : ∀ k, hit k ↔ m (s.take k) = true ∧ 0 < k) (h : Best hit off (s.length + 1) best) :
    best = if matchLength m s = 0 then none else some (off + matchLength m s) := by
  cases best with
  | none =>
    have hzero : matchLength m s = 0 := by
      rw [matchLength_eq_zero_iff]
      intro k hpos hk
      rw [← Bool.not_eq_true]
      exact fun hmatch => h k (by omega) ((hhit k).2 ⟨hmatch, hpos⟩)
    rw [if_pos hzero]
  | some bestend =>
    obtain ⟨k, hk, rfl, hkhit, hmax⟩ := h
    obtain ⟨hmatch, hpos⟩ := (hhit k).1 hkhit
    have hlength : matchLength m s = k := by
      refine matchLength_eq (by omega) hmatch fun k' hk' hmatch' => ?_
      rcases Nat.eq_zero_or_pos k' with rfl | hpos'
      · exact Nat.zero_le k
      · exact hmax k' (by omega) ((hhit k').2 ⟨hmatch', hpos'⟩)
    rw [hlength, if_neg (by omega)]

/-- The longest of all matches. -/
theorem best_any {hit : ℕ → Prop} {m : Bytes → Bool} {off : ℕ} {best : Option ℕ}
    (hhit : ∀ k, hit k ↔ m (s.take k) = true) (h : Best hit off (s.length + 1) best) :
    best = if m (s.take (matchLength m s)) then some (off + matchLength m s) else none := by
  cases best with
  | none =>
    have hnone : ¬ m (s.take (matchLength m s)) = true := fun hmatch =>
      h _ (Nat.lt_succ_of_le (matchLength_le m s)) ((hhit _).2 hmatch)
    rw [if_neg hnone]
  | some bestend =>
    obtain ⟨k, hk, rfl, hkhit, hmax⟩ := h
    have hmatch := (hhit k).1 hkhit
    have hlength : matchLength m s = k :=
      matchLength_eq (by omega) hmatch fun k' hk' hmatch' =>
        hmax k' (by omega) ((hhit k').2 hmatch')
    rw [hlength, if_pos hmatch]

/-! ### The outer loop -/

/-- What is appended for a match. -/
theorem appended_eq (d : Dash) (stack repl : Bytes) :
    (if repl ≠ [] then stack ++ d.memtodest repl else stack) = stack ++ d.inserted repl := by
  unfold Dash.inserted
  by_cases hrepl : repl = []
  · rw [if_neg (not_not.2 hrepl), if_pos hrepl, List.append_nil]
  · rw [if_pos hrepl, if_neg hrepl]

/-- The rest of the value is copied after the scan. -/
theorem replcopy_rest (h : OnStack plan before value pat stack) (hj : j ≤ value.length) :
    replcopy stack (plan.startloc + j) (plan.endoff - (plan.startloc + j)) =
      stack ++ value.drop j := by
  have hstart := h.start
  have hstop := h.stop
  have hrest : plan.endoff - (plan.startloc + j) = value.length - j := by omega
  rw [hrest, h.replcopy_eq (by omega), ← List.length_drop, List.take_length]

/-- The result of a scan, with the rest of the value copied. -/
def Leaves (d : Dash) (plan : Plan) (fuel : ℕ) (stack : Bytes) (cursor off : ℕ)
    (result : Bytes) : Prop :=
  ∃ stack' cursor', d.scan plan fuel stack cursor off = some (stack', cursor') ∧
    replcopy stack' cursor' (plan.endoff - cursor') = result

/-- **The scan for non-empty matches**, from a place in the value on, with a part before it
that is still to be copied. -/
theorem scan_matches (hd : d.Assumed value) (h : OnStack plan before value pat stack)
    (hjudges : Judges plan pat) (hsubtype : plan.subtype = .replace ∨ plan.subtype = .replaceAll)
    (hvalue : value ≠ []) {fuel : ℕ} (hj : j ≤ i) (hi : i ≤ value.length)
    (hfuel : value.length - i < fuel) :
    Leaves d plan fuel stack (plan.startloc + j) (plan.startloc + i)
      (stack ++ ((value.drop j).take (i - j) ++ substitute (plan.subtype = .replaceAll)
        (d.pmatch pat) (d.inserted plan.repl) (value.drop i))) := by
  have hstart := h.start
  have hstop := h.stop
  have hanchored : plan.anchored = false := by
    unfold Plan.anchored
    rcases hsubtype with hs | hs <;> rw [hs] <;> rfl
  have hends : plan.subtype ≠ .replaceEnd ∧ plan.subtype ≠ .replaceBeg := by
    rcases hsubtype with hs | hs <;> rw [hs] <;> decide
  induction fuel generalizing stack i j with
  | zero => exact absurd hfuel (Nat.not_lt_zero _)
  | succ fuel ih =>
    obtain ⟨best, htry, hbest⟩ := tryAt_best hd h hjudges hends.1 hi
    have hhit : ∀ k, Hit d plan pat value i k ↔
        d.pmatch pat ((value.drop i).take k) = true ∧ 0 < k := by
      intro k
      simp [Hit, hanchored, hvalue]
    rw [← List.length_drop] at hbest
    have hlongest := best_nonempty hhit hbest
    have hle := matchLength_le (d.pmatch pat) (value.drop i)
    rw [List.length_drop] at hle
    unfold Leaves
    rw [Dash.scan, htry, hlongest]
    by_cases hnone : matchLength (d.pmatch pat) (value.drop i) = 0
    · -- Nothing matches here, and the scan goes on with the next character.
      rw [if_pos hnone]
      dsimp only
      by_cases hend : plan.endoff ≤ plan.startloc + i
      · have hlast : i = value.length := by omega
        refine ⟨stack, plan.startloc + j, if_pos (Or.inr hend), ?_⟩
        rw [replcopy_rest h (by omega), hlast, List.drop_length, substitute_nil, List.append_nil,
          ← List.length_drop, List.take_length]
      · have hlt : i < value.length := by omega
        have hnext : ¬ (plan.subtype = .replaceBeg ∨ plan.endoff ≤ plan.startloc + i) := by
          rintro (hs | hs)
          · exact hends.2 hs
          · exact hend hs
        rw [if_neg hnext, advance_eq hd h hlt]
        have hrest := ih h (j := j) (i := i + 1) (by omega) hlt (by omega)
        have hcons : value.drop i = value[i] :: value.drop (i + 1) :=
          List.drop_eq_getElem_cons hlt
        have hpart : (value.drop j).take (i + 1 - j) =
            (value.drop j).take (i - j) ++ [value[i]] := by
          have hsub : i + 1 - j = i - j + 1 := by omega
          have hindex : j + (i - j) = i := by omega
          rw [hsub, List.take_add_one, List.getElem?_drop, hindex, List.getElem?_eq_getElem hlt]
          rfl
        rw [hcons, substitute_cons (hcons ▸ hnone)]
        rw [hpart, List.append_assoc, List.singleton_append] at hrest
        exact hrest
    · rw [if_neg hnone]
      dsimp only
      have hsub : plan.startloc + i - (plan.startloc + j) = i - j := by omega
      rw [appended_eq, hsub, h.replcopy_eq (by omega)]
      generalize hn : matchLength (d.pmatch pat) (value.drop i) = n at hnone hle
      have hnext : OnStack plan before value pat
          (stack ++ (value.drop j).take (i - j) ++ d.inserted plan.repl) :=
        (h.append _).append _
      have hafter : plan.startloc + i + n = plan.startloc + (i + n) := Nat.add_assoc _ _ _
      have hdrop : (value.drop i).drop n = value.drop (i + n) := List.drop_drop
      rw [hafter]
      rcases hsubtype with hs | hs
      · have honce : plan.subtype ≠ .replaceAll := by
          rw [hs]
          decide
        refine ⟨_, _, if_pos honce, ?_⟩
        rw [replcopy_rest hnext (by omega), decide_eq_false honce, substitute_once (hn ▸ hnone), hn,
          hdrop, List.append_assoc, List.append_assoc]
      · rw [if_neg (not_not.2 hs), decide_eq_true hs, substitute_all (hn ▸ hnone), hn, hdrop]
        by_cases hend : plan.endoff ≤ plan.startloc + (i + n)
        · have hlast : i + n = value.length := by omega
          refine ⟨_, _, if_pos hend, ?_⟩
          rw [replcopy_rest hnext (by omega), hlast, List.drop_length, substitute_nil,
            List.append_assoc, List.append_assoc]
        · rw [if_neg hend]
          have hrest := ih hnext (j := i + n) (i := i + n) le_rfl (by omega) (by omega)
          rw [Nat.sub_self, List.take_zero, List.nil_append, decide_eq_true hs] at hrest
          rw [← List.append_assoc ((value.drop j).take (i - j)), ← List.append_assoc stack,
            ← List.append_assoc stack]
          exact hrest

/-- **The scan for a match that reaches the end.** -/
theorem scan_end (hd : d.Assumed value) (h : OnStack plan before value pat stack)
    (hsubtype : plan.subtype = .replaceEnd) {fuel : ℕ} (hi : i ≤ value.length)
    (hfuel : value.length - i < fuel) :
    Leaves d plan fuel stack plan.startloc (plan.startloc + i)
      (stack ++ (value.take i ++ substituteSuffix (d.pmatch pat) (d.inserted plan.repl)
        (value.drop i))) := by
  have hstart := h.start
  have hstop := h.stop
  induction fuel generalizing i with
  | zero => exact absurd hfuel (Nat.not_lt_zero _)
  | succ fuel ih =>
    unfold Leaves
    rw [Dash.scan, Dash.tryAt, if_pos hsubtype, h.cstring_pattern, h.cstring_value hi]
    dsimp only
    cases hmatch : d.pmatch pat (value.drop i) with
    | true =>
      have honce : plan.subtype ≠ .replaceAll := by
        rw [hsubtype]
        decide
      have hcopied : replcopy stack plan.startloc (plan.startloc + i - plan.startloc) =
          stack ++ value.take i := by
        rw [Nat.add_sub_cancel_left]
        exact h.replcopy_eq (j := 0) (by omega)
      rw [if_pos rfl]
      dsimp only
      rw [appended_eq, hcopied]
      refine ⟨_, _, if_pos honce, ?_⟩
      rw [Nat.sub_self, replcopy, List.take_zero, List.append_nil, substituteSuffix_of_match hmatch,
        List.append_assoc]
    | false =>
      rw [if_neg Bool.false_ne_true]
      dsimp only
      by_cases hend : plan.endoff ≤ plan.startloc + i
      · have hlast : i = value.length := by omega
        refine ⟨stack, plan.startloc, if_pos (Or.inr hend), ?_⟩
        rw [hlast, List.drop_length] at hmatch ⊢
        rw [substituteSuffix, if_neg (by simp [hmatch]), List.append_nil, List.take_length]
        exact replcopy_rest h (j := 0) (Nat.zero_le _)
      · have hlt : i < value.length := by omega
        have hnext : ¬ (plan.subtype = .replaceBeg ∨ plan.endoff ≤ plan.startloc + i) := by
          rintro (hs | hs)
          · rw [hsubtype] at hs
            cases hs
          · exact hend hs
        have hrest := ih (i := i + 1) hlt (by omega)
        have hcons : value.drop i = value[i] :: value.drop (i + 1) :=
          List.drop_eq_getElem_cons hlt
        rw [if_neg hnext, advance_eq hd h hlt, hcons, substituteSuffix_cons (hcons ▸ hmatch)]
        rw [List.take_add_one, List.getElem?_eq_getElem hlt, Option.toList_some, List.append_assoc,
          List.singleton_append] at hrest
        exact hrest

/-- **The scan that looks for a match at the beginning only.** -/
theorem scan_start (hd : d.Assumed value) (h : OnStack plan before value pat stack)
    (hjudges : Judges plan pat) (hsubtype : plan.subtype ≠ .replaceEnd)
    (hstay : plan.subtype = .replaceBeg ∨ value = []) (fuel : ℕ) :
    Leaves d plan (fuel + 1) stack plan.startloc plan.startloc
      (stack ++ substitutePrefix (d.pmatch pat) (d.inserted plan.repl) value) := by
  have hstart := h.start
  have hstop := h.stop
  obtain ⟨best, htry, hbest⟩ := tryAt_best hd h hjudges hsubtype (Nat.zero_le _)
  have hhit : ∀ k, Hit d plan pat value 0 k ↔ d.pmatch pat (value.take k) = true := by
    intro k
    have hany : 0 < k ∨ plan.anchored = true ∨ value = [] := by
      rcases hstay with hs | hs
      · exact Or.inr (Or.inl (by rw [Plan.anchored, hs]; rfl))
      · exact Or.inr (Or.inr hs)
    unfold Hit
    rw [List.drop_zero, and_iff_left hany]
  have hempty : value = [] → plan.endoff = plan.startloc := by
    rintro rfl
    rw [hstop, hstart]
    rfl
  rw [Nat.sub_zero] at hbest
  have hlongest := best_any hhit hbest
  unfold Leaves substitutePrefix
  rw [Dash.scan, ← Nat.add_zero plan.startloc, htry, hlongest, Nat.add_zero]
  dsimp only
  by_cases hmatch : d.pmatch pat (value.take (matchLength (d.pmatch pat) value)) = true
  · have hle := matchLength_le (d.pmatch pat) value
    have hcopied : replcopy stack plan.startloc (plan.startloc - plan.startloc) = stack := by
      rw [Nat.sub_self, replcopy, List.take_zero, List.append_nil]
    have hnext : OnStack plan before value pat (stack ++ d.inserted plan.repl) := h.append _
    rw [if_pos hmatch, if_pos hmatch]
    dsimp only
    rw [appended_eq, hcopied]
    have hrest := replcopy_rest hnext hle
    rw [List.append_assoc] at hrest
    split_ifs with honce hend
    · exact ⟨_, _, rfl, hrest⟩
    · exact ⟨_, _, rfl, hrest⟩
    · -- Where all matches are replaced the value is empty, and its end has been reached.
      rcases hstay with hs | hs
      · exact absurd (by rw [hs]; decide) honce
      · exact absurd (hempty hs ▸ Nat.le_add_right _ _) hend
  · rw [if_neg hmatch, if_neg hmatch]
    dsimp only
    refine ⟨stack, plan.startloc, if_pos (hstay.imp id fun hs => (hempty hs).le), ?_⟩
    exact replcopy_rest h (j := 0) (Nat.zero_le _)

/-- The scan for a pattern that is not anchored. -/
theorem scan_unanchored (hd : d.Assumed value) (h : OnStack plan before value pat stack)
    (hjudges : Judges plan pat) (hsubtype : plan.subtype = .replace ∨ plan.subtype = .replaceAll)
    (hpat : pat ≠ []) {fuel : ℕ} (hfuel : value.length ≤ fuel) :
    Leaves d plan (fuel + 1) stack plan.startloc plan.startloc
      (stack ++ reference plan.subtype (d.pmatch pat) pat (d.inserted plan.repl) value) := by
  rw [reference_unanchored hsubtype, if_neg hpat]
  by_cases hempty : value = []
  · have hends : plan.subtype ≠ .replaceEnd := by
      rcases hsubtype with hs | hs <;> rw [hs] <;> decide
    have hleaves := scan_start hd h hjudges hends (Or.inr hempty) fuel
    rw [hempty, substitutePrefix_nil] at hleaves
    rw [if_pos hempty]
    exact hleaves
  · rw [if_neg hempty]
    exact scan_matches hd h hjudges hsubtype hempty (le_refl 0) (Nat.zero_le _) (by omega)

/-- **What the scan leaves is what the reference says**, for all patterns that are looked
for. -/
theorem scan_reference (hd : d.Assumed value) (h : OnStack plan before value pat stack)
    (hjudges : Judges plan pat) (hsearched : ¬ (pat = [] ∧ plan.anchored = false)) {fuel : ℕ}
    (hfuel : value.length ≤ fuel) :
    Leaves d plan (fuel + 1) stack plan.startloc plan.startloc
      (stack ++ reference plan.subtype (d.pmatch pat) pat (d.inserted plan.repl) value) := by
  have hpat : plan.anchored = false → pat ≠ [] := fun hanchored hnothing =>
    hsearched ⟨hnothing, hanchored⟩
  unfold Plan.anchored at hpat
  cases hsubtype : plan.subtype with
  | replaceBeg =>
    exact scan_start hd h hjudges (by rw [hsubtype]; decide) (Or.inl hsubtype) fuel
  | replaceEnd =>
    exact scan_end hd h hsubtype (i := 0) (Nat.zero_le _) (by omega)
  | replace =>
    rw [← hsubtype]
    exact scan_unanchored hd h hjudges (Or.inl hsubtype) (hpat (by rw [hsubtype]; decide)) hfuel
  | replaceAll =>
    rw [← hsubtype]
    exact scan_unanchored hd h hjudges (Or.inr hsubtype) (hpat (by rw [hsubtype]; decide)) hfuel

/-! ### The whole -/

theorem judges_new (subtype : VsType) (startloc patloc strloc : ℕ) (repl : Bytes)
    (hpat : cstring stack strloc = pat) :
    Judges (Plan.new stack subtype startloc patloc strloc repl) pat := by
  constructor
  · intro hliteral
    simpa [Plan.new, hpat] using hliteral
  · intro hfilter
    unfold Plan.new at hfilter ⊢
    dsimp only at hfilter ⊢
    rw [hpat] at hfilter ⊢
    rw [decide_eq_true_iff] at hfilter
    cases pat with
    | nil => exact absurd hfilter.1 (by decide)
    | cons c pat => exact ⟨hfilter.1, hfilter.2, pat, rfl⟩

/-- A value and a pattern that the scan is started on. -/
theorem onStack_new (subtype : VsType) (before value gap pat rest repl : Bytes) (hvalue : 0 ∉ value)
    (hpat : 0 ∉ pat) :
    let stack := before ++ (value ++ 0 :: (gap ++ (pat ++ 0 :: rest)))
    let patloc := before.length + value.length + 1
    OnStack (Plan.new stack subtype before.length patloc (patloc + gap.length) repl) before value
      pat stack := by
  intro stack patloc
  have hpattern : ∃ front rest, stack = front ++ (pat ++ 0 :: rest) ∧
      front.length = patloc + gap.length := by
    refine ⟨before ++ (value ++ 0 :: gap), rest, by simp [stack], ?_⟩
    rw [List.length_append, List.length_append, List.length_cons]
    omega
  constructor
  · exact ⟨_, rfl⟩
  · exact hpattern
  · rfl
  · exact Nat.add_sub_cancel _ 1
  · show patloc - 1 < patloc + gap.length
    omega
  · exact hvalue
  · exact hpat

/-- What is built behind the stack is moved over the value. -/
theorem Leaves.moved {result : Bytes} {fuel : ℕ} (h : OnStack plan before value pat stack)
    (hleaves : Leaves d plan fuel stack plan.startloc plan.startloc (stack ++ result)) :
    ((d.scan plan fuel stack before.length before.length).map fun (stack', cursor) =>
        (replcopy stack' cursor (plan.endoff - cursor)).take before.length ++
          (replcopy stack' cursor (plan.endoff - cursor)).drop stack.length) =
      some (before ++ result) := by
  obtain ⟨stack', cursor, hscanned, hresult⟩ := hleaves
  obtain ⟨tail, hstack⟩ := h.holdsValue
  have htake : (stack ++ result).take before.length = before := by
    rw [hstack, List.append_assoc, List.take_left]
  rw [h.start] at hscanned
  rw [hscanned, Option.map_some]
  dsimp only
  rw [hresult, htake, List.drop_left]

/-- **`subevalrepl` substitutes as bash does**: for a value and a pattern on the stack the scan
comes to its end, and leaves in place of the value what the reference says. -/
theorem Dash.subevalrepl_eq (d : Dash) (subtype : VsType) (before value gap pat rest repl : Bytes)
    (hd : d.Assumed value) (hvalue : 0 ∉ value) (hpat : 0 ∉ pat) :
    let patloc := before.length + value.length + 1
    d.subevalrepl subtype (before ++ (value ++ 0 :: (gap ++ (pat ++ 0 :: rest)))) before.length
        patloc (patloc + gap.length) repl =
      some (before ++ reference subtype (d.pmatch pat) pat (d.inserted repl) value) := by
  intro patloc
  have h := onStack_new subtype before value gap pat rest repl hvalue hpat
  dsimp only at h
  generalize hstack : before ++ (value ++ 0 :: (gap ++ (pat ++ 0 :: rest))) = stack at h ⊢
  have hread : cstring stack (patloc + gap.length) = pat := h.cstring_pattern
  have hjudges := judges_new subtype before.length patloc (patloc + gap.length) repl hread
  have hsubtype : (Plan.new stack subtype before.length patloc (patloc + gap.length) repl).subtype =
    subtype := rfl
  have hrepl : (Plan.new stack subtype before.length patloc (patloc + gap.length) repl).repl =
    repl := rfl
  unfold Dash.subevalrepl
  dsimp only
  rw [hread]
  generalize Plan.new stack subtype before.length patloc (patloc + gap.length) repl = plan at *
  have hfuel : value.length ≤ plan.endoff - before.length := by
    have hstop := h.stop
    omega
  split_ifs with hnothing
  · -- An empty pattern is not looked for, and the value is copied.
    have hunchanged : reference subtype (d.pmatch pat) pat (d.inserted repl) value = value := by
      have hsubtypes : subtype = .replace ∨ subtype = .replaceAll := by
        have hanchored := hnothing.2
        rw [Plan.anchored, hsubtype] at hanchored
        cases subtype with
        | replace => exact Or.inl rfl
        | replaceAll => exact Or.inr rfl
        | replaceBeg => exact absurd hanchored (by decide)
        | replaceEnd => exact absurd hanchored (by decide)
      rw [reference_unanchored hsubtypes, if_pos hnothing.1]
    obtain ⟨tail, htail⟩ := h.holdsValue
    have hrest := replcopy_rest h (j := 0) (Nat.zero_le _)
    rw [Nat.add_zero, h.start, List.drop_zero] at hrest
    rw [hunchanged, Option.map_some]
    dsimp only
    rw [hrest, List.drop_left]
    congr 2
    rw [htail, List.append_assoc, List.take_left]
  · have hleaves := scan_reference hd h hjudges hnothing hfuel
    rw [hsubtype, hrepl] at hleaves
    exact hleaves.moved h

end

/-! ### A shell to try it in -/

/-- Patterns of `*`, `?` and characters that stand for themselves. -/
def glob : Bytes → Bytes → Bool
  | [], s => s.isEmpty
  | c :: pat, s =>
    if c = 0x2a then s.tails.any (glob pat)
    else match s with
      | [] => false
      | c' :: s => (c = 0x3f || c = c') && glob pat s

def Dash.plain : Dash where
  pmatch := glob
  mbnext _ := (0, 1)
  memtodest := id

theorem glob_cons {c : Byte} {pat s : Bytes} (hc : c ≠ 0x2a) (h : glob (c :: pat) s = true) :
    ∃ c' s', s = c' :: s' ∧ (c = 0x3f ∨ c = c') ∧ glob pat s' = true := by
  rw [glob.eq_def] at h
  dsimp only at h
  rw [if_neg hc] at h
  cases s with
  | nil => cases h
  | cons c' s =>
    dsimp only at h
    rw [Bool.and_eq_true, Bool.or_eq_true, decide_eq_true_iff, decide_eq_true_iff] at h
    exact ⟨c', s, rfl, h.1, h.2⟩

/-- Without wildcards a pattern matches strings of its own length. -/
theorem glob_length {pat s : Bytes} (hpat : ∀ c ∈ pat, c ∉ wildcards) (h : glob pat s = true) :
    s.length = pat.length := by
  induction pat generalizing s with
  | nil => exact List.length_eq_zero_iff.2 (List.isEmpty_iff.1 h)
  | cons c pat ih =>
    have hc : c ≠ 0x2a := by
      rintro rfl
      exact hpat _ List.mem_cons_self (by decide)
    obtain ⟨c', s', rfl, -, hrest⟩ := glob_cons hc h
    rw [List.length_cons, List.length_cons, ih (fun c h => hpat c (List.mem_cons_of_mem _ h)) hrest]

theorem Dash.plain_assumed (value : Bytes) : Dash.plain.Assumed value where
  single _ _ _ _ := rfl
  stop _ := rfl
  literal pat hpat s s' h h' := (glob_length hpat h).trans (glob_length hpat h').symm
  ordinary := by
    intro c pat s _ hordinary h
    have hstar : c ≠ 0x2a := by
      rintro rfl
      exact hordinary (by decide)
    have hmark : c ≠ 0x3f := by
      rintro rfl
      exact hordinary (by decide)
    obtain ⟨c', s', rfl, hc, -⟩ := glob_cons hstar h
    rw [hc.resolve_left hmark]
    rfl

/-- The bytes of a text. -/
def bytes (text : String) : Bytes := text.toList.map fun c => BitVec.ofNat 8 c.toNat

/-- With every `b?` replaced by a dash `abcabc` becomes `a-a-`. -/
theorem Dash.subevalrepl_any :
    Dash.plain.subevalrepl .replaceAll (bytes "abcabc" ++ 0 :: (bytes "b?" ++ [0])) 0 7 7
      (bytes "-") = some (bytes "a-a-") :=
  (Dash.subevalrepl_eq Dash.plain .replaceAll [] (bytes "abcabc") [] (bytes "b?") [] (bytes "-")
    (Dash.plain_assumed _) (by decide) (by decide)).trans (by decide +kernel)

end Shell
end Sharun
