/-
# What the stars of a pattern stand for

`pm_capture_stars` of `lib/pathmap_common.h` matches a path against a pattern whose only
wildcards are stars, and finds the part of the path each star stands for.  It goes through the
pattern once and never takes a decision back: a star before a slash takes what is there up to
the next slash, a star before other characters what is there up to their last occurrence
before the next slash, and a star at the end everything.

So not every path that matches is found to match, but what is found is right: with the parts
in place of the stars the pattern is the path (`captureFrom_sound`).  Where every star but
one at the end has a slash behind it, nothing is missed either (`pmCaptureStars_iff`).
-/

import Sharun.Launch.Text

namespace Sharun
namespace PathMap

open Sharun.Basis
open Sharun.Launch (Text)

/-- A part of a path: what is left of the path where it begins, and its length. -/
structure Capture where
  start : Text
  len : ℕ
  deriving DecidableEq

/-- The characters of a part. -/
def Capture.text (cap : Capture) : Text := cap.start.take cap.len

/-- The last place in a segment where a literal is found. -/
def lastOccurrence (literal segment : Text) : Option ℕ :=
  ((List.range (segment.length + 1)).filter fun i => literal.isPrefixOf (segment.drop i)).getLast?

/-- How much of the path a star stands for, when `next` is what follows it up to the next star,
or to the end of the pattern (`last`).  What is searched for ends before the next slash of the
pattern, so that it holds no slash. -/
def starLength (sp next : Text) (last : Bool) : Option ℕ :=
  let segment := sp.takeWhile (· ≠ '/')
  if next = [] ∧ last then some sp.length
  else if next.head? = some '/' then
    if '/' ∈ sp then some segment.length else none
  else lastOccurrence (next.takeWhile (· ≠ '/')) segment

/-- The loop over a pattern, given by what is between its stars. -/
def captureFrom (sp : Text) : List Text → Option (List Capture)
  | [] => none
  | [literal] => if sp = literal then some [] else none
  | literal :: next :: rest =>
    if literal.isPrefixOf sp then
      let sp := sp.drop literal.length
      (starLength sp next rest.isEmpty).bind fun n =>
        (captureFrom (sp.drop n) (next :: rest)).map (⟨sp, n⟩ :: ·)
    else none

/-- `pm_capture_stars(pattern, path, caps, caplens, maxcaps)`. -/
def pmCaptureStars (pattern path : Text) (maxcaps : ℕ) : Option (List Capture) :=
  if '?' ∈ pattern ∨ '[' ∈ pattern then none
  else (captureFrom path (pattern.splitOn '*')).map (·.take maxcaps)

/-! ### Patterns and what they match -/

/-- The literals of a pattern with the parts between them. -/
def weave : List Text → List Text → Text
  | literal :: rest, part :: parts => literal ++ part ++ weave rest parts
  | literals, _ => literals.flatten

/-- The parts that the stars of a pattern may stand for: one for each star, without a slash but
for that of a star at the end. -/
def Parts : List Text → List Text → Prop
  | [_], parts => parts = []
  | _ :: next :: rest, part :: parts =>
    ('/' ∈ part → next = [] ∧ rest = []) ∧ Parts (next :: rest) parts
  | _, _ => False

/-- Every star is followed by a slash, or is the end of the pattern. -/
def WholeSegments : List Text → Prop
  | _ :: next :: rest => (next.head? = some '/' ∨ next = [] ∧ rest = []) ∧
    WholeSegments (next :: rest)
  | _ => True

theorem lastOccurrence_spec {literal segment : Text} {n : ℕ}
    (h : lastOccurrence literal segment = some n) :
    n ≤ segment.length ∧ literal <+: segment.drop n := by
  have hmem := List.mem_filter.1 (List.mem_of_getLast? h)
  exact ⟨Nat.lt_succ_iff.1 (List.mem_range.1 hmem.1), List.isPrefixOf_iff_prefix.1 hmem.2⟩

/-- There is no slash up to the next slash. -/
theorem slash_notMem_take {sp : Text} {n : ℕ} (h : n ≤ (sp.takeWhile (· ≠ '/')).length) :
    '/' ∉ sp.take n := by
  have hbelow : sp.take n <+: sp.takeWhile (· ≠ '/') :=
    List.prefix_of_prefix_length_le (List.take_prefix n sp) (List.takeWhile_prefix _)
      ((List.length_take_le n sp).trans h)
  intro hmem
  have hne := List.mem_takeWhile_imp (hbelow.subset hmem)
  exact absurd hne (by simp)

/-- What a star stands for holds no slash, unless it is the end of the pattern. -/
theorem starLength_spec {sp next : Text} {last : Bool} {n : ℕ}
    (h : starLength sp next last = some n) (hslash : '/' ∈ sp.take n) :
    next = [] ∧ last = true := by
  unfold starLength at h
  split_ifs at h with hend hhead hfound
  · exact hend
  · exact absurd hslash (slash_notMem_take (Option.some.inj h).ge)
  · exact absurd hslash (slash_notMem_take (lastOccurrence_spec h).1)

theorem starLength_le {sp next : Text} {last : Bool} {n : ℕ}
    (h : starLength sp next last = some n) : n ≤ sp.length := by
  have hsegment : (sp.takeWhile (· ≠ '/')).length ≤ sp.length :=
    (List.takeWhile_prefix _).length_le
  unfold starLength at h
  split_ifs at h
  · exact (Option.some.inj h).ge
  · exact (Option.some.inj h) ▸ hsegment
  · exact (lastOccurrence_spec h).1.trans hsegment

/-- **What is found is right.**  The pattern with the parts in place of its stars is the path,
and the parts are such as stars may stand for. -/
theorem captureFrom_sound {literals : List Text} {sp : Text} {caps : List Capture}
    (h : captureFrom sp literals = some caps) :
    weave literals (caps.map Capture.text) = sp ∧ Parts literals (caps.map Capture.text) := by
  induction literals generalizing sp caps with
  | nil => exact absurd h (by simp [captureFrom])
  | cons literal literals ih =>
    cases literals with
    | nil =>
      unfold captureFrom at h
      split_ifs at h with heq
      cases h
      rw [heq]
      exact ⟨List.append_nil literal, rfl⟩
    | cons next rest =>
      unfold captureFrom at h
      split_ifs at h with hbelow
      obtain ⟨n, hn, hrest⟩ := Option.bind_eq_some_iff.1 h
      obtain ⟨caps', hcaps, rfl⟩ := Option.map_eq_some_iff.1 hrest
      obtain ⟨hweave, hparts⟩ := ih hcaps
      obtain ⟨after, rfl⟩ := List.isPrefixOf_iff_prefix.1 hbelow
      rw [List.drop_left] at hn hweave ⊢
      refine ⟨?_, fun hslash => ?_, hparts⟩
      · rw [List.map_cons, weave, hweave, Capture.text, List.append_assoc, List.take_append_drop]
      · obtain ⟨hnext, hlast⟩ := starLength_spec hn hslash
        exact ⟨hnext, by simpa using hlast⟩

theorem weave_head {next : Text} (h : next.head? = some '/') (rest parts : List Text) :
    (weave (next :: rest) parts).head? = some '/' := by
  obtain ⟨next', rfl⟩ : ∃ next', next = '/' :: next' := by
    cases next with
    | nil => exact absurd h (by simp)
    | cons c next' => exact ⟨next', by rw [Option.some.inj h]⟩
  cases parts <;> rfl

/-- A star before a slash, or at the end, takes the part it stands for. -/
theorem starLength_weave {next part : Text} {rest parts : List Text}
    (hslash : '/' ∈ part → next = [] ∧ rest = []) (hparts : Parts (next :: rest) parts)
    (hnext : next.head? = some '/' ∨ next = [] ∧ rest = []) :
    starLength (part ++ weave (next :: rest) parts) next rest.isEmpty = some part.length := by
  unfold starLength
  rcases hnext with hhead | ⟨rfl, rfl⟩
  · have hne : next ≠ [] := fun hnil => absurd hhead (by rw [hnil]; simp)
    have hfree : ∀ c ∈ part, decide (c ≠ '/') = true :=
      fun c hc => decide_eq_true fun heq => hne (hslash (heq ▸ hc)).1
    have hwoven := weave_head hhead rest parts
    obtain ⟨after, hafter⟩ : ∃ after, weave (next :: rest) parts = '/' :: after := by
      cases hw : weave (next :: rest) parts with
      | nil => rw [hw] at hwoven; exact absurd hwoven (by simp)
      | cons c after => rw [hw] at hwoven; exact ⟨after, by rw [Option.some.inj hwoven]⟩
    rw [if_neg (fun h => hne h.1), if_pos hhead, hafter, if_pos (by simp),
      List.takeWhile_append_of_pos hfree, List.takeWhile_cons_of_neg (by simp), List.append_nil]
  · have hnil : parts = [] := hparts
    subst hnil
    rw [if_pos ⟨rfl, rfl⟩]
    simp [weave]

/-- **Whole segments are found.**  Where each star is followed by a slash or ends the pattern,
the parts are the only ones there can be. -/
theorem captureFrom_weave {literals parts : List Text} (h : WholeSegments literals)
    (hparts : Parts literals parts) :
    ∃ caps, captureFrom (weave literals parts) literals = some caps ∧
      caps.map Capture.text = parts := by
  induction literals generalizing parts with
  | nil => exact absurd hparts (by simp [Parts])
  | cons literal literals ih =>
    cases literals with
    | nil =>
      have hnil : parts = [] := hparts
      subst hnil
      refine ⟨[], ?_, rfl⟩
      unfold captureFrom
      exact if_pos (List.append_nil literal)
    | cons next rest =>
      cases parts with
      | nil => exact absurd hparts (by simp [Parts])
      | cons part parts =>
        obtain ⟨hslash, hparts⟩ := hparts
        obtain ⟨hnext, hsegments⟩ := h
        obtain ⟨caps, hcaps, hmap⟩ := ih hsegments hparts
        have hlength := starLength_weave hslash hparts hnext
        refine ⟨⟨part ++ weave (next :: rest) parts, part.length⟩ :: caps, ?_, ?_⟩
        · unfold captureFrom
          rw [weave, List.append_assoc,
            if_pos (List.isPrefixOf_iff_prefix.2 (List.prefix_append _ _)), List.drop_left]
          dsimp only
          rw [hlength, Option.bind_some, List.drop_left, hcaps]
          rfl
        · rw [List.map_cons, hmap, Capture.text, List.take_left]

theorem length_captureFrom {literals : List Text} {sp : Text} {caps : List Capture}
    (h : captureFrom sp literals = some caps) : caps.length + 1 = literals.length := by
  induction literals generalizing sp caps with
  | nil => exact absurd h (by simp [captureFrom])
  | cons literal literals ih =>
    cases literals with
    | nil =>
      unfold captureFrom at h
      split_ifs at h
      cases h
      rfl
    | cons next rest =>
      unfold captureFrom at h
      split_ifs at h
      obtain ⟨n, -, hrest⟩ := Option.bind_eq_some_iff.1 h
      obtain ⟨caps', hcaps, rfl⟩ := Option.map_eq_some_iff.1 hrest
      rw [List.length_cons, List.length_cons, ih hcaps]

/-- A part ends inside of the path. -/
theorem len_le_of_captureFrom {literals : List Text} {sp : Text} {caps : List Capture}
    (h : captureFrom sp literals = some caps) : ∀ cap ∈ caps, cap.len ≤ cap.start.length := by
  induction literals generalizing sp caps with
  | nil => exact absurd h (by simp [captureFrom])
  | cons literal literals ih =>
    cases literals with
    | nil =>
      unfold captureFrom at h
      split_ifs at h
      cases h
      exact fun _ h => absurd h List.not_mem_nil
    | cons next rest =>
      unfold captureFrom at h
      split_ifs at h
      obtain ⟨n, hn, hrest⟩ := Option.bind_eq_some_iff.1 h
      obtain ⟨caps', hcaps, rfl⟩ := Option.map_eq_some_iff.1 hrest
      exact List.forall_mem_cons.2 ⟨starLength_le hn, ih hcaps⟩

/-- Up to as many parts as there is room for, all are returned. -/
theorem pmCaptureStars_eq {pattern : Text} (hstars : '?' ∉ pattern ∧ '[' ∉ pattern) (path : Text)
    {maxcaps : ℕ} (hmax : (pattern.splitOn '*').length ≤ maxcaps + 1) :
    pmCaptureStars pattern path maxcaps = captureFrom path (pattern.splitOn '*') := by
  unfold pmCaptureStars
  rw [if_neg (by rw [not_or]; exact hstars)]
  cases hcaps : captureFrom path (pattern.splitOn '*') with
  | none => rfl
  | some caps =>
    have hlength := length_captureFrom hcaps
    rw [Option.map_some, List.take_of_length_le (by omega)]

/-- **The stars of a pattern.**  If parts are found, they are right: the pattern with them in
place of its stars is the path, and only the part of a star at the end has a slash in it.
Where every other star has a slash behind it, they are found whenever there are any, and there
are no others. -/
theorem pmCaptureStars_iff {pattern : Text} (hstars : '?' ∉ pattern ∧ '[' ∉ pattern)
    (path : Text) {maxcaps : ℕ} (hmax : (pattern.splitOn '*').length ≤ maxcaps + 1)
    (parts : List Text) :
    ((pmCaptureStars pattern path maxcaps).map (·.map Capture.text) = some parts →
      weave (pattern.splitOn '*') parts = path ∧ Parts (pattern.splitOn '*') parts) ∧
    (WholeSegments (pattern.splitOn '*') →
      ((pmCaptureStars pattern path maxcaps).map (·.map Capture.text) = some parts ↔
        weave (pattern.splitOn '*') parts = path ∧ Parts (pattern.splitOn '*') parts)) := by
  have hsound : (pmCaptureStars pattern path maxcaps).map (·.map Capture.text) = some parts →
      weave (pattern.splitOn '*') parts = path ∧ Parts (pattern.splitOn '*') parts := by
    intro h
    rw [pmCaptureStars_eq hstars path hmax] at h
    obtain ⟨caps, hcaps, rfl⟩ := Option.map_eq_some_iff.1 h
    exact captureFrom_sound hcaps
  refine ⟨hsound, fun hsegments => ⟨hsound, ?_⟩⟩
  rintro ⟨rfl, hparts⟩
  obtain ⟨caps, hcaps, hmap⟩ := captureFrom_weave hsegments hparts
  rw [pmCaptureStars_eq hstars _ hmax, hcaps, Option.map_some, hmap]

/-- Two stars, the second one at the end. -/
theorem pmCaptureStars_iff_usr :
    (pmCaptureStars "/usr/*/lib/*".toList "/usr/local/lib/x/y".toList 8).map
      (·.map Capture.text) = some ["local".toList, "x/y".toList] := by
  have hsplit : "/usr/*/lib/*".toList.splitOn '*' = ["/usr/".toList, "/lib/".toList, []] := by
    decide
  have hsegments : WholeSegments ("/usr/*/lib/*".toList.splitOn '*') := by
    rw [hsplit]
    exact ⟨.inl rfl, .inr ⟨rfl, rfl⟩, trivial⟩
  have hparts : Parts ("/usr/*/lib/*".toList.splitOn '*') ["local".toList, "x/y".toList] := by
    rw [hsplit]
    exact ⟨fun h => absurd h (by decide), fun _ => ⟨rfl, rfl⟩, rfl⟩
  exact ((@pmCaptureStars_iff "/usr/*/lib/*".toList (by decide) "/usr/local/lib/x/y".toList 8
    (by decide) ["local".toList, "x/y".toList]).2 hsegments).2 ⟨by decide, hparts⟩

end PathMap
end Sharun
