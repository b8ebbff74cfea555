/-
# Undoing a mapping

`pm_apply_reverse_mapping_with_config` of `lib/pathmap_common.h` finds the name of a real path:
it looks for the target the path lies below, or that matches it as a pattern, and puts FROM in
its place.  For a pattern that matches without being given captures, it goes on as for a
directory and counts the tail of the path from behind the text of the pattern; when that is
longer than the path, the count is negative and memory behind the path is copied (`overrun`).

With plain directories this never happens, and what has been mapped is found back under its
own name when no target lies below another one (`reverse_of_forward`).  A path that is mapped by
a pattern whose stars stand for whole segments is found back too (`reverse_of_forward_stars`).
Where what the stars of a target stand for can always be told, and has a place in FROM, nothing
but the path is read (`pmApplyReverseMappingWithConfig_ne_overrun`).
-/

import Sharun.Basis.Run
import Sharun.PathMap.Forward

namespace Sharun
namespace PathMap

open Sharun.Basis
open Sharun.Launch (Text)

/-- What is returned: the path that was given, or another one.  With `overrun` the length of the
tail is below zero, and what is copied is not the path's. -/
inductive Reversed
  | unchanged
  | changed (out : Text)
  | overrun
  deriving DecidableEq

/-- The variables `best_…` of the search. -/
structure BestTarget where
  mapping : Option Mapping
  score : ℕ
  caps : List Capture

def BestTarget.none : BestTarget := ⟨.none, 0, []⟩

/-- The captures of a target, `none` for a `capcount` of -1. -/
def targetCaptures (pattern path : Text) : Option (List Capture) :=
  if '*' ∈ pattern ∧ '?' ∉ pattern ∧ '[' ∉ pattern then pmCaptureStars pattern path 8 else none

/-- The body of the loop over the mappings. -/
def considerTarget (fnmatch : Fnmatch) (path : Text) (best : BestTarget) (m : Mapping) :
    BestTarget :=
  if hasWildcard m.toPath then
    let captures := targetCaptures m.toPath path
    if (captures.isSome ∨ fnmatch m.toPath path) ∧ best.score ≤ path.length then
      ⟨some m, path.length, captures.getD []⟩
    else best
  else if pmPathPrefixMatches m.toPath path then
    let score := pmPathlen m.toPath
    if best.score < score then ⟨some m, score, []⟩ else best
  else best

/-- The loop that puts the captures in place of the stars of FROM. -/
def fillFrom (size : ℕ) (out : Text) : Text → List Capture → Option Text
  | [], _ => some out
  | '*' :: source, cap :: caps =>
    (if cap.start.head? ≠ some '/' then putSeparator size out else some out).bind fun out =>
    (putPart size out cap).bind fun out =>
    (if source = [] ∨ source.head? = some '/' then some out else putSeparator size out).bind
      fun out => fillFrom size out source caps
  | c :: source, caps => (putChar size out c).bind fun out => fillFrom size out source caps

/-- The fallback, FROM and the tail of the path.  `tail_len` is the difference of two numbers of
64 bits. -/
def plainReverse (path : Text) (size : ℕ) (m : Mapping) : Reversed :=
  let toLen := pmPathlen m.toPath
  let fromLen := pmPathlen m.fromPath
  if toLen ≤ path.length then
    if fromLen + (path.length - toLen) + 1 < size then
      .changed (m.fromPath.take fromLen ++ path.drop toLen)
    else .unchanged
  else if toLen ≤ fromLen + path.length + 1 ∧ fromLen + path.length + 1 - toLen < size then
    .overrun
  else .unchanged

/-- What is made of the choice. -/
def reverseBest (path : Text) (size : ℕ) (best : BestTarget) : Reversed :=
  match best.mapping with
  | none => .unchanged
  | some m =>
    if best.caps ≠ [] ∧ '*' ∈ m.fromPath then
      (fillFrom size [] m.fromPath best.caps).elim .unchanged .changed
    else plainReverse path size m

/-- `pm_apply_reverse_mapping_with_config(in, out, out_size, config)`. -/
def pmApplyReverseMappingWithConfig (fnmatch : Fnmatch) (path : Text) (size : ℕ)
    (config : MappingConfig) : Reversed :=
  if path = [] then .unchanged
  else if size < 2 then .unchanged
  else reverseBest path size
    (config.mappings.foldl (considerTarget fnmatch path) BestTarget.none)

/-! ### Plain directories -/

/-- The choice that the loop has made: no mapping, or the one of the deepest place. -/
def ChosenTarget (best : BestTarget) : Option (List Text × List Text) → Prop
  | none => best = BestTarget.none
  | some e => ∃ m : Mapping, m.Plain ∧ (m.fromLoc, m.toLoc) = e ∧
      best = ⟨some m, (render e.2).length, []⟩

theorem chosenTarget_foldl (fnmatch : Fnmatch) {path : Text} {loc : List Text}
    (hpath : Normalized path loc) {mappings : List Mapping}
    (hplain : ∀ m ∈ mappings, m.Plain ∧ hasWildcard m.toPath = false) :
    ChosenTarget (mappings.foldl (considerTarget fnmatch path) BestTarget.none)
      (deepest Prod.snd (table mappings) loc) := by
  induction mappings using List.reverseRecOn with
  | nil => rfl
  | append_singleton mappings m ih =>
    obtain ⟨hm, hwildcard⟩ := hplain m (by simp)
    have hbefore := ih fun m' h => hplain m' (List.mem_append_left _ h)
    have hmatches := hm.toPath_matches hpath
    have hlength := hm.pmPathlen_toPath
    have htable : table (mappings ++ [m]) = table mappings ++ [(m.fromLoc, m.toLoc)] :=
      List.map_append
    rw [List.foldl_concat, htable, deepest_concat]
    generalize hbest : mappings.foldl (considerTarget fnmatch path) BestTarget.none = best
      at hbefore ⊢
    unfold considerTarget
    rw [hwildcard, if_neg (by simp)]
    by_cases hbelow : m.toLoc <+: loc
    · rw [if_pos (hmatches.2 hbelow), if_pos hbelow, hlength]
      dsimp only
      cases hdeepest : deepest Prod.snd (table mappings) loc with
      | none =>
        rw [hdeepest] at hbefore
        have hnone : best = BestTarget.none := hbefore
        have hpos : BestTarget.none.score < (render m.toLoc).length :=
          length_render_pos hm.toLoc_ne
        rw [hnone, if_pos hpos]
        exact ⟨m, hm, rfl, rfl⟩
      | some e =>
        rw [hdeepest] at hbefore
        obtain ⟨m', hm', heq, rfl⟩ := hbefore
        have hlt := length_render_lt_iff (mem_of_deepest hdeepest).2 hbelow
        dsimp only
        by_cases hdeeper : e.2.length < m.toLoc.length
        · rw [if_pos (hlt.2 hdeeper), if_pos hdeeper]
          exact ⟨m, hm, rfl, rfl⟩
        · rw [if_neg fun h => hdeeper (hlt.1 h), if_neg hdeeper]
          exact ⟨m', hm', heq, rfl⟩
    · rw [if_neg fun h => hbelow (hmatches.1 h), if_neg hbelow]
      exact hbefore

/-- The path of the name of a place. -/
def backwardPath (mappings : List Mapping) (loc : List Text) (path : Text) : Text :=
  render (backward (table mappings) loc) ++ path.drop (render loc).length

theorem plainReverse_plain {m : Mapping} (hm : m.Plain) {path : Text} {loc : List Text}
    (hpath : Normalized path loc) (hbelow : m.toLoc <+: loc) (size : ℕ) :
    plainReverse path size m =
      if (render (move m.toLoc m.fromLoc loc) ++ path.drop (render loc).length).length + 1 < size
      then .changed (render (move m.toLoc m.fromLoc loc) ++ path.drop (render loc).length)
      else .unchanged := by
  obtain ⟨below, rfl⟩ := hbelow
  obtain ⟨s, rfl, -⟩ := hpath.exists_append
  have hdrop : (render (m.toLoc ++ below) ++ s).drop (render m.toLoc).length =
      render below ++ s := by
    rw [render_append, List.append_assoc, List.drop_left]
  have hlength : (render (m.toLoc ++ below) ++ s).length =
      (render m.toLoc).length + (render below ++ s).length := by
    rw [render_append, List.append_assoc, List.length_append]
  have htake : m.fromPath.take (render m.fromLoc).length = render m.fromLoc := by
    rw [← hm.pmPathlen_fromPath, take_pmPathlen, hm.fromPath_eq]
  unfold plainReverse
  rw [hm.pmPathlen_toPath, hm.pmPathlen_fromPath, if_pos (by omega), htake, hdrop, hlength,
    Nat.add_sub_cancel_left, move_append, List.drop_left, render_append, List.append_assoc]
  simp only [List.length_append]

/-- **The names of places.**  A normalized path below a place where a directory is kept gets
the name of the deepest of them, as far as the buffer has room; every other path is left
alone, and nothing but the path is read. -/
theorem pmApplyReverseMappingWithConfig_plain (fnmatch : Fnmatch) {size : ℕ}
    {config : MappingConfig}
    (hplain : ∀ m ∈ config.mappings, m.Plain ∧ hasWildcard m.toPath = false) {path : Text}
    {loc : List Text} (hpath : Normalized path loc) (hsize : 2 ≤ size) :
    pmApplyReverseMappingWithConfig fnmatch path size config =
      if (∃ e ∈ table config.mappings, e.2 <+: loc) ∧
        (backwardPath config.mappings loc path).length + 1 < size
      then .changed (backwardPath config.mappings loc path) else .unchanged := by
  have hne : path ≠ [] := by
    intro hnil
    have hhead := hpath.head?
    rw [hnil] at hhead
    exact absurd hhead (by simp)
  have hchosen := chosenTarget_foldl fnmatch hpath hplain
  unfold pmApplyReverseMappingWithConfig
  rw [if_neg hne, if_neg (by omega)]
  cases hdeepest : deepest Prod.snd (table config.mappings) loc with
  | none =>
    rw [hdeepest] at hchosen
    have hnone : config.mappings.foldl (considerTarget fnmatch path) BestTarget.none =
        BestTarget.none := hchosen
    rw [hnone, if_neg]
    · rfl
    · rintro ⟨⟨e, he, hbelow⟩, -⟩
      exact deepest_eq_none_iff.1 hdeepest e he hbelow
  | some e =>
    rw [hdeepest] at hchosen
    obtain ⟨m, hm, rfl, hbest⟩ := hchosen
    obtain ⟨hmem, hbelow⟩ := mem_of_deepest hdeepest
    have hbackward : backward (table config.mappings) loc = move m.toLoc m.fromLoc loc :=
      backward_of_deepest hdeepest
    have hkept : ∃ e ∈ table config.mappings, e.2 <+: loc := ⟨_, hmem, hbelow⟩
    rw [hbest, backwardPath, hbackward, reverseBest]
    dsimp only
    rw [if_neg (by simp), plainReverse_plain hm hpath hbelow]
    simp only [hkept, true_and]

theorem backward_proper {mappings : List Mapping} {loc : List Text}
    (hloc : ∀ name ∈ loc, Proper name) :
    ∀ name ∈ backward (table mappings) loc, Proper name := by
  intro name hname
  cases hdeepest : deepest Prod.snd (table mappings) loc with
  | none =>
    unfold backward at hname
    rw [hdeepest] at hname
    exact hloc name hname
  | some e =>
    obtain ⟨m, -, rfl⟩ := List.mem_map.1 (mem_of_deepest hdeepest).1
    rw [backward_of_deepest hdeepest] at hname
    rcases List.mem_append.1 hname with hfrom | hrest
    · exact m.proper_of_mem_fromLoc hfrom
    · exact hloc name (List.drop_subset _ _ hrest)

theorem normalized_backwardPath {mappings : List Mapping} {loc : List Text} {path : Text}
    (hpath : Normalized path loc) (hne : backward (table mappings) loc ≠ []) :
    Normalized (backwardPath mappings loc path) (backward (table mappings) loc) := by
  refine ⟨backward_proper hpath.proper, ?_⟩
  obtain ⟨s, rfl, hs⟩ := hpath.exists_append
  rw [backwardPath, List.drop_left]
  rcases hs with rfl | rfl
  · exact .inl (by rw [List.append_nil, pathOf_of_ne_nil hne])
  · exact .inr rfl

/-- **What has been mapped is found back**, when no target lies below another one: the path is
the one it was. -/
theorem reverse_of_forward {fnmatch : Fnmatch} {size size' : ℕ} {config : MappingConfig}
    (hplain : ∀ m ∈ config.mappings, m.Plain ∧ hasWildcard m.toPath = false)
    (hapart : Apart ((table config.mappings).map Prod.snd)) {path out : Text} {loc : List Text}
    (hpath : Normalized path loc)
    (h : pmApplyMappingWithConfig fnmatch path size config = some out)
    (hroom : path.length + 1 < size') :
    pmApplyReverseMappingWithConfig fnmatch out size' config = .changed path := by
  rw [pmApplyMappingWithConfig_plain fnmatch size (fun m hm => (hplain m hm).1) hpath] at h
  split_ifs at h with hor
  cases h
  rw [not_or] at hor
  obtain ⟨hmoved, -⟩ := hor
  have hkept := kept_of_forward hmoved
  have hfree : ¬∃ e ∈ table config.mappings, e.2 <+: loc :=
    fun h => hmoved (forward_of_kept h)
  have hne : forward (table config.mappings) loc ≠ [] := by
    obtain ⟨e, he, hbelow⟩ := hkept
    obtain ⟨m, hm, rfl⟩ := List.mem_map.1 he
    intro hnil
    rw [hnil] at hbelow
    exact (hplain m hm).1.toLoc_ne (List.prefix_nil.1 hbelow)
  obtain ⟨s, rfl, hs⟩ := hpath.exists_append
  have hback : backwardPath config.mappings (forward (table config.mappings) loc)
      (forwardPath config.mappings loc (render loc ++ s)) = render loc ++ s := by
    rw [backwardPath, forwardPath, backward_forward hapart hfree, List.drop_left, List.drop_left]
  have hpos : 0 < (render loc ++ s).length := by
    refine List.length_pos_of_ne_nil fun hnil => ?_
    have hhead := hpath.head?
    rw [hnil] at hhead
    exact absurd hhead (by simp)
  rw [pmApplyReverseMappingWithConfig_plain fnmatch hplain
    (normalized_forwardPath hpath hne) (by omega), hback, if_pos ⟨hkept, hroom⟩]

/-- `/usr/lib` is mapped to `/app/lib` and comes back. -/
theorem reverse_of_forward_usr :
    pmApplyReverseMappingWithConfig (fun _ _ => false) "/app/lib".toList MAX_PATH usrConfig =
      .changed "/usr/lib".toList :=
  @reverse_of_forward _ MAX_PATH MAX_PATH usrConfig plain_usrConfig (by unfold Apart; decide) _ _
    ["usr".toList, "lib".toList] ⟨by decide, .inl (by decide)⟩ (by decide) (by decide)

/-- **A real path that has a name is found by it**, when the directories and their places all
lie apart. -/
theorem forward_of_reverse {fnmatch : Fnmatch} {size size' : ℕ} {config : MappingConfig}
    (hplain : ∀ m ∈ config.mappings, m.Plain ∧ hasWildcard m.toPath = false)
    (hapart : Apart ((table config.mappings).map Prod.fst ++
      (table config.mappings).map Prod.snd)) {path out : Text} {loc : List Text}
    (hpath : Normalized path loc) (hsize : 2 ≤ size)
    (h : pmApplyReverseMappingWithConfig fnmatch path size config = .changed out)
    (hroom : path.length + 1 < size') :
    pmApplyMappingWithConfig fnmatch out size' config = some path := by
  rw [pmApplyReverseMappingWithConfig_plain fnmatch hplain hpath hsize] at h
  split_ifs at h with hkept
  cases h
  obtain ⟨hkept, -⟩ := hkept
  have hback := forward_backward hapart hkept
  have hname : ∃ e ∈ table config.mappings, e.1 <+: backward (table config.mappings) loc := by
    obtain ⟨e, he, hbelow⟩ := hkept
    have hdeepest := deepest_of_apart (List.pairwise_append.1 hapart).2.1 he hbelow
    exact ⟨e, he, backward_of_deepest hdeepest ▸ prefix_move _ _ _⟩
  have hne : backward (table config.mappings) loc ≠ [] := by
    obtain ⟨e, he, hbelow⟩ := hname
    obtain ⟨m, hm, rfl⟩ := List.mem_map.1 he
    intro hnil
    rw [hnil] at hbelow
    exact (hplain m hm).1.fromLoc_ne (List.prefix_nil.1 hbelow)
  have hmoved : forward (table config.mappings) (backward (table config.mappings) loc) ≠
      backward (table config.mappings) loc := by
    -- a location below both a directory and a place cannot be, for these lie apart
    intro hsame
    rw [hback] at hsame
    obtain ⟨e, he, hbelow⟩ := hname
    obtain ⟨d, hd, hbelow'⟩ := hkept
    rw [← hsame] at hbelow
    have happart' := (List.pairwise_append.1 hapart).2.2 _ (List.mem_map_of_mem he) _
      (List.mem_map_of_mem hd)
    exact not_or.2 happart' (List.prefix_or_prefix_of_prefix hbelow hbelow')
  obtain ⟨s, rfl, hs⟩ := hpath.exists_append
  have hforward : forwardPath config.mappings (backward (table config.mappings) loc)
      (backwardPath config.mappings loc (render loc ++ s)) = render loc ++ s := by
    rw [forwardPath, backwardPath, hback, List.drop_left, List.drop_left]
  rw [pmApplyMappingWithConfig_plain fnmatch size' (fun m hm => (hplain m hm).1)
    (normalized_backwardPath hpath hne), hforward, if_neg (not_or.2 ⟨hmoved, by omega⟩)]

/-- `/app/lib` is renamed to `/usr/lib`, and found by this name. -/
theorem forward_of_reverse_usr :
    pmApplyMappingWithConfig (fun _ _ => false) "/usr/lib".toList MAX_PATH usrConfig =
      some "/app/lib".toList :=
  @forward_of_reverse _ MAX_PATH MAX_PATH usrConfig plain_usrConfig (by unfold Apart; decide) _ _
    ["app".toList, "lib".toList] ⟨by decide, .inl (by decide)⟩ (by decide) (by decide) (by decide)

/-! ### Patterns -/

theorem putSeparator_of_slash {size : ℕ} {out : Text} (h : out.getLast? = some '/') :
    putSeparator size out = some out := if_neg fun hne => hne.2 h

/-- Every star of a pattern stands for a whole segment, or for all segments at the end: there is
a slash before it, and a slash or nothing behind it. -/
def Aligned : Option Char → Text → Prop
  | _, [] => True
  | prev, c :: pattern =>
    (c = '*' → prev = some '/' ∧ (pattern = [] ∨ pattern.head? = some '/')) ∧
      Aligned (some c) pattern

instance Aligned.decidable : ∀ (prev : Option Char) (pattern : Text),
    Decidable (Aligned prev pattern)
  | _, [] => .isTrue trivial
  | _, c :: pattern =>
    have : Decidable (Aligned (some c) pattern) := Aligned.decidable (some c) pattern
    inferInstanceAs (Decidable (_ ∧ _))

/-- The literal behind a star that is followed by a slash, or by nothing. -/
theorem head_splitOn {pattern : Text} (h : pattern = [] ∨ pattern.head? = some '/') :
    ∃ next rest, pattern.splitOn '*' = next :: rest ∧
      (next.head? = some '/' ∨ next = [] ∧ rest = []) := by
  cases pattern with
  | nil => exact ⟨[], [], rfl, .inr ⟨rfl, rfl⟩⟩
  | cons c pattern =>
    have hc : c = '/' := Option.some.inj (h.resolve_left (List.cons_ne_nil c pattern))
    obtain ⟨next, rest, hsplit⟩ := List.exists_cons_of_ne_nil (List.splitOn_ne_nil '*' pattern)
    refine ⟨c :: next, rest, ?_, .inl (by rw [hc]; rfl)⟩
    rw [splitOn_cons_of_ne (by rw [hc]; decide), hsplit, List.modifyHead_cons]

theorem Aligned.wholeSegments {pattern : Text} :
    ∀ {prev : Option Char}, Aligned prev pattern → WholeSegments (pattern.splitOn '*') := by
  induction pattern with
  | nil => exact fun _ => trivial
  | cons c pattern ih =>
    rintro prev ⟨hstar, hrest⟩
    have hsegments := ih hrest
    by_cases hc : c = '*'
    · subst hc
      obtain ⟨next, rest, hsplit, hnext⟩ := head_splitOn (hstar rfl).2
      rw [splitOn_star_cons, hsplit]
      exact ⟨hnext, hsplit ▸ hsegments⟩
    · obtain ⟨next, rest, hsplit⟩ := List.exists_cons_of_ne_nil (List.splitOn_ne_nil '*' pattern)
      rw [splitOn_cons_of_ne hc, hsplit, List.modifyHead_cons]
      rw [hsplit] at hsegments
      cases rest with
      | nil => trivial
      | cons next' rest => exact hsegments

/-- Nothing is put before or behind a part that stands for whole segments. -/
theorem fillFrom_weave {size : ℕ} {prev : Option Char} {out source : Text} {caps : List Capture}
    (haligned : Aligned prev source) (hprev : prev = some '/' → out.getLast? = some '/')
    (hclean : ∀ cap ∈ caps, cap.Clean)
    (hstars : (source.splitOn '*').length = caps.length + 1)
    (hroom : (out ++ weave (source.splitOn '*') (caps.map Capture.text)).length < size) :
    fillFrom size out source caps =
      some (out ++ weave (source.splitOn '*') (caps.map Capture.text)) := by
  fun_induction fillFrom size out source caps generalizing prev with
  | case1 out caps =>
    have hnil : caps = [] := List.length_eq_zero_iff.1 (by simpa using hstars.symm)
    rw [hnil, List.splitOn_nil, List.map_nil]
    simp [weave]
  | case2 out source cap caps ih =>
    obtain ⟨hcap, hrest⟩ := List.forall_mem_cons.1 hclean
    obtain ⟨hstar, haligned⟩ := haligned
    obtain ⟨hslash, hsource⟩ := hstar rfl
    have htext : weave (('*' :: source).splitOn '*') ((cap :: caps).map Capture.text) =
        cap.text ++ weave (source.splitOn '*') (caps.map Capture.text) := by
      rw [splitOn_star_cons, List.map_cons, weave, List.nil_append]
    have hcount : (source.splitOn '*').length = caps.length + 1 := by
      rw [splitOn_star_cons, List.length_cons, List.length_cons] at hstars
      omega
    have hbefore : (if cap.start.head? ≠ some '/' then putSeparator size out else some out) =
        some out := by
      rw [putSeparator_of_slash (hprev hslash), ite_self]
    have hlength := hcap.length_text
    rw [htext] at hroom ⊢
    have hpart : ¬size ≤ out.length + cap.len := by
      simp only [List.length_append] at hroom
      omega
    rw [hbefore, Option.bind_some, putPart, if_neg hpart, Option.bind_some, if_pos hsource,
      Option.bind_some, ih _ haligned (by simp) hrest hcount (by rwa [List.append_assoc]),
      List.append_assoc]
  | case3 out c source caps hfilled ih =>
    -- a star would have a part to be replaced by
    have hstar : c ≠ '*' := by
      rintro rfl
      rw [splitOn_star_cons, List.length_cons] at hstars
      have hpos : 0 < (source.splitOn '*').length :=
        List.length_pos_of_ne_nil (List.splitOn_ne_nil _ _)
      cases caps with
      | nil => rw [List.length_nil] at hstars; omega
      | cons cap caps => exact hfilled cap caps rfl rfl
    have htext : weave ((c :: source).splitOn '*') (caps.map Capture.text) =
        c :: weave (source.splitOn '*') (caps.map Capture.text) := by
      rw [splitOn_cons_of_ne hstar, weave_modifyHead _ (List.splitOn_ne_nil _ _)]
    have hcount : (source.splitOn '*').length = caps.length + 1 := by
      rwa [splitOn_cons_of_ne hstar, List.length_modifyHead] at hstars
    have hlast : some c = some '/' → (out ++ [c]).getLast? = some '/' := by
      intro hc
      rw [List.getLast?_concat, hc]
    rw [htext] at hroom ⊢
    have hfull : ¬size ≤ out.length + 1 := by
      simp only [List.length_append, List.length_cons] at hroom
      omega
    rw [putChar, if_neg hfull, Option.bind_some, ih _ haligned.2 hlast hclean hcount
      (by rwa [List.append_assoc, List.singleton_append]), List.append_assoc,
      List.singleton_append]

/-- No score is longer than the path. -/
theorem score_foldl_le (fnmatch : Fnmatch) (path : Text) (mappings : List Mapping) :
    (mappings.foldl (considerTarget fnmatch path) BestTarget.none).score ≤ path.length := by
  have hkeeps : ∀ (best : BestTarget) (m : Mapping), best.score ≤ path.length →
      (considerTarget fnmatch path best m).score ≤ path.length := by
    intro best m h
    unfold considerTarget
    split_ifs with hglob hmatches
    · dsimp only
      split_ifs
      · exact le_rfl
      · exact h
    · dsimp only
      split_ifs
      · exact pmPathlen_le_of_matches hmatches
      · exact h
    · exact h
  exact foldl_keeps hkeeps (Nat.zero_le _) mappings

/-- A target that takes the whole path is not given up for a directory. -/
theorem considerTarget_plain {fnmatch : Fnmatch} {path : Text} {best : BestTarget}
    (hbest : best.score = path.length) {m : Mapping} (hm : hasWildcard m.toPath = false) :
    considerTarget fnmatch path best m = best := by
  unfold considerTarget
  rw [hm, if_neg (by simp)]
  split_ifs with hmatches
  · have hle := pmPathlen_le_of_matches hmatches
    dsimp only
    rw [if_neg (by omega)]
  · rfl

theorem weave_ne_nil {literals parts : List Text} (hlength : 2 < literals.length)
    (hparts : Parts literals parts) (hne : ∀ part ∈ parts, part ≠ []) :
    weave literals parts ≠ [] := by
  match literals, parts, hparts with
  | [literal], _, _ => exact absurd hlength (by simp)
  | literal :: next :: rest, part :: parts, _ =>
    rw [weave]
    simp [hne part List.mem_cons_self]

/-- What the stars of a target stand for, where each stands for whole segments. -/
theorem targetCaptures_weave {pattern : Text} {parts : List Text}
    (honly : '?' ∉ pattern ∧ '[' ∉ pattern) (hseveral : 2 < (pattern.splitOn '*').length)
    (hatMost : (pattern.splitOn '*').length ≤ 9) (haligned : Aligned none pattern)
    (hparts : Parts (pattern.splitOn '*') parts)
    (hclean : ∀ part ∈ parts, part ≠ [] ∧ part.getLast? ≠ some '/') :
    ∃ caps, targetCaptures pattern (weave (pattern.splitOn '*') parts) = some caps ∧
      caps.map Capture.text = parts ∧ (∀ cap ∈ caps, cap.Clean) ∧
      caps.length + 1 = (pattern.splitOn '*').length := by
  obtain ⟨caps, hcaps, hmap⟩ := captureFrom_weave haligned.wholeSegments hparts
  refine ⟨caps, ?_, hmap, clean_of_captureFrom hcaps hmap hclean, length_captureFrom hcaps⟩
  rw [targetCaptures, if_pos ⟨star_mem_of_splitOn (by omega), honly⟩,
    pmCaptureStars_eq honly _ hatMost, hcaps]

/-- A target that takes the whole path is the best one, whatever targets come before it, if those
that come after it are plain. -/
theorem foldl_considerTarget {fnmatch : Fnmatch} {path : Text} {m : Mapping} {caps : List Capture}
    (hwildcard : hasWildcard m.toPath = true) (hcaps : targetCaptures m.toPath path = some caps)
    (before : List Mapping) {after : List Mapping}
    (hafter : ∀ m' ∈ after, hasWildcard m'.toPath = false) :
    (before ++ m :: after).foldl (considerTarget fnmatch path) BestTarget.none =
      ⟨some m, path.length, caps⟩ := by
  have hconsider : ∀ best : BestTarget, best.score ≤ path.length →
      considerTarget fnmatch path best m = ⟨some m, path.length, caps⟩ := by
    intro best hbest
    unfold considerTarget
    rw [hwildcard, if_pos rfl]
    dsimp only
    rw [hcaps, if_pos ⟨.inl rfl, hbest⟩]
    rfl
  rw [List.foldl_append, List.foldl_cons, hconsider _ (score_foldl_le fnmatch path before)]
  exact foldl_still fun m' hm' => considerTarget_plain rfl (hafter m' hm')

/-- **A path that a pattern maps is found back**, when the stars of the pattern and of its target
stand for whole segments: it gets the target with its parts, and the parts that are read off
this are those that were put there. -/
theorem reverse_of_forward_stars {fnmatch : Fnmatch} {size size' : ℕ} {config : MappingConfig}
    {before after : List Mapping} {m : Mapping} (hmappings : config.mappings = before ++ m :: after)
    (hm : m.Stars) (hto : '?' ∉ m.toPath ∧ '[' ∉ m.toPath)
    (haligned : Aligned none m.fromPath ∧ Aligned none m.toPath)
    (hafter : ∀ m' ∈ after, m'.isGlob = false ∧ hasWildcard m'.toPath = false) {parts : List Text}
    (hparts : Parts (m.fromPath.splitOn '*') parts ∧ Parts (m.toPath.splitOn '*') parts)
    (hclean : ∀ part ∈ parts, part ≠ [] ∧ part.getLast? ≠ some '/')
    (hkept : ∀ m' ∈ config.mappings,
      pmPathPrefixMatches m'.toPath (weave (m.fromPath.splitOn '*') parts) = false)
    (hfits : (weave (m.toPath.splitOn '*') parts).length < size)
    (hsize' : 2 ≤ size') (hroom : (weave (m.fromPath.splitOn '*') parts).length < size') :
    pmApplyMappingWithConfig fnmatch (weave (m.fromPath.splitOn '*') parts) size config =
        some (weave (m.toPath.splitOn '*') parts) ∧
      pmApplyReverseMappingWithConfig fnmatch (weave (m.toPath.splitOn '*') parts) size' config =
        .changed (weave (m.fromPath.splitOn '*') parts) := by
  refine ⟨?_, ?_⟩
  · rw [pmApplyMappingWithConfig_stars fnmatch size hmappings hm (fun m' h => (hafter m' h).1)
      hparts.1 hclean hkept (by omega), if_pos hfits]
  have hseveral := hm.several
  have htarget := hm.target
  have hatMost := hm.atMost
  obtain ⟨caps, hcaptures, hmap, hclean', hcount⟩ :=
    targetCaptures_weave hto (by omega) (by omega) haligned.2 hparts.2 hclean
  have hpathne : weave (m.toPath.splitOn '*') parts ≠ [] :=
    weave_ne_nil (by omega) hparts.2 fun part hpart => (hclean part hpart).1
  generalize hpath : weave (m.toPath.splitOn '*') parts = path at *
  have hbest : config.mappings.foldl (considerTarget fnmatch path) BestTarget.none =
      ⟨some m, path.length, caps⟩ := by
    rw [hmappings]
    exact foldl_considerTarget (hasWildcard_of_star (star_mem_of_splitOn (by omega))) hcaptures
      before fun m' hm' => (hafter m' hm').2
  have hne : caps ≠ [] := by
    rintro rfl
    rw [List.length_nil] at hcount
    omega
  have hstar : '*' ∈ m.fromPath := star_mem_of_splitOn (by omega)
  have hfill : fillFrom size' [] m.fromPath caps =
      some (weave (m.fromPath.splitOn '*') parts) := by
    rw [fillFrom_weave haligned.1 (by simp) hclean' (by omega) (by rwa [List.nil_append, hmap]),
      List.nil_append, hmap]
  unfold pmApplyReverseMappingWithConfig
  rw [if_neg hpathne, if_neg (by omega), hbest, reverseBest]
  dsimp only
  rw [if_pos ⟨hne, hstar⟩, hfill]
  rfl

/-! ### What is read -/

/-- What `fnmatch` does with `FNM_PATHNAME`, for a pattern in which nothing is special but stars:
each of them stands for some part without a slash. -/
def Fnmatch.Divides (fnmatch : Fnmatch) : Prop :=
  ∀ pattern path : Text, '?' ∉ pattern ∧ '[' ∉ pattern → '\\' ∉ pattern →
    fnmatch pattern path = true → ∃ parts, Parts (pattern.splitOn '*') parts ∧
      weave (pattern.splitOn '*') parts = path

/-- The target has no wildcards, or stars whose parts can be told and put into FROM. -/
def Mapping.Readable (m : Mapping) : Prop :=
  hasWildcard m.toPath = false ∨
    ('?' ∉ m.toPath ∧ '[' ∉ m.toPath) ∧ '\\' ∉ m.toPath ∧
      WholeSegments (m.toPath.splitOn '*') ∧ '*' ∈ m.fromPath

/-- There are parts to put into FROM, or the target is no longer than the path. -/
def BestTarget.Fits (path : Text) (best : BestTarget) : Prop :=
  ∀ m, best.mapping = some m →
    best.caps ≠ [] ∧ '*' ∈ m.fromPath ∨ pmPathlen m.toPath ≤ path.length

theorem star_mem_of_hasWildcard {s : Text} (h : hasWildcard s = true) (honly : '?' ∉ s ∧ '[' ∉ s) :
    '*' ∈ s := by
  obtain ⟨c, hc, hwild⟩ := List.any_eq_true.1 h
  simp only [Bool.or_eq_true, decide_eq_true_eq] at hwild
  rcases hwild with (rfl | rfl) | rfl
  · exact hc
  · exact absurd hc honly.1
  · exact absurd hc honly.2

/-- A target that matches has parts for its stars. -/
theorem targetCaptures_readable {fnmatch : Fnmatch} (hfnmatch : fnmatch.Divides)
    {pattern path : Text} (honly : '?' ∉ pattern ∧ '[' ∉ pattern) (hescape : '\\' ∉ pattern)
    (hsegments : WholeSegments (pattern.splitOn '*')) (hstar : '*' ∈ pattern)
    (hmatches : (targetCaptures pattern path).isSome ∨ fnmatch pattern path = true) :
    (targetCaptures pattern path).getD [] ≠ [] := by
  have hcaptures : targetCaptures pattern path =
      (captureFrom path (pattern.splitOn '*')).map (·.take 8) := by
    rw [targetCaptures, if_pos ⟨hstar, honly⟩, pmCaptureStars, if_neg (not_or.2 honly)]
  obtain ⟨caps, hcaps⟩ : ∃ caps, captureFrom path (pattern.splitOn '*') = some caps := by
    rcases hmatches with hsome | hmatch
    · rw [hcaptures, Option.isSome_map] at hsome
      exact Option.isSome_iff_exists.1 hsome
    · obtain ⟨parts, hparts, rfl⟩ := hfnmatch pattern path honly hescape hmatch
      obtain ⟨caps, hcaps, -⟩ := captureFrom_weave hsegments hparts
      exact ⟨caps, hcaps⟩
  have hlength := length_captureFrom hcaps
  have hseveral : 2 ≤ (pattern.splitOn '*').length := by
    obtain ⟨before, behind, rfl, hbefore⟩ := List.eq_append_cons_of_mem hstar
    rw [List.splitOn_append_cons_self_of_not_mem hbefore, List.length_cons]
    have hpos := List.length_pos_of_ne_nil (List.splitOn_ne_nil '*' behind)
    omega
  rw [hcaptures, hcaps, Option.map_some, Option.getD_some]
  intro hnil
  have hempty := congrArg List.length hnil
  rw [List.length_take, List.length_nil] at hempty
  omega

theorem considerTarget_fits {fnmatch : Fnmatch} (hfnmatch : fnmatch.Divides) {path : Text}
    {best : BestTarget} (hbest : best.Fits path) {m : Mapping} (hm : m.Readable) :
    (considerTarget fnmatch path best m).Fits path := by
  unfold considerTarget
  split_ifs with hwildcard hmatches
  · rcases hm with hplain | ⟨honly, hescape, hsegments, hfrom⟩
    · exact absurd hwildcard (by rw [hplain]; exact Bool.false_ne_true)
    · dsimp only
      split_ifs with htaken
      · intro m' hm'
        cases hm'
        exact .inl ⟨targetCaptures_readable hfnmatch honly hescape hsegments
          (star_mem_of_hasWildcard hwildcard honly) htaken.1, hfrom⟩
      · exact hbest
  · dsimp only
    split_ifs
    · intro m' hm'
      cases hm'
      exact .inr (pmPathlen_le_of_matches hmatches)
    · exact hbest
  · exact hbest

/-- **Nothing but the path is read**, where every target with wildcards has stars whose parts can
be told and put into FROM. -/
theorem pmApplyReverseMappingWithConfig_ne_overrun {fnmatch : Fnmatch} (hfnmatch : fnmatch.Divides)
    {config : MappingConfig} (hreadable : ∀ m ∈ config.mappings, m.Readable) (path : Text)
    (size : ℕ) : pmApplyReverseMappingWithConfig fnmatch path size config ≠ .overrun := by
  have hfits : (config.mappings.foldl (considerTarget fnmatch path) BestTarget.none).Fits path := by
    refine List.foldlRecOn _ _ ?_ fun best hbest m hm =>
      considerTarget_fits hfnmatch hbest (hreadable m hm)
    intro m hm
    cases hm
  unfold pmApplyReverseMappingWithConfig
  split_ifs
  · exact Reversed.noConfusion
  · exact Reversed.noConfusion
  · unfold reverseBest
    split
    · exact Reversed.noConfusion
    · rename_i m hmapping
      split_ifs with hparts
      · cases fillFrom size [] m.fromPath _ <;> exact Reversed.noConfusion
      · have hlength := (hfits m hmapping).resolve_left hparts
        unfold plainReverse
        dsimp only
        rw [if_pos hlength]
        split_ifs <;> exact Reversed.noConfusion

/-- `PATH_MAPPING=/opt/*/lib/*:/app/*/so/*`. -/
def optMapping : Mapping := ⟨"/opt/*/lib/*".toList, "/app/*/so/*".toList, true⟩

theorem opt_le : [optMapping].length ≤ LIMIT := by decide

theorem opt_glob : ∀ m ∈ [optMapping], m.isGlob = hasWildcard m.fromPath := by decide

def optConfig : MappingConfig where
  mappings := [optMapping]
  excludes := []
  mappings_le := opt_le
  excludes_le := Nat.zero_le _
  mappings_glob := opt_glob
  excludes_glob := noExcludes_glob

/-- `/opt/foo/lib/x/y` is mapped to `/app/foo/so/x/y` and comes back. -/
theorem reverse_of_forward_stars_opt :
    pmApplyMappingWithConfig (fun _ _ => false) "/opt/foo/lib/x/y".toList MAX_PATH optConfig =
        some "/app/foo/so/x/y".toList ∧
      pmApplyReverseMappingWithConfig (fun _ _ => false) "/app/foo/so/x/y".toList MAX_PATH
        optConfig = .changed "/opt/foo/lib/x/y".toList := by
  have haligned : Aligned none optMapping.fromPath ∧ Aligned none optMapping.toPath := by decide
  have hsplit : optMapping.fromPath.splitOn '*' = ["/opt/".toList, "/lib/".toList, []] := by decide
  have hsplit' : optMapping.toPath.splitOn '*' = ["/app/".toList, "/so/".toList, []] := by decide
  have hparts : ∀ literal literal' : Text,
      Parts [literal, literal', []] ["foo".toList, "x/y".toList] := fun _ _ =>
    ⟨fun h => absurd h (by decide), fun _ => ⟨rfl, rfl⟩, rfl⟩
  have hstars : optMapping.Stars :=
    ⟨by decide, by decide, by decide, haligned.1.wholeSegments, by decide⟩
  have hpath : weave (optMapping.fromPath.splitOn '*') ["foo".toList, "x/y".toList] =
      "/opt/foo/lib/x/y".toList := by decide
  have hpath' : weave (optMapping.toPath.splitOn '*') ["foo".toList, "x/y".toList] =
      "/app/foo/so/x/y".toList := by decide
  rw [← hpath, ← hpath']
  exact @reverse_of_forward_stars _ MAX_PATH MAX_PATH optConfig [] [] optMapping rfl hstars
    (by decide) haligned (by decide) _ ⟨hsplit ▸ hparts _ _, hsplit' ▸ hparts _ _⟩ (by decide)
    (by decide) (by decide) (by decide) (by decide)

end PathMap
end Sharun
