/-
# Applying a mapping

`pm_apply_mapping_with_config` of `lib/pathmap_common.h` leaves a path alone that lies below the
target of a mapping, and else looks for the mapping with the longest matching part, whether it
is a plain directory or a pattern with wildcards.  It returns the path it was given (`none`
here) where there is none, or where the result does not fit.

With plain directories alone this is a table of directories that are kept elsewhere
(`pmApplyMappingWithConfig_plain`).
-/

import Sharun.Basis.Relocate
import Sharun.Basis.Run
import Sharun.PathMap.Captures
import Sharun.PathMap.Config

namespace Sharun
namespace PathMap

open Sharun.Basis
open Sharun.Launch (Text)

/-- `pm_pathlen(path)`. -/
def pmPathlen (path : Text) : ℕ := (path.rdropWhile (· = '/')).length

/-- `pm_path_prefix_matches(prefix, path)`. -/
def pmPathPrefixMatches (pre path : Text) : Bool :=
  let prefixLen := pmPathlen pre
  (pre.take prefixLen).isPrefixOf path &&
    match path[prefixLen]? with
    | some after => after = '/'
    | none => true

/-- `fnmatch(pattern, path, FNM_PATHNAME) == 0`. -/
abbrev Fnmatch := Text → Text → Bool

/-- `pm_is_excluded_prefix(abs_path, config)`. -/
def pmIsExcludedPrefix (fnmatch : Fnmatch) (absPath : Text) (config : MappingConfig) : Bool :=
  absPath.head? = some '/' && config.excludes.any fun e =>
    if e.isGlob then fnmatch e.pattern absPath else pmPathPrefixMatches e.pattern absPath

/-- The variables `best_…`. -/
structure Best where
  mapping : Option Mapping
  matchLen : ℕ
  tail : Text
  hasCapturedTail : Bool
  caps : List Capture

def Best.none : Best := ⟨.none, 0, [], false, []⟩

/-- The only star of a pattern without other wildcards: what is before it and behind it. -/
def singleStar (pattern : Text) : Option (Text × Text) :=
  let before := pattern.takeWhile (· ≠ '*')
  let behind := (pattern.dropWhile (· ≠ '*')).tail
  if '*' ∈ pattern ∧ '*' ∉ behind ∧ '?' ∉ pattern ∧ '[' ∉ pattern then some (before, behind)
  else .none

/-- The part of the path behind the text before a star that the star takes. -/
def starPart (captured behind : Text) : ℕ :=
  if behind = [] then captured.length else (captured.takeWhile (· ≠ '/')).length

/-- The captures of a pattern that is no single star, `none` for a `capcount` of -1. -/
def globCaptures (pattern path : Text) : Option (List Capture) :=
  if '*' ∈ pattern ∧ '?' ∉ pattern ∧ '[' ∉ pattern then pmCaptureStars pattern path 8 else some []

/-- The body of the loop over the mappings. -/
def considerMapping (fnmatch : Fnmatch) (path : Text) (best : Best) (m : Mapping) : Best :=
  if m.isGlob then
    match singleStar m.fromPath with
    | some (before, behind) =>
      if before.isPrefixOf path ∧ best.matchLen ≤ before.length then
        let captured := path.drop before.length
        ⟨some m, before.length, captured, true, [⟨captured, starPart captured behind⟩]⟩
      else best
    | .none =>
      let captures := globCaptures m.fromPath path
      if (captures.isSome ∨ fnmatch m.fromPath path) ∧ best.matchLen ≤ path.length then
        ⟨some m, path.length, [], false, captures.getD []⟩
      else best
  else if pmPathPrefixMatches m.fromPath path then
    let fromLen := pmPathlen m.fromPath
    if best.matchLen < fromLen then
      -- the captures of an earlier choice stay
      ⟨some m, fromLen, path.drop fromLen, false, best.caps⟩
    else best
  else best

/-- `out[pos++] = c`, where there is room. -/
def putChar (size : ℕ) (out : Text) (c : Char) : Option Text :=
  if size ≤ out.length + 1 then none else some (out ++ [c])

/-- A slash is put behind what is there, unless it ends in one. -/
def putSeparator (size : ℕ) (out : Text) : Option Text :=
  if out ≠ [] ∧ out.getLast? ≠ some '/' then putChar size out '/' else some out

/-- A part of the path is put behind what is there. -/
def putPart (size : ℕ) (out : Text) (cap : Capture) : Option Text :=
  if size ≤ out.length + cap.len then none else some (out ++ cap.text)

/-- A slash is put before a part that starts a segment of the target. -/
def putBefore (size : ℕ) (prev : Option Char) (out : Text) (cap : Capture) : Option Text :=
  if cap.start.head? ≠ some '/' ∧ prev = some '/' then putSeparator size out else some out

/-- The loop that puts the captures in place of the stars of a target; `prev` is the character
of the target before. -/
def fillStars (size : ℕ) (prev : Option Char) (out : Text) : Text → List Capture → Option Text
  | [], _ => some out
  | '*' :: '/' :: target, cap :: caps =>
    (putBefore size prev out cap).bind fun out =>
    (putPart size out cap).bind fun out =>
    (putSeparator size out).bind fun out => fillStars size (some '/') out target caps
  | '*' :: target, cap :: caps =>
    (putBefore size prev out cap).bind fun out =>
    (putPart size out cap).bind fun out => fillStars size (some '*') out target caps
  | c :: target, caps =>
    (putChar size out c).bind fun out => fillStars size (some c) out target caps

/-- Two parts of a path, with a slash where there is none between them. -/
def joinParts (s t : Text) : Text :=
  if s ≠ [] ∧ s.getLast? ≠ some '/' ∧ t ≠ [] ∧ t.head? ≠ some '/' then s ++ '/' :: t else s ++ t

/-- The default join: the target and the tail. -/
def defaultJoin (size : ℕ) (target tail : Text) : Option Text :=
  if (joinParts target tail).length + 1 < size then some (joinParts target tail) else none

/-- The star of a target replaced by a captured tail. -/
def joinAtStar (target tail : Text) : Text :=
  let left := target.takeWhile (· ≠ '*')
  let right := (target.dropWhile (· ≠ '*')).tail
  if tail = [] then left ++ right else joinParts left (joinParts tail right)

/-- What is made of the choice. -/
def applyBest (size : ℕ) (best : Best) : Option Text :=
  best.mapping.bind fun m =>
    if best.caps ≠ [] then fillStars size none [] m.toPath best.caps
    else if best.hasCapturedTail ∧ '*' ∈ m.toPath ∧
        (joinAtStar m.toPath best.tail).length + 1 < size then
      some (joinAtStar m.toPath best.tail)
    else defaultJoin size m.toPath best.tail

/-- `pm_apply_mapping_with_config(in, out, out_size, config)`. -/
def pmApplyMappingWithConfig (fnmatch : Fnmatch) (path : Text) (size : ℕ)
    (config : MappingConfig) : Option Text :=
  if config.mappings.any fun m => pmPathPrefixMatches m.toPath path then none
  else applyBest size (config.mappings.foldl (considerMapping fnmatch path) Best.none)

/-! ### What fits -/

theorem length_of_putChar {size : ℕ} {out out' : Text} {c : Char}
    (h : putChar size out c = some out') : out'.length < size := by
  unfold putChar at h
  split_ifs at h with hfull
  cases h
  rw [List.length_append, List.length_singleton]
  omega

theorem length_of_putSeparator {size : ℕ} {out out' : Text} (hout : out.length < size)
    (h : putSeparator size out = some out') : out'.length < size := by
  unfold putSeparator at h
  split_ifs at h
  · exact length_of_putChar h
  · cases h
    exact hout

theorem length_of_putPart {size : ℕ} {out out' : Text} {cap : Capture}
    (h : putPart size out cap = some out') : out'.length < size := by
  unfold putPart at h
  split_ifs at h with hfull
  cases h
  have htext : cap.text.length ≤ cap.len := List.length_take_le _ _
  rw [List.length_append]
  omega

/-- The loop never writes past the end of the buffer. -/
theorem length_of_fillStars {size : ℕ} {target : Text} {prev : Option Char} {out out' : Text}
    {caps : List Capture} (hout : out.length < size)
    (h : fillStars size prev out target caps = some out') : out'.length < size := by
  fun_induction fillStars size prev out target caps with
  | case1 prev out caps =>
    cases h
    exact hout
  | case2 prev out target cap caps ih =>
    obtain ⟨out₁, h₁, h⟩ := Option.bind_eq_some_iff.1 h
    obtain ⟨out₂, h₂, h⟩ := Option.bind_eq_some_iff.1 h
    obtain ⟨out₃, h₃, h⟩ := Option.bind_eq_some_iff.1 h
    exact ih out₃ (length_of_putSeparator (length_of_putPart h₂) h₃) h
  | case3 prev out target cap caps hslash ih =>
    obtain ⟨out₁, h₁, h⟩ := Option.bind_eq_some_iff.1 h
    obtain ⟨out₂, h₂, h⟩ := Option.bind_eq_some_iff.1 h
    exact ih out₂ (length_of_putPart h₂) h
  | case4 prev out c target caps hslash hstar ih =>
    obtain ⟨out₁, h₁, h⟩ := Option.bind_eq_some_iff.1 h
    exact ih out₁ (length_of_putChar h₁) h

/-- **The result fits into its buffer**, whatever the mappings are. -/
theorem length_of_pmApplyMappingWithConfig {fnmatch : Fnmatch} {path out : Text} {size : ℕ}
    {config : MappingConfig} (hsize : 0 < size)
    (h : pmApplyMappingWithConfig fnmatch path size config = some out) : out.length < size := by
  unfold pmApplyMappingWithConfig at h
  split_ifs at h
  obtain ⟨m, -, h⟩ := Option.bind_eq_some_iff.1 h
  split_ifs at h with hcaps hstar
  · exact length_of_fillStars (by rwa [List.length_nil]) h
  · cases h
    omega
  · unfold defaultJoin at h
    split_ifs at h with hfits
    cases h
    omega

/-! ### Plain directories -/

/-- The location of a mapping's FROM. -/
def Mapping.fromLoc (m : Mapping) : List Text := lexical [] (components m.fromPath)

/-- The location of a mapping's TO. -/
def Mapping.toLoc (m : Mapping) : List Text := lexical [] (components m.toPath)

/-- A mapping of one directory to another one, neither of them the root.  There may be slashes
behind FROM. -/
structure Mapping.Plain (m : Mapping) : Prop where
  notGlob : m.isGlob = false
  fromPath_eq : m.fromPath.rdropWhile (· = '/') = render m.fromLoc
  toPath_eq : m.toPath = render m.toLoc
  fromLoc_ne : m.fromLoc ≠ []
  toLoc_ne : m.toLoc ≠ []

/-- Where the directories of the mappings are kept. -/
def table (mappings : List Mapping) : List (List Text × List Text) :=
  mappings.map fun m => (m.fromLoc, m.toLoc)

theorem Mapping.proper_of_mem_fromLoc {m : Mapping} {name : Text} (h : name ∈ m.fromLoc) :
    Proper name := proper_of_mem_lexical (fun _ h => absurd h List.not_mem_nil) h

theorem Mapping.proper_of_mem_toLoc {m : Mapping} {name : Text} (h : name ∈ m.toLoc) :
    Proper name := proper_of_mem_lexical (fun _ h => absurd h List.not_mem_nil) h

theorem take_pmPathlen (pre : Text) : pre.take (pmPathlen pre) = pre.rdropWhile (· = '/') :=
  (List.prefix_iff_eq_take.1 (List.rdropWhile_prefix _ _)).symm

/-- A location's names do not end in a slash. -/
theorem rdropWhile_render {loc : List Text} (hloc : ∀ name ∈ loc, Proper name) :
    (render loc).rdropWhile (· = '/') = render loc := by
  rw [List.rdropWhile_eq_self_iff]
  intro hne hlast
  rcases List.eq_nil_or_concat' loc with rfl | ⟨before, name, rfl⟩
  · exact hne rfl
  · rw [decide_eq_true_eq] at hlast
    have hname := (hloc name (by simp)).getLast?_append (render before ++ ['/'])
    rw [← render_concat, List.getLast?_eq_getLast_of_ne_nil hne, hlast] at hname
    exact hname rfl

/-- **A directory's text is the start of a path**, up to a slash or its end, when the path's
location lies below the directory's. -/
theorem pmPathPrefixMatches_iff {pre path : Text} {loc loc' : List Text}
    (hpre : pre.rdropWhile (· = '/') = render loc') (hloc' : ∀ name ∈ loc', Proper name)
    (hpath : Normalized path loc) :
    pmPathPrefixMatches pre path = true ↔ loc' <+: loc := by
  have hlength : pmPathlen pre = (render loc').length := by rw [pmPathlen, hpre]
  obtain ⟨s, rfl, hs⟩ := hpath.exists_append
  unfold pmPathPrefixMatches
  dsimp only
  rw [take_pmPathlen, hpre, hlength, Bool.and_eq_true, List.isPrefixOf_iff_prefix]
  constructor
  · rintro ⟨⟨t, ht⟩, hafter⟩
    rw [← ht, List.getElem?_append_right le_rfl, Nat.sub_self] at hafter
    refine prefix_of_render hpath.proper hloc' hs ?_ ht
    cases t with
    | nil => exact .inl rfl
    | cons c t =>
      rw [List.getElem?_cons_zero, decide_eq_true_eq] at hafter
      exact .inr (by rw [hafter]; rfl)
  · rintro ⟨below, rfl⟩
    rw [render_append, List.append_assoc]
    refine ⟨List.prefix_append _ _, ?_⟩
    rw [List.getElem?_append_right le_rfl, Nat.sub_self]
    cases below with
    | nil => rcases hs with rfl | rfl <;> rfl
    | cons name below => rfl

theorem Mapping.Plain.fromPath_matches {m : Mapping} (h : m.Plain) {path : Text}
    {loc : List Text} (hpath : Normalized path loc) :
    pmPathPrefixMatches m.fromPath path = true ↔ m.fromLoc <+: loc :=
  pmPathPrefixMatches_iff h.fromPath_eq (fun _ => m.proper_of_mem_fromLoc) hpath

theorem Mapping.Plain.toPath_matches {m : Mapping} (h : m.Plain) {path : Text}
    {loc : List Text} (hpath : Normalized path loc) :
    pmPathPrefixMatches m.toPath path = true ↔ m.toLoc <+: loc := by
  refine pmPathPrefixMatches_iff ?_ (fun _ => m.proper_of_mem_toLoc) hpath
  rw [h.toPath_eq]
  exact rdropWhile_render fun _ => m.proper_of_mem_toLoc

theorem Mapping.Plain.pmPathlen_fromPath {m : Mapping} (h : m.Plain) :
    pmPathlen m.fromPath = (render m.fromLoc).length := by rw [pmPathlen, h.fromPath_eq]

theorem Mapping.Plain.pmPathlen_toPath {m : Mapping} (h : m.Plain) :
    pmPathlen m.toPath = (render m.toLoc).length := by
  rw [pmPathlen, h.toPath_eq, rdropWhile_render fun _ => m.proper_of_mem_toLoc]

/-- Of two locations that lead to the same one, the deeper has the longer text. -/
theorem length_render_lt_iff {loc loc' q : List Text} (h : loc <+: q) (h' : loc' <+: q) :
    (render loc).length < (render loc').length ↔ loc.length < loc'.length := by
  have hle : ∀ {l l' : List Text}, l <+: q → l' <+: q → l.length ≤ l'.length →
      (render l).length ≤ (render l').length := by
    intro l l' hl hl' hlength
    obtain ⟨t, rfl⟩ := List.prefix_of_prefix_length_le hl hl' hlength
    rw [render_append, List.length_append]
    omega
  constructor
  · intro hlt
    by_contra hnot
    have hback := hle h' h (by omega)
    omega
  · intro hlt
    obtain ⟨t, rfl⟩ := List.prefix_of_prefix_length_le h h' hlt.le
    cases t with
    | nil => rw [List.append_nil] at hlt; exact absurd hlt (Nat.lt_irrefl _)
    | cons name t =>
      rw [render_append, render_cons, List.length_append]
      simp only [List.cons_append, List.length_cons]
      omega

/-- The choice that the loop has made: no mapping, or the one of the deepest directory. -/
def Chosen (path : Text) (best : Best) : Option (List Text × List Text) → Prop
  | none => best = Best.none
  | some e => ∃ m : Mapping, m.Plain ∧ (m.fromLoc, m.toLoc) = e ∧
      best = ⟨some m, (render e.1).length, path.drop (render e.1).length, false, []⟩

theorem length_render_pos {loc : List Text} (h : loc ≠ []) : 0 < (render loc).length :=
  List.length_pos_of_ne_nil fun hnil => h (render_eq_nil.1 hnil)

/-- **The loop takes the deepest directory**, the first of those of one depth. -/
theorem chosen_foldl (fnmatch : Fnmatch) {path : Text} {loc : List Text}
    (hpath : Normalized path loc) {mappings : List Mapping} (hplain : ∀ m ∈ mappings, m.Plain) :
    Chosen path (mappings.foldl (considerMapping fnmatch path) Best.none)
      (deepest Prod.fst (table mappings) loc) := by
  induction mappings using List.reverseRecOn with
  | nil => rfl
  | append_singleton mappings m ih =>
    have hm : m.Plain := hplain m (by simp)
    have hbefore := ih fun m' h => hplain m' (List.mem_append_left _ h)
    have hmatches := hm.fromPath_matches hpath
    have hlength := hm.pmPathlen_fromPath
    have htable : table (mappings ++ [m]) = table mappings ++ [(m.fromLoc, m.toLoc)] :=
      List.map_append
    rw [List.foldl_concat, htable, deepest_concat]
    generalize hbest : mappings.foldl (considerMapping fnmatch path) Best.none = best at hbefore ⊢
    unfold considerMapping
    rw [hm.notGlob, if_neg (by simp)]
    by_cases hbelow : m.fromLoc <+: loc
    · rw [if_pos (hmatches.2 hbelow), if_pos hbelow, hlength]
      dsimp only
      cases hdeepest : deepest Prod.fst (table mappings) loc with
      | none =>
        rw [hdeepest] at hbefore
        have hnone : best = Best.none := hbefore
        have hpos : Best.none.matchLen < (render m.fromLoc).length :=
          length_render_pos hm.fromLoc_ne
        rw [hnone, if_pos hpos]
        exact ⟨m, hm, rfl, rfl⟩
      | some e =>
        rw [hdeepest] at hbefore
        obtain ⟨m', hm', heq, rfl⟩ := hbefore
        have hlt := length_render_lt_iff (mem_of_deepest hdeepest).2 hbelow
        dsimp only
        by_cases hdeeper : e.1.length < m.fromLoc.length
        · rw [if_pos (hlt.2 hdeeper), if_pos hdeeper]
          exact ⟨m, hm, rfl, rfl⟩
        · rw [if_neg fun h => hdeeper (hlt.1 h), if_neg hdeeper]
          exact ⟨m', hm', heq, rfl⟩
    · rw [if_neg fun h => hbelow (hmatches.1 h), if_neg hbelow]
      exact hbefore

theorem forward_proper {mappings : List Mapping} {loc : List Text}
    (hloc : ∀ name ∈ loc, Proper name) :
    ∀ name ∈ forward (table mappings) loc, Proper name := by
  intro name hname
  rcases forward_eq_or (table mappings) loc with hsame | ⟨e, he, hmove⟩
  · exact hloc name (hsame ▸ hname)
  · obtain ⟨m, -, rfl⟩ := List.mem_map.1 he
    rw [hmove] at hname
    rcases List.mem_append.1 hname with hto | hrest
    · exact m.proper_of_mem_toLoc hto
    · exact hloc name (List.drop_subset _ _ hrest)

/-- The path of the location a path's location is kept at. -/
def forwardPath (mappings : List Mapping) (loc : List Text) (path : Text) : Text :=
  render (forward (table mappings) loc) ++ path.drop (render loc).length

theorem normalized_forwardPath {mappings : List Mapping} {loc : List Text} {path : Text}
    (hpath : Normalized path loc) (hne : forward (table mappings) loc ≠ []) :
    Normalized (forwardPath mappings loc path) (forward (table mappings) loc) := by
  refine ⟨forward_proper hpath.proper, ?_⟩
  obtain ⟨s, rfl, hs⟩ := hpath.exists_append
  rw [forwardPath, List.drop_left]
  rcases hs with rfl | rfl
  · exact .inl (by rw [List.append_nil, pathOf_of_ne_nil hne])
  · exact .inr rfl

/-- What is made of the choice of a directory: its place, and the rest of the path. -/
theorem applyBest_plain {m : Mapping} (hm : m.Plain) {path : Text} {loc : List Text}
    (hpath : Normalized path loc) (hbelow : m.fromLoc <+: loc) (size : ℕ) :
    applyBest size ⟨some m, (render m.fromLoc).length, path.drop (render m.fromLoc).length,
        false, []⟩ =
      if (render (move m.fromLoc m.toLoc loc) ++ path.drop (render loc).length).length + 1 < size
      then some (render (move m.fromLoc m.toLoc loc) ++ path.drop (render loc).length)
      else none := by
  obtain ⟨below, rfl⟩ := hbelow
  obtain ⟨s, rfl, hs⟩ := hpath.exists_append
  have hbounded : Bounded (render below ++ s) :=
    bounded_render_append below (by rcases hs with rfl | rfl; exacts [.inl rfl, .inr rfl])
  have hjoin : joinParts (render m.toLoc) (render below ++ s) =
      render m.toLoc ++ (render below ++ s) :=
    if_neg fun h => hbounded.elim h.2.2.1 h.2.2.2
  have htail : (render (m.fromLoc ++ below) ++ s).drop (render m.fromLoc).length =
      render below ++ s := by
    rw [render_append, List.append_assoc, List.drop_left]
  unfold applyBest defaultJoin
  rw [htail, List.drop_left, move_append, Option.bind_some, if_neg (by simp), if_neg (by simp),
    hm.toPath_eq, hjoin, render_append, List.append_assoc]

/-- **Plain directories that are kept elsewhere.**  A normalized path below one of them, and
not below a place where one is kept, is mapped to the deepest of them, as far as the buffer
has room; every other path is left alone. -/
theorem pmApplyMappingWithConfig_plain (fnmatch : Fnmatch) (size : ℕ) {config : MappingConfig}
    (hplain : ∀ m ∈ config.mappings, m.Plain) {path : Text} {loc : List Text}
    (hpath : Normalized path loc) :
    pmApplyMappingWithConfig fnmatch path size config =
      if forward (table config.mappings) loc = loc ∨
        size ≤ (forwardPath config.mappings loc path).length + 1 then none
      else some (forwardPath config.mappings loc path) := by
  have hkept : (config.mappings.any fun m => pmPathPrefixMatches m.toPath path) = true ↔
      ∃ e ∈ table config.mappings, e.2 <+: loc := by
    rw [List.any_eq_true]
    constructor
    · rintro ⟨m, hm, hmatches⟩
      exact ⟨_, List.mem_map_of_mem hm, ((hplain m hm).toPath_matches hpath).1 hmatches⟩
    · rintro ⟨_, he, hbelow⟩
      obtain ⟨m, hm, rfl⟩ := List.mem_map.1 he
      exact ⟨m, hm, ((hplain m hm).toPath_matches hpath).2 hbelow⟩
  have hchosen := chosen_foldl fnmatch hpath hplain
  unfold pmApplyMappingWithConfig
  by_cases h : ∃ e ∈ table config.mappings, e.2 <+: loc
  · rw [if_pos (hkept.2 h), if_pos (.inl (forward_of_kept h))]
  · rw [if_neg fun hany => h (hkept.1 hany)]
    cases hdeepest : deepest Prod.fst (table config.mappings) loc with
    | none =>
      rw [hdeepest] at hchosen
      have hnone : config.mappings.foldl (considerMapping fnmatch path) Best.none = Best.none :=
        hchosen
      rw [hnone, if_pos (.inl (forward_of_none hdeepest))]
      rfl
    | some e =>
      rw [hdeepest] at hchosen
      obtain ⟨m, hm, rfl, hbest⟩ := hchosen
      have hforward : forward (table config.mappings) loc = move m.fromLoc m.toLoc loc :=
        forward_of_deepest h hdeepest
      have hmoved : forward (table config.mappings) loc ≠ loc := by
        intro hsame
        refine h ⟨_, (mem_of_deepest hdeepest).1, ?_⟩
        rw [hforward] at hsame
        rw [← hsame]
        exact prefix_move _ _ _
      rw [hbest, applyBest_plain hm hpath (mem_of_deepest hdeepest).2, forwardPath, hforward]
      by_cases hfits : (render (move m.fromLoc m.toLoc loc) ++
          path.drop (render loc).length).length + 1 < size
      · rw [if_pos hfits, if_neg]
        rw [hforward] at hmoved
        exact not_or.2 ⟨hmoved, by omega⟩
      · rw [if_neg hfits, if_pos (.inr (by omega))]

/-! ### Mapping what has been mapped -/

/-- What is considered is kept, or is the mapping before. -/
theorem considerMapping_mapping (fnmatch : Fnmatch) (path : Text) (best : Best) (m : Mapping) :
    (considerMapping fnmatch path best m).mapping = some m ∨
      considerMapping fnmatch path best m = best := by
  unfold considerMapping
  split_ifs
  · split
    · split_ifs
      · exact .inl rfl
      · exact .inr rfl
    · dsimp only
      split_ifs
      · exact .inl rfl
      · exact .inr rfl
  · dsimp only
    split_ifs
    · exact .inl rfl
    · exact .inr rfl
  · exact .inr rfl

theorem mem_of_foldl_considerMapping {fnmatch : Fnmatch} {path : Text} {mappings : List Mapping}
    {m : Mapping} (h : (mappings.foldl (considerMapping fnmatch path) Best.none).mapping = some m) :
    m ∈ mappings := by
  induction mappings using List.reverseRecOn with
  | nil => exact absurd h (by simp [Best.none])
  | append_singleton mappings last ih =>
    rw [List.foldl_concat] at h
    rcases considerMapping_mapping fnmatch path
      (mappings.foldl (considerMapping fnmatch path) Best.none) last with hlast | hsame
    · rw [hlast] at h
      cases h
      exact List.mem_append_right _ (List.mem_singleton_self _)
    · rw [hsame] at h
      exact List.mem_append_left _ (ih h)

/-- A target without stars is copied. -/
theorem fillStars_of_notMem {size : ℕ} {target : Text} {prev : Option Char} {out out' : Text}
    {caps : List Capture} (hstar : '*' ∉ target)
    (h : fillStars size prev out target caps = some out') : out' = out ++ target := by
  fun_induction fillStars size prev out target caps with
  | case1 prev out caps =>
    cases h
    exact (List.append_nil _).symm
  | case2 prev out target cap caps ih => exact absurd List.mem_cons_self hstar
  | case3 prev out target cap caps hslash ih => exact absurd List.mem_cons_self hstar
  | case4 prev out c target caps hslash hfilled ih =>
    obtain ⟨out₁, hput, h⟩ := Option.bind_eq_some_iff.1 h
    unfold putChar at hput
    split_ifs at hput
    cases hput
    rw [ih _ (fun hmem => hstar (List.mem_cons_of_mem _ hmem)) h, List.append_assoc,
      List.singleton_append]

/-- A text with something behind it is below the directory of this text, when there is a slash
between them. -/
theorem pmPathPrefixMatches_append {pre s : Text} (h : pre.getLast? = some '/' ∨ Bounded s) :
    pmPathPrefixMatches pre (pre ++ s) = true := by
  obtain ⟨slashes, hslashes, hpre⟩ : ∃ slashes : Text,
      (∀ c ∈ slashes, c = '/') ∧ pre = pre.rdropWhile (· = '/') ++ slashes :=
    ⟨pre.rtakeWhile (· = '/'), fun _ hc => by simpa using List.mem_rtakeWhile_imp hc,
      List.rdropWhile_append_rtakeWhile.symm⟩
  have hbounded : Bounded (slashes ++ s) := by
    cases slashes with
    | cons c slashes => exact .inr (by rw [(List.forall_mem_cons.1 hslashes).1]; rfl)
    | nil =>
      refine h.resolve_left fun hlast => ?_
      rw [List.append_nil] at hpre
      obtain ⟨front, rfl⟩ := List.getLast?_eq_some_iff.1 hlast
      rw [List.rdropWhile_concat_pos _ _ _ (by simp)] at hpre
      have hlength := (List.rdropWhile_prefix (fun c => decide (c = '/')) front).length_le
      rw [← hpre, List.length_append, List.length_singleton] at hlength
      omega
  have hafter : (pre ++ s)[pmPathlen pre]? = (slashes ++ s).head? := by
    have htext : pre ++ s = pre.rdropWhile (· = '/') ++ (slashes ++ s) := by
      rw [← List.append_assoc, ← hpre]
    rw [htext, pmPathlen, List.getElem?_append_right le_rfl, Nat.sub_self,
      List.head?_eq_getElem?]
  unfold pmPathPrefixMatches
  dsimp only
  rw [take_pmPathlen, hafter, Bool.and_eq_true, List.isPrefixOf_iff_prefix]
  refine ⟨(List.rdropWhile_prefix _ _).trans (List.prefix_append _ _), ?_⟩
  rcases hbounded with hnil | hhead
  · rw [hnil]
    rfl
  · rw [hhead]
    exact decide_eq_true rfl

/-- What is joined to a text is behind it, with a slash between them. -/
theorem exists_joinParts {s : Text} (hne : s ≠ []) (t : Text) :
    ∃ t', joinParts s t = s ++ t' ∧ (s.getLast? = some '/' ∨ Bounded t') := by
  unfold joinParts
  split_ifs with h
  · exact ⟨'/' :: t, rfl, .inr (.inr rfl)⟩
  · refine ⟨t, rfl, ?_⟩
    by_contra hnot
    rw [Bounded, not_or, not_or] at hnot
    exact h ⟨hne, hnot⟩

/-- **What has been mapped is not mapped again**, when the targets hold no stars; and it fits
into its buffer. -/
theorem pmApplyMappingWithConfig_twice {fnmatch : Fnmatch} {path out : Text} {size : ℕ}
    {config : MappingConfig} (htargets : ∀ m ∈ config.mappings, m.toPath ≠ [] ∧ '*' ∉ m.toPath)
    (hsize : 0 < size) (h : pmApplyMappingWithConfig fnmatch path size config = some out) :
    out.length < size ∧ ∀ size', pmApplyMappingWithConfig fnmatch out size' config = none := by
  refine ⟨length_of_pmApplyMappingWithConfig hsize h, fun size' => ?_⟩
  unfold pmApplyMappingWithConfig at h
  split_ifs at h
  generalize hbest : config.mappings.foldl (considerMapping fnmatch path) Best.none = best at h
  unfold applyBest at h
  obtain ⟨m, hmapping, h⟩ := Option.bind_eq_some_iff.1 h
  have hm : m ∈ config.mappings := mem_of_foldl_considerMapping (hbest ▸ hmapping)
  obtain ⟨hne, hstar⟩ := htargets m hm
  obtain ⟨s, rfl, hs⟩ : ∃ s, out = m.toPath ++ s ∧
      (m.toPath.getLast? = some '/' ∨ Bounded s) := by
    split_ifs at h with hcaps hcaptured
    · exact ⟨[], by rw [fillStars_of_notMem hstar h, List.nil_append, List.append_nil],
        .inr (.inl rfl)⟩
    · exact absurd hcaptured.2.1 hstar
    · unfold defaultJoin at h
      split_ifs at h
      cases h
      exact exists_joinParts hne best.tail
  unfold pmApplyMappingWithConfig
  exact if_pos (List.any_eq_true.2 ⟨m, hm, pmPathPrefixMatches_append hs⟩)

theorem usr_le : [(⟨"/usr".toList, "/app".toList, false⟩ : Mapping)].length ≤ LIMIT := by decide

theorem usr_glob : ∀ m ∈ [(⟨"/usr".toList, "/app".toList, false⟩ : Mapping)],
    m.isGlob = hasWildcard m.fromPath := by decide

theorem noExcludes_glob : ∀ e ∈ ([] : List Exclude), e.isGlob = hasWildcard e.pattern :=
  fun _ h => absurd h List.not_mem_nil

/-- `PATH_MAPPING=/usr:/app`, without exclusions. -/
def usrConfig : MappingConfig where
  mappings := [⟨"/usr".toList, "/app".toList, false⟩]
  excludes := []
  mappings_le := usr_le
  excludes_le := Nat.zero_le _
  mappings_glob := usr_glob
  excludes_glob := noExcludes_glob

theorem plain_usrConfig : ∀ m ∈ usrConfig.mappings, m.Plain ∧ hasWildcard m.toPath = false := by
  intro m hm
  obtain rfl := List.mem_singleton.1 hm
  exact ⟨⟨rfl, by decide, by decide, by decide, by decide⟩, by decide⟩

/-- `/usr/lib` is mapped to `/app/lib`, and this is left alone. -/
theorem pmApplyMappingWithConfig_twice_usr :
    "/app/lib".toList.length < MAX_PATH ∧ ∀ size', pmApplyMappingWithConfig (fun _ _ => false)
      "/app/lib".toList size' usrConfig = none :=
  @pmApplyMappingWithConfig_twice _ "/usr/lib".toList "/app/lib".toList MAX_PATH usrConfig
    (by decide) (by decide) (by decide)

/-! ### Patterns with several stars -/

theorem weave_modifyHead (c : Char) {literals : List Text} (hne : literals ≠ [])
    (parts : List Text) :
    weave (literals.modifyHead (c :: ·)) parts = c :: weave literals parts := by
  obtain ⟨literal, rest, rfl⟩ := List.exists_cons_of_ne_nil hne
  cases parts with
  | nil => rfl
  | cons part parts => rfl

/-- A part that is written as it is, whatever follows it. -/
structure Capture.Clean (cap : Capture) : Prop where
  len_le : cap.len ≤ cap.start.length
  ne_nil : cap.text ≠ []
  last : cap.text.getLast? ≠ some '/'

theorem Capture.Clean.length_text {cap : Capture} (h : cap.Clean) : cap.text.length = cap.len :=
  List.length_take_of_le h.len_le

/-- The slash before a part that starts a segment is there already. -/
theorem putBefore_eq {size : ℕ} {prev : Option Char} {out : Text} (cap : Capture)
    (h : prev = some '/' → out.getLast? = some '/') : putBefore size prev out cap = some out := by
  unfold putBefore putSeparator
  split_ifs with hstart hlast
  · exact absurd (h hstart.2) hlast.2
  · rfl
  · rfl

theorem splitOn_star_cons (target : Text) :
    ('*' :: target).splitOn '*' = [] :: target.splitOn '*' := by
  rw [List.splitOn_cons_eq_if_modifyHead, if_pos (by simp)]

theorem splitOn_cons_of_ne {c : Char} (h : c ≠ '*') (target : Text) :
    (c :: target).splitOn '*' = (target.splitOn '*').modifyHead (c :: ·) := by
  rw [List.splitOn_cons_eq_if_modifyHead, if_neg (by simpa using h)]

/-- **The stars of a target are replaced by the parts, one by one**, and nothing else is
written, as far as there is room. -/
theorem fillStars_weave {size : ℕ} {prev : Option Char} {out target : Text} {caps : List Capture}
    (hprev : prev = some '/' → out.getLast? = some '/') (hclean : ∀ cap ∈ caps, cap.Clean)
    (hstars : (target.splitOn '*').length = caps.length + 1) (hroom : out.length < size) :
    fillStars size prev out target caps =
      if (out ++ weave (target.splitOn '*') (caps.map Capture.text)).length < size
      then some (out ++ weave (target.splitOn '*') (caps.map Capture.text)) else none := by
  fun_induction fillStars size prev out target caps with
  | case1 prev out caps =>
    have hnil : caps = [] := List.length_eq_zero_iff.1 (by simpa using hstars.symm)
    rw [hnil, List.splitOn_nil, List.map_nil]
    simp [weave, hroom]
  | case2 prev out target cap caps ih =>
    obtain ⟨hcap, hrest⟩ := List.forall_mem_cons.1 hclean
    have htext : weave (('*' :: '/' :: target).splitOn '*') ((cap :: caps).map Capture.text) =
        cap.text ++ '/' :: weave (target.splitOn '*') (caps.map Capture.text) := by
      rw [splitOn_star_cons, splitOn_cons_of_ne (by simp), List.map_cons, weave,
        weave_modifyHead _ (List.splitOn_ne_nil _ _), List.nil_append]
    have hcount : (target.splitOn '*').length = caps.length + 1 := by
      rw [splitOn_star_cons, splitOn_cons_of_ne (by simp), List.length_cons,
        List.length_modifyHead, List.length_cons] at hstars
      omega
    have hlast : (out ++ cap.text).getLast? ≠ some '/' := by
      rw [List.getLast?_append_of_ne_nil _ hcap.ne_nil]
      exact hcap.last
    have hlength := hcap.length_text
    rw [htext, putBefore_eq cap hprev, Option.bind_some]
    by_cases hpart : size ≤ out.length + cap.len
    · rw [putPart, if_pos hpart, Option.bind_none, if_neg]
      simp only [List.length_append, List.length_cons]
      omega
    · rw [putPart, if_neg hpart, Option.bind_some, putSeparator,
        if_pos ⟨by simp [hcap.ne_nil], hlast⟩, putChar]
      by_cases hslash : size ≤ (out ++ cap.text).length + 1
      · rw [if_pos hslash, Option.bind_none, if_neg]
        simp only [List.length_append, List.length_cons] at hslash ⊢
        omega
      · rw [if_neg hslash, Option.bind_some, ih _ (fun _ => List.getLast?_concat) hrest hcount
          (by simp only [List.length_append, List.length_singleton] at hslash ⊢; omega)]
        simp only [List.append_assoc, List.singleton_append]
  | case3 prev out target cap caps hslash ih =>
    obtain ⟨hcap, hrest⟩ := List.forall_mem_cons.1 hclean
    have htext : weave (('*' :: target).splitOn '*') ((cap :: caps).map Capture.text) =
        cap.text ++ weave (target.splitOn '*') (caps.map Capture.text) := by
      rw [splitOn_star_cons, List.map_cons, weave, List.nil_append]
    have hcount : (target.splitOn '*').length = caps.length + 1 := by
      rw [splitOn_star_cons, List.length_cons, List.length_cons] at hstars
      omega
    have hlength := hcap.length_text
    rw [htext, putBefore_eq cap hprev, Option.bind_some]
    by_cases hpart : size ≤ out.length + cap.len
    · rw [putPart, if_pos hpart, Option.bind_none, if_neg]
      simp only [List.length_append]
      omega
    · rw [putPart, if_neg hpart, Option.bind_some, ih _ (by simp) hrest hcount
        (by rw [List.length_append]; omega), List.append_assoc]
  | case4 prev out c target caps hslash hfilled ih =>
    -- a star would have a part to be replaced by
    have hstar : c ≠ '*' := by
      rintro rfl
      rw [splitOn_star_cons, List.length_cons] at hstars
      have hpos : 0 < (target.splitOn '*').length :=
        List.length_pos_of_ne_nil (List.splitOn_ne_nil _ _)
      cases caps with
      | nil => rw [List.length_nil] at hstars; omega
      | cons cap caps => exact hfilled cap caps rfl rfl
    have htext : weave ((c :: target).splitOn '*') (caps.map Capture.text) =
        c :: weave (target.splitOn '*') (caps.map Capture.text) := by
      rw [splitOn_cons_of_ne hstar, weave_modifyHead _ (List.splitOn_ne_nil _ _)]
    have hcount : (target.splitOn '*').length = caps.length + 1 := by
      rwa [splitOn_cons_of_ne hstar, List.length_modifyHead] at hstars
    rw [htext, putChar]
    by_cases hfull : size ≤ out.length + 1
    · rw [if_pos hfull, Option.bind_none, if_neg]
      simp only [List.length_append, List.length_cons]
      omega
    · have hlast : some c = some '/' → (out ++ [c]).getLast? = some '/' := by
        intro hc
        rw [List.getLast?_concat, hc]
      rw [if_neg hfull, Option.bind_some, ih _ hlast hclean hcount
        (by simp only [List.length_append, List.length_singleton]; omega), List.append_assoc,
        List.singleton_append]

/-- A pattern with several stars is none with a single one. -/
theorem singleStar_eq_none {pattern : Text} (h : 2 < (pattern.splitOn '*').length) :
    singleStar pattern = none := by
  refine if_neg ?_
  rintro ⟨hmem, hbehind, -⟩
  obtain ⟨before, behind, rfl, hbefore⟩ := List.eq_append_cons_of_mem hmem
  have hfree : ∀ c ∈ before, decide (c ≠ '*') = true :=
    fun c hc => decide_eq_true fun heq => hbefore (heq ▸ hc)
  rw [List.dropWhile_append_of_pos hfree, List.dropWhile_cons_of_neg (by simp),
    List.tail_cons] at hbehind
  rw [List.splitOn_append_cons_self_of_not_mem hbefore, List.splitOn_eq_singleton hbehind] at h
  exact absurd h (by simp)

theorem pmPathlen_le_of_matches {pre path : Text} (h : pmPathPrefixMatches pre path = true) :
    pmPathlen pre ≤ path.length := by
  unfold pmPathPrefixMatches at h
  dsimp only at h
  rw [Bool.and_eq_true, List.isPrefixOf_iff_prefix, take_pmPathlen] at h
  exact h.1.length_le

/-- No match is longer than the path. -/
theorem matchLen_foldl_le (fnmatch : Fnmatch) (path : Text) (mappings : List Mapping) :
    (mappings.foldl (considerMapping fnmatch path) Best.none).matchLen ≤ path.length := by
  have hkeeps : ∀ (best : Best) (m : Mapping), best.matchLen ≤ path.length →
      (considerMapping fnmatch path best m).matchLen ≤ path.length := by
    intro best m h
    unfold considerMapping
    split_ifs with hglob hmatches
    · split
      · split_ifs with hprefix
        · exact (List.isPrefixOf_iff_prefix.1 hprefix.1).length_le
        · exact h
      · dsimp only
        split_ifs
        · exact le_rfl
        · exact h
    · dsimp only
      split_ifs
      · exact pmPathlen_le_of_matches hmatches
      · exact h
    · exact h
  exact foldl_keeps hkeeps (Nat.zero_le _) mappings

/-- A pattern that takes the whole path is not given up for a directory. -/
theorem considerMapping_plain {fnmatch : Fnmatch} {path : Text} {best : Best}
    (hbest : best.matchLen = path.length) {m : Mapping} (hm : m.isGlob = false) :
    considerMapping fnmatch path best m = best := by
  unfold considerMapping
  rw [hm, if_neg (by simp)]
  split_ifs with hmatches
  · have hle := pmPathlen_le_of_matches hmatches
    dsimp only
    rw [if_neg (by omega)]
  · rfl

/-- A text that its stars divide has one. -/
theorem star_mem_of_splitOn {s : Text} (h : 1 < (s.splitOn '*').length) : '*' ∈ s := by
  by_contra hnot
  rw [List.splitOn_eq_singleton hnot, List.length_singleton] at h
  exact lt_irrefl 1 h

theorem hasWildcard_of_star {s : Text} (h : '*' ∈ s) : hasWildcard s = true :=
  List.any_eq_true.2 ⟨'*', h, rfl⟩

/-- What is captured of parts that are not empty and end in no slash. -/
theorem clean_of_captureFrom {literals parts : List Text} {path : Text} {caps : List Capture}
    (hcaps : captureFrom path literals = some caps) (hmap : caps.map Capture.text = parts)
    (hclean : ∀ part ∈ parts, part ≠ [] ∧ part.getLast? ≠ some '/') : ∀ cap ∈ caps, cap.Clean := by
  intro cap hcap
  have hpart := hclean cap.text (hmap ▸ List.mem_map_of_mem hcap)
  exact ⟨len_le_of_captureFrom hcaps cap hcap, hpart.1, hpart.2⟩

/-- A pattern of several stars, each of which stands for whole segments, and a target with as
many. -/
structure Mapping.Stars (m : Mapping) : Prop where
  only : '?' ∉ m.fromPath ∧ '[' ∉ m.fromPath
  several : 2 < (m.fromPath.splitOn '*').length
  atMost : (m.fromPath.splitOn '*').length ≤ 9
  segments : WholeSegments (m.fromPath.splitOn '*')
  target : (m.toPath.splitOn '*').length = (m.fromPath.splitOn '*').length

/-- **A pattern and its target.**  A path that is the pattern with some parts in place of its
stars is mapped to the target with the same parts in place of its stars, as far as the buffer
has room, whatever directories the path is below and whatever patterns come before. -/
theorem pmApplyMappingWithConfig_stars (fnmatch : Fnmatch) (size : ℕ) {config : MappingConfig}
    {before after : List Mapping} {m : Mapping} (hmappings : config.mappings = before ++ m :: after)
    (hm : m.Stars) (hafter : ∀ m' ∈ after, m'.isGlob = false) {parts : List Text}
    (hparts : Parts (m.fromPath.splitOn '*') parts)
    (hclean : ∀ part ∈ parts, part ≠ [] ∧ part.getLast? ≠ some '/')
    (hkept : ∀ m' ∈ config.mappings,
      pmPathPrefixMatches m'.toPath (weave (m.fromPath.splitOn '*') parts) = false)
    (hsize : 0 < size) :
    pmApplyMappingWithConfig fnmatch (weave (m.fromPath.splitOn '*') parts) size config =
      if (weave (m.toPath.splitOn '*') parts).length < size
      then some (weave (m.toPath.splitOn '*') parts) else none := by
  obtain ⟨caps, hcaps, hmap⟩ := captureFrom_weave hm.segments hparts
  generalize hpath : weave (m.fromPath.splitOn '*') parts = path at *
  have hcaptures : pmCaptureStars m.fromPath path 8 = some caps := by
    rw [pmCaptureStars_eq hm.only path hm.atMost, hcaps]
  have hcount := length_captureFrom hcaps
  have hseveral := hm.several
  have hstar : '*' ∈ m.fromPath := star_mem_of_splitOn (by omega)
  have hglob : m.isGlob = true := by
    rw [config.mappings_glob m (by rw [hmappings]; simp)]
    exact hasWildcard_of_star hstar
  have hconsider : ∀ best : Best, best.matchLen ≤ path.length →
      considerMapping fnmatch path best m = ⟨some m, path.length, [], false, caps⟩ := by
    intro best hbest
    have hglobCaptures : globCaptures m.fromPath path = some caps := by
      rw [globCaptures, if_pos ⟨hstar, hm.only⟩, hcaptures]
    unfold considerMapping
    rw [hglob, if_pos rfl, singleStar_eq_none hseveral]
    dsimp only
    rw [hglobCaptures, if_pos ⟨.inl rfl, hbest⟩]
    rfl
  have hbest : config.mappings.foldl (considerMapping fnmatch path) Best.none =
      ⟨some m, path.length, [], false, caps⟩ := by
    rw [hmappings, List.foldl_append, List.foldl_cons,
      hconsider _ (matchLen_foldl_le fnmatch path before)]
    exact foldl_still fun m' hm' => considerMapping_plain rfl (hafter m' hm')
  have hne : caps ≠ [] := by
    rintro rfl
    rw [List.length_nil] at hcount
    omega
  unfold pmApplyMappingWithConfig
  rw [if_neg (by simpa using hkept), hbest, applyBest, Option.bind_some, if_pos hne,
    fillStars_weave (by simp) (clean_of_captureFrom hcaps hmap hclean)
      (by rw [hm.target, hcount]) hsize, List.nil_append, hmap]

end PathMap
end Sharun
