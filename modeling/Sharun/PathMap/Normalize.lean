/-
# Normalized paths

`pm_normalize_path_inplace` of `lib/pathmap_common.h` goes through the segments of a path and
builds the path anew in a buffer of `MAX_PATH` characters.  A slash is written there without
a look at the room that is left.  For a path that fits into such a buffer there is always room
(`pmNormalizePathInplace_eq`), and the result names the location the path leads to by its text.
After a `..` it keeps a slash at its end.
-/

import Mathlib.Algebra.GroupWithZero.Nat
import Sharun.Basis.Lexical
import Sharun.Launch.Text

namespace Sharun
namespace PathMap

open Sharun.Basis
open Sharun.Launch (Text rdropWhile_append_of_forall)

/-- `MAX_PATH`. -/
def MAX_PATH : ℕ := 4096

/-- `tmp[ti++] = c`, unless that is outside of `tmp`. -/
def put (tmp : Text) (c : Char) : Option Text :=
  if tmp.length < MAX_PATH then some (tmp ++ [c]) else none

/-- `if (ti == 0) tmp[ti++] = '/'`. -/
def putRoot (tmp : Text) : Option Text := if tmp = [] then put tmp '/' else some tmp

/-- `if (ti == 0 || tmp[ti - 1] != '/') tmp[ti++] = '/'`. -/
def putSlash (tmp : Text) : Option Text :=
  if tmp = [] ∨ tmp.getLast? ≠ some '/' then put tmp '/' else some tmp

/-- The last name is taken off. -/
def dropName (tmp : Text) : Text :=
  if 1 < tmp.length then
    (if tmp.getLast? = some '/' then tmp.dropLast else tmp).rdropWhile (· ≠ '/')
  else tmp

/-- The loop over the path, at the end of a segment. -/
def endSegment (tmp segment : Text) : Option Text :=
  if segment = [] then some tmp
  else if segment = ['.'] then some tmp
  else if segment = ['.', '.'] then putRoot (dropName tmp)
  else (putSlash tmp).map fun tmp => tmp ++ segment.take (MAX_PATH - 1 - tmp.length)

/-- `pm_normalize_path_inplace(path)`, `none` where it would write outside of `tmp`. -/
def pmNormalizePathInplace (path : Text) : Option Text := do
  let tmp ← (path.splitOn '/').foldlM endSegment (if path.head? = some '/' then [] else ['/'])
  let tmp ← putRoot tmp
  if tmp.length < MAX_PATH then return tmp else none

/-! ### Locations and their paths -/

/-- What a segment of a path says. -/
def component (segment : Text) : Component Text :=
  if segment = [] ∨ segment = ['.'] then .here
  else if segment = ['.', '.'] then .up
  else .name segment

/-- What a path says. -/
def components (path : Text) : List (Component Text) := (path.splitOn '/').map component

/-- The name of an entry of a directory. -/
structure Proper (name : Text) : Prop where
  ne_nil : name ≠ []
  notMem : '/' ∉ name
  ne_dot : name ≠ ['.']
  ne_dots : name ≠ ['.', '.']

instance Proper.decidable (name : Text) : Decidable (Proper name) :=
  decidable_of_iff (name ≠ [] ∧ '/' ∉ name ∧ name ≠ ['.'] ∧ name ≠ ['.', '.'])
    ⟨fun ⟨h₁, h₂, h₃, h₄⟩ => ⟨h₁, h₂, h₃, h₄⟩, fun ⟨h₁, h₂, h₃, h₄⟩ => ⟨h₁, h₂, h₃, h₄⟩⟩

/-- The names of a location, each behind a slash. -/
def render (loc : List Text) : Text := loc.flatMap ('/' :: ·)

/-- The path of a location. -/
def pathOf (loc : List Text) : Text := if loc = [] then ['/'] else render loc

/-- The normalized path of a location, where it was reached by these components. -/
def normalForm (loc : List Text) (cs : List (Component Text)) : Text :=
  if loc ≠ [] ∧ endsUp cs then render loc ++ ['/'] else pathOf loc

@[simp] theorem render_nil : render [] = [] := rfl

@[simp] theorem render_cons (name : Text) (loc : List Text) :
    render (name :: loc) = '/' :: name ++ render loc := rfl

theorem render_append (loc loc' : List Text) : render (loc ++ loc') = render loc ++ render loc' :=
  List.flatMap_append

theorem render_concat (loc : List Text) (name : Text) :
    render (loc ++ [name]) = render loc ++ ['/'] ++ name := by
  rw [render_append, render_cons, render_nil, List.append_nil, List.append_assoc]
  rfl

theorem render_eq_nil {loc : List Text} : render loc = [] ↔ loc = [] := by
  cases loc with
  | nil => simp
  | cons name loc => simp

theorem pathOf_of_ne_nil {loc : List Text} (h : loc ≠ []) : pathOf loc = render loc := if_neg h

theorem exists_pathOf (loc : List Text) : ∃ rest, pathOf loc = '/' :: rest := by
  unfold pathOf
  cases loc with
  | nil => exact ⟨[], rfl⟩
  | cons name loc =>
    refine ⟨name ++ render loc, ?_⟩
    rw [if_neg (List.cons_ne_nil name loc), render_cons, List.cons_append]

/-- A proper name does not end in a slash. -/
theorem Proper.getLast?_append {name : Text} (h : Proper name) (s : Text) :
    (s ++ name).getLast? ≠ some '/' := by
  intro hlast
  rw [List.getLast?_append_of_ne_nil s h.ne_nil] at hlast
  exact h.notMem (List.mem_of_getLast? hlast)

/-- The segments of a path that name something. -/
theorem proper_of_component {path segment : Text} (h : segment ∈ path.splitOn '/') {name : Text}
    (hname : component segment = .name name) : segment = name ∧ Proper name := by
  unfold component at hname
  split_ifs at hname with hhere hup
  cases hname
  rw [not_or] at hhere
  exact ⟨rfl, hhere.1, notMem_of_mem_splitOn h, hhere.2, hup⟩

theorem segment_of_mem_names {path name : Text} (h : name ∈ Component.names (components path)) :
    name ∈ path.splitOn '/' ∧ Proper name := by
  obtain ⟨c, hc, hname⟩ := List.mem_filterMap.1 h
  obtain ⟨segment, hsegment, rfl⟩ := List.mem_map.1 hc
  cases hcomponent : component segment with
  | here => rw [hcomponent] at hname; exact absurd hname (by simp)
  | up => rw [hcomponent] at hname; exact absurd hname (by simp)
  | name n =>
    rw [hcomponent] at hname
    cases hname
    obtain ⟨rfl, hproper⟩ := proper_of_component hsegment hcomponent
    exact ⟨hsegment, hproper⟩

/-- A path leads through proper names. -/
theorem proper_of_mem_lexical {path name : Text} {loc : List Text}
    (hloc : ∀ n ∈ loc, Proper n) (h : name ∈ lexical loc (components path)) : Proper name := by
  rcases mem_lexical h with h | h
  · exact hloc name h
  · exact (segment_of_mem_names h).2

/-! ### What is built -/

/-- `tmp` holds a location, the way to which ends upwards or not. -/
def Holds (tmp : Text) (loc : List Text) (up : Bool) : Prop :=
  if loc = [] then tmp = [] ∨ tmp = ['/'] else tmp = render loc ++ if up then ['/'] else []

/-- The room that is needed for the segments of a path. -/
def cost (segments : List Text) : ℕ :=
  ((segments.filter (· ≠ [])).map fun segment => segment.length + 1).sum

@[simp] theorem cost_nil : cost [] = 0 := rfl

theorem cost_cons (segment : Text) (segments : List Text) : cost (segment :: segments) =
    (if segment = [] then 0 else segment.length + 1) + cost segments := by
  unfold cost
  by_cases h : segment = []
  · rw [List.filter_cons_of_neg (by simpa using h), if_pos h, Nat.zero_add]
  · rw [List.filter_cons_of_pos (by simpa using h), if_neg h, List.map_cons, List.sum_cons]

/-- What is split has one more segment than slashes. -/
theorem length_intercalate (sep : Char) {segments : List Text} (h : segments ≠ []) :
    ([sep].intercalate segments).length + 1 =
      (segments.map fun segment => segment.length + 1).sum := by
  induction segments with
  | nil => exact absurd rfl h
  | cons segment segments ih =>
    by_cases hrest : segments = []
    · rw [hrest, List.intercalate_singleton, List.map_singleton, List.sum_singleton]
    · have hlength := ih hrest
      rw [List.intercalate_cons_of_ne_nil hrest, List.map_cons, List.sum_cons]
      simp only [List.length_append, List.length_singleton]
      omega

theorem cost_splitOn_le (path : Text) : cost (path.splitOn '/') ≤ path.length + 1 := by
  have hle : ∀ segments : List Text,
      cost segments ≤ (segments.map fun segment => segment.length + 1).sum := by
    intro segments
    induction segments with
    | nil => exact le_rfl
    | cons segment segments ih =>
      rw [cost_cons, List.map_cons, List.sum_cons]
      split_ifs <;> omega
  have hlength := length_intercalate '/' (List.splitOn_ne_nil '/' path)
  rw [List.intercalate_splitOn] at hlength
  exact hlength ▸ hle _

theorem splitOn_slash_cons (rest : Text) :
    ('/' :: rest).splitOn '/' = [] :: rest.splitOn '/' := by
  have hsplit : ([] ++ '/' :: rest).splitOn '/' = [] :: rest.splitOn '/' :=
    List.splitOn_append_cons_self_of_not_mem List.not_mem_nil rest
  rwa [List.nil_append] at hsplit

/-- The path starts with a slash, so that its first segment is empty. -/
theorem cost_splitOn_le_of_absolute {path : Text} (h : path.head? = some '/') :
    cost (path.splitOn '/') ≤ path.length := by
  obtain ⟨rest, rfl⟩ : ∃ rest, path = '/' :: rest := by
    cases path with
    | nil => exact absurd h (by simp)
    | cons c rest => exact ⟨rest, by rw [Option.some.inj h]⟩
  rw [splitOn_slash_cons, cost_cons, if_pos rfl, Nat.zero_add]
  exact cost_splitOn_le rest

theorem cost_eq_zero {segments : List Text} (h : cost segments = 0) :
    ∀ segment ∈ segments, segment = [] := by
  induction segments with
  | nil => exact fun _ h => absurd h List.not_mem_nil
  | cons segment segments ih =>
    rw [cost_cons] at h
    split_ifs at h with hnil
    · exact List.forall_mem_cons.2 ⟨hnil, ih (by omega)⟩
    · omega

theorem component_nil : component [] = .here := if_pos (.inl rfl)

/-! ### The loop -/

/-- Before the next name there is a slash. -/
theorem putSlash_eq {tmp : Text} {loc : List Text} {up : Bool} (hloc : ∀ name ∈ loc, Proper name)
    (htmp : Holds tmp loc up) (hroom : (render loc).length < MAX_PATH) :
    putSlash tmp = some (render loc ++ ['/']) := by
  unfold Holds at htmp
  unfold putSlash put
  rcases List.eq_nil_or_concat' loc with rfl | ⟨before, name, rfl⟩
  · rw [if_pos rfl] at htmp
    rcases htmp with rfl | rfl <;> rfl
  · rw [if_neg (by simp)] at htmp
    have hlast : (render (before ++ [name])).getLast? ≠ some '/' := by
      rw [render_concat]
      exact (hloc name (by simp)).getLast?_append _
    cases up with
    | true =>
      rw [if_pos rfl] at htmp
      rw [htmp, if_neg (by simp)]
    | false =>
      rw [if_neg (by simp), List.append_nil] at htmp
      rw [htmp, if_pos (.inr hlast), if_pos hroom]

/-- **A segment that names something** is written behind what is there, as far as it fits. -/
theorem endSegment_name {tmp segment : Text} {loc : List Text} {up : Bool}
    (hloc : ∀ name ∈ loc, Proper name) (htmp : Holds tmp loc up) (hproper : Proper segment)
    (hroom : (render loc).length + (segment.length + 1) ≤ MAX_PATH) :
    endSegment tmp segment = some ((render (loc ++ [segment])).take (MAX_PATH - 1)) := by
  have hpos : 0 < segment.length := List.length_pos_of_ne_nil hproper.ne_nil
  have hlength : (render loc ++ ['/']).length = (render loc).length + 1 := List.length_append
  have htake : (render loc ++ ['/'] ++ segment).take (MAX_PATH - 1) = render loc ++ ['/'] ++
      segment.take (MAX_PATH - 1 - (render loc ++ ['/']).length) := by
    rw [List.take_append, List.take_of_length_le (by omega)]
  unfold endSegment
  rw [if_neg hproper.ne_nil, if_neg hproper.ne_dot, if_neg hproper.ne_dots,
    putSlash_eq hloc htmp (by omega), Option.map_some, render_concat, htake]

/-- The last name, and a slash behind it, are taken off; the slash before it stays. -/
theorem dropName_eq {name : Text} (h : Proper name) (s : Text) (up : Bool) :
    dropName (s ++ ['/'] ++ name ++ if up then ['/'] else []) = s ++ ['/'] := by
  have hpos : 0 < name.length := List.length_pos_of_ne_nil h.ne_nil
  have hnoSlash : ∀ c ∈ name, decide (c ≠ '/') = true :=
    fun c hc => decide_eq_true fun heq => h.notMem (heq ▸ hc)
  have hname : (s ++ ['/'] ++ name).rdropWhile (· ≠ '/') = s ++ ['/'] := by
    rw [rdropWhile_append_of_forall _ hnoSlash, List.rdropWhile_concat_neg _ _ _ (by simp)]
  have hlength : 1 < (s ++ ['/'] ++ name).length := by
    simp only [List.length_append, List.length_singleton]
    omega
  cases up with
  | true =>
    rw [if_pos rfl, dropName, if_pos (by rw [List.length_append]; omega),
      if_pos List.getLast?_concat, List.dropLast_concat, hname]
  | false =>
    rw [if_neg (by simp), List.append_nil, dropName, if_pos hlength,
      if_neg (h.getLast?_append _), hname]

/-- **`..` takes the last name off** and leaves the slash before it. -/
theorem endSegment_up {tmp : Text} {loc : List Text} {up : Bool}
    (hloc : ∀ name ∈ loc, Proper name) (htmp : Holds tmp loc up) :
    ∃ tmp', endSegment tmp ['.', '.'] = some tmp' ∧ Holds tmp' loc.dropLast true := by
  have hdrop : endSegment tmp ['.', '.'] = putRoot (dropName tmp) := by
    unfold endSegment
    rw [if_neg (by simp), if_neg (by decide), if_pos rfl]
  rw [hdrop]
  unfold Holds at htmp
  rcases List.eq_nil_or_concat' loc with rfl | ⟨before, name, rfl⟩
  · rw [if_pos rfl] at htmp
    refine ⟨['/'], ?_, .inr rfl⟩
    rcases htmp with rfl | rfl <;> rfl
  · rw [if_neg (by simp), render_concat] at htmp
    refine ⟨render before ++ ['/'], ?_, ?_⟩
    · rw [htmp, dropName_eq (hloc name (by simp)), putRoot, if_neg (by simp)]
    · rw [List.dropLast_concat]
      unfold Holds
      by_cases hbefore : before = []
      · rw [if_pos hbefore, hbefore, render_nil, List.nil_append]
        exact .inr rfl
      · rw [if_neg hbefore, if_pos rfl]

theorem length_le_of_holds {tmp : Text} {loc : List Text} {up : Bool} (h : Holds tmp loc up) :
    tmp.length ≤ (render loc).length + 1 := by
  unfold Holds at h
  by_cases hloc : loc = []
  · rw [if_pos hloc] at h
    rcases h with rfl | rfl <;> simp
  · rw [if_neg hloc] at h
    rw [h, List.length_append]
    cases up <;> simp

theorem length_render_dropLast (loc : List Text) :
    (render loc.dropLast).length ≤ (render loc).length := by
  rcases List.eq_nil_or_concat' loc with rfl | ⟨before, name, rfl⟩
  · exact le_rfl
  · rw [List.dropLast_concat, render_append, List.length_append]
    omega

/-- Empty segments change nothing and say nothing. -/
theorem foldlM_endSegment_nil {segments : List Text} (h : ∀ segment ∈ segments, segment = [])
    (tmp : Text) (loc : List Text) (cs : List (Component Text)) :
    segments.foldlM endSegment tmp = some tmp ∧ lexical loc (segments.map component) = loc ∧
      endsUp (cs ++ segments.map component) = endsUp cs := by
  induction segments generalizing cs with
  | nil => exact ⟨rfl, rfl, by rw [List.map_nil, List.append_nil]⟩
  | cons segment segments ih =>
    obtain ⟨rfl, hrest⟩ := List.forall_mem_cons.1 h
    obtain ⟨hfold, hlexical, -⟩ := ih hrest cs
    obtain ⟨-, -, hup⟩ := ih hrest (cs ++ [.here])
    refine ⟨hfold, hlexical, ?_⟩
    rw [List.map_cons, component_nil, List.append_cons, hup, endsUp_concat]

/-- **The whole loop.**  As long as there is room for every segment with one slash before it,
nothing is written outside of `tmp`. -/
theorem foldlM_endSegment {segments : List Text} (hsegments : ∀ segment ∈ segments, '/' ∉ segment)
    {tmp : Text} {loc : List Text} {cs : List (Component Text)}
    (hloc : ∀ name ∈ loc, Proper name) (htmp : Holds tmp loc (endsUp cs))
    (hlength : tmp.length < MAX_PATH) (hroom : (render loc).length + cost segments ≤ MAX_PATH) :
    ∃ full, segments.foldlM endSegment tmp = some (full.take (MAX_PATH - 1)) ∧
      Holds full (lexical loc (segments.map component))
        (endsUp (cs ++ segments.map component)) := by
  induction segments generalizing tmp loc cs with
  | nil =>
    refine ⟨tmp, ?_, ?_⟩
    · rw [List.take_of_length_le (by omega)]
      rfl
    · rwa [List.map_nil, List.append_nil]
  | cons segment segments ih =>
    obtain ⟨hslash, hrest⟩ := List.forall_mem_cons.1 hsegments
    rw [cost_cons] at hroom
    rw [List.foldlM_cons, List.map_cons, List.append_cons, lexical_cons]
    by_cases hhere : segment = [] ∨ segment = ['.']
    · have hcomponent : component segment = .here := if_pos hhere
      have hsame : endSegment tmp segment = some tmp := by
        rcases hhere with rfl | rfl <;> rfl
      rw [hsame, hcomponent]
      exact ih hrest hloc (by rwa [endsUp_concat]) hlength
        (by rw [Component.follow]; omega)
    · rw [not_or] at hhere
      rw [if_neg hhere.1] at hroom
      by_cases hup : segment = ['.', '.']
      · subst hup
        obtain ⟨tmp', hend, hholds⟩ := endSegment_up hloc htmp
        have hdrop := length_render_dropLast loc
        have htmp' := length_le_of_holds hholds
        have hcomponent : component ['.', '.'] = .up := rfl
        simp only [List.length_cons, List.length_nil] at hroom
        rw [hend, hcomponent]
        exact ih hrest (fun name h => hloc name (List.dropLast_subset loc h))
          (by rwa [endsUp_concat]) (by omega) (by rw [Component.follow]; omega)
      · have hproper : Proper segment := ⟨hhere.1, hslash, hhere.2, hup⟩
        have hcomponent : component segment = .name segment := by
          unfold component
          rw [if_neg (by rw [not_or]; exact hhere), if_neg hup]
        have hproper' : ∀ name ∈ loc ++ [segment], Proper name := by
          intro name hname
          rcases List.mem_append.1 hname with hname | hname
          · exact hloc name hname
          · exact List.mem_singleton.1 hname ▸ hproper
        have hholds : Holds (render (loc ++ [segment])) (loc ++ [segment])
            (endsUp (cs ++ [.name segment])) := by
          unfold Holds
          rw [if_neg (by simp), endsUp_concat, if_neg (by simp), List.append_nil]
        have hfull : (render (loc ++ [segment])).length =
            (render loc).length + (segment.length + 1) := by
          rw [render_concat]
          simp only [List.length_append, List.length_singleton]
          omega
        rw [endSegment_name hloc htmp hproper (by omega), hcomponent, Component.follow]
        by_cases hfits : (render (loc ++ [segment])).length < MAX_PATH
        · rw [List.take_of_length_le (by omega)]
          exact ih hrest hproper' hholds hfits (by omega)
        · -- the buffer is full, so nothing but slashes is left of the path
          have hcost : cost segments = 0 := by omega
          obtain ⟨hfold, hlexical, hends⟩ := foldlM_endSegment_nil (cost_eq_zero hcost)
            ((render (loc ++ [segment])).take (MAX_PATH - 1)) (loc ++ [segment])
            (cs ++ [.name segment])
          refine ⟨render (loc ++ [segment]), hfold, ?_⟩
          rw [hlexical, hends]
          exact hholds

/-- What is in `tmp` at the end, when it is not empty, is the normalized path. -/
theorem putRoot_eq {full : Text} {loc : List Text} (cs : List (Component Text))
    (h : Holds full loc (endsUp cs)) :
    putRoot (full.take (MAX_PATH - 1)) = some ((normalForm loc cs).take (MAX_PATH - 1)) := by
  unfold Holds at h
  by_cases hloc : loc = []
  · rw [if_pos hloc] at h
    have hform : normalForm loc cs = ['/'] := by
      unfold normalForm pathOf
      rw [if_neg (fun h => h.1 hloc), if_pos hloc]
    rw [hform]
    rcases h with rfl | rfl <;> rfl
  · rw [if_neg hloc] at h
    have hform : normalForm loc cs = full := by
      unfold normalForm
      rw [pathOf_of_ne_nil hloc, h]
      cases endsUp cs with
      | true => rw [if_pos ⟨hloc, rfl⟩, if_pos rfl]
      | false => rw [if_neg (by simp), if_neg (by simp), List.append_nil]
    have hne : full.take (MAX_PATH - 1) ≠ [] := by
      intro hnil
      have hfull : full = [] := (List.take_eq_nil_iff.1 hnil).resolve_left (by decide)
      rw [hfull, eq_comm, List.append_eq_nil_iff, render_eq_nil] at h
      exact hloc h.1
    rw [hform, putRoot, if_neg hne]

/-- **A path that fits into a buffer is normalized in one**: nothing is written outside of it,
and what is left there is the path of the location the path leads to, with a slash behind it
after a `..`.  Only a relative path of all the 4095 characters can get one too long, and is
cut short. -/
theorem pmNormalizePathInplace_eq (path : Text) (h : path.length < MAX_PATH) :
    pmNormalizePathInplace path = some ((normalForm (lexical [] (components path))
      (components path)).take (MAX_PATH - 1)) := by
  have hcost : cost (path.splitOn '/') ≤ MAX_PATH := (cost_splitOn_le path).trans h
  have hstart : Holds (if path.head? = some '/' then [] else ['/']) []
      (endsUp ([] : List (Component Text))) := by
    unfold Holds
    rw [if_pos rfl]
    split_ifs <;> simp
  have hroom : (render []).length + cost (path.splitOn '/') ≤ MAX_PATH := by
    rwa [render_nil, List.length_nil, Nat.zero_add]
  obtain ⟨full, hfold, hholds⟩ := foldlM_endSegment
    (fun segment hsegment => notMem_of_mem_splitOn hsegment) (fun _ h => absurd h List.not_mem_nil)
    hstart (by split_ifs <;> decide) hroom
  rw [List.nil_append] at hholds
  change Holds full (lexical [] (components path)) (endsUp (components path)) at hholds
  have hfits : ((normalForm (lexical [] (components path)) (components path)).take
      (MAX_PATH - 1)).length < MAX_PATH := by
    rw [List.length_take]
    exact (Nat.min_le_left _ _).trans_lt (by decide)
  unfold pmNormalizePathInplace
  rw [hfold]
  simp only [Option.bind_eq_bind, Option.bind_some]
  rw [putRoot_eq (components path) hholds, Option.bind_some, if_pos hfits]
  rfl

/-- A path leads no further down than its text is long. -/
theorem length_render_lexical (segments : List Text) (loc : List Text)
    (cs : List (Component Text)) :
    (render (lexical loc (segments.map component))).length +
        (if endsUp (cs ++ segments.map component) then 1 else 0) ≤
      (render loc).length + (if endsUp cs then 1 else 0) + cost segments := by
  induction segments generalizing loc cs with
  | nil => rw [List.map_nil, List.append_nil, lexical_nil, cost_nil, Nat.add_zero]
  | cons segment segments ih =>
    rw [List.map_cons, List.append_cons, lexical_cons, cost_cons]
    refine (ih _ _).trans ?_
    rw [endsUp_concat]
    by_cases hhere : segment = [] ∨ segment = ['.']
    · have hcomponent : component segment = .here := if_pos hhere
      rw [hcomponent, Component.follow]
      dsimp only
      omega
    · by_cases hup : segment = ['.', '.']
      · subst hup
        have hcomponent : component ['.', '.'] = .up := rfl
        have hdrop := length_render_dropLast loc
        rw [hcomponent, Component.follow]
        have hcost : (if ['.', '.'] = ([] : Text) then 0 else ['.', '.'].length + 1) = 3 := rfl
        dsimp only
        rw [if_pos rfl, hcost]
        omega
      · have hcomponent : component segment = .name segment := by
          unfold component
          rw [if_neg hhere, if_neg hup]
        rw [not_or] at hhere
        rw [hcomponent, Component.follow, render_concat, if_neg hhere.1]
        simp only [List.length_append, List.length_singleton, Bool.false_eq_true, if_false]
        omega

theorem length_normalForm_le (path : Text) :
    (normalForm (lexical [] (components path)) (components path)).length ≤
      max 1 (cost (path.splitOn '/')) := by
  have hle := length_render_lexical (path.splitOn '/') [] []
  rw [List.nil_append, render_nil, List.length_nil] at hle
  change (render (lexical [] (components path))).length +
    (if endsUp (components path) then 1 else 0) ≤ _ at hle
  unfold normalForm pathOf
  split_ifs with hup hroot
  · rw [if_pos hup.2] at hle
    rw [List.length_append, List.length_singleton]
    exact (hle.trans (by simp [endsUp])).trans (le_max_right _ _)
  · exact le_max_left _ _
  · exact ((Nat.le_add_right _ _).trans (hle.trans (by simp [endsUp]))).trans (le_max_right _ _)

/-- The path of the location an absolute path leads to is not longer than this path. -/
theorem length_pathOf_lexical_le {path : Text} (h : path.head? = some '/') :
    (pathOf (lexical [] (components path))).length ≤ path.length := by
  have hform : (pathOf (lexical [] (components path))).length ≤
      (normalForm (lexical [] (components path)) (components path)).length := by
    unfold normalForm
    split_ifs with hup
    · rw [pathOf_of_ne_nil hup.1, List.length_append]
      omega
    · exact le_rfl
  have hcost := cost_splitOn_le_of_absolute h
  have hlength := length_normalForm_le path
  have hpos : 0 < path.length := by
    refine List.length_pos_of_ne_nil fun hnil => ?_
    rw [hnil] at h
    exact absurd h (by simp)
  omega

/-- The path is not cut short. -/
theorem pmNormalizePathInplace_of_fits {path : Text} (h : path.length < MAX_PATH)
    (hfits : path.head? = some '/' ∨ path.length + 1 < MAX_PATH) :
    pmNormalizePathInplace path =
      some (normalForm (lexical [] (components path)) (components path)) := by
  have hcost : cost (path.splitOn '/') < MAX_PATH := by
    rcases hfits with habsolute | hshort
    · exact (cost_splitOn_le_of_absolute habsolute).trans_lt h
    · exact (cost_splitOn_le path).trans_lt hshort
  have hlength := length_normalForm_le path
  rw [pmNormalizePathInplace_eq path h, List.take_of_length_le]
  exact hlength.trans (max_le (by decide) (Nat.le_sub_one_of_lt hcost))

/-! ### Normalized paths -/

/-- The normalized paths of a location: its names, with or without a slash behind them. -/
structure Normalized (path : Text) (loc : List Text) : Prop where
  proper : ∀ name ∈ loc, Proper name
  eq : path = pathOf loc ∨ path = render loc ++ ['/']

/-- What starts with a slash, or is empty. -/
def Bounded (s : Text) : Prop := s = [] ∨ s.head? = some '/'

theorem bounded_render_append (loc : List Text) {s : Text} (h : Bounded s) :
    Bounded (render loc ++ s) := by
  cases loc with
  | nil => exact h
  | cons name loc => exact .inr rfl

theorem Normalized.exists_append {path : Text} {loc : List Text} (h : Normalized path loc) :
    ∃ s, path = render loc ++ s ∧ (s = [] ∨ s = ['/']) := by
  rcases h.eq with rfl | rfl
  · unfold pathOf
    split_ifs with hloc
    · exact ⟨['/'], by rw [hloc, render_nil, List.nil_append], .inr rfl⟩
    · exact ⟨[], (List.append_nil _).symm, .inl rfl⟩
  · exact ⟨['/'], rfl, .inr rfl⟩

theorem Normalized.length_le {path : Text} {loc : List Text} (h : Normalized path loc) :
    path.length ≤ (render loc).length + 1 := by
  obtain ⟨s, rfl, rfl | rfl⟩ := h.exists_append <;> simp

theorem normalized_normalForm {loc : List Text} (hloc : ∀ name ∈ loc, Proper name)
    (cs : List (Component Text)) : Normalized (normalForm loc cs) loc := by
  refine ⟨hloc, ?_⟩
  unfold normalForm
  split_ifs
  · exact .inr rfl
  · exact .inl rfl

/-- The text up to a slash. -/
theorem takeWhile_name {name s : Text} (hname : '/' ∉ name) (hs : Bounded s) :
    (name ++ s).takeWhile (· ≠ '/') = name := by
  have hfree : ∀ c ∈ name, decide (c ≠ '/') = true :=
    fun c hc => decide_eq_true fun heq => hname (heq ▸ hc)
  rw [List.takeWhile_append_of_pos hfree]
  rcases hs with rfl | hs
  · exact List.append_nil name
  · cases s with
    | nil => exact absurd hs (by simp)
    | cons c s =>
      cases hs
      rw [List.takeWhile_cons_of_neg (by simp), List.append_nil]

/-- **The names of a path are where its slashes are**: the names that a path starts with, up to
a slash or its end, are those its location starts with. -/
theorem prefix_of_render {loc loc' : List Text} {s t : Text} (hloc : ∀ name ∈ loc, Proper name)
    (hloc' : ∀ name ∈ loc', Proper name) (hs : s = [] ∨ s = ['/']) (ht : Bounded t)
    (h : render loc' ++ t = render loc ++ s) : loc' <+: loc := by
  induction loc' generalizing loc with
  | nil => exact List.nil_prefix
  | cons name' loc' ih =>
    obtain ⟨hname', hrest'⟩ := List.forall_mem_cons.1 hloc'
    cases loc with
    | nil =>
      have hlength := congrArg List.length h
      have hpos : 0 < name'.length := List.length_pos_of_ne_nil hname'.ne_nil
      rcases hs with rfl | rfl <;>
        simp only [render_cons, render_nil, List.length_append, List.length_cons,
          List.length_nil] at hlength <;> omega
    | cons name loc =>
      obtain ⟨hname, hrest⟩ := List.forall_mem_cons.1 hloc
      have hs' : Bounded s := by
        rcases hs with rfl | rfl
        · exact .inl rfl
        · exact .inr rfl
      have htail : name' ++ (render loc' ++ t) = name ++ (render loc ++ s) := by
        simpa using h
      have hsame : name' = name := by
        rw [← takeWhile_name hname'.notMem (bounded_render_append loc' ht), htail,
          takeWhile_name hname.notMem (bounded_render_append loc hs')]
      subst hsame
      exact List.cons_prefix_cons.2 ⟨rfl, ih hrest hrest' (List.append_cancel_left htail)⟩

/-- A slash is between what is before it and what is behind it. -/
theorem components_append (s t : Text) :
    components (s ++ '/' :: t) = components s ++ components t := by
  unfold components
  rw [List.splitOn_append_cons_self, List.map_append]

theorem components_of_proper {name : Text} (h : Proper name) : components name = [.name name] := by
  unfold components component
  rw [List.splitOn_eq_singleton h.notMem, List.map_singleton,
    if_neg (not_or.2 ⟨h.ne_nil, h.ne_dot⟩), if_neg h.ne_dots]

theorem components_render {loc : List Text} (hloc : ∀ name ∈ loc, Proper name) :
    components (render loc) = .here :: loc.map .name := by
  induction loc using List.reverseRecOn with
  | nil => rfl
  | append_singleton loc name ih =>
    have hrest : ∀ n ∈ loc, Proper n := fun n hn => hloc n (List.mem_append_left _ hn)
    rw [render_concat, List.append_assoc, List.singleton_append, components_append,
      components_of_proper (hloc name (by simp)), ih hrest, List.map_append, List.map_singleton,
      List.cons_append]

/-- **A normalized path says the names of its location**, and nothing that leads anywhere
else. -/
theorem Normalized.components {path : Text} {loc : List Text} (h : Normalized path loc) :
    ∃ cs, components path = .here :: (loc.map .name ++ cs) ∧ ∀ c ∈ cs, c = .here := by
  obtain ⟨s, rfl, rfl | rfl⟩ := h.exists_append
  · refine ⟨[], ?_, fun _ h => absurd h List.not_mem_nil⟩
    rw [List.append_nil, List.append_nil, components_render h.proper]
  · refine ⟨[.here], ?_, fun c hc => List.mem_singleton.1 hc⟩
    rw [components_append, components_render h.proper]
    rfl

theorem lexical_here {loc : List Text} {cs : List (Component Text)} (h : ∀ c ∈ cs, c = .here) :
    lexical loc cs = loc := by
  induction cs with
  | nil => rfl
  | cons c cs ih =>
    obtain ⟨rfl, hrest⟩ := List.forall_mem_cons.1 h
    exact ih hrest

/-- It leads there from the root. -/
theorem Normalized.lexical {path : Text} {loc : List Text} (h : Normalized path loc) :
    lexical [] (PathMap.components path) = loc := by
  obtain ⟨cs, hcomponents, hcs⟩ := h.components
  rw [hcomponents, lexical_cons, Component.follow, lexical_append, lexical_names, lexical_here hcs,
    List.nil_append]

theorem Normalized.head? {path : Text} {loc : List Text} (h : Normalized path loc) :
    path.head? = some '/' := by
  rcases h.eq with rfl | rfl
  · obtain ⟨rest, hrest⟩ := exists_pathOf loc
    rw [hrest]
    rfl
  · cases loc <;> rfl

/-- **A path is normalized inside of its buffer**, and where it is not cut short it still leads
where it led: it holds the names of this location one after the other, and nothing else that
leads anywhere. -/
theorem pmNormalizePathInplace_components {path : Text} (h : path.length < MAX_PATH) :
    ∃ text, pmNormalizePathInplace path = some text ∧ text.length < MAX_PATH ∧
      (path.head? = some '/' ∨ path.length + 1 < MAX_PATH →
        ∃ cs, components text = .here :: ((lexical [] (components path)).map .name ++ cs) ∧
          ∀ c ∈ cs, c = .here) := by
  refine ⟨_, pmNormalizePathInplace_eq path h,
    (List.length_take_le _ _).trans_lt (by decide), fun hfits => ?_⟩
  have hwhole := (pmNormalizePathInplace_eq path h).symm.trans
    (pmNormalizePathInplace_of_fits h hfits)
  rw [Option.some.inj hwhole]
  exact (normalized_normalForm (fun name hname =>
    proper_of_mem_lexical (fun _ h => absurd h List.not_mem_nil) hname) _).components

/-- A path with a dot, two slashes and two dots in it. -/
theorem pmNormalizePathInplace_components_usr :
    ∃ text, pmNormalizePathInplace "/usr/./lib//../bin".toList = some text ∧
      text.length < MAX_PATH ∧ ("/usr/./lib//../bin".toList.head? = some '/' ∨
        "/usr/./lib//../bin".toList.length + 1 < MAX_PATH →
        ∃ cs, components text = .here :: ((lexical [] (components
          "/usr/./lib//../bin".toList)).map .name ++ cs) ∧ ∀ c ∈ cs, c = .here) :=
  pmNormalizePathInplace_components (by decide)

end PathMap
end Sharun
