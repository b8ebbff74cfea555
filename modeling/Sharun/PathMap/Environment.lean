/-
# Layers that are asked for

`path_mapping_init` reads four variables of the environment, and these decide what the layer of
a process is.  `PATH_MAPPING` may be laid out in many ways, the exclusions are normalized, and
an exclusion in them that is cut short by its buffer is another one.

An environment that asks for plain directories gets a plain layer (`plain_ofEnv`), so that what
is shown of plain layers is shown of the processes that are started with it.
-/

import Sharun.PathMap.FixPath

namespace Sharun
namespace PathMap

open Sharun.Basis
open Sharun.Launch (Text)

/-- The layer of a process that is started with an environment. -/
def Layer.ofEnv (fnmatch : Fnmatch) (getenv : Text → Option Text) (stack : ℕ) : Layer :=
  ⟨fnmatch, pmInitCommonConfig getenv, stack⟩

/-- The mappings of some pairs of directories. -/
def mappingsOf (pairs : List (Text × Text)) : List Mapping := pairs.map fun p => ⟨p.1, p.2, false⟩

/-- The variables ask for some pairs of plain directories, and for what is on by itself. -/
structure AsksPlain (getenv : Text → Option Text) (pairs : List (Text × Text)) : Prop where
  mappings : ∃ entry rest, getenv "PATH_MAPPING".toList = some (layout entry rest) ∧ entry.Ok ∧
    (∀ e ∈ rest, isSeparator e.1 = true ∧ e.2.Ok) ∧
      (entry :: rest.map Prod.snd).filterMap Entry.pair? = pairs
  ne_nil : pairs ≠ []
  length_le : pairs.length ≤ LIMIT
  noWildcard : ∀ p ∈ pairs, hasWildcard p.1 = false
  plain : ∀ m ∈ mappingsOf pairs, m.Plain ∧ hasWildcard m.toPath = false
  excludes : ∀ text, getenv "PATH_MAPPING_EXCLUDE".toList = some text →
    ∀ entry ∈ text.splitOnP isSeparator, hasWildcard entry = false ∧ entry.length + 1 < MAX_PATH
  relsymlink : getenv "PATHMAP_RELSYMLINK".toList ≠ some ['1']
  reverse : ∀ text, getenv "PATHMAP_REVERSE".toList = some text → text = ['1']

variable {getenv : Text → Option Text} {pairs : List (Text × Text)}

/-! ### Mappings -/

theorem mappings_ofEnv (h : AsksPlain getenv pairs) :
    (pmInitCommonConfig getenv).mappings = mappingsOf pairs := by
  obtain ⟨entry, rest, henv, hentry, hrest, hpairs⟩ := h.mappings
  have hparse : pmParsePathMappingEnv (layout entry rest) = pairs :=
    (pmParsePathMappingEnv_layout hentry hrest).trans hpairs
  have hne : layout entry rest ≠ [] := by
    intro hnil
    rw [hnil] at hparse
    exact h.ne_nil hparse.symm
  unfold pmInitCommonConfig mappingsOf
  dsimp only
  rw [henv, pmLoadMappingsFromEnv_some hne, hparse, List.take_of_length_le h.length_le]
  exact List.map_congr_left fun p hp => by rw [h.noWildcard p hp]

/-! ### Exclusions -/

/-- What is normalized has the characters it had, and slashes. -/
theorem hasWildcard_normalForm {path : Text} (h : hasWildcard path = false)
    (cs : List (Component Text)) :
    hasWildcard (normalForm (lexical [] (components path)) cs) = false := by
  have hname : ∀ name ∈ lexical [] (components path), ∀ c ∈ name, c ∈ path := by
    intro name hmem c hc
    have hnames := (mem_lexical hmem).resolve_left List.not_mem_nil
    exact (infix_of_mem_splitOn (segment_of_mem_names hnames).1).subset hc
  have hrender : ∀ c ∈ render (lexical [] (components path)), c = '/' ∨ c ∈ path := by
    intro c hc
    obtain ⟨name, hmem, hc⟩ := List.mem_flatMap.1 hc
    exact (List.mem_cons.1 hc).imp id (hname name hmem c)
  have hform : ∀ c ∈ normalForm (lexical [] (components path)) cs, c = '/' ∨ c ∈ path := by
    intro c hc
    unfold normalForm pathOf at hc
    split_ifs at hc
    · rcases List.mem_append.1 hc with hc | hc
      · exact hrender c hc
      · exact .inl (List.mem_singleton.1 hc)
    · exact .inl (List.mem_singleton.1 hc)
    · exact hrender c hc
  unfold hasWildcard at h ⊢
  refine List.any_eq_false.2 fun c hc => ?_
  rcases hform c hc with rfl | hpath
  · decide
  · exact List.any_eq_false.1 h c hpath

/-- The default exclusions are plain. -/
theorem plain_pmDefaultExcludes :
    ∀ e ∈ pmDefaultExcludes, e.isGlob = false ∧ Normalized e.pattern e.loc := by
  have hdefault : ∀ e ∈ pmDefaultExcludes, e.isGlob = false ∧ (∀ name ∈ e.loc, Proper name) ∧
      e.pattern = pathOf e.loc := by decide
  exact fun e he => ⟨(hdefault e he).1, (hdefault e he).2.1, .inl (hdefault e he).2.2⟩

/-- An exclusion that is not cut short is plain where there is no wildcard in it. -/
theorem plain_exclude {entry : Text} (hwild : hasWildcard entry = false)
    (hlength : entry.length + 1 < MAX_PATH) :
    ∃ e : Exclude, (pmNormalizePathInplace (entry.take (MAX_PATH - 1))).map
        (fun s => ⟨s, hasWildcard s⟩) = some e ∧
      (e.isGlob = false ∧ Normalized e.pattern e.loc) := by
  have hnormalized : Normalized (normalForm (lexical [] (components entry)) (components entry))
      (lexical [] (components entry)) :=
    normalized_normalForm (fun name hname =>
      proper_of_mem_lexical (fun _ h => absurd h List.not_mem_nil) hname) _
  rw [List.take_of_length_le (by omega), pmNormalizePathInplace_of_fits (by omega) (.inr hlength),
    Option.map_some]
  refine ⟨_, rfl, hasWildcard_normalForm hwild _, ?_⟩
  unfold Exclude.loc
  dsimp only
  rw [hnormalized.lexical]
  exact hnormalized

theorem excludes_ofEnv (h : AsksPlain getenv pairs) :
    ∀ e ∈ (pmInitCommonConfig getenv).excludes, e.isGlob = false ∧ Normalized e.pattern e.loc := by
  unfold pmInitCommonConfig
  dsimp only
  cases htext : getenv "PATH_MAPPING_EXCLUDE".toList with
  | none => exact plain_pmDefaultExcludes
  | some text =>
    by_cases hne : text = []
    · rw [hne]
      exact plain_pmDefaultExcludes
    · have hentry : ∀ entry ∈ ((text.splitOnP isSeparator).filter (· ≠ [])).take LIMIT, _ :=
        fun entry hmem =>
          have hmem' := List.mem_of_mem_filter (List.mem_of_mem_take hmem)
          plain_exclude (h.excludes text htext entry hmem').1 (h.excludes text htext entry hmem').2
      obtain ⟨excludes, hexcludes, -, hall⟩ := mapM_eq_some hentry
      rw [pmLoadExcludesFromEnv_some hne, hexcludes, Option.getD_some]
      exact hall

/-! ### Layers -/

/-- **An environment that asks for plain directories gets a plain layer**, where they lie
apart and are not above the link to the current directory. -/
theorem plain_ofEnv (h : AsksPlain getenv pairs)
    (hapart : Apart ((table (mappingsOf pairs)).map Prod.fst ++
      (table (mappingsOf pairs)).map Prod.snd))
    (hproc : ∀ m ∈ mappingsOf pairs, ¬m.fromLoc <+: lexical [] (components PROC_SELF_CWD) ∧
      ¬m.toLoc <+: lexical [] (components PROC_SELF_CWD))
    (fnmatch : Fnmatch) (stack : ℕ) : (Layer.ofEnv fnmatch getenv stack).Plain := by
  have hmappings : (Layer.ofEnv fnmatch getenv stack).config.mappings = mappingsOf pairs :=
    mappings_ofEnv h
  constructor
  · rw [hmappings]
    exact h.plain
  · exact excludes_ofEnv h
  · rw [hmappings]
    exact hapart
  · rw [hmappings]
    exact hproc
  · unfold Layer.ofEnv pmInitCommonConfig
    dsimp only
    cases hrel : getenv "PATHMAP_RELSYMLINK".toList with
    | none => rfl
    | some text => exact decide_eq_false fun heq => h.relsymlink (by rw [hrel, heq])
  · unfold Layer.ofEnv pmInitCommonConfig
    dsimp only
    cases hreverse : getenv "PATHMAP_REVERSE".toList with
    | none => rfl
    | some text => exact decide_eq_true (h.reverse text hreverse)

/-- `PATH_MAPPING=/usr:/app`. -/
def usrEnv (name : Text) : Option Text :=
  if name = "PATH_MAPPING".toList then some "/usr:/app".toList else none

def usrLayer : Layer where
  fnmatch := fun _ _ => false
  config := {
    mappings := usrConfig.mappings
    excludes := pmDefaultExcludes
    mappings_le := usrConfig.mappings_le
    excludes_le := by decide
    mappings_glob := usrConfig.mappings_glob
    excludes_glob := by decide
    relsymlink := false
    reverseEnabled := true }
  stack := 8

/-- This is what the library reads from there. -/
theorem ofEnv_usrEnv : Layer.ofEnv (fun _ _ => false) usrEnv 8 = usrLayer := rfl

theorem asksPlain_usrEnv : AsksPlain usrEnv [("/usr".toList, "/app".toList)] where
  mappings := ⟨.pair [] "/usr".toList [] [] "/app".toList [], [], rfl, by decide, by decide, rfl⟩
  ne_nil := List.cons_ne_nil _ _
  length_le := by decide
  noWildcard := by decide
  plain := by
    intro m hm
    obtain rfl := List.mem_singleton.1 hm
    exact ⟨⟨rfl, by decide, by decide, by decide, by decide⟩, by decide⟩
  excludes := fun _ h => by cases h
  relsymlink := by decide
  reverse := fun _ h => by cases h

theorem plain_usrLayer : usrLayer.Plain :=
  ofEnv_usrEnv ▸ plain_ofEnv asksPlain_usrEnv (by unfold Apart; decide) (by decide) _ _

end PathMap
end Sharun
