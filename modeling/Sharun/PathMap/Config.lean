/-
# The mappings and exclusions that are asked for

`PATH_MAPPING` holds pairs of paths, `FROM:TO`, with commas or line ends between them, and
`PATH_MAPPING_EXCLUDE` holds paths.  The functions of `lib/pathmap_common.h` that read them
cut the text in place, by writing the NUL that ends a string; here each string is the text
up to that NUL.

However the pairs are laid out, they are read as they were written
(`pmParsePathMappingEnv_layout`), and there is room for what is kept of them: no more than 64 of
each kind, and every exclusion is normalized in a buffer it fits into
(`pmLoadExcludesFromEnv_eq`).
-/

import Sharun.PathMap.Normalize

namespace Sharun
namespace PathMap

open Sharun.Basis
open Sharun.Launch (Text trimmed_pad)

/-- `strpbrk(s, "*?[") != NULL`. -/
def hasWildcard (s : Text) : Bool := s.any fun c => c = '*' || c = '?' || c = '['

/-- An entry of `mappings`, with its `mapping_is_glob`. -/
structure Mapping where
  fromPath : Text
  toPath : Text
  isGlob : Bool
  deriving DecidableEq

/-- An entry of `excludes`, with its `exclude_is_glob`. -/
structure Exclude where
  pattern : Text
  isGlob : Bool
  deriving DecidableEq

/-- The entries of the arrays of `pm_mapping_config`. -/
def LIMIT : ℕ := 64

/-- `pm_mapping_config`, as it is after it has been loaded. -/
structure MappingConfig where
  mappings : List Mapping
  excludes : List Exclude
  mappings_le : mappings.length ≤ LIMIT
  excludes_le : excludes.length ≤ LIMIT
  mappings_glob : ∀ m ∈ mappings, m.isGlob = hasWildcard m.fromPath
  excludes_glob : ∀ e ∈ excludes, e.isGlob = hasWildcard e.pattern

/-- `pm_common_config`, but for what is about messages. -/
structure CommonConfig extends MappingConfig where
  relsymlink : Bool
  reverseEnabled : Bool

/-! ### `pm_parse_path_mapping_env` -/

def isBlank (c : Char) : Bool := c = ' ' || c = '\t'

/-- `pm_trim_ws(s)`. -/
def pmTrimWs (s : Text) : Text := (s.dropWhile isBlank).rdropWhile isBlank

/-- What ends an entry of either variable. -/
def isSeparator (c : Char) : Bool := c = ',' || c = '\n' || c = '\r'

/-- The body of the loop, at the end of an entry. -/
def parsePair (entry : Text) : Option (Text × Text) :=
  let segment := pmTrimWs entry
  if segment = [] then none
  else if ':' ∉ segment then none
  else
    let fromPath := pmTrimWs (segment.takeWhile (· ≠ ':'))
    let toPath := pmTrimWs (segment.dropWhile (· ≠ ':')).tail
    if fromPath = [] ∨ toPath = [] then none else some (fromPath, toPath)

/-- `pm_parse_path_mapping_env(env)`. -/
def pmParsePathMappingEnv (env : Text) : List (Text × Text) :=
  (env.splitOnP isSeparator).filterMap parsePair

/-- `pm_default_mappings`. -/
def pmDefaultMappings : List Mapping :=
  [⟨"/tmp/path-mapping/tests/virtual".toList, "/tmp/path-mapping/tests/real".toList, false⟩]

/-- `pm_default_excludes`. -/
def pmDefaultExcludes : List Exclude :=
  [⟨"/etc/passwd".toList, false⟩, ⟨"/etc/group".toList, false⟩,
    ⟨"/etc/nsswitch.conf".toList, false⟩]

/-- `pm_load_mappings_from_env(env)`. -/
def pmLoadMappingsFromEnv (env : Option Text) : List Mapping :=
  match env.getD [] with
  | [] => pmDefaultMappings
  | env => ((pmParsePathMappingEnv env).take LIMIT).map fun (fromPath, toPath) =>
      ⟨fromPath, toPath, hasWildcard fromPath⟩

/-- `pm_load_excludes_from_env(env)`, `none` where a path is normalized outside of its
buffer. -/
def pmLoadExcludesFromEnv (env : Option Text) : Option (List Exclude) :=
  match env.getD [] with
  | [] => some pmDefaultExcludes
  | env => (((env.splitOnP isSeparator).filter (· ≠ [])).take LIMIT).mapM fun entry =>
      (pmNormalizePathInplace (entry.take (MAX_PATH - 1))).map fun s => ⟨s, hasWildcard s⟩

/-! ### How pairs may be laid out -/

/-- One entry of `PATH_MAPPING`: blanks, or a pair with blanks around its two sides. -/
inductive Entry
  | blank (pad : Text)
  | pair (before fromPath after before' toPath after' : Text)

def Entry.text : Entry → Text
  | .blank pad => pad
  | .pair before fromPath after before' toPath after' =>
    before ++ fromPath ++ after ++ ':' :: (before' ++ toPath ++ after')

def Entry.pair? : Entry → Option (Text × Text)
  | .blank _ => none
  | .pair _ fromPath _ _ toPath _ => some (fromPath, toPath)

/-- A text that can be one side of a pair: it neither begins nor ends with a blank, and no
entry ends in it. -/
structure Side (s : Text) : Prop where
  ne_nil : s ≠ []
  head : ∀ c ∈ s.head?, isBlank c = false
  last : ∀ c ∈ s.getLast?, isBlank c = false
  noSeparator : ∀ c ∈ s, isSeparator c = false

instance (s : Text) : Decidable (Side s) :=
  decidable_of_iff (s ≠ [] ∧ s.head?.all (! isBlank ·) = true ∧
      s.getLast?.all (! isBlank ·) = true ∧ s.all (! isSeparator ·) = true) <| by
    simp only [Option.all_eq_true, List.all_eq_true, Bool.not_eq_true']
    exact ⟨fun ⟨h₁, h₂, h₃, h₄⟩ => ⟨h₁, h₂, h₃, h₄⟩, fun ⟨h₁, h₂, h₃, h₄⟩ => ⟨h₁, h₂, h₃, h₄⟩⟩

/-- An entry whose blanks are blanks and whose sides are such. -/
def Entry.Ok : Entry → Prop
  | .blank pad => pad.all isBlank = true
  | .pair before fromPath after before' toPath after' =>
    (before ++ after ++ before' ++ after').all isBlank = true ∧
      Side fromPath ∧ ':' ∉ fromPath ∧ Side toPath

instance : (entry : Entry) → Decidable entry.Ok
  | .blank pad => inferInstanceAs (Decidable (pad.all isBlank = true))
  | .pair .. => inferInstanceAs (Decidable (_ ∧ _))

/-- Entries with a separator behind each but the last. -/
def layout : Entry → List (Char × Entry) → Text
  | entry, [] => entry.text
  | entry, (sep, entry') :: rest => entry.text ++ sep :: layout entry' rest

theorem isSeparator_of_isBlank {c : Char} (h : isBlank c = true) : isSeparator c = false := by
  unfold isBlank at h
  rw [Bool.or_eq_true, decide_eq_true_eq, decide_eq_true_eq] at h
  rcases h with rfl | rfl <;> decide

/-- Blanks around a side are trimmed. -/
theorem pmTrimWs_pad {s : Text} (before after : Text) (hbefore : ∀ c ∈ before, isBlank c = true)
    (hafter : ∀ c ∈ after, isBlank c = true) (hhead : ∀ c ∈ s.head?, isBlank c = false)
    (hlast : ∀ c ∈ s.getLast?, isBlank c = false) : pmTrimWs (before ++ s ++ after) = s :=
  trimmed_pad before after hbefore hafter hhead hlast

theorem not_isBlank_colon : isBlank ':' = false := by decide

/-- **A pair is read as it was written**, whatever blanks are around its sides. -/
theorem parsePair_pair {before fromPath after before' toPath after' : Text}
    (h : (Entry.pair before fromPath after before' toPath after').Ok) :
    parsePair (Entry.pair before fromPath after before' toPath after').text =
      some (fromPath, toPath) := by
  obtain ⟨hblank, hfrom, hcolon, hto⟩ := h
  simp only [List.all_eq_true, List.mem_append, or_imp, forall_and] at hblank
  obtain ⟨⟨⟨hbefore, hafter⟩, hbefore'⟩, hafter'⟩ := hblank
  have hnoColon : ∀ pad : Text, (∀ c ∈ pad, isBlank c = true) → ':' ∉ pad := fun pad hpad hmem =>
    absurd (hpad ':' hmem) (by rw [not_isBlank_colon]; exact Bool.false_ne_true)
  -- what is left of the entry, from the first side to the second
  have hsegment : pmTrimWs (Entry.pair before fromPath after before' toPath after').text =
      fromPath ++ after ++ ':' :: (before' ++ toPath) := by
    have htext : (Entry.pair before fromPath after before' toPath after').text =
        before ++ (fromPath ++ after ++ ':' :: (before' ++ toPath)) ++ after' := by
      simp [Entry.text]
    rw [htext]
    refine pmTrimWs_pad before after' hbefore hafter' ?_ ?_
    · intro c hc
      rw [List.append_assoc, List.head?_append_of_ne_nil _ hfrom.ne_nil] at hc
      exact hfrom.head c hc
    · intro c hc
      rw [List.append_cons, ← List.append_assoc,
        List.getLast?_append_of_ne_nil _ hto.ne_nil] at hc
      exact hto.last c hc
  have hleft : ∀ c ∈ fromPath ++ after, decide (c ≠ ':') = true := by
    intro c hc
    refine decide_eq_true fun heq => ?_
    rcases List.mem_append.1 hc with hc | hc
    · exact hcolon (heq ▸ hc)
    · exact hnoColon after hafter (heq ▸ hc)
  have htake : (fromPath ++ after ++ ':' :: (before' ++ toPath)).takeWhile (· ≠ ':') =
      fromPath ++ after := by
    rw [List.takeWhile_append_of_pos hleft, List.takeWhile_cons_of_neg (by simp), List.append_nil]
  have hdrop : (fromPath ++ after ++ ':' :: (before' ++ toPath)).dropWhile (· ≠ ':') =
      ':' :: (before' ++ toPath) := by
    rw [List.dropWhile_append_of_pos hleft, List.dropWhile_cons_of_neg (by simp)]
  have hfrom' : pmTrimWs (fromPath ++ after) = fromPath := by
    have hpad := pmTrimWs_pad [] after (by simp) hafter hfrom.head hfrom.last
    rwa [List.nil_append] at hpad
  have hto' : pmTrimWs (before' ++ toPath) = toPath := by
    have hpad := pmTrimWs_pad before' [] hbefore' (by simp) hto.head hto.last
    rwa [List.append_nil] at hpad
  unfold parsePair
  rw [hsegment]
  dsimp only
  rw [if_neg (by simp), if_neg (by simp), htake, hdrop, List.tail_cons, hfrom', hto',
    if_neg (not_or.2 ⟨hfrom.ne_nil, hto.ne_nil⟩)]

theorem parsePair_entry {entry : Entry} (h : entry.Ok) : parsePair entry.text = entry.pair? := by
  cases entry with
  | blank pad =>
    have hnil : pmTrimWs pad = [] := by
      unfold pmTrimWs
      rw [List.dropWhile_eq_nil_iff.2 (List.all_eq_true.1 h)]
      rfl
    unfold parsePair Entry.text
    rw [hnil]
    rfl
  | pair before fromPath after before' toPath after' => exact parsePair_pair h

/-- No entry ends inside of one. -/
theorem Entry.Ok.noSeparator {entry : Entry} (h : entry.Ok) :
    ∀ c ∈ entry.text, isSeparator c = false := by
  cases entry with
  | blank pad => exact fun c hc => isSeparator_of_isBlank (List.all_eq_true.1 h c hc)
  | pair before fromPath after before' toPath after' =>
    obtain ⟨hblank, hfrom, -, hto⟩ := h
    intro c hc
    have hpad : c ∈ before ++ after ++ before' ++ after' → isSeparator c = false :=
      fun hc => isSeparator_of_isBlank (List.all_eq_true.1 hblank c hc)
    simp only [Entry.text, List.mem_append, List.mem_cons] at hc hpad
    rcases hc with ((hc | hc) | hc) | rfl | (hc | hc) | hc
    · exact hpad (.inl (.inl (.inl hc)))
    · exact hfrom.noSeparator c hc
    · exact hpad (.inl (.inl (.inr hc)))
    · decide
    · exact hpad (.inl (.inr hc))
    · exact hto.noSeparator c hc
    · exact hpad (.inr hc)

/-- **However pairs are laid out**, with blanks around their sides, empty entries between them
and any of the separators, they are read as they were written, in their order. -/
theorem pmParsePathMappingEnv_layout {entry : Entry} {rest : List (Char × Entry)}
    (hentry : entry.Ok) (hrest : ∀ e ∈ rest, isSeparator e.1 = true ∧ e.2.Ok) :
    pmParsePathMappingEnv (layout entry rest) =
      (entry :: rest.map Prod.snd).filterMap Entry.pair? := by
  have hsplit : ∀ (entry : Entry) (rest : List (Char × Entry)), entry.Ok →
      (∀ e ∈ rest, isSeparator e.1 = true ∧ e.2.Ok) →
      (layout entry rest).splitOnP isSeparator =
        (entry :: rest.map Prod.snd).map Entry.text := by
    intro entry rest
    induction rest generalizing entry with
    | nil =>
      intro hentry _
      exact List.splitOnP_eq_singleton hentry.noSeparator
    | cons e rest ih =>
      obtain ⟨sep, entry'⟩ := e
      intro hentry hrest
      obtain ⟨⟨hsep, hentry'⟩, hrest⟩ := List.forall_mem_cons.1 hrest
      rw [layout, List.splitOnP_append_cons_of_forall_mem hentry.noSeparator sep hsep,
        ih entry' hentry' hrest]
      rfl
  unfold pmParsePathMappingEnv
  rw [hsplit entry rest hentry hrest, List.filterMap_map]
  refine List.filterMap_congr fun e he => parsePair_entry ?_
  rcases List.mem_cons.1 he with rfl | he
  · exact hentry
  · obtain ⟨d, hd, rfl⟩ := List.mem_map.1 he
    exact (hrest d hd).2

theorem pmLoadExcludesFromEnv_some {env : Text} (hne : env ≠ []) :
    pmLoadExcludesFromEnv (some env) =
      (((env.splitOnP isSeparator).filter (· ≠ [])).take LIMIT).mapM fun entry =>
        (pmNormalizePathInplace (entry.take (MAX_PATH - 1))).map fun s => ⟨s, hasWildcard s⟩ := by
  cases env with
  | nil => exact absurd rfl hne
  | cons c env => rfl

theorem pmLoadMappingsFromEnv_some {env : Text} (hne : env ≠ []) :
    pmLoadMappingsFromEnv (some env) = ((pmParsePathMappingEnv env).take LIMIT).map fun p =>
      ⟨p.1, p.2, hasWildcard p.1⟩ := by
  cases env with
  | nil => exact absurd rfl hne
  | cons c env => rfl

/-- **What is asked for is kept**: the pairs as they were written, up to as many as there is
room for. -/
theorem pmLoadMappingsFromEnv_layout (entry : Entry) (rest : List (Char × Entry))
    (hentry : entry.Ok) (hrest : ∀ e ∈ rest, isSeparator e.1 = true ∧ e.2.Ok)
    (hne : layout entry rest ≠ []) :
    (pmLoadMappingsFromEnv (some (layout entry rest))).map (fun m => (m.fromPath, m.toPath)) =
      ((entry :: rest.map Prod.snd).filterMap Entry.pair?).take LIMIT := by
  rw [pmLoadMappingsFromEnv_some hne, pmParsePathMappingEnv_layout hentry hrest, List.map_map]
  exact List.map_id _

/-- Two pairs, with all that may stand around them. -/
theorem pmLoadMappingsFromEnv_layout_two :
    (pmLoadMappingsFromEnv (some " /usr/lib : /app/lib,\n,/etc:/app/etc".toList)).map
      (fun m => (m.fromPath, m.toPath)) =
        [("/usr/lib".toList, "/app/lib".toList), ("/etc".toList, "/app/etc".toList)] :=
  pmLoadMappingsFromEnv_layout
    (.pair [' '] "/usr/lib".toList [' '] [' '] "/app/lib".toList [])
    [(',', .blank []), ('\n', .blank []),
      (',', .pair [] "/etc".toList [] [] "/app/etc".toList [])]
    (by decide) (by decide) (by decide)

/-! ### What has been loaded -/

/-- A normalized path is absolute. -/
theorem head_normalForm (loc : List Text) (cs : List (Component Text)) :
    (normalForm loc cs).head? = some '/' := by
  unfold normalForm pathOf
  cases loc with
  | nil => rfl
  | cons name loc =>
    rw [if_neg (List.cons_ne_nil name loc), render_cons]
    split_ifs <;> rfl

/-- A loop that never fails returns something for each element. -/
theorem mapM_eq_some {α β : Type} {f : α → Option β} {P : β → Prop} {l : List α}
    (h : ∀ a ∈ l, ∃ b, f a = some b ∧ P b) :
    ∃ bs, l.mapM f = some bs ∧ bs.length = l.length ∧ ∀ b ∈ bs, P b := by
  induction l with
  | nil => exact ⟨[], rfl, rfl, fun _ hb => absurd hb List.not_mem_nil⟩
  | cons a l ih =>
    obtain ⟨hhead, htail⟩ := List.forall_mem_cons.1 h
    obtain ⟨b, hb, hPb⟩ := hhead
    obtain ⟨bs, hbs, hlength, hPbs⟩ := ih htail
    refine ⟨b :: bs, ?_, by rw [List.length_cons, List.length_cons, hlength],
      List.forall_mem_cons.2 ⟨hPb, hPbs⟩⟩
    rw [List.mapM_cons, hb, hbs]
    rfl

/-- **There is room for the exclusions**: each is normalized in a buffer it fits into, and no
more are kept than there are entries. -/
theorem pmLoadExcludesFromEnv_eq (env : Option Text) :
    ∃ excludes, pmLoadExcludesFromEnv env = some excludes ∧ excludes.length ≤ LIMIT ∧
      ∀ e ∈ excludes, e.isGlob = hasWildcard e.pattern ∧ e.pattern.head? = some '/' ∧
        e.pattern.length < MAX_PATH := by
  unfold pmLoadExcludesFromEnv
  split
  · exact ⟨pmDefaultExcludes, rfl, by decide, by decide⟩
  · have hentry : ∀ entry : Text, ∃ e : Exclude,
        (pmNormalizePathInplace (entry.take (MAX_PATH - 1))).map (fun s => ⟨s, hasWildcard s⟩) =
          some e ∧ e.isGlob = hasWildcard e.pattern ∧ e.pattern.head? = some '/' ∧
            e.pattern.length < MAX_PATH := by
      intro entry
      have hlength : (entry.take (MAX_PATH - 1)).length < MAX_PATH :=
        (List.length_take_le _ _).trans_lt (by decide)
      rw [pmNormalizePathInplace_eq _ hlength, Option.map_some]
      refine ⟨_, rfl, rfl, ?_, ?_⟩
      · dsimp only
        rw [List.head?_take, if_neg (by decide), head_normalForm]
      · exact (List.length_take_le _ _).trans_lt (by decide)
    obtain ⟨excludes, hexcludes, hlength, hall⟩ := mapM_eq_some fun entry _ => hentry entry
    exact ⟨excludes, hexcludes, hlength ▸ List.length_take_le _ _, hall⟩

theorem pmLoadMappingsFromEnv_spec (env : Option Text) :
    (pmLoadMappingsFromEnv env).length ≤ LIMIT ∧
      ∀ m ∈ pmLoadMappingsFromEnv env, m.isGlob = hasWildcard m.fromPath := by
  unfold pmLoadMappingsFromEnv
  split
  · exact ⟨by decide, by decide⟩
  · refine ⟨?_, fun m hm => ?_⟩
    · rw [List.length_map]
      exact List.length_take_le _ _
    · obtain ⟨pair, -, rfl⟩ := List.mem_map.1 hm
      rfl

theorem excludes_length_le (env : Option Text) :
    ((pmLoadExcludesFromEnv env).getD []).length ≤ LIMIT := by
  obtain ⟨excludes, hexcludes, hlength, -⟩ := pmLoadExcludesFromEnv_eq env
  rwa [hexcludes]

theorem excludes_isGlob (env : Option Text) :
    ∀ e ∈ (pmLoadExcludesFromEnv env).getD [], e.isGlob = hasWildcard e.pattern := by
  obtain ⟨excludes, hexcludes, -, hall⟩ := pmLoadExcludesFromEnv_eq env
  rw [hexcludes]
  exact fun e he => (hall e he).1

/-- `pm_init_common_config(config)`, with what `getenv` returns. -/
def pmInitCommonConfig (getenv : Text → Option Text) : CommonConfig where
  mappings := pmLoadMappingsFromEnv (getenv "PATH_MAPPING".toList)
  excludes := (pmLoadExcludesFromEnv (getenv "PATH_MAPPING_EXCLUDE".toList)).getD []
  mappings_le := (pmLoadMappingsFromEnv_spec _).1
  excludes_le := excludes_length_le _
  mappings_glob := (pmLoadMappingsFromEnv_spec _).2
  excludes_glob := excludes_isGlob _
  relsymlink := (getenv "PATHMAP_RELSYMLINK".toList).elim false (· = ['1'])
  reverseEnabled := (getenv "PATHMAP_REVERSE".toList).elim true (· = ['1'])

end PathMap
end Sharun
