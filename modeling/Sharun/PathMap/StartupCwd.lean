/-
# The directory a process starts in

When `lib/path-mapping.c` is loaded, the process may be in a directory that is mapped to one
that is not there.  `path_mapping_init` then looks for another directory: the place of the
current one, the home directory, or the root.

Whatever the mappings are, what it finds is a directory (`isDirectory_of_plan`).  With plain
directories, the process is afterwards where its name leads to, so that all its calls find what
they mean, unless it was started in a directory that is hidden by its place
(`startup_settled`).
-/

import Sharun.PathMap.Listing
import Sharun.PathMap.Process

namespace Sharun
namespace PathMap

open Sharun.Basis
open Sharun.Launch (Text)

/-- `pm_cwd_plan` with a target. -/
structure CwdPlan where
  chdirTarget : Text
  pwdValue : Text
  deriving DecidableEq

/-- What is asked of the system: `pm_real_stat_is_dir`, `HOME` and the home directory in the
user database. -/
structure StartupHost where
  statIsDir : Text → Bool
  homeEnv : Option Text
  pwDir : Option Text

variable (L : Layer) (host : StartupHost)

/-- `strncpy` into a buffer of `MAX_PATH` characters that is zero. -/
def copied (text : Text) : Text := text.take (MAX_PATH - 1)

/-- `pm_virtualize_cwd_string(real, out, sizeof out, config)`, nothing for `real` itself. -/
def pmVirtualizeCwdString (real : Text) : Safe (Option Text) :=
  if real = [] ∨ pmIsUnderAnyToPrefix L real = false then some none
  else match L.applyReverse real with
  | .unchanged => some none
  | .changed virt => some (if virt.length + 1 ≤ MAX_PATH then some virt else none)
  | .overrun => none

/-- `pm_startup_cwd_needs_fix(real_cwd, config)`. -/
def pmStartupCwdNeedsFix (realCwd : Text) : Bool :=
  if realCwd = [] then false
  else if L.isExcluded realCwd then false
  else match L.applyMapping realCwd with
  | none => false
  | some fwd => !host.statIsDir fwd

/-- `pm_set_root_fallback(out_plan)`. -/
def rootFallback : CwdPlan := ⟨['/'], ['/']⟩

/-- The home directory. -/
def StartupHost.home : Option Text :=
  match host.homeEnv with
  | some (c :: rest) => some (normalizeBuffer (c :: rest))
  | _ => match host.pwDir with
    | some (c :: rest) => some (normalizeBuffer (c :: rest))
    | _ => none

/-- A plan to go to a directory; its name is what the process is told. -/
def planTo (target : Text) : Safe CwdPlan :=
  (pmVirtualizeCwdString L target).map fun virt =>
    ⟨copied target, copied (virt.getD target)⟩

/-- The plan for the home directory, or for the root. -/
def homePlan : Safe CwdPlan :=
  match host.home with
  | none => some rootFallback
  | some home =>
    let mapped := (L.applyMapping home).getD home
    if host.statIsDir mapped then planTo L mapped else some rootFallback

/-- The plan before it is validated. -/
def firstPlan (realCwd : Text) : Safe CwdPlan :=
  (pmVirtualizeCwdString L realCwd).bind fun
    | some virt =>
      some ⟨copied ((L.applyMapping virt).getD realCwd), copied virt⟩
    | none =>
      match L.applyMapping realCwd with
      | some target => planTo L target
      | none => some rootFallback

/-- `pm_build_validated_startup_cwd_plan(real_cwd, out_plan, config)`, nothing where there is no
target. -/
def pmBuildValidatedStartupCwdPlan (realCwd : Text) : Safe (Option CwdPlan) :=
  if L.isExcluded realCwd then some none
  else if realCwd = [] then some none
  else (firstPlan L realCwd).bind fun plan =>
    if host.statIsDir plan.chdirTarget then some (some plan) else (homePlan L host).map some

variable {L host}

theorem copied_of_length_lt {text : Text} (h : text.length < MAX_PATH) : copied text = text :=
  List.take_of_length_le (by omega)

theorem length_normalizeBuffer (path : Text) : (normalizeBuffer path).length < MAX_PATH := by
  have h := exists_normalizeBuffer path
  rw [pmNormalizePathInplace_eq _ (length_take_lt path)] at h
  rw [← Option.some.inj h]
  exact length_take_lt _

theorem length_home {home : Text} (h : host.home = some home) : home.length < MAX_PATH := by
  unfold StartupHost.home at h
  split at h
  · exact Option.some.inj h ▸ length_normalizeBuffer _
  · split at h
    · exact Option.some.inj h ▸ length_normalizeBuffer _
    · cases h

theorem length_applyMapping {path out : Text} (h : L.applyMapping path = some out) :
    out.length < MAX_PATH := length_of_pmApplyMappingWithConfig (by decide) h

/-- The home directory is only planned for when it is one. -/
theorem isDirectory_of_homePlan (hroot : host.statIsDir ['/'] = true) {plan : CwdPlan}
    (h : homePlan L host = some plan) : host.statIsDir plan.chdirTarget = true := by
  unfold homePlan at h
  split at h
  · exact Option.some.inj h ▸ hroot
  · rename_i home hsome
    dsimp only at h
    by_cases hmapped : host.statIsDir ((L.applyMapping home).getD home) = true
    · rw [if_pos hmapped] at h
      obtain ⟨virt, -, rfl⟩ := Option.map_eq_some_iff.1 h
      have hlength : ((L.applyMapping home).getD home).length < MAX_PATH := by
        cases hmapping : L.applyMapping home with
        | none => exact length_home hsome
        | some out => exact length_applyMapping hmapping
      dsimp only
      rw [copied_of_length_lt hlength]
      exact hmapped
    · rw [if_neg hmapped] at h
      exact Option.some.inj h ▸ hroot

/-- **The plan leads to a directory**, whatever the mappings are. -/
theorem isDirectory_of_plan (hroot : host.statIsDir ['/'] = true) {realCwd : Text}
    {plan : CwdPlan} (h : pmBuildValidatedStartupCwdPlan L host realCwd = some (some plan)) :
    host.statIsDir plan.chdirTarget = true := by
  rw [pmBuildValidatedStartupCwdPlan] at h
  by_cases hexcluded : L.isExcluded realCwd = true
  · rw [if_pos hexcluded] at h
    cases h
  by_cases hnil : realCwd = []
  · rw [if_neg hexcluded, if_pos hnil] at h
    cases h
  rw [if_neg hexcluded, if_neg hnil] at h
  obtain ⟨first, -, h⟩ := Option.bind_eq_some_iff.1 h
  by_cases hfirst : host.statIsDir first.chdirTarget = true
  · rw [if_pos hfirst] at h
    exact Option.some.inj (Option.some.inj h) ▸ hfirst
  · rw [if_neg hfirst] at h
    obtain ⟨_, hhome, heq⟩ := Option.map_eq_some_iff.1 h
    exact Option.some.inj heq ▸ isDirectory_of_homePlan hroot hhome

/-! ### Plain directories -/

section Plain

variable {T : FileTree (List Text) Text} {path : Text} {loc : List Text}

theorem pmIsUnderAnyToPrefix_iff (h : L.Plain) (hpath : Normalized path loc) :
    pmIsUnderAnyToPrefix L path = true ↔ ∃ e ∈ table L.config.mappings, e.2 <+: loc := by
  unfold pmIsUnderAnyToPrefix
  rw [hpath.head?, decide_eq_true rfl, Bool.true_and, List.any_eq_true]
  constructor
  · rintro ⟨m, hm, hmatches⟩
    obtain ⟨hplain, -⟩ := h.mappings m hm
    rw [hplain.notGlob, if_neg (by simp)] at hmatches
    exact ⟨_, List.mem_map_of_mem hm, (hplain.toPath_matches hpath).1 hmatches⟩
  · rintro ⟨_, he, hbelow⟩
    obtain ⟨m, hm, rfl⟩ := List.mem_map.1 he
    obtain ⟨hplain, -⟩ := h.mappings m hm
    refine ⟨m, hm, ?_⟩
    rw [hplain.notGlob, if_neg (by simp)]
    exact (hplain.toPath_matches hpath).2 hbelow

/-- The name of a place, of which every path gets a path. -/
theorem virtualize_plain (h : L.Plain) (hpath : Normalized path loc)
    (hfits : (render (L.nameOf loc)).length + 2 < MAX_PATH) :
    ∃ virt, pmVirtualizeCwdString L path = some virt ∧
      (virt = none ↔ ¬∃ e ∈ table L.config.mappings, e.2 <+: loc) ∧
      Normalized (virt.getD path) (L.nameOf loc) := by
  have hne : path ≠ [] := by
    intro hnil
    have hhead := hpath.head?
    rw [hnil] at hhead
    exact absurd hhead (by simp)
  unfold pmVirtualizeCwdString
  by_cases hkept : ∃ e ∈ table L.config.mappings, e.2 <+: loc
  · have hunder := (pmIsUnderAnyToPrefix_iff h hpath).2 hkept
    have hnormalized : Normalized (backwardPath L.config.mappings loc path) (L.nameOf loc) :=
      normalized_backwardPath hpath (nameOf_ne_nil h hkept)
    have hle := hnormalized.length_le
    rw [if_neg (not_or.2 ⟨hne, by rw [hunder]; simp⟩), Layer.applyReverse,
      pmApplyReverseMappingWithConfig_plain L.fnmatch h.mappings hpath (by decide),
      if_pos ⟨hkept, by omega⟩]
    dsimp only
    rw [if_pos (by omega)]
    exact ⟨_, rfl, by simp [hkept], hnormalized⟩
  · have hunder : pmIsUnderAnyToPrefix L path = false := by
      rw [← Bool.not_eq_true, pmIsUnderAnyToPrefix_iff h hpath]
      exact hkept
    rw [if_pos (.inr hunder)]
    refine ⟨none, rfl, by simp [hkept], ?_⟩
    rw [Option.getD_none, pathOf_of_not_kept hkept]
    exact hpath

/-- The path of the place of a location, whether it is excluded or not. -/
theorem applyMapping_plain (h : L.Plain) (hpath : Normalized path loc)
    (hfits : (render (forward (table L.config.mappings) loc)).length + 2 < MAX_PATH) :
    Normalized ((L.applyMapping path).getD path) (forward (table L.config.mappings) loc) ∧
      (L.applyMapping path = none ↔ forward (table L.config.mappings) loc = loc) := by
  rw [Layer.applyMapping, pmApplyMappingWithConfig_plain L.fnmatch MAX_PATH
    (fun m hm => (h.mappings m hm).1) hpath]
  by_cases hforward : forward (table L.config.mappings) loc = loc
  · rw [if_pos (.inl hforward), hforward]
    exact ⟨hpath, iff_of_true rfl rfl⟩
  · have hnormalized : Normalized (forwardPath L.config.mappings loc path)
        (forward (table L.config.mappings) loc) :=
      normalized_forwardPath hpath (toLoc_ne_of_kept h (kept_of_forward hforward))
    have hle := hnormalized.length_le
    rw [if_neg (not_or.2 ⟨hforward, by omega⟩)]
    exact ⟨hnormalized, iff_of_false (by simp) hforward⟩

/-- A plan for a directory that is where its name says. -/
theorem planTo_plain (h : L.Plain) (hpath : Normalized path loc)
    (hlength : path.length < MAX_PATH)
    (hfits : (render (L.nameOf loc)).length + 2 < MAX_PATH) :
    ∃ pwd, planTo L path = some ⟨path, pwd⟩ ∧ Normalized pwd (L.nameOf loc) := by
  obtain ⟨virt, hvirt, -, hnormalized⟩ := virtualize_plain h hpath hfits
  have hle := hnormalized.length_le
  refine ⟨virt.getD path, ?_, hnormalized⟩
  rw [planTo, hvirt, Option.map_some, copied_of_length_lt hlength,
    copied_of_length_lt (by omega)]

/-! ### From the start on -/

variable (L) (T : FileTree (List Text) Text) (homeEnv pwDir : Option Text)

/-- The system as a process in a directory finds it. -/
def startupHost (cwd : List Text) : StartupHost :=
  ⟨fun path => (lookup T cwd path).any T.isDirectory, homeEnv, pwDir⟩

/-- `path_mapping_init()`: the current directory then, and what `PWD` is set to. -/
def pathMappingInit (cwd : List Text) : Safe (List Text × Option Text) :=
  let realCwd := normalizeBuffer (pathOf cwd)
  let host := startupHost T homeEnv pwDir cwd
  if pmStartupCwdNeedsFix L host realCwd then
    (pmBuildValidatedStartupCwdPlan L host realCwd).bind fun
      | none => some (cwd, none)
      | some plan => (call L T "chdir".toList cwd plan.chdirTarget).map fun
        | none => (cwd, none)
        | some found =>
          if T.isDirectory found then (found, some plan.pwdValue) else (cwd, none)
  else some (cwd, none)

/-- A location whose path and name fit into buffers, and whose name is not excluded if it is a
place. -/
structure Fit (loc : List Text) : Prop where
  proper : ∀ name ∈ loc, Proper name
  path : (render loc).length + 2 < MAX_PATH
  name : (render (L.nameOf loc)).length + 2 < MAX_PATH
  named : (∃ e ∈ table L.config.mappings, e.2 <+: loc) → ¬L.Excluded (L.nameOf loc)

variable {L T homeEnv pwDir} {cwd loc : List Text}

/-- A directory that is not mapped elsewhere is where its name leads. -/
theorem settled_of_fit (hL : L.Plain) (hdir : T.isDirectory loc = true) (h : Fit L loc)
    (hplace : L.place loc = loc) : Settled L T loc := by
  refine ⟨h.proper, hdir, ?_, h.path, ?_⟩
  · by_cases hkept : ∃ e ∈ table L.config.mappings, e.2 <+: loc
    · rw [Layer.place, if_neg (h.named hkept)]
      exact forward_backward hL.apart hkept
    · rw [pathOf_of_not_kept hkept, hplace]
  · have hle := (normalized_pathOf (proper_nameOf (L := L) h.proper)).length_le
    have hname := h.name
    omega

theorem place_forward (loc : List Text) : L.place (forward (table L.config.mappings) loc) =
    forward (table L.config.mappings) loc := by
  rw [Layer.place, forward_forward, ite_self]

/-- The call of `chdir` that a plan leads to. -/
theorem chdir_plan (hL : L.Plain) (hT : T.Located) {target : Text} (hpath : Normalized target loc)
    (hlength : target.length < MAX_PATH) (hfits : (render loc).length + 2 < MAX_PATH)
    (hplace : L.place loc = loc) (hdir : T.isDirectory loc = true) :
    call L T "chdir".toList cwd target = some (some loc) := by
  obtain ⟨_, -, hfix⟩ := fixPath_absolute hL (kernelReadlink cwd) "chdir".toList hpath.head? hlength
    (by rwa [hpath.lexical, hplace])
  rw [hpath.lexical, if_pos hplace] at hfix
  rw [call, hfix, Option.map_some, Option.getD_none, lookup_normalized hT hpath hdir]

theorem statIsDir_iff (hT : T.Located) (hpath : Normalized path loc) :
    (startupHost T homeEnv pwDir cwd).statIsDir path = true ↔ T.isDirectory loc = true := by
  unfold startupHost
  dsimp only
  constructor
  · intro h
    cases hlookup : lookup T cwd path with
    | none => rw [hlookup] at h; exact absurd h (by simp)
    | some found =>
      rw [hlookup] at h
      rwa [eq_of_lookup hT hlookup, followPath_normalized hpath] at h
  · intro hdir
    rw [lookup_normalized hT hpath hdir]
    exact hdir

/-- The plan for the home directory, or for the root: a directory that is where its name says,
which is what the process is told. -/
theorem homePlan_plain (hL : L.Plain) (hT : T.Located) (hroot : T.isDirectory [] = true)
    (hhome : ∀ home, (startupHost T homeEnv pwDir cwd).home = some home →
      ∃ loc, Normalized home loc ∧ Fit L (forward (table L.config.mappings) loc)) :
    ∃ plan loc, homePlan L (startupHost T homeEnv pwDir cwd) = some plan ∧
      Normalized plan.chdirTarget loc ∧ plan.chdirTarget.length < MAX_PATH ∧
      Normalized plan.pwdValue (L.nameOf loc) ∧ T.isDirectory loc = true ∧ Fit L loc ∧
      L.place loc = loc := by
  have hempty : ¬∃ e ∈ table L.config.mappings, e.2 <+: [] := by
    intro hkept
    exact toLoc_ne_of_kept hL hkept rfl
  have hrootPlace : L.place [] = [] := by
    have hforward : forward (table L.config.mappings) [] = [] := by
      refine forward_of_none (deepest_eq_none_iff.2 ?_)
      intro e he hbelow
      obtain ⟨m, hm, rfl⟩ := List.mem_map.1 he
      exact (hL.mappings m hm).1.fromLoc_ne (List.prefix_nil.1 hbelow)
    rw [Layer.place, hforward, ite_self]
  have hrootName : L.nameOf [] = [] := pathOf_of_not_kept hempty
  have hslash : Normalized ['/'] [] := ⟨fun _ h => absurd h List.not_mem_nil, .inl rfl⟩
  have hrootFit : Fit L [] := ⟨hslash.proper, by decide, by rw [hrootName]; decide,
    fun hkept => absurd hkept hempty⟩
  have hfallback : Normalized rootFallback.chdirTarget [] ∧
      rootFallback.chdirTarget.length < MAX_PATH ∧
      Normalized rootFallback.pwdValue (L.nameOf []) ∧ T.isDirectory [] = true ∧ Fit L [] ∧
      L.place [] = [] :=
    ⟨hslash, by decide, by rw [hrootName]; exact hslash, hroot, hrootFit, hrootPlace⟩
  unfold homePlan
  cases hsome : (startupHost T homeEnv pwDir cwd).home with
  | none => exact ⟨rootFallback, [], rfl, hfallback⟩
  | some home =>
    obtain ⟨loc, hpath, hfit⟩ := hhome home hsome
    obtain ⟨hmapped, -⟩ := applyMapping_plain hL hpath hfit.path
    dsimp only
    by_cases hdir : T.isDirectory (forward (table L.config.mappings) loc) = true
    · have hle := hmapped.length_le
      have hlength : ((L.applyMapping home).getD home).length < MAX_PATH := by
        have hfits := hfit.path
        omega
      obtain ⟨pwd, hplan, hpwd⟩ := planTo_plain hL hmapped hlength hfit.name
      rw [if_pos ((statIsDir_iff hT hmapped).2 hdir), hplan]
      exact ⟨_, _, rfl, hmapped, hlength, hpwd, hdir, hfit, place_forward loc⟩
    · rw [if_neg fun h => hdir ((statIsDir_iff hT hmapped).1 h)]
      exact ⟨rootFallback, [], rfl, hfallback⟩

/-- **From the start on** a process is where its name leads, and `PWD` is this name where it
was changed, unless it was started in a directory that is hidden by its place. -/
theorem startup_settled (hL : L.Plain) (hT : T.Located) (hdir : T.isDirectory cwd = true)
    (hcwd : Fit L cwd) (hfits : (render (L.place cwd)).length + 2 < MAX_PATH)
    (hhidden : L.place cwd = cwd ∨ T.isDirectory (L.place cwd) = false)
    (hhome : ∀ home, (startupHost T homeEnv pwDir cwd).home = some home →
      ∃ loc, Normalized home loc ∧ Fit L (forward (table L.config.mappings) loc)) :
    ∃ cwd' pwd, pathMappingInit L T homeEnv pwDir cwd = some (cwd', pwd) ∧ Settled L T cwd' ∧
      ∀ text, pwd = some text → Normalized text (L.nameOf cwd') := by
  have hpathOf := normalized_pathOf hcwd.proper
  have hle := hpathOf.length_le
  have hpath := hcwd.path
  have hreal : Normalized (normalizeBuffer (pathOf cwd)) cwd := by
    have hbuffer := normalized_normalizeBuffer (by omega) hpathOf.head?
    rwa [hpathOf.lexical] at hbuffer
  have hroot : T.isDirectory [] = true := FileTree.isDirectory_of_append hT [] cwd hdir
  have hne : normalizeBuffer (pathOf cwd) ≠ [] := by
    intro hnil
    have hhead := hreal.head?
    rw [hnil] at hhead
    exact absurd hhead (by simp)
  unfold pathMappingInit
  dsimp only
  by_cases hplace : L.place cwd = cwd
  · -- nothing is mapped, so that nothing has to be done
    have hneeds : pmStartupCwdNeedsFix L (startupHost T homeEnv pwDir cwd)
        (normalizeBuffer (pathOf cwd)) = false := by
      rw [pmStartupCwdNeedsFix, if_neg hne]
      by_cases hexcluded : L.isExcluded (normalizeBuffer (pathOf cwd)) = true
      · rw [if_pos hexcluded]
      · have hforward : forward (table L.config.mappings) cwd = cwd := by
          unfold Layer.place at hplace
          rwa [if_neg fun h => hexcluded ((isExcluded_iff hL hreal).2 h)] at hplace
        have hnone := (applyMapping_plain hL hreal (by rwa [hforward])).2.2 hforward
        rw [if_neg hexcluded, hnone]
    rw [hneeds, if_neg (by simp)]
    exact ⟨cwd, none, rfl, settled_of_fit hL hdir hcwd hplace, by simp⟩
  · obtain ⟨hexcluded, hforward⟩ := forward_eq_of_place hplace
    have hmissing := hhidden.resolve_left hplace
    rw [hforward] at hplace hfits hmissing
    obtain ⟨hmapped, hnone⟩ := applyMapping_plain hL hreal hfits
    have hfree : ¬∃ e ∈ table L.config.mappings, e.2 <+: cwd :=
      fun hkept => hplace (forward_of_kept hkept)
    have hexcluded' : ¬L.isExcluded (normalizeBuffer (pathOf cwd)) = true :=
      fun h => hexcluded ((isExcluded_iff hL hreal).1 h)
    have hname : L.nameOf (forward (table L.config.mappings) cwd) = cwd :=
      backward_forward (List.pairwise_append.1 hL.apart).2.1 hfree
    obtain ⟨target, htarget⟩ := Option.ne_none_iff_exists'.1 fun h => hplace (hnone.1 h)
    rw [htarget, Option.getD_some] at hmapped
    have hstat : ¬(startupHost T homeEnv pwDir cwd).statIsDir target = true := by
      rw [statIsDir_iff hT hmapped, hmissing]
      exact Bool.false_ne_true
    have hneeds : pmStartupCwdNeedsFix L (startupHost T homeEnv pwDir cwd)
        (normalizeBuffer (pathOf cwd)) = true := by
      rw [pmStartupCwdNeedsFix, if_neg hne, if_neg hexcluded', htarget]
      simpa using hstat
    have hfirst : ∃ pwd, firstPlan L (normalizeBuffer (pathOf cwd)) = some ⟨target, pwd⟩ := by
      obtain ⟨virt, hvirt, hiff, -⟩ := virtualize_plain hL hreal hcwd.name
      obtain ⟨pwd, hplan, -⟩ := planTo_plain hL hmapped (length_applyMapping htarget)
        (by rwa [hname])
      refine ⟨pwd, ?_⟩
      rw [firstPlan, hvirt, hiff.2 hfree, Option.bind_some, htarget]
      exact hplan
    obtain ⟨_, hfirst⟩ := hfirst
    obtain ⟨plan, loc, hplan, htargetPath, hlength, hpwd, hdir', hfit, hplace'⟩ :=
      homePlan_plain hL hT hroot hhome
    have hbuilt : pmBuildValidatedStartupCwdPlan L (startupHost T homeEnv pwDir cwd)
        (normalizeBuffer (pathOf cwd)) = some (some plan) := by
      rw [pmBuildValidatedStartupCwdPlan, if_neg hexcluded', if_neg hne, hfirst,
        Option.bind_some, if_neg hstat, hplan, Option.map_some]
    rw [hneeds, if_pos rfl, hbuilt, Option.bind_some]
    dsimp only
    rw [chdir_plan hL hT htargetPath hlength hfit.path hplace' hdir', Option.map_some]
    dsimp only
    rw [if_pos hdir']
    refine ⟨loc, some plan.pwdValue, rfl, settled_of_fit hL hdir' hfit hplace', ?_⟩
    intro text htext
    exact Option.some.inj htext ▸ hpwd

/-- A tree in which only `/app` is missing. -/
def withoutApp : FileTree (List Text) Text :=
  ⟨[], fun x =>
    if x.head? = some "app".toList then .other
    else .directory x.dropLast fun n => if x ++ [n] = ["app".toList] then none else some (x ++ [n])⟩

theorem located_withoutApp : withoutApp.Located where
  root := rfl
  noLink := by
    intro x target h
    unfold withoutApp at h
    dsimp only at h
    split_ifs at h
  parent := by
    intro x parent entries h
    unfold withoutApp at h
    dsimp only at h
    split_ifs at h
    cases h
    rfl
  entry := by
    intro x parent entries n y h hn
    unfold withoutApp at h
    dsimp only at h
    split_ifs at h
    cases h
    dsimp only at hn
    split_ifs at hn
    exact (Option.some.inj hn).symm
  entered := by
    intro x n h
    have hhead : (x ++ [n]).head? ≠ some "app".toList := by
      intro happ
      rw [FileTree.isDirectory, withoutApp] at h
      dsimp only at h
      rw [if_pos happ] at h
      exact Bool.false_ne_true h
    have hx : x.head? ≠ some "app".toList := by
      intro happ
      cases x with
      | nil => exact absurd happ (by simp)
      | cons m x => exact hhead happ
    refine ⟨x.dropLast, fun n => if x ++ [n] = ["app".toList] then none else some (x ++ [n]),
      if_neg hx, ?_⟩
    exact if_neg fun happ => hhead (by rw [happ]; rfl)

/-- A process that is started in `/usr` where there is no `/app` goes home. -/
theorem startup_settled_usr :
    ∃ cwd' pwd, pathMappingInit usrLayer withoutApp (some "/home".toList) none ["usr".toList] =
        some (cwd', pwd) ∧ Settled usrLayer withoutApp cwd' ∧
      ∀ text, pwd = some text → Normalized text (usrLayer.nameOf cwd') := by
  refine startup_settled plain_usrLayer located_withoutApp (by decide)
    ⟨by decide, by decide, by decide, by decide⟩ (by decide) (.inr (by decide)) ?_
  intro home hhome
  have htext : home = "/home".toList := by
    have hcomputed : (startupHost withoutApp (some "/home".toList) none ["usr".toList]).home =
      some "/home".toList := by decide
    exact Option.some.inj (hhome.symm.trans hcomputed)
  exact ⟨["home".toList], ⟨by decide, .inl htext⟩, ⟨by decide, by decide, by decide, by decide⟩⟩

end Plain

end PathMap
end Sharun
