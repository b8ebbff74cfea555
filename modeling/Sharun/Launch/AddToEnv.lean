/-
# A variable as a list

`add_to_env` of `src/utils.rs` writes an entry before the others of a variable such as
`PATH`, unless it is there already, which it sees by four comparisons on the value.

For texts that is right (`addToEnv_eq`).  But the variable and the entry are bytes.
`get_env_var` answers with nothing for a value that is not valid UTF-8, so that `add_to_env`
takes the variable for an empty one and overwrites it; and an entry that is not valid UTF-8 is
added as an empty one.  `listLike_iff` says that these, and an entry with a NUL byte, for which
`env::set_var` panics, are the cases in which the variable is not treated as a list.
-/

import Sharun.Basis.Utf8
import Sharun.Launch.Main

namespace Sharun
namespace Launch

open Sharun.Basis

/-! ### The environment in bytes -/

/-- The value of a variable: bytes without a NUL. -/
structure EnvValue where
  bytes : List UInt8
  nonzero : 0 ∉ bytes

/-- The environment of a process as `getenv` gives it. -/
abbrev RawVars := Text → Option EnvValue

/-- `env::var(name)`. -/
def envVar (vars : RawVars) (name : Text) : Option Text :=
  (vars name).bind fun value => decode value.bytes

/-- `env::set_var(key, val)`, which panics for a value with a NUL. -/
def setVar (vars : RawVars) (key val : Text) : Option RawVars :=
  if h : 0 ∈ utf8 val then none else some (Function.update vars key (some ⟨utf8 val, h⟩))

namespace RawVars

/-- `add_to_env(key, val)`, `none` when it panics. -/
def addToEnv (vars : RawVars) (key : Text) (val : List UInt8) : Option RawVars :=
  let val := (decode val).getD []
  let old := (envVar vars key).getD []
  if old = [] then setVar vars key val
  else if old ≠ val ∧ ¬ (val ++ [':']) <+: old ∧ ¬ (':' :: val) <:+ old ∧
      contains old (':' :: val ++ [':']) = false then
    setVar vars key (val ++ ':' :: old)
  else some vars

/-- Entries added one after the other. -/
def addAll (vars : RawVars) (key : Text) (es : List (List UInt8)) : Option RawVars :=
  es.foldlM (fun vars e => vars.addToEnv key e) vars

/-- The entries of a variable: those of its colon-separated value, none when it is unset. -/
def entries (vars : RawVars) (key : Text) : List (List UInt8) :=
  (vars key).elim [] fun value => elements 58 value.bytes

end RawVars

/-! ### Texts -/

/-- The four comparisons find an entry where it is. -/
theorem listed_iff {old val : Text} (hval : ':' ∉ val) (hold : old ≠ []) :
    (old ≠ val ∧ ¬ (val ++ [':']) <+: old ∧ ¬ (':' :: val) <:+ old ∧
      contains old (':' :: val ++ [':']) = false) ↔ val ∉ elements ':' old := by
  rw [elements_of_ne_nil hold, mem_splitOn_iff hval, not_or, not_or, not_or, ← contains_iff,
    Bool.not_eq_true]

/-- **`add_to_env` on texts**: an entry that is there changes nothing, another one is written
before the list. -/
theorem addToEnv_eq (vars : Vars) (key : Text) {val : Text} (hval : ':' ∉ val) :
    addToEnv vars key val =
      if val ∈ elements ':' (getEnvVar vars key) then vars
      else Function.update vars key (some (prepend ':' val (getEnvVar vars key))) := by
  unfold addToEnv
  by_cases hold : getEnvVar vars key = []
  · rw [hold, elements_nil, if_neg List.not_mem_nil]
    rfl
  · simp only [listed_iff hval hold, if_neg hold]
    rw [prepend, if_neg hold]
    split_ifs <;> rfl

namespace RawVars

variable {vars vars' : RawVars} {key : Text} {e : List UInt8} {es : List (List UInt8)}

/-- `add_to_env`, from the text it takes the variable for and the one it takes the entry for. -/
theorem addToEnv_eq {val : Text} (hval : decode e = some val ∨ decode e = none ∧ val = [])
    (hcolon : ':' ∉ val) : vars.addToEnv key e =
      if val ∈ elements ':' ((envVar vars key).getD []) then some vars
      else setVar vars key (prepend ':' val ((envVar vars key).getD [])) := by
  have hget : (decode e).getD [] = val := by
    rcases hval with h | ⟨h, rfl⟩ <;> rw [h] <;> rfl
  unfold addToEnv
  rw [hget]
  by_cases hold : (envVar vars key).getD [] = []
  · rw [hold, elements_nil, if_neg List.not_mem_nil]
    rfl
  · simp only [listed_iff hcolon hold, if_neg hold]
    rw [prepend, if_neg hold]
    split_ifs <;> rfl

/-- What the variables are taken for. -/
def texts (vars : RawVars) : Vars := envVar vars

theorem texts_setVar {t : Text} (h : setVar vars key t = some vars') :
    vars'.texts = Function.update vars.texts key (some t) := by
  unfold setVar at h
  split_ifs at h with h0
  obtain rfl := Option.some.inj h
  funext k
  unfold texts envVar
  by_cases hk : k = key
  · subst hk
    rw [Function.update_self, Function.update_self]
    exact decode_utf8 t
  · rw [Function.update_of_ne hk, Function.update_of_ne hk]

/-! ### A step that goes well -/

/-- The variable is unset, or its value is a text. -/
def Readable (vars : RawVars) (key : Text) : Prop :=
  ∀ value, vars key = some value → ∃ old : Text, value.bytes = utf8 old

/-- The entry is a text without a NUL. -/
def Addable (e : List UInt8) : Prop := 0 ∉ e ∧ ∃ val : Text, e = utf8 val

theorem utf8_colon : utf8 [':'] = [58] := by decide

theorem elements_utf8 (t : Text) : elements 58 (utf8 t) = (elements ':' t).map utf8 := by
  unfold elements
  simp only [utf8_eq_nil]
  split_ifs
  · rfl
  · exact splitOn_utf8 (by decide) utf8_colon t

/-- The entries of a variable that can be read are those of its text. -/
theorem Readable.entries_eq (h : vars.Readable key) :
    vars.entries key = (elements ':' ((envVar vars key).getD [])).map utf8 := by
  unfold entries envVar
  cases hvalue : vars key with
  | none => rfl
  | some value =>
    obtain ⟨old, hold⟩ := h value hvalue
    change elements 58 value.bytes = (elements ':' ((decode value.bytes).getD [])).map utf8
    rw [hold, decode_utf8]
    exact elements_utf8 old

theorem zero_notMem_envVar (vars : RawVars) (key : Text) :
    0 ∉ utf8 ((envVar vars key).getD []) := by
  unfold envVar
  cases vars key with
  | none => exact List.not_mem_nil
  | some value =>
    change 0 ∉ utf8 ((decode value.bytes).getD [])
    cases hold : decode value.bytes with
    | none => exact List.not_mem_nil
    | some old =>
      have hzero := value.nonzero
      rwa [decode_eq_some.1 hold] at hzero

theorem zero_notMem_prepend {val old : Text} (hval : 0 ∉ utf8 val) (hold : 0 ∉ utf8 old) :
    0 ∉ utf8 (prepend ':' val old) := by
  unfold prepend
  split_ifs
  · exact hval
  · rw [utf8_append, utf8_cons, List.mem_append, List.mem_append, not_or, not_or]
    exact ⟨hval, by decide, hold⟩

theorem exists_setVar {t : Text} (h : 0 ∉ utf8 t) : ∃ vars', setVar vars key t = some vars' :=
  ⟨_, dif_neg h⟩

/-- What is put into a variable is read back. -/
theorem setVar_eq_some {t : Text} (h : setVar vars key t = some vars') :
    vars'.Readable key ∧ vars'.entries key = (elements ':' t).map utf8 ∧
      ∀ k, k ≠ key → vars' k = vars k := by
  unfold setVar at h
  split_ifs at h with h0
  obtain rfl := Option.some.inj h
  refine ⟨fun value hvalue => ?_, ?_, fun k hk => Function.update_of_ne hk _ _⟩
  · rw [Function.update_self] at hvalue
    exact ⟨t, (congrArg EnvValue.bytes (Option.some.inj hvalue)).symm⟩
  · unfold entries
    rw [Function.update_self]
    exact elements_utf8 t

/-- No entry of an environment has a NUL. -/
theorem zero_notMem_entries {a : List UInt8} (ha : a ∈ vars.entries key) : 0 ∉ a := by
  unfold entries at ha
  cases hvalue : vars key with
  | none => rw [hvalue] at ha; exact absurd ha List.not_mem_nil
  | some value =>
    rw [hvalue] at ha
    exact fun h0 => value.nonzero ((infix_of_mem_elements ha).subset h0)

/-- **A step on what can be read** treats the variable as a list. -/
theorem Readable.addToEnv (h : vars.Readable key) (he : Addable e) (hne : e ≠ [])
    (hcolon : 58 ∉ e) : ∃ vars', vars.addToEnv key e = some vars' ∧ vars'.Readable key ∧
      vars'.entries key = (vars.entries key).insert e ∧
      (e ∈ vars.entries key → vars' = vars) ∧ ∀ k, k ≠ key → vars' k = vars k := by
  obtain ⟨h0, val, rfl⟩ := he
  rw [Ne, utf8_eq_nil] at hne
  rw [mem_utf8_iff (by decide) utf8_colon] at hcolon
  have hmem : utf8 val ∈ vars.entries key ↔ val ∈ elements ':' ((envVar vars key).getD []) := by
    rw [h.entries_eq, List.mem_map_of_injective utf8_injective]
  rw [RawVars.addToEnv_eq (.inl (decode_utf8 val)) hcolon]
  by_cases hin : val ∈ elements ':' ((envVar vars key).getD [])
  · rw [if_pos hin]
    exact ⟨vars, rfl, h, (List.insert_of_mem (hmem.2 hin)).symm, fun _ => rfl, fun _ _ => rfl⟩
  · rw [if_neg hin]
    have h0' : 0 ∉ utf8 (prepend ':' val ((envVar vars key).getD [])) :=
      zero_notMem_prepend h0 (zero_notMem_envVar vars key)
    obtain ⟨vars', hset⟩ : ∃ vars', setVar vars key _ = some vars' := exists_setVar h0'
    obtain ⟨hread, hentries, hframe⟩ := setVar_eq_some hset
    refine ⟨vars', hset, hread, ?_, fun hin' => absurd (hmem.1 hin') hin, hframe⟩
    rw [hentries, elements_prepend hne hcolon, List.map_cons, ← h.entries_eq,
      List.insert_of_not_mem fun hin' => hin (hmem.1 hin')]

/-- **A run on what can be read** inserts the entries one after the other. -/
theorem Readable.addAll (h : vars.Readable key) (hes : ∀ e ∈ es, Addable e ∧ e ≠ [] ∧ 58 ∉ e) :
    ∃ vars', vars.addAll key es = some vars' ∧ vars'.Readable key ∧
      vars'.entries key = es.foldl (fun l e => l.insert e) (vars.entries key) := by
  induction es generalizing vars with
  | nil => exact ⟨vars, rfl, h, rfl⟩
  | cons e es ih =>
    obtain ⟨⟨he, hne, hcolon⟩, hes⟩ := List.forall_mem_cons.1 hes
    obtain ⟨vars₁, hadd, hread, hentries, -⟩ := h.addToEnv he hne hcolon
    obtain ⟨vars', hall, hread', hentries'⟩ := ih hread hes
    refine ⟨vars', ?_, hread', by rw [hentries', hentries, List.foldl_cons]⟩
    rw [RawVars.addAll, List.foldlM_cons, hadd]
    exact hall

/-! ### A step that goes wrong -/

/-- What an entry is taken for. -/
theorem exists_taken (hcolon : 58 ∉ e) :
    ∃ val : Text, (decode e = some val ∨ decode e = none ∧ val = []) ∧ ':' ∉ val := by
  cases hdecode : decode e with
  | none => exact ⟨[], .inr ⟨rfl, rfl⟩, List.not_mem_nil⟩
  | some val =>
    rw [decode_eq_some.1 hdecode, mem_utf8_iff (by decide) utf8_colon] at hcolon
    exact ⟨val, .inl rfl, hcolon⟩

/-- A variable that cannot be read has entries, and is taken for an empty one. -/
theorem entries_of_not_readable (h : ¬ vars.Readable key) :
    envVar vars key = none ∧ vars.entries key ≠ [] := by
  obtain ⟨value, hvalue, hbytes⟩ : ∃ value, vars key = some value ∧
      ∀ old : Text, value.bytes ≠ utf8 old := by
    simpa [Readable] using h
  constructor
  · unfold envVar
    rw [hvalue]
    exact Option.eq_none_iff_forall_ne_some.2 fun old hold => hbytes old (decode_eq_some.1 hold)
  · unfold entries
    rw [hvalue]
    change elements 58 value.bytes ≠ []
    rw [elements_of_ne_nil (hbytes [])]
    exact List.splitOn_ne_nil _ _

/-- **Only what can be read is treated as a list.**  An addition after which the variable has
the entry before its list, or is as it was when the entry was there, was made to a variable
that is unset or a text, and with a text without a NUL. -/
theorem readable_of_addToEnv (hcolon : 58 ∉ e)
    (hadd : vars.addToEnv key e = some vars') (hin : e ∈ vars.entries key → vars' = vars)
    (hout : e ∉ vars.entries key → vars'.entries key = e :: vars.entries key) :
    vars.Readable key ∧ Addable e := by
  obtain ⟨val, hval, hvalcolon⟩ := exists_taken hcolon
  rw [RawVars.addToEnv_eq hval hvalcolon] at hadd
  have hread : vars.Readable key := by
    by_contra hnot
    -- the value is overwritten, and at most one entry is left
    obtain ⟨hold, hnil⟩ := entries_of_not_readable hnot
    rw [hold, Option.getD_none, elements_nil, if_neg List.not_mem_nil] at hadd
    obtain ⟨hread', hentries', -⟩ := setVar_eq_some hadd
    by_cases hmem : e ∈ vars.entries key
    · rw [hin hmem] at hread'
      exact hnot hread'
    · have hlen := congrArg List.length (hentries'.symm.trans (hout hmem))
      have hone := length_elements_le hvalcolon
      have hpos := List.length_pos_of_ne_nil hnil
      rw [List.length_map, List.length_cons] at hlen
      change (elements ':' val).length = _ at hlen
      omega
  have hread' : vars'.Readable key := by
    split_ifs at hadd
    · rwa [← Option.some.inj hadd]
    · exact (setVar_eq_some hadd).1
  have hmem' : e ∈ vars'.entries key := by
    by_cases hmem : e ∈ vars.entries key
    · rwa [hin hmem]
    · rw [hout hmem]
      exact List.mem_cons_self
  refine ⟨hread, zero_notMem_entries hmem', ?_⟩
  rw [hread'.entries_eq] at hmem'
  obtain ⟨val, -, he⟩ := List.mem_map.1 hmem'
  exact ⟨val, he.symm⟩

/-! ### Whole runs -/

/-- The additions treat the variable as a list: each of them, and all of them together. -/
structure ListLike (vars : RawVars) (key : Text) (es : List (List UInt8)) : Prop where
  /-- An entry that is there changes nothing, another one comes before the list. -/
  steps : ∀ before e after, es = before ++ e :: after → ∃ vars₁ vars₂,
    vars.addAll key before = some vars₁ ∧ vars₁.addToEnv key e = some vars₂ ∧
      (e ∈ vars₁.entries key → vars₂ = vars₁) ∧
      (e ∉ vars₁.entries key → vars₂.entries key = e :: vars₁.entries key)
  /-- The list there was is a suffix, the entries added before it are in no other place, none
  is lost, and adding one again changes nothing. -/
  whole : ∃ vars' added, vars.addAll key es = some vars' ∧
    vars'.entries key = added ++ vars.entries key ∧ added.Nodup ∧
      (∀ a ∈ added, a ∈ es ∧ a ∉ vars.entries key) ∧
      ∀ e ∈ es, e ∈ vars'.entries key ∧ vars'.addToEnv key e = some vars'

theorem Readable.listLike (h : vars.Readable key)
    (hes : ∀ e ∈ es, Addable e ∧ e ≠ [] ∧ 58 ∉ e) : vars.ListLike key es := by
  constructor
  · rintro before e after rfl
    obtain ⟨hbefore, hrest⟩ := List.forall_mem_append.1 hes
    obtain ⟨he, hne, hcolon⟩ := hrest e List.mem_cons_self
    obtain ⟨vars₁, hall, hread, -⟩ := h.addAll hbefore
    obtain ⟨vars₂, hadd, -, hentries, hin, -⟩ := hread.addToEnv he hne hcolon
    refine ⟨vars₁, vars₂, hall, hadd, hin, fun hout => ?_⟩
    rw [hentries, List.insert_of_not_mem hout]
  · obtain ⟨vars', hall, hread, hentries⟩ := h.addAll hes
    obtain ⟨added, hfold, hnodup, hnew⟩ := foldl_insert (vars.entries key) es
    refine ⟨vars', added, hall, hentries.trans hfold, hnodup, hnew, fun e hmem => ?_⟩
    have hmem' : e ∈ vars'.entries key := by
      rw [hentries, mem_foldl_insert]
      exact .inr hmem
    obtain ⟨he, hne, hcolon⟩ := hes e hmem
    obtain ⟨vars'', hadd, -, -, hin, -⟩ := hread.addToEnv he hne hcolon
    exact ⟨hmem', by rw [hadd, hin hmem']⟩

theorem ListLike.readable (h : vars.ListLike key es) (hes : ∀ e ∈ es, e ≠ [] ∧ 58 ∉ e) :
    es = [] ∨ vars.Readable key ∧ ∀ e ∈ es, Addable e := by
  -- at every step the variable can be read and the entry be added
  have hstep : ∀ before e after, es = before ++ e :: after →
      ∃ vars₁, vars.addAll key before = some vars₁ ∧ vars₁.Readable key ∧ Addable e := by
    intro before e after hsplit
    obtain ⟨vars₁, vars₂, hall, hadd, hin, hout⟩ := h.steps before e after hsplit
    obtain ⟨-, hcolon⟩ := hes e (by rw [hsplit]; simp)
    exact ⟨vars₁, hall, readable_of_addToEnv hcolon hadd hin hout⟩
  cases hes' : es with
  | nil => exact .inl rfl
  | cons e es' =>
    obtain ⟨vars₁, hall, hread, -⟩ := hstep [] e es' hes'
    obtain rfl := Option.some.inj hall
    refine .inr ⟨hread, fun a ha => ?_⟩
    obtain ⟨before, after, hsplit⟩ := List.append_of_mem ha
    obtain ⟨-, -, -, hadd⟩ := hstep before a after (hes'.trans hsplit)
    exact hadd

/-- **When `add_to_env` treats a variable as a list**: when there is nothing to add, or the
variable is unset or a text, and every entry is a text without a NUL. -/
theorem listLike_iff (vars : RawVars) (key : Text) {es : List (List UInt8)}
    (hes : ∀ e ∈ es, e ≠ [] ∧ 58 ∉ e) :
    vars.ListLike key es ↔ es = [] ∨ vars.Readable key ∧ ∀ e ∈ es, Addable e := by
  refine ⟨fun h => h.readable hes, ?_⟩
  rintro (rfl | ⟨hread, hadd⟩)
  · exact ⟨by simp, vars, [], rfl, rfl, List.nodup_nil, by simp, by simp⟩
  · exact hread.listLike fun e he => ⟨hadd e he, hes e he⟩

/-- Two directories, the first of them added twice, to a `PATH` of one. -/
theorem listLike_iff_directories :
    RawVars.ListLike (fun _ => some ⟨utf8 "/bin".toList, by decide⟩) PATH
        [utf8 "/a".toList, utf8 "/b".toList, utf8 "/a".toList] ↔
      [utf8 "/a".toList, utf8 "/b".toList, utf8 "/a".toList] = [] ∨
        Readable (fun _ => some ⟨utf8 "/bin".toList, by decide⟩) PATH ∧
          ∀ e ∈ [utf8 "/a".toList, utf8 "/b".toList, utf8 "/a".toList], Addable e :=
  listLike_iff _ _ (by decide)

/-- A `PATH` that is not valid UTF-8 is lost when a directory is added. -/
theorem path_overwritten :
    ¬∀ (vars : RawVars) (key : Text) (es : List (List UInt8)), (∀ e ∈ es, e ≠ [] ∧ 58 ∉ e) →
      vars.ListLike key es := by
  intro hall
  have h := hall (fun _ => some ⟨[0xff], by decide⟩) PATH [utf8 "/a".toList] (by decide)
  rcases h.readable (by decide) with hnil | ⟨hread, -⟩
  · exact absurd hnil (List.cons_ne_nil _ _)
  · obtain ⟨old, hold⟩ := hread _ rfl
    have hdecode := decode_eq_some.2 hold
    rw [decode_ff] at hdecode
    exact Option.some_ne_none _ hdecode.symm

end RawVars

end Launch
end Sharun
