/-
# Environments as arrays of entries

The environment of a C program is an array of texts of the form `NAME=value`, in which a
name may occur more than once.  `getenv` returns the value of the first entry of a name,
`setenv` replaces that entry or appends one, and `unsetenv` removes all entries of a
name.  No name has an `=` in it, so that an entry has one name (`isEntry_unique`).
-/

import Sharun.Launch.Text

namespace Sharun
namespace Preload

open Sharun.Launch (Text)

abbrev Entries := List Text

/-- The entry of a name with a value. -/
def entry (name value : Text) : Text := name ++ '=' :: value

/-- Whether an entry is one of a name: `strncmp(e, name, strlen(name)) == 0 &&
e[strlen(name)] == '='`. -/
def isEntry (name e : Text) : Bool := (name ++ ['=']).isPrefixOf e

/-- What follows the name in one of its entries. -/
def valueIn (name e : Text) : Option Text :=
  if isEntry name e then some (e.drop (name.length + 1)) else none

/-- `getenv(name)`. -/
def getenv (es : Entries) (name : Text) : Option Text := es.findSome? (valueIn name)

/-- What `setenv(name, value, 1)` makes of the entries. -/
def setEntry (name value : Text) : Entries → Entries
  | [] => [entry name value]
  | e :: es => if isEntry name e then entry name value :: es else e :: setEntry name value es

/-- `unsetenv(name)`. -/
def unsetEntry (name : Text) (es : Entries) : Entries := es.filter fun e => !isEntry name e

variable {name name' value value' : Text} {es : Entries} {keep : Text → Bool}

theorem isEntry_iff {e : Text} : isEntry name e ↔ ∃ value, e = entry name value := by
  unfold isEntry entry
  rw [List.isPrefixOf_iff_prefix]
  constructor
  · rintro ⟨value, rfl⟩
    exact ⟨value, by rw [List.append_assoc, List.singleton_append]⟩
  · rintro ⟨value, rfl⟩
    exact ⟨value, by rw [List.append_assoc, List.singleton_append]⟩

@[simp] theorem isEntry_entry (name value : Text) : isEntry name (entry name value) :=
  isEntry_iff.2 ⟨value, rfl⟩

@[simp] theorem valueIn_entry (name value : Text) :
    valueIn name (entry name value) = some value := by
  unfold valueIn
  rw [if_pos (isEntry_entry name value)]
  unfold entry
  rw [List.drop_append, List.drop_eq_nil_of_le (by omega), List.nil_append,
    Nat.add_sub_cancel_left, List.drop_succ_cons, List.drop_zero]

theorem valueIn_eq_none {e : Text} (h : isEntry name e = false) : valueIn name e = none := by
  unfold valueIn
  rw [if_neg (by simp [h])]

theorem valueIn_eq_some {e : Text} : valueIn name e = some value ↔ e = entry name value := by
  constructor
  · intro h
    cases he : isEntry name e with
    | false =>
      rw [valueIn_eq_none he] at h
      cases h
    | true =>
      obtain ⟨value', rfl⟩ := isEntry_iff.1 he
      rw [valueIn_entry] at h
      rw [Option.some.inj h]
  · rintro rfl
    exact valueIn_entry name value

/-- **An entry has one name.** -/
theorem isEntry_unique {e : Text} (hn : '=' ∉ name) (hn' : '=' ∉ name') (h : isEntry name e)
    (h' : isEntry name' e) : name = name' := by
  obtain ⟨value, rfl⟩ := isEntry_iff.1 h
  obtain ⟨value', heq⟩ := isEntry_iff.1 h'
  have htake : ∀ {name : Text} (value : Text), '=' ∉ name →
      (entry name value).takeWhile (· ≠ '=') = name := by
    intro name value hn
    unfold entry
    have hall : ∀ c ∈ name, decide (c ≠ '=') = true := by
      rintro c hc
      rw [decide_eq_true_iff]
      rintro rfl
      exact hn hc
    rw [List.takeWhile_append_of_pos hall]
    simp
  rw [← htake value hn, heq, htake value' hn']

theorem isEntry_entry_of_ne (hn : '=' ∉ name) (hn' : '=' ∉ name') (hne : name ≠ name')
    (value : Text) : isEntry name' (entry name value) = false :=
  Bool.eq_false_iff.2 fun h => hne (isEntry_unique hn hn' (isEntry_entry name value) h)

theorem getenv_cons_of_isEntry (es : Entries) :
    getenv (entry name value :: es) name = some value := by
  unfold getenv
  rw [List.findSome?_cons, valueIn_entry]

theorem getenv_cons_of_not {e : Text} (h : isEntry name e = false) (es : Entries) :
    getenv (e :: es) name = getenv es name := by
  unfold getenv
  rw [List.findSome?_cons, valueIn_eq_none h]

theorem getenv_eq_none : getenv es name = none ↔ ∀ e ∈ es, isEntry name e = false := by
  unfold getenv
  rw [List.findSome?_eq_none_iff]
  refine forall₂_congr fun e _ => ?_
  constructor
  · intro h
    unfold valueIn at h
    split_ifs at h with he
    simpa using he
  · exact valueIn_eq_none

/-- **A variable that is set is what is looked up.** -/
theorem getenv_setEntry_self (name value : Text) (es : Entries) :
    getenv (setEntry name value es) name = some value := by
  induction es with
  | nil => exact getenv_cons_of_isEntry []
  | cons e es ih =>
    unfold setEntry
    split_ifs with he
    · exact getenv_cons_of_isEntry es
    · rw [getenv_cons_of_not (Bool.eq_false_iff.2 he), ih]

/-- **The other variables keep their values.** -/
theorem getenv_setEntry_of_ne (hn : '=' ∉ name) (hn' : '=' ∉ name') (hne : name ≠ name')
    (value : Text) (es : Entries) : getenv (setEntry name value es) name' = getenv es name' := by
  have hset := isEntry_entry_of_ne hn hn' hne value
  induction es with
  | nil => exact getenv_cons_of_not hset []
  | cons e es ih =>
    unfold setEntry
    split_ifs with he
    · have he' : isEntry name' e = false :=
        Bool.eq_false_iff.2 fun h => hne (isEntry_unique hn hn' he h)
      rw [getenv_cons_of_not hset, getenv_cons_of_not he']
    · cases he' : isEntry name' e with
      | false => rw [getenv_cons_of_not he', getenv_cons_of_not he', ih]
      | true =>
        obtain ⟨value', rfl⟩ := isEntry_iff.1 he'
        rw [getenv_cons_of_isEntry, getenv_cons_of_isEntry]

/-- Setting a variable to the value it has changes nothing. -/
theorem setEntry_of_getenv (h : getenv es name = some value) : setEntry name value es = es := by
  induction es with
  | nil => simp [getenv] at h
  | cons e es ih =>
    unfold setEntry
    split_ifs with he
    · obtain ⟨value', rfl⟩ := isEntry_iff.1 he
      rw [getenv_cons_of_isEntry] at h
      rw [Option.some.inj h]
    · rw [getenv_cons_of_not (Bool.eq_false_iff.2 he)] at h
      rw [ih h]

/-- The last value that is set is the one that counts. -/
theorem setEntry_setEntry (name value value' : Text) (es : Entries) :
    setEntry name value' (setEntry name value es) = setEntry name value' es := by
  induction es with
  | nil => simp [setEntry]
  | cons e es ih =>
    rw [setEntry, setEntry]
    split_ifs with he
    · rw [setEntry, if_pos (isEntry_entry name value)]
    · rw [setEntry, if_neg he, ih]

/-- A filter that leaves no entry of the name is blind to its being set. -/
theorem filter_setEntry (hkeep : ∀ e, isEntry name e → keep e = false) (value : Text)
    (es : Entries) : (setEntry name value es).filter keep = es.filter keep := by
  have hset : keep (entry name value) = false := hkeep _ (isEntry_entry name value)
  induction es with
  | nil => exact List.filter_cons_of_neg (by simp [hset])
  | cons e es ih =>
    unfold setEntry
    split_ifs with he
    · rw [List.filter_cons_of_neg (by simp [hset]),
        List.filter_cons_of_neg (by simp [hkeep e he])]
    · rw [List.filter_cons, List.filter_cons, ih]

/-- A filter that leaves every entry of a name keeps its value. -/
theorem getenv_filter (hkeep : ∀ e ∈ es, isEntry name e → keep e = true) :
    getenv (es.filter keep) name = getenv es name := by
  induction es with
  | nil => rfl
  | cons e es ih =>
    obtain ⟨he, hes⟩ := List.forall_mem_cons.1 hkeep
    have ih := ih hes
    cases hentry : isEntry name e with
    | true =>
      obtain ⟨value, rfl⟩ := isEntry_iff.1 hentry
      rw [List.filter_cons_of_pos (he hentry), getenv_cons_of_isEntry, getenv_cons_of_isEntry]
    | false =>
      rw [getenv_cons_of_not hentry, List.filter_cons]
      split_ifs
      · rw [getenv_cons_of_not hentry, ih]
      · exact ih

theorem getenv_unsetEntry_of_ne (hn : '=' ∉ name) (hn' : '=' ∉ name') (hne : name ≠ name')
    (es : Entries) : getenv (unsetEntry name es) name' = getenv es name' := by
  refine getenv_filter fun e _ he => ?_
  rw [Bool.not_eq_true']
  exact Bool.eq_false_iff.2 fun h => hne (isEntry_unique hn hn' h he)

end Preload
end Sharun
