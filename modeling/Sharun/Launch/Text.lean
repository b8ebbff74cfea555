/-
# Text

Names, paths and values of variables are texts: lists of characters.  A C string is
the text of its bytes.  The functions here are those of the standard libraries that
the programs use on them.
-/

import Sharun.Basis.Replace
import Sharun.Basis.Separated

namespace Sharun
namespace Launch

open Sharun.Basis

abbrev Text := List Char

/-- The characters with the Unicode property `White_Space`. -/
def isWhitespace (c : Char) : Bool :=
  (9 ≤ c.toNat && c.toNat ≤ 13) || c.toNat ∈ [0x20, 0x85, 0xa0, 0x1680] ||
    (0x2000 ≤ c.toNat && c.toNat ≤ 0x200a) || c.toNat ∈ [0x2028, 0x2029, 0x202f, 0x205f, 0x3000]

/-- `s.trim()`. -/
def trim (s : Text) : Text := (s.dropWhile isWhitespace).rdropWhile isWhitespace

/-- `v.join(sep)`. -/
def join (sep : Char) (v : List Text) : Text := [sep].intercalate v

/-- `s.ends_with(suffix)`. -/
def endsWith (s suffix : Text) : Bool := suffix.isSuffixOf s

/-- `s.contains(part)`, and `strstr(s, part) != NULL`. -/
def contains (s part : Text) : Bool := s.tails.any part.isPrefixOf

theorem contains_iff {s part : Text} : contains s part ↔ part <:+: s := by
  unfold contains
  rw [List.any_eq_true, List.infix_iff_prefix_suffix]
  simp only [List.mem_tails, List.isPrefixOf_iff_prefix]
  exact exists_congr fun t => and_comm

/-- `basename(path)`: what follows the last slash. -/
def basename (path : Text) : Text := path.rtakeWhile (· ≠ '/')

/-- What ends at the last character of a part that holds a character to keep is trimmed
there. -/
theorem rdropWhile_append {p : Char → Bool} {s : Text} (t : Text) (hs : s.rdropWhile p ≠ []) :
    (t ++ s).rdropWhile p = t ++ s.rdropWhile p := by
  unfold List.rdropWhile at hs ⊢
  rw [List.reverse_append, List.dropWhile_append]
  have hne : s.reverse.dropWhile p ≠ [] := fun h => hs (by rw [h]; rfl)
  rw [if_neg (by simpa using hne), List.reverse_append, List.reverse_reverse]

theorem rdropWhile_append_of_forall {p : Char → Bool} (s : Text) {t : Text}
    (h : ∀ c ∈ t, p c = true) : (s ++ t).rdropWhile p = s.rdropWhile p := by
  unfold List.rdropWhile
  rw [List.reverse_append, List.dropWhile_append_of_pos fun c hc => h c (List.mem_reverse.1 hc)]

/-- A part whose ends are to be kept is left when what is around it is trimmed. -/
theorem trimmed_pad {p : Char → Bool} {s : Text} (before after : Text)
    (hbefore : ∀ c ∈ before, p c = true) (hafter : ∀ c ∈ after, p c = true)
    (hhead : ∀ c ∈ s.head?, p c = false) (hlast : ∀ c ∈ s.getLast?, p c = false) :
    ((before ++ s ++ after).dropWhile p).rdropWhile p = s := by
  rw [List.append_assoc, List.dropWhile_append_of_pos hbefore]
  cases s with
  | nil =>
    rw [List.nil_append, List.dropWhile_eq_nil_iff.2 hafter]
    rfl
  | cons c rest =>
    have hc : ¬p c = true := by
      rw [hhead c (by simp)]
      exact Bool.false_ne_true
    rw [List.cons_append, List.dropWhile_cons_of_neg hc, ← List.cons_append,
      rdropWhile_append_of_forall _ hafter, List.rdropWhile_eq_self_iff]
    intro hnil h
    have hfalse := hlast _ (List.getLast?_eq_getLast_of_ne_nil hnil)
    rw [hfalse] at h
    exact Bool.false_ne_true h

theorem rdropWhile_map {β : Type*} (p : Char → Bool) (f : β → Char) (l : List β) :
    (l.map f).rdropWhile p = (l.rdropWhile fun b => p (f b)).map f := by
  unfold List.rdropWhile
  rw [← List.map_reverse, List.dropWhile_map, List.map_reverse]
  rfl

theorem join_cons (sep : Char) (s : Text) {v : List Text} (hv : v ≠ []) :
    join sep (s :: v) = s ++ sep :: join sep v := by
  unfold join
  rw [List.intercalate_cons_of_ne_nil hv, List.append_assoc, List.singleton_append]

theorem join_concat (sep : Char) {v : List Text} (hv : v ≠ []) (s : Text) :
    join sep (v ++ [s]) = join sep v ++ sep :: s := by
  induction v with
  | nil => exact absurd rfl hv
  | cons s' v ih =>
    cases v with
    | nil =>
      rw [List.singleton_append, join_cons sep s' (by simp)]
      unfold join
      rw [List.intercalate_singleton, List.intercalate_singleton]
    | cons s'' v =>
      rw [List.cons_append, join_cons sep s' (by simp), ih (by simp), join_cons sep s' (by simp),
        List.append_assoc, List.cons_append]

/-- Replacing the separator of joined texts. -/
theorem replace_join {sep : Char} (rep : Char) {v : List Text} (h : ∀ s ∈ v, sep ∉ s) :
    replace [sep] [rep] (join sep v) = join rep v := by
  unfold join
  induction v with
  | nil => rfl
  | cons s v ih =>
    obtain ⟨hs, hv⟩ := List.forall_mem_cons.1 h
    cases v with
    | nil =>
      rw [List.intercalate_singleton, List.intercalate_singleton]
      exact replace_of_notMem hs [rep]
    | cons s' v =>
      have hkept := replace_of_notMem hs [rep]
      have hrest := ih hv
      rw [replace_singleton] at hkept hrest ⊢
      rw [List.intercalate_cons_cons, List.intercalate_cons_cons, List.append_assoc,
        List.flatMap_append, List.flatMap_append, hkept, hrest, List.append_assoc]
      simp

/-- Joined texts that do not hold the separator can be told apart. -/
theorem join_inj {sep : Char} {v w : List Text} (hv : v ≠ []) (hw : w ≠ [])
    (hv' : ∀ s ∈ v, sep ∉ s) (hw' : ∀ s ∈ w, sep ∉ s) : join sep v = join sep w ↔ v = w := by
  constructor
  · intro h
    have hsplit := congrArg (List.splitOn sep) h
    unfold join at hsplit
    rwa [List.splitOn_intercalate sep hv' hv, List.splitOn_intercalate sep hw' hw] at hsplit
  · exact congrArg (join sep)

theorem basename_append (p q : Text) : basename (p ++ '/' :: q) = basename q := by
  unfold basename List.rtakeWhile
  rw [List.reverse_append, List.reverse_cons, List.append_assoc, List.takeWhile_append]
  split_ifs with hall
  · rw [List.singleton_append, List.takeWhile_cons_of_neg (by simp), List.append_nil]
    exact congrArg List.reverse ((List.takeWhile_prefix _).eq_of_length hall).symm
  · rfl

end Launch
end Sharun
