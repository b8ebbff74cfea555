/-
# References to variables in a value

`expand_vars` of `src/utils.rs` replaces `${name}` and `$name` in the values of a `.env`
file.  Its loop looks for the next dollar sign, moves behind it, and then finds a name in
braces, a name, or none; in the last case the dollar sign is put back.

What a text says is told by `Reads`: from left to right it is read as characters and
references, a reference as long as it can be and a value never read again.  Every text has
one reading, and `expand_vars` is the text of that reading with the values in place of the
references (`expandVars_reads`).

`env::var` fails for a value that is not valid UTF-8, so that a reference to such a variable
stays as it is, like one to a variable that is not set.
-/

import Sharun.Launch.AddToEnv

namespace Sharun
namespace Launch

open Sharun.Basis

/-- `c.is_ascii_alphanumeric() || c == '_'`. -/
def isNameChar (c : Char) : Bool := c.isAlphanum || c == '_'

/-- What is before the first `c` and what is behind it. -/
def splitOnce (c : Char) : Text → Option (Text × Text)
  | [] => none
  | d :: s => if d = c then some ([], s) else (splitOnce c s).map fun p => (d :: p.1, p.2)

theorem splitOnce_eq_some {c : Char} {s before after : Text} :
    splitOnce c s = some (before, after) ↔ s = before ++ c :: after ∧ c ∉ before := by
  induction s generalizing before with
  | nil => simp [splitOnce]
  | cons d s ih =>
    unfold splitOnce
    split_ifs with hd
    · subst hd
      constructor
      · intro h
        obtain ⟨rfl, rfl⟩ := Prod.mk.inj (Option.some.inj h)
        exact ⟨rfl, List.not_mem_nil⟩
      · rintro ⟨h, hnot⟩
        cases before with
        | nil => rw [(List.cons.inj h).2]
        | cons e before => exact absurd (List.mem_cons.2 (.inl (List.cons.inj h).1)) hnot
    · constructor
      · intro h
        obtain ⟨⟨before', after'⟩, hp, he⟩ := Option.map_eq_some_iff.1 h
        obtain ⟨rfl, rfl⟩ := Prod.mk.inj he
        obtain ⟨rfl, hnot⟩ := ih.1 hp
        refine ⟨rfl, ?_⟩
        rintro (_ | ⟨_, hmem⟩)
        · exact hd rfl
        · exact hnot hmem
      · rintro ⟨h, hnot⟩
        cases before with
        | nil => exact absurd (List.cons.inj h).1 hd
        | cons e before =>
          obtain ⟨rfl, hs⟩ := List.cons.inj h
          rw [ih.2 ⟨hs, fun hmem => hnot (List.mem_cons_of_mem _ hmem)⟩]
          rfl

theorem splitOnce_eq_none {c : Char} {s : Text} : splitOnce c s = none ↔ c ∉ s := by
  induction s with
  | nil => simp [splitOnce]
  | cons d s ih =>
    unfold splitOnce
    split_ifs with hd
    · simp [hd]
    · rw [Option.map_eq_none_iff, ih, List.mem_cons, not_or]
      exact ⟨fun h => ⟨Ne.symm hd, h⟩, And.right⟩

theorem length_splitOnce {c : Char} {s before after : Text}
    (h : splitOnce c s = some (before, after)) : after.length < s.length := by
  rw [(splitOnce_eq_some.1 h).1, List.length_append, List.length_cons]
  omega

/-- What a turn of the loop of `expand_vars` pushes for a dollar sign, and the rest it goes on
with, from what is behind the dollar sign. -/
def reference (vars : RawVars) (rest : Text) : Text × Text :=
  match rest with
  | '{' :: stripped =>
    match splitOnce '}' stripped with
    | some (name, behind) => ((envVar vars name).getD ('$' :: '{' :: name ++ ['}']), behind)
    | none => (['$'], rest)
  | _ =>
    let name := rest.takeWhile isNameChar
    if name ≠ [] then ((envVar vars name).getD ('$' :: name), rest.dropWhile isNameChar)
    else (['$'], rest)

theorem length_reference (vars : RawVars) (rest : Text) :
    (reference vars rest).2.length ≤ rest.length := by
  unfold reference
  split
  · split
    · rename_i hend
      exact (length_splitOnce hend).le.trans (Nat.le_succ _)
    · exact le_rfl
  · dsimp only
    split_ifs
    · exact (List.dropWhile_suffix isNameChar).length_le
    · exact le_rfl

/-- The loop of `expand_vars`. -/
def expandFrom (vars : RawVars) (out rest : Text) : Text :=
  match _hfind : splitOnce '$' rest with
  | none => out ++ rest
  | some (before, rest) =>
    expandFrom vars (out ++ before ++ (reference vars rest).1) (reference vars rest).2
termination_by rest.length
decreasing_by exact (length_reference vars rest).trans_lt (length_splitOnce _hfind)

/-- `expand_vars(val)`. -/
def expandVars (vars : RawVars) (val : Text) : Text := expandFrom vars [] val

/-! ### Reading a text -/

/-- What a text is read as. -/
inductive Piece
  | char (c : Char)
  /-- `${name}`. -/
  | braced (name : Text)
  /-- `$name`. -/
  | named (name : Text)
  deriving DecidableEq

/-- A piece as it is written. -/
def Piece.text : Piece → Text
  | .char c => [c]
  | .braced name => '$' :: '{' :: name ++ ['}']
  | .named name => '$' :: name

/-- What comes in place of a piece: a reference to a variable that is set is replaced by its
value, anything else stays. -/
def Piece.expand (vars : RawVars) : Piece → Text
  | .char c => [c]
  | .braced name => (envVar vars name).getD (Piece.braced name).text
  | .named name => (envVar vars name).getD (Piece.named name).text

/-- A dollar sign before this begins a reference. -/
def Refers (rest : Text) : Prop :=
  (∃ stripped, rest = '{' :: stripped ∧ '}' ∈ stripped) ∨ ∃ c s, rest = c :: s ∧ isNameChar c = true

/-- The reading of a text from left to right. -/
inductive Reads : Text → List Piece → Prop
  | nil : Reads [] []
  /-- A character, or a dollar sign that begins no reference. -/
  | char {c : Char} {s : Text} {ps : List Piece} (hc : c = '$' → ¬Refers s) (hs : Reads s ps) :
      Reads (c :: s) (.char c :: ps)
  /-- A name in braces ends at the first closing one. -/
  | braced {name s : Text} {ps : List Piece} (hname : '}' ∉ name) (hs : Reads s ps) :
      Reads ('$' :: '{' :: name ++ '}' :: s) (.braced name :: ps)
  /-- A name without braces is as long as it can be. -/
  | named {name s : Text} {ps : List Piece} (hne : name ≠ [])
      (hname : ∀ c ∈ name, isNameChar c = true) (hend : ∀ c s', s = c :: s' → isNameChar c = false)
      (hs : Reads s ps) : Reads ('$' :: name ++ s) (.named name :: ps)

/-- The pieces of a reading make the text. -/
theorem Reads.text {s : Text} {ps : List Piece} (h : Reads s ps) : ps.flatMap Piece.text = s := by
  induction h with
  | nil => rfl
  | char hc hs ih => rw [List.flatMap_cons, ih]; rfl
  | braced hname hs ih => rw [List.flatMap_cons, ih]; simp [Piece.text]
  | named hne hname hend hs ih => rw [List.flatMap_cons, ih]; rfl

/-! ### One turn of the loop -/

section Turn

variable {vars : RawVars} {out name s : Text} {c : Char}

theorem takeWhile_name (hname : ∀ c ∈ name, isNameChar c = true)
    (hend : ∀ c s', s = c :: s' → isNameChar c = false) :
    (name ++ s).takeWhile isNameChar = name ∧ (name ++ s).dropWhile isNameChar = s := by
  rw [List.takeWhile_append_of_pos hname, List.dropWhile_append_of_pos hname]
  cases s with
  | nil => exact ⟨List.append_nil _, rfl⟩
  | cons c s =>
    have hc := hend c s rfl
    rw [List.takeWhile_cons_of_neg (by simp [hc]), List.dropWhile_cons_of_neg (by simp [hc])]
    exact ⟨List.append_nil _, rfl⟩

theorem expandFrom_nil : expandFrom vars out [] = out := by
  rw [expandFrom]
  exact List.append_nil out

theorem expandFrom_dollar {t s' : Text} (h : reference vars s = (t, s')) :
    expandFrom vars out ('$' :: s) = expandFrom vars (out ++ t) s' := by
  rw [expandFrom]
  change expandFrom vars (out ++ [] ++ (reference vars s).1) (reference vars s).2 = _
  rw [h, List.append_nil]

/-- A character that is no dollar sign is passed over. -/
theorem expandFrom_char (hc : c ≠ '$') :
    expandFrom vars out (c :: s) = expandFrom vars (out ++ [c]) s := by
  have hsplit : splitOnce '$' (c :: s) = (splitOnce '$' s).map fun p => (c :: p.1, p.2) :=
    if_neg hc
  rw [expandFrom, expandFrom]
  split <;> split <;> simp_all

theorem reference_braced (hname : '}' ∉ name) :
    reference vars ('{' :: name ++ '}' :: s) = ((Piece.braced name).expand vars, s) := by
  have hend : splitOnce '}' (name ++ '}' :: s) = some (name, s) :=
    splitOnce_eq_some.2 ⟨rfl, hname⟩
  rw [List.cons_append, reference, hend]
  rfl

theorem reference_named (hne : name ≠ []) (hname : ∀ c ∈ name, isNameChar c = true)
    (hend : ∀ c s', s = c :: s' → isNameChar c = false) :
    reference vars (name ++ s) = ((Piece.named name).expand vars, s) := by
  obtain ⟨htake, hdrop⟩ := takeWhile_name hname hend
  unfold reference
  split
  · rename_i stripped heq
    -- a brace is no character of a name
    obtain ⟨c, name', rfl⟩ := List.exists_cons_of_ne_nil hne
    obtain rfl : c = '{' := (List.cons.inj heq).1
    exact absurd (hname '{' List.mem_cons_self) (by decide)
  · dsimp only
    rw [htake, hdrop, if_pos hne]
    rfl

theorem reference_none (h : ¬Refers s) : reference vars s = (['$'], s) := by
  unfold reference
  split
  · rename_i stripped
    have hnone : splitOnce '}' stripped = none :=
      splitOnce_eq_none.2 fun hmem => h (.inl ⟨stripped, rfl, hmem⟩)
    rw [hnone]
  · dsimp only
    rw [if_neg]
    cases s with
    | nil => simp
    | cons c s =>
      have hc : ¬isNameChar c = true := fun hc => h (.inr ⟨c, s, rfl, hc⟩)
      rw [List.takeWhile_cons_of_neg hc]
      exact fun hne => hne rfl

end Turn

/-! ### The reading of every text -/

/-- **The loop writes what is read.** -/
theorem Reads.expandFrom {s : Text} {ps : List Piece} (h : Reads s ps) (vars : RawVars)
    (out : Text) : expandFrom vars out s = out ++ ps.flatMap (Piece.expand vars) := by
  induction h generalizing out with
  | nil => rw [expandFrom_nil, List.flatMap_nil, List.append_nil]
  | @char c s ps hc hs ih =>
    rw [List.flatMap_cons, ← List.append_assoc, ← ih]
    by_cases hdollar : c = '$'
    · subst hdollar
      exact expandFrom_dollar (reference_none (hc rfl))
    · exact expandFrom_char hdollar
  | braced hname hs ih =>
    rw [List.flatMap_cons, ← List.append_assoc, ← ih]
    exact expandFrom_dollar (reference_braced hname)
  | named hne hname hend hs ih =>
    rw [List.flatMap_cons, ← List.append_assoc, ← ih]
    exact expandFrom_dollar (reference_named hne hname hend)

/-- Every text can be read. -/
theorem exists_reads (s : Text) : ∃ ps, Reads s ps := by
  induction hn : s.length using Nat.strong_induction_on generalizing s with
  | h n ih =>
    subst hn
    cases s with
    | nil => exact ⟨[], .nil⟩
    | cons c s =>
      have hrest : ∀ rest : Text, rest.length ≤ s.length → ∃ ps, Reads rest ps := fun rest hle =>
        ih rest.length (Nat.lt_succ_of_le hle) rest rfl
      by_cases hc : c = '$' → ¬Refers s
      · obtain ⟨ps, hps⟩ := hrest s le_rfl
        exact ⟨_, .char hc hps⟩
      · rw [Classical.not_imp, not_not] at hc
        obtain ⟨rfl, ⟨stripped, rfl, hmem⟩ | ⟨d, s', rfl, hd⟩⟩ := hc
        · cases hsplit : splitOnce '}' stripped with
          | none => exact absurd hmem (splitOnce_eq_none.1 hsplit)
          | some p =>
            obtain ⟨rfl, hname⟩ := splitOnce_eq_some.1 (p.eta ▸ hsplit)
            obtain ⟨ps, hps⟩ := hrest p.2 (by simp; omega)
            exact ⟨_, .braced hname hps⟩
        · obtain ⟨ps, hps⟩ := hrest ((d :: s').dropWhile isNameChar)
            (List.dropWhile_suffix isNameChar).length_le
          have hne : (d :: s').takeWhile isNameChar ≠ [] := by
            rw [List.takeWhile_cons_of_pos hd]
            exact List.cons_ne_nil _ _
          have hread := Reads.named hne (fun c hc => List.mem_takeWhile_imp hc) ?_ hps
          · rw [List.cons_append, List.takeWhile_append_dropWhile] at hread
            exact ⟨_, hread⟩
          · intro c s'' heq'
            have hnot := List.head?_dropWhile_not isNameChar (d :: s')
            rw [heq'] at hnot
            exact hnot

theorem Reads.cons_inv {c : Char} {s : Text} {ps : List Piece} (h : Reads (c :: s) ps) :
    (∃ ps', ps = .char c :: ps' ∧ (c = '$' → ¬Refers s) ∧ Reads s ps') ∨
    (∃ name s' ps', c = '$' ∧ s = '{' :: name ++ '}' :: s' ∧ ps = .braced name :: ps' ∧
      '}' ∉ name ∧ Reads s' ps') ∨
    ∃ name s' ps', c = '$' ∧ s = name ++ s' ∧ ps = .named name :: ps' ∧ name ≠ [] ∧
      (∀ c ∈ name, isNameChar c = true) ∧ (∀ c s'', s' = c :: s'' → isNameChar c = false) ∧
      Reads s' ps' := by
  cases h with
  | char hc hs => exact .inl ⟨_, rfl, hc, hs⟩
  | braced hname hs => exact .inr (.inl ⟨_, _, _, rfl, rfl, rfl, hname, hs⟩)
  | named hne hname hend hs => exact .inr (.inr ⟨_, _, _, rfl, rfl, rfl, hne, hname, hend, hs⟩)

/-- A text has one reading only. -/
theorem Reads.unique {s : Text} {ps : List Piece} (h : Reads s ps) {ps' : List Piece}
    (h' : Reads s ps') : ps = ps' := by
  induction h generalizing ps' with
  | nil => cases h'; rfl
  | @char c s ps hc hs ih =>
    obtain ⟨qs, rfl, -, hqs⟩ | ⟨name, s', qs, rfl, rfl, -⟩ |
      ⟨name, s', qs, rfl, rfl, -, hne, hname, -⟩ := h'.cons_inv
    · rw [ih hqs]
    · exact absurd (.inl ⟨_, rfl, by simp⟩) (hc rfl)
    · obtain ⟨d, name, rfl⟩ := List.exists_cons_of_ne_nil hne
      exact absurd (.inr ⟨d, _, rfl, hname d List.mem_cons_self⟩) (hc rfl)
  | @braced name s ps hname hs ih =>
    obtain ⟨qs, rfl, hq, -⟩ | ⟨name', s', qs, -, hsame, rfl, hname', hqs⟩ |
      ⟨name', s', qs, -, hsame, -, hne, hall, -⟩ := h'.cons_inv
    · exact absurd (.inl ⟨_, rfl, by simp⟩) (hq rfl)
    · have hsplit := (splitOnce_eq_some.2 ⟨(List.cons.inj hsame).2, hname'⟩).symm.trans
        (splitOnce_eq_some.2 ⟨rfl, hname⟩)
      obtain ⟨rfl, rfl⟩ := Prod.mk.inj (Option.some.inj hsplit)
      rw [ih hqs]
    · obtain ⟨d, name', rfl⟩ := List.exists_cons_of_ne_nil hne
      obtain rfl : '{' = d := (List.cons.inj hsame).1
      exact absurd (hall '{' List.mem_cons_self) (by decide)
  | @named name s ps hne hname hend hs ih =>
    obtain ⟨d, tail, hd⟩ := List.exists_cons_of_ne_nil hne
    have hdname : isNameChar d = true := hname d (hd ▸ List.mem_cons_self)
    obtain ⟨qs, rfl, hq, -⟩ | ⟨name', s', qs, -, hsame, -⟩ |
      ⟨name', s', qs, -, hsame, rfl, -, hall, hend', hqs⟩ := h'.cons_inv
    · exact absurd (.inr ⟨d, _, by rw [hd]; rfl, hdname⟩) (hq rfl)
    · rw [hd] at hsame
      obtain rfl : d = '{' := (List.cons.inj hsame).1
      exact absurd hdname (by decide)
    · obtain ⟨htake, hdrop⟩ := takeWhile_name hname hend
      obtain ⟨htake', hdrop'⟩ := takeWhile_name hall hend'
      have hsame : name ++ s = name' ++ s' := hsame
      rw [hsame] at htake hdrop
      obtain rfl := htake.symm.trans htake'
      obtain rfl := hdrop.symm.trans hdrop'
      rw [ih hqs]

/-- **`expand_vars` replaces the references of a text once, from left to right.**  The text
has one reading; the result is what that reading becomes, and with no variable set it is the
text itself. -/
theorem expandVars_reads (s : Text) :
    ∃ ps, (∀ ps', Reads s ps' ↔ ps' = ps) ∧
      (∀ vars, expandVars vars s = ps.flatMap (Piece.expand vars)) ∧
      expandVars (fun _ => none) s = s := by
  obtain ⟨ps, hps⟩ := exists_reads s
  have hvalue : ∀ vars, expandVars vars s = ps.flatMap (Piece.expand vars) := fun vars =>
    hps.expandFrom vars []
  refine ⟨ps, fun ps' => ⟨fun h => h.unique hps, fun h => h ▸ hps⟩, hvalue, ?_⟩
  have hunset : Piece.expand (fun _ => none) = Piece.text := by
    funext p
    cases p <;> rfl
  rw [hvalue, hunset, hps.text]

/-- The bytes of what a piece becomes when every variable that is set counts. -/
def Piece.substitute (vars : RawVars) : Piece → List UInt8
  | .char c => utf8 [c]
  | .braced name => ((vars name).map EnvValue.bytes).getD (utf8 (Piece.braced name).text)
  | .named name => ((vars name).map EnvValue.bytes).getD (utf8 (Piece.named name).text)

/-- A variable whose value is the byte `ff` is set, and a reference to it stays as it is. -/
theorem expandVars_not_unicode :
    ¬∀ (vars : RawVars) (s : Text), ∃ ps, Reads s ps ∧
      utf8 (expandVars vars s) = ps.flatMap (Piece.substitute vars) := by
  intro hall
  obtain ⟨ps, hps, hvalue⟩ := hall (fun _ => some ⟨[0xff], by decide⟩) ['$', 'A']
  have hreads : Reads ['$', 'A'] [.named ['A']] :=
    @Reads.named ['A'] [] [] (by decide) (by simp [isNameChar]) (by simp) .nil
  obtain rfl := hps.unique hreads
  have hkept : envVar (fun _ => some ⟨[0xff], by decide⟩) ['A'] = none := decode_ff
  rw [expandVars, hreads.expandFrom, List.flatMap_singleton, Piece.expand, hkept] at hvalue
  revert hvalue
  decide

end Launch
end Sharun
