/-
# Command lines made of options with values

A grammar says which words are options and how many values follow each of them; the values
may be any words.  A list of words is read from the left: an option takes its values, and
the reading ends at the first word that would have to be an option and is none
(`Grammar.read`).  Any list is a list of options with all their values, followed by a tail
at which the reading ends, or by one option that lacks values (`exists_flat`).
-/

import Mathlib.Data.List.Basic

namespace Sharun
namespace Basis

/-- Which words are options, and how many values follow them. -/
structure Grammar (α : Type*) where
  isOption : α → Bool
  arity : α → ℕ

/-- An option with all its values. -/
structure Opt {α : Type*} (g : Grammar α) where
  word : α
  values : List α
  isOption : g.isOption word = true
  complete : values.length = g.arity word

namespace Grammar

variable {α : Type*} (g : Grammar α)

/-- What is read after an option that still waits for some values: the values, and the
options after them. -/
def readFrom : ℕ → List α → List α × List (α × List α)
  | _, [] => ([], [])
  | k + 1, w :: ws => ((w :: (readFrom k ws).1), (readFrom k ws).2)
  | 0, w :: ws =>
    if g.isOption w then ([], (w, (readFrom (g.arity w) ws).1) :: (readFrom (g.arity w) ws).2)
    else ([], [])

/-- The options at the front of a list of words. -/
def read (ws : List α) : List (α × List α) := (g.readFrom 0 ws).2

/-- The reading ends here. -/
def Stops (ws : List α) : Prop := ∀ w ∈ ws.head?, g.isOption w = false

/-- One option, and not all of its values. -/
def Short (ws : List α) : Prop :=
  ∃ w vs, ws = w :: vs ∧ g.isOption w = true ∧ vs.length < g.arity w

/-- How many values the last option lacks, read after one that waits for some. -/
def missingFrom : ℕ → List α → ℕ
  | k, [] => k
  | k + 1, _ :: ws => missingFrom k ws
  | 0, w :: ws => if g.isOption w then missingFrom (g.arity w) ws else 0

/-- How many values the last option of a list of words lacks. -/
def missing (ws : List α) : ℕ := g.missingFrom 0 ws

end Grammar

variable {α : Type*} {g : Grammar α}

/-- The words of an option. -/
def Opt.words (o : Opt g) : List α := o.word :: o.values

/-- What is read of an option. -/
def Opt.read (o : Opt g) : α × List α := (o.word, o.values)

/-- The words of a list of options. -/
def flat (os : List (Opt g)) : List α := os.flatMap Opt.words

@[simp] theorem flat_nil : flat ([] : List (Opt g)) = [] := rfl

@[simp] theorem flat_cons (o : Opt g) (os : List (Opt g)) : flat (o :: os) = o.words ++ flat os :=
  List.flatMap_cons

@[simp] theorem flat_append (os os' : List (Opt g)) : flat (os ++ os') = flat os ++ flat os' :=
  List.flatMap_append

@[simp] theorem Opt.length_words (o : Opt g) : o.words.length = g.arity o.word + 1 := by
  rw [Opt.words, List.length_cons, o.complete]

/-- **Reading takes the values that are owed and goes on after them.** -/
theorem readFrom_eq (k : ℕ) (ws : List α) : g.readFrom k ws = (ws.take k, g.read (ws.drop k)) := by
  induction ws generalizing k with
  | nil => cases k <;> rfl
  | cons w ws ih =>
    cases k with
    | zero =>
      rw [List.take_zero, List.drop_zero, Grammar.read, Grammar.readFrom]
      split_ifs <;> rfl
    | succ k => rw [Grammar.readFrom, ih k, List.take_succ_cons, List.drop_succ_cons]

theorem read_nil : g.read [] = [] := rfl

theorem read_cons {w : α} (hw : g.isOption w = true) (ws : List α) :
    g.read (w :: ws) = (w, ws.take (g.arity w)) :: g.read (ws.drop (g.arity w)) := by
  rw [Grammar.read, Grammar.readFrom, if_pos hw, readFrom_eq]

theorem stops_nil : g.Stops [] := by rintro w ⟨⟩

theorem read_of_stops {ws : List α} (h : g.Stops ws) : g.read ws = [] := by
  cases ws with
  | nil => rfl
  | cons w ws => rw [Grammar.read, Grammar.readFrom, if_neg (by simp [h w rfl])]

theorem read_opt_append (o : Opt g) (ws : List α) :
    g.read (o.words ++ ws) = o.read :: g.read ws := by
  rw [Opt.words, List.cons_append, read_cons o.isOption, ← o.complete, List.take_left,
    List.drop_left, Opt.read]

/-- **Options with all their values are read as they are.** -/
theorem read_flat_append (os : List (Opt g)) (ws : List α) :
    g.read (flat os ++ ws) = os.map Opt.read ++ g.read ws := by
  induction os with
  | nil => rfl
  | cons o os ih =>
    rw [flat_cons, List.append_assoc, read_opt_append, ih, List.map_cons, List.cons_append]

/-- **Any list is a list of options and a tail.** -/
theorem exists_flat (g : Grammar α) (ws : List α) :
    ∃ (os : List (Opt g)) (tail : List α), ws = flat os ++ tail ∧
      (g.Stops tail ∨ g.Short tail) := by
  induction hn : ws.length using Nat.strongRecOn generalizing ws with
  | ind n ih =>
    cases ws with
    | nil => exact ⟨[], [], rfl, Or.inl stops_nil⟩
    | cons w ws =>
      cases hw : g.isOption w with
      | false =>
        refine ⟨[], w :: ws, rfl, Or.inl ?_⟩
        rintro w' ⟨⟩
        exact hw
      | true =>
        by_cases hlen : ws.length < g.arity w
        · exact ⟨[], w :: ws, rfl, Or.inr ⟨w, ws, rfl, hw, hlen⟩⟩
        · have hshorter : (ws.drop (g.arity w)).length < n := by
            rw [List.length_drop, ← hn, List.length_cons]
            omega
          obtain ⟨os, tail, heq, htail⟩ := ih _ hshorter _ rfl
          have hvalues : (ws.take (g.arity w)).length = g.arity w := by
            rw [List.length_take]
            omega
          refine ⟨⟨w, ws.take (g.arity w), hw, hvalues⟩ :: os, tail, ?_, htail⟩
          rw [flat_cons, List.append_assoc, ← heq, Opt.words, List.cons_append,
            List.take_append_drop]

/-- The options at the front of some words, with the values they have, and what is left. -/
def Grammar.Front (g : Grammar α) (before rest : List α) : Prop :=
  (∃ os : List (Opt g), before = flat os) ∧ g.Stops rest ∨
    (∃ (os : List (Opt g)) (tail : List α), before = flat os ++ tail ∧ g.Short tail) ∧ rest = []

theorem read_flat (os : List (Opt g)) : g.read (flat os) = os.map Opt.read := by
  have h := read_flat_append os []
  rwa [List.append_nil, read_nil, List.append_nil] at h

/-- **An option that lacks values takes them from what follows.** -/
theorem read_short_append {w : α} {vs : List α} (hw : g.isOption w = true)
    (h : vs.length < g.arity w) (ws : List α) : g.read (w :: vs ++ ws) =
      (w, vs ++ ws.take (g.arity w - vs.length)) :: g.read (ws.drop (g.arity w - vs.length)) := by
  rw [List.cons_append, read_cons hw, List.take_append, List.drop_append,
    List.take_of_length_le (by omega), List.drop_eq_nil_of_le (by omega), List.nil_append]

theorem read_short {w : α} {vs : List α} (hw : g.isOption w = true)
    (h : vs.length < g.arity w) : g.read (w :: vs) = [(w, vs)] := by
  have hread := read_short_append hw h []
  rwa [List.append_nil, List.take_nil, List.drop_nil, read_nil, List.append_nil] at hread

/-- The words of the options that are read are among those that are read from. -/
theorem fst_mem_of_mem_read {o : α × List α} {ws : List α} (h : o ∈ g.read ws) : o.1 ∈ ws := by
  obtain ⟨os, tail, rfl, htail⟩ := exists_flat g ws
  rw [read_flat_append, List.mem_append] at h
  rw [List.mem_append]
  rcases h with h | h
  · obtain ⟨o', ho', rfl⟩ := List.mem_map.1 h
    exact Or.inl (List.mem_flatMap.2 ⟨o', ho', List.mem_cons_self⟩)
  · rcases htail with hstops | ⟨w, vs, rfl, hw, hlen⟩
    · rw [read_of_stops hstops] at h
      cases h
    · rw [read_short hw hlen, List.mem_singleton] at h
      rw [h]
      exact Or.inr List.mem_cons_self

theorem missingFrom_values {k : ℕ} {vs : List α} (h : vs.length = k) (ws : List α) :
    g.missingFrom k (vs ++ ws) = g.missing ws := by
  induction vs generalizing k with
  | nil =>
    subst h
    rfl
  | cons v vs ih =>
    subst h
    exact ih rfl

theorem missing_flat_append (os : List (Opt g)) (ws : List α) :
    g.missing (flat os ++ ws) = g.missing ws := by
  induction os with
  | nil => rfl
  | cons o os ih =>
    rw [flat_cons, List.append_assoc, Opt.words, List.cons_append, Grammar.missing,
      Grammar.missingFrom, if_pos o.isOption, missingFrom_values o.complete, ih]

theorem missing_of_stops {ws : List α} (h : g.Stops ws) : g.missing ws = 0 := by
  cases ws with
  | nil => rfl
  | cons w ws => rw [Grammar.missing, Grammar.missingFrom, if_neg (by simp [h w rfl])]

theorem missing_short {w : α} {vs : List α} (hw : g.isOption w = true)
    (h : vs.length < g.arity w) : g.missing (w :: vs) = g.arity w - vs.length := by
  have hfrom : ∀ (vs : List α) (k : ℕ), vs.length < k → g.missingFrom k vs = k - vs.length := by
    intro vs
    induction vs with
    | nil => intro k _; cases k <;> rfl
    | cons v vs ih =>
      intro k hk
      cases k with
      | zero => omega
      | succ k =>
        rw [Grammar.missingFrom, ih k (by simpa using hk), List.length_cons]
        omega
  rw [Grammar.missing, Grammar.missingFrom, if_pos hw, hfrom vs _ h]

/-! ### Searching words, and searching options -/

section Search

variable {γ : Type*} {get : ℕ → Option γ} {l : List ℕ} {i n : ℕ} {c : γ}

/-- The first of the positions at which there is something, and what is there. -/
def firstAt (get : ℕ → Option γ) (l : List ℕ) : Option (ℕ × γ) :=
  l.findSome? fun i => (get i).map (i, ·)

theorem firstAt_eq_none : firstAt get l = none ↔ ∀ i ∈ l, get i = none := by
  unfold firstAt
  simp

theorem firstAt_eq_some (hl : l.Pairwise (· < ·)) :
    firstAt get l = some (i, c) ↔ i ∈ l ∧ get i = some c ∧ ∀ j ∈ l, j < i → get j = none := by
  unfold firstAt
  induction l with
  | nil => simp
  | cons j l ih =>
    obtain ⟨hj, hl⟩ := List.pairwise_cons.1 hl
    rw [List.findSome?_cons]
    cases hget : get j with
    | none =>
      rw [Option.map_none, ih hl]
      constructor
      · rintro ⟨hi, hc, hbefore⟩
        exact ⟨List.mem_cons_of_mem j hi, hc, List.forall_mem_cons.2 ⟨fun _ => hget, hbefore⟩⟩
      · rintro ⟨hi, hc, hbefore⟩
        rcases List.mem_cons.1 hi with rfl | hi
        · rw [hget] at hc
          cases hc
        · exact ⟨hi, hc, fun k hk => hbefore k (List.mem_cons_of_mem j hk)⟩
    | some c' =>
      rw [Option.map_some, Option.some.injEq, Prod.mk.injEq]
      constructor
      · rintro ⟨rfl, rfl⟩
        refine ⟨List.mem_cons_self, hget, ?_⟩
        rintro k hk hlt
        rcases List.mem_cons.1 hk with rfl | hk
        · omega
        · exact absurd (hj k hk) (by omega)
      · rintro ⟨hi, hc, hbefore⟩
        rcases List.mem_cons.1 hi with rfl | hi
        · rw [hget] at hc
          exact ⟨rfl, Option.some.inj hc⟩
        · rw [hbefore j List.mem_cons_self (hj i hi)] at hget
          cases hget

/-- **Searching all positions finds what searching some of them finds**, exactly when
something found elsewhere comes after something found there. -/
theorem firstAt_range_eq_iff (hl : l.Pairwise (· < ·)) (hn : ∀ i ∈ l, i < n) :
    firstAt get (List.range n) = firstAt get l ↔
      ∀ i < n, (get i).isSome → i ∈ l ∨ ∃ j ∈ l, j < i ∧ (get j).isSome := by
  have hrange : (List.range n).Pairwise (· < ·) := List.pairwise_lt_range
  constructor
  · intro h i hi hsome
    cases hfirst : firstAt get (List.range n) with
    | none =>
      rw [firstAt_eq_none.1 hfirst i (List.mem_range.2 hi)] at hsome
      cases hsome
    | some found =>
      obtain ⟨j, c⟩ := found
      obtain ⟨-, hc, hbefore⟩ := (firstAt_eq_some hrange).1 hfirst
      have hj := ((firstAt_eq_some hl).1 (h ▸ hfirst)).1
      rcases Nat.lt_trichotomy i j with hlt | rfl | hlt
      · rw [hbefore i (List.mem_range.2 hi) hlt] at hsome
        cases hsome
      · exact Or.inl hj
      · exact Or.inr ⟨j, hj, hlt, by rw [hc]; rfl⟩
  · intro h
    cases hfirst : firstAt get l with
    | none =>
      rw [firstAt_eq_none] at hfirst ⊢
      intro i hi
      by_contra hsome
      rcases h i (List.mem_range.1 hi) (Option.isSome_iff_ne_none.2 hsome) with hi | ⟨j, hj, -, hj'⟩
      · exact hsome (hfirst i hi)
      · rw [hfirst j hj] at hj'
        cases hj'
    | some found =>
      obtain ⟨i, c⟩ := found
      obtain ⟨hi, hc, hbefore⟩ := (firstAt_eq_some hl).1 hfirst
      refine (firstAt_eq_some hrange).2 ⟨List.mem_range.2 (hn i hi), hc, fun j hj hlt => ?_⟩
      by_contra hsome
      rcases h j (List.mem_range.1 hj) (Option.isSome_iff_ne_none.2 hsome) with
        hj | ⟨k, hk, hkj, hk'⟩
      · exact hsome (hbefore j hj hlt)
      · rw [hbefore k hk (by omega)] at hk'
        cases hk'

end Search

/-- Where each of the options begins. -/
def starts : List (Opt g) → List ℕ
  | [] => []
  | o :: os => 0 :: (starts os).map (· + o.words.length)

/-- **An option begins where the options before it end.** -/
theorem mem_starts {os : List (Opt g)} {i : ℕ} :
    i ∈ starts os ↔ ∃ pre o post, os = pre ++ o :: post ∧ i = (flat pre).length := by
  induction os generalizing i with
  | nil => simp [starts]
  | cons o os ih =>
    rw [starts, List.mem_cons, List.mem_map]
    constructor
    · rintro (rfl | ⟨j, hj, rfl⟩)
      · exact ⟨[], o, os, rfl, rfl⟩
      · obtain ⟨pre, o', post, rfl, rfl⟩ := ih.1 hj
        refine ⟨o :: pre, o', post, rfl, ?_⟩
        rw [flat_cons, List.length_append, Nat.add_comm]
    · rintro ⟨pre, o', post, heq, rfl⟩
      cases pre with
      | nil => exact Or.inl rfl
      | cons o'' pre =>
        rw [List.cons_append, List.cons.injEq] at heq
        obtain ⟨rfl, rfl⟩ := heq
        refine Or.inr ⟨(flat pre).length, ih.2 ⟨pre, o', post, rfl, rfl⟩, ?_⟩
        rw [flat_cons, List.length_append, Nat.add_comm]

theorem pairwise_starts (os : List (Opt g)) : (starts os).Pairwise (· < ·) := by
  induction os with
  | nil => exact List.Pairwise.nil
  | cons o os ih =>
    refine List.Pairwise.cons ?_ ((List.pairwise_map).2 (ih.imp fun h => by omega))
    intro i hi
    obtain ⟨j, -, rfl⟩ := List.mem_map.1 hi
    rw [Opt.length_words]
    omega

theorem lt_of_mem_starts {os : List (Opt g)} {i : ℕ} (h : i ∈ starts os) :
    i < (flat os).length := by
  obtain ⟨pre, o, post, rfl, rfl⟩ := mem_starts.1 h
  rw [flat_append, flat_cons, List.length_append, List.length_append, Opt.length_words]
  omega

end Basis
end Sharun
