/-
# What `bwrap` reads

`bwrap` reads options from its arguments, and those of a pipe where an option `--args N` names
it; which words are options and how many values they take is what bwrap(1) says
(`readOptions`).  Some words are read to their end or the reading stops at one of them
(`ends_or_stopped`).  What the wrapper does to a command, or to the number of a descriptor,
changes values at most (`mem_bwrapOptions_remapCommand`, `mem_readOptions_number`).
-/

import Sharun.Basis.Utf8
import Sharun.Launch.OptionArities

namespace Sharun
namespace Launch
namespace Bwrap

open Sharun.Basis

/-! ### What `bwrap` reads -/

/-- An option with the values that `bwrap` takes for it.  A capability or a descriptor does
not start with two dashes. -/
def takes (o : Text × List Text) : Bool :=
  !overlooked.contains o.1 || o.2.all fun value => !SEP.isPrefixOf value

/-- The options that `bwrap` reads, up to one it refuses. -/
def readOptions (args : List Text) : List (Text × List Text) := (manual.read args).takeWhile takes

/-- The words that are read from a pipe: each is ended by a NUL, but the last one need not
be. -/
def heldWords (content : Text) : List Text :=
  let pieces := content.splitOn NUL
  if pieces.getLast? = some [] then pieces.dropLast else pieces

/-- The descriptor an option names, if it is `--args`. -/
def namedFd (o : Text × List Text) : Option ℤ :=
  if o.1 = ARGS then o.2.head?.bind parseRawFd else none

/-- What an option stands for: `--args N` for the options in that pipe, any other for itself. -/
def expand (pipes : ℤ → Text) (o : Text × List Text) : List (Text × List Text) :=
  match namedFd o with
  | some fd => readOptions (heldWords (pipes fd))
  | none => [o]

/-- The options that `bwrap` ends up with. -/
def bwrapOptions (pipes : ℤ → Text) (args : List Text) : List (Text × List Text) :=
  (readOptions args).flatMap (expand pipes)

/-- The reading gets to the end of some words: they are options, of which the last one need not
have all its values. -/
def Ends (before : List Text) : Prop :=
  ∃ (os : List (Opt manual)) (tail : List Text), before = flat os ++ tail ∧
    (∀ o ∈ os, takes o.read = true) ∧ (tail = [] ∨ manual.Short tail)

variable {args before rest : List Text}

/-! ### Words and numbers -/

theorem foldl_toDigits (n : ℕ) :
    (Nat.toDigits 10 n).foldl (fun (v : ℤ) c => 10 * v + (c.toNat - '0'.toNat)) 0 = n := by
  have hdigit : ∀ n < 10, ((Nat.digitChar n).toNat : ℤ) - '0'.toNat = n := by decide
  induction n using Nat.strongRecOn with
  | ind n ih =>
    rcases Nat.lt_or_ge n 10 with hlt | hge
    · rw [Nat.toDigits_of_lt_base hlt]
      show 10 * (0 : ℤ) + _ = _
      rw [hdigit n hlt]
      omega
    · rw [Nat.toDigits_of_base_le (by omega) hge, List.foldl_append, ih (n / 10) (by omega)]
      show 10 * ((n / 10 : ℕ) : ℤ) + _ = _
      rw [hdigit (n % 10) (by omega)]
      omega

/-- **The number that is written is the one that is read.** -/
theorem parseRawFd_showFd (fd : Fin 0x80000000) : parseRawFd (showFd fd) = some (fd : ℤ) := by
  have hdigits : ∀ c ∈ showFd fd, c.isDigit = true := fun c hc =>
    Nat.isDigit_of_mem_toDigits (by decide) (by decide) hc
  have hne : showFd fd ≠ [] := by
    unfold showFd
    exact Nat.toDigits_ne_nil
  have hhead : ∀ c : Char, c.isDigit = false → (showFd fd).head? ≠ some c := by
    intro c hc h
    rw [hdigits c (List.mem_of_mem_head? h)] at hc
    cases hc
  have hlt := fd.isLt
  unfold parseRawFd
  simp only [hhead '-' (by decide), hhead '+' (by decide), or_self, if_false]
  rw [if_neg (by simpa [hne] using hdigits)]
  unfold showFd
  rw [foldl_toDigits, if_pos (by omega)]

/-- **The words that are written into a pipe are those that are read from it.** -/
theorem heldWords_serialize {words : List Text} (h : ∀ word ∈ words, NUL ∉ word) :
    heldWords (serialize words) = words := by
  have hpieces : (serialize words).splitOn NUL = words ++ [[]] := splitOn_terminated h
  rw [heldWords, hpieces, List.getLast?_concat, if_pos rfl, List.dropLast_concat]

theorem namedFd_args (n : Text) : namedFd (ARGS, [n]) = parseRawFd n := if_pos rfl

/-! ### The split at the command -/

theorem findCmdIdx_of_front (h : grammar.Front before rest) :
    findCmdIdx (before ++ rest) = before.length := by
  rcases h with ⟨⟨os, rfl⟩, hstops⟩ | ⟨⟨os, tail, rfl, word, vs, rfl, hword, hlen⟩, rfl⟩
  · rw [findCmdIdx_flat_append, findCmdIdx_of_stops hstops, Nat.add_zero]
  · rw [List.append_nil, findCmdIdx_flat_append, findCmdIdx_short hword hlen, List.length_append]

theorem front_findCmdIdx (args : List Text) :
    grammar.Front (args.take (findCmdIdx args)) (args.drop (findCmdIdx args)) := by
  obtain ⟨os, tail, rfl, hstops | ⟨word, vs, rfl, hword, hlen⟩⟩ := exists_flat grammar args
  · have hidx : findCmdIdx (flat os ++ tail) = (flat os).length := by
      rw [findCmdIdx_flat_append, findCmdIdx_of_stops hstops, Nat.add_zero]
    rw [hidx, List.take_left, List.drop_left]
    exact Or.inl ⟨⟨os, rfl⟩, hstops⟩
  · have hidx : findCmdIdx (flat os ++ word :: vs) = (flat os ++ word :: vs).length := by
      rw [findCmdIdx_flat_append, findCmdIdx_short hword hlen, List.length_append]
    rw [hidx, List.take_length, List.drop_length]
    exact Or.inr ⟨⟨os, _, rfl, word, vs, rfl, hword, hlen⟩, rfl⟩

/-- There is one way to split some words at the command. -/
theorem front_iff {ws : List Text} : ws = before ++ rest ∧ grammar.Front before rest ↔
    before = ws.take (findCmdIdx ws) ∧ rest = ws.drop (findCmdIdx ws) := by
  constructor
  · rintro ⟨rfl, hfront⟩
    rw [findCmdIdx_of_front hfront, List.take_left, List.drop_left]
    exact ⟨rfl, rfl⟩
  · rintro ⟨rfl, rfl⟩
    exact ⟨(List.take_append_drop ..).symm, front_findCmdIdx ws⟩

/-! ### Reading by the manual -/

/-- What the wrapper takes for no option is none. -/
theorem stops_manual {args : List Text} (h : grammar.Stops args) : manual.Stops args := by
  intro word hword
  by_contra hoption
  rw [Bool.not_eq_false] at hoption
  exact absurd ((h word hword).symm.trans (arity_manual hoption).1) (by decide)

theorem stops_of_front (h : grammar.Front before rest) : manual.Stops rest := by
  rcases h with ⟨-, hstops⟩ | ⟨-, rfl⟩
  · exact stops_manual hstops
  · exact stops_nil

theorem readOptions_of_stops {ws : List Text} (h : manual.Stops ws) : readOptions ws = [] := by
  unfold readOptions
  rw [read_of_stops h]
  rfl

theorem takeWhile_read {os : List (Opt manual)} (h : ∀ o ∈ os, takes o.read = true)
    (os' : List (Text × List Text)) :
    (os.map Opt.read ++ os').takeWhile takes = os.map Opt.read ++ os'.takeWhile takes := by
  refine List.takeWhile_append_of_pos fun o ho => ?_
  obtain ⟨o', ho', rfl⟩ := List.mem_map.1 ho
  exact h o' ho'

theorem readOptions_flat_append {os : List (Opt manual)} (h : ∀ o ∈ os, takes o.read = true)
    (ws : List Text) : readOptions (flat os ++ ws) = os.map Opt.read ++ readOptions ws := by
  unfold readOptions
  rw [read_flat_append, takeWhile_read h]

/-- Some options are taken, or the reading stops at one of them. -/
theorem takes_or_stopped (os : List (Opt manual)) : (∀ o ∈ os, takes o.read = true) ∨
    ∀ ws, readOptions (flat os ++ ws) = readOptions (flat os) := by
  by_cases h : ∀ o ∈ os, takes o.read = true
  · exact Or.inl h
  · right
    intro ws
    have hshort : ((os.map Opt.read).takeWhile takes).length ≠ (os.map Opt.read).length := by
      intro hlen
      refine h fun o ho => ?_
      have hall := (List.takeWhile_prefix takes (l := os.map Opt.read)).eq_of_length hlen
      exact List.takeWhile_eq_self_iff.1 hall _ (List.mem_map_of_mem ho)
    unfold readOptions
    rw [read_flat_append, read_flat, List.takeWhile_append, if_neg hshort]

/-- **The reading gets to the end of some words**, or what comes after them is not read. -/
theorem ends_or_stopped (before : List Text) :
    Ends before ∨ ∀ ws, readOptions (before ++ ws) = readOptions before := by
  obtain ⟨os, tail, rfl, htail⟩ := exists_flat manual before
  rcases takes_or_stopped os with htakes | hstopped
  · rcases htail with hstops | hshort
    · cases tail with
      | nil => exact Or.inl ⟨os, [], rfl, htakes, Or.inl rfl⟩
      | cons word tail =>
        right
        intro ws
        have hstops' : manual.Stops (word :: tail ++ ws) := hstops
        rw [List.append_assoc, readOptions_flat_append htakes, readOptions_flat_append htakes,
          readOptions_of_stops hstops, readOptions_of_stops hstops']
    · exact Or.inl ⟨os, tail, rfl, htakes, Or.inr hshort⟩
  · right
    intro ws
    rw [List.append_assoc, hstopped, hstopped]

theorem stops_of_slash {word : Text} (h : word.head? = some '/') (args : List Text) :
    grammar.Stops (word :: args) := by
  rintro word' ⟨⟩
  show (decide (word ≠ SEP) && startsWithDash word) = false
  rw [startsWithDash, h, Bool.and_eq_false_iff]
  exact Or.inr (by decide)

theorem takes_of_plain {word : Text} (h : overlooked.contains word = false) (vs : List Text) :
    takes (word, vs) = true := by
  unfold takes
  rw [h]
  rfl

theorem arity_manual_le (arg : Text) : manual.arity arg ≤ 3 := by
  unfold manual
  dsimp only
  split_ifs <;> omega

/-- An option that is overlooked has one value. -/
theorem takes_of_ne_one {word : Text} (hword : manual.isOption word = true)
    (h : manual.arity word ≠ 1) (vs : List Text) : takes (word, vs) = true := by
  have hplain : overlooked.contains word = false := by
    rw [← Bool.not_eq_true, List.contains_iff_mem]
    intro hmem
    have harity := (arity_manual hword).2
    rw [if_pos hmem] at harity
    exact h harity.2
  exact takes_of_plain hplain vs

/-! ### The command is remapped -/

/-- A command word is replaced by an absolute path, if at all. -/
theorem remapped_cases (w : World) (cmd : Text) :
    w.remapped cmd = cmd ∨ (w.remapped cmd).head? = some '/' := by
  unfold World.remapped
  cases hr : w.tryRemapPath cmd with
  | none => exact Or.inl rfl
  | some r =>
    right
    unfold World.tryRemapPath at hr
    split_ifs at hr with hroot
    rw [not_or] at hroot
    obtain ⟨dir, -, hdir⟩ := List.exists_of_findSome?_eq_some hr
    dsimp only at hdir
    split_ifs at hdir
    obtain ⟨c, rest, happdir⟩ := List.exists_cons_of_ne_nil hroot.2
    have hc : c = '/' := w.absolute c (by rw [happdir]; rfl)
    rw [Option.getD_some, ← Option.some.inj hdir, happdir, hc]
    rfl

theorem readOptions_opt_append (o : Opt manual) (ws : List Text) :
    readOptions (o.words ++ ws) = if takes o.read then o.read :: readOptions ws else [] := by
  unfold readOptions
  rw [read_opt_append, List.takeWhile_cons]

theorem takes_of_overlooked {word : Text} (hword : word ∈ overlooked) (value : Text) :
    takes (word, [value]) = !SEP.isPrefixOf value := by
  unfold takes
  rw [List.contains_iff_mem.2 hword]
  simp

theorem startsWithDash_of_prefix {value : Text} (h : SEP.isPrefixOf value = true) :
    startsWithDash value = true := by
  obtain ⟨rest, rfl⟩ := List.isPrefixOf_iff_prefix.1 h
  rfl

/-- Only words with two dashes have values. -/
theorem optArgCount_of_not_prefix {value : Text} (h : SEP.isPrefixOf value = false) :
    optArgCount value = 0 := by
  have hdashes : ∀ word ∈ "--overlay".toList :: takeTwo ++ takeOne, SEP.isPrefixOf word = true := by
    decide +kernel
  have hnot : value ∉ "--overlay".toList :: takeTwo ++ takeOne := fun hmem =>
    absurd (h.symm.trans (hdashes value hmem)) (by decide)
  simp only [List.cons_append, List.mem_cons, List.mem_append, not_or] at hnot
  unfold optArgCount
  rw [if_neg hnot.1, if_neg (by simpa using hnot.2.1), if_neg (by simpa using hnot.2.2)]

/-- The values of an option that is overlooked may be remapped, and so may the command. -/
theorem mem_readOptions_remapFrom (w : World) (args : List Text) {o : Text × List Text}
    (ho : o.1 ∉ overlooked) : o ∈ readOptions (w.remapFrom 0 args) ↔ o ∈ readOptions args := by
  obtain ⟨os, tail, rfl, htail⟩ := exists_flat manual args
  induction os with
  | nil =>
    rw [flat_nil, List.nil_append]
    rcases htail with hstops | ⟨word, vs, rfl, hword, hlen⟩
    · rw [readOptions_of_stops hstops]
      cases tail with
      | nil => rfl
      | cons word tail =>
        have hstops' : manual.Stops (w.remapFrom 0 (word :: tail)) := by
          rw [World.remapFrom]
          split_ifs
          · exact hstops
          · exact hstops
          · rw [World.remapFirst]
            rcases remapped_cases w word with h | h
            · rw [h]
              exact hstops
            · exact stops_manual (stops_of_slash h tail)
        rw [readOptions_of_stops hstops']
    · obtain ⟨hoption, harity⟩ := arity_manual hword
      obtain ⟨hsep, hdash⟩ := isOption_iff.1 hoption
      have hsame : w.remapFrom (optArgCount word) vs = vs := by
        split_ifs at harity
        · obtain rfl : vs = [] := List.eq_nil_of_length_eq_zero (by omega)
          cases optArgCount word <;> rfl
        · exact remapFrom_short (by omega)
      rw [World.remapFrom, if_neg hsep, if_pos hdash, hsame]
  | cons o' os ih =>
    obtain ⟨hoption, harity⟩ := arity_manual o'.isOption
    obtain ⟨hsep, hdash⟩ := isOption_iff.1 hoption
    have hwords : flat (o' :: os) ++ tail = o'.words ++ (flat os ++ tail) := by
      rw [flat_cons, List.append_assoc]
    rw [hwords, readOptions_opt_append, Opt.words, List.cons_append, World.remapFrom, if_neg hsep,
      if_pos hdash]
    by_cases hword : o'.word ∈ overlooked
    · rw [if_pos hword] at harity
      obtain ⟨v, hv⟩ := values_of_overlooked hword
      have hread : o'.read = (o'.word, [v]) := by rw [Opt.read, hv]
      have hne : ∀ v', o ≠ (o'.word, [v']) := fun v' heq => ho (by rw [heq]; exact hword)
      have hopt : ∀ v' ws, readOptions (o'.word :: v' :: ws) =
          if takes (o'.word, [v']) then (o'.word, [v']) :: readOptions ws else [] := fun v' ws =>
        readOptions_opt_append ⟨o'.word, [v'], o'.isOption, harity.2.symm⟩ ws
      rw [harity.1, hv, hread, List.singleton_append]
      cases hprefix : SEP.isPrefixOf v with
      | true =>
        -- The value is refused, and it is not remapped.
        have hrefused : ¬ takes (o'.word, [v]) = true := by
          rw [takes_of_overlooked hword, hprefix]
          decide
        have hdash := startsWithDash_of_prefix hprefix
        rw [World.remapFrom, if_pos hdash]
        split_ifs
        · rw [hopt, if_neg hrefused]
        · rw [hopt, if_neg hrefused]
      | false =>
        have htaken : ∀ v', SEP.isPrefixOf v' = false → takes (o'.word, [v']) = true := by
          intro v' hv'
          rw [takes_of_overlooked hword, hv']
          rfl
        have hsep : v ≠ SEP := by
          rintro rfl
          exact absurd hprefix (by decide)
        rw [World.remapFrom, if_neg hsep, optArgCount_of_not_prefix hprefix,
          if_pos (htaken v hprefix), List.mem_cons, or_iff_right (hne v)]
        split_ifs
        · rw [hopt, if_pos (htaken v hprefix), List.mem_cons, or_iff_right (hne v)]
          exact ih
        · have hremapped : SEP.isPrefixOf (w.remapped v) = false := by
            rcases remapped_cases w v with h | h
            · rw [h]
              exact hprefix
            · obtain ⟨rest, hrest⟩ := List.head?_eq_some_iff.1 h
              rw [hrest]
              rfl
          rw [World.remapFirst, hopt, if_pos (htaken _ hremapped), List.mem_cons,
            or_iff_right (hne _)]
    · rw [if_neg hword] at harity
      have hplain : takes o'.read = true := takes_of_plain (by simpa using hword) o'.values
      rw [remapFrom_values (o'.complete.trans harity.symm), ← List.cons_append,
        show o'.word :: o'.values = o'.words from rfl, readOptions_opt_append, if_pos hplain,
        if_pos hplain, List.mem_cons, List.mem_cons, ih]

theorem expand_of_namedFd (pipes : ℤ → Text) {o : Text × List Text} (h : namedFd o = none) :
    expand pipes o = [o] := by
  unfold expand
  rw [h]

theorem notMem_overlooked_of_namedFd {o : Text × List Text} (h : namedFd o ≠ none) :
    o.1 = ARGS ∧ o.1 ∉ overlooked := by
  unfold namedFd at h
  split_ifs at h with hargs
  · exact ⟨hargs, by rw [hargs]; decide⟩
  · exact absurd rfl h

/-- **The options stay the same when the command is remapped**, but for the values of those that
are overlooked. -/
theorem mem_bwrapOptions_remapCommand (w : World) (pipes : ℤ → Text) (args : List Text)
    {o : Text × List Text} (ho : o.1 ∉ overlooked) :
    o ∈ bwrapOptions pipes (w.remapCommand args) ↔ o ∈ bwrapOptions pipes args := by
  have hread : ∀ o' : Text × List Text, o'.1 ∉ overlooked →
      (o' ∈ readOptions (w.remapCommand args) ↔ o' ∈ readOptions args) := by
    intro o' ho'
    unfold World.remapCommand
    split_ifs
    · rfl
    · exact mem_readOptions_remapFrom w args ho'
  have hplain : ∀ o', o ∈ expand pipes o' → o'.1 ∉ overlooked := by
    intro o' hmem
    by_cases hnamed : namedFd o' = none
    · rw [expand_of_namedFd pipes hnamed, List.mem_singleton] at hmem
      exact hmem ▸ ho
    · exact (notMem_overlooked_of_namedFd hnamed).2
  unfold bwrapOptions
  simp only [List.mem_flatMap]
  constructor
  · rintro ⟨o', ho', hmem⟩
    exact ⟨o', (hread o' (hplain o' hmem)).1 ho', hmem⟩
  · rintro ⟨o', ho', hmem⟩
    exact ⟨o', (hread o' (hplain o' hmem)).2 ho', hmem⟩

/-! ### The descriptor is replaced -/

/-- A number is no option. -/
theorem not_option_of_number {n : Text} {fd : ℤ} (h : parseRawFd n = some fd) :
    manual.isOption n = false := by
  have hall : ∀ word ∈ manualNone ++ manualOne ++ manualTwo ++ manualThree,
      parseRawFd word = none := by
    decide +kernel
  rw [← Bool.not_eq_true]
  intro hoption
  exact absurd ((hall n (List.contains_iff_mem.1 hoption)).symm.trans h) (by simp)

theorem arity_args : 1 = manual.arity ARGS := by decide +kernel

theorem isOption_args : manual.isOption ARGS = true := by decide +kernel

/-- `--args` and a number, where an option may stand. -/
theorem readOptions_args {os : List (Opt manual)} (h : ∀ o ∈ os, takes o.read = true) (n : Text)
    (post : List Text) : readOptions (flat os ++ ARGS :: n :: post) =
      os.map Opt.read ++ (ARGS, [n]) :: readOptions post := by
  have htakes : takes (ARGS, [n]) = true := takes_of_plain (by decide) _
  have hread := readOptions_opt_append ⟨ARGS, [n], isOption_args, arity_args⟩ post
  rw [readOptions_flat_append h]
  exact congrArg (os.map Opt.read ++ ·) (hread.trans (if_pos htakes))

/-- Elsewhere the number is at most a value of an option with several. -/
theorem mem_readOptions_number {pre : List Text}
    (hpre : ¬ ∃ os : List (Opt manual), pre = flat os ∧ ∀ o ∈ os, takes o.read = true)
    {n m : Text} (hn : manual.isOption n = false) (hm : manual.isOption m = false)
    (post : List Text) {o : Text × List Text} (ho : manual.arity o.1 ≤ 1) :
    o ∈ readOptions (pre ++ ARGS :: n :: post) ↔ o ∈ readOptions (pre ++ ARGS :: m :: post) := by
  have hstops : ∀ n, manual.isOption n = false → manual.Stops (n :: post) := by
    rintro n hn word ⟨⟩
    exact hn
  rcases ends_or_stopped pre with ⟨os, tail, rfl, htakes, rfl | ⟨word, vs, rfl, hword, hlen⟩⟩ |
    hstopped
  · exact absurd ⟨os, List.append_nil _, htakes⟩ hpre
  · rw [List.append_assoc, List.append_assoc, readOptions_flat_append htakes,
      readOptions_flat_append htakes, List.mem_append, List.mem_append]
    refine or_congr_right ?_
    unfold readOptions
    rw [read_short_append hword hlen, read_short_append hword hlen]
    obtain hone | ⟨k, htwo⟩ : manual.arity word - vs.length = 1 ∨
        ∃ k, manual.arity word - vs.length = k + 2 := by
      rcases Nat.lt_or_ge (manual.arity word - vs.length) 2 with hlt | hge
      · exact Or.inl (by omega)
      · exact Or.inr ⟨_, (Nat.sub_add_cancel hge).symm⟩
    · rw [hone]
      change _ ∈ ((word, vs ++ [ARGS]) :: manual.read (n :: post)).takeWhile takes ↔
        _ ∈ ((word, vs ++ [ARGS]) :: manual.read (m :: post)).takeWhile takes
      rw [read_of_stops (hstops n hn), read_of_stops (hstops m hm)]
    · have hne : ∀ vs', o ≠ (word, vs') := by
        rintro vs' rfl
        dsimp only at ho
        omega
      rw [htwo]
      change _ ∈ ((word, vs ++ ARGS :: n :: post.take k) :: manual.read (post.drop k)).takeWhile
          takes ↔
        _ ∈ ((word, vs ++ ARGS :: m :: post.take k) :: manual.read (post.drop k)).takeWhile takes
      rw [List.takeWhile_cons_of_pos (takes_of_ne_one hword (by omega) _),
        List.takeWhile_cons_of_pos (takes_of_ne_one hword (by omega) _), List.mem_cons,
        List.mem_cons, or_iff_right (hne _), or_iff_right (hne _)]
  · rw [hstopped, hstopped]

/-- The words that are read from a pipe that is empty. -/
theorem readOptions_held_nil : readOptions (heldWords []) = [] := by decide +kernel

/-- The arguments around the `--args` that is found. -/
theorem split_of_fdAt {i : ℕ} {fd : ℤ} (h : fdAt args i = some fd) :
    ∃ n, parseRawFd n = some fd ∧ args = args.take i ++ ARGS :: n :: args.drop (i + 2) := by
  unfold fdAt at h
  split_ifs at h with hargs
  obtain ⟨n, hn, hfd⟩ := Option.bind_eq_some_iff.1 h
  obtain ⟨hi, hget⟩ := List.getElem?_eq_some_iff.1 hargs
  obtain ⟨hi', hget'⟩ := List.getElem?_eq_some_iff.1 hn
  refine ⟨n, hfd, ?_⟩
  conv_lhs => rw [← List.take_append_drop i args, List.drop_eq_getElem_cons hi,
    List.drop_eq_getElem_cons hi', hget, hget']

end Bwrap
end Launch
end Sharun
