/-
# The `.env` file

Every launch reads the `.env` file of the AppDir (`read_dotenv` of `src/utils.rs`): its lines
set variables, to texts that may refer to others, or name variables that are to be unset.  The
latter happens only when all else has been set up, wherever the line stands; what the start of
the program does to the environment after it is `Start`.

A file says commands (`Command`), and however these are laid out they are carried out as they
were written (`readDotenv_layout`, `launch_layout`).  The lines that the choice of the program
is told of are these commands with their values expanded (`texts_launch`).

A program of the AppDir that starts another one goes through `sharun` again, which reads the
file in an environment that the file has made already.  Where every value refers only to what
is settled before it in the file (`LooksBack`), further launches change nothing of what the
first one has set (`launches_settled`).
-/

import Sharun.Basis.Run
import Sharun.Launch.ExpandVars
import Sharun.Launch.Main

namespace Sharun
namespace Launch
namespace Dotenv

open Sharun.Basis

/-- `data.lines()`. -/
def lines (data : Text) : List Text :=
  let pieces := data.splitOn '\n'
  let ended := pieces.dropLast.map fun s => if s.getLast? = some '\r' then s.dropLast else s
  -- what is behind the last line end is a line only if there is something
  ended ++ pieces.getLast?.toList.filter (· ≠ [])

/-- `s.split_whitespace()`. -/
def splitWhitespace (s : Text) : List Text := (s.splitOnP isWhitespace).filter (· ≠ [])

/-- `val.strip_prefix(q).and_then(|v| v.strip_suffix(q))`. -/
def unquote (q : Char) : Text → Option Text
  | [] => none
  | c :: v => if c = q ∧ v.getLast? = some q then some v.dropLast else none

/-- `env::set_var(key, val)` for a key without an equals sign, which panics for a NUL. -/
def setNamed (vars : RawVars) (key val : Text) : Option RawVars :=
  if '\x00' ∈ key then none else setVar vars key val

/-- `env::remove_var(key)`, which panics for what is no name of a variable. -/
def removeVar (vars : RawVars) (key : Text) : Option RawVars :=
  if '=' ∈ key ∨ '\x00' ∈ key then none else some (Function.update vars key none)

/-- The environment, and `unset_envs`. -/
structure Reading where
  vars : RawVars
  unsetEnvs : List Text

/-- The value of an assignment, and whether it is expanded. -/
def unquoted (val : Text) : Text × Bool :=
  match unquote '\'' val with
  | some v => (v, false)
  | none =>
    match unquote '"' val with
    | some v => (v, true)
    | none => (val, true)

/-- The body of the loop of `read_dotenv`. -/
def readLine (r : Reading) (line : Text) : Option Reading :=
  let line := trim line
  if line = [] ∨ line.head? = some '#' then some r
  else if "unset ".toList <+: line then
    some { r with unsetEnvs := r.unsetEnvs ++ (splitWhitespace line).drop 1 }
  else
    let line := if "export ".toList <+: line then line.drop 7 else line
    match splitOnce '=' line with
    | none => some r
    | some (key, val) =>
      let key := trim key
      let (val, expand) := unquoted (trim val)
      let val := if expand then expandVars r.vars val else val
      if key = [] then some r
      else (setNamed r.vars key val).map fun vars => { r with vars }

/-- `read_dotenv(dotenv_dir)`, with what the file holds; `none` when it panics. -/
def readDotenv (vars : RawVars) (data : Text) : Option Reading :=
  (lines data).foldlM readLine ⟨vars, []⟩

/-- `for var_name in unset_envs { env::remove_var(var_name) }`. -/
def removeVars (vars : RawVars) (unsetEnvs : List Text) : Option RawVars :=
  unsetEnvs.foldlM removeVar vars

/-! ### The start of the program -/

def SHARUN_PRINTENV : Text := "SHARUN_PRINTENV".toList

def LD_LIBRARY_PATH : Text := "LD_LIBRARY_PATH".toList

def LD_PRELOAD : Text := "LD_PRELOAD".toList

/-- How the program is started in the end. -/
inductive Start
  /-- By `Command`: a static program, one of 32 bits, or the `bwrap` of the system. -/
  | command
  /-- By `Command` too: a patched program, which finds its libraries by the environment. -/
  | patched (libraryPath : Text) (preload : List Text)
  /-- By `userland_execve::exec`. -/
  | userland

/-- `if get_env_var("SHARUN_PRINTENV") == "1" { env::remove_var("SHARUN_PRINTENV"); … }`. -/
def dropPrintenv (vars : RawVars) : RawVars :=
  if envVar vars SHARUN_PRINTENV = some ['1'] then Function.update vars SHARUN_PRINTENV none
  else vars

/-- `CString::new(format!("{}={}", …)).unwrap_or_default()`: the value a text is handed on as. -/
def handed (val : Text) : Option EnvValue := if h : 0 ∈ utf8 val then none else some ⟨utf8 val, h⟩

/-- The environment the program gets. -/
def Start.handOver (vars : RawVars) : Start → Option RawVars
  | command => some vars
  | patched libraryPath preload =>
    (setVar vars LD_LIBRARY_PATH libraryPath).bind fun vars =>
      if preload = [] then some vars else setVar vars LD_PRELOAD ([' '].intercalate preload)
  | userland => some fun name => (vars name).bind fun value => handed (lossy value.bytes)

/-- What a launch makes of the environment, from reading the file to starting the program: in
between it sets other variables. -/
def launch (data : Text) (others : RawVars → RawVars) (start : Start) (vars : RawVars) :
    Option RawVars :=
  (readDotenv vars data).bind fun r =>
    (removeVars (others r.vars) r.unsetEnvs).bind fun vars => start.handOver (dropPrintenv vars)

/-! ### What a file says -/

/-- A line of the file that is carried out. -/
inductive Command
  | assign (key value : Text) (expand : Bool)
  | unset (names : List Text)

def Command.run (r : Reading) : Command → Option Reading
  | .assign key value expand =>
    (setNamed r.vars key (if expand then expandVars r.vars value else value)).map fun vars =>
      { r with vars }
  | .unset names => some { r with unsetEnvs := r.unsetEnvs ++ names }

/-- How the value of an assignment is written. -/
inductive Value
  | single (s : Text)
  | double (s : Text)
  | bare (s : Text)

def Value.written : Value → Text
  | single s => '\'' :: s ++ ['\'']
  | double s => '"' :: s ++ ['"']
  | bare s => s

def Value.text : Value → Text
  | single s => s
  | double s => s
  | bare s => s

def Value.expands : Value → Bool
  | single _ => false
  | double _ => true
  | bare _ => true

/-- A line as it is written: nothing, a comment, `unset` with names and the blanks before each,
or an assignment with blanks wherever they may stand. -/
inductive Line
  | blank (pad : Text)
  | comment (pad rest : Text)
  | unset (pad : Text) (names : List (Text × Text)) (trail : Text)
  | assign (pad : Text) (exported : Option Text) (key before after : Text) (value : Value)
      (trail : Text)

/-- What is before the key of an assignment. -/
def lead (exported : Option Text) : Text :=
  exported.elim [] fun inner => "export ".toList ++ inner

namespace Line

def text : Line → Text
  | blank pad => pad
  | comment pad rest => pad ++ '#' :: rest
  | unset pad names trail =>
    pad ++ ("unset".toList ++ names.flatMap fun n => n.1 ++ n.2) ++ trail
  | assign pad exported key before after value trail =>
    pad ++ lead exported ++ key ++ before ++ '=' :: (after ++ value.written ++ trail)

def command? : Line → Option Command
  | blank _ => none
  | comment _ _ => none
  | unset _ names _ => some (.unset (names.map Prod.snd))
  | assign _ _ key _ _ value _ => some (.assign key value.text value.expands)

end Line

/-- A text of whitespace within one line. -/
def Pad (s : Text) : Prop := s.all (fun c => isWhitespace c && c != '\n') = true

instance (s : Text) : Decidable (Pad s) := inferInstanceAs (Decidable (_ = _))

/-- A text without whitespace. -/
def Word (s : Text) : Prop := s ≠ [] ∧ s.all (fun c => !isWhitespace c) = true

instance (s : Text) : Decidable (Word s) := inferInstanceAs (Decidable (_ ∧ _))

/-- A value that is read as it was written. -/
def Value.Ok : Value → Prop
  | single s => '\n' ∉ s
  | double s => '\n' ∉ s
  | bare s => '\n' ∉ s ∧ (∀ c ∈ s.head?, isWhitespace c = false) ∧
    (∀ c ∈ s.getLast?, isWhitespace c = false) ∧ unquote '\'' s = none ∧ unquote '"' s = none

instance : (value : Value) → Decidable value.Ok
  | .single s => inferInstanceAs (Decidable ('\n' ∉ s))
  | .double s => inferInstanceAs (Decidable ('\n' ∉ s))
  | .bare s => inferInstanceAs (Decidable ('\n' ∉ s ∧ (∀ c ∈ s.head?, isWhitespace c = false) ∧
    (∀ c ∈ s.getLast?, isWhitespace c = false) ∧ unquote '\'' s = none ∧ unquote '"' s = none))

/-- A line that is read as it was written. -/
def Line.Ok : Line → Prop
  | .blank pad => Pad pad
  | .comment pad rest => Pad pad ∧ '\n' ∉ rest
  | .unset pad names trail => Pad pad ∧ Pad trail ∧
    (∀ n ∈ names, Pad n.1 ∧ n.1 ≠ [] ∧ Word n.2) ∧ ∀ n ∈ names.head?, n.1.head? = some ' '
  | .assign pad exported key before after value trail =>
    (Pad pad ∧ Pad (exported.getD []) ∧ Pad before ∧ Pad after ∧ Pad trail) ∧
      (Word key ∧ '=' ∉ key ∧ key.head? ≠ some '#') ∧ value.Ok ∧
      (exported = none → before.head? = some ' ' → key ∉ ["unset".toList, "export".toList])

instance : (line : Line) → Decidable line.Ok
  | .blank pad => inferInstanceAs (Decidable (Pad pad))
  | .comment .. => inferInstanceAs (Decidable (_ ∧ _))
  | .unset pad names trail => inferInstanceAs (Decidable (Pad pad ∧ Pad trail ∧
    (∀ n ∈ names, Pad n.1 ∧ n.1 ≠ [] ∧ Word n.2) ∧ ∀ n ∈ names.head?, n.1.head? = some ' '))
  | .assign .. => inferInstanceAs (Decidable (_ ∧ _ ∧ _ ∧ (_ → _ → _)))

/-! ### Whitespace -/

theorem Pad.isWhitespace {s : Text} (h : Pad s) : ∀ c ∈ s, isWhitespace c = true := by
  intro c hc
  have hall := List.all_eq_true.1 h c hc
  rw [Bool.and_eq_true] at hall
  exact hall.1

theorem Pad.newline {s : Text} (h : Pad s) : '\n' ∉ s := by
  intro hc
  have hall := List.all_eq_true.1 h _ hc
  simp at hall

theorem Word.not_isWhitespace {s : Text} (h : Word s) : ∀ c ∈ s, Launch.isWhitespace c = false := by
  intro c hc
  have hall := List.all_eq_true.1 h.2 c hc
  simpa using hall

theorem Word.notMem {s : Text} (h : Word s) {c : Char} (hc : Launch.isWhitespace c = true) :
    c ∉ s :=
  fun hmem => absurd ((h.not_isWhitespace c hmem).symm.trans hc) Bool.false_ne_true

theorem Pad.notMem {s : Text} (h : Pad s) {c : Char} (hc : Launch.isWhitespace c = false) :
    c ∉ s :=
  fun hmem => absurd (hc.symm.trans (h.isWhitespace c hmem)) Bool.false_ne_true

/-- What begins with a character that stays is trimmed at its end. -/
theorem rdropWhile_cons {p : Char → Bool} {c : Char} (hc : p c = false) (s : Text) :
    (c :: s).rdropWhile p = c :: s.rdropWhile p := by
  unfold List.rdropWhile
  rw [List.reverse_cons, List.dropWhile_append]
  split_ifs with hempty
  · rw [List.dropWhile_cons_of_neg (by simp [hc]), List.isEmpty_iff.1 hempty]
    rfl
  · rw [List.reverse_append]
    rfl

theorem trim_cons {pad : Text} (hpad : Pad pad) {c : Char} (hc : isWhitespace c = false)
    (s : Text) : trim (pad ++ c :: s) = c :: s.rdropWhile isWhitespace := by
  unfold trim
  rw [List.dropWhile_append_of_pos hpad.isWhitespace, List.dropWhile_cons_of_neg (by simp [hc]),
    rdropWhile_cons hc]

/-- Whitespace at the end makes no difference to what is trimmed. -/
theorem trim_append (s : Text) {w : Text} (hw : ∀ c ∈ w, isWhitespace c = true) :
    trim (s ++ w) = trim s := by
  unfold trim
  rw [List.dropWhile_append]
  split_ifs with hempty
  · rw [List.dropWhile_eq_nil_iff.2 hw, List.isEmpty_iff.1 hempty]
  · exact rdropWhile_append_of_forall _ hw

theorem trim_rdropWhile (s : Text) : trim (s.rdropWhile isWhitespace) = trim s := by
  have hw : ∀ c ∈ s.rtakeWhile isWhitespace, isWhitespace c = true :=
    fun c hc => List.mem_rtakeWhile_imp hc
  rw [← trim_append _ hw, List.rdropWhile_append_rtakeWhile]

theorem trim_of_pad {s : Text} (h : Pad s) : trim s = [] := by
  unfold trim
  rw [List.dropWhile_eq_nil_iff.2 h.isWhitespace]
  rfl

theorem splitWhitespace_pad {s : Text} (hs : ∀ c ∈ s, isWhitespace c = true) (t : Text) :
    splitWhitespace (s ++ t) = splitWhitespace t := by
  induction s with
  | nil => rfl
  | cons c s ih =>
    obtain ⟨hc, hs⟩ := List.forall_mem_cons.1 hs
    have hrest := ih hs
    unfold splitWhitespace at hrest ⊢
    rw [List.cons_append, List.splitOnP_cons_eq_if_modifyHead, if_pos hc,
      List.filter_cons_of_neg (by simp), hrest]

/-- Words with whitespace between them. -/
theorem splitWhitespace_words {w : Text} (hw : Word w) {names : List (Text × Text)}
    (hnames : ∀ n ∈ names, Pad n.1 ∧ n.1 ≠ [] ∧ Word n.2) :
    splitWhitespace (w ++ names.flatMap fun n => n.1 ++ n.2) = w :: names.map Prod.snd := by
  induction names generalizing w with
  | nil =>
    unfold splitWhitespace
    rw [List.flatMap_nil, List.append_nil, List.splitOnP_eq_singleton hw.not_isWhitespace,
      List.filter_cons_of_pos (by simpa using hw.1)]
    rfl
  | cons n names ih =>
    obtain ⟨⟨hpad, hne, hname⟩, hnames⟩ := List.forall_mem_cons.1 hnames
    obtain ⟨c, rest, hsep⟩ := List.exists_cons_of_ne_nil hne
    rw [hsep] at hpad
    obtain ⟨hc, hrest⟩ := List.forall_mem_cons.1 hpad.isWhitespace
    have htail := ih hname hnames
    rw [← splitWhitespace_pad hrest] at htail
    rw [List.flatMap_cons, hsep, List.map_cons, ← htail, List.append_assoc, List.cons_append]
    unfold splitWhitespace
    rw [List.splitOnP_append_cons_of_forall_mem hw.not_isWhitespace c hc,
      List.filter_cons_of_pos (by simpa using hw.1)]

/-! ### Lines that are read as they were written -/

theorem unquote_quoted (q : Char) (s : Text) : unquote q (q :: s ++ [q]) = some s := by
  rw [List.cons_append, unquote, if_pos ⟨rfl, List.getLast?_concat⟩, List.dropLast_concat]

/-- **A value is taken out of its quotes.** -/
theorem unquoted_written {value : Value} (h : value.Ok) :
    unquoted value.written = (value.text, value.expands) := by
  cases value with
  | single s =>
    unfold unquoted Value.written
    rw [unquote_quoted]
    rfl
  | double s =>
    have hother : unquote '\'' ('"' :: s ++ ['"']) = none := by
      rw [List.cons_append, unquote, if_neg fun hboth => absurd hboth.1 (by decide)]
    unfold unquoted Value.written
    rw [hother, unquote_quoted]
    rfl
  | bare s =>
    obtain ⟨-, -, -, hsingle, hdouble⟩ := h
    unfold unquoted Value.written
    rw [hsingle, hdouble]
    rfl

/-- A value with whitespace around it. -/
theorem trim_written {value : Value} (h : value.Ok) {after trail : Text} (hafter : Pad after)
    (htrail : Pad trail) : trim (after ++ value.written ++ trail) = value.written := by
  have hquote : ∀ (q : Char) (s : Text), isWhitespace q = false →
      trim (after ++ (q :: s ++ [q]) ++ trail) = q :: s ++ [q] := by
    intro q s hq
    refine trimmed_pad after trail hafter.isWhitespace htrail.isWhitespace ?_ ?_
    · intro c hc
      obtain rfl := Option.some.inj hc
      exact hq
    · intro c hc
      rw [List.getLast?_concat] at hc
      obtain rfl := Option.some.inj hc
      exact hq
  cases value with
  | single s => exact hquote '\'' s (by decide)
  | double s => exact hquote '"' s (by decide)
  | bare s =>
    obtain ⟨-, hhead, hlast, -, -⟩ := h
    exact trimmed_pad after trail hafter.isWhitespace htrail.isWhitespace hhead hlast

/-- A word that a line begins with is its key. -/
theorem eq_of_prefix {word key before rest : Text} (hword : Word word) (hwordEq : '=' ∉ word)
    (hkey : Word key) (hkeyEq : '=' ∉ key) (hbefore : Pad before)
    (h : word ++ [' '] <+: key ++ before ++ '=' :: rest) :
    key = word ∧ before.head? = some ' ' := by
  have hcut : ∀ {w : Text} (c : Char) (u : Text), Word w → '=' ∉ w →
      (isWhitespace c = true ∨ c = '=') →
        (w ++ c :: u).takeWhile (fun c => !isWhitespace c && c != '=') = w := by
    intro w c u hw hwEq hc
    have hstays : ∀ d ∈ w, (!isWhitespace d && d != '=') = true := by
      intro d hd
      have hne : d ≠ '=' := fun h => hwEq (h ▸ hd)
      rw [hw.not_isWhitespace d hd]
      simpa using hne
    rw [List.takeWhile_append_of_pos hstays, List.takeWhile_cons_of_neg, List.append_nil]
    rcases hc with hc | rfl
    · simp [hc]
    · simp
  obtain ⟨t, ht⟩ := h
  rw [List.append_assoc, List.singleton_append] at ht
  have hleft := hcut ' ' t hword hwordEq (.inl (by decide))
  cases before with
  | nil =>
    rw [List.append_nil] at ht
    have hright := hcut '=' rest hkey hkeyEq (.inr rfl)
    rw [ht, hright] at hleft
    subst hleft
    exact absurd (List.cons.inj (List.append_cancel_left ht)).1 (by decide)
  | cons c before =>
    rw [List.append_assoc, List.cons_append] at ht
    have hright := hcut c (before ++ '=' :: rest) hkey hkeyEq
      (.inl (hbefore.isWhitespace c List.mem_cons_self))
    rw [ht, hright] at hleft
    subst hleft
    rw [(List.cons.inj (List.append_cancel_left ht)).1]
    exact ⟨rfl, rfl⟩

variable {r : Reading}

theorem readLine_blank {pad : Text} (h : Pad pad) : readLine r pad = some r := by
  unfold readLine
  rw [trim_of_pad h]
  rfl

theorem readLine_comment {pad : Text} (h : Pad pad) (rest : Text) :
    readLine r (pad ++ '#' :: rest) = some r := by
  unfold readLine
  rw [trim_cons h (by decide)]
  rfl

/-- **The names of an `unset` line are taken as they are.** -/
theorem readLine_unset {pad trail : Text} {names : List (Text × Text)}
    (h : (Line.unset pad names trail).Ok) :
    readLine r (Line.unset pad names trail).text =
      (Command.unset (names.map Prod.snd)).run r := by
  obtain ⟨hpad, htrail, hnames, hfirst⟩ := h
  have hlast : ∀ c ∈ ("unset".toList ++ names.flatMap fun n => n.1 ++ n.2).getLast?,
      isWhitespace c = false := by
    rcases List.eq_nil_or_concat names with rfl | ⟨init, n, rfl⟩
    · intro c hc
      obtain rfl := Option.some.inj hc
      decide
    · obtain ⟨-, -, hword⟩ := hnames n (by simp)
      intro c hc
      rw [List.concat_eq_append, List.flatMap_append, List.flatMap_singleton, ← List.append_assoc,
        ← List.append_assoc, List.getLast?_append_of_ne_nil _ hword.1] at hc
      exact hword.not_isWhitespace c (List.mem_of_getLast? hc)
  have htrim : trim (Line.unset pad names trail).text =
      "unset".toList ++ names.flatMap fun n => n.1 ++ n.2 := by
    refine trimmed_pad pad trail hpad.isWhitespace htrail.isWhitespace ?_ hlast
    intro c hc
    obtain rfl := Option.some.inj hc
    decide
  have hwords := splitWhitespace_words (w := "unset".toList) (by decide) hnames
  unfold readLine
  rw [htrim]
  cases names with
  | nil =>
    -- there is no blank behind the word, and no equals sign
    dsimp only
    rw [if_neg (by decide), if_neg (by decide), if_neg (by decide),
      (splitOnce_eq_none (c := '=')).2 (by decide)]
    exact congrArg some (congrArg (Reading.mk r.vars) (List.append_nil _).symm)
  | cons n names =>
    obtain ⟨sep, hsep⟩ : ∃ sep, n.1 = ' ' :: sep := by
      have hblank := hfirst n rfl
      cases hn : n.1 with
      | nil => rw [hn] at hblank; exact absurd hblank (by simp)
      | cons c sep => rw [hn] at hblank; exact ⟨sep, by rw [Option.some.inj hblank]⟩
    have hprefix : "unset ".toList <+:
        "unset".toList ++ (n :: names).flatMap fun n => n.1 ++ n.2 := by
      rw [List.flatMap_cons, hsep]
      exact ⟨sep ++ n.2 ++ names.flatMap fun n => n.1 ++ n.2, by simp⟩
    dsimp only
    rw [hwords, if_neg, if_pos hprefix]
    · rfl
    · simp

section Assign

variable {pad key before after trail : Text} {exported : Option Text} {value : Value}

/-- The first character of an assignment. -/
theorem exists_head (h : (Line.assign pad exported key before after value trail).Ok) :
    ∃ c rest, lead exported ++ key ++ before = c :: rest ∧ isWhitespace c = false ∧ c ≠ '#' := by
  obtain ⟨-, ⟨hkey, -, hhash⟩, -, -⟩ := h
  cases exported with
  | none =>
    obtain ⟨c, rest, rfl⟩ := List.exists_cons_of_ne_nil hkey.1
    exact ⟨c, rest ++ before, rfl, hkey.not_isWhitespace c List.mem_cons_self,
      fun heq => hhash (by rw [heq]; rfl)⟩
  | some inner =>
    exact ⟨'e', "xport ".toList ++ inner ++ key ++ before, rfl, by decide, by decide⟩

/-- An assignment with what is around it trimmed. -/
theorem trim_assign (h : (Line.assign pad exported key before after value trail).Ok) :
    trim (Line.assign pad exported key before after value trail).text =
      lead exported ++ key ++ before ++
        '=' :: (after ++ value.written ++ trail).rdropWhile isWhitespace := by
  obtain ⟨c, rest, hcore, hc, -⟩ := exists_head h
  have htext : (Line.assign pad exported key before after value trail).text =
      pad ++ c :: (rest ++ '=' :: (after ++ value.written ++ trail)) := by
    rw [← List.cons_append, ← hcore]
    simp [Line.text]
  have hend := rdropWhile_cons (p := isWhitespace) (c := '=') (by decide)
    (after ++ value.written ++ trail)
  rw [htext, trim_cons h.1.1 hc, rdropWhile_append, hend, hcore, List.cons_append]
  rw [hend]
  exact List.cons_ne_nil _ _

/-- It is no `unset` line, and `export` is taken off. -/
theorem strip_assign (h : (Line.assign pad exported key before after value trail).Ok)
    (tail : Text) :
    ¬"unset ".toList <+: lead exported ++ key ++ before ++ '=' :: tail ∧
      (if "export ".toList <+: lead exported ++ key ++ before ++ '=' :: tail then
          (lead exported ++ key ++ before ++ '=' :: tail).drop 7
        else lead exported ++ key ++ before ++ '=' :: tail) =
        exported.getD [] ++ key ++ before ++ '=' :: tail := by
  obtain ⟨⟨-, -, hbefore, -, -⟩, ⟨hkey, hkeyEq, -⟩, -, hmistaken⟩ := h
  cases exported with
  | none =>
    have hother : ∀ word ∈ ["unset".toList, "export".toList], Word word → '=' ∉ word →
        ¬word ++ [' '] <+: key ++ before ++ '=' :: tail := by
      intro word hword hw hwEq hprefix
      obtain ⟨rfl, hblank⟩ := eq_of_prefix hw hwEq hkey hkeyEq hbefore hprefix
      exact hmistaken rfl hblank hword
    exact ⟨hother "unset".toList (by simp) (by decide) (by decide),
      if_neg (hother "export".toList (by simp) (by decide) (by decide))⟩
  | some inner =>
    have hlead : lead (some inner) ++ key ++ before ++ '=' :: tail =
        "export ".toList ++ (inner ++ key ++ before ++ '=' :: tail) := by
      simp [lead]
    rw [hlead, if_pos (List.prefix_append _ _)]
    refine ⟨fun hprefix => ?_, rfl⟩
    obtain ⟨rest, hrest⟩ := hprefix
    exact absurd (List.cons.inj hrest).1 (by decide)

/-- **An assignment is carried out as it was written.** -/
theorem readLine_assign (h : (Line.assign pad exported key before after value trail).Ok) :
    readLine r (Line.assign pad exported key before after value trail).text =
      (Command.assign key value.text value.expands).run r := by
  obtain ⟨c, rest, hcore, hc, hhash⟩ := exists_head h
  obtain ⟨hunset, hexport⟩ :=
    strip_assign h ((after ++ value.written ++ trail).rdropWhile isWhitespace)
  have htrim := trim_assign h
  obtain ⟨⟨hpad, hinner, hbefore, hafter, htrail⟩, ⟨hkey, hkeyEq, -⟩, hvalue, -⟩ := h
  have hsplit : splitOnce '=' (exported.getD [] ++ key ++ before ++
      '=' :: (after ++ value.written ++ trail).rdropWhile isWhitespace) =
        some (exported.getD [] ++ key ++ before,
          (after ++ value.written ++ trail).rdropWhile isWhitespace) := by
    refine splitOnce_eq_some.2 ⟨rfl, ?_⟩
    rw [List.mem_append, List.mem_append, not_or, not_or]
    exact ⟨⟨hinner.notMem (by decide), hkeyEq⟩, hbefore.notMem (by decide)⟩
  have hname : trim (exported.getD [] ++ key ++ before) = key :=
    trimmed_pad _ before hinner.isWhitespace hbefore.isWhitespace
      (fun c hc => hkey.not_isWhitespace c (List.mem_of_head? hc))
      (fun c hc => hkey.not_isWhitespace c (List.mem_of_getLast? hc))
  have hval : trim ((after ++ value.written ++ trail).rdropWhile isWhitespace) = value.written := by
    rw [trim_rdropWhile, trim_written hvalue hafter htrail]
  have hstart : ¬(lead exported ++ key ++ before ++
      '=' :: (after ++ value.written ++ trail).rdropWhile isWhitespace = [] ∨
        (lead exported ++ key ++ before ++
          '=' :: (after ++ value.written ++ trail).rdropWhile isWhitespace).head? = some '#') := by
    rw [hcore]
    rintro (hnil | hhead)
    · exact List.cons_ne_nil _ _ hnil
    · exact hhash (Option.some.inj hhead)
  unfold readLine
  rw [htrim]
  dsimp only
  rw [if_neg hstart, if_neg hunset, hexport, hsplit]
  dsimp only
  rw [hname, hval, unquoted_written hvalue, if_neg hkey.1]
  rfl

end Assign

/-- **A line does what it says.** -/
theorem readLine_line {line : Line} (h : line.Ok) :
    readLine r line.text = line.command?.elim (some r) (Command.run r) := by
  cases line with
  | blank pad => exact readLine_blank h
  | comment pad rest => exact readLine_comment h.1 rest
  | unset pad names trail => exact readLine_unset h
  | assign pad exported key before after value trail => exact readLine_assign h

/-! ### Files -/

/-- A carriage return at the end of a line is whitespace. -/
theorem readLine_ended (r : Reading) (s : Text) :
    readLine r (if s.getLast? = some '\r' then s.dropLast else s) = readLine r s := by
  split_ifs with hlast
  · obtain ⟨init, rfl⟩ := List.getLast?_eq_some_iff.1 hlast
    have htrim : trim (init ++ ['\r']) = trim init :=
      trim_append init (List.forall_mem_singleton.2 (by decide))
    rw [List.dropLast_concat]
    unfold readLine
    rw [htrim]
  · rfl

/-- It makes no difference how lines end. -/
theorem readDotenv_eq (vars : RawVars) (data : Text) :
    readDotenv vars data = (data.splitOn '\n').foldlM readLine ⟨vars, []⟩ := by
  have hended : (fun r s => readLine r (if s.getLast? = some '\r' then s.dropLast else s)) =
      readLine := funext fun r => funext (readLine_ended r)
  have hlast : ∀ (r : Reading) (s : Text), ([s].filter (· ≠ [])).foldlM readLine r =
      [s].foldlM readLine r := by
    intro r s
    by_cases hs : s = []
    · subst hs
      rfl
    · rw [List.filter_cons_of_pos (by simpa using hs), List.filter_nil]
  obtain hnil | ⟨init, last, hpieces⟩ := List.eq_nil_or_concat (data.splitOn '\n')
  · exact absurd hnil (List.splitOn_ne_nil _ _)
  · unfold readDotenv lines
    rw [hpieces, List.concat_eq_append]
    dsimp only
    rw [List.dropLast_concat, List.getLast?_concat, Option.toList_some, List.foldlM_append,
      List.foldlM_append, List.foldlM_map, hended]
    exact congrArg _ (funext fun r => hlast r last)

/-- No line ends inside of one. -/
theorem Line.Ok.newline {line : Line} (h : line.Ok) : '\n' ∉ line.text := by
  have hfixed : ∀ word ∈ ["export ".toList, "unset".toList], '\n' ∉ word := by decide
  cases line with
  | blank pad => exact Pad.newline h
  | comment pad rest =>
    intro hmem
    rcases List.mem_append.1 hmem with hmem | hmem
    · exact h.1.newline hmem
    · exact h.2 ((List.mem_cons.1 hmem).resolve_left (by decide))
  | unset pad names trail =>
    obtain ⟨hpad, htrail, hnames, -⟩ := h
    intro hmem
    simp only [Line.text, List.mem_append, List.mem_flatMap] at hmem
    rcases hmem with (hmem | hmem | ⟨n, hn, hmem | hmem⟩) | hmem
    · exact hpad.newline hmem
    · exact hfixed _ (by simp) hmem
    · exact (hnames n hn).1.newline hmem
    · exact (hnames n hn).2.2.notMem (by decide) hmem
    · exact htrail.newline hmem
  | assign pad exported key before after value trail =>
    obtain ⟨⟨hpad, hinner, hbefore, hafter, htrail⟩, ⟨hkey, -, -⟩, hvalue, -⟩ := h
    have hlead : '\n' ∉ lead exported := by
      cases exported with
      | none => exact List.not_mem_nil
      | some inner =>
        exact fun hmem => (List.mem_append.1 hmem).elim (hfixed _ (by simp)) hinner.newline
    have hwritten : '\n' ∉ value.written := by
      cases value with
      | single s =>
        have hs : '\n' ∉ s := hvalue
        simpa [Value.written] using hs
      | double s =>
        have hs : '\n' ∉ s := hvalue
        simpa [Value.written] using hs
      | bare s => exact hvalue.1
    intro hmem
    simp only [Line.text, List.mem_append, List.mem_cons] at hmem
    rcases hmem with (((hmem | hmem) | hmem) | hmem) | hmem | (hmem | hmem) | hmem
    · exact hpad.newline hmem
    · exact hlead hmem
    · exact hkey.notMem (by decide) hmem
    · exact hbefore.newline hmem
    · exact absurd hmem (by decide)
    · exact hafter.newline hmem
    · exact hwritten hmem
    · exact htrail.newline hmem

/-- The text of a file. -/
def contents (file : List Line) : Text := join '\n' (file.map Line.text)

/-- What a file says. -/
def commands (file : List Line) : List Command := file.filterMap Line.command?

/-- **However a `.env` file is laid out**, its commands are carried out in their order, each as
it was written. -/
theorem readDotenv_layout (vars : RawVars) (file : List Line) (hfile : ∀ line ∈ file, line.Ok) :
    readDotenv vars (contents file) = (commands file).foldlM Command.run ⟨vars, []⟩ := by
  have hlines : ∀ (file : List Line) (r : Reading), (∀ line ∈ file, line.Ok) →
      (file.map Line.text).foldlM readLine r =
        (file.filterMap Line.command?).foldlM Command.run r := by
    intro file
    induction file with
    | nil => exact fun _ _ => rfl
    | cons line file ih =>
      intro r hfile
      obtain ⟨hline, hfile⟩ := List.forall_mem_cons.1 hfile
      rw [List.map_cons, List.foldlM_cons, readLine_line hline, List.filterMap_cons]
      cases line.command? with
      | none => exact ih r hfile
      | some c => exact congrArg _ (funext fun r => ih r hfile)
  rw [readDotenv_eq]
  cases file with
  | nil => rfl
  | cons line file =>
    have hpieces : ∀ s ∈ (line :: file).map Line.text, '\n' ∉ s := by
      intro s hs
      obtain ⟨line', hline', rfl⟩ := List.mem_map.1 hs
      exact (hfile line' hline').newline
    unfold contents join
    rw [List.splitOn_intercalate _ hpieces (by simp), hlines _ _ hfile]
    rfl

/-! ### What commands do to the environment -/

/-- A loop that has gone well has done so from its first turn on. -/
theorem foldlM_cons_eq_some {α β : Type} {f : β → α → Option β} {a : α} {l : List α} {b e : β}
    (h : (a :: l).foldlM f b = some e) : ∃ b', f b a = some b' ∧ l.foldlM f b' = some e := by
  rw [List.foldlM_cons] at h
  exact Option.bind_eq_some_iff.1 h

/-- A value is expanded from the variables it refers to. -/
theorem expandVars_congr {vars vars' : RawVars} {value : Text}
    (h : ∀ name ps, Reads value ps → .braced name ∈ ps ∨ .named name ∈ ps →
      vars name = vars' name) : expandVars vars value = expandVars vars' value := by
  obtain ⟨ps, hps⟩ := exists_reads value
  have hpiece : ∀ p ∈ ps, p.expand vars = p.expand vars' := by
    intro p hp
    cases p with
    | char c => rfl
    | braced name =>
      have hvar : envVar vars name = envVar vars' name :=
        congrArg (Option.bind · _) (h name ps hps (.inl hp))
      exact congrArg (Option.getD · _) hvar
    | named name =>
      have hvar : envVar vars name = envVar vars' name :=
        congrArg (Option.bind · _) (h name ps hps (.inr hp))
      exact congrArg (Option.getD · _) hvar
  have hvalue : ∀ vars, expandVars vars value = ps.flatMap (Piece.expand vars) :=
    fun vars => hps.expandFrom vars []
  rw [hvalue, hvalue, List.flatMap_def, List.flatMap_def, List.map_congr_left hpiece]

/-- A variable is set to a value that comes from the text alone. -/
theorem setNamed_eq_some {vars vars' : RawVars} {key val : Text}
    (h : setNamed vars key val = some vars') :
    ∃ v, ∀ w, setNamed w key val = some (Function.update w key (some v)) := by
  unfold setNamed at h
  split_ifs at h with hkey
  unfold setVar at h
  split_ifs at h with hval
  exact ⟨⟨utf8 val, hval⟩, fun w => (if_neg hkey).trans (dif_neg hval)⟩

namespace Command

/-- The variable a command sets. -/
def key? : Command → Option Text
  | assign key _ _ => some key
  | unset _ => none

/-- The variables it names to be unset. -/
def names : Command → List Text
  | assign .. => []
  | unset names => names

/-- A variable its value refers to. -/
def Mentions (c : Command) (name : Text) : Prop :=
  ∃ key value ps, c = assign key value true ∧ Reads value ps ∧
    (.braced name ∈ ps ∨ .named name ∈ ps)

/-- **What a command does.**  It sets its variable, to a value it makes of those it mentions,
and leaves the others. -/
theorem run_eq_some {c : Command} {r r' : Reading} (h : c.run r = some r') :
    r'.unsetEnvs = r.unsetEnvs ++ c.names ∧
      (∀ name, c.key? ≠ some name → r'.vars name = r.vars name) ∧
      ∀ w : Reading, (∀ name, c.Mentions name → w.vars name = r.vars name) →
        ∃ w', c.run w = some w' ∧ ∀ name, c.key? = some name → w'.vars name = r'.vars name := by
  cases c with
  | unset names =>
    obtain rfl := Option.some.inj h
    exact ⟨rfl, fun _ _ => rfl, fun w _ => ⟨_, rfl, fun _ hname => absurd hname (by simp [key?])⟩⟩
  | assign key value expand =>
    obtain ⟨vars, hset, rfl⟩ := Option.map_eq_some_iff.1 h
    obtain ⟨v, hv⟩ := setNamed_eq_some hset
    obtain rfl := Option.some.inj ((hv r.vars).symm.trans hset)
    refine ⟨(List.append_nil _).symm, fun name hname => ?_, fun w hw => ?_⟩
    · exact Function.update_of_ne (fun heq => hname (by rw [heq]; rfl)) ..
    · have hsame : (if expand then expandVars w.vars value else value) =
          if expand then expandVars r.vars value else value := by
        cases expand with
        | false => rfl
        | true =>
          exact expandVars_congr fun name ps hps hmem =>
            hw name ⟨key, value, ps, rfl, hps, hmem⟩
      refine ⟨⟨Function.update w.vars key (some v), w.unsetEnvs⟩, ?_, fun name hname => ?_⟩
      · have hrun : run w (assign key value expand) =
            (setNamed w.vars key (if expand then expandVars w.vars value else value)).map
              fun vars => { w with vars } := rfl
        rw [hrun, hsame, hv w.vars]
        rfl
      · obtain rfl := Option.some.inj hname
        dsimp only
        rw [Function.update_self, Function.update_self]

end Command

/-- The variables the file sets. -/
def assigned (cs : List Command) : List Text := cs.filterMap Command.key?

/-- The variables it names to be unset. -/
def unsetNames (cs : List Command) : List Text := cs.flatMap Command.names

/-- Values refer to what is settled: not to variables that are set in the same line or behind it,
and to one that is unset in the end only if a line before has set it. -/
def LooksBack (gone : List Text) : List Text → List Command → Prop
  | _, [] => True
  | done, c :: cs =>
    (∀ name, c.Mentions name → name ∉ assigned (c :: cs) ∧ (name ∈ done ∨ name ∉ gone)) ∧
      LooksBack gone (c.key?.toList ++ done) cs

theorem mem_assigned_cons {c : Command} {cs : List Command} {name : Text} :
    name ∈ assigned (c :: cs) ↔ c.key? = some name ∨ name ∈ assigned cs := by
  unfold assigned
  rw [List.filterMap_cons]
  cases c.key? with
  | none => simp
  | some key => simp [eq_comm]

/-- Variables that no command sets are left. -/
theorem runs_eq_some {cs : List Command} {r e : Reading} (h : cs.foldlM Command.run r = some e) :
    e.unsetEnvs = r.unsetEnvs ++ unsetNames cs ∧
      ∀ name, name ∉ assigned cs → e.vars name = r.vars name := by
  induction cs generalizing r with
  | nil =>
    obtain rfl := Option.some.inj h
    exact ⟨(List.append_nil _).symm, fun _ _ => rfl⟩
  | cons c cs ih =>
    obtain ⟨r', hrun, hrest⟩ := foldlM_cons_eq_some h
    obtain ⟨hunset, hframe, -⟩ := Command.run_eq_some hrun
    obtain ⟨hunset', hframe'⟩ := ih hrest
    refine ⟨?_, fun name hname => ?_⟩
    · rw [hunset', hunset, List.append_assoc]
      rfl
    · rw [mem_assigned_cons, not_or] at hname
      rw [hframe' name hname.2, hframe name hname.1]

/-- **Commands that are carried out again**, in an environment that has what they have left
before wherever they do not set it themselves, leave the same. -/
theorem runs_again {gone : List Text} {K : Text → Prop} {cs : List Command} {done : List Text}
    {r e w : Reading} (hlook : LooksBack gone done cs)
    (hK : ∀ c ∈ cs, ∀ name, c.Mentions name → K name) (h : cs.foldlM Command.run r = some e)
    (hw : ∀ name, K name → name ∉ assigned cs → name ∈ done ∨ name ∉ gone →
      w.vars name = e.vars name) :
    ∃ f, cs.foldlM Command.run w = some f ∧ ∀ name, K name →
      name ∈ assigned cs ∨ name ∈ done ∨ name ∉ gone → f.vars name = e.vars name := by
  induction cs generalizing done r w with
  | nil =>
    obtain rfl := Option.some.inj h
    refine ⟨w, rfl, fun name hname hsettled => hw name hname List.not_mem_nil ?_⟩
    exact hsettled.resolve_left List.not_mem_nil
  | cons c cs ih =>
    obtain ⟨r', hrun, hrest⟩ := foldlM_cons_eq_some h
    obtain ⟨hback, hlook⟩ := hlook
    obtain ⟨hKc, hK⟩ := List.forall_mem_cons.1 hK
    obtain ⟨-, hframe, hagain⟩ := Command.run_eq_some hrun
    have hleft : ∀ name, name ∉ assigned cs → e.vars name = r'.vars name :=
      (runs_eq_some hrest).2
    have hmentioned : ∀ name, c.Mentions name → w.vars name = r.vars name := by
      intro name hname
      obtain ⟨hlater, hsettled⟩ := hback name hname
      rw [hw name (hKc name hname) hlater hsettled]
      rw [mem_assigned_cons, not_or] at hlater
      rw [hleft name hlater.2, hframe name hlater.1]
    obtain ⟨w', hrun', hkey⟩ := hagain w hmentioned
    obtain ⟨-, hframe', -⟩ := Command.run_eq_some hrun'
    have hw' : ∀ name, K name → name ∉ assigned cs → name ∈ c.key?.toList ++ done ∨ name ∉ gone →
        w'.vars name = e.vars name := by
      intro name hname hlater hsettled
      by_cases hset : c.key? = some name
      · rw [hkey name hset, hleft name hlater]
      · rw [hframe' name hset]
        refine hw name hname (by rw [mem_assigned_cons, not_or]; exact ⟨hset, hlater⟩) ?_
        refine hsettled.imp_left fun hmem => (List.mem_append.1 hmem).resolve_left ?_
        rwa [Option.mem_toList]
    obtain ⟨f, hruns, hf⟩ := ih hlook hK hrest hw'
    refine ⟨f, ?_, fun name hname hsettled => hf name hname ?_⟩
    · rw [List.foldlM_cons, hrun']
      exact hruns
    · rw [mem_assigned_cons] at hsettled
      rw [List.mem_append, Option.mem_toList]
      tauto

theorem removeVar_eq_some {vars vars' : RawVars} {key : Text}
    (h : removeVar vars key = some vars') :
    vars' = Function.update vars key none ∧
      ∀ w, removeVar w key = some (Function.update w key none) := by
  unfold removeVar at h
  split_ifs at h with hname
  exact ⟨(Option.some.inj h).symm, fun _ => if_neg hname⟩

/-- **Variables that are removed** are so, and the others stay; that none of them is no name
does not depend on the environment. -/
theorem removeVars_eq_some {names : List Text} {vars vars' : RawVars}
    (h : removeVars vars names = some vars') :
    (∀ name, vars' name = if name ∈ names then none else vars name) ∧
      ∀ w, (removeVars w names).isSome = true := by
  induction names generalizing vars with
  | nil =>
    obtain rfl := Option.some.inj h
    exact ⟨fun _ => (if_neg List.not_mem_nil).symm, fun _ => rfl⟩
  | cons key names ih =>
    obtain ⟨vars₁, hkey, hrest⟩ := foldlM_cons_eq_some h
    obtain ⟨rfl, hremove⟩ := removeVar_eq_some hkey
    obtain ⟨hvars, hany⟩ := ih hrest
    refine ⟨fun name => ?_, fun w => ?_⟩
    · rw [hvars name]
      by_cases hmem : name ∈ names
      · rw [if_pos hmem, if_pos (List.mem_cons_of_mem _ hmem)]
      · rw [if_neg hmem]
        by_cases heq : name = key
        · rw [heq, Function.update_self, if_pos List.mem_cons_self]
        · rw [Function.update_of_ne heq, if_neg]
          exact fun h => (List.mem_cons.1 h).elim heq hmem
    · unfold removeVars
      rw [List.foldlM_cons, hremove w]
      exact hany (Function.update w key none)

/-! ### What the start of the program changes -/

/-- The variables a start sets. -/
def Start.Sets (name : Text) : Start → Prop
  | command => False
  | patched _ preload => name = LD_LIBRARY_PATH ∨ preload ≠ [] ∧ name = LD_PRELOAD
  | userland => False

/-- There is no NUL in what a start sets. -/
def Start.Works : Start → Prop
  | command => True
  | patched libraryPath preload =>
    0 ∉ utf8 libraryPath ∧ 0 ∉ utf8 ([' '].intercalate preload)
  | userland => True

/-- A start leaves a variable as it is; `userland_execve` is handed texts. -/
def Start.Leaves (vars : RawVars) (name : Text) (start : Start) : Prop :=
  name ≠ SHARUN_PRINTENV ∧ ¬start.Sets name ∧ (start = userland → vars.Readable name)

theorem setVar_of_ne {vars vars' : RawVars} {key val name : Text}
    (h : setVar vars key val = some vars') (hne : name ≠ key) : vars' name = vars name :=
  (RawVars.setVar_eq_some h).2.2 name hne

theorem dropPrintenv_of_ne {vars : RawVars} {name : Text} (hne : name ≠ SHARUN_PRINTENV) :
    dropPrintenv vars name = vars name := by
  unfold dropPrintenv
  split_ifs
  · exact Function.update_of_ne hne _ _
  · rfl

theorem dropPrintenv_eq_none {vars : RawVars} {name : Text} (h : vars name = none) :
    dropPrintenv vars name = none := by
  unfold dropPrintenv
  split_ifs
  · rw [Function.update_apply, h, ite_self]
  · exact h

/-- A variable that a start does not set is handed on as it is, or as a text. -/
theorem handOver_of_not_sets {vars vars' : RawVars} {start : Start} {name : Text}
    (h : start.handOver vars = some vars') (hsets : ¬start.Sets name) :
    vars' name = vars name ∨ start = .userland ∧
      vars' name = (vars name).bind fun value => handed (lossy value.bytes) := by
  cases start with
  | command => exact .inl (congrFun (Option.some.inj h).symm name)
  | userland => exact .inr ⟨rfl, congrFun (Option.some.inj h).symm name⟩
  | patched libraryPath preload =>
    obtain ⟨hpath, hpreload⟩ := not_or.1 hsets
    obtain ⟨vars₁, hset, h⟩ := Option.bind_eq_some_iff.1 h
    refine .inl ?_
    rw [← setVar_of_ne hset hpath]
    split_ifs at h with hnil
    · rw [Option.some.inj h]
    · exact setVar_of_ne h fun heq => hpreload ⟨hnil, heq⟩

/-- **A variable a start leaves as it is** is handed on so, and nothing panics. -/
theorem exists_handOver {start : Start} (hworks : start.Works) (vars : RawVars) :
    ∃ vars', start.handOver (dropPrintenv vars) = some vars' ∧
      ∀ name, start.Leaves vars name → vars' name = vars name := by
  obtain ⟨vars', hvars'⟩ : ∃ vars', start.handOver (dropPrintenv vars) = some vars' := by
    cases start with
    | command => exact ⟨_, rfl⟩
    | userland => exact ⟨_, rfl⟩
    | patched libraryPath preload =>
      obtain ⟨vars₁, hset⟩ :=
        @RawVars.exists_setVar (dropPrintenv vars) LD_LIBRARY_PATH _ hworks.1
      unfold Start.handOver
      dsimp only
      rw [hset, Option.bind_some]
      split_ifs
      · exact ⟨_, rfl⟩
      · exact RawVars.exists_setVar hworks.2
  refine ⟨vars', hvars', fun name ⟨hne, hsets, htext⟩ => ?_⟩
  rcases handOver_of_not_sets hvars' hsets with heq | ⟨rfl, heq⟩
  · rw [heq, dropPrintenv_of_ne hne]
  · rw [heq, dropPrintenv_of_ne hne]
    cases hvalue : vars name with
    | none => rfl
    | some value =>
      obtain ⟨bytes, hnonzero⟩ := value
      obtain ⟨t, rfl⟩ := htext rfl _ hvalue
      rw [Option.bind_some, lossy_utf8]
      exact dif_neg hnonzero

/-! ### Launches -/

/-- **What a launch makes of the environment**: the commands of the file, however it is laid out,
are carried out in their order, and what any of them names is unset when all else has been set
up, so that the program gets it only where its start sets it. -/
theorem launch_layout (vars : RawVars) (others : RawVars → RawVars) (start : Start)
    (file : List Line) (hfile : ∀ line ∈ file, line.Ok) :
    launch (contents file) others start vars =
        ((commands file).foldlM Command.run ⟨vars, []⟩).bind (fun r =>
          (removeVars (others r.vars) (unsetNames (commands file))).bind fun vars =>
            start.handOver (dropPrintenv vars)) ∧
      ∀ vars', launch (contents file) others start vars = some vars' →
        ∀ name ∈ unsetNames (commands file), ¬start.Sets name → vars' name = none := by
  have hlaunch : launch (contents file) others start vars =
      ((commands file).foldlM Command.run ⟨vars, []⟩).bind (fun r =>
        (removeVars (others r.vars) (unsetNames (commands file))).bind fun vars =>
          start.handOver (dropPrintenv vars)) := by
    unfold launch
    rw [readDotenv_layout vars file hfile]
    cases hruns : (commands file).foldlM Command.run ⟨vars, []⟩ with
    | none => rfl
    | some r =>
      have hunset : r.unsetEnvs = unsetNames (commands file) := (runs_eq_some hruns).1
      rw [Option.bind_some, Option.bind_some, hunset]
  refine ⟨hlaunch, fun vars' h name hname hsets => ?_⟩
  rw [hlaunch] at h
  obtain ⟨r, -, h⟩ := Option.bind_eq_some_iff.1 h
  obtain ⟨removed, hremove, h⟩ := Option.bind_eq_some_iff.1 h
  have hnone : removed name = none := by
    rw [(removeVars_eq_some hremove).1 name, if_pos hname]
  rcases handOver_of_not_sets h hsets with heq | ⟨-, heq⟩
  · rw [heq, dropPrintenv_eq_none hnone]
  · rw [heq, dropPrintenv_eq_none hnone]
    rfl

/-! ### The lines the choice of the program is told of -/

/-- The first loop of `Host.readDotenv`. -/
def setLine (t : Vars) : DotenvLine → Vars
  | .set key value => Function.update t key (some value)
  | .unset _ => t

/-- The second loop. -/
def unsetLine (t : Vars) : DotenvLine → Vars
  | .set _ _ => t
  | .unset key => Function.update t key none

theorem readDotenv_told (told : List DotenvLine) (t : Vars) :
    Host.readDotenv told t = told.foldl unsetLine (told.foldl setLine t) := by
  have hset : (fun (t : Vars) line => match line with
      | .set key value => Function.update t key (some value)
      | .unset _ => t) = setLine := by
    funext t line
    cases line <;> rfl
  have hunset : (fun (t : Vars) line => match line with
      | .set _ _ => t
      | .unset key => Function.update t key none) = unsetLine := by
    funext t line
    cases line <;> rfl
  rw [← hset, ← hunset]
  rfl

theorem texts_setNamed {vars vars' : RawVars} {key val : Text}
    (h : setNamed vars key val = some vars') :
    vars'.texts = Function.update vars.texts key (some val) := by
  unfold setNamed at h
  split_ifs at h
  exact RawVars.texts_setVar h

theorem texts_removeVars {names : List Text} {vars vars' : RawVars}
    (h : removeVars vars names = some vars') :
    vars'.texts = (names.map DotenvLine.unset).foldl unsetLine vars.texts := by
  induction names generalizing vars with
  | nil =>
    obtain rfl := Option.some.inj h
    rfl
  | cons name names ih =>
    obtain ⟨vars₁, hname, hrest⟩ := foldlM_cons_eq_some h
    obtain ⟨rfl, -⟩ := removeVar_eq_some hname
    have htexts : RawVars.texts (Function.update vars name none) =
        Function.update vars.texts name none := by
      funext k
      unfold RawVars.texts envVar
      by_cases hk : k = name
      · rw [hk, Function.update_self, Function.update_self]
        rfl
      · rw [Function.update_of_ne hk, Function.update_of_ne hk]
    rw [ih hrest, htexts]
    rfl

/-- Commands that are carried out are told line by line, with their values expanded. -/
theorem runs_told {cs : List Command} {r e : Reading} (h : cs.foldlM Command.run r = some e) :
    ∃ told : List DotenvLine,
      told.map DotenvLine.key = cs.flatMap (fun c => c.key?.toList ++ c.names) ∧
        told.foldl setLine r.vars.texts = e.vars.texts ∧
          ∀ t, told.foldl unsetLine t =
            ((unsetNames cs).map DotenvLine.unset).foldl unsetLine t := by
  induction cs generalizing r with
  | nil =>
    obtain rfl := Option.some.inj h
    exact ⟨[], rfl, rfl, fun _ => rfl⟩
  | cons c cs ih =>
    obtain ⟨r', hrun, hrest⟩ := foldlM_cons_eq_some h
    obtain ⟨told, hkeys, hset, hunset⟩ := ih hrest
    cases c with
    | unset names =>
      obtain rfl := Option.some.inj hrun
      have hkept : ∀ t, (names.map DotenvLine.unset).foldl setLine t = t := by
        intro t
        rw [List.foldl_map]
        exact foldl_still fun _ _ => rfl
      refine ⟨names.map DotenvLine.unset ++ told, ?_, ?_, fun t => ?_⟩
      · rw [List.map_append, hkeys, List.flatMap_cons, List.map_map]
        exact congrArg (· ++ _) (List.map_id names)
      · rw [List.foldl_append, hkept]
        exact hset
      · have hnames : unsetNames (.unset names :: cs) = names ++ unsetNames cs := rfl
        rw [List.foldl_append, hunset, hnames, List.map_append, List.foldl_append]
    | assign key value expand =>
      obtain ⟨vars, hval, rfl⟩ := Option.map_eq_some_iff.1 hrun
      refine ⟨.set key (if expand then expandVars r.vars value else value) :: told,
        congrArg (key :: ·) hkeys, ?_, hunset⟩
      rw [List.foldl_cons, setLine, ← texts_setNamed hval]
      exact hset

/-- **What the choice of the program is told of a file** (`Host.dotenv`) is what its commands do,
with their values expanded, to the variables that can be read. -/
theorem texts_launch {cs : List Command} {vars settled : RawVars} {e : Reading}
    (hruns : cs.foldlM Command.run ⟨vars, []⟩ = some e)
    (hremove : removeVars e.vars e.unsetEnvs = some settled) :
    ∃ told : List DotenvLine,
      told.map DotenvLine.key = cs.flatMap (fun c => c.key?.toList ++ c.names) ∧
        settled.texts = Host.readDotenv told vars.texts := by
  obtain ⟨told, hkeys, hset, hunset⟩ := runs_told hruns
  have hnames : e.unsetEnvs = unsetNames cs := (runs_eq_some hruns).1
  refine ⟨told, hkeys, ?_⟩
  rw [texts_removeVars hremove, readDotenv_told, hset, hunset, hnames]

/-- A variable the file is about: one that it sets, unsets or refers to. -/
def About (cs : List Command) (name : Text) : Prop :=
  name ∈ assigned cs ∨ name ∈ unsetNames cs ∨ ∃ c ∈ cs, c.Mentions name

/-- A launch within a launch, or what a program does to its own environment. -/
inductive Event
  | launch (others : RawVars → RawVars) (start : Start)
  | sets (change : RawVars → RawVars)

/-- The environment after an event, as long as nothing has panicked. -/
def step (data : Text) (s : Option RawVars) : Event → Option RawVars
  | .launch others start => s.bind (launch data others start)
  | .sets change => s.map change

/-- Only the file changes the variables it is about. -/
def Keeps (file : List Line) (s : Option RawVars) : Event → Prop
  | .launch others start => start.Works ∧ ∀ vars r, s = some vars →
      readDotenv vars (contents file) = some r → ∀ name, About (commands file) name →
        others r.vars name = r.vars name ∧ start.Leaves r.vars name
  | .sets change => ∀ vars, s = some vars →
      ∀ name, About (commands file) name → change vars name = vars name

section Launches

variable {file : List Line} {vars settled w : RawVars} {first others : RawVars → RawVars}
  {start start' : Start}

/-- What is left of a launch that keeps to the file: what the file has set, without what it
unsets. -/
theorem launch_of_removable (hkeeps : Keeps file (some vars) (.launch others start)) {r : Reading}
    (hread : readDotenv vars (contents file) = some r) {removed : RawVars}
    (hremove : removeVars (others r.vars) r.unsetEnvs = some removed) :
    ∃ vars', launch (contents file) others start vars = some vars' ∧
      ∀ name, About (commands file) name →
        vars' name = if name ∈ r.unsetEnvs then none else r.vars name := by
  obtain ⟨hworks, hkept⟩ := hkeeps
  obtain ⟨vars', hvars', hleaves⟩ := exists_handOver hworks removed
  refine ⟨vars', ?_, fun name hname => ?_⟩
  · unfold launch
    rw [hread, Option.bind_some, hremove, Option.bind_some, hvars']
  · obtain ⟨hothers, hne, hsets, htext⟩ := hkept vars r rfl hread name hname
    have hremoved : removed name = if name ∈ r.unsetEnvs then none else r.vars name := by
      rw [(removeVars_eq_some hremove).1 name, hothers]
    have hreadable : start = .userland → removed.Readable name := by
      intro huserland value hvalue
      rw [hremoved] at hvalue
      split_ifs at hvalue
      exact htext huserland value hvalue
    rw [hleaves name ⟨hne, hsets, hreadable⟩, hremoved]

/-- A launch from what a launch has left, as far as the file is about it. -/
theorem launch_again (hfile : ∀ line ∈ file, line.Ok)
    (hlook : LooksBack (unsetNames (commands file)) [] (commands file))
    (hfirst : Keeps file (some vars) (.launch first start))
    (h : launch (contents file) first start vars = some settled)
    (hw : ∀ name, About (commands file) name → w name = settled name)
    (hothers : Keeps file (some w) (.launch others start')) :
    ∃ w', launch (contents file) others start' w = some w' ∧
      ∀ name, About (commands file) name → w' name = settled name := by
  obtain ⟨r, hread, hrest⟩ := Option.bind_eq_some_iff.1 h
  obtain ⟨removed, hremove, -⟩ := Option.bind_eq_some_iff.1 hrest
  obtain ⟨settled', hsettled', hsettled⟩ := launch_of_removable hfirst hread hremove
  obtain rfl := Option.some.inj (h.symm.trans hsettled')
  have hany := (removeVars_eq_some hremove).2
  rw [readDotenv_layout vars file hfile] at hread
  have hunset : r.unsetEnvs = unsetNames (commands file) := (runs_eq_some hread).1
  rw [hunset] at hsettled hany
  have hstart : ∀ name, About (commands file) name → name ∉ assigned (commands file) →
      name ∈ ([] : List Text) ∨ name ∉ unsetNames (commands file) → w name = r.vars name := by
    intro name hname _ hnot
    rw [hw name hname, hsettled name hname, if_neg (hnot.resolve_left List.not_mem_nil)]
  have hmentioned : ∀ c ∈ commands file, ∀ name, c.Mentions name → About (commands file) name :=
    fun c hc name hname => .inr (.inr ⟨c, hc, hname⟩)
  obtain ⟨f, hruns, hf⟩ := runs_again (w := ⟨w, []⟩) hlook hmentioned hread hstart
  have hunset' : f.unsetEnvs = unsetNames (commands file) := (runs_eq_some hruns).1
  rw [← readDotenv_layout w file hfile] at hruns
  obtain ⟨removed', hremove'⟩ := Option.isSome_iff_exists.1 (hany (others f.vars))
  rw [← hunset'] at hremove'
  obtain ⟨w', hw', hvalues⟩ := launch_of_removable hothers hruns hremove'
  refine ⟨w', hw', fun name hname => ?_⟩
  rw [hvalues name hname, hsettled name hname, hunset']
  split_ifs with hgone
  · rfl
  · exact hf name hname (.inr (.inr hgone))

/-- **Launches within launches.**  Where the values in a file refer only to what is settled
before them, no launch after the first one panics or changes a variable the file is about, in
whatever order programs start others and set variables of their own. -/
theorem launches_settled (hfile : ∀ line ∈ file, line.Ok)
    (hlook : LooksBack (unsetNames (commands file)) [] (commands file))
    (hfirst : Keeps file (some vars) (.launch first start))
    (h : launch (contents file) first start vars = some settled) {es : List Event}
    (hes : Along (step (contents file)) (Keeps file) (some settled) es) :
    ∃ vars', es.foldl (step (contents file)) (some settled) = some vars' ∧
      ∀ name, About (commands file) name → vars' name = settled name := by
  have hstep : ∀ s e,
      (∃ w, s = some w ∧ ∀ name, About (commands file) name → w name = settled name) →
        Keeps file s e → ∃ w, step (contents file) s e = some w ∧
          ∀ name, About (commands file) name → w name = settled name := by
    rintro s e ⟨w, rfl, hw⟩ hkeeps
    cases e with
    | launch others start' => exact launch_again hfile hlook hfirst h hw hkeeps
    | sets change =>
      exact ⟨change w, rfl, fun name hname => (hkeeps w rfl name hname).trans (hw name hname)⟩
  exact foldl_invariant hstep ⟨settled, rfl, fun _ _ => rfl⟩ hes

end Launches

/-- A file that says where something is, and unsets a variable. -/
def dataFile : List Line :=
  [.comment [] " where the data is".toList,
    .assign [] (some []) "DATA".toList [] [] (.double "$DIR/x".toList) ['\r'],
    .unset [] [([' '], "LD_PRELOAD".toList)] []]

theorem zero_notMem_dir : 0 ∉ utf8 "/app".toList := by decide

/-- An environment with a directory. -/
def inDir : RawVars := fun name =>
  if name = "DIR".toList then some ⟨utf8 "/app".toList, zero_notMem_dir⟩ else none

/-- Its commands, and that a program that is handed texts gets no `LD_PRELOAD`. -/
theorem launch_layout_data :
    launch "# where the data is\nexport DATA=\"$DIR/x\"\r\nunset LD_PRELOAD".toList id .userland
        inDir =
      ([Command.assign "DATA".toList "$DIR/x".toList true,
        .unset [LD_PRELOAD]].foldlM Command.run ⟨inDir, []⟩).bind (fun r =>
          (removeVars r.vars [LD_PRELOAD]).bind fun vars =>
            Start.userland.handOver (dropPrintenv vars)) ∧
      ∀ vars', launch (contents dataFile) id .userland inDir = some vars' →
        vars' LD_PRELOAD = none :=
  have hlaunch := launch_layout inDir id .userland dataFile (by decide)
  ⟨hlaunch.1, fun vars' h => hlaunch.2 vars' h LD_PRELOAD (List.mem_singleton_self _) id⟩

theorem reads_dir : Reads "$DIR/x".toList [.named "DIR".toList, .char '/', .char 'x'] := by
  have hname : ∀ c ∈ "DIR".toList, isNameChar c = true := List.all_eq_true.1 (by decide)
  have hend : ∀ c s', "/x".toList = c :: s' → isNameChar c = false := by
    intro c s' h
    rw [← (List.cons.inj h).1]
    decide
  exact @Reads.named "DIR".toList "/x".toList _ (by decide) hname hend
    (.char (fun h => absurd h (by decide)) (.char (fun h => absurd h (by decide)) .nil))

theorem mentions_data {name : Text}
    (h : (Command.assign "DATA".toList "$DIR/x".toList true).Mentions name) :
    name = "DIR".toList := by
  obtain ⟨key, value, ps, hc, hps, hmem⟩ := h
  obtain ⟨rfl, rfl, -⟩ := Command.assign.inj hc
  rw [hps.unique reads_dir] at hmem
  simpa using hmem

theorem commands_data : commands dataFile =
    [.assign "DATA".toList "$DIR/x".toList true, .unset [LD_PRELOAD]] := rfl

/-- What the file is about. -/
theorem about_data {name : Text} (h : About (commands dataFile) name) :
    name = "DATA".toList ∨ name = LD_PRELOAD ∨ name = "DIR".toList := by
  rw [commands_data] at h
  rcases h with hassigned | hunset | ⟨c, hc, hname⟩
  · exact .inl (List.mem_singleton.1 hassigned)
  · exact .inr (.inl (List.mem_singleton.1 hunset))
  · rcases List.mem_cons.1 hc with rfl | hc
    · exact .inr (.inr (mentions_data hname))
    · obtain ⟨key, value, ps, hc', -⟩ := hname
      rw [List.mem_singleton.1 hc] at hc'
      exact absurd hc' (by simp)

theorem looksBack_data : LooksBack (unsetNames (commands dataFile)) [] (commands dataFile) := by
  rw [commands_data]
  refine ⟨fun name hname => ?_, fun name hname => ?_, trivial⟩
  · rw [mentions_data hname]
    decide
  · obtain ⟨key, value, ps, hc, -⟩ := hname
    exact absurd hc (by simp)

/-- What has been read of it are texts. -/
theorem readDotenv_data : ∃ vars, readDotenv inDir (contents dataFile) =
    some ⟨vars, [LD_PRELOAD]⟩ ∧ ∀ name, About (commands dataFile) name → vars.Readable name := by
  have hexpand : expandVars inDir "$DIR/x".toList = "/app/x".toList := by
    have hdir : envVar inDir "DIR".toList = some "/app".toList := decode_utf8 _
    rw [expandVars, reads_dir.expandFrom inDir []]
    change (envVar inDir "DIR".toList).getD _ ++ "/x".toList = _
    rw [hdir]
    rfl
  obtain ⟨vars, hset⟩ : ∃ vars, setVar inDir "DATA".toList "/app/x".toList = some vars :=
    ⟨_, dif_neg (by decide)⟩
  obtain ⟨hdata, -, hrest⟩ := RawVars.setVar_eq_some hset
  refine ⟨vars, ?_, fun name hname => ?_⟩
  · have hrun : Command.run ⟨inDir, []⟩ (.assign "DATA".toList "$DIR/x".toList true) =
        (setVar inDir "DATA".toList (expandVars inDir "$DIR/x".toList)).map (⟨·, []⟩) := rfl
    rw [readDotenv_layout inDir dataFile (by decide), commands_data, List.foldlM_cons, hrun,
      hexpand, hset]
    rfl
  · rcases about_data hname with rfl | rfl | rfl
    · exact hdata
    · have hnone : vars LD_PRELOAD = none := (hrest _ (by decide)).trans (if_neg (by decide))
      intro value hvalue
      exact absurd (hnone.symm.trans hvalue) (by simp)
    · have hdir : vars "DIR".toList = some ⟨utf8 "/app".toList, zero_notMem_dir⟩ :=
        (hrest _ (by decide)).trans (if_pos rfl)
      intro value hvalue
      obtain rfl := Option.some.inj (hdir.symm.trans hvalue)
      exact ⟨_, rfl⟩

/-- A launch that sets nothing the file is about, and hands the environment on as it is. -/
theorem keeps_data {s : Option RawVars} {start : Start} (hworks : start.Works)
    (htext : start ≠ .userland)
    (hsets : ¬start.Sets "DATA".toList ∧ ¬start.Sets LD_PRELOAD ∧ ¬start.Sets "DIR".toList) :
    Keeps dataFile s (.launch id start) := by
  refine ⟨hworks, fun _ r _ _ name hname => ⟨rfl, ?_, ?_, fun huserland => absurd huserland htext⟩⟩
  · rcases about_data hname with rfl | rfl | rfl <;> decide
  · rcases about_data hname with rfl | rfl | rfl
    · exact hsets.1
    · exact hsets.2.1
    · exact hsets.2.2

/-- Two launches more, and a language that is set in between. -/
theorem launches_settled_data :
    ∃ settled, launch (contents dataFile) id .userland inDir = some settled ∧
      ∃ vars', [Event.launch id .command, .sets fun vars => Function.update vars "LANG".toList none,
          .launch id (.patched "/app/lib".toList [])].foldl (step (contents dataFile))
            (some settled) = some vars' ∧
        vars' "DATA".toList = settled "DATA".toList := by
  obtain ⟨vars, hread, hreadable⟩ := readDotenv_data
  have hfirst : Keeps dataFile (some inDir) (.launch id .userland) := by
    refine ⟨trivial, fun vars₀ r hvars hr name hname => ?_⟩
    obtain rfl := Option.some.inj hvars
    obtain rfl := Option.some.inj (hr.symm.trans hread)
    refine ⟨rfl, ?_, id, fun _ => hreadable name hname⟩
    rcases about_data hname with rfl | rfl | rfl <;> decide
  obtain ⟨settled, hlaunch, -⟩ := launch_of_removable hfirst hread
    (show removeVars vars [LD_PRELOAD] = some (Function.update vars LD_PRELOAD none) from rfl)
  have hpatched : Start.Works (.patched "/app/lib".toList []) := ⟨by decide, by decide⟩
  have hsets : ∀ s,
      Keeps dataFile s (.sets fun vars => Function.update vars "LANG".toList none) := by
    intro s vars _ name hname
    have hne : name ≠ "LANG".toList := by
      rintro rfl
      rcases about_data hname with h | h | h <;> exact absurd h (by decide)
    exact Function.update_of_ne hne ..
  have halong : Along (step (contents dataFile)) (Keeps dataFile) (some settled)
      [.launch id .command, .sets fun vars => Function.update vars "LANG".toList none,
        .launch id (.patched "/app/lib".toList [])] := by
    refine ⟨keeps_data trivial (by simp) ⟨id, id, id⟩, hsets _,
      keeps_data hpatched (by simp) ⟨?_, ?_, ?_⟩, trivial⟩ <;>
    · rintro (h | h)
      · exact absurd h (by decide)
      · exact h.1 rfl
  obtain ⟨vars', hrun, hvars⟩ := launches_settled (by decide) looksBack_data hfirst hlaunch halong
  exact ⟨_, hlaunch, vars', hrun, hvars _ (.inl (by rw [commands_data]; decide))⟩

end Dotenv
end Launch
end Sharun
