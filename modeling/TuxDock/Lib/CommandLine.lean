import Mathlib.Data.List.Basic

/-!
# Command lines

How a command reads its words when the options come before the operands: an option is written by its
name after two dashes or by its letter after one, with its value in the same word or in the next
one, and letters of switches may be put together.

* `Lawful` : the rules that a command goes by, whatever else it reads;
* `Lawful.flatMap` : the options that it knows are read back;
* `Lawful.read_iff` : **so are the operands after them, exactly when the first of them does not look
  like an option**;
* `readWords`, `readWords_lawful` : a reader that goes by these rules.
-/

namespace TuxDock

namespace CommandLine

variable {α : Type*}

/-! ### Lines -/

/-- The name of an option, or its letter. -/
inductive Name (α : Type*) where
  | long (name : List α)
  | short (letter : α)
  deriving Repr, DecidableEq

/-- What a command line says: the options with their values, and the operands. -/
structure Line (α : Type*) where
  options : List (Name α × Option (List α))
  operands : List (List α)
  deriving Repr, DecidableEq

/-- The line with options before it. -/
def Line.after (options : List (Name α × Option (List α))) (line : Line α) : Line α :=
  { line with options := options ++ line.options }

/-- The signs that options are written with. -/
structure Signs (α : Type*) where
  dash : α
  equals : α

/-- How an option is written. -/
inductive Written (α : Type*) where
  /-- By its name, the value being the next word. -/
  | name (name value : List α)
  /-- By its name, the value behind an equals sign. -/
  | equals (name value : List α)
  /-- By its letter, the value being the next word. -/
  | letter (c : α) (value : List α)
  /-- Switches by their letters. -/
  | switches (c : α) (cs : List α)

variable {y : Signs α} {word : List α} {words : List (List α)} {line : Line α}

namespace Written

/-- The words that it is written with. -/
def text (y : Signs α) : Written α → List (List α)
  | name n value => [y.dash :: y.dash :: n, value]
  | equals n value => [y.dash :: y.dash :: (n ++ y.equals :: value)]
  | letter c value => [[y.dash, c], value]
  | switches c cs => [y.dash :: c :: cs]

/-- The options that it stands for. -/
def options : Written α → List (Name α × Option (List α))
  | name n value => [(.long n, some value)]
  | equals n value => [(.long n, some value)]
  | letter c value => [(.short c, some value)]
  | switches c cs => (c :: cs).map fun c => (.short c, none)

end Written

/-- The word looks like an option: there is something after a dash. -/
def LooksOptional (y : Signs α) (word : List α) : Prop := ∃ b text, word = y.dash :: b :: text

/-! ### Rules -/

/-- The rules that a command goes by when it reads its words, with the options it knows as they are
written: a word that does not look like an option begins the operands; an option is read with its
value, and then the words after it; and a word that looks like an option is no operand. -/
structure Lawful (y : Signs α) (known : Written α → Prop)
    (read : List (List α) → Option (Line α)) : Prop where
  operand : ∀ word words, ¬ LooksOptional y word → read (word :: words) = some ⟨[], word :: words⟩
  option : ∀ w words, known w → read (w.text y ++ words) = (read words).map (Line.after w.options)
  optional : ∀ word words line, LooksOptional y word → read (word :: words) = some line →
    line.operands <:+ words

section Rules

variable {known : Written α → Prop} {read : List (List α) → Option (Line α)}

/-- Of fewer options. -/
theorem Lawful.mono {known' : Written α → Prop} (h : Lawful y known read)
    (hknown : ∀ w, known' w → known w) : Lawful y known' read where
  operand := h.operand
  option w words hw := h.option w words (hknown w hw)
  optional := h.optional

/-- **Options are read back.** -/
theorem Lawful.flatMap (h : Lawful y known read) {written : List (Written α)}
    (hknown : ∀ w ∈ written, known w) (words : List (List α)) :
    read (written.flatMap (·.text y) ++ words) =
      (read words).map (Line.after (written.flatMap Written.options)) := by
  induction written with
  | nil => exact (congrFun Option.map_id (read words)).symm
  | cons w written ih =>
    rw [List.forall_mem_cons] at hknown
    rw [List.flatMap_cons, List.append_assoc, h.option w _ hknown.1, ih hknown.2, Option.map_map,
      List.flatMap_cons]
    refine congrArg (Option.map · _) (funext fun line => ?_)
    exact congrArg (Line.mk · line.operands) (List.append_assoc _ _ _).symm

/-- **The operands are read exactly when the first of them does not look like an option.** -/
theorem Lawful.read_iff (h : Lawful y known read) {written : List (Written α)}
    (hknown : ∀ w ∈ written, known w) (first : List α) (rest : List (List α)) :
    read (written.flatMap (·.text y) ++ first :: rest) =
      some ⟨written.flatMap Written.options, first :: rest⟩ ↔ ¬ LooksOptional y first := by
  rw [h.flatMap hknown]
  refine ⟨?_, ?_⟩
  · intro hread hlooks
    obtain ⟨line, hline, heq⟩ := Option.map_eq_some_iff.1 hread
    have hsuffix := h.optional first rest line hlooks hline
    have hoperands : line.operands = first :: rest := congrArg Line.operands heq
    rw [hoperands] at hsuffix
    exact absurd hsuffix.length_le (by simp)
  · intro hplain
    rw [h.operand first rest hplain]
    simp [Line.after]

end Rules

/-! ### A reader -/

/-- Whether an option has a value. -/
inductive Arity where
  | switch
  | value
  deriving Repr, DecidableEq

/-- The options that a command knows. -/
structure Options (α : Type*) where
  long : List α → Option Arity
  short : α → Option Arity

/-- What a word says. -/
inductive Word (α : Type*) where
  | operand
  /-- Two dashes alone: there are no more options. -/
  | ends
  | options (options : List (Name α × Option (List α)))
  /-- The value of the last option is the next word. -/
  | awaits (options : List (Name α × Option (List α))) (name : Name α)
  | unknown
  deriving Repr, DecidableEq

/-- The word with an option before it. -/
def Word.after (option : Name α × Option (List α)) : Word α → Word α
  | options os => .options (option :: os)
  | awaits os name => .awaits (option :: os) name
  | word => word

theorem after_ne_operand (option : Name α × Option (List α)) {w : Word α} (h : w ≠ .operand) :
    w.after option ≠ .operand := by
  cases w with
  | operand => exact absurd rfl h
  | ends | options os | awaits os name | unknown => simp [Word.after]

variable [DecidableEq α] (y) (o : Options α)

/-- The letters after one dash. -/
def readLetters : List α → Word α
  | [] => .options []
  | [c] =>
    match o.short c with
    | none => .unknown
    | some .switch => .options [(.short c, none)]
    | some .value => .awaits [] (.short c)
  | c :: d :: cs =>
    match o.short c with
    | none => .unknown
    | some arity =>
      if d = y.equals ∧ cs ≠ [] then .options [(.short c, some cs)]
      else
        match arity with
        | .switch => (readLetters (d :: cs)).after (.short c, none)
        | .value => .options [(.short c, some (d :: cs))]

/-- The name after two dashes, and the value after an equals sign. -/
def readName (text : List α) : Word α :=
  let name := text.takeWhile (· ≠ y.equals)
  if name.head? = none ∨ name.head? = some y.dash then .unknown
  else
    match o.long name, text.dropWhile (· ≠ y.equals) with
    | none, _ => .unknown
    | some _, _ :: value => .options [(.long name, some value)]
    | some .switch, [] => .options [(.long name, none)]
    | some .value, [] => .awaits [] (.long name)

/-- What a word says by itself. -/
def readWord : List α → Word α
  | a :: b :: text =>
    if a = y.dash then
      if b = y.dash then if text = [] then .ends else readName y o text
      else readLetters y o (b :: text)
    else .operand
  | _ => .operand

/-- What the words of a command line say; `none` if they say nothing. -/
def readWords : List (List α) → Option (Line α)
  | [] => some ⟨[], []⟩
  | word :: words =>
    match readWord y o word with
    | .operand => some ⟨[], word :: words⟩
    | .ends => some ⟨[], words⟩
    | .options os => (readWords words).map (Line.after os)
    | .awaits os name =>
      match words with
      | [] => none
      | value :: words => (readWords words).map (Line.after (os ++ [(name, some value)]))
    | .unknown => none

variable {y o}

theorem readWord_of_not (h : ¬ LooksOptional y word) : readWord y o word = .operand := by
  rcases word with _ | ⟨a, _ | ⟨b, text⟩⟩
  · rfl
  · rfl
  · rw [readWord, if_neg]
    rintro rfl
    exact h ⟨b, text, rfl⟩

theorem readWords_of_not (h : ¬ LooksOptional y word) :
    readWords y o (word :: words) = some ⟨[], word :: words⟩ := by
  rw [readWords, readWord_of_not h]

theorem suffix_of_readWords (h : readWords y o words = some line) : line.operands <:+ words := by
  fun_induction readWords y o words generalizing line with
  | case1 =>
    cases h
    exact List.nil_suffix
  | case2 word words hword =>
    cases h
    exact List.suffix_rfl
  | case3 word words hword =>
    cases h
    exact List.suffix_cons word words
  | case4 word words os hword ih =>
    obtain ⟨rest, hrest, rfl⟩ := Option.map_eq_some_iff.1 h
    exact (ih hrest).trans (List.suffix_cons word words)
  | case5 word os name hword => cases h
  | case6 word os name hword value words ih =>
    obtain ⟨rest, hrest, rfl⟩ := Option.map_eq_some_iff.1 h
    exact (ih hrest).trans ((List.suffix_cons value words).trans (List.suffix_cons word _))
  | case7 word words hword => cases h

theorem readLetters_ne_operand (letters : List α) : readLetters y o letters ≠ .operand := by
  fun_induction readLetters y o letters with
  | case7 c d cs harity hnot ih => exact after_ne_operand _ ih
  | case1 | case2 | case3 | case4 | case5 | case6 | case8 => simp

theorem readName_ne_operand (text : List α) : readName y o text ≠ .operand := by
  unfold readName
  simp only
  split
  · simp
  · split <;> simp

/-- **A word that looks like an option is none of the operands.** -/
theorem suffix_of_looksOptional (h : LooksOptional y word)
    (hread : readWords y o (word :: words) = some line) : line.operands <:+ words := by
  have hword : readWord y o word ≠ .operand := by
    obtain ⟨b, text, rfl⟩ := h
    rw [readWord, if_pos rfl]
    split_ifs
    · simp
    · exact readName_ne_operand text
    · exact readLetters_ne_operand _
  rw [readWords] at hread
  split at hread
  · exact absurd ‹_› hword
  · cases hread
    exact List.suffix_rfl
  · obtain ⟨rest, hrest, rfl⟩ := Option.map_eq_some_iff.1 hread
    have hsuffix := suffix_of_readWords hrest
    exact hsuffix
  · split at hread
    · cases hread
    · rename_i value words
      obtain ⟨rest, hrest, rfl⟩ := Option.map_eq_some_iff.1 hread
      have hsuffix := suffix_of_readWords hrest
      exact hsuffix.trans (List.suffix_cons value words)
  · cases hread

namespace Written

variable (y o)

/-- It is a name. -/
structure IsName (n : List α) : Prop where
  ne_nil : n ≠ []
  head : n.head? ≠ some y.dash
  equals : y.equals ∉ n

/-- It is written correctly. -/
def Correct : Written α → Prop
  | name n _ => IsName y n ∧ o.long n = some .value
  | equals n _ => IsName y n ∧ (o.long n).isSome
  | letter c _ => c ≠ y.dash ∧ o.short c = some .value
  | switches c cs => c ≠ y.dash ∧ y.equals ∉ cs ∧ ∀ d ∈ c :: cs, o.short d = some .switch

end Written

open Written

theorem readLetters_switches {c : α} {cs : List α} (hequals : y.equals ∉ cs)
    (hswitch : ∀ d ∈ c :: cs, o.short d = some .switch) :
    readLetters y o (c :: cs) = .options ((c :: cs).map fun c => (.short c, none)) := by
  induction cs generalizing c with
  | nil =>
    have hc := hswitch c List.mem_cons_self
    simp [readLetters, hc]
  | cons d cs ih =>
    have hc := hswitch c List.mem_cons_self
    obtain ⟨hd, hcs⟩ := List.ne_and_not_mem_of_not_mem_cons hequals
    have hrest := ih hcs fun e he => hswitch e (List.mem_cons_of_mem c he)
    rw [readLetters, hc]
    simp only [Ne.symm hd, false_and, ↓reduceIte, hrest, Word.after, List.map_cons]

omit [DecidableEq α] in
theorem Written.IsName.not_head {n : List α} (hn : IsName y n) :
    ¬ (n.head? = none ∨ n.head? = some y.dash) := by
  rw [List.head?_eq_none_iff]
  exact not_or.2 ⟨hn.ne_nil, hn.head⟩

theorem Written.IsName.takeWhile_append {n : List α} (hn : IsName y n) (text : List α) :
    (n ++ text).takeWhile (· ≠ y.equals) = n ++ text.takeWhile (· ≠ y.equals) ∧
      (n ++ text).dropWhile (· ≠ y.equals) = text.dropWhile (· ≠ y.equals) := by
  have hall : ∀ a ∈ n, decide (a ≠ y.equals) = true := by
    intro a ha
    exact decide_eq_true fun h => hn.equals (h ▸ ha)
  exact ⟨List.takeWhile_append_of_pos hall, List.dropWhile_append_of_pos hall⟩

theorem readName_name {n : List α} (hn : IsName y n) (harity : o.long n = some .value) :
    readName y o n = .awaits [] (.long n) := by
  obtain ⟨htake, hdrop⟩ := hn.takeWhile_append []
  rw [List.append_nil] at htake hdrop
  simp only [readName, htake, hdrop, List.takeWhile_nil, List.dropWhile_nil, List.append_nil,
    hn.not_head, ↓reduceIte, harity]

theorem readName_equals {n value : List α} (hn : IsName y n) (hknown : (o.long n).isSome) :
    readName y o (n ++ y.equals :: value) = .options [(.long n, some value)] := by
  obtain ⟨htake, hdrop⟩ := hn.takeWhile_append (y.equals :: value)
  obtain ⟨arity, harity⟩ := Option.isSome_iff_exists.1 hknown
  have hstop : decide (y.equals ≠ y.equals) = false := decide_eq_false (not_not.2 rfl)
  simp only [readName, htake, hdrop, List.takeWhile_cons, List.dropWhile_cons, hstop,
    Bool.false_eq_true, List.append_nil, hn.not_head, ↓reduceIte, harity]

/-- **An option that is written correctly is read back.** -/
theorem readWords_text {w : Written α} (h : w.Correct y o) (ws : List (List α)) :
    readWords y o (w.text y ++ ws) = (readWords y o ws).map (Line.after w.options) := by
  cases w with
  | name n value =>
    obtain ⟨hn, harity⟩ := h
    simp [Written.text, Written.options, readWords, readWord, hn.ne_nil, readName_name hn harity]
  | equals n value =>
    obtain ⟨hn, hknown⟩ := h
    simp [Written.text, Written.options, readWords, readWord, readName_equals hn hknown]
  | letter c value =>
    obtain ⟨hc, harity⟩ := h
    simp [Written.text, Written.options, readWords, readWord, readLetters, hc, harity]
  | switches c cs =>
    obtain ⟨hc, hequals, hswitch⟩ := h
    have hread := readLetters_switches hequals hswitch
    simp [Written.text, Written.options, readWords, readWord, hc, hread]

/-- **It goes by the rules.** -/
theorem readWords_lawful : Lawful y (Correct y o) (readWords y o) where
  operand _ _ h := readWords_of_not h
  option _ words h := readWords_text h words
  optional _ _ _ h hread := suffix_of_looksOptional h hread

end CommandLine

end TuxDock
