import TuxDock.History.Store

/-!
# The text of a history

The layout `dump(2)` gives a history document, and a reader for it: an instance of the JSON library
that does what the history relies on.

* `readDocument_append` : the reader finds the entries at the start of any text that begins with a
  written history, so no history is the beginning of another;
* `lawful_layoutLibrary` : the instance satisfies `Lawful`.
-/

namespace TuxDock

namespace History

open Text

/-! ### Strings -/

/-- A digit of `%04x`. -/
def hexDigit (n : ℕ) : UInt8 := if n < 10 then UInt8.ofNat (48 + n) else UInt8.ofNat (87 + n)

/-- The letter that stands for a byte after a backslash. -/
def escapeLetters : List (UInt8 × UInt8) :=
  [(34, 34), (92, 92), (8, 98), (12, 102), (10, 110), (13, 114), (9, 116)]

/-- How `dump` writes a byte of a string. -/
def escapeByte (c : UInt8) : Bytes :=
  match escapeLetters.lookup c with
  | some letter => [92, letter]
  | none =>
    if c.toNat < 32 then [92, 117, 48, 48, hexDigit (c.toNat / 16), hexDigit (c.toNat % 16)]
    else [c]

/-- How it writes a string. -/
def stringText (s : Bytes) : Bytes := 34 :: (s.flatMap escapeByte ++ [34])

/-- The byte that a letter after a backslash stands for. -/
def unescapeLetter (letter : UInt8) : Option UInt8 :=
  (escapeLetters.find? fun p => p.2 = letter).map Prod.fst

/-- One byte of a string, from its text. -/
def readByte : Bytes → Option (UInt8 × Bytes)
  | [] => none
  | c :: s =>
    if c = 92 then
      match s with
      | [] => none
      | letter :: rest =>
        if letter = 117 then
          match rest with
          | _ :: _ :: h :: l :: rest => some (UInt8.ofNat (16 * digitVal h + digitVal l), rest)
          | _ => none
        else (unescapeLetter letter).map fun b => (b, rest)
    else some (c, s)

/-- The bytes of a string up to its closing quote. -/
def readBytes : ℕ → Bytes → Option (Bytes × Bytes)
  | 0, _ => none
  | fuel + 1, s =>
    if s.head? = some 34 then some ([], s.tail)
    else do
      let (c, s) ← readByte s
      let (cs, s) ← readBytes fuel s
      pure (c :: cs, s)

/-- A fixed piece of text. -/
def expect (p s : Bytes) : Option Bytes := if p.isPrefixOf s then some (s.drop p.length) else none

/-- A string, and the text after it. -/
def readString (s : Bytes) : Option (Bytes × Bytes) := do
  let s ← expect [34] s
  readBytes (s.length + 1) s

@[simp] theorem expect_append (p s : Bytes) : expect p (p ++ s) = some s := by
  simp [expect]

theorem digitVal_hexDigit : ∀ n < 16, digitVal (hexDigit n) = n := by decide

theorem readByte_escapeByte (c : UInt8) (s : Bytes) :
    readByte (escapeByte c ++ s) = some (c, s) := by
  unfold escapeByte
  split
  · rename_i letter hlookup
    have hback : unescapeLetter letter = some c ∧ letter ≠ 117 := by
      obtain ⟨front, back, hsplit, -⟩ := List.lookup_eq_some_iff.1 hlookup
      have hmem : (c, letter) ∈ escapeLetters := by rw [hsplit]; simp
      have hall : escapeLetters.all (fun p => unescapeLetter p.2 = some p.1 ∧ p.2 ≠ 117) = true :=
        by decide
      exact of_decide_eq_true (List.all_eq_true.1 hall _ hmem)
    simp [readByte, hback]
  · rename_i hlookup
    have h92 : c ≠ 92 := by
      rintro rfl
      exact absurd hlookup (by decide)
    split_ifs with hcontrol
    · have hhigh := digitVal_hexDigit (c.toNat / 16) (by omega)
      have hlow := digitVal_hexDigit (c.toNat % 16) (by omega)
      simp only [List.cons_append, List.nil_append, readByte, ↓reduceIte, hhigh, hlow]
      rw [Nat.div_add_mod, UInt8.ofNat_toNat]
    · simp [readByte, h92]

theorem head?_escapeByte (c : UInt8) (s : Bytes) : (escapeByte c ++ s).head? ≠ some 34 := by
  unfold escapeByte
  split
  · simp
  · rename_i hlookup
    split_ifs
    · simp
    · rw [List.singleton_append, List.head?_cons]
      rintro ⟨⟩
      exact absurd hlookup (by decide)

theorem length_le_escape (s : Bytes) : s.length ≤ (s.flatMap escapeByte).length := by
  induction s with
  | nil => exact le_rfl
  | cons c s ih =>
    have hpos : 0 < (escapeByte c).length := by
      unfold escapeByte
      split
      · simp
      · split_ifs <;> simp
    rw [List.flatMap_cons, List.length_append, List.length_cons]
    omega

theorem readBytes_escape (body rest : Bytes) (fuel : ℕ) (hfuel : body.length < fuel) :
    readBytes fuel (body.flatMap escapeByte ++ 34 :: rest) = some (body, rest) := by
  induction body generalizing fuel with
  | nil =>
    obtain ⟨fuel, rfl⟩ : ∃ n, fuel = n + 1 := ⟨fuel - 1, by omega⟩
    simp [readBytes]
  | cons c body ih =>
    rw [List.length_cons] at hfuel
    obtain ⟨fuel, rfl⟩ : ∃ n, fuel = n + 1 := ⟨fuel - 1, by omega⟩
    rw [List.flatMap_cons, List.append_assoc, readBytes, if_neg (head?_escapeByte _ _),
      readByte_escapeByte]
    simp [ih fuel (by omega)]

theorem readString_stringText (s rest : Bytes) :
    readString (stringText s ++ rest) = some (s, rest) := by
  have hlen := length_le_escape s
  have hread := readBytes_escape s rest ((s.flatMap escapeByte ++ 34 :: rest).length + 1)
    (by rw [List.length_append]; omega)
  have hsplit : stringText s ++ rest = [34] ++ (s.flatMap escapeByte ++ 34 :: rest) := by
    simp [stringText]
  rw [readString, hsplit, expect_append]
  exact hread

/-! ### Entries -/

/-- How an entry is written. -/
def entryText (e : DetachedHistoryEntry) : Bytes :=
  lit "  \x7b\n    \"command\": " ++ (stringText e.command ++
    (lit ",\n    \"container\": " ++ (stringText e.container ++
      (lit ",\n    \"timestamp\": " ++ (stringText e.timestamp ++ lit "\n  \x7d")))))

/-- The entries after the first. -/
def tailText : List DetachedHistoryEntry → Bytes
  | [] => lit "\n]"
  | e :: entries => lit ",\n" ++ (entryText e ++ tailText entries)

/-- `dump(2)` of a history document. -/
def documentText : List DetachedHistoryEntry → Bytes
  | [] => lit "[]"
  | e :: entries => lit "[\n" ++ (entryText e ++ tailText entries)

/-- An entry, and the text after it. -/
def readEntry (s : Bytes) : Option (DetachedHistoryEntry × Bytes) := do
  let s ← expect (lit "  \x7b\n    \"command\": ") s
  let (command, s) ← readString s
  let s ← expect (lit ",\n    \"container\": ") s
  let (container, s) ← readString s
  let s ← expect (lit ",\n    \"timestamp\": ") s
  let (timestamp, s) ← readString s
  let s ← expect (lit "\n  \x7d") s
  pure (⟨command, timestamp, container⟩, s)

/-- The entries after the first, and the text after them. -/
def readTail : ℕ → Bytes → Option (List DetachedHistoryEntry × Bytes)
  | 0, _ => none
  | fuel + 1, s =>
    match expect (lit ",\n") s with
    | none => (expect (lit "\n]") s).map fun s => ([], s)
    | some s => do
      let (e, s) ← readEntry s
      let (entries, s) ← readTail fuel s
      pure (e :: entries, s)

/-- The entries of a file, and the text after them. -/
def readDocument (s : Bytes) : Option (List DetachedHistoryEntry × Bytes) :=
  match expect (lit "[\n") s with
  | none => (expect (lit "[]") s).map fun s => ([], s)
  | some s => do
    let (e, s) ← readEntry s
    let (entries, s) ← readTail (s.length + 1) s
    pure (e :: entries, s)

theorem readEntry_append (e : DetachedHistoryEntry) (rest : Bytes) :
    readEntry (entryText e ++ rest) = some (e, rest) := by
  simp only [readEntry, entryText, List.append_assoc, expect_append, readString_stringText,
    Option.bind_eq_bind, Option.bind_some, Option.pure_def]

theorem length_le_tailText (entries : List DetachedHistoryEntry) :
    entries.length ≤ (tailText entries).length := by
  induction entries with
  | nil => exact Nat.zero_le _
  | cons e entries ih =>
    have hlit : (lit ",\n").length = 2 := by decide
    rw [tailText, List.length_append, List.length_append, List.length_cons, hlit]
    omega

theorem readTail_append (entries : List DetachedHistoryEntry) (rest : Bytes) (fuel : ℕ)
    (hfuel : entries.length < fuel) :
    readTail fuel (tailText entries ++ rest) = some (entries, rest) := by
  induction entries generalizing fuel with
  | nil =>
    obtain ⟨fuel, rfl⟩ : ∃ n, fuel = n + 1 := ⟨fuel - 1, by omega⟩
    have hcomma : expect (lit ",\n") (lit "\n]" ++ rest) = none := by simp [expect, lit]
    rw [readTail, tailText, hcomma]
    simp
  | cons e entries ih =>
    rw [List.length_cons] at hfuel
    obtain ⟨fuel, rfl⟩ : ∃ n, fuel = n + 1 := ⟨fuel - 1, by omega⟩
    rw [readTail, tailText, List.append_assoc, expect_append]
    simp [readEntry_append, ih fuel (by omega)]

/-- **The reader on a text that begins with a written history.** -/
theorem readDocument_append (entries : List DetachedHistoryEntry) (rest : Bytes) :
    readDocument (documentText entries ++ rest) = some (entries, rest) := by
  cases entries with
  | nil =>
    have hopen : expect (lit "[\n") (lit "[]" ++ rest) = none := by simp [expect, lit]
    rw [readDocument, documentText, hopen]
    simp
  | cons e entries =>
    have hlen := length_le_tailText entries
    have htail := readTail_append entries rest ((tailText entries ++ rest).length + 1)
      (by rw [List.length_append]; omega)
    simp only [readDocument, documentText, List.append_assoc, expect_append, readEntry_append,
      Option.bind_eq_bind, Option.bind_some, htail, Option.pure_def]

/-! ### The library -/

theorem valid_iff (e : DetachedHistoryEntry) :
    e.Valid ↔ ValidUtf8 e.command ∧ ValidUtf8 e.timestamp ∧ ValidUtf8 e.container :=
  ⟨fun h => ⟨h.1, h.2, h.3⟩, fun h => ⟨h.1, h.2.1, h.2.2⟩⟩

instance (e : DetachedHistoryEntry) : Decidable e.Valid := decidable_of_iff _ (valid_iff e).symm

/-- The JSON library on history documents. -/
def layoutLibrary : Json.Library where
  dump v :=
    match v.items.mapM loadItem with
    | none => none
    | some entries => if ∀ e ∈ entries, e.Valid then some (documentText entries) else none
  parse text :=
    match readDocument text with
    | some (entries, []) =>
      if documentText entries = text ∧ ∀ e ∈ entries, e.Valid then some (document entries) else none
    | _ => none

theorem layoutLibrary_dump (entries : List DetachedHistoryEntry) :
    layoutLibrary.dump (document entries) =
      if ∀ e ∈ entries, e.Valid then some (documentText entries) else none := by
  simp only [layoutLibrary, document, Json.items, mapM_entryJson]

/-- What is parsed was written. -/
theorem layoutLibrary_parse {text : Bytes} {v : Json} (h : layoutLibrary.parse text = some v) :
    ∃ entries, documentText entries = text ∧ (∀ e ∈ entries, e.Valid) ∧ document entries = v := by
  simp only [layoutLibrary] at h
  split at h
  · rename_i entries hread
    obtain ⟨⟨htext, hvalid⟩, hv⟩ := Option.ite_none_right_eq_some.1 h
    exact ⟨entries, htext, hvalid, Option.some.inj hv⟩
  · cases h

theorem document_utf8 {entries : List DetachedHistoryEntry} (h : ∀ e ∈ entries, e.Valid) :
    (document entries).Utf8 := by
  refine .arr ?_
  intro v hv
  obtain ⟨e, he, rfl⟩ := List.mem_map.1 hv
  have hvalid := h e he
  refine .obj ?_ ?_
  · simp only [List.forall_mem_cons]
    exact ⟨by decide, by decide, by decide, by simp⟩
  · simp only [List.forall_mem_cons]
    exact ⟨.str hvalid.command, .str hvalid.container, .str hvalid.timestamp, by simp⟩

/-- **The instance does what the history relies on.** -/
theorem lawful_layoutLibrary : Lawful layoutLibrary where
  dump entries := by
    rw [layoutLibrary_dump, Option.isSome_ite]
  parse_dump entries text h := by
    rw [layoutLibrary_dump] at h
    obtain ⟨hvalid, htext⟩ := Option.ite_none_right_eq_some.1 h
    obtain rfl := Option.some.inj htext
    have hread := readDocument_append entries []
    rw [List.append_nil] at hread
    simp only [layoutLibrary, hread, true_and]
    exact if_pos hvalid
  parse_prefix entries text h p hp hne := by
    rw [layoutLibrary_dump] at h
    obtain ⟨-, htext⟩ := Option.ite_none_right_eq_some.1 h
    obtain rfl := Option.some.inj htext
    rw [Option.eq_none_iff_forall_ne_some]
    intro v hv
    obtain ⟨entries', rfl, -, -⟩ := layoutLibrary_parse hv
    obtain ⟨rest, hrest⟩ := hp
    have hread := readDocument_append entries []
    rw [List.append_nil, ← hrest, readDocument_append] at hread
    simp only [Option.some.injEq, Prod.mk.injEq] at hread
    exact hne (by rw [← hrest, hread.2, List.append_nil])
  parse_nil := by decide
  parse_utf8 text v h := by
    obtain ⟨entries, -, hvalid, rfl⟩ := layoutLibrary_parse h
    exact document_utf8 hvalid

/-! ### Two moments -/

/-- A timestamp, and the one a second later. -/
def firstMoment : Timestamp := ⟨lit "2026-01-01 10:00:00", by decide +kernel⟩

/-- A second after that. -/
def secondMoment : Timestamp := ⟨lit "2026-01-01 10:00:01", by decide +kernel⟩

end History

end TuxDock
