import TuxDock.Json.Value

/-!
# The detached-command history

The functions of `main.cpp` that keep the commands run in containers in one JSON file.  Every
update reads the whole file, changes the list and writes the whole file; nothing that goes wrong
is reported, and a file that cannot be read counts as an empty history.

* `load_document`, `save_some`, `save_none` : what loading makes of a saved list, and of the file
  that a failed save leaves behind;
* `trimHistory_filter`, `trimHistory_filter_ne` : the counting predicate keeps the newest entries
  of its container and all of the others.
-/

namespace TuxDock

namespace History

open Text

/-- `DetachedHistoryEntry`. -/
structure DetachedHistoryEntry where
  command : Bytes
  timestamp : Bytes
  container : Bytes
  deriving Repr, DecidableEq

/-- The most entries that are kept of a container. -/
def kMaxDetachedHistoryEntries : ℕ := 200

/-- A timestamp `%Y-%m-%d %H:%M:%S`: ASCII text. -/
abbrev Timestamp := { t : Bytes // ∀ c ∈ t, c.toNat < 128 }

/-- How much of a text reaches the file: all of it, or less. -/
inductive Written where
  | all
  | cut (n : ℕ)
  deriving Repr, DecidableEq

/-- What the file then holds of the text. -/
def Written.apply : Written → Bytes → Bytes
  | all, text => text
  | cut n, text => text.dropLast.take n

/-- What a call finds outside the program: whether `HOME` is set and not empty, whether the file
can be opened for reading and for writing, and what becomes of a write. -/
structure Env where
  home : Bool
  readable : Bool
  writable : Bool
  written : Written
  deriving Repr, DecidableEq

/-- `HOME` is set and the file can be read and written. -/
def goodEnv : Env := ⟨true, true, true, .all⟩

variable (L : Json.Library) (env : Env)

/-- The body of the loop of `LoadDetachedHistory`; `none` when it throws. -/
def loadItem (item : Json) : Option DetachedHistoryEntry := do
  let command ← item.valueStr (lit "command") []
  let timestamp ← item.valueStr (lit "timestamp") []
  let container ← item.valueStr (lit "container") []
  pure ⟨command, timestamp, container⟩

/-- The loop over the items; `none` when it throws. -/
def loadItems (items : List Json) : Option (List DetachedHistoryEntry) :=
  (items.mapM loadItem).map (·.filter (·.command ≠ []))

/-- `LoadDetachedHistory`, from the content of the file; `none` when it does not exist. -/
def loadDetachedHistory (file : Option Bytes) : List DetachedHistoryEntry :=
  if env.home = false then []
  else
    match file with
    | none => []
    | some text =>
      if env.readable = false then []
      else
        match L.parse text with
        | none => []
        | some data => (loadItems data.items).getD []

/-- The object of an entry, with its members in the order of their keys. -/
def entryJson (e : DetachedHistoryEntry) : Json :=
  .obj [(lit "command", .str e.command), (lit "container", .str e.container),
    (lit "timestamp", .str e.timestamp)]

/-- The document of these entries. -/
def document (entries : List DetachedHistoryEntry) : Json := .arr (entries.map entryJson)

/-- `SaveDetachedHistory`: the file after it.  Opening the file for writing empties it. -/
def saveDetachedHistory (file : Option Bytes) (entries : List DetachedHistoryEntry) :
    Option Bytes :=
  if env.home = false then file
  else if env.writable = false then file
  else
    match L.dump (document entries) with
    -- `dump` throws when the file is open already
    | none => some []
    | some text => some (env.written.apply text)

/-- `std::remove_if` with the predicate of `AddDetachedHistoryEntry`, which has counted `count`
entries of the container so far. -/
def trimHistory (container : Bytes) :
    ℕ → List DetachedHistoryEntry → List DetachedHistoryEntry
  | _, [] => []
  | count, e :: entries =>
    if e.container ≠ container then e :: trimHistory container count entries
    -- the predicate counts every entry of the container, also those it removes
    else if count + 1 > kMaxDetachedHistoryEntries then trimHistory container (count + 1) entries
    else e :: trimHistory container (count + 1) entries

/-- `addDetachedHistoryEntry`: what the file holds after it. -/
def addDetachedHistoryEntry (now : Timestamp) (file : Option Bytes) (container command : Bytes) :
    Option Bytes :=
  if command = [] then file
  else
    saveDetachedHistory L env file
      (trimHistory container 0
        (⟨command, now.1, container⟩ :: loadDetachedHistory L env file))

/-- `clearDetachedHistory`: what the file holds after it. -/
def clearDetachedHistory (file : Option Bytes) (container : Bytes) : Option Bytes :=
  saveDetachedHistory L env file
    ((loadDetachedHistory L env file).filter (·.container ≠ container))

/-- `loadDetachedHistoryForContainer`. -/
def loadDetachedHistoryForContainer (file : Option Bytes) (container : Bytes) :
    List DetachedHistoryEntry :=
  (loadDetachedHistory L env file).filter (·.container = container)

/-! ### The library -/

/-- The strings of an entry are well-formed UTF-8. -/
structure DetachedHistoryEntry.Valid (e : DetachedHistoryEntry) : Prop where
  command : ValidUtf8 e.command
  timestamp : ValidUtf8 e.timestamp
  container : ValidUtf8 e.container

/-- What the history relies on: an array of objects is written out unless a string of it is not
UTF-8; the text is read back as that value, and a part of it is not read at all; and what is read
is UTF-8. -/
structure Lawful : Prop where
  dump : ∀ entries, (L.dump (document entries)).isSome ↔ ∀ e ∈ entries, e.Valid
  parse_dump : ∀ entries text, L.dump (document entries) = some text →
    L.parse text = some (document entries)
  parse_prefix : ∀ entries text, L.dump (document entries) = some text →
    ∀ p, p <+: text → p ≠ text → L.parse p = none
  parse_nil : L.parse [] = none
  parse_utf8 : ∀ text v, L.parse text = some v → v.Utf8

/-! ### Saving and loading -/

variable {L} {env}

theorem loadItem_entryJson (e : DetachedHistoryEntry) : loadItem (entryJson e) = some e :=
  rfl

theorem mapM_entryJson (entries : List DetachedHistoryEntry) :
    (entries.map entryJson).mapM loadItem = some entries := by
  induction entries with
  | nil => rfl
  | cons e entries ih =>
    rw [List.map_cons, List.mapM_cons, loadItem_entryJson, ih]
    rfl

theorem loadItems_document {entries : List DetachedHistoryEntry}
    (h : ∀ e ∈ entries, e.command ≠ []) : loadItems (document entries).items = some entries := by
  rw [loadItems, document, Json.items, mapM_entryJson, Option.map_some]
  exact congrArg some (List.filter_eq_self.2 fun e he => by simpa using h e he)

/-- A save that fails to write out the list has emptied the file. -/
theorem save_none (hhome : env.home = true) (hwrite : env.writable = true)
    {entries : List DetachedHistoryEntry} (h : L.dump (document entries) = none)
    (file : Option Bytes) : saveDetachedHistory L env file entries = some [] := by
  simp [saveDetachedHistory, hhome, hwrite, h]

theorem save_some (hhome : env.home = true) (hwrite : env.writable = true)
    {entries : List DetachedHistoryEntry} {text : Bytes}
    (h : L.dump (document entries) = some text) (file : Option Bytes) :
    saveDetachedHistory L env file entries = some (env.written.apply text) := by
  simp [saveDetachedHistory, hhome, hwrite, h]

theorem load_document (hL : Lawful L) (hhome : env.home = true) (hread : env.readable = true)
    {entries : List DetachedHistoryEntry} (h : ∀ e ∈ entries, e.command ≠ []) {text : Bytes}
    (htext : L.dump (document entries) = some text) :
    loadDetachedHistory L env (some text) = entries := by
  simp [loadDetachedHistory, hhome, hread, hL.parse_dump entries text htext, loadItems_document h]

theorem load_unreadable {text : Bytes} (h : L.parse text = none) :
    loadDetachedHistory L env (some text) = [] := by
  simp only [loadDetachedHistory, h]
  split_ifs <;> rfl

theorem loadItem_valid {item : Json} (h : item.Utf8) {e : DetachedHistoryEntry}
    (he : loadItem item = some e) : e.Valid := by
  have hnil : ValidUtf8 [] := by decide
  simp only [loadItem, Option.pure_def, Option.bind_eq_bind, Option.bind_eq_some_iff,
    Option.some.injEq] at he
  obtain ⟨command, hcommand, timestamp, htimestamp, container, hcontainer, rfl⟩ := he
  exact ⟨h.valueStr hnil hcommand, h.valueStr hnil htimestamp, h.valueStr hnil hcontainer⟩

theorem exists_of_mem_loaded {items : List Json} {entries : List DetachedHistoryEntry}
    (h : items.mapM loadItem = some entries) {e : DetachedHistoryEntry} (he : e ∈ entries) :
    ∃ item ∈ items, loadItem item = some e := by
  induction items generalizing entries with
  | nil =>
    cases h
    cases he
  | cons item items ih =>
    rw [List.mapM_cons] at h
    obtain ⟨first, hfirst, h⟩ := Option.bind_eq_some_iff.1 h
    obtain ⟨rest, hrest, h⟩ := Option.bind_eq_some_iff.1 h
    cases h
    rcases List.mem_cons.1 he with rfl | he
    · exact ⟨item, List.mem_cons_self, hfirst⟩
    · obtain ⟨i, hi, hload⟩ := ih hrest he
      exact ⟨i, List.mem_cons_of_mem _ hi, hload⟩

/-- What is loaded comes from a value that was parsed. -/
theorem exists_of_mem_load {file : Option Bytes} {e : DetachedHistoryEntry}
    (he : e ∈ loadDetachedHistory L env file) :
    e.command ≠ [] ∧ ∃ text data, L.parse text = some data ∧
      ∃ item ∈ data.items, loadItem item = some e := by
  rcases file with _ | text
  · simp [loadDetachedHistory] at he
  · cases hdata : L.parse text with
    | none => simp [load_unreadable hdata] at he
    | some data =>
      simp only [loadDetachedHistory, hdata] at he
      split_ifs at he
      · cases he
      · cases he
      · cases hitems : loadItems data.items with
        | none => simp [hitems] at he
        | some entries =>
          rw [hitems, Option.getD_some] at he
          obtain ⟨all, hall, rfl⟩ := Option.map_eq_some_iff.1 hitems
          obtain ⟨he, hcommand⟩ := List.mem_filter.1 he
          exact ⟨by simpa using hcommand, text, data, hdata, exists_of_mem_loaded hall he⟩

theorem load_valid (hL : Lawful L) {file : Option Bytes} {e : DetachedHistoryEntry}
    (he : e ∈ loadDetachedHistory L env file) : e.Valid := by
  obtain ⟨-, text, data, hdata, item, hitem, hload⟩ := exists_of_mem_load he
  exact loadItem_valid ((hL.parse_utf8 text data hdata).items item hitem) hload

/-! ### The counting predicate -/

theorem trimHistory_sublist (container : Bytes) (count : ℕ) (entries : List DetachedHistoryEntry) :
    (trimHistory container count entries).Sublist entries := by
  induction entries generalizing count with
  | nil => exact List.Sublist.refl _
  | cons e entries ih =>
    rw [trimHistory]
    split_ifs
    · exact (ih count).cons_cons e
    · exact (ih (count + 1)).cons e
    · exact (ih (count + 1)).cons_cons e

/-- **Of its container, the predicate keeps the newest entries.** -/
theorem trimHistory_filter (container : Bytes) (count : ℕ) (entries : List DetachedHistoryEntry) :
    (trimHistory container count entries).filter (·.container = container) =
      (entries.filter (·.container = container)).take (kMaxDetachedHistoryEntries - count) := by
  induction entries generalizing count with
  | nil => simp [trimHistory]
  | cons e entries ih =>
    rw [trimHistory]
    split_ifs with hcontainer hcount
    · rw [List.filter_cons_of_neg (by simpa using hcontainer),
        List.filter_cons_of_neg (by simpa using hcontainer), ih]
    · have hzero : kMaxDetachedHistoryEntries - count = 0 := by omega
      have hzero' : kMaxDetachedHistoryEntries - (count + 1) = 0 := by omega
      rw [ih, hzero, hzero', List.take_zero, List.take_zero]
    · have hkeep : e.container = container := by simpa using hcontainer
      have hsucc : kMaxDetachedHistoryEntries - count =
          kMaxDetachedHistoryEntries - (count + 1) + 1 := by omega
      rw [List.filter_cons_of_pos (by simpa using hkeep),
        List.filter_cons_of_pos (by simpa using hkeep), ih, hsucc, List.take_succ_cons]

/-- **Of the other containers it keeps all.** -/
theorem trimHistory_filter_ne {container other : Bytes} (h : other ≠ container) (count : ℕ)
    (entries : List DetachedHistoryEntry) :
    (trimHistory container count entries).filter (·.container = other) =
      entries.filter (·.container = other) := by
  induction entries generalizing count with
  | nil => rfl
  | cons e entries ih =>
    rw [trimHistory]
    split_ifs with hcontainer hcount
    · rw [List.filter_cons, List.filter_cons, ih]
    · have hne : e.container ≠ other := fun heq => h (heq.symm.trans (by simpa using hcontainer))
      rw [List.filter_cons_of_neg (by simpa using hne), ih]
    · rw [List.filter_cons, List.filter_cons, ih]

/-- The newest entry is always kept. -/
theorem trimHistory_cons (container : Bytes) (e : DetachedHistoryEntry)
    (entries : List DetachedHistoryEntry) :
    e ∈ trimHistory container 0 (e :: entries) := by
  have hmax : ¬ 0 + 1 > kMaxDetachedHistoryEntries := by decide
  rw [trimHistory, if_neg hmax]
  split_ifs <;> exact List.mem_cons_self

end History

end TuxDock
