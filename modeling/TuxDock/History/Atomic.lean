import TuxDock.History.Layout

/-!
# A single update of the history

`SaveDetachedHistory` opens the file for writing, which empties it, before it writes the list out.
When that throws, or when only a part of the text reaches the file, the old list is gone and the
new one is not there.

* `load_save` : what is loaded after a save;
* `update_allOrNothing_iff` : **an update leaves the complete new list or the old one exactly when
  nothing was stored, the new list is empty or the same, or all of it was written.**
-/

namespace TuxDock

namespace History

open Text

/-- A call of `AddDetachedHistoryEntry` or of `ClearDetachedHistory`, with any bytes. -/
inductive Update where
  | add (container command : Bytes) (now : Timestamp)
  | clear (container : Bytes)
  deriving DecidableEq

namespace Update

/-- The list that the update is to leave. -/
def intended (old : List DetachedHistoryEntry) : Update → List DetachedHistoryEntry
  | add container command now =>
    if command = [] then old else trimHistory container 0 (⟨command, now.1, container⟩ :: old)
  | clear container => old.filter (·.container ≠ container)

variable (L : Json.Library) (env : Env)

/-- The file after the update. -/
def apply (file : Option Bytes) : Update → Option Bytes
  | add container command now => addDetachedHistoryEntry L env now file container command
  | clear container => clearDetachedHistory L env file container

/-- After the update the intended list is loaded, or the one from before it. -/
def AllOrNothing (file : Option Bytes) (u : Update) : Prop :=
  loadDetachedHistory L env (u.apply L env file) = u.intended (loadDetachedHistory L env file) ∨
    loadDetachedHistory L env (u.apply L env file) = loadDetachedHistory L env file

/-- Nothing can be lost, or all of the new list can be written. -/
def Safe (old : List DetachedHistoryEntry) : Update → Prop
  | add container command _ =>
    old = [] ∨ command = [] ∨
      ValidUtf8 container ∧ ValidUtf8 command ∧ env.written = .all
  | clear container => (∀ e ∈ old, e.container = container) ∨ env.written = .all

end Update

variable {L : Json.Library} {env : Env}

/-- **What is loaded after a save**: the list if all of it was written, and nothing otherwise. -/
theorem load_save (hL : Lawful L) (hhome : env.home = true) (hread : env.readable = true)
    (hwrite : env.writable = true) {entries : List DetachedHistoryEntry}
    (h : ∀ e ∈ entries, e.command ≠ []) (file : Option Bytes) :
    loadDetachedHistory L env (saveDetachedHistory L env file entries) =
      if (∀ e ∈ entries, e.Valid) ∧ env.written = .all then entries else [] := by
  cases hdump : L.dump (document entries) with
  | none =>
    have hvalid : ¬ ∀ e ∈ entries, e.Valid := fun hall => by
      have := (hL.dump entries).2 hall
      simp [hdump] at this
    rw [save_none hhome hwrite hdump, load_unreadable hL.parse_nil,
      if_neg fun hall => hvalid hall.1]
  | some text =>
    have hvalid : ∀ e ∈ entries, e.Valid := (hL.dump entries).1 (by rw [hdump]; rfl)
    have hparse := hL.parse_dump entries text hdump
    rw [save_some hhome hwrite hdump]
    cases hwritten : env.written with
    | all =>
      rw [if_pos ⟨hvalid, rfl⟩]
      exact load_document hL hhome hread h hdump
    | cut n =>
      -- a proper part of the text is not read, and an empty text has no proper part
      rw [if_neg fun hall => by cases hall.2]
      refine load_unreadable (hL.parse_prefix entries text hdump _ ?_ fun hall => ?_)
      · exact (List.take_prefix n _).trans (List.dropLast_prefix text)
      · have hne : text ≠ [] := by
          rintro rfl
          rw [hL.parse_nil] at hparse
          cases hparse
        have hlen := congrArg List.length hall
        have hpos := List.length_pos_iff.2 hne
        simp only [Written.apply, List.length_take, List.length_dropLast] at hlen
        omega

/-- A save that is to replace the list `old`. -/
theorem save_allOrNothing_iff (hL : Lawful L) (hhome : env.home = true)
    (hread : env.readable = true) (hwrite : env.writable = true)
    {entries old : List DetachedHistoryEntry} (h : ∀ e ∈ entries, e.command ≠ [])
    (file : Option Bytes) :
    (loadDetachedHistory L env (saveDetachedHistory L env file entries) = entries ∨
      loadDetachedHistory L env (saveDetachedHistory L env file entries) = old) ↔
      entries = [] ∨ old = [] ∨ (∀ e ∈ entries, e.Valid) ∧ env.written = .all := by
  rw [load_save hL hhome hread hwrite h]
  split_ifs with hall
  · exact iff_of_true (Or.inl rfl) (Or.inr (Or.inr hall))
  · constructor
    · rintro (hnil | hnil)
      · exact Or.inl hnil.symm
      · exact Or.inr (Or.inl hnil.symm)
    · rintro (hnil | hnil | hall')
      · exact Or.inl hnil.symm
      · exact Or.inr hnil.symm
      · exact absurd hall' hall

/-- What is stored has commands and valid strings. -/
theorem load_command {file : Option Bytes} {e : DetachedHistoryEntry}
    (he : e ∈ loadDetachedHistory L env file) : e.command ≠ [] :=
  (exists_of_mem_load he).1

theorem add_allOrNothing_iff (hL : Lawful L) (hhome : env.home = true)
    (hread : env.readable = true) (hwrite : env.writable = true) (file : Option Bytes)
    (container command : Bytes) (now : Timestamp) :
    (Update.add container command now).AllOrNothing L env file ↔
      (Update.add container command now).Safe env (loadDetachedHistory L env file) := by
  simp only [Update.AllOrNothing, Update.Safe, Update.intended, Update.apply,
    addDetachedHistoryEntry]
  split_ifs with hempty
  · exact iff_of_true (Or.inl rfl) (Or.inr (Or.inl hempty))
  · set old := loadDetachedHistory L env file
    set e : DetachedHistoryEntry := ⟨command, now.1, container⟩ with he
    have hsub := (trimHistory_sublist container 0 (e :: old)).subset
    have hmem := trimHistory_cons container e old
    have hcommand : ∀ d ∈ trimHistory container 0 (e :: old), d.command ≠ [] := by
      intro d hd
      rcases List.mem_cons.1 (hsub hd) with rfl | hd
      · exact hempty
      · exact load_command hd
    -- only the new entry can have an invalid string
    have hvalid : (∀ d ∈ trimHistory container 0 (e :: old), d.Valid) ↔
        ValidUtf8 container ∧ ValidUtf8 command := by
      constructor
      · intro hall
        exact ⟨(hall e hmem).container, (hall e hmem).command⟩
      · intro hnew d hd
        rcases List.mem_cons.1 (hsub hd) with rfl | hd
        · exact ⟨hnew.2, validUtf8_of_ascii now.2, hnew.1⟩
        · exact load_valid hL hd
    have hne : trimHistory container 0 (e :: old) ≠ [] := List.ne_nil_of_mem hmem
    rw [save_allOrNothing_iff hL hhome hread hwrite hcommand, hvalid, and_assoc]
    simp only [hne, hempty, false_or]

theorem clear_allOrNothing_iff (hL : Lawful L) (hhome : env.home = true)
    (hread : env.readable = true) (hwrite : env.writable = true) (file : Option Bytes)
    (container : Bytes) :
    (Update.clear container).AllOrNothing L env file ↔
      (Update.clear container).Safe env (loadDetachedHistory L env file) := by
  simp only [Update.AllOrNothing, Update.Safe, Update.intended, Update.apply,
    clearDetachedHistory]
  set old := loadDetachedHistory L env file
  have hvalid : ∀ d ∈ old.filter (·.container ≠ container), d.Valid :=
    fun d hd => load_valid hL (List.mem_of_mem_filter hd)
  have hcommand : ∀ d ∈ old.filter (·.container ≠ container), d.command ≠ [] :=
    fun d hd => load_command (List.mem_of_mem_filter hd)
  have hnil : old.filter (·.container ≠ container) = [] ↔ ∀ e ∈ old, e.container = container := by
    rw [List.filter_eq_nil_iff]
    exact forall₂_congr fun e _ => by simp
  have hold : old = [] → ∀ e ∈ old, e.container = container := fun h => by simp [h]
  rw [save_allOrNothing_iff hL hhome hread hwrite hcommand, hnil, ← or_assoc,
    or_iff_left_of_imp hold, and_iff_right hvalid]

/-- **When an update is all or nothing.**  With any bytes for the container and the command, and
for any file that can be opened: the update leaves the complete new list or the list from before it
if and only if nothing was to be lost, or the strings are UTF-8 and all of the text was written. -/
theorem update_allOrNothing_iff (L : Json.Library) (hL : Lawful L) (env : Env)
    (hhome : env.home = true) (hread : env.readable = true) (hwrite : env.writable = true)
    (file : Option Bytes) (u : Update) :
    u.AllOrNothing L env file ↔ u.Safe env (loadDetachedHistory L env file) := by
  cases u with
  | add container command now =>
    exact add_allOrNothing_iff hL hhome hread hwrite file container command now
  | clear container => exact clear_allOrNothing_iff hL hhome hread hwrite file container

/-- An entry is added to a history of one. -/
theorem update_allOrNothing_web :
    (Update.add (lit "db") (lit "env") secondMoment).AllOrNothing
      layoutLibrary goodEnv
      (some (documentText [⟨lit "ls", lit "2026-01-01 10:00:00", lit "web"⟩])) :=
  (update_allOrNothing_iff layoutLibrary lawful_layoutLibrary _ rfl rfl rfl _ _).2
    (Or.inr (Or.inr ⟨by decide, by decide, rfl⟩))

/-- A command that is not UTF-8 empties the history. -/
theorem update_loses_history :
    ¬ (Update.add (lit "web") [255] secondMoment).AllOrNothing
      layoutLibrary goodEnv
      (some (documentText [⟨lit "ls", lit "2026-01-01 10:00:00", lit "web"⟩])) := by
  rintro (h | h)
  · exact absurd h (by decide +kernel)
  · exact absurd h (by decide +kernel)

end History

end TuxDock
