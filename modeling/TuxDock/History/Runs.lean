import Mathlib.Logic.Function.Basic
import TuxDock.History.Layout
import TuxDock.Lib.Transition

/-!
# The history over a sequence of updates

What the history is for: of each container it shows the commands added since its last clearing,
newest first, 200 at most.  The list of all containers is one document, and it is written only if
every string in it is UTF-8; the container names are not checked.

* `RunInv` : the file holds a document whose entries are, for each container, the newest of those
  added;
* `history_iff` : **the history shows the right commands after every update exactly when the
  container names added are UTF-8**.  One that is not empties the file for all containers.
-/

namespace TuxDock

namespace History

open Text Transition

/-- An update: a call of `AddDetachedHistoryEntry` with a UTF-8 command, or of
`ClearDetachedHistory`. -/
inductive Op where
  | add (container : Bytes) (command : { c : Bytes // ValidUtf8 c }) (now : Timestamp)
  | clear (container : Bytes)

/-- The update adds no entry for a container whose name is not UTF-8. -/
def Op.ValidName : Op → Prop
  | add container command _ => command.1 ≠ [] → ValidUtf8 container
  | clear _ => True

/-- The file, and what it stands for: the entries added for each container since its last
clearing, newest first. -/
structure State where
  file : Option Bytes
  added : Bytes → List DetachedHistoryEntry

/-- There is no file, and nothing has been added. -/
def start : State := ⟨none, fun _ => []⟩

variable (L : Json.Library)

/-- An update of the file and of what it stands for. -/
def step (s : State) : Op → Option State
  | .add container command now =>
    some ⟨addDetachedHistoryEntry L goodEnv now s.file container command.1,
      if command.1 = [] then s.added
      else Function.update s.added container
        (⟨command.1, now.1, container⟩ :: s.added container)⟩
  | .clear container =>
    some ⟨clearDetachedHistory L goodEnv s.file container,
      Function.update s.added container []⟩

/-- Every container shows the newest entries added for it. -/
def Faithful (s : State) : Prop :=
  ∀ container, loadDetachedHistoryForContainer L goodEnv s.file container =
    (s.added container).take kMaxDetachedHistoryEntries

/-! ### The invariant -/

/-- The file holds `entries`. -/
def Holds (file : Option Bytes) (entries : List DetachedHistoryEntry) : Prop :=
  file = none ∧ entries = [] ∨ ∃ text, file = some text ∧ L.dump (document entries) = some text

/-- What the file holds after a run. -/
structure RunInv (s : State) (entries : List DetachedHistoryEntry) : Prop where
  holds : Holds L s.file entries
  valid : ∀ e ∈ entries, e.Valid ∧ e.command ≠ []
  newest : ∀ container, entries.filter (·.container = container) =
    (s.added container).take kMaxDetachedHistoryEntries

variable {L} {s s' : State} {entries : List DetachedHistoryEntry}

theorem RunInv.start : RunInv L start [] where
  holds := Or.inl ⟨rfl, rfl⟩
  valid := by simp
  newest := by simp [History.start]

theorem RunInv.load (hL : Lawful L) (h : RunInv L s entries) :
    loadDetachedHistory L goodEnv s.file = entries := by
  rcases h.holds with ⟨hfile, rfl⟩ | ⟨text, hfile, htext⟩
  · rw [hfile]
    rfl
  · rw [hfile]
    exact load_document hL rfl rfl (fun e he => (h.valid e he).2) htext

theorem RunInv.faithful (hL : Lawful L) (h : RunInv L s entries) : Faithful L s := by
  intro container
  rw [loadDetachedHistoryForContainer, h.load hL]
  exact h.newest container

theorem holds_save (hL : Lawful L) (file : Option Bytes)
    (h : ∀ e ∈ entries, e.Valid) :
    Holds L (saveDetachedHistory L goodEnv file entries) entries := by
  obtain ⟨text, htext⟩ := Option.isSome_iff_exists.1 ((hL.dump entries).2 h)
  exact Or.inr ⟨text, save_some rfl rfl htext file, htext⟩

/-- The newest 200 of a list, after one more entry. -/
theorem take_cons_take (e : DetachedHistoryEntry) (l : List DetachedHistoryEntry) :
    (e :: l.take kMaxDetachedHistoryEntries).take kMaxDetachedHistoryEntries =
      (e :: l).take kMaxDetachedHistoryEntries := by
  have hmax : kMaxDetachedHistoryEntries = 199 + 1 := rfl
  rw [hmax, List.take_succ_cons, List.take_succ_cons, List.take_take, min_eq_left (by omega)]

theorem RunInv.add (hL : Lawful L) (h : RunInv L s entries) {container : Bytes}
    {command : { c : Bytes // ValidUtf8 c }} {now : Timestamp} (hne : command.1 ≠ [])
    (hname : ValidUtf8 container) :
    RunInv L ⟨addDetachedHistoryEntry L goodEnv now s.file container command.1,
        Function.update s.added container
          (⟨command.1, now.1, container⟩ :: s.added container)⟩
      (trimHistory container 0 (⟨command.1, now.1, container⟩ :: entries)) := by
  set e : DetachedHistoryEntry := ⟨command.1, now.1, container⟩ with he
  have hvalid : ∀ d ∈ trimHistory container 0 (e :: entries), d.Valid ∧ d.command ≠ [] := by
    intro d hd
    rcases List.mem_cons.1 ((trimHistory_sublist _ _ _).subset hd) with rfl | hd
    · exact ⟨⟨command.2, validUtf8_of_ascii now.2, hname⟩, hne⟩
    · exact h.valid d hd
  refine ⟨?_, hvalid, ?_⟩
  · rw [addDetachedHistoryEntry, if_neg hne, h.load hL]
    exact holds_save hL s.file fun d hd => (hvalid d hd).1
  · intro other
    by_cases hother : other = container
    · -- the newest of the stored entries are the newest of all
      subst hother
      have hkeep : (e :: entries).filter (·.container = other) =
          e :: (s.added other).take kMaxDetachedHistoryEntries := by
        rw [List.filter_cons_of_pos (by simp [he]), h.newest]
      rw [trimHistory_filter, hkeep, Nat.sub_zero, take_cons_take]
      simp only [Function.update_self]
    · have hdrop : (e :: entries).filter (·.container = other) =
          entries.filter (·.container = other) :=
        List.filter_cons_of_neg (by simpa [he] using fun h => hother h.symm)
      rw [trimHistory_filter_ne hother, hdrop, h.newest]
      simp only [Function.update_of_ne hother]

theorem RunInv.clear (hL : Lawful L) (h : RunInv L s entries) (container : Bytes) :
    RunInv L ⟨clearDetachedHistory L goodEnv s.file container,
        Function.update s.added container []⟩
      (entries.filter (·.container ≠ container)) := by
  have hvalid : ∀ d ∈ entries.filter (·.container ≠ container), d.Valid ∧ d.command ≠ [] :=
    fun d hd => h.valid d (List.mem_of_mem_filter hd)
  refine ⟨?_, hvalid, ?_⟩
  · rw [clearDetachedHistory, h.load hL]
    exact holds_save hL s.file fun d hd => (hvalid d hd).1
  · intro other
    rw [List.filter_filter]
    by_cases hother : other = container
    · subst hother
      have hnone : entries.filter (fun e => decide (e.container = other) &&
          decide (e.container ≠ other)) = [] :=
        List.filter_eq_nil_iff.2 fun e _ => by simp
      rw [hnone]
      simp only [Function.update_self, List.take_nil]
    · have hsame : entries.filter (fun e => decide (e.container = other) &&
          decide (e.container ≠ container)) = entries.filter (·.container = other) :=
        List.filter_congr fun e _ => by
          by_cases he : e.container = other <;> simp [he, hother]
      rw [hsame, h.newest]
      simp only [Function.update_of_ne hother]

/-- **An update with a valid name preserves the invariant.** -/
theorem RunInv.step (hL : Lawful L) (h : ∃ entries, RunInv L s entries) {op : Op}
    (hok : op.ValidName) (hstep : History.step L s op = some s') :
    ∃ entries, RunInv L s' entries := by
  obtain ⟨entries, h⟩ := h
  cases op with
  | add container command now =>
    cases hstep
    by_cases hne : command.1 = []
    · refine ⟨entries, ?_⟩
      simpa [hne, addDetachedHistoryEntry] using h
    · rw [if_neg hne]
      exact ⟨_, h.add hL hne (hok hne)⟩
  | clear container =>
    cases hstep
    exact ⟨_, h.clear hL container⟩

/-- **An entry with an invalid name empties the history.** -/
theorem validName_of_faithful (hL : Lawful L) {op : Op} (hstep : History.step L s op = some s')
    (hP : Faithful L s') : op.ValidName := by
  cases op with
  | clear container => trivial
  | add container command now =>
    intro hne
    by_contra hname
    cases hstep
    set e : DetachedHistoryEntry := ⟨command.1, now.1, container⟩ with he
    have hdump : L.dump (document (trimHistory container 0
        (e :: loadDetachedHistory L goodEnv s.file))) = none := by
      rw [← Option.not_isSome_iff_eq_none, hL.dump]
      exact fun hall => hname (hall e (trimHistory_cons _ _ _)).container
    have hfile : addDetachedHistoryEntry L goodEnv now s.file container command.1 = some [] := by
      rw [addDetachedHistoryEntry, if_neg hne]
      exact save_none rfl rfl hdump s.file
    have hload := hP container
    simp only [hfile, if_neg hne, loadDetachedHistoryForContainer,
      load_unreadable hL.parse_nil, Function.update_self] at hload
    rw [show kMaxDetachedHistoryEntries = 199 + 1 from rfl, List.take_succ_cons] at hload
    cases hload

/-- **What the history shows.**  Starting without a file, for every sequence of updates with UTF-8
commands: after each of them every container shows exactly the newest entries added for it, if and
only if no entry is added for a container whose name is not UTF-8. -/
theorem history_iff (L : Json.Library) (hL : Lawful L) (ops : List Op) :
    Always (step L) (Faithful L) start ops ↔ ∀ op ∈ ops, op.ValidName := by
  have htotal (s : State) (op : Op) : (step L s op).isSome := by cases op <;> rfl
  obtain ⟨t, ht⟩ := Option.isSome_iff_exists.1 (exec_isSome htotal start ops)
  rw [← stepsMeet_iff_forall htotal (s := start)]
  exact always_iff_stepsMeet (I := fun s => ∃ entries, RunInv L s entries)
    (fun _ _ _ h hok hstep => RunInv.step hL h hok hstep) (fun _ ⟨_, h⟩ => h.faithful hL)
    (fun _ _ _ _ hstep hP => validName_of_faithful hL hstep hP) ⟨[], .start⟩ ht

/-- A run with two containers and a clearing. -/
theorem history_web_db :
    Always (step layoutLibrary) (Faithful layoutLibrary) start
      [.add (lit "web") ⟨lit "ls", by decide⟩ firstMoment,
        .add (lit "db") ⟨lit "env", by decide⟩ secondMoment,
        .clear (lit "web")] := by
  refine (history_iff layoutLibrary lawful_layoutLibrary _).2 ?_
  intro op hop
  simp only [List.mem_cons, List.not_mem_nil, or_false] at hop
  rcases hop with rfl | rfl | rfl
  · exact fun _ => by decide
  · exact fun _ => by decide
  · trivial

/-- The history of `web` is gone after an entry for a container named by the byte `255`. -/
theorem history_lost :
    ¬ Always (step layoutLibrary) (Faithful layoutLibrary) start
      [.add (lit "web") ⟨lit "ls", by decide⟩ firstMoment,
        .add [255] ⟨lit "ls", by decide⟩ secondMoment] := by
  rintro ⟨-, h⟩
  obtain ⟨-, h⟩ := h _ rfl
  exact absurd (h _ rfl (lit "web")) (by decide +kernel)

end History

end TuxDock
