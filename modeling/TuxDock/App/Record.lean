import TuxDock.App.Offer
import TuxDock.App.Refresh
import TuxDock.History.Runs

/-!
# The history in the runs of the system

What the history is for is stated over what the user confirms: a command confirmed in a prompt is
recorded for the container of the prompt, and the last line of the history clears it.  Between the
confirmations the threads go on, lists are delivered and dialogs open and close; the file must hold
the history after each of these steps.

* `Log`, `recorded` : the entries confirmed along a run;
* `Recording` : the invariant of the application;
* `history_recorded` : **after every run the file shows the log, an open history shows the newest
  entries of its container, and no command is run in a container that is not the newest entry of
  its log.**
-/

namespace TuxDock

namespace App

open Text History Transition

/-! ### What is recorded -/

/-- The entries of each container since its last clearing, the newest first. -/
abbrev Log := Bytes → List DetachedHistoryEntry

/-- The command that a thread is about to run in a container. -/
def ActionThread.command : ActionThread → Option Bytes
  | busy (.execDetachedCommand command) _ => some command
  | busy (.execCommandWithOutput command) _ => some command
  | _ => none

/-- The log after Return. -/
def TuxDockApp.record (a : TuxDockApp) (now : Timestamp) (log : Log) : Log :=
  match a.modalMode with
  | .input =>
    if a.asksCommand = true ∧ a.modalInput ≠ [] then
      Function.update log a.historyContainerName
        (⟨a.modalInput, now.1, a.historyContainerName⟩ :: log a.historyContainerName)
    else log
  | .history =>
    -- the last line of the history
    if a.modalHistoryIndex + 1 = a.modalHistoryDisplay.length then
      Function.update log a.historyContainerName []
    else log
  | _ => log

/-- The log along a run. -/
def recorded (log : Log) (s : System) (label : Label) (_ : System) : Log :=
  match label with
  | .event .ret o => s.app.record o.now log
  | _ => log

/-- The log after a run. -/
def logAfter (L : Json.Library) (log : Log) (s : System) (labels : List Label) : Log :=
  noted (step L goodEnv) recorded log s labels

/-- The file holds the newest entries of the log, and nothing else. -/
def HoldsLog (L : Json.Library) (file : Option Bytes) (log : Log) : Prop :=
  ∃ entries, RunInv L ⟨file, log⟩ entries

/-- What comes from outside is UTF-8: the text of an input and the names of containers. -/
def Label.Utf8 : Label → Prop
  | .event _ o => ValidUtf8 o.text
  | .fetchContainers _ result => ∀ c ∈ result.items, ValidUtf8 c.name
  | _ => True

instance (label : Label) : Decidable label.Utf8 :=
  match label with
  | .event _ o => inferInstanceAs (Decidable (ValidUtf8 o.text))
  | .fetchContainers _ result => inferInstanceAs (Decidable (∀ c ∈ result.items, ValidUtf8 c.name))
  | .deliver => isTrue trivial
  | .wake => isTrue trivial
  | .act _ _ => isTrue trivial
  | .fetchImages _ _ => isTrue trivial
  | .post _ => isTrue trivial

/-! ### The invariant of the application -/

/-- The dialog shows the newest entries of the container, and the cursor is on one of its lines. -/
structure Shown (log : Log) (a : TuxDockApp) : Prop where
  entries : a.modalHistoryEntries =
    (log a.historyContainerName).take kMaxDetachedHistoryEntries
  display : a.modalHistoryDisplay = lit "[Enter new command]" ::
    (a.modalHistoryEntries.map fun e => lit "[" ++ e.timestamp ++ lit "] " ++ e.command) ++
      [lit "[Clear history]"]
  cursor : 0 ≤ a.modalHistoryIndex ∧ a.modalHistoryIndex < a.modalHistoryDisplay.length

/-- The file holds the log, an open history shows it, and what is run is its newest entry. -/
structure Recording (L : Json.Library) (log : Log) (a : TuxDockApp) : Prop where
  file : HoldsLog L a.historyFile log
  name : ValidUtf8 a.historyContainerName
  input : ValidUtf8 a.modalInput
  shown : a.modalMode = .history → Shown log a
  runs : ∀ thread ∈ a.actionThreads, ∀ command, thread.command = some command → command ≠ [] →
    (log a.historyContainerName).head?.map (·.command) = some command

variable {L : Json.Library} {env : Env} {log : Log} {s t : System} {a b c : TuxDockApp}
  {o : Outside}

theorem toInt_of_lt {n : ℕ} (h : n < 2 ^ 31) : toInt n = n := by
  unfold toInt
  rw [Int.bmod_def]
  split_ifs <;> omega

theorem Shown.length_display (h : Shown log a) :
    a.modalHistoryDisplay.length = a.modalHistoryEntries.length + 2 := by
  rw [h.display]
  simp

theorem Shown.length_entries (h : Shown log a) : a.modalHistoryEntries.length ≤ 200 := by
  rw [h.entries]
  exact List.length_take_le _ _

/-- The size of the menu is an `int`. -/
theorem Shown.toInt_length (h : Shown log a) :
    toInt a.modalHistoryDisplay.length = a.modalHistoryDisplay.length := by
  have hdisplay := h.length_display
  have hentries := h.length_entries
  exact toInt_of_lt (by omega)

/-- **Return on the line of an entry puts its command into the prompt.** -/
theorem Shown.chosen (h : Shown log a) {n : ℕ} {e : DetachedHistoryEntry}
    (he : a.modalHistoryEntries[n]? = some e) (hindex : a.modalHistoryIndex = n + 1) :
    a.modalHistoryDisplay[n + 1]? = some (lit "[" ++ e.timestamp ++ lit "] " ++ e.command) ∧
      (a.resolveHistory L env).modalInput = e.command := by
  obtain ⟨hn, -⟩ := List.getElem?_eq_some_iff.1 he
  refine ⟨?_, ?_⟩
  · rw [h.display, List.cons_append, List.getElem?_cons_succ,
      List.getElem?_append_left (by simpa using hn), List.getElem?_map, he]
    rfl
  · have hfirst : a.modalHistoryIndex ≠ 0 := by omega
    have hlast : a.modalHistoryIndex ≠ toInt a.modalHistoryDisplay.length - 1 := by
      rw [h.toInt_length, h.length_display]
      omega
    have hline : (a.modalHistoryIndex - 1).toNat = n := by omega
    simp only [TuxDockApp.resolveHistory, if_neg hfirst, if_neg hlast, hline, he]

/-! ### What leaves the history alone -/

/-- The history file is left as it is; what is typed is kept or emptied; a container is chosen from
the list; no command is run. -/
structure Aside (a b : TuxDockApp) : Prop where
  file : b.historyFile = a.historyFile
  name : b.historyContainerName = a.historyContainerName ∨
    ∃ c ∈ a.containers, b.historyContainerName = c.name
  input : b.modalInput = a.modalInput ∨ b.modalInput = []
  mode : b.modalMode ≠ .history
  threads : ∀ thread ∈ b.actionThreads, thread ∈ a.actionThreads ∨ thread.command = none

theorem Recording.aside (h : Recording L log a) (hidle : a.actionThreads = [])
    (hnames : ∀ c ∈ a.containers, ValidUtf8 c.name) (hb : Aside a b) : Recording L log b where
  file := by
    rw [hb.file]
    exact h.file
  name := by
    rcases hb.name with hname | ⟨c, hc, hname⟩
    · rw [hname]
      exact h.name
    · rw [hname]
      exact hnames c hc
  input := by
    rcases hb.input with hinput | hinput
    · rw [hinput]
      exact h.input
    · rw [hinput]
      decide
  shown hmode := absurd hmode hb.mode
  runs := by
    intro thread hthread command hcommand
    rcases hb.threads thread hthread with hold | hnone
    · rw [hidle] at hold
      cases hold
    · rw [hnone] at hcommand
      cases hcommand

/-- Threads that run no command may come and go. -/
theorem Recording.withThreads (h : Recording L log a) {poller : Poller} {refresh : Option Fetch}
    {actions : List ActionThread}
    (hactions : ∀ thread ∈ actions, thread ∈ a.actionThreads ∨ thread.command = none) :
    Recording L log (a.withThreads poller refresh actions) where
  file := h.file
  name := h.name
  input := h.input
  shown hmode :=
    have hshown := h.shown hmode
    ⟨hshown.entries, hshown.display, hshown.cursor⟩
  runs := by
    intro thread hthread command hcommand
    rcases hactions thread hthread with hold | hnone
    · exact h.runs thread hold command hcommand
    · rw [hnone] at hcommand
      cases hcommand

theorem aside_self (hmode : a.modalMode ≠ .history) : Aside a a :=
  ⟨rfl, .inl rfl, .inl rfl, hmode, fun _ => .inl⟩

theorem aside_setStatus (hmode : a.modalMode ≠ .history) (message : Bytes) :
    Aside a (a.setStatus message) :=
  ⟨rfl, .inl rfl, .inl rfl, hmode, fun _ => .inl⟩

theorem aside_openInput (a : TuxDockApp) (title text : Bytes) (callback : InputCallback) :
    Aside a (a.openInput title text callback []) :=
  ⟨rfl, .inl rfl, .inr rfl, by rintro ⟨⟩, fun _ => .inl⟩

theorem aside_beginOperation (a : TuxDockApp) (title message : Bytes) {thread : ActionThread}
    (hthread : thread.command = none) : Aside a (a.beginOperation title message thread) where
  file := rfl
  name := .inl rfl
  input := .inl rfl
  mode := by rintro ⟨⟩
  threads := by
    intro thread' hthread'
    rcases List.mem_append.1 hthread' with hold | hnew
    · exact .inl hold
    · rw [List.mem_singleton.1 hnew]
      exact .inr hthread

theorem aside_promptNextPort (context : RunContainerContext) (index : ℤ) (a : TuxDockApp) :
    Aside a (a.promptNextPort context index) := by
  unfold TuxDockApp.promptNextPort
  split_ifs
  · exact aside_beginOperation a _ _ rfl
  · exact aside_openInput a _ _ _

theorem InputCallback.aside_run {callback : InputCallback} {ok : Bool} {value : Bytes}
    (hmode : a.modalMode ≠ .history) (hother : callback.opener = none)
    (h : callback.run L env o ok value a = .ok b) : Aside a b := by
  cases run_cases h with
  | canceled => exact aside_self hmode
  | refused callback message => exact aside_setStatus hmode message
  | pull | stop => exact aside_beginOperation a _ _ rfl
  | named context => exact aside_openInput a _ _ _
  | counted | mapped => exact aside_promptNextPort _ _ a
  | detached | output => cases hother

theorem ConfirmCallback.aside_run (callback : ConfirmCallback) (ok : Bool)
    (hmode : a.modalMode ≠ .history) : Aside a (callback.run ok a) := by
  unfold ConfirmCallback.run
  split_ifs
  · exact aside_self hmode
  · cases callback <;> exact aside_beginOperation a _ _ rfl

theorem ContainerCallback.aside_run (callback : ContainerCallback) (hmode : a.modalMode ≠ .history)
    {container : ContainerInfo} (hcontainer : container ∈ a.containers) :
    Aside a (callback.run o container.id container.name a) := by
  cases callback with
  | startDetached => exact aside_beginOperation a _ _ rfl
  | stopContainer => exact aside_openInput a _ _ _
  | removeContainer => exact ⟨rfl, .inl rfl, .inl rfl, by rintro ⟨⟩, fun _ => .inl⟩
  | execShell => exact aside_setStatus hmode _
  | execDetachedCommand | execCommandWithOutput =>
    exact ⟨rfl, .inr ⟨container, hcontainer, rfl⟩, .inr rfl, by rintro ⟨⟩, fun _ => .inl⟩

theorem ImageCallback.aside_run (callback : ImageCallback) (id tag : Bytes) (a : TuxDockApp) :
    Aside a (callback.run id tag a) := by
  cases callback with
  | runContainer => exact aside_openInput a _ _ _
  | deleteImage => exact ⟨rfl, .inl rfl, .inl rfl, by rintro ⟨⟩, fun _ => .inl⟩

theorem SelectCallback.aside_run (callback : SelectCallback) (ok : Bool) (selected : ℤ)
    (hmode : a.modalMode ≠ .history) : Aside a (callback.run o ok selected a) := by
  unfold SelectCallback.run
  split_ifs
  · exact aside_setStatus hmode _
  · exact aside_setStatus hmode _
  · split
    · rename_i entry hentry
      have hmem := List.mem_of_getElem? hentry
      cases callback with
      | container callback =>
        obtain ⟨container, hcontainer, rfl⟩ := List.mem_map.1 hmem
        have hrun : Aside
            { a with calls := (.container callback, container.id, container.name) :: a.calls }
            ((SelectCallback.container callback).call o (container.id, container.name) a) := by
          refine callback.aside_run ?_ ?_
          · exact hmode
          · exact hcontainer
        exact ⟨hrun.file, hrun.name, hrun.input, hrun.mode, hrun.threads⟩
      | image callback =>
        have hrun : Aside { a with calls := (.image callback, entry) :: a.calls }
            ((SelectCallback.image callback).call o entry a) := callback.aside_run entry.1 entry.2 _
        exact ⟨hrun.file, hrun.name, hrun.input, hrun.mode, hrun.threads⟩
    · exact aside_self hmode

theorem aside_refreshState {message : Bytes} (hmode : a.modalMode ≠ .history)
    (h : a.refreshState message = .ok b) : Aside a b := by
  unfold TuxDockApp.refreshState at h
  split at h <;> cases h
  exact ⟨rfl, .inl rfl, .inl rfl, hmode, fun _ => .inl⟩

theorem aside_promptContainerSelection {title : Bytes} {callback : ContainerCallback}
    (hmode : a.modalMode ≠ .history) (h : a.promptContainerSelection title callback = .ok b) :
    Aside a b := by
  unfold TuxDockApp.promptContainerSelection at h
  split_ifs at h
  · exact aside_refreshState hmode h
  · cases h
    exact ⟨rfl, .inl rfl, .inl rfl, by rintro ⟨⟩, fun _ => .inl⟩

theorem aside_promptImageSelection {title : Bytes} {callback : ImageCallback}
    (hmode : a.modalMode ≠ .history) (h : a.promptImageSelection title callback = .ok b) :
    Aside a b := by
  unfold TuxDockApp.promptImageSelection at h
  split_ifs at h
  · exact aside_refreshState hmode h
  · cases h
    exact ⟨rfl, .inl rfl, .inl rfl, by rintro ⟨⟩, fun _ => .inl⟩

theorem aside_executeSelectedAction (hmode : a.modalMode ≠ .history)
    (h : a.executeSelectedAction = .ok b) : Aside a b := by
  unfold TuxDockApp.executeSelectedAction at h
  split at h
  case h_2 | h_6 => exact aside_promptImageSelection hmode h
  case h_5 | h_7 | h_8 | h_9 | h_10 | h_11 => exact aside_promptContainerSelection hmode h
  case h_3 | h_4 =>
    cases h
    split_ifs <;> exact ⟨rfl, .inl rfl, .inl rfl, by rintro ⟨⟩, fun _ => .inl⟩
  case h_1 =>
    cases h
    exact aside_openInput a _ _ _
  case h_12 =>
    cases h
    exact ⟨rfl, .inl rfl, .inl rfl, by rintro ⟨⟩, fun _ => .inl⟩
  case h_13 => cases h
  case h_14 =>
    cases h
    exact aside_self hmode

/-! ### Events -/

theorem Recording.openHistory (hL : Lawful L) (h : Recording L log a) :
    Recording L log (a.openHistory L goodEnv) where
  file := h.file
  name := h.name
  input := h.input
  shown _ := by
    obtain ⟨entries, hentries⟩ := h.file
    refine ⟨hentries.faithful hL a.historyContainerName, rfl, le_rfl, ?_⟩
    simp [TuxDockApp.openHistory]
    omega
  runs := h.runs

/-- The entries shown are those of the file, which are UTF-8. -/
theorem Recording.valid_entry (h : Recording L log a) (hmode : a.modalMode = .history)
    {e : DetachedHistoryEntry} (he : e ∈ a.modalHistoryEntries) : ValidUtf8 e.command := by
  obtain ⟨entries, hentries⟩ := h.file
  rw [(h.shown hmode).entries, ← hentries.newest] at he
  exact (hentries.valid e (List.mem_of_mem_filter he)).1.command

theorem Recording.resolveHistory (hL : Lawful L) (h : Recording L log a)
    (hmode : a.modalMode = .history) (hidle : a.actionThreads = []) (now : Timestamp) :
    Recording L (a.record now log) (a.resolveHistory L goodEnv) := by
  have hshown := h.shown hmode
  have hnone {b : TuxDockApp} (hb : b.actionThreads = a.actionThreads) (log' : Log) :
      ∀ thread ∈ b.actionThreads, ∀ command, thread.command = some command → command ≠ [] →
        (log' b.historyContainerName).head?.map (·.command) = some command := by
    rw [hb, hidle]
    intro thread hthread
    cases hthread
  have hnil : ValidUtf8 [] := by decide
  have hlength := hshown.toInt_length
  have hdisplay := hshown.length_display
  simp only [TuxDockApp.record, hmode]
  unfold TuxDockApp.resolveHistory
  simp only [hlength]
  by_cases hfirst : a.modalHistoryIndex = 0
  · rw [if_pos hfirst, if_neg (by omega)]
    exact ⟨h.file, h.name, hnil, by rintro ⟨⟩, hnone rfl _⟩
  · rw [if_neg hfirst]
    by_cases hlast : a.modalHistoryIndex + 1 = a.modalHistoryDisplay.length
    · rw [if_pos hlast, if_pos (by omega)]
      obtain ⟨entries, hentries⟩ := h.file
      exact ⟨⟨_, hentries.clear hL a.historyContainerName⟩, h.name, hnil, by rintro ⟨⟩, hnone rfl _⟩
    · rw [if_neg hlast, if_neg (by omega)]
      split
      · rename_i e he
        have hvalid := h.valid_entry hmode (List.mem_of_getElem? he)
        exact ⟨h.file, h.name, hvalid, by rintro ⟨⟩, hnone rfl _⟩
      · exact ⟨h.file, h.name, h.input, by rintro ⟨⟩, hnone rfl _⟩

/-- **A command is recorded before its operation is begun.** -/
theorem Recording.run (hL : Lawful L) (h : Recording L log a) (hidle : a.actionThreads = [])
    (now : Timestamp) (title message : Bytes) {thread : ActionThread} {input : Option InputCallback}
    (hthread : thread.command = some a.modalInput) :
    Recording L
      (if a.modalInput ≠ [] then
        Function.update log a.historyContainerName
          (⟨a.modalInput, now.1, a.historyContainerName⟩ :: log a.historyContainerName)
        else log)
      ({ a with
        modalMode := .none
        inputCallback := input
        historyFile := addDetachedHistoryEntry L goodEnv now a.historyFile a.historyContainerName
          a.modalInput }.beginOperation title message thread) where
  file := by
    obtain ⟨entries, hentries⟩ := h.file
    by_cases hne : a.modalInput = []
    · rw [if_neg (not_not.2 hne)]
      refine ⟨entries, ?_⟩
      simpa [TuxDockApp.beginOperation, addDetachedHistoryEntry, hne] using hentries
    · rw [if_pos hne]
      have hcommand : (⟨a.modalInput, h.input⟩ : { c : Bytes // ValidUtf8 c }).1 ≠ [] := hne
      exact ⟨_, hentries.add hL hcommand h.name⟩
  name := h.name
  input := h.input
  shown := by rintro ⟨⟩
  runs := by
    intro thread' hthread' command hcommand hne
    have hmem : thread' ∈ a.actionThreads ++ [thread] := hthread'
    rw [hidle, List.nil_append, List.mem_singleton] at hmem
    rw [hmem, hthread] at hcommand
    obtain rfl := Option.some.inj hcommand
    rw [if_pos hne]
    simp [TuxDockApp.beginOperation]

theorem record_eq_self (hinput : a.modalMode ≠ .input) (hhistory : a.modalMode ≠ .history)
    (now : Timestamp) : a.record now log = log := by
  unfold TuxDockApp.record
  split
  · exact absurd ‹_› hinput
  · exact absurd ‹_› hhistory
  · rfl

theorem record_of_not_asksCommand (hinput : a.modalMode = .input) (hasks : a.asksCommand = false)
    (now : Timestamp) : a.record now log = log := by
  simp only [TuxDockApp.record, hinput, hasks, Bool.false_eq_true, false_and, ↓reduceIte]

theorem Recording.resolveInput (hL : Lawful L) (h : Recording L log a)
    (hidle : a.actionThreads = []) (hnames : ∀ c ∈ a.containers, ValidUtf8 c.name)
    (hmode : a.modalMode = .input) (hres : a.resolveInput L goodEnv o true = .ok b) :
    Recording L (a.record o.now log) b := by
  unfold TuxDockApp.resolveInput at hres
  have haside {input : Option InputCallback}
      (hb : Aside { a with modalMode := .none, inputCallback := input } b) : Recording L log b :=
    h.aside hidle hnames ⟨hb.file, hb.name, hb.input, hb.mode, hb.threads⟩
  cases hcallback : a.inputCallback with
  | none =>
    rw [record_of_not_asksCommand hmode (by rw [TuxDockApp.asksCommand, hcallback]; rfl)]
    simp only [hcallback] at hres
    cases hres
    exact haside (aside_self (by rintro ⟨⟩))
  | some callback =>
    simp only [hcallback] at hres
    cases hopener : callback.opener with
    | none =>
      have hasks : a.asksCommand = false := by
        simp [TuxDockApp.asksCommand, hcallback, hopener]
      rw [record_of_not_asksCommand hmode hasks]
      exact haside (callback.aside_run (by rintro ⟨⟩) hopener hres)
    | some opener =>
      have hasks : a.asksCommand = true := by
        simp [TuxDockApp.asksCommand, hcallback, hopener]
      simp only [TuxDockApp.record, hmode, hasks, true_and]
      cases callback with
      | detachedCommand | commandWithOutput =>
        cases hres
        exact h.run hL hidle o.now _ _ rfl
      | pullImage | containerName context | portCount context | portMapping context index
      | stopTimeout id => cases hopener

theorem aside_resolveConfirm (a : TuxDockApp) (confirmed : Bool) :
    Aside (a.close .confirm) (a.resolveConfirm confirmed) := by
  unfold TuxDockApp.resolveConfirm
  cases a.confirmCallback with
  | none => exact aside_self (by rintro ⟨⟩)
  | some callback => exact callback.aside_run confirmed (by rintro ⟨⟩)

theorem aside_resolveSelect (a : TuxDockApp) (confirmed : Bool) :
    Aside (a.close .select) (a.resolveSelect o confirmed) := by
  unfold TuxDockApp.resolveSelect
  cases a.selectCallback with
  | none => exact aside_self (by rintro ⟨⟩)
  | some callback => exact callback.aside_run confirmed _ (by rintro ⟨⟩)

/-- **The handling of an event keeps the file and the log together.** -/
theorem Recording.onEvent (hL : Lawful L) (h : Recording L log a) {event : Event}
    (hmode : a.modalMode ≠ .busy) (hidle : a.actionThreads = [])
    (hnames : ∀ c ∈ a.containers, ValidUtf8 c.name) (htext : ValidUtf8 o.text)
    (hevent : a.onEvent L goodEnv event o = .ok b) :
    Recording L (if event = .ret then a.record o.now log else log) b := by
  have haside {k : Slot} (hb : Aside (a.close k) b) : Recording L log b := by
    refine h.aside hidle hnames ?_
    cases k <;> exact ⟨hb.file, hb.name, hb.input, hb.mode, hb.threads⟩
  have hother (hinput : a.modalMode ≠ .input) (hhistory : a.modalMode ≠ .history)
      (hb : Recording L log b) :
      Recording L (if event = .ret then a.record o.now log else log) b := by
    rwa [record_eq_self hinput hhistory, ite_self]
  unfold TuxDockApp.onEvent at hevent
  cases hm : a.modalMode with
  | busy => exact absurd hm hmode
  | input =>
    simp only [hm] at hevent
    cases event with
    | f1 =>
      cases hevent
      exact h.openHistory hL
    | ret => exact h.resolveInput hL hidle hnames hm hevent
    | escape =>
      simp only [TuxDockApp.onInputEvent, TuxDockApp.resolveInput] at hevent
      split at hevent
      · cases hevent
        exact haside (k := .input) (aside_self (by rintro ⟨⟩))
      · cases hevent
        exact haside (k := .input) (aside_self (by rintro ⟨⟩))
    | yes | no | other =>
      cases hevent
      refine ⟨h.file, h.name, htext, ?_, h.runs⟩
      exact fun hhistory => absurd (hm.symm.trans hhistory) (by rintro ⟨⟩)
  | history =>
    simp only [hm] at hevent
    cases hevent
    cases event with
    | ret => exact h.resolveHistory hL hm hidle o.now
    | escape => exact ⟨h.file, h.name, h.input, by rintro ⟨⟩, h.runs⟩
    | f1 | yes | no | other =>
      have hshown := h.shown hm
      refine ⟨h.file, h.name, h.input, fun _ => ⟨hshown.entries, hshown.display, ?_⟩, h.runs⟩
      obtain ⟨hlower, hupper⟩ := hshown.cursor
      simp only [TuxDockApp.onHistoryEvent, moved]
      split_ifs <;> omega
  | confirm =>
    refine hother (by rw [hm]; rintro ⟨⟩) (by rw [hm]; rintro ⟨⟩) ?_
    simp only [hm] at hevent
    cases hevent
    cases event with
    | ret | yes => exact haside (aside_resolveConfirm a true)
    | escape | no => exact haside (aside_resolveConfirm a false)
    | f1 | other => exact h
  | select =>
    refine hother (by rw [hm]; rintro ⟨⟩) (by rw [hm]; rintro ⟨⟩) ?_
    simp only [hm] at hevent
    cases hevent
    cases event with
    | ret => exact haside (aside_resolveSelect a true)
    | escape => exact haside (aside_resolveSelect a false)
    | f1 | yes | no | other =>
      refine h.aside hidle hnames ⟨rfl, .inl rfl, .inl rfl, ?_, fun _ => .inl⟩
      exact fun hhistory => absurd (hm.symm.trans hhistory) (by rintro ⟨⟩)
  | message =>
    refine hother (by rw [hm]; rintro ⟨⟩) (by rw [hm]; rintro ⟨⟩) ?_
    simp only [hm] at hevent
    cases hevent
    cases event with
    | ret | escape =>
      exact h.aside hidle hnames ⟨rfl, .inl rfl, .inl rfl, by rintro ⟨⟩, fun _ => .inl⟩
    | f1 | yes | no | other => exact h
  | none =>
    refine hother (by rw [hm]; rintro ⟨⟩) (by rw [hm]; rintro ⟨⟩) ?_
    simp only [hm] at hevent
    cases event with
    | ret =>
      exact h.aside hidle hnames (aside_executeSelectedAction (by rw [hm]; rintro ⟨⟩) hevent)
    | escape | f1 | yes | no | other =>
      cases hevent
      refine h.aside hidle hnames ⟨rfl, .inl rfl, .inl rfl, ?_, fun _ => .inl⟩
      exact fun hhistory => absurd (hm.symm.trans hhistory) (by rintro ⟨⟩)

/-! ### The steps of the system -/

/-- The invariant of a run; `initial` is the list that the application starts with. -/
structure RecordInv (L : Json.Library) (initial : List ContainerInfo) (log : Log) (s : System) :
    Prop where
  cache : CacheHolds (fun c => ValidUtf8 c.name) initial s
  app : Recording L log s.app

theorem command_setFetch (a : TuxDockApp) (fetch : Fetch) (w : Worker) :
    ∃ poller refresh actions, a.setFetch fetch w = a.withThreads poller refresh actions ∧
      ∀ thread ∈ actions, thread ∈ a.actionThreads ∨ thread.command = none := by
  cases w with
  | poller => exact ⟨_, _, _, rfl, fun _ => .inl⟩
  | refresh => exact ⟨_, _, _, rfl, fun _ => .inl⟩
  | action k =>
    unfold TuxDockApp.setFetch
    simp only
    split
    · refine ⟨_, _, _, rfl, ?_⟩
      intro thread hthread
      rcases List.mem_or_eq_of_mem_set hthread with hold | rfl
      · exact .inl hold
      · exact .inr rfl
    · exact ⟨_, _, _, rfl, fun _ => .inl⟩

/-- A posted closure opens a message or leaves the dialogs as they are. -/
theorem Recording.run_post (h : Recording L log a) (post : Post) :
    Recording L log (post.run a) := by
  cases post with
  | poll | refresh =>
    exact ⟨h.file, h.name, h.input, fun hm => ⟨(h.shown hm).entries, (h.shown hm).display,
      (h.shown hm).cursor⟩, h.runs⟩
  | complete message onComplete =>
    cases onComplete with
    | none => exact ⟨h.file, h.name, h.input, by rintro ⟨⟩, h.runs⟩
    | some onComplete =>
      cases onComplete
      exact ⟨h.file, h.name, h.input, by rintro ⟨⟩, h.runs⟩
  | stopped => exact ⟨h.file, h.name, h.input, by rintro ⟨⟩, h.runs⟩

theorem Recording.advance_thread (h : Recording L log s.app) {label : Label}
    (hadvance : App.advance L env s label = some t) (hevent : ∀ event o, label ≠ .event event o) :
    Recording L log t.app := by
  cases advance_cases hadvance with
  | event event o a handled => exact absurd rfl (hevent event o)
  | halt event o halt handled ends => exact absurd rfl (hevent event o)
  | deliver p queue next => exact h.run_post p.post
  | wake waits => exact h.withThreads fun _ => .inl
  | act k outcome old new runs acts =>
    refine h.withThreads ?_
    intro thread hthread
    rcases List.mem_or_eq_of_mem_set hthread with hold | rfl
    · exact .inl hold
    · cases old <;> cases acts <;> exact .inr rfl
  | fetchContainers w result starts =>
    obtain ⟨poller, refresh, actions, heq, hactions⟩ := command_setFetch s.app
      (.containers ⟨result, s.clock⟩) w
    rw [heq]
    exact h.withThreads hactions
  | fetchImages w result containers fetched =>
    obtain ⟨poller, refresh, actions, heq, hactions⟩ := command_setFetch s.app
      (.images containers result) w
    rw [heq]
    exact h.withThreads hactions
  | post w post a posts =>
    cases posts_of_post posts with
    | poll | refresh => exact h.withThreads fun _ => .inl
    | stopped | complete =>
      exact h.withThreads fun _ hthread => .inl (List.mem_of_mem_eraseIdx hthread)

/-- A confirmation that ends the loop is none of a command or of the history. -/
theorem record_of_error {event : Event} {halt : Halt}
    (h : a.onEvent L env event o = .error halt) (hret : event = .ret) (now : Timestamp) :
    a.record now log = log := by
  subst hret
  cases hm : a.modalMode with
  | input =>
    refine record_of_not_asksCommand hm ?_ now
    simp only [TuxDockApp.onEvent, hm, TuxDockApp.onInputEvent, TuxDockApp.resolveInput] at h
    unfold TuxDockApp.asksCommand
    cases hcallback : a.inputCallback with
    | none => rfl
    | some callback =>
      simp only [hcallback] at h
      cases callback with
      | detachedCommand | commandWithOutput => cases h
      | pullImage | containerName context | portCount context | portMapping context index
      | stopTimeout id => rfl
  | history =>
    simp only [TuxDockApp.onEvent, hm] at h
    cases h
  | none | confirm | select | message | busy =>
    exact record_eq_self (by rw [hm]; rintro ⟨⟩) (by rw [hm]; rintro ⟨⟩) now

/-- **A step keeps the file and the log together.** -/
theorem RecordInv.step {initial : List ContainerInfo} (hL : Lawful L) {label : Label}
    (h : RecordInv L initial log s) (hlabel : label.Utf8)
    (hstep : App.step L goodEnv s label = some t) :
    RecordInv L initial (recorded log s label t) t := by
  refine ⟨h.cache.step ?_ hstep, ?_⟩
  · rintro w result rfl
    exact hlabel
  · obtain ⟨-, u, hu, rfl⟩ := advance_of_step hstep
    have happ : Recording L (recorded log s label u) u.app := by
      cases label with
      | event event o =>
        have hrecorded : recorded log s (.event event o) u =
            if event = .ret then s.app.record o.now log else log := by cases event <;> rfl
        rw [hrecorded]
        cases advance_cases hu with
        | event event o a handled =>
          by_cases hbusy : s.app.modalMode = .busy
          · -- nothing is confirmed while an operation is running
            rw [record_eq_self (by rw [hbusy]; rintro ⟨⟩) (by rw [hbusy]; rintro ⟨⟩), ite_self,
              onEvent_busy hbusy handled]
            exact h.app
          · exact h.app.onEvent hL hbusy (h.cache.cache.one.quiet hbusy).1 h.cache.containers
              hlabel handled
        | halt event o halt handled ends =>
          split_ifs with hret
          · rw [record_of_error handled hret]
            exact h.app
          · exact h.app
      | deliver | wake | act | fetchContainers | fetchImages | post =>
        exact h.app.advance_thread hu fun _ _ hlabel => by cases hlabel
    exact happ

/-- **The history is what the user has confirmed.**  From any start whose file holds the history,
in every run whose texts and names are UTF-8: the file holds the history of the log again, so that
the application can be started anew, and shows for every container the newest entries of its log; an
open history shows those of its container, the cursor is on one of its lines, and Return on the
line of an entry puts its command into the prompt; and a command that is about to be run is the
newest entry of the log of its container, unless it is empty. -/
theorem history_recorded (L : Json.Library) (hL : Lawful L) (file : Option Bytes) (log : Log)
    (hfile : HoldsLog L file log) (containers : ListResult ContainerInfo)
    (images : ListResult ImageInfo) (hcontainers : ∀ c ∈ containers.items, ValidUtf8 c.name)
    (labels : List Label) (hlabels : ∀ label ∈ labels, label.Utf8) (s : System)
    (hs : exec (step L goodEnv) (boot file containers images) labels = some s) :
    HoldsLog L s.app.historyFile (logAfter L log (boot file containers images) labels) ∧
    (∀ container, loadDetachedHistoryForContainer L goodEnv s.app.historyFile container =
      (logAfter L log (boot file containers images) labels container).take
        kMaxDetachedHistoryEntries) ∧
    (s.app.modalMode = .history →
      Shown (logAfter L log (boot file containers images) labels) s.app ∧
      ∀ (n : ℕ) (e : DetachedHistoryEntry), s.app.modalHistoryEntries[n]? = some e →
        s.app.modalHistoryIndex = n + 1 →
        s.app.modalHistoryDisplay[n + 1]? =
            some (lit "[" ++ e.timestamp ++ lit "] " ++ e.command) ∧
          (s.app.resolveHistory L goodEnv).modalInput = e.command) ∧
    ∀ thread ∈ s.app.actionThreads, ∀ command, thread.command = some command → command ≠ [] →
      (logAfter L log (boot file containers images) labels
        s.app.historyContainerName).head?.map (·.command) = some command := by
  have hstart : RecordInv L (boot file containers images).app.containers log
      (boot file containers images) := by
    have hnil : ValidUtf8 [] := by decide
    refine ⟨.boot file images hcontainers, hfile, hnil, hnil, by rintro ⟨⟩, ?_⟩
    intro thread hthread
    cases hthread
  have hinv : RecordInv L (boot file containers images).app.containers
      (logAfter L log (boot file containers images) labels) s :=
    exec_noted_of_stepsMeet (fun _ _ _ _ h hlabel => h.step hL hlabel) hstart
      (stepsMeet_of_forall hlabels) hs
  obtain ⟨entries, hentries⟩ := hinv.app.file
  refine ⟨hinv.app.file, hentries.faithful hL, ?_, hinv.app.runs⟩
  intro hmode
  have hshown := hinv.app.shown hmode
  exact ⟨hshown, fun n e he hindex => hshown.chosen he hindex⟩

/-! ### A command is run again -/

/-- A command is confirmed in the container `first` and run; then the history of its prompt is
opened, with the cursor on the command. -/
def rerun : List Label :=
  commandPrompt ++ [.event .other { still with text := lit "ls" }, .event .ret still,
    .act 0 ⟨true, [], lit "done"⟩, .post (.action 0), .deliver, .event .ret still,
    .event .ret still, .event .ret still, .event .f1 still,
    .event .other { still with index := 1 }]

/-- Return puts the command into the prompt. -/
theorem history_recorded_rerun :
    ((after (boot none ⟨[sample "a" "first"], []⟩ ⟨[], []⟩) rerun).app.resolveHistory layoutLibrary
      goodEnv).modalInput = lit "ls" := by
  have hrun : exec (step layoutLibrary goodEnv) (boot none ⟨[sample "a" "first"], []⟩ ⟨[], []⟩)
      rerun = some (after (boot none ⟨[sample "a" "first"], []⟩ ⟨[], []⟩) rerun) := by
    decide +kernel
  have hlabels : ∀ label ∈ rerun, label.Utf8 := by decide +kernel
  obtain ⟨-, -, hhistory, -⟩ := history_recorded layoutLibrary lawful_layoutLibrary none
    (fun _ => []) ⟨[], .start⟩ ⟨[sample "a" "first"], []⟩ ⟨[], []⟩ (by decide +kernel) rerun hlabels
    _ hrun
  have hmode : (after (boot none ⟨[sample "a" "first"], []⟩ ⟨[], []⟩) rerun).app.modalMode =
      .history := by decide +kernel
  have hentry : (after (boot none ⟨[sample "a" "first"], []⟩
      ⟨[], []⟩) rerun).app.modalHistoryEntries[0]? = some ⟨lit "ls", [], lit "first"⟩ := by
    decide +kernel
  have hindex : (after (boot none ⟨[sample "a" "first"], []⟩
      ⟨[], []⟩) rerun).app.modalHistoryIndex = (0 : ℕ) + 1 := by decide +kernel
  exact ((hhistory hmode).2 0 _ hentry hindex).2

end App

end TuxDock
