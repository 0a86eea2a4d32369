import TuxDock.App.Detour
import TuxDock.App.Subject

/-!
# What the dialogs say

A dialog asks for something, and what it says about it is set apart from the callback that does it.

* `System.detoured` : whether the history was opened over the prompt that is open;
* `Announced` : the dialog that is open says what its callback asks for, about the entry that was
  chosen last, and a busy dialog what its operation does;
* `announced_in_runs` : **in every run what is said is what is done**;
* `destructive_confirmed` : **an image or a container is deleted only after it was chosen from a
  list and a dialog that names it was confirmed.**
-/

namespace TuxDock

namespace App

open Text History Transition

/-! ### What is said -/

/-- The name in the entry that was chosen last. -/
def TuxDockApp.chosenName (a : TuxDockApp) : Bytes := (a.calls.head?.map (·.2.2)).getD []

/-- The title and the text of the prompt for a command. -/
def askCommand (title name : Bytes) : Bytes × Bytes :=
  (title, lit "Enter command to run in " ++ name ++ lit ":  (F1: history)")

/-- The title and the text of the dialog that asks for the callback. -/
def InputCallback.asks (name : Bytes) : InputCallback → Bytes × Bytes
  | pullImage => (lit "Pull Docker Image", lit "Enter image name:")
  | containerName _ => (lit "Container Name", lit "Enter a name for the container:")
  | portCount _ => (lit "Port Mappings", lit "How many port mappings? (0 for none)")
  | portMapping _ index =>
    (lit "Port Mapping",
      lit "Enter host-to-container port mapping #" ++ lit (toString (index + 1)) ++
        lit ". e.g: 8080:80.")
  | stopTimeout _ =>
    (lit "Stop Container",
      lit "Shutdown grace period in seconds for " ++ name ++ lit " (default 60, max " ++
        lit (toString kMaxStopTimeout) ++ lit "):")
  | detachedCommand => askCommand (lit "Detached Command") name
  | commandWithOutput => askCommand (lit "Command with Output") name

/-- The same of a confirmation. -/
def ConfirmCallback.asks (name : Bytes) : ConfirmCallback → Bytes × Bytes
  | deleteImage _ => (lit "Delete Image", lit "Delete image " ++ name ++ lit "?")
  | removeContainer _ => (lit "Remove Container", lit "Remove container " ++ name ++ lit "?")

/-- The same of a selection. -/
def SelectCallback.asks : SelectCallback → Bytes × Bytes
  | container callback =>
    (match callback with
      | .startDetached => lit "Start Detached"
      | .stopContainer => lit "Stop Container"
      | .removeContainer => lit "Remove Container"
      | .execShell => lit "Open Shell"
      | .execDetachedCommand => lit "Run Detached Command"
      | .execCommandWithOutput => lit "Run Command with Output",
      lit "Select a container with arrows and press Enter.")
  | image callback =>
    (match callback with
      | .runContainer => lit "Create Container"
      | .deleteImage => lit "Delete Image",
      lit "Select an image with arrows and press Enter.")

/-- The title of the busy dialog. -/
def Operation.title : Operation → Bytes
  | pullImage _ => lit "Pulling image"
  | createContainer _ _ _ => lit "Creating container"
  | startDetached _ => lit "Starting container"
  | deleteImage _ => lit "Deleting image"
  | removeContainer _ => lit "Removing container"
  | execDetachedCommand _ | execCommandWithOutput _ => lit "Running command"

/-- The title and the message of the busy dialog while the operation is still to run. -/
def ActionThread.announced : ActionThread → Option (Bytes × Bytes)
  | busy action _ => some (action.title, lit "Please wait...")
  | stop _ _ => some (lit "Stopping container", lit "Stopping and refreshing state...")
  | complete _ _ | stopped _ _ _ => none

/-- Whether the history is open, or was opened before in the prompt that is open, which the step
has not resolved. -/
def TuxDockApp.detoured (a : TuxDockApp) (before : Bool) (resolved : Option (Slot × Bool)) : Bool :=
  decide (a.modalMode = .history) ||
    before && decide (a.modalMode = .input) && resolved.isNone

/-- Whether the history was opened over the prompt that is open after a step, by whether it was
before the step. -/
def System.detoured (before : Bool) (s : System) (label : Label) (t : System) : Bool :=
  -- an exception leaves the prompt as it is
  if t.running then t.app.detoured before (s.resolution label) else before

/-- What is said is what is asked for.  Over a prompt in which the history was opened stands the
title of the history. -/
structure Announced (detoured : Bool) (a : TuxDockApp) : Prop where
  input : ∀ callback, a.inputCallback = some callback →
    a.modalText = (callback.asks a.chosenName).2 ∧
      a.modalTitle = if detoured then a.historyTitle else (callback.asks a.chosenName).1
  history : a.modalMode = .history → detoured = true ∧ a.modalTitle = a.historyTitle
  prompt : detoured = true → a.modalMode = .input ∨ a.modalMode = .history
  confirm : ∀ callback, a.confirmCallback = some callback →
    (a.modalTitle, a.modalText) = callback.asks a.chosenName
  select : ∀ callback, a.selectCallback = some callback →
    (a.modalTitle, a.modalText) = callback.asks
  threads : ∀ thread ∈ a.actionThreads, ∀ said, thread.announced = some said →
    (a.operationState.title, a.operationState.message) = said

variable {L : Json.Library} {env : Env} {a b : TuxDockApp} {o : Outside} {event : Event}
  {s t : System} {label : Label} {d : Bool}

/-! ### What is opened -/

/-- Nothing is asked and nothing is running. -/
structure Blank (a : TuxDockApp) : Prop where
  dialog : a.dialog = .closed
  threads : a.actionThreads = []

theorem Blank.setStatus (h : Blank a) (message : Bytes) : Blank (a.setStatus message) :=
  ⟨h.dialog, h.threads⟩

/-- Where no callback is set and nothing is running, nothing can be said amiss. -/
theorem announced_bare (hinput : a.inputCallback = none) (hconfirm : a.confirmCallback = none)
    (hselect : a.selectCallback = none) (hmode : a.modalMode ≠ .history)
    (hthreads : a.actionThreads = []) : Announced false a where
  input callback h := by rw [hinput] at h; cases h
  history h := absurd h hmode
  prompt h := by cases h
  confirm callback h := by rw [hconfirm] at h; cases h
  select callback h := by rw [hselect] at h; cases h
  threads thread h := by rw [hthreads] at h; cases h

theorem Blank.input (h : Blank a) : a.inputCallback = none := congrArg Dialog.input h.dialog

theorem Blank.confirm (h : Blank a) : a.confirmCallback = none := congrArg Dialog.confirm h.dialog

theorem Blank.select (h : Blank a) : a.selectCallback = none := congrArg Dialog.select h.dialog

theorem Blank.announced (h : Blank a) : Announced false a := by
  have hmode : a.modalMode = .none := congrArg Dialog.mode h.dialog
  exact announced_bare h.input h.confirm h.select (by simp [hmode]) h.threads

theorem Blank.openMessage (h : Blank a) (title text : Bytes) :
    Announced false (a.openMessage title text) :=
  announced_bare h.input h.confirm h.select (by simp [TuxDockApp.openMessage]) h.threads

theorem Blank.openListMessage (h : Blank a) (title : Bytes) (content : Element) :
    Announced false (a.openListMessage title content) :=
  announced_bare h.input h.confirm h.select (by simp [TuxDockApp.openListMessage]) h.threads

theorem Blank.openInput {callback : InputCallback} {title text initialValue : Bytes} (h : Blank a)
    (hasks : callback.asks a.chosenName = (title, text)) :
    Announced false (a.openInput title text callback initialValue) where
  input callback' hcallback' := by
    cases hcallback'
    exact ⟨(congrArg Prod.snd hasks).symm, (congrArg Prod.fst hasks).symm⟩
  history hmode := by cases hmode
  prompt h := by cases h
  confirm callback' hcallback' := absurd (h.confirm.symm.trans hcallback') (by simp)
  select callback' hcallback' := absurd (h.select.symm.trans hcallback') (by simp)
  threads := h.announced.threads

theorem Blank.openConfirm {callback : ConfirmCallback} {title text : Bytes} (h : Blank a)
    (hasks : callback.asks a.chosenName = (title, text)) :
    Announced false (a.openConfirm title text callback) where
  input callback' hcallback' := absurd (h.input.symm.trans hcallback') (by simp)
  history hmode := by cases hmode
  prompt h := by cases h
  confirm callback' hcallback' := by
    cases hcallback'
    exact hasks.symm
  select callback' hcallback' := absurd (h.select.symm.trans hcallback') (by simp)
  threads := h.announced.threads

theorem Blank.openSelect {callback : SelectCallback} {title text : Bytes} (h : Blank a)
    (options : List Bytes) (hasks : callback.asks = (title, text)) :
    Announced false (a.openSelect title text options callback) where
  input callback' hcallback' := absurd (h.input.symm.trans hcallback') (by simp)
  history hmode := by cases hmode
  prompt h := by cases h
  confirm callback' hcallback' := absurd (h.confirm.symm.trans hcallback') (by simp)
  select callback' hcallback' := by
    cases hcallback'
    exact hasks.symm
  threads := h.announced.threads

theorem Blank.beginOperation {thread : ActionThread} {title message : Bytes} (h : Blank a)
    (hwords : thread.announced = some (title, message)) :
    Announced false (a.beginOperation title message thread) where
  input callback hcallback := absurd (h.input.symm.trans hcallback) (by simp)
  history hmode := by cases hmode
  prompt h := by cases h
  confirm callback hcallback := absurd (h.confirm.symm.trans hcallback) (by simp)
  select callback hcallback := absurd (h.select.symm.trans hcallback) (by simp)
  threads thread' hmem said hsaid := by
    simp only [TuxDockApp.beginOperation, h.threads, List.nil_append, List.mem_singleton] at hmem
    rw [hmem, hwords] at hsaid
    exact Option.some.inj hsaid

/-! ### Callbacks -/

theorem Blank.promptNextPort (h : Blank a) (context : RunContainerContext) (index : ℤ) :
    Announced false (a.promptNextPort context index) := by
  unfold TuxDockApp.promptNextPort
  split_ifs
  · exact h.beginOperation rfl
  · exact h.openInput rfl

theorem InputCallback.announced_run {callback : InputCallback} {ok : Bool} {value : Bytes}
    (hblank : Blank a) (h : callback.run L env o ok value a = .ok b) : Announced false b := by
  cases run_cases h with
  | canceled => exact hblank.announced
  | refused callback message => exact (hblank.setStatus message).announced
  | pull | stop => exact hblank.beginOperation rfl
  | named context => exact hblank.openInput rfl
  | counted | mapped => exact hblank.promptNextPort _ _
  | detached file | output file =>
    have hfile : Blank { a with historyFile := file } := ⟨hblank.dialog, hblank.threads⟩
    exact hfile.beginOperation rfl

theorem ConfirmCallback.announced_run (callback : ConfirmCallback) (hblank : Blank a) (ok : Bool) :
    Announced false (callback.run ok a) := by
  unfold ConfirmCallback.run
  split_ifs
  · exact hblank.announced
  · cases callback with
    | deleteImage id | removeContainer id => exact hblank.beginOperation rfl

theorem ContainerCallback.announced_run (callback : ContainerCallback) (hblank : Blank a)
    (o : Outside) (id : Bytes) : Announced false (callback.run o id a.chosenName a) := by
  cases callback with
  | startDetached => exact hblank.beginOperation rfl
  | stopContainer => exact hblank.openInput rfl
  | removeContainer => exact hblank.openConfirm rfl
  | execShell => exact (hblank.setStatus _).announced
  | execDetachedCommand | execCommandWithOutput =>
    have hnamed : Blank
        { a with historyContainerId := id, historyContainerName := a.chosenName } :=
      ⟨hblank.dialog, hblank.threads⟩
    exact hnamed.openInput rfl

theorem ImageCallback.announced_run (callback : ImageCallback) (hblank : Blank a) (id : Bytes) :
    Announced false (callback.run id a.chosenName a) := by
  cases callback with
  | runContainer => exact hblank.openInput rfl
  | deleteImage => exact hblank.openConfirm rfl

/-- **A callback of a selection** names the entry it is called with. -/
theorem SelectCallback.announced_run (callback : SelectCallback) (hblank : Blank a) (o : Outside)
    (ok : Bool) (selected : ℤ) : Announced false (callback.run o ok selected a) := by
  unfold SelectCallback.run
  split_ifs
  · exact (hblank.setStatus _).announced
  · exact (hblank.setStatus _).announced
  · split
    · rename_i entry hentry
      have hcalled : Blank { a with calls := (callback, entry) :: a.calls } :=
        ⟨hblank.dialog, hblank.threads⟩
      cases callback with
      | container callback => exact callback.announced_run hcalled o entry.1
      | image callback => exact callback.announced_run hcalled entry.1
    · exact hblank.announced

theorem Callback.announced_run {callback : Callback} {confirmed : Bool} {c : TuxDockApp}
    (hblank : Blank b) (h : callback.run L env o confirmed a b = .ok c) : Announced false c := by
  cases callback with
  | input callback => exact InputCallback.announced_run hblank h
  | confirm callback =>
    cases h
    exact callback.announced_run hblank confirmed
  | select callback =>
    cases h
    exact callback.announced_run hblank o confirmed _

/-! ### The menu -/

theorem Blank.refreshState {message : Bytes} (hblank : Blank a)
    (h : a.refreshState message = .ok b) : Announced false b := by
  unfold TuxDockApp.refreshState at h
  split at h <;> cases h
  have hstarted : Blank { a.setStatus message with refreshThread := some .start } :=
    ⟨hblank.dialog, hblank.threads⟩
  exact hstarted.announced

theorem Blank.promptContainerSelection {title : Bytes} {callback : ContainerCallback}
    (hblank : Blank a) (h : a.promptContainerSelection title callback = .ok b)
    (htitle : (SelectCallback.container callback).asks.1 = title) : Announced false b := by
  unfold TuxDockApp.promptContainerSelection at h
  split_ifs at h
  · exact hblank.refreshState h
  · cases h
    exact hblank.openSelect _ (Prod.ext htitle rfl)

theorem Blank.promptImageSelection {title : Bytes} {callback : ImageCallback}
    (hblank : Blank a) (h : a.promptImageSelection title callback = .ok b)
    (htitle : (SelectCallback.image callback).asks.1 = title) : Announced false b := by
  unfold TuxDockApp.promptImageSelection at h
  split_ifs at h
  · exact hblank.refreshState h
  · cases h
    exact hblank.openSelect _ (Prod.ext htitle rfl)

theorem Blank.executeSelectedAction (hblank : Blank a) (h : a.executeSelectedAction = .ok b) :
    Announced false b := by
  unfold TuxDockApp.executeSelectedAction at h
  split at h
  case h_2 | h_6 => exact hblank.promptImageSelection h rfl
  case h_5 | h_7 | h_8 | h_9 | h_10 | h_11 => exact hblank.promptContainerSelection h rfl
  case h_1 =>
    cases h
    exact hblank.openInput rfl
  case h_3 | h_4 =>
    cases h
    split_ifs
    · exact hblank.openMessage _ _
    · exact hblank.openListMessage _ _
  case h_12 =>
    cases h
    exact hblank.openMessage _ _
  case h_13 => cases h
  case h_14 =>
    cases h
    exact hblank.announced

/-! ### Steps -/

theorem blank_of_mode (hsettled : Settled a.dialog) (hmode : a.modalMode = .none)
    (hthreads : a.actionThreads = []) : Blank a := by
  have hclosed := hsettled.eq_closed (.inl hmode)
  rw [show a.dialog.mode = .none from hmode] at hclosed
  exact ⟨hclosed, hthreads⟩

theorem blank_close {k : Slot} {confirmed : Bool} (hsettled : Settled a.dialog)
    (hthreads : a.actionThreads = []) (hres : a.resolution event = some (k, confirmed)) :
    Blank (a.close k) := by
  have hsame : (a.close k).actionThreads = a.actionThreads :=
    congrArg Shared.actionThreads (shared_close a k)
  exact ⟨dialog_close hsettled hres, hsame.trans hthreads⟩

/-- Nothing that is said is changed, nor what it is about. -/
structure SameWords (a b : TuxDockApp) : Prop where
  title : b.modalTitle = a.modalTitle
  text : b.modalText = a.modalText
  name : b.chosenName = a.chosenName
  history : b.historyTitle = a.historyTitle
  input : b.inputCallback = a.inputCallback
  confirm : b.confirmCallback = a.confirmCallback
  select : b.selectCallback = a.selectCallback
  mode : b.modalMode = .history → a.modalMode = .history
  state : b.operationState = a.operationState
  threads : ∀ thread ∈ b.actionThreads, thread ∈ a.actionThreads ∨ thread.announced = none

/-- What is opened afresh is no detour. -/
theorem Announced.afresh {resolved : Option (Slot × Bool)} (h : Announced false b)
    (hnew : d = true → resolved = none → b.modalMode ≠ .input) :
    Announced (b.detoured d resolved) b := by
  have hfalse : b.detoured d resolved = false := by
    have hhistory : b.modalMode ≠ .history := fun hmode => Bool.false_ne_true (h.history hmode).1
    rw [TuxDockApp.detoured, decide_eq_false hhistory, Bool.false_or]
    cases d with
    | false => rfl
    | true =>
      cases resolved with
      | some resolved => exact Bool.and_false _
      | none => rw [decide_eq_false (hnew rfl rfl), Bool.and_false, Bool.false_and]
  rwa [hfalse]

/-- A prompt that stays open stays a detour, or none. -/
theorem Announced.sameWords (h : Announced d a) (hwords : SameWords a b)
    (hafter : Settled b.dialog) : Announced (b.detoured d none) b where
  input callback hcallback := by
    have hd : b.detoured d none = d := by
      rcases hafter.input.1 (Option.isSome_of_eq_some hcallback) with hmode | hmode
      · simp [TuxDockApp.detoured, show b.modalMode = .input from hmode]
      · have hmode : b.modalMode = .history := hmode
        simp [TuxDockApp.detoured, hmode, (h.history (hwords.mode hmode)).1]
    rw [hd, hwords.title, hwords.text, hwords.name, hwords.history]
    exact h.input callback (hwords.input ▸ hcallback)
  history hmode := by
    refine ⟨by simp [TuxDockApp.detoured, hmode], ?_⟩
    rw [hwords.title, hwords.history]
    exact (h.history (hwords.mode hmode)).2
  prompt hd := by
    simp only [TuxDockApp.detoured, Bool.or_eq_true, Bool.and_eq_true, decide_eq_true_eq] at hd
    rcases hd with hmode | ⟨⟨-, hmode⟩, -⟩
    · exact .inr hmode
    · exact .inl hmode
  confirm callback hcallback := by
    rw [hwords.title, hwords.text, hwords.name]
    exact h.confirm callback (hwords.confirm ▸ hcallback)
  select callback hcallback := by
    rw [hwords.title, hwords.text]
    exact h.select callback (hwords.select ▸ hcallback)
  threads thread hmem said hsaid := by
    rw [hwords.state]
    rcases hwords.threads thread hmem with hold | hnone
    · exact h.threads thread hold said hsaid
    · rw [hnone] at hsaid
      cases hsaid

theorem SameWords.of_eq (htitle : b.modalTitle = a.modalTitle) (htext : b.modalText = a.modalText)
    (hcalls : b.calls = a.calls) (hname : b.historyContainerName = a.historyContainerName)
    (hcallbacks : (b.inputCallback, b.confirmCallback, b.selectCallback) =
      (a.inputCallback, a.confirmCallback, a.selectCallback))
    (hmode : b.modalMode = .history → a.modalMode = .history)
    (hstate : b.operationState = a.operationState) (hthreads : b.actionThreads = a.actionThreads) :
    SameWords a b where
  title := htitle
  text := htext
  name := by rw [TuxDockApp.chosenName, hcalls, TuxDockApp.chosenName]
  history := by rw [TuxDockApp.historyTitle, hname, TuxDockApp.historyTitle]
  input := congrArg (·.1) hcallbacks
  confirm := congrArg (·.2.1) hcallbacks
  select := congrArg (·.2.2) hcallbacks
  mode := hmode
  state := hstate
  threads thread hmem := .inl (hthreads ▸ hmem)

theorem sameWords_resolveHistory (L : Json.Library) (env : Env) (hmode : a.modalMode = .history) :
    SameWords a (a.resolveHistory L env) := by
  unfold TuxDockApp.resolveHistory
  simp only
  split_ifs
  · exact .of_eq rfl rfl rfl rfl rfl (fun _ => hmode) rfl rfl
  · exact .of_eq rfl rfl rfl rfl rfl (fun _ => hmode) rfl rfl
  · split <;> exact .of_eq rfl rfl rfl rfl rfl (fun _ => hmode) rfl rfl

theorem Announced.openHistory (h : Announced d a) (hsettled : Settled a.dialog)
    (hmode : a.modalMode = .input) : Announced true (a.openHistory L env) where
  input callback hcallback := ⟨(h.input callback hcallback).1, rfl⟩
  history _ := ⟨rfl, rfl⟩
  prompt _ := .inr rfl
  confirm callback hcallback := by
    have hconfirm := hsettled.confirm.1 (Option.isSome_of_eq_some hcallback)
    exact absurd (hmode.symm.trans hconfirm) (by simp)
  select callback hcallback := by
    have hselect := hsettled.select.1 (Option.isSome_of_eq_some hcallback)
    exact absurd (hmode.symm.trans hselect) (by simp)
  threads := h.threads

/-- **What is said after an event.** -/
theorem Announced.onEvent (h : Announced d a) (hsettled : Settled a.dialog)
    (hafter : Settled b.dialog) (hquiet : a.modalMode ≠ .busy → a.actionThreads = [])
    (hevent : a.onEvent L env event o = .ok b) :
    Announced (b.detoured d (a.resolution event)) b := by
  cases hres : a.resolution event with
  | some resolved =>
    obtain ⟨k, confirmed⟩ := resolved
    have hmode : a.modalMode ≠ .busy := by
      rw [mode_of_resolution hres]
      cases k <;> simp [Slot.mode]
    have hblank := blank_close hsettled (hquiet hmode) hres
    rw [onEvent_eq_resolve hres] at hevent
    cases hslot : a.slot k with
    | none =>
      rw [resolve_of_none hslot] at hevent
      cases hevent
      exact hblank.announced.afresh (by simp)
    | some callback =>
      rw [resolve_of_some hslot] at hevent
      exact (Callback.announced_run hblank hevent).afresh (by simp)
  | none =>
    have hsame (hwords : SameWords a b) : Announced (b.detoured d none) b :=
      h.sameWords hwords hafter
    unfold TuxDockApp.onEvent at hevent
    split at hevent
    case h_1 =>
      cases hevent
      exact hsame (.of_eq rfl rfl rfl rfl rfl id rfl rfl)
    case h_2 hm =>
      cases event with
      | ret | escape => simp [TuxDockApp.resolution, hm] at hres
      | f1 =>
        cases hevent
        exact h.openHistory hsettled hm
      | yes | no | other =>
        cases hevent
        exact hsame (.of_eq rfl rfl rfl rfl rfl id rfl rfl)
    case h_3 hm =>
      cases hevent
      cases event with
      | ret => exact hsame (sameWords_resolveHistory L env hm)
      | escape => exact hsame (.of_eq rfl rfl rfl rfl rfl (fun _ => hm) rfl rfl)
      | f1 | yes | no | other => exact hsame (.of_eq rfl rfl rfl rfl rfl id rfl rfl)
    case h_4 hm =>
      cases hevent
      cases event with
      | ret | escape | yes | no => simp [TuxDockApp.resolution, hm] at hres
      | f1 | other => exact hsame (.of_eq rfl rfl rfl rfl rfl id rfl rfl)
    case h_5 hm =>
      cases hevent
      cases event with
      | ret | escape => simp [TuxDockApp.resolution, hm] at hres
      | f1 | yes | no | other => exact hsame (.of_eq rfl rfl rfl rfl rfl id rfl rfl)
    case h_6 hm =>
      cases hevent
      cases event with
      | ret | escape =>
        exact hsame (.of_eq rfl rfl rfl rfl rfl (by simp [TuxDockApp.onMessageEvent,
          TuxDockApp.closeMessage]) rfl rfl)
      | f1 | yes | no | other => exact hsame (.of_eq rfl rfl rfl rfl rfl id rfl rfl)
    case h_7 hm =>
      cases event with
      | ret =>
        have hblank := blank_of_mode hsettled hm (hquiet (by simp [hm]))
        refine (hblank.executeSelectedAction hevent).afresh ?_
        -- in the menu there is no prompt
        intro hd
        have hprompt := h.prompt hd
        simp [hm] at hprompt
      | escape | f1 | yes | no | other =>
        cases hevent
        exact hsame (.of_eq rfl rfl rfl rfl rfl id rfl rfl)

theorem announced_none_of_over {thread : ActionThread} (h : thread.Over) :
    thread.announced = none := by
  cases h <;> rfl

/-- The threads go their steps behind the dialog. -/
theorem sameWords_withThreads (a : TuxDockApp) (poller : Poller) (refresh : Option Fetch)
    {actions : List ActionThread}
    (hactions : ∀ thread ∈ actions, thread ∈ a.actionThreads ∨ thread.Over) :
    SameWords a (a.withThreads poller refresh actions) where
  title := rfl
  text := rfl
  name := rfl
  history := rfl
  input := rfl
  confirm := rfl
  select := rfl
  mode := id
  state := rfl
  threads thread hmem := (hactions thread hmem).imp id announced_none_of_over

theorem sameWords_setFetch (a : TuxDockApp) (fetch : Fetch) (w : Worker) :
    SameWords a (a.setFetch fetch w) := by
  have hthreads := (keeps_setFetch fetch w a).threads
  obtain ⟨poller, refresh, actions, heq, -⟩ := setFetch_cases a fetch w
  rw [heq] at hthreads ⊢
  exact sameWords_withThreads a poller refresh hthreads

/-- A closure that is delivered shows its message, or changes the lists. -/
theorem Announced.run (h : Announced d a) (hsettled : Settled a.dialog) (post : Post)
    (hafter : Settled (post.run a).dialog)
    (hdone : post.isCompletion = true → a.modalMode = .busy ∧ a.actionThreads = []) :
    Announced ((post.run a).detoured d none) (post.run a) := by
  have hbare {b : TuxDockApp} (hcompletes : post.isCompletion = true)
      (hdialog : b.dialog = { a.dialog with mode := .message })
      (hthreads : b.actionThreads = a.actionThreads) : Announced (b.detoured d none) b := by
    obtain ⟨hmode, hempty⟩ := hdone hcompletes
    have hclosed := hsettled.eq_closed (.inr (.inr hmode))
    rw [hclosed] at hdialog
    have hmessage : b.modalMode = .message := congrArg Dialog.mode hdialog
    have hfresh : Announced false b := by
      refine announced_bare ?_ ?_ ?_ ?_ (hthreads.trans hempty)
      · exact congrArg Dialog.input hdialog
      · exact congrArg Dialog.confirm hdialog
      · exact congrArg Dialog.select hdialog
      · simp [hmessage]
    exact hfresh.afresh (by simp [hmessage])
  cases post with
  | poll containers images | refresh containers images =>
    exact h.sameWords (.of_eq rfl rfl rfl rfl rfl id rfl rfl) hafter
  | complete message onComplete =>
    refine hbare rfl ?_ (actionThreads_run _ a)
    exact dialog_run (.complete message onComplete) a
  | stopped success message containers images => exact hbare rfl rfl rfl

/-- **What is said**: a step preserves it. -/
theorem Announced.advance (h : Announced d s.app) (hone : OneOperation s)
    (hsettled : Settled s.app.dialog) (hrunning : s.running = true)
    (hadvance : App.advance L env s label = some t) :
    Announced (s.detoured d label t) t.app := by
  have hafter : Settled t.app.dialog := hsettled.advance hone hadvance
  -- the step of a thread, and a delivery that is no completion
  have hsame (hlabel : s.resolution label = none) (hstill : t.running = true)
      (hwords : SameWords s.app t.app) : Announced (s.detoured d label t) t.app := by
    rw [System.detoured, if_pos hstill, hlabel]
    exact h.sameWords hwords hafter
  cases advance_cases hadvance with
  | event event o a handled =>
    rw [System.detoured, if_pos hrunning]
    exact h.onEvent hsettled hafter (fun hmode => (hone.quiet hmode).1) handled
  | halt event o halt handled ends => exact h
  | deliver p queue next =>
    rw [System.detoured, if_pos hrunning]
    refine h.run hsettled p.post hafter fun hcompletes => ?_
    have houtstanding := hone.outstanding
    rw [next, List.countP_cons, hcompletes, if_pos rfl] at houtstanding
    split_ifs at houtstanding with hmode
    · exact ⟨hmode, List.length_eq_zero_iff.1 (by omega)⟩
  | wake waits => exact hsame rfl hrunning (.of_eq rfl rfl rfl rfl rfl id rfl rfl)
  | act k outcome old new runs acts =>
    refine hsame rfl hrunning
      (sameWords_withThreads s.app s.app.statePoller s.app.refreshThread ?_)
    exact (keeps_set (ActionThread.over_of_act acts) s.app).threads
  | fetchContainers w result starts => exact hsame rfl hrunning (sameWords_setFetch s.app _ w)
  | fetchImages w result containers fetched =>
    exact hsame rfl hrunning (sameWords_setFetch s.app _ w)
  | post w post a posts =>
    have hthreads := (keeps_post posts).threads
    obtain ⟨poller, refresh, actions, rfl, -⟩ := post_cases posts
    exact hsame rfl hrunning (sameWords_withThreads s.app poller refresh hthreads)

/-! ### Runs -/

/-- What is said, and what is open and running, along a run. -/
structure Spoken (detoured : Bool) (s : System) : Prop where
  tracked : Tracked [] s
  announced : Announced detoured s.app

theorem Spoken.step (h : Spoken d s) (hstep : App.step L env s label = some t) :
    Spoken (s.detoured d label t) t := by
  refine ⟨h.tracked.step hstep, ?_⟩
  obtain ⟨hrunning, u, hu, rfl⟩ := advance_of_step hstep
  have hsaid : Announced (s.detoured d label u) u.app :=
    h.announced.advance h.tracked.one h.tracked.settled hrunning hu
  exact hsaid

theorem spoken_exec {historyFile : Option Bytes} {containers : ListResult ContainerInfo}
    {images : ListResult ImageInfo} {labels : List Label}
    (hrun : exec (step L env) (boot historyFile containers images) labels = some s) :
    Spoken (noted (step L env) System.detoured false (boot historyFile containers images) labels)
      s := by
  have hstep : ∀ (d : Bool) (s : System) (label : Label) (t : System), Spoken d s →
      step L env s label = some t → Spoken (s.detoured d label t) t := by
    intro d s label t h hstep
    exact h.step hstep
  refine exec_noted hstep ⟨.boot historyFile containers images, ?_⟩ hrun
  exact announced_bare rfl rfl rfl (by simp [boot, TuxDockApp.initial]) rfl

/-- **What is said is what is done.**  In every state that a run from the start of the application
reaches: the title and the text of the dialog that is open are those of the callback that it
confirms, with the name of the entry that was chosen last, but a prompt over which the history was
opened has the title of the history; and the title and the message of a busy dialog are those of
the operation that is about to run. -/
theorem announced_in_runs (L : Json.Library) (env : Env) (historyFile : Option Bytes)
    (containers : ListResult ContainerInfo) (images : ListResult ImageInfo) (labels : List Label)
    (s : System) (hrun : exec (step L env) (boot historyFile containers images) labels = some s) :
    Announced
      (noted (step L env) System.detoured false (boot historyFile containers images) labels)
      s.app :=
  (spoken_exec hrun).announced

/-- The prompt for an image, with the history opened in it and left. -/
def glancing : List Label := [.event .ret still, .event .f1 still, .event .escape still]

/-- The prompt is a detour from then on, and is none before. -/
theorem announced_glancing :
    Announced (noted (step layoutLibrary goodEnv) System.detoured false
        (boot none ⟨[], []⟩ ⟨[], []⟩) glancing)
      (after (boot none ⟨[], []⟩ ⟨[], []⟩) glancing).app ∧
    noted (step layoutLibrary goodEnv) System.detoured false (boot none ⟨[], []⟩ ⟨[], []⟩)
      glancing = true ∧
    noted (step layoutLibrary goodEnv) System.detoured false (boot none ⟨[], []⟩ ⟨[], []⟩)
      (glancing.take 1) = false := by
  refine ⟨?_, by decide +kernel, by decide +kernel⟩
  refine announced_in_runs layoutLibrary goodEnv none ⟨[], []⟩ ⟨[], []⟩ glancing _ ?_
  decide +kernel

/-! ### What is deleted -/

/-- The selection that the callback was set by. -/
def ConfirmCallback.selection : ConfirmCallback → SelectCallback
  | deleteImage _ => .image .deleteImage
  | removeContainer _ => .container .removeContainer

/-- What the callback deletes. -/
def ConfirmCallback.id : ConfirmCallback → Bytes
  | deleteImage id | removeContainer id => id

/-- The callback that begins such an operation. -/
def Operation.confirmed : Operation → Option ConfirmCallback
  | deleteImage id => some (.deleteImage id)
  | removeContainer id => some (.removeContainer id)
  | _ => none

/-- The callback that begins a thread that deletes something. -/
def ActionThread.confirmed : ActionThread → Option ConfirmCallback
  | busy action _ => action.confirmed
  | _ => none

/-- In this run the entry was chosen from the list that was cached then, by Return in the dialog of
the selection. -/
def ChosenIn (L : Json.Library) (env : Env) (start : System) (labels : List Label)
    (selection : Selection) : Prop :=
  ∃ before o after s, labels = before ++ .event .ret o :: after ∧
    exec (step L env) start before = some s ∧ s.app.modalMode = .select ∧
    s.app.selectCallback = some selection.1 ∧
    (selection.1.entries s.app)[s.app.modalSelectIndex.toNat]? = some selection.2

theorem entries_close (a : TuxDockApp) (k : Slot) (callback : SelectCallback) :
    callback.entries (a.close k) = callback.entries a := by
  cases k <;> cases callback <;> rfl

theorem calls_close (a : TuxDockApp) (k : Slot) : (a.close k).calls = a.calls := by
  cases k <;> rfl

theorem InputCallback.calls_run {callback : InputCallback} {ok : Bool} {value : Bytes}
    (h : callback.run L env o ok value a = .ok b) : b.calls = a.calls := by
  cases run_cases h with
  | canceled | refused | pull | named | stop | detached | output => rfl
  | counted | mapped =>
    unfold TuxDockApp.promptNextPort
    split_ifs <;> rfl

theorem ConfirmCallback.calls_run (callback : ConfirmCallback) (ok : Bool) (a : TuxDockApp) :
    (callback.run ok a).calls = a.calls := by
  unfold ConfirmCallback.run
  split_ifs
  · rfl
  · cases callback <;> rfl

/-- Return in a selection records the entry on its line, or nothing. -/
theorem calls_resolve_select {confirmed : Bool} {callback : SelectCallback}
    (hidle : Idle (a.close .select)) :
    (callback.run o confirmed a.modalSelectIndex (a.close .select)).calls = a.calls ∨
      ∃ entry, confirmed = true ∧
        (callback.entries a)[a.modalSelectIndex.toNat]? = some entry ∧
        (callback.run o confirmed a.modalSelectIndex (a.close .select)).calls =
          (callback, entry) :: a.calls := by
  cases confirmed with
  | false => exact .inl rfl
  | true =>
    rcases callback.about_run hidle o true a.modalSelectIndex with
      ⟨hsame, -⟩ | ⟨entry, hentry, hcalled, -⟩
    · exact .inl hsame
    · exact .inr ⟨entry, rfl, entries_close a .select callback ▸ hentry, hcalled⟩

theorem ret_of_resolution_select (h : a.resolution event = some (.select, true)) :
    event = .ret := by
  unfold TuxDockApp.resolution at h
  split at h <;> cases h
  rfl

/-- **A selection is recorded by Return in its dialog.** -/
theorem calls_onEvent (hsettled : Settled a.dialog)
    (hthreads : a.modalMode ≠ .busy → a.actionThreads = [])
    (hevent : a.onEvent L env event o = .ok b) :
    b.calls = a.calls ∨ ∃ selection : Selection, event = .ret ∧ a.modalMode = .select ∧
      a.selectCallback = some selection.1 ∧
      (selection.1.entries a)[a.modalSelectIndex.toNat]? = some selection.2 ∧
      b.calls = selection :: a.calls := by
  cases hres : a.resolution event with
  | none => exact .inl (keeps_onEvent hres hevent).calls
  | some resolved =>
    obtain ⟨k, confirmed⟩ := resolved
    have hmode := mode_of_resolution hres
    have hbusy : a.modalMode ≠ .busy := by
      rw [hmode]
      cases k <;> simp [Slot.mode]
    have hidle := idle_close hsettled (hthreads hbusy) hres
    rw [onEvent_eq_resolve hres] at hevent
    cases hslot : a.slot k with
    | none =>
      rw [resolve_of_none hslot] at hevent
      cases hevent
      exact .inl (calls_close a k)
    | some callback =>
      rw [resolve_of_some hslot] at hevent
      cases k with
      | input =>
        obtain ⟨callback, -, rfl⟩ := Option.map_eq_some_iff.1 hslot
        exact .inl ((InputCallback.calls_run hevent).trans (calls_close a .input))
      | confirm =>
        obtain ⟨callback, -, rfl⟩ := Option.map_eq_some_iff.1 hslot
        cases hevent
        exact .inl ((callback.calls_run confirmed _).trans (calls_close a .confirm))
      | select =>
        obtain ⟨callback, hcallback, rfl⟩ := Option.map_eq_some_iff.1 hslot
        cases hevent
        rcases calls_resolve_select hidle
          with hsame | ⟨entry, hconfirmed, hentry, hcalled⟩
        · exact .inl hsame
        · refine .inr ⟨(callback, entry), ?_, hmode, hcallback, hentry, hcalled⟩
          exact ret_of_resolution_select (hconfirmed ▸ hres)

theorem calls_advance (hspoken : Spoken d s) (hadvance : App.advance L env s label = some t) :
    t.app.calls = s.app.calls ∨ ∃ (o : Outside) (selection : Selection), label = .event .ret o ∧
      s.app.modalMode = .select ∧ s.app.selectCallback = some selection.1 ∧
      (selection.1.entries s.app)[s.app.modalSelectIndex.toNat]? = some selection.2 ∧
      t.app.calls = selection :: s.app.calls := by
  cases advance_cases hadvance with
  | event event o a handled =>
    rcases calls_onEvent hspoken.tracked.settled (fun hmode => (hspoken.tracked.one.quiet hmode).1)
      handled with hsame | ⟨selection, rfl, hrest⟩
    · exact .inl hsame
    · exact .inr ⟨o, selection, rfl, hrest⟩
  | halt event o halt handled ends => exact .inl rfl
  | deliver p queue next => exact .inl (keeps_run p.post s.app).calls
  | wake waits => exact .inl rfl
  | act k outcome old new runs acts => exact .inl rfl
  | fetchContainers w result starts | fetchImages w result containers fetched =>
    exact .inl (keeps_setFetch _ w s.app).calls
  | post w post a posts => exact .inl (keeps_post posts).calls

theorem ChosenIn.append {start : System} {labels : List Label} {selection : Selection}
    (h : ChosenIn L env start labels selection) (label : Label) :
    ChosenIn L env start (labels ++ [label]) selection := by
  obtain ⟨before, o, after, s, rfl, hrun⟩ := h
  refine ⟨before, o, after ++ [label], s, ?_, hrun⟩
  rw [List.append_assoc, List.cons_append]

/-- **What is recorded was chosen.** -/
theorem chosen_of_mem_calls {historyFile : Option Bytes} {containers : ListResult ContainerInfo}
    {images : ListResult ImageInfo} {labels : List Label}
    (hrun : exec (step L env) (boot historyFile containers images) labels = some s) :
    ∀ selection ∈ s.app.calls,
      ChosenIn L env (boot historyFile containers images) labels selection := by
  have hstep : ∀ labels s label t,
      (exec (step L env) (boot historyFile containers images) labels = some s ∧
        ∀ selection ∈ s.app.calls,
          ChosenIn L env (boot historyFile containers images) labels selection) →
      True → step L env s label = some t →
      exec (step L env) (boot historyFile containers images) (labels ++ [label]) = some t ∧
        ∀ selection ∈ t.app.calls,
          ChosenIn L env (boot historyFile containers images) (labels ++ [label]) selection := by
    rintro labels s label t ⟨hrun, hchosen⟩ - hstep
    refine ⟨?_, ?_⟩
    · rw [exec_append, hrun, Option.bind_some, exec_cons, hstep]
      rfl
    · obtain ⟨-, u, hu, rfl⟩ := advance_of_step hstep
      intro selection hmem
      rcases calls_advance (spoken_exec hrun) hu with
        hsame | ⟨o, newest, rfl, hmode, hcallback, hentry, hcalls⟩
      · rw [show u.app.calls = s.app.calls from hsame] at hmem
        exact (hchosen selection hmem).append label
      · rw [show u.app.calls = newest :: s.app.calls from hcalls] at hmem
        rcases List.mem_cons.1 hmem with rfl | hold
        · exact ⟨labels, o, [], s, rfl, hrun, hmode, hcallback, hentry⟩
        · exact (hchosen selection hold).append _
  refine (exec_labels hstep ⟨rfl, ?_⟩ (stepsMeet_true _ labels) hrun).2
  simp [boot, TuxDockApp.initial]

/-! ### Confirmations -/

/-- No thread deletes anything. -/
def Harmless (a : TuxDockApp) : Prop := ∀ thread ∈ a.actionThreads, thread.confirmed = none

theorem Harmless.beginOperation {thread : ActionThread} {title message : Bytes} (h : Harmless a)
    (hthread : thread.confirmed = none) : Harmless (a.beginOperation title message thread) := by
  intro thread' hmem
  simp only [TuxDockApp.beginOperation, List.mem_append, List.mem_singleton] at hmem
  rcases hmem with hold | rfl
  · exact h thread' hold
  · exact hthread

theorem InputCallback.harmless_run {callback : InputCallback} {ok : Bool} {value : Bytes}
    (ha : Harmless a) (h : callback.run L env o ok value a = .ok b) : Harmless b := by
  cases run_cases h with
  | canceled | refused | named => exact ha
  | pull | stop => exact ha.beginOperation rfl
  | detached file | output file =>
    have hfile : Harmless { a with historyFile := file } := ha
    exact hfile.beginOperation rfl
  | counted | mapped =>
    unfold TuxDockApp.promptNextPort
    split_ifs
    · exact ha.beginOperation rfl
    · exact ha

theorem SelectCallback.harmless_run (callback : SelectCallback) (ha : Harmless a) (o : Outside)
    (ok : Bool) (selected : ℤ) : Harmless (callback.run o ok selected a) := by
  unfold SelectCallback.run
  split_ifs
  · exact ha
  · exact ha
  · split
    · rename_i entry hentry
      have hcalled : Harmless { a with calls := (callback, entry) :: a.calls } := ha
      cases callback with
      | container callback =>
        cases callback with
        | startDetached => exact hcalled.beginOperation rfl
        | stopContainer | removeContainer | execShell => exact hcalled
        | execDetachedCommand | execCommandWithOutput => exact hcalled
      | image callback => cases callback <;> exact hcalled
    · exact ha

theorem confirmed_of_over {thread : ActionThread} (h : thread.Over) : thread.confirmed = none := by
  cases h <;> rfl

/-- A confirmation begins its own operation. -/
theorem ConfirmCallback.of_run {callback callback' : ConfirmCallback} {ok : Bool}
    {thread : ActionThread} (ha : a.actionThreads = [])
    (hmem : thread ∈ (callback.run ok a).actionThreads)
    (hthread : thread.confirmed = some callback') : ok = true ∧ callback = callback' := by
  cases ok with
  | false =>
    simp [ConfirmCallback.run, ha] at hmem
  | true =>
    refine ⟨rfl, ?_⟩
    cases callback with
    | deleteImage id | removeContainer id =>
      simp only [ConfirmCallback.run, TuxDockApp.beginBusyOperation, TuxDockApp.beginOperation, ha,
        List.nil_append, Bool.true_eq_false, if_false, List.mem_singleton] at hmem
      subst hmem
      exact Option.some.inj hthread

theorem confirms_of_resolution (h : a.resolution event = some (.confirm, true)) :
    event = .ret ∨ event = .yes := by
  unfold TuxDockApp.resolution at h
  split at h <;> cases h
  · exact .inl rfl
  · exact .inr rfl

/-- **A deletion is begun by confirming it.** -/
theorem confirm_of_onEvent {callback : ConfirmCallback} {thread : ActionThread}
    (hthreads : a.actionThreads = []) (hevent : a.onEvent L env event o = .ok b)
    (hmem : thread ∈ b.actionThreads) (hthread : thread.confirmed = some callback) :
    (event = .ret ∨ event = .yes) ∧ a.modalMode = .confirm ∧
      a.confirmCallback = some callback := by
  have hharmless : ¬ Harmless b := fun h => by simp [h thread hmem] at hthread
  cases hres : a.resolution event with
  | none =>
    refine absurd ?_ hharmless
    intro thread' hmem'
    rcases (keeps_onEvent hres hevent).threads thread' hmem' with hold | hover
    · rw [hthreads] at hold
      cases hold
    · exact confirmed_of_over hover
  | some resolved =>
    obtain ⟨k, confirmed⟩ := resolved
    have hempty : (a.close k).actionThreads = [] :=
      (congrArg Shared.actionThreads (shared_close a k)).trans hthreads
    have hclosed : Harmless (a.close k) := by simp [Harmless, hempty]
    rw [onEvent_eq_resolve hres] at hevent
    cases hslot : a.slot k with
    | none =>
      rw [resolve_of_none hslot] at hevent
      cases hevent
      exact absurd hclosed hharmless
    | some callback' =>
      rw [resolve_of_some hslot] at hevent
      cases k with
      | input =>
        obtain ⟨callback', -, rfl⟩ := Option.map_eq_some_iff.1 hslot
        exact absurd (InputCallback.harmless_run hclosed hevent) hharmless
      | select =>
        obtain ⟨callback', -, rfl⟩ := Option.map_eq_some_iff.1 hslot
        cases hevent
        exact absurd (callback'.harmless_run hclosed o confirmed _) hharmless
      | confirm =>
        obtain ⟨callback', hcallback, rfl⟩ := Option.map_eq_some_iff.1 hslot
        cases hevent
        obtain ⟨rfl, rfl⟩ := ConfirmCallback.of_run hempty hmem hthread
        exact ⟨confirms_of_resolution hres, mode_of_resolution hres, hcallback⟩

/-- Only events begin deletions. -/
theorem confirm_of_advance {callback : ConfirmCallback} {thread : ActionThread}
    (hone : OneOperation s) (hadvance : App.advance L env s label = some t)
    (hmem : thread ∈ t.app.actionThreads) (hnew : thread ∉ s.app.actionThreads)
    (hthread : thread.confirmed = some callback) :
    ∃ event o, label = .event event o ∧ (event = .ret ∨ event = .yes) ∧
      s.app.modalMode = .confirm ∧ s.app.confirmCallback = some callback := by
  have hover (h : thread.Over) : False := by simp [confirmed_of_over h] at hthread
  have hkeeps {b : TuxDockApp} (h : Keeps s.app b) (hb : thread ∈ b.actionThreads) : False :=
    (h.threads thread hb).elim hnew hover
  cases advance_cases hadvance with
  | event event o a handled =>
    by_cases hmode : s.app.modalMode = .busy
    · rw [onEvent_busy hmode handled] at hmem
      exact absurd hmem hnew
    · exact ⟨event, o, rfl, confirm_of_onEvent (hone.quiet hmode).1 handled hmem hthread⟩
  | halt event o halt handled ends => exact absurd hmem hnew
  | deliver p queue next => exact (hkeeps (keeps_run p.post s.app) hmem).elim
  | wake waits => exact absurd hmem hnew
  | act k outcome old new runs acts =>
    exact (hkeeps (keeps_set (ActionThread.over_of_act acts) s.app) hmem).elim
  | fetchContainers w result starts | fetchImages w result containers fetched =>
    exact (hkeeps (keeps_setFetch _ w s.app) hmem).elim
  | post w post a posts => exact (hkeeps (keeps_post posts) hmem).elim

/-- What a confirmation is about was chosen for it. -/
theorem ConfirmCallback.About.chosen {callback : ConfirmCallback} {selection : Option Selection}
    (h : callback.About selection) :
    ∃ name, selection = some (callback.selection, callback.id, name) := by
  cases callback with
  | deleteImage id | removeContainer id => exact h

/-- **Nothing is deleted unasked.**  In every run from the start of the application: a step that
begins to delete an image or to remove a container is Return or `y` in a dialog that asks whether
to, and names the image or the container; and the entry with this name and with the id that is
deleted was chosen in this run, by Return, from the list that was cached then. -/
theorem destructive_confirmed (L : Json.Library) (env : Env) (historyFile : Option Bytes)
    (containers : ListResult ContainerInfo) (images : ListResult ImageInfo) (labels : List Label)
    (s t : System) (label : Label) (thread : ActionThread) (callback : ConfirmCallback)
    (hrun : exec (step L env) (boot historyFile containers images) labels = some s)
    (hstep : step L env s label = some t) (hmem : thread ∈ t.app.actionThreads)
    (hnew : thread ∉ s.app.actionThreads) (hthread : thread.confirmed = some callback) :
    ∃ event o name, label = .event event o ∧ (event = .ret ∨ event = .yes) ∧
      s.app.modalMode = .confirm ∧ s.app.confirmCallback = some callback ∧
      (s.app.modalTitle, s.app.modalText) = callback.asks name ∧
      ChosenIn L env (boot historyFile containers images) labels
        (callback.selection, callback.id, name) := by
  obtain ⟨-, u, hu, rfl⟩ := advance_of_step hstep
  have hspoken := spoken_exec hrun
  obtain ⟨event, o, rfl, hevent, hmode, hcallback⟩ :=
    confirm_of_advance hspoken.tracked.one hu hmem hnew hthread
  obtain ⟨name, hnewest⟩ := ((about_newest hrun).confirm callback hcallback).chosen
  refine ⟨event, o, name, rfl, hevent, hmode, hcallback, ?_, ?_⟩
  · rw [hspoken.announced.confirm callback hcallback, TuxDockApp.chosenName, hnewest]
    rfl
  · exact chosen_of_mem_calls hrun _ (List.mem_of_mem_head? hnewest)

/-- One container is listed. -/
def listedContainer : System := boot none ⟨[sample "a" "first"], []⟩ ⟨[], []⟩

/-- The container is chosen to be removed. -/
def removing : List Label :=
  [.event .other { still with index := 7 }, .event .ret still, .event .ret still]

/-- The container is removed. -/
theorem destructive_confirmed_removing :
    ∃ event o name, Label.event .yes still = .event event o ∧ (event = .ret ∨ event = .yes) ∧
      (after listedContainer removing).app.modalMode = .confirm ∧
      (after listedContainer removing).app.confirmCallback = some (.removeContainer (lit "a")) ∧
      ((after listedContainer removing).app.modalTitle,
        (after listedContainer removing).app.modalText) =
        (ConfirmCallback.removeContainer (lit "a")).asks name ∧
      ChosenIn layoutLibrary goodEnv listedContainer removing
        (.container .removeContainer, lit "a", name) := by
  refine destructive_confirmed layoutLibrary goodEnv none ⟨[sample "a" "first"], []⟩ ⟨[], []⟩
    removing (after listedContainer removing)
    (after listedContainer (removing ++ [.event .yes still])) _
    (.busy (.removeContainer (lit "a")) none) _ ?_ ?_ ?_ ?_ rfl
  all_goals decide +kernel

end App

end TuxDock
