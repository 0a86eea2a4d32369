import TuxDock.App.Events

/-!
# Dialogs

What the handling of an event does to the dialogs and to what the application shares with its
threads.

* `InputCallback.run_cases` : what the callbacks of the inputs do;
* `Opens` : what a callback or an entry of the menu does: it opens one dialog, starts the refresh
  thread or begins an operation, or it does none of these;
* `onEvent_resolve` : **an event that resolves a dialog does what the callback makes of the
  application with the dialog closed**, and nothing after it;
* `responds_of_onEvent` : all that the handling of an event does to a dialog;
* `onEvent_cases` : all that it does to what is shared: nothing, or it starts the refresh thread, or
  it begins an operation;
* `onEvent_withCallbacks` : any other event does the same whatever callbacks are set.
-/

namespace TuxDock

namespace App

open Text History

/-! ### The callbacks of the dialogs -/

/-- The members that hold a callback. -/
inductive Slot where
  | input
  | confirm
  | select
  deriving Repr, DecidableEq

/-- A callback of a dialog. -/
inductive Callback where
  | input (callback : InputCallback)
  | confirm (callback : ConfirmCallback)
  | select (callback : SelectCallback)
  deriving Repr, DecidableEq

/-- The mode, and the callbacks that are set. -/
structure Dialog where
  mode : ModalMode
  input : Option InputCallback
  confirm : Option ConfirmCallback
  select : Option SelectCallback
  deriving Repr, DecidableEq

/-- No dialog is open, and no callback set. -/
def Dialog.closed : Dialog := ⟨.none, none, none, none⟩

variable (L : Json.Library) (env : Env)

namespace TuxDockApp

variable (a : TuxDockApp)

/-- What the members say of the dialog. -/
def dialog : Dialog := ⟨a.modalMode, a.inputCallback, a.confirmCallback, a.selectCallback⟩

/-- The callback that a member holds. -/
def slot : Slot → Option Callback
  | .input => a.inputCallback.map .input
  | .confirm => a.confirmCallback.map .confirm
  | .select => a.selectCallback.map .select

/-- The application that `ResolveInput`, `ResolveConfirm` and `ResolveSelect` hand to the callback
that they have taken. -/
def close : Slot → TuxDockApp
  | .input => { a with modalMode := .none, inputCallback := none }
  | .confirm => { a with modalMode := .none, confirmCallback := none }
  | .select => { a with modalMode := .none, selectCallback := none }

/-- The callback that an event resolves, and whether it confirms. -/
def resolution (event : Event) : Option (Slot × Bool) :=
  match a.modalMode, event with
  | .input, .ret => some (.input, true)
  | .input, .escape => some (.input, false)
  | .confirm, .ret | .confirm, .yes => some (.confirm, true)
  | .confirm, .escape | .confirm, .no => some (.confirm, false)
  | .select, .ret => some (.select, true)
  | .select, .escape => some (.select, false)
  | _, _ => none

/-- `ResolveInput`, `ResolveConfirm` and `ResolveSelect`. -/
def resolve (o : Outside) (confirmed : Bool) : Slot → Except Halt TuxDockApp
  | .input => a.resolveInput L env o confirmed
  | .confirm => .ok (a.resolveConfirm confirmed)
  | .select => .ok (a.resolveSelect o confirmed)

end TuxDockApp

/-- The call of a callback that was taken from `a`. -/
def Callback.run (o : Outside) (confirmed : Bool) (a b : TuxDockApp) :
    Callback → Except Halt TuxDockApp
  | input callback => callback.run L env o confirmed a.modalInput b
  | confirm callback => .ok (callback.run confirmed b)
  | select callback => .ok (callback.run o confirmed a.modalSelectIndex b)

variable {L env} {a b c : TuxDockApp} {o : Outside} {event : Event} {k : Slot} {confirmed : Bool}

/-- An event that resolves a dialog does nothing else. -/
theorem onEvent_eq_resolve (hres : a.resolution event = some (k, confirmed)) :
    a.onEvent L env event o = a.resolve L env o confirmed k := by
  unfold TuxDockApp.resolution at hres
  split at hres <;> cases hres
  all_goals rename_i hmode; simp only [TuxDockApp.onEvent, hmode]; rfl

theorem resolve_of_none (hslot : a.slot k = none) :
    a.resolve L env o confirmed k = .ok (a.close k) := by
  cases k with
  | input =>
    have hcallback : a.inputCallback = none := Option.map_eq_none_iff.1 hslot
    simp only [TuxDockApp.resolve, TuxDockApp.resolveInput, hcallback, TuxDockApp.close]
  | confirm =>
    have hcallback : a.confirmCallback = none := Option.map_eq_none_iff.1 hslot
    simp only [TuxDockApp.resolve, TuxDockApp.resolveConfirm, hcallback, TuxDockApp.close]
  | select =>
    have hcallback : a.selectCallback = none := Option.map_eq_none_iff.1 hslot
    simp only [TuxDockApp.resolve, TuxDockApp.resolveSelect, hcallback, TuxDockApp.close]

theorem resolve_of_some {callback : Callback} (hslot : a.slot k = some callback) :
    a.resolve L env o confirmed k = callback.run L env o confirmed a (a.close k) := by
  cases k with
  | input =>
    obtain ⟨callback, hcallback, rfl⟩ := Option.map_eq_some_iff.1 hslot
    simp only [TuxDockApp.resolve, TuxDockApp.resolveInput, hcallback, TuxDockApp.close,
      Callback.run]
  | confirm =>
    obtain ⟨callback, hcallback, rfl⟩ := Option.map_eq_some_iff.1 hslot
    simp only [TuxDockApp.resolve, TuxDockApp.resolveConfirm, hcallback, TuxDockApp.close,
      Callback.run]
  | select =>
    obtain ⟨callback, hcallback, rfl⟩ := Option.map_eq_some_iff.1 hslot
    simp only [TuxDockApp.resolve, TuxDockApp.resolveSelect, hcallback, TuxDockApp.close,
      Callback.run]

/-- **What resolving a dialog leaves is what the callback leaves.** -/
theorem onEvent_resolve {callback : Callback} (hres : a.resolution event = some (k, confirmed))
    (hslot : a.slot k = some callback) :
    a.onEvent L env event o = callback.run L env o confirmed a (a.close k) :=
  (onEvent_eq_resolve hres).trans (resolve_of_some hslot)

/-! ### What is shared with the threads -/

/-- The thread of an operation that has not run yet. -/
inductive ActionThread.Fresh : ActionThread → Prop
  | busy (action : Operation) (onComplete : Option OnComplete) : Fresh (busy action onComplete)
  | stop (id : Bytes) (timeoutSeconds : ℤ) : Fresh (stop id timeoutSeconds)

/-- What the threads and the posts share with the handling of events. -/
structure Shared where
  containers : List ContainerInfo
  images : List ImageInfo
  refreshThread : Option Fetch
  actionThreads : List ActionThread
  operationState : OperationState
  statePoller : Poller

/-- What the application shares with its threads. -/
def TuxDockApp.shared (a : TuxDockApp) : Shared :=
  ⟨a.containers, a.images, a.refreshThread, a.actionThreads, a.operationState, a.statePoller⟩

/-- Nothing shared is changed, and no operation is begun. -/
structure Quiet (a b : TuxDockApp) : Prop where
  shared : b.shared = a.shared
  mode : b.modalMode ≠ .busy

/-- What the handling of an event does to what the threads share: nothing, or it starts the refresh
thread, or it begins an operation. -/
inductive Handled (a b : TuxDockApp) : Prop where
  | quiet (quiet : Quiet a b)
  | refresh (c : TuxDockApp) (quiet : Quiet a c) (ended : a.refreshThread = none)
      (eq : b = { c with refreshThread := some .start })
  | operation (c : TuxDockApp) (title message : Bytes) (thread : ActionThread) (quiet : Quiet a c)
      (fresh : thread.Fresh) (eq : b = c.beginOperation title message thread)

/-! ### What a callback does -/

/-- Neither a dialog nor what is shared is changed. -/
structure Inert (a b : TuxDockApp) : Prop where
  dialog : b.dialog = a.dialog
  shared : b.shared = a.shared

/-- What a callback or an entry of the menu does, besides changes that are inert: nothing, or it
opens one dialog, or it starts the refresh thread, or it begins an operation. -/
inductive Opens (a b : TuxDockApp) : Prop where
  | inert (inert : Inert a b)
  | input (callback : InputCallback) (shared : b.shared = a.shared)
      (dialog : b.dialog = { a.dialog with mode := .input, input := some callback })
  | confirm (callback : ConfirmCallback) (shared : b.shared = a.shared)
      (dialog : b.dialog = { a.dialog with mode := .confirm, confirm := some callback })
  | select (callback : SelectCallback) (shared : b.shared = a.shared)
      (dialog : b.dialog = { a.dialog with mode := .select, select := some callback })
  | message (shared : b.shared = a.shared) (dialog : b.dialog = { a.dialog with mode := .message })
  | refresh (c : TuxDockApp) (inert : Inert a c) (ended : a.refreshThread = none)
      (eq : b = { c with refreshThread := some .start })
  | operation (c : TuxDockApp) (title message : Bytes) (thread : ActionThread) (inert : Inert a c)
      (fresh : thread.Fresh) (eq : b = c.beginOperation title message thread)

theorem Inert.trans (h : Inert a b) (h' : Inert b c) : Inert a c :=
  ⟨h'.dialog.trans h.dialog, h'.shared.trans h.shared⟩

theorem Inert.opens (h : Inert a b) (h' : Opens b c) : Opens a c := by
  cases h' with
  | inert inert => exact .inert (h.trans inert)
  | input callback shared dialog =>
    exact .input callback (shared.trans h.shared) (h.dialog ▸ dialog)
  | confirm callback shared dialog =>
    exact .confirm callback (shared.trans h.shared) (h.dialog ▸ dialog)
  | select callback shared dialog =>
    exact .select callback (shared.trans h.shared) (h.dialog ▸ dialog)
  | message shared dialog => exact .message (shared.trans h.shared) (h.dialog ▸ dialog)
  | refresh d inert ended eq =>
    have hthread : b.refreshThread = a.refreshThread := congrArg Shared.refreshThread h.shared
    exact .refresh d (h.trans inert) (hthread ▸ ended) eq
  | operation d title message thread inert fresh eq =>
    exact .operation d title message thread (h.trans inert) fresh eq

theorem ContainerCallback.opens (callback : ContainerCallback) (id name : Bytes)
    (a : TuxDockApp) : Opens a (callback.run o id name a) := by
  cases callback with
  | startDetached => exact .operation a _ _ _ ⟨rfl, rfl⟩ (.busy _ _) rfl
  | stopContainer => exact .input _ rfl rfl
  | removeContainer => exact .confirm _ rfl rfl
  | execShell => exact .inert ⟨rfl, rfl⟩
  | execDetachedCommand => exact .input _ rfl rfl
  | execCommandWithOutput => exact .input _ rfl rfl

theorem ImageCallback.opens (callback : ImageCallback) (id tag : Bytes) (a : TuxDockApp) :
    Opens a (callback.run id tag a) := by
  cases callback with
  | runContainer => exact .input _ rfl rfl
  | deleteImage => exact .confirm _ rfl rfl

theorem SelectCallback.opens (callback : SelectCallback) (ok : Bool) (selected : ℤ)
    (a : TuxDockApp) : Opens a (callback.run o ok selected a) := by
  unfold SelectCallback.run
  split_ifs
  · exact .inert ⟨rfl, rfl⟩
  · exact .inert ⟨rfl, rfl⟩
  · split
    · rename_i entry hentry
      have hcalled : Inert a { a with calls := (callback, entry) :: a.calls } := ⟨rfl, rfl⟩
      refine hcalled.opens ?_
      cases callback with
      | container callback => exact callback.opens entry.1 entry.2 _
      | image callback => exact callback.opens entry.1 entry.2 _
    · exact .inert ⟨rfl, rfl⟩

theorem ConfirmCallback.opens (callback : ConfirmCallback) (ok : Bool) (a : TuxDockApp) :
    Opens a (callback.run ok a) := by
  unfold ConfirmCallback.run
  split_ifs
  · exact .inert ⟨rfl, rfl⟩
  · cases callback <;> exact .operation a _ _ _ ⟨rfl, rfl⟩ (.busy _ _) rfl

theorem opens_promptNextPort (context : RunContainerContext) (index : ℤ) (a : TuxDockApp) :
    Opens a (a.promptNextPort context index) := by
  unfold TuxDockApp.promptNextPort
  split_ifs
  · exact .operation a _ _ _ ⟨rfl, rfl⟩ (.busy _ _) rfl
  · exact .input _ rfl rfl

/-- What the callback of an input makes of the value. -/
inductive InputCallback.Runs (a : TuxDockApp) (value : Bytes) : InputCallback → TuxDockApp → Prop
  | canceled (callback : InputCallback) : Runs a value callback a
  | refused (callback : InputCallback) (message : Bytes) :
    Runs a value callback (a.setStatus message)
  | pull : Runs a value .pullImage
      (a.beginBusyOperation (lit "Pulling image") (lit "Please wait...") (.pullImage value) none)
  | named (context : RunContainerContext) : Runs a value (.containerName context)
      (a.promptPortCountAndRun { context with name := value })
  | counted (context : RunContainerContext) (count : ℤ) : Runs a value (.portCount context)
      (a.promptNextPort { context with portCount := count } 0)
  | mapped (context : RunContainerContext) (index : ℤ) : Runs a value (.portMapping context index)
      (a.promptNextPort { context with ports := context.ports ++ [value] } (index + 1))
  | stop (id : Bytes) : Runs a value (.stopTimeout id) (a.beginStopOperation id (stopSeconds value))
  | detached (file : Option Bytes) : Runs a value .detachedCommand
      ({ a with historyFile := file }.beginBusyOperation (lit "Running command")
        (lit "Please wait...") (.execDetachedCommand value) none)
  | output (file : Option Bytes) : Runs a value .commandWithOutput
      ({ a with historyFile := file }.beginBusyOperation (lit "Running command")
        (lit "Please wait...") (.execCommandWithOutput value) (some .commandWithOutput))

/-- **A callback of an input does one of these**, or it throws. -/
theorem InputCallback.run_cases {callback : InputCallback} {ok : Bool} {value : Bytes}
    (h : callback.run L env o ok value a = .ok b) : callback.Runs a value b := by
  unfold InputCallback.run at h
  split at h
  · cases h
    exact .canceled callback
  · cases callback with
    | pullImage =>
      cases h
      exact .pull
    | containerName context =>
      simp only at h
      split_ifs at h <;> cases h
      · exact .refused _ _
      · exact .named context
    | portCount context =>
      simp only at h
      split_ifs at h
      · cases h
        exact .refused _ _
      · split at h <;> cases h
        exact .counted context _
    | portMapping context index =>
      simp only at h
      split_ifs at h <;> cases h
      · exact .refused _ _
      · exact .mapped context index
    | stopTimeout id =>
      cases h
      exact .stop id
    | detachedCommand =>
      cases h
      exact .detached _
    | commandWithOutput =>
      cases h
      exact .output _

theorem InputCallback.opens {callback : InputCallback} {ok : Bool} {value : Bytes}
    (h : callback.run L env o ok value a = .ok b) : Opens a b := by
  cases run_cases h with
  | canceled | refused => exact .inert ⟨rfl, rfl⟩
  | pull => exact .operation a _ _ _ ⟨rfl, rfl⟩ (.busy _ _) rfl
  | named context => exact .input _ rfl rfl
  | counted | mapped => exact opens_promptNextPort _ _ a
  | stop id => exact .operation a _ _ _ ⟨rfl, rfl⟩ (.stop _ _) rfl
  | detached | output =>
    refine .operation _ _ _ _ ?_ (.busy _ _) rfl
    exact ⟨rfl, rfl⟩

theorem Callback.opens {callback : Callback} (h : callback.run L env o confirmed a b = .ok c) :
    Opens b c := by
  cases callback with
  | input callback => exact InputCallback.opens h
  | confirm callback =>
    cases h
    exact callback.opens confirmed b
  | select callback =>
    cases h
    exact callback.opens confirmed _ b

/-! ### What an entry of the menu does -/

theorem opens_refreshState {message : Bytes} (h : a.refreshState message = .ok b) :
    Opens a b := by
  unfold TuxDockApp.refreshState at h
  split at h
  · cases h
  · rename_i hended
    cases h
    exact .refresh (a.setStatus message) ⟨rfl, rfl⟩ hended rfl

theorem opens_promptContainerSelection {title : Bytes} {callback : ContainerCallback}
    (h : a.promptContainerSelection title callback = .ok b) : Opens a b := by
  unfold TuxDockApp.promptContainerSelection at h
  split_ifs at h
  · exact opens_refreshState h
  · cases h
    exact .select _ rfl rfl

theorem opens_promptImageSelection {title : Bytes} {callback : ImageCallback}
    (h : a.promptImageSelection title callback = .ok b) : Opens a b := by
  unfold TuxDockApp.promptImageSelection at h
  split_ifs at h
  · exact opens_refreshState h
  · cases h
    exact .select _ rfl rfl

theorem opens_executeSelectedAction (h : a.executeSelectedAction = .ok b) : Opens a b := by
  unfold TuxDockApp.executeSelectedAction at h
  split at h
  case h_2 | h_6 => exact opens_promptImageSelection h
  case h_5 | h_7 | h_8 | h_9 | h_10 | h_11 => exact opens_promptContainerSelection h
  case h_3 | h_4 =>
    cases h
    split_ifs <;> exact .message rfl rfl
  case h_1 =>
    cases h
    exact .input _ rfl rfl
  case h_12 =>
    cases h
    exact .message rfl rfl
  case h_13 => cases h
  case h_14 =>
    cases h
    exact .inert ⟨rfl, rfl⟩

/-! ### What the handling of an event does -/

/-- What the handling of an event does to the dialogs while no operation is running: it stays in
the dialog, goes to the history and back, closes a message, follows the menu or resolves the
dialog. -/
inductive Responds (a : TuxDockApp) (event : Event) (b : TuxDockApp) : Prop where
  | stay (inert : Inert a b)
  | history (opened : a.modalMode = .input) (shared : b.shared = a.shared)
      (dialog : b.dialog = { a.dialog with mode := .history })
  | back (opened : a.modalMode = .history) (shared : b.shared = a.shared)
      (dialog : b.dialog = { a.dialog with mode := .input })
  | read (opened : a.modalMode = .message) (shared : b.shared = a.shared)
      (dialog : b.dialog = { a.dialog with mode := .none })
  | menu (closed : a.modalMode = .none) (opens : Opens a b)
  | resolve (k : Slot) (confirmed : Bool) (resolves : a.resolution event = some (k, confirmed))
      (opens : Opens (a.close k) b)

theorem opens_resolve (h : a.resolve L env o confirmed k = .ok b) : Opens (a.close k) b := by
  cases hslot : a.slot k with
  | none =>
    rw [resolve_of_none hslot] at h
    cases h
    exact .inert ⟨rfl, rfl⟩
  | some callback =>
    rw [resolve_of_some hslot] at h
    exact callback.opens h

theorem dialog_resolveHistory (L : Json.Library) (env : Env) (a : TuxDockApp) :
    (a.resolveHistory L env).shared = a.shared ∧
      (a.resolveHistory L env).dialog = { a.dialog with mode := .input } := by
  unfold TuxDockApp.resolveHistory
  simp only
  split_ifs
  · exact ⟨rfl, rfl⟩
  · exact ⟨rfl, rfl⟩
  · split <;> exact ⟨rfl, rfl⟩

/-- A busy dialog ignores every event. -/
theorem onEvent_busy (hmode : a.modalMode = .busy) (h : a.onEvent L env event o = .ok b) :
    b = a := by
  simp only [TuxDockApp.onEvent, hmode] at h
  exact (Except.ok.inj h).symm

/-- **What the handling of an event does to the dialogs.** -/
theorem responds_of_onEvent (hmode : a.modalMode ≠ .busy) (h : a.onEvent L env event o = .ok b) :
    Responds a event b := by
  cases hres : a.resolution event with
  | some resolved =>
    rw [onEvent_eq_resolve hres] at h
    exact .resolve _ _ hres (opens_resolve h)
  | none =>
    unfold TuxDockApp.onEvent at h
    split at h
    case h_1 hm => exact absurd hm hmode
    case h_2 hm =>
      cases event with
      | ret | escape => simp [TuxDockApp.resolution, hm] at hres
      | f1 =>
        cases h
        exact .history hm rfl rfl
      | yes | no | other =>
        cases h
        exact .stay ⟨rfl, rfl⟩
    case h_3 hm =>
      cases h
      cases event with
      | ret =>
        obtain ⟨hshared, hdialog⟩ := dialog_resolveHistory L env a
        exact .back hm hshared hdialog
      | escape => exact .back hm rfl rfl
      | f1 | yes | no | other => exact .stay ⟨rfl, rfl⟩
    case h_4 hm =>
      cases h
      cases event with
      | ret | escape | yes | no => simp [TuxDockApp.resolution, hm] at hres
      | f1 | other => exact .stay ⟨rfl, rfl⟩
    case h_5 hm =>
      cases h
      cases event with
      | ret | escape => simp [TuxDockApp.resolution, hm] at hres
      | f1 | yes | no | other => exact .stay ⟨rfl, rfl⟩
    case h_6 hm =>
      cases h
      cases event with
      | ret | escape => exact .read hm rfl rfl
      | f1 | yes | no | other => exact .stay ⟨rfl, rfl⟩
    case h_7 hm =>
      cases event with
      | ret => exact .menu hm (opens_executeSelectedAction h)
      | escape | f1 | yes | no | other =>
        cases h
        exact .stay ⟨rfl, rfl⟩

/-! ### What the handling of an event shares -/

theorem handled_of_dialog {d : Dialog} (hshared : b.shared = a.shared) (hdialog : b.dialog = d)
    (hmode : d.mode ≠ .busy) : Handled a b := by
  refine .quiet ⟨hshared, ?_⟩
  have hb : b.modalMode = d.mode := congrArg Dialog.mode hdialog
  rwa [hb]

theorem Opens.handled (h : Opens a b) (hmode : a.modalMode ≠ .busy) : Handled a b := by
  have hquiet {c : TuxDockApp} (hc : Inert a c) : Quiet a c := by
    have hmode' : c.modalMode = a.modalMode := congrArg Dialog.mode hc.dialog
    exact ⟨hc.shared, hmode' ▸ hmode⟩
  cases h with
  | inert inert => exact .quiet (hquiet inert)
  | input callback shared dialog => exact handled_of_dialog shared dialog nofun
  | confirm callback shared dialog => exact handled_of_dialog shared dialog nofun
  | select callback shared dialog => exact handled_of_dialog shared dialog nofun
  | message shared dialog => exact handled_of_dialog shared dialog nofun
  | refresh c inert ended eq => exact .refresh c (hquiet inert) ended eq
  | operation c title message thread inert fresh eq =>
    exact .operation c title message thread (hquiet inert) fresh eq

theorem shared_close (a : TuxDockApp) (k : Slot) : (a.close k).shared = a.shared := by
  cases k <;> rfl

theorem mode_close (a : TuxDockApp) (k : Slot) : (a.close k).modalMode = .none := by
  cases k <;> rfl

theorem Handled.of_shared (hshared : b.shared = a.shared) (h : Handled b c) : Handled a c := by
  cases h with
  | quiet quiet => exact .quiet ⟨quiet.shared.trans hshared, quiet.mode⟩
  | refresh d quiet ended eq =>
    have hthread : b.refreshThread = a.refreshThread := congrArg Shared.refreshThread hshared
    exact .refresh d ⟨quiet.shared.trans hshared, quiet.mode⟩ (hthread ▸ ended) eq
  | operation d title message thread quiet fresh eq =>
    exact .operation d title message thread ⟨quiet.shared.trans hshared, quiet.mode⟩ fresh eq

/-- **What the handling of an event does to what the threads share.** -/
theorem onEvent_cases (hmode : a.modalMode ≠ .busy) (h : a.onEvent L env event o = .ok b) :
    Handled a b := by
  cases responds_of_onEvent hmode h with
  | stay inert => exact (Opens.inert inert).handled hmode
  | history opened shared dialog => exact handled_of_dialog shared dialog nofun
  | back opened shared dialog => exact handled_of_dialog shared dialog nofun
  | read opened shared dialog => exact handled_of_dialog shared dialog nofun
  | menu closed opens => exact opens.handled hmode
  | resolve k confirmed resolves opens =>
    have hclosed : (a.close k).modalMode ≠ .busy := by simp [mode_close]
    exact (opens.handled hclosed).of_shared (shared_close a k)

/-! ### Events that call no callback -/

/-- The application with other callbacks set. -/
def TuxDockApp.withCallbacks (a : TuxDockApp) (input : Option InputCallback)
    (confirm : Option ConfirmCallback) (select : Option SelectCallback) : TuxDockApp :=
  { a with inputCallback := input, confirmCallback := confirm, selectCallback := select }

/-- The application without its callbacks. -/
def TuxDockApp.blind (a : TuxDockApp) : TuxDockApp := a.withCallbacks none none none

section Silent

variable (input : Option InputCallback) (confirm : Option ConfirmCallback)
  (select : Option SelectCallback)

theorem resolveHistory_withCallbacks (L : Json.Library) (env : Env) (a : TuxDockApp) :
    (a.withCallbacks input confirm select).resolveHistory L env =
      (a.resolveHistory L env).withCallbacks input confirm select := by
  have hindex : (a.withCallbacks input confirm select).modalHistoryIndex =
      a.modalHistoryIndex := rfl
  have hdisplay : (a.withCallbacks input confirm select).modalHistoryDisplay =
      a.modalHistoryDisplay := rfl
  have hentries : (a.withCallbacks input confirm select).modalHistoryEntries =
      a.modalHistoryEntries := rfl
  unfold TuxDockApp.resolveHistory
  simp only [hindex, hdisplay, hentries]
  split_ifs
  · rfl
  · rfl
  · split <;> rfl

theorem refreshState_withCallbacks (a : TuxDockApp) (message : Bytes) :
    ((a.withCallbacks input confirm select).refreshState message).map TuxDockApp.blind =
      (a.refreshState message).map TuxDockApp.blind := by
  have hthread : (a.withCallbacks input confirm select).refreshThread = a.refreshThread := rfl
  unfold TuxDockApp.refreshState
  rw [hthread]
  cases a.refreshThread <;> rfl

theorem promptContainerSelection_withCallbacks (a : TuxDockApp) (title : Bytes)
    (callback : ContainerCallback) :
    ((a.withCallbacks input confirm select).promptContainerSelection title callback).map
        TuxDockApp.blind =
      (a.promptContainerSelection title callback).map TuxDockApp.blind := by
  have hcontainers : (a.withCallbacks input confirm select).containers = a.containers := rfl
  unfold TuxDockApp.promptContainerSelection
  rw [hcontainers]
  split_ifs
  · exact refreshState_withCallbacks input confirm select a _
  · rfl

theorem promptImageSelection_withCallbacks (a : TuxDockApp) (title : Bytes)
    (callback : ImageCallback) :
    ((a.withCallbacks input confirm select).promptImageSelection title callback).map
        TuxDockApp.blind =
      (a.promptImageSelection title callback).map TuxDockApp.blind := by
  have himages : (a.withCallbacks input confirm select).images = a.images := rfl
  unfold TuxDockApp.promptImageSelection
  rw [himages]
  split_ifs
  · exact refreshState_withCallbacks input confirm select a _
  · rfl

theorem executeSelectedAction_withCallbacks (a : TuxDockApp) :
    (a.withCallbacks input confirm select).executeSelectedAction.map TuxDockApp.blind =
      a.executeSelectedAction.map TuxDockApp.blind := by
  have hmenu : (a.withCallbacks input confirm select).menuSelected = a.menuSelected := rfl
  have hcontainers : (a.withCallbacks input confirm select).containers = a.containers := rfl
  have himages : (a.withCallbacks input confirm select).images = a.images := rfl
  unfold TuxDockApp.executeSelectedAction
  rw [hmenu]
  split
  case h_2 | h_6 => exact promptImageSelection_withCallbacks input confirm select a _ _
  case h_5 | h_7 | h_8 | h_9 | h_10 | h_11 =>
    exact promptContainerSelection_withCallbacks input confirm select a _ _
  case h_3 =>
    rw [hcontainers]
    split_ifs <;> rfl
  case h_4 =>
    rw [himages]
    split_ifs <;> rfl
  case h_1 | h_12 | h_13 | h_14 => rfl

/-- **An event that resolves no dialog calls no callback**: whatever callbacks are set, it does the
same. -/
theorem onEvent_withCallbacks (L : Json.Library) (env : Env) (o : Outside)
    (hres : a.resolution event = none) :
    ((a.withCallbacks input confirm select).onEvent L env event o).map TuxDockApp.blind =
      (a.onEvent L env event o).map TuxDockApp.blind := by
  have hmode : (a.withCallbacks input confirm select).modalMode = a.modalMode := rfl
  unfold TuxDockApp.onEvent
  rw [hmode]
  cases hm : a.modalMode with
  | busy => rfl
  | input =>
    cases event with
    | ret | escape => simp [TuxDockApp.resolution, hm] at hres
    | f1 | yes | no | other => rfl
  | history =>
    cases event with
    | ret =>
      simp only [TuxDockApp.onHistoryEvent, resolveHistory_withCallbacks]
      rfl
    | escape | f1 | yes | no | other => rfl
  | confirm =>
    cases event with
    | ret | escape | yes | no => simp [TuxDockApp.resolution, hm] at hres
    | f1 | other => rfl
  | select =>
    cases event with
    | ret | escape => simp [TuxDockApp.resolution, hm] at hres
    | f1 | yes | no | other => rfl
  | message => cases event <;> rfl
  | none =>
    cases event with
    | ret => exact executeSelectedAction_withCallbacks input confirm select a
    | escape | f1 | yes | no | other => rfl

theorem run_withCallbacks (post : Post) (a : TuxDockApp) :
    post.run (a.withCallbacks input confirm select) =
      (post.run a).withCallbacks input confirm select := by
  cases post with
  | poll containers images => rfl
  | refresh containers images => rfl
  | complete message onComplete =>
    cases onComplete with
    | none => rfl
    | some onComplete =>
      cases onComplete
      rfl
  | stopped success message containers images => rfl

end Silent

end App

end TuxDock
