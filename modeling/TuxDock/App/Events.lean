import TuxDock.App.State

/-!
# Events

What the callbacks do, and the handling of an event: `OnEvent`, and the closures that the threads
post to the screen.
-/

namespace TuxDock

namespace App

open Text History

variable (L : Json.Library) (env : Env)

/-! ### Callbacks of selections -/

namespace TuxDockApp

variable (a : TuxDockApp)

/-- `OpenDetachedCommandInput`. -/
def openDetachedCommandInput (initialValue : Bytes) : TuxDockApp :=
  a.openInput (lit "Detached Command")
    (lit "Enter command to run in " ++ a.historyContainerName ++ lit ":  (F1: history)")
    .detachedCommand initialValue

/-- `OpenCommandWithOutputInput`. -/
def openCommandWithOutputInput (initialValue : Bytes) : TuxDockApp :=
  a.openInput (lit "Command with Output")
    (lit "Enter command to run in " ++ a.historyContainerName ++ lit ":  (F1: history)")
    .commandWithOutput initialValue

/-- `PromptPortCountAndRun`. -/
def promptPortCountAndRun (context : RunContainerContext) : TuxDockApp :=
  a.openInput (lit "Port Mappings") (lit "How many port mappings? (0 for none)")
    (.portCount context) []

/-- `PromptNextPort`: after the last port the container is created. -/
def promptNextPort (context : RunContainerContext) (index : ℤ) : TuxDockApp :=
  if context.portCount ≤ index then
    a.beginBusyOperation (lit "Creating container") (lit "Please wait...")
      (.createContainer context.name context.image context.ports) none
  else
    a.openInput (lit "Port Mapping")
      (lit "Enter host-to-container port mapping #" ++ lit (toString (index + 1)) ++
        lit ". e.g: 8080:80.")
      (.portMapping context index) []

end TuxDockApp

/-- The lambda called with the id and the name of a container. -/
def ContainerCallback.run (callback : ContainerCallback) (o : Outside) (id name : Bytes)
    (a : TuxDockApp) : TuxDockApp :=
  match callback with
  | startDetached =>
    a.beginBusyOperation (lit "Starting container") (lit "Please wait...") (.startDetached id) none
  | stopContainer =>
    a.openInput (lit "Stop Container")
      (lit "Shutdown grace period in seconds for " ++ name ++ lit " (default 60, max " ++
        lit (toString kMaxStopTimeout) ++ lit "):")
      (.stopTimeout id) []
  | removeContainer =>
    a.openConfirm (lit "Remove Container") (lit "Remove container " ++ name ++ lit "?")
      (.removeContainer id)
  | execShell => a.setStatus o.message
  | execDetachedCommand =>
    { a with historyContainerId := id, historyContainerName := name }.openDetachedCommandInput []
  | execCommandWithOutput =>
    { a with historyContainerId := id, historyContainerName := name }.openCommandWithOutputInput []

/-- The lambda called with the id and the tag of an image. -/
def ImageCallback.run (callback : ImageCallback) (id tag : Bytes) (a : TuxDockApp) : TuxDockApp :=
  match callback with
  | runContainer =>
    a.openInput (lit "Container Name") (lit "Enter a name for the container:")
      (.containerName ⟨[], tag, 0, []⟩) []
  | deleteImage =>
    a.openConfirm (lit "Delete Image") (lit "Delete image " ++ tag ++ lit "?") (.deleteImage id)

/-- The callback that a selection has captured. -/
def SelectCallback.call (callback : SelectCallback) (o : Outside) (entry : Bytes × Bytes)
    (a : TuxDockApp) : TuxDockApp :=
  let a := { a with calls := (callback, entry) :: a.calls }
  match callback with
  | container callback => callback.run o entry.1 entry.2 a
  | image callback => callback.run entry.1 entry.2 a

/-- The id and the name of each entry of the list that the selection is made from. -/
def SelectCallback.entries (a : TuxDockApp) : SelectCallback → List (Bytes × Bytes)
  | container _ => a.containers.map fun c => (c.id, c.name)
  | image _ => a.images

/-- The status for an index that is not in the list. -/
def SelectCallback.invalid : SelectCallback → Bytes
  | container _ => lit "Please choose a valid container."
  | image _ => lit "Please choose a valid image."

/-- The lambdas of `PromptContainerSelection` and `PromptImageSelection`. -/
def SelectCallback.run (callback : SelectCallback) (o : Outside) (ok : Bool) (selected : ℤ)
    (a : TuxDockApp) : TuxDockApp :=
  if ok = false then a.setStatus (lit "Action cancelled.")
  -- the list that is cached now, not the one that was shown
  else if selected < 0 ∨ toInt (callback.entries a).length ≤ selected then
    a.setStatus callback.invalid
  else
    match (callback.entries a)[selected.toNat]? with
    | some entry => callback.call o entry a
    | none => a

/-! ### Callbacks of confirmations and inputs -/

/-- The lambda called with the answer to a question. -/
def ConfirmCallback.run (callback : ConfirmCallback) (ok : Bool) (a : TuxDockApp) : TuxDockApp :=
  if ok = false then a
  else
    match callback with
    | deleteImage id =>
      a.beginBusyOperation (lit "Deleting image") (lit "Please wait...") (.deleteImage id) none
    | removeContainer id =>
      a.beginBusyOperation (lit "Removing container") (lit "Please wait...") (.removeContainer id)
        none

/-- The seconds that the callback of `ActionStopContainer` makes of a text. -/
def stopSeconds (value : Bytes) : ℤ :=
  let seconds := if value = [] then 60 else (stoi value).getD 60
  let seconds := if seconds < 0 then 60 else seconds
  if kMaxStopTimeout < seconds then kMaxStopTimeout else seconds

/-- The lambda called with the text of an input. -/
def InputCallback.run (callback : InputCallback) (o : Outside) (ok : Bool) (value : Bytes)
    (a : TuxDockApp) : Except Halt TuxDockApp :=
  if ok = false then .ok a
  else
    match callback with
    | pullImage =>
      .ok (a.beginBusyOperation (lit "Pulling image") (lit "Please wait...") (.pullImage value)
        none)
    | containerName context =>
      if isValidContainerName value = false then
        .ok (a.setStatus
          (lit "Use letters, numbers, '.', '_', or '-' in the container name."))
      else .ok (a.promptPortCountAndRun { context with name := value })
    | portCount context =>
      if isDigits value = false then .ok (a.setStatus (lit "Please enter a valid number."))
      else
        match stoi value with
        | none => .error .exception
        | some count => .ok (a.promptNextPort { context with portCount := count } 0)
    | portMapping context index =>
      if isValidPortMapping value = false then
        .ok (a.setStatus (lit "Use host:container format."))
      else
        .ok (a.promptNextPort { context with ports := context.ports ++ [value] } (index + 1))
    | stopTimeout id => .ok (a.beginStopOperation id (stopSeconds value))
    | detachedCommand =>
      let file := addDetachedHistoryEntry L env o.now a.historyFile a.historyContainerName value
      .ok ({ a with historyFile := file }.beginBusyOperation (lit "Running command")
        (lit "Please wait...") (.execDetachedCommand value) none)
    | commandWithOutput =>
      let file := addDetachedHistoryEntry L env o.now a.historyFile a.historyContainerName value
      .ok ({ a with historyFile := file }.beginBusyOperation (lit "Running command")
        (lit "Please wait...") (.execCommandWithOutput value) (some .commandWithOutput))

/-! ### Events -/

/-- The events that `OnEvent` tells apart: Return, Escape, F1, the characters `y` and `n`, and all
others. -/
inductive Event where
  | ret
  | escape
  | f1
  | yes
  | no
  | other
  deriving Repr, DecidableEq

/-- The size of `menu_entries_`. -/
def menuSize : ℕ := 13

/-- The index of a menu after an event, which stays in the menu. -/
def moved (size : ℕ) (index index' : ℤ) : ℤ := if 0 ≤ index' ∧ index' < size then index' else index

namespace TuxDockApp

variable (a : TuxDockApp)

/-- `ResolveInput`: the callback is called when the dialog has been closed. -/
def resolveInput (o : Outside) (confirmed : Bool) : Except Halt TuxDockApp :=
  let b := { a with modalMode := .none, inputCallback := none }
  match a.inputCallback with
  | none => .ok b
  | some callback => callback.run L env o confirmed a.modalInput b

/-- `ResolveConfirm`. -/
def resolveConfirm (confirmed : Bool) : TuxDockApp :=
  let b := { a with modalMode := .none, confirmCallback := none }
  match a.confirmCallback with
  | none => b
  | some callback => callback.run confirmed b

/-- `ResolveSelect`. -/
def resolveSelect (o : Outside) (confirmed : Bool) : TuxDockApp :=
  let b := { a with modalMode := .none, selectCallback := none }
  match a.selectCallback with
  | none => b
  | some callback => callback.run o confirmed a.modalSelectIndex b

/-- `OpenHistory`: the entries of the container that `history_container_name_` names. -/
def openHistory : TuxDockApp :=
  let entries := loadDetachedHistoryForContainer L env a.historyFile a.historyContainerName
  { a with
    modalHistoryEntries := entries
    modalHistoryDisplay := lit "[Enter new command]" ::
      (entries.map fun e => lit "[" ++ e.timestamp ++ lit "] " ++ e.command) ++
        [lit "[Clear history]"]
    modalHistoryIndex := 0
    modalTitle := lit "Detached Command History - " ++ a.historyContainerName
    modalMode := .history }

/-- `ResolveHistory`: back to the prompt, with the command of the entry. -/
def resolveHistory : TuxDockApp :=
  let selected := a.modalHistoryIndex
  let b := { a with modalMode := .input }
  if selected = 0 then { b with modalInput := [] }
  else if selected = toInt a.modalHistoryDisplay.length - 1 then
    { b with
      historyFile := clearDetachedHistory L env a.historyFile a.historyContainerName
      modalInput := [] }
  else
    match a.modalHistoryEntries[(selected - 1).toNat]? with
    | some entry => { b with modalInput := entry.command }
    | none => b

/-- `ExecuteSelectedAction`, by the place in the menu. -/
def executeSelectedAction : Except Halt TuxDockApp :=
  match a.menuSelected with
  | 0 => .ok (a.openInput (lit "Pull Docker Image") (lit "Enter image name:") .pullImage [])
  | 1 => a.promptImageSelection (lit "Create Container") .runContainer
  | 2 =>
    .ok (if a.containers = [] then a.openMessage (lit "Containers") (lit "No containers found.")
      else a.openListMessage (lit "Containers") (.containers a.containers))
  | 3 =>
    .ok (if a.images = [] then a.openMessage (lit "Images") (lit "No images found.")
      else a.openListMessage (lit "Images") (.images a.images))
  | 4 => a.promptContainerSelection (lit "Start Detached") .startDetached
  | 5 => a.promptImageSelection (lit "Delete Image") .deleteImage
  | 6 => a.promptContainerSelection (lit "Stop Container") .stopContainer
  | 7 => a.promptContainerSelection (lit "Remove Container") .removeContainer
  | 8 => a.promptContainerSelection (lit "Open Shell") .execShell
  | 9 => a.promptContainerSelection (lit "Run Detached Command") .execDetachedCommand
  | 10 => a.promptContainerSelection (lit "Run Command with Output") .execCommandWithOutput
  | 11 =>
    .ok (a.openMessage (lit "About Tux-Dock")
      (lit "Tux-Dock 0.4.2-beta | Created by markmental"))
  | 12 => .error .exit
  | _ => .ok a

/-- The handling of an event by an input. -/
def onInputEvent (event : Event) (o : Outside) : Except Halt TuxDockApp :=
  match event with
  | .f1 => .ok (a.openHistory L env)
  | .ret => a.resolveInput L env o true
  | .escape => a.resolveInput L env o false
  | _ => .ok { a with modalInput := o.text }

/-- By the history. -/
def onHistoryEvent (event : Event) (o : Outside) : TuxDockApp :=
  match event with
  | .ret => a.resolveHistory L env
  | .escape => { a with modalMode := .input }
  | _ =>
    { a with modalHistoryIndex := moved a.modalHistoryDisplay.length a.modalHistoryIndex o.index }

/-- By a confirmation. -/
def onConfirmEvent (event : Event) : TuxDockApp :=
  match event with
  | .ret | .yes => a.resolveConfirm true
  | .escape | .no => a.resolveConfirm false
  | _ => a

/-- By a selection. -/
def onSelectEvent (event : Event) (o : Outside) : TuxDockApp :=
  match event with
  | .ret => a.resolveSelect o true
  | .escape => a.resolveSelect o false
  | _ =>
    { a with modalSelectIndex := moved a.modalSelectEntries.length a.modalSelectIndex o.index }

/-- By a message. -/
def onMessageEvent (event : Event) : TuxDockApp :=
  match event with
  | .ret | .escape => a.closeMessage
  | _ => a

/-- By the menu. -/
def onMenuEvent (event : Event) (o : Outside) : Except Halt TuxDockApp :=
  match event with
  | .ret => a.executeSelectedAction
  | _ => .ok { a with menuSelected := moved menuSize a.menuSelected o.index }

/-- `OnEvent`; the branches of it are the functions above. -/
def onEvent (event : Event) (o : Outside) : Except Halt TuxDockApp :=
  match a.modalMode with
  | .busy => .ok a
  | .input => a.onInputEvent L env event o
  | .history => .ok (a.onHistoryEvent L env event o)
  | .confirm => .ok (a.onConfirmEvent event)
  | .select => .ok (a.onSelectEvent event o)
  | .message => .ok (a.onMessageEvent event)
  | .none => a.onMenuEvent event o

/-! ### Posts -/

/-- The errors that `ApplyRefreshResults` reports. -/
def refreshError (containers : ListResult ContainerInfo) (images : ListResult ImageInfo) : Bytes :=
  let error := if containers.ok then [] else lit "Containers: " ++ containers.error
  if images.ok then error
  else (if error = [] then [] else error ++ lit "\n") ++ lit "Images: " ++ images.error

/-- `ApplyRefreshResults`: the lists that were fetched without an error are cached. -/
def applyRefreshResults (containers : ListResult ContainerInfo) (images : ListResult ImageInfo)
    (silent : Bool) : TuxDockApp :=
  let error := refreshError containers images
  let b := { a with
    containers := if containers.ok then containers.items else a.containers
    images := if images.ok then images.items else a.images }
  if silent then b
  else
    b.setStatus
      (if error = [] then lit "Docker state refreshed."
        else lit "Refresh failed; cached state preserved.\n" ++ error)

end TuxDockApp

/-- What `on_complete` does with the result. -/
def OnComplete.run (result : Bytes) (a : TuxDockApp) : OnComplete → TuxDockApp
  | commandWithOutput =>
    let failed := find result (lit "Command exited with code") 0 = some 0 ∨
      find result (lit "Command terminated by signal") 0 = some 0
    a.openListMessage (if failed then lit "Command failed" else lit "Command output")
      (.paragraph result)

/-- The closures posted to the screen. -/
inductive Post where
  | poll (containers : Fetched) (images : ListResult ImageInfo)
  | refresh (containers : Fetched) (images : ListResult ImageInfo)
  | complete (message : Bytes) (onComplete : Option OnComplete)
  | stopped (success : Bool) (message : Bytes) (containers : Fetched)
      (images : ListResult ImageInfo)
  deriving Repr, DecidableEq

/-- What the closure does when it is run. -/
def Post.run (a : TuxDockApp) : Post → TuxDockApp
  | poll containers images => a.applyRefreshResults containers.result images true
  | refresh containers images => a.applyRefreshResults containers.result images false
  | complete message onComplete =>
    let b := { a with
      operationState := a.operationState.complete message
      modalMode := .none }
    let b := match onComplete with
      | some onComplete => onComplete.run message b
      | none => b.openMessage (lit "Operation complete") message
    { b with statePoller := b.statePoller.triggerNow }
  | stopped success message containers images =>
    let b := a.applyRefreshResults containers.result images true
    { b with
      operationState := b.operationState.complete message
      modalMode := .none }.openMessage
        (if success then lit "Container stopped" else lit "Stop failed") message

/-! ### What a delivered result changes -/

theorem applyRefreshResults_containers (a : TuxDockApp) (containers : ListResult ContainerInfo)
    (images : ListResult ImageInfo) (silent : Bool) :
    (a.applyRefreshResults containers images silent).containers =
      if containers.ok then containers.items else a.containers := by
  cases silent <;> rfl

theorem applyRefreshResults_images (a : TuxDockApp) (containers : ListResult ContainerInfo)
    (images : ListResult ImageInfo) (silent : Bool) :
    (a.applyRefreshResults containers images silent).images =
      if images.ok then images.items else a.images := by
  cases silent <;> rfl

end App

end TuxDock
