import TuxDock.History.Store

/-!
# The application

The state of `TuxDockApp` and the functions of it that open a modal dialog or start a thread.

A `std::function` of the source is a value of one of the callback types: which lambda it is, with
what the lambda has captured.  The threads are members of the state, with what they have done so
far; what they do next is up to the system around the application.
-/

namespace TuxDock

namespace App

open Text History

/-! ### Data -/

/-- A container in the list. -/
structure ContainerInfo where
  id : Bytes
  name : Bytes
  status : Bytes
  ports : Bytes
  running : Bool
  deriving Repr, DecidableEq

/-- An id and a tag. -/
abbrev ImageInfo := Bytes × Bytes

/-- The items of a list and the error of fetching it, which is empty for none. -/
structure ListResult (α : Type) where
  items : List α
  error : Bytes
  deriving Repr, DecidableEq

/-- There is no error. -/
def ListResult.ok {α : Type} (r : ListResult α) : Bool := r.error = []

/-- What is known of the operation of the busy dialog. -/
structure OperationState where
  busy : Bool
  title : Bytes
  message : Bytes
  result : Bytes
  deriving Repr, DecidableEq

namespace OperationState

/-- An operation with this title and this message is begun. -/
def begin (title message : Bytes) : OperationState := ⟨true, title, message, []⟩

/-- The operation is over. -/
def complete (s : OperationState) (result : Bytes) : OperationState :=
  { s with busy := false, result := result }

end OperationState

/-- What is open. -/
inductive ModalMode where
  | none
  | input
  | confirm
  | select
  | message
  | busy
  | history
  deriving Repr, DecidableEq

/-- What the prompts for a new container have been told. -/
structure RunContainerContext where
  name : Bytes
  image : Bytes
  portCount : ℤ
  ports : List Bytes
  deriving Repr, DecidableEq

/-- The content of a list message. -/
inductive Element where
  | containers (items : List ContainerInfo)
  | images (items : List ImageInfo)
  | paragraph (text : Bytes)
  deriving Repr, DecidableEq

/-! ### Callbacks -/

/-- The callbacks given to `OpenInput`. -/
inductive InputCallback where
  | pullImage
  | containerName (context : RunContainerContext)
  | portCount (context : RunContainerContext)
  | portMapping (context : RunContainerContext) (index : ℤ)
  | stopTimeout (id : Bytes)
  | detachedCommand
  | commandWithOutput
  deriving Repr, DecidableEq

/-- The callbacks given to `OpenConfirm`. -/
inductive ConfirmCallback where
  | deleteImage (id : Bytes)
  | removeContainer (id : Bytes)
  deriving Repr, DecidableEq

/-- The callbacks given to `PromptContainerSelection`. -/
inductive ContainerCallback where
  | startDetached
  | stopContainer
  | removeContainer
  | execShell
  | execDetachedCommand
  | execCommandWithOutput
  deriving Repr, DecidableEq

/-- The callbacks given to `PromptImageSelection`. -/
inductive ImageCallback where
  | runContainer
  | deleteImage
  deriving Repr, DecidableEq

/-- The callbacks given to `OpenSelect`, with the callback they have captured. -/
inductive SelectCallback where
  | container (callback : ContainerCallback)
  | image (callback : ImageCallback)
  deriving Repr, DecidableEq

/-- The actions given to `BeginBusyOperation`. -/
inductive Operation where
  | pullImage (image : Bytes)
  | createContainer (name image : Bytes) (ports : List Bytes)
  | startDetached (id : Bytes)
  | deleteImage (id : Bytes)
  | removeContainer (id : Bytes)
  | execDetachedCommand (command : Bytes)
  | execCommandWithOutput (command : Bytes)
  deriving Repr, DecidableEq

/-- The `on_complete` given to `BeginBusyOperation`. -/
inductive OnComplete where
  | commandWithOutput
  deriving Repr, DecidableEq

/-! ### Threads -/

/-- A result of `getContainerList` and when it was fetched. -/
structure Fetched where
  result : ListResult ContainerInfo
  time : ℕ
  deriving Repr, DecidableEq

/-- How far a thread is that calls `getContainerList`, then `getImageList`, then `Post`. -/
inductive Fetch where
  | start
  | containers (containers : Fetched)
  | images (containers : Fetched) (images : ListResult ImageInfo)
  deriving Repr, DecidableEq

/-- A thread of an operation: before the operation, and after it. -/
inductive ActionThread where
  | busy (action : Operation) (onComplete : Option OnComplete)
  | complete (message : Bytes) (onComplete : Option OnComplete)
  | stop (id : Bytes) (timeoutSeconds : ℤ)
  | stopped (success : Bool) (message : Bytes) (fetch : Fetch)
  deriving Repr, DecidableEq

/-- The poller; it waits when it has nothing to fetch. -/
structure Poller where
  immediate : Bool
  fetch : Option Fetch
  deriving Repr, DecidableEq

/-- `triggerNow`. -/
def Poller.triggerNow (p : Poller) : Poller := { p with immediate := true }

/-! ### The state -/

/-- The members of `TuxDockApp`.  `historyFile` is the history file, and `calls` is no member
either: it records the calls of the callbacks of a selection, the newest first. -/
structure TuxDockApp where
  containers : List ContainerInfo
  images : List ImageInfo
  menuSelected : ℤ
  status : Bytes
  modalMode : ModalMode
  modalTitle : Bytes
  modalText : Bytes
  modalInput : Bytes
  modalContent : Option Element
  modalSelectEntries : List Bytes
  modalSelectIndex : ℤ
  modalHistoryDisplay : List Bytes
  modalHistoryEntries : List DetachedHistoryEntry
  modalHistoryIndex : ℤ
  historyContainerId : Bytes
  historyContainerName : Bytes
  inputCallback : Option InputCallback
  confirmCallback : Option ConfirmCallback
  selectCallback : Option SelectCallback
  /-- The thread of `RefreshState`, unless it has ended. -/
  refreshThread : Option Fetch
  /-- The threads of operations that have not ended. -/
  actionThreads : List ActionThread
  operationState : OperationState
  statePoller : Poller
  historyFile : Option Bytes
  calls : List (SelectCallback × Bytes × Bytes)
  deriving Repr, DecidableEq

/-- The members as they are constructed, with the history file that is there. -/
def TuxDockApp.initial (historyFile : Option Bytes) : TuxDockApp where
  containers := []
  images := []
  menuSelected := 0
  status := lit "Ready. Select an action and press Enter."
  modalMode := .none
  modalTitle := []
  modalText := []
  modalInput := []
  modalContent := none
  modalSelectEntries := []
  modalSelectIndex := 0
  modalHistoryDisplay := []
  modalHistoryEntries := []
  modalHistoryIndex := 0
  historyContainerId := []
  historyContainerName := []
  inputCallback := none
  confirmCallback := none
  selectCallback := none
  refreshThread := none
  actionThreads := []
  operationState := ⟨false, [], [], []⟩
  statePoller := ⟨false, none⟩
  historyFile := historyFile
  calls := []

/-- Why an event is not handled to its end: the handler waits for the refresh thread, an exception
leaves the event loop, or the loop is asked to end. -/
inductive Halt where
  | joining
  | exception
  | exit
  deriving Repr, DecidableEq

/-- What the outside adds to the handling of an event: the time, what a component of the terminal
library makes of its text or its index, and the message of a shell session. -/
structure Outside where
  now : Timestamp
  text : Bytes
  index : ℤ
  message : Bytes
  deriving DecidableEq

/-- The longest grace period, in seconds. -/
def kMaxStopTimeout : ℤ := 300

/-- `static_cast<int>` of a size. -/
@[irreducible] def toInt (n : ℕ) : ℤ := (n : ℤ).bmod (2 ^ 32)

/-- There is a digit, and nothing else. -/
def isDigits (value : Bytes) : Bool := value ≠ [] && value.all (isDigit 10)

/-- `std::isalnum` in the C locale: the digits of base 36. -/
def isValidContainerName (name : Bytes) : Bool :=
  name ≠ [] && name.all fun c => isDigit 36 c || (lit "_.-").contains c

/-- The first twelve characters. -/
def shortId (id : Bytes) : Bytes := if id.length ≤ 12 then id else id.take 12

/-- Digits, a colon, and digits. -/
def isValidPortMapping (mapping : Bytes) : Bool :=
  match find mapping (lit ":") 0 with
  | none => false
  | some separator => isDigits (mapping.take separator) && isDigits (mapping.drop (separator + 1))

namespace TuxDockApp

variable (a : TuxDockApp)

/-- `SetStatus`. -/
def setStatus (message : Bytes) : TuxDockApp := { a with status := message }

/-! ### Dialogs -/

/-- `OpenInput`. -/
def openInput (title text : Bytes) (callback : InputCallback) (initialValue : Bytes) :
    TuxDockApp :=
  { a with
    modalMode := .input
    modalTitle := title
    modalText := text
    modalInput := initialValue
    inputCallback := some callback }

/-- `OpenConfirm`. -/
def openConfirm (title text : Bytes) (callback : ConfirmCallback) : TuxDockApp :=
  { a with
    modalMode := .confirm
    modalTitle := title
    modalText := text
    confirmCallback := some callback }

/-- `OpenSelect`. -/
def openSelect (title text : Bytes) (options : List Bytes) (callback : SelectCallback) :
    TuxDockApp :=
  { a with
    modalMode := .select
    modalTitle := title
    modalText := text
    modalSelectEntries := options
    modalSelectIndex := 0
    selectCallback := some callback }

/-- `OpenMessage`. -/
def openMessage (title text : Bytes) : TuxDockApp :=
  { a with modalMode := .message, modalTitle := title, modalText := text, modalContent := none }

/-- `OpenListMessage`. -/
def openListMessage (title : Bytes) (content : Element) : TuxDockApp :=
  { a with modalMode := .message, modalTitle := title, modalText := [], modalContent := content }

/-- `CloseMessage`. -/
def closeMessage : TuxDockApp := { a with modalMode := .none, modalContent := none }

/-! ### Threads -/

/-- `RefreshState`.  It joins the thread of the refresh before it. -/
def refreshState (message : Bytes) : Except Halt TuxDockApp :=
  match a.refreshThread with
  | some _ => .error .joining
  | none => .ok { a.setStatus message with refreshThread := some .start }

/-- What `BeginBusyOperation` and `BeginStopOperation` have in common. -/
def beginOperation (title message : Bytes) (thread : ActionThread) : TuxDockApp :=
  { a with
    operationState := .begin title message
    modalMode := .busy
    actionThreads := a.actionThreads ++ [thread] }

/-- `BeginBusyOperation`. -/
def beginBusyOperation (title message : Bytes) (action : Operation)
    (onComplete : Option OnComplete) : TuxDockApp :=
  a.beginOperation title message (.busy action onComplete)

/-- `BeginStopOperation`. -/
def beginStopOperation (id : Bytes) (timeoutSeconds : ℤ) : TuxDockApp :=
  a.beginOperation (lit "Stopping container") (lit "Stopping and refreshing state...")
    (.stop id timeoutSeconds)

/-! ### Selections -/

/-- The line of a container in a selection. -/
def containerOption (container : ContainerInfo) : Bytes :=
  container.name ++ lit " (" ++ shortId container.id ++ lit ") [" ++
    (if container.running then lit "running" else lit "stopped") ++ lit "]"

/-- The line of an image. -/
def imageOption (image : ImageInfo) : Bytes := image.2 ++ lit " (" ++ shortId image.1 ++ lit ")"

/-- `PromptContainerSelection`: without a cached container it refreshes the lists. -/
def promptContainerSelection (title : Bytes) (callback : ContainerCallback) :
    Except Halt TuxDockApp :=
  if a.containers = [] then a.refreshState (lit "No cached containers. Refreshing...")
  else
    .ok (a.openSelect title (lit "Select a container with arrows and press Enter.")
      (a.containers.map containerOption) (.container callback))

/-- `PromptImageSelection`, in the same way. -/
def promptImageSelection (title : Bytes) (callback : ImageCallback) : Except Halt TuxDockApp :=
  if a.images = [] then a.refreshState (lit "No cached images. Refreshing...")
  else
    .ok (a.openSelect title (lit "Select an image with arrows and press Enter.")
      (a.images.map imageOption) (.image callback))

end TuxDockApp

end App

end TuxDock
