import TuxDock.Http.Client

/-!
# The Docker manager

The calls of `DockerManager` that change a container or an image: each sends one request and maps
the status of the response to success or failure, with a message.  The engine client is a parameter,
as it is a virtual function of the source.

* `stateChange` : what `startDetached`, `deleteImage` and `removeContainer` have in common: one
  status besides `2xx` counts as success;
* `stopContainer` : checks its arguments first, and accepts two.
-/

namespace TuxDock

namespace Docker

open Text Http

/-- The arguments of `DockerEngineClient::request`, with its defaults. -/
structure Request where
  method : Bytes
  path : Bytes
  body : Bytes := []
  timeoutSeconds : ℤ := 10
  deriving Repr, DecidableEq

/-- What a call of the manager comes to; a call that returns has set its message. -/
inductive Call where
  | returned (ok : Bool) (message : Bytes)
  | fault (f : Fault)
  | waiting
  deriving Repr, DecidableEq

/-- `apiError`: the error of the response, or a text instead of it. -/
def apiError (response : EngineResponse) (fallback : String) : Bytes :=
  if response.error ≠ [] then response.error else lit fallback

/-- The part of a call after the response. -/
def andThen (exchange : Exchange) (f : EngineResponse → Bool × Bytes) : Call :=
  match exchange with
  | .response r => .returned (f r).1 (f r).2
  | .fault fault => .fault fault
  | .waiting => .waiting

/-- A success, a status that says it had been done before, or an error. -/
def stateChange (done : String) (doneBefore : ℤ) (already failed : String) (r : EngineResponse) :
    Bool × Bytes :=
  if r.ok then (true, lit done)
  else if r.statusCode = doneBefore then (true, lit already)
  else (false, apiError r failed)

/-- The end of `startDetached`. -/
def started : EngineResponse → Bool × Bytes :=
  stateChange "Container started in detached mode." 304 "Container already started."
    "Could not start that container."

/-- The end of `deleteImage`. -/
def imageDeleted : EngineResponse → Bool × Bytes :=
  stateChange "Image deleted." 404 "Image already deleted." "Could not delete that image."

/-- The end of `removeContainer`. -/
def removed : EngineResponse → Bool × Bytes :=
  stateChange "Container removed." 404 "Container already removed."
    "Could not remove that container."

/-- The end of `stopContainer`. -/
def stopped (r : EngineResponse) : Bool × Bytes :=
  if r.ok ∨ r.statusCode = 304 ∨ r.statusCode = 404 then (true, lit "Container stopped.")
  else (false, apiError r "Could not stop that container.")

section Calls

variable (engine : Request → Exchange) (id : Bytes)

/-- The request of `startDetached`. -/
def startRequest : Request := ⟨lit "POST", lit "/containers/" ++ id ++ lit "/start", [], 10⟩

/-- `startDetached`. -/
def startDetached : Call := andThen (engine (startRequest id)) started

/-- The request of `deleteImage`. -/
def deleteImageRequest : Request := ⟨lit "DELETE", lit "/images/" ++ id, [], 10⟩

/-- `deleteImage`. -/
def deleteImage : Call := andThen (engine (deleteImageRequest id)) imageDeleted

/-- The timeout is longer than the grace period, so as not to race with it.  The sum is an `int`,
which overflows for the five largest numbers; the application asks for 300 seconds at most. -/
def stopRequest (timeoutSeconds : ℤ) : Request :=
  ⟨lit "POST", lit "/containers/" ++ id ++ lit "/stop?t=" ++ lit (toString timeoutSeconds), [],
    timeoutSeconds + 5⟩

/-- `stopContainer`. -/
def stopContainer (timeoutSeconds : ℤ) : Call :=
  if id = [] then .returned false (lit "Please provide a container ID.")
  else if timeoutSeconds < 0 then .returned false (lit "Stop timeout cannot be negative.")
  else andThen (engine (stopRequest id timeoutSeconds)) stopped

/-- The request of `removeContainer`. -/
def removeRequest : Request := ⟨lit "DELETE", lit "/containers/" ++ id, [], 10⟩

/-- `removeContainer`. -/
def removeContainer : Call := andThen (engine (removeRequest id)) removed

end Calls

/-! ### The four actions -/

/-- A call that changes the state of the engine. -/
inductive Action where
  | start (id : Bytes)
  | stop (id : Bytes) (timeoutSeconds : ℤ)
  | remove (id : Bytes)
  | deleteImage (id : Bytes)
  deriving Repr, DecidableEq

namespace Action

/-- The call of the manager. -/
def call (engine : Request → Exchange) : Action → Call
  | start id => startDetached engine id
  | stop id timeoutSeconds => stopContainer engine id timeoutSeconds
  | remove id => removeContainer engine id
  | deleteImage id => Docker.deleteImage engine id

/-- The request that the call sends. -/
def request : Action → Request
  | start id => startRequest id
  | stop id timeoutSeconds => stopRequest id timeoutSeconds
  | remove id => removeRequest id
  | deleteImage id => deleteImageRequest id

/-- What the call makes of the response. -/
def result : Action → EngineResponse → Bool × Bytes
  | start _ => started
  | stop _ _ => stopped
  | remove _ => removed
  | deleteImage _ => imageDeleted

/-- The call sends its request: `stopContainer` refuses some arguments before that. -/
def Sends : Action → Prop
  | stop id timeoutSeconds => id ≠ [] ∧ 0 ≤ timeoutSeconds
  | _ => True

/-- The statuses a call counts as success besides `2xx`. -/
def alsoDone : Action → List ℤ
  | start _ => [304]
  | stop _ _ => [304, 404]
  | remove _ | deleteImage _ => [404]

/-- **A call is its request and what it makes of the response.** -/
theorem call_eq (a : Action) (h : a.Sends) (engine : Request → Exchange) :
    a.call engine = andThen (engine a.request) a.result := by
  cases a with
  | stop id timeoutSeconds =>
    obtain ⟨hid, htimeout⟩ := h
    rw [call, stopContainer, if_neg hid, if_neg htimeout.not_gt]
    rfl
  | _ => rfl

/-- **A call succeeds** on a `2xx` response without an error and on its other statuses. -/
theorem result_iff (a : Action) (r : EngineResponse) :
    (a.result r).1 = true ↔ r.ok = true ∨ r.statusCode ∈ a.alsoDone := by
  have hchange (done already failed : String) (doneBefore : ℤ) :
      (stateChange done doneBefore already failed r).1 = true ↔
        r.ok = true ∨ r.statusCode ∈ [doneBefore] := by
    rw [stateChange, List.mem_singleton]
    split_ifs with hok hstatus
    · exact iff_of_true rfl (Or.inl hok)
    · exact iff_of_true rfl (Or.inr hstatus)
    · exact iff_of_false (by simp) (by simp [hok, hstatus])
  cases a with
  | stop id timeoutSeconds =>
    simp only [result, stopped, alsoDone, List.mem_cons, List.not_mem_nil, or_false]
    split_ifs with h
    · exact iff_of_true rfl h
    · exact iff_of_false (by simp) h
  | start id => exact hchange _ _ _ _
  | remove id => exact hchange _ _ _ _
  | deleteImage id => exact hchange _ _ _ _

end Action

end Docker

end TuxDock
