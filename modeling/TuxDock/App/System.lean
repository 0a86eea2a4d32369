import TuxDock.App.Dialog
import TuxDock.Lib.Pipeline

/-!
# The system

The application with its threads and its screen: the poller, the thread of `RefreshState` and the
threads of operations go their steps in any order, and the screen handles an event or runs the
next posted closure at any time.

* `step` : the step function of the system;
* `Advance`, `advance_cases` : the steps by name, with what each requires and does;
* `works_of_advance` : what the steps of the threads leave as it is;
* `OneOperation.step` : **a dialog is busy exactly while one operation is running**, so no second
  one is begun.
-/

namespace TuxDock

namespace App

open Text History Transition Pipeline

/-! ### Threads -/

/-- The threads; those of operations by their place in `action_threads_`. -/
inductive Worker where
  | poller
  | refresh
  | action (k : ℕ)
  deriving Repr, DecidableEq

/-- Where a list of containers comes from. -/
inductive Producer where
  | poller
  | refresh
  | stop
  deriving Repr, DecidableEq

/-- Whose lists the thread fetches. -/
def Worker.producer : Worker → Producer
  | poller => .poller
  | refresh => .refresh
  | action _ => .stop

/-- What a call of the Docker manager returns. -/
structure Outcome where
  success : Bool
  output : Bytes
  message : Bytes
  deriving Repr, DecidableEq

/-- What the action of an operation returns. -/
def Operation.result (outcome : Outcome) : Operation → Bytes
  | execCommandWithOutput _ =>
    if outcome.success then outcome.output else outcome.message ++ lit "\n" ++ outcome.output
  | _ => outcome.message

/-- The operation of a thread has been run. -/
def ActionThread.act (outcome : Outcome) : ActionThread → Option ActionThread
  | busy action onComplete => some (complete (action.result outcome) onComplete)
  | stop _ _ => some (stopped outcome.success outcome.message .start)
  | _ => none

namespace TuxDockApp

variable (a : TuxDockApp)

/-- How far a thread is with its fetch; `none` when it has none to do. -/
def fetch : Worker → Option Fetch
  | .poller => a.statePoller.fetch
  | .refresh => a.refreshThread
  | .action k =>
    match a.actionThreads[k]? with
    | some (.stopped _ _ fetch) => some fetch
    | _ => none

/-- The thread goes on with its fetch. -/
def setFetch (fetch : Fetch) : Worker → TuxDockApp
  | .poller => { a with statePoller := { a.statePoller with fetch := fetch } }
  | .refresh => { a with refreshThread := fetch }
  | .action k =>
    match a.actionThreads[k]? with
    | some (.stopped success message _) =>
      { a with actionThreads := a.actionThreads.set k (.stopped success message fetch) }
    | _ => a

/-- The closure that a thread posts when it has fetched or run all, and what is left of it. -/
def post : Worker → Option (Post × TuxDockApp)
  | .poller =>
    match a.statePoller.fetch with
    | some (.images containers images) =>
      some (.poll containers images, { a with statePoller := { a.statePoller with fetch := none } })
    | _ => none
  | .refresh =>
    match a.refreshThread with
    | some (.images containers images) =>
      some (.refresh containers images, { a with refreshThread := none })
    | _ => none
  | .action k =>
    let b := { a with actionThreads := a.actionThreads.eraseIdx k }
    match a.actionThreads[k]? with
    | some (.stopped success message (.images containers images)) =>
      some (.stopped success message containers images, b)
    | some (.complete message onComplete) => some (.complete message onComplete, b)
    | _ => none

end TuxDockApp

/-! ### The step function -/

/-- A posted closure and when it was posted. -/
structure Posted where
  post : Post
  time : ℕ
  deriving Repr, DecidableEq

/-- The list of containers in a posted closure. -/
def Posted.stamp (p : Posted) : Option (Stamp Producer (ListResult ContainerInfo)) :=
  match p.post with
  | .poll containers _ => some ⟨.poller, containers.time, p.time, containers.result⟩
  | .refresh containers _ => some ⟨.refresh, containers.time, p.time, containers.result⟩
  | .stopped _ _ containers _ => some ⟨.stop, containers.time, p.time, containers.result⟩
  | .complete _ _ => none

/-- The application; the closures posted to the screen; whether its loop is running.  The time and
`held`, the delivered list that is cached, are there to speak about the order of things. -/
structure System where
  app : TuxDockApp
  queue : List Posted
  running : Bool
  held : Option (Stamp Producer (ListResult ContainerInfo))
  clock : ℕ
  deriving DecidableEq

/-- `Run` up to its loop, when the Docker engine can be reached and has given these lists. -/
def boot (historyFile : Option Bytes) (containers : ListResult ContainerInfo)
    (images : ListResult ImageInfo) : System where
  app :=
    { TuxDockApp.initial historyFile with
      containers := if containers.ok then containers.items else []
      images := if images.ok then images.items else []
      status :=
        if containers.ok = false ∨ images.ok = false then
          lit "Docker connected, but initial state could not be fully loaded."
        else if containers.items = [] ∧ images.items = [] then
          lit "Docker connected. No containers or images found."
        else lit "Docker connected. State loaded." }
  queue := []
  running := true
  held := none
  clock := 0

/-- What happens next: the screen handles an event, or runs the first closure posted; the poller
has waited long enough or was triggered; an operation runs; a thread fetches one list or the
other, or posts. -/
inductive Label where
  | event (event : Event) (o : Outside)
  | deliver
  | wake
  | act (k : ℕ) (outcome : Outcome)
  | fetchContainers (w : Worker) (result : ListResult ContainerInfo)
  | fetchImages (w : Worker) (result : ListResult ImageInfo)
  | post (w : Worker)
  deriving DecidableEq

/-- The list that the delivery of a closure puts into the cache, the one held if there is none. -/
def keep (p : Posted) (held : Option (Stamp Producer (ListResult ContainerInfo))) :
    Option (Stamp Producer (ListResult ContainerInfo)) :=
  match p.stamp with
  | some stamp => if stamp.value.ok then some stamp else held
  | none => held

variable (L : Json.Library) (env : Env)

/-- A step while the loop is running. -/
def advance (s : System) : Label → Option System
  | .event event o =>
    match s.app.onEvent L env event o with
    | .ok a => some { s with app := a }
    | .error .joining => none
    | .error _ => some { s with running := false }
  | .deliver =>
    match s.queue with
    | [] => none
    | p :: queue =>
      some { s with app := p.post.run s.app, queue := queue, held := keep p s.held }
  | .wake =>
    if s.app.statePoller.fetch = none then
      some { s with app.statePoller := ⟨false, some .start⟩ }
    else none
  | .act k outcome =>
    (s.app.actionThreads[k]?.bind (ActionThread.act outcome)).map fun thread =>
      { s with app.actionThreads := s.app.actionThreads.set k thread }
  | .fetchContainers w result =>
    match s.app.fetch w with
    | some .start => some { s with app := s.app.setFetch (.containers ⟨result, s.clock⟩) w }
    | _ => none
  | .fetchImages w result =>
    match s.app.fetch w with
    | some (.containers containers) =>
      some { s with app := s.app.setFetch (.images containers result) w }
    | _ => none
  | .post w =>
    (s.app.post w).map fun (post, a) =>
      { s with app := a, queue := s.queue ++ [⟨post, s.clock⟩] }

/-- A step of the system. -/
def step (s : System) (label : Label) : Option System :=
  if s.running then (advance L env s label).map fun t => { t with clock := s.clock + 1 } else none

/-! ### The steps by name -/

variable {L env} {s t : System} {a : TuxDockApp}

/-- The application with other threads. -/
def TuxDockApp.withThreads (a : TuxDockApp) (poller : Poller) (refreshThread : Option Fetch)
    (actionThreads : List ActionThread) : TuxDockApp :=
  { a with
    statePoller := poller
    refreshThread := refreshThread
    actionThreads := actionThreads }

theorem setFetch_cases (a : TuxDockApp) (fetch : Fetch) (w : Worker) :
    ∃ poller refresh actions, a.setFetch fetch w = a.withThreads poller refresh actions ∧
      actions.length = a.actionThreads.length := by
  cases w with
  | poller => exact ⟨_, _, _, rfl, rfl⟩
  | refresh => exact ⟨_, _, _, rfl, rfl⟩
  | action k =>
    unfold TuxDockApp.setFetch
    simp only
    split
    · exact ⟨_, _, _, rfl, List.length_set⟩
    · exact ⟨_, _, _, rfl, rfl⟩

/-- The posts of the threads, with what each requires and leaves. -/
inductive Posts (a : TuxDockApp) : Worker → Post → TuxDockApp → Prop where
  | poll (containers : Fetched) (images : ListResult ImageInfo)
      (fetched : a.statePoller.fetch = some (.images containers images)) :
    Posts a .poller (.poll containers images)
      { a with statePoller := { a.statePoller with fetch := none } }
  | refresh (containers : Fetched) (images : ListResult ImageInfo)
      (fetched : a.refreshThread = some (.images containers images)) :
    Posts a .refresh (.refresh containers images) { a with refreshThread := none }
  | stopped (k : ℕ) (success : Bool) (message : Bytes) (containers : Fetched)
      (images : ListResult ImageInfo)
      (fetched :
        a.actionThreads[k]? = some (.stopped success message (.images containers images))) :
    Posts a (.action k) (.stopped success message containers images)
      { a with actionThreads := a.actionThreads.eraseIdx k }
  | complete (k : ℕ) (message : Bytes) (onComplete : Option OnComplete)
      (ended : a.actionThreads[k]? = some (.complete message onComplete)) :
    Posts a (.action k) (.complete message onComplete)
      { a with actionThreads := a.actionThreads.eraseIdx k }

/-- **Every post is one of these.** -/
theorem posts_of_post {w : Worker} {post : Post} {b : TuxDockApp} (h : a.post w = some (post, b)) :
    Posts a w post b := by
  cases w with
  | poller =>
    simp only [TuxDockApp.post] at h
    split at h <;> cases h
    rename_i containers images hfetch
    exact .poll containers images hfetch
  | refresh =>
    simp only [TuxDockApp.post] at h
    split at h <;> cases h
    rename_i containers images hfetch
    exact .refresh containers images hfetch
  | action k =>
    simp only [TuxDockApp.post] at h
    split at h <;> cases h
    · rename_i success message containers images hk
      exact .stopped k success message containers images hk
    · rename_i message onComplete hk
      exact .complete k message onComplete hk

/-- The steps while the loop is running, with what each requires and does. -/
inductive Advance (L : Json.Library) (env : Env) (s : System) : Label → System → Prop where
  | event (event : Event) (o : Outside) (a : TuxDockApp)
      (handled : s.app.onEvent L env event o = .ok a) :
    Advance L env s (.event event o) { s with app := a }
  | halt (event : Event) (o : Outside) (halt : Halt)
      (handled : s.app.onEvent L env event o = .error halt) (ends : halt ≠ .joining) :
    Advance L env s (.event event o) { s with running := false }
  | deliver (p : Posted) (queue : List Posted) (next : s.queue = p :: queue) :
    Advance L env s .deliver
      { s with app := p.post.run s.app, queue := queue, held := keep p s.held }
  | wake (waits : s.app.statePoller.fetch = none) :
    Advance L env s .wake { s with app.statePoller := ⟨false, some .start⟩ }
  | act (k : ℕ) (outcome : Outcome) (old new : ActionThread)
      (runs : s.app.actionThreads[k]? = some old) (acts : old.act outcome = some new) :
    Advance L env s (.act k outcome)
      { s with app.actionThreads := s.app.actionThreads.set k new }
  | fetchContainers (w : Worker) (result : ListResult ContainerInfo)
      (starts : s.app.fetch w = some .start) :
    Advance L env s (.fetchContainers w result)
      { s with app := s.app.setFetch (.containers ⟨result, s.clock⟩) w }
  | fetchImages (w : Worker) (result : ListResult ImageInfo) (containers : Fetched)
      (fetched : s.app.fetch w = some (.containers containers)) :
    Advance L env s (.fetchImages w result)
      { s with app := s.app.setFetch (.images containers result) w }
  | post (w : Worker) (post : Post) (a : TuxDockApp) (posts : s.app.post w = some (post, a)) :
    Advance L env s (.post w) { s with app := a, queue := s.queue ++ [⟨post, s.clock⟩] }

/-- A step advances a system that is running, and its clock. -/
theorem advance_of_step {label : Label} (hstep : step L env s label = some t) :
    s.running = true ∧
      ∃ u, advance L env s label = some u ∧ t = { u with clock := s.clock + 1 } := by
  obtain ⟨hrunning, hadvance⟩ := Option.ite_none_right_eq_some.1 hstep
  obtain ⟨u, hu, rfl⟩ := Option.map_eq_some_iff.1 hadvance
  exact ⟨hrunning, u, hu, rfl⟩

/-- **Every step is one of these.** -/
theorem advance_cases {label : Label} (h : advance L env s label = some t) :
    Advance L env s label t := by
  cases label with
  | event event o =>
    simp only [advance] at h
    split at h
    · rename_i a handled
      cases h
      exact .event event o a handled
    · cases h
    · rename_i halt ends handled
      cases h
      exact .halt event o halt handled ends
  | deliver =>
    simp only [advance] at h
    split at h <;> cases h
    rename_i p queue next
    exact .deliver p queue next
  | wake =>
    obtain ⟨waits, heq⟩ := Option.ite_none_right_eq_some.1 h
    cases heq
    exact .wake waits
  | act k outcome =>
    obtain ⟨new, hnew, rfl⟩ := Option.map_eq_some_iff.1 h
    obtain ⟨old, runs, acts⟩ := Option.bind_eq_some_iff.1 hnew
    exact .act k outcome old new runs acts
  | fetchContainers w result =>
    simp only [advance] at h
    split at h <;> cases h
    rename_i starts
    exact .fetchContainers w result starts
  | fetchImages w result =>
    simp only [advance] at h
    split at h <;> cases h
    rename_i containers fetched
    exact .fetchImages w result containers fetched
  | post w =>
    obtain ⟨⟨post, a⟩, posts, rfl⟩ := Option.map_eq_some_iff.1 h
    exact .post w post a posts

/-! ### The steps of the threads -/

/-- The closure ends an operation. -/
def Post.isCompletion : Post → Bool
  | complete _ _ => true
  | stopped _ _ _ _ => true
  | _ => false

theorem post_cases {w : Worker} {post : Post} {b : TuxDockApp} (h : a.post w = some (post, b)) :
    ∃ poller refresh actions, b = a.withThreads poller refresh actions ∧
      actions.length + (if post.isCompletion then 1 else 0) = a.actionThreads.length := by
  have hlength {k : ℕ} {thread : ActionThread} (hk : a.actionThreads[k]? = some thread) :
      (a.actionThreads.eraseIdx k).length + 1 = a.actionThreads.length := by
    obtain ⟨hlt, -⟩ := List.getElem?_eq_some_iff.1 hk
    rw [List.length_eraseIdx_of_lt hlt]
    omega
  cases posts_of_post h with
  | poll containers images fetched => exact ⟨_, _, _, rfl, rfl⟩
  | refresh containers images fetched => exact ⟨_, _, _, rfl, rfl⟩
  | stopped k success message containers images fetched =>
    exact ⟨_, _, _, rfl, hlength fetched⟩
  | complete k message onComplete ended => exact ⟨_, _, _, rfl, hlength ended⟩

/-- What the steps of the threads do: a completion is posted when a thread ends, and nothing else is
changed that the screen sees. -/
structure Works (s t : System) : Prop where
  dialog : t.app.dialog = s.app.dialog
  operationState : t.app.operationState = s.app.operationState
  containers : t.app.containers = s.app.containers
  held : t.held = s.held
  conserved : t.app.actionThreads.length + t.queue.countP (·.post.isCompletion) =
    s.app.actionThreads.length + s.queue.countP (·.post.isCompletion)
  ends : t.app.actionThreads.length ≤ s.app.actionThreads.length

theorem works_setFetch (s : System) (fetch : Fetch) (w : Worker) :
    Works s { s with app := s.app.setFetch fetch w } := by
  obtain ⟨poller, refresh, actions, heq, hlength⟩ := setFetch_cases s.app fetch w
  rw [heq]
  exact ⟨rfl, rfl, rfl, rfl, congrArg (· + _) hlength, hlength.le⟩

/-- **A step that neither handles an event nor delivers is one of a thread.** -/
theorem works_of_advance {label : Label} (hadvance : advance L env s label = some t)
    (hevent : ∀ event o, label ≠ .event event o) (hdeliver : label ≠ .deliver) : Works s t := by
  cases advance_cases hadvance with
  | event event o a handled => exact absurd rfl (hevent event o)
  | halt event o halt handled ends => exact absurd rfl (hevent event o)
  | deliver p queue next => exact absurd rfl hdeliver
  | wake waits => exact ⟨rfl, rfl, rfl, rfl, rfl, le_rfl⟩
  | act k outcome old new runs acts =>
    exact ⟨rfl, rfl, rfl, rfl, congrArg (· + _) List.length_set, List.length_set.le⟩
  | fetchContainers w result starts => exact works_setFetch s _ w
  | fetchImages w result containers fetched => exact works_setFetch s _ w
  | post w post a posts =>
    obtain ⟨poller, refresh, actions, rfl, hlength⟩ := post_cases posts
    refine ⟨rfl, rfl, rfl, rfl, ?_, ?_⟩
    · simp only [TuxDockApp.withThreads, List.countP_append, List.countP_singleton]
      omega
    · simp only [TuxDockApp.withThreads]
      omega

/-! ### One operation at a time -/

/-- A dialog is busy exactly while an operation is running, and then it is one. -/
structure OneOperation (s : System) : Prop where
  outstanding : s.app.actionThreads.length + s.queue.countP (·.post.isCompletion) =
    if s.app.modalMode = .busy then 1 else 0
  busy : s.app.operationState.busy = decide (s.app.modalMode = .busy)

theorem OneOperation.event {event : Event} {o : Outside} (h : OneOperation s)
    (hevent : s.app.onEvent L env event o = .ok a) : OneOperation { s with app := a } := by
  by_cases hmode : s.app.modalMode = .busy
  · obtain rfl := onEvent_busy hmode hevent
    exact h
  · obtain ⟨houtstanding, hbusy⟩ := h
    rw [if_neg hmode] at houtstanding
    rw [decide_eq_false hmode] at hbusy
    have hquiet {b : TuxDockApp} (hb : Quiet s.app b) :
        b.actionThreads = s.app.actionThreads ∧ b.operationState = s.app.operationState :=
      ⟨congrArg Shared.actionThreads hb.shared, congrArg Shared.operationState hb.shared⟩
    cases onEvent_cases hmode hevent with
    | quiet quiet =>
      obtain ⟨hthreads, hstate⟩ := hquiet quiet
      refine ⟨?_, ?_⟩
      · rw [if_neg quiet.mode, hthreads]
        exact houtstanding
      · rw [hstate, hbusy, decide_eq_false quiet.mode]
    | refresh b quiet ended eq =>
      obtain ⟨hthreads, hstate⟩ := hquiet quiet
      subst eq
      refine ⟨?_, ?_⟩
      · simp only [if_neg quiet.mode, hthreads]
        exact houtstanding
      · simp only [hstate, hbusy, decide_eq_false quiet.mode]
    | operation b title message thread quiet fresh eq =>
      obtain ⟨hthreads, -⟩ := hquiet quiet
      subst eq
      refine ⟨?_, rfl⟩
      simp only [TuxDockApp.beginOperation, hthreads, List.length_append, List.length_singleton,
        ↓reduceIte]
      omega

theorem OneOperation.deliver {p : Posted} {queue : List Posted} (h : OneOperation s)
    (hqueue : s.queue = p :: queue) :
    OneOperation { s with app := p.post.run s.app, queue := queue, held := keep p s.held } := by
  obtain ⟨houtstanding, hbusy⟩ := h
  rw [hqueue, List.countP_cons] at houtstanding
  obtain ⟨post, time⟩ := p
  -- a completion was the only operation, and leaves a message
  have hempty (hpost : post.isCompletion = true) :
      s.app.actionThreads.length + queue.countP (·.post.isCompletion) = 0 := by
    simp only [hpost, ↓reduceIte] at houtstanding
    split_ifs at houtstanding
    omega
  cases post with
  | poll containers images => exact ⟨houtstanding, hbusy⟩
  | refresh containers images => exact ⟨houtstanding, hbusy⟩
  | complete message onComplete =>
    have hlast := hempty rfl
    cases onComplete with
    | none => exact ⟨hlast, rfl⟩
    | some onComplete =>
      cases onComplete
      exact ⟨hlast, rfl⟩
  | stopped success message containers images => exact ⟨hempty rfl, rfl⟩

theorem OneOperation.works (h : OneOperation s) (hworks : Works s t) : OneOperation t := by
  have hmode : t.app.modalMode = s.app.modalMode := congrArg Dialog.mode hworks.dialog
  refine ⟨?_, ?_⟩
  · rw [hworks.conserved, hmode]
    exact h.outstanding
  · rw [hworks.operationState, hmode]
    exact h.busy

theorem OneOperation.advance {label : Label} (h : OneOperation s)
    (hadvance : App.advance L env s label = some t) : OneOperation t := by
  cases advance_cases hadvance with
  | event event o a handled => exact h.event handled
  | halt event o halt handled ends => exact ⟨h.outstanding, h.busy⟩
  | deliver p queue next => exact h.deliver next
  | wake | act | fetchContainers | fetchImages | post =>
    exact h.works (works_of_advance hadvance nofun nofun)

/-- **One operation at a time**: a step preserves it. -/
theorem OneOperation.step {label : Label} (h : OneOperation s)
    (hstep : App.step L env s label = some t) : OneOperation t := by
  obtain ⟨-, u, hu, rfl⟩ := advance_of_step hstep
  exact ⟨(h.advance hu).outstanding, (h.advance hu).busy⟩

theorem OneOperation.action {k : ℕ} {thread : ActionThread} (h : OneOperation s)
    (hk : s.app.actionThreads[k]? = some thread) : k = 0 ∧ s.app.actionThreads = [thread] := by
  obtain ⟨hlt, hget⟩ := List.getElem?_eq_some_iff.1 hk
  have hone : s.app.actionThreads.length = 1 := by
    have houtstanding := h.outstanding
    split_ifs at houtstanding <;> omega
  obtain ⟨only, honly⟩ := List.length_eq_one_iff.1 hone
  have hk0 : k = 0 := by omega
  subst hk0
  simp only [honly, List.getElem_cons_zero] at hget
  exact ⟨rfl, by rw [honly, hget]⟩

/-- While no dialog is busy nothing is running and no completion is posted. -/
theorem OneOperation.quiet (h : OneOperation s) (hmode : s.app.modalMode ≠ .busy) :
    s.app.actionThreads = [] ∧ ∀ p ∈ s.queue, p.post.isCompletion = false := by
  have houtstanding := h.outstanding
  rw [if_neg hmode, Nat.add_eq_zero_iff, List.length_eq_zero_iff,
    List.countP_eq_zero] at houtstanding
  exact ⟨houtstanding.1, fun p hp => Bool.eq_false_iff.2 (houtstanding.2 p hp)⟩

theorem OneOperation.boot (historyFile : Option Bytes) (containers : ListResult ContainerInfo)
    (images : ListResult ImageInfo) : OneOperation (boot historyFile containers images) :=
  ⟨rfl, rfl⟩

end App

end TuxDock
