import TuxDock.App.Modal

/-!
# What the prompts are about

A prompt, a confirmation or an operation is about the entry of a list that was chosen for it.  What
was chosen is handed on in the callbacks, or kept in `history_container_id_` and
`history_container_name_`.

* `AllAbout` : all that is open and running is about one selection;
* `AboutSince.step` : it is about the newest of the selections made since some point, and of these
  only: **a step preserves it**;
* `about_newest` : **in every run everything is about the newest selection.**
-/

namespace TuxDock

namespace App

open Text History Transition

/-! ### Subjects -/

/-- A callback of a selection and the entry it was called with. -/
abbrev Selection := SelectCallback × Bytes × Bytes

/-- The id and the name of the container that the prompts for a command are about. -/
def TuxDockApp.commandContainer (a : TuxDockApp) : Bytes × Bytes :=
  (a.historyContainerId, a.historyContainerName)

/-- An image was chosen for a new container. -/
def ChosenFor (image : Bytes) (selection : Option Selection) : Prop :=
  ∃ id, selection = some (.image .runContainer, id, image)

/-- The container was chosen by its entry. -/
def ContainerCallback.Chose (callback : ContainerCallback) (id : Bytes)
    (selection : Option Selection) : Prop :=
  ∃ name, selection = some (.container callback, id, name)

/-- The image was chosen by its entry. -/
def ImageCallback.Chose (callback : ImageCallback) (id : Bytes) (selection : Option Selection) :
    Prop :=
  ∃ tag, selection = some (.image callback, id, tag)

/-- What an input asks is about the selection. -/
def InputCallback.About (container : Bytes × Bytes) (selection : Option Selection) :
    InputCallback → Prop
  | pullImage => True
  | containerName context | portCount context | portMapping context _ =>
    ChosenFor context.image selection
  | stopTimeout id => ContainerCallback.stopContainer.Chose id selection
  | detachedCommand => selection = some (.container .execDetachedCommand, container)
  | commandWithOutput => selection = some (.container .execCommandWithOutput, container)

/-- What a confirmation would delete is what was selected. -/
def ConfirmCallback.About (selection : Option Selection) : ConfirmCallback → Prop
  | deleteImage id => ImageCallback.deleteImage.Chose id selection
  | removeContainer id => ContainerCallback.removeContainer.Chose id selection

/-- The commands are run in the container that the members name. -/
def Operation.About (container : Bytes × Bytes) (selection : Option Selection) : Operation → Prop
  | pullImage _ => True
  | createContainer _ image _ => ChosenFor image selection
  | startDetached id => ContainerCallback.startDetached.Chose id selection
  | deleteImage id => ImageCallback.deleteImage.Chose id selection
  | removeContainer id => ContainerCallback.removeContainer.Chose id selection
  | execDetachedCommand _ => selection = some (.container .execDetachedCommand, container)
  | execCommandWithOutput _ => selection = some (.container .execCommandWithOutput, container)

/-- A thread whose operation is over is about nothing any more. -/
def ActionThread.About (container : Bytes × Bytes) (selection : Option Selection) :
    ActionThread → Prop
  | busy action _ => action.About container selection
  | stop id _ => ContainerCallback.stopContainer.Chose id selection
  | complete _ _ | stopped _ _ _ => True

/-- All that is open and running is about this selection. -/
structure AllAbout (selection : Option Selection) (a : TuxDockApp) : Prop where
  input : ∀ callback, a.inputCallback = some callback →
    callback.About a.commandContainer selection
  confirm : ∀ callback, a.confirmCallback = some callback → callback.About selection
  threads : ∀ thread ∈ a.actionThreads, thread.About a.commandContainer selection

/-- All that is open and running is about the newest selection of those made after `base`. -/
def AboutSince (base : List Selection) (a : TuxDockApp) : Prop :=
  ∃ made, a.calls = made ++ base ∧ AllAbout made.head? a

variable {L : Json.Library} {env : Env} {a b : TuxDockApp} {o : Outside}
  {selection : Option Selection} {base : List Selection}

/-! ### What is opened -/

/-- Nothing is asked and nothing is running. -/
structure Idle (a : TuxDockApp) : Prop where
  input : a.inputCallback = none
  confirm : a.confirmCallback = none
  threads : a.actionThreads = []

theorem Idle.setStatus (h : Idle a) (message : Bytes) : Idle (a.setStatus message) :=
  ⟨h.input, h.confirm, h.threads⟩

theorem Idle.setHistoryFile (h : Idle a) (file : Option Bytes) :
    Idle { a with historyFile := file } :=
  ⟨h.input, h.confirm, h.threads⟩

theorem Idle.about (h : Idle a) : AllAbout selection a where
  input callback hcallback := by rw [h.input] at hcallback; cases hcallback
  confirm callback hcallback := by rw [h.confirm] at hcallback; cases hcallback
  threads thread hthread := by rw [h.threads] at hthread; cases hthread

theorem Idle.about_openInput {callback : InputCallback} {title text initialValue : Bytes}
    (h : Idle a) (hcallback : callback.About a.commandContainer selection) :
    AllAbout selection (a.openInput title text callback initialValue) where
  input callback' hcallback' := by cases hcallback'; exact hcallback
  confirm := h.about.confirm
  threads := h.about.threads

theorem Idle.about_openConfirm {callback : ConfirmCallback} {title text : Bytes} (h : Idle a)
    (hcallback : callback.About selection) :
    AllAbout selection (a.openConfirm title text callback) where
  input := h.about.input
  confirm callback' hcallback' := by cases hcallback'; exact hcallback
  threads := h.about.threads

theorem Idle.about_beginOperation {thread : ActionThread} {title message : Bytes} (h : Idle a)
    (hthread : thread.About a.commandContainer selection) :
    AllAbout selection (a.beginOperation title message thread) where
  input := h.about.input
  confirm := h.about.confirm
  threads thread' hmem := by
    simp only [TuxDockApp.beginOperation, h.threads, List.nil_append, List.mem_singleton] at hmem
    rw [hmem]
    exact hthread

theorem Idle.about_promptNextPort {context : RunContainerContext} {index : ℤ} (h : Idle a)
    (hcontext : ChosenFor context.image selection) :
    (a.promptNextPort context index).calls = a.calls ∧
      AllAbout selection (a.promptNextPort context index) := by
  unfold TuxDockApp.promptNextPort
  split_ifs
  · exact ⟨rfl, h.about_beginOperation hcontext⟩
  · exact ⟨rfl, h.about_openInput hcontext⟩

/-- **A callback of an input** hands on what it is about. -/
theorem InputCallback.about_run {callback : InputCallback} {ok : Bool} {value : Bytes}
    (hidle : Idle a) (habout : callback.About a.commandContainer selection)
    (h : callback.run L env o ok value a = .ok b) : b.calls = a.calls ∧ AllAbout selection b := by
  cases run_cases h with
  | canceled => exact ⟨rfl, hidle.about⟩
  | refused callback message => exact ⟨rfl, (hidle.setStatus message).about⟩
  | pull => exact ⟨rfl, hidle.about_beginOperation trivial⟩
  | named context => exact ⟨rfl, hidle.about_openInput habout⟩
  | counted | mapped => exact hidle.about_promptNextPort habout
  | stop id => exact ⟨rfl, hidle.about_beginOperation habout⟩
  | detached file | output file =>
    exact ⟨rfl, (hidle.setHistoryFile file).about_beginOperation habout⟩

theorem ConfirmCallback.about_run {callback : ConfirmCallback} (hidle : Idle a)
    (habout : callback.About selection) (ok : Bool) :
    (callback.run ok a).calls = a.calls ∧ AllAbout selection (callback.run ok a) := by
  unfold ConfirmCallback.run
  split_ifs
  · exact ⟨rfl, hidle.about⟩
  · cases callback with
    | deleteImage id => exact ⟨rfl, hidle.about_beginOperation habout⟩
    | removeContainer id => exact ⟨rfl, hidle.about_beginOperation habout⟩

theorem ContainerCallback.about_run (callback : ContainerCallback) (hidle : Idle a)
    (o : Outside) (id name : Bytes) :
    (callback.run o id name a).calls = a.calls ∧
      AllAbout (some (.container callback, id, name)) (callback.run o id name a) := by
  cases callback with
  | startDetached => exact ⟨rfl, hidle.about_beginOperation ⟨name, rfl⟩⟩
  | stopContainer => exact ⟨rfl, hidle.about_openInput ⟨name, rfl⟩⟩
  | removeContainer => exact ⟨rfl, hidle.about_openConfirm ⟨name, rfl⟩⟩
  | execShell =>
    exact ⟨rfl, (hidle.setStatus _).about⟩
  | execDetachedCommand | execCommandWithOutput =>
    have hidle' : Idle { a with historyContainerId := id, historyContainerName := name } :=
      ⟨hidle.input, hidle.confirm, hidle.threads⟩
    exact ⟨rfl, hidle'.about_openInput rfl⟩

theorem ImageCallback.about_run (callback : ImageCallback) (hidle : Idle a) (id tag : Bytes) :
    (callback.run id tag a).calls = a.calls ∧
      AllAbout (some (.image callback, id, tag)) (callback.run id tag a) := by
  cases callback with
  | runContainer => exact ⟨rfl, hidle.about_openInput ⟨id, rfl⟩⟩
  | deleteImage => exact ⟨rfl, hidle.about_openConfirm ⟨tag, rfl⟩⟩

/-- **A callback of a selection** is not called, or everything is then about its entry. -/
theorem SelectCallback.about_run (callback : SelectCallback) (hidle : Idle a) (o : Outside)
    (ok : Bool) (selected : ℤ) :
    ((callback.run o ok selected a).calls = a.calls ∧ Idle (callback.run o ok selected a)) ∨
      ∃ entry, (callback.entries a)[selected.toNat]? = some entry ∧
        (callback.run o ok selected a).calls = (callback, entry) :: a.calls ∧
        AllAbout (some (callback, entry)) (callback.run o ok selected a) := by
  unfold SelectCallback.run
  split_ifs
  · exact .inl ⟨rfl, hidle.setStatus _⟩
  · exact .inl ⟨rfl, hidle.setStatus _⟩
  · split
    · rename_i entry hentry
      refine .inr ⟨entry, hentry, ?_⟩
      have hidle' : Idle { a with calls := (callback, entry) :: a.calls } :=
        ⟨hidle.input, hidle.confirm, hidle.threads⟩
      cases callback with
      | container callback => exact callback.about_run hidle' o entry.1 entry.2
      | image callback => exact callback.about_run hidle' entry.1 entry.2
    · exact .inl ⟨rfl, hidle⟩

/-! ### What is kept -/

/-- The operation of a thread is over. -/
inductive ActionThread.Over : ActionThread → Prop
  | complete (message : Bytes) (onComplete : Option OnComplete) :
    Over (complete message onComplete)
  | stopped (success : Bool) (message : Bytes) (fetch : Fetch) :
    Over (stopped success message fetch)

/-- No selection is made, and nothing is asked or begun that is about one. -/
structure Keeps (a b : TuxDockApp) : Prop where
  calls : b.calls = a.calls
  container : b.commandContainer = a.commandContainer
  input : b.inputCallback = a.inputCallback ∨ b.inputCallback = some .pullImage
  confirm : b.confirmCallback = a.confirmCallback
  threads : ∀ thread ∈ b.actionThreads, thread ∈ a.actionThreads ∨ thread.Over

theorem Keeps.of_eq (hcalls : b.calls = a.calls)
    (hcontainer : b.commandContainer = a.commandContainer)
    (hinput : b.inputCallback = a.inputCallback) (hconfirm : b.confirmCallback = a.confirmCallback)
    (hthreads : b.actionThreads = a.actionThreads) : Keeps a b :=
  ⟨hcalls, hcontainer, .inl hinput, hconfirm, fun _ h => .inl (hthreads ▸ h)⟩

theorem AllAbout.keeps (h : AllAbout selection a) (hkeeps : Keeps a b) : AllAbout selection b where
  input callback hcallback := by
    rw [hkeeps.container]
    rcases hkeeps.input with hsame | hpull
    · exact h.input callback (hsame ▸ hcallback)
    · rw [hpull] at hcallback
      cases hcallback
      trivial
  confirm callback hcallback := h.confirm callback (hkeeps.confirm ▸ hcallback)
  threads thread hthread := by
    rw [hkeeps.container]
    rcases hkeeps.threads thread hthread with hold | hover
    · exact h.threads thread hold
    · cases hover <;> trivial

theorem AboutSince.keeps (h : AboutSince base a) (hkeeps : Keeps a b) : AboutSince base b := by
  obtain ⟨made, hcalls, habout⟩ := h
  exact ⟨made, hkeeps.calls.trans hcalls, habout.keeps hkeeps⟩

theorem keeps_refreshState {message : Bytes} (h : a.refreshState message = .ok b) : Keeps a b := by
  unfold TuxDockApp.refreshState at h
  split at h <;> cases h
  exact .of_eq rfl rfl rfl rfl rfl

theorem keeps_promptContainerSelection {title : Bytes} {callback : ContainerCallback}
    (h : a.promptContainerSelection title callback = .ok b) : Keeps a b := by
  unfold TuxDockApp.promptContainerSelection at h
  split_ifs at h
  · exact keeps_refreshState h
  · cases h
    exact .of_eq rfl rfl rfl rfl rfl

theorem keeps_promptImageSelection {title : Bytes} {callback : ImageCallback}
    (h : a.promptImageSelection title callback = .ok b) : Keeps a b := by
  unfold TuxDockApp.promptImageSelection at h
  split_ifs at h
  · exact keeps_refreshState h
  · cases h
    exact .of_eq rfl rfl rfl rfl rfl

/-- The menu asks for an image to pull, or for nothing. -/
theorem keeps_executeSelectedAction (h : a.executeSelectedAction = .ok b) : Keeps a b := by
  unfold TuxDockApp.executeSelectedAction at h
  split at h
  case h_2 | h_6 => exact keeps_promptImageSelection h
  case h_5 | h_7 | h_8 | h_9 | h_10 | h_11 => exact keeps_promptContainerSelection h
  case h_3 | h_4 =>
    cases h
    split_ifs <;> exact .of_eq rfl rfl rfl rfl rfl
  case h_1 =>
    cases h
    exact ⟨rfl, rfl, .inr rfl, rfl, fun _ h => .inl h⟩
  case h_12 | h_14 =>
    cases h
    exact .of_eq rfl rfl rfl rfl rfl
  case h_13 => cases h

theorem keeps_resolveHistory (L : Json.Library) (env : Env) (a : TuxDockApp) :
    Keeps a (a.resolveHistory L env) := by
  unfold TuxDockApp.resolveHistory
  simp only
  split_ifs
  · exact .of_eq rfl rfl rfl rfl rfl
  · exact .of_eq rfl rfl rfl rfl rfl
  · split <;> exact .of_eq rfl rfl rfl rfl rfl

theorem keeps_onEvent {event : Event} (hres : a.resolution event = none)
    (h : a.onEvent L env event o = .ok b) : Keeps a b := by
  unfold TuxDockApp.onEvent at h
  split at h
  case h_1 =>
    cases h
    exact .of_eq rfl rfl rfl rfl rfl
  case h_2 hm =>
    cases event with
    | ret | escape => simp [TuxDockApp.resolution, hm] at hres
    | f1 | yes | no | other =>
      cases h
      exact .of_eq rfl rfl rfl rfl rfl
  case h_3 hm =>
    cases h
    cases event with
    | ret => exact keeps_resolveHistory L env a
    | escape | f1 | yes | no | other => exact .of_eq rfl rfl rfl rfl rfl
  case h_4 hm =>
    cases h
    cases event with
    | ret | escape | yes | no => simp [TuxDockApp.resolution, hm] at hres
    | f1 | other => exact .of_eq rfl rfl rfl rfl rfl
  case h_5 hm =>
    cases h
    cases event with
    | ret | escape => simp [TuxDockApp.resolution, hm] at hres
    | f1 | yes | no | other => exact .of_eq rfl rfl rfl rfl rfl
  case h_6 hm =>
    cases h
    cases event with
    | ret | escape | f1 | yes | no | other => exact .of_eq rfl rfl rfl rfl rfl
  case h_7 hm =>
    cases event with
    | ret => exact keeps_executeSelectedAction h
    | escape | f1 | yes | no | other =>
      cases h
      exact .of_eq rfl rfl rfl rfl rfl

theorem keeps_run (post : Post) (a : TuxDockApp) : Keeps a (post.run a) := by
  cases post with
  | poll containers images => exact .of_eq rfl rfl rfl rfl rfl
  | refresh containers images => exact .of_eq rfl rfl rfl rfl rfl
  | complete message onComplete =>
    cases onComplete with
    | none => exact .of_eq rfl rfl rfl rfl rfl
    | some onComplete =>
      cases onComplete
      exact .of_eq rfl rfl rfl rfl rfl
  | stopped success message containers images => exact .of_eq rfl rfl rfl rfl rfl

/-! ### Threads -/

theorem keeps_set {k : ℕ} {thread : ActionThread} (hover : thread.Over) (a : TuxDockApp) :
    Keeps a { a with actionThreads := a.actionThreads.set k thread } := by
  refine ⟨rfl, rfl, .inl rfl, rfl, ?_⟩
  intro thread' hmem
  rcases List.mem_or_eq_of_mem_set hmem with hold | rfl
  · exact .inl hold
  · exact .inr hover

theorem keeps_setFetch (fetch : Fetch) (w : Worker) (a : TuxDockApp) :
    Keeps a (a.setFetch fetch w) := by
  cases w with
  | poller => exact .of_eq rfl rfl rfl rfl rfl
  | refresh => exact .of_eq rfl rfl rfl rfl rfl
  | action k =>
    unfold TuxDockApp.setFetch
    simp only
    split
    · exact keeps_set (.stopped _ _ _) a
    · exact .of_eq rfl rfl rfl rfl rfl

theorem ActionThread.over_of_act {outcome : Outcome} {old new : ActionThread}
    (h : old.act outcome = some new) : new.Over := by
  cases old with
  | busy action onComplete =>
    cases h
    exact .complete _ _
  | stop id timeoutSeconds =>
    cases h
    exact .stopped _ _ _
  | complete message onComplete => cases h
  | stopped success message fetch => cases h

theorem keeps_post {w : Worker} {post : Post} (h : a.post w = some (post, b)) : Keeps a b := by
  cases posts_of_post h with
  | poll containers images fetched => exact .of_eq rfl rfl rfl rfl rfl
  | refresh containers images fetched => exact .of_eq rfl rfl rfl rfl rfl
  | stopped k success message containers images fetched =>
    exact ⟨rfl, rfl, .inl rfl, rfl, fun _ h => .inl (List.mem_of_mem_eraseIdx h)⟩
  | complete k message onComplete ended =>
    exact ⟨rfl, rfl, .inl rfl, rfl, fun _ h => .inl (List.mem_of_mem_eraseIdx h)⟩

/-! ### Steps -/

variable {s t : System} {label : Label}

theorem idle_close {event : Event} {k : Slot} {confirmed : Bool} (hsettled : Settled a.dialog)
    (hthreads : a.actionThreads = []) (hres : a.resolution event = some (k, confirmed)) :
    Idle (a.close k) := by
  have hclosed := dialog_close hsettled hres
  have hsame : (a.close k).actionThreads = a.actionThreads :=
    congrArg Shared.actionThreads (shared_close a k)
  exact ⟨congrArg Dialog.input hclosed, congrArg Dialog.confirm hclosed, hsame.trans hthreads⟩

theorem AboutSince.resolve {k : Slot} {confirmed : Bool} (h : AboutSince base a)
    (hidle : Idle (a.close k)) (hresolve : a.resolve L env o confirmed k = .ok b) :
    AboutSince base b := by
  obtain ⟨made, hcalls, habout⟩ := h
  have hcalls' : (a.close k).calls = made ++ base := by
    cases k <;> exact hcalls
  cases hslot : a.slot k with
  | none =>
    rw [resolve_of_none hslot] at hresolve
    cases hresolve
    exact ⟨made, hcalls', hidle.about⟩
  | some callback =>
    rw [resolve_of_some hslot] at hresolve
    cases k with
    | input =>
      obtain ⟨callback, hcallback, rfl⟩ := Option.map_eq_some_iff.1 hslot
      obtain ⟨hsame, hb⟩ := InputCallback.about_run hidle (habout.input callback hcallback) hresolve
      exact ⟨made, hsame.trans hcalls', hb⟩
    | confirm =>
      obtain ⟨callback, hcallback, rfl⟩ := Option.map_eq_some_iff.1 hslot
      obtain ⟨hsame, hb⟩ := callback.about_run hidle (habout.confirm callback hcallback) confirmed
      cases hresolve
      exact ⟨made, hsame.trans hcalls', hb⟩
    | select =>
      obtain ⟨callback, -, rfl⟩ := Option.map_eq_some_iff.1 hslot
      cases hresolve
      rcases callback.about_run hidle o confirmed a.modalSelectIndex with
        ⟨hsame, hb⟩ | ⟨entry, -, hcalled, hb⟩
      · exact ⟨made, hsame.trans hcalls', hb.about⟩
      · refine ⟨(callback, entry) :: made, ?_, hb⟩
        rw [hcalled, hcalls', List.cons_append]

/-- **What everything is about**: a step preserves it. -/
theorem AboutSince.advance (h : AboutSince base s.app) (hone : OneOperation s)
    (hsettled : Settled s.app.dialog) (hadvance : App.advance L env s label = some t) :
    AboutSince base t.app := by
  cases advance_cases hadvance with
  | event event o a handled =>
    cases hres : s.app.resolution event with
    | none => exact h.keeps (keeps_onEvent hres handled)
    | some resolved =>
      obtain ⟨k, confirmed⟩ := resolved
      have hmode : s.app.modalMode ≠ .busy := by
        rw [mode_of_resolution hres]
        cases k <;> nofun
      rw [onEvent_eq_resolve hres] at handled
      exact h.resolve (idle_close hsettled (hone.quiet hmode).1 hres) handled
  | halt event o halt handled ends => exact h
  | deliver p queue next => exact h.keeps (keeps_run p.post s.app)
  | wake waits => exact h.keeps (.of_eq rfl rfl rfl rfl rfl)
  | act k outcome old new runs acts =>
    exact h.keeps (keeps_set (ActionThread.over_of_act acts) s.app)
  | fetchContainers w result starts => exact h.keeps (keeps_setFetch _ w s.app)
  | fetchImages w result containers fetched => exact h.keeps (keeps_setFetch _ w s.app)
  | post w post a posts => exact h.keeps (keeps_post posts)

/-! ### Runs -/

/-- What a run keeps from one of its states on. -/
structure Tracked (base : List Selection) (s : System) : Prop where
  one : OneOperation s
  settled : Settled s.app.dialog
  about : AboutSince base s.app

theorem Tracked.step (h : Tracked base s) (hstep : App.step L env s label = some t) :
    Tracked base t := by
  have hone := h.one.step hstep
  obtain ⟨-, u, hu, rfl⟩ := advance_of_step hstep
  have hsettled : Settled u.app.dialog := h.settled.advance h.one hu
  have habout : AboutSince base u.app := h.about.advance h.one h.settled hu
  exact ⟨hone, hsettled, habout⟩

theorem Tracked.exec {labels : List Label} (h : Tracked base s)
    (hrun : Transition.exec (App.step L env) s labels = some t) : Tracked base t :=
  exec_invariant' (fun _ _ _ hs hstep => hs.step hstep) h hrun

theorem Tracked.boot (historyFile : Option Bytes) (containers : ListResult ContainerInfo)
    (images : ListResult ImageInfo) : Tracked [] (boot historyFile containers images) where
  one := OneOperation.boot historyFile containers images
  settled := settled_closed (.inl rfl)
  about := ⟨[], rfl, (show Idle _ from ⟨rfl, rfl, rfl⟩).about⟩

/-- **Everything is about the newest selection**, in every state that a run from the start of the
application reaches. -/
theorem about_newest {historyFile : Option Bytes} {containers : ListResult ContainerInfo}
    {images : ListResult ImageInfo} {labels : List Label}
    (hrun : exec (step L env) (boot historyFile containers images) labels = some s) :
    AllAbout s.app.calls.head? s.app := by
  obtain ⟨made, hcalls, habout⟩ := ((Tracked.boot historyFile containers images).exec hrun).about
  rw [List.append_nil] at hcalls
  rwa [hcalls]

end App

end TuxDock
