import TuxDock.App.Subject

/-!
# The history and the prompt it belongs to

The history is kept for the commands that are run in a container, but F1 opens it from every input.

* `HistoryBelongs` : when the history is open, the pending callback runs a command in the container
  whose history it is, and no event touches the history while another callback is pending;
* `historyBelongs_iff` : **a run keeps this exactly when F1 is pressed in no other prompt.**
-/

namespace TuxDock

namespace App

open Text History Transition

/-! ### The prompts for a command -/

/-- The selection that a prompt for a command was opened from. -/
def InputCallback.opener : InputCallback → Option ContainerCallback
  | detachedCommand => some .execDetachedCommand
  | commandWithOutput => some .execCommandWithOutput
  | _ => none

/-- A prompt for a command is pending. -/
def TuxDockApp.asksCommand (a : TuxDockApp) : Bool := a.inputCallback.any (·.opener.isSome)

variable (L : Json.Library) (env : Env)

/-- The history that is open belongs to the prompt it was opened from, and other prompts have
none. -/
structure HistoryBelongs (s : System) : Prop where
  /-- The pending callback was installed for the container that was chosen last; that is the
  container whose history is open, and the one the command will be run in. -/
  owner : s.app.modalMode = .history → ∃ callback opener, s.app.inputCallback = some callback ∧
    callback.opener = some opener ∧ s.app.calls.head? =
      some (.container opener, s.app.historyContainerId, s.app.historyContainerName)
  /-- While another prompt is pending, an event leaves the stored history as it is, and what is
  typed in the prompt is kept, emptied or typed. -/
  apart : ∀ callback, s.app.inputCallback = some callback → callback.opener = none →
    ∀ event o a, s.app.onEvent L env event o = .ok a → a.historyFile = s.app.historyFile ∧
      (a.modalInput = s.app.modalInput ∨ a.modalInput = [] ∨
        a = { s.app with modalInput := o.text })

/-- F1 is pressed in no input but a prompt for a command. -/
def f1Belongs (s : System) : Label → Bool
  | .event .f1 _ => s.app.modalMode ≠ .input || s.app.asksCommand
  | _ => true

variable {L env} {a b : TuxDockApp} {s t : System} {label : Label} {o : Outside}

/-! ### How the history is opened -/

theorem Opens.mode_ne_history (h : Opens a b) (hmode : a.modalMode ≠ .history) :
    b.modalMode ≠ .history := by
  have hdialog {d : Dialog} (hb : b.dialog = d) (hd : d.mode ≠ .history) :
      b.modalMode ≠ .history := by
    have hmode' : b.modalMode = d.mode := congrArg Dialog.mode hb
    rwa [hmode']
  cases h with
  | inert inert => exact hdialog inert.dialog hmode
  | input callback shared dialog => exact hdialog dialog nofun
  | confirm callback shared dialog => exact hdialog dialog nofun
  | select callback shared dialog => exact hdialog dialog nofun
  | message shared dialog => exact hdialog dialog nofun
  | refresh c inert ended eq =>
    have hc : b.dialog = a.dialog := by rw [eq]; exact inert.dialog
    exact hdialog hc hmode
  | operation c title message thread inert fresh eq =>
    rw [eq]
    nofun

/-- **The history is opened by F1 in an input**, and the callback stays. -/
theorem history_of_onEvent {event : Event} (hmode : a.modalMode ≠ .busy)
    (h : a.onEvent L env event o = .ok b) (hb : b.modalMode = .history) :
    b.inputCallback = a.inputCallback ∧
      (a.modalMode = .history ∨ a.modalMode = .input ∧ event = .f1) := by
  have hopens {c : TuxDockApp} (hc : c.modalMode = .none) (ho : Opens c b) : False := by
    refine ho.mode_ne_history ?_ hb
    rw [hc]
    nofun
  have hdialog {d : Dialog} (hd : b.dialog = d) : d.mode = .history :=
    (congrArg Dialog.mode hd).symm.trans hb
  cases responds_of_onEvent hmode h with
  | stay inert =>
    exact ⟨congrArg Dialog.input inert.dialog, .inl (hdialog inert.dialog)⟩
  | history opened shared dialog =>
    refine ⟨congrArg Dialog.input dialog, .inr ⟨opened, ?_⟩⟩
    simp only [TuxDockApp.onEvent, opened] at h
    cases event with
    | f1 => rfl
    | ret | escape => exact (hopens (mode_close a .input) (opens_resolve h)).elim
    | yes | no | other =>
      cases h
      rw [opened] at hb
      cases hb
  | back opened shared dialog => cases hdialog dialog
  | read opened shared dialog => cases hdialog dialog
  | menu closed opens => exact (hopens closed opens).elim
  | resolve k confirmed resolves opens => exact (hopens (mode_close a k) opens).elim

/-! ### The steps -/

/-- What a run keeps in which F1 is pressed in no other prompt. -/
structure Offered (s : System) : Prop where
  tracked : Tracked [] s
  asks : s.app.modalMode = .history → s.app.asksCommand = true

theorem Offered.asks_advance (h : Offered s) (hf1 : f1Belongs s label = true)
    (hadvance : App.advance L env s label = some t) (ht : t.app.modalMode = .history) :
    t.app.asksCommand = true := by
  have hsame (hdialog : t.app.dialog = s.app.dialog) : t.app.asksCommand = true := by
    have hmode : s.app.modalMode = .history := (congrArg Dialog.mode hdialog).symm.trans ht
    have hinput : t.app.inputCallback = s.app.inputCallback := congrArg Dialog.input hdialog
    rw [TuxDockApp.asksCommand, hinput]
    exact h.asks hmode
  cases advance_cases hadvance with
  | event event o a handled =>
    by_cases hbusy : s.app.modalMode = .busy
    · exact hsame (congrArg TuxDockApp.dialog (onEvent_busy hbusy handled))
    · obtain ⟨hinput, hopened⟩ := history_of_onEvent hbusy handled ht
      rw [TuxDockApp.asksCommand, hinput, ← TuxDockApp.asksCommand]
      rcases hopened with hmode | ⟨hmode, rfl⟩
      · exact h.asks hmode
      · simpa [f1Belongs, hmode] using hf1
  | halt event o halt handled ends => exact h.asks ht
  | deliver p queue next =>
    have hdialog := dialog_run p.post s.app
    split_ifs at hdialog
    · have hmode : (p.post.run s.app).modalMode = .message := congrArg Dialog.mode hdialog
      rw [hmode] at ht
      cases ht
    · exact hsame hdialog
  | wake | act | fetchContainers | fetchImages | post =>
    exact hsame (works_of_advance hadvance nofun nofun).dialog

theorem Offered.step (h : Offered s) (hf1 : f1Belongs s label = true)
    (hstep : App.step L env s label = some t) : Offered t := by
  refine ⟨h.tracked.step hstep, ?_⟩
  obtain ⟨-, u, hu, rfl⟩ := advance_of_step hstep
  have hasks : u.app.modalMode = .history → u.app.asksCommand = true := h.asks_advance hf1 hu
  exact hasks

/-! ### What belongs to a prompt -/

/-- The history file is left as it is, and what is typed is kept or emptied. -/
structure Apart (a b : TuxDockApp) : Prop where
  file : b.historyFile = a.historyFile
  input : b.modalInput = a.modalInput ∨ b.modalInput = []

theorem apart_promptNextPort (context : RunContainerContext) (index : ℤ) (a : TuxDockApp) :
    Apart a (a.promptNextPort context index) := by
  unfold TuxDockApp.promptNextPort
  split_ifs
  · exact ⟨rfl, .inl rfl⟩
  · exact ⟨rfl, .inr rfl⟩

/-- The callbacks of the prompts that are not for a command. -/
theorem InputCallback.apart_run {callback : InputCallback} {ok : Bool} {value : Bytes}
    (hother : callback.opener = none) (h : callback.run L env o ok value a = .ok b) :
    Apart a b := by
  cases run_cases h with
  | canceled | refused | pull | stop => exact ⟨rfl, .inl rfl⟩
  | named context => exact ⟨rfl, .inr rfl⟩
  | counted | mapped => exact apart_promptNextPort _ _ a
  | detached | output => cases hother

theorem apart_resolveInput {callback : InputCallback} {confirmed : Bool}
    (hcallback : a.inputCallback = some callback) (hother : callback.opener = none)
    (h : a.resolveInput L env o confirmed = .ok b) : Apart a b := by
  simp only [TuxDockApp.resolveInput, hcallback] at h
  obtain ⟨hfile, hinput⟩ := InputCallback.apart_run hother h
  exact ⟨hfile, hinput⟩

theorem Offered.historyBelongs (h : Offered s) : HistoryBelongs L env s where
  owner hmode := by
    obtain ⟨made, hcalls, habout⟩ := h.tracked.about
    rw [List.append_nil] at hcalls
    obtain ⟨callback, hcallback, hasks⟩ := (Option.any_eq_true _ _).1 (h.asks hmode)
    have hnewest : callback.About s.app.commandContainer s.app.calls.head? := by
      rw [hcalls]
      exact habout.input callback hcallback
    obtain ⟨opener, hopener⟩ := Option.isSome_iff_exists.1 hasks
    refine ⟨callback, opener, hcallback, hopener, ?_⟩
    cases callback with
    | detachedCommand | commandWithOutput =>
      cases hopener
      exact hnewest
    | pullImage | containerName context | portCount context | portMapping context index
    | stopTimeout id => cases hopener
  apart := by
    intro callback hcallback hother event o a hevent
    have hinput : s.app.modalMode = .input := by
      have hopen := (h.tracked.settled.input).1 (Option.isSome_of_eq_some hcallback)
      refine hopen.resolve_right ?_
      intro hmode
      have hasks := h.asks hmode
      rw [TuxDockApp.asksCommand, hcallback, Option.any_some, hother] at hasks
      cases hasks
    simp only [TuxDockApp.onEvent, hinput] at hevent
    cases event with
    | ret | escape =>
      obtain ⟨hfile, hmodalInput⟩ := apart_resolveInput hcallback hother hevent
      exact ⟨hfile, hmodalInput.imp_right .inl⟩
    | f1 =>
      cases hevent
      exact ⟨rfl, .inl rfl⟩
    | yes | no | other =>
      cases hevent
      exact ⟨rfl, .inr (.inr rfl)⟩

/-- Pressed elsewhere, F1 opens the history of no prompt. -/
theorem f1Belongs_of_step (hstep : App.step L env s label = some t) (ht : HistoryBelongs L env t) :
    f1Belongs s label = true := by
  obtain ⟨-, u, hu, rfl⟩ := advance_of_step hstep
  have howner : u.app.modalMode = .history → u.app.asksCommand = true := by
    intro hmode
    obtain ⟨callback, opener, hcallback, hopener, -⟩ := ht.owner hmode
    have hpending : u.app.inputCallback = some callback := hcallback
    rw [TuxDockApp.asksCommand, hpending, Option.any_some, hopener, Option.isSome_some]
  cases label with
  | event event o =>
    cases event with
    | f1 =>
      by_cases hmode : s.app.modalMode = .input
      · have hopened : s.app.onEvent L env .f1 o = .ok (s.app.openHistory L env) := by
          simp only [TuxDockApp.onEvent, hmode, TuxDockApp.onInputEvent]
        cases advance_cases hu with
        | event event o a handled =>
          rw [hopened] at handled
          cases handled
          have hasks : s.app.asksCommand = true := howner rfl
          simp [f1Belongs, hasks]
        | halt event o halt handled ends =>
          rw [hopened] at handled
          cases handled
      · simp [f1Belongs, hmode]
    | ret | escape | yes | no | other => rfl
  | wake | fetchContainers | fetchImages | act | post | deliver => rfl

/-- **The history is only offered for its own prompt.**  In a run from the start of the application,
every state has the history open only for the pending prompt for a command, with the container of
that prompt, and every other prompt has none, exactly when F1 is pressed in no other prompt. -/
theorem historyBelongs_iff (L : Json.Library) (env : Env) (historyFile : Option Bytes)
    (containers : ListResult ContainerInfo) (images : ListResult ImageInfo) (labels : List Label)
    (s : System) (hrun : exec (step L env) (boot historyFile containers images) labels = some s) :
    Always (step L env) (HistoryBelongs L env) (boot historyFile containers images) labels ↔
      StepsMeet (step L env) (fun s label => f1Belongs s label = true)
        (boot historyFile containers images) labels := by
  have hstart : Offered (boot historyFile containers images) :=
    ⟨Tracked.boot historyFile containers images, nofun⟩
  refine always_iff_stepsMeet (I := Offered) ?_ ?_ ?_ hstart hrun
  · intro s label t hs hf1 hstep
    exact hs.step hf1 hstep
  · intro s hs
    exact hs.historyBelongs
  · intro s label t hs hstep ht
    exact f1Belongs_of_step hstep ht

/-! ### Two prompts -/

/-- The prompt for a command in the container `first`. -/
def commandPrompt : List Label :=
  [.event .other { still with index := 9 }, .event .ret still, .event .ret still]

theorem historyBelongs_iff_opened :
    (after (boot none ⟨[sample "a" "first"], []⟩ ⟨[], []⟩)
        (commandPrompt ++ [.event .f1 still])).app.modalMode = .history ∧
      Always (step layoutLibrary goodEnv) (HistoryBelongs layoutLibrary goodEnv)
        (boot none ⟨[sample "a" "first"], []⟩ ⟨[], []⟩) (commandPrompt ++ [.event .f1 still]) := by
  refine ⟨by decide +kernel, ?_⟩
  refine (historyBelongs_iff layoutLibrary goodEnv none ⟨[sample "a" "first"], []⟩ ⟨[], []⟩
    (commandPrompt ++ [.event .f1 still])
    (after (boot none ⟨[sample "a" "first"], []⟩ ⟨[], []⟩)
      (commandPrompt ++ [.event .f1 still])) ?_).2 ?_
  · decide +kernel
  · decide +kernel

/-- F1 in the prompt for an image name opens a history that no prompt for a command asked for. -/
theorem history_without_command : ∃ s,
    exec (step layoutLibrary goodEnv) (boot none ⟨[], []⟩ ⟨[], []⟩)
      [.event .ret still, .event .f1 still] = some s ∧
    s.app.modalMode = .history ∧ s.app.inputCallback = some .pullImage ∧
    ¬ HistoryBelongs layoutLibrary goodEnv s := by
  have hmode : (after (boot none ⟨[], []⟩ ⟨[], []⟩)
      [.event .ret still, .event .f1 still]).app.modalMode = .history := by decide +kernel
  have hinput : (after (boot none ⟨[], []⟩ ⟨[], []⟩)
      [.event .ret still, .event .f1 still]).app.inputCallback = some .pullImage := by
    decide +kernel
  refine ⟨after (boot none ⟨[], []⟩ ⟨[], []⟩) [.event .ret still, .event .f1 still], ?_, hmode,
    hinput, ?_⟩
  · decide +kernel
  · intro h
    obtain ⟨callback, opener, hcallback, hopener, -⟩ := h.owner hmode
    rw [hinput] at hcallback
    cases hcallback
    cases hopener

end App

end TuxDock
