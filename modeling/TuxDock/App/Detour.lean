import TuxDock.App.Select

/-!
# The way to the history and back

In a prompt F1 opens the history, and Escape goes back to the prompt.  The history uses the members
of the prompt it was opened from, and nothing keeps a copy of them.

* `exists_detour` : what is left of the prompt after one way to the history and back: everything but
  the title, which is that of the history;
* `detours_iff` : **the prompt is as it was exactly when it had that title before.**
-/

namespace TuxDock

namespace App

open Text History Transition

/-! ### Prompts -/

/-- What an input shows, and what it will do. -/
structure Prompt where
  mode : ModalMode
  title : Bytes
  text : Bytes
  input : Bytes
  callback : Option InputCallback
  deriving Repr, DecidableEq

/-- The prompt that is open. -/
def TuxDockApp.prompt (a : TuxDockApp) : Prompt :=
  ⟨a.modalMode, a.modalTitle, a.modalText, a.modalInput, a.inputCallback⟩

/-- The title of the history that is opened from `a`. -/
def TuxDockApp.historyTitle (a : TuxDockApp) : Bytes :=
  lit "Detached Command History - " ++ a.historyContainerName

/-! ### Detours -/

/-- It leaves the dialog open: it is no Return and no Escape. -/
def Happening.Stays : Happening → Prop
  | refresh _ _ _ => True
  | event e _ => e ≠ .ret ∧ e ≠ .escape

/-- A way to the history and back: F1, the moves in the history, and Escape. -/
structure Detour where
  enter : Outside
  moves : List Happening
  leave : Outside
  stays : ∀ h ∈ moves, h.Stays

section

variable (L : Json.Library) (env : Env)

/-- F1, the moves in the history, and Escape. -/
def detour (a : TuxDockApp) (d : Detour) : Option TuxDockApp := do
  let opened ← (a.onEvent L env .f1 d.enter).toOption
  let moved ← exec (happen L env) opened d.moves
  (moved.onEvent L env .escape d.leave).toOption

end

variable {L : Json.Library} {env : Env} {a b c : TuxDockApp}

/-- The history opened from the prompt of `a` is open. -/
structure Suspends (a b : TuxDockApp) : Prop where
  prompt : b.prompt = { a.prompt with mode := .history, title := a.historyTitle }
  name : b.historyContainerName = a.historyContainerName

theorem suspends_openHistory (L : Json.Library) (env : Env) (a : TuxDockApp) :
    Suspends a (a.openHistory L env) := ⟨rfl, rfl⟩

/-- In the history a key that is neither Return nor Escape moves the index. -/
theorem Suspends.happen {happening : Happening} (h : Suspends a b) (hstays : happening.Stays) :
    ∃ c, App.happen L env b happening = some c ∧ Suspends a c := by
  have hmode : b.modalMode = .history := congrArg Prompt.mode h.prompt
  cases happening with
  | refresh containers images silent =>
    refine ⟨_, rfl, ?_⟩
    cases silent <;> exact ⟨h.prompt, h.name⟩
  | event event o =>
    obtain ⟨hret, hescape⟩ := hstays
    simp only [App.happen, hret, hescape, or_self, ↓reduceIte, TuxDockApp.onEvent, hmode]
    refine ⟨_, rfl, ?_⟩
    cases event with
    | ret => exact absurd rfl hret
    | escape => exact absurd rfl hescape
    | f1 | yes | no | other => exact ⟨h.prompt, h.name⟩

/-- **One detour** leaves everything of the prompt but its title. -/
theorem exists_detour (L : Json.Library) (env : Env) (d : Detour) (hmode : a.modalMode = .input) :
    ∃ b, detour L env a d = some b ∧ b.prompt = { a.prompt with title := a.historyTitle } ∧
      b.historyContainerName = a.historyContainerName := by
  have hmoved : ∃ c, exec (happen L env) (a.openHistory L env) d.moves = some c ∧ Suspends a c :=
    exists_exec (fun _ _ h hstays => h.happen hstays) (suspends_openHistory L env a) d.stays
  obtain ⟨c, hmoves, hc⟩ := hmoved
  have hopened : a.onEvent L env .f1 d.enter = .ok (a.openHistory L env) := by
    simp only [TuxDockApp.onEvent, hmode, TuxDockApp.onInputEvent]
  have hleft : c.onEvent L env .escape d.leave = .ok { c with modalMode := .input } := by
    have hhistory : c.modalMode = .history := congrArg Prompt.mode hc.prompt
    simp only [TuxDockApp.onEvent, hhistory, TuxDockApp.onHistoryEvent]
  refine ⟨{ c with modalMode := .input }, ?_, ?_, hc.name⟩
  · simp only [detour, hopened, Except.toOption, Option.bind_eq_bind, Option.bind_some, hmoves,
      hleft]
  · have hprompt : ({ c with modalMode := .input } : TuxDockApp).prompt =
        { c.prompt with mode := .input } := rfl
    rw [hprompt, hc.prompt, ← hmode]
    rfl

/-- Detours after the first change nothing. -/
theorem exists_detours (L : Json.Library) (env : Env) (ds : List Detour)
    (hmode : a.modalMode = .input) :
    ∃ b, exec (detour L env) a ds = some b ∧
      b.prompt = if ds = [] then a.prompt else { a.prompt with title := a.historyTitle } := by
  induction ds generalizing a with
  | nil => exact ⟨a, rfl, rfl⟩
  | cons d ds ih =>
    obtain ⟨b, hb, hprompt, hname⟩ := exists_detour L env d hmode
    have hmode' : b.modalMode = .input := (congrArg Prompt.mode hprompt).trans hmode
    obtain ⟨c, hc, hrest⟩ := ih hmode'
    have htitle : b.historyTitle = a.historyTitle := by
      rw [TuxDockApp.historyTitle, hname, TuxDockApp.historyTitle]
    refine ⟨c, exec_cons_eq_some.2 ⟨b, hb, hc⟩, ?_⟩
    rw [hrest, hprompt, htitle, if_neg (List.cons_ne_nil d ds)]
    split_ifs <;> rfl

/-- **Going to the history and back, any number of times, restores the prompt exactly when the
prompt had the title of the history.** -/
theorem detours_iff (L : Json.Library) (env : Env) (a : TuxDockApp) (ds : List Detour)
    (hmode : a.modalMode = .input) :
    ∃ b, exec (detour L env) a ds = some b ∧
      (b.prompt = a.prompt ↔ ds = [] ∨ a.modalTitle = a.historyTitle) := by
  obtain ⟨b, hb, hprompt⟩ := exists_detours L env ds hmode
  refine ⟨b, hb, ?_⟩
  rw [hprompt]
  split_ifs with hds
  · exact iff_of_true rfl (.inl hds)
  · rw [or_iff_right hds]
    constructor
    · intro h
      exact (congrArg Prompt.title h).symm
    · intro h
      rw [← h]
      rfl

/-! ### Two detours -/

/-- F1, one line down, Escape. -/
def glance : Detour where
  enter := still
  moves := [.event .other { still with index := 1 }]
  leave := still
  stays := by simp [Happening.Stays]

/-- The prompt for an image name, with `alpine` typed. -/
def pullPrompt : TuxDockApp :=
  { (TuxDockApp.initial none).openInput (lit "Pull Docker Image") (lit "Enter image name:")
      .pullImage [] with modalInput := lit "alpine" }

/-- The same prompt once the history has been opened from it. -/
def glancedPrompt : TuxDockApp :=
  { pullPrompt with modalTitle := lit "Detached Command History - " }

theorem detours_iff_glanced : ∃ b,
    exec (detour layoutLibrary goodEnv) glancedPrompt [glance, glance] = some b ∧
      b.prompt = glancedPrompt.prompt := by
  obtain ⟨b, hb, hiff⟩ := detours_iff layoutLibrary goodEnv glancedPrompt [glance, glance] rfl
  exact ⟨b, hb, hiff.2 (.inr (by decide +kernel))⟩

/-- The prompt for an image name comes back with the title of the history. -/
theorem glance_changes_title : ∃ b, detour layoutLibrary goodEnv pullPrompt glance = some b ∧
    b.prompt = { pullPrompt.prompt with title := lit "Detached Command History - " } ∧
    b.prompt ≠ pullPrompt.prompt := by
  refine ⟨_, rfl, ?_, ?_⟩
  · decide +kernel
  · decide +kernel

end App

end TuxDock
