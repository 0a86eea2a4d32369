import TuxDock.App.Events
import TuxDock.History.Layout
import TuxDock.Lib.Transition

/-!
# A selection

`PromptContainerSelection` and `PromptImageSelection` show the lines of the cached list as it is
when the dialog opens; the callback looks the chosen line up in the list that is cached when it is
confirmed.

* `OpenInv` : the lines stay, the callback stays, and the index stays on a line;
* `entries_of_run` : the cached list is the last one that was delivered;
* `select_iff` : **the action is called with the entry that was shown, or not at all, exactly when
  the last list delivered has the same entry on the chosen line or none.**
-/

namespace TuxDock

namespace App

open Text History Transition

/-- `PromptContainerSelection` or `PromptImageSelection`. -/
def SelectCallback.prompt (callback : SelectCallback) (title : Bytes) (a : TuxDockApp) :
    Except Halt TuxDockApp :=
  match callback with
  | container callback => a.promptContainerSelection title callback
  | image callback => a.promptImageSelection title callback

/-- The lines of the dialog. -/
def SelectCallback.options (a : TuxDockApp) : SelectCallback → List Bytes
  | container _ => a.containers.map TuxDockApp.containerOption
  | image _ => a.images.map TuxDockApp.imageOption

/-- What happens while a selection is open: a result is delivered, or an event other than Return
and Escape is handled. -/
inductive Happening where
  | refresh (containers : ListResult ContainerInfo) (images : ListResult ImageInfo) (silent : Bool)
  | event (event : Event) (o : Outside)
  deriving DecidableEq

variable (L : Json.Library) (env : Env)

/-- What it does to the application; `none` when it does not happen here. -/
def happen (a : TuxDockApp) : Happening → Option TuxDockApp
  | .refresh containers images silent => some (a.applyRefreshResults containers images silent)
  | .event event o =>
    if event = .ret ∨ event = .escape then none else (a.onEvent L env event o).toOption

/-- The entries of a list that is delivered, if it was fetched without an error. -/
def Happening.entries (callback : SelectCallback) : Happening → Option (List (Bytes × Bytes))
  | event _ _ => none
  | refresh containers images _ =>
    match callback with
    | .container _ =>
      if containers.ok then some (containers.items.map fun c => (c.id, c.name)) else none
    | .image _ => if images.ok then some images.items else none

/-- The entries of the last list delivered, `shown` if there was none. -/
def delivered (callback : SelectCallback) (shown : List (Bytes × Bytes)) (hs : List Happening) :
    List (Bytes × Bytes) :=
  hs.foldl (fun entries happening => (happening.entries callback).getD entries) shown

/-- The confirmed selection has called its action with the entry shown on the line, or has not
called it. -/
def CallsShown (callback : SelectCallback) (opened confirmed done : TuxDockApp) : Prop :=
  done.calls = opened.calls ∨
    ∃ entry, (callback.entries opened)[confirmed.modalSelectIndex.toNat]? = some entry ∧
      done.calls = (callback, entry) :: opened.calls

/-- Line `i` of `current` is the line of `shown`, or there is none that the callback would take. -/
def SameLine (shown current : List (Bytes × Bytes)) (i : ℕ) : Prop :=
  (i : ℤ) < toInt current.length → current[i]? = shown[i]?

/-! ### While the dialog is open -/

/-- A selection opened from `a` is open. -/
structure OpenInv (callback : SelectCallback) (a b : TuxDockApp) : Prop where
  mode : b.modalMode = .select
  lines : b.modalSelectEntries = callback.options a
  installed : b.selectCallback = some callback
  calls : b.calls = a.calls
  index : 0 ≤ b.modalSelectIndex ∧ b.modalSelectIndex < (callback.options a).length

variable {L env} {callback : SelectCallback} {a b c : TuxDockApp} {title : Bytes}

theorem SelectCallback.length_options (callback : SelectCallback) (a : TuxDockApp) :
    (callback.options a).length = (callback.entries a).length := by
  cases callback <;> simp [options, entries]

theorem SelectCallback.prompt_eq (h : callback.prompt title a = .ok b)
    (hshown : callback.entries a ≠ []) :
    OpenInv callback a b ∧ callback.entries b = callback.entries a := by
  have hpos : (0 : ℤ) < (callback.options a).length := by
    rw [callback.length_options]
    exact_mod_cast List.length_pos_iff.2 hshown
  cases callback with
  | container callback =>
    have hne : a.containers ≠ [] := by simpa [entries] using hshown
    rw [prompt, TuxDockApp.promptContainerSelection, if_neg hne] at h
    cases h
    exact ⟨⟨rfl, rfl, rfl, rfl, le_rfl, hpos⟩, rfl⟩
  | image callback =>
    have hne : a.images ≠ [] := by simpa [entries] using hshown
    rw [prompt, TuxDockApp.promptImageSelection, if_neg hne] at h
    cases h
    exact ⟨⟨rfl, rfl, rfl, rfl, le_rfl, hpos⟩, rfl⟩

theorem moved_mem {size : ℕ} {i j : ℤ} (hi : 0 ≤ i ∧ i < size) :
    0 ≤ moved size i j ∧ moved size i j < size := by
  unfold moved
  split_ifs with hj
  · exact hj
  · exact hi

/-- In an open selection an event other than Return and Escape moves the index. -/
theorem happen_event {event : Event} {o : Outside} (hmode : b.modalMode = .select)
    (h : happen L env b (.event event o) = some c) :
    c = { b with
      modalSelectIndex := moved b.modalSelectEntries.length b.modalSelectIndex o.index } := by
  simp only [happen, TuxDockApp.onEvent, hmode] at h
  cases event with
  | ret => cases h
  | escape => cases h
  | f1 | yes | no | other => exact (Option.some.inj h).symm

theorem OpenInv.happen {happening : Happening} (hb : OpenInv callback a b)
    (h : App.happen L env b happening = some c) : OpenInv callback a c := by
  cases happening with
  | refresh containers images silent =>
    cases h
    cases silent <;> exact ⟨hb.mode, hb.lines, hb.installed, hb.calls, hb.index⟩
  | event event o =>
    obtain rfl := happen_event hb.mode h
    refine ⟨hb.mode, hb.lines, hb.installed, hb.calls, ?_⟩
    rw [hb.lines]
    exact moved_mem hb.index

theorem entries_of_happen {happening : Happening} (hb : OpenInv callback a b)
    (h : App.happen L env b happening = some c) :
    callback.entries c = (happening.entries callback).getD (callback.entries b) := by
  cases happening with
  | event event o =>
    obtain rfl := happen_event hb.mode h
    cases callback <;> rfl
  | refresh containers images silent =>
    cases h
    cases callback with
    | container =>
      rw [SelectCallback.entries, applyRefreshResults_containers]
      cases hok : containers.ok <;> simp [Happening.entries, hok, SelectCallback.entries]
    | image =>
      rw [SelectCallback.entries, applyRefreshResults_images]
      cases hok : images.ok <;> simp [Happening.entries, hok, SelectCallback.entries]

/-- **The cached list is the last one delivered.** -/
theorem open_of_run {hs : List Happening} (hb : OpenInv callback a b)
    (h : exec (happen L env) b hs = some c) :
    OpenInv callback a c ∧ callback.entries c = delivered callback (callback.entries b) hs := by
  have hstep : ∀ (entries : List (Bytes × Bytes)) (s : TuxDockApp) (happening : Happening) s',
      (OpenInv callback a s ∧ callback.entries s = entries) →
      happen L env s happening = some s' →
      OpenInv callback a s' ∧
        callback.entries s' = (happening.entries callback).getD entries := by
    rintro entries s happening s' ⟨hs, rfl⟩ hs'
    exact ⟨hs.happen hs', entries_of_happen hs hs'⟩
  exact exec_history (H := fun entries s => OpenInv callback a s ∧ callback.entries s = entries)
    hstep ⟨hb, rfl⟩ h

/-! ### The confirmation -/

theorem SelectCallback.calls_call (callback : SelectCallback) (o : Outside) (entry : Bytes × Bytes)
    (a : TuxDockApp) : (callback.call o entry a).calls = (callback, entry) :: a.calls := by
  cases callback with
  | container callback => cases callback <;> rfl
  | image callback => cases callback <;> rfl

theorem bmod_le_self (n m : ℕ) : (n : ℤ).bmod m ≤ n := by
  have h : (n : ℤ) % m ≤ n := by exact_mod_cast Nat.mod_le n m
  rw [Int.bmod_def]
  split_ifs <;> omega

theorem toInt_le (n : ℕ) : toInt n ≤ n := by
  unfold toInt
  exact bmod_le_self n _

/-- **The calls of a confirmed selection**: the entry that is cached on the chosen line. -/
theorem calls_confirm {o : Outside} (hb : OpenInv callback a b)
    (h : b.onEvent L env .ret o = .ok c) :
    if b.modalSelectIndex < toInt (callback.entries b).length then
      ∃ entry, (callback.entries b)[b.modalSelectIndex.toNat]? = some entry ∧
        c.calls = (callback, entry) :: a.calls
    else c.calls = a.calls := by
  have hconfirm : c = callback.run o true b.modalSelectIndex
      { b with modalMode := .none, selectCallback := none } := by
    simp only [TuxDockApp.onEvent, hb.mode, TuxDockApp.onSelectEvent, TuxDockApp.resolveSelect,
      hb.installed] at h
    exact (Except.ok.inj h).symm
  have hentries : callback.entries { b with modalMode := .none, selectCallback := none } =
      callback.entries b := by cases callback <;> rfl
  have hnonneg : ¬ b.modalSelectIndex < 0 := not_lt.2 hb.index.1
  rw [SelectCallback.run, if_neg (by decide), hentries] at hconfirm
  simp only [hnonneg, false_or] at hconfirm
  split_ifs with hlt
  · have hi : b.modalSelectIndex.toNat < (callback.entries b).length := by
      have := toInt_le (callback.entries b).length
      omega
    rw [if_neg (not_le.2 hlt), List.getElem?_eq_getElem hi] at hconfirm
    refine ⟨_, List.getElem?_eq_getElem hi, ?_⟩
    rw [hconfirm, callback.calls_call]
    exact congrArg _ hb.calls
  · rw [if_pos (not_lt.1 hlt)] at hconfirm
    rw [hconfirm]
    exact hb.calls

/-- **What a selection calls.**  For every list that a selection shows, every sequence of results
delivered while it is open, and every line that is then confirmed: the action is not called, or it
is called with the entry shown on the line, if and only if the last list delivered has that entry
on the line, or none that would be taken. -/
theorem select_iff (L : Json.Library) (env : Env) (callback : SelectCallback) (title : Bytes)
    (a opened confirmed done : TuxDockApp) (hs : List Happening) (o : Outside)
    (hopen : callback.prompt title a = .ok opened) (hshown : callback.entries a ≠ [])
    (hrun : exec (happen L env) opened hs = some confirmed)
    (hconfirm : confirmed.onEvent L env .ret o = .ok done) :
    CallsShown callback opened confirmed done ↔
      SameLine (callback.entries a) (delivered callback (callback.entries a) hs)
        confirmed.modalSelectIndex.toNat := by
  obtain ⟨hinv, hentries⟩ := SelectCallback.prompt_eq hopen hshown
  obtain ⟨hinv', hcurrent⟩ := open_of_run hinv hrun
  have hcalls := calls_confirm hinv' hconfirm
  rw [hentries] at hcurrent
  rw [← hcurrent, CallsShown, hentries, hinv.calls, SameLine, Int.toNat_of_nonneg hinv'.index.1]
  split_ifs at hcalls with hlt
  · obtain ⟨entry, hentry, hcall⟩ := hcalls
    rw [imp_iff_right hlt, hentry, hcall]
    constructor
    · rintro (hnone | ⟨shown, hline, hsame⟩)
      · exact absurd hnone (List.cons_ne_self _ _)
      · obtain ⟨hcons, -⟩ := List.cons.inj hsame
        rw [hline, (Prod.mk.inj hcons).2]
    · exact fun hline => Or.inr ⟨entry, hline.symm, rfl⟩
  · exact iff_of_true (Or.inl hcalls) fun hlt' => absurd hlt' hlt

/-! ### Two containers -/

/-- A running container. -/
def sample (id name : String) : ContainerInfo := ⟨lit id, lit name, lit "Up", [], true⟩

/-- The application with the containers `a` and `b` cached. -/
def twoContainers : TuxDockApp :=
  { TuxDockApp.initial none with containers := [sample "a" "first", sample "b" "second"] }

/-- Nothing new from the outside. -/
def still : Outside := ⟨⟨[], by simp⟩, [], 0, []⟩

/-- A third container is listed behind the two, and the second line is chosen. -/
def appended : List Happening :=
  [.refresh ⟨[sample "a" "first", sample "b" "second", sample "c" "third"], []⟩ ⟨[], []⟩ true,
    .event .other { still with index := 1 }]

/-- A refresh that adds a container behind them leaves the two on their lines. -/
theorem select_appended :
    ∃ opened confirmed done,
      SelectCallback.prompt (.container .stopContainer) (lit "Stop Container") twoContainers =
        .ok opened ∧
      exec (happen layoutLibrary goodEnv) opened appended = some confirmed ∧
      confirmed.onEvent layoutLibrary goodEnv .ret still = .ok done ∧
      CallsShown (.container .stopContainer) opened confirmed done := by
  refine ⟨_, _, _, rfl, rfl, rfl, ?_⟩
  exact (select_iff layoutLibrary goodEnv (.container .stopContainer) (lit "Stop Container")
    twoContainers _ _ _ appended still rfl (by decide) rfl rfl).2 fun _ => by decide +kernel

/-- A refresh that swaps the two makes Return on the first line stop the second. -/
theorem select_swapped :
    ¬ ∀ (hs : List Happening) (opened confirmed done : TuxDockApp),
      SelectCallback.prompt (.container .stopContainer) (lit "Stop Container") twoContainers =
        .ok opened →
      exec (happen layoutLibrary goodEnv) opened hs = some confirmed →
      confirmed.onEvent layoutLibrary goodEnv .ret still = .ok done →
      CallsShown (.container .stopContainer) opened confirmed done := by
  intro h
  have hcalls := h [.refresh ⟨[sample "b" "second", sample "a" "first"], []⟩ ⟨[], []⟩ true]
    _ _ _ rfl rfl rfl
  rcases hcalls with hnone | ⟨entry, hline, hcall⟩
  · exact absurd hnone (by decide +kernel)
  · obtain rfl : (lit "a", lit "first") = entry := Option.some.inj hline
    exact absurd hcall (by decide +kernel)

end App

end TuxDock
