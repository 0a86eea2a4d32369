import TuxDock.App.Select
import TuxDock.App.System

/-!
# The modal dialogs

The dialogs over a run of the whole system: every sequence of events, of completions of operations
and of posts of the refreshes.

A ledger is kept along the run.  It counts the callbacks that `OpenInput`, `OpenConfirm` and
`OpenSelect` have set in each member, so that a member and a number name one of them; it lists those
that were invoked; and it counts the operations that were begun and those whose completion was
applied.

* `Settled` : a callback is set exactly in the modes of its dialog;
* `Ledger.Spent` : an invoked callback is no longer in its member;
* `Ledger.Balanced` : an operation that was begun is running, posted or applied;
* `modal_invariant` : **the invariant of the dialogs, in every run**.
-/

namespace TuxDock

namespace App

open Text History Transition

/-! ### The ledger -/

/-- What is noted along a run. -/
structure Ledger where
  /-- How many callbacks have been set in the member. -/
  installed : Slot → ℕ
  /-- The callbacks that were invoked, the newest first. -/
  invoked : List (Slot × ℕ)
  /-- How many operations were begun. -/
  begun : ℕ
  /-- How many operations have applied their completion. -/
  applied : ℕ

/-- Nothing has been set, invoked, begun or applied. -/
def Ledger.empty : Ledger := ⟨fun _ => 0, [], 0, 0⟩

namespace System

variable (s : System)

/-- The dialog that the step resolves, and the answer. -/
def resolution : Label → Option (Slot × Bool)
  | .event event _ => s.app.resolution event
  | _ => none

/-- The application at the beginning of a step; when the step resolves a dialog, with the dialog
closed, as the callback gets it. -/
def handed (label : Label) : TuxDockApp :=
  match s.resolution label with
  | some (k, _) => s.app.close k
  | none => s.app

/-- The member whose callback the step invokes. -/
def invokes (label : Label) : Option Slot :=
  match s.resolution label with
  | some (k, _) => if (s.app.slot k).isSome then some k else none
  | none => none

/-- The step applies the completion of an operation. -/
def completes : Label → Bool
  | .deliver => s.queue.head?.any (·.post.isCompletion)
  | _ => false

end System

/-- A callback is set in a member: one is in it afterwards that was not in it before. -/
def Installs (a b : TuxDockApp) (k : Slot) : Prop := b.slot k ≠ none ∧ b.slot k ≠ a.slot k

instance (a b : TuxDockApp) (k : Slot) : Decidable (Installs a b k) := instDecidableAnd

/-- The ledger after a step from `s` to `t`. -/
def Ledger.note (l : Ledger) (s : System) (label : Label) (t : System) : Ledger where
  installed k := l.installed k + if t.running ∧ Installs (s.handed label) t.app k then 1 else 0
  invoked := ((s.invokes label).map fun k => (k, l.installed k)).toList ++ l.invoked
  begun := l.begun + (t.app.actionThreads.length - s.app.actionThreads.length)
  applied := l.applied + if s.completes label then 1 else 0

/-! ### The invariant -/

/-- A callback is set exactly in the modes of its dialog. -/
structure Settled (d : Dialog) : Prop where
  input : d.input.isSome ↔ d.mode = .input ∨ d.mode = .history
  confirm : d.confirm.isSome ↔ d.mode = .confirm
  select : d.select.isSome ↔ d.mode = .select

/-- What is known of the dialogs of a state that a run has reached with this ledger. -/
structure ModalInvariant (L : Json.Library) (env : Env) (s : System) (l : Ledger) : Prop where
  /-- The dialog that is open has its callback, and no other is set. -/
  settled : Settled s.app.dialog
  /-- The dialog is busy exactly when the state of the operation is. -/
  busy : s.app.modalMode = .busy ↔ s.app.operationState.busy
  /-- In a busy dialog one operation has not applied its completion, in any other none. -/
  outstanding : l.begun = l.applied + if s.app.modalMode = .busy then 1 else 0
  /-- An operation is begun only when all have applied their completion. -/
  exclusive : ∀ label t, step L env s label = some t →
    s.app.actionThreads.length < t.app.actionThreads.length → l.begun = l.applied
  /-- No callback was invoked twice. -/
  once : l.invoked.Nodup
  /-- What was invoked had been set. -/
  named : ∀ k n, (k, n) ∈ l.invoked → 0 < n ∧ n ≤ l.installed k
  /-- A callback is set only where no dialog is open and no callback is set. -/
  fresh : ∀ label t k, step L env s label = some t → Installs (s.handed label) t.app k →
    (s.handed label).dialog = .closed
  /-- A callback gets the application with no dialog open, and what it makes of it stays. -/
  kept : ∀ event o k confirmed callback, s.app.resolution event = some (k, confirmed) →
    s.app.slot k = some callback →
    (s.app.close k).dialog = .closed ∧
      s.app.onEvent L env event o = callback.run L env o confirmed s.app (s.app.close k)
  /-- No other event calls a callback, and no posted closure does: whatever callbacks are set, it
  does the same. -/
  silent : ∀ input confirm select,
    (∀ event o, s.app.resolution event = none →
      ((s.app.withCallbacks input confirm select).onEvent L env event o).map TuxDockApp.blind =
        (s.app.onEvent L env event o).map TuxDockApp.blind) ∧
      ∀ post : Post, post.run (s.app.withCallbacks input confirm select) =
        (post.run s.app).withCallbacks input confirm select

/-! ### The callbacks of the open dialog -/

variable {L : Json.Library} {env : Env} {a b : TuxDockApp} {d : Dialog} {event : Event}
  {k : Slot} {confirmed : Bool} {s t : System} {label : Label} {l : Ledger}

/-- The modes of the dialogs that have no callback. -/
def ModalMode.Bare (mode : ModalMode) : Prop := mode = .none ∨ mode = .message ∨ mode = .busy

theorem Settled.eq_closed (h : Settled d) (hmode : d.mode.Bare) :
    d = { Dialog.closed with mode := d.mode } := by
  obtain ⟨hinput, hconfirm, hselect⟩ := h
  obtain ⟨mode, input, confirm, select⟩ := d
  rcases hmode with rfl | rfl | rfl <;> simp_all [Dialog.closed]

theorem settled_closed {mode : ModalMode} (hmode : mode.Bare) :
    Settled { Dialog.closed with mode := mode } := by
  rcases hmode with rfl | rfl | rfl <;> constructor <;> simp [Dialog.closed]

/-- A dialog without callbacks is followed by any other without callbacks. -/
theorem Settled.bare (h : Settled d) (hmode : d.mode.Bare) {mode : ModalMode}
    (hnext : mode.Bare) : Settled { d with mode := mode } := by
  rw [h.eq_closed hmode]
  exact settled_closed hnext

/-- What is opened while no dialog is open and no callback set. -/
theorem Opens.settled (h : Opens a b) (hclosed : a.dialog = .closed) : Settled b.dialog := by
  have hsettled : Settled a.dialog := hclosed ▸ settled_closed (.inl rfl)
  cases h with
  | inert inert =>
    rw [inert.dialog]
    exact hsettled
  | input callback shared dialog =>
    rw [dialog, hclosed]
    constructor <;> simp [Dialog.closed]
  | confirm callback shared dialog =>
    rw [dialog, hclosed]
    constructor <;> simp [Dialog.closed]
  | select callback shared dialog =>
    rw [dialog, hclosed]
    constructor <;> simp [Dialog.closed]
  | message shared dialog =>
    rw [dialog, hclosed]
    exact settled_closed (.inr (.inl rfl))
  | refresh c inert ended eq =>
    have hdialog : b.dialog = a.dialog := by rw [eq]; exact inert.dialog
    rw [hdialog]
    exact hsettled
  | operation c title message thread inert fresh eq =>
    have hdialog : b.dialog = { a.dialog with mode := .busy } := by
      rw [eq, ← inert.dialog]
      rfl
    rw [hdialog, hclosed]
    exact settled_closed (.inr (.inr rfl))

/-- The mode in which the callback of a member is resolved. -/
def Slot.mode : Slot → ModalMode
  | input => .input
  | confirm => .confirm
  | select => .select

theorem mode_of_resolution (hres : a.resolution event = some (k, confirmed)) :
    a.modalMode = k.mode := by
  unfold TuxDockApp.resolution at hres
  split at hres <;> cases hres
  all_goals assumption

/-- A callback gets the application with no dialog open and no callback set. -/
theorem dialog_close (h : Settled a.dialog) (hres : a.resolution event = some (k, confirmed)) :
    (a.close k).dialog = .closed := by
  have hmode := mode_of_resolution hres
  obtain ⟨hinput, hconfirm, hselect⟩ := h
  cases k with
  | input =>
    simp only [TuxDockApp.dialog, hmode, Slot.mode] at hconfirm hselect
    simp_all [TuxDockApp.close, TuxDockApp.dialog, Dialog.closed]
  | confirm =>
    simp only [TuxDockApp.dialog, hmode, Slot.mode] at hinput hselect
    simp_all [TuxDockApp.close, TuxDockApp.dialog, Dialog.closed]
  | select =>
    simp only [TuxDockApp.dialog, hmode, Slot.mode] at hinput hconfirm
    simp_all [TuxDockApp.close, TuxDockApp.dialog, Dialog.closed]

theorem Responds.settled (h : Responds a event b) (ha : Settled a.dialog) : Settled b.dialog := by
  cases h with
  | stay inert =>
    rw [inert.dialog]
    exact ha
  | history opened shared dialog =>
    obtain ⟨hinput, hconfirm, hselect⟩ := ha
    rw [dialog]
    constructor <;> simp_all [TuxDockApp.dialog]
  | back opened shared dialog =>
    obtain ⟨hinput, hconfirm, hselect⟩ := ha
    rw [dialog]
    constructor <;> simp_all [TuxDockApp.dialog]
  | read opened shared dialog =>
    rw [dialog]
    exact ha.bare (.inr (.inl opened)) (.inl rfl)
  | menu closed opens =>
    refine opens.settled ?_
    rw [ha.eq_closed (.inl closed)]
    exact congrArg (fun mode => { Dialog.closed with mode := mode }) closed
  | resolve k confirmed resolves opens => exact opens.settled (dialog_close ha resolves)

theorem dialog_run (post : Post) (a : TuxDockApp) :
    (post.run a).dialog =
      if post.isCompletion then { a.dialog with mode := .message } else a.dialog := by
  cases post with
  | poll containers images => rfl
  | refresh containers images => rfl
  | complete message onComplete =>
    cases onComplete with
    | none => rfl
    | some onComplete =>
      cases onComplete
      rfl
  | stopped success message containers images => rfl

/-- A completion is applied in a busy dialog. -/
theorem OneOperation.busy_of_completion (h : OneOperation s) {p : Posted} {queue : List Posted}
    (hqueue : s.queue = p :: queue) (hp : p.post.isCompletion = true) :
    s.app.modalMode = .busy := by
  have houtstanding := h.outstanding
  rw [hqueue, List.countP_cons, if_pos hp] at houtstanding
  split_ifs at houtstanding with hmode
  exact hmode

theorem Settled.advance (h : Settled s.app.dialog) (hone : OneOperation s)
    (hadvance : App.advance L env s label = some t) : Settled t.app.dialog := by
  cases advance_cases hadvance with
  | event event o a handled =>
    by_cases hmode : s.app.modalMode = .busy
    · rw [onEvent_busy hmode handled]
      exact h
    · exact (responds_of_onEvent hmode handled).settled h
  | halt event o halt handled ends => exact h
  | deliver p queue next =>
    rw [dialog_run]
    split_ifs with hp
    · exact h.bare (.inr (.inr (hone.busy_of_completion next hp))) (.inr (.inl rfl))
    · exact h
  | wake | act | fetchContainers | fetchImages | post =>
    rw [(works_of_advance hadvance nofun nofun).dialog]
    exact h

/-! ### The callbacks that were invoked -/

/-- What was invoked had been set, and is not in its member any more. -/
structure Ledger.Spent (l : Ledger) (s : System) : Prop where
  once : l.invoked.Nodup
  named : ∀ k n, (k, n) ∈ l.invoked → 0 < n ∧ n ≤ l.installed k
  held : s.running → ∀ k, s.app.slot k ≠ none →
    0 < l.installed k ∧ (k, l.installed k) ∉ l.invoked

theorem slot_close (a : TuxDockApp) (k j : Slot) :
    (a.close k).slot j = if j = k then none else a.slot j := by
  cases k <;> cases j <;> rfl

theorem slot_of_invokes (h : s.invokes label = some k) : s.app.slot k ≠ none := by
  unfold System.invokes at h
  split at h
  · obtain ⟨hsome, hk⟩ := Option.ite_none_right_eq_some.1 h
    obtain rfl := Option.some.inj hk
    exact Option.isSome_iff_ne_none.1 hsome
  · cases h

/-- What a callback finds set was set before, and is not the callback itself. -/
theorem slot_handed (h : (s.handed label).slot k ≠ none) :
    (s.handed label).slot k = s.app.slot k ∧ s.invokes label ≠ some k := by
  unfold System.handed at h ⊢
  unfold System.invokes
  cases hres : s.resolution label with
  | none => exact ⟨rfl, nofun⟩
  | some resolved =>
    obtain ⟨j, confirmed⟩ := resolved
    simp only [hres, slot_close] at h ⊢
    have hkj : k ≠ j := fun heq => h (if_pos heq)
    refine ⟨if_neg hkj, ?_⟩
    intro hinvokes
    obtain ⟨-, hjk⟩ := Option.ite_none_right_eq_some.1 hinvokes
    exact hkj (Option.some.inj hjk).symm

theorem mem_invoked_note {j : Slot} {n : ℕ} : (j, n) ∈ (l.note s label t).invoked ↔
    s.invokes label = some j ∧ n = l.installed j ∨ (j, n) ∈ l.invoked := by
  simp only [Ledger.note, List.mem_append, Option.mem_toList,
    Option.map_eq_some_iff, Prod.mk.injEq]
  constructor
  · rintro (⟨i, hi, rfl, rfl⟩ | hold)
    · exact .inl ⟨hi, rfl⟩
    · exact .inr hold
  · rintro (⟨hj, rfl⟩ | hold)
    · exact .inl ⟨j, hj, rfl, rfl⟩
    · exact .inr hold

theorem Ledger.Spent.once_note (h : l.Spent s) (hrunning : s.running) :
    (l.note s label t).invoked.Nodup := by
  unfold note
  cases hinvokes : s.invokes label with
  | none => exact h.once
  | some k =>
    exact List.nodup_cons.2 ⟨(h.held hrunning k (slot_of_invokes hinvokes)).2, h.once⟩

theorem Ledger.Spent.named_note (h : l.Spent s) (hrunning : s.running) (j : Slot) (n : ℕ)
    (hmem : (j, n) ∈ (l.note s label t).invoked) :
    0 < n ∧ n ≤ (l.note s label t).installed j := by
  have hgrows : l.installed j ≤ (l.note s label t).installed j := Nat.le_add_right _ _
  rcases mem_invoked_note.1 hmem with ⟨hinvokes, rfl⟩ | hold
  · exact ⟨(h.held hrunning j (slot_of_invokes hinvokes)).1, hgrows⟩
  · obtain ⟨hpos, hle⟩ := h.named j n hold
    exact ⟨hpos, hle.trans hgrows⟩

/-- **An invoked callback is spent**: a step preserves it, whatever the step does. -/
theorem Ledger.Spent.note (h : l.Spent s) (hrunning : s.running) (label : Label) (t : System) :
    (l.note s label t).Spent t := by
  refine ⟨h.once_note hrunning, h.named_note hrunning, ?_⟩
  intro ht k hk
  rw [mem_invoked_note]
  by_cases hinstalls : Installs (s.handed label) t.app k
  · -- a new callback has the next number
    have hnumber : (l.note s label t).installed k = l.installed k + 1 := by
      simp only [Ledger.note, ht, hinstalls, true_and, ↓reduceIte]
    rw [hnumber]
    refine ⟨Nat.succ_pos _, ?_⟩
    rintro (⟨-, heq⟩ | hold)
    · omega
    · have hle := (h.named k _ hold).2
      omega
  · -- the callback was there before the step, which did not invoke it
    have hnumber : (l.note s label t).installed k = l.installed k := by
      simp only [Ledger.note, hinstalls, and_false, ↓reduceIte, Nat.add_zero]
    have hsame : t.app.slot k = (s.handed label).slot k := by
      by_contra hdiffers
      exact hinstalls ⟨hk, hdiffers⟩
    obtain ⟨hslot, hinvokes⟩ := slot_handed (hsame ▸ hk)
    have hheld : s.app.slot k ≠ none := by
      rw [← hslot, ← hsame]
      exact hk
    obtain ⟨hpos, hfresh⟩ := h.held hrunning k hheld
    rw [hnumber]
    refine ⟨hpos, ?_⟩
    rintro (⟨heq, -⟩ | hold)
    · exact hinvokes heq
    · exact hfresh hold

theorem slot_of_dialog {mode : ModalMode} (h : b.dialog = { a.dialog with mode := mode })
    (k : Slot) : b.slot k = a.slot k := by
  have hinput : b.inputCallback = a.inputCallback := congrArg Dialog.input h
  have hconfirm : b.confirmCallback = a.confirmCallback := congrArg Dialog.confirm h
  have hselect : b.selectCallback = a.selectCallback := congrArg Dialog.select h
  cases k with
  | input => simp only [TuxDockApp.slot, hinput]
  | confirm => simp only [TuxDockApp.slot, hconfirm]
  | select => simp only [TuxDockApp.slot, hselect]

/-- **No callback is overwritten.** -/
theorem closed_of_installs (hsettled : Settled s.app.dialog)
    (hadvance : advance L env s label = some t) (hinstalls : Installs (s.handed label) t.app k) :
    (s.handed label).dialog = .closed := by
  cases hres : s.resolution label with
  | some resolved =>
    obtain ⟨j, confirmed⟩ := resolved
    simp only [System.handed, hres]
    cases label with
    | event event o => exact dialog_close hsettled hres
    | deliver | wake | act | fetchContainers | fetchImages | post => cases hres
  | none =>
    simp only [System.handed, hres] at hinstalls ⊢
    -- a step that changes no more than the mode sets nothing
    have hsets {mode : ModalMode} (h : t.app.dialog = { s.app.dialog with mode := mode }) : False :=
      hinstalls.2 (slot_of_dialog h k)
    cases advance_cases hadvance with
    | event event o a handled =>
      by_cases hmode : s.app.modalMode = .busy
      · exact (hinstalls.2 (by rw [onEvent_busy hmode handled])).elim
      · cases responds_of_onEvent hmode handled with
        | stay inert => exact (hsets inert.dialog).elim
        | history opened shared dialog => exact (hsets dialog).elim
        | back opened shared dialog => exact (hsets dialog).elim
        | read opened shared dialog => exact (hsets dialog).elim
        | menu closed opens =>
          rw [hsettled.eq_closed (.inl closed)]
          exact congrArg (fun mode => { Dialog.closed with mode := mode }) closed
        | resolve j confirmed resolves opens =>
          have hnone : s.app.resolution event = none := hres
          rw [resolves] at hnone
          cases hnone
    | halt event o halt handled ends => exact absurd rfl hinstalls.2
    | deliver p queue next =>
      have hdialog := dialog_run p.post s.app
      split_ifs at hdialog
      · exact (hsets hdialog).elim
      · exact (hsets hdialog).elim
    | wake | act | fetchContainers | fetchImages | post =>
      exact (hsets (works_of_advance hadvance nofun nofun).dialog).elim

/-! ### The operations that were begun -/

/-- An operation that was begun is running, its completion is posted, or it is applied. -/
def Ledger.Balanced (l : Ledger) (s : System) : Prop :=
  l.begun = l.applied + s.app.actionThreads.length + s.queue.countP (·.post.isCompletion)

theorem length_beginOperation (a : TuxDockApp) (title message : Bytes) (thread : ActionThread) :
    (a.beginOperation title message thread).actionThreads.length = a.actionThreads.length + 1 :=
  List.length_append

/-- The handling of an event ends no operation. -/
theorem length_onEvent {o : Outside} (h : a.onEvent L env event o = .ok b) :
    a.actionThreads.length ≤ b.actionThreads.length := by
  by_cases hmode : a.modalMode = .busy
  · rw [onEvent_busy hmode h]
  · have hquiet {c : TuxDockApp} (hc : Quiet a c) : c.actionThreads = a.actionThreads :=
      congrArg Shared.actionThreads hc.shared
    cases onEvent_cases hmode h with
    | quiet quiet => rw [hquiet quiet]
    | refresh c quiet ended eq => simp only [eq, hquiet quiet, le_refl]
    | operation c title message thread quiet fresh eq =>
      rw [eq, length_beginOperation, hquiet quiet]
      omega

theorem actionThreads_run (post : Post) (a : TuxDockApp) :
    (post.run a).actionThreads = a.actionThreads := by
  cases post with
  | poll containers images => rfl
  | refresh containers images => rfl
  | complete message onComplete =>
    cases onComplete with
    | none => rfl
    | some onComplete =>
      cases onComplete
      rfl
  | stopped success message containers images => rfl

theorem Ledger.Balanced.advance (h : l.Balanced s)
    (hadvance : App.advance L env s label = some t) : (l.note s label t).Balanced t := by
  unfold Balanced at h ⊢
  cases advance_cases hadvance with
  | event event o a handled =>
    have hle := length_onEvent handled
    simp only [note, System.completes, Bool.false_eq_true, ↓reduceIte]
    omega
  | halt event o halt handled ends =>
    simp only [note, System.completes, Bool.false_eq_true, ↓reduceIte]
    omega
  | deliver p queue next =>
    rw [next, List.countP_cons] at h
    simp only [note, System.completes, next, List.head?_cons, Option.any_some, actionThreads_run]
    omega
  | wake | act | fetchContainers | fetchImages | post =>
    obtain ⟨-, -, -, -, hconserved, hends⟩ := works_of_advance hadvance nofun nofun
    simp only [note, System.completes, Bool.false_eq_true, ↓reduceIte] at hconserved hends ⊢
    omega

/-- While an operation is running no other is begun. -/
theorem length_of_busy (hmode : s.app.modalMode = .busy)
    (hadvance : advance L env s label = some t) :
    t.app.actionThreads.length ≤ s.app.actionThreads.length := by
  cases advance_cases hadvance with
  | event event o a handled => rw [onEvent_busy hmode handled]
  | halt event o halt handled ends => exact le_rfl
  | deliver p queue next => simp only [actionThreads_run, le_refl]
  | wake | act | fetchContainers | fetchImages | post =>
    exact (works_of_advance hadvance nofun nofun).ends

/-! ### Runs -/

/-- What each step preserves. -/
structure Ledger.Reaches (l : Ledger) (s : System) : Prop where
  one : OneOperation s
  settled : Settled s.app.dialog
  spent : l.Spent s
  balanced : l.Balanced s

theorem Ledger.Reaches.step (h : l.Reaches s) (hstep : App.step L env s label = some t) :
    (l.note s label t).Reaches t := by
  have hone := h.one.step hstep
  obtain ⟨hrunning, u, hu, rfl⟩ := advance_of_step hstep
  have hsettled : Settled u.app.dialog := h.settled.advance h.one hu
  have hbalanced : (l.note s label u).Balanced u := h.balanced.advance hu
  exact ⟨hone, hsettled, h.spent.note hrunning label _, hbalanced⟩

theorem Ledger.Reaches.boot (historyFile : Option Bytes) (containers : ListResult ContainerInfo)
    (images : ListResult ImageInfo) :
    Ledger.empty.Reaches (boot historyFile containers images) where
  one := OneOperation.boot historyFile containers images
  settled := settled_closed (.inl rfl)
  spent := ⟨List.nodup_nil, fun _ _ => nofun, fun _ k hk => absurd (by cases k <;> rfl) hk⟩
  balanced := rfl

theorem Ledger.Reaches.outstanding (h : l.Reaches s) :
    l.begun = l.applied + if s.app.modalMode = .busy then 1 else 0 := by
  rw [← h.one.outstanding, ← Nat.add_assoc]
  exact h.balanced

theorem Ledger.Reaches.exclusive (h : l.Reaches s) (hstep : App.step L env s label = some t)
    (hbegins : s.app.actionThreads.length < t.app.actionThreads.length) : l.begun = l.applied := by
  obtain ⟨-, u, hu, rfl⟩ := advance_of_step hstep
  have houtstanding := h.outstanding
  split_ifs at houtstanding with hmode
  · have hle : u.app.actionThreads.length ≤ s.app.actionThreads.length := length_of_busy hmode hu
    exact absurd hbegins (not_lt.2 hle)
  · exact houtstanding

theorem reaches_of_exec {historyFile : Option Bytes} {containers : ListResult ContainerInfo}
    {images : ListResult ImageInfo} {labels : List Label}
    (hrun : exec (step L env) (boot historyFile containers images) labels = some s) :
    (noted (step L env) Ledger.note Ledger.empty (boot historyFile containers images)
      labels).Reaches s := by
  have hstep : ∀ (l : Ledger) (s : System) (label : Label) (t : System), l.Reaches s →
      step L env s label = some t → (l.note s label t).Reaches t := by
    intro l s label t hl hstep
    exact hl.step hstep
  exact exec_noted hstep (Ledger.Reaches.boot historyFile containers images) hrun

/-- **The invariant of the dialogs.**  In every state that a run from the start of the application
reaches, whatever events are handled and in whatever order the threads go their steps and post:
the open dialog has its callback; the dialog is busy exactly while the operation that was begun last
has not applied its completion, and no other is begun before; no callback was invoked twice; and
what a callback opens is what remains when it returns. -/
theorem modal_invariant (L : Json.Library) (env : Env) (historyFile : Option Bytes)
    (containers : ListResult ContainerInfo) (images : ListResult ImageInfo) (labels : List Label)
    (s : System) (hrun : exec (step L env) (boot historyFile containers images) labels = some s) :
    ModalInvariant L env s
      (noted (step L env) Ledger.note Ledger.empty (boot historyFile containers images)
        labels) := by
  have hreaches := reaches_of_exec hrun
  refine ⟨hreaches.settled, ?_, hreaches.outstanding, ?_, hreaches.spent.once,
    hreaches.spent.named, ?_, ?_, ?_⟩
  · rw [hreaches.one.busy, decide_eq_true_iff]
  · intro label t hstep hbegins
    exact hreaches.exclusive hstep hbegins
  · intro label t k hstep hinstalls
    obtain ⟨-, u, hu, rfl⟩ := advance_of_step hstep
    exact closed_of_installs hreaches.settled hu hinstalls
  · intro event o k confirmed callback hres hslot
    exact ⟨dialog_close hreaches.settled hres, onEvent_resolve hres hslot⟩
  · intro input confirm select
    refine ⟨?_, ?_⟩
    · intro event o hres
      exact onEvent_withCallbacks input confirm select L env o hres
    · intro post
      exact run_withCallbacks input confirm select post s.app

/-- The state after these steps. -/
def after (s : System) (labels : List Label) : System :=
  (exec (step layoutLibrary goodEnv) s labels).getD s

/-- An image is pulled, and the message that it is done is read. -/
def pulled : List Label :=
  [.event .ret still, .event .other { still with text := lit "alpine" }, .event .ret still,
    .act 0 ⟨true, [], lit "done"⟩, .event .ret still, .post (.action 0), .deliver,
    .event .ret still]

/-- What is noted while the image is pulled. -/
def pulledLedger : Ledger :=
  noted (step layoutLibrary goodEnv) Ledger.note Ledger.empty (boot none ⟨[], []⟩ ⟨[], []⟩) pulled

/-- The callback of the one input was invoked once, and the one operation has been applied. -/
theorem modal_invariant_pulled :
    (∃ s, exec (step layoutLibrary goodEnv) (boot none ⟨[], []⟩ ⟨[], []⟩) pulled = some s ∧
      ModalInvariant layoutLibrary goodEnv s pulledLedger) ∧
    pulledLedger.invoked = [(.input, 1)] ∧ pulledLedger.begun = 1 ∧ pulledLedger.applied = 1 := by
  have hends : (exec (step layoutLibrary goodEnv) (boot none ⟨[], []⟩ ⟨[], []⟩) pulled).isSome := by
    decide +kernel
  obtain ⟨s, hs⟩ := Option.isSome_iff_exists.1 hends
  refine ⟨⟨s, hs, ?_⟩, ?_⟩
  · exact modal_invariant layoutLibrary goodEnv none ⟨[], []⟩ ⟨[], []⟩ pulled s hs
  · decide +kernel

end App

end TuxDock
