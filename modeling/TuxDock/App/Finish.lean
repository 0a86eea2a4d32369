import TuxDock.App.Progress

/-!
# The message of an operation

The dialog of an operation gives way to a message.  Its title and its text are made of what the
operation returned, by the closure that its thread posts.

* `ActionThread.message` : the message that an operation comes to, by what it returns;
* `InProgress.advance` : **a step of a busy dialog keeps the operation in progress**, runs it, or
  shows the message of what it returned;
* `busy_ends` : in every run that goes on forever, the thread of the operation and the loop not
  being kept waiting, **a busy dialog comes to the message of the operation that was begun**.
-/

namespace TuxDock

namespace App

open Text History Transition

/-! ### Messages -/

/-- What is shown of a message: its title, and its text or its content. -/
structure Message where
  title : Bytes
  text : Bytes
  content : Option Element
  deriving Repr, DecidableEq

/-- The message that is shown in a dialog. -/
def TuxDockApp.message (a : TuxDockApp) : Message := ⟨a.modalTitle, a.modalText, a.modalContent⟩

/-- The output of a command tells that it failed. -/
def tellsFailure (result : Bytes) : Prop :=
  find result (lit "Command exited with code") 0 = some 0 ∨
    find result (lit "Command terminated by signal") 0 = some 0

instance (result : Bytes) : Decidable (tellsFailure result) := instDecidableOr

/-- The message of a result: the one of `on_complete`, if there is one. -/
def resultMessage (result : Bytes) : Option OnComplete → Message
  | none => ⟨lit "Operation complete", result, none⟩
  | some .commandWithOutput =>
    ⟨if tellsFailure result then lit "Command failed" else lit "Command output", [],
      some (.paragraph result)⟩

/-- The message after a container was to be stopped. -/
def stopMessage (success : Bool) (message : Bytes) : Message :=
  ⟨if success then lit "Container stopped" else lit "Stop failed", message, none⟩

/-- The message that an operation comes to when it returns this outcome, or has returned what its
thread holds. -/
def ActionThread.message (outcome : Outcome) : ActionThread → Message
  | busy action onComplete => resultMessage (action.result outcome) onComplete
  | complete result onComplete => resultMessage result onComplete
  | stop _ _ => stopMessage outcome.success outcome.message
  | stopped success message _ => stopMessage success message

/-- The message that the delivery of a closure shows. -/
def Post.message : Post → Option Message
  | complete result onComplete => some (resultMessage result onComplete)
  | stopped success message _ _ => some (stopMessage success message)
  | _ => none

variable {L : Json.Library} {env : Env} {s t : System} {label : Label} {op : ActionThread}

theorem isSome_message (post : Post) : post.message.isSome = post.isCompletion := by
  cases post <;> rfl

theorem message_run {post : Post} {m : Message} (h : post.message = some m) (a : TuxDockApp) :
    (post.run a).modalMode = .message ∧ (post.run a).message = m := by
  cases post with
  | poll containers images | refresh containers images => cases h
  | stopped success message containers images =>
    cases h
    exact ⟨rfl, rfl⟩
  | complete result onComplete =>
    cases h
    cases onComplete with
    | none => exact ⟨rfl, rfl⟩
    | some onComplete =>
      cases onComplete
      exact ⟨rfl, rfl⟩

theorem modalMode_run {post : Post} (h : post.message = none) (a : TuxDockApp) :
    (post.run a).modalMode = a.modalMode := by
  cases post with
  | poll containers images | refresh containers images => rfl
  | stopped success message containers images | complete result onComplete => cases h

/-- A thread that has run its operation holds the message of what the operation returned. -/
theorem message_act {outcome o : Outcome} {old new : ActionThread}
    (h : old.act outcome = some new) :
    new.message o = old.message outcome ∧ ∀ o, new.act o = none := by
  cases old with
  | busy action onComplete | stop id timeoutSeconds =>
    cases h
    exact ⟨rfl, fun _ => rfl⟩
  | complete result onComplete | stopped success message fetch => cases h

/-! ### What becomes of an operation -/

/-- How far an operation is, with what it has returned: it is to be run, its thread holds what it
returned, or its completion is posted. -/
inductive InProgress (s : System) (op : ActionThread) : Option Outcome → Prop
  | begun (runs : s.app.actionThreads = [op]) : InProgress s op none
  | returned (outcome : Outcome) (thread : ActionThread) (runs : s.app.actionThreads = [thread])
      (ran : ∀ o, thread.act o = none) (tells : ∀ o, thread.message o = op.message outcome) :
    InProgress s op (some outcome)
  | posted (outcome : Outcome) (ended : s.app.actionThreads = [])
      (tells : ∀ p ∈ s.queue, ∀ m ∈ p.post.message, m = op.message outcome) :
    InProgress s op (some outcome)

/-- What a step of a busy dialog does to the operation. -/
inductive Proceeds (op : ActionThread) (label : Label) (t : System) : Option Outcome → Prop
  | stays {o : Option Outcome} (busy : t.app.modalMode = .busy) (goes : InProgress t op o) :
    Proceeds op label t o
  | runs (outcome : Outcome) (busy : t.app.modalMode = .busy) (returns : label = .act 0 outcome)
      (goes : InProgress t op (some outcome)) : Proceeds op label t none
  | shows (outcome : Outcome) (mode : t.app.modalMode = .message)
      (message : t.app.message = op.message outcome) : Proceeds op label t (some outcome)

/-- A step that changes no thread of an operation, and posts no completion. -/
theorem InProgress.congr {o : Option Outcome} (h : InProgress s op o)
    (hthreads : t.app.actionThreads = s.app.actionThreads)
    (hqueue : ∀ p ∈ t.queue, p ∈ s.queue ∨ p.post.message = none) : InProgress t op o := by
  cases h with
  | begun runs => exact .begun (hthreads.trans runs)
  | returned outcome thread runs ran tells =>
    exact .returned outcome thread (hthreads.trans runs) ran tells
  | posted outcome ended tells =>
    refine .posted outcome (hthreads.trans ended) ?_
    intro p hp m hm
    rcases hqueue p hp with hold | hnone
    · exact tells p hold m hm
    · rw [hnone] at hm
      cases hm

/-- A thread that is not to be run any more holds what the operation returned. -/
theorem InProgress.returned_of_not_fresh {o : Option Outcome} {thread : ActionThread}
    (h : InProgress s op o) (hfresh : op.Fresh) (hthreads : s.app.actionThreads = [thread])
    (hthread : ¬ thread.Fresh) :
    ∃ outcome, o = some outcome ∧ ∀ o, thread.message o = op.message outcome := by
  cases h with
  | begun runs =>
    obtain rfl := List.singleton_inj.1 (hthreads.symm.trans runs)
    exact absurd hfresh hthread
  | returned outcome thread runs ran tells =>
    obtain rfl := List.singleton_inj.1 (hthreads.symm.trans runs)
    exact ⟨outcome, rfl, tells⟩
  | posted outcome ended tells =>
    rw [hthreads] at ended
    cases ended

/-- While the thread of the operation runs no completion is posted. -/
theorem OneOperation.no_message (h : OneOperation s) {thread : ActionThread}
    (hthreads : s.app.actionThreads = [thread]) (p : Posted) (hp : p ∈ s.queue) :
    p.post.message = none := by
  have houtstanding := h.outstanding
  rw [hthreads, List.length_singleton] at houtstanding
  have hnone : s.queue.countP (·.post.isCompletion) = 0 := by
    split_ifs at houtstanding <;> omega
  have hp := List.countP_eq_zero.1 hnone p hp
  rw [← isSome_message] at hp
  exact Option.not_isSome_iff_eq_none.1 hp

theorem InProgress.setFetch {o : Option Outcome} (h : InProgress s op o) (hone : OneOperation s)
    (hfresh : op.Fresh) {w : Worker} {old : Fetch} (hold : s.app.fetch w = some old) (new : Fetch) :
    InProgress { s with app := s.app.setFetch new w } op o := by
  cases w with
  | poller | refresh => exact h.congr rfl fun p hp => .inl hp
  | action k =>
    obtain ⟨success, message, hk⟩ := exists_of_fetch hold
    obtain ⟨rfl, hthreads⟩ := hone.action hk
    obtain ⟨outcome, rfl, htells⟩ :=
      h.returned_of_not_fresh hfresh hthreads (by rintro ⟨⟩)
    refine .returned outcome (.stopped success message new) ?_ (fun _ => rfl) htells
    simp only [TuxDockApp.setFetch, hthreads, List.getElem?_cons_zero, List.set_cons_zero]

theorem InProgress.completion (hone : OneOperation s) {outcome : Outcome} {a : TuxDockApp}
    {post : Post} {thread : ActionThread} (hthreads : s.app.actionThreads = [thread])
    (hended : a.actionThreads = []) (hpost : post.message = some (op.message outcome)) :
    InProgress { s with app := a, queue := s.queue ++ [⟨post, s.clock⟩] } op (some outcome) := by
  refine .posted outcome hended ?_
  intro p hp m hm
  rcases List.mem_append.1 hp with hold | hnew
  · rw [hone.no_message hthreads p hold] at hm
    cases hm
  · obtain rfl := List.mem_singleton.1 hnew
    rw [hpost] at hm
    exact (Option.some.inj hm).symm

theorem InProgress.post {o : Option Outcome} (h : InProgress s op o) (hone : OneOperation s)
    (hfresh : op.Fresh) {w : Worker} {post : Post} {a : TuxDockApp}
    (hposts : s.app.post w = some (post, a)) :
    InProgress { s with app := a, queue := s.queue ++ [⟨post, s.clock⟩] } op o := by
  have hother (hnone : post.message = none) (p : Posted)
      (hp : p ∈ s.queue ++ [⟨post, s.clock⟩]) : p ∈ s.queue ∨ p.post.message = none := by
    rcases List.mem_append.1 hp with hold | hnew
    · exact .inl hold
    · obtain rfl := List.mem_singleton.1 hnew
      exact .inr hnone
  cases posts_of_post hposts with
  | poll containers images fetched | refresh containers images fetched =>
    exact h.congr rfl (hother rfl)
  | stopped k success message containers images fetched =>
    obtain ⟨rfl, hthreads⟩ := hone.action fetched
    obtain ⟨outcome, rfl, htells⟩ :=
      h.returned_of_not_fresh hfresh hthreads (by rintro ⟨⟩)
    refine .completion hone hthreads ?_ (congrArg some (htells outcome))
    simp only [hthreads, List.eraseIdx_cons_zero]
  | complete k result onComplete ended =>
    obtain ⟨rfl, hthreads⟩ := hone.action ended
    obtain ⟨outcome, rfl, htells⟩ :=
      h.returned_of_not_fresh hfresh hthreads (by rintro ⟨⟩)
    refine .completion hone hthreads ?_ (congrArg some (htells outcome))
    simp only [hthreads, List.eraseIdx_cons_zero]

theorem InProgress.deliver {o : Option Outcome} (h : InProgress s op o) (hone : OneOperation s)
    (hmode : s.app.modalMode = .busy) {p : Posted} {queue : List Posted}
    (hqueue : s.queue = p :: queue) (label : Label) :
    Proceeds op label { s with app := p.post.run s.app, queue := queue, held := keep p s.held }
      o := by
  have hmem : p ∈ s.queue := by rw [hqueue]; exact List.mem_cons_self
  cases hp : p.post.message with
  | none =>
    refine .stays ((modalMode_run hp s.app).trans hmode) ?_
    refine h.congr (actionThreads_run p.post s.app) fun q hq => .inl ?_
    rw [hqueue]
    exact List.mem_cons_of_mem p hq
  | some m =>
    obtain ⟨hmessage, hshown⟩ := message_run hp s.app
    cases h with
    | begun runs | returned outcome thread runs =>
      rw [hone.no_message runs p hmem] at hp
      cases hp
    | posted outcome ended tells =>
      exact .shows outcome hmessage (hshown.trans (tells p hmem m hp))

/-- **A step of a busy dialog keeps its operation in progress**, or it runs it, or it shows the
message of what it returned. -/
theorem InProgress.advance {o : Option Outcome} (h : InProgress s op o) (hone : OneOperation s)
    (hfresh : op.Fresh) (hmode : s.app.modalMode = .busy)
    (hadvance : App.advance L env s label = some t) : Proceeds op label t o := by
  have hbusy (hevent : ∀ event o, label ≠ .event event o) (hdeliver : label ≠ .deliver) :
      t.app.modalMode = .busy := by
    have hdialog := (works_of_advance hadvance hevent hdeliver).dialog
    exact (congrArg Dialog.mode hdialog).trans hmode
  cases advance_cases hadvance with
  | event event o a handled =>
    obtain rfl := onEvent_busy hmode handled
    exact .stays hmode h
  | halt event o halt handled ends =>
    simp only [TuxDockApp.onEvent, hmode] at handled
    cases handled
  | deliver p queue next => exact h.deliver hone hmode next .deliver
  | wake waits => exact .stays hmode (h.congr rfl fun p hp => .inl hp)
  | act k outcome old new runs acts =>
    obtain ⟨rfl, hthreads⟩ := hone.action runs
    have hset : s.app.actionThreads.set 0 new = [new] := by
      simp only [hthreads, List.set_cons_zero]
    cases h with
    | begun runs =>
      obtain rfl := List.singleton_inj.1 (hthreads.symm.trans runs)
      have hran : ∀ o, new.act o = none := (message_act (o := outcome) acts).2
      exact .runs outcome hmode rfl
        (.returned outcome new hset hran fun o => (message_act acts).1)
    | returned outcome thread runs ran tells =>
      obtain rfl := List.singleton_inj.1 (hthreads.symm.trans runs)
      rw [ran] at acts
      cases acts
    | posted outcome ended tells =>
      rw [hthreads] at ended
      cases ended
  | fetchContainers w result starts =>
    exact .stays (hbusy (by simp) (by simp)) (h.setFetch hone hfresh starts _)
  | fetchImages w result containers fetched =>
    exact .stays (hbusy (by simp) (by simp)) (h.setFetch hone hfresh fetched _)
  | post w post a posts =>
    exact .stays (hbusy (by simp) (by simp)) (h.post hone hfresh posts)

/-- The step that makes a dialog busy begins an operation. -/
theorem inProgress_of_begun (hone : OneOperation s) (hmode : s.app.modalMode ≠ .busy)
    (hadvance : App.advance L env s label = some t) (hbusy : t.app.modalMode = .busy) :
    ∃ op : ActionThread, op.Fresh ∧ t.app.actionThreads = [op] := by
  cases advance_cases hadvance with
  | event event o a handled =>
    cases onEvent_cases hmode handled with
    | quiet quiet => exact absurd hbusy quiet.mode
    | refresh c quiet ended eq =>
      subst eq
      exact absurd hbusy quiet.mode
    | operation c title message thread quiet fresh eq =>
      subst eq
      have hthreads : c.actionThreads = [] :=
        (congrArg Shared.actionThreads quiet.shared).trans (hone.quiet hmode).1
      refine ⟨thread, fresh, ?_⟩
      simp only [TuxDockApp.beginOperation, hthreads, List.nil_append]
  | halt event o halt handled ends => exact absurd hbusy hmode
  | deliver p queue next =>
    cases hp : p.post.message with
    | none => exact absurd ((modalMode_run hp s.app).symm.trans hbusy) hmode
    | some m =>
      rw [(message_run hp s.app).1] at hbusy
      cases hbusy
  | wake | act | fetchContainers | fetchImages | post =>
    have hdialog := (works_of_advance hadvance (by simp) (by simp)).dialog
    exact absurd ((congrArg Dialog.mode hdialog).symm.trans hbusy) hmode

/-! ### Whole runs -/

section Runs

variable {historyFile : Option Bytes} {containers : ListResult ContainerInfo}
  {images : ListResult ImageInfo}

/-- An operation is begun by step `b` of a run, and the dialog is busy from then on up to time
`n`. -/
structure BusySince (r : Run (step L env) (boot historyFile containers images)) (b n : ℕ)
    (op : ActionThread) : Prop where
  before : b < n
  idle : (r.state b).app.modalMode ≠ .busy
  begun : (r.state (b + 1)).app.actionThreads = [op]
  fresh : op.Fresh
  busy : ∀ k, b < k → k ≤ n → (r.state k).app.modalMode = .busy

/-- What an operation begun by step `b` has returned by time `n` is what its call returned at a step
in between. -/
def ReturnedBy (r : Run (step L env) (boot historyFile containers images)) (b n : ℕ)
    (o : Option Outcome) : Prop :=
  ∀ outcome ∈ o, ∃ j, b < j ∧ j < n ∧ r.label j = .act 0 outcome

variable {r : Run (step L env) (boot historyFile containers images)}

theorem ReturnedBy.mono {b n : ℕ} {o : Option Outcome} (h : ReturnedBy r b n o) :
    ReturnedBy r b (n + 1) o := by
  intro outcome ho
  obtain ⟨j, hbj, hjn, hlabel⟩ := h outcome ho
  exact ⟨j, hbj, hjn.trans (Nat.lt_succ_self n), hlabel⟩

/-- **A busy dialog has an operation in progress**, which was begun when the dialog became busy. -/
theorem exists_inProgress {n : ℕ} (hbusy : (r.state n).app.modalMode = .busy) :
    ∃ b op o, BusySince r b n op ∧ InProgress (r.state n) op o ∧ ReturnedBy r b n o := by
  induction n with
  | zero =>
    rw [r.start] at hbusy
    cases hbusy
  | succ n ih =>
    obtain ⟨-, u, hu, hnext⟩ := advance_of_step (r.next n)
    rw [hnext] at hbusy
    have hsame {op : ActionThread} {o : Option Outcome} (h : InProgress u op o) :
        InProgress (r.state (n + 1)) op o := by
      rw [hnext]
      exact h.congr rfl fun p hp => .inl hp
    by_cases hmode : (r.state n).app.modalMode = .busy
    · obtain ⟨b, op, o, hsince, hprogress, hreturned⟩ := ih hmode
      have hstill : BusySince r b (n + 1) op := by
        refine { hsince with before := hsince.before.trans (Nat.lt_succ_self n), busy := ?_ }
        intro k hbk hk
        rcases Nat.of_le_succ hk with hkn | rfl
        · exact hsince.busy k hbk hkn
        · rw [hnext]
          exact hbusy
      cases hprogress.advance (oneOperation_state n) hsince.fresh hmode hu with
      | stays busy goes => exact ⟨b, op, o, hstill, hsame goes, hreturned.mono⟩
      | runs outcome busy returns goes =>
        refine ⟨b, op, some outcome, hstill, hsame goes, ?_⟩
        intro o ho
        obtain rfl := Option.some.inj ho
        exact ⟨n, hsince.before, Nat.lt_succ_self n, returns⟩
      | shows outcome mode message =>
        have hmessage := mode.symm.trans hbusy
        cases hmessage
    · obtain ⟨op, hfresh, hthreads⟩ := inProgress_of_begun (oneOperation_state n) hmode hu hbusy
      have hbegun : (r.state (n + 1)).app.actionThreads = [op] := by rw [hnext]; exact hthreads
      refine ⟨n, op, none, ⟨Nat.lt_succ_self n, hmode, hbegun, hfresh, ?_⟩, .begun hbegun, ?_⟩
      · intro k hnk hk
        obtain rfl : k = n + 1 := le_antisymm hk hnk
        rw [hnext]
        exact hbusy
      · intro outcome ho
        cases ho

/-- The operation begun by step `b` is run by step `j`, which gives this outcome, and at time `m`
the message of it is shown; up to then the dialog is busy. -/
structure Finishes (r : Run (step L env) (boot historyFile containers images)) (b j m : ℕ)
    (op : ActionThread) (outcome : Outcome) : Prop where
  idle : (r.state b).app.modalMode ≠ .busy
  begun : (r.state (b + 1)).app.actionThreads = [op]
  fresh : op.Fresh
  busy : ∀ k, b < k → k < m → (r.state k).app.modalMode = .busy
  after_begun : b < j
  before_shown : j < m
  returned : r.label j = .act 0 outcome
  mode : (r.state m).app.modalMode = .message
  message : (r.state m).app.message = op.message outcome

end Runs

/-- **A busy dialog comes to the message of its operation.**  In every run of the application that
goes on forever and in which neither the thread of the operation nor the loop of the screen is kept
waiting, a dialog that is busy at some time was made busy by the begin of an operation before, and
stays busy until the operation has been run and the message with the title and the text that belong
to what it returned is shown, which happens. -/
theorem busy_ends (L : Json.Library) (env : Env) (historyFile : Option Bytes)
    (containers : ListResult ContainerInfo) (images : ListResult ImageInfo)
    (r : Run (step L env) (boot historyFile containers images))
    (hfair : ∀ party : Party, r.WeaklyFair party.Makes) (n : ℕ)
    (hbusy : (r.state n).app.modalMode = .busy) :
    ∃ b j m op outcome, b < n ∧ n < m ∧ Finishes r b j m op outcome := by
  obtain ⟨m, hlt, hstays, hmessage⟩ := exists_message hfair hbusy
  obtain ⟨l, rfl⟩ := Nat.exists_eq_add_of_lt hlt
  have hlast : (r.state (n + l)).app.modalMode = .busy :=
    hstays (n + l) (Nat.le_add_right n l) (by omega)
  obtain ⟨b, op, o, hsince, hprogress, hreturned⟩ := exists_inProgress hlast
  -- the dialog has been busy since before `n`, so the operation was begun before
  have hbn : b < n := by
    by_contra hle
    exact hsince.idle (hstays b (by omega) (by have := hsince.before; omega))
  obtain ⟨-, u, hu, hnext⟩ := advance_of_step (r.next (n + l))
  rw [hnext] at hmessage
  cases hprogress.advance (oneOperation_state _) hsince.fresh hlast hu with
  | stays busy goes | runs outcome busy returns goes =>
    have hmode := busy.symm.trans hmessage
    cases hmode
  | shows outcome mode message =>
    obtain ⟨j, hbj, hj, hlabel⟩ := hreturned outcome rfl
    refine ⟨b, j, n + l + 1, op, outcome, hbn, hlt, hsince.idle, hsince.begun, hsince.fresh, ?_,
      hbj, by omega, hlabel, ?_, ?_⟩
    · intro k hbk hk
      exact hsince.busy k hbk (by omega)
    · rw [hnext]
      exact mode
    · rw [hnext]
      exact message

/-! ### An image is pulled -/

/-- The steps until the message is shown. -/
def pulling : List Label :=
  [.event .ret still, .event .other { still with text := lit "alpine" }, .event .ret still,
    .act 0 ⟨true, [], lit "done"⟩, .post (.action 0), .deliver]

/-- The run in which the message is then left open. -/
def pulledRun : Run (step layoutLibrary goodEnv) (boot none ⟨[], []⟩ ⟨[], []⟩) :=
  restingRun pulling .yes still (by decide +kernel) (by decide +kernel) (by decide +kernel)

/-- Without a thread and a posted closure neither party can do anything. -/
theorem not_enabled (hthreads : s.app.actionThreads = []) (hqueue : s.queue = []) (party : Party) :
    ¬ Enabled (step L env) party.Makes s := by
  rintro ⟨label, hmakes, hsome⟩
  obtain ⟨t, ht⟩ := Option.isSome_iff_exists.1 hsome
  obtain ⟨-, u, hu, -⟩ := advance_of_step ht
  cases party with
  | loop =>
    obtain rfl := hmakes
    simp [advance, hqueue] at hu
  | operation =>
    cases label with
    | event event o | deliver | wake => cases hmakes
    | act k outcome =>
      simp [advance, hthreads] at hu
    | fetchContainers w result | fetchImages w result | post w =>
      obtain rfl := Option.some.inj hmakes
      simp [advance, TuxDockApp.fetch, TuxDockApp.post, hthreads] at hu

theorem pulledRun_fair (party : Party) : pulledRun.WeaklyFair party.Makes := by
  intro n henabled
  have hidle :
      ¬ Enabled (step layoutLibrary goodEnv) party.Makes (startedAt pulling (max n 6)) := by
    rw [startedAt_of_le (le_max_right n 6)]
    refine not_enabled ?_ ?_ party
    · exact (by decide +kernel : (startedAt pulling 6).app.actionThreads = [])
    · exact (by decide +kernel : (startedAt pulling 6).queue = [])
  exact absurd (henabled _ (le_max_left n 6)) hidle

/-- The dialog is busy after three steps, and its message tells what the pull returned. -/
theorem busy_ends_pulled :
    (∃ b j m op outcome, b < 3 ∧ 3 < m ∧ Finishes pulledRun b j m op outcome) ∧
      (startedAt pulling 6).app.message = ⟨lit "Operation complete", lit "done", none⟩ := by
  refine ⟨?_, by decide +kernel⟩
  exact busy_ends layoutLibrary goodEnv none ⟨[], []⟩ ⟨[], []⟩ pulledRun pulledRun_fair 3
    (by decide +kernel)

end App

end TuxDock
