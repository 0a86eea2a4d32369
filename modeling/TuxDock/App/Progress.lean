import Mathlib.Data.List.GetD
import Mathlib.Data.Prod.Lex
import TuxDock.App.Modal
import TuxDock.Lib.Fairness

/-!
# An operation comes to its end

While an operation is running the dialog takes no input, so the user depends on its thread and on
the loop of the screen.

* `rank_advance` : **a step of a busy dialog ends it or brings it nearer to its end**, or it is made
  by somebody else and leaves it as it is;
* `exists_message` : in every run that goes on forever, the thread of the operation and the loop
  not being kept waiting, **a busy dialog comes to a message**;
* `joining_ends` : before a choice the loop waits for the refresh that was begun last, and **it does
  not wait without end**.
-/

namespace TuxDock

namespace App

open Text History Transition

/-! ### Who acts -/

/-- Who acts while a dialog is busy. -/
inductive Party where
  | operation
  | loop
  deriving Repr, DecidableEq

/-- The thread that makes the step. -/
def Label.worker : Label → Option Worker
  | .wake => some .poller
  | .act k _ => some (.action k)
  | .fetchContainers w _ | .fetchImages w _ | .post w => some w
  | .event _ _ | .deliver => none

/-- The steps of the parties; the thread of the operation is the only one of its kind. -/
def Party.Makes : Party → Label → Prop
  | operation, label => label.worker = some (.action 0)
  | loop, label => label = .deliver

/-- The steps that are left of a fetch. -/
def Fetch.left : Fetch → ℕ
  | start => 3
  | containers _ => 2
  | images _ _ => 1

/-- The steps that are left of the thread of an operation. -/
def ActionThread.left : ActionThread → ℕ
  | busy _ _ => 2
  | complete _ _ => 1
  | stop _ _ => 4
  | stopped _ _ fetch => fetch.left

/-- The place of the completion among the posted closures. -/
def System.place (s : System) : ℕ := s.queue.findIdx (·.post.isCompletion)

/-- What is left of the operation: first the steps of its thread, then the closures that are
delivered before its completion. -/
def System.rank (s : System) : ℕ ×ₗ ℕ :=
  match s.app.actionThreads with
  | [] => toLex (0, s.place)
  | thread :: _ => toLex (thread.left, 0)

/-- Whose turn it is. -/
def System.turn (s : System) : Party := if s.app.actionThreads = [] then .loop else .operation

variable {L : Json.Library} {env : Env} {s t : System} {label : Label}

/-! ### The steps -/

theorem Fetch.left_pos (fetch : Fetch) : 0 < fetch.left := by
  cases fetch <;> exact Nat.succ_pos _

theorem ActionThread.left_pos (thread : ActionThread) : 0 < thread.left := by
  cases thread with
  | stopped success message fetch => exact fetch.left_pos
  | busy | complete | stop => exact Nat.succ_pos _

theorem ActionThread.left_act {outcome : Outcome} {old new : ActionThread}
    (h : old.act outcome = some new) : new.left < old.left := by
  cases old with
  | busy action onComplete | stop id timeoutSeconds =>
    cases h
    exact Nat.lt_succ_self _
  | complete message onComplete | stopped success message fetch => cases h

theorem rank_nil (h : s.app.actionThreads = []) : s.rank = toLex (0, s.place) := by
  rw [System.rank, h]

theorem rank_cons {thread : ActionThread} {threads : List ActionThread}
    (h : s.app.actionThreads = thread :: threads) : s.rank = toLex (thread.left, 0) := by
  rw [System.rank, h]

/-- A step that changes neither the threads of operations nor the place of the completion. -/
theorem rank_congr (hthreads : t.app.actionThreads = s.app.actionThreads)
    (hplace : s.app.actionThreads = [] → t.place = s.place) :
    t.rank = s.rank ∧ t.turn = s.turn := by
  unfold System.rank System.turn
  rw [hthreads]
  refine ⟨?_, rfl⟩
  cases hs : s.app.actionThreads with
  | nil => simp only [hplace hs]
  | cons thread threads => rfl

theorem rank_lt {old new : ActionThread} (hold : s.app.actionThreads = [old])
    (hnew : t.app.actionThreads = [new]) (hleft : new.left < old.left) : t.rank < s.rank := by
  rw [rank_cons hold, rank_cons hnew]
  exact Prod.Lex.toLex_lt_toLex.2 (.inl hleft)

theorem rank_lt_of_ended {old : ActionThread} (hold : s.app.actionThreads = [old])
    (hnew : t.app.actionThreads = []) : t.rank < s.rank := by
  rw [rank_cons hold, rank_nil hnew]
  exact Prod.Lex.toLex_lt_toLex.2 (.inl old.left_pos)

/-- A completion is posted while the dialog is busy and no thread is left. -/
theorem OneOperation.exists_completion (h : OneOperation s) (hmode : s.app.modalMode = .busy)
    (hthreads : s.app.actionThreads = []) : ∃ p ∈ s.queue, p.post.isCompletion = true := by
  have houtstanding := h.outstanding
  rw [if_pos hmode, hthreads, List.length_nil, Nat.zero_add] at houtstanding
  exact List.countP_pos_iff.1 (by omega)

/-- Closures posted after the completion leave it at its place. -/
theorem place_append {p : Posted} (h : ∃ p ∈ s.queue, p.post.isCompletion = true)
    (hqueue : t.queue = s.queue ++ [p]) : t.place = s.place := by
  unfold System.place
  rw [hqueue, List.findIdx_append, if_pos (List.findIdx_lt_length_of_exists h)]

/-- A closure that is delivered before the completion brings it a place forward. -/
theorem place_lt {p : Posted} (hp : p.post.isCompletion = false) (hqueue : s.queue = p :: t.queue) :
    t.place < s.place := by
  unfold System.place
  rw [hqueue, List.findIdx_cons, hp]
  exact Nat.lt_succ_self _

theorem exists_of_fetch {a : TuxDockApp} {k : ℕ} {fetch : Fetch}
    (h : a.fetch (.action k) = some fetch) :
    ∃ success message, a.actionThreads[k]? = some (.stopped success message fetch) := by
  simp only [TuxDockApp.fetch] at h
  split at h <;> cases h
  rename_i success message hk
  exact ⟨success, message, hk⟩

theorem not_makes (hworker : label.worker ≠ some (.action 0)) (hdeliver : label ≠ .deliver)
    (party : Party) : ¬ party.Makes label := by
  cases party with
  | operation => exact hworker
  | loop => exact hdeliver

theorem rank_setFetch (h : OneOperation s) {w : Worker} {old new : Fetch}
    (hold : s.app.fetch w = some old) (hleft : new.left < old.left)
    (ht : t = { s with app := s.app.setFetch new w }) :
    t.rank < s.rank ∨ (t.rank = s.rank ∧ t.turn = s.turn) ∧ w ≠ .action 0 := by
  subst ht
  cases w with
  | poller | refresh =>
    have hplace : s.app.actionThreads = [] → s.place = s.place := fun _ => rfl
    exact .inr ⟨rank_congr rfl hplace, by simp⟩
  | action k =>
    obtain ⟨success, message, hk⟩ := exists_of_fetch hold
    obtain ⟨rfl, hthreads⟩ := h.action hk
    have hset : (s.app.setFetch new (.action 0)).actionThreads =
        [.stopped success message new] := by
      simp only [TuxDockApp.setFetch, hthreads, List.getElem?_cons_zero, List.set_cons_zero]
    exact .inl (rank_lt hthreads hset hleft)

theorem rank_post (h : OneOperation s) (hmode : s.app.modalMode = .busy) {w : Worker} {post : Post}
    {a : TuxDockApp} (hposts : s.app.post w = some (post, a))
    (ht : t = { s with app := a, queue := s.queue ++ [⟨post, s.clock⟩] }) :
    t.rank < s.rank ∨ (t.rank = s.rank ∧ t.turn = s.turn) ∧ w ≠ .action 0 := by
  subst ht
  have hplace : s.app.actionThreads = [] →
      System.place { s with app := a, queue := s.queue ++ [⟨post, s.clock⟩] } = s.place :=
    fun hnil => place_append (h.exists_completion hmode hnil) rfl
  cases posts_of_post hposts with
  | poll containers images fetched | refresh containers images fetched =>
    exact .inr ⟨rank_congr rfl hplace, by simp⟩
  | stopped k success message containers images fetched =>
    obtain ⟨rfl, hthreads⟩ := h.action fetched
    refine .inl (rank_lt_of_ended hthreads ?_)
    simp only [hthreads, List.eraseIdx_cons_zero]
  | complete k message onComplete ended =>
    obtain ⟨rfl, hthreads⟩ := h.action ended
    refine .inl (rank_lt_of_ended hthreads ?_)
    simp only [hthreads, List.eraseIdx_cons_zero]

/-- **A step of a busy dialog** ends it, brings it nearer to its end, or is another party's. -/
theorem rank_advance (h : OneOperation s) (hmode : s.app.modalMode = .busy)
    (hadvance : App.advance L env s label = some t) :
    t.app.modalMode = .message ∨ t.app.modalMode = .busy ∧
      (t.rank < s.rank ∨ t.rank = s.rank ∧ t.turn = s.turn ∧ ¬ s.turn.Makes label) := by
  have hbusy (hevent : ∀ event o, label ≠ .event event o) (hdeliver : label ≠ .deliver) :
      t.app.modalMode = .busy := by
    have hdialog := (works_of_advance hadvance hevent hdeliver).dialog
    exact (congrArg Dialog.mode hdialog).trans hmode
  -- a thread that is not the operation's leaves everything to the others
  have hworker {w : Worker} (hw : label.worker = some w) (hdeliver : label ≠ .deliver)
      (hrank : t.rank < s.rank ∨ (t.rank = s.rank ∧ t.turn = s.turn) ∧ w ≠ .action 0) :
      t.rank < s.rank ∨ t.rank = s.rank ∧ t.turn = s.turn ∧ ¬ s.turn.Makes label := by
    rcases hrank with hlt | ⟨⟨hrank, hturn⟩, hother⟩
    · exact .inl hlt
    · refine .inr ⟨hrank, hturn, not_makes ?_ hdeliver _⟩
      rwa [hw, Ne, Option.some.injEq]
  cases advance_cases hadvance with
  | event event o a handled =>
    obtain rfl := onEvent_busy hmode handled
    exact .inr ⟨hmode, .inr ⟨rfl, rfl, not_makes (by simp [Label.worker]) (by simp) _⟩⟩
  | halt event o halt handled ends =>
    simp only [TuxDockApp.onEvent, hmode] at handled
    cases handled
  | deliver p queue next =>
    have hdialog := dialog_run p.post s.app
    cases hp : p.post.isCompletion with
    | true =>
      rw [hp, if_pos rfl] at hdialog
      exact .inl (congrArg Dialog.mode hdialog)
    | false =>
      rw [hp, if_neg Bool.false_ne_true] at hdialog
      have hthreads : (p.post.run s.app).actionThreads = s.app.actionThreads :=
        actionThreads_run p.post s.app
      refine .inr ⟨(congrArg Dialog.mode hdialog).trans hmode, ?_⟩
      by_cases hnil : s.app.actionThreads = []
      · refine .inl ?_
        rw [rank_nil hnil, rank_nil (hthreads.trans hnil)]
        exact Prod.Lex.toLex_lt_toLex.2 (.inr ⟨rfl, place_lt hp next⟩)
      · obtain ⟨hrank, hturn⟩ := rank_congr (s := s)
          (t := { s with app := p.post.run s.app, queue := queue, held := keep p s.held })
          hthreads fun hs => absurd hs hnil
        refine .inr ⟨hrank, hturn, ?_⟩
        rw [System.turn, if_neg hnil, Party.Makes, Label.worker]
        simp
  | wake waits =>
    obtain ⟨hrank, hturn⟩ := rank_congr (s := s)
      (t := { s with app.statePoller := ⟨false, some .start⟩ }) rfl fun _ => rfl
    exact .inr ⟨hmode, .inr ⟨hrank, hturn, not_makes (by simp [Label.worker]) (by simp) _⟩⟩
  | act k outcome old new runs acts =>
    obtain ⟨rfl, hthreads⟩ := h.action runs
    have hset : s.app.actionThreads.set 0 new = [new] := by
      simp only [hthreads, List.set_cons_zero]
    exact .inr ⟨hmode, .inl (rank_lt hthreads hset (ActionThread.left_act acts))⟩
  | fetchContainers w result starts =>
    refine .inr ⟨hbusy (by simp) (by simp), hworker rfl (by simp) ?_⟩
    exact rank_setFetch h starts (Nat.lt_succ_self _) rfl
  | fetchImages w result containers fetched =>
    refine .inr ⟨hbusy (by simp) (by simp), hworker rfl (by simp) ?_⟩
    exact rank_setFetch h fetched (Nat.lt_succ_self _) rfl
  | post w post a posts =>
    exact .inr ⟨hbusy (by simp) (by simp), hworker rfl (by simp) (rank_post h hmode posts rfl)⟩

/-! ### Whole runs -/

theorem step_isSome (hrunning : s.running = true) :
    (step L env s label).isSome = (advance L env s label).isSome := by
  rw [step, if_pos hrunning, Option.isSome_map]

theorem exists_fetches {w : Worker} {fetch : Fetch} (h : s.app.fetch w = some fetch) :
    ∃ label, label.worker = some w ∧ label ≠ .wake ∧ (advance L env s label).isSome := by
  cases fetch with
  | start =>
    refine ⟨.fetchContainers w ⟨[], []⟩, rfl, by simp, ?_⟩
    simp [advance, h]
  | containers fetched =>
    refine ⟨.fetchImages w ⟨[], []⟩, rfl, by simp, ?_⟩
    simp [advance, h]
  | images fetched images =>
    refine ⟨.post w, rfl, by simp, ?_⟩
    rw [advance, Option.isSome_map]
    cases w with
    | poller | refresh =>
      simp only [TuxDockApp.fetch] at h
      simp [TuxDockApp.post, h]
    | action k =>
      obtain ⟨success, message, hk⟩ := exists_of_fetch h
      simp [TuxDockApp.post, hk]

/-- The thread of an operation is never stuck. -/
theorem exists_acts {k : ℕ} {thread : ActionThread} (h : s.app.actionThreads[k]? = some thread) :
    ∃ label, label.worker = some (.action k) ∧ label ≠ .wake ∧
      (advance L env s label).isSome := by
  cases thread with
  | busy action onComplete | stop id timeoutSeconds =>
    refine ⟨.act k ⟨true, [], []⟩, rfl, by simp, ?_⟩
    simp [advance, h, ActionThread.act]
  | complete message onComplete =>
    refine ⟨.post (.action k), rfl, by simp, ?_⟩
    simp [advance, TuxDockApp.post, h]
  | stopped success message fetch =>
    have hfetch : s.app.fetch (.action k) = some fetch := by simp only [TuxDockApp.fetch, h]
    exact exists_fetches hfetch

/-- **While a dialog is busy the party whose turn it is can go on.** -/
theorem enabled_turn (h : OneOperation s) (hrunning : s.running = true)
    (hmode : s.app.modalMode = .busy) : Enabled (step L env) s.turn.Makes s := by
  by_cases hnil : s.app.actionThreads = []
  · rw [System.turn, if_pos hnil]
    obtain ⟨p, hp, -⟩ := h.exists_completion hmode hnil
    obtain ⟨first, rest, hqueue⟩ := List.exists_cons_of_ne_nil (List.ne_nil_of_mem hp)
    refine ⟨.deliver, rfl, ?_⟩
    rw [step_isSome hrunning, advance, hqueue]
    rfl
  · rw [System.turn, if_neg hnil]
    obtain ⟨thread, threads, hthreads⟩ := List.exists_cons_of_ne_nil hnil
    have hfirst : s.app.actionThreads[0]? = some thread := by rw [hthreads, List.getElem?_cons_zero]
    obtain ⟨label, hmakes, -, hsome⟩ := exists_acts hfirst
    exact ⟨label, hmakes, (step_isSome hrunning).trans hsome⟩

section Runs

variable {historyFile : Option Bytes} {containers : ListResult ContainerInfo}
  {images : ListResult ImageInfo} {r : Run (step L env) (boot historyFile containers images)}

theorem running_state (n : ℕ) : (r.state n).running = true := (advance_of_step (r.next n)).1

theorem oneOperation_state (n : ℕ) : OneOperation (r.state n) := by
  refine Run.invariant ?_ (OneOperation.boot historyFile containers images) n
  intro s label t h hstep
  exact h.step hstep

/-- **A busy dialog comes to a message**, if neither the thread of the operation nor the loop of the
screen is kept waiting. -/
theorem exists_message (hfair : ∀ party : Party, r.WeaklyFair party.Makes) {n : ℕ}
    (hbusy : (r.state n).app.modalMode = .busy) :
    ∃ m, n < m ∧ (∀ k, n ≤ k → k < m → (r.state k).app.modalMode = .busy) ∧
      (r.state m).app.modalMode = .message := by
  have hwaits : r.Waits (fun m => (r.state m).app.modalMode ≠ .busy)
      (fun m => (r.state m).rank) (fun m => (r.state m).turn) Party.Makes n := by
    refine ⟨?_, ?_⟩
    · intro m _ hmode
      exact enabled_turn (oneOperation_state m) (running_state m) (not_not.1 hmode)
    · intro m _ hmode
      obtain ⟨-, u, hu, hnext⟩ := advance_of_step (r.next m)
      rw [hnext]
      rcases rank_advance (oneOperation_state m) (not_not.1 hmode) hu with
        hmessage | ⟨-, hrank⟩
      · refine .inl ?_
        simp [hmessage]
      · exact .inr hrank
  have hends : ∃ m, n ≤ m ∧ (r.state m).app.modalMode ≠ .busy := Run.leadsTo hwaits hfair
  obtain ⟨m, hnm, hm, hfirst⟩ := Run.exists_first hends
  have hstays : ∀ k, n ≤ k → k < m → (r.state k).app.modalMode = .busy :=
    fun k hk hkm => not_not.1 (hfirst k hk hkm)
  have hlt : n < m := by
    refine lt_of_le_of_ne hnm ?_
    rintro rfl
    exact hm hbusy
  refine ⟨m, hlt, hstays, ?_⟩
  obtain ⟨k, rfl⟩ := Nat.exists_eq_add_of_lt hlt
  obtain ⟨-, u, hu, hnext⟩ := advance_of_step (r.next (n + k))
  have hmode : (r.state (n + k + 1)).app.modalMode = u.app.modalMode := by rw [hnext]
  have hbefore := hstays (n + k) (Nat.le_add_right n k) (by omega)
  rcases rank_advance (oneOperation_state _) hbefore hu with
    hmessage | ⟨hstill, -⟩
  · exact hmode.trans hmessage
  · exact absurd (hmode.trans hstill) hm

end Runs

/-! ### The refresh before it -/

theorem InputCallback.not_joining {callback : InputCallback} {o : Outside} {ok : Bool}
    {value : Bytes} {a : TuxDockApp} : callback.run L env o ok value a ≠ .error .joining := by
  intro h
  unfold InputCallback.run at h
  split at h
  · cases h
  · cases callback with
    | pullImage | stopTimeout id | detachedCommand | commandWithOutput => cases h
    | containerName context | portMapping context index =>
      simp only at h
      split_ifs at h
    | portCount context =>
      simp only at h
      split_ifs at h
      split at h <;> cases h

theorem refreshState_not_joining {a : TuxDockApp} (h : a.refreshThread = none) (message : Bytes) :
    a.refreshState message ≠ .error .joining := by
  rw [TuxDockApp.refreshState, h]
  simp

/-- No event waits when there is no thread to wait for. -/
theorem not_joining {a : TuxDockApp} (h : a.refreshThread = none) (event : Event) (o : Outside) :
    a.onEvent L env event o ≠ .error .joining := by
  have hcontainers (title : Bytes) (callback : ContainerCallback) :
      a.promptContainerSelection title callback ≠ .error .joining := by
    unfold TuxDockApp.promptContainerSelection
    split_ifs
    · exact refreshState_not_joining h _
    · simp
  have himages (title : Bytes) (callback : ImageCallback) :
      a.promptImageSelection title callback ≠ .error .joining := by
    unfold TuxDockApp.promptImageSelection
    split_ifs
    · exact refreshState_not_joining h _
    · simp
  have hmenu : a.executeSelectedAction ≠ .error .joining := by
    unfold TuxDockApp.executeSelectedAction
    split <;> first | exact hcontainers _ _ | exact himages _ _ | simp
  have hinput (confirmed : Bool) : a.resolveInput L env o confirmed ≠ .error .joining := by
    unfold TuxDockApp.resolveInput
    split
    · simp
    · exact InputCallback.not_joining
  unfold TuxDockApp.onEvent
  split
  case h_2 =>
    cases event with
    | ret | escape => exact hinput _
    | f1 | yes | no | other => simp [TuxDockApp.onInputEvent]
  case h_7 =>
    cases event with
    | ret => exact hmenu
    | escape | f1 | yes | no | other => simp [TuxDockApp.onMenuEvent]
  all_goals simp

/-! ### Fetching threads -/

theorem fetch_poller (a : TuxDockApp) : a.fetch .poller = a.statePoller.fetch := rfl

theorem fetch_refresh (a : TuxDockApp) : a.fetch .refresh = a.refreshThread := rfl

theorem fetch_action_congr {a b : TuxDockApp} (h : b.actionThreads = a.actionThreads) (k : ℕ) :
    b.fetch (.action k) = a.fetch (.action k) := by
  simp only [TuxDockApp.fetch, h]

/-- What a thread fetches depends on what it shares with the handling of events. -/
theorem fetch_of_shared {a b : TuxDockApp} (h : b.shared = a.shared) (w : Worker) :
    b.fetch w = a.fetch w := by
  cases w with
  | poller => exact congrArg (·.statePoller.fetch) h
  | refresh => exact congrArg Shared.refreshThread h
  | action k => exact fetch_action_congr (congrArg Shared.actionThreads h) k

theorem fetch_run (post : Post) (a : TuxDockApp) (w : Worker) :
    (post.run a).fetch w = a.fetch w := by
  cases post with
  | poll containers images | refresh containers images => cases w <;> rfl
  | stopped success message containers images => cases w <;> rfl
  | complete message onComplete =>
    cases onComplete with
    | none => cases w <;> rfl
    | some onComplete =>
      cases onComplete
      cases w <;> rfl

theorem fetch_onEvent {event : Event} {o : Outside} {a : TuxDockApp} {w : Worker} {fetch : Fetch}
    (h : OneOperation s) (handled : s.app.onEvent L env event o = .ok a)
    (hfetch : s.app.fetch w = some fetch) : a.fetch w = some fetch := by
  by_cases hmode : s.app.modalMode = .busy
  · rwa [onEvent_busy hmode handled]
  · cases onEvent_cases hmode handled with
    | quiet quiet => rwa [fetch_of_shared quiet.shared]
    | refresh c quiet ended eq =>
      subst eq
      rw [← fetch_of_shared quiet.shared w] at hfetch
      cases w with
      | refresh =>
        have hended : c.refreshThread = none :=
          (congrArg Shared.refreshThread quiet.shared).trans ended
        rw [fetch_refresh, hended] at hfetch
        cases hfetch
      | poller | action k => exact hfetch
    | operation c title message thread quiet fresh eq =>
      subst eq
      cases w with
      | poller | refresh => exact (fetch_of_shared quiet.shared _).trans hfetch
      | action k =>
        simp only [TuxDockApp.fetch, (h.quiet hmode).1] at hfetch
        simp at hfetch

theorem fetch_setFetch_self {a : TuxDockApp} {w : Worker} {old : Fetch} (h : a.fetch w = some old)
    (new : Fetch) : (a.setFetch new w).fetch w = some new := by
  cases w with
  | poller | refresh => rfl
  | action k =>
    obtain ⟨success, message, hk⟩ := exists_of_fetch h
    obtain ⟨hlt, -⟩ := List.getElem?_eq_some_iff.1 hk
    simp only [TuxDockApp.setFetch, hk, TuxDockApp.fetch, List.getElem?_set_self hlt]

/-- The threads that fetch do not disturb each other; there is one thread of an operation. -/
theorem fetch_setFetch_of_ne (h : OneOperation s) {w v : Worker} {old : Fetch}
    (hv : s.app.fetch v = some old) (hne : v ≠ w) {fetch : Fetch}
    (hfetch : s.app.fetch w = some fetch) (new : Fetch) :
    (s.app.setFetch new v).fetch w = some fetch := by
  cases v with
  | poller | refresh => cases w <;> first | exact hfetch | exact absurd rfl hne
  | action k =>
    obtain ⟨success, message, hk⟩ := exists_of_fetch hv
    simp only [TuxDockApp.setFetch, hk]
    cases w with
    | poller | refresh => exact hfetch
    | action j =>
      obtain ⟨success', message', hj⟩ := exists_of_fetch hfetch
      exact absurd (by rw [(h.action hk).1, (h.action hj).1]) hne

/-- **A thread that fetches goes on only by its own steps.** -/
theorem fetch_advance (h : OneOperation s) {w : Worker} {fetch : Fetch}
    (hfetch : s.app.fetch w = some fetch) (hworker : label.worker ≠ some w)
    (hadvance : App.advance L env s label = some t) : t.app.fetch w = some fetch := by
  cases advance_cases hadvance with
  | event event o a handled => exact fetch_onEvent h handled hfetch
  | halt event o halt handled ends => exact hfetch
  | deliver p queue next => exact (fetch_run p.post s.app w).trans hfetch
  | wake waits =>
    cases w with
    | poller => exact absurd rfl hworker
    | refresh | action k => exact hfetch
  | act k outcome old new runs acts =>
    cases w with
    | poller | refresh => exact hfetch
    | action j =>
      obtain ⟨success, message, hj⟩ := exists_of_fetch hfetch
      rw [(h.action hj).1, Label.worker, (h.action runs).1] at hworker
      exact absurd rfl hworker
  | fetchContainers v result starts =>
    refine fetch_setFetch_of_ne h starts ?_ hfetch _
    rintro rfl
    exact hworker rfl
  | fetchImages v result containers fetched =>
    refine fetch_setFetch_of_ne h fetched ?_ hfetch _
    rintro rfl
    exact hworker rfl
  | post v post a posts =>
    cases posts_of_post posts with
    | poll containers images fetched =>
      cases w with
      | poller => exact absurd rfl hworker
      | refresh | action k => exact hfetch
    | refresh containers images fetched =>
      cases w with
      | refresh => exact absurd rfl hworker
      | poller | action k => exact hfetch
    | stopped k success message containers images fetched =>
      cases w with
      | poller | refresh => exact hfetch
      | action j =>
        obtain ⟨success', message', hj⟩ := exists_of_fetch hfetch
        rw [(h.action hj).1, Label.worker, (h.action fetched).1] at hworker
        exact absurd rfl hworker
    | complete k message onComplete ended =>
      cases w with
      | poller | refresh => exact hfetch
      | action j =>
        obtain ⟨success', message', hj⟩ := exists_of_fetch hfetch
        rw [(h.action hj).1, Label.worker, (h.action ended).1] at hworker
        exact absurd rfl hworker

/-- The own steps of a thread that fetches, and how far it is after them: the one list, the other
list, the post. -/
inductive Turn (time : ℕ) (w : Worker) : Fetch → Label → Option Fetch → Prop where
  | containers (result : ListResult ContainerInfo) :
    Turn time w .start (.fetchContainers w result) (some (.containers ⟨result, time⟩))
  | images (containers : Fetched) (result : ListResult ImageInfo) :
    Turn time w (.containers containers) (.fetchImages w result) (some (.images containers result))
  | post (containers : Fetched) (images : ListResult ImageInfo) :
    Turn time w (.images containers images) (.post w) none

/-- **The step of a thread that fetches is one of these.** -/
theorem turn_advance (h : OneOperation s) {w : Worker} {fetch : Fetch}
    (hfetch : s.app.fetch w = some fetch) (hworker : label.worker = some w)
    (hadvance : App.advance L env s label = some t) :
    Turn s.clock w fetch label (t.app.fetch w) := by
  cases advance_cases hadvance with
  | event event o a handled | halt event o halt handled ends | deliver p queue next => cases hworker
  | wake waits =>
    cases hworker
    rw [fetch_poller, waits] at hfetch
    cases hfetch
  | act k outcome old new runs acts =>
    cases hworker
    obtain ⟨success, message, hk⟩ := exists_of_fetch hfetch
    rw [hk] at runs
    cases runs
    cases acts
  | fetchContainers v result starts =>
    cases hworker
    obtain rfl := Option.some.inj (hfetch.symm.trans starts)
    rw [fetch_setFetch_self starts]
    exact .containers result
  | fetchImages v result containers fetched =>
    cases hworker
    obtain rfl := Option.some.inj (hfetch.symm.trans fetched)
    rw [fetch_setFetch_self fetched]
    exact .images containers result
  | post v post a posts =>
    cases hworker
    cases posts_of_post posts with
    | poll containers images fetched | refresh containers images fetched =>
      obtain rfl := Option.some.inj (hfetch.symm.trans fetched)
      exact .post containers images
    | stopped k success message containers images fetched =>
      have hpost : s.app.fetch (.action k) = some (.images containers images) := by
        simp only [TuxDockApp.fetch, fetched]
      obtain rfl := Option.some.inj (hfetch.symm.trans hpost)
      obtain ⟨rfl, hthreads⟩ := h.action fetched
      simp only [TuxDockApp.fetch, hthreads]
      exact .post containers images
    | complete k message onComplete ended =>
      simp only [TuxDockApp.fetch, ended] at hfetch
      cases hfetch

theorem enabled_fetch {w : Worker} {fetch : Fetch} (hfetch : s.app.fetch w = some fetch)
    (hrunning : s.running = true) : Enabled (step L env) (·.worker = some w) s := by
  obtain ⟨label, hworker, -, hsome⟩ := exists_fetches hfetch
  exact ⟨label, hworker, (step_isSome hrunning).trans hsome⟩

section Runs

variable {historyFile : Option Bytes} {containers : ListResult ContainerInfo}
  {images : ListResult ImageInfo} {r : Run (step L env) (boot historyFile containers images)}

/-- A thread that fetches and is not kept waiting goes its next step. -/
theorem exists_turn {w : Worker} (hfair : r.WeaklyFair (·.worker = some w)) {n : ℕ} {fetch : Fetch}
    (hfetch : (r.state n).app.fetch w = some fetch) :
    ∃ m, n ≤ m ∧ (r.state m).app.fetch w = some fetch ∧
      Turn (r.state m).clock w fetch (r.label m) ((r.state (m + 1)).app.fetch w) := by
  have hstay (m : ℕ) (hm : (r.state m).app.fetch w = some fetch)
      (hworker : ¬ (r.label m).worker = some w) : (r.state (m + 1)).app.fetch w = some fetch := by
    obtain ⟨-, u, hu, hnext⟩ := advance_of_step (r.next m)
    have hkept := fetch_advance (oneOperation_state m) hm hworker hu
    rwa [hnext]
  obtain ⟨m, hm, hkept, hworker⟩ := Run.exists_turn hfair
    (fun m hm => enabled_fetch hm (running_state m)) hstay hfetch
  obtain ⟨-, u, hu, hnext⟩ := advance_of_step (r.next m)
  have hturn := turn_advance (oneOperation_state m) hkept hworker hu
  refine ⟨m, hm, hkept, ?_⟩
  rwa [hnext]

/-- **A thread that fetches comes to its post.** -/
theorem exists_post {w : Worker} (hfair : r.WeaklyFair (·.worker = some w)) {n : ℕ} {fetch : Fetch}
    (hfetch : (r.state n).app.fetch w = some fetch) :
    ∃ m, n ≤ m ∧ ((r.state m).app.fetch w).isSome ∧ r.label m = .post w ∧
      (r.state (m + 1)).app.fetch w = none := by
  -- by induction on what is left of the fetch
  induction hleft : fetch.left using Nat.strong_induction_on generalizing n fetch with
  | _ left ih =>
    obtain ⟨m, hm, hkept, hturn⟩ := exists_turn hfair hfetch
    generalize hlabel : r.label m = label at hturn
    generalize hafter : (r.state (m + 1)).app.fetch w = after at hturn
    cases hturn with
    | post containers images =>
      exact ⟨m, hm, Option.isSome_of_eq_some hkept, hlabel, hafter⟩
    | containers result | images containers result =>
      obtain ⟨l, hl, hpost⟩ := ih _ (hleft ▸ Nat.lt_succ_self _) hafter rfl
      exact ⟨l, by omega, hpost⟩

/-- **No event waits for a refresh without end.**  In every run that goes on forever and in which
the thread of the refresh is not kept waiting, there is after any time a time at which no event
waits for that thread. -/
theorem joining_ends (L : Json.Library) (env : Env) (historyFile : Option Bytes)
    (containers : ListResult ContainerInfo) (images : ListResult ImageInfo)
    (r : Run (step L env) (boot historyFile containers images))
    (hfair : r.WeaklyFair (·.worker = some .refresh)) (n : ℕ) :
    ∃ m, n ≤ m ∧ ∀ event o, (r.state m).app.onEvent L env event o ≠ .error .joining := by
  cases hrefresh : (r.state n).app.refreshThread with
  | none => exact ⟨n, le_rfl, fun event o => not_joining hrefresh event o⟩
  | some fetch =>
    obtain ⟨m, hm, -, -, hended⟩ := exists_post hfair hrefresh
    exact ⟨m + 1, by omega, fun event o => not_joining hended event o⟩

end Runs

/-! ### Runs that come to rest -/

/-- The state after `n` steps of a run that begins with these and then changes nothing; there are
no containers and no images at the start. -/
def startedAt (labels : List Label) (n : ℕ) : System :=
  { after (boot none ⟨[], []⟩ ⟨[], []⟩) (labels.take n) with clock := n }

theorem startedAt_of_le {labels : List Label} {n : ℕ} (h : labels.length ≤ n) :
    startedAt labels n = { startedAt labels labels.length with clock := n } := by
  rw [startedAt, List.take_of_length_le h, startedAt, List.take_length]

/-- The run in which an event that changes nothing comes again and again after these steps. -/
def restingRun (labels : List Label) (event : Event) (o : Outside)
    (hsteps : ∀ n, n < labels.length → step layoutLibrary goodEnv (startedAt labels n)
      (labels.getD n (.event event o)) = some (startedAt labels (n + 1)))
    (hrunning : (startedAt labels labels.length).running = true)
    (hrests : (startedAt labels labels.length).app.onEvent layoutLibrary goodEnv event o =
      .ok (startedAt labels labels.length).app) :
    Run (step layoutLibrary goodEnv) (boot none ⟨[], []⟩ ⟨[], []⟩) where
  state := startedAt labels
  label n := labels.getD n (.event event o)
  start := rfl
  next n := by
    rcases Nat.lt_or_ge n labels.length with hlt | hle
    · exact hsteps n hlt
    · rw [startedAt_of_le hle, startedAt_of_le (Nat.le_succ_of_le hle),
        List.getD_eq_default _ _ hle]
      simp only [step, hrunning, ↓reduceIte, advance, hrests, Option.map_some]

/-- A container is to be started when none is cached: a refresh is begun, and the next choice waits
for it until it has fetched both lists and posted them. -/
def refreshing : List Label :=
  [.event .other { still with index := 4 }, .event .ret still,
    .fetchContainers .refresh ⟨[], []⟩, .fetchImages .refresh ⟨[], []⟩, .post .refresh, .deliver]

/-- The run of it. -/
def refreshingRun : Run (step layoutLibrary goodEnv) (boot none ⟨[], []⟩ ⟨[], []⟩) :=
  restingRun refreshing .other { still with index := 4 } (by decide +kernel) (by decide +kernel)
    (by decide +kernel)

theorem refreshingRun_fair : refreshingRun.WeaklyFair (·.worker = some .refresh) := by
  -- the thread has ended after six steps, which are enough for the two fetches and the post
  intro n henabled
  obtain ⟨label, hworker, hsome⟩ := henabled (max n 6) (le_max_left n 6)
  have hrefresh : (refreshingRun.state (max n 6)).app.refreshThread = none := by
    change (startedAt refreshing (max n 6)).app.refreshThread = none
    rw [startedAt_of_le (le_max_right n 6)]
    exact (by decide +kernel : (startedAt refreshing 6).app.refreshThread = none)
  obtain ⟨t, ht⟩ := Option.isSome_iff_exists.1 hsome
  obtain ⟨-, u, hu, -⟩ := advance_of_step ht
  cases label with
  | event event o | deliver | wake | act k outcome => cases hworker
  | fetchContainers w result | fetchImages w result | post w =>
    obtain rfl := Option.some.inj hworker
    simp [advance, TuxDockApp.fetch, TuxDockApp.post, hrefresh] at hu

/-- After two steps Return waits for the refresh, and some time later nothing does. -/
theorem joining_ends_refreshed :
    (startedAt refreshing 2).app.onEvent layoutLibrary goodEnv .ret still = .error .joining ∧
      ∃ m, 2 ≤ m ∧ ∀ event o,
        (startedAt refreshing m).app.onEvent layoutLibrary goodEnv event o ≠ .error .joining := by
  refine ⟨by decide +kernel, ?_⟩
  exact joining_ends layoutLibrary goodEnv none ⟨[], []⟩ ⟨[], []⟩ refreshingRun
    refreshingRun_fair 2

end App

end TuxDock
