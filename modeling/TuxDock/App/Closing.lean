import Mathlib.Algebra.BigOperators.Group.List.Basic
import TuxDock.App.Progress

/-!
# The end of `Run`

What `Run` does after the loop of the screen: it stops the poller, then joins the thread of the
poller, that of the last refresh, that of the spinner and those of the operations.  The threads go
on meanwhile, but what they would post is dropped, as the screen is no longer the active one.  The
loop ends when the user chooses to, or at any time by a signal that the terminal library handles.

* `worked_advance` : a step of a thread brings it nearer to its end, and no other thread;
* `left_close` : once the poller has been told to stop, **every step of the program is one less**;
* `exists_close` : before `Run` has returned somebody can go on;
* `run_returns` : **`Run` returns, and no thread is left**.
-/

namespace TuxDock

namespace App

open Text History Transition

/-! ### The steps of `Run` -/

/-- What `Run` does next. -/
inductive Stage where
  /-- `state_poller_.stop()`, up to its `join`. -/
  | stop
  | joinPoller
  | joinRefresh
  | joinSpinner
  | joinActions
  | returned
  deriving Repr, DecidableEq

/-- The stage after it. -/
def Stage.next : Stage → Stage
  | stop => joinPoller
  | joinPoller => joinRefresh
  | joinRefresh => joinSpinner
  | joinSpinner => joinActions
  | joinActions | returned => returned

/-- The steps that are left of `Run`. -/
def Stage.left : Stage → ℕ
  | stop => 5
  | joinPoller => 4
  | joinRefresh => 3
  | joinSpinner => 2
  | joinActions => 1
  | returned => 0

/-- The application after its loop; `polling` and `spinning` say that the threads of the poller and
of the spinner have not ended. -/
structure Closing where
  system : System
  stage : Stage
  polling : Bool
  spinning : Bool
  deriving DecidableEq

/-- The loop has ended.  The spinner is there while an operation is running. -/
def Closing.start (s : System) : Closing where
  system := s
  stage := .stop
  polling := true
  spinning := decide (s.app.modalMode = .busy)

/-- What happens next: `Run` goes on, a thread does its work, or the thread of the poller or of the
spinner ends. -/
inductive Move where
  | run
  | work (label : Label)
  | poller
  | spinner
  deriving DecidableEq

/-- `Run` does not have to wait. -/
def Closing.ready (c : Closing) : Bool :=
  match c.stage with
  | .stop => true
  | .joinPoller => !c.polling
  | .joinRefresh => c.system.app.refreshThread = none
  | .joinSpinner => !c.spinning
  | .joinActions => c.system.app.actionThreads = []
  | .returned => false

variable (L : Json.Library) (env : Env)

/-- A step after the loop.  The poller leaves its own loop, and does not begin a turn of it, when it
finds that it is to stop. -/
def close (c : Closing) : Move → Option Closing
  | .run => if c.ready then some { c with stage := c.stage.next } else none
  | .work label =>
    if label.worker.isSome ∧ (label = .wake → c.stage = .stop) then
      (advance L env c.system label).map fun t =>
        -- the screen is not the active one, so nothing is posted
        { c with system := { t with queue := c.system.queue, clock := c.system.clock + 1 } }
    else none
  | .poller =>
    if c.stage ≠ .stop ∧ c.polling = true ∧ c.system.app.statePoller.fetch = none then
      some { c with polling := false }
    else none
  | .spinner => if c.spinning then some { c with spinning := false } else none

/-- No thread is left. -/
structure Threadless (c : Closing) : Prop where
  polling : c.polling = false
  statePoller : c.system.app.statePoller.fetch = none
  refreshThread : c.system.app.refreshThread = none
  spinning : c.spinning = false
  actionThreads : c.system.app.actionThreads = []

/-! ### The work that is left -/

/-- The steps that are left of the threads of a kind. -/
def TuxDockApp.left (a : TuxDockApp) : Producer → ℕ
  | .poller => a.statePoller.fetch.elim 0 Fetch.left
  | .refresh => a.refreshThread.elim 0 Fetch.left
  | .stop => (a.actionThreads.map ActionThread.left).sum

variable {L env} {s t : System} {a b : TuxDockApp} {label : Label} {c d : Closing} {move : Move}

theorem elim_left_eq_zero {fetch : Option Fetch} : fetch.elim 0 Fetch.left = 0 ↔ fetch = none := by
  cases fetch with
  | none => simp
  | some fetch => simpa using fetch.left_pos.ne'

theorem left_stop_eq_zero : a.left .stop = 0 ↔ a.actionThreads = [] := by
  rw [TuxDockApp.left]
  cases a.actionThreads with
  | nil => simp
  | cons thread threads => simpa using fun h => absurd h thread.left_pos.ne'

/-- One of the threads has ended. -/
theorem sum_left_eraseIdx {threads : List ActionThread} {k : ℕ} {old : ActionThread}
    (hold : threads[k]? = some old) :
    old.left + ((threads.eraseIdx k).map ActionThread.left).sum =
      (threads.map ActionThread.left).sum := by
  obtain ⟨hlt, rfl⟩ := List.getElem?_eq_some_iff.1 hold
  have hlength : k < (threads.map ActionThread.left).length := by simpa using hlt
  have hsum := List.add_sum_eraseIdx hlength fun _ _ => AddCommute.all _ _
  rwa [List.getElem_map, List.eraseIdx_map] at hsum

theorem sum_left_set {threads : List ActionThread} {k : ℕ} {old new : ActionThread}
    (hold : threads[k]? = some old) (h : new.left + 1 = old.left) :
    ((threads.set k new).map ActionThread.left).sum + 1 =
      (threads.map ActionThread.left).sum := by
  obtain ⟨hlt, -⟩ := List.getElem?_eq_some_iff.1 hold
  have hnew : (threads.set k new)[k]? = some new := List.getElem?_set_self hlt
  have hbefore := sum_left_eraseIdx hold
  have hafter := sum_left_eraseIdx hnew
  rw [List.eraseIdx_set_eq] at hafter
  omega

/-- What a thread has done with one of its steps: it is one less, and the other kinds of threads
have as much to do as before. -/
def Worked (a b : TuxDockApp) (p : Producer) : Prop :=
  b.left p + 1 = a.left p ∧ ∀ q, q ≠ p → b.left q = a.left q

theorem worked_of_kept {p : Producer} (hleft : b.left p + 1 = a.left p)
    (hpoller : p ≠ .poller → b.statePoller.fetch = a.statePoller.fetch)
    (hrefresh : p ≠ .refresh → b.refreshThread = a.refreshThread)
    (hactions : p ≠ .stop → b.actionThreads = a.actionThreads) : Worked a b p := by
  refine ⟨hleft, ?_⟩
  intro q hq
  cases q with
  | poller => simp only [TuxDockApp.left, hpoller hq.symm]
  | refresh => simp only [TuxDockApp.left, hrefresh hq.symm]
  | stop => simp only [TuxDockApp.left, hactions hq.symm]

theorem worked_setFetch {w : Worker} {old new : Fetch} (h : a.fetch w = some old)
    (hleft : new.left + 1 = old.left) : Worked a (a.setFetch new w) w.producer := by
  cases w with
  | poller =>
    simp only [TuxDockApp.fetch] at h
    refine worked_of_kept ?_ (absurd rfl) (fun _ => rfl) (fun _ => rfl)
    simpa [TuxDockApp.setFetch, TuxDockApp.left, h, Worker.producer] using hleft
  | refresh =>
    simp only [TuxDockApp.fetch] at h
    refine worked_of_kept ?_ (fun _ => rfl) (absurd rfl) (fun _ => rfl)
    simpa [TuxDockApp.setFetch, TuxDockApp.left, h, Worker.producer] using hleft
  | action k =>
    obtain ⟨success, message, hk⟩ := exists_of_fetch h
    have hset : a.setFetch new (.action k) =
        { a with actionThreads := a.actionThreads.set k (.stopped success message new) } := by
      simp only [TuxDockApp.setFetch, hk]
    rw [hset]
    exact worked_of_kept (sum_left_set hk hleft) (fun _ => rfl) (fun _ => rfl) (absurd rfl)

theorem worked_post {w : Worker} {post : Post} (h : a.post w = some (post, b)) :
    Worked a b w.producer := by
  cases posts_of_post h with
  | poll containers images fetched =>
    refine worked_of_kept ?_ (absurd rfl) (fun _ => rfl) (fun _ => rfl)
    simp [TuxDockApp.left, fetched, Fetch.left, Worker.producer]
  | refresh containers images fetched =>
    refine worked_of_kept ?_ (fun _ => rfl) (absurd rfl) (fun _ => rfl)
    simp [TuxDockApp.left, fetched, Fetch.left, Worker.producer]
  | stopped k success message containers images fetched =>
    refine worked_of_kept ?_ (fun _ => rfl) (fun _ => rfl) (absurd rfl)
    exact (Nat.add_comm _ _).trans (sum_left_eraseIdx fetched)
  | complete k message onComplete ended =>
    refine worked_of_kept ?_ (fun _ => rfl) (fun _ => rfl) (absurd rfl)
    exact (Nat.add_comm _ _).trans (sum_left_eraseIdx ended)

/-- **A step of a thread brings it nearer to its end.**  Only the poller begins anew. -/
theorem worked_advance {w : Worker} (hadvance : advance L env s label = some t)
    (hworker : label.worker = some w) (hwake : label ≠ .wake) :
    Worked s.app t.app w.producer := by
  cases advance_cases hadvance with
  | event event o a handled | halt event o halt handled ends | deliver p queue next => cases hworker
  | wake waits => exact absurd rfl hwake
  | act k outcome old new runs acts =>
    cases hworker
    refine worked_of_kept (sum_left_set runs ?_) (fun _ => rfl) (fun _ => rfl) (absurd rfl)
    cases old with
    | busy action onComplete | stop id timeoutSeconds =>
      cases acts
      rfl
    | complete message onComplete | stopped success message fetch => cases acts
  | fetchContainers v result starts =>
    cases hworker
    exact worked_setFetch starts rfl
  | fetchImages v result containers fetched =>
    cases hworker
    exact worked_setFetch fetched rfl
  | post v post a posts =>
    cases hworker
    exact worked_post posts

theorem left_wake (hadvance : advance L env s .wake = some t) :
    t.app.left .poller = 3 ∧ s.app.left .poller = 0 ∧
      ∀ q, q ≠ .poller → t.app.left q = s.app.left q := by
  cases advance_cases hadvance with
  | wake waits =>
    refine ⟨rfl, by simp [TuxDockApp.left, waits], ?_⟩
    intro q hq
    cases q with
    | poller => exact absurd rfl hq
    | refresh | stop => rfl

/-! ### The steps of the program -/

/-- The steps that are left of the program. -/
def Closing.left (c : Closing) : ℕ :=
  c.stage.left + c.system.app.left .poller + c.system.app.left .refresh +
    c.system.app.left .stop + c.polling.toNat + c.spinning.toNat

/-- The steps after the loop, with what each requires and does. -/
inductive Closes (L : Json.Library) (env : Env) (c : Closing) : Move → Closing → Prop where
  | run (ready : c.ready = true) : Closes L env c .run { c with stage := c.stage.next }
  | work (label : Label) (w : Worker) (worker : label.worker = some w)
      (wake : label = .wake → c.stage = .stop) (t : System)
      (advances : advance L env c.system label = some t) :
    Closes L env c (.work label)
      { c with system := { t with queue := c.system.queue, clock := c.system.clock + 1 } }
  | poller (stops : c.stage ≠ .stop) (polls : c.polling = true)
      (waits : c.system.app.statePoller.fetch = none) :
    Closes L env c .poller { c with polling := false }
  | spinner (spins : c.spinning = true) : Closes L env c .spinner { c with spinning := false }

/-- **Every step after the loop is one of these.** -/
theorem closes_of_close (h : close L env c move = some d) : Closes L env c move d := by
  cases move with
  | run =>
    obtain ⟨ready, ⟨⟩⟩ := Option.ite_none_right_eq_some.1 h
    exact .run ready
  | work label =>
    obtain ⟨⟨hworker, wake⟩, hmap⟩ := Option.ite_none_right_eq_some.1 h
    obtain ⟨w, worker⟩ := Option.isSome_iff_exists.1 hworker
    obtain ⟨t, advances, rfl⟩ := Option.map_eq_some_iff.1 hmap
    exact .work label w worker wake t advances
  | poller =>
    obtain ⟨⟨stops, polls, waits⟩, ⟨⟩⟩ := Option.ite_none_right_eq_some.1 h
    exact .poller stops polls waits
  | spinner =>
    obtain ⟨spins, ⟨⟩⟩ := Option.ite_none_right_eq_some.1 h
    exact .spinner spins

theorem Stage.left_le {stage : Stage} (h : stage ≠ .stop) : stage.left ≤ 4 := by
  cases stage with
  | stop => exact absurd rfl h
  | joinPoller | joinRefresh | joinSpinner | joinActions | returned => decide

theorem Closing.left_next (h : c.ready = true) : c.stage.next.left + 1 = c.stage.left := by
  cases hstage : c.stage with
  | returned => simp [Closing.ready, hstage] at h
  | stop | joinPoller | joinRefresh | joinSpinner | joinActions => rfl

/-- What `Run` does not wait for any more. -/
theorem Closing.ended_of_ready (h : c.ready = true) :
    (c.stage.left = 4 → c.polling = false) ∧
      (c.stage.left = 3 → c.system.app.left .refresh = 0) ∧
      (c.stage.left = 2 → c.spinning = false) ∧
      (c.stage.left = 1 → c.system.app.left .stop = 0) := by
  cases hstage : c.stage with
  | stop | returned => simp [Stage.left]
  | joinPoller | joinRefresh | joinSpinner | joinActions =>
    simp only [Closing.ready, hstage, decide_eq_true_eq, Bool.not_eq_true'] at h
    simp [Stage.left, TuxDockApp.left, h]

/-- **Every step of the program is one less**, once the poller has been told to stop. -/
theorem left_close (hstop : c.stage ≠ .stop) (h : close L env c move = some d) :
    d.left + 1 = c.left ∧ d.stage ≠ .stop := by
  cases closes_of_close h with
  | run ready =>
    have hnext := Closing.left_next ready
    refine ⟨?_, ?_⟩
    · simp only [Closing.left]
      omega
    · intro heq
      have hle := Stage.left_le hstop
      have hfive : c.stage.next.left = 5 := congrArg Stage.left heq
      omega
  | work label w worker wake t advances =>
    obtain ⟨hself, hother⟩ := worked_advance advances worker fun hwake => hstop (wake hwake)
    refine ⟨?_, hstop⟩
    have hpoller := hother .poller
    have hrefresh := hother .refresh
    have hactions := hother .stop
    cases hw : w.producer with
    | poller | refresh | stop =>
      simp [hw] at hself hpoller hrefresh hactions
      simp only [Closing.left]
      omega
  | poller stops polls waits =>
    refine ⟨?_, hstop⟩
    simp [Closing.left, polls]
    omega
  | spinner spins =>
    refine ⟨?_, hstop⟩
    simp [Closing.left, spins]

theorem left_exec {moves : List Move} (hstop : c.stage ≠ .stop)
    (h : exec (close L env) c moves = some d) : d.left + moves.length = c.left := by
  induction moves generalizing c with
  | nil => exact congrArg Closing.left (Option.some.inj h).symm
  | cons move moves ih =>
    obtain ⟨e, he, hrest⟩ := exec_cons_eq_some.1 h
    obtain ⟨hleft, hstop⟩ := left_close hstop he
    have hlength := ih hstop hrest
    rw [List.length_cons]
    omega

/-- **Before `Run` has returned somebody can go on.** -/
theorem exists_close (h : c.stage ≠ .returned) : ∃ move, (close L env c move).isSome := by
  have hrun (hready : c.ready = true) : ∃ move, (close L env c move).isSome :=
    ⟨.run, by simp [close, hready]⟩
  have hwork (hworks : ∃ label w, label.worker = some w ∧ label ≠ .wake ∧
      (advance L env c.system label).isSome) : ∃ move, (close L env c move).isSome := by
    obtain ⟨label, w, hworker, hwake, hsome⟩ := hworks
    exact ⟨.work label, by simp [close, hworker, hwake, hsome]⟩
  cases hstage : c.stage with
  | returned => exact absurd hstage h
  | stop => exact hrun (by simp [Closing.ready, hstage])
  | joinPoller =>
    cases hpolling : c.polling with
    | false => exact hrun (by simp [Closing.ready, hstage, hpolling])
    | true =>
      cases hfetch : c.system.app.statePoller.fetch with
      | none => exact ⟨.poller, by simp [close, hstage, hpolling, hfetch]⟩
      | some fetch =>
        obtain ⟨label, hlabel⟩ := exists_fetches (w := .poller) hfetch
        exact hwork ⟨label, _, hlabel⟩
  | joinRefresh =>
    cases hrefresh : c.system.app.refreshThread with
    | none => exact hrun (by simp [Closing.ready, hstage, hrefresh])
    | some fetch =>
      obtain ⟨label, hlabel⟩ := exists_fetches (w := .refresh) hrefresh
      exact hwork ⟨label, _, hlabel⟩
  | joinSpinner =>
    cases hspinning : c.spinning with
    | false => exact hrun (by simp [Closing.ready, hstage, hspinning])
    | true => exact ⟨.spinner, by simp [close, hspinning]⟩
  | joinActions =>
    cases hactions : c.system.app.actionThreads with
    | nil => exact hrun (by simp [Closing.ready, hstage, hactions])
    | cons thread threads =>
      have hfirst : c.system.app.actionThreads[0]? = some thread := by
        rw [hactions, List.getElem?_cons_zero]
      obtain ⟨label, hlabel⟩ := exists_acts hfirst
      exact hwork ⟨label, _, hlabel⟩

/-! ### Nothing is left -/

/-- What `Run` has joined has ended, and there is not much left to do. -/
structure Joined (queue : List Posted) (c : Closing) : Prop where
  queue : c.system.queue = queue
  poller : c.stage.left ≤ 3 → c.polling = false
  stopped : c.polling = false → c.stage.left ≤ 4 ∧ c.system.app.left .poller = 0
  refresh : c.stage.left ≤ 2 → c.system.app.left .refresh = 0
  spinner : c.stage.left ≤ 1 → c.spinning = false
  actions : c.stage.left = 0 → c.system.app.left .stop = 0
  few : c.system.app.left .poller ≤ 3 ∧ c.system.app.left .refresh ≤ 3 ∧
    c.system.app.left .stop ≤ 4

namespace Joined

variable {queue : List Posted}

theorem run (h : Joined queue c) (hready : c.ready = true) :
    Joined queue { c with stage := c.stage.next } := by
  have hnext := Closing.left_next hready
  obtain ⟨hpoller, hrefresh, hspinner, hactions⟩ := Closing.ended_of_ready hready
  refine ⟨h.queue, ?_, ?_, ?_, ?_, ?_, h.few⟩
  · intro (hle : c.stage.next.left ≤ 3)
    have hcases : c.stage.left ≤ 3 ∨ c.stage.left = 4 := by omega
    exact hcases.elim h.poller hpoller
  · intro hpolling
    obtain ⟨hle, hleft⟩ := h.stopped hpolling
    have hle' : c.stage.next.left ≤ 4 := by omega
    exact ⟨hle', hleft⟩
  · intro (hle : c.stage.next.left ≤ 2)
    have hcases : c.stage.left ≤ 2 ∨ c.stage.left = 3 := by omega
    exact hcases.elim h.refresh hrefresh
  · intro (hle : c.stage.next.left ≤ 1)
    have hcases : c.stage.left ≤ 1 ∨ c.stage.left = 2 := by omega
    exact hcases.elim h.spinner hspinner
  · intro (hzero : c.stage.next.left = 0)
    exact hactions (by omega)

theorem work {w : Worker} (h : Joined queue c) (hworker : label.worker = some w)
    (hwake : label = .wake → c.stage = .stop) (hadvance : advance L env c.system label = some t) :
    Joined queue
      { c with system := { t with queue := c.system.queue, clock := c.system.clock + 1 } } := by
  obtain ⟨hpoller, hrefresh, hactions⟩ := h.few
  by_cases hlabel : label = .wake
  · subst hlabel
    obtain ⟨hthree, -, hother⟩ := left_wake hadvance
    have hr := hother .refresh (by simp)
    have ha := hother .stop (by simp)
    have hfive : c.stage.left = 5 := congrArg Stage.left (hwake rfl)
    refine ⟨h.queue, h.poller, ?_, ?_, h.spinner, ?_, hthree.le, hr ▸ hrefresh, ha ▸ hactions⟩
    · intro hpolling
      have hstopped := h.stopped hpolling
      omega
    · intro (hle : c.stage.left ≤ 2)
      omega
    · intro (hzero : c.stage.left = 0)
      omega
  · have hmono (p : Producer) : t.app.left p ≤ c.system.app.left p := by
      obtain ⟨hself, hother⟩ := worked_advance hadvance hworker hlabel
      by_cases hp : p = w.producer
      · subst hp
        omega
      · exact (hother p hp).le
    refine ⟨h.queue, h.poller, ?_, ?_, h.spinner, ?_, (hmono _).trans hpoller,
      (hmono _).trans hrefresh, (hmono _).trans hactions⟩
    · intro hpolling
      obtain ⟨hle, hzero⟩ := h.stopped hpolling
      exact ⟨hle, Nat.eq_zero_of_le_zero (hzero ▸ hmono .poller)⟩
    · intro hle
      exact Nat.eq_zero_of_le_zero (h.refresh hle ▸ hmono .refresh)
    · intro hzero
      exact Nat.eq_zero_of_le_zero (h.actions hzero ▸ hmono .stop)

/-- **A step after the loop preserves it.** -/
theorem close (h : Joined queue c) (hclose : App.close L env c move = some d) : Joined queue d := by
  cases closes_of_close hclose with
  | run ready => exact h.run ready
  | work label w worker wake t advances => exact h.work worker wake advances
  | poller stops polls waits =>
    refine ⟨h.queue, fun _ => rfl, ?_, h.refresh, h.spinner, h.actions, h.few⟩
    intro _
    exact ⟨Stage.left_le stops, elim_left_eq_zero.2 waits⟩
  | spinner spins =>
    exact ⟨h.queue, h.poller, h.stopped, h.refresh, fun _ => rfl, h.actions, h.few⟩

theorem exec {moves : List Move} (h : Joined queue c)
    (hexec : Transition.exec (App.close L env) c moves = some d) : Joined queue d := by
  refine exec_invariant' ?_ h hexec
  intro c move d h hclose
  exact h.close hclose

/-- When the loop ends at most one operation is running. -/
theorem start (hone : OneOperation s) : Joined s.queue (.start s) := by
  have hthree (fetch : Option Fetch) : fetch.elim 0 Fetch.left ≤ 3 := by
    rcases fetch with _ | (_ | _ | _) <;> simp [Fetch.left]
  have hfour : s.app.left .stop ≤ 4 := by
    rcases hactions : s.app.actionThreads with _ | ⟨thread, threads⟩
    · simp [TuxDockApp.left, hactions]
    · have hfirst : s.app.actionThreads[0]? = some thread := by
        rw [hactions, List.getElem?_cons_zero]
      rw [TuxDockApp.left, (hone.action hfirst).2, List.map_singleton, List.sum_singleton]
      rcases thread with _ | _ | _ | ⟨_, _, _ | _ | _⟩ <;> simp [ActionThread.left, Fetch.left]
  refine ⟨rfl, ?_, ?_, ?_, ?_, ?_, hthree _, hthree _, hfour⟩ <;>
    simp [Closing.start, Stage.left]

theorem threadless (h : Joined queue c) (hreturned : c.stage = .returned) : Threadless c := by
  have hzero : c.stage.left = 0 := congrArg Stage.left hreturned
  have hpolling := h.poller (by omega)
  refine ⟨hpolling, ?_, ?_, h.spinner (by omega), ?_⟩
  · exact elim_left_eq_zero.1 (h.stopped hpolling).2
  · exact elim_left_eq_zero.1 (h.refresh (by omega))
  · exact left_stop_eq_zero.1 (h.actions hzero)

/-- There is little left once the poller has been told to stop. -/
theorem left_le (h : Joined queue c) (hstop : c.stage ≠ .stop) : c.left ≤ 16 := by
  have hstage := Stage.left_le hstop
  have hpolling := Bool.toNat_le c.polling
  have hspinning := Bool.toNat_le c.spinning
  obtain ⟨hpoller, hrefresh, hactions⟩ := h.few
  rw [Closing.left]
  omega

/-- When `Run` has returned nothing more happens. -/
theorem close_eq_none (h : Joined queue c) (hreturned : c.stage = .returned) (move : Move) :
    App.close L env c move = none := by
  have hthreadless := h.threadless hreturned
  have hzero : c.left = 0 := by
    simp [Closing.left, hreturned, Stage.left, TuxDockApp.left, hthreadless.polling,
      hthreadless.statePoller, hthreadless.refreshThread, hthreadless.spinning,
      hthreadless.actionThreads]
  by_contra hsome
  obtain ⟨d, hd⟩ := Option.ne_none_iff_exists'.1 hsome
  obtain ⟨hleft, -⟩ := left_close (by simp [hreturned]) hd
  omega

end Joined

theorem stage_close (hmove : move ≠ .run) (h : close L env c move = some d) :
    d.stage = c.stage := by
  cases closes_of_close h with
  | run ready => exact absurd rfl hmove
  | work label w worker wake t advances => rfl
  | poller stops polls waits => rfl
  | spinner spins => rfl

section Runs

variable {r : Run (close L env) (.start s)}

theorem exists_stopped (hfair : r.WeaklyFair (· = .run)) : ∃ m, (r.state m).stage ≠ .stop := by
  have henabled (m : ℕ) (hstop : (r.state m).stage = .stop) :
      Enabled (close L env) (· = .run) (r.state m) :=
    ⟨.run, rfl, by simp [close, Closing.ready, hstop]⟩
  have hstay (m : ℕ) (hstop : (r.state m).stage = .stop) (hmove : r.label m ≠ .run) :
      (r.state (m + 1)).stage = .stop :=
    (stage_close hmove (r.next m)).trans hstop
  have hstart : (r.state 0).stage = .stop := by
    rw [r.start]
    rfl
  obtain ⟨m, -, hstop, hmove⟩ := Run.exists_turn hfair henabled hstay hstart
  have hnext := r.next m
  simp only [hmove, close, Closing.ready, hstop, ↓reduceIte, Option.some.injEq] at hnext
  exact ⟨m + 1, by simp [← hnext, Stage.next]⟩

/-- **`Run` does not go on forever.** -/
theorem not_weaklyFair : ¬ r.WeaklyFair (· = .run) := by
  intro hfair
  obtain ⟨m, hstop⟩ := exists_stopped hfair
  have hleft (k : ℕ) :
      (r.state (m + k)).stage ≠ .stop ∧ (r.state (m + k)).left + k = (r.state m).left := by
    induction k with
    | zero => exact ⟨hstop, rfl⟩
    | succ k ih =>
      obtain ⟨hnext, hstop⟩ := left_close ih.1 (r.next (m + k))
      refine ⟨hstop, ?_⟩
      rw [← ih.2, ← hnext, Nat.add_right_comm]
      rfl
  have hend := (hleft ((r.state m).left + 1)).2
  omega

end Runs

/-- An operation that is running is not left by a choice of the user. -/
theorem not_busy_of_exit {event : Event} {o : Outside} {halt : Halt}
    (h : a.onEvent L env event o = .error halt) : a.modalMode ≠ .busy := by
  intro hmode
  simp [TuxDockApp.onEvent, hmode] at h

/-- **`Run` returns.**  Whatever has happened before, once the loop has ended `Run` does not go on
forever, somebody can go on before it has returned, and then no thread is left; nothing is posted
any more; and once the poller has been told to stop there are at most 16 steps of the program.  If
the loop has ended because the user has chosen to, no operation was running, and the result of each
had been shown. -/
theorem run_returns (L : Json.Library) (env : Env) (historyFile : Option Bytes)
    (containers : ListResult ContainerInfo) (images : ListResult ImageInfo) (labels : List Label)
    (s : System)
    (hreached : exec (step L env) (boot historyFile containers images) labels = some s) :
    (∀ r : Run (close L env) (.start s), ¬ r.WeaklyFair (· = .run)) ∧
      (∀ moves c, exec (close L env) (.start s) moves = some c →
        ((∀ move, close L env c move = none) ↔ c.stage = .returned) ∧
          (c.stage = .returned → Threadless c) ∧ c.system.queue = s.queue ∧
          (c.stage ≠ .stop → ∀ more d, exec (close L env) c more = some d → more.length ≤ 16)) ∧
      ∀ event o, s.app.onEvent L env event o = .error .exit →
        s.app.actionThreads = [] ∧ ∀ p ∈ s.queue, p.post.isCompletion = false := by
  have hone : OneOperation s := by
    refine exec_invariant' ?_ (OneOperation.boot historyFile containers images) hreached
    intro s label t h hstep
    exact h.step hstep
  refine ⟨fun r => not_weaklyFair, ?_, ?_⟩
  · intro moves c hmoves
    have hjoined := (Joined.start hone).exec hmoves
    refine ⟨⟨?_, hjoined.close_eq_none⟩, hjoined.threadless, hjoined.queue, ?_⟩
    · intro hnone
      by_contra hstage
      obtain ⟨move, hsome⟩ := @exists_close L env c hstage
      simp [hnone move] at hsome
    · intro hstop more d hmore
      have hleft := left_exec hstop hmore
      have hle := hjoined.left_le hstop
      omega
  · intro event o hexit
    exact hone.quiet (not_busy_of_exit hexit)

/-- The lists are fetched by the poller and by a refresh, and an image is pulled. -/
def fetching : List Label :=
  [.wake, .event .other { still with index := 4 }, .event .ret still,
    .event .other { still with index := 0 }, .event .ret still,
    .event .other { still with text := lit "alpine" }, .event .ret still]

/-- Then the loop is left because of a signal. -/
def interrupted : System := after (boot none ⟨[], []⟩ ⟨[], []⟩) fetching

/-- What the threads and `Run` do after that. -/
def joining : List Move :=
  [.work (.fetchContainers .poller ⟨[], []⟩), .run, .work (.fetchImages .poller ⟨[], []⟩),
    .work (.fetchContainers .refresh ⟨[], []⟩), .work (.post .poller), .poller, .run,
    .work (.fetchImages .refresh ⟨[], []⟩), .work (.post .refresh), .run, .spinner, .run,
    .work (.act 0 ⟨true, [], lit "done"⟩), .work (.post (.action 0)), .run]

theorem run_returns_interrupted : ∃ c,
    exec (close layoutLibrary goodEnv) (.start interrupted) joining = some c ∧
      (∀ move, close layoutLibrary goodEnv c move = none) ∧ Threadless c := by
  obtain ⟨c, hc, hstage⟩ : ∃ c,
      exec (close layoutLibrary goodEnv) (.start interrupted) joining = some c ∧
        c.stage = .returned :=
    ⟨(exec (close layoutLibrary goodEnv) (.start interrupted) joining).getD
      (.start interrupted), by decide +kernel, by decide +kernel⟩
  obtain ⟨-, hmoves, -⟩ := run_returns layoutLibrary goodEnv none ⟨[], []⟩ ⟨[], []⟩ fetching
    interrupted (by decide +kernel)
  obtain ⟨hreturned, hthreadless, -⟩ := hmoves joining c hc
  exact ⟨c, hc, hreturned.2 hstage, hthreadless hstage⟩

end App

end TuxDock
