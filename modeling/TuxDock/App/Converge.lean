import Mathlib.Tactic.IntervalCases
import TuxDock.App.Progress
import TuxDock.App.Refresh
import TuxDock.Lib.Convergence

/-!
# The cached list catches up

A list that was fetched before a change may be delivered after one that was fetched after it, so the
cache can go back to an older list.  It does so for a while only.

* `exists_deliver` : a posted closure is delivered;
* `exists_fetch` : the poller fetches again and again;
* `flows` : the threads and the loop, none of them being kept waiting, keep the pipeline going;
* `cache_converges` : **once the engine always answers with the same list, this list is cached from
  some time on.**
-/

namespace TuxDock

namespace App

open Text History Transition Pipeline Filter

variable {L : Json.Library} {env : Env} {s t : System} {label : Label} {a : TuxDockApp}

instance : Fintype Producer := ⟨{.poller, .refresh, .stop}, fun p => by cases p <;> simp⟩

/-! ### Steps -/

/-- What a producer has in hand is the list of a thread that fetches. -/
theorem exists_worker {p : Producer} (h : (a.flying p).isSome) :
    ∃ w fetch, w.producer = p ∧ a.fetch w = some fetch := by
  cases p with
  | poller =>
    cases hfetch : a.statePoller.fetch with
    | none => simp [TuxDockApp.flying, hfetch] at h
    | some fetch => exact ⟨.poller, fetch, rfl, hfetch⟩
  | refresh =>
    cases hfetch : a.refreshThread with
    | none => simp [TuxDockApp.flying, hfetch] at h
    | some fetch => exact ⟨.refresh, fetch, rfl, hfetch⟩
  | stop =>
    cases hthreads : a.actionThreads with
    | nil => simp [TuxDockApp.flying, hthreads] at h
    | cons thread threads =>
      cases thread with
      | stopped success message fetch =>
        refine ⟨.action 0, fetch, rfl, ?_⟩
        simp only [TuxDockApp.fetch, hthreads, List.getElem?_cons_zero]
      | busy | complete | stop => simp [TuxDockApp.flying, hthreads, ActionThread.flying] at h

/-- Closures are only posted behind the others until the next one is delivered. -/
theorem queue_advance (hdeliver : label ≠ .deliver)
    (hadvance : App.advance L env s label = some t) : s.queue <+: t.queue := by
  cases advance_cases hadvance with
  | deliver p queue next => exact absurd rfl hdeliver
  | post w post a posts => exact List.prefix_append _ _
  | event | halt | wake | act | fetchContainers | fetchImages => exact List.prefix_rfl

/-- The poller that waits is woken by a step of its own. -/
theorem waits_advance (hwaits : s.app.statePoller.fetch = none)
    (hadvance : App.advance L env s label = some t) :
    (label.worker ≠ some .poller → t.app.statePoller.fetch = none) ∧
      (label.worker = some .poller → t.app.statePoller.fetch = some .start) := by
  cases advance_cases hadvance with
  | event event o a handled =>
    refine ⟨fun _ => ?_, by simp [Label.worker]⟩
    by_cases hmode : s.app.modalMode = .busy
    · rwa [onEvent_busy hmode handled]
    · have hquiet {c : TuxDockApp} (hc : Quiet s.app c) : c.statePoller.fetch = none :=
        (congrArg (·.statePoller.fetch) hc.shared).trans hwaits
      cases onEvent_cases hmode handled with
      | quiet quiet => exact hquiet quiet
      | refresh c quiet ended eq =>
        have hc := hquiet quiet
        rwa [eq]
      | operation c title message thread quiet fresh eq =>
        have hc := hquiet quiet
        rwa [eq]
  | halt event o halt handled ends => exact ⟨fun _ => hwaits, by simp [Label.worker]⟩
  | deliver p queue next =>
    exact ⟨fun _ => (fetch_run p.post s.app .poller).trans hwaits, by simp [Label.worker]⟩
  | wake waits => exact ⟨fun h => absurd rfl h, fun _ => rfl⟩
  | act k outcome old new runs acts => exact ⟨fun _ => hwaits, by simp [Label.worker]⟩
  | fetchContainers w result starts | fetchImages w result containers starts =>
    cases w with
    | poller =>
      rw [fetch_poller, hwaits] at starts
      cases starts
    | refresh => exact ⟨fun _ => hwaits, by simp [Label.worker]⟩
    | action k =>
      obtain ⟨success, message, hk⟩ := exists_of_fetch starts
      refine ⟨fun _ => ?_, by simp [Label.worker]⟩
      simp only [TuxDockApp.setFetch, hk, hwaits]
  | post w post a posts =>
    cases posts_of_post posts with
    | poll containers images fetched =>
      rw [hwaits] at fetched
      cases fetched
    | refresh | stopped | complete => exact ⟨fun _ => hwaits, by simp [Label.worker]⟩

/-! ### Runs -/

section Runs

variable {historyFile : Option Bytes} {containers : ListResult ContainerInfo}
  {images : ListResult ImageInfo} {r : Run (step L env) (boot historyFile containers images)}

/-- A closure that is posted comes to be the next but for the closures before it. -/
theorem exists_next (hfair : r.WeaklyFair (· = .deliver)) {n : ℕ} {p : Posted}
    {before : List Posted} (hqueue : before ++ [p] <+: (r.state n).queue) :
    ∃ m, n ≤ m ∧ before ++ [p] <+: (r.state m).queue ∧ r.label m = .deliver := by
  refine Run.exists_turn hfair ?_ ?_ hqueue
  · intro m hm
    obtain ⟨first, rest, hfirst⟩ : ∃ first rest, (r.state m).queue = first :: rest := by
      refine List.exists_cons_of_ne_nil fun hempty => ?_
      simp [hempty] at hm
    refine ⟨.deliver, rfl, ?_⟩
    rw [step_isSome (running_state m), advance, hfirst]
    rfl
  · intro m hm hother
    obtain ⟨-, u, hu, hnext⟩ := advance_of_step (r.next m)
    have hbehind := queue_advance hother hu
    rw [hnext]
    exact hm.trans hbehind

/-- **A closure that brings a list is delivered**, after those that were posted before it. -/
theorem exists_deliver (hfair : r.WeaklyFair (· = .deliver)) {n : ℕ}
    (hposted : (r.state n).queue.filterMap Posted.stamp ≠ []) :
    ∃ m stamp, n ≤ m ∧ r.label m = .deliver ∧
      (r.state m).queue.head?.bind Posted.stamp = some stamp := by
  obtain ⟨stamp, hstamp⟩ := List.exists_mem_of_ne_nil _ hposted
  obtain ⟨p, hp, hpstamp⟩ := List.mem_filterMap.1 hstamp
  obtain ⟨before, after, hqueue⟩ := List.append_of_mem hp
  have hprefix : before ++ [p] <+: (r.state n).queue := by
    rw [hqueue, List.prefix_append_right_inj, List.cons_prefix_cons]
    exact ⟨rfl, List.nil_prefix⟩
  clear hposted hstamp hp hqueue
  -- by induction on the closures before it
  induction before generalizing n with
  | nil =>
    obtain ⟨m, hm, ⟨rest, hrest⟩, hlabel⟩ := exists_next hfair hprefix
    exact ⟨m, stamp, hm, hlabel, by rw [← hrest]; exact hpstamp⟩
  | cons first before ih =>
    obtain ⟨m, hm, ⟨rest, hrest⟩, hlabel⟩ := exists_next hfair hprefix
    have hafter : before ++ [p] <+: (r.state (m + 1)).queue := by
      obtain ⟨-, u, hu, hnext⟩ := advance_of_step (r.next m)
      rw [hlabel, advance, ← hrest] at hu
      obtain rfl := Option.some.inj hu
      rw [hnext]
      exact List.prefix_append _ _
    obtain ⟨l, stamp', hl, hdeliver⟩ := ih hafter
    exact ⟨l, stamp', by omega, hdeliver⟩

/-- **The poller fetches again and again.** -/
theorem exists_fetch (hfair : r.WeaklyFair (·.worker = some .poller)) (n : ℕ) :
    ∃ m result, n ≤ m ∧ r.label m = .fetchContainers .poller result := by
  obtain ⟨k, hk, hwaits⟩ : ∃ k, n ≤ k ∧ (r.state k).app.statePoller.fetch = none := by
    cases hfetch : (r.state n).app.statePoller.fetch with
    | none => exact ⟨n, le_rfl, hfetch⟩
    | some fetch =>
      obtain ⟨m, hm, -, -, hended⟩ := exists_post (w := .poller) hfair hfetch
      exact ⟨m + 1, by omega, hended⟩
  have henabled (m : ℕ) (hm : (r.state m).app.statePoller.fetch = none) :
      Enabled (step L env) (·.worker = some .poller) (r.state m) := by
    refine ⟨.wake, rfl, ?_⟩
    simp [step_isSome (running_state m), advance, hm]
  have hstay (m : ℕ) (hm : (r.state m).app.statePoller.fetch = none)
      (hother : ¬ (r.label m).worker = some .poller) :
      (r.state (m + 1)).app.statePoller.fetch = none := by
    obtain ⟨-, u, hu, hnext⟩ := advance_of_step (r.next m)
    have hstill := (waits_advance hm hu).1 hother
    rwa [hnext]
  obtain ⟨m, hm, hwaits, hwoken⟩ := Run.exists_turn hfair henabled hstay hwaits
  have hstart : (r.state (m + 1)).app.fetch .poller = some .start := by
    obtain ⟨-, u, hu, hnext⟩ := advance_of_step (r.next m)
    have hwakes := (waits_advance hwaits hu).2 hwoken
    rwa [hnext]
  obtain ⟨l, hl, -, hturn⟩ := exists_turn hfair hstart
  generalize hlabel : r.label l = label at hturn
  generalize (r.state (l + 1)).app.fetch .poller = after at hturn
  cases hturn with
  | containers result => exact ⟨l, result, by omega, hlabel⟩

/-! ### The pipeline of a run -/

/-- What happens in a run to the lists. -/
def pipelineRun (r : Run (step L env) (boot historyFile containers images)) :
    Run Pipeline.step (boot historyFile containers images).pipeline :=
  r.map System.pipeline observe fun n => pipeline_step (oneOperation_state n) (r.next n)

/-- **The pipeline is kept going** when neither a thread nor the loop is kept waiting. -/
theorem flows (hloop : r.WeaklyFair (· = .deliver))
    (hworkers : ∀ w, r.WeaklyFair (·.worker = some w)) : Flows (pipelineRun r) where
  posts := by
    intro n p hflying
    obtain ⟨w, fetch, rfl, hfetch⟩ := exists_worker hflying
    obtain ⟨m, hm, hsome, hlabel, -⟩ := exists_post (hworkers w) hfetch
    refine ⟨m, hm, ?_⟩
    change observe (r.state m) (r.label m) = _
    rw [hlabel, observe, if_pos hsome]
  delivers := by
    intro n hposted
    obtain ⟨m, stamp, hm, hlabel, hhead⟩ := exists_deliver hloop hposted
    refine ⟨m, stamp.value.ok, hm, ?_⟩
    change observe (r.state m) (r.label m) = _
    simp only [hlabel, observe, hhead]
  fetches := by
    intro n
    obtain ⟨m, result, hm, hlabel⟩ := exists_fetch (hworkers .poller) n
    refine ⟨m, .poller, result, hm, ?_⟩
    change observe (r.state m) (r.label m) = _
    rw [hlabel]
    rfl

theorem keep_of_observe_deliver {keep : Bool}
    {stamp : Stamp Producer (ListResult ContainerInfo)}
    (hhead : (s.queue.filterMap Posted.stamp).head? = some stamp)
    (h : observe s label = .deliver keep) (hok : stamp.value.ok = true) : keep = true := by
  cases label with
  | deliver =>
    simp only [observe] at h
    cases hqueue : s.queue with
    | nil => simp [hqueue] at hhead
    | cons p queue =>
      cases hp : p.stamp with
      | none => simp [hqueue, hp] at h
      | some first =>
        simp only [hqueue, List.filterMap_cons_some hp, List.head?_cons] at hhead
        simp only [hqueue, List.head?_cons, Option.bind_some, hp] at h
        cases hhead
        cases h
        exact hok
  | post w =>
    simp only [observe] at h
    split_ifs at h
  | event | wake | act | fetchContainers | fetchImages => cases h

/-- **The cached list catches up.**  In every run of the application that goes on forever and in
which neither a thread nor the loop of the screen is kept waiting: if from some time on every list
of containers that is fetched is the same, then from some time on this list is the cached one. -/
theorem cache_converges (L : Json.Library) (env : Env) (historyFile : Option Bytes)
    (containers : ListResult ContainerInfo) (images : ListResult ImageInfo)
    (r : Run (step L env) (boot historyFile containers images))
    (hloop : r.WeaklyFair (· = .deliver)) (hworkers : ∀ w, r.WeaklyFair (·.worker = some w))
    (c : ℕ) (latest : ListResult ContainerInfo) (hok : latest.ok = true)
    (hlatest : ∀ n w result, c ≤ n → r.label n = .fetchContainers w result → result = latest) :
    ∃ n, ∀ m, n ≤ m → (r.state m).app.containers = latest.items := by
  have hinv (n : ℕ) :
      CacheInv (boot historyFile containers images).app.containers (r.state n) :=
    Run.invariant (I := CacheInv _) (fun _ _ _ => CacheInv.step) (.boot _ _ _) n
  have hempty : (boot historyFile containers images).pipeline =
      ⟨fun _ => none, [], none, (boot historyFile containers images).pipeline.clock⟩ := by
    have hflying : (boot historyFile containers images).app.flying = fun _ => none := by
      funext p
      cases p <;> rfl
    rw [System.pipeline, hflying]
    rfl
  have hheld : ∀ᶠ n in atTop, ∃ x, (r.state n).held = some x ∧ x.value = latest := by
    refine Pipeline.converges (r := pipelineRun r) (flows hloop hworkers) hempty (c := c) ?_ ?_
    · intro n p result hclock hfetch
      obtain ⟨w, hlabel⟩ := label_of_observe_fetch hfetch
      rw [clock_state] at hclock
      exact hlatest n w result (by simpa [System.pipeline, boot] using hclock) hlabel
    · intro n x keep hhead hx hdeliver
      exact keep_of_observe_deliver hhead hdeliver (hx ▸ hok)
  obtain ⟨n, hn⟩ := eventually_atTop.1 hheld
  refine ⟨n, fun m hm => ?_⟩
  obtain ⟨x, hx, hvalue⟩ := hn m hm
  rw [(hinv m).cache, hx, cached, Option.map_some, Option.getD_some, hvalue]

end Runs

/-! ### A container is started from outside -/

/-- What the engine answers. -/
def listed : ListResult ContainerInfo := ⟨[sample "a" "first"], []⟩

/-- The poller goes round once. -/
def polling (k : ℕ) : Label :=
  match k % 5 with
  | 0 => .wake
  | 1 => .fetchContainers .poller listed
  | 2 => .fetchImages .poller ⟨[], []⟩
  | 3 => .post .poller
  | _ => .deliver

/-- The list delivered in round `k`. -/
def polledStamp (k : ℕ) : Stamp Producer (ListResult ContainerInfo) :=
  ⟨.poller, 5 * k + 1, 5 * k + 3, listed⟩

/-- The state after `k` rounds and some steps of the next. -/
def polled (k step : ℕ) : System :=
  let s := boot none ⟨[], []⟩ ⟨[], []⟩
  { s with
    app := { s.app with
      containers := if k = 0 then [] else listed.items
      statePoller := ⟨false,
        match step with
        | 1 => some .start
        | 2 => some (.containers ⟨listed, 5 * k + 1⟩)
        | 3 => some (.images ⟨listed, 5 * k + 1⟩ ⟨[], []⟩)
        | _ => none⟩ }
    queue := if step = 4 then [⟨.poll ⟨listed, 5 * k + 1⟩ ⟨[], []⟩, 5 * k + 3⟩] else []
    held := if k = 0 then none else some (polledStamp (k - 1))
    clock := 5 * k + step }

theorem polled_round {i : ℕ} (hi : i < 5) (k : ℕ) :
    polled ((5 * k + i) / 5) ((5 * k + i) % 5) = polled k i := by
  rw [Nat.mul_add_mod, Nat.mod_eq_of_lt hi, Nat.mul_add_div (by decide), Nat.div_eq_of_lt hi,
    Nat.add_zero]

theorem polled_step {i : ℕ} (hi : i < 4) (k : ℕ) :
    step layoutLibrary goodEnv (polled k i) (polling i) = some (polled k (i + 1)) := by
  interval_cases i <;> rfl

theorem polled_deliver (k : ℕ) :
    step layoutLibrary goodEnv (polled k 4) .deliver = some (polled (k + 1) 0) := by
  rfl

/-- The run. -/
def pollingRun : Run (step layoutLibrary goodEnv) (boot none ⟨[], []⟩ ⟨[], []⟩) where
  state n := polled (n / 5) (n % 5)
  label := polling
  start := rfl
  next n := by
    obtain ⟨k, i, hi, rfl⟩ : ∃ k i, i < 5 ∧ n = 5 * k + i :=
      ⟨n / 5, n % 5, Nat.mod_lt _ (by decide), (Nat.div_add_mod n 5).symm⟩
    have hlabel : polling (5 * k + i) = polling i := by
      simp only [polling, Nat.mul_add_mod]
    rw [polled_round hi, hlabel]
    rcases Nat.lt_succ_iff_lt_or_eq.1 hi with hlt | rfl
    · rw [Nat.add_assoc, polled_round (Nat.succ_lt_succ hlt)]
      exact polled_step hlt k
    · rw [show 5 * k + 4 + 1 = 5 * (k + 1) + 0 from rfl, polled_round (by decide)]
      exact polled_deliver k

theorem pollingRun_loop : pollingRun.WeaklyFair (· = .deliver) := by
  intro n _
  refine ⟨5 * n + 4, by omega, ?_⟩
  change polling (5 * n + 4) = .deliver
  simp only [polling, Nat.mul_add_mod]

/-- Only the poller has something to do. -/
theorem pollingRun_worker (w : Worker) : pollingRun.WeaklyFair (·.worker = some w) := by
  intro n henabled
  cases w with
  | poller =>
    refine ⟨5 * n, by omega, ?_⟩
    change (polling (5 * n)).worker = some .poller
    simp only [polling, Nat.mul_mod_right, Label.worker]
  | refresh | action k =>
    obtain ⟨label, hworker, hsome⟩ := henabled n le_rfl
    obtain ⟨t, ht⟩ := Option.isSome_iff_exists.1 hsome
    obtain ⟨-, u, hu, -⟩ := advance_of_step ht
    have hrefresh : (pollingRun.state n).app.refreshThread = none := rfl
    have hthreads : (pollingRun.state n).app.actionThreads = [] := rfl
    cases label with
    | event event o | deliver | wake => cases hworker
    | act k outcome => simp [advance, hthreads] at hu
    | fetchContainers w result | fetchImages w result | post w =>
      obtain rfl := Option.some.inj hworker
      simp [advance, TuxDockApp.fetch, TuxDockApp.post, hrefresh, hthreads] at hu

theorem cache_converges_polled :
    ∃ n, ∀ m, n ≤ m → (pollingRun.state m).app.containers = listed.items := by
  refine cache_converges layoutLibrary goodEnv none ⟨[], []⟩ ⟨[], []⟩ pollingRun pollingRun_loop
    pollingRun_worker 0 listed (by decide) ?_
  intro n w result _ hlabel
  have hlabel : polling n = .fetchContainers w result := hlabel
  unfold polling at hlabel
  split at hlabel <;> cases hlabel
  rfl

end App

end TuxDock
