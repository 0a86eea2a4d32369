import TuxDock.App.Select
import TuxDock.App.System

/-!
# The cached list of containers

The poller, the thread of `RefreshState` and the thread of a stop operation each fetch the list of
containers and post it; `ApplyRefreshResults` puts every list that comes into the cache.  Of the
system only the lists matter here: it is a pipeline with these three producers.

* `pipeline_step` : the system refines the pipeline;
* `overtaken_of_earlier` : **the cache holds the last list delivered; one that was fetched before
  it replaces it only if its producer has been overtaken by another.**
-/

namespace TuxDock

namespace App

open Text History Transition Pipeline

/-! ### The pipeline -/

/-- The list that has been fetched. -/
def Fetch.flying : Fetch → Option (ℕ × ListResult ContainerInfo)
  | start => none
  | containers fetched => some (fetched.time, fetched.result)
  | images fetched _ => some (fetched.time, fetched.result)

/-- The list that the thread of an operation has fetched. -/
def ActionThread.flying : ActionThread → Option (ℕ × ListResult ContainerInfo)
  | stopped _ _ fetch => fetch.flying
  | _ => none

/-- The list that a producer has fetched and not posted. -/
def TuxDockApp.flying (a : TuxDockApp) : Producer → Option (ℕ × ListResult ContainerInfo)
  | .poller => a.statePoller.fetch.bind Fetch.flying
  | .refresh => a.refreshThread.bind Fetch.flying
  | .stop => a.actionThreads.head?.bind ActionThread.flying

/-- The lists on their way to the cache. -/
def System.pipeline (s : System) : Pipeline.State Producer (ListResult ContainerInfo) where
  flying := s.app.flying
  queue := s.queue.filterMap Posted.stamp
  held := s.held
  clock := s.clock

/-- What a step does to the lists. -/
def observe (s : System) : Label → Pipeline.Event Producer (ListResult ContainerInfo)
  | .deliver =>
    match s.queue.head?.bind Posted.stamp with
    | some stamp => .deliver stamp.value.ok
    | none => .tick
  | .fetchContainers w result => .fetch w.producer result
  | .post w => if (s.app.fetch w).isSome then .post w.producer else .tick
  | _ => .tick

variable {L : Json.Library} {env : Env} {s t : System} {a b : TuxDockApp}

theorem flying_congr (hpoller : b.statePoller.fetch.bind Fetch.flying =
      a.statePoller.fetch.bind Fetch.flying)
    (hrefresh : b.refreshThread.bind Fetch.flying = a.refreshThread.bind Fetch.flying)
    (hstop : b.actionThreads.head?.bind ActionThread.flying =
      a.actionThreads.head?.bind ActionThread.flying) : b.flying = a.flying := by
  funext p
  cases p with
  | poller => exact hpoller
  | refresh => exact hrefresh
  | stop => exact hstop

theorem pipeline_tick (hflying : t.app.flying = s.app.flying)
    (hqueue : t.queue.filterMap Posted.stamp = s.queue.filterMap Posted.stamp)
    (hheld : t.held = s.held) :
    Pipeline.step s.pipeline .tick = some { t with clock := s.clock + 1 }.pipeline := by
  simp only [System.pipeline, Pipeline.step, hflying, hqueue, hheld]

theorem flying_fetch (h : OneOperation s) {w : Worker} {fetch : Fetch}
    (hw : s.app.fetch w = some fetch) : s.app.flying w.producer = fetch.flying := by
  cases w with
  | poller => exact congrArg (Option.bind · Fetch.flying) hw
  | refresh => exact congrArg (Option.bind · Fetch.flying) hw
  | action k =>
    simp only [TuxDockApp.fetch] at hw
    split at hw <;> cases hw
    rename_i success message hk
    obtain ⟨-, hthreads⟩ := h.action hk
    simp only [Worker.producer, TuxDockApp.flying, hthreads, List.head?_cons, Option.bind_some,
      ActionThread.flying]

theorem flying_setFetch (h : OneOperation s) {w : Worker} {fetch fetch' : Fetch}
    (hw : s.app.fetch w = some fetch) :
    (s.app.setFetch fetch' w).flying =
      Function.update s.app.flying w.producer fetch'.flying := by
  funext p
  cases w with
  | poller => cases p <;> rfl
  | refresh => cases p <;> rfl
  | action k =>
    simp only [TuxDockApp.fetch] at hw
    split at hw <;> cases hw
    rename_i success message hk
    obtain ⟨rfl, hthreads⟩ := h.action hk
    simp only [TuxDockApp.setFetch, hk]
    cases p with
    | poller => rfl
    | refresh => rfl
    | stop => simp [TuxDockApp.flying, hthreads, Worker.producer, ActionThread.flying]

/-- A posted closure takes the list of its thread along. -/
theorem flying_post (h : OneOperation s) {w : Worker} {post : Post}
    (hpost : s.app.post w = some (post, a)) (time : ℕ) :
    (∃ fetched : Fetched, (s.app.fetch w).isSome ∧
        s.app.flying w.producer = some (fetched.time, fetched.result) ∧
        Posted.stamp ⟨post, time⟩ = some ⟨w.producer, fetched.time, time, fetched.result⟩ ∧
        a.flying = Function.update s.app.flying w.producer none) ∨
      s.app.fetch w = none ∧ Posted.stamp ⟨post, time⟩ = none ∧ a.flying = s.app.flying := by
  cases posts_of_post hpost with
  | poll fetched images hw =>
    refine Or.inl ⟨fetched, Option.isSome_of_eq_some hw, ?_, rfl, ?_⟩
    · exact congrArg (Option.bind · Fetch.flying) hw
    · funext p
      cases p <;> rfl
  | refresh fetched images hw =>
    refine Or.inl ⟨fetched, Option.isSome_of_eq_some hw, ?_, rfl, ?_⟩
    · exact congrArg (Option.bind · Fetch.flying) hw
    · funext p
      cases p <;> rfl
  | stopped k success message fetched images hk =>
    obtain ⟨rfl, hthreads⟩ := h.action hk
    have hw : s.app.fetch (.action 0) = some (.images fetched images) := by
      simp only [TuxDockApp.fetch, hk]
    refine Or.inl ⟨fetched, Option.isSome_of_eq_some hw, flying_fetch h hw, rfl, ?_⟩
    funext p
    cases p with
    | poller => rfl
    | refresh => rfl
    | stop => simp [TuxDockApp.flying, hthreads, Worker.producer]
  | complete k message onComplete hk =>
    -- the thread of another operation has fetched nothing
    obtain ⟨rfl, hthreads⟩ := h.action hk
    refine Or.inr ⟨by simp only [TuxDockApp.fetch, hk], rfl, flying_congr rfl rfl ?_⟩
    simp [hthreads, ActionThread.flying]

theorem flying_onEvent (h : OneOperation s) {event : Event} {o : Outside}
    (hevent : s.app.onEvent L env event o = .ok a) : a.flying = s.app.flying := by
  by_cases hmode : s.app.modalMode = .busy
  · rw [onEvent_busy hmode hevent]
  · have hquiet {b : TuxDockApp} (hb : Quiet s.app b) : b.flying = s.app.flying :=
      flying_congr (congrArg (·.statePoller.fetch.bind Fetch.flying) hb.shared)
        (congrArg (·.refreshThread.bind Fetch.flying) hb.shared)
        (congrArg (·.actionThreads.head?.bind ActionThread.flying) hb.shared)
    cases onEvent_cases hmode hevent with
    | quiet quiet => exact hquiet quiet
    | refresh b quiet ended eq =>
      have hended : b.refreshThread = none :=
        (congrArg Shared.refreshThread quiet.shared).trans ended
      subst eq
      rw [← hquiet quiet]
      refine flying_congr rfl ?_ rfl
      rw [hended]
      rfl
    | operation b title message thread quiet fresh eq =>
      -- the dialog was not busy, so the new thread is the first
      have hidle : s.app.actionThreads = [] := by
        have houtstanding := h.outstanding
        rw [if_neg hmode] at houtstanding
        exact List.length_eq_zero_iff.1 (by omega)
      have hthreads : b.actionThreads = [] :=
        (congrArg Shared.actionThreads quiet.shared).trans hidle
      subst eq
      rw [← hquiet quiet]
      refine flying_congr rfl rfl ?_
      rw [TuxDockApp.beginOperation, hthreads]
      cases fresh <;> rfl

theorem flying_run (a : TuxDockApp) (post : Post) : (post.run a).flying = a.flying := by
  cases post with
  | complete message onComplete =>
    cases onComplete with
    | none => exact flying_congr rfl rfl rfl
    | some onComplete =>
      cases onComplete
      exact flying_congr rfl rfl rfl
  | poll containers images => exact flying_congr rfl rfl rfl
  | refresh containers images => exact flying_congr rfl rfl rfl
  | stopped success message containers images => exact flying_congr rfl rfl rfl

theorem pipeline_advance (h : OneOperation s) {label : Label}
    (hu : advance L env s label = some t) :
    Pipeline.step s.pipeline (observe s label) =
      some { t with clock := s.clock + 1 }.pipeline := by
  cases advance_cases hu with
  | event event o a handled => exact pipeline_tick (flying_onEvent h handled) rfl rfl
  | halt event o halt handled ends => exact pipeline_tick rfl rfl rfl
  | deliver p queue next =>
    cases hstamp : p.stamp with
    | none =>
      have hobserve : observe s .deliver = .tick := by
        simp only [observe, next, List.head?_cons, Option.bind_some, hstamp]
      rw [hobserve]
      refine pipeline_tick (flying_run s.app p.post) ?_ ?_
      · rw [next, List.filterMap_cons_none hstamp]
      · simp only [keep, hstamp]
    | some stamp =>
      simp only [observe, next, List.head?_cons, Option.bind_some, hstamp, Pipeline.step,
        System.pipeline, List.filterMap_cons_some hstamp, flying_run, keep]
  | wake waits =>
    -- the poller starts with nothing fetched, as it waited
    exact pipeline_tick (flying_congr (by rw [waits]; rfl) rfl rfl) rfl rfl
  | act k outcome old new runs acts =>
    obtain ⟨rfl, hthreads⟩ := h.action runs
    refine pipeline_tick (flying_congr rfl rfl ?_) rfl rfl
    simp only [hthreads, List.set_cons_zero, List.head?_cons, Option.bind_some]
    cases old <;> cases acts <;> rfl
  | fetchContainers w result starts =>
    have hnone : s.app.flying w.producer = none := flying_fetch h starts
    simp only [observe, Pipeline.step, System.pipeline, hnone, ↓reduceIte, State.fetch,
      flying_setFetch h starts, Fetch.flying]
  | fetchImages w result containers fetched =>
    refine pipeline_tick ?_ rfl rfl
    rw [flying_setFetch h fetched]
    exact Function.update_eq_self_iff.2 (flying_fetch h fetched).symm
  | post w post a posts =>
    rcases flying_post h posts s.clock with ⟨fetched, hw, hflying, hstamp, ha⟩ | ⟨hw, hstamp, ha⟩
    · simp only [observe, hw, ↓reduceIte, Pipeline.step, System.pipeline, hflying, Option.map_some,
        State.post, List.filterMap_append, List.filterMap_cons, List.filterMap_nil, hstamp, ha]
    · simp only [observe, hw, Option.isSome_none, Bool.false_eq_true, ↓reduceIte, Pipeline.step,
        System.pipeline, List.filterMap_append, List.filterMap_cons, List.filterMap_nil, hstamp,
        List.append_nil, ha]

/-- **The system refines the pipeline.** -/
theorem pipeline_step (h : OneOperation s) {label : Label} (hstep : step L env s label = some t) :
    Pipeline.step s.pipeline (observe s label) = some t.pipeline := by
  obtain ⟨-, u, hu, rfl⟩ := advance_of_step hstep
  exact pipeline_advance h hu

/-- A list that is fetched is the result of a fetch. -/
theorem label_of_observe_fetch {p : Producer} {result : ListResult ContainerInfo}
    (h : observe s label = .fetch p result) : ∃ w, label = .fetchContainers w result := by
  cases label with
  | fetchContainers w result' =>
    cases h
    exact ⟨w, rfl⟩
  | deliver =>
    simp only [observe] at h
    split at h <;> cases h
  | post w =>
    simp only [observe] at h
    split_ifs at h
  | event | wake | act | fetchImages => cases h

/-! ### The cache -/

/-- The list in the cache when `held` was delivered last, `initial` if nothing was. -/
def cached (initial : List ContainerInfo)
    (held : Option (Stamp Producer (ListResult ContainerInfo))) : List ContainerInfo :=
  (held.map fun stamp => stamp.value.items).getD initial

/-- One operation, the lists in order, and the last one delivered in the cache. -/
structure CacheInv (initial : List ContainerInfo) (s : System) : Prop where
  one : OneOperation s
  ordered : Ordered s.pipeline
  cache : s.app.containers = cached initial s.held

theorem containers_onEvent {event : Event} {o : Outside}
    (hevent : a.onEvent L env event o = .ok b) : b.containers = a.containers := by
  by_cases hmode : a.modalMode = .busy
  · rw [onEvent_busy hmode hevent]
  · have hquiet {c : TuxDockApp} (hc : Quiet a c) : c.containers = a.containers :=
      congrArg Shared.containers hc.shared
    cases onEvent_cases hmode hevent with
    | quiet quiet => exact hquiet quiet
    | refresh c quiet ended eq =>
      rw [eq, ← hquiet quiet]
    | operation c title message thread quiet fresh eq =>
      rw [eq, ← hquiet quiet]
      rfl

theorem containers_run (initial : List ContainerInfo) (p : Posted)
    {held : Option (Stamp Producer (ListResult ContainerInfo))}
    (h : a.containers = cached initial held) :
    (p.post.run a).containers = cached initial (keep p held) := by
  obtain ⟨post, time⟩ := p
  have happly (fetched : Fetched) (images : ListResult ImageInfo) (silent : Bool)
      (producer : Producer) :
      (a.applyRefreshResults fetched.result images silent).containers =
        cached initial (if fetched.result.ok then
          some ⟨producer, fetched.time, time, fetched.result⟩ else held) := by
    rw [applyRefreshResults_containers]
    split_ifs
    · rfl
    · exact h
  cases post with
  | poll fetched images => exact happly fetched images true .poller
  | refresh fetched images => exact happly fetched images false .refresh
  | stopped success message fetched images => exact happly fetched images true .stop
  | complete message onComplete =>
    cases onComplete with
    | none => exact h
    | some onComplete =>
      cases onComplete
      exact h

theorem cache_advance {initial : List ContainerInfo} {label : Label}
    (h : s.app.containers = cached initial s.held) (hu : advance L env s label = some t) :
    t.app.containers = cached initial t.held := by
  cases advance_cases hu with
  | event event o a handled => exact (containers_onEvent handled).trans h
  | halt event o halt handled ends => exact h
  | deliver p queue next => exact containers_run initial p h
  | wake | act | fetchContainers | fetchImages | post =>
    have hworks := works_of_advance hu nofun nofun
    rw [hworks.containers, hworks.held]
    exact h

theorem CacheInv.step {initial : List ContainerInfo} {label : Label} (h : CacheInv initial s)
    (hstep : App.step L env s label = some t) : CacheInv initial t := by
  refine ⟨h.one.step hstep, h.ordered.step (pipeline_step h.one hstep), ?_⟩
  obtain ⟨-, u, hu, rfl⟩ := advance_of_step hstep
  have hcache := cache_advance h.cache hu
  exact hcache

theorem CacheInv.boot (historyFile : Option Bytes) (containers : ListResult ContainerInfo)
    (images : ListResult ImageInfo) :
    CacheInv (boot historyFile containers images).app.containers
      (boot historyFile containers images) where
  one := .boot historyFile containers images
  ordered := by
    have hflying : (App.boot historyFile containers images).app.flying = fun _ => none := by
      funext p
      cases p <;> rfl
    rw [System.pipeline, hflying]
    exact .start 0
  cache := rfl

/-- Every container that is cached or on its way to the cache satisfies `Q`. -/
structure CacheHolds (Q : ContainerInfo → Prop) (initial : List ContainerInfo) (s : System) :
    Prop where
  cache : CacheInv initial s
  carries : Carries (fun result : ListResult ContainerInfo => ∀ c ∈ result.items, Q c) s.pipeline
  initial : ∀ c ∈ initial, Q c

section Containers

variable {Q : ContainerInfo → Prop} {initial : List ContainerInfo} {label : Label}

theorem CacheHolds.containers (h : CacheHolds Q initial s) : ∀ c ∈ s.app.containers, Q c := by
  rw [h.cache.cache, cached]
  cases hheld : s.held with
  | none => exact h.initial
  | some stamp =>
    exact h.carries.stamps stamp (List.mem_append_left _ (by simp [System.pipeline, hheld]))

theorem CacheHolds.step (h : CacheHolds Q initial s)
    (hlabel : ∀ w result, label = .fetchContainers w result → ∀ c ∈ result.items, Q c)
    (hstep : App.step L env s label = some t) : CacheHolds Q initial t := by
  refine ⟨h.cache.step hstep, h.carries.step ?_ (pipeline_step h.cache.one hstep), h.initial⟩
  intro p result hfetch
  obtain ⟨w, rfl⟩ := label_of_observe_fetch hfetch
  exact hlabel w result rfl

theorem CacheHolds.boot (historyFile : Option Bytes) {containers : ListResult ContainerInfo}
    (images : ListResult ImageInfo) (h : ∀ c ∈ containers.items, Q c) :
    CacheHolds Q (boot historyFile containers images).app.containers
      (boot historyFile containers images) := by
  refine ⟨.boot historyFile containers images, ⟨?_, ?_⟩, ?_⟩
  · intro x hx
    cases hx
  · intro p fetched value hp
    cases p <;> cases hp
  · intro c hc
    simp only [App.boot] at hc
    split_ifs at hc
    · exact h c hc
    · cases hc

/-- **What holds of every container that is fetched holds of the cached ones.** -/
theorem CacheHolds.exec {labels : List Label} (h : CacheHolds Q initial s)
    (hlabels : ∀ w result, Label.fetchContainers w result ∈ labels → ∀ c ∈ result.items, Q c)
    (hs : exec (App.step L env) s labels = some t) : CacheHolds Q initial t := by
  refine exec_invariant (I := CacheHolds Q initial) (fun _ _ _ h hlabel => h.step hlabel) h ?_ hs
  refine stepsMeet_of_forall ?_
  rintro label hlabel w result rfl
  exact hlabels w result hlabel

end Containers

/-- **What replaces the cached list.**  In every state that the system reaches from its start, by
any order of events, fetches, posts and deliveries: the cache holds the list delivered last that
was fetched without an error; and a step that replaces it by a list fetched earlier delivers a
list of another producer, which posted it only after the held list, fetched later, was posted. -/
theorem overtaken_of_earlier (L : Json.Library) (env : Env) (historyFile : Option Bytes)
    (containers : ListResult ContainerInfo) (images : ListResult ImageInfo) (labels : List Label)
    (s : System) (hrun : exec (step L env) (boot historyFile containers images) labels = some s) :
    s.app.containers = cached (boot historyFile containers images).app.containers s.held ∧
      ∀ label t held new, step L env s label = some t → s.held = some held →
        t.held = some new → new.fetched < held.fetched →
        new.producer ≠ held.producer ∧ held.fetched < held.posted ∧ held.posted < new.posted := by
  have hinv : CacheInv (boot historyFile containers images).app.containers s :=
    exec_invariant' (I := CacheInv _) (fun _ _ _ => CacheInv.step) (.boot _ _ _) hrun
  refine ⟨hinv.cache, ?_⟩
  intro label t held new hstep hheld hnew hearlier
  exact hinv.ordered.overtaken_step (pipeline_step hinv.one hstep) hheld hnew hearlier

/-! ### A stop that is overwritten -/

/-- One running container. -/
def oneContainer : System := boot none ⟨[sample "a" "first"], []⟩ ⟨[], []⟩

/-- The poller fetches the running container and is slow with the images; the user stops the
container, and the stop is done and shown before the poller posts. -/
def slowPoller : List Label :=
  [.wake, .fetchContainers .poller ⟨[sample "a" "first"], []⟩,
    .event .other { still with index := 6 }, .event .ret still, .event .ret still,
    .event .ret still, .act 0 ⟨true, [], lit "Stopped."⟩,
    .fetchContainers (.action 0) ⟨[{ sample "a" "first" with running := false }], []⟩,
    .fetchImages (.action 0) ⟨[], []⟩, .post (.action 0), .deliver,
    .fetchImages .poller ⟨[], []⟩, .post .poller]

/-- After this run the cache holds the list of the stop, and that of the poller, fetched before it,
is next: the poller has been overtaken. -/
theorem overtaken_slowPoller :
    ∃ s, exec (step layoutLibrary goodEnv) oneContainer slowPoller = some s ∧
      ∀ label t held new, step layoutLibrary goodEnv s label = some t → s.held = some held →
        t.held = some new → new.fetched < held.fetched →
        new.producer ≠ held.producer ∧ held.fetched < held.posted ∧ held.posted < new.posted := by
  have hsome : (exec (step layoutLibrary goodEnv) oneContainer slowPoller).isSome := by
    decide +kernel
  obtain ⟨s, hs⟩ := Option.isSome_iff_exists.1 hsome
  exact ⟨s, hs, (overtaken_of_earlier layoutLibrary goodEnv none _ _ slowPoller s hs).2⟩

/-- The list that the poller fetched before the stop replaces the one fetched after it. -/
theorem stop_overwritten :
    ¬ ∀ (labels : List Label) (s : System),
      exec (step layoutLibrary goodEnv) oneContainer labels = some s →
      ∀ label t held new, step layoutLibrary goodEnv s label = some t → s.held = some held →
        t.held = some new → held.fetched ≤ new.fetched := by
  intro h
  have hheld : (exec (step layoutLibrary goodEnv) oneContainer slowPoller).bind System.held =
      some ⟨.stop, 7, 9, ⟨[{ sample "a" "first" with running := false }], []⟩⟩ := by
    decide +kernel
  have hnew : ((exec (step layoutLibrary goodEnv) oneContainer slowPoller).bind fun s =>
      step layoutLibrary goodEnv s .deliver).bind System.held =
      some ⟨.poller, 1, 12, ⟨[sample "a" "first"], []⟩⟩ := by
    decide +kernel
  obtain ⟨s, hs, hheld⟩ := Option.bind_eq_some_iff.1 hheld
  rw [hs, Option.bind_some] at hnew
  obtain ⟨t, ht, hnew⟩ := Option.bind_eq_some_iff.1 hnew
  exact absurd (h slowPoller s hs .deliver t _ _ ht hheld hnew) (by decide)

end App

end TuxDock
