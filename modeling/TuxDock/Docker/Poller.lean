import TuxDock.Lib.Transition

/-!
# The state poller

`DockerStatePoller`: a thread that fetches both lists every five seconds, or at once when
`trigger_now` is called.  The flags `stop_` and `immediate_` are shared under `mutex_`, and each
section that holds it is one step.  The test of `docker_`, `post_` and `callback_` behind the
section of the loop is a step of its own, which starts the fetch: between the two the flag is
cleared already and no fetch has been started.

`start` and `stop` are called by one thread, `trigger_now` by any.  A wait ends when its predicate
holds or its time is over; a wake-up without either changes nothing.

* `Polling.run` : between `start` and the next call of its thread the polling goes on, and a fetch
  that is awaited stays so;
* `Halted.run` : after `stop` nothing happens until `start` is called;
* `trigger_taken` : a state in which the flag is cleared and the fetch not started yet;
* `no_lost_trigger` : **a trigger is followed by a fetch, still pending, or taken by the loop, which
  starts a fetch next; and a stopped poller neither fetches nor posts**.
-/

namespace TuxDock

namespace Poller

open Transition

variable {C I : Type*}

/-- What the thread of the loop does next, `C` and `I` being the results of the two lists. -/
inductive Loop (C I : Type*) where
  | wait
  /-- It has left its section and tests `docker_`, `post_` and `callback_`. -/
  | test
  | getContainerList
  | getImageList (containers : C)
  | post (containers : C) (images : I)
  /-- The thread has left the loop. -/
  | ended

/-- Where the thread that calls `start` and `stop` is. -/
inductive Owner where
  | idle
  /-- In `stop`, before `join`; in the `stop` that `start` calls, with the functions given. -/
  | stopping (start : Option (Bool × Bool))
  /-- In `start`, before its section. -/
  | starting
  /-- In `start`, before the thread is created. -/
  | spawning
  deriving Repr, DecidableEq

/-- The members of the poller, the calls of its owner, and where its loop is. -/
structure State (C I : Type*) where
  /-- `docker_`, `post_` and `callback_` are set. -/
  docker_ : Bool
  post_ : Bool
  callback_ : Bool
  /-- `none` if it is not joinable. -/
  thread_ : Option (Loop C I)
  stop_ : Bool
  immediate_ : Bool
  owner : Owner
  /-- The fetches started so far, and the calls of `post_`; no variables of the program. -/
  fetches : ℕ
  posts : List (C × I)

/-- A poller that has been constructed. -/
def init : State C I where
  docker_ := false
  post_ := false
  callback_ := false
  thread_ := none
  stop_ := false
  immediate_ := false
  owner := .idle
  fetches := 0
  posts := []

/-- What happens next. -/
inductive Label (C I : Type*) where
  /-- `start` is called, with functions that are set or not. -/
  | start (post callback : Bool)
  | stop
  /-- The `join` of `stop` returns. -/
  | joined
  /-- The section of `start`. -/
  | reset
  /-- `start` creates the thread and returns. -/
  | spawn
  /-- `trigger_now` is called, by any thread. -/
  | trigger
  /-- `wait_for` returns, because of its predicate or of the time, and the section ends. -/
  | wake (timeout : Bool)
  /-- The test behind the section. -/
  | tested
  /-- A wake-up after which `wait_for` waits on. -/
  | spurious
  | listed (containers : C)
  | imagesListed (images : I)
  | posted

/-- A call of the owner. -/
def Label.isCall : Label C I → Bool
  | start _ _ | stop => true
  | _ => false

/-- It is a call of `start`. -/
def Label.isStart : Label C I → Bool
  | start _ _ => true
  | _ => false

/-- The rest of the section of the loop once `wait_for` has returned. -/
def State.leave (s : State C I) : State C I :=
  if s.stop_ then { s with thread_ := some .ended }
  else { s with immediate_ := false, thread_ := some .test }

/-- The loop goes on from its test: to the fetch, or to the next turn. -/
def State.turn (s : State C I) : State C I :=
  if s.docker_ && s.post_ && s.callback_ then
    { s with thread_ := some .getContainerList, fetches := s.fetches + 1 }
  else { s with thread_ := some .wait }

/-- A step of the poller, of its owner or of the engine. -/
def step (s : State C I) : Label C I → Option (State C I)
  | .start post callback =>
    if s.owner = .idle then
      some { s with stop_ := true, owner := .stopping (some (post, callback)) }
    else none
  | .stop =>
    if s.owner = .idle then some { s with stop_ := true, owner := .stopping none } else none
  | .joined =>
    match s.owner, s.thread_ with
    | .stopping none, none | .stopping none, some .ended =>
      some { s with thread_ := none, owner := .idle }
    | .stopping (some (post, callback)), none | .stopping (some (post, callback)), some .ended =>
      some { s with
        thread_ := none, docker_ := true, post_ := post, callback_ := callback, owner := .starting }
    | _, _ => none
  | .reset =>
    if s.owner = .starting then
      some { s with stop_ := false, immediate_ := false, owner := .spawning }
    else none
  | .spawn =>
    if s.owner = .spawning then some { s with thread_ := some .wait, owner := .idle } else none
  | .trigger => some { s with immediate_ := true }
  | .wake timeout =>
    match s.thread_ with
    | some .wait => if s.stop_ || s.immediate_ || timeout then some s.leave else none
    | _ => none
  | .tested =>
    match s.thread_ with
    | some .test => some s.turn
    | _ => none
  | .spurious =>
    match s.thread_ with
    | some .wait => if s.stop_ || s.immediate_ then none else some s
    | _ => none
  | .listed containers =>
    match s.thread_ with
    | some .getContainerList => some { s with thread_ := some (.getImageList containers) }
    | _ => none
  | .imagesListed images =>
    match s.thread_ with
    | some (.getImageList containers) => some { s with thread_ := some (.post containers images) }
    | _ => none
  | .posted =>
    match s.thread_ with
    | some (.post containers images) =>
      some { s with thread_ := some .wait, posts := s.posts ++ [(containers, images)] }
    | _ => none

/-! ### The steps by name -/

/-- There is no thread to wait for. -/
def State.Joined (s : State C I) : Prop := s.thread_ = none ∨ s.thread_ = some .ended

/-- The steps of the poller, with what each requires and does. -/
inductive Step (s : State C I) : Label C I → State C I → Prop where
  | start (post callback : Bool) (idle : s.owner = .idle) :
    Step s (.start post callback)
      { s with stop_ := true, owner := .stopping (some (post, callback)) }
  | stop (idle : s.owner = .idle) :
    Step s .stop { s with stop_ := true, owner := .stopping none }
  | stopped (stopping : s.owner = .stopping none) (joined : s.Joined) :
    Step s .joined { s with thread_ := none, owner := .idle }
  | restart (post callback : Bool) (stopping : s.owner = .stopping (some (post, callback)))
      (joined : s.Joined) :
    Step s .joined { s with
      thread_ := none, docker_ := true, post_ := post, callback_ := callback, owner := .starting }
  | reset (starting : s.owner = .starting) :
    Step s .reset { s with stop_ := false, immediate_ := false, owner := .spawning }
  | spawn (spawning : s.owner = .spawning) :
    Step s .spawn { s with thread_ := some .wait, owner := .idle }
  | trigger : Step s .trigger { s with immediate_ := true }
  | wake (timeout : Bool) (waiting : s.thread_ = some .wait) : Step s (.wake timeout) s.leave
  | tested (testing : s.thread_ = some .test) : Step s .tested s.turn
  | spurious (waiting : s.thread_ = some .wait) : Step s .spurious s
  | listed (containers : C) (fetching : s.thread_ = some .getContainerList) :
    Step s (.listed containers) { s with thread_ := some (.getImageList containers) }
  | imagesListed (containers : C) (images : I)
      (fetching : s.thread_ = some (.getImageList containers)) :
    Step s (.imagesListed images) { s with thread_ := some (.post containers images) }
  | posted (containers : C) (images : I) (posting : s.thread_ = some (.post containers images)) :
    Step s .posted
      { s with thread_ := some .wait, posts := s.posts ++ [(containers, images)] }

theorem step_cases {s s' : State C I} {l : Label C I} (h : step s l = some s') : Step s l s' := by
  cases l with
  | start post callback =>
    obtain ⟨hidle, ⟨⟩⟩ := Option.ite_none_right_eq_some.1 h
    exact .start post callback hidle
  | stop =>
    obtain ⟨hidle, ⟨⟩⟩ := Option.ite_none_right_eq_some.1 h
    exact .stop hidle
  | joined =>
    rw [step] at h
    split at h
    · rename_i howner hthread
      cases h
      exact .stopped howner (Or.inl hthread)
    · rename_i howner hthread
      cases h
      exact .stopped howner (Or.inr hthread)
    · rename_i howner hthread
      cases h
      exact .restart _ _ howner (Or.inl hthread)
    · rename_i howner hthread
      cases h
      exact .restart _ _ howner (Or.inr hthread)
    · cases h
  | reset =>
    obtain ⟨hstarting, ⟨⟩⟩ := Option.ite_none_right_eq_some.1 h
    exact .reset hstarting
  | spawn =>
    obtain ⟨hspawning, ⟨⟩⟩ := Option.ite_none_right_eq_some.1 h
    exact .spawn hspawning
  | trigger =>
    cases h
    exact .trigger
  | wake timeout =>
    rw [step] at h
    split at h
    · rename_i hwait
      obtain ⟨-, ⟨⟩⟩ := Option.ite_none_right_eq_some.1 h
      exact .wake timeout hwait
    · cases h
  | tested =>
    rw [step] at h
    split at h
    · rename_i htest
      cases h
      exact .tested htest
    · cases h
  | spurious =>
    rw [step] at h
    split at h
    · rename_i hwait
      obtain ⟨-, ⟨⟩⟩ := Option.ite_none_left_eq_some.1 h
      exact .spurious hwait
    · cases h
  | listed containers =>
    rw [step] at h
    split at h
    · rename_i hfetch
      cases h
      exact .listed containers hfetch
    · cases h
  | imagesListed images =>
    rw [step] at h
    split at h
    · rename_i containers hfetch
      cases h
      exact .imagesListed containers images hfetch
    · cases h
  | posted =>
    rw [step] at h
    split at h
    · rename_i containers images hpost
      cases h
      exact .posted containers images hpost
    · cases h

/-! ### Between `start` and the next call -/

/-- What the owner has written while it is in `start`. -/
structure OwnerInv (s : State C I) : Prop where
  docker : s.owner = .starting ∨ s.owner = .spawning → s.docker_ = true
  running : s.owner = .spawning → s.stop_ = false

namespace OwnerInv

variable {s s' : State C I} {l : Label C I}

theorem init : OwnerInv (init : State C I) :=
  ⟨fun h => h.elim (by rintro ⟨⟩) (by rintro ⟨⟩), by rintro ⟨⟩⟩

theorem congr (hi : OwnerInv s) (owner : s'.owner = s.owner) (docker : s'.docker_ = s.docker_)
    (stop : s'.stop_ = s.stop_) : OwnerInv s' where
  docker := by rw [owner, docker]; exact hi.docker
  running := by rw [owner, stop]; exact hi.running

theorem leave (hi : OwnerInv s) : OwnerInv s.leave := by
  rw [State.leave]
  split_ifs <;> exact hi.congr rfl rfl rfl

theorem turn (hi : OwnerInv s) : OwnerInv s.turn := by
  rw [State.turn]
  split_ifs <;> exact hi.congr rfl rfl rfl

theorem step (hi : OwnerInv s) (h : Poller.step s l = some s') : OwnerInv s' := by
  cases step_cases h with
  | start post callback idle => exact ⟨fun h => by simp at h, by rintro ⟨⟩⟩
  | stop idle => exact ⟨fun h => by simp at h, by rintro ⟨⟩⟩
  | stopped stopping joined => exact ⟨fun h => by simp at h, by rintro ⟨⟩⟩
  | restart post callback stopping joined => exact ⟨fun _ => rfl, by rintro ⟨⟩⟩
  | reset starting => exact ⟨fun _ => hi.docker (Or.inl starting), fun _ => rfl⟩
  | spawn spawning => exact ⟨fun h => by simp at h, by rintro ⟨⟩⟩
  | wake timeout waiting => exact hi.leave
  | tested testing => exact hi.turn
  | _ => exact hi.congr rfl rfl rfl

theorem of_run {ls : List (Label C I)} (h : exec Poller.step Poller.init ls = some s) :
    OwnerInv s :=
  exec_invariant' (fun _ _ _ hi hs => hi.step hs) init h

end OwnerInv

/-- `start` has returned, with a manager and both functions, and `stop` has not been called. -/
structure Polling (s : State C I) : Prop where
  idle : s.owner = .idle
  running : s.stop_ = false
  docker : s.docker_ = true
  post : s.post_ = true
  callback : s.callback_ = true

/-- More than `n` fetches have been started, or the loop is to start one. -/
def Awaited (n : ℕ) (s : State C I) : Prop :=
  n ≤ s.fetches ∧ (n < s.fetches ∨ s.immediate_ = true ∨ s.thread_ = some .test)

/-- The loop has left its section, and its next step starts a fetch. -/
def State.FetchesNext (s : State C I) : Prop :=
  s.thread_ = some .test ∧
    step s .tested = some { s with thread_ := some .getContainerList, fetches := s.fetches + 1 }

namespace Polling

variable {s s' : State C I} {l : Label C I} {n : ℕ}

theorem spawn (hi : OwnerInv s) (h : Poller.step s .spawn = some s') (hpost : s'.post_ = true)
    (hcallback : s'.callback_ = true) : Polling s' := by
  cases step_cases h with
  | spawn spawning =>
    exact ⟨rfl, hi.running spawning, hi.docker (Or.inr spawning), hpost, hcallback⟩

theorem congr (hp : Polling s) (owner : s'.owner = s.owner) (stop : s'.stop_ = s.stop_)
    (docker : s'.docker_ = s.docker_) (post : s'.post_ = s.post_)
    (callback : s'.callback_ = s.callback_) : Polling s' :=
  ⟨owner.trans hp.idle, stop.trans hp.running, docker.trans hp.docker, post.trans hp.post,
    callback.trans hp.callback⟩

theorem leave_eq (hp : Polling s) :
    s.leave = { s with immediate_ := false, thread_ := some .test } := by
  simp only [State.leave, hp.running, Bool.false_eq_true, ↓reduceIte]

theorem turn_eq (hp : Polling s) :
    s.turn = { s with thread_ := some .getContainerList, fetches := s.fetches + 1 } := by
  simp only [State.turn, hp.docker, hp.post, hp.callback, Bool.and_self, ↓reduceIte]

theorem fetchesNext (hp : Polling s) (testing : s.thread_ = some .test) : s.FetchesNext :=
  ⟨testing, by simp only [Poller.step, testing, hp.turn_eq]⟩

/-- **A step of the loop or a trigger**: the polling goes on, and what is awaited stays so. -/
theorem step (hp : Polling s) (hl : l.isCall = false) (h : Poller.step s l = some s') :
    Polling s' ∧ (Awaited n s → Awaited n s') := by
  have hidle := hp.idle
  cases step_cases h with
  | start post callback idle => cases hl
  | stop idle => cases hl
  | stopped stopping joined => rw [hidle] at stopping; cases stopping
  | restart post callback stopping joined => rw [hidle] at stopping; cases stopping
  | reset starting => rw [hidle] at starting; cases starting
  | spawn spawning => rw [hidle] at spawning; cases spawning
  | trigger => exact ⟨hp.congr rfl rfl rfl rfl rfl, fun ha => ⟨ha.1, Or.inr (Or.inl rfl)⟩⟩
  | wake timeout waiting =>
    rw [hp.leave_eq]
    -- the flag is cleared, and the loop is at its test
    exact ⟨hp.congr rfl rfl rfl rfl rfl, fun ha => ⟨ha.1, Or.inr (Or.inr rfl)⟩⟩
  | tested testing =>
    rw [hp.turn_eq]
    refine ⟨hp.congr rfl rfl rfl rfl rfl, ?_⟩
    intro ha
    have hlt : n < s.fetches + 1 := Nat.lt_succ_of_le ha.1
    exact ⟨hlt.le, Or.inl hlt⟩
  | spurious waiting => exact ⟨hp, id⟩
  | listed containers fetching =>
    refine ⟨hp.congr rfl rfl rfl rfl rfl, fun ha => ⟨ha.1, ?_⟩⟩
    exact ha.2.imp_right (Or.imp_right fun htest => by rw [fetching] at htest; cases htest)
  | imagesListed containers images fetching =>
    refine ⟨hp.congr rfl rfl rfl rfl rfl, fun ha => ⟨ha.1, ?_⟩⟩
    exact ha.2.imp_right (Or.imp_right fun htest => by rw [fetching] at htest; cases htest)
  | posted containers images posting =>
    refine ⟨hp.congr rfl rfl rfl rfl rfl, fun ha => ⟨ha.1, ?_⟩⟩
    exact ha.2.imp_right (Or.imp_right fun htest => by rw [posting] at htest; cases htest)

theorem run {ls : List (Label C I)} (hp : Polling s) (hls : ∀ l ∈ ls, l.isCall = false)
    (h : exec Poller.step s ls = some s') : Polling s' ∧ (Awaited n s → Awaited n s') := by
  refine exec_invariant (I := fun t => Polling t ∧ (Awaited n s → Awaited n t)) ?_ ⟨hp, id⟩
    (stepsMeet_of_forall hls) h
  intro t l t' ht hl hs
  obtain ⟨hp', hstep⟩ := ht.1.step hl hs
  exact ⟨hp', fun ha => hstep (ht.2 ha)⟩

end Polling

/-! ### After `stop` -/

/-- There is no thread, and no call of `start` that would make one. -/
structure Halted (s : State C I) : Prop where
  thread : s.thread_ = none
  owner : s.owner = .idle ∨ s.owner = .stopping none

namespace Halted

variable {s s' : State C I} {l : Label C I}

/-- **Nothing but `start` changes this**, and without a thread nothing is fetched or posted. -/
theorem step (hh : Halted s) (hl : l.isStart = false) (h : Poller.step s l = some s') :
    Halted s' ∧ s'.fetches = s.fetches ∧ s'.posts = s.posts := by
  have hnone := hh.thread
  cases step_cases h with
  | start post callback idle => cases hl
  | stop idle => exact ⟨⟨hnone, Or.inr rfl⟩, rfl, rfl⟩
  | stopped stopping joined => exact ⟨⟨rfl, Or.inl rfl⟩, rfl, rfl⟩
  | restart post callback stopping joined =>
    rcases hh.owner with howner | howner <;> rw [howner] at stopping <;> cases stopping
  | reset starting =>
    rcases hh.owner with howner | howner <;> rw [howner] at starting <;> cases starting
  | spawn spawning =>
    rcases hh.owner with howner | howner <;> rw [howner] at spawning <;> cases spawning
  | trigger => exact ⟨⟨hnone, hh.owner⟩, rfl, rfl⟩
  | wake timeout waiting => rw [hnone] at waiting; cases waiting
  | tested testing => rw [hnone] at testing; cases testing
  | spurious waiting => rw [hnone] at waiting; cases waiting
  | listed containers fetching => rw [hnone] at fetching; cases fetching
  | imagesListed containers images fetching => rw [hnone] at fetching; cases fetching
  | posted containers images posting => rw [hnone] at posting; cases posting

theorem run {ls : List (Label C I)} (hh : Halted s) (hls : ∀ l ∈ ls, l.isStart = false)
    (h : exec Poller.step s ls = some s') : s'.fetches = s.fetches ∧ s'.posts = s.posts := by
  have hrun : Halted s' ∧ s'.fetches = s.fetches ∧ s'.posts = s.posts := by
    refine exec_invariant (I := fun t => Halted t ∧ t.fetches = s.fetches ∧ t.posts = s.posts) ?_
      ⟨hh, rfl, rfl⟩ (stepsMeet_of_forall hls) h
    intro t l t' ht hl hs
    obtain ⟨hh', hfetches, hposts⟩ := ht.1.step hl hs
    exact ⟨hh', hfetches.trans ht.2.1, hposts.trans ht.2.2⟩
  exact hrun.2

end Halted

/-! ### No trigger is lost -/

/-- Each trigger on the way from `s` to `t` has been followed by the start of a fetch, or `t` is a
state in which one is `pending`. -/
def EachTrigger (pending : State C I → Prop) (s : State C I) (ls : List (Label C I))
    (t : State C I) : Prop :=
  ∀ before after u, ls = before ++ .trigger :: after → exec step s before = some u →
    u.fetches < t.fetches ∨ pending t

/-- Since `start` returned in `s`, each trigger has been followed by the start of a fetch, or the
flag is still set. -/
def TriggersFlagged (s : State C I) (ls : List (Label C I)) (t : State C I) : Prop :=
  EachTrigger (fun t => t.immediate_ = true) s ls t

/-- Since `start` returned in `s`, each trigger has been followed by the start of a fetch, or the
flag is still set, or the loop has left its section and starts a fetch next. -/
def TriggersKept (s : State C I) (ls : List (Label C I)) (t : State C I) : Prop :=
  EachTrigger (fun t => t.immediate_ = true ∨ t.FetchesNext) s ls t

/-- Since `stop` returned in `s`, no fetch has been started and nothing posted. -/
def Silent (s t : State C I) : Prop := t.fetches = s.fetches ∧ t.posts = s.posts

/-- **No lost trigger.**  In every run of the poller: after each return of `start` with functions
that are set, up to the next call of `start` or `stop`, every trigger has been followed by the start
of a fetch, or the flag is still set, or the loop has left its section and starts a fetch next;
after each return of `stop`, up to the next call of `start`, no fetch is started and `post_` is not
called. -/
theorem no_lost_trigger (ls : List (Label C I)) (t : State C I)
    (ht : exec step init ls = some t) :
    (∀ before after s s', ls = before ++ .spawn :: after → exec step init before = some s →
        step s .spawn = some s' → s'.post_ = true → s'.callback_ = true →
        (∀ l ∈ after, l.isCall = false) → TriggersKept s' after t) ∧
      ∀ before after s s', ls = before ++ .joined :: after → exec step init before = some s →
        s.owner = .stopping none → step s .joined = some s' →
        (∀ l ∈ after, l.isStart = false) → Silent s' t := by
  constructor
  · rintro before after s s' rfl hs hspawn hpost hcallback hcalls a b u rfl hu
    have hp := Polling.spawn (.of_run hs) hspawn hpost hcallback
    rw [exec_append, hs, Option.bind_some, exec_cons, hspawn, Option.bind_some, exec_append, hu,
      Option.bind_some] at ht
    rw [List.forall_mem_append, List.forall_mem_cons] at hcalls
    obtain ⟨v, hv, ht⟩ := exec_cons_eq_some.1 ht
    -- from the trigger on, more fetches than there were are awaited
    have hpu := (hp.run (n := 0) hcalls.1 hu).1
    have hpv := (hpu.step (n := u.fetches) hcalls.2.1 hv).1
    have hawaited : Awaited u.fetches v := by
      cases step_cases hv with
      | trigger => exact ⟨le_rfl, Or.inr (Or.inl rfl)⟩
    obtain ⟨hpt, hkept⟩ := hpv.run hcalls.2.2 ht
    exact (hkept hawaited).2.imp_right (Or.imp_right hpt.fetchesNext)
  · rintro before after s s' rfl hs hstopping hjoined hstarts
    rw [exec_append, hs, Option.bind_some, exec_cons, hjoined, Option.bind_some] at ht
    have hhalted : Halted s' := by
      cases step_cases hjoined with
      | stopped stopping joined => exact ⟨rfl, Or.inl rfl⟩
      | restart post callback stopping joined => rw [hstopping] at stopping; cases stopping
    exact hhalted.run hstarts ht

/-- `start` of a poller, up to the creation of its thread. -/
def startRun : List (Label Unit Unit) := [.start true true, .joined, .reset]

/-- A trigger, and the section of the loop that clears its flag. -/
def takenRun : List (Label Unit Unit) := [.trigger, .wake false]

/-- After `takenRun` the flag is not set and no fetch has been started. -/
theorem trigger_taken :
    ∃ s t, exec step init (startRun ++ [.spawn]) = some s ∧ s.post_ = true ∧ s.callback_ = true ∧
      exec step s takenRun = some t ∧ ¬ TriggersFlagged s takenRun t := by
  refine ⟨_, _, rfl, rfl, rfl, rfl, ?_⟩
  intro h
  rcases h [] [.wake false] _ rfl rfl with hlt | hflag
  · exact absurd hlt (by decide)
  · cases hflag

/-- Two triggers: one during a fetch, one during the wait after it. -/
def triggeredRun : List (Label Unit Unit) :=
  [.wake true, .tested, .trigger, .listed (), .imagesListed (), .posted, .wake false, .tested,
    .listed (), .imagesListed (), .posted, .trigger]

/-- A fetch is running when `stop` is called, and a trigger comes after it. -/
def stoppedRun : List (Label Unit Unit) :=
  [.wake true, .tested, .stop, .listed (), .imagesListed (), .posted, .wake false]

theorem no_lost_trigger_run :
    (∃ s t, exec step init (startRun ++ [.spawn]) = some s ∧ exec step s triggeredRun = some t ∧
      TriggersKept s triggeredRun t ∧ t.fetches = 2 ∧ t.immediate_ = true) ∧
      ∃ s t, exec step init (startRun ++ .spawn :: stoppedRun ++ [.joined]) = some s ∧
        exec step s [.trigger] = some t ∧ Silent s t ∧ t.fetches = 1 :=
  ⟨⟨_, _, rfl, rfl, (no_lost_trigger (startRun ++ .spawn :: triggeredRun) _ rfl).1 startRun _ _ _
      rfl rfl rfl rfl rfl (by decide), rfl, rfl⟩,
    ⟨_, _, rfl, rfl, (no_lost_trigger (startRun ++ .spawn :: stoppedRun ++ [.joined, .trigger]) _
      rfl).2 (startRun ++ .spawn :: stoppedRun) _ _ _ rfl rfl rfl rfl (by decide), rfl⟩⟩

end Poller

end TuxDock
