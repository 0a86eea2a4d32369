import TuxDock.Lib.Transition
import TuxDock.Reaper.Supervisor

/-!
# Signals during the descendant drain

After the exit of the main child the loop polls until no descendant is left, and its comment says
that `handle_pending_signals` catches any signal delivered during the sleep.  But the caught
signals are blocked except inside `sigsuspend`, which this branch does not call, so none is
delivered.

* `DrainInv` : outside `sigsuspend` no handler runs, and what the handlers left in
  `g_pending_signals` is gone after the `handle_pending_signals` of the same iteration;
* `drain_never_broadcasts` : **a signal that arrives during the drain is never broadcast**.
-/

namespace TuxDock

namespace Reaper

open Transition

/-- The places of the main program at which `g_pending_signals` may hold a signal. -/
def Pc.MayHold : Pc → Prop
  | .sigsuspend | .drainZombies .active | .handlePending .active => True
  | _ => False

/-- Handlers and their signals, by the place of the main program. -/
structure DrainInv (s : State) : Prop where
  handlers : s.pc ≠ .sigsuspend → s.handlers = []
  cleared : ¬ s.pc.MayHold → s.pendingSignals = 0
  todo : ∀ todo, s.pc = .broadcast .descendants todo → todo = []

/-- The places of the main program outside the branch for the running workload. -/
def Pc.InDrain : Pc → Prop
  | .sigsuspend | .drainZombies .active | .handlePending .active | .broadcast .active _ => False
  | _ => True

/-- The exit of the main child is recorded, and its descendants are waited for. -/
def Draining (s : State) : Prop := s.childExited = true ∧ s.pc.InDrain

@[simp] theorem pendingList_zero : pendingList 0 = [] := by decide

namespace DrainInv

variable {impl : Impl} {s s' : State} {l : Label}

theorem supervise (pid : ℤ) : DrainInv (supervise pid) where
  handlers _ := rfl
  cleared _ := rfl
  todo _ h := Pc.noConfusion h

theorem pc_of_handler (hi : DrainInv s) {f : Frame} {rest : List Frame}
    (h : s.handlers = f :: rest) : s.pc = .sigsuspend := by
  by_contra hpc
  rw [hi.handlers hpc] at h
  cases h

theorem congr (hi : DrainInv s) (pc : s'.pc = s.pc) (handlers : s'.handlers = s.handlers)
    (pendingSignals : s'.pendingSignals = s.pendingSignals) : DrainInv s' where
  handlers := by rw [pc, handlers]; exact hi.handlers
  cleared := by rw [pc, pendingSignals]; exact hi.cleared
  todo := by rw [pc]; exact hi.todo

/-- The main program moves on outside `sigsuspend`, with `g_pending_signals` as it was. -/
theorem move (hi : DrainInv s) (hpc : s.pc ≠ .sigsuspend) (handlers : s'.handlers = s.handlers)
    (cleared : ¬ s'.pc.MayHold → s'.pendingSignals = 0)
    (todo : ∀ todo, s'.pc = .broadcast .descendants todo → todo = []) : DrainInv s' :=
  ⟨fun _ => handlers.trans (hi.handlers hpc), cleared, todo⟩

/-- The same from a place at which nothing is left in `g_pending_signals`. -/
theorem advance (hi : DrainInv s) (hpc : ¬ s.pc.MayHold) (handlers : s'.handlers = s.handlers)
    (pendingSignals : s'.pendingSignals = s.pendingSignals)
    (todo : ∀ todo, s'.pc = .broadcast .descendants todo → todo = []) : DrainInv s' :=
  hi.move (fun h => hpc (by rw [h]; trivial)) handlers
    (fun _ => pendingSignals.trans (hi.cleared hpc)) todo

theorem suspended (pc : s'.pc = .sigsuspend) : DrainInv s' where
  handlers h := absurd pc h
  cleared h := absurd (by rw [pc]; trivial) h
  todo _ h := by rw [pc] at h; cases h

theorem returned (pc : s.pc = .sigsuspend) (rest : List Frame) : DrainInv (s.returned rest) := by
  by_cases h : rest = []
  · refine ⟨fun _ => h, ?_, ?_⟩
    · intro hhold
      exact absurd (by simp [State.returned, h, Pc.MayHold]) hhold
    · intro d htodo
      simp [State.returned, h] at htodo
  · exact suspended (by simp [State.returned, h, pc])

/-- **Every step preserves the invariant.** -/
theorem step (hi : DrainInv s) (h : Reaper.step impl s l = some s') : DrainInv s' := by
  cases step_cases h with
  | deliver sig pc pending unblocked => exact suspended pc
  | record c status hc zombie pc top =>
    refine suspended ?_
    unfold State.recorded
    split_ifs <;> exact pc
  | chldReturn rest pc top => exact returned pc rest
  | proxyRead sig rest top => exact suspended (hi.pc_of_handler top)
  | proxyWrite sig seen rest top =>
    have hpc := hi.pc_of_handler top
    exact returned (s := { s with pendingSignals := seen ||| 1 <<< (sig - 1) }) hpc rest
  | drained d pc =>
    refine hi.move (by rw [pc]; exact Pc.noConfusion) rfl (fun hhold => ?_) fun _ h => ?_
    · -- after the drain of the running workload the signals are still to be handled
      cases d with
      | active => exact absurd trivial hhold
      | descendants now => exact hi.cleared (by rw [pc]; exact id)
      | final => exact hi.cleared (by rw [pc]; exact id)
    · cases d <;> cases h
  | clock now pc =>
    exact hi.advance (by rw [pc]; exact id) rfl rfl fun _ h => by cases h
  | count v now pc =>
    refine hi.advance (by rw [pc]; exact id) rfl rfl ?_
    intro _ h
    simp only [afterCount] at h
    split_ifs at h
  | scan first second b sig todo pc =>
    refine hi.advance (by rw [pc]; exact id) rfl rfl ?_
    intro todo' h
    -- in the branch for descendants there is nothing to broadcast
    injection h with hb htodo
    rw [hb] at pc
    exact absurd (hi.todo _ pc) (List.cons_ne_nil _ _)
  | loop pc =>
    refine hi.advance (by rw [pc]; exact id) rfl rfl ?_
    intro _ h
    dsimp only at h
    split_ifs at h
  | slept pc =>
    exact hi.advance (by rw [pc]; exact id) rfl rfl fun _ h => by cases h
  | take b pc =>
    refine hi.move (by rw [pc]; exact Pc.noConfusion) rfl (fun _ => rfl) ?_
    intro todo h
    -- the sleep of that branch has let no handler run, so the call takes an empty set
    injection h with hb htodo
    rw [hb] at pc
    rw [hi.cleared (by rw [pc]; exact id)] at htodo
    rw [← htodo, pendingList_zero]
  | handled b pc =>
    exact hi.advance (by rw [pc]; exact id) rfl rfl fun _ h => by cases h
  | _ => exact hi.congr rfl rfl rfl

end DrainInv

/-! ### The drain -/

theorem Draining.pc_ne {s : State} (h : Draining s) : s.pc ≠ .sigsuspend := by
  rintro hpc
  have := h.2
  rw [hpc] at this
  exact this

/-- **A step of the drain**: it broadcasts nothing, delivers nothing, and the drain goes on. -/
theorem Draining.step {impl : Impl} {s s' : State} {l : Label} (hd : Draining s) (hi : DrainInv s)
    (h : Reaper.step impl s l = some s') :
    Draining s' ∧ s'.broadcasts = s.broadcasts ∧ s.pending ⊆ s'.pending := by
  have hnil := hi.handlers hd.pc_ne
  obtain ⟨hexited, hin⟩ := hd
  cases step_cases h with
  | exit c hc alive status => exact ⟨⟨hexited, hin⟩, rfl, Finset.subset_insert _ _⟩
  | adopt pid pos free => exact ⟨⟨hexited, hin⟩, rfl, Finset.Subset.refl _⟩
  | arrive sig caught => exact ⟨⟨hexited, hin⟩, rfl, Finset.subset_insert _ _⟩
  | deliver sig pc pending unblocked => rw [pc] at hin; exact hin.elim
  | record c status hc zombie pc top => rw [pc] at hin; exact hin.elim
  | discard c status hc zombie d pc => exact ⟨⟨hexited, hin⟩, rfl, Finset.Subset.refl _⟩
  | chldReturn rest pc top => rw [pc] at hin; exact hin.elim
  | drained d pc =>
    refine ⟨⟨hexited, ?_⟩, rfl, Finset.Subset.refl _⟩
    rw [pc] at hin
    cases d with
    | active => exact hin.elim
    | descendants now => trivial
    | final => trivial
  | proxyRead sig rest top => rw [hnil] at top; cases top
  | proxyWrite sig seen rest top => rw [hnil] at top; cases top
  | clock now pc => exact ⟨⟨hexited, trivial⟩, rfl, Finset.Subset.refl _⟩
  | count v now pc =>
    refine ⟨⟨hexited, ?_⟩, rfl, Finset.Subset.refl _⟩
    simp only [afterCount]
    split_ifs <;> trivial
  | scan first second b sig todo pc =>
    rw [pc] at hin
    cases b with
    | active => exact hin.elim
    | descendants => exact absurd (hi.todo _ pc) (List.cons_ne_nil _ _)
  | loop pc =>
    refine ⟨⟨hexited, ?_⟩, rfl, Finset.Subset.refl _⟩
    simp only [hexited, ↓reduceIte]
    trivial
  | slept pc => exact ⟨⟨hexited, trivial⟩, rfl, Finset.Subset.refl _⟩
  | take b pc =>
    refine ⟨⟨hexited, ?_⟩, rfl, Finset.Subset.refl _⟩
    rw [pc] at hin
    cases b with
    | active => exact hin.elim
    | descendants => trivial
  | handled b pc => exact ⟨⟨hexited, trivial⟩, rfl, Finset.Subset.refl _⟩

theorem Draining.exec {impl : Impl} {s t : State} {ls : List Label} (hd : Draining s)
    (hi : DrainInv s) (ht : exec (Reaper.step impl) s ls = some t) :
    t.broadcasts = s.broadcasts ∧ s.pending ⊆ t.pending := by
  have hinv := exec_invariant'
    (I := fun t => DrainInv t ∧ Draining t ∧ t.broadcasts = s.broadcasts ∧ s.pending ⊆ t.pending)
    (fun t l t' ⟨hi, hd, hb, hp⟩ h => by
      obtain ⟨hd', hb', hp'⟩ := hd.step hi h
      exact ⟨hi.step h, hd', hb'.trans hb, hp.trans hp'⟩)
    ⟨hi, hd, rfl, Finset.Subset.refl _⟩ ht
  exact hinv.2.2

/-- `sig` has been broadcast on the way from `s` to `t`. -/
def BroadcastSince (s t : State) (sig : ℕ) : Prop := sig ∈ t.broadcasts.drop s.broadcasts.length

/-- **A signal that arrives during the drain is never broadcast.**  For either build,
any run to a state `s` of the drain, and any run from there that begins with the arrival: however
far it goes, the signal is still pending at its end. -/
theorem drain_never_broadcasts (impl : Impl) (argc : ℕ) (prctl fork : ℤ) (s₀ s t : State)
    (hs₀ : boot impl argc prctl fork = .ok s₀) (before : List Label)
    (hs : exec (step impl) s₀ before = some s) (hd : Draining s) (sig : ℕ) (after : List Label)
    (ht : exec (step impl) s (.arrive sig :: after) = some t) :
    ¬ BroadcastSince s t sig ∧ sig ∈ t.pending := by
  have hi₀ : DrainInv s₀ := by
    rw [boot_ok hs₀]
    exact .supervise fork
  have hi : DrainInv s := exec_invariant' (fun _ _ _ hi h => hi.step h) hi₀ hs
  obtain ⟨s', hs', ht'⟩ := exec_cons_eq_some.1 ht
  have harrive : s' = s.arrived sig := by
    obtain ⟨-, h⟩ := Option.ite_none_right_eq_some.1 hs'
    exact (Option.some.inj h).symm
  have hbroadcasts := (hd.exec hi ht).1
  have hpending := ((hd.step hi hs').1.exec (hi.step hs') ht').2
  refine ⟨?_, hpending ?_⟩
  · rw [BroadcastSince, hbroadcasts, List.drop_length]
    exact List.not_mem_nil
  · rw [harrive]
    exact Finset.mem_insert_self _ _

/-! ### A drain of two iterations -/

/-- The main child exits and leaves a worker; the loop comes to the sleep of its first iteration of
the drain. -/
def toSleep : List Label :=
  [.run, .adopt 9, .exit 7 0, .deliver SIGCHLD, .wait 7, .noZombie, .noZombie, .run, .run, .run,
    .clock 1000, .noZombie, .count fpmView]

/-- The rest of that iteration, and another one. -/
def twoIterations : List Label :=
  [.run, .run, .run, .run, .clock 1050, .noZombie, .count fpmView, .run, .run, .run]

theorem exec_toSleep (impl : Impl) : ∃ s, exec (step impl) (supervise 7) toSleep = some s ∧
    s.pc = .usleep ∧ s.childExited = true := by
  have h : (exec (step impl) (supervise 7) toSleep).map (fun s => (s.pc, s.childExited)) =
      some (.usleep, true) := by
    cases impl <;> decide +kernel
  obtain ⟨s, hs, hfields⟩ := Option.map_eq_some_iff.1 h
  simp only [Prod.mk.injEq] at hfields
  exact ⟨s, hs, hfields⟩

/-- **`SIGTERM` arrives during a sleep and two iterations go by without a broadcast.** -/
theorem term_not_broadcast :
    ((exec (step .gnu) (supervise 7) (toSleep ++ .arrive SIGTERM :: twoIterations)).map
        fun t => (t.pc, t.broadcasts, decide (SIGTERM ∈ t.pending))) = some (.loop, [], true) ∧
      ((exec (step .asm) (supervise 7) (toSleep ++ .arrive SIGTERM :: twoIterations)).map
        fun t => (t.pc, t.broadcasts, decide (SIGTERM ∈ t.pending))) = some (.loop, [], true) := by
  decide +kernel

theorem drain_never_broadcasts_term :
    ∃ s t, s.pc = .usleep ∧
      exec (step .gnu) s (.arrive SIGTERM :: twoIterations) = some t ∧
      ¬ BroadcastSince s t SIGTERM ∧ SIGTERM ∈ t.pending := by
  obtain ⟨s, hs, hpc, hexited⟩ := exec_toSleep .gnu
  have hrun : (exec (step .gnu) (supervise 7)
      (toSleep ++ .arrive SIGTERM :: twoIterations)).isSome := by decide +kernel
  obtain ⟨t, ht⟩ := Option.isSome_iff_exists.1 hrun
  rw [exec_append, hs] at ht
  have hd : Draining s := ⟨hexited, by rw [hpc]; trivial⟩
  exact ⟨s, t, hpc, ht, drain_never_broadcasts .gnu 2 0 7 (supervise 7) s t rfl toSleep hs hd
    SIGTERM twoIterations ht⟩

end Reaper

end TuxDock
