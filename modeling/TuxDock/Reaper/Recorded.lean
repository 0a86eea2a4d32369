import TuxDock.Lib.Transition
import TuxDock.Reaper.Supervisor

/-!
# The exit of the main child is recorded

Two loops reap children: `sigchld_handler` records the main child, `drain_zombies` discards every
status.  A run keeps the record as long as the main child is left to the first, and the first is
not misled by a later process that has the same pid.

* `RecordInv` : what every step that keeps to this preserves;
* `recorded_iff` : **a run has the record in every state exactly when its steps keep to it**;
* `main_child_lost` : a run in which the main child exits after `sigsuspend` has returned for
  another signal.  `drain_zombies` reaps it, and the loop waits for an exit that has happened.
-/

namespace TuxDock

namespace Reaper

open Transition

/-- Once the main child has been reaped, its exit and its wait status are recorded. -/
def Recorded (s : State) : Prop :=
  ∀ status, s.mainReaped = some status → s.childExited = true ∧ s.mainStatus = status

/-- The loop waits in `sigsuspend` for the exit of a main child that has been reaped. -/
def Stuck (s : State) : Prop :=
  s.pc = .sigsuspend ∧ s.handlers = [] ∧ s.childExited = false ∧ s.mainReaped.isSome

theorem Recorded.not_stuck {s : State} (h : Recorded s) : ¬ Stuck s := by
  rintro ⟨-, -, hexited, hreaped⟩
  obtain ⟨status, hstatus⟩ := Option.isSome_iff_exists.1 hreaped
  rw [(h status hstatus).1] at hexited
  cases hexited

/-- The next child with this pid to be reaped is `c`, outside the `SIGCHLD` handler. -/
def Discards (s : State) (pid : ℕ) : Prop :=
  s.pc ≠ .sigsuspend ∧ ∃ c ∈ s.children, c.pid = pid ∧ c.main = true

/-- The child is not the main child but has its pid, and another status than the one recorded. -/
def Overwrites (s : State) (pid : ℕ) : Prop :=
  s.pc = .sigsuspend ∧ (pid : ℤ) = s.mainChild ∧
    ∃ c ∈ s.children, c.pid = pid ∧ c.main = false ∧ c.status ≠ some s.mainStatus

/-- `drain_zombies` does not reap the main child, and `sigchld_handler` does not take another
process for it. -/
def KeepsRecord (s : State) : Label → Prop
  | .wait pid => ¬ Discards s pid ∧ ¬ Overwrites s pid
  | _ => True

/-! ### The children -/

/-- Where the main child is. -/
structure ChildInv (s : State) : Prop where
  pids : (s.children.map Child.pid).Nodup
  main : ∀ c ∈ s.children, c.main = true → (c.pid : ℤ) = s.mainChild ∧ s.mainReaped = none
  unreaped : s.mainReaped = none → s.childExited = false ∧ ∃ c ∈ s.children, c.main = true

namespace ChildInv

variable {s s' : State}

theorem congr (hi : ChildInv s) (children : s'.children = s.children)
    (mainChild : s'.mainChild = s.mainChild) (childExited : s'.childExited = s.childExited)
    (mainReaped : s'.mainReaped = s.mainReaped) : ChildInv s' where
  pids := children ▸ hi.pids
  main := by rw [children, mainChild, mainReaped]; exact hi.main
  unreaped := by rw [children, childExited, mainReaped]; exact hi.unreaped

theorem supervise {pid : ℤ} (hpid : 0 < pid) : ChildInv (supervise pid) where
  pids := by simp [Reaper.supervise, hpid]
  main := by simp [Reaper.supervise, hpid, hpid.le]
  unreaped := by simp [Reaper.supervise, hpid]

theorem eq_of_pid (hi : ChildInv s) {c d : Child} (hc : c ∈ s.children) (hd : d ∈ s.children)
    (h : c.pid = d.pid) : c = d :=
  List.inj_on_of_nodup_map hi.pids hc hd h

theorem exited (hi : ChildInv s) (pid status : ℕ) : ChildInv (s.exited pid status) := by
  set f : Child → Child := fun c => if c.pid = pid then { c with status := some status } else c
    with hf
  have hpid (c : Child) : (f c).pid = c.pid := by rw [hf]; dsimp only; split_ifs <;> rfl
  have hmain (c : Child) : (f c).main = c.main := by rw [hf]; dsimp only; split_ifs <;> rfl
  constructor
  · show ((s.children.map f).map Child.pid).Nodup
    rw [List.map_map, show Child.pid ∘ f = Child.pid from funext hpid]
    exact hi.pids
  · intro c hc hcm
    obtain ⟨d, hd, rfl⟩ := List.mem_map.1 hc
    rw [show (if d.pid = pid then { d with status := some status } else d) = f d from rfl] at hcm ⊢
    rw [hmain] at hcm
    rw [hpid]
    exact hi.main d hd hcm
  · intro hnone
    obtain ⟨hexited, c, hc, hcm⟩ := hi.unreaped hnone
    exact ⟨hexited, f c, List.mem_map_of_mem hc, (hmain c).trans hcm⟩

theorem adopted (hi : ChildInv s) {pid : ℕ} (free : ∀ c ∈ s.children, c.pid ≠ pid) :
    ChildInv (s.adopted pid) := by
  constructor
  · show ((s.children ++ [(⟨pid, false, none⟩ : Child)]).map Child.pid).Nodup
    rw [List.map_append, List.map_singleton, List.nodup_append]
    refine ⟨hi.pids, by simp, ?_⟩
    intro p hp q hq
    obtain ⟨c, hc, rfl⟩ := List.mem_map.1 hp
    obtain rfl := List.mem_singleton.1 hq
    exact free c hc
  · intro c hc hcm
    rcases List.mem_append.1 hc with hc | hc
    · exact hi.main c hc hcm
    · obtain rfl := List.mem_singleton.1 hc
      cases hcm
  · intro hnone
    obtain ⟨hexited, c, hc, hcm⟩ := hi.unreaped hnone
    exact ⟨hexited, c, List.mem_append_left _ hc, hcm⟩

/-- While the main child has not been reaped, no other process has its pid. -/
theorem isSome_of_reused (hi : ChildInv s) {c : Child} (hc : c ∈ s.children)
    (hmain : c.main = false) (hpid : (c.pid : ℤ) = s.mainChild) : s.mainReaped.isSome := by
  rw [Option.isSome_iff_ne_none]
  intro hnone
  obtain ⟨-, d, hd, hdm⟩ := hi.unreaped hnone
  have hpids : c.pid = d.pid := by exact_mod_cast hpid.trans (hi.main d hd hdm).1.symm
  rw [hi.eq_of_pid hc hd hpids, hdm] at hmain
  cases hmain

/-- No other child has the pid of one that is reaped. -/
theorem reaped (hi : ChildInv s) {c : Child} (hc : c ∈ s.children) (status : ℕ) :
    ChildInv (s.reaped c status) := by
  refine ⟨hi.pids.sublist (List.filter_sublist.map _), ?_, ?_⟩
  · intro d hd hdm
    obtain ⟨hd, hne⟩ := List.mem_filter.1 hd
    obtain ⟨hpid, hnone⟩ := hi.main d hd hdm
    have hcm : c.main = false := by
      -- the main child is the one that stays
      by_contra hcm
      rw [Bool.not_eq_false] at hcm
      have hpids : d.pid = c.pid := by exact_mod_cast hpid.trans (hi.main c hc hcm).1.symm
      exact absurd hpids (by simpa using hne)
    exact ⟨hpid, by simpa [State.reaped, hcm] using hnone⟩
  · intro hnone
    cases hcm : c.main with
    | true => simp [State.reaped, hcm] at hnone
    | false =>
      obtain ⟨hexited, d, hd, hdm⟩ := hi.unreaped (by simpa [State.reaped, hcm] using hnone)
      refine ⟨hexited, d, List.mem_filter.2 ⟨hd, ?_⟩, hdm⟩
      rw [decide_eq_true_eq]
      intro hpid
      rw [hi.eq_of_pid hd hc hpid, hcm] at hdm
      cases hdm

/-- `sigchld_handler` looks at a child that has been reaped. -/
theorem recorded (hi : ChildInv s) {pid : ℕ} (status : ℕ)
    (hreaped : (pid : ℤ) = s.mainChild → s.mainReaped.isSome) :
    ChildInv (s.recorded pid status) := by
  rw [State.recorded]
  split_ifs with hpid
  · refine ⟨hi.pids, hi.main, ?_⟩
    intro hnone
    have hnone' : s.mainReaped = none := hnone
    simpa [hnone'] using hreaped hpid
  · exact hi

/-- **Every step preserves the invariant.** -/
theorem step {impl : Impl} {l : Label} (hi : ChildInv s) (h : Reaper.step impl s l = some s') :
    ChildInv s' := by
  cases step_cases h with
  | exit c hc alive status => exact hi.exited c.pid status
  | adopt pid pos free => exact hi.adopted free
  | record c status hc zombie pc top =>
    refine (hi.reaped hc status).recorded status fun hpid => ?_
    cases hmain : c.main with
    | true => simp [State.reaped, hmain]
    | false => simpa [State.reaped, hmain] using hi.isSome_of_reused hc hmain hpid
  | discard c status hc zombie d pc => exact hi.reaped hc status
  | _ => exact hi.congr rfl rfl rfl rfl

end ChildInv

/-! ### The invariant -/

/-- Where the main child is, and what is recorded of it. -/
structure RecordInv (s : State) : Prop where
  pids : (s.children.map Child.pid).Nodup
  main : ∀ c ∈ s.children, c.main = true → (c.pid : ℤ) = s.mainChild ∧ s.mainReaped = none
  unreaped : s.mainReaped = none → s.childExited = false ∧ ∃ c ∈ s.children, c.main = true
  recorded : Recorded s

namespace RecordInv

variable {s s' : State}

theorem child (hi : RecordInv s) : ChildInv s := ⟨hi.pids, hi.main, hi.unreaped⟩

theorem of_child (hi : ChildInv s) (hrec : Recorded s) : RecordInv s :=
  ⟨hi.pids, hi.main, hi.unreaped, hrec⟩

/-- The `SIGCHLD` handler reaps a child that does not overwrite the record. -/
theorem record (hi : RecordInv s) {c : Child} {status : ℕ} (hc : c ∈ s.children)
    (zombie : c.status = some status) (pc : s.pc = .sigsuspend) (hok : ¬ Overwrites s c.pid) :
    Recorded ((s.reaped c status).recorded c.pid status) := by
  cases hmain : c.main with
  | true =>
    have hpid : (c.pid : ℤ) = (s.reaped c status).mainChild := (hi.main c hc hmain).1
    intro st hst
    rw [State.recorded, if_pos hpid] at hst ⊢
    have hst' : some status = some st := by simpa [State.reaped, hmain] using hst
    exact ⟨rfl, Option.some.inj hst'⟩
  | false =>
    by_cases hpid : (c.pid : ℤ) = s.mainChild
    · -- only the status that is recorded already does not overwrite it
      have hsame : status = s.mainStatus := by
        by_contra hne
        refine hok ⟨pc, hpid, c, hc, rfl, hmain, ?_⟩
        rw [zombie]
        exact fun h => hne (Option.some.inj h)
      have hpid' : (c.pid : ℤ) = (s.reaped c status).mainChild := hpid
      intro st hst
      rw [State.recorded, if_pos hpid'] at hst ⊢
      have hst' : s.mainReaped = some st := by simpa [State.reaped, hmain] using hst
      exact ⟨rfl, hsame.trans (hi.recorded st hst').2⟩
    · have hpid' : (c.pid : ℤ) ≠ (s.reaped c status).mainChild := hpid
      intro st hst
      rw [State.recorded, if_neg hpid'] at hst ⊢
      exact hi.recorded st (by simpa [State.reaped, hmain] using hst)

/-- **A step that keeps the record preserves the invariant.** -/
theorem step {impl : Impl} {l : Label} (hi : RecordInv s) (hok : KeepsRecord s l)
    (h : Reaper.step impl s l = some s') : RecordInv s' := by
  refine of_child (hi.child.step h) ?_
  cases step_cases h with
  | record c status hc zombie pc top => exact hi.record hc zombie pc hok.2
  | discard c status hc zombie d pc =>
    have hmain : c.main = false :=
      Bool.eq_false_iff.2 fun hmain => hok.1 ⟨by rw [pc]; exact Pc.noConfusion, c, hc, rfl, hmain⟩
    intro st hst
    exact hi.recorded st (by simpa [State.reaped, hmain] using hst)
  | _ => exact hi.recorded

/-- **A step that does not keep the record loses it.** -/
theorem keepsRecord_of_recorded {impl : Impl} {l : Label} (hi : RecordInv s)
    (h : Reaper.step impl s l = some s') (hrec : Recorded s') : KeepsRecord s l := by
  cases step_cases h with
  | record c status hc zombie pc top =>
    refine ⟨fun hd => hd.1 pc, ?_⟩
    -- the status of the other process would be in the place of the one recorded
    rintro ⟨-, hpid, d, hd, hdpid, hmain, hstatus⟩
    obtain rfl := hi.child.eq_of_pid hd hc hdpid
    obtain ⟨st, hst⟩ := Option.isSome_iff_exists.1 (hi.child.isSome_of_reused hc hmain hpid)
    have hnew := hrec st (by simpa [State.recorded, State.reaped, hmain, hpid] using hst)
    have hold := (hi.recorded st hst).2
    have hpid' : (d.pid : ℤ) = (s.reaped d status).mainChild := hpid
    rw [State.recorded, if_pos hpid'] at hnew
    rw [zombie, hold] at hstatus
    exact hstatus (congrArg some hnew.2)
  | discard c status hc zombie d pc =>
    refine ⟨?_, ?_⟩
    · -- the main child was the one to reap, so nothing has been recorded
      rintro ⟨-, m, hm, hmpid, hmain⟩
      obtain rfl := hi.child.eq_of_pid hm hc hmpid
      have hexited := (hi.unreaped (hi.main m hm hmain).2).1
      have hnew := (hrec status (by simp [State.reaped, hmain])).1
      rw [show (s.reaped m status).childExited = s.childExited from rfl, hexited] at hnew
      cases hnew
    · intro ho
      rw [ho.1] at pc
      cases pc
  | _ => trivial

end RecordInv

/-- **The record in every run.**  After a successful `fork`, for either build and any run: the
exit and the status of the main child are recorded in every state in which it has been reaped, and
the loop is never stuck, exactly when `drain_zombies` never reaps the main child and
`sigchld_handler` never reaps a process that has its pid and another status. -/
theorem recorded_iff (impl : Impl) (argc : ℕ) (prctl fork : ℤ) (hfork : 0 < fork) (s t : State)
    (hs : boot impl argc prctl fork = .ok s) (ls : List Label)
    (ht : exec (step impl) s ls = some t) :
    Always (step impl) (fun s => Recorded s ∧ ¬ Stuck s) s ls ↔
      StepsMeet (step impl) KeepsRecord s ls := by
  have hstart : RecordInv s := by
    have hs := boot_ok hs
    subst hs
    exact .of_child (.supervise hfork) (by simp [Recorded, supervise])
  exact always_iff_stepsMeet (fun _ _ _ hi hok h => hi.step hok h)
    (fun _ hi => ⟨hi.recorded, hi.recorded.not_stuck⟩)
    (fun _ _ _ hi h hP => hi.keepsRecord_of_recorded h hP.1) hstart ht

/-! ### Two runs -/

/-- The main child exits while `sigsuspend` waits, and `sigchld_handler` reaps it. -/
def savedRun : List Label := [.run, .exit 7 256, .deliver SIGCHLD, .wait 7]

/-- `SIGTERM` ends `sigsuspend`; then the main child exits, and `drain_zombies` reaps it.  The loop
goes around twice, the second time for the `SIGCHLD` that is still pending, and waits. -/
def lostRun : List Label :=
  [.run, .arrive SIGTERM, .deliver SIGTERM, .handler, .handler, .exit 7 0, .wait 7, .noZombie, .run,
    .scan fpmView fpmView, .run, .run, .deliver SIGCHLD, .noZombie, .noZombie, .run, .run, .run]

theorem recorded_savedRun :
    Always (step .gnu) (fun s => Recorded s ∧ ¬ Stuck s) (supervise 7) savedRun := by
  have hrun : (exec (step .gnu) (supervise 7) savedRun).isSome := by decide +kernel
  refine (recorded_iff .gnu 2 0 7 (by decide) (supervise 7) _ rfl savedRun
    (Option.some_get hrun).symm).2 ?_
  refine ⟨trivial, ?_⟩
  intro s₁ h₁
  obtain rfl := Option.some.inj h₁
  refine ⟨trivial, ?_⟩
  intro s₂ h₂
  obtain rfl := Option.some.inj h₂
  refine ⟨trivial, ?_⟩
  intro s₃ h₃
  obtain rfl := Option.some.inj h₃
  -- in the handler, and the only child is the main child
  refine ⟨⟨fun h => h.1 rfl, ?_⟩, fun s₄ _ => trivial⟩
  rintro ⟨-, -, c, hc, -, hmain, -⟩
  obtain rfl := List.mem_singleton.1 hc
  cases hmain

theorem stuck_lostRun (impl : Impl) :
    ∃ t, exec (step impl) (supervise 7) lostRun = some t ∧ Stuck t ∧ ¬ Recorded t := by
  have hend : (exec (step impl) (supervise 7) lostRun).map
      (fun t => (t.pc, t.handlers, t.childExited, t.mainReaped)) =
        some (.sigsuspend, [], false, some 0) := by
    cases impl <;> decide +kernel
  obtain ⟨t, ht, hfields⟩ := Option.map_eq_some_iff.1 hend
  simp only [Prod.mk.injEq] at hfields
  obtain ⟨hpc, hhandlers, hexited, hreaped⟩ := hfields
  have hstuck : Stuck t := ⟨hpc, hhandlers, hexited, by rw [hreaped]; rfl⟩
  exact ⟨t, ht, hstuck, fun h => h.not_stuck hstuck⟩

/-- **The exit of the main child is lost**, in either build. -/
theorem main_child_lost :
    (∃ t, exec (step .gnu) (supervise 7) lostRun = some t ∧ Stuck t ∧ ¬ Recorded t) ∧
      ∃ t, exec (step .asm) (supervise 7) lostRun = some t ∧ Stuck t ∧ ¬ Recorded t :=
  ⟨stuck_lostRun .gnu, stuck_lostRun .asm⟩

end Reaper

end TuxDock
