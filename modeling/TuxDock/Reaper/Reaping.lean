import Mathlib.Data.Finset.Card
import Mathlib.Data.Prod.Lex
import Mathlib.Tactic.IntervalCases
import TuxDock.Lib.Fairness
import TuxDock.Reaper.Drain
import TuxDock.Reaper.Recorded

/-!
# Zombies are reaped

As PID 1 of a container the reaper has to reap every process that is left to it.  It sleeps in
`sigsuspend`, so it depends on being woken for each of them.

* `Awake` : while a zombie is left `SIGCHLD` is pending or its handler runs: **no wake-up is lost**;
* `rank_step` : as long as a zombie is left, every step of the reaper brings it nearer to it;
* `zombie_reaped` : in every run that goes on forever, in which no step of the reaper is kept
  waiting and no more signals to be forwarded arrive, **every zombie is reaped, or the reaper has
  exited.**
-/

namespace TuxDock

namespace Reaper

open Transition

/-! ### Who acts -/

/-- Who acts in the reaper: the main program, the handlers, the kernel when it delivers `SIGCHLD`,
and `waitpid` when it finds a certain child. -/
inductive Actor where
  | main
  | handler
  | kernel
  | waitpid (pid : ℕ)
  deriving Repr, DecidableEq

/-- The actor that makes the step, if it is one of the reaper. -/
def Label.actor : Label → Option Actor
  | .run | .clock _ | .count _ | .scan _ _ => some .main
  | .handler => some .handler
  | .deliver sig => if sig = SIGCHLD then some .kernel else none
  | .wait pid => some (.waitpid pid)
  | .exit _ _ | .adopt _ | .arrive _ | .noZombie => none

/-- The steps of a handler that are left. -/
def Frame.left : Frame → ℕ
  | chld => 0
  | proxy _ none => 2
  | proxy _ (some _) => 1

/-- The steps of the handlers until `sigchld_handler` runs; without it the last one is that of the
kernel. -/
def untilChld : List Frame → ℕ
  | [] => 1
  | .chld :: _ => 0
  | .proxy sig seen :: rest => (Frame.proxy sig seen).left + untilChld rest

namespace State

variable (s : State)

/-- The steps of the main program until it waits for children. -/
def untilWait : ℕ :=
  match s.pc with
  | .drainZombies _ | .exited _ => 0
  | .sigsuspend => 1
  | .monotonicMs => 2
  | .loop => 3
  | .broadcast _ todo => 4 + todo.length
  | .handlePending _ => 5 + (pendingList s.pendingSignals).length
  | .usleep => 6 + (pendingList s.pendingSignals).length
  | .countDescendants _ => 7 + (pendingList s.pendingSignals).length

/-- What is left until a zombie is waited for: the main program comes to wait, the signals to be
forwarded are delivered, and the handlers come to the one of `SIGCHLD`. -/
def rank : ℕ ×ₗ ℕ ×ₗ ℕ :=
  toLex (s.untilWait, toLex ((s.pending.erase SIGCHLD).card, untilChld s.handlers))

/-- Whose turn it is while the child `c` is a zombie. -/
def turn (c : Child) : Actor :=
  match s.pc with
  | .drainZombies _ | .exited _ => .waitpid c.pid
  | .sigsuspend =>
    match s.handlers with
    | [] => .kernel
    | .chld :: _ => .waitpid c.pid
    | .proxy _ _ :: _ => .handler
  | _ => .main

end State

/-- A zombie that is left. -/
def Zombie (s : State) (c : Child) : Prop := c ∈ s.children ∧ c.status.isSome

/-- While a zombie is left, `SIGCHLD` is pending or its handler runs. -/
def Awake (s : State) : Prop :=
  (∃ c, Zombie s c) → SIGCHLD ∈ s.pending ∨ Frame.chld ∈ s.handlers

variable {impl : Impl} {s s' : State} {l : Label} {c : Child}

/-! ### Nothing is lost -/

theorem zombie_exited {pid status : ℕ} (h : Zombie s c) (hc : c.status.isSome)
    (halive : ∀ d ∈ s.children, d.pid = pid → d.status = none) :
    Zombie (s.exited pid status) c := by
  refine ⟨?_, hc⟩
  have hne : c.pid ≠ pid := by
    intro hpid
    rw [halive c h.1 hpid] at hc
    cases hc
  refine List.mem_map.2 ⟨c, h.1, ?_⟩
  rw [if_neg hne]

theorem zombie_step (hi : ChildInv s) (h : Zombie s c) (hstep : step impl s l = some s') :
    Zombie s' c ∨ l = .wait c.pid ∧ c ∉ s'.children := by
  have hreaped (d : Child) (status : ℕ) :
      Zombie (s.reaped d status) c ∨ d.pid = c.pid ∧ c ∉ (s.reaped d status).children := by
    by_cases hpid : c.pid = d.pid
    · refine .inr ⟨hpid.symm, ?_⟩
      simp [State.reaped, hpid]
    · exact .inl ⟨List.mem_filter.2 ⟨h.1, by simpa using hpid⟩, h.2⟩
  cases step_cases hstep with
  | exit d hd alive status =>
    refine .inl (zombie_exited h h.2 fun e he hpid => ?_)
    rw [hi.eq_of_pid he hd hpid]
    exact alive
  | adopt pid pos free => exact .inl ⟨List.mem_append_left _ h.1, h.2⟩
  | record d status hd zombie pc top =>
    have hchildren : ((s.reaped d status).recorded d.pid status).children =
        (s.reaped d status).children := by
      unfold State.recorded
      split_ifs <;> rfl
    rcases hreaped d status with hstays | ⟨hpid, hgone⟩
    · exact .inl ⟨hchildren ▸ hstays.1, h.2⟩
    · exact .inr ⟨by rw [hpid], hchildren ▸ hgone⟩
  | discard d status hd zombie dr pc =>
    rcases hreaped d status with hstays | ⟨hpid, hgone⟩
    · exact .inl hstays
    · exact .inr ⟨by rw [hpid], hgone⟩
  | _ => exact .inl h

theorem no_zombie_of_step (hstep : step impl s .noZombie = some s') : ¬ ∃ c, Zombie s c := by
  obtain ⟨hnone, -⟩ := Option.ite_none_right_eq_some.1 hstep
  rintro ⟨c, hc, hstatus⟩
  rw [hnone c hc] at hstatus
  cases hstatus

theorem Awake.mono (h : Awake s) (hzombie : ∀ c, Zombie s' c → Zombie s c)
    (hpending : SIGCHLD ∈ s.pending → SIGCHLD ∈ s'.pending)
    (hhandlers : Frame.chld ∈ s.handlers → Frame.chld ∈ s'.handlers) : Awake s' := by
  rintro ⟨c, hc⟩
  exact (h ⟨c, hzombie c hc⟩).imp hpending hhandlers

/-- **No wake-up is lost**: a step preserves this. -/
theorem Awake.step (h : Awake s) (hstep : Reaper.step impl s l = some s') : Awake s' := by
  have hreaped (d : Child) (status : ℕ) (c : Child) (hc : Zombie (s.reaped d status) c) :
      Zombie s c := ⟨List.mem_of_mem_filter hc.1, hc.2⟩
  cases step_cases hstep with
  | exit d hd alive status => exact fun _ => .inl (Finset.mem_insert_self _ _)
  | adopt pid pos free =>
    refine h.mono ?_ id id
    rintro c ⟨hc, hstatus⟩
    rcases List.mem_append.1 hc with hc | hc
    · exact ⟨hc, hstatus⟩
    · obtain rfl := List.mem_singleton.1 hc
      cases hstatus
  | arrive sig caught => exact h.mono (fun _ => id) (Finset.mem_insert_of_mem ·) id
  | deliver sig pc pending unblocked =>
    by_cases hsig : sig = SIGCHLD
    · subst hsig
      exact fun _ => .inr (List.mem_cons_self ..)
    · exact h.mono (fun _ => id) (Finset.mem_erase_of_ne_of_mem (Ne.symm hsig) ·)
        (List.mem_cons_of_mem _ ·)
  | record d status hd zombie pc top =>
    unfold State.recorded
    split_ifs
    · exact h.mono (hreaped d status) id id
    · exact h.mono (hreaped d status) id id
  | discard d status hd zombie dr pc => exact h.mono (hreaped d status) id id
  | chldReturn rest pc top =>
    have hnone : ¬ ∃ c, Zombie (s.returned rest) c := no_zombie_of_step (s := s) hstep
    exact fun hc => absurd hc hnone
  | drained d pc => exact h.mono (fun _ => id) id id
  | proxyRead sig rest top =>
    refine h.mono (fun _ => id) id fun hmem => ?_
    rw [top] at hmem
    exact List.mem_cons_of_mem _ ((List.mem_cons.1 hmem).resolve_left (by simp))
  | proxyWrite sig seen rest top =>
    refine h.mono (fun _ => id) id fun hmem => ?_
    rw [top] at hmem
    exact (List.mem_cons.1 hmem).resolve_left (by simp)
  | _ => exact h.mono (fun _ => id) id id

/-! ### What is left -/

/-- No signal to be forwarded arrives. -/
def Calm (l : Label) : Prop := ∀ sig, l = .arrive sig → sig = SIGCHLD

theorem rank_lt_of_wait (h : s'.untilWait < s.untilWait) : s'.rank < s.rank :=
  Prod.Lex.toLex_lt_toLex.2 (.inl h)

theorem rank_lt_of_pending (hwait : s'.untilWait = s.untilWait)
    (h : (s'.pending.erase SIGCHLD).card < (s.pending.erase SIGCHLD).card) : s'.rank < s.rank :=
  Prod.Lex.toLex_lt_toLex.2 (.inr ⟨hwait, Prod.Lex.toLex_lt_toLex.2 (.inl h)⟩)

theorem rank_lt_of_handlers (hwait : s'.untilWait = s.untilWait)
    (hpending : s'.pending.erase SIGCHLD = s.pending.erase SIGCHLD)
    (h : untilChld s'.handlers < untilChld s.handlers) : s'.rank < s.rank := by
  refine Prod.Lex.toLex_lt_toLex.2 (.inr ⟨hwait, Prod.Lex.toLex_lt_toLex.2 (.inr ⟨?_, h⟩)⟩)
  rw [hpending]

theorem rank_congr (hpc : s'.pc = s.pc) (hsignals : s'.pendingSignals = s.pendingSignals)
    (hpending : s'.pending.erase SIGCHLD = s.pending.erase SIGCHLD)
    (hhandlers : s'.handlers = s.handlers) : s'.rank = s.rank ∧ s'.turn c = s.turn c := by
  unfold State.rank State.turn State.untilWait
  rw [hpc, hsignals, hpending, hhandlers]
  exact ⟨rfl, rfl⟩

theorem untilChld_pos {frames : List Frame} (h : Frame.chld ∉ frames) : 0 < untilChld frames := by
  cases frames with
  | nil => exact Nat.one_pos
  | cons f rest =>
    cases f with
    | chld => exact absurd (List.mem_cons_self ..) h
    | proxy sig seen =>
      cases seen with
      | none => exact Nat.add_pos_left Nat.two_pos _
      | some seen => exact Nat.add_pos_left Nat.one_pos _

theorem untilWait_suspended (h : s.pc = .sigsuspend) : s.untilWait = 1 := by
  rw [State.untilWait, h]

theorem rank_delivered {sig : ℕ} (pc : s.pc = .sigsuspend) (pending : sig ∈ s.pending)
    (unblocked : sig ∉ s.handlers.map Frame.sig) : (s.delivered sig).rank < s.rank := by
  have hwait : (s.delivered sig).untilWait = s.untilWait :=
    (untilWait_suspended pc).trans (untilWait_suspended pc).symm
  by_cases hsig : sig = SIGCHLD
  · subst hsig
    refine rank_lt_of_handlers hwait ?_ ?_
    · exact Finset.erase_idem
    · refine untilChld_pos fun hmem => unblocked ?_
      exact List.mem_map.2 ⟨.chld, hmem, rfl⟩
  · refine rank_lt_of_pending hwait ?_
    have hmem : sig ∈ s.pending.erase SIGCHLD := Finset.mem_erase.2 ⟨hsig, pending⟩
    rw [State.delivered, Finset.erase_right_comm]
    exact Finset.card_erase_lt_of_mem hmem

/-- **What a step brings about while a zombie is left**: it comes nearer, or the step is none of the
actor whose turn it is. -/
theorem rank_step (hi : DrainInv s) (hcalm : Calm l) (h : Zombie s c) (h' : Zombie s' c)
    (hstep : step impl s l = some s') :
    s'.rank < s.rank ∨
      s'.rank = s.rank ∧ s'.turn c = s.turn c ∧ l.actor ≠ some (s.turn c) := by
  have hother {t : State} (hsame : t.rank = s.rank ∧ t.turn c = s.turn c)
      (hactor : l.actor ≠ some (s.turn c)) : t.rank < s.rank ∨
      t.rank = s.rank ∧ t.turn c = s.turn c ∧ l.actor ≠ some (s.turn c) :=
    .inr ⟨hsame.1, hsame.2, hactor⟩
  -- another child is waited for
  have hwaited {d : Child} (hturn : s.turn c = .waitpid c.pid)
      (hc : c ∈ s.children.filter (·.pid ≠ d.pid)) :
      (Label.wait d.pid).actor ≠ some (s.turn c) := by
    have hpid : c.pid ≠ d.pid := by simpa using (List.mem_filter.1 hc).2
    rw [hturn, Label.actor, Ne, Option.some.injEq, Actor.waitpid.injEq]
    exact hpid.symm
  cases step_cases hstep with
  | exit d hd alive status =>
    refine hother (rank_congr rfl rfl ?_ rfl) (by simp [Label.actor])
    exact Finset.erase_insert_eq_erase _ _
  | adopt pid pos free => exact hother (rank_congr rfl rfl rfl rfl) (by simp [Label.actor])
  | arrive sig caught =>
    obtain rfl := hcalm sig rfl
    refine hother (rank_congr rfl rfl ?_ rfl) (by simp [Label.actor])
    exact Finset.erase_insert_eq_erase _ _
  | deliver sig pc pending unblocked => exact .inl (rank_delivered pc pending unblocked)
  | record d status hd zombie pc top =>
    obtain ⟨rest, hrest⟩ : ∃ rest, s.handlers = .chld :: rest := by
      cases hs : s.handlers with
      | nil => simp [hs] at top
      | cons f rest =>
        obtain rfl : f = .chld := by simpa [hs] using top
        exact ⟨rest, rfl⟩
    have hturn : s.turn c = .waitpid c.pid := by rw [State.turn, pc, hrest]
    have hc := h'.1
    unfold State.recorded at hc ⊢
    split_ifs at hc ⊢
    · exact hother (rank_congr rfl rfl rfl rfl) (hwaited hturn hc)
    · exact hother (rank_congr rfl rfl rfl rfl) (hwaited hturn hc)
  | discard d status hd zombie dr pc =>
    have hturn : s.turn c = .waitpid c.pid := by rw [State.turn, pc]
    exact hother (rank_congr rfl rfl rfl rfl) (hwaited hturn h'.1)
  | chldReturn rest pc top => exact absurd ⟨c, h⟩ (no_zombie_of_step hstep)
  | drained dr pc => exact absurd ⟨c, h⟩ (no_zombie_of_step hstep)
  | proxyRead sig rest top =>
    have hpc := hi.pc_of_handler top
    refine .inl (rank_lt_of_handlers ?_ rfl ?_)
    · exact (untilWait_suspended hpc).trans (untilWait_suspended hpc).symm
    · rw [top]
      simp [untilChld, Frame.left]
  | proxyWrite sig seen rest top =>
    have hpc := hi.pc_of_handler top
    by_cases hrest : rest = []
    · refine .inl (rank_lt_of_wait ?_)
      rw [untilWait_suspended hpc]
      simp [State.returned, hrest, State.untilWait]
    · refine .inl (rank_lt_of_handlers ?_ rfl ?_)
      · rw [untilWait_suspended hpc]
        simp [State.returned, hrest, State.untilWait, hpc]
      · rw [top]
        simp [State.returned, untilChld, Frame.left]
  | clock now pc =>
    refine .inl (rank_lt_of_wait ?_)
    simp [State.untilWait, pc]
  | count v now pc =>
    refine .inl (rank_lt_of_wait ?_)
    simp only [State.untilWait, pc, afterCount]
    split_ifs
    · exact Nat.add_pos_left (by decide) _
    · exact Nat.add_lt_add_right (by decide) _
  | scan first second b sig todo pc =>
    refine .inl (rank_lt_of_wait ?_)
    simp [State.untilWait, pc]
  | loop pc =>
    refine .inl (rank_lt_of_wait ?_)
    simp only [State.untilWait, pc]
    split_ifs <;> simp
  | slept pc =>
    refine .inl (rank_lt_of_wait ?_)
    simp only [State.untilWait, pc]
    exact Nat.add_lt_add_right (by decide) _
  | take b pc =>
    refine .inl (rank_lt_of_wait ?_)
    simp only [State.untilWait, pc]
    exact Nat.add_lt_add_right (by decide) _
  | handled b pc =>
    refine .inl (rank_lt_of_wait ?_)
    simp [State.untilWait, pc]

theorem link_none (p t : Bytes) (h : (fun _ => none : Bytes → Option Bytes) p = some t) :
    (0 : UInt8) ∉ t := absurd h (Option.some_ne_none t).symm

/-- A view of `/proc` that cannot be opened. -/
def noView : ProcView := ⟨none, fun _ => none, link_none⟩

/-- **While a zombie is left the actor whose turn it is can go on**, unless the reaper has
exited. -/
theorem enabled_turn (hi : ChildInv s) (hawake : Awake s) (h : Zombie s c)
    (hexited : ∀ code, s.pc ≠ .exited code) :
    Enabled (step impl) (·.actor = some (s.turn c)) s := by
  have hfind : s.children.find? (·.pid = c.pid) = some c := by
    obtain ⟨d, hd⟩ := Option.isSome_iff_exists.1
      (List.find?_isSome.2 ⟨c, h.1, by simp⟩ : (s.children.find? (·.pid = c.pid)).isSome)
    have hpid : d.pid = c.pid := by simpa using List.find?_some hd
    rw [hd, hi.eq_of_pid (List.mem_of_find?_eq_some hd) h.1 hpid]
  obtain ⟨status, hstatus⟩ := Option.isSome_iff_exists.1 h.2
  cases hpc : s.pc with
  | exited code => exact absurd hpc (hexited code)
  | drainZombies d =>
    refine ⟨.wait c.pid, by simp [Label.actor, State.turn, hpc], ?_⟩
    simp [step, hfind, hstatus, hpc]
  | sigsuspend =>
    cases hhandlers : s.handlers with
    | nil =>
      have hpending : SIGCHLD ∈ s.pending := (hawake ⟨c, h⟩).resolve_right (by simp [hhandlers])
      refine ⟨.deliver SIGCHLD, by simp [Label.actor, State.turn, hpc, hhandlers], ?_⟩
      simp [step, hpc, hpending, hhandlers]
    | cons f rest =>
      cases f with
      | chld =>
        refine ⟨.wait c.pid, by simp [Label.actor, State.turn, hpc, hhandlers], ?_⟩
        simp [step, hfind, hstatus, hpc, hhandlers]
      | proxy sig seen =>
        refine ⟨.handler, by simp [Label.actor, State.turn, hpc, hhandlers], ?_⟩
        cases seen <;> simp [step, hhandlers]
  | loop | usleep | handlePending b =>
    refine ⟨.run, by simp [Label.actor, State.turn, hpc], ?_⟩
    simp [step, hpc]
  | monotonicMs =>
    refine ⟨.clock 0, by simp [Label.actor, State.turn, hpc], ?_⟩
    simp [step, hpc]
  | countDescendants now =>
    refine ⟨.count noView, by simp [Label.actor, State.turn, hpc], ?_⟩
    simp [step, hpc]
  | broadcast b todo =>
    cases todo with
    | nil =>
      refine ⟨.run, by simp [Label.actor, State.turn, hpc], ?_⟩
      simp [step, hpc]
    | cons sig todo =>
      refine ⟨.scan noView noView, by simp [Label.actor, State.turn, hpc], ?_⟩
      simp [step, hpc]

/-! ### Runs -/

/-- What is known of a state of a run. -/
structure ReapInv (s : State) : Prop where
  child : ChildInv s
  drain : DrainInv s
  awake : Awake s

theorem ReapInv.step (h : ReapInv s) (hstep : Reaper.step impl s l = some s') : ReapInv s' :=
  ⟨h.child.step hstep, h.drain.step hstep, h.awake.step hstep⟩

theorem ReapInv.supervise {pid : ℤ} (hpid : 0 < pid) : ReapInv (supervise pid) where
  child := .supervise hpid
  drain := .supervise pid
  awake := by
    rintro ⟨c, hc, hstatus⟩
    rw [Reaper.supervise, if_pos hpid] at hc
    obtain rfl := List.mem_singleton.1 hc
    cases hstatus

/-- **Every zombie is reaped.**  After a successful `fork`, for either build and every run that goes
on forever and keeps neither the main program nor the handlers nor the kernel waiting: a child that
has exited is waited for at last, once no more signals to be forwarded arrive, or the reaper has
exited. -/
theorem zombie_reaped (impl : Impl) (argc : ℕ) (prctl fork : ℤ) (hfork : 0 < fork) (s : State)
    (hs : boot impl argc prctl fork = .ok s) (r : Run (step impl) s)
    (hfair : ∀ a : Actor, r.WeaklyFair (·.actor = some a)) (n : ℕ)
    (hcalm : ∀ m, n ≤ m → Calm (r.label m)) (c : Child) (hzombie : Zombie (r.state n) c) :
    ∃ m, n ≤ m ∧ (r.label m = .wait c.pid ∨ ∃ code, (r.state m).pc = .exited code) := by
  have hinv (m : ℕ) : ReapInv (r.state m) := by
    refine Run.invariant (fun _ _ _ h hstep => h.step hstep) ?_ m
    rw [boot_ok hs]
    exact .supervise hfork
  have hwaits : r.Waits
      (fun m => ¬ Zombie (r.state m) c ∨ ∃ code, (r.state m).pc = .exited code)
      (fun m => (r.state m).rank) (fun m => (r.state m).turn c)
      (fun a l => l.actor = some a) n := by
    refine ⟨?_, ?_⟩
    · intro m _ hgoal
      push Not at hgoal
      exact enabled_turn (hinv m).child (hinv m).awake hgoal.1 hgoal.2
    · intro m hm hgoal
      push Not at hgoal
      by_cases hleft : Zombie (r.state (m + 1)) c
      · exact .inr (rank_step (hinv m).drain (hcalm m hm) hgoal.1 hleft (r.next m))
      · exact .inl (.inl hleft)
  obtain ⟨m, hm, hgoal, hfirst⟩ := Run.exists_first (Run.leadsTo hwaits hfair)
  rcases hgoal with hgone | hexited
  · have hlt : n < m := lt_of_le_of_ne hm (by rintro rfl; exact hgone hzombie)
    obtain ⟨k, rfl⟩ := Nat.exists_eq_add_of_lt hlt
    have hbefore : Zombie (r.state (n + k)) c :=
      by_contra fun h => hfirst (n + k) (Nat.le_add_right n k) (by omega) (.inl h)
    rcases zombie_step (hinv _).child hbefore (r.next (n + k)) with hstays | ⟨hwait, -⟩
    · exact absurd hstays hgone
    · exact ⟨n + k, Nat.le_add_right n k, .inl hwait⟩
  · exact ⟨m, hm, .inr hexited⟩

/-! ### An orphan is reaped -/

/-- An orphan is left to the reaper and exits, and the reaper comes back to sleep. -/
def orphanRun : List Label :=
  [.run, .adopt 9, .exit 9 0, .deliver SIGCHLD, .wait 9, .noZombie, .noZombie, .run, .run, .run]

/-- The state after `n` steps of a run in which more and more orphans are then left to the
reaper. -/
def orphansAt (n : ℕ) : State :=
  let s := (exec (step .gnu) (supervise 7) (orphanRun.take n)).getD (supervise 7)
  { s with children := s.children ++ (List.range' 10 (n - 10)).map fun pid => ⟨pid, false, none⟩ }

theorem orphansAt_of_ge {n : ℕ} (h : n ≤ 10) :
    orphansAt n = (exec (step .gnu) (supervise 7) (orphanRun.take n)).getD (supervise 7) := by
  rw [orphansAt, Nat.sub_eq_zero_of_le h]
  simp

theorem orphansAt_of_le {n : ℕ} (h : 10 ≤ n) :
    orphansAt n = { orphansAt 10 with
      children := ⟨7, true, none⟩ ::
        (List.range' 10 (n - 10)).map fun pid => ⟨pid, false, none⟩ } := by
  rw [orphansAt, List.take_of_length_le (by simpa [orphanRun] using h)]
  rfl

theorem orphansAt_next {n : ℕ} (h : 10 ≤ n) :
    step .gnu (orphansAt n) (.adopt n) = some (orphansAt (n + 1)) := by
  have hrange : List.range' 10 (n + 1 - 10) = List.range' 10 (n - 10) ++ [n] := by
    rw [Nat.sub_add_comm h, List.range'_concat]
    congr
    omega
  have hfree : ∀ c ∈ (orphansAt n).children, c.pid ≠ n := by
    rw [orphansAt_of_le h]
    intro c hc
    rcases List.mem_cons.1 hc with rfl | hc
    · exact (show 7 ≠ n by omega)
    · obtain ⟨pid, hpid, rfl⟩ := List.mem_map.1 hc
      have := (List.mem_range'_1.1 hpid).2
      exact (show pid ≠ n by omega)
  rw [step, if_pos ⟨by omega, hfree⟩, orphansAt_of_le h, orphansAt_of_le (Nat.le_succ_of_le h),
    hrange]
  simp [State.adopted]

/-- The run. -/
def orphansRun : Run (step .gnu) (supervise 7) where
  state := orphansAt
  label n := orphanRun.getD n (.adopt n)
  start := rfl
  next n := by
    rcases Nat.lt_or_ge n 10 with hlt | hle
    · have hrun : (exec (step .gnu) (supervise 7) orphanRun).isSome := by decide +kernel
      obtain ⟨t, ht⟩ := Option.isSome_iff_exists.1 hrun
      rw [orphansAt_of_ge hlt.le, orphansAt_of_ge (Nat.succ_le_of_lt hlt), List.getD_eq_getElem]
      exact step_getElem ht hlt
    · rw [List.getD_eq_default _ _ (by simpa [orphanRun] using hle)]
      exact orphansAt_next hle

/-- Asleep with nothing pending and without a zombie, the reaper has nothing to do. -/
theorem not_enabled (hpc : s.pc = .sigsuspend) (hpending : s.pending = ∅)
    (hhandlers : s.handlers = []) (halive : ∀ c ∈ s.children, c.status = none) (a : Actor) :
    ¬ Enabled (step impl) (·.actor = some a) s := by
  rintro ⟨l, hactor, hsome⟩
  obtain ⟨t, ht⟩ := Option.isSome_iff_exists.1 hsome
  cases step_cases ht with
  | exit | adopt | arrive => cases hactor
  | deliver sig pc pending unblocked => simp [hpending] at pending
  | record d status hd zombie pc top | discard d status hd zombie dr pc =>
    rw [halive d hd] at zombie
    cases zombie
  | chldReturn rest pc top | proxyRead sig rest top | proxyWrite sig seen rest top =>
    rw [hhandlers] at top
    cases top
  | drained dr pc | clock now pc | count v now pc | scan first second b sig todo pc
  | loop pc | slept pc | take b pc | handled b pc =>
    rw [hpc] at pc
    cases pc

theorem orphansRun_fair (a : Actor) : orphansRun.WeaklyFair (·.actor = some a) := by
  intro n henabled
  have hidle : ¬ Enabled (step .gnu) (·.actor = some a) (orphansAt (max n 10)) := by
    rw [orphansAt_of_le (le_max_right n 10)]
    refine not_enabled rfl rfl rfl ?_ a
    intro c hc
    rcases List.mem_cons.1 hc with rfl | hc
    · rfl
    · obtain ⟨pid, -, rfl⟩ := List.mem_map.1 hc
      rfl
  exact absurd (henabled _ (le_max_left n 10)) hidle

theorem zombie_reaped_orphan : ∃ m, 3 ≤ m ∧
    (orphansRun.label m = .wait 9 ∨ ∃ code, (orphansRun.state m).pc = .exited code) := by
  refine zombie_reaped .gnu 2 0 7 (by decide) (supervise 7) rfl orphansRun orphansRun_fair 3 ?_
    ⟨9, false, some 0⟩ ⟨by decide +kernel, rfl⟩
  intro m _ sig harrive
  have hlabel : ∀ m, orphanRun.getD m (.adopt m) ≠ .arrive sig := by
    intro m h
    rcases Nat.lt_or_ge m 10 with hlt | hle
    · interval_cases m <;> cases h
    · rw [List.getD_eq_default _ _ (by simpa [orphanRun] using hle)] at h
      cases h
  exact absurd harrive (hlabel m)

end Reaper

end TuxDock
