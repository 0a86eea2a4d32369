import TuxDock.Reaper.Builds
import TuxDock.Reaper.Recorded

/-!
# How the supervision ends

The loop is to end once the exit of the main child is recorded and either `/proc` lists no other
process or a minute has passed since the first iteration after the record, and the reaper is to end
with the main child's own outcome.

* `exitCode_waitStatus` : an outcome is decoded from its wait status;
* `ExitInv`, `LoopInv` : what the state after a run has to do with the exits and the clock readings
  among its labels;
* `supervision_ends` : **this is so in every run in which `sigchld_handler` takes no other process
  for the main child**;
* `impostor_exit_code` : a run in which it does, after `drain_zombies` has reaped the main child.
-/

namespace TuxDock

namespace Reaper

open Transition

/-! ### Outcomes -/

/-- How a process ends. -/
inductive ChildOutcome where
  | exited (code : ℕ) (lt : code < 256)
  | signaled (sig : ℕ) (pos : 0 < sig) (lt : sig < 127) (core : Bool)

/-- The status `waitpid` returns for it. -/
def ChildOutcome.waitStatus : ChildOutcome → ℕ
  | exited code _ => code * 256
  | signaled sig _ _ core => if core then sig + 128 else sig

/-- The exit status it stands for. -/
def ChildOutcome.code : ChildOutcome → ℤ
  | exited code _ => code
  | signaled sig _ _ _ => 128 + sig

/-- **An outcome is decoded from its wait status.** -/
theorem exitCode_waitStatus (o : ChildOutcome) : exitCode o.waitStatus = o.code := by
  have hlow (n : ℕ) : n &&& 0x7f = n % 2 ^ 7 := Nat.and_two_pow_sub_one_eq_mod n 7
  have hbyte (n : ℕ) : (n >>> 8) &&& 0xff = n / 2 ^ 8 % 2 ^ 8 := by
    rw [Nat.shiftRight_eq_div_pow]
    exact Nat.and_two_pow_sub_one_eq_mod _ 8
  cases o with
  | exited code lt =>
    have hzero : code * 256 % 2 ^ 7 = 0 := by omega
    have hcode : code * 256 / 2 ^ 8 % 2 ^ 8 = code := by omega
    rw [ChildOutcome.waitStatus, exitCode, hlow, hbyte, if_pos hzero, hcode]
    rfl
  | signaled sig pos lt core =>
    have hsig : (ChildOutcome.signaled sig pos lt core).waitStatus % 2 ^ 7 = sig := by
      rw [ChildOutcome.waitStatus]
      split_ifs <;> omega
    rw [exitCode, hlow, hsig, if_neg pos.ne', if_pos (by omega)]
    rfl

/-! ### What the labels say -/

/-- The wait status of the main child: its pid is given out again only after that exit. -/
def mainExit (fork : ℤ) (ls : List Label) : Option ℕ :=
  ls.findSome? fun
    | .exit pid status => if (pid : ℤ) = fork then some status else none
    | _ => none

/-- The clock readings of a run. -/
def readings (ls : List Label) : List ℤ :=
  ls.filterMap fun
    | .clock now => some now
    | _ => none

/-- A process is listed in `/proc`. -/
def ProcView.Lists (v : ProcView) (pid : ℕ) : Prop :=
  ∃ l, v.listing = some l ∧ ∃ e ∈ l.entries, e.pid? = some pid

/-- The last reading is a minute past the first one. -/
def TimedOut (ls : List Label) : Prop :=
  ∃ first last, (readings ls).head? = some first ∧ (readings ls).getLast? = some last ∧
    60000 ≤ last - first

/-- The next label counts the descendants and there is no one to wait for, or no time left. -/
def WaitOver (before : List Label) (l : Label) : Prop :=
  ∃ v, l = .count v ∧ ((∀ pid, v.Lists pid → pid ≤ 1) ∨ TimedOut before)

/-- A `waitpid` call has reaped the main child, and its status is recorded. -/
def ExitRecorded (s : State) : Prop := s.childExited = true ∧ s.mainReaped = some s.mainStatus

/-- The step leaves the loop. -/
def LeavesLoop (s s' : State) : Prop := s.pc ≠ .drainZombies .final ∧ s'.pc = .drainZombies .final

/-- `sigchld_handler` does not take another process for the main child. -/
def NoImpostor (s : State) : Label → Prop
  | .wait pid =>
    ¬ (s.pc = .sigsuspend ∧ (pid : ℤ) = s.mainChild ∧
      ∃ c ∈ s.children, c.pid = pid ∧ c.main = false)
  | _ => True

instance (s : State) : ∀ l, Decidable (NoImpostor s l)
  | .wait pid =>
    inferInstanceAs (Decidable (¬ (s.pc = .sigsuspend ∧ (pid : ℤ) = s.mainChild ∧
      ∃ c ∈ s.children, c.pid = pid ∧ c.main = false)))
  | .exit _ _ | .adopt _ | .arrive _ | .deliver _ | .noZombie | .handler | .clock _ | .count _
  | .scan _ _ | .run => isTrue trivial

/-- `/proc` can be read and the clock has a positive reading. -/
def Label.Readable : Label → Prop
  | .count v => v.listing.isSome
  | .clock now => 0 < now
  | _ => True

section Labels

variable {fork : ℤ} {ls : List Label} {l : Label}

theorem readings_append (ls ms : List Label) : readings (ls ++ ms) = readings ls ++ readings ms :=
  List.filterMap_append

theorem readings_pos (h : ∀ l ∈ ls, l.Readable) : ∀ now ∈ readings ls, 0 < now := by
  intro now hnow
  obtain ⟨l, hl, hread⟩ := List.mem_filterMap.1 hnow
  cases l with
  | clock n =>
    obtain rfl := Option.some.inj hread
    exact h _ hl
  | _ => cases hread

theorem mainExit_append (fork : ℤ) (ls ms : List Label) :
    mainExit fork (ls ++ ms) = (mainExit fork ls).or (mainExit fork ms) :=
  List.findSome?_append

theorem mainExit_append_of_some {status : ℕ} (h : mainExit fork ls = some status)
    (ms : List Label) : mainExit fork (ls ++ ms) = some status := by
  rw [mainExit_append, h, Option.some_or]

end Labels

/-- A scan counts the processes listed other than pid 1. -/
theorem countDescendants_eq_zero_iff (impl : Impl) {v : ProcView} (hv : v.listing.isSome) :
    countDescendants impl v = 0 ↔ ∀ pid, v.Lists pid → pid ≤ 1 := by
  obtain ⟨l, hl⟩ := Option.isSome_iff_exists.1 hv
  simp only [countDescendants, hl, readEntries_eq, pidOf_name, List.length_eq_zero_iff,
    List.filter_eq_nil_iff, ProcView.Lists]
  constructor
  · rintro h pid ⟨l', hl', e, he, hpid⟩
    obtain rfl := Option.some.inj hl'
    have := h e he
    rw [hpid] at this
    simpa [Option.filter] using this
  · intro h e he
    cases hpid : e.pid? with
    | none => simp
    | some pid =>
      have := h pid ⟨l, rfl, e, he, hpid⟩
      simpa [Option.filter] using this

/-! ### The exit of the main child -/

/-- The main child after a run, and what the labels of the run say of it. -/
structure ExitInv (fork : ℤ) (ls : List Label) (s : State) : Prop where
  child : ChildInv s
  mainChild : s.mainChild = fork
  status : ∀ c ∈ s.children, c.main = true → c.status = mainExit fork ls
  reaped : ∀ status, s.mainReaped = some status → mainExit fork ls = some status
  recorded : s.childExited = true → ExitRecorded s

namespace ExitInv

variable {impl : Impl} {fork : ℤ} {ls : List Label} {s s' : State} {l : Label}

theorem supervise (hfork : 0 < fork) : ExitInv fork [] (supervise fork) where
  child := .supervise hfork
  mainChild := rfl
  status c hc _ := by
    simp only [Reaper.supervise, hfork, ↓reduceIte, List.mem_singleton] at hc
    rw [hc]
    rfl
  reaped _ h := by cases h
  recorded h := Bool.noConfusion h

theorem stay (hi : ExitInv fork ls s) (hexit : mainExit fork [l] = none)
    (children : s'.children = s.children) (mainChild : s'.mainChild = s.mainChild)
    (childExited : s'.childExited = s.childExited) (mainStatus : s'.mainStatus = s.mainStatus)
    (mainReaped : s'.mainReaped = s.mainReaped) : ExitInv fork (ls ++ [l]) s' where
  child := hi.child.congr children mainChild childExited mainReaped
  mainChild := mainChild.trans hi.mainChild
  status := by rw [children, mainExit_append, hexit, Option.or_none]; exact hi.status
  reaped := by rw [mainReaped, mainExit_append, hexit, Option.or_none]; exact hi.reaped
  recorded := by rw [ExitRecorded, childExited, mainReaped, mainStatus]; exact hi.recorded

theorem exit (hi : ExitInv fork ls s) {c : Child} (hc : c ∈ s.children) (alive : c.status = none)
    (status : ℕ) : ExitInv fork (ls ++ [.exit c.pid status]) (s.exited c.pid status) where
  child := hi.child.exited c.pid status
  mainChild := hi.mainChild
  status := by
    intro d' hd' hmain
    obtain ⟨d, hd, rfl⟩ := List.mem_map.1 hd'
    have hdm : d.main = true := by
      split_ifs at hmain <;> exact hmain
    have hdpid : (d.pid : ℤ) = fork := (hi.child.main d hd hdm).1.trans hi.mainChild
    have hstatus := hi.status d hd hdm
    have hexit : mainExit fork [.exit c.pid status] =
        if (c.pid : ℤ) = fork then some status else none := by
      rw [mainExit, List.findSome?_singleton]
    rw [mainExit_append, ← hstatus, hexit]
    by_cases hpid : d.pid = c.pid
    · obtain rfl := hi.child.eq_of_pid hd hc hpid
      rw [if_pos rfl, if_pos hdpid, alive, Option.none_or]
    · have hne : ¬ (c.pid : ℤ) = fork := fun h => hpid (by exact_mod_cast hdpid.trans h.symm)
      rw [if_neg hpid, if_neg hne, Option.or_none]
  reaped st hst := mainExit_append_of_some (hi.reaped st hst) _
  recorded := hi.recorded

theorem adopt (hi : ExitInv fork ls s) {pid : ℕ} (free : ∀ c ∈ s.children, c.pid ≠ pid) :
    ExitInv fork (ls ++ [.adopt pid]) (s.adopted pid) where
  child := hi.child.adopted free
  mainChild := hi.mainChild
  status := by
    intro c hc hmain
    rw [mainExit_append, show mainExit fork [.adopt pid] = none from rfl, Option.or_none]
    rcases List.mem_append.1 hc with hc | hc
    · exact hi.status c hc hmain
    · obtain rfl := List.mem_singleton.1 hc
      cases hmain
  reaped st hst := mainExit_append_of_some (hi.reaped st hst) _
  recorded := hi.recorded

/-- A zombie is reaped, and what is recorded is right. -/
theorem wait (hi : ExitInv fork ls s) {c : Child} {status : ℕ} (hc : c ∈ s.children)
    (zombie : c.status = some status) (hchild : ChildInv s')
    (children : s'.children = (s.reaped c status).children)
    (mainChild : s'.mainChild = s.mainChild)
    (mainReaped : s'.mainReaped = (s.reaped c status).mainReaped)
    (recorded : s'.childExited = true → ExitRecorded s') :
    ExitInv fork (ls ++ [.wait c.pid]) s' where
  child := hchild
  mainChild := mainChild.trans hi.mainChild
  status := by
    rw [children, mainExit_append, show mainExit fork [.wait c.pid] = none from rfl,
      Option.or_none]
    exact fun d hd => hi.status d (List.mem_of_mem_filter hd)
  reaped := by
    rw [mainReaped]
    intro st hst
    refine mainExit_append_of_some ?_ _
    cases hmain : c.main with
    | true =>
      rw [← hi.status c hc hmain, zombie, ← hst]
      simp [State.reaped, hmain]
    | false => exact hi.reaped st (by simpa [State.reaped, hmain] using hst)
  recorded := recorded

/-- `sigchld_handler` records the main child, and no one else. -/
theorem record (hi : ExitInv fork ls s) {c : Child} {status : ℕ} (hc : c ∈ s.children)
    (pc : s.pc = .sigsuspend) (hok : NoImpostor s (.wait c.pid))
    (h : ((s.reaped c status).recorded c.pid status).childExited = true) :
    ExitRecorded ((s.reaped c status).recorded c.pid status) := by
  cases hmain : c.main with
  | true =>
    have hpid : (c.pid : ℤ) = (s.reaped c status).mainChild := (hi.child.main c hc hmain).1
    rw [State.recorded, if_pos hpid]
    exact ⟨rfl, by simp [State.reaped, hmain]⟩
  | false =>
    have hpid : ¬ (c.pid : ℤ) = (s.reaped c status).mainChild :=
      fun hpid => hok ⟨pc, hpid, c, hc, rfl, hmain⟩
    rw [State.recorded, if_neg hpid] at h ⊢
    obtain ⟨hexited, hreaped⟩ := hi.recorded h
    exact ⟨hexited, by simpa [State.reaped, hmain] using hreaped⟩

/-- `drain_zombies` reaps no main child that is recorded. -/
theorem discard (hi : ExitInv fork ls s) {c : Child} (hc : c ∈ s.children) (status : ℕ)
    (h : s.childExited = true) : ExitRecorded (s.reaped c status) := by
  have hmain : c.main = false := by
    rw [Bool.eq_false_iff]
    intro hmain
    have hexited := (hi.child.unreaped (hi.child.main c hc hmain).2).1
    rw [hexited] at h
    cases h
  obtain ⟨hexited, hreaped⟩ := hi.recorded h
  exact ⟨hexited, by simpa [State.reaped, hmain] using hreaped⟩

/-- **Every step without an impostor preserves the invariant.** -/
theorem step (hi : ExitInv fork ls s) (hok : NoImpostor s l)
    (h : Reaper.step impl s l = some s') : ExitInv fork (ls ++ [l]) s' := by
  have hchild := hi.child.step h
  cases step_cases h with
  | exit c hc alive status => exact hi.exit hc alive status
  | adopt pid pos free => exact hi.adopt free
  | record c status hc zombie pc top =>
    have hfields : ((s.reaped c status).recorded c.pid status).children =
          (s.reaped c status).children ∧
        ((s.reaped c status).recorded c.pid status).mainChild = s.mainChild ∧
        ((s.reaped c status).recorded c.pid status).mainReaped =
          (s.reaped c status).mainReaped := by
      rw [State.recorded]
      split_ifs <;> exact ⟨rfl, rfl, rfl⟩
    exact hi.wait hc zombie hchild hfields.1 hfields.2.1 hfields.2.2 (hi.record hc pc hok)
  | discard c status hc zombie d pc =>
    exact hi.wait hc zombie hchild rfl rfl rfl (hi.discard hc status)
  | _ => exact hi.stay rfl rfl rfl rfl rfl rfl

end ExitInv

/-! ### The loop and its clock -/

/-- The clock reading of the iteration, where the main program still has to compare it. -/
def Pc.reading : Pc → Option ℤ
  | .drainZombies (.descendants now) | .countDescendants now => some now
  | _ => none

/-- The place of the main program after a run, and the clock readings on the way. -/
structure LoopInv (ls : List Label) (s : State) : Prop where
  active : s.childExited = false → s.pc.Active ∧ readings ls = []
  first : s.childExitTime = (readings ls).headD 0
  last : ∀ now, s.pc.reading = some now → (readings ls).getLast? = some now
  exited : ∀ code, s.pc = .exited code → code = exitCode s.mainStatus

namespace LoopInv

variable {impl : Impl} {ls : List Label} {s s' : State} {l : Label}

theorem supervise (fork : ℤ) : LoopInv [] (supervise fork) where
  active _ := ⟨trivial, rfl⟩
  first := rfl
  last _ h := by cases h
  exited _ h := Pc.noConfusion h

theorem advance (hi : LoopInv ls s) (hl : readings [l] = [])
    (childExitTime : s'.childExitTime = s.childExitTime)
    (active : s'.childExited = false → s.childExited = false ∧ s'.pc.Active)
    (last : ∀ now, s'.pc.reading = some now → (readings ls).getLast? = some now)
    (exited : ∀ code, s'.pc = .exited code → code = exitCode s'.mainStatus) :
    LoopInv (ls ++ [l]) s' := by
  have hreadings : readings (ls ++ [l]) = readings ls := by
    rw [readings_append, hl, List.append_nil]
  refine ⟨?_, ?_, ?_, exited⟩
  · intro h
    rw [hreadings]
    exact ⟨(active h).2, (hi.active (active h).1).2⟩
  · rw [hreadings, childExitTime]
    exact hi.first
  · rw [hreadings]
    exact last

theorem stay (hi : LoopInv ls s) (hl : readings [l] = []) (pc : s'.pc = s.pc)
    (childExitTime : s'.childExitTime = s.childExitTime)
    (childExited : s'.childExited = false → s.childExited = false)
    (mainStatus : s.pc ≠ .sigsuspend → s'.mainStatus = s.mainStatus) : LoopInv (ls ++ [l]) s' := by
  refine hi.advance hl childExitTime (fun h => ⟨childExited h, ?_⟩) (pc ▸ hi.last) ?_
  · rw [pc]
    exact (hi.active (childExited h)).1
  · intro code hcode
    rw [pc] at hcode
    rw [mainStatus (by rw [hcode]; exact Pc.noConfusion)]
    exact hi.exited code hcode

/-- The main program moves on, and nothing is recorded. -/
theorem move (hi : LoopInv ls s) (hl : readings [l] = [])
    (childExitTime : s'.childExitTime = s.childExitTime)
    (childExited : s'.childExited = s.childExited)
    (active : s.childExited = false → s.pc.Active → s'.pc.Active)
    (last : ∀ now, s'.pc.reading = some now → s.pc.reading = some now)
    (exited : ∀ code, s'.pc = .exited code → code = exitCode s'.mainStatus) :
    LoopInv (ls ++ [l]) s' := by
  refine hi.advance hl childExitTime (fun h => ?_) (fun now h => hi.last now (last now h)) exited
  rw [childExited] at h
  exact ⟨h, active h (hi.active h).1⟩

theorem returned (hi : LoopInv ls s) (hl : readings [l] = []) (rest : List Frame) :
    LoopInv (ls ++ [l]) (s.returned rest) := by
  by_cases hrest : rest = []
  · refine hi.move hl rfl rfl (fun _ _ => ?_) (fun now h => ?_) (fun code h => ?_)
    · simp only [State.returned, hrest, ↓reduceIte]
      trivial
    · simp [State.returned, hrest, Pc.reading] at h
    · simp [State.returned, hrest] at h
  · exact hi.stay hl (by simp [State.returned, hrest]) rfl id fun _ => rfl

/-- The reading of an iteration; the first one is stored, as zero stands for none. -/
theorem clock (hi : LoopInv ls s) (pc : s.pc = .monotonicMs) (hpos : ∀ t ∈ readings ls, 0 < t)
    (now : ℤ) :
    LoopInv (ls ++ [.clock now]) { s with
      childExitTime := if s.childExitTime = 0 then now else s.childExitTime
      pc := .drainZombies (.descendants now) } := by
  have hreadings : readings (ls ++ [.clock now]) = readings ls ++ [now] := by
    rw [readings_append]
    rfl
  refine ⟨?_, ?_, ?_, nofun⟩
  · intro h
    have hactive := (hi.active h).1
    rw [pc] at hactive
    exact hactive.elim
  · rw [hreadings]
    show (if s.childExitTime = 0 then now else s.childExitTime) = _
    rw [hi.first]
    cases hr : readings ls with
    | nil => rfl
    | cons t rest =>
      have ht : t ≠ 0 := (hpos t (by rw [hr]; exact List.mem_cons_self)).ne'
      rw [List.headD_cons, if_neg ht]
      rfl
  · intro t ht
    rw [hreadings, List.getLast?_append]
    obtain rfl := Option.some.inj ht
    rfl

/-- **Every step preserves the invariant**, as long as the clock readings are positive. -/
theorem step (hi : LoopInv ls s) (hpos : ∀ t ∈ readings ls, 0 < t)
    (h : Reaper.step impl s l = some s') : LoopInv (ls ++ [l]) s' := by
  cases step_cases h with
  | record c status hc zombie pc top =>
    refine hi.stay rfl ?_ ?_ (fun h => ?_) (fun h => absurd pc h)
    · rw [State.recorded]
      split_ifs <;> rfl
    · rw [State.recorded]
      split_ifs <;> rfl
    · rw [State.recorded] at h
      split_ifs at h
      exact h
  | chldReturn rest pc top => exact hi.returned rfl rest
  | drained d pc =>
    cases d with
    | active =>
      exact hi.move rfl rfl rfl (fun _ _ => trivial) (fun _ h => by cases h) fun _ h => by cases h
    | descendants now =>
      refine hi.move rfl rfl rfl (fun _ h => ?_) (fun t h => ?_) fun _ h => by cases h
      · rw [pc] at h
        exact h.elim
      · rw [pc]
        exact h
    | final =>
      refine hi.move rfl rfl rfl (fun _ h => ?_) (fun _ h => by cases h) ?_
      · rw [pc] at h
        exact h.elim
      · rintro code ⟨⟩
        rfl
  | proxyWrite sig seen rest top =>
    have hset : LoopInv ls { s with pendingSignals := seen ||| 1 <<< (sig - 1) } :=
      ⟨hi.active, hi.first, hi.last, hi.exited⟩
    exact hset.returned rfl rest
  | clock now pc => exact hi.clock pc hpos now
  | count v now pc =>
    refine hi.move rfl rfl rfl (fun _ h => ?_) (fun t h => ?_) fun code h => ?_
    · rw [pc] at h
      exact h.elim
    · simp only [afterCount] at h
      split_ifs at h <;> cases h
    · simp only [afterCount] at h
      split_ifs at h
  | scan first second b sig todo pc =>
    refine hi.move rfl rfl rfl (fun _ h => ?_) (fun t h => ?_) fun _ h => by cases h
    · rw [pc] at h
      cases b with
      | active => trivial
      | descendants => exact h.elim
    · cases h
  | loop pc =>
    refine hi.move rfl rfl rfl (fun hexited _ => ?_) (fun t h => ?_) fun code h => ?_
    · simp only [hexited, Bool.false_eq_true, ↓reduceIte]
      trivial
    · dsimp only at h
      split_ifs at h <;> cases h
    · dsimp only at h
      split_ifs at h
  | slept pc =>
    refine hi.move rfl rfl rfl (fun _ h => ?_) (fun t h => ?_) fun _ h => by cases h
    · rw [pc] at h
      exact h.elim
    · cases h
  | take b pc =>
    refine hi.move rfl rfl rfl (fun _ h => ?_) (fun t h => ?_) fun _ h => by cases h
    · rw [pc] at h
      cases b with
      | active => trivial
      | descendants => exact h.elim
    · cases h
  | handled b pc =>
    exact hi.move rfl rfl rfl (fun _ _ => trivial) (fun _ h => by cases h) fun _ h => by cases h
  | _ => exact hi.stay rfl rfl rfl id fun _ => rfl

end LoopInv

/-! ### The end of the loop -/

section Ends

variable {impl : Impl} {fork : ℤ} {ls : List Label} {s s' : State} {l : Label}

theorem afterCount_eq_final_iff (descendants : ℕ) (elapsed : ℤ) :
    afterCount descendants elapsed = .drainZombies .final ↔ descendants = 0 ∨ 60000 ≤ elapsed := by
  rw [afterCount]
  split_ifs with h
  · exact iff_of_true rfl h
  · exact iff_of_false (by rintro ⟨⟩) h

theorem pc_of_returned (s : State) (rest : List Frame)
    (h : (s.returned rest).pc = .drainZombies .final) : s.pc = .drainZombies .final := by
  by_cases hrest : rest = []
  · simp [State.returned, hrest] at h
  · simpa [State.returned, hrest] using h

/-- The main program compares the reading of the iteration with the first one. -/
theorem LoopInv.timedOut_iff (hi : LoopInv ls s) {now : ℤ} (pc : s.pc = .countDescendants now) :
    TimedOut ls ↔ 60000 ≤ now - s.childExitTime := by
  have hlast := hi.last now (by rw [pc]; rfl)
  have hfirst := hi.first
  cases hr : readings ls with
  | nil => simp [hr] at hlast
  | cons t rest =>
    rw [hr] at hlast hfirst
    simp only [TimedOut, hr, List.head?_cons, hlast, hfirst, List.headD_cons, Option.some.injEq,
      exists_eq_left', ↓existsAndEq, true_and]

/-- **An iteration ends the loop** exactly when the exit is recorded and the wait is over. -/
theorem leavesLoop_iff (hex : ExitInv fork ls s) (hi : LoopInv ls s) (hread : l.Readable)
    (h : step impl s l = some s') : LeavesLoop s s' ↔ ExitRecorded s ∧ WaitOver ls l := by
  -- only the count of the descendants is followed by the last sweep
  have other (hl : ∀ v, l ≠ .count v)
      (hpc : s'.pc = .drainZombies .final → s.pc = .drainZombies .final) :
      LeavesLoop s s' ↔ ExitRecorded s ∧ WaitOver ls l :=
    iff_of_false (fun hleaves => hleaves.1 (hpc hleaves.2)) fun ⟨_, v, hv, _⟩ => hl v hv
  cases step_cases h with
  | count v now pc =>
    have hexited : s.childExited = true := by
      by_contra hexited
      have hactive := (hi.active (Bool.not_eq_true _ ▸ hexited)).1
      rw [pc] at hactive
      exact hactive
    have hleaves : LeavesLoop s { s with
        pc := afterCount (countDescendants impl v) (now - s.childExitTime) } ↔
          countDescendants impl v = 0 ∨ 60000 ≤ now - s.childExitTime := by
      rw [LeavesLoop, afterCount_eq_final_iff, pc]
      exact and_iff_right Pc.noConfusion
    have hover : WaitOver ls (.count v) ↔ (∀ pid, v.Lists pid → pid ≤ 1) ∨ TimedOut ls := by
      simp only [WaitOver, Label.count.injEq, exists_eq_left']
    rw [hleaves, and_iff_right (hex.recorded hexited), hover,
      countDescendants_eq_zero_iff impl hread, hi.timedOut_iff pc]
  | record c status hc zombie pc top =>
    refine other (by rintro v ⟨⟩) fun hpc => ?_
    rw [State.recorded] at hpc
    split_ifs at hpc <;> exact hpc
  | chldReturn rest pc top => exact other (by rintro v ⟨⟩) (pc_of_returned s rest)
  | drained d pc => exact other (by rintro v ⟨⟩) fun hpc => by cases d <;> cases hpc
  | proxyWrite sig seen rest top => exact other (by rintro v ⟨⟩) (pc_of_returned _ rest)
  | clock now pc => exact other (by rintro v ⟨⟩) fun hpc => by cases hpc
  | scan first second b sig todo pc => exact other (by rintro v ⟨⟩) fun hpc => by cases hpc
  | loop pc =>
    refine other (by rintro v ⟨⟩) fun hpc => ?_
    dsimp only at hpc
    split_ifs at hpc
  | slept pc => exact other (by rintro v ⟨⟩) fun hpc => by cases hpc
  | take b pc => exact other (by rintro v ⟨⟩) fun hpc => by cases hpc
  | handled b pc => exact other (by rintro v ⟨⟩) fun hpc => by cases hpc
  | _ => exact other (by rintro v ⟨⟩) id

end Ends

theorem inv_of_run {impl : Impl} {fork : ℤ} (hfork : 0 < fork) {ls : List Label} {t : State}
    (hread : ∀ l ∈ ls, l.Readable) (hok : StepsMeet (step impl) NoImpostor (supervise fork) ls)
    (ht : exec (step impl) (supervise fork) ls = some t) : ExitInv fork ls t ∧ LoopInv ls t := by
  have hinv := exec_labels
    (H := fun before s => (∀ l ∈ before, l.Readable) → ExitInv fork before s ∧ LoopInv before s)
    (fun before s l s' h hl hstep hread => by
      rw [List.forall_mem_append] at hread
      obtain ⟨hex, hloop⟩ := h hread.1
      exact ⟨hex.step hl hstep, hloop.step (readings_pos hread.1) hstep⟩)
    (fun _ => ⟨.supervise hfork, .supervise fork⟩) hok ht
  exact hinv hread

/-- The iterations that end the loop are the right ones. -/
def EndsInTime (impl : Impl) (s₀ : State) (ls : List Label) : Prop :=
  ∀ before l after s s', ls = before ++ l :: after → exec (step impl) s₀ before = some s →
    step impl s l = some s' → (LeavesLoop s s' ↔ ExitRecorded s ∧ WaitOver before l)

/-- A reaper that has ended has the outcome of the main child. -/
def EndsWithOutcome (fork : ℤ) (ls : List Label) (t : State) : Prop :=
  ∀ code, t.pc = .exited code → ∃ status, mainExit fork ls = some status ∧ code = exitCode status ∧
    ∀ o : ChildOutcome, status = o.waitStatus → code = o.code

/-- **The end of the supervision.**  After a successful `fork`, for either build and any run in
which `/proc` and the clock can be read: as long as `sigchld_handler` takes no other process for the
main child, an iteration ends the loop exactly when the exit of the main child is recorded and
either no other process is listed or a minute has passed since the first iteration after the
record, and the exit status is then the outcome of the main child. -/
theorem supervision_ends (impl : Impl) (argc : ℕ) (prctl fork : ℤ) (hfork : 0 < fork) (s t : State)
    (hs : boot impl argc prctl fork = .ok s) (ls : List Label) (hread : ∀ l ∈ ls, l.Readable)
    (ht : exec (step impl) s ls = some t) (hok : StepsMeet (step impl) NoImpostor s ls) :
    EndsInTime impl s ls ∧ EndsWithOutcome fork ls t := by
  have hs := boot_ok hs
  subst hs
  constructor
  · rintro before l after s s' rfl hbefore hstep
    rw [List.forall_mem_append, List.forall_mem_cons] at hread
    obtain ⟨hex, hloop⟩ := inv_of_run hfork hread.1 hok.prefix hbefore
    exact leavesLoop_iff hex hloop hread.2.1 hstep
  · intro code hpc
    obtain ⟨hex, hloop⟩ := inv_of_run hfork hread hok ht
    have hexited : t.childExited = true := by
      by_contra hexited
      have hactive := (hloop.active (Bool.not_eq_true _ ▸ hexited)).1
      rw [hpc] at hactive
      exact hactive
    have hcode := hloop.exited code hpc
    refine ⟨t.mainStatus, hex.reaped _ (hex.recorded hexited).2, hcode, ?_⟩
    intro o ho
    rw [hcode, ho, exitCode_waitStatus]

/-- The main child ends with status 1, and so does the reaper. -/
theorem supervision_ends_exit :
    EndsInTime .gnu (supervise 7) exitRun ∧
      ∃ t, exec (step .gnu) (supervise 7) exitRun = some t ∧ t.pc = .exited 1 ∧
        EndsWithOutcome 7 exitRun t := by
  have hrun : (exec (step .gnu) (supervise 7) exitRun).isSome := by decide +kernel
  obtain ⟨t, ht⟩ := Option.isSome_iff_exists.1 hrun
  have hread : ∀ l ∈ exitRun, l.Readable := by
    simp [exitRun, Label.Readable, initView]
  have hends := supervision_ends .gnu 2 0 7 (by decide) (supervise 7) t rfl exitRun hread ht
    (by decide +kernel)
  have hpc : (exec (step .gnu) (supervise 7) exitRun).map State.pc = some (.exited 1) := by
    decide +kernel
  rw [ht] at hpc
  exact ⟨hends.1, t, ht, Option.some.inj hpc, hends.2⟩

/-- `drain_zombies` reaps the main child, which has exited with status 0. -/
def reapedRun : List Label :=
  [.run, .arrive SIGTERM, .deliver SIGTERM, .handler, .handler, .exit 7 0, .wait 7, .noZombie]

/-- A later process has its pid, and exits with status 2 while `sigsuspend` waits. -/
def impostorRun : List Label :=
  reapedRun ++ .adopt 7 :: [.run, .scan initView initView, .run, .run, .deliver SIGCHLD,
    .exit 7 512, .wait 7, .noZombie, .noZombie, .run, .run, .run, .clock 1, .noZombie,
    .count initView, .noZombie]

/-- **Another process's outcome.**  The pid of the main child is given out again outside
`sigsuspend`, `sigchld_handler` takes the process that has it for the main child, and the reaper
ends with 2 where the main child has ended with 0. -/
theorem impostor_exit_code :
    (exec (step .gnu) (supervise 7) reapedRun).map (fun t => (t.pc, t.mainReaped)) =
        some (.handlePending .active, some 0) ∧
      (exec (step .gnu) (supervise 7) impostorRun).map State.pc = some (.exited 2) ∧
      (exec (step .asm) (supervise 7) impostorRun).map State.pc = some (.exited 2) ∧
      mainExit 7 impostorRun = some 0 ∧ exitCode 0 = 0 := by
  decide +kernel

end Reaper

end TuxDock
