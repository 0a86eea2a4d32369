import Mathlib.Data.Finset.Basic
import Mathlib.Data.Nat.Bitwise
import TuxDock.Reaper.Scan

/-!
# The supervision loop

`main` of the reaper from the call of `fork` on, as a transition system: the main loop, the signal
handlers and what the kernel does around them.  The two builds have the same loop; they differ in
the scans it makes and in what they do when `fork` fails (`boot`).

Signals.  The seven caught signals are blocked except inside `sigsuspend`, so a handler starts only
there.  Its own signal stays blocked while it runs, and the handler of another signal may run
between any two of its steps.  `sigsuspend` returns when the last running handler does.  A turn of
a `waitpid` loop is one step, with what the loop does about the child it reaps: no handler that
could run in between looks at the same variables.

Processes.  The children of the reaper are the main child and the orphans it adopts.  A pid is not
used again before its process has been reaped; after that it may be.

* `step` : one step, the label being what the environment decides;
* `Step`, `step_cases` : the steps by name, with their guards and effects.
-/

namespace TuxDock

namespace Reaper

/-- The signals whose handler is `proxy_signal_handler`. -/
def forwarded : List ℕ := [SIGTERM, SIGQUIT, SIGINT, SIGHUP, SIGUSR1, SIGUSR2]

/-- The signals in `block_mask`. -/
def blockMask : List ℕ := SIGCHLD :: forwarded

/-! ### States -/

/-- A child of the reaper; a zombie has a wait status. -/
structure Child where
  pid : ℕ
  main : Bool
  status : Option ℕ
  deriving Repr, DecidableEq

/-- A running signal handler. -/
inductive Frame where
  /-- `sigchld_handler`, before a call of `waitpid`. -/
  | chld
  /-- `proxy_signal_handler`, before or after reading `g_pending_signals`. -/
  | proxy (sig : ℕ) (seen : Option ℕ)
  deriving Repr, DecidableEq

/-- The handler of a signal, as it begins. -/
def Frame.start (sig : ℕ) : Frame := if sig = SIGCHLD then .chld else .proxy sig none

/-- The signal it handles. -/
def Frame.sig : Frame → ℕ
  | chld => SIGCHLD
  | proxy sig _ => sig

/-- The branches of the loop: the workload runs, or its descendants are waited for. -/
inductive Branch where
  | active
  | descendants
  deriving Repr, DecidableEq

/-- Where `drain_zombies` is called. -/
inductive Drain where
  | active
  /-- With the clock reading of the iteration. -/
  | descendants (now : ℤ)
  | final
  deriving Repr, DecidableEq

/-- What the main program does next. -/
inductive Pc where
  | loop
  | sigsuspend
  | monotonicMs
  | drainZombies (d : Drain)
  | countDescendants (now : ℤ)
  | usleep
  | handlePending (b : Branch)
  | broadcast (b : Branch) (todo : List ℕ)
  | exited (code : ℤ)
  deriving Repr, DecidableEq

/-- The reaper, its children, and the signals that wait. -/
structure State where
  pc : Pc
  /-- Running handlers, the innermost first. -/
  handlers : List Frame
  children : List Child
  /-- Signals that have arrived and wait to be delivered. -/
  pending : Finset ℕ
  mainChild : ℤ
  childExited : Bool
  mainStatus : ℕ
  /-- `g_pending_signals`, bit `sig - 1` for a signal. -/
  pendingSignals : ℕ
  childExitTime : ℤ
  /-- The signals broadcast so far, and the calls of `kill` they made. -/
  broadcasts : List ℕ
  kills : List (ℤ × ℕ)
  /-- The status a `waitpid` call has returned for the main child; no variable of the program. -/
  mainReaped : Option ℕ

namespace State

variable (s : State)

/-- A child exits, and the reaper is sent `SIGCHLD`. -/
def exited (pid status : ℕ) : State :=
  { s with
    children := s.children.map fun c =>
      if c.pid = pid then { c with status := some status } else c
    pending := insert SIGCHLD s.pending }

/-- An orphan becomes a child. -/
def adopted (pid : ℕ) : State := { s with children := s.children ++ [⟨pid, false, none⟩] }

/-- A signal arrives and waits. -/
def arrived (sig : ℕ) : State := { s with pending := insert sig s.pending }

/-- A signal is delivered: its handler begins. -/
def delivered (sig : ℕ) : State :=
  { s with pending := s.pending.erase sig, handlers := Frame.start sig :: s.handlers }

/-- `waitpid` returns the child `c`, a zombie with this status. -/
def reaped (c : Child) (status : ℕ) : State :=
  { s with
    children := s.children.filter (·.pid ≠ c.pid)
    mainReaped := if c.main then some status else s.mainReaped }

/-- What `sigchld_handler` does about a child it has reaped. -/
def recorded (pid status : ℕ) : State :=
  if (pid : ℤ) = s.mainChild then { s with childExited := true, mainStatus := status } else s

/-- The innermost handler returns to `rest`, and with the last one `sigsuspend` returns. -/
def returned (rest : List Frame) : State :=
  { s with handlers := rest, pc := if rest = [] then .drainZombies .active else s.pc }

end State

/-- `128 + sig` or the exit status, from a wait status. -/
def exitCode (status : ℕ) : ℤ :=
  if status &&& 0x7f = 0 then ((status >>> 8) &&& 0xff : ℕ)
  else if status &&& 0x7f ≠ 0x7f then 128 + (status &&& 0x7f : ℕ)
  else 0

/-- What follows `drain_zombies`. -/
def afterDrain (mainStatus : ℕ) : Drain → Pc
  | .active => .handlePending .active
  | .descendants now => .countDescendants now
  | .final => .exited (exitCode mainStatus)

/-- What follows `count_descendants`, with `DESCENDANT_TIMEOUT_SECONDS` of 60. -/
def afterCount (descendants : ℕ) (elapsed : ℤ) : Pc :=
  if descendants = 0 ∨ 60 * 1000 ≤ elapsed then .drainZombies .final else .usleep

/-- The signals `handle_pending_signals` finds in the bit mask, in its order. -/
def pendingList (pendingSignals : ℕ) : List ℕ :=
  (List.range' 1 31).filter fun sig => pendingSignals.testBit (sig - 1)

/-! ### Steps -/

/-- What happens next. -/
inductive Label where
  | exit (pid status : ℕ)
  | adopt (pid : ℕ)
  | arrive (sig : ℕ)
  | deliver (sig : ℕ)
  /-- A call of `waitpid` returns a child. -/
  | wait (pid : ℕ)
  /-- A call of `waitpid` finds no zombie. -/
  | noZombie
  /-- The innermost `proxy_signal_handler` goes on. -/
  | handler
  | clock (now : ℤ)
  | count (v : ProcView)
  /-- `broadcast_signal` makes its two scans. -/
  | scan (first second : ProcView)
  /-- The main program goes on. -/
  | run

/-- A step of the reaper, of a process or of a sender of signals. -/
def step (impl : Impl) (s : State) : Label → Option State
  | .exit pid status =>
    if ∃ c ∈ s.children, c.pid = pid ∧ c.status = none then some (s.exited pid status) else none
  -- a pid is given out again only after its process has been reaped
  | .adopt pid =>
    if 0 < pid ∧ ∀ c ∈ s.children, c.pid ≠ pid then some (s.adopted pid) else none
  | .arrive sig => if sig ∈ blockMask then some (s.arrived sig) else none
  | .deliver sig =>
    if s.pc = .sigsuspend ∧ sig ∈ s.pending ∧ sig ∉ s.handlers.map Frame.sig then
      some (s.delivered sig)
    else none
  | .wait pid =>
    match s.children.find? (·.pid = pid) with
    | none => none
    | some c =>
      match c.status, s.pc, s.handlers with
      -- the handler looks at the status, `drain_zombies` does not
      | some status, .sigsuspend, .chld :: _ => some ((s.reaped c status).recorded pid status)
      | some status, .drainZombies _, _ => some (s.reaped c status)
      | _, _, _ => none
  | .noZombie =>
    if ∀ c ∈ s.children, c.status = none then
      match s.pc, s.handlers with
      | .sigsuspend, .chld :: rest => some (s.returned rest)
      | .drainZombies d, _ => some { s with pc := afterDrain s.mainStatus d }
      | _, _ => none
    else none
  -- `g_pending_signals |= …` reads and writes, and another handler may run in between
  | .handler =>
    match s.handlers with
    | .proxy sig none :: rest =>
      some { s with handlers := .proxy sig (some s.pendingSignals) :: rest }
    | .proxy sig (some seen) :: rest =>
      some ({ s with pendingSignals := seen ||| 1 <<< (sig - 1) }.returned rest)
    | _ => none
  | .clock now =>
    match s.pc with
    | .monotonicMs =>
      -- zero stands for no reading yet
      some { s with
        childExitTime := if s.childExitTime = 0 then now else s.childExitTime
        pc := .drainZombies (.descendants now) }
    | _ => none
  | .count v =>
    match s.pc with
    | .countDescendants now =>
      some { s with pc := afterCount (countDescendants impl v) (now - s.childExitTime) }
    | _ => none
  | .scan first second =>
    match s.pc with
    | .broadcast b (sig :: todo) =>
      some { s with
        pc := .broadcast b todo
        broadcasts := s.broadcasts ++ [sig]
        kills := s.kills ++ procRemapSignal impl first sig (rulesFor sig) ++
          procRemapSignal impl second sig (rulesFor sig) }
    | _ => none
  | .run =>
    match s.pc with
    | .loop => some { s with pc := if s.childExited then .monotonicMs else .sigsuspend }
    | .usleep => some { s with pc := .handlePending .descendants }
    | .handlePending b =>
      some { s with pc := .broadcast b (pendingList s.pendingSignals), pendingSignals := 0 }
    | .broadcast _ [] => some { s with pc := .loop }
    | _ => none

/-- The state after `fork`; a negative `pid` is an error that went unnoticed. -/
def supervise (pid : ℤ) : State where
  pc := .loop
  handlers := []
  children := if 0 < pid then [⟨pid.toNat, true, none⟩] else []
  pending := ∅
  mainChild := pid
  childExited := false
  mainStatus := 0
  pendingSignals := 0
  childExitTime := 0
  broadcasts := []
  kills := []
  mainReaped := none

/-- `main` up to the loop: the exit status, or the state in which the loop starts. -/
def boot (impl : Impl) (argc : ℕ) (prctl fork : ℤ) : Except ℤ State :=
  if argc < 2 then .error 1
  else if prctl < 0 then .error 1
  else if impl = .gnu ∧ fork < 0 then .error 1
  else .ok (supervise fork)

theorem boot_ok {impl : Impl} {argc : ℕ} {prctl fork : ℤ} {s : State}
    (h : boot impl argc prctl fork = .ok s) : s = supervise fork := by
  unfold boot at h
  split_ifs at h
  exact (Except.ok.inj h).symm

/-! ### The steps by name -/

/-- The steps of the system, with what each requires and does. -/
inductive Step (impl : Impl) (s : State) : Label → State → Prop where
  | exit (c : Child) (hc : c ∈ s.children) (alive : c.status = none) (status : ℕ) :
    Step impl s (.exit c.pid status) (s.exited c.pid status)
  | adopt (pid : ℕ) (pos : 0 < pid) (free : ∀ c ∈ s.children, c.pid ≠ pid) :
    Step impl s (.adopt pid) (s.adopted pid)
  | arrive (sig : ℕ) (caught : sig ∈ blockMask) : Step impl s (.arrive sig) (s.arrived sig)
  | deliver (sig : ℕ) (pc : s.pc = .sigsuspend) (pending : sig ∈ s.pending)
      (unblocked : sig ∉ s.handlers.map Frame.sig) : Step impl s (.deliver sig) (s.delivered sig)
  | record (c : Child) (status : ℕ) (hc : c ∈ s.children) (zombie : c.status = some status)
      (pc : s.pc = .sigsuspend) (top : s.handlers.head? = some .chld) :
    Step impl s (.wait c.pid) ((s.reaped c status).recorded c.pid status)
  | discard (c : Child) (status : ℕ) (hc : c ∈ s.children) (zombie : c.status = some status)
      (d : Drain) (pc : s.pc = .drainZombies d) : Step impl s (.wait c.pid) (s.reaped c status)
  | chldReturn (rest : List Frame) (pc : s.pc = .sigsuspend) (top : s.handlers = .chld :: rest) :
    Step impl s .noZombie (s.returned rest)
  | drained (d : Drain) (pc : s.pc = .drainZombies d) :
    Step impl s .noZombie { s with pc := afterDrain s.mainStatus d }
  | proxyRead (sig : ℕ) (rest : List Frame) (top : s.handlers = .proxy sig none :: rest) :
    Step impl s .handler { s with handlers := .proxy sig (some s.pendingSignals) :: rest }
  | proxyWrite (sig seen : ℕ) (rest : List Frame)
      (top : s.handlers = .proxy sig (some seen) :: rest) :
    Step impl s .handler ({ s with pendingSignals := seen ||| 1 <<< (sig - 1) }.returned rest)
  | clock (now : ℤ) (pc : s.pc = .monotonicMs) :
    Step impl s (.clock now) { s with
      childExitTime := if s.childExitTime = 0 then now else s.childExitTime
      pc := .drainZombies (.descendants now) }
  | count (v : ProcView) (now : ℤ) (pc : s.pc = .countDescendants now) :
    Step impl s (.count v)
      { s with pc := afterCount (countDescendants impl v) (now - s.childExitTime) }
  | scan (first second : ProcView) (b : Branch) (sig : ℕ) (todo : List ℕ)
      (pc : s.pc = .broadcast b (sig :: todo)) :
    Step impl s (.scan first second) { s with
      pc := .broadcast b todo
      broadcasts := s.broadcasts ++ [sig]
      kills := s.kills ++ procRemapSignal impl first sig (rulesFor sig) ++
        procRemapSignal impl second sig (rulesFor sig) }
  | loop (pc : s.pc = .loop) :
    Step impl s .run { s with pc := if s.childExited then .monotonicMs else .sigsuspend }
  | slept (pc : s.pc = .usleep) : Step impl s .run { s with pc := .handlePending .descendants }
  | take (b : Branch) (pc : s.pc = .handlePending b) :
    Step impl s .run
      { s with pc := .broadcast b (pendingList s.pendingSignals), pendingSignals := 0 }
  | handled (b : Branch) (pc : s.pc = .broadcast b []) : Step impl s .run { s with pc := .loop }

/-- **Every step is one of these.** -/
theorem step_cases {impl : Impl} {s s' : State} {l : Label} (h : step impl s l = some s') :
    Step impl s l s' := by
  cases l with
  | exit pid status =>
    obtain ⟨⟨c, hc, rfl, halive⟩, ⟨⟩⟩ := Option.ite_none_right_eq_some.1 h
    exact .exit c hc halive status
  | adopt pid =>
    obtain ⟨⟨hpos, hfree⟩, ⟨⟩⟩ := Option.ite_none_right_eq_some.1 h
    exact .adopt pid hpos hfree
  | arrive sig =>
    obtain ⟨hcaught, ⟨⟩⟩ := Option.ite_none_right_eq_some.1 h
    exact .arrive sig hcaught
  | deliver sig =>
    obtain ⟨⟨hpc, hpending, hblocked⟩, ⟨⟩⟩ := Option.ite_none_right_eq_some.1 h
    exact .deliver sig hpc hpending hblocked
  | wait pid =>
    rw [step] at h
    split at h
    · cases h
    · rename_i c hfind
      have hc := List.mem_of_find?_eq_some hfind
      obtain rfl : c.pid = pid := by simpa using List.find?_some hfind
      split at h
      · rename_i status _ hstatus hpc htop
        cases h
        exact .record c status hc hstatus hpc (by rw [htop]; rfl)
      · rename_i status d hstatus hpc
        cases h
        exact .discard c status hc hstatus d hpc
      · cases h
  | noZombie =>
    obtain ⟨-, h⟩ := Option.ite_none_right_eq_some.1 h
    split at h
    · rename_i rest hpc htop
      cases h
      exact .chldReturn rest hpc htop
    · rename_i d hpc
      cases h
      exact .drained d hpc
    · cases h
  | handler =>
    rw [step] at h
    split at h
    · rename_i sig rest htop
      cases h
      exact .proxyRead sig rest htop
    · rename_i sig seen rest htop
      cases h
      exact .proxyWrite sig seen rest htop
    · cases h
  | clock now =>
    rw [step] at h
    split at h
    · rename_i hpc
      cases h
      exact .clock now hpc
    · cases h
  | count v =>
    rw [step] at h
    split at h
    · rename_i now hpc
      cases h
      exact .count v now hpc
    · cases h
  | scan first second =>
    rw [step] at h
    split at h
    · rename_i b sig todo hpc
      cases h
      exact .scan first second b sig todo hpc
    · cases h
  | run =>
    rw [step] at h
    split at h
    · rename_i hpc
      cases h
      exact .loop hpc
    · rename_i hpc
      cases h
      exact .slept hpc
    · rename_i b hpc
      cases h
      exact .take b hpc
    · rename_i b hpc
      cases h
      exact .handled b hpc
    · cases h

end Reaper

end TuxDock
