import TuxDock.Lib.Descriptors
import TuxDock.Text.Bytes

/-!
# Running a process

`ProcessRunner::run` as a transition system: the parent's side of a call, step by step, next to
other threads of the program that open and close descriptors of their own.  What the system calls
answer is in the labels.

The descriptors of the program are one table for all its threads (`State.fds`).  `pipe` and the
opens of other threads get numbers that are free at that moment, and a number is free again as soon
as somebody has closed it.

* `step` : one step;
* `Step`, `step_cases` : the steps by name, with their guards and effects.
-/

namespace TuxDock

namespace Process

open Descriptors

/-- `EINTR`. -/
def EINTR : ℕ := 4

/-- `ProcessResult`. -/
structure ProcessResult where
  exitCode : ℤ := -1
  signaled : Bool := false
  signal : ℤ := 0
  stdoutText : Bytes := []
  stderrText : Bytes := []
  deriving Repr, DecidableEq

/-- `ok`. -/
def ProcessResult.ok (r : ProcessResult) : Bool := !r.signaled && r.exitCode == 0

/-- `ProcessOptions`. -/
structure ProcessOptions where
  captureStdout : Bool := true
  captureStderr : Bool := true
  inheritStdio : Bool := false
  deriving Repr, DecidableEq

/-- `Pipe`, with `none` for the value `-1`. -/
structure Pipe where
  read : Option ℕ := none
  write : Option ℕ := none
  deriving Repr, DecidableEq

/-- An entry of `poll_fds`; `ready` when `revents` has `POLLIN` or `POLLHUP`. -/
structure PollFd where
  fd : ℕ
  ready : Bool
  deriving Repr, DecidableEq

/-- What the parent does next. -/
inductive Pc where
  | start
  | stdoutPipe
  | stderrPipe
  | fork
  | closeStdoutWrite
  | closeStderrWrite
  | poll
  /-- The inner loop, at entry `i`. -/
  | scan (i : ℕ)
  | waitpid
  /-- The destructors of the pipes, with the descriptors they still have to close. -/
  | unwind (todo : List ℕ)
  | returned
  deriving Repr, DecidableEq

/-- The locals of `run`, and the descriptors of the program. -/
structure State where
  pc : Pc
  args : List Bytes
  options : ProcessOptions
  stdoutPipe : Pipe
  stderrPipe : Pipe
  /-- The first `active` entries of `poll_fds`. -/
  polls : List PollFd
  result : ProcessResult
  fds : Table

namespace State

variable (s : State)

/-- `close(fd)`. -/
def close (fd : ℕ) : State := { s with fds := s.fds.close fd }

/-- The descriptor is closed, if there is one. -/
def closeOpt : Option ℕ → State
  | none => s
  | some fd => s.close fd

/-- The descriptors the destructors would close now; the last pipe is destroyed first. -/
def ends : List ℕ :=
  s.stderrPipe.read.toList ++ s.stderrPipe.write.toList ++
    (s.stdoutPipe.read.toList ++ s.stdoutPipe.write.toList)

/-- The return of `run` with the pipes constructed. -/
def leave (result : ProcessResult) : State := { s with result, pc := .unwind s.ends }

/-- `pipe` has answered two free descriptors. -/
def piped (r w : ℕ) : State := { s with fds := (s.fds.opened w .self).opened r .self }

/-- The pollfds of the streams that are captured. -/
def setupPolls : List PollFd :=
  (s.stdoutPipe.read.toList ++ s.stderrPipe.read.toList).map (⟨·, false⟩)

/-- The loops go on, or end when no descriptor is active. -/
def afterScan : Pc := if s.polls = [] then .waitpid else .poll

/-- Bytes have been read from an entry of `poll_fds`. -/
def appended (fd : ℕ) (bytes : Bytes) : ProcessResult :=
  if s.stdoutPipe.read = some fd then
    { s.result with stdoutText := s.result.stdoutText ++ bytes }
  else { s.result with stderrText := s.result.stderrText ++ bytes }

end State

/-- `poll_fds[i] = poll_fds[--active]`. -/
def swapRemove (polls : List PollFd) (i : ℕ) : List PollFd :=
  match polls.getLast? with
  | none => []
  | some last => (polls.set i last).dropLast

/-- The outcome of the child in the result. -/
def ProcessResult.reaped (r : ProcessResult) (status : ℕ) : ProcessResult :=
  if status &&& 0x7f = 0 then { r with exitCode := ((status >>> 8) &&& 0xff : ℕ) }
  else if status &&& 0x7f ≠ 0x7f then
    { r with signaled := true, signal := (status &&& 0x7f : ℕ) }
  else r

/-! ### Steps -/

/-- What happens next; a failed system call answers a value of `errno`. -/
inductive Label where
  | run
  | pipe (answer : Except ℕ (ℕ × ℕ))
  | fork (answer : Except ℕ Unit)
  /-- `poll` fails, or tells for each entry whether it is ready. -/
  | poll (answer : Except ℕ (List Bool))
  | read (answer : Except ℕ Bytes)
  | waitpid (answer : Except ℕ ℕ)
  /-- Another thread opens a descriptor, or closes one it has opened. -/
  | otherOpen (fd : ℕ)
  | otherClose (fd : ℕ)
  deriving Repr, DecidableEq

variable (strerror : ℕ → Bytes)

/-- The call of `pipe` in the block for one stream; `set` stores the two ends. -/
def stepPipe (s : State) (captured : Bool) (next : Pc) (set : State → Pipe → State) :
    Label → Option State
  | .run => if captured then none else some { s with pc := next }
  | .pipe (.error e) =>
    if captured then some (s.leave { s.result with stderrText := strerror e }) else none
  | .pipe (.ok (r, w)) =>
    if captured ∧ r ≠ w ∧ s.fds.holder r = none ∧ s.fds.holder w = none then
      some (set { s.piped r w with pc := next } ⟨some r, some w⟩)
    else none
  | _ => none

/-- The inner loop at entry `i`: an entry that is ready is read. -/
def stepScan (s : State) (i : ℕ) : Label → Option State
  | .run =>
    match s.polls[i]? with
    | none => some { s with pc := s.afterScan }
    | some p => if p.ready then none else some { s with pc := .scan (i + 1) }
  | .read answer =>
    match s.polls[i]? with
    | none => none
    | some p =>
      if p.ready then
        match answer with
        | .ok (b :: bytes) =>
          some { s with result := s.appended p.fd (b :: bytes), pc := .scan (i + 1) }
        -- the field of the pipe keeps the number
        | _ => some { s.close p.fd with polls := swapRemove s.polls i }
      else none
  | _ => none

/-- A step of the call. -/
def stepCall (s : State) (l : Label) : Option State :=
  match s.pc with
  | .start =>
    match l with
    | .run =>
      if s.args = [] then
        some { s with
          result := { s.result with stderrText := lit "No executable specified." }
          pc := .returned }
      else some { s with pc := .stdoutPipe }
    | _ => none
  | .stdoutPipe =>
    stepPipe strerror s (!s.options.inheritStdio && s.options.captureStdout) .stderrPipe
      (fun s p => { s with stdoutPipe := p }) l
  | .stderrPipe =>
    stepPipe strerror s (!s.options.inheritStdio && s.options.captureStderr) .fork
      (fun s p => { s with stderrPipe := p }) l
  | .fork =>
    match l with
    | .fork (.error e) => some (s.leave { s.result with stderrText := strerror e })
    | .fork (.ok ()) => some { s with pc := .closeStdoutWrite }
    | _ => none
  | .closeStdoutWrite =>
    match l with
    | .run =>
      some { s.closeOpt s.stdoutPipe.write with
        stdoutPipe := { s.stdoutPipe with write := none }
        pc := .closeStderrWrite }
    | _ => none
  | .closeStderrWrite =>
    match l with
    | .run =>
      some { s.closeOpt s.stderrPipe.write with
        stderrPipe := { s.stderrPipe with write := none }
        polls := s.setupPolls
        pc := if s.setupPolls = [] then .waitpid else .poll }
    | _ => none
  | .poll =>
    match l with
    -- `break` on any other error, with the streams still open
    | .poll (.error e) => some { s with pc := if e = EINTR then .poll else .waitpid }
    | .poll (.ok ready) =>
      if ready.length = s.polls.length then
        some { s with
          polls := (s.polls.zip ready).map fun (p, r) => { p with ready := r }
          pc := .scan 0 }
      else none
    | _ => none
  | .scan i => stepScan s i l
  | .waitpid =>
    match l with
    | .waitpid (.error e) => some (s.leave { s.result with stderrText := strerror e })
    | .waitpid (.ok status) => some (s.leave (s.result.reaped status))
    | _ => none
  | .unwind todo =>
    match l, todo with
    | .run, [] => some { s with pc := .returned }
    | .run, fd :: todo => some { s.close fd with pc := .unwind todo }
    | _, _ => none
  | .returned => none

/-- A step of `run` or of another thread. -/
def step (s : State) : Label → Option State
  | .otherOpen fd =>
    if s.fds.holder fd = none then some { s with fds := s.fds.opened fd .other } else none
  | .otherClose fd =>
    if s.fds.holder fd = some .other then some { s with fds := s.fds.released fd } else none
  | l => stepCall strerror s l

/-- A call of `run` in a program whose other threads have some descriptors open. -/
def call (args : List Bytes) (options : ProcessOptions) (open_ : ℕ → Bool) : State where
  pc := .start
  args := args
  options := options
  stdoutPipe := {}
  stderrPipe := {}
  polls := []
  result := {}
  fds := ⟨fun fd => if open_ fd then some .other else none, [], []⟩

/-! ### The steps by name -/

/-- The steps of the system, with what each requires and does. -/
inductive Step (s : State) : Label → State → Prop where
  | otherOpen (fd : ℕ) (free : s.fds.holder fd = none) :
    Step s (.otherOpen fd) { s with fds := s.fds.opened fd .other }
  | otherClose (fd : ℕ) (held : s.fds.holder fd = some .other) :
    Step s (.otherClose fd) { s with fds := s.fds.released fd }
  | noArgs (pc : s.pc = .start) (args : s.args = []) :
    Step s .run { s with
      result := { s.result with stderrText := lit "No executable specified." }
      pc := .returned }
  | begin (pc : s.pc = .start) (args : s.args ≠ []) : Step s .run { s with pc := .stdoutPipe }
  | noStdout (pc : s.pc = .stdoutPipe) : Step s .run { s with pc := .stderrPipe }
  | noStderr (pc : s.pc = .stderrPipe) : Step s .run { s with pc := .fork }
  | stdoutPipe (r w : ℕ) (pc : s.pc = .stdoutPipe) (ne : r ≠ w) (freeRead : s.fds.holder r = none)
      (freeWrite : s.fds.holder w = none) :
    Step s (.pipe (.ok (r, w)))
      { s.piped r w with pc := .stderrPipe, stdoutPipe := ⟨some r, some w⟩ }
  | stderrPipe (r w : ℕ) (pc : s.pc = .stderrPipe) (ne : r ≠ w) (freeRead : s.fds.holder r = none)
      (freeWrite : s.fds.holder w = none) :
    Step s (.pipe (.ok (r, w))) { s.piped r w with pc := .fork, stderrPipe := ⟨some r, some w⟩ }
  | pipeFailed (e : ℕ) (pc : s.pc = .stdoutPipe ∨ s.pc = .stderrPipe) :
    Step s (.pipe (.error e)) (s.leave { s.result with stderrText := strerror e })
  | forkFailed (e : ℕ) (pc : s.pc = .fork) :
    Step s (.fork (.error e)) (s.leave { s.result with stderrText := strerror e })
  | forked (pc : s.pc = .fork) : Step s (.fork (.ok ())) { s with pc := .closeStdoutWrite }
  | closeStdoutWrite (pc : s.pc = .closeStdoutWrite) :
    Step s .run { s.closeOpt s.stdoutPipe.write with
      stdoutPipe := { s.stdoutPipe with write := none }
      pc := .closeStderrWrite }
  | closeStderrWrite (pc : s.pc = .closeStderrWrite) :
    Step s .run { s.closeOpt s.stderrPipe.write with
      stderrPipe := { s.stderrPipe with write := none }
      polls := s.setupPolls
      pc := if s.setupPolls = [] then .waitpid else .poll }
  | pollFailed (e : ℕ) (pc : s.pc = .poll) :
    Step s (.poll (.error e)) { s with pc := if e = EINTR then .poll else .waitpid }
  | polled (ready : List Bool) (pc : s.pc = .poll) (length : ready.length = s.polls.length) :
    Step s (.poll (.ok ready)) { s with
      polls := (s.polls.zip ready).map fun (p, r) => { p with ready := r }
      pc := .scan 0 }
  | scanEnd (i : ℕ) (pc : s.pc = .scan i) (none : s.polls[i]? = none) :
    Step s .run { s with pc := s.afterScan }
  | skip (i : ℕ) (p : PollFd) (pc : s.pc = .scan i) (entry : s.polls[i]? = some p)
      (ready : p.ready = false) : Step s .run { s with pc := .scan (i + 1) }
  | readBytes (i : ℕ) (p : PollFd) (b : UInt8) (bytes : Bytes) (pc : s.pc = .scan i)
      (entry : s.polls[i]? = some p) (ready : p.ready = true) :
    Step s (.read (.ok (b :: bytes)))
      { s with result := s.appended p.fd (b :: bytes), pc := .scan (i + 1) }
  | readEnd (i : ℕ) (p : PollFd) (answer : Except ℕ Bytes) (pc : s.pc = .scan i)
      (entry : s.polls[i]? = some p) (ready : p.ready = true)
      (ends : ∀ b bytes, answer ≠ .ok (b :: bytes)) :
    Step s (.read answer) { s.close p.fd with polls := swapRemove s.polls i }
  | waitFailed (e : ℕ) (pc : s.pc = .waitpid) :
    Step s (.waitpid (.error e)) (s.leave { s.result with stderrText := strerror e })
  | waited (status : ℕ) (pc : s.pc = .waitpid) :
    Step s (.waitpid (.ok status)) (s.leave (s.result.reaped status))
  | unwound (pc : s.pc = .unwind []) : Step s .run { s with pc := .returned }
  | unwind (fd : ℕ) (todo : List ℕ) (pc : s.pc = .unwind (fd :: todo)) :
    Step s .run { s.close fd with pc := .unwind todo }

variable {strerror}

theorem stepPipe_cases {s s' : State} {captured : Bool} {next : Pc} {set : State → Pipe → State}
    {l : Label} (h : stepPipe strerror s captured next set l = some s') :
    (l = .run ∧ s' = { s with pc := next }) ∨
    (∃ e, l = .pipe (.error e) ∧ s' = s.leave { s.result with stderrText := strerror e }) ∨
    ∃ r w, l = .pipe (.ok (r, w)) ∧ r ≠ w ∧ s.fds.holder r = none ∧ s.fds.holder w = none ∧
      s' = set { s.piped r w with pc := next } ⟨some r, some w⟩ := by
  unfold stepPipe at h
  split at h
  · split_ifs at h
    exact Or.inl ⟨rfl, (Option.some.inj h).symm⟩
  · split_ifs at h
    exact Or.inr (Or.inl ⟨_, rfl, (Option.some.inj h).symm⟩)
  · split_ifs at h with hguard
    obtain ⟨-, hne, hr, hw⟩ := hguard
    exact Or.inr (Or.inr ⟨_, _, rfl, hne, hr, hw, (Option.some.inj h).symm⟩)
  · cases h

theorem stepScan_cases {s s' : State} {i : ℕ} (pc : s.pc = .scan i) {l : Label}
    (h : stepScan s i l = some s') : Step strerror s l s' := by
  unfold stepScan at h
  split at h
  · split at h
    · rename_i hnone
      cases h
      exact .scanEnd i pc hnone
    · rename_i p hp
      split_ifs at h with hready
      cases h
      exact .skip i p pc hp (by simpa using hready)
  · split at h
    · cases h
    · rename_i p hp
      split_ifs at h with hready
      split at h
      · rename_i b bytes
        cases h
        exact .readBytes i p b bytes pc hp hready
      · rename_i hends
        cases h
        exact .readEnd i p _ pc hp hready hends
  · cases h

/-- **Every step is one of these.** -/
theorem step_cases {s s' : State} {l : Label} (h : step strerror s l = some s') :
    Step strerror s l s' := by
  unfold step at h
  split at h
  · rename_i fd
    split_ifs at h with hfree
    cases h
    exact .otherOpen fd hfree
  · rename_i fd
    split_ifs at h with hheld
    cases h
    exact .otherClose fd hheld
  · unfold stepCall at h
    split at h
    · rename_i pc
      split at h
      · split_ifs at h with hargs <;> cases h
        · exact .noArgs pc hargs
        · exact .begin pc hargs
      · cases h
    · rename_i pc
      rcases stepPipe_cases h with ⟨rfl, rfl⟩ | ⟨e, rfl, rfl⟩ | ⟨r, w, rfl, hne, hr, hw, rfl⟩
      · exact .noStdout pc
      · exact .pipeFailed e (Or.inl pc)
      · exact .stdoutPipe r w pc hne hr hw
    · rename_i pc
      rcases stepPipe_cases h with ⟨rfl, rfl⟩ | ⟨e, rfl, rfl⟩ | ⟨r, w, rfl, hne, hr, hw, rfl⟩
      · exact .noStderr pc
      · exact .pipeFailed e (Or.inr pc)
      · exact .stderrPipe r w pc hne hr hw
    · rename_i pc
      split at h
      · cases h
        exact .forkFailed _ pc
      · cases h
        exact .forked pc
      · cases h
    · rename_i pc
      split at h
      · cases h
        exact .closeStdoutWrite pc
      · cases h
    · rename_i pc
      split at h
      · cases h
        exact .closeStderrWrite pc
      · cases h
    · rename_i pc
      split at h
      · cases h
        exact .pollFailed _ pc
      · split_ifs at h with hlength
        cases h
        exact .polled _ pc hlength
      · cases h
    · rename_i i pc
      exact stepScan_cases pc h
    · rename_i pc
      split at h
      · cases h
        exact .waitFailed _ pc
      · cases h
        exact .waited _ pc
      · cases h
    · rename_i todo pc
      split at h
      · cases h
        exact .unwound pc
      · cases h
        exact .unwind _ _ pc
      · cases h
    · cases h

end Process

end TuxDock
