import TuxDock.Process.Close

/-!
# The child of a call

What `ProcessRunner::run` does in the child between `fork` and `execvp`: the write ends of the pipes
become the standard streams, and the four numbers of the pipes are closed.

* `child` : the child's side, on its table of descriptors;
* `PipesInv` : before `fork` there is a pipe for each stream that is captured, and no descriptor
  that was open before is one of its ends;
* `child_streams_iff` : **the program is started with the captured streams on the pipes, and with no
  other end of one open, exactly when no pipe has got the number of a stream that is captured**; it
  has none if the streams of the parent are open and stay so.
-/

namespace TuxDock

namespace Process

open Descriptors Transition

/-- What a descriptor refers to. -/
inductive File where
  | stdoutRead
  | stdoutWrite
  | stderrRead
  | stderrWrite
  | other (n : ℕ)
  deriving Repr, DecidableEq

/-- The descriptors of a process. -/
abbrev Files := ℕ → Option File

/-- `dup2`. -/
def Files.dup2 (t : Files) (old new : ℕ) : Files := Function.update t new (t old)

/-- `close`. -/
def Files.close (t : Files) (fd : ℕ) : Files := Function.update t fd none

namespace ProcessOptions

variable (o : ProcessOptions)

/-- The output is read from a pipe. -/
def capturesStdout : Bool := !o.inheritStdio && o.captureStdout

/-- So are the errors. -/
def capturesStderr : Bool := !o.inheritStdio && o.captureStderr

end ProcessOptions

/-- One stream of the child; it exits with 127 if `dup2` fails. -/
def childStream (captured : Bool) (write : Option ℕ) (stream : ℕ) (fails : Bool) (t : Files) :
    Except ℤ Files :=
  if captured then
    match write with
    | none => .error 127
    | some fd => if fails then .error 127 else .ok (t.dup2 fd stream)
  else .ok t

/-- The child's side of `run`: the descriptors that `execvp` passes on. -/
def child (o : ProcessOptions) (stdoutPipe stderrPipe : Pipe) (stdoutFails stderrFails : Bool)
    (t : Files) : Except ℤ Files := do
  let t ← childStream o.capturesStdout stdoutPipe.write 1 stdoutFails t
  let t ← childStream o.capturesStderr stderrPipe.write 2 stderrFails t
  let ends := stdoutPipe.read.toList ++ stdoutPipe.write.toList ++ stderrPipe.read.toList ++
    stderrPipe.write.toList
  return ends.foldl Files.close t

/-! ### Before the fork -/

/-- A pipe for a stream, if it is captured. -/
def PipeFor (captured : Bool) (p : Pipe) : Prop :=
  if captured then ∃ r w, p = ⟨some r, some w⟩ else p = {}

/-- The pipes before `fork`. -/
def PipesInv (s : State) : Prop :=
  match s.pc with
  | .start | .stdoutPipe => s.stdoutPipe = {} ∧ s.stderrPipe = {}
  | .stderrPipe => PipeFor s.options.capturesStdout s.stdoutPipe ∧ s.stderrPipe = {}
  | .fork => PipeFor s.options.capturesStdout s.stdoutPipe ∧
      PipeFor s.options.capturesStderr s.stderrPipe
  | _ => True

variable {strerror : ℕ → Bytes} {s s' : State} {l : Label}

/-- The places up to `fork`. -/
def Pc.BeforeFork : Pc → Prop
  | .start | .stdoutPipe | .stderrPipe | .fork => True
  | _ => False

theorem pipesInv_of_later (h : ¬ s.pc.BeforeFork) : PipesInv s := by
  unfold PipesInv
  split <;> first | trivial | (rename_i hpc; exact absurd (by rw [hpc]; trivial) h)

/-- A pipe is left out only for a stream that is not captured, and made only for one that is. -/
theorem captured_of_stepPipe {captured : Bool} {next : Pc} {set : State → Pipe → State}
    (h : stepPipe strerror s captured next set l = some s') :
    (l = .run → captured = false) ∧ ∀ r w, l = .pipe (.ok (r, w)) → captured = true := by
  refine ⟨?_, ?_⟩
  · rintro rfl
    simp only [stepPipe] at h
    split_ifs at h with hcaptured
    exact Bool.not_eq_true _ ▸ hcaptured
  · rintro r w rfl
    obtain ⟨⟨hcaptured, -⟩, -⟩ := Option.ite_none_right_eq_some.1 h
    exact hcaptured

theorem stepCall_of_step (hl : ∀ fd, l ≠ .otherOpen fd ∧ l ≠ .otherClose fd)
    (h : step strerror s l = some s') : stepCall strerror s l = some s' := by
  unfold step at h
  split at h
  · exact absurd rfl (hl _).1
  · exact absurd rfl (hl _).2
  · exact h

theorem captured_stdout (pc : s.pc = .stdoutPipe)
    (hl : ∀ fd, l ≠ .otherOpen fd ∧ l ≠ .otherClose fd) (h : step strerror s l = some s') :
    (l = .run → s.options.capturesStdout = false) ∧
      ∀ r w, l = .pipe (.ok (r, w)) → s.options.capturesStdout = true := by
  have hcall := stepCall_of_step hl h
  simp only [stepCall, pc] at hcall
  exact captured_of_stepPipe hcall

theorem captured_stderr (pc : s.pc = .stderrPipe)
    (hl : ∀ fd, l ≠ .otherOpen fd ∧ l ≠ .otherClose fd) (h : step strerror s l = some s') :
    (l = .run → s.options.capturesStderr = false) ∧
      ∀ r w, l = .pipe (.ok (r, w)) → s.options.capturesStderr = true := by
  have hcall := stepCall_of_step hl h
  simp only [stepCall, pc] at hcall
  exact captured_of_stepPipe hcall

theorem PipesInv.step (h : PipesInv s) (hstep : Process.step strerror s l = some s') :
    PipesInv s' := by
  cases step_cases hstep with
  | otherOpen | otherClose => exact h
  | begin pc args =>
    rw [PipesInv, pc] at h
    exact h
  | noStdout pc =>
    rw [PipesInv, pc] at h
    have hcaptured := (captured_stdout pc (by simp) hstep).1 rfl
    exact ⟨by simp [PipeFor, hcaptured, h.1], h.2⟩
  | noStderr pc =>
    rw [PipesInv, pc] at h
    have hcaptured := (captured_stderr pc (by simp) hstep).1 rfl
    exact ⟨h.1, by simp [PipeFor, hcaptured, h.2]⟩
  | stdoutPipe r w pc ne freeRead freeWrite =>
    rw [PipesInv, pc] at h
    have hcaptured := (captured_stdout pc (by simp) hstep).2 r w rfl
    exact ⟨by simp [PipeFor, State.piped, hcaptured], h.2⟩
  | stderrPipe r w pc ne freeRead freeWrite =>
    rw [PipesInv, pc] at h
    have hcaptured := (captured_stderr pc (by simp) hstep).2 r w rfl
    exact ⟨h.1, by simp [PipeFor, State.piped, hcaptured]⟩
  | closeStderrWrite pc | pollFailed e pc =>
    refine pipesInv_of_later ?_
    dsimp only
    split_ifs <;> exact id
  | scanEnd i pc none =>
    refine pipesInv_of_later ?_
    dsimp only [State.afterScan]
    split_ifs <;> exact id
  | readEnd i p answer pc entry ready ends =>
    refine pipesInv_of_later ?_
    dsimp only [State.close]
    rw [pc]
    exact id
  | _ => trivial

/-- A descriptor that is open before the call, and that no other thread closes, stays open up to
`fork`. -/
theorem held_step {fd : ℕ} (h : s.pc.BeforeFork → s.fds.holder fd = some .other)
    (hl : l ≠ .otherClose fd) (hstep : step strerror s l = some s') :
    s'.pc.BeforeFork → s'.fds.holder fd = some .other := by
  cases step_cases hstep with
  | otherOpen fd' free =>
    intro hpc
    have hne : fd ≠ fd' := by
      rintro rfl
      rw [h hpc] at free
      cases free
    exact (Function.update_of_ne hne _ _).trans (h hpc)
  | otherClose fd' held =>
    intro hpc
    have hne : fd ≠ fd' := by
      rintro rfl
      exact hl rfl
    exact (Function.update_of_ne hne _ _).trans (h hpc)
  | begin pc args | noStdout pc | noStderr pc => exact fun _ => h (by rw [pc]; trivial)
  | stdoutPipe r w pc ne freeRead freeWrite | stderrPipe r w pc ne freeRead freeWrite =>
    intro _
    have hheld := h (by rw [pc]; trivial)
    have hr : fd ≠ r := by
      rintro rfl
      rw [hheld] at freeRead
      cases freeRead
    have hw : fd ≠ w := by
      rintro rfl
      rw [hheld] at freeWrite
      cases freeWrite
    exact (Function.update_of_ne hr _ _).trans ((Function.update_of_ne hw _ _).trans hheld)
  | closeStderrWrite pc | pollFailed e pc =>
    dsimp only
    split_ifs <;> exact False.elim
  | scanEnd i pc none =>
    dsimp only [State.afterScan]
    split_ifs <;> exact False.elim
  | readEnd i p answer pc entry ready ends =>
    dsimp only [State.close]
    rw [pc]
    exact False.elim
  | _ => exact False.elim

/-! ### The child's descriptors -/

/-- The table at the time of `fork`: the four numbers of the pipes are their ends, and no other
is. -/
structure Piped (s : State) (t : Files) : Prop where
  stdoutRead : ∀ fd, t fd = some .stdoutRead ↔ s.stdoutPipe.read = some fd
  stdoutWrite : ∀ fd, t fd = some .stdoutWrite ↔ s.stdoutPipe.write = some fd
  stderrRead : ∀ fd, t fd = some .stderrRead ↔ s.stderrPipe.read = some fd
  stderrWrite : ∀ fd, t fd = some .stderrWrite ↔ s.stderrPipe.write = some fd

/-- What the program is to be started with: the captured streams are the write ends of the pipes, no
other end is open, and the rest is inherited. -/
def wanted (s : State) (t : Files) : Files := fun fd =>
  if s.options.capturesStdout = true ∧ fd = 1 then some .stdoutWrite
  else if s.options.capturesStderr = true ∧ fd = 2 then some .stderrWrite
  else if fd ∈ s.ends then none
  else t fd

/-- No pipe has the number of a stream that is captured. -/
def StreamsFree (s : State) : Prop :=
  (s.options.capturesStdout = true → 1 ∉ s.ends) ∧ (s.options.capturesStderr = true → 2 ∉ s.ends)

theorem foldl_close (fds : List ℕ) (t : Files) (fd : ℕ) :
    fds.foldl Files.close t fd = if fd ∈ fds then none else t fd := by
  induction fds generalizing t with
  | nil => simp
  | cons a fds ih =>
    rw [List.foldl_cons, ih, Files.close]
    by_cases hmem : fd ∈ fds
    · simp [hmem]
    · by_cases ha : fd = a
      · simp [ha]
      · simp [hmem, ha]

theorem childStream_eq {captured : Bool} {p : Pipe} (h : PipeFor captured p) (stream : ℕ)
    (t : Files) : ∃ t', childStream captured p.write stream false t = .ok t' ∧
      ∀ fd, t' fd = if captured = true ∧ fd = stream then p.write.bind t else t fd := by
  cases captured with
  | false => exact ⟨t, rfl, by simp⟩
  | true =>
    obtain ⟨r, w, rfl⟩ : ∃ r w, p = ⟨some r, some w⟩ := h
    refine ⟨t.dup2 w stream, rfl, fun fd => ?_⟩
    rw [Files.dup2, Function.update_apply]
    simp

theorem mem_ends_of_write {p : Pipe} (h : p = s.stdoutPipe ∨ p = s.stderrPipe) {fd : ℕ}
    (hw : p.write = some fd) : fd ∈ s.ends := by
  rcases h with rfl | rfl <;> simp [State.ends, hw]

/-- **The child at `execvp`.** -/
theorem child_eq_iff (hout : PipeFor s.options.capturesStdout s.stdoutPipe)
    (herr : PipeFor s.options.capturesStderr s.stderrPipe) {t : Files} (ht : Piped s t) :
    child s.options s.stdoutPipe s.stderrPipe false false t = .ok (wanted s t) ↔
      StreamsFree s := by
  obtain ⟨t₁, hfirst, ht₁⟩ := childStream_eq hout 1 t
  obtain ⟨t₂, hsecond, ht₂⟩ := childStream_eq herr 2 t₁
  have hchild : child s.options s.stdoutPipe s.stderrPipe false false t =
      .ok fun fd => if fd ∈ s.ends then none else t₂ fd := by
    have hends (fd : ℕ) : fd ∈ s.stdoutPipe.read.toList ++ s.stdoutPipe.write.toList ++
        s.stderrPipe.read.toList ++ s.stderrPipe.write.toList ↔ fd ∈ s.ends := by
      simp only [State.ends, List.mem_append]
      tauto
    have hclosed : (s.stdoutPipe.read.toList ++ s.stdoutPipe.write.toList ++
        s.stderrPipe.read.toList ++ s.stderrPipe.write.toList).foldl Files.close t₂ =
          fun fd => if fd ∈ s.ends then none else t₂ fd := by
      funext fd
      rw [foldl_close]
      simp only [hends]
    rw [← hclosed, child, hfirst]
    change (childStream s.options.capturesStderr s.stderrPipe.write 2 false t₁ >>= _) = _
    rw [hsecond]
    rfl
  rw [hchild, Except.ok.injEq]
  constructor
  · intro heq
    refine ⟨fun hcaptured hmem => ?_, fun hcaptured hmem => ?_⟩
    · have h := congrFun heq 1
      simp [wanted, hcaptured, hmem] at h
    · have h := congrFun heq 2
      simp [wanted, hcaptured, hmem] at h
  · rintro ⟨hone, htwo⟩
    funext fd
    rw [wanted]
    by_cases hstdout : s.options.capturesStdout = true ∧ fd = 1
    · obtain ⟨hcaptured, rfl⟩ := hstdout
      obtain ⟨r, w, hpipe⟩ : ∃ r w, s.stdoutPipe = ⟨some r, some w⟩ := by
        rwa [PipeFor, if_pos hcaptured] at hout
      rw [if_neg (hone hcaptured), if_pos ⟨hcaptured, rfl⟩, ht₂, if_neg (by simp), ht₁,
        if_pos ⟨hcaptured, rfl⟩, hpipe]
      exact (ht.stdoutWrite w).2 (by rw [hpipe])
    · rw [if_neg hstdout]
      by_cases hstderr : s.options.capturesStderr = true ∧ fd = 2
      · obtain ⟨hcaptured, rfl⟩ := hstderr
        obtain ⟨r, w, hpipe⟩ : ∃ r w, s.stderrPipe = ⟨some r, some w⟩ := by
          rwa [PipeFor, if_pos hcaptured] at herr
        -- the first `dup2` has left the write end alone
        have hw : ¬ (s.options.capturesStdout = true ∧ w = 1) := by
          rintro ⟨hfirst, rfl⟩
          exact hone hfirst (mem_ends_of_write (.inr rfl) (by rw [hpipe]))
        rw [if_neg (htwo hcaptured), if_pos ⟨hcaptured, rfl⟩, ht₂, if_pos ⟨hcaptured, rfl⟩, hpipe]
        refine (ht₁ w).trans ?_
        rw [if_neg hw]
        exact (ht.stderrWrite w).2 (by rw [hpipe])
      · rw [if_neg hstderr, ht₂, if_neg hstderr, ht₁, if_neg hstdout]

/-- **The child's streams.**  In every run of a call up to its `fork`, with other threads opening
and closing descriptors meanwhile: the program is started with each captured stream on the write
end of its pipe, with no other end of a pipe open and with everything else inherited, exactly when
no pipe has got the number of a captured stream; and none has if the two streams are open when
`run` is called and no other thread closes them. -/
theorem child_streams_iff (strerror : ℕ → Bytes) (args : List Bytes) (options : ProcessOptions)
    (open_ : ℕ → Bool) (ls : List Label) (s : State)
    (hs : exec (step strerror) (call args options open_) ls = some s) (hpc : s.pc = .fork)
    (t : Files) (ht : Piped s t) :
    (child s.options s.stdoutPipe s.stderrPipe false false t = .ok (wanted s t) ↔
      StreamsFree s) ∧
    (open_ 1 = true → open_ 2 = true → .otherClose 1 ∉ ls → .otherClose 2 ∉ ls →
      StreamsFree s) := by
  have hcall : PipesInv (call args options open_) := ⟨rfl, rfl⟩
  have hpipes : PipesInv s := exec_invariant' (fun _ _ _ h hstep => h.step hstep) hcall hs
  rw [PipesInv, hpc] at hpipes
  refine ⟨child_eq_iff hpipes.1 hpipes.2 ht, ?_⟩
  intro hone htwo hfirst hsecond
  have hclose := exec_history (H := CloseInv) (u := fun ended l => ended || l.endsStream)
    (fun _ _ _ _ h hstep => h.step hstep) (closeInv_call args options open_) hs
  rw [CloseInv, hpc] at hclose
  have hfree {fd : ℕ} (hopen : open_ fd = true) (hkept : Label.otherClose fd ∉ ls) :
      fd ∉ s.ends := by
    have hmeet : StepsMeet (step strerror) (fun _ l => l ≠ Label.otherClose fd)
        (call args options open_) ls := stepsMeet_of_forall fun l hl h => hkept (h ▸ hl)
    have hheld : s.pc.BeforeFork → s.fds.holder fd = some .other :=
      exec_invariant (I := fun s : State => s.pc.BeforeFork → s.fds.holder fd = some .other)
        (fun _ _ _ h hl hstep => held_step h hl hstep) (fun _ => by simp [call, hopen]) hmeet hs
    intro hmem
    have hself := hclose.2.held fd hmem
    rw [hheld (by rw [hpc]; trivial)] at hself
    cases hself
  exact ⟨fun _ => hfree hone hfirst, fun _ => hfree htwo hsecond⟩

/-- Without standard streams in the parent a pipe may get the number 1, and the program is started
without its output. -/
example : (child {} ⟨some 1, some 3⟩ ⟨some 4, some 5⟩ false false fun fd =>
    [none, some .stdoutRead, none, some .stdoutWrite, some .stderrRead,
      some .stderrWrite].getD fd none).map (fun t => (t 1, t 2)) =
        .ok (none, some .stderrWrite) := by decide

/-! ### A child with both streams captured -/

/-- A call that captures both streams, up to its `fork`. -/
def twoPipes (stdoutRead stdoutWrite stderrRead stderrWrite : ℕ) : List Label :=
  [.run, .pipe (.ok (stdoutRead, stdoutWrite)), .pipe (.ok (stderrRead, stderrWrite))]

/-- The table of the parent then: the streams are files, and the pipes have got the next numbers. -/
def twoPipesTable : Files := fun fd =>
  [some (.other 0), some (.other 1), some (.other 2), some .stdoutRead, some .stdoutWrite,
    some .stderrRead, some .stderrWrite].getD fd none

theorem child_streams_iff_twoPipes :
    ∃ s, exec (step fun _ => []) (call [lit "true"] {} fun fd => decide (fd ≤ 2))
        (twoPipes 3 4 5 6) = some s ∧
      child s.options s.stdoutPipe s.stderrPipe false false twoPipesTable =
        .ok (wanted s twoPipesTable) := by
  have hrun : (exec (step fun _ => []) (call [lit "true"] {} fun fd => decide (fd ≤ 2))
      (twoPipes 3 4 5 6)).map (fun s => (s.pc, s.stdoutPipe, s.stderrPipe)) =
        some (.fork, ⟨some 3, some 4⟩, ⟨some 5, some 6⟩) := by decide +kernel
  obtain ⟨s, hs, hfields⟩ := Option.map_eq_some_iff.1 hrun
  simp only [Prod.mk.injEq] at hfields
  obtain ⟨hpc, hout, herr⟩ := hfields
  have htable : Piped s twoPipesTable := by
    constructor <;> intro fd <;>
      rcases fd with _ | _ | _ | _ | _ | _ | _ | fd <;> simp [twoPipesTable, hout, herr]
  obtain ⟨hchild, hfree⟩ := child_streams_iff (fun _ => []) [lit "true"] {}
    (fun fd => decide (fd ≤ 2)) (twoPipes 3 4 5 6) s hs hpc twoPipesTable htable
  exact ⟨s, hs, hchild.2 (hfree rfl rfl (by decide) (by decide))⟩

end Process

end TuxDock
