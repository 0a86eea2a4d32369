import TuxDock.Process.Close

/-!
# The captured output of a call

A call with both captures next to the child that writes its two streams.  The pipes of the call are
known by their read ends (`Kernel`): each is going to carry the bytes of its stream, a read takes
some of them from the front, and a read without bytes is the end of the stream.

* `Allowed` : no read fails and `poll` fails by `EINTR` alone; what a read answers is what comes
  next in the pipe;
* `CaptureInv` : what has been captured and what is still in the pipe are the whole stream, at
  every place of the poll loop, and each stream is polled or has ended;
* `captured_exact` : **a call leaves its poll loop with the output of the child**, each stream with
  its own bytes.
-/

namespace TuxDock

namespace Process

open Descriptors Transition

/-- The options with both captures. -/
def capturing : ProcessOptions where
  captureStdout := true
  captureStderr := true
  inheritStdio := false

/-- The pipes of the call, by their read ends. -/
structure Kernel where
  /-- The bytes of the stream that have not been read. -/
  unread : ℕ → Bytes
  /-- The pipes of which the end has been read. -/
  ended : List ℕ

/-- Two pipes in which nothing has been written. -/
def Kernel.empty : Kernel := ⟨fun _ => [], []⟩

/-- The descriptor the inner loop is at. -/
def State.current (s : State) : Option ℕ :=
  match s.pc with
  | .scan i => s.polls[i]?.map PollFd.fd
  | _ => none

/-- What a step does to the pipes, when the child writes `out` and `err`. -/
def Kernel.after (out err : Bytes) (k : Kernel) (s : State) : Label → Kernel
  | .pipe (.ok (r, _)) =>
    { k with unread := Function.update k.unread r (if s.pc = .stdoutPipe then out else err) }
  | .read (.ok bytes) =>
    match s.current with
    | none => k
    | some fd =>
      if bytes = [] then { k with ended := k.ended ++ [fd] }
      else { k with unread := Function.update k.unread fd ((k.unread fd).drop bytes.length) }
  | _ => k

/-- A step of the call and of its pipes. -/
def captureStep (strerror : ℕ → Bytes) (out err : Bytes) (x : State × Kernel) (l : Label) :
    Option (State × Kernel) :=
  (step strerror x.1 l).map fun s => (s, x.2.after out err x.1 l)

/-- What `poll` and `read` may answer. -/
def Allowed (x : State × Kernel) : Label → Prop
  | .poll (.error e) => e = EINTR
  | .poll (.ok ready) => true ∈ ready
  | .read (.error _) => False
  | .read (.ok bytes) =>
    bytes.length ≤ 4096 ∧
      ∀ fd ∈ x.1.current, bytes <+: x.2.unread fd ∧ (bytes = [] → x.2.unread fd = [])
  | _ => True

instance decidableAllowed (x : State × Kernel) : ∀ l, Decidable (Allowed x l)
  | .poll (.error e) => inferInstanceAs (Decidable (e = EINTR))
  | .poll (.ok ready) => inferInstanceAs (Decidable (true ∈ ready))
  | .read (.error _) => inferInstanceAs (Decidable False)
  | .read (.ok bytes) =>
    inferInstanceAs (Decidable (bytes.length ≤ 4096 ∧
      ∀ fd ∈ x.1.current, bytes <+: x.2.unread fd ∧ (bytes = [] → x.2.unread fd = [])))
  | .run | .pipe _ | .fork _ | .waitpid _ | .otherOpen _ | .otherClose _ =>
    inferInstanceAs (Decidable True)

/-! ### The invariant -/

variable {strerror : ℕ → Bytes} {out err : Bytes} {r₁ r₂ : ℕ} {s s' : State} {k : Kernel}
  {l : Label}

/-- What has been captured from each pipe and what is still in it. -/
structure Captured (out err : Bytes) (r₁ r₂ : ℕ) (s : State) (k : Kernel) : Prop where
  stdoutRead : s.stdoutPipe.read = some r₁
  stderrRead : s.stderrPipe.read = some r₂
  ne : r₁ ≠ r₂
  stdout : s.result.stdoutText ++ k.unread r₁ = out
  stderr : s.result.stderrText ++ k.unread r₂ = err
  drained : ∀ fd ∈ k.ended, k.unread fd = []

/-- In the poll loop: each stream is polled or has ended. -/
structure Polling (out err : Bytes) (r₁ r₂ : ℕ) (s : State) (k : Kernel) : Prop
    extends Captured out err r₁ r₂ s k where
  perm : (s.polls.map PollFd.fd ++ k.ended).Perm [r₁, r₂]

/-- What holds at each place of a call with both captures. -/
def CaptureInv (out err : Bytes) (s : State) (k : Kernel) : Prop :=
  match s.pc with
  | .start | .stdoutPipe => s.options = capturing ∧ s.result = {} ∧ k.ended = []
  | .stderrPipe =>
    s.options = capturing ∧ s.result = {} ∧ k.ended = [] ∧
      ∃ r, s.stdoutPipe.read = some r ∧ s.fds.holder r = some .self ∧ k.unread r = out
  | .fork | .closeStdoutWrite | .closeStderrWrite =>
    k.ended = [] ∧ ∃ r₁ r₂, Captured out err r₁ r₂ s k
  | .poll | .scan _ => ∃ r₁ r₂, Polling out err r₁ r₂ s k
  | .waitpid => s.polls = [] ∧ ∃ r₁ r₂, Polling out err r₁ r₂ s k
  | .unwind _ | .returned => True

theorem Captured.congr (h : Captured out err r₁ r₂ s k)
    (stdoutRead : s'.stdoutPipe.read = s.stdoutPipe.read)
    (stderrRead : s'.stderrPipe.read = s.stderrPipe.read) (result : s'.result = s.result) :
    Captured out err r₁ r₂ s' k where
  stdoutRead := stdoutRead.trans h.stdoutRead
  stderrRead := stderrRead.trans h.stderrRead
  ne := h.ne
  stdout := by rw [result]; exact h.stdout
  stderr := by rw [result]; exact h.stderr
  drained := h.drained

theorem Captured.setupPolls_fd (h : Captured out err r₁ r₂ s k) :
    s.setupPolls.map PollFd.fd = [r₁, r₂] := by
  rw [s.setupPolls_fd, h.stdoutRead, h.stderrRead]
  rfl

namespace Polling

theorem congr (h : Polling out err r₁ r₂ s k) (stdoutRead : s'.stdoutPipe.read = s.stdoutPipe.read)
    (stderrRead : s'.stderrPipe.read = s.stderrPipe.read) (result : s'.result = s.result)
    (polls : s'.polls.map PollFd.fd = s.polls.map PollFd.fd) : Polling out err r₁ r₂ s' k where
  toCaptured := h.toCaptured.congr stdoutRead stderrRead result
  perm := by rw [polls]; exact h.perm

theorem mem (h : Polling out err r₁ r₂ s k) {fd : ℕ} (hfd : fd ∈ s.polls.map PollFd.fd) :
    fd = r₁ ∨ fd = r₂ := by
  have hmem := h.perm.mem_iff.1 (List.mem_append_left _ hfd)
  simpa using hmem

theorem notMem_ended (h : Polling out err r₁ r₂ s k) {fd : ℕ}
    (hfd : fd ∈ s.polls.map PollFd.fd) : fd ∉ k.ended := by
  have hnodup := h.perm.nodup_iff.2 (by simpa using h.ne)
  intro hended
  exact (List.nodup_append.1 hnodup).2.2 fd hfd fd hended rfl

/-- When nothing is polled any more, both streams have been captured. -/
theorem whole (h : Polling out err r₁ r₂ s k) (hpolls : s.polls = []) :
    s.result.stdoutText = out ∧ s.result.stderrText = err := by
  have hperm := h.perm
  rw [hpolls, List.map_nil, List.nil_append] at hperm
  have hout := h.drained r₁ (hperm.mem_iff.2 (by simp))
  have herr := h.drained r₂ (hperm.mem_iff.2 (by simp))
  have hstdout := h.stdout
  have hstderr := h.stderr
  rw [hout, List.append_nil] at hstdout
  rw [herr, List.append_nil] at hstderr
  exact ⟨hstdout, hstderr⟩

/-- **Bytes from one pipe** go to its own text, and leave the other stream alone. -/
theorem readBytes (h : Polling out err r₁ r₂ s k) {i : ℕ} {p : PollFd} {bytes : Bytes}
    (hp : s.polls[i]? = some p) (hbytes : bytes <+: k.unread p.fd) :
    Polling out err r₁ r₂ { s with result := s.appended p.fd bytes, pc := .scan (i + 1) }
      { k with unread := Function.update k.unread p.fd ((k.unread p.fd).drop bytes.length) } := by
  have hmem : p.fd ∈ s.polls.map PollFd.fd := List.mem_map_of_mem (List.mem_of_getElem? hp)
  have hsplit : bytes ++ (k.unread p.fd).drop bytes.length = k.unread p.fd := by
    obtain ⟨rest, hrest⟩ := hbytes
    rw [← hrest, List.drop_left]
  have hdrained : ∀ fd ∈ k.ended,
      Function.update k.unread p.fd ((k.unread p.fd).drop bytes.length) fd = [] := by
    intro fd hfd
    have hne : fd ≠ p.fd := by
      rintro rfl
      exact h.notMem_ended hmem hfd
    rw [Function.update_of_ne hne]
    exact h.drained fd hfd
  have hstdout := h.stdout
  have hstderr := h.stderr
  rcases h.mem hmem with hfd | hfd
  · have happended : s.appended p.fd bytes =
        { s.result with stdoutText := s.result.stdoutText ++ bytes } := by
      rw [State.appended, hfd, if_pos h.stdoutRead]
    rw [hfd] at hsplit
    refine ⟨⟨h.stdoutRead, h.stderrRead, h.ne, ?_, ?_, hdrained⟩, h.perm⟩
    · dsimp only
      rw [happended, hfd, Function.update_self, List.append_assoc, hsplit, hstdout]
    · dsimp only
      rw [happended, hfd, Function.update_of_ne h.ne.symm, hstderr]
  · have happended : s.appended p.fd bytes =
        { s.result with stderrText := s.result.stderrText ++ bytes } := by
      rw [State.appended, hfd, h.stdoutRead, if_neg]
      intro heq
      exact h.ne (Option.some.inj heq)
    rw [hfd] at hsplit
    refine ⟨⟨h.stdoutRead, h.stderrRead, h.ne, ?_, ?_, hdrained⟩, h.perm⟩
    · dsimp only
      rw [happended, hfd, Function.update_of_ne h.ne, hstdout]
    · dsimp only
      rw [happended, hfd, Function.update_self, List.append_assoc, hsplit, hstderr]

/-- **The end of one stream**: its entry is removed, and it counts as ended. -/
theorem readEnd (h : Polling out err r₁ r₂ s k) {i : ℕ} {p : PollFd} (hp : s.polls[i]? = some p)
    (hempty : k.unread p.fd = []) :
    Polling out err r₁ r₂ { s.close p.fd with polls := swapRemove s.polls i }
      { k with ended := k.ended ++ [p.fd] } := by
  refine ⟨⟨h.stdoutRead, h.stderrRead, h.ne, h.stdout, h.stderr, ?_⟩, ?_⟩
  · intro fd hfd
    rcases List.mem_append.1 hfd with hfd | hfd
    · exact h.drained fd hfd
    · rw [List.mem_singleton] at hfd
      rw [hfd]
      exact hempty
  · have hperm := ((swapRemove_perm hp).map PollFd.fd).append_right k.ended
    rw [List.map_cons, List.cons_append] at hperm
    dsimp only
    rw [← List.append_assoc]
    exact (List.perm_append_singleton _ _).trans (hperm.symm.trans h.perm)

end Polling

/-! ### What the steps do to it -/

/-- Another thread changes the holder of a number that is not the call's. -/
theorem CaptureInv.others (h : CaptureInv out err s k) {fd : ℕ}
    (hfd : s.fds.holder fd ≠ some .self) (now : Option Holder) :
    CaptureInv out err
      { s with fds := { s.fds with holder := Function.update s.fds.holder fd now } } k := by
  unfold CaptureInv at h ⊢
  dsimp only
  split at h
  · exact h
  · exact h
  · obtain ⟨hoptions, hresult, hended, r, hread, hholder, hunread⟩ := h
    have hne : r ≠ fd := by
      rintro rfl
      exact hfd hholder
    exact ⟨hoptions, hresult, hended, r, hread, (Function.update_of_ne hne _ _).trans hholder,
      hunread⟩
  · obtain ⟨hended, r₁, r₂, hcaptured⟩ := h
    exact ⟨hended, r₁, r₂, hcaptured.congr rfl rfl rfl⟩
  · obtain ⟨hended, r₁, r₂, hcaptured⟩ := h
    exact ⟨hended, r₁, r₂, hcaptured.congr rfl rfl rfl⟩
  · obtain ⟨hended, r₁, r₂, hcaptured⟩ := h
    exact ⟨hended, r₁, r₂, hcaptured.congr rfl rfl rfl⟩
  · obtain ⟨r₁, r₂, hpoll⟩ := h
    exact ⟨r₁, r₂, hpoll.congr rfl rfl rfl rfl⟩
  · obtain ⟨r₁, r₂, hpoll⟩ := h
    exact ⟨r₁, r₂, hpoll.congr rfl rfl rfl rfl⟩
  · obtain ⟨hpolls, r₁, r₂, hpoll⟩ := h
    exact ⟨hpolls, r₁, r₂, hpoll.congr rfl rfl rfl rfl⟩
  · trivial
  · trivial

/-- With both captures, no pipe is left out. -/
theorem step_run_of_pipes (hoptions : s.options = capturing)
    (hpc : s.pc = .stdoutPipe ∨ s.pc = .stderrPipe) : step strerror s .run = none := by
  rcases hpc with hpc | hpc <;>
    simp only [step, stepCall, hpc, stepPipe, hoptions] <;> rfl

/-- **Every allowed step preserves the invariant.** -/
theorem CaptureInv.step (h : CaptureInv out err s k) (hok : Allowed (s, k) l)
    (hstep : Process.step strerror s l = some s') :
    CaptureInv out err s' (k.after out err s l) := by
  cases step_cases hstep with
  | otherOpen fd free => exact h.others (by rw [free]; exact nofun) _
  | otherClose fd held => exact h.others (by rw [held]; decide) _
  | noArgs pc args => trivial
  | begin pc args =>
    simp only [CaptureInv, pc] at h
    exact h
  | noStdout pc =>
    simp only [CaptureInv, pc] at h
    rw [step_run_of_pipes h.1 (Or.inl pc)] at hstep
    cases hstep
  | noStderr pc =>
    simp only [CaptureInv, pc] at h
    rw [step_run_of_pipes h.1 (Or.inr pc)] at hstep
    cases hstep
  | stdoutPipe r w pc ne freeRead freeWrite =>
    simp only [CaptureInv, pc] at h
    obtain ⟨hoptions, hresult, hended⟩ := h
    refine ⟨hoptions, hresult, hended, r, rfl, Function.update_self .., ?_⟩
    simp only [Kernel.after, pc, ↓reduceIte, Function.update_self]
  | stderrPipe r w pc ne freeRead freeWrite =>
    simp only [CaptureInv, pc] at h
    obtain ⟨-, hresult, hended, r₁, hread, hholder, hunread⟩ := h
    have hne : r₁ ≠ r := by
      rintro rfl
      rw [freeRead] at hholder
      cases hholder
    refine ⟨hended, r₁, r, hread, rfl, hne, ?_, ?_, ?_⟩
    · simp only [Kernel.after, State.piped, hresult, Function.update_of_ne hne, hunread,
        List.nil_append]
    · simp only [Kernel.after, State.piped, hresult, pc, reduceCtorEq, ↓reduceIte,
        Function.update_self, List.nil_append]
    · intro fd hfd
      simp only [Kernel.after, hended, List.not_mem_nil] at hfd
  | pipeFailed e pc => trivial
  | forkFailed e pc => trivial
  | forked pc =>
    simp only [CaptureInv, pc] at h
    obtain ⟨hended, r₁, r₂, hcaptured⟩ := h
    exact ⟨hended, r₁, r₂, hcaptured.congr rfl rfl rfl⟩
  | closeStdoutWrite pc =>
    simp only [CaptureInv, pc] at h
    obtain ⟨hended, r₁, r₂, hcaptured⟩ := h
    refine ⟨hended, r₁, r₂, hcaptured.congr rfl ?_ ?_⟩
    · exact congrArg Pipe.read (closeOpt_stderrPipe _)
    · cases s.stdoutPipe.write <;> rfl
  | closeStderrWrite pc =>
    simp only [CaptureInv, pc] at h
    obtain ⟨hended, r₁, r₂, hcaptured⟩ := h
    have hfds := hcaptured.setupPolls_fd
    have hsetup : s.setupPolls ≠ [] := by
      intro hnil
      rw [hnil] at hfds
      cases hfds
    simp only [CaptureInv, if_neg hsetup]
    refine ⟨r₁, r₂, hcaptured.congr ?_ rfl ?_, ?_⟩
    · exact congrArg Pipe.read (closeOpt_stdoutPipe _)
    · cases s.stderrPipe.write <;> rfl
    · simp only [Kernel.after, hended, List.append_nil, hfds]
      rfl
  | pollFailed e pc =>
    simp only [CaptureInv, pc] at h
    obtain ⟨r₁, r₂, hpoll⟩ := h
    obtain rfl : e = EINTR := hok
    exact ⟨r₁, r₂, hpoll.congr rfl rfl rfl rfl⟩
  | polled ready pc length =>
    simp only [CaptureInv, pc] at h
    obtain ⟨r₁, r₂, hpoll⟩ := h
    exact ⟨r₁, r₂, hpoll.congr rfl rfl rfl (answered_fd length)⟩
  | scanEnd i pc none =>
    simp only [CaptureInv, pc] at h
    obtain ⟨r₁, r₂, hpoll⟩ := h
    by_cases hpolls : s.polls = []
    · simp only [CaptureInv, State.afterScan, if_pos hpolls]
      exact ⟨hpolls, r₁, r₂, hpoll.congr rfl rfl rfl rfl⟩
    · simp only [CaptureInv, State.afterScan, if_neg hpolls]
      exact ⟨r₁, r₂, hpoll.congr rfl rfl rfl rfl⟩
  | skip i p pc entry ready =>
    simp only [CaptureInv, pc] at h
    obtain ⟨r₁, r₂, hpoll⟩ := h
    exact ⟨r₁, r₂, hpoll.congr rfl rfl rfl rfl⟩
  | readBytes i p b bytes pc entry ready =>
    simp only [CaptureInv, pc] at h
    obtain ⟨r₁, r₂, hpoll⟩ := h
    have hcurrent : s.current = some p.fd := by
      simp only [State.current, pc, entry, Option.map_some]
    have hbytes := (hok.2 p.fd hcurrent).1
    simp only [Kernel.after, hcurrent, List.cons_ne_nil, ↓reduceIte]
    exact ⟨r₁, r₂, hpoll.readBytes entry hbytes⟩
  | readEnd i p answer pc entry ready ends =>
    simp only [CaptureInv, pc] at h
    obtain ⟨r₁, r₂, hpoll⟩ := h
    have hcurrent : s.current = some p.fd := by
      simp only [State.current, pc, entry, Option.map_some]
    rcases answer with e | _ | ⟨b, bytes⟩
    · exact hok.elim
    · have hempty := (hok.2 p.fd hcurrent).2 rfl
      have hnext := hpoll.readEnd entry hempty
      simp only [State.close, pc] at hnext
      simp only [CaptureInv, State.close, pc, Kernel.after, hcurrent, ↓reduceIte]
      exact ⟨r₁, r₂, hnext⟩
    · exact absurd rfl (ends b bytes)
  | waitFailed e pc => trivial
  | waited status pc => trivial
  | unwound pc => trivial
  | unwind fd todo pc => trivial

/-! ### Whole calls -/

/-- A run of the call with its pipes is a run of the call. -/
theorem exec_captureStep (s : State) (k : Kernel) (ls : List Label) :
    (exec (captureStep strerror out err) (s, k) ls).map Prod.fst = exec (step strerror) s ls := by
  induction ls generalizing s k with
  | nil => rfl
  | cons l ls ih =>
    rw [exec_cons, exec_cons, captureStep]
    cases step strerror s l with
    | none => rfl
    | some s' => exact ih s' _

theorem captureInv_call (args : List Bytes) (open_ : ℕ → Bool) :
    CaptureInv out err (call args capturing open_) .empty := ⟨rfl, rfl, rfl⟩

theorem captureInv_exec {args : List Bytes} {open_ : ℕ → Bool} {ls : List Label} {t : State}
    {k : Kernel}
    (hok : StepsMeet (captureStep strerror out err) Allowed (call args capturing open_, .empty) ls)
    (ht : exec (captureStep strerror out err) (call args capturing open_, .empty) ls =
      some (t, k)) : CaptureInv out err t k := by
  refine exec_invariant (I := fun x => CaptureInv out err x.1 x.2) ?_
    (captureInv_call args open_) hok ht
  rintro ⟨s, k⟩ l ⟨s', k'⟩ h hl hstep
  obtain ⟨s'', hs'', heq⟩ := Option.map_eq_some_iff.1 hstep
  cases heq
  exact h.step hl hs''

/-- **The captured output is exact.**  For every child, every call with both captures and every
order of events: when the call leaves its poll loop, it has the bytes of both streams; and once
both streams have ended, leaving the loop is what it does next. -/
theorem captured_exact (strerror : ℕ → Bytes) (out err : Bytes) (args : List Bytes)
    (open_ : ℕ → Bool) (ls : List Label) (t : State) (k : Kernel)
    (hok : StepsMeet (captureStep strerror out err) Allowed (call args capturing open_, .empty) ls)
    (ht : exec (captureStep strerror out err) (call args capturing open_, .empty) ls =
      some (t, k)) :
    (t.pc = .waitpid → t.result.stdoutText = out ∧ t.result.stderrText = err) ∧
    ∀ i, t.pc = .scan i →
      (∀ r, t.stdoutPipe.read = some r ∨ t.stderrPipe.read = some r → r ∈ k.ended) →
      t.result.stdoutText = out ∧ t.result.stderrText = err ∧
        step strerror t .run = some { t with pc := .waitpid } := by
  have hinv := captureInv_exec hok ht
  constructor
  · intro hpc
    simp only [CaptureInv, hpc] at hinv
    obtain ⟨hpolls, r₁, r₂, hpoll⟩ := hinv
    exact hpoll.whole hpolls
  · intro i hpc hended
    simp only [CaptureInv, hpc] at hinv
    obtain ⟨r₁, r₂, hpoll⟩ := hinv
    -- what is polled has not ended, so nothing is polled
    have hpolls : t.polls = [] := by
      rw [← List.map_eq_nil_iff (f := PollFd.fd), List.eq_nil_iff_forall_not_mem]
      intro fd hfd
      refine hpoll.notMem_ended hfd (hended fd ?_)
      rcases hpoll.mem hfd with rfl | rfl
      · exact Or.inl hpoll.stdoutRead
      · exact Or.inr hpoll.stderrRead
    obtain ⟨hout, herr⟩ := hpoll.whole hpolls
    refine ⟨hout, herr, ?_⟩
    simp only [step, stepCall, hpc, stepScan, hpolls, List.getElem?_nil, State.afterScan,
      ↓reduceIte]

/-- A child that writes to both streams: data and the end of a stream appear in one round. -/
def twoStreams : List Label :=
  [.run, .pipe (.ok (3, 4)), .pipe (.ok (5, 6)), .fork (.ok ()), .run, .run,
    .poll (.error EINTR), .poll (.ok [true, true]), .read (.ok (lit "he")), .read (.ok (lit "no")),
    .run, .poll (.ok [true, true]), .read (.ok (lit "llo")), .read (.ok []), .run,
    .poll (.ok [true]), .read (.ok []), .run]

theorem captured_exact_twoStreams :
    ∃ t k, exec (captureStep (fun _ => []) (lit "hello") (lit "no"))
        (call [lit "true"] capturing fun _ => false, .empty) twoStreams = some (t, k) ∧
      t.result.stdoutText = lit "hello" ∧ t.result.stderrText = lit "no" := by
  have h : (exec (captureStep (fun _ => []) (lit "hello") (lit "no"))
      (call [lit "true"] capturing fun _ => false, .empty) twoStreams).map (fun x => x.1.pc) =
        some .waitpid := by decide +kernel
  obtain ⟨⟨t, k⟩, ht, hpc⟩ := Option.map_eq_some_iff.1 h
  refine ⟨t, k, ht, ?_⟩
  exact (captured_exact (fun _ => []) (lit "hello") (lit "no") [lit "true"] (fun _ => false)
    twoStreams t k (by decide +kernel) ht).1 hpc

end Process

end TuxDock
