import Mathlib.Data.List.Perm.Basic
import TuxDock.Lib.Transition
import TuxDock.Process.Runner

/-!
# Closing the pipes of a call

The poll loop closes the read end of a stream that has ended, and the destructor of its pipe closes
it again.  In between, the number belongs to whoever opens a descriptor next.

* `CloseInv` : which descriptors the call owns at each place, and what the destructors will do if a
  stream has ended;
* `closed_once_iff` : **a call that has returned has closed each descriptor at most once, and none
  of another thread's, exactly when no stream ended in its poll loop**; before its destructors run
  every call has;
* `run_closes_foreign` : a call that closes a descriptor another thread has opened meanwhile.
-/

namespace TuxDock

namespace Process

open Descriptors Transition

/-- The poll loop takes the stream for ended: a read answers no bytes, or fails. -/
def Label.endsStream : Label → Bool
  | .read (.ok (_ :: _)) => false
  | .read _ => true
  | _ => false

/-! ### Removing an entry -/

theorem swapRemove_perm {polls : List PollFd} {i : ℕ} {p : PollFd} (h : polls[i]? = some p) :
    polls.Perm (p :: swapRemove polls i) := by
  obtain ⟨hi, hp⟩ := List.getElem?_eq_some_iff.1 h
  rcases List.eq_nil_or_concat' polls with rfl | ⟨front, last, rfl⟩
  · cases hi
  · have hswap : swapRemove (front ++ [last]) i = ((front ++ [last]).set i last).dropLast := by
      simp [swapRemove]
    rw [hswap]
    rw [List.length_append, List.length_singleton] at hi
    by_cases hlast : i < front.length
    · -- the last entry takes the place of the one removed
      rw [List.set_append_left _ _ hlast, List.dropLast_concat]
      rw [List.getElem_append_left hlast] at hp
      have hset := List.set_perm_cons_eraseIdx hlast last
      have herase := List.getElem_cons_eraseIdx_perm hlast
      rw [hp] at herase
      have hswapped : (last :: front).Perm (p :: last :: front.eraseIdx i) :=
        (herase.symm.cons last).trans (List.Perm.swap _ _ _)
      exact (List.perm_append_singleton _ _).trans (hswapped.trans (hset.symm.cons p))
    · obtain rfl : i = front.length := by omega
      have hpl : last = p := by simpa using hp
      subst hpl
      simp

/-! ### The invariant -/

variable {ended : Bool} {s s' : State}

/-- In the poll loop: the call owns what it polls; until a stream has ended it owns all it has not
closed, and after that a number it has closed is still an end of a pipe. -/
structure LoopInv (ended : Bool) (s : State) : Prop where
  polls : Owned s.fds (s.polls.map PollFd.fd)
  sub : ∀ fd ∈ s.polls.map PollFd.fd, fd ∈ s.ends
  open_ : ended = false → Owned s.fds s.ends
  doubled : ended = true → ¬ (s.fds.closes ++ s.ends).Nodup

/-- With the descriptors `todo` still to be closed. -/
structure UnwindInv (ended : Bool) (t : Table) (todo : List ℕ) : Prop where
  open_ : ended = false → Owned t todo
  doubled : ended = true → ¬ (t.closes ++ todo).Nodup

/-- What holds at each place of a call; `ended` when a stream has ended in the poll loop. -/
def CloseInv (ended : Bool) (s : State) : Prop :=
  match s.pc with
  | .start | .stdoutPipe =>
    ended = false ∧ s.fds.closes = [] ∧ Owned s.fds [] ∧ s.stdoutPipe = {} ∧ s.stderrPipe = {}
  | .stderrPipe => ended = false ∧ s.fds.closes = [] ∧ Owned s.fds s.ends ∧ s.stderrPipe = {}
  | .fork | .closeStdoutWrite | .closeStderrWrite => ended = false ∧ Owned s.fds s.ends
  | .poll | .scan _ | .waitpid => LoopInv ended s
  | .unwind todo => UnwindInv ended s.fds todo
  | .returned => UnwindInv ended s.fds []

/-- Between the closing of the write ends and the destructors. -/
def Pc.InLoop : Pc → Prop
  | .poll | .scan _ | .waitpid => True
  | _ => False

theorem closeInv_iff_loop (hpc : s.pc.InLoop) : CloseInv ended s ↔ LoopInv ended s := by
  unfold CloseInv
  split <;> rename_i heq <;> first | rfl | (rw [heq] at hpc; exact hpc.elim)

/-- No destructor has run yet. -/
def Pc.BeforeUnwind : Pc → Prop
  | .unwind _ | .returned => False
  | _ => True

theorem CloseInv.closedOnce (h : CloseInv ended s) (hpc : s.pc.BeforeUnwind) :
    s.fds.ClosedOnce := by
  unfold CloseInv at h
  split at h
  · exact h.2.2.1.closedOnce
  · exact h.2.2.1.closedOnce
  · exact h.2.2.1.closedOnce
  · exact h.2.closedOnce
  · exact h.2.closedOnce
  · exact h.2.closedOnce
  · exact h.polls.closedOnce
  · exact h.polls.closedOnce
  · exact h.polls.closedOnce
  · rename_i hunwind
    rw [hunwind] at hpc
    exact hpc.elim
  · rename_i hreturned
    rw [hreturned] at hpc
    exact hpc.elim

/-- A call that has returned. -/
theorem UnwindInv.closedOnce_iff {t : Table} (h : UnwindInv ended t []) :
    t.ClosedOnce ↔ ended = false := by
  constructor
  · intro hp
    by_contra hended
    have hd := h.doubled (by simpa using hended)
    rw [List.append_nil] at hd
    exact hd hp.1
  · exact fun hended => (h.open_ hended).closedOnce

/-! ### What the steps do to it -/

theorem UnwindInv.of_owned {t : Table} {todo : List ℕ} (h : Owned t todo) :
    UnwindInv false t todo :=
  ⟨fun _ => h, fun h => Bool.noConfusion h⟩

theorem LoopInv.unwind (h : LoopInv ended s) : UnwindInv ended s.fds s.ends :=
  ⟨h.open_, h.doubled⟩

theorem UnwindInv.close {t : Table} {fd : ℕ} {todo : List ℕ} (h : UnwindInv ended t (fd :: todo)) :
    UnwindInv ended (t.close fd) todo where
  open_ hended := (h.open_ hended).close
  doubled hended := by
    rw [close_append]
    exact h.doubled hended

theorem LoopInv.congr (h : LoopInv ended s) (fds : s'.fds = s.fds)
    (polls : s'.polls.map PollFd.fd = s.polls.map PollFd.fd) (ends : s'.ends = s.ends) :
    LoopInv ended s' where
  polls := by rw [fds, polls]; exact h.polls
  sub := by rw [polls, ends]; exact h.sub
  open_ := by rw [fds, ends]; exact h.open_
  doubled := by rw [fds, ends]; exact h.doubled

/-- **A stream ends**: its descriptor is closed, and is still an end of its pipe. -/
theorem LoopInv.readEnd (h : LoopInv ended s) {i : ℕ} {p : PollFd} (hp : s.polls[i]? = some p) :
    LoopInv true { s.close p.fd with polls := swapRemove s.polls i } := by
  have hperm := (swapRemove_perm hp).map PollFd.fd
  have hmem : p.fd ∈ s.polls.map PollFd.fd := hperm.mem_iff.2 List.mem_cons_self
  constructor
  · exact (h.polls.perm hperm).close
  · exact fun fd hfd => h.sub fd (hperm.mem_iff.2 (List.mem_cons_of_mem _ hfd))
  · exact fun hended => Bool.noConfusion hended
  · -- it has been closed, and the pipe still holds its number
    rintro - hnodup
    have hclosed : p.fd ∈ (s.fds.close p.fd).closes := List.mem_append_right _ (by simp)
    exact (List.nodup_append.1 hnodup).2.2 p.fd hclosed p.fd (h.sub _ hmem) rfl

theorem owned_piped {fds : List ℕ} (h : Owned s.fds fds) (hclosed : s.fds.closes = []) {r w : ℕ}
    (ne : r ≠ w) (freeRead : s.fds.holder r = none) (freeWrite : s.fds.holder w = none) :
    Owned (s.piped r w).fds (r :: w :: fds) := by
  have hwrite := h.opened freeWrite (by rw [hclosed]; exact List.not_mem_nil)
  refine hwrite.opened ((Function.update_of_ne ne _ _).trans freeRead) ?_
  rw [show (s.fds.opened w .self).closes = s.fds.closes from rfl, hclosed]
  exact List.not_mem_nil

theorem owned_closeOpt {fd : Option ℕ} {fds : List ℕ} (h : Owned s.fds (fd.toList ++ fds)) :
    Owned (s.closeOpt fd).fds fds := by
  cases fd with
  | none => exact h
  | some fd => exact h.close

theorem State.setupPolls_fd (s : State) : s.setupPolls.map PollFd.fd =
    s.stdoutPipe.read.toList ++ s.stderrPipe.read.toList := by
  rw [State.setupPolls, List.map_map]
  exact List.map_id _

@[simp] theorem closeOpt_stdoutPipe (fd : Option ℕ) :
    (s.closeOpt fd).stdoutPipe = s.stdoutPipe := by
  cases fd <;> rfl

@[simp] theorem closeOpt_stderrPipe (fd : Option ℕ) :
    (s.closeOpt fd).stderrPipe = s.stderrPipe := by
  cases fd <;> rfl

theorem UnwindInv.others {t : Table} {todo : List ℕ} (h : UnwindInv ended t todo) {fd : ℕ}
    (hfd : t.holder fd ≠ some .self) (now : Option Holder) :
    UnwindInv ended { t with holder := Function.update t.holder fd now } todo :=
  ⟨fun hended => (h.open_ hended).others hfd now, h.doubled⟩

theorem LoopInv.others (h : LoopInv ended s) {fd : ℕ} (hfd : s.fds.holder fd ≠ some .self)
    (now : Option Holder) :
    LoopInv ended
      { s with fds := { s.fds with holder := Function.update s.fds.holder fd now } } :=
  ⟨h.polls.others hfd now, h.sub, fun hended => (h.open_ hended).others hfd now, h.doubled⟩

/-- Another thread changes the holder of a number that is not the call's. -/
theorem CloseInv.others (h : CloseInv ended s) {fd : ℕ} (hfd : s.fds.holder fd ≠ some .self)
    (now : Option Holder) :
    CloseInv ended
      { s with fds := { s.fds with holder := Function.update s.fds.holder fd now } } := by
  unfold CloseInv at h ⊢
  dsimp only
  split at h
  · exact ⟨h.1, h.2.1, h.2.2.1.others hfd now, h.2.2.2⟩
  · exact ⟨h.1, h.2.1, h.2.2.1.others hfd now, h.2.2.2⟩
  · exact ⟨h.1, h.2.1, h.2.2.1.others hfd now, h.2.2.2⟩
  · exact ⟨h.1, h.2.others hfd now⟩
  · exact ⟨h.1, h.2.others hfd now⟩
  · exact ⟨h.1, h.2.others hfd now⟩
  · exact LoopInv.others h hfd now
  · exact LoopInv.others h hfd now
  · exact LoopInv.others h hfd now
  · exact UnwindInv.others h hfd now
  · exact UnwindInv.others h hfd now

/-- The read ends that are polled, once the write ends are closed. -/
theorem LoopInv.setup {fds : Table} {out err : Pipe} (h : Owned fds
      (err.read.toList ++ (out.read.toList ++ out.write.toList)))
    (hfds : s'.fds = fds) (hout : s'.stdoutPipe = out) (herr : s'.stderrPipe = ⟨err.read, none⟩)
    (hpolls : s'.polls.map PollFd.fd = out.read.toList ++ err.read.toList) : LoopInv false s' := by
  have hends : s'.ends = err.read.toList ++ (out.read.toList ++ out.write.toList) := by
    simp [State.ends, hout, herr]
  refine ⟨?_, ?_, fun _ => ?_, fun h => Bool.noConfusion h⟩
  · rw [hfds, hpolls]
    have hreads : (err.read.toList ++ out.read.toList).Sublist
        (err.read.toList ++ (out.read.toList ++ out.write.toList)) :=
      (List.Sublist.refl _).append (List.sublist_append_left _ _)
    exact (h.sublist hreads).perm List.perm_append_comm
  · rw [hpolls, hends]
    intro fd hfd
    simp only [List.mem_append] at hfd ⊢
    tauto
  · rw [hfds, hends]
    exact h

variable {strerror : ℕ → Bytes} {l : Label}

/-- The answers of `poll` change no descriptor. -/
theorem answered_fd {polls : List PollFd} {ready : List Bool} (h : ready.length = polls.length) :
    ((polls.zip ready).map fun x => { x.1 with ready := x.2 }).map PollFd.fd =
      polls.map PollFd.fd := by
  rw [List.map_map, show PollFd.fd ∘ (fun x : PollFd × Bool => { x.1 with ready := x.2 }) =
    PollFd.fd ∘ Prod.fst from rfl, ← List.map_map, List.map_fst_zip h.ge]

theorem CloseInv.step_other (h : CloseInv ended s) (hl : l.endsStream = false)
    (hstep : Step strerror s l s') : CloseInv ended s' := by
  cases hstep with
  | otherOpen fd free => exact h.others (by rw [free]; exact nofun) _
  | otherClose fd held => exact h.others (by rw [held]; decide) _
  | noArgs pc args =>
    simp only [CloseInv, pc] at h
    obtain ⟨rfl, -, howned, -, -⟩ := h
    exact .of_owned howned
  | begin pc args =>
    simp only [CloseInv, pc] at h
    exact h
  | noStdout pc =>
    simp only [CloseInv, pc] at h
    obtain ⟨hended, hcloses, howned, hout, herr⟩ := h
    have hends : s.ends = [] := by simp [State.ends, hout, herr]
    exact ⟨hended, hcloses, hends ▸ howned, herr⟩
  | noStderr pc =>
    simp only [CloseInv, pc] at h
    exact ⟨h.1, h.2.2.1⟩
  | stdoutPipe r w pc ne freeRead freeWrite =>
    simp only [CloseInv, pc] at h
    obtain ⟨hended, hcloses, howned, -, herr⟩ := h
    refine ⟨hended, hcloses, ?_, herr⟩
    simpa [State.ends, State.piped, herr] using owned_piped howned hcloses ne freeRead freeWrite
  | stderrPipe r w pc ne freeRead freeWrite =>
    simp only [CloseInv, pc] at h
    obtain ⟨hended, hcloses, howned, herr⟩ := h
    refine ⟨hended, ?_⟩
    simpa [State.ends, State.piped, herr] using owned_piped howned hcloses ne freeRead freeWrite
  | pipeFailed e pc =>
    rcases pc with pc | pc
    · simp only [CloseInv, pc] at h
      obtain ⟨rfl, -, howned, hout, herr⟩ := h
      have hends : s.ends = [] := by simp [State.ends, hout, herr]
      exact .of_owned (hends ▸ howned)
    · simp only [CloseInv, pc] at h
      obtain ⟨rfl, -, howned, -⟩ := h
      exact .of_owned howned
  | forkFailed e pc =>
    simp only [CloseInv, pc] at h
    obtain ⟨rfl, howned⟩ := h
    exact .of_owned howned
  | forked pc =>
    simp only [CloseInv, pc] at h
    exact h
  | closeStdoutWrite pc =>
    simp only [CloseInv, pc] at h
    obtain ⟨hended, howned⟩ := h
    refine ⟨hended, ?_⟩
    -- the write end comes to the front, and is closed
    have hlast : s.ends.Perm (s.stdoutPipe.write.toList ++
        (s.stderrPipe.read.toList ++ s.stderrPipe.write.toList ++ s.stdoutPipe.read.toList)) := by
      rw [State.ends, ← List.append_assoc]
      exact List.perm_append_comm
    simpa [State.ends] using owned_closeOpt (howned.perm hlast)
  | closeStderrWrite pc =>
    simp only [CloseInv, pc] at h
    obtain ⟨rfl, howned⟩ := h
    have hsecond : s.ends.Perm (s.stderrPipe.write.toList ++
        (s.stderrPipe.read.toList ++ (s.stdoutPipe.read.toList ++ s.stdoutPipe.write.toList))) := by
      rw [State.ends, ← List.append_assoc (s.stderrPipe.write.toList)]
      exact List.perm_append_comm.append_right _
    rw [closeInv_iff_loop (by dsimp only; split_ifs <;> trivial)]
    exact .setup (owned_closeOpt (howned.perm hsecond)) rfl (closeOpt_stdoutPipe _) rfl
      s.setupPolls_fd
  | pollFailed e pc =>
    rw [closeInv_iff_loop (by rw [pc]; trivial)] at h
    rw [closeInv_iff_loop (by dsimp only; split_ifs <;> trivial)]
    exact h.congr rfl rfl rfl
  | polled ready pc length =>
    rw [closeInv_iff_loop (by rw [pc]; trivial)] at h
    exact LoopInv.congr h rfl (answered_fd length) rfl
  | scanEnd i pc none =>
    rw [closeInv_iff_loop (by rw [pc]; trivial)] at h
    rw [closeInv_iff_loop (by dsimp only [State.afterScan]; split_ifs <;> trivial)]
    exact h.congr rfl rfl rfl
  | skip i p pc entry ready =>
    rw [closeInv_iff_loop (by rw [pc]; trivial)] at h
    exact LoopInv.congr h rfl rfl rfl
  | readBytes i p b bytes pc entry ready =>
    rw [closeInv_iff_loop (by rw [pc]; trivial)] at h
    exact LoopInv.congr h rfl rfl rfl
  | readEnd i p answer pc entry ready ends =>
    exfalso
    rcases answer with e | _ | ⟨b, bytes⟩
    · cases hl
    · cases hl
    · exact ends b bytes rfl
  | waitFailed e pc =>
    rw [closeInv_iff_loop (by rw [pc]; trivial)] at h
    exact h.unwind
  | waited status pc =>
    rw [closeInv_iff_loop (by rw [pc]; trivial)] at h
    exact h.unwind
  | unwound pc =>
    simp only [CloseInv, pc] at h
    exact h
  | unwind fd todo pc =>
    simp only [CloseInv, pc] at h
    exact h.close

/-- **Every step preserves the invariant.** -/
theorem CloseInv.step (h : CloseInv ended s) (hstep : Process.step strerror s l = some s') :
    CloseInv (ended || l.endsStream) s' := by
  cases hl : l.endsStream with
  | false =>
    rw [Bool.or_false]
    exact h.step_other hl (step_cases hstep)
  | true =>
    rw [Bool.or_true]
    cases step_cases hstep with
    | readEnd i p answer pc entry ready ends =>
      rw [closeInv_iff_loop (by rw [pc]; trivial)] at h
      rw [closeInv_iff_loop (by dsimp only [State.close]; rw [pc]; trivial)]
      exact h.readEnd entry
    | _ => cases hl

theorem ended_eq_false {ls : List Label} :
    ls.foldl (fun ended l => ended || l.endsStream) ended = false ↔
      ended = false ∧ ∀ l ∈ ls, l.endsStream = false := by
  induction ls generalizing ended with
  | nil => simp
  | cons l ls ih => rw [List.foldl_cons, ih, Bool.or_eq_false_iff, List.forall_mem_cons, and_assoc]

theorem closeInv_call (args : List Bytes) (options : ProcessOptions) (open_ : ℕ → Bool) :
    CloseInv false (call args options open_) :=
  ⟨rfl, rfl, ⟨List.nodup_nil, rfl, by simp⟩, rfl, rfl⟩

/-- **Each descriptor is closed at most once.**  For every call, whatever the system calls answer
and whatever other threads do with descriptors meanwhile: up to its destructors the call has closed
none twice and none of another thread's, and when it has returned this is so exactly when no read
of the poll loop answered no bytes or failed. -/
theorem closed_once_iff (args : List Bytes) (options : ProcessOptions) (open_ : ℕ → Bool)
    (ls : List Label) (t : State)
    (ht : exec (step strerror) (call args options open_) ls = some t) :
    (t.pc.BeforeUnwind → t.fds.ClosedOnce) ∧
      (t.pc = .returned → (t.fds.ClosedOnce ↔ ∀ l ∈ ls, l.endsStream = false)) := by
  have hinv := exec_history (H := CloseInv) (u := fun ended l => ended || l.endsStream)
    (fun _ _ _ _ h hstep => h.step hstep) (closeInv_call args options open_) ht
  refine ⟨hinv.closedOnce, ?_⟩
  intro hpc
  simp only [CloseInv, hpc] at hinv
  rw [hinv.closedOnce_iff, ended_eq_false]
  simp

/-! ### Two calls -/

/-- A call whose `poll` fails at once. -/
def failedPoll : List Label :=
  [.run, .pipe (.ok (3, 4)), .run, .fork (.ok ()), .run, .run, .poll (.error 12), .waitpid (.ok 0),
    .run, .run]

/-- A call of which both streams end; in between another thread opens a descriptor. -/
def bothEnd : List Label :=
  [.run, .pipe (.ok (3, 4)), .pipe (.ok (5, 6)), .fork (.ok ()), .run, .run,
    .poll (.ok [true, false]), .read (.ok []), .run, .run, .otherOpen 3, .poll (.ok [true]),
    .read (.ok []), .run, .waitpid (.ok 0), .run, .run, .run]

theorem closed_once_failedPoll :
    ∃ t, exec (step fun _ => []) (call [lit "true"] { captureStderr := false } fun _ => false)
      failedPoll = some t ∧ t.pc = .returned ∧ t.fds.ClosedOnce := by
  have h : (exec (step fun _ => []) (call [lit "true"] { captureStderr := false } fun _ => false)
      failedPoll).map State.pc = some .returned := by decide +kernel
  obtain ⟨t, ht, hpc⟩ := Option.map_eq_some_iff.1 h
  refine ⟨t, ht, hpc, ((closed_once_iff [lit "true"] { captureStderr := false } (fun _ => false)
    failedPoll t ht).2 hpc).2 ?_⟩
  decide

/-- **A call closes both read ends twice, the second time a descriptor of another thread.** -/
theorem run_closes_foreign :
    ∃ t, exec (step fun _ => []) (call [lit "true"] {} fun _ => false) bothEnd = some t ∧
      t.pc = .returned ∧ t.fds.closes = [4, 6, 3, 5, 5, 3] ∧ t.fds.foreign = [3] ∧
      ¬ t.fds.ClosedOnce := by
  have h : (exec (step fun _ => []) (call [lit "true"] {} fun _ => false) bothEnd).map
      (fun t => (t.pc, t.fds.closes, t.fds.foreign)) =
        some (.returned, [4, 6, 3, 5, 5, 3], [3]) := by decide +kernel
  obtain ⟨t, ht, hfields⟩ := Option.map_eq_some_iff.1 h
  simp only [Prod.mk.injEq] at hfields
  obtain ⟨hpc, hcloses, hforeign⟩ := hfields
  refine ⟨t, ht, hpc, hcloses, hforeign, ?_⟩
  intro hp
  exact absurd (hforeign.symm.trans hp.2) (List.cons_ne_nil _ _)

end Process

end TuxDock
