import TuxDock.Lib.Transition
import TuxDock.Reaper.Supervisor

/-!
# The two builds agree

`compile.sh` ships `tuxreaperdasm.c` or `tuxreaperdgnu.c`, whichever compiles.  Here `main` of both
is run on one schedule: the results of `prctl` and `fork` as the kernel gives them, the signals
caught before they are blocked, and what the environment does from the loop on.

* `exitStatus_eq` : the macros of libc and those of the freestanding build decode a wait status
  alike;
* `step_asm` : **the loops of the two builds make the same steps**;
* `builds_agree_iff` : the builds have the same outcome on a schedule exactly when `fork` does not
  fail after a successful `prctl`.  The freestanding build does not look at that error, and
  supervises a child that does not exist for ever (`Unforked`).
-/

namespace TuxDock

namespace Reaper

open Transition

/-- The result of a system call as a build sees it: libc makes every error a `-1`, the freestanding
build has the number of the kernel. -/
def Impl.callResult : Impl → ℤ → ℤ
  | .gnu, r => if r < 0 then -1 else r
  | .asm, r => r

@[simp] theorem Impl.callResult_neg (impl : Impl) (r : ℤ) : impl.callResult r < 0 ↔ r < 0 := by
  cases impl with
  | gnu =>
    rw [callResult]
    split_ifs with h
    · simp [h]
    · simp
  | asm => rfl

theorem Impl.callResult_of_nonneg (impl : Impl) {r : ℤ} (h : 0 ≤ r) : impl.callResult r = r := by
  cases impl with
  | gnu => rw [callResult, if_neg h.not_gt]
  | asm => rfl

/-! ### Exit codes -/

/-- The end of `main`, with `WIFEXITED`, `WEXITSTATUS`, `WIFSIGNALED` and `WTERMSIG` as the headers
of libc define them, or as the freestanding build does. -/
def exitStatus : Impl → ℕ → ℤ
  | .gnu, status =>
    if status &&& 0x7f = 0 then ((status &&& 0xff00) >>> 8 : ℕ)
    else if 0 < (Int8.ofNat ((status &&& 0x7f) + 1)).toInt >>> (1 : ℕ) then
      128 + (status &&& 0x7f : ℕ)
    else 0
  | .asm, status =>
    if status &&& 0x7f = 0 then ((status >>> 8) &&& 0xff : ℕ)
    else if status &&& 0x7f ≠ 0 ∧ status &&& 0x7f ≠ 0x7f then 128 + (status &&& 0x7f : ℕ)
    else 0

/-- The shifted `signed char` is positive for the numbers of signals only. -/
theorem signaled_iff :
    ∀ x < 128, 0 < (Int8.ofNat (x + 1)).toInt >>> (1 : ℕ) ↔ x ≠ 0 ∧ x ≠ 0x7f := by
  decide +kernel

theorem exitStatus_eq (impl : Impl) (status : ℕ) : exitStatus impl status = exitCode status := by
  cases impl with
  | gnu =>
    have hlow : status &&& 0x7f < 128 := lt_of_le_of_lt Nat.and_le_right (by decide)
    have hcode : (status &&& 0xff00) >>> 8 = (status >>> 8) &&& 0xff := by
      rw [Nat.shiftRight_and_distrib, show 0xff00 >>> 8 = 0xff from rfl]
    rw [exitStatus, exitCode, hcode]
    simp only [signaled_iff _ hlow]
    split_ifs <;> simp_all
  | asm =>
    rw [exitStatus, exitCode]
    split_ifs <;> simp_all

/-! ### One loop -/

/-- What a scan finds the builds count and signal alike. -/
theorem procRemapSignal_asm (v : ProcView) (sig : ℕ) :
    procRemapSignal .asm v sig (rulesFor sig) = procRemapSignal .gnu v sig (rulesFor sig) := by
  cases hl : v.listing with
  | none => simp only [procRemapSignal, hl]
  | some l =>
    have hshort := shortTargets_rulesFor sig
    rw [procRemapSignal_eq .asm hl sig hshort, procRemapSignal_eq .gnu hl sig hshort]

theorem countDescendants_asm (v : ProcView) :
    countDescendants .asm v = countDescendants .gnu v := by
  simp only [countDescendants, readEntries_eq, pidOf_name]

/-- **The two loops make the same steps.** -/
theorem step_asm (s : State) (l : Label) : step .asm s l = step .gnu s l := by
  cases l with
  | count v => simp only [step, countDescendants_asm]
  | scan first second => simp only [step, procRemapSignal_asm]
  | _ => rfl

theorem exec_asm (s : State) (ls : List Label) : exec (step .asm) s ls = exec (step .gnu) s ls := by
  rw [show step .asm = step .gnu from funext fun s => funext (step_asm s)]

/-! ### The whole program -/

/-- What a run of `main` has come to, with the signals broadcast and the calls of `kill`. -/
inductive Outcome where
  | ended (code : ℤ) (broadcasts : List ℕ) (kills : List (ℤ × ℕ))
  | supervising (broadcasts : List ℕ) (kills : List (ℤ × ℕ))
  deriving Repr, DecidableEq

/-- What the reaper has come to. -/
def State.outcome (s : State) : Outcome :=
  match s.pc with
  | .exited code => .ended code s.broadcasts s.kills
  | _ => .supervising s.broadcasts s.kills

/-- The forwarded signals that arrive after `sigaction` and before `sigprocmask`: their handlers run
at once. -/
def State.caught (s : State) (early : List ℕ) : State :=
  { s with pendingSignals := early.foldl (fun p sig => p ||| 1 <<< (sig - 1)) s.pendingSignals }

/-- `main` on a schedule: the kernel's results of `prctl` and of `fork` in the reaper, the early
signals and the steps from the loop on.  There is no outcome on a list of steps that cannot
happen. -/
def main (impl : Impl) (argc : ℕ) (prctl fork : ℤ) (early : List ℕ) (ls : List Label) :
    Option Outcome :=
  match boot impl argc (impl.callResult prctl) (impl.callResult fork) with
  | .error code => some (.ended code [] [])
  | .ok s => (exec (step impl) (s.caught early) ls).map State.outcome

theorem boot_callResult (impl : Impl) {argc : ℕ} (hargc : 2 ≤ argc) (prctl fork : ℤ) :
    boot impl argc (impl.callResult prctl) (impl.callResult fork) =
      if prctl < 0 then .error 1
      else if impl = .gnu ∧ fork < 0 then .error 1
      else .ok (supervise (impl.callResult fork)) := by
  simp only [boot, hargc.not_gt, Impl.callResult_neg, ↓reduceIte]

/-! ### A loop without a child -/

/-- The places of the main program while the main child has not exited. -/
def Pc.Active : Pc → Prop
  | .loop | .sigsuspend | .drainZombies .active | .handlePending .active
  | .broadcast .active _ => True
  | _ => False

/-- The loop after a `fork` that failed: no child that is reaped can be the main child. -/
structure Unforked (s : State) : Prop where
  mainChild : s.mainChild < 0
  exited : s.childExited = false
  active : s.pc.Active

namespace Unforked

variable {impl : Impl} {s s' : State} {l : Label}

theorem start {fork : ℤ} (h : fork < 0) (early : List ℕ) :
    Unforked ((supervise fork).caught early) :=
  ⟨h, rfl, trivial⟩

theorem move (h : Unforked s) (mainChild : s'.mainChild = s.mainChild)
    (exited : s'.childExited = s.childExited) (active : s'.pc.Active) : Unforked s' :=
  ⟨mainChild ▸ h.mainChild, exited ▸ h.exited, active⟩

theorem returned (h : Unforked s) (rest : List Frame) : Unforked (s.returned rest) := by
  refine h.move rfl rfl ?_
  rw [State.returned]
  split_ifs
  · trivial
  · exact h.active

/-- **The loop goes on**, whatever happens. -/
theorem step (h : Unforked s) (hs : Reaper.step impl s l = some s') : Unforked s' := by
  have hactive := h.active
  cases step_cases hs with
  | record c status hc zombie pc top =>
    -- a pid is positive, and the main child's is not
    have hpid : ¬ (c.pid : ℤ) = (s.reaped c status).mainChild := by
      have := h.mainChild
      show ¬ (c.pid : ℤ) = s.mainChild
      omega
    rw [State.recorded, if_neg hpid]
    exact h.move rfl rfl hactive
  | chldReturn rest pc top => exact h.returned rest
  | drained d pc =>
    rw [pc] at hactive
    cases d with
    | active => exact h.move rfl rfl trivial
    | descendants now => exact hactive.elim
    | final => exact hactive.elim
  | proxyWrite sig seen rest top =>
    exact (h.move rfl rfl hactive :
      Unforked { s with pendingSignals := seen ||| 1 <<< (sig - 1) }).returned rest
  | clock now pc => rw [pc] at hactive; exact hactive.elim
  | count v now pc => rw [pc] at hactive; exact hactive.elim
  | scan first second b sig todo pc =>
    rw [pc] at hactive
    cases b with
    | active => exact h.move rfl rfl trivial
    | descendants => exact hactive.elim
  | loop pc =>
    refine h.move rfl rfl ?_
    simp only [h.exited, Bool.false_eq_true, ↓reduceIte]
    trivial
  | slept pc => rw [pc] at hactive; exact hactive.elim
  | take b pc =>
    rw [pc] at hactive
    cases b with
    | active => exact h.move rfl rfl trivial
    | descendants => exact hactive.elim
  | handled b pc => exact h.move rfl rfl trivial
  | _ => exact h.move rfl rfl hactive

theorem outcome (h : Unforked s) : s.outcome = .supervising s.broadcasts s.kills := by
  have hactive := h.active
  rw [State.outcome]
  split
  · rename_i code hpc
    rw [hpc] at hactive
    exact hactive.elim
  · rfl

end Unforked

/-- **The freestanding build never ends after a failed `fork`.** -/
theorem main_asm_of_fork_neg {argc : ℕ} (hargc : 2 ≤ argc) {prctl fork : ℤ} (hprctl : 0 ≤ prctl)
    (hfork : fork < 0) {early : List ℕ} {ls : List Label} {o : Outcome}
    (ho : main .asm argc prctl fork early ls = some o) : ∃ b k, o = .supervising b k := by
  have hboot : boot .asm argc (Impl.asm.callResult prctl) (Impl.asm.callResult fork) =
      .ok (supervise fork) := by
    rw [boot_callResult .asm hargc, if_neg hprctl.not_gt, if_neg (by simp)]
    rfl
  rw [main, hboot] at ho
  obtain ⟨t, ht, rfl⟩ := Option.map_eq_some_iff.1 ho
  have hend := exec_invariant' (I := Unforked) (fun _ _ _ h hs => h.step hs)
    (.start hfork early) ht
  exact ⟨_, _, hend.outcome⟩

/-- **The two builds on one schedule**, with at least one command argument: the outcome is the same
if and only if `fork` does not fail after a successful `prctl`. -/
theorem builds_agree_iff (argc : ℕ) (hargc : 2 ≤ argc) (prctl fork : ℤ) (early : List ℕ)
    (ls : List Label) :
    main .gnu argc prctl fork early ls = main .asm argc prctl fork early ls ↔
      ¬ (0 ≤ prctl ∧ fork < 0) := by
  by_cases hprctl : prctl < 0
  · have hboot (impl : Impl) : boot impl argc (impl.callResult prctl) (impl.callResult fork) =
        .error 1 := by
      rw [boot_callResult impl hargc, if_pos hprctl]
    simp only [main, hboot, hprctl.not_ge, false_and, not_false_eq_true]
  · have hprctl : 0 ≤ prctl := not_lt.1 hprctl
    by_cases hfork : fork < 0
    · have hgnu : main .gnu argc prctl fork early ls = some (.ended 1 [] []) := by
        rw [main, boot_callResult .gnu hargc, if_neg hprctl.not_gt, if_pos ⟨rfl, hfork⟩]
      refine iff_of_false (fun h => ?_) (fun h => h ⟨hprctl, hfork⟩)
      obtain ⟨b, k, ho⟩ := main_asm_of_fork_neg hargc hprctl hfork (h.symm.trans hgnu)
      cases ho
    · have hboot (impl : Impl) : boot impl argc (impl.callResult prctl) (impl.callResult fork) =
          .ok (supervise fork) := by
        rw [boot_callResult impl hargc, if_neg hprctl.not_gt, if_neg fun h => hfork h.2,
          Impl.callResult_of_nonneg impl (not_lt.1 hfork)]
      refine iff_of_true ?_ fun h => hfork h.2
      simp only [main, hboot, exec_asm]

/-- The main child exits with status 1, `sigchld_handler` reaps it, and the loop ends at the first
iteration after that. -/
def exitRun : List Label :=
  [.run, .exit 7 256, .deliver SIGCHLD, .wait 7, .noZombie, .noZombie, .run, .run, .run, .clock 1,
    .noZombie, .count initView, .noZombie]

theorem builds_agree_exit :
    main .gnu 2 0 7 [] exitRun = main .asm 2 0 7 [] exitRun ∧
      main .gnu 2 0 7 [] exitRun = some (.ended 1 [] []) :=
  ⟨(builds_agree_iff 2 (by decide) 0 7 [] exitRun).2 (by decide), by decide +kernel⟩

/-- **A failed `fork` separates the builds**: one ends with status 1, the other waits in
`sigsuspend`. -/
theorem fork_failure_separates :
    main .gnu 2 0 (-11) [] [.run] = some (.ended 1 [] []) ∧
      main .asm 2 0 (-11) [] [.run] = some (.supervising [] []) ∧
      (exec (step .asm) ((supervise (-11)).caught []) [.run]).map State.pc = some .sigsuspend := by
  decide +kernel

end Reaper

end TuxDock
