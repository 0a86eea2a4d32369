import Mathlib.Data.List.Infix
import Mathlib.Logic.Function.Basic
import TuxDock.Lib.Transition
import TuxDock.Text.Bytes

/-!
# The signal traps of a busy dialog

While an operation is busy Ctrl+C and Ctrl+Z are counted and otherwise ignored.
`InstallSignalTraps` and `RemoveSignalTraps` are run by the screen loop, and a signal may arrive
between any two of their statements.

* `Phase` : what is known of the variables of a signal at any such point;
* `arrivals_in_runs` : **a signal is counted if its trap is set and an operation is busy, and
  otherwise it does what it would do if there were no traps**; without a busy operation no trap is
  left, and while one is busy no signal comes through;
* `ignored_shown` : the dialog says that Ctrl+C was ignored iff it was, since this operation began.
-/

namespace TuxDock

namespace Traps

open Transition Text

/-- The signals that are trapped. -/
inductive Sig where
  | sigint
  | sigtstp
  deriving Repr, DecidableEq

/-- The handler of a signal: `SIG_DFL`, `SIG_IGN`, one of the terminal library, or the trap. -/
inductive Handler where
  | dfl
  | ign
  | library (n : ℕ)
  | trap
  deriving Repr, DecidableEq

/-- What an arriving signal comes to. -/
inductive Effect where
  | counted
  | byDefault
  | ignored
  | called (n : ℕ)
  /-- The trap calls itself without end. -/
  | endless
  deriving Repr, DecidableEq

/-- What the handler does with a signal. -/
def Handler.effect : Handler → Effect
  | dfl => .byDefault
  | ign => .ignored
  | library n => .called n
  | trap => .endless

/-- The variables of a signal, and its handler. -/
structure Trap where
  /-- `g_sigint_trapped`, `g_sigtstp_trapped`, which hold fewer than `2^31` signals. -/
  trapped : ℕ
  /-- `g_sigint_trap_installed`, `g_sigtstp_trap_installed`. -/
  installed : Bool
  /-- `g_sigint_previous`, `g_sigtstp_previous`. -/
  previous : Handler
  handler : Handler

/-- A statement about the traps. -/
inductive Stmt where
  | setBusy (busy : Bool)
  | reset (sig : Sig)
  | install (sig : Sig)
  | restore (sig : Sig)
  deriving Repr, DecidableEq

/-- `InstallSignalTraps`. -/
def installSignalTraps : List Stmt :=
  [.reset .sigint, .reset .sigtstp, .setBusy true, .install .sigint, .install .sigtstp]

/-- `RemoveSignalTraps`. -/
def removeSignalTraps : List Stmt :=
  [.setBusy false, .reset .sigint, .reset .sigtstp, .restore .sigint, .restore .sigtstp]

/-- The traps, and how far the call is that is being made. -/
structure State where
  /-- `g_sigint_busy`. -/
  busy : Bool
  trap : Sig → Trap
  /-- The statements that are left. -/
  todo : List Stmt
  /-- The flag to be set after a call of `sigaction`. -/
  flag : Option (Sig × Bool)
  /-- `SIGINT` has ended the process. -/
  terminated : Bool

/-- `TuxDockHandleSigint` and `TuxDockHandleSigtstp`, with the signal they raise. -/
def Trap.handle (busy : Bool) (t : Trap) : Trap × Effect :=
  if busy then ({ t with trapped := t.trapped + 1 }, .counted)
  else if t.installed = true ∧ t.previous ≠ .dfl then (t, t.previous.effect)
  else ({ t with handler := .dfl }, .byDefault)

/-- A signal arrives, and its handler runs to the end. -/
def Trap.arrive (busy : Bool) (t : Trap) : Trap × Effect :=
  if t.handler = .trap then t.handle busy else (t, t.handler.effect)

namespace State

variable (s : State)

/-- The trap of a signal is changed. -/
def setTrap (sig : Sig) (t : Trap) : State := { s with trap := Function.update s.trap sig t }

/-- What the signal would come to. -/
def effect (sig : Sig) : Effect := ((s.trap sig).arrive s.busy).2

/-- A signal arrives; by default `SIGINT` ends the process. -/
def arrive (sig : Sig) : State :=
  { s.setTrap sig ((s.trap sig).arrive s.busy).1 with
    terminated := sig = .sigint ∧ s.effect sig = .byDefault }

/-- The statement is run; `ok` says whether `sigaction` succeeds.  It fails only for a signal that
cannot be caught, and so never for one that has been. -/
def run (ok : Bool) : Stmt → Option State
  | .setBusy busy => some { s with busy }
  | .reset sig => some (s.setTrap sig { s.trap sig with trapped := 0 })
  | .install sig =>
    let t := s.trap sig
    if t.installed = true ∨ ok = false then some s
    else
      some { s.setTrap sig { t with previous := t.handler, handler := .trap } with
        flag := some (sig, true) }
  | .restore sig =>
    let t := s.trap sig
    if t.installed = false then some s
    else if ok then
      some { s.setTrap sig { t with handler := t.previous } with flag := some (sig, false) }
    else none

end State

/-- What happens next. -/
inductive Label where
  | install
  | remove
  /-- The next statement, with the result of `sigaction` if it calls it. -/
  | run (ok : Bool)
  | arrive (sig : Sig)
  /-- The terminal library sets a handler; it does so only while no operation is busy. -/
  | set (sig : Sig) (handler : Handler)
  deriving DecidableEq

/-- A step, as long as the process has not been ended. -/
def step (s : State) (l : Label) : Option State :=
  if s.terminated then none
  else
    match l with
    | .install =>
      if s.todo = [] ∧ s.flag = none then some { s with todo := installSignalTraps } else none
    | .remove =>
      if s.todo = [] ∧ s.flag = none then some { s with todo := removeSignalTraps } else none
    | .run ok =>
      match s.flag, s.todo with
      | some (sig, installed), _ =>
        some { s.setTrap sig { s.trap sig with installed } with flag := none }
      | none, stmt :: todo => { s with todo }.run ok stmt
      | none, [] => none
    | .arrive sig => some (s.arrive sig)
    | .set sig handler =>
      if s.todo = [] ∧ s.flag = none ∧ s.busy = false ∧ handler ≠ .trap then
        some (s.setTrap sig { s.trap sig with handler })
      else none

/-- At the start of the application. -/
def boot (handlers : Sig → Handler) : State where
  busy := false
  trap sig := ⟨0, false, .dfl, handlers sig⟩
  todo := []
  flag := none
  terminated := false

/-- What `RenderModal` adds to a busy dialog. -/
def ignoredLines (s : State) : List Bytes :=
  (if 0 < (s.trap .sigint).trapped then [lit "Ctrl+C ignored: operation in progress"] else []) ++
    if 0 < (s.trap .sigtstp).trapped then [lit "Ctrl+Z ignored: operation in progress"] else []

/-! ### The steps by name -/

/-- The screen loop is outside the two functions. -/
def State.Idle (s : State) : Prop := s.todo = [] ∧ s.flag = none

/-- The steps, with what each requires and does. -/
inductive Step (s : State) : Label → State → Prop where
  | install (idle : s.Idle) : Step s .install { s with todo := installSignalTraps }
  | remove (idle : s.Idle) : Step s .remove { s with todo := removeSignalTraps }
  | setFlag (ok : Bool) (sig : Sig) (installed : Bool) (flag : s.flag = some (sig, installed)) :
    Step s (.run ok) { s.setTrap sig { s.trap sig with installed } with flag := none }
  | setBusy (ok busy : Bool) (todo : List Stmt) (flag : s.flag = none)
      (next : s.todo = .setBusy busy :: todo) : Step s (.run ok) { s with busy, todo }
  | reset (ok : Bool) (sig : Sig) (todo : List Stmt) (flag : s.flag = none)
      (next : s.todo = .reset sig :: todo) :
    Step s (.run ok) ({ s with todo }.setTrap sig { s.trap sig with trapped := 0 })
  | noInstall (ok : Bool) (sig : Sig) (todo : List Stmt) (flag : s.flag = none)
      (next : s.todo = .install sig :: todo) (no : (s.trap sig).installed = true ∨ ok = false) :
    Step s (.run ok) { s with todo }
  | sigaction (sig : Sig) (todo : List Stmt) (flag : s.flag = none)
      (next : s.todo = .install sig :: todo) (free : (s.trap sig).installed = false) :
    Step s (.run true)
      { { s with todo }.setTrap sig
          { s.trap sig with previous := (s.trap sig).handler, handler := .trap } with
        flag := some (sig, true) }
  | noRestore (ok : Bool) (sig : Sig) (todo : List Stmt) (flag : s.flag = none)
      (next : s.todo = .restore sig :: todo) (free : (s.trap sig).installed = false) :
    Step s (.run ok) { s with todo }
  | restore (sig : Sig) (todo : List Stmt) (flag : s.flag = none)
      (next : s.todo = .restore sig :: todo) (installed : (s.trap sig).installed = true) :
    Step s (.run true)
      { { s with todo }.setTrap sig
          { s.trap sig with handler := (s.trap sig).previous } with
        flag := some (sig, false) }
  | arrive (sig : Sig) : Step s (.arrive sig) (s.arrive sig)
  | set (sig : Sig) (handler : Handler) (idle : s.Idle) (busy : s.busy = false)
      (other : handler ≠ .trap) :
    Step s (.set sig handler) (s.setTrap sig { s.trap sig with handler })

variable {s s' t : State} {l : Label} {ls : List Label} {sig : Sig}

/-- **Every step is one of these.** -/
theorem step_cases (h : step s l = some s') : Step s l s' := by
  obtain ⟨-, h⟩ := Option.ite_none_left_eq_some.1 h
  cases l with
  | install =>
    obtain ⟨hidle, ⟨⟩⟩ := Option.ite_none_right_eq_some.1 h
    exact .install hidle
  | remove =>
    obtain ⟨hidle, ⟨⟩⟩ := Option.ite_none_right_eq_some.1 h
    exact .remove hidle
  | arrive sig =>
    cases h
    exact .arrive sig
  | set sig handler =>
    obtain ⟨⟨htodo, hflag, hbusy, hother⟩, ⟨⟩⟩ := Option.ite_none_right_eq_some.1 h
    exact .set sig handler ⟨htodo, hflag⟩ hbusy hother
  | run ok =>
    simp only at h
    split at h
    · rename_i sig installed hflag
      cases h
      exact .setFlag ok sig installed hflag
    · rename_i stmt todo hflag htodo
      cases stmt with
      | setBusy busy =>
        cases h
        exact .setBusy ok busy todo hflag htodo
      | reset sig =>
        cases h
        exact .reset ok sig todo hflag htodo
      | install sig =>
        simp only [State.run] at h
        split_ifs at h with hno
        · cases h
          exact .noInstall ok sig todo hflag htodo hno
        · cases h
          simp only [not_or, Bool.not_eq_true, Bool.not_eq_false] at hno
          obtain ⟨hfree, rfl⟩ := hno
          exact .sigaction sig todo hflag htodo hfree
      | restore sig =>
        simp only [State.run] at h
        split_ifs at h with hfree hok
        · cases h
          exact .noRestore ok sig todo hflag htodo hfree
        · cases h
          subst hok
          exact .restore sig todo hflag htodo (by simpa using hfree)
    · cases h

/-! ### Between two statements -/

/-- Traps are set only while the busy flag is set, and restored only after it has been cleared. -/
def Ready : Bool → List Stmt → Prop
  | _, [] => True
  | _, .setBusy true :: todo => (∀ sig, .restore sig ∉ todo ∧ .install sig ∈ todo) ∧ Ready true todo
  | _, .setBusy false :: todo => (∀ sig, .restore sig ∈ todo) ∧ Ready false todo
  | busy, .reset _ :: todo => Ready busy todo
  | busy, .install _ :: todo => busy = true ∧ Ready busy todo
  | busy, .restore _ :: todo => busy = false ∧ Ready busy todo

/-- Where a signal is on its way from its handler to the trap and back. -/
inductive Phase (busy : Bool) (todo : List Stmt) (flag : Option (Sig × Bool)) (sig : Sig) :
    Trap → Prop where
  | free (t : Trap) (handler : t.handler ≠ .trap) (installed : t.installed = false)
      (noFlag : ∀ b, flag ≠ some (sig, b)) : Phase busy todo flag sig t
  /-- The trap is set and the flag is not yet. -/
  | taken (t : Trap) (handler : t.handler = .trap) (installed : t.installed = false)
      (isFlag : flag = some (sig, true)) (isBusy : busy = true) : Phase busy todo flag sig t
  | trapped (t : Trap) (handler : t.handler = .trap) (installed : t.installed = true)
      (noFlag : ∀ b, flag ≠ some (sig, b)) (left : busy = true ∨ .restore sig ∈ todo) :
    Phase busy todo flag sig t
  /-- The trap has made way for `SIG_DFL`, and is about to be removed. -/
  | fallen (t : Trap) (handler : t.handler = .dfl) (previous : t.previous = .dfl)
      (installed : t.installed = true) (noFlag : ∀ b, flag ≠ some (sig, b))
      (idle : busy = false) (left : .restore sig ∈ todo) : Phase busy todo flag sig t
  /-- The trap is removed and the flag still set. -/
  | restored (t : Trap) (handler : t.handler = t.previous) (installed : t.installed = true)
      (isFlag : flag = some (sig, false)) (idle : busy = false) : Phase busy todo flag sig t

/-- What holds between any two statements. -/
structure Inv (s : State) : Prop where
  ready : Ready s.busy s.todo
  /-- The trap never saves itself as the handler before it. -/
  previous : ∀ sig, (s.trap sig).previous ≠ .trap
  phase : ∀ sig, Phase s.busy s.todo s.flag sig (s.trap sig)

@[simp] theorem setTrap_trap (s : State) (sig : Sig) (t : Trap) :
    (s.setTrap sig t).trap = Function.update s.trap sig t := rfl

@[simp] theorem setTrap_busy (s : State) (sig : Sig) (t : Trap) :
    (s.setTrap sig t).busy = s.busy := rfl

@[simp] theorem setTrap_todo (s : State) (sig : Sig) (t : Trap) :
    (s.setTrap sig t).todo = s.todo := rfl

@[simp] theorem setTrap_flag (s : State) (sig : Sig) (t : Trap) :
    (s.setTrap sig t).flag = s.flag := rfl

theorem Phase.congr {busy : Bool} {todo todo' : List Stmt} {flag flag' : Option (Sig × Bool)}
    {t t' : Trap} (h : Phase busy todo flag sig t) (handler : t'.handler = t.handler)
    (previous : t'.previous = t.previous) (installed : t'.installed = t.installed)
    (hflag : ∀ b, flag' = some (sig, b) ↔ flag = some (sig, b))
    (hleft : .restore sig ∈ todo → .restore sig ∈ todo') : Phase busy todo' flag' sig t' := by
  cases h with
  | free hhandler hinstalled noFlag =>
    exact .free t' (handler ▸ hhandler) (installed.trans hinstalled)
      fun b hb => noFlag b ((hflag b).1 hb)
  | taken hhandler hinstalled isFlag isBusy =>
    exact .taken t' (handler.trans hhandler) (installed.trans hinstalled) ((hflag _).2 isFlag)
      isBusy
  | trapped hhandler hinstalled noFlag left =>
    exact .trapped t' (handler.trans hhandler) (installed.trans hinstalled)
      (fun b hb => noFlag b ((hflag b).1 hb)) (left.imp id hleft)
  | fallen hhandler hprevious hinstalled noFlag idle left =>
    exact .fallen t' (handler.trans hhandler) (previous.trans hprevious)
      (installed.trans hinstalled) (fun b hb => noFlag b ((hflag b).1 hb)) idle (hleft left)
  | restored hhandler hinstalled isFlag idle =>
    exact .restored t' (by rw [handler, previous, hhandler]) (installed.trans hinstalled)
      ((hflag _).2 isFlag) idle

theorem Phase.next {busy : Bool} {todo todo' : List Stmt} {flag flag' : Option (Sig × Bool)}
    {t : Trap} (h : Phase busy todo flag sig t)
    (hflag : ∀ b, flag' = some (sig, b) ↔ flag = some (sig, b))
    (hleft : .restore sig ∈ todo → .restore sig ∈ todo') : Phase busy todo' flag' sig t :=
  h.congr rfl rfl rfl hflag hleft

theorem Inv.update (hi : Inv s) {u : Trap} (htrap : s'.trap = Function.update s.trap sig u)
    (hready : Ready s'.busy s'.todo) (hprevious : u.previous ≠ .trap)
    (hphase : Phase s'.busy s'.todo s'.flag sig u)
    (hother : ∀ other, other ≠ sig →
      Phase s'.busy s'.todo s'.flag other (s.trap other)) : Inv s' where
  ready := hready
  previous other := by
    rw [htrap]
    by_cases h : other = sig
    · subst h
      rwa [Function.update_self]
    · rw [Function.update_of_ne h]
      exact hi.previous other
  phase other := by
    rw [htrap]
    by_cases h : other = sig
    · subst h
      rwa [Function.update_self]
    · rw [Function.update_of_ne h]
      exact hother other h

theorem mem_tail_of_restore {stmt : Stmt} {todo : List Stmt} (h : stmt ≠ .restore sig)
    (hmem : .restore sig ∈ stmt :: todo) : .restore sig ∈ todo :=
  (List.mem_cons.1 hmem).resolve_left h.symm

/-- Another signal than the one whose flag is set or has still to be set. -/
theorem flag_other {other : Sig} {b : Bool} (h : other ≠ sig) (c : Bool) :
    (none : Option (Sig × Bool)) = some (other, c) ↔ some (sig, b) = some (other, c) := by
  simp [Ne.symm h]

theorem Inv.boot {handlers : Sig → Handler} (h : ∀ sig, handlers sig ≠ .trap) :
    Inv (boot handlers) where
  ready := trivial
  previous _ := Handler.noConfusion
  phase sig := .free _ (h sig) rfl nofun

/-- **A signal that arrives moves no signal**, but for a trap that makes way for `SIG_DFL`. -/
theorem Inv.arrive (hi : Inv s) (sig : Sig) : Inv (s.arrive sig) := by
  have hother (u : Trap) (hprevious : u.previous ≠ .trap)
      (hphase : Phase s.busy s.todo s.flag sig u) :
      Inv { s.setTrap sig u with
        terminated := sig = .sigint ∧ s.effect sig = .byDefault } :=
    hi.update rfl hi.ready hprevious hphase fun other _ => hi.phase other
  refine hother _ ?_ ?_
  · unfold Trap.arrive Trap.handle
    split_ifs <;> exact hi.previous sig
  · have hphase := hi.phase sig
    cases hphase with
    | free handler installed noFlag =>
      rw [Trap.arrive, if_neg handler]
      exact hi.phase sig
    | taken handler installed isFlag isBusy =>
      rw [Trap.arrive, if_pos handler, Trap.handle, if_pos isBusy]
      exact (hi.phase sig).congr rfl rfl rfl (fun _ => Iff.rfl) id
    | trapped handler installed noFlag left =>
      rw [Trap.arrive, if_pos handler, Trap.handle]
      split_ifs with hbusy hprevious
      · exact (hi.phase sig).congr rfl rfl rfl (fun _ => Iff.rfl) id
      · exact hi.phase sig
      · have hdfl : (s.trap sig).previous = .dfl := by
          by_contra hne
          exact hprevious ⟨installed, hne⟩
        exact .fallen _ rfl hdfl installed noFlag (by simpa using hbusy)
          (left.resolve_left hbusy)
    | fallen handler previous installed noFlag idle left =>
      rw [Trap.arrive, if_neg (by rw [handler]; exact Handler.noConfusion)]
      exact hi.phase sig
    | restored handler installed isFlag idle =>
      rw [Trap.arrive, if_neg (by rw [handler]; exact hi.previous sig)]
      exact hi.phase sig

theorem ready_install (busy : Bool) : Ready busy installSignalTraps := by
  refine ⟨fun sig => ?_, rfl, rfl, trivial⟩
  cases sig <;> simp

theorem ready_remove (busy : Bool) : Ready busy removeSignalTraps := by
  refine ⟨fun sig => ?_, rfl, rfl, trivial⟩
  cases sig <;> simp

/-- **Every step preserves the invariant.** -/
theorem Inv.step (hi : Inv s) (h : Traps.step s l = some s') : Inv s' := by
  cases step_cases h with
  | install idle =>
    refine ⟨ready_install s.busy, hi.previous, fun sig => ?_⟩
    refine (hi.phase sig).next (fun _ => Iff.rfl) fun hmem => ?_
    rw [idle.1] at hmem
    cases hmem
  | remove idle =>
    refine ⟨ready_remove s.busy, hi.previous, fun sig => ?_⟩
    refine (hi.phase sig).next (fun _ => Iff.rfl) fun hmem => ?_
    rw [idle.1] at hmem
    cases hmem
  | setFlag ok sig installed flag =>
    refine hi.update rfl hi.ready (hi.previous sig) ?_ fun other hne => ?_
    · cases hi.phase sig with
      | free _ _ noFlag | trapped _ _ noFlag _ | fallen _ _ _ noFlag _ _ =>
        exact absurd flag (noFlag installed)
      | taken handler _ isFlag isBusy =>
        obtain rfl : installed = true := by simpa [flag] using isFlag
        exact .trapped _ handler rfl nofun (.inl isBusy)
      | restored handler _ isFlag idle =>
        obtain rfl : installed = false := by simpa [flag] using isFlag
        refine .free _ ?_ rfl nofun
        exact handler ▸ hi.previous sig
    · exact (hi.phase other).next (fun c => by rw [flag]; exact flag_other hne c) id
  | setBusy ok busy todo flag next =>
    have hready := hi.ready
    rw [next] at hready
    cases busy with
    | true =>
      refine ⟨hready.2, hi.previous, fun sig => ?_⟩
      cases hi.phase sig with
      | free handler installed noFlag => exact .free _ handler installed noFlag
      | taken handler installed isFlag isBusy | restored handler installed isFlag idle =>
        rw [flag] at isFlag
        cases isFlag
      | trapped handler installed noFlag left =>
        exact .trapped _ handler installed noFlag (.inl rfl)
      | fallen handler previous installed noFlag idle left =>
        rw [next] at left
        exact absurd (mem_tail_of_restore (by simp) left) (hready.1 sig).1
    | false =>
      refine ⟨hready.2, hi.previous, fun sig => ?_⟩
      cases hi.phase sig with
      | free handler installed noFlag => exact .free _ handler installed noFlag
      | taken handler installed isFlag isBusy | restored handler installed isFlag idle =>
        rw [flag] at isFlag
        cases isFlag
      | trapped handler installed noFlag left =>
        exact .trapped _ handler installed noFlag (.inr (hready.1 sig))
      | fallen handler previous installed noFlag idle left =>
        exact .fallen _ handler previous installed noFlag rfl (hready.1 sig)
  | reset ok sig todo flag next =>
    have hready := hi.ready
    rw [next] at hready
    have hleft (other : Sig) (hmem : .restore other ∈ s.todo) : .restore other ∈ todo := by
      rw [next] at hmem
      exact mem_tail_of_restore (by simp) hmem
    refine hi.update rfl hready (hi.previous sig) ?_ fun other _ => ?_
    · exact (hi.phase sig).congr rfl rfl rfl (fun _ => Iff.rfl) (hleft sig)
    · exact (hi.phase other).next (fun _ => Iff.rfl) (hleft other)
  | noInstall ok sig todo flag next no =>
    have hready := hi.ready
    rw [next] at hready
    refine ⟨hready.2, hi.previous, fun other => (hi.phase other).next (fun _ => Iff.rfl) ?_⟩
    intro hmem
    rw [next] at hmem
    exact mem_tail_of_restore (by simp) hmem
  | sigaction sig todo flag next free =>
    have hready := hi.ready
    rw [next] at hready
    have hhandler : (s.trap sig).handler ≠ .trap := by
      cases hi.phase sig with
      | free handler _ _ => exact handler
      | taken _ _ isFlag _ | restored _ _ isFlag _ =>
        rw [flag] at isFlag
        cases isFlag
      | trapped _ installed _ _ | fallen _ _ installed _ _ _ =>
        rw [free] at installed
        cases installed
    refine hi.update rfl hready.2 hhandler (.taken _ rfl free rfl hready.1) fun other hne => ?_
    refine (hi.phase other).next (fun c => ?_) fun hmem => ?_
    · rw [flag]
      exact (flag_other hne c).symm
    · rw [next] at hmem
      exact mem_tail_of_restore (by simp) hmem
  | noRestore ok sig todo flag next free =>
    have hready := hi.ready
    rw [next] at hready
    refine ⟨hready.2, hi.previous, fun other => ?_⟩
    by_cases hne : sig = other
    · subst hne
      cases hi.phase sig with
      | free handler installed noFlag => exact .free _ handler installed noFlag
      | taken _ _ isFlag _ | restored _ _ isFlag _ =>
        rw [flag] at isFlag
        cases isFlag
      | trapped _ installed _ _ | fallen _ _ installed _ _ _ =>
        rw [free] at installed
        cases installed
    · refine (hi.phase other).next (fun _ => Iff.rfl) fun hmem => ?_
      rw [next] at hmem
      exact mem_tail_of_restore (by simpa using hne) hmem
  | restore sig todo flag next installed =>
    have hready := hi.ready
    rw [next] at hready
    refine hi.update rfl hready.2 (hi.previous sig) (.restored _ rfl installed rfl hready.1)
      fun other hne => ?_
    refine (hi.phase other).next (fun c => ?_) fun hmem => ?_
    · rw [flag]
      exact (flag_other hne c).symm
    · rw [next] at hmem
      exact mem_tail_of_restore (by simpa using hne.symm) hmem
  | arrive sig => exact hi.arrive sig
  | set sig handler idle busy other =>
    refine hi.update rfl hi.ready (hi.previous sig) ?_ fun other _ => hi.phase other
    cases hi.phase sig with
    | free _ installed noFlag => exact .free _ other installed noFlag
    | taken _ _ isFlag _ | restored _ _ isFlag _ =>
      rw [idle.2] at isFlag
      cases isFlag
    | trapped _ _ _ left =>
      rw [busy, idle.1] at left
      simp at left
    | fallen _ _ _ _ _ left =>
      rw [idle.1] at left
      cases left

/-! ### What a signal comes to -/

/-- The handler there would be without the traps. -/
def Trap.original (t : Trap) : Handler :=
  if t.installed = true ∨ t.handler = .trap then t.previous else t.handler

/-- The handlers that the terminal library has set. -/
def setHandler (handlers : Sig → Handler) : Label → Sig → Handler
  | .set sig handler => Function.update handlers sig handler
  | _ => handlers

theorem effect_eq_counted : s.effect sig = .counted ↔
    s.busy = true ∧ (s.trap sig).handler = .trap := by
  have hother (h : Handler) : h.effect ≠ .counted := by cases h <;> exact Effect.noConfusion
  unfold State.effect Trap.arrive Trap.handle
  split_ifs <;> simp_all

theorem original_installed {t : Trap} (h : t.installed = true) : t.original = t.previous :=
  if_pos (.inl h)

theorem original_trapped {t : Trap} (h : t.handler = .trap) : t.original = t.previous :=
  if_pos (.inr h)

theorem original_free {t : Trap} (installed : t.installed = false) (handler : t.handler ≠ .trap) :
    t.original = t.handler := if_neg (by simp [installed, handler])

/-- **A signal that is not counted does what it would do without the traps.** -/
theorem Inv.effect (hi : Inv s) (h : s.effect sig ≠ .counted) :
    s.effect sig = (s.trap sig).original.effect := by
  rw [Ne, effect_eq_counted] at h
  cases hi.phase sig with
  | free handler installed _ =>
    rw [State.effect, Trap.arrive, if_neg handler, original_free installed handler]
  | taken handler _ _ isBusy => exact absurd ⟨isBusy, handler⟩ h
  | trapped handler installed _ _ =>
    have hbusy : s.busy = false := by simpa [handler] using h
    rw [original_installed installed, State.effect, Trap.arrive, if_pos handler, Trap.handle,
      if_neg (by simp [hbusy])]
    split_ifs with hprevious
    · rfl
    · have hdfl : (s.trap sig).previous = .dfl := by
        by_contra hne
        exact hprevious ⟨installed, hne⟩
      rw [hdfl]
      rfl
  | fallen handler previous installed _ _ _ =>
    rw [State.effect, Trap.arrive, if_neg (by simp [handler]), original_installed installed,
      handler, previous]
  | restored handler installed _ _ =>
    rw [State.effect, Trap.arrive, if_neg (by rw [handler]; exact hi.previous sig),
      original_installed installed, handler]

theorem Inv.original_arrive (hi : Inv s) (sig : Sig) :
    ((s.trap sig).arrive s.busy).1.original = (s.trap sig).original := by
  unfold Trap.arrive Trap.handle
  split_ifs with htrap hbusy hprevious
  · rfl
  · rfl
  · -- without the busy flag a trap is set only as long as its flag is
    cases hi.phase sig with
    | free handler _ _ => exact absurd htrap handler
    | taken _ _ _ isBusy => exact absurd isBusy hbusy
    | trapped _ installed _ _ | fallen _ _ installed _ _ _ | restored _ installed _ _ =>
      rw [original_installed installed]
      exact original_installed installed
  · rfl

/-- Only the terminal library changes the handler there would be. -/
theorem Inv.original_step (hi : Inv s) {handlers : Sig → Handler}
    (horiginal : ∀ sig, (s.trap sig).original = handlers sig) (h : Traps.step s l = some s')
    (sig : Sig) : (s'.trap sig).original = setHandler handlers l sig := by
  have hupdate (moved : Sig) {u : Trap} (hu : u.original = (s.trap moved).original) :
      (Function.update s.trap moved u sig).original = handlers sig := by
    by_cases hne : sig = moved
    · subst hne
      rw [Function.update_self, hu, horiginal]
    · rw [Function.update_of_ne hne, horiginal]
  cases step_cases h with
  | install | remove | setBusy | noInstall | noRestore => exact horiginal sig
  | setFlag ok moved installed flag =>
    refine hupdate moved ?_
    cases hi.phase moved with
    | free _ _ noFlag | trapped _ _ noFlag _ | fallen _ _ _ noFlag _ _ =>
      exact absurd flag (noFlag installed)
    | taken handler _ _ _ =>
      rw [original_trapped handler]
      exact original_trapped handler
    | restored handler before isFlag _ =>
      obtain rfl : installed = false := by simpa [flag] using isFlag
      rw [original_installed before]
      exact (original_free rfl (handler ▸ hi.previous moved)).trans handler
  | reset ok moved => exact hupdate moved rfl
  | sigaction moved todo flag next free =>
    refine hupdate moved ?_
    cases hi.phase moved with
    | free handler installed _ =>
      rw [original_free installed handler]
      exact original_trapped rfl
    | taken _ _ isFlag _ | restored _ _ isFlag _ =>
      rw [flag] at isFlag
      cases isFlag
    | trapped _ installed _ _ | fallen _ _ installed _ _ _ =>
      rw [free] at installed
      cases installed
  | restore moved todo flag next installed =>
    refine hupdate moved ?_
    rw [original_installed installed]
    exact original_installed installed
  | arrive moved => exact hupdate moved (hi.original_arrive moved)
  | set moved handler idle busy other =>
    simp only [setHandler, setTrap_trap]
    by_cases hne : sig = moved
    · subst hne
      rw [Function.update_self, Function.update_self]
      cases hi.phase sig with
      | free _ installed _ => exact original_free installed other
      | taken _ _ isFlag _ | restored _ _ isFlag _ =>
        rw [idle.2] at isFlag
        cases isFlag
      | trapped _ _ _ left =>
        rw [busy, idle.1] at left
        simp at left
      | fallen _ _ _ _ _ left =>
        rw [idle.1] at left
        cases left
    · rw [Function.update_of_ne hne, Function.update_of_ne hne, horiginal]

/-- While an operation is busy the traps are set, or about to be. -/
def Armed (s : State) : Prop :=
  s.busy = true → ∀ sig, (s.trap sig).handler = .trap ∨ .install sig ∈ s.todo

theorem mem_tail_of_install {stmt : Stmt} {todo : List Stmt} (h : stmt ≠ .install sig)
    (hmem : .install sig ∈ stmt :: todo) : .install sig ∈ todo :=
  (List.mem_cons.1 hmem).resolve_left h.symm

/-- **If `sigaction` succeeds, every step preserves this.** -/
theorem Armed.step (h : Armed s) (hi : Inv s) (hok : l ≠ .run false)
    (hstep : Traps.step s l = some s') : Armed s' := by
  have hready := hi.ready
  cases step_cases hstep with
  | install idle | remove idle =>
    intro hbusy sig
    rcases h hbusy sig with hset | hleft
    · exact .inl hset
    · rw [idle.1] at hleft
      cases hleft
  | setFlag ok moved installed flag =>
    intro hbusy sig
    refine (h hbusy sig).imp (fun hset => ?_) id
    by_cases hne : sig = moved
    · subst hne
      simpa using hset
    · simpa [Function.update_of_ne hne] using hset
  | setBusy ok busy todo flag next =>
    rintro rfl sig
    rw [next] at hready
    exact .inr (hready.1 sig).2
  | reset ok moved todo flag next =>
    intro hbusy sig
    refine (h hbusy sig).imp (fun hset => ?_) fun hleft => ?_
    · by_cases hne : sig = moved
      · subst hne
        simpa using hset
      · simpa [Function.update_of_ne hne] using hset
    · rw [next] at hleft
      exact mem_tail_of_install (by simp) hleft
  | noInstall ok moved todo flag next no =>
    intro hbusy sig
    have hinstalled : (s.trap moved).installed = true :=
      no.resolve_right (by rintro rfl; exact hok rfl)
    rw [next] at hready
    by_cases hne : moved = sig
    · subst hne
      cases hi.phase moved with
      | free _ installed _ | taken _ installed _ _ =>
        rw [hinstalled] at installed
        cases installed
      | trapped handler _ _ _ => exact .inl handler
      | fallen _ _ _ _ idle _ | restored _ _ _ idle =>
        rw [hready.1] at idle
        cases idle
    · refine (h hbusy sig).imp id fun hleft => ?_
      rw [next] at hleft
      exact mem_tail_of_install (by simpa using hne) hleft
  | sigaction moved todo flag next free =>
    intro hbusy sig
    by_cases hne : sig = moved
    · subst hne
      exact .inl (by simp)
    · refine (h hbusy sig).imp (fun hset => ?_) fun hleft => ?_
      · simpa [Function.update_of_ne hne] using hset
      · rw [next] at hleft
        exact mem_tail_of_install (by simpa using Ne.symm hne) hleft
  | noRestore ok moved todo flag next free | restore moved todo flag next installed =>
    intro hbusy
    rw [next] at hready
    exact absurd (hready.1.symm.trans hbusy) Bool.false_ne_true
  | arrive moved =>
    intro hbusy sig
    refine (h hbusy sig).imp (fun hset => ?_) id
    by_cases hne : sig = moved
    · subst hne
      have hbusy : s.busy = true := hbusy
      simp [State.arrive, Trap.arrive, Trap.handle, hbusy, hset]
    · simpa [State.arrive, Function.update_of_ne hne] using hset
  | set moved handler idle busy other =>
    intro hbusy
    exact absurd (busy.symm.trans hbusy) Bool.false_ne_true

theorem inv_of_exec {handlers : Sig → Handler} (hhandlers : ∀ sig, handlers sig ≠ .trap)
    (hs : exec step (boot handlers) ls = some s) :
    Inv s ∧ ∀ sig, (s.trap sig).original = ls.foldl setHandler handlers sig := by
  refine exec_history
    (H := fun (b : Sig → Handler) s => Inv s ∧ ∀ sig, (s.trap sig).original = b sig) ?_ ?_ hs
  · rintro handlers s l s' ⟨hi, horiginal⟩ hstep
    exact ⟨hi.step hstep, hi.original_step horiginal hstep⟩
  · exact ⟨.boot hhandlers, fun sig => original_free rfl (hhandlers sig)⟩

/-- **What a signal comes to.**  In every run, with signals arriving between any two statements, a
signal is counted if its trap is set and an operation is busy, and otherwise it does what the
handler last set by the terminal library does.  Outside the two functions that handler is in place
if no operation is busy, and if one is, and no call of `sigaction` has failed, the signal is
counted. -/
theorem arrivals_in_runs (handlers : Sig → Handler) (hhandlers : ∀ sig, handlers sig ≠ .trap)
    (ls : List Label) (s : State) (hs : exec step (boot handlers) ls = some s) (sig : Sig) :
    (s.effect sig = if s.busy = true ∧ (s.trap sig).handler = .trap then .counted
      else (ls.foldl setHandler handlers sig).effect) ∧
    (s.Idle → s.busy = false → (s.trap sig).handler = ls.foldl setHandler handlers sig) ∧
    (s.Idle → s.busy = true → .run false ∉ ls → s.effect sig = .counted) := by
  obtain ⟨hi, horiginal⟩ := inv_of_exec hhandlers hs
  refine ⟨?_, ?_, ?_⟩
  · split_ifs with hcounted
    · exact effect_eq_counted.2 hcounted
    · rw [← horiginal sig]
      exact hi.effect fun h => hcounted (effect_eq_counted.1 h)
  · intro hidle hbusy
    rw [← horiginal sig]
    cases hi.phase sig with
    | free handler installed _ => exact (original_free installed handler).symm
    | taken _ _ isFlag _ | restored _ _ isFlag _ =>
      rw [hidle.2] at isFlag
      cases isFlag
    | trapped _ _ _ left =>
      rw [hbusy, hidle.1] at left
      simp at left
    | fallen _ _ _ _ _ left =>
      rw [hidle.1] at left
      cases left
  · intro hidle hbusy hok
    have harmed : Inv s ∧ Armed s := by
      have hmeet : StepsMeet step (fun _ l => l ≠ Label.run false) (boot handlers) ls :=
        stepsMeet_of_forall fun l hl h => hok (h ▸ hl)
      refine exec_invariant (I := fun s => Inv s ∧ Armed s) ?_ ⟨.boot hhandlers, ?_⟩ hmeet hs
      · rintro s l s' ⟨hi, h⟩ hok hstep
        exact ⟨hi.step hstep, h.step hi hok hstep⟩
      · exact fun h => absurd h Bool.false_ne_true
    rcases harmed.2 hbusy sig with hset | hleft
    · exact effect_eq_counted.2 ⟨hbusy, hset⟩
    · rw [hidle.1] at hleft
      cases hleft

/-! ### What the dialog says -/

/-- The arrivals of the signal that were counted. -/
def swallowed (sig : Sig) (n : ℕ) (s : State) (l : Label) (_ : State) : ℕ :=
  if l = .arrive sig ∧ s.effect sig = .counted then n + 1 else n

/-- During `InstallSignalTraps` and after it the counter, once reset, is the number of signals
counted since its beginning. -/
structure Counting (sig : Sig) (n : ℕ) (s : State) : Prop where
  done : ∃ done, done ++ s.todo = installSignalTraps ∧
    (s.busy = true ↔ .setBusy true ∈ done) ∧
    (.reset sig ∈ done → (s.trap sig).trapped = n) ∧ (.reset sig ∉ done → n = 0)

/-- The counters are reset before the busy flag is set. -/
theorem reset_of_setBusy {done todo : List Stmt} (h : done ++ todo = installSignalTraps)
    (hbusy : .setBusy true ∈ done) : .reset sig ∈ done := by
  have hall : ∀ k ≤ 5, .setBusy true ∈ installSignalTraps.take k →
      .reset sig ∈ installSignalTraps.take k := by
    cases sig <;> decide
  have htake : done = installSignalTraps.take done.length := by simp [← h]
  have hlength : done.length ≤ 5 := by
    have := congrArg List.length h
    rw [List.length_append] at this
    exact Nat.le_trans (Nat.le_add_right _ _) this.le
  rw [htake] at hbusy ⊢
  exact hall _ hlength hbusy

theorem trapped_update {moved : Sig} {u : Trap} (h : u.trapped = (s.trap moved).trapped) :
    (Function.update s.trap moved u sig).trapped = (s.trap sig).trapped := by
  by_cases hne : sig = moved
  · subst hne
    rwa [Function.update_self]
  · rw [Function.update_of_ne hne]

/-- A signal that is not counted leaves the counter as it is. -/
theorem trapped_arrive (h : s.effect sig ≠ .counted) :
    ((s.trap sig).arrive s.busy).1.trapped = (s.trap sig).trapped := by
  rw [Ne, effect_eq_counted] at h
  unfold Trap.arrive Trap.handle
  split_ifs with htrap hbusy
  · exact absurd ⟨hbusy, htrap⟩ h
  · rfl
  · rfl
  · rfl

@[simp] theorem swallowed_run (n : ℕ) (ok : Bool) : swallowed sig n s (.run ok) s' = n :=
  if_neg fun h => Label.noConfusion h.1

/-- **Every step but the next `InstallSignalTraps` or `RemoveSignalTraps` preserves this.** -/
theorem Counting.step {n : ℕ} (h : Counting sig n s) (hok : l ≠ .install ∧ l ≠ .remove)
    (hstep : Traps.step s l = some s') : Counting sig (swallowed sig n s l s') s' := by
  obtain ⟨done, happend, hbusy, hcounted, hzero⟩ := h.done
  have hrun {stmt : Stmt} {todo : List Stmt} (next : s.todo = stmt :: todo) :
      (done ++ [stmt]) ++ todo = installSignalTraps := by
    rw [List.append_assoc, ← happend, next]
    rfl
  -- a statement that neither resets the counter nor changes the busy flag
  have hother {u : State} {stmt : Stmt} {todo : List Stmt} (next : s.todo = stmt :: todo)
      (hreset : stmt ≠ .reset sig) (hset : stmt ≠ .setBusy true) (htodo : u.todo = todo)
      (hsame : u.busy = s.busy) (htrapped : (u.trap sig).trapped = (s.trap sig).trapped) :
      Counting sig n u := by
    refine ⟨done ++ [stmt], htodo ▸ hrun next, ?_, ?_, ?_⟩
    · simp [hsame, hbusy, hset.symm]
    · simpa [htrapped, hreset.symm] using hcounted
    · simpa [hreset.symm] using hzero
  have hnever {stmt : Stmt} {todo : List Stmt} (next : s.todo = stmt :: todo)
      (hmem : stmt ∉ installSignalTraps) : False := by
    rw [← hrun next] at hmem
    simp at hmem
  cases step_cases hstep with
  | install => exact absurd rfl hok.1
  | remove => exact absurd rfl hok.2
  | setFlag ok moved installed flag =>
    rw [swallowed_run]
    refine ⟨done, happend, hbusy, fun hmem => ?_, hzero⟩
    rw [← hcounted hmem]
    exact trapped_update rfl
  | setBusy ok busy todo flag next =>
    rw [swallowed_run]
    cases busy with
    | false => exact absurd (hnever next (by decide)) id
    | true =>
      refine ⟨done ++ [.setBusy true], hrun next, by simp, ?_, ?_⟩
      · simpa using hcounted
      · simpa using hzero
  | reset ok moved todo flag next =>
    rw [swallowed_run]
    by_cases hne : moved = sig
    · subst hne
      have hnodup : (done ++ [Stmt.reset moved] ++ todo).Nodup := by
        rw [hrun next]
        decide
      have hfirst : Stmt.reset moved ∉ done := by
        intro hmem
        have := (List.nodup_append.1 (List.nodup_append.1 hnodup).1).2.2
        exact this _ hmem _ (List.mem_singleton_self _) rfl
      refine ⟨done ++ [.reset moved], hrun next, ?_, fun _ => ?_, ?_⟩
      · simpa using hbusy
      · rw [hzero hfirst]
        simp
      · simp
    · refine hother next (by simpa using hne) (by simp) rfl rfl ?_
      simp [Function.update_of_ne (Ne.symm hne)]
  | noInstall ok moved todo flag next no =>
    rw [swallowed_run]
    exact hother next (by simp) (by simp) rfl rfl rfl
  | sigaction moved todo flag next free =>
    rw [swallowed_run]
    exact hother next (by simp) (by simp) rfl rfl (trapped_update rfl)
  | noRestore ok moved todo flag next free | restore moved todo flag next installed =>
    exact absurd (hnever next (by cases moved <;> decide)) id
  | arrive moved =>
    by_cases hcount : Label.arrive moved = .arrive sig ∧ s.effect sig = .counted
    · obtain ⟨hsig, heffect⟩ := hcount
      obtain rfl := Label.arrive.inj hsig
      obtain ⟨hset, htrap⟩ := effect_eq_counted.1 heffect
      have hreset : .reset moved ∈ done := reset_of_setBusy happend (hbusy.1 hset)
      rw [swallowed, if_pos ⟨rfl, heffect⟩]
      refine ⟨done, happend, hbusy, fun _ => ?_, fun hmem => absurd hreset hmem⟩
      simp [State.arrive, Trap.arrive, Trap.handle, htrap, hset, hcounted hreset]
    · rw [swallowed, if_neg hcount]
      refine ⟨done, happend, hbusy, fun hmem => ?_, hzero⟩
      rw [← hcounted hmem]
      by_cases hne : sig = moved
      · subst hne
        refine trapped_update (trapped_arrive fun h => hcount ⟨rfl, h⟩)
      · simp [State.arrive, Function.update_of_ne hne]
  | set moved handler idle busy other =>
    rw [swallowed, if_neg fun h => Label.noConfusion h.1]
    refine ⟨done, happend, hbusy, fun hmem => ?_, hzero⟩
    rw [← hcounted hmem]
    exact trapped_update rfl

/-- After `InstallSignalTraps` the counter is the number of signals that have been counted. -/
theorem trapped_eq_noted (hbusy : s.busy = false)
    (hok : ∀ l ∈ ls, l ≠ .install ∧ l ≠ .remove) (ht : exec step s (.install :: ls) = some t)
    (hidle : t.Idle) (sig : Sig) :
    (t.trap sig).trapped = noted step (swallowed sig) 0 s (.install :: ls) := by
  obtain ⟨s', hs', ht⟩ := exec_cons_eq_some.1 ht
  have hbegin : Counting sig 0 s' := by
    cases step_cases hs' with
    | install => exact ⟨[], rfl, by simp [hbusy], by simp, fun _ => rfl⟩
  have hnoted : noted step (swallowed sig) 0 s (.install :: ls) =
      noted step (swallowed sig) 0 s' ls := by
    rw [noted, hs']
    rfl
  have hmeet : StepsMeet step (fun _ l => l ≠ Label.install ∧ l ≠ .remove) s' ls :=
    stepsMeet_of_forall hok
  have hcounting : Counting sig (noted step (swallowed sig) 0 s' ls) t :=
    exec_noted_of_stepsMeet (fun _ _ _ _ h hl hstep => h.step hl hstep) hbegin hmeet ht
  obtain ⟨done, happend, -, hcounted, -⟩ := hcounting.done
  rw [hidle.1, List.append_nil] at happend
  rw [hnoted]
  refine hcounted ?_
  rw [happend]
  cases sig <;> decide

/-- **The dialog says what was ignored.**  Whenever a busy dialog is drawn, it says that Ctrl+C was
ignored iff it was counted at least once since `InstallSignalTraps` of this operation was called,
whatever arrived before, and so for Ctrl+Z. -/
theorem ignored_shown (s : State) (hbusy : s.busy = false) (ls : List Label)
    (hok : ∀ l ∈ ls, l ≠ .install ∧ l ≠ .remove) (t : State)
    (ht : exec step s (.install :: ls) = some t) (hidle : t.Idle) :
    (lit "Ctrl+C ignored: operation in progress" ∈ ignoredLines t ↔
      0 < noted step (swallowed .sigint) 0 s (.install :: ls)) ∧
    (lit "Ctrl+Z ignored: operation in progress" ∈ ignoredLines t ↔
      0 < noted step (swallowed .sigtstp) 0 s (.install :: ls)) := by
  have hne : lit "Ctrl+C ignored: operation in progress" ≠
      lit "Ctrl+Z ignored: operation in progress" := by decide +kernel
  rw [← trapped_eq_noted hbusy hok ht hidle, ← trapped_eq_noted hbusy hok ht hidle, ignoredLines]
  constructor <;> split_ifs <;> simp_all [hne.symm]

/-! ### Ctrl+C during an operation -/

/-- The traps are set, and Ctrl+C and Ctrl+Z are pressed. -/
def busyRun : List Label :=
  [.run true, .run true, .run true, .run true, .run true, .run true, .run true, .arrive .sigint,
    .arrive .sigtstp, .arrive .sigint]

/-- Then the busy flag is cleared, and the traps are still set. -/
def ctrlCRun : List Label := .install :: busyRun ++ [.remove, .run true]

/-- At the start the terminal library handles both signals. -/
def libraryHandlers : Sig → Handler := fun _ => .library 1

theorem arrivals_in_runs_ctrlC : ∃ s, exec step (boot libraryHandlers) ctrlCRun = some s ∧
    (s.trap .sigint).handler = .trap ∧ s.effect .sigint = .called 1 := by
  have hrun : (exec step (boot libraryHandlers) ctrlCRun).map
      (fun s => (s.busy, (s.trap .sigint).handler)) = some (false, .trap) := by decide +kernel
  obtain ⟨s, hs, hfields⟩ := Option.map_eq_some_iff.1 hrun
  simp only [Prod.mk.injEq] at hfields
  obtain ⟨heffect, -, -⟩ := arrivals_in_runs libraryHandlers
    (fun _ => Handler.noConfusion) ctrlCRun s hs .sigint
  rw [hfields.1, if_neg (by simp)] at heffect
  exact ⟨s, hs, hfields.2, heffect.trans (by decide)⟩

theorem ignored_shown_ctrlC : ∃ t, exec step (boot libraryHandlers) (.install :: busyRun) = some t ∧
    lit "Ctrl+C ignored: operation in progress" ∈ ignoredLines t := by
  have hrun : (exec step (boot libraryHandlers) (.install :: busyRun)).map
      (fun t => (t.todo, t.flag)) = some ([], none) := by decide +kernel
  obtain ⟨t, ht, hfields⟩ := Option.map_eq_some_iff.1 hrun
  simp only [Prod.mk.injEq] at hfields
  have hshown := ignored_shown (boot libraryHandlers) rfl busyRun (by decide) t ht hfields
  exact ⟨t, ht, hshown.1.2 (by decide +kernel)⟩

end Traps

end TuxDock
