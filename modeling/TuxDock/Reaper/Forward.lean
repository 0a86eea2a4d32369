import TuxDock.Reaper.Drain

/-!
# Signals while the workload runs

In the branch for the running workload the caught signals are delivered inside `sigsuspend`, their
handlers set bits of `g_pending_signals`, and `handle_pending_signals` broadcasts what it finds
there.  `g_pending_signals |= bit` reads and writes, and a handler may run between the two.

* `Iteration` : a turn of the main loop;
* `Covers` : a handler that writes has read the bits that it overwrites;
* `forwarding_exact` : **an iteration of such steps broadcasts the signals delivered in it**, each
  once, and no others;
* `interrupt_lost` : a handler that runs between the read and the write of another one, and whose
  bit is lost.
-/

namespace TuxDock

namespace Reaper

open Transition

/-! ### Iterations -/

/-- A turn of the main loop: the step from its head and the steps up to its next return there. -/
def Iteration (impl : Impl) (s : State) (ls : List Label) (t : State) : Prop :=
  s.pc = .loop ∧ t.pc = .loop ∧ ∃ s₁, step impl s .run = some s₁ ∧
    exec (step impl) s₁ ls = some t ∧ StepsMeet (step impl) (fun s _ => s.pc ≠ .loop) s₁ ls

/-- The innermost handler, if it is about to write, has read every bit of `g_pending_signals`, its
own apart. -/
def CoversPending (pendingSignals : ℕ) : List Frame → Prop
  | .proxy sig (some seen) :: _ =>
    pendingSignals ||| (seen ||| 1 <<< (sig - 1)) = seen ||| 1 <<< (sig - 1)
  | _ => True

instance (p : ℕ) : ∀ frames, Decidable (CoversPending p frames)
  | .proxy sig (some seen) :: _ =>
    inferInstanceAs (Decidable (p ||| (seen ||| 1 <<< (sig - 1)) = seen ||| 1 <<< (sig - 1)))
  | .proxy _ none :: _ | .chld :: _ | [] => inferInstanceAs (Decidable True)

/-- A handler that writes has read what it overwrites. -/
def Covers (s : State) : Label → Prop
  | .handler => CoversPending s.pendingSignals s.handlers
  | _ => True

instance (s : State) : ∀ l, Decidable (Covers s l)
  | .handler => inferInstanceAs (Decidable (CoversPending s.pendingSignals s.handlers))
  | .exit _ _ | .adopt _ | .arrive _ | .deliver _ | .wait _ | .noZombie | .clock _ | .count _
  | .scan _ _ | .run => inferInstanceAs (Decidable True)

/-- The forwarded signal a step delivers. -/
def Label.forwards : Label → List ℕ
  | .deliver sig => if sig ∈ forwarded then [sig] else []
  | _ => []

/-- Signals in ascending order, each once. -/
def ascending (sigs : List ℕ) : List ℕ := (List.range' 1 31).filter fun sig => sig ∈ sigs

theorem one_le_of_forwarded : ∀ sig ∈ forwarded, 1 ≤ sig ∧ sig ≤ 31 := by decide

theorem mem_forwards {sig : ℕ} {l : Label} :
    sig ∈ l.forwards ↔ sig ∈ forwarded ∧ l = .deliver sig := by
  cases l with
  | deliver sig' =>
    rw [Label.forwards, Label.deliver.injEq]
    split_ifs with h
    · rw [List.mem_singleton]
      constructor
      · rintro rfl
        exact ⟨h, rfl⟩
      · exact fun hsig => hsig.2.symm
    · simp only [List.not_mem_nil, false_iff, not_and]
      rintro hsig rfl
      exact h hsig
  | _ => simp [Label.forwards]

theorem mem_flatMap_forwards {sig : ℕ} {ls : List Label} :
    sig ∈ ls.flatMap Label.forwards ↔ sig ∈ forwarded ∧ .deliver sig ∈ ls := by
  rw [List.mem_flatMap]
  constructor
  · rintro ⟨l, hl, hsig⟩
    obtain ⟨hforwarded, rfl⟩ := mem_forwards.1 hsig
    exact ⟨hforwarded, hl⟩
  · rintro ⟨hforwarded, hl⟩
    exact ⟨.deliver sig, hl, mem_forwards.2 ⟨hforwarded, rfl⟩⟩

/-- The handler of a delivered signal notes it exactly if it is a forwarded one. -/
theorem start_eq_proxy_iff {sig sig' : ℕ} {seen : Option ℕ} (hsig : sig ∈ blockMask) :
    Frame.start sig = .proxy sig' seen ↔
      seen = none ∧ sig' ∈ (Label.deliver sig).forwards := by
  rw [mem_forwards, Label.deliver.injEq, Frame.start]
  split_ifs with hchld
  · subst hchld
    simp only [false_iff]
    rintro ⟨-, hforwarded, rfl⟩
    exact absurd hforwarded (by decide)
  · have hforwarded : sig ∈ forwarded := (List.mem_cons.1 hsig).resolve_left hchld
    rw [Frame.proxy.injEq]
    constructor
    · rintro ⟨rfl, rfl⟩
      exact ⟨rfl, hforwarded, rfl⟩
    · rintro ⟨rfl, -, rfl⟩
      exact ⟨rfl, rfl⟩

theorem mem_ascending {sig : ℕ} {sigs : List ℕ} (h : ∀ sig ∈ sigs, sig ∈ forwarded) :
    sig ∈ ascending sigs ↔ sig ∈ sigs := by
  rw [ascending, List.mem_filter, decide_eq_true_eq, List.mem_range'_1]
  constructor
  · exact And.right
  · intro hsig
    have := one_le_of_forwarded sig (h sig hsig)
    exact ⟨by omega, hsig⟩

theorem pairwise_ascending (sigs : List ℕ) : (ascending sigs).Pairwise (· < ·) :=
  List.Pairwise.filter _ List.pairwise_lt_range'

/-- A bit mask of some signals is broadcast as these signals. -/
theorem pendingList_eq {p : ℕ} {sigs : List ℕ} (h : ∀ i, p.testBit i = true ↔ i + 1 ∈ sigs) :
    pendingList p = ascending sigs := by
  refine List.filter_congr ?_
  intro sig hsig
  have hpos := (List.mem_range'_1.1 hsig).1
  rw [Bool.eq_iff_iff, decide_eq_true_eq, h, Nat.sub_add_cancel hpos]

/-! ### What the handlers keep -/

theorem testBit_set {p n i : ℕ} :
    (p ||| 1 <<< n).testBit i = true ↔ p.testBit i = true ∨ i = n := by
  rw [Nat.testBit_lor, Nat.one_shiftLeft, Nat.testBit_two_pow, Bool.or_eq_true, decide_eq_true_eq,
    eq_comm (a := n)]

/-- The bits and the running handlers are of the signals delivered in the iteration, and each of
these is in the mask or still has its handler. -/
structure Masked (cur : List ℕ) (s : State) : Prop where
  forwarded : ∀ sig ∈ cur, sig ∈ forwarded
  bits : ∀ i, s.pendingSignals.testBit i = true → i + 1 ∈ cur
  frames : ∀ sig seen, Frame.proxy sig seen ∈ s.handlers →
    sig ∈ cur ∧ ∀ v ∈ seen, ∀ i, v.testBit i = true → i + 1 ∈ cur
  kept : ∀ sig ∈ cur, s.pendingSignals.testBit (sig - 1) = true ∨
    ∃ seen, Frame.proxy sig seen ∈ s.handlers

namespace Masked

variable {cur : List ℕ} {s s' : State}

theorem congr (h : Masked cur s) (handlers : s'.handlers = s.handlers)
    (pendingSignals : s'.pendingSignals = s.pendingSignals) : Masked cur s' where
  forwarded := h.forwarded
  bits := by rw [pendingSignals]; exact h.bits
  frames := by rw [handlers]; exact h.frames
  kept := by rw [handlers, pendingSignals]; exact h.kept

theorem start (hhandlers : s.handlers = []) (hzero : s.pendingSignals = 0) : Masked [] s where
  forwarded _ h := absurd h List.not_mem_nil
  bits i h := by
    rw [hzero, Nat.zero_testBit] at h
    cases h
  frames sig seen h := by
    rw [hhandlers] at h
    cases h
  kept _ h := absurd h List.not_mem_nil

/-- With no handler running the mask has exactly the signals delivered. -/
theorem exact (h : Masked cur s) (hhandlers : s.handlers = []) (i : ℕ) :
    s.pendingSignals.testBit i = true ↔ i + 1 ∈ cur := by
  refine ⟨h.bits i, ?_⟩
  intro hi
  rcases h.kept (i + 1) hi with hbit | ⟨seen, hframe⟩
  · exact hbit
  · rw [hhandlers] at hframe
    cases hframe

theorem delivered (h : Masked cur s) {sig : ℕ} (hsig : sig ∈ blockMask) :
    Masked (cur ++ (Label.deliver sig).forwards) (s.delivered sig) := by
  have hhandlers : (s.delivered sig).handlers = Frame.start sig :: s.handlers := rfl
  refine ⟨?_, ?_, ?_, ?_⟩
  · intro sig' h'
    rcases List.mem_append.1 h' with h' | h'
    · exact h.forwarded sig' h'
    · exact (mem_forwards.1 h').1
  · intro i hi
    exact List.mem_append_left _ (h.bits i hi)
  · intro sig' seen hframe
    rw [hhandlers, List.mem_cons] at hframe
    rcases hframe with hnew | hold
    · obtain ⟨rfl, hmem⟩ := (start_eq_proxy_iff hsig).1 hnew.symm
      exact ⟨List.mem_append_right _ hmem, fun v hv => nomatch hv⟩
    · obtain ⟨hmem, hseen⟩ := h.frames sig' seen hold
      refine ⟨List.mem_append_left _ hmem, ?_⟩
      intro v hv i hi
      exact List.mem_append_left _ (hseen v hv i hi)
  · intro sig' h'
    rw [hhandlers]
    rcases List.mem_append.1 h' with h' | h'
    · rcases h.kept sig' h' with hbit | ⟨seen, hframe⟩
      · exact Or.inl hbit
      · exact Or.inr ⟨seen, List.mem_cons_of_mem _ hframe⟩
    · have hstart := (start_eq_proxy_iff hsig).2 ⟨rfl, h'⟩
      exact Or.inr ⟨none, hstart ▸ List.mem_cons_self⟩

theorem proxyRead (h : Masked cur s) {sig : ℕ} {rest : List Frame}
    (top : s.handlers = .proxy sig none :: rest) :
    Masked cur { s with handlers := .proxy sig (some s.pendingSignals) :: rest } := by
  refine ⟨h.forwarded, h.bits, ?_, ?_⟩
  · intro sig' seen hframe
    rcases List.mem_cons.1 hframe with hnew | hold
    · cases hnew
      refine ⟨(h.frames sig none (top ▸ List.mem_cons_self)).1, ?_⟩
      rintro v ⟨⟩ i hi
      exact h.bits i hi
    · exact h.frames sig' seen (top ▸ List.mem_cons_of_mem _ hold)
  · intro sig' hmem
    rcases h.kept sig' hmem with hbit | ⟨seen, hframe⟩
    · exact Or.inl hbit
    · rw [top] at hframe
      rcases List.mem_cons.1 hframe with hnew | hold
      · cases hnew
        exact Or.inr ⟨_, List.mem_cons_self⟩
      · exact Or.inr ⟨seen, List.mem_cons_of_mem _ hold⟩

/-- The write of a handler that has read what it overwrites. -/
theorem proxyWrite (h : Masked cur s) {sig seen : ℕ} {rest : List Frame}
    (top : s.handlers = .proxy sig (some seen) :: rest)
    (hcovers : s.pendingSignals ||| (seen ||| 1 <<< (sig - 1)) = seen ||| 1 <<< (sig - 1)) :
    Masked cur ({ s with pendingSignals := seen ||| 1 <<< (sig - 1) }.returned rest) := by
  obtain ⟨hsig, hseen⟩ := h.frames sig (some seen) (top ▸ List.mem_cons_self)
  have hpos := (one_le_of_forwarded sig (h.forwarded sig hsig)).1
  refine ⟨h.forwarded, ?_, ?_, ?_⟩
  · intro i hi
    rcases testBit_set.1 hi with hold | rfl
    · exact hseen seen rfl i hold
    · rwa [Nat.sub_add_cancel hpos]
  · intro sig' seen' hframe
    exact h.frames sig' seen' (top ▸ List.mem_cons_of_mem _ hframe)
  · intro sig' hmem
    rcases h.kept sig' hmem with hbit | ⟨seen', hframe⟩
    · left
      show (seen ||| 1 <<< (sig - 1)).testBit (sig' - 1) = true
      rw [← hcovers, Nat.testBit_lor, hbit, Bool.true_or]
    · rw [top] at hframe
      rcases List.mem_cons.1 hframe with hnew | hold
      · cases hnew
        exact Or.inl (testBit_set.2 (Or.inr rfl))
      · exact Or.inr ⟨seen', hold⟩

theorem chldReturn (h : Masked cur s) {rest : List Frame} (top : s.handlers = .chld :: rest) :
    Masked cur (s.returned rest) := by
  refine ⟨h.forwarded, h.bits, ?_, ?_⟩
  · intro sig seen hframe
    exact h.frames sig seen (top ▸ List.mem_cons_of_mem _ hframe)
  · intro sig hmem
    rcases h.kept sig hmem with hbit | ⟨seen, hframe⟩
    · exact Or.inl hbit
    · rw [top] at hframe
      rcases List.mem_cons.1 hframe with hnew | hold
      · cases hnew
      · exact Or.inr ⟨seen, hold⟩

end Masked

/-- A handler that does not cover what it overwrites clears a bit. -/
theorem write_loses_bit {impl : Impl} {s s' : State} (hcovers : ¬ Covers s .handler)
    (hs : step impl s .handler = some s') :
    ∃ i, s.pendingSignals.testBit i = true ∧ s'.pendingSignals.testBit i = false := by
  cases step_cases hs with
  | proxyRead sig rest top => exact absurd (by rw [Covers, top]; trivial) hcovers
  | proxyWrite sig seen rest top =>
    by_contra hkept
    refine hcovers ?_
    rw [Covers, top]
    refine Nat.eq_of_testBit_eq ?_
    intro i
    rw [Nat.testBit_lor]
    cases hbit : s.pendingSignals.testBit i with
    | false => rw [Bool.false_or]
    | true =>
      rw [Bool.true_or]
      by_contra hclear
      exact hkept ⟨i, hbit, Bool.eq_false_iff.2 (Ne.symm hclear)⟩

/-! ### An iteration -/

/-- A state of an iteration that started with `base` broadcast, after the deliveries of `cur`. -/
def TurnInv (base cur : List ℕ) (s : State) : Prop :=
  match s.pc with
  | .sigsuspend | .drainZombies .active | .handlePending .active =>
    s.broadcasts = base ∧ Masked cur s
  | .broadcast .active todo =>
    s.broadcasts ++ todo = base ++ ascending cur ∧ s.pendingSignals = 0 ∧
      ∀ sig ∈ cur, sig ∈ forwarded
  | .loop =>
    s.broadcasts = base ++ ascending cur ∧ s.pendingSignals = 0 ∧ ∀ sig ∈ cur, sig ∈ forwarded
  | _ => False

namespace TurnInv

variable {impl : Impl} {base cur : List ℕ} {s s' : State} {l : Label}

theorem congr (h : TurnInv base cur s) (pc : s'.pc = s.pc) (handlers : s'.handlers = s.handlers)
    (pendingSignals : s'.pendingSignals = s.pendingSignals)
    (broadcasts : s'.broadcasts = s.broadcasts) : TurnInv base cur s' := by
  rw [TurnInv, pc, pendingSignals, broadcasts]
  rw [TurnInv] at h
  split at h
  · exact ⟨h.1, h.2.congr handlers pendingSignals⟩
  · exact ⟨h.1, h.2.congr handlers pendingSignals⟩
  · exact ⟨h.1, h.2.congr handlers pendingSignals⟩
  · exact h
  · exact h
  · exact h

theorem suspended (h : TurnInv base cur s) (pc : s.pc = .sigsuspend) :
    s.broadcasts = base ∧ Masked cur s := by
  simpa only [TurnInv, pc] using h

/-- A handler has returned, the last one to the main loop. -/
theorem returned (pc : s.pc = .sigsuspend) {rest : List Frame} (hbase : s.broadcasts = base)
    (hmasked : Masked cur (s.returned rest)) : TurnInv base cur (s.returned rest) := by
  by_cases hrest : rest = []
  · have hpc : (s.returned rest).pc = .drainZombies .active := if_pos hrest
    simp only [TurnInv, hpc]
    exact ⟨hbase, hmasked⟩
  · have hpc : (s.returned rest).pc = .sigsuspend := (if_neg hrest).trans pc
    simp only [TurnInv, hpc]
    exact ⟨hbase, hmasked⟩

theorem step_other (h : TurnInv base cur s) (hi : DrainInv s) (hloop : s.pc ≠ .loop)
    (hcovers : Covers s l) (hl : ∀ sig, l ≠ .deliver sig)
    (hs : Reaper.step impl s l = some s') : TurnInv base cur s' := by
  cases step_cases hs with
  | deliver sig pc pending unblocked => exact absurd rfl (hl sig)
  | record c status hc zombie pc top =>
    refine h.congr ?_ ?_ ?_ ?_ <;>
    · rw [State.recorded]
      split_ifs <;> rfl
  | chldReturn rest pc top =>
    obtain ⟨hbase, hmasked⟩ := h.suspended pc
    exact returned pc hbase (hmasked.chldReturn top)
  | proxyRead sig rest top =>
    have pc := hi.pc_of_handler top
    obtain ⟨hbase, hmasked⟩ := h.suspended pc
    simp only [TurnInv, pc]
    exact ⟨hbase, (hmasked.proxyRead top).congr rfl rfl⟩
  | proxyWrite sig seen rest top =>
    have pc := hi.pc_of_handler top
    obtain ⟨hbase, hmasked⟩ := h.suspended pc
    rw [Covers, top] at hcovers
    exact returned (s := { s with pendingSignals := seen ||| 1 <<< (sig - 1) }) pc hbase
      (hmasked.proxyWrite top hcovers)
  | drained d pc =>
    cases d with
    | active =>
      simp only [TurnInv, pc] at h
      simp only [TurnInv, afterDrain]
      exact ⟨h.1, h.2.congr rfl rfl⟩
    | descendants now => simp only [TurnInv, pc] at h
    | final => simp only [TurnInv, pc] at h
  | clock now pc => simp only [TurnInv, pc] at h
  | count v now pc => simp only [TurnInv, pc] at h
  | scan first second b sig todo pc =>
    cases b with
    | active =>
      simp only [TurnInv, pc] at h
      obtain ⟨hsent, hrest⟩ := h
      simp only [TurnInv]
      exact ⟨by rw [List.append_assoc]; exact hsent, hrest⟩
    | descendants => simp only [TurnInv, pc] at h
  | loop pc => exact absurd pc hloop
  | slept pc => simp only [TurnInv, pc] at h
  | take b pc =>
    cases b with
    | active =>
      simp only [TurnInv, pc] at h
      obtain ⟨hbase, hmasked⟩ := h
      -- no handler runs any more, and the mask is what has been delivered
      have hhandlers : s.handlers = [] := hi.handlers (by rw [pc]; exact Pc.noConfusion)
      simp only [TurnInv]
      rw [hbase, pendingList_eq (hmasked.exact hhandlers)]
      exact ⟨rfl, trivial, hmasked.forwarded⟩
    | descendants => simp only [TurnInv, pc] at h
  | handled b pc =>
    cases b with
    | active =>
      simp only [TurnInv, pc] at h
      simp only [TurnInv]
      rwa [List.append_nil] at h
    | descendants => simp only [TurnInv, pc] at h
  | _ => exact h.congr rfl rfl rfl rfl

/-- **Every step of an iteration preserves the invariant.** -/
theorem step (h : TurnInv base cur s) (hi : DrainInv s)
    (hcaught : ∀ sig ∈ s.pending, sig ∈ blockMask) (hloop : s.pc ≠ .loop) (hcovers : Covers s l)
    (hs : Reaper.step impl s l = some s') : TurnInv base (cur ++ l.forwards) s' := by
  cases l with
  | deliver sig =>
    cases step_cases hs with
    | deliver _ pc pending unblocked =>
      obtain ⟨hbase, hmasked⟩ := h.suspended pc
      have hpc : (s.delivered sig).pc = .sigsuspend := pc
      simp only [TurnInv, hpc]
      exact ⟨hbase, hmasked.delivered (hcaught sig pending)⟩
  | _ =>
    rw [show Label.forwards _ = [] from rfl, List.append_nil]
    exact h.step_other hi hloop hcovers (fun _ => Label.noConfusion) hs

end TurnInv

/-- Only signals that are caught arrive. -/
theorem caught_step {impl : Impl} {s s' : State} {l : Label}
    (h : ∀ sig ∈ s.pending, sig ∈ blockMask) (hs : step impl s l = some s') :
    ∀ sig ∈ s'.pending, sig ∈ blockMask := by
  cases step_cases hs with
  | exit c hc alive status =>
    intro sig hsig
    rcases Finset.mem_insert.1 hsig with rfl | hold
    · exact List.mem_cons_self
    · exact h sig hold
  | arrive sig' caught =>
    intro sig hsig
    rcases Finset.mem_insert.1 hsig with rfl | hold
    · exact caught
    · exact h sig hold
  | deliver sig' pc pending unblocked =>
    intro sig hsig
    exact h sig (Finset.mem_of_mem_erase hsig)
  | record c status hc zombie pc top =>
    have hpending : ((s.reaped c status).recorded c.pid status).pending = s.pending := by
      rw [State.recorded]
      split_ifs <;> rfl
    rw [hpending]
    exact h
  | _ => exact h

/-- **Forwarding is exact in an iteration whose handlers cover what they overwrite.**  From any
state that a run reaches at the head of the loop before the exit of the main child is recorded, the
next iteration broadcasts the forwarded signals delivered in it, in ascending order, each once, and
leaves nothing in `g_pending_signals`. -/
theorem forwarding_exact (impl : Impl) (argc : ℕ) (prctl fork : ℤ) (s₀ s t : State)
    (hs₀ : boot impl argc prctl fork = .ok s₀) (before : List Label)
    (hs : exec (step impl) s₀ before = some s) (hexited : s.childExited = false) (ls : List Label)
    (hturn : Iteration impl s ls t) (hcovers : StepsMeet (step impl) Covers s (.run :: ls)) :
    ∃ sent, t.broadcasts = s.broadcasts ++ sent ∧ sent.Pairwise (· < ·) ∧
      (∀ sig, sig ∈ sent ↔ sig ∈ forwarded ∧ .deliver sig ∈ ls) ∧ t.pendingSignals = 0 := by
  obtain ⟨hloop, hend, s₁, hs₁, ht, hinside⟩ := hturn
  have hdrain₀ : DrainInv s₀ ∧ ∀ sig ∈ s₀.pending, sig ∈ blockMask := by
    rw [boot_ok hs₀]
    exact ⟨.supervise fork, fun sig hsig => absurd hsig (Finset.notMem_empty sig)⟩
  have hreached : DrainInv s ∧ ∀ sig ∈ s.pending, sig ∈ blockMask := by
    refine exec_invariant' (I := fun s => DrainInv s ∧ ∀ sig ∈ s.pending, sig ∈ blockMask) ?_
      hdrain₀ hs
    intro u l u' hu hstep
    exact ⟨hu.1.step hstep, caught_step hu.2 hstep⟩
  obtain ⟨hdrain, hcaught⟩ := hreached
  have hstart : TurnInv s.broadcasts [] s₁ := by
    have hs₁' : s₁ = { s with pc := .sigsuspend } := by
      rw [step, hloop] at hs₁
      simpa [hexited] using hs₁.symm
    rw [hs₁']
    exact ⟨rfl, .start (hdrain.handlers (by rw [hloop]; exact Pc.noConfusion))
      (hdrain.cleared (by rw [hloop]; exact id))⟩
  have hinv : DrainInv t ∧ (∀ sig ∈ t.pending, sig ∈ blockMask) ∧
      TurnInv s.broadcasts (ls.flatMap Label.forwards) t := by
    refine exec_labels (H := fun ls u => DrainInv u ∧ (∀ sig ∈ u.pending, sig ∈ blockMask) ∧
      TurnInv s.broadcasts (ls.flatMap Label.forwards) u) ?_
      ⟨hdrain.step hs₁, caught_step hcaught hs₁, hstart⟩ (hinside.and (hcovers.2 s₁ hs₁)) ht
    intro ls u l u' hu hok hstep
    rw [List.flatMap_append, List.flatMap_singleton]
    exact ⟨hu.1.step hstep, caught_step hu.2.1 hstep,
      hu.2.2.step hu.1 hu.2.1 hok.1 hok.2 hstep⟩
  obtain ⟨-, -, hinv⟩ := hinv
  simp only [TurnInv, hend] at hinv
  obtain ⟨hsent, hzero, hforwarded⟩ := hinv
  refine ⟨ascending (ls.flatMap Label.forwards), hsent, pairwise_ascending _, ?_, hzero⟩
  intro sig
  rw [mem_ascending hforwarded, mem_flatMap_forwards]

/-! ### Two signals in one `sigsuspend` -/

theorem iteration_supervise (impl : Impl) (ls : List Label) {bs : List ℕ}
    (h : (exec (step impl) { supervise 7 with pc := .sigsuspend } ls).map
      (fun t => (t.pc, t.broadcasts)) = some (.loop, bs))
    (hinside : StepsMeet (step impl) (fun s _ => s.pc ≠ .loop)
      { supervise 7 with pc := .sigsuspend } ls) :
    ∃ t, Iteration impl (supervise 7) ls t ∧ t.broadcasts = bs := by
  obtain ⟨t, ht, hfields⟩ := Option.map_eq_some_iff.1 h
  rw [Prod.mk.injEq] at hfields
  exact ⟨t, ⟨rfl, hfields.1, _, rfl, ht, hinside⟩, hfields.2⟩

/-- `SIGINT` is delivered before the handler of `SIGTERM` has read the mask, and the main child
exits in the same `sigsuspend`. -/
def nested : List Label :=
  [.arrive SIGTERM, .arrive SIGINT, .exit 7 0, .deliver SIGTERM, .deliver SIGINT, .deliver SIGCHLD,
    .wait 7, .noZombie, .handler, .handler, .handler, .handler, .noZombie, .run,
    .scan fpmView fpmView, .scan fpmView fpmView, .run]

theorem forwarding_exact_nested : ∃ t, Iteration .gnu (supervise 7) nested t ∧
    SIGINT ∈ t.broadcasts ∧ SIGTERM ∈ t.broadcasts ∧ t.pendingSignals = 0 := by
  obtain ⟨t, hturn, -⟩ := iteration_supervise .gnu nested
    (show _ = some (Pc.loop, [SIGINT, SIGTERM]) by decide +kernel) (by decide +kernel)
  obtain ⟨sent, hsent, -, hmem, hzero⟩ := forwarding_exact .gnu 2 0 7 (supervise 7) (supervise 7) t
    rfl [] rfl rfl nested hturn (by decide +kernel)
  have hbroadcasts : t.broadcasts = sent := hsent
  refine ⟨t, hturn, ?_, ?_, hzero⟩
  · rw [hbroadcasts, hmem]
    exact ⟨by decide, by simp [nested]⟩
  · rw [hbroadcasts, hmem]
    exact ⟨by decide, by simp [nested]⟩

/-- `SIGINT` is delivered between the read and the write of the handler of `SIGTERM`. -/
def interrupted : List Label :=
  [.arrive SIGTERM, .arrive SIGINT, .deliver SIGTERM, .handler, .deliver SIGINT, .handler, .handler,
    .handler, .noZombie, .run, .scan fpmView fpmView, .run]

/-- **`SIGINT` is delivered and never broadcast**: the handler it interrupts writes back a mask
without its bit. -/
theorem interrupt_lost :
    (∃ t, Iteration .gnu (supervise 7) interrupted t ∧ t.broadcasts = [SIGTERM]) ∧
      (∃ t, Iteration .asm (supervise 7) interrupted t ∧ t.broadcasts = [SIGTERM]) ∧
      .deliver SIGINT ∈ interrupted ∧ SIGINT ∈ forwarded := by
  refine ⟨iteration_supervise .gnu interrupted (by decide +kernel) (by decide +kernel),
    iteration_supervise .asm interrupted (by decide +kernel) (by decide +kernel), ?_, by decide⟩
  simp [interrupted]

end Reaper

end TuxDock
