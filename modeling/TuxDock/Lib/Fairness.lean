import Mathlib.Data.Nat.Find
import Mathlib.Order.WellFounded
import TuxDock.Lib.Transition

/-!
# Runs that go on forever

A run without an end, the parties that make its steps, and what happens in it in the end if no
party is kept waiting.

* `Run.WeaklyFair` : a party that can make a step from some time on makes one;
* `Run.invariant` : what steps preserve holds at any time;
* `Run.stays` : what holds at some time and steps preserve from there on holds at any later time;
* `Run.exists_first` : what is reached at last is reached for the first time;
* `Run.exists_turn` : **a party that is enabled until it makes a step makes one**;
* `Run.map` : the run of an abstraction;
* `Run.leadsTo` : **the rule for what is reached at last**: a rank that no step raises, and that the
  party whose turn it is lowers, comes to the goal if all such parties are treated fairly.
-/

namespace TuxDock

namespace Transition

variable {σ ℓ : Type*} {step : σ → ℓ → Option σ}

/-- A run from `s` that goes on forever. -/
structure Run (step : σ → ℓ → Option σ) (s : σ) where
  /-- The state after `n` steps. -/
  state : ℕ → σ
  /-- The label of the step after that. -/
  label : ℕ → ℓ
  start : state 0 = s
  next : ∀ n, step (state n) (label n) = some (state (n + 1))

/-- One of the labels can happen. -/
def Enabled (step : σ → ℓ → Option σ) (party : ℓ → Prop) (s : σ) : Prop :=
  ∃ l, party l ∧ (step s l).isSome

namespace Run

variable {s : σ} (r : Run step s)

/-- A party that can make a step at any time from `n` on makes one. -/
def WeaklyFair (party : ℓ → Prop) : Prop :=
  ∀ n, (∀ m, n ≤ m → Enabled step party (r.state m)) → ∃ m, n ≤ m ∧ party (r.label m)

variable {r}

/-- **What steps preserve holds at any time.** -/
theorem invariant {I : σ → Prop} (hstep : ∀ s l t, I s → step s l = some t → I t) (hs : I s)
    (n : ℕ) : I (r.state n) := by
  induction n with
  | zero => rwa [r.start]
  | succ n ih => exact hstep _ _ _ ih (r.next n)

/-- What holds at some time, and what steps after it preserve, holds at any later time. -/
theorem stays {P : ℕ → Prop} {n m : ℕ} (hstep : ∀ k, n ≤ k → P k → P (k + 1)) (hn : P n)
    (hm : n ≤ m) : P m := by
  induction m, hm using Nat.le_induction with
  | base => exact hn
  | succ m hm ih => exact hstep m hm ih

/-- What is reached at last is reached for the first time. -/
theorem exists_first {P : ℕ → Prop} {n : ℕ} (h : ∃ m, n ≤ m ∧ P m) :
    ∃ m, n ≤ m ∧ P m ∧ ∀ k, n ≤ k → k < m → ¬ P k := by
  classical
  obtain ⟨hm, hP⟩ := Nat.find_spec h
  exact ⟨Nat.find h, hm, hP, fun k hk hkm hPk => Nat.find_min h hkm ⟨hk, hPk⟩⟩

/-- **The turn of a party comes.**  As long as it makes no step the party stays enabled, so it makes
one, and until then what keeps it enabled is kept. -/
theorem exists_turn {P : ℕ → Prop} {party : ℓ → Prop} {n : ℕ} (hfair : r.WeaklyFair party)
    (henabled : ∀ m, P m → Enabled step party (r.state m))
    (hstay : ∀ m, P m → ¬ party (r.label m) → P (m + 1)) (hn : P n) :
    ∃ m, n ≤ m ∧ P m ∧ party (r.label m) := by
  by_contra hnone
  push Not at hnone
  have hkept : ∀ m, n ≤ m → P m := fun m hm =>
    stays (fun k hk hP => hstay k hP (hnone k hk hP)) hn hm
  obtain ⟨m, hm, hparty⟩ := hfair n fun m hm => henabled m (hkept m hm)
  exact hnone m hm (hkept m hm) hparty

/-- The run of an abstraction, each step of which is one of it. -/
def map {τ μ : Type*} {step' : τ → μ → Option τ} (r : Run step s) (f : σ → τ) (g : σ → ℓ → μ)
    (hnext : ∀ n, step' (f (r.state n)) (g (r.state n) (r.label n)) = some (f (r.state (n + 1)))) :
    Run step' (f s) where
  state n := f (r.state n)
  label n := g (r.state n) (r.label n)
  start := congrArg f r.start
  next := hnext

section LeadsTo

variable {α ι : Type*} [LT α] {goal : ℕ → Prop} {rank : ℕ → α} {turn : ℕ → ι}
  {party : ι → ℓ → Prop} {n : ℕ}

/-- From time `n` on a step that does not reach the goal lowers the rank, or it leaves the rank and
the turn as they are and is made by another party than the one whose turn it is, which could have
made one. -/
structure Waits (r : Run step s) (goal : ℕ → Prop) (rank : ℕ → α) (turn : ℕ → ι)
    (party : ι → ℓ → Prop) (n : ℕ) : Prop where
  enabled : ∀ m, n ≤ m → ¬ goal m → Enabled step (party (turn m)) (r.state m)
  lower : ∀ m, n ≤ m → ¬ goal m → goal (m + 1) ∨ rank (m + 1) < rank m ∨
    rank (m + 1) = rank m ∧ turn (m + 1) = turn m ∧ ¬ party (turn m) (r.label m)

/-- The party whose turn it is makes a step, if the goal is not reached before. -/
theorem exists_lower (hwaits : r.Waits goal rank turn party n)
    (hfair : ∀ i, r.WeaklyFair (party i)) (hnever : ∀ m, n ≤ m → ¬ goal m) {m : ℕ} (hm : n ≤ m) :
    ∃ l, m ≤ l ∧ rank l < rank m := by
  by_contra hnone
  push Not at hnone
  -- until then the rank and the turn stay as they are
  have hstay (l : ℕ) (hl : m ≤ l) (hsame : rank l = rank m ∧ turn l = turn m) :
      rank (l + 1) = rank m ∧ turn (l + 1) = turn m ∧ ¬ party (turn m) (r.label l) := by
    rcases hwaits.lower l (hm.trans hl) (hnever l (hm.trans hl)) with
      hgoal | hlower | ⟨hrank, hturn, hother⟩
    · exact absurd hgoal (hnever _ (by omega))
    · rw [hsame.1] at hlower
      exact absurd hlower (hnone _ (by omega))
    · rw [hsame.2] at hother
      exact ⟨hrank.trans hsame.1, hturn.trans hsame.2, hother⟩
  have hsame (l : ℕ) (hl : m ≤ l) : rank l = rank m ∧ turn l = turn m := by
    refine stays (P := fun l => rank l = rank m ∧ turn l = turn m) ?_ ⟨rfl, rfl⟩ hl
    intro k hk hsame
    obtain ⟨hrank, hturn, -⟩ := hstay k hk hsame
    exact ⟨hrank, hturn⟩
  have henabled : ∀ l, m ≤ l → Enabled step (party (turn m)) (r.state l) := by
    intro l hl
    rw [← (hsame l hl).2]
    exact hwaits.enabled l (hm.trans hl) (hnever l (hm.trans hl))
  obtain ⟨l, hl, hparty⟩ := hfair (turn m) m henabled
  exact (hstay l hl (hsame l hl)).2.2 hparty

/-- **What is reached at last.**  Where no step raises the rank before the goal is reached, and the
party whose turn it is can always make a step, which lowers it, a run that treats these parties
fairly comes to the goal. -/
theorem leadsTo [WellFoundedLT α] (hwaits : r.Waits goal rank turn party n)
    (hfair : ∀ i, r.WeaklyFair (party i)) : ∃ m, n ≤ m ∧ goal m := by
  by_contra hnone
  push Not at hnone
  -- by induction on the rank there is no time at which the run has it
  have hrank (x : α) : ∀ k, n ≤ k → rank k ≠ x := by
    induction x using WellFoundedLT.induction with
    | ind x ih =>
      rintro k hk rfl
      obtain ⟨m, hm, hlower⟩ := exists_lower hwaits hfair hnone hk
      exact ih _ hlower m (hk.trans hm) rfl
  exact hrank _ n le_rfl rfl

end LeadsTo

end Run

end Transition

end TuxDock
