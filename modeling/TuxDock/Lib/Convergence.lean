import Mathlib.Order.Filter.AtTopBot.Basic
import Mathlib.Order.Filter.Finite
import TuxDock.Lib.Fairness
import TuxDock.Lib.Pipeline

/-!
# Pipelines that settle

A pipeline whose producers fetch one and the same value from some time on.  What was fetched before
may still be on its way and overtake it, but not for ever.

* `Settling` : what has been fetched from the time on is the value: **a step preserves it**;
* `eventually_flying`, `eventually_queue`, `eventually_held` : what was fetched before leaves the
  hands of the producers, then the queue, and then the holder;
* `Pipeline.converges` : **in the end the value is held, and nothing replaces it.**
-/

namespace TuxDock

namespace Pipeline

open Transition Filter

variable {π α : Type*}

/-- All that was fetched from time `c` on is the value `v`. -/
structure Settling (c : ℕ) (v : α) (s : State π α) : Prop where
  flying : ∀ p fetched value, s.flying p = some (fetched, value) → c ≤ fetched → value = v
  stamps : ∀ x ∈ s.stamps, c ≤ x.fetched → x.value = v

/-- What the producer has in hand was fetched from time `c` on. -/
def State.Current (c : ℕ) (s : State π α) (p : π) : Prop :=
  ∀ fetched value, s.flying p = some (fetched, value) → c ≤ fetched

/-- All that is posted was fetched from time `c` on, except for the first `k` values. -/
def State.CurrentFrom (c k : ℕ) (s : State π α) : Prop := ∀ x ∈ s.queue.drop k, c ≤ x.fetched

/-- A value is held that was fetched from time `c` on. -/
def State.Holds (c : ℕ) (s : State π α) : Prop := ∃ x, s.held = some x ∧ c ≤ x.fetched

variable {s s' : State π α} {c k : ℕ} {v : α} {p : π}

theorem Settling.mono (h : Settling c v s) (hstamps : s'.stamps ⊆ s.stamps)
    (hflying : s'.flying = s.flying) : Settling c v s' :=
  ⟨fun q fetched value hq => h.flying q fetched value (hflying ▸ hq),
    fun x hx => h.stamps x (hstamps hx)⟩

/-! ### Steps -/

variable [DecidableEq π] {event : Event π α}

theorem clock_step (hstep : Pipeline.step s event = some s') : s'.clock = s.clock + 1 := by
  cases steps_of_step hstep <;> rfl

/-- What a producer has in hand after a fetch. -/
theorem flying_fetch_cases {q : π} {value : α} {fetched : ℕ} {value' : α}
    (h : (s.fetch q value).flying p = some (fetched, value')) :
    fetched = s.clock ∧ value' = value ∧ p = q ∨ s.flying p = some (fetched, value') := by
  have h : Function.update s.flying q (some (s.clock, value)) p = some (fetched, value') := h
  by_cases hpq : p = q
  · subst hpq
    rw [Function.update_self] at h
    cases h
    exact .inl ⟨rfl, rfl, rfl⟩
  · rw [Function.update_of_ne hpq] at h
    exact .inr h

/-- What a producer has in hand after a post it had before, and it is another producer. -/
theorem flying_of_post {q : π} {posted : ℕ} {value : α} {fetched : ℕ} {value' : α}
    (h : (s.post q posted value).flying p = some (fetched, value')) :
    s.flying p = some (fetched, value') ∧ p ≠ q := by
  have h : Function.update s.flying q none p = some (fetched, value') := h
  by_cases hpq : p = q
  · subst hpq
    rw [Function.update_self] at h
    cases h
  · rw [Function.update_of_ne hpq] at h
    exact ⟨h, hpq⟩

/-- **What is fetched from some time on is one value**: a step preserves it. -/
theorem Settling.step (h : Settling c v s)
    (hlatest : ∀ p value, event = .fetch p value → c ≤ s.clock → value = v)
    (hstep : Pipeline.step s event = some s') : Settling c v s' := by
  cases steps_of_step hstep with
  | fetch q value free =>
    refine ⟨?_, h.stamps⟩
    intro p fetched value' hp hc
    rcases flying_fetch_cases hp with ⟨rfl, rfl, rfl⟩ | hp
    · exact hlatest p value' rfl hc
    · exact h.flying p fetched value' hp hc
  | post q fetched value flies =>
    refine ⟨fun p fetched' value' hp => h.flying p fetched' value' (flying_of_post hp).1, ?_⟩
    intro x hx
    have hstamps : (s.post q fetched value).stamps = s.stamps ++ [⟨q, fetched, s.clock, value⟩] :=
      (List.append_assoc _ _ _).symm
    rw [hstamps, List.mem_append, List.mem_singleton] at hx
    rcases hx with hx | rfl
    · exact h.stamps x hx
    · exact h.flying q fetched value flies
  | deliver keep stamp queue next =>
    refine h.mono ?_ rfl
    rw [State.stamps, State.stamps, next]
    cases keep with
    | false => exact ((List.sublist_cons_self stamp queue).append_left _).subset
    | true => exact (List.sublist_append_right _ _).subset
  | tick => exact h.mono (List.Subset.refl _) rfl

/-- What a producer has in hand stays current. -/
theorem current_step (h : s.Current c p) (hclock : c ≤ s.clock)
    (hstep : Pipeline.step s event = some s') : s'.Current c p := by
  cases steps_of_step hstep with
  | fetch q value free =>
    intro fetched value' hp
    rcases flying_fetch_cases hp with ⟨rfl, -, -⟩ | hp
    · exact hclock
    · exact h fetched value' hp
  | post q fetched value flies => exact fun fetched' value' hp => h _ _ (flying_of_post hp).1
  | deliver | tick => exact h

/-- A producer that has posted has nothing in hand. -/
theorem current_post (hstep : Pipeline.step s (.post p) = some s') : s'.Current c p := by
  cases steps_of_step hstep with
  | post p fetched value flies =>
    intro fetched' value' hp
    exact absurd rfl (flying_of_post hp).2

/-- What is posted is current if what the producers have in hand is. -/
theorem currentFrom_step (h : s.CurrentFrom c k) (hflying : ∀ p, s.Current c p)
    (hstep : Pipeline.step s event = some s') : s'.CurrentFrom c k := by
  cases steps_of_step hstep with
  | fetch | tick => exact h
  | post q fetched value flies =>
    intro x hx
    simp only [State.post, List.drop_append, List.mem_append] at hx
    rcases hx with hx | hx
    · exact h x hx
    · obtain rfl := List.mem_singleton.1 (List.mem_of_mem_drop hx)
      exact hflying q fetched value flies
  | deliver keep stamp queue next =>
    intro x hx
    refine h x ?_
    rw [next]
    cases k with
    | zero => exact List.mem_cons_of_mem stamp hx
    | succ k => exact (List.drop_sublist_drop_left queue (Nat.le_succ k)).subset hx

theorem currentFrom_deliver {keep : Bool} (h : s.CurrentFrom c (k + 1))
    (hstep : Pipeline.step s (.deliver keep) = some s') : s'.CurrentFrom c k := by
  cases steps_of_step hstep with
  | deliver keep stamp queue next =>
    intro x hx
    refine h x ?_
    rwa [next, List.drop_succ_cons]

/-- What is held stays current if all that is posted is. -/
theorem holds_step (h : s.Holds c) (hqueue : s.CurrentFrom c 0)
    (hstep : Pipeline.step s event = some s') : s'.Holds c := by
  cases steps_of_step hstep with
  | fetch | post | tick => exact h
  | deliver keep stamp queue next =>
    cases keep with
    | false => exact h
    | true =>
      have hstamp : c ≤ stamp.fetched := hqueue stamp (by simp [next])
      exact ⟨stamp, rfl, hstamp⟩

/-- A value that is kept when it is delivered is held. -/
theorem holds_deliver {keep : Bool} (hqueue : s.CurrentFrom c 0)
    (hkeep : ∀ x, s.queue.head? = some x → c ≤ x.fetched → keep = true)
    (hstep : Pipeline.step s (.deliver keep) = some s') : s'.Holds c := by
  cases steps_of_step hstep with
  | deliver keep stamp queue next =>
    have hstamp : c ≤ stamp.fetched := hqueue stamp (by simp [next])
    obtain rfl : keep = true := hkeep stamp (by simp [next]) hstamp
    exact ⟨stamp, rfl, hstamp⟩

theorem flying_fetched {value : α} (hstep : Pipeline.step s (.fetch p value) = some s') :
    (s'.flying p).isSome := by
  cases steps_of_step hstep with
  | fetch p value free => simp [State.fetch]

theorem queue_posted (hstep : Pipeline.step s (.post p) = some s') : s'.queue ≠ [] := by
  cases steps_of_step hstep with
  | post p fetched value flies => simp [State.post]

/-! ### Runs -/

section Runs

variable {s₀ : State π α} {r : Run Pipeline.step s₀}

/-- What a run does on and on, if no producer keeps what it has fetched, the queue is emptied and
something is fetched again and again. -/
structure Flows (r : Run Pipeline.step s₀) : Prop where
  posts : ∀ n p, ((r.state n).flying p).isSome → ∃ m, n ≤ m ∧ r.label m = .post p
  delivers : ∀ n, (r.state n).queue ≠ [] → ∃ m keep, n ≤ m ∧ r.label m = .deliver keep
  fetches : ∀ n, ∃ m p value, n ≤ m ∧ r.label m = .fetch p value

/-- What a step keeps is kept for ever. -/
theorem eventually_of_step {P : ℕ → Prop} {n : ℕ} (hn : P n)
    (hstep : ∀ m, n ≤ m → P m → P (m + 1)) :
    ∀ᶠ m in atTop, P m :=
  eventually_atTop.2 ⟨n, fun _ hm => Run.stays hstep hn hm⟩

theorem clock_state (n : ℕ) : (r.state n).clock = s₀.clock + n := by
  induction n with
  | zero => rw [r.start, Nat.add_zero]
  | succ n ih => rw [clock_step (r.next n), ih, Nat.add_assoc]

theorem eventually_clock (c : ℕ) : ∀ᶠ n in atTop, c ≤ (r.state n).clock := by
  refine eventually_atTop.2 ⟨c, fun n hn => ?_⟩
  rw [clock_state]
  omega

/-- **In the end no producer has anything in hand that was fetched before.** -/
theorem eventually_flying [Finite π] (hflows : Flows r) (c : ℕ) :
    ∀ᶠ n in atTop, ∀ p, (r.state n).Current c p := by
  refine eventually_all.2 fun p => ?_
  obtain ⟨n, hn⟩ := eventually_atTop.1 (eventually_clock (r := r) c)
  have hkept (m : ℕ) (hm : n ≤ m) (h : (r.state m).Current c p) : (r.state (m + 1)).Current c p :=
    current_step h (hn m hm) (r.next m)
  cases hp : (r.state n).flying p with
  | none =>
    have hcurrent : (r.state n).Current c p := by
      intro fetched value h
      rw [hp] at h
      cases h
    exact eventually_of_step hcurrent hkept
  | some value =>
    obtain ⟨m, hm, hpost⟩ := hflows.posts n p (by rw [hp]; rfl)
    have hcurrent : (r.state (m + 1)).Current c p := current_post (hpost ▸ r.next m)
    exact eventually_of_step hcurrent fun k hk => hkept k (by omega)

/-- A queue of which only the first values are not current is emptied of them. -/
theorem eventually_currentFrom (hflows : Flows r) {c n : ℕ}
    (hflying : ∀ m, n ≤ m → ∀ p, (r.state m).Current c p) (k : ℕ) :
    ∀ m, n ≤ m → (r.state m).CurrentFrom c k → ∀ᶠ l in atTop, (r.state l).CurrentFrom c 0 := by
  have hkept (j m : ℕ) (hm : n ≤ m) (h : (r.state m).CurrentFrom c j) :
      (r.state (m + 1)).CurrentFrom c j := currentFrom_step h (hflying m hm) (r.next m)
  induction k with
  | zero =>
    intro m hm h
    exact eventually_of_step h fun l hl => hkept 0 l (hm.trans hl)
  | succ k ih =>
    intro m hm h
    by_cases hempty : (r.state m).queue = []
    · refine ih m hm fun x hx => ?_
      simp [hempty] at hx
    · -- until the next delivery the first values stay where they are
      obtain ⟨l, keep, hl, hdeliver⟩ := hflows.delivers m hempty
      have hbefore : (r.state l).CurrentFrom c (k + 1) :=
        Run.stays (P := fun l => (r.state l).CurrentFrom c (k + 1))
          (fun i hi => hkept (k + 1) i (hm.trans hi)) h hl
      exact ih (l + 1) (by omega) (currentFrom_deliver hbefore (hdeliver ▸ r.next l))

/-- **In the end nothing is posted that was fetched before.** -/
theorem eventually_queue [Finite π] (hflows : Flows r) (c : ℕ) :
    ∀ᶠ n in atTop, (r.state n).CurrentFrom c 0 := by
  obtain ⟨n, hn⟩ := eventually_atTop.1 (eventually_flying hflows c)
  refine eventually_currentFrom hflows hn (r.state n).queue.length n le_rfl fun x hx => ?_
  simp at hx

/-- **In the end a value is held that was fetched from time `c` on**, if such values are kept. -/
theorem eventually_held [Finite π] (hflows : Flows r) {c : ℕ}
    (hkeeps : ∀ n x keep, (r.state n).queue.head? = some x → c ≤ x.fetched →
      r.label n = .deliver keep → keep = true) :
    ∀ᶠ n in atTop, (r.state n).Holds c := by
  obtain ⟨n, hn⟩ := eventually_atTop.1 (eventually_queue hflows c)
  obtain ⟨m, p, value, hm, hfetch⟩ := hflows.fetches n
  -- the next value to be fetched is posted, so there is one to be delivered
  have hflying : ((r.state (m + 1)).flying p).isSome := flying_fetched (hfetch ▸ r.next m)
  obtain ⟨l, hl, hpost⟩ := hflows.posts (m + 1) p hflying
  have hposted : (r.state (l + 1)).queue ≠ [] := queue_posted (hpost ▸ r.next l)
  obtain ⟨i, keep, hi, hdeliver⟩ := hflows.delivers (l + 1) hposted
  have hholds : (r.state (i + 1)).Holds c :=
    holds_deliver (hn i (by omega)) (fun x hx hfetched => hkeeps i x keep hx hfetched hdeliver)
      (hdeliver ▸ r.next i)
  exact eventually_of_step hholds fun j hj h => holds_step h (hn j (by omega)) (r.next j)

/-- **The pipeline settles.**  If all that is fetched from time `c` on is one value, and this value
is kept when it is delivered, then from some time on it is the value held. -/
theorem converges [Finite π] (hflows : Flows r) (hempty : s₀ = ⟨fun _ => none, [], none, s₀.clock⟩)
    {c : ℕ} {v : α}
    (hlatest : ∀ n p value, c ≤ (r.state n).clock → r.label n = .fetch p value → value = v)
    (hkeeps : ∀ n x keep, (r.state n).queue.head? = some x → x.value = v →
      r.label n = .deliver keep → keep = true) :
    ∀ᶠ n in atTop, ∃ x, (r.state n).held = some x ∧ x.value = v := by
  have hsettling (n : ℕ) : Settling c v (r.state n) := by
    induction n with
    | zero =>
      rw [r.start, hempty]
      exact ⟨by simp, by simp [State.stamps]⟩
    | succ n ih =>
      exact ih.step (fun p value hfetch hclock => hlatest n p value hclock hfetch) (r.next n)
  refine (eventually_held (c := c) hflows ?_).mono ?_
  · intro n x keep hx hfetched hdeliver
    refine hkeeps n x keep hx ((hsettling n).stamps x ?_ hfetched) hdeliver
    exact List.mem_append_right _ (List.mem_of_mem_head? hx)
  · rintro n ⟨x, hx, hfetched⟩
    refine ⟨x, hx, (hsettling n).stamps x ?_ hfetched⟩
    simp [State.stamps, hx]

end Runs

end Pipeline

end TuxDock
