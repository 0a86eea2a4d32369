import Mathlib.Logic.Function.Basic
import TuxDock.Lib.Transition

/-!
# Values on their way to a holder

Producers that each fetch a value at one time and post it at a later one; what is posted is
delivered in the order it was posted in, and the holder keeps the value delivered last, or not.
Producers know nothing of each other, so a value can overtake another between its fetch and its
post.

* `Ordered` : the invariant, about the values held and posted, in this order, and those in flight;
* `Ordered.overtaken` : **a delivered value that was fetched before the one held comes from
  another producer, which has been overtaken**;
* `Carries` : what holds of every value fetched holds of every value on its way.
-/

namespace TuxDock

namespace Pipeline

open Transition

/-- A value, the producer it comes from, and when it was fetched and posted. -/
structure Stamp (π α : Type*) where
  producer : π
  fetched : ℕ
  posted : ℕ
  value : α
  deriving DecidableEq

/-- The values fetched but not posted, with the time of the fetch; those posted but not delivered;
the one held; and the time. -/
structure State (π α : Type*) where
  flying : π → Option (ℕ × α)
  queue : List (Stamp π α)
  held : Option (Stamp π α)
  clock : ℕ

/-- A producer fetches or posts, a value is delivered, or something else happens. -/
inductive Event (π α : Type*) where
  | fetch (p : π) (value : α)
  | post (p : π)
  | deliver (keep : Bool)
  | tick
  deriving DecidableEq

variable {π α : Type*}

/-- The value held and those on their way to the holder, in the order of their posts. -/
def State.stamps (s : State π α) : List (Stamp π α) := s.held.toList ++ s.queue

/-- `x` was posted before `y`, and fetched before it if they come from one producer. -/
def Stamp.Before (x y : Stamp π α) : Prop :=
  x.posted < y.posted ∧ (x.producer = y.producer → x.fetched < y.fetched)

/-- The order of what is on its way. -/
structure Ordered (s : State π α) : Prop where
  past : ∀ x ∈ s.stamps, x.fetched < x.posted ∧ x.posted < s.clock
  sorted : s.stamps.Pairwise Stamp.Before
  flying : ∀ p fetched value, s.flying p = some (fetched, value) →
    fetched < s.clock ∧ ∀ x ∈ s.stamps, x.producer = p → x.fetched < fetched

variable {s s' : State π α}

theorem Ordered.start (clock : ℕ) : Ordered (⟨fun _ => none, [], none, clock⟩ : State π α) where
  past := nofun
  sorted := List.Pairwise.nil
  flying := nofun

/-- Time passes, and what is on its way gets less. -/
theorem Ordered.mono (h : Ordered s) (hstamps : s'.stamps.Sublist s.stamps)
    (hflying : s'.flying = s.flying) (hclock : s.clock ≤ s'.clock) : Ordered s' where
  past x hx :=
    have hpast := h.past x (hstamps.subset hx)
    ⟨hpast.1, hpast.2.trans_le hclock⟩
  sorted := h.sorted.sublist hstamps
  flying p fetched value hp := by
    obtain ⟨hlt, hall⟩ := h.flying p fetched value (hflying ▸ hp)
    exact ⟨hlt.trans_le hclock, fun x hx => hall x (hstamps.subset hx)⟩

/-- **Who is overtaken**: a posted value that was fetched before the one held comes from another
producer, and that one has posted the held value, which it fetched later, first. -/
theorem Ordered.overtaken (h : Ordered s) {x held : Stamp π α} (hx : x ∈ s.queue)
    (hheld : s.held = some held) (hearlier : x.fetched < held.fetched) :
    x.producer ≠ held.producer ∧ held.fetched < held.posted ∧ held.posted < x.posted := by
  have hmem : held ∈ s.held.toList := by simp [hheld]
  have hbefore : held.Before x := (List.pairwise_append.1 h.sorted).2.2 held hmem x hx
  refine ⟨?_, (h.past held (List.mem_append_left _ hmem)).1, hbefore.1⟩
  intro hsame
  have hlater := hbefore.2 hsame.symm
  omega

/-! ### Steps -/

variable [DecidableEq π]

/-- The producer `p` has fetched a value. -/
def State.fetch (s : State π α) (p : π) (value : α) : State π α :=
  { s with
    flying := Function.update s.flying p (some (s.clock, value))
    clock := s.clock + 1 }

/-- The producer `p` has posted the value it fetched. -/
def State.post (s : State π α) (p : π) (fetched : ℕ) (value : α) : State π α :=
  { s with
    flying := Function.update s.flying p none
    queue := s.queue ++ [⟨p, fetched, s.clock, value⟩]
    clock := s.clock + 1 }

/-- A producer fetches a new value only after it has posted the last one. -/
def step (s : State π α) : Event π α → Option (State π α)
  | .fetch p value => if s.flying p = none then some (s.fetch p value) else none
  | .post p => (s.flying p).map fun v => s.post p v.1 v.2
  | .deliver keep =>
    match s.queue with
    | [] => none
    | stamp :: queue =>
      some { s with
        queue := queue
        held := if keep then some stamp else s.held
        clock := s.clock + 1 }
  | .tick => some { s with clock := s.clock + 1 }

/-- The steps by name, with what each requires and does. -/
inductive Steps (s : State π α) : Event π α → State π α → Prop where
  | fetch (p : π) (value : α) (free : s.flying p = none) :
    Steps s (.fetch p value) (s.fetch p value)
  | post (p : π) (fetched : ℕ) (value : α) (flies : s.flying p = some (fetched, value)) :
    Steps s (.post p) (s.post p fetched value)
  | deliver (keep : Bool) (stamp : Stamp π α) (queue : List (Stamp π α))
      (next : s.queue = stamp :: queue) :
    Steps s (.deliver keep)
      { s with
        queue := queue
        held := if keep then some stamp else s.held
        clock := s.clock + 1 }
  | tick : Steps s .tick { s with clock := s.clock + 1 }

/-- **Every step is one of these.** -/
theorem steps_of_step {event : Event π α} (hstep : step s event = some s') :
    Steps s event s' := by
  cases event with
  | fetch p value =>
    obtain ⟨hfree, hs'⟩ := Option.ite_none_right_eq_some.1 hstep
    cases hs'
    exact .fetch p value hfree
  | post p =>
    obtain ⟨⟨fetched, value⟩, hp, rfl⟩ := Option.map_eq_some_iff.1 hstep
    exact .post p fetched value hp
  | deliver keep =>
    simp only [step] at hstep
    split at hstep
    · cases hstep
    · rename_i stamp queue hqueue
      cases hstep
      exact .deliver keep stamp queue hqueue
  | tick =>
    cases hstep
    exact .tick

theorem Ordered.fetch (h : Ordered s) (p : π) (value : α) : Ordered (s.fetch p value) := by
  refine ⟨?_, h.sorted, ?_⟩
  · intro x hx
    obtain ⟨hfetched, hposted⟩ := h.past x hx
    exact ⟨hfetched, Nat.lt_succ_of_lt hposted⟩
  · intro q fetched v hq
    have hq : Function.update s.flying p (some (s.clock, value)) q = some (fetched, v) := hq
    by_cases hqp : q = p
    · -- all that is on its way was fetched before now
      subst hqp
      rw [Function.update_self] at hq
      cases hq
      refine ⟨Nat.lt_succ_self _, ?_⟩
      intro x hx _
      obtain ⟨hfetched, hposted⟩ := h.past x hx
      exact hfetched.trans hposted
    · rw [Function.update_of_ne hqp] at hq
      obtain ⟨hlt, hall⟩ := h.flying q fetched v hq
      exact ⟨Nat.lt_succ_of_lt hlt, hall⟩

theorem Ordered.post (h : Ordered s) {p : π} {fetched : ℕ} {value : α}
    (hp : s.flying p = some (fetched, value)) : Ordered (s.post p fetched value) := by
  obtain ⟨hlt, hall⟩ := h.flying p fetched value hp
  have hstamps : (s.post p fetched value).stamps = s.stamps ++ [⟨p, fetched, s.clock, value⟩] :=
    (List.append_assoc _ _ _).symm
  refine ⟨?_, ?_, ?_⟩
  · intro x hx
    rw [hstamps, List.mem_append, List.mem_singleton] at hx
    rcases hx with hx | rfl
    · obtain ⟨hfetched, hposted⟩ := h.past x hx
      exact ⟨hfetched, Nat.lt_succ_of_lt hposted⟩
    · exact ⟨hlt, Nat.lt_succ_self _⟩
  · -- the new stamp is posted last, and fetched after those of its producer
    rw [hstamps]
    refine List.pairwise_append.2 ⟨h.sorted, List.pairwise_singleton _ _, ?_⟩
    intro x hx y hy
    obtain rfl := List.mem_singleton.1 hy
    exact ⟨(h.past x hx).2, hall x hx⟩
  · intro q fetched' value' hq
    have hq : Function.update s.flying p none q = some (fetched', value') := hq
    have hqp : q ≠ p := by
      rintro rfl
      rw [Function.update_self] at hq
      cases hq
    rw [Function.update_of_ne hqp] at hq
    obtain ⟨hlt', hall'⟩ := h.flying q fetched' value' hq
    refine ⟨Nat.lt_succ_of_lt hlt', ?_⟩
    intro x hx hxq
    rw [hstamps, List.mem_append, List.mem_singleton] at hx
    rcases hx with hx | rfl
    · exact hall' x hx hxq
    · exact absurd hxq.symm hqp

theorem Ordered.step {event : Event π α} (h : Ordered s) (hstep : Pipeline.step s event = some s') :
    Ordered s' := by
  cases event with
  | fetch p value =>
    obtain ⟨-, hs'⟩ := Option.ite_none_right_eq_some.1 hstep
    cases hs'
    exact h.fetch p value
  | post p =>
    obtain ⟨⟨fetched, value⟩, hp, rfl⟩ := Option.map_eq_some_iff.1 hstep
    exact h.post hp
  | deliver keep =>
    simp only [Pipeline.step] at hstep
    split at hstep
    · cases hstep
    · rename_i stamp queue hqueue
      cases hstep
      refine h.mono ?_ rfl (Nat.le_succ _)
      rw [State.stamps, State.stamps, hqueue]
      cases keep with
      | false => exact (List.sublist_cons_self stamp queue).append_left _
      | true => exact List.sublist_append_right _ _
  | tick =>
    cases hstep
    exact h.mono (List.Sublist.refl _) rfl (Nat.le_succ _)

/-- **A step that replaces the value held by one fetched earlier** delivers a value whose producer
has been overtaken. -/
theorem Ordered.overtaken_step {event : Event π α} (h : Ordered s)
    (hstep : Pipeline.step s event = some s') {held new : Stamp π α} (hheld : s.held = some held)
    (hnew : s'.held = some new) (hearlier : new.fetched < held.fetched) :
    new.producer ≠ held.producer ∧ held.fetched < held.posted ∧ held.posted < new.posted := by
  have hkept : s'.held ≠ s.held := by
    intro heq
    rw [hnew, hheld] at heq
    obtain rfl := Option.some.inj heq
    omega
  cases event with
  | fetch p value =>
    obtain ⟨-, hs'⟩ := Option.ite_none_right_eq_some.1 hstep
    cases hs'
    exact absurd rfl hkept
  | post p =>
    obtain ⟨⟨fetched, value⟩, hp, rfl⟩ := Option.map_eq_some_iff.1 hstep
    exact absurd rfl hkept
  | tick =>
    cases hstep
    exact absurd rfl hkept
  | deliver keep =>
    simp only [Pipeline.step] at hstep
    split at hstep
    · cases hstep
    · rename_i stamp queue hqueue
      cases hstep
      cases keep with
      | false => exact absurd rfl hkept
      | true =>
        obtain rfl : stamp = new := Option.some.inj hnew
        exact h.overtaken (by simp [hqueue]) hheld hearlier

/-! ### The values -/

/-- Every value on its way satisfies `Q`. -/
structure Carries (Q : α → Prop) (s : State π α) : Prop where
  stamps : ∀ x ∈ s.stamps, Q x.value
  flying : ∀ p fetched value, s.flying p = some (fetched, value) → Q value

theorem Carries.step {Q : α → Prop} {event : Event π α} (h : Carries Q s)
    (hfetch : ∀ p value, event = .fetch p value → Q value)
    (hstep : Pipeline.step s event = some s') : Carries Q s' := by
  cases steps_of_step hstep with
  | fetch p value free =>
    refine ⟨h.stamps, ?_⟩
    intro q fetched v hq
    have hq : Function.update s.flying p (some (s.clock, value)) q = some (fetched, v) := hq
    by_cases hqp : q = p
    · subst hqp
      rw [Function.update_self] at hq
      cases hq
      exact hfetch _ _ rfl
    · rw [Function.update_of_ne hqp] at hq
      exact h.flying q fetched v hq
  | post p fetched value flies =>
    refine ⟨?_, ?_⟩
    · intro x hx
      rw [State.stamps, State.post, ← List.append_assoc, List.mem_append,
        List.mem_singleton] at hx
      rcases hx with hx | rfl
      · exact h.stamps x hx
      · exact h.flying p fetched value flies
    · intro q fetched' v hq
      have hq : Function.update s.flying p none q = some (fetched', v) := hq
      by_cases hqp : q = p
      · rw [hqp, Function.update_self] at hq
        cases hq
      · rw [Function.update_of_ne hqp] at hq
        exact h.flying q fetched' v hq
  | deliver keep stamp queue next =>
    refine ⟨?_, h.flying⟩
    intro x hx
    refine h.stamps x ?_
    rw [State.stamps, next, List.mem_append, List.mem_cons]
    rcases List.mem_append.1 hx with hx | hx
    · cases keep with
      | true => exact .inr (.inl (by simpa using hx))
      | false => exact .inl hx
    · exact .inr (.inr hx)
  | tick => exact ⟨h.stamps, h.flying⟩

/-- **Every run keeps the order.** -/
theorem Ordered.run {events : List (Event π α)} (h : Ordered s)
    (hrun : exec Pipeline.step s events = some s') : Ordered s' :=
  exec_invariant' (I := Ordered) (fun _ _ _ => Ordered.step) h hrun

end Pipeline

end TuxDock
