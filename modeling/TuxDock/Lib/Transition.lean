import Mathlib.Data.List.Infix
import Mathlib.Data.Option.Basic

/-!
# Transition systems with a step function

A system is a partial function `step : σ → ℓ → Option σ`: the label picks what happens next, and
`none` says that it cannot happen.  Everything about a run is stated over its list of labels.

* `exec` : the state a run ends in;
* `StepsMeet ok` : each step of the run is taken from a state, and with a label, that `ok` allows;
* `Always P` : each state the run passes through satisfies `P`;
* `exec_invariant`, `always_of_invariant` : **the invariant rules**, for runs of allowed steps;
* `exists_exec` : the rule that a list of labels is a run, and keeps an invariant;
* `exec_history`, `exec_history_of_stepsMeet`, `exec_labels` : the rules for an invariant that
  depends on the labels of the run so far;
* `exec_noted` : the rule for an invariant that depends on what is noted along the run;
* `always_iff_stepsMeet` : when an allowed step is the only way to keep `P`, the runs that keep it
  are the runs of allowed steps.
-/

namespace TuxDock

namespace Transition

variable {σ ℓ : Type*} (step : σ → ℓ → Option σ)

/-- The state at the end of a run. -/
def exec : σ → List ℓ → Option σ
  | s, [] => some s
  | s, l :: ls => (step s l).bind fun s' => exec s' ls

/-- Every step of the run is allowed. -/
def StepsMeet (ok : σ → ℓ → Prop) : σ → List ℓ → Prop
  | _, [] => True
  | s, l :: ls => ok s l ∧ ∀ s', step s l = some s' → StepsMeet ok s' ls

/-- Whether a run meets a condition can be computed. -/
instance decidableStepsMeet (ok : σ → ℓ → Prop) [∀ s l, Decidable (ok s l)] :
    ∀ s ls, Decidable (StepsMeet step ok s ls)
  | _, [] => isTrue trivial
  | s, l :: ls =>
    match h : step s l with
    | none => decidable_of_iff (ok s l) ⟨fun hl => ⟨hl, fun s' hs' => by simp [h] at hs'⟩, And.left⟩
    | some s' =>
      have := decidableStepsMeet ok s' ls
      decidable_of_iff (ok s l ∧ StepsMeet step ok s' ls)
        (and_congr_right fun _ => by simp [h])

/-- What is noted along a run: `u` adds a step, from the state before it to the one after it. -/
def noted {β : Type*} (u : β → σ → ℓ → σ → β) : β → σ → List ℓ → β
  | b, _, [] => b
  | b, s, l :: ls => (step s l).elim b fun s' => noted u (u b s l s') s' ls

/-- Every state of the run satisfies `P`, the first and the last included. -/
def Always (P : σ → Prop) : σ → List ℓ → Prop
  | s, [] => P s
  | s, l :: ls => P s ∧ ∀ s', step s l = some s' → Always P s' ls

/-- So can whether it satisfies one throughout. -/
instance decidableAlways (P : σ → Prop) [∀ s, Decidable (P s)] :
    ∀ s ls, Decidable (Always step P s ls)
  | s, [] => inferInstanceAs (Decidable (P s))
  | s, l :: ls =>
    match h : step s l with
    | none => decidable_of_iff (P s) ⟨fun hs => ⟨hs, fun s' hs' => by simp [h] at hs'⟩, And.left⟩
    | some s' =>
      have := decidableAlways P s' ls
      decidable_of_iff (P s ∧ Always step P s' ls) (and_congr_right fun _ => by simp [h])

variable {step}

theorem exec_cons (s : σ) (l : ℓ) (ls : List ℓ) :
    exec step s (l :: ls) = (step s l).bind fun s' => exec step s' ls := rfl

theorem exec_append (s : σ) (ls ms : List ℓ) :
    exec step s (ls ++ ms) = (exec step s ls).bind fun s' => exec step s' ms := by
  induction ls generalizing s with
  | nil => rfl
  | cons l ls ih =>
    rw [List.cons_append, exec_cons, exec_cons, Option.bind_assoc]
    exact congrArg _ (funext fun s' => ih s')

theorem exec_cons_eq_some {s t : σ} {l : ℓ} {ls : List ℓ} :
    exec step s (l :: ls) = some t ↔ ∃ s', step s l = some s' ∧ exec step s' ls = some t := by
  rw [exec_cons, Option.bind_eq_some_iff]

theorem step_getElem {s t : σ} {ls : List ℓ} (h : exec step s ls = some t) {n : ℕ}
    (hn : n < ls.length) : step ((exec step s (ls.take n)).getD s) ls[n] =
      some ((exec step s (ls.take (n + 1))).getD s) := by
  rw [← List.take_append_drop n ls, exec_append, List.drop_eq_getElem_cons hn] at h
  obtain ⟨u, hu, h⟩ := Option.bind_eq_some_iff.1 h
  obtain ⟨v, hv, -⟩ := exec_cons_eq_some.1 h
  rw [List.take_succ_eq_append_getElem hn, exec_append, hu]
  simp [exec, hv]

/-- Without a label that cannot happen, every list of labels is a run. -/
theorem exec_isSome (htotal : ∀ s l, (step s l).isSome) (s : σ) (ls : List ℓ) :
    (exec step s ls).isSome := by
  induction ls generalizing s with
  | nil => rfl
  | cons l ls ih =>
    obtain ⟨s', hs'⟩ := Option.isSome_iff_exists.1 (htotal s l)
    rw [exec_cons, hs']
    exact ih s'

theorem stepsMeet_of_forall {ok : ℓ → Prop} {s : σ} {ls : List ℓ} (h : ∀ l ∈ ls, ok l) :
    StepsMeet step (fun _ l => ok l) s ls := by
  induction ls generalizing s with
  | nil => trivial
  | cons l ls ih =>
    rw [List.forall_mem_cons] at h
    exact ⟨h.1, fun s' _ => ih h.2⟩

theorem stepsMeet_iff_forall (htotal : ∀ s l, (step s l).isSome) {ok : ℓ → Prop} {s : σ}
    {ls : List ℓ} : StepsMeet step (fun _ l => ok l) s ls ↔ ∀ l ∈ ls, ok l := by
  refine ⟨?_, stepsMeet_of_forall⟩
  intro h
  induction ls generalizing s with
  | nil => simp
  | cons l ls ih =>
    obtain ⟨s', hs'⟩ := Option.isSome_iff_exists.1 (htotal s l)
    exact List.forall_mem_cons.2 ⟨h.1, ih (h.2 s' hs')⟩

section Invariants

variable {I P : σ → Prop} {ok : σ → ℓ → Prop}

/-- **The invariant rule**: what allowed steps preserve holds at the end of a run of them. -/
theorem exec_invariant (hstep : ∀ s l s', I s → ok s l → step s l = some s' → I s') {s t : σ}
    {ls : List ℓ} (hs : I s) (hok : StepsMeet step ok s ls) (ht : exec step s ls = some t) :
    I t := by
  induction ls generalizing s with
  | nil => exact Option.some.inj ht ▸ hs
  | cons l ls ih =>
    obtain ⟨s', hs', ht⟩ := exec_cons_eq_some.1 ht
    exact ih (hstep s l s' hs hok.1 hs') (hok.2 s' hs') ht

theorem stepsMeet_true (s : σ) (ls : List ℓ) : StepsMeet step (fun _ _ => True) s ls := by
  induction ls generalizing s with
  | nil => trivial
  | cons l ls ih => exact ⟨trivial, fun s' _ => ih s'⟩

/-- The rule for an invariant of every step. -/
theorem exec_invariant' (hstep : ∀ s l s', I s → step s l = some s' → I s') {s t : σ}
    {ls : List ℓ} (hs : I s) (ht : exec step s ls = some t) : I t :=
  exec_invariant (fun s l s' hs _ => hstep s l s' hs) hs (stepsMeet_true s ls) ht

/-- The invariant rule for a run that is to be shown possible: where every allowed label can happen
and preserves the invariant, every list of them is a run. -/
theorem exists_exec {ok : ℓ → Prop}
    (hstep : ∀ s l, I s → ok l → ∃ s', step s l = some s' ∧ I s') {s : σ} {ls : List ℓ} (hs : I s)
    (hok : ∀ l ∈ ls, ok l) : ∃ t, exec step s ls = some t ∧ I t := by
  induction ls generalizing s with
  | nil => exact ⟨s, rfl, hs⟩
  | cons l ls ih =>
    rw [List.forall_mem_cons] at hok
    obtain ⟨s', hs', hI⟩ := hstep s l hs hok.1
    obtain ⟨t, ht, hIt⟩ := ih hI hok.2
    exact ⟨t, exec_cons_eq_some.2 ⟨s', hs', ht⟩, hIt⟩

/-- The rule for an invariant that follows what has happened so far, in runs of allowed steps. -/
theorem exec_history_of_stepsMeet {β : Type*} {H : β → σ → Prop} {u : β → ℓ → β}
    (hstep : ∀ b s l s', H b s → ok s l → step s l = some s' → H (u b l) s') {b : β} {s t : σ}
    {ls : List ℓ} (hs : H b s) (hok : StepsMeet step ok s ls) (ht : exec step s ls = some t) :
    H (ls.foldl u b) t := by
  induction ls generalizing b s with
  | nil => exact Option.some.inj ht ▸ hs
  | cons l ls ih =>
    obtain ⟨s', hs', ht⟩ := exec_cons_eq_some.1 ht
    exact ih (hstep b s l s' hs hok.1 hs') (hok.2 s' hs') ht

/-- The rule for an invariant of every step that follows what has happened so far. -/
theorem exec_history {β : Type*} {H : β → σ → Prop} {u : β → ℓ → β}
    (hstep : ∀ b s l s', H b s → step s l = some s' → H (u b l) s') {b : β} {s t : σ} {ls : List ℓ}
    (hs : H b s) (ht : exec step s ls = some t) : H (ls.foldl u b) t :=
  exec_history_of_stepsMeet (fun b s l s' h _ => hstep b s l s' h) hs (stepsMeet_true s ls) ht

/-- The rule for an invariant that depends on all labels so far. -/
theorem exec_labels {H : List ℓ → σ → Prop}
    (hstep : ∀ b s l s', H b s → ok s l → step s l = some s' → H (b ++ [l]) s') {s t : σ}
    {ls : List ℓ} (hs : H [] s) (hok : StepsMeet step ok s ls) (ht : exec step s ls = some t) :
    H ls t := by
  have h := exec_history_of_stepsMeet hstep hs hok ht
  rwa [List.foldl_append_eq_append, ← List.flatMap_def, List.flatMap_singleton', List.nil_append]
    at h

/-- The rule for an invariant of the states and of what is noted on the way to them. -/
theorem exec_noted {β : Type*} {H : β → σ → Prop} {u : β → σ → ℓ → σ → β}
    (hstep : ∀ b s l s', H b s → step s l = some s' → H (u b s l s') s') {b : β} {s t : σ}
    {ls : List ℓ} (hs : H b s) (ht : exec step s ls = some t) : H (noted step u b s ls) t := by
  induction ls generalizing b s with
  | nil => exact Option.some.inj ht ▸ hs
  | cons l ls ih =>
    obtain ⟨s', hs', ht⟩ := exec_cons_eq_some.1 ht
    rw [noted, hs']
    exact ih (hstep b s l s' hs hs') ht

/-- The same rule in runs of allowed steps. -/
theorem exec_noted_of_stepsMeet {β : Type*} {H : β → σ → Prop} {u : β → σ → ℓ → σ → β}
    (hstep : ∀ b s l s', H b s → ok s l → step s l = some s' → H (u b s l s') s') {b : β} {s t : σ}
    {ls : List ℓ} (hs : H b s) (hok : StepsMeet step ok s ls) (ht : exec step s ls = some t) :
    H (noted step u b s ls) t := by
  induction ls generalizing b s with
  | nil => exact Option.some.inj ht ▸ hs
  | cons l ls ih =>
    obtain ⟨s', hs', ht⟩ := exec_cons_eq_some.1 ht
    rw [noted, hs']
    exact ih (hstep b s l s' hs hok.1 hs') (hok.2 s' hs') ht

theorem StepsMeet.and {ok' : σ → ℓ → Prop} {s : σ} {ls : List ℓ} (h : StepsMeet step ok s ls)
    (h' : StepsMeet step ok' s ls) : StepsMeet step (fun s l => ok s l ∧ ok' s l) s ls := by
  induction ls generalizing s with
  | nil => trivial
  | cons l ls ih => exact ⟨⟨h.1, h'.1⟩, fun s' hs' => ih (h.2 s' hs') (h'.2 s' hs')⟩

/-- The steps before a point of a run. -/
theorem StepsMeet.prefix {s : σ} {before after : List ℓ}
    (h : StepsMeet step ok s (before ++ after)) : StepsMeet step ok s before := by
  induction before generalizing s with
  | nil => trivial
  | cons l before ih => exact ⟨h.1, fun s' hs' => ih (h.2 s' hs')⟩

/-- **The invariant rule for every state of a run.** -/
theorem always_of_invariant (hstep : ∀ s l s', I s → ok s l → step s l = some s' → I s')
    (hP : ∀ s, I s → P s) {s : σ} {ls : List ℓ} (hs : I s) (hok : StepsMeet step ok s ls) :
    Always step P s ls := by
  induction ls generalizing s with
  | nil => exact hP s hs
  | cons l ls ih =>
    exact ⟨hP s hs, fun s' hs' => ih (hstep s l s' hs hok.1 hs') (hok.2 s' hs')⟩

/-- Where a step that keeps `P` is an allowed one, the runs that keep `P` are exactly the runs of
allowed steps. -/
theorem always_iff_stepsMeet (hstep : ∀ s l s', I s → ok s l → step s l = some s' → I s')
    (hP : ∀ s, I s → P s) (hok : ∀ s l s', I s → step s l = some s' → P s' → ok s l) {s t : σ}
    {ls : List ℓ} (hs : I s) (ht : exec step s ls = some t) :
    Always step P s ls ↔ StepsMeet step ok s ls := by
  refine ⟨?_, always_of_invariant hstep hP hs⟩
  intro h
  induction ls generalizing s with
  | nil => trivial
  | cons l ls ih =>
    obtain ⟨s', hs', ht⟩ := exec_cons_eq_some.1 ht
    have hrest := h.2 s' hs'
    have hP' : P s' := by
      cases ls with
      | nil => exact hrest
      | cons _ _ => exact hrest.1
    have hl := hok s l s' hs hs' hP'
    refine ⟨hl, ?_⟩
    intro s'' hs''
    obtain rfl : s' = s'' := Option.some.inj (hs'.symm.trans hs'')
    exact ih (hstep s l s' hs hl hs') ht hrest

end Invariants

end Transition

end TuxDock
