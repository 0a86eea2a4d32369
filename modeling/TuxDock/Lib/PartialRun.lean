import Mathlib.Combinatorics.Pigeonhole
import Mathlib.Data.Finset.Range
import Mathlib.Logic.Relation

/-!
# Iterating a partial map

`run f n a` makes `n` steps of the partial map `f` from `a`; it is `none` when `f` stops earlier.

* `run_add` : runs compose;
* `exists_repeat` : a run longer than the number of places `f` can move from visits one twice;
* `run_forever` : **such a run never stops**, so a loop whose moves start in a finite set either
  ends within as many steps or not at all;
* `forever_iff_cycle` : it does not end exactly when it reaches a cycle of `f`.
-/

namespace TuxDock

namespace PartialRun

variable {α : Type*} {f : α → Option α} {a : α}

/-- `n` steps of `f`. -/
def run (f : α → Option α) : ℕ → α → Option α
  | 0, a => some a
  | n + 1, a => (f a).bind (run f n)

@[simp] theorem run_zero (a : α) : run f 0 a = some a := rfl

theorem run_succ (n : ℕ) (a : α) : run f (n + 1) a = (f a).bind (run f n) := rfl

theorem run_add (m n : ℕ) (a : α) : run f (m + n) a = (run f m a).bind (run f n) := by
  induction m generalizing a with
  | zero => simp
  | succ m ih =>
    rw [Nat.succ_add, run_succ, run_succ, Option.bind_assoc]
    exact congrArg _ (funext fun b => ih b)

theorem run_isSome_of_le {m n : ℕ} (hmn : m ≤ n) (h : (run f n a).isSome) :
    (run f m a).isSome := by
  obtain ⟨k, rfl⟩ := Nat.exists_eq_add_of_le hmn
  rw [run_add] at h
  exact Option.isSome_of_isSome_bind h

/-- What a run has reached before its last step is a place `f` moves from. -/
theorem exists_of_lt {m n : ℕ} (hmn : m < n) (h : (run f n a).isSome) :
    ∃ x, run f m a = some x ∧ (f x).isSome := by
  have hm := run_isSome_of_le (show m + 1 ≤ n from hmn) h
  rw [run_add] at hm
  cases hx : run f m a with
  | none => simp [hx] at hm
  | some x =>
    refine ⟨x, rfl, ?_⟩
    rw [hx] at hm
    simpa [run] using hm

/-- A run with more steps than there are places to move from visits a place twice. -/
theorem exists_repeat {s : Finset α} (hdom : ∀ x, (f x).isSome → x ∈ s)
    (h : (run f (s.card + 1) a).isSome) :
    ∃ i j x, i < j ∧ j ≤ s.card ∧ run f i a = some x ∧ run f j a = some x := by
  have : Nonempty α := ⟨a⟩
  -- the places before each of the `s.card + 1` steps cannot all be different
  choose! g hg hgf using fun m (hm : m < s.card + 1) => exists_of_lt hm h
  have hmaps : Set.MapsTo g (Finset.range (s.card + 1)) s := fun m hm =>
    hdom _ (hgf m (Finset.mem_range.1 hm))
  obtain ⟨i, hi, j, hj, hne, hij⟩ :=
    Finset.exists_ne_map_eq_of_card_lt_of_maps_to (by simp) hmaps
  rw [Finset.mem_range] at hi hj
  rcases Nat.lt_or_gt_of_ne hne with hlt | hlt
  · exact ⟨i, j, g i, hlt, by omega, hg i hi, hij ▸ hg j hj⟩
  · exact ⟨j, i, g j, hlt, by omega, hg j hj, hij ▸ hg i hi⟩

/-- **A run that visits a place twice never stops.** -/
theorem run_forever {s : Finset α} (hdom : ∀ x, (f x).isSome → x ∈ s)
    (h : (run f (s.card + 1) a).isSome) (n : ℕ) : (run f n a).isSome := by
  obtain ⟨i, j, x, hij, hj, hi, hjx⟩ := exists_repeat hdom h
  induction n using Nat.strong_induction_on with
  | h n ih =>
    by_cases hn : n < j
    · exact run_isSome_of_le (by omega) h
    · -- the part of the run after `j` is the part after `i`, which is shorter
      have hback := ih (i + (n - j)) (by omega)
      rw [run_add, hi] at hback
      rwa [show n = j + (n - j) by omega, run_add, hjx]

/-! ### Cycles -/

/-- The moves of `f`, as a relation. -/
def Moves (f : α → Option α) (a b : α) : Prop := f a = some b

theorem reaches_of_run {n : ℕ} {b : α} (h : run f n a = some b) :
    Relation.ReflTransGen (Moves f) a b := by
  induction n generalizing a with
  | zero => simp only [run_zero, Option.some.injEq] at h; exact h ▸ .refl
  | succ n ih =>
    rw [run_succ, Option.bind_eq_some_iff] at h
    obtain ⟨c, hc, h⟩ := h
    exact .head hc (ih h)

theorem run_of_reaches {b : α} (h : Relation.ReflTransGen (Moves f) a b) :
    ∃ n, run f n a = some b := by
  induction h with
  | refl => exact ⟨0, rfl⟩
  | tail _ hstep ih =>
    obtain ⟨n, hn⟩ := ih
    refine ⟨n + 1, ?_⟩
    rw [run_add, hn]
    simpa [run] using (show f _ = some _ from hstep)

/-- A place on a cycle is left again and again. -/
theorem run_cycle {b : α} (h : Relation.TransGen (Moves f) b b) (n : ℕ) :
    (run f n b).isSome := by
  obtain ⟨c, hstep, hback⟩ := Relation.TransGen.head'_iff.1 h
  obtain ⟨k, hk⟩ := run_of_reaches hback
  have hround : run f (k + 1) b = some b := by
    rw [run_succ, show f b = some c from hstep]; exact hk
  induction n using Nat.strong_induction_on with
  | h n ih =>
    by_cases hn : n ≤ k + 1
    · exact run_isSome_of_le hn (by simp [hround])
    · have hrest := ih (n - (k + 1)) (by omega)
      rwa [show n = (k + 1) + (n - (k + 1)) by omega, run_add, hround]

/-- **A loop whose moves start in a finite set runs forever exactly when it reaches a cycle.** -/
theorem forever_iff_cycle {s : Finset α} (hdom : ∀ x, (f x).isSome → x ∈ s) :
    (∀ n, (run f n a).isSome) ↔
      ∃ b, Relation.ReflTransGen (Moves f) a b ∧ Relation.TransGen (Moves f) b b := by
  constructor
  · intro h
    obtain ⟨i, j, b, hij, -, hi, hj⟩ := exists_repeat hdom (h _)
    refine ⟨b, reaches_of_run hi, ?_⟩
    -- between the two visits the run makes at least one move
    rw [show j = i + ((j - i - 1) + 1) by omega, run_add, hi, Option.bind_some, run_succ,
      Option.bind_eq_some_iff] at hj
    obtain ⟨c, hc, hrest⟩ := hj
    exact Relation.TransGen.head' hc (reaches_of_run hrest)
  · rintro ⟨b, hreach, hcycle⟩ n
    obtain ⟨k, hk⟩ := run_of_reaches hreach
    refine run_isSome_of_le (Nat.le_add_left n k) ?_
    rw [run_add, hk]
    exact run_cycle hcycle n

end PartialRun

end TuxDock
