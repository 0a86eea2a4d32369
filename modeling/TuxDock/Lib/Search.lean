import Mathlib.Data.List.Infix
import Mathlib.Data.List.TakeDrop

/-!
# Searching for a word in a sequence

`indexOf pat l` is the position of the first occurrence of the word `pat` in the sequence `l`,
over any alphabet with decidable equality.

* `indexOf_eq_some_iff` : the position found is an occurrence, and no earlier position is one;
* `indexOf_eq_none_iff` : nothing is found iff `pat` is not an infix of `l`;
* `indexOf_append_of_eq_some` : **a result survives every extension of the sequence**, the fact
  that a search in a growing buffer rests on;
* `indexOf_take` : what a search in a prefix of `l` finds;
* `indexOf_append_of_notMem` : a stretch that lacks the first letter of `pat` is skipped;
* `eq_append_of_indexOf`, `indexOf_pair` : a sequence split at the first occurrence, and back.
-/

namespace TuxDock

namespace Search

variable {α : Type*} [DecidableEq α]

/-- The position of the first occurrence of `pat`. -/
def indexOf (pat : List α) : List α → Option ℕ
  | [] => if pat.isPrefixOf [] then some 0 else none
  | a :: l => if pat.isPrefixOf (a :: l) then some 0 else (indexOf pat l).map (· + 1)

variable {pat l m : List α} {i : ℕ}

theorem indexOf_eq_zero (h : pat <+: l) : indexOf pat l = some 0 := by
  cases l <;> simp [indexOf, h]

theorem indexOf_cons_succ {a : α} (h : ¬ pat <+: a :: l) :
    indexOf pat (a :: l) = (indexOf pat l).map (· + 1) := by
  simp [indexOf, h]

theorem indexOf_eq_some_iff :
    indexOf pat l = some i ↔ pat <+: l.drop i ∧ ∀ j < i, ¬ pat <+: l.drop j := by
  induction l generalizing i with
  | nil =>
    by_cases hp : pat = []
    · subst hp
      cases i with
      | zero => simp [indexOf]
      | succ i =>
        simp only [indexOf, List.isPrefixOf_nil_left, ↓reduceIte, Option.some.injEq,
          List.drop_nil, List.nil_prefix, true_and, not_true]
        constructor
        · intro h; omega
        · intro h; exact (h 0 (Nat.succ_pos i)).elim
    · simp [indexOf, hp]
  | cons a l ih =>
    by_cases h : pat <+: a :: l
    · rw [indexOf_eq_zero h]
      cases i with
      | zero => simpa using h
      | succ i =>
        constructor
        · intro h'; simp at h'
        · intro h'; exact absurd h (h'.2 0 (Nat.succ_pos i))
    · rw [indexOf_cons_succ h]
      cases i with
      | zero => simp [h]
      | succ i =>
        simp only [Option.map_eq_some_iff, Nat.add_right_cancel_iff, exists_eq_right,
          List.drop_succ_cons, ih]
        refine and_congr_right fun _ => ⟨?_, ?_⟩
        · intro hm j hj
          cases j with
          | zero => exact h
          | succ j => exact hm j (by omega)
        · intro hm j hj
          exact hm (j + 1) (by omega)

theorem indexOf_eq_none_iff : indexOf pat l = none ↔ ¬ pat <:+: l := by
  induction l with
  | nil => simp [indexOf]
  | cons a l ih =>
    by_cases h : pat <+: a :: l
    · simp [indexOf_eq_zero h, h.isInfix]
    · simp [indexOf_cons_succ h, ih, List.infix_cons_iff, h]

theorem indexOf_isSome_iff : (indexOf pat l).isSome ↔ pat <:+: l := by
  rw [← not_iff_not, Option.not_isSome_iff_eq_none, indexOf_eq_none_iff]

theorem prefix_of_indexOf (h : indexOf pat l = some i) : pat <+: l.drop i :=
  (indexOf_eq_some_iff.1 h).1

theorem le_length_of_indexOf (h : indexOf pat l = some i) : i + pat.length ≤ l.length := by
  have hp := (prefix_of_indexOf h).length_le
  rw [List.length_drop] at hp
  by_cases hi : i ≤ l.length
  · omega
  · -- past the end only the empty word occurs, and it occurs at 0 already
    have hnil : pat = [] := List.length_eq_zero_iff.1 (by omega)
    have h0 := (indexOf_eq_some_iff.1 h).2 0 (by omega)
    simp [hnil] at h0

/-- An occurrence bounds the first one. -/
theorem exists_indexOf_le {j : ℕ} (h : pat <+: l.drop j) : ∃ i ≤ j, indexOf pat l = some i := by
  cases hf : indexOf pat l with
  | none => exact absurd (h.isInfix.trans (List.drop_suffix j l).isInfix) (indexOf_eq_none_iff.1 hf)
  | some i => exact ⟨i, not_lt.1 fun hlt => (indexOf_eq_some_iff.1 hf).2 j hlt h, rfl⟩

/-- **A result survives every extension of the sequence.** -/
theorem indexOf_append_of_eq_some (h : indexOf pat l = some i) (m : List α) :
    indexOf pat (l ++ m) = some i := by
  have hle := le_length_of_indexOf h
  obtain ⟨hp, hmin⟩ := indexOf_eq_some_iff.1 h
  refine indexOf_eq_some_iff.2 ⟨?_, ?_⟩
  · rw [List.drop_append_of_le_length (by omega)]
    exact hp.trans (List.prefix_append _ _)
  · intro j hj hjp
    rw [List.drop_append_of_le_length (by omega)] at hjp
    refine hmin j hj (List.prefix_of_prefix_length_le hjp (List.prefix_append _ _) ?_)
    rw [List.length_drop]; omega

theorem indexOf_of_take {k : ℕ} (h : indexOf pat (l.take k) = some i) : indexOf pat l = some i := by
  have := indexOf_append_of_eq_some h (l.drop k)
  rwa [List.take_append_drop] at this

/-- A search in a prefix finds the first occurrence if that ends inside the prefix, else nothing. -/
theorem indexOf_take (h : indexOf pat l = some i) (k : ℕ) :
    indexOf pat (l.take k) = if i + pat.length ≤ k then some i else none := by
  have hle := le_length_of_indexOf h
  split_ifs with hk
  · obtain ⟨hp, hmin⟩ := indexOf_eq_some_iff.1 h
    refine indexOf_eq_some_iff.2 ⟨?_, fun j hj hjp => hmin j hj ?_⟩
    · rw [List.drop_take]
      exact (List.prefix_take_iff).2 ⟨hp, by omega⟩
    · rw [List.drop_take] at hjp
      exact hjp.trans (List.take_prefix _ _)
  · cases hf : indexOf pat (l.take k) with
    | none => rfl
    | some j =>
      have hj := le_length_of_indexOf hf
      have hji := indexOf_of_take hf
      rw [h, Option.some.injEq] at hji
      rw [List.length_take] at hj
      omega

/-- A stretch without the first letter of the word is skipped. -/
theorem indexOf_append_of_notMem {c : α} {p u : List α} (hu : c ∉ u) (l : List α) :
    indexOf (c :: p) (u ++ l) = (indexOf (c :: p) l).map (· + u.length) := by
  induction u with
  | nil => simp
  | cons a u ih =>
    have hne : a ≠ c := fun h => hu (by simp [h])
    have hpre : ¬ c :: p <+: a :: (u ++ l) := fun h => hne (List.cons_prefix_cons.1 h).1.symm
    rw [List.cons_append, indexOf_cons_succ hpre, ih fun h => hu (by simp [h])]
    cases indexOf (c :: p) l with
    | none => rfl
    | some i => simp; omega

/-- The first occurrence in `u ++ pat ++ v` is the displayed one when `u` lacks its first letter. -/
theorem indexOf_first {c : α} {p u : List α} (hu : c ∉ u) (v : List α) :
    indexOf (c :: p) (u ++ (c :: p ++ v)) = some u.length := by
  rw [indexOf_append_of_notMem hu, indexOf_eq_zero (List.prefix_append _ _)]
  simp

/-- A search goes on behind a stretch in which no occurrence begins. -/
theorem indexOf_skip {k : ℕ} (hk : k ≤ l.length) (h : ∀ j < k, ¬ pat <+: l.drop j) :
    indexOf pat l = (indexOf pat (l.drop k)).map (· + k) := by
  induction k generalizing l with
  | zero => simp
  | succ k ih =>
    rcases l with _ | ⟨a, l⟩
    · simp at hk
    · rw [indexOf_cons_succ (h 0 (Nat.succ_pos k)), ih (by simpa using hk), List.drop_succ_cons,
        Option.map_map]
      · exact congrArg (fun f => Option.map f _) (funext fun i => Nat.add_assoc i k 1)
      · intro j hj
        exact h (j + 1) (by omega)

omit [DecidableEq α] in
/-- A prefix of a concatenation cuts the first part, or is the first part with a prefix of the
second. -/
theorem prefix_append_or {u v p : List α} (h : p <+: u ++ v) :
    p <+: u ∧ p.length < u.length ∨ ∃ t, t <+: v ∧ p = u ++ t := by
  by_cases hlen : u.length ≤ p.length
  · obtain ⟨t, rfl⟩ := List.prefix_of_prefix_length_le (List.prefix_append _ _) h hlen
    exact Or.inr ⟨t, (List.prefix_append_right_inj _).1 h, rfl⟩
  · refine Or.inl ⟨?_, by omega⟩
    exact List.prefix_of_prefix_length_le h (List.prefix_append _ _) (by omega)

/-! ### Splitting at an occurrence -/

theorem eq_append_of_indexOf (h : indexOf pat l = some i) :
    l = l.take i ++ (pat ++ l.drop (i + pat.length)) := by
  obtain ⟨t, ht⟩ := prefix_of_indexOf h
  have hrest : l.drop (i + pat.length) = t := by
    rw [← List.drop_drop, ← ht, List.drop_left]
  rw [hrest, ht, List.take_append_drop]

theorem not_infix_take (hpat : pat ≠ []) (h : indexOf pat l = some i) : ¬ pat <:+: l.take i := by
  have hpos := List.length_pos_iff.2 hpat
  rw [← indexOf_eq_none_iff, indexOf_take h, if_neg (by omega)]

/-- A word of two different letters is found behind a stretch that does not contain it. -/
theorem indexOf_pair {c d : α} (hcd : c ≠ d) {u : List α} (hu : ¬ [c, d] <:+: u) (v : List α) :
    indexOf [c, d] (u ++ ([c, d] ++ v)) = some u.length := by
  induction u with
  | nil => exact indexOf_eq_zero (List.prefix_append _ _)
  | cons a u ih =>
    have hpre : ¬ [c, d] <+: a :: (u ++ ([c, d] ++ v)) := by
      intro h
      obtain ⟨rfl, hd⟩ := List.cons_prefix_cons.1 h
      rcases u with _ | ⟨b, u⟩
      · exact hcd (List.cons_prefix_cons.1 hd).1.symm
      · have hb : d = b := (List.cons_prefix_cons.1 hd).1
        exact hu ⟨[], u, by simp [hb]⟩
    have htail : ¬ [c, d] <:+: u := fun h => hu (h.trans (List.suffix_cons a u).isInfix)
    rw [List.cons_append, indexOf_cons_succ hpre, ih htail]
    rfl

end Search

end TuxDock
