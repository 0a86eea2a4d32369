import Mathlib.Data.List.Basic

/-!
# Arrays of a fixed size

An array of `n` cells that a program fills from an index on, one cell after the other.  A write
outside of the array has no result.

* `set?` : one checked write;
* `write` : a list of values, written one after the other;
* `exists_write` : **values that fit are written**, and the rest of the array is as it was.
-/

namespace TuxDock

namespace Buffer

variable {α : Type*} {n : ℕ}

/-- `b[i] = a`. -/
def set? (b : Vector α n) (i : ℕ) (a : α) : Option (Vector α n) :=
  if h : i < n then some (b.set i a h) else none

/-- Writes the values from index `i` on. -/
def write (b : Vector α n) (i : ℕ) : List α → Option (Vector α n)
  | [] => some b
  | a :: as => (set? b i a).bind fun b => write b (i + 1) as

theorem write_append (b : Vector α n) (i : ℕ) (as as' : List α) :
    write b i (as ++ as') = (write b i as).bind fun b => write b (i + as.length) as' := by
  induction as generalizing b i with
  | nil => rfl
  | cons a as ih =>
    rw [List.cons_append, write, write, Option.bind_assoc]
    congr 1
    funext b'
    rw [ih, List.length_cons, Nat.add_right_comm, Nat.add_assoc]

/-- **Values that fit are written**, and the other cells keep theirs. -/
theorem exists_write (b : Vector α n) (i : ℕ) (as : List α) (h : i + as.length ≤ n) :
    ∃ c, write b i as = some c ∧
      c.toList = b.toList.take i ++ as ++ b.toList.drop (i + as.length) := by
  induction as generalizing b i with
  | nil => exact ⟨b, rfl, by simp⟩
  | cons a as ih =>
    rw [List.length_cons] at h
    have hi : i < n := by omega
    have hlen : i < b.toList.length := by rwa [Vector.length_toList]
    obtain ⟨c, hc, hcells⟩ := ih (b.set i a hi) (i + 1) (by omega)
    refine ⟨c, ?_, ?_⟩
    · rw [write, set?, dif_pos hi]
      exact hc
    · rw [hcells, Vector.toList_set, List.drop_set_of_lt (by omega), List.length_cons,
        List.take_succ_eq_append_getElem (by rwa [List.length_set]),
        List.take_set_of_le (Nat.le_refl _), List.getElem_set_self, List.append_assoc,
        List.append_assoc, List.append_assoc, List.singleton_append, List.cons_append,
        Nat.add_right_comm, Nat.add_assoc]

/-- What is written from the start on. -/
theorem exists_write_zero (b : Vector α n) (as : List α) (h : as.length ≤ n) :
    ∃ c, write b 0 as = some c ∧ c.toList = as ++ b.toList.drop as.length := by
  obtain ⟨c, hc, hcells⟩ := exists_write b 0 as (by omega)
  refine ⟨c, hc, ?_⟩
  rw [hcells, List.take_zero, List.nil_append, Nat.zero_add]

end Buffer

end TuxDock
