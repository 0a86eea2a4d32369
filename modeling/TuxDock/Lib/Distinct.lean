import Mathlib.Data.List.Nodup

/-!
# The distinct values of a sequence

* `Distinct l d` : `d` lists every value of `l` once, in the order of their first appearance;
* `Distinct.seen`, `Distinct.fresh` : **one more value**, the two steps of a loop that remembers
  what it has met.
-/

namespace TuxDock

variable {α : Type*} [DecidableEq α] {l d : List α} {x : α}

/-- The values of `l`, each at its first appearance; the order is strict, so none appears twice. -/
structure Distinct (l d : List α) : Prop where
  mem_iff : ∀ x, x ∈ d ↔ x ∈ l
  order : d.Pairwise fun x y => l.idxOf x < l.idxOf y

namespace Distinct

theorem nil : Distinct ([] : List α) [] := ⟨fun _ => Iff.rfl, List.Pairwise.nil⟩

/-- The first appearances stay where they are. -/
theorem order_append (h : Distinct l d) (x : α) :
    d.Pairwise fun y z => (l ++ [x]).idxOf y < (l ++ [x]).idxOf z := by
  refine h.order.imp_of_mem ?_
  intro y z hy hz hlt
  rw [List.idxOf_append_of_mem ((h.mem_iff y).1 hy), List.idxOf_append_of_mem ((h.mem_iff z).1 hz)]
  exact hlt

theorem seen (h : Distinct l d) (hx : x ∈ l) : Distinct (l ++ [x]) d := by
  refine ⟨?_, h.order_append x⟩
  intro y
  rw [h.mem_iff, List.mem_append, List.mem_singleton]
  constructor
  · exact Or.inl
  · rintro (hy | rfl)
    · exact hy
    · exact hx

theorem fresh (h : Distinct l d) (hx : x ∉ l) : Distinct (l ++ [x]) (d ++ [x]) := by
  constructor
  · intro y
    rw [List.mem_append, List.mem_append, h.mem_iff]
  · rw [List.pairwise_append]
    refine ⟨h.order_append x, List.pairwise_singleton _ _, ?_⟩
    intro y hy z hz
    rw [List.mem_singleton] at hz
    subst hz
    have hyl := (h.mem_iff y).1 hy
    have hlt := List.idxOf_lt_length_of_mem hyl
    rw [List.idxOf_append_of_mem hyl, List.idxOf_append_of_notMem hx]
    omega

end Distinct

end TuxDock
