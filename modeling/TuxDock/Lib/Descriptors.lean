import Mathlib.Data.List.Nodup
import Mathlib.Logic.Function.Basic

/-!
# Descriptors shared by threads

The descriptor numbers of a program, seen from one of its parties.  A number that is free may be
given to anybody; a number a party has closed is free, and if the party closes it once more it
closes whatever has the number then.

* `Owned t fds` : the party holds the descriptors `fds`, has closed no number twice or that it
  holds, and nothing of others;
* `Owned.close`, `Owned.opened`, `Owned.others` : **what keeps descriptors owned**: closing one of
  them, opening free ones before anything is closed, and whatever others do with numbers that are
  theirs or free.
-/

namespace TuxDock

namespace Descriptors

/-- Who has a descriptor open. -/
inductive Holder where
  | self
  | other
  deriving Repr, DecidableEq

/-- The descriptors that are open, and what the party has closed. -/
structure Table where
  holder : ℕ → Option Holder
  /-- The numbers the party has passed to `close`, in order. -/
  closes : List ℕ
  /-- Those of them another had open. -/
  foreign : List ℕ

namespace Table

variable (t : Table)

/-- The party calls `close`. -/
def close (fd : ℕ) : Table where
  holder := Function.update t.holder fd none
  closes := t.closes ++ [fd]
  foreign := if t.holder fd = some .other then t.foreign ++ [fd] else t.foreign

/-- A free number is given out. -/
def opened (fd : ℕ) (h : Holder) : Table :=
  { t with holder := Function.update t.holder fd (some h) }

/-- Another closes a descriptor of its own. -/
def released (fd : ℕ) : Table := { t with holder := Function.update t.holder fd none }

/-- The party has closed no number twice, and no descriptor of another. -/
def ClosedOnce : Prop := t.closes.Nodup ∧ t.foreign = []

end Table

/-- The party holds the descriptors `fds`, has closed others, each once, and nothing foreign. -/
structure Owned (t : Table) (fds : List ℕ) : Prop where
  nodup : (t.closes ++ fds).Nodup
  foreign : t.foreign = []
  held : ∀ fd ∈ fds, t.holder fd = some .self

namespace Owned

variable {t : Table} {fds : List ℕ}

theorem closedOnce (h : Owned t fds) : t.ClosedOnce :=
  ⟨h.nodup.sublist (List.sublist_append_left _ _), h.foreign⟩

theorem sublist (h : Owned t fds) {fds' : List ℕ} (hs : fds'.Sublist fds) : Owned t fds' where
  nodup := h.nodup.sublist ((List.Sublist.refl _).append hs)
  foreign := h.foreign
  held fd hfd := h.held fd (hs.subset hfd)

theorem perm (h : Owned t fds) {fds' : List ℕ} (hp : fds.Perm fds') : Owned t fds' where
  nodup := (hp.append_left _).nodup_iff.1 h.nodup
  foreign := h.foreign
  held fd hfd := h.held fd (hp.mem_iff.2 hfd)

/-- **Closing a descriptor that is owned** leaves the others owned. -/
theorem close {fd : ℕ} (h : Owned t (fd :: fds)) : Owned (t.close fd) fds where
  nodup := by
    rw [Table.close, List.append_assoc]
    exact h.nodup
  foreign := by
    have hfd := h.held fd List.mem_cons_self
    simp [Table.close, hfd, h.foreign]
  held fd' hfd' := by
    have hne : fd' ≠ fd := by
      rintro rfl
      exact (List.nodup_cons.1 (h.nodup.sublist (List.sublist_append_right _ _))).1 hfd'
    exact (Function.update_of_ne hne _ _).trans (h.held fd' (List.mem_cons_of_mem _ hfd'))

theorem opened (h : Owned t fds) {fd : ℕ} (free : t.holder fd = none) (hclosed : fd ∉ t.closes) :
    Owned (t.opened fd .self) (fd :: fds) where
  nodup := by
    have hnew : fd ∉ fds := fun hfd => by rw [h.held fd hfd] at free; cases free
    refine (List.perm_middle.nodup_iff).2 (List.nodup_cons.2 ⟨?_, h.nodup⟩)
    rw [List.mem_append, not_or]
    exact ⟨hclosed, hnew⟩
  foreign := h.foreign
  held fd' hfd' := by
    by_cases heq : fd' = fd
    · rw [heq]
      exact Function.update_self _ _ _
    · have hold : fd' ∈ fds := (List.mem_cons.1 hfd').resolve_left heq
      exact (Function.update_of_ne heq _ _).trans (h.held fd' hold)

/-- Whatever others do with a number that the party does not hold. -/
theorem others (h : Owned t fds) {fd : ℕ} (hfd : t.holder fd ≠ some .self) (now : Option Holder) :
    Owned { t with holder := Function.update t.holder fd now } fds where
  nodup := h.nodup
  foreign := h.foreign
  held fd' hfd' := by
    have hne : fd' ≠ fd := by
      rintro rfl
      exact hfd (h.held fd' hfd')
    exact (Function.update_of_ne hne _ _).trans (h.held fd' hfd')

end Owned

/-- Closing the first of some descriptors leaves it to the others whether a number is closed
twice. -/
theorem close_append (t : Table) (fd : ℕ) (fds : List ℕ) :
    (t.close fd).closes ++ fds = t.closes ++ fd :: fds := by
  rw [Table.close, List.append_assoc]
  rfl

end Descriptors

end TuxDock
