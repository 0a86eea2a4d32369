import TuxDock.Text.Bytes
import Std.Data.String.ToInt

/-!
# Numbers as text

What `std::to_string` writes: decimal digits, with a minus in front of a negative number.  Different
numbers have different texts (`decimal_injective`), and so have different pairs of numbers with a
separator between them (`append_sep_injective`).  The digits of a natural number denote it
(`numeral_toString`).
-/

namespace TuxDock

namespace Text

/-- `std::to_string(n)`. -/
def decimal (n : ℤ) : Bytes := lit (toString n)

theorem mem_toString {n : ℤ} {c : Char} (h : c ∈ (toString n).toList) :
    c = '-' ∨ c.isDigit = true := by
  have hdigits {m : ℕ} (hc : c ∈ m.repr.toList) : c.isDigit = true := by
    rw [Nat.toList_repr] at hc
    exact Nat.isDigit_of_mem_toDigits (by decide) (by decide) hc
  rw [Int.toString_eq_repr, Int.repr_eq_if] at h
  split_ifs at h
  · exact Or.inr (hdigits h)
  · rw [String.toList_append, List.mem_append] at h
    rcases h with h | h
    · exact Or.inl (by simpa using h)
    · exact Or.inr (hdigits h)

theorem toNat_of_mem_toString {n : ℤ} {c : Char} (h : c ∈ (toString n).toList) : c.toNat < 58 := by
  rcases mem_toString h with rfl | hdigit
  · decide
  · simp only [Char.isDigit, Bool.and_eq_true, decide_eq_true_eq, UInt32.le_iff_toNat_le] at hdigit
    exact Nat.lt_succ_of_le hdigit.2

/-- Texts of one-byte characters are their bytes. -/
theorem map_ofNat_injective {s t : List Char} (hs : ∀ c ∈ s, c.toNat < 256)
    (ht : ∀ c ∈ t, c.toNat < 256)
    (h : s.map (fun c => UInt8.ofNat c.toNat) = t.map fun c => UInt8.ofNat c.toNat) : s = t := by
  induction s generalizing t with
  | nil => exact (List.map_eq_nil_iff.1 h.symm).symm
  | cons a s ih =>
    rcases t with _ | ⟨b, t⟩
    · cases h
    · rw [List.map_cons, List.map_cons, List.cons.injEq] at h
      obtain ⟨ha, hs⟩ := List.forall_mem_cons.1 hs
      obtain ⟨hb, ht⟩ := List.forall_mem_cons.1 ht
      have hab : a.toNat = b.toNat := by
        have := congrArg UInt8.toNat h.1
        rwa [UInt8.toNat_ofNat_of_lt' ha, UInt8.toNat_ofNat_of_lt' hb] at this
      rw [Char.toNat_inj.1 hab, ih hs ht h.2]

/-- **Different numbers have different texts.** -/
theorem decimal_injective : Function.Injective decimal := by
  intro m n h
  have hbound (k : ℤ) : ∀ c ∈ (toString k).toList, c.toNat < 256 := by
    intro c hc
    exact (toNat_of_mem_toString hc).trans (by decide)
  have htext := map_ofNat_injective (hbound m) (hbound n) h
  rw [String.toList_inj, Int.toString_eq_repr, Int.toString_eq_repr] at htext
  exact Int.repr_injective htext

theorem colon_notMem_decimal (n : ℤ) : (58 : UInt8) ∉ decimal n := by
  intro h
  obtain ⟨c, hc, h58⟩ := List.mem_map.1 h
  have hlt := toNat_of_mem_toString hc
  have hval := congrArg UInt8.toNat h58
  rw [UInt8.toNat_ofNat_of_lt' (hlt.trans (by decide))] at hval
  exact absurd hval (by simpa using hlt.ne)

/-- A text up to its first separator, and the text behind it. -/
theorem append_sep_injective {sep : UInt8} {a b a' b' : Bytes} (ha : sep ∉ a) (ha' : sep ∉ a')
    (h : a ++ sep :: b = a' ++ sep :: b') : a = a' ∧ b = b' := by
  have hfront (u v : Bytes) (hu : sep ∉ u) : (u ++ sep :: v).takeWhile (· != sep) = u := by
    have hkeep : ∀ c ∈ u, (c != sep) = true := by
      intro c hc
      rw [bne_iff_ne]
      rintro rfl
      exact hu hc
    rw [List.takeWhile_append_of_pos hkeep]
    simp
  have haa : a = a' := by rw [← hfront a b ha, h, hfront a' b' ha']
  subst haa
  exact ⟨rfl, (List.cons.inj (List.append_cancel_left h)).2⟩

/-! ### Natural numbers -/

theorem digitVal_digitChar {d : ℕ} (h : d < 10) :
    digitVal (UInt8.ofNat (Nat.digitChar d).toNat) = d := by
  have hall : ∀ d < 10, digitVal (UInt8.ofNat (Nat.digitChar d).toNat) = d := by decide
  exact hall d h

theorem numeral_concat (base : ℕ) (ds : Bytes) (c : UInt8) :
    numeral base (ds ++ [c]) = digitVal c + base * numeral base ds := by
  rw [numeral, numeral, List.map_append, List.map_singleton, List.reverse_append,
    List.reverse_singleton, List.singleton_append, Nat.ofDigits_cons]

theorem lit_toString_eq (n : ℕ) :
    lit (toString n) = (Nat.toDigits 10 n).map fun c => UInt8.ofNat c.toNat := by
  rw [lit, Nat.toString_eq_ofList_toDigits, String.toList_ofList]

/-- **The digits of a number denote it.** -/
theorem numeral_toString (n : ℕ) :
    (∀ c ∈ lit (toString n), isDigit 10 c = true) ∧ numeral 10 (lit (toString n)) = n := by
  rw [lit_toString_eq]
  induction n using Nat.strong_induction_on with
  | _ n ih =>
    rw [Nat.toDigits_eq_if (by decide)]
    split_ifs with hlt
    · have hval := digitVal_digitChar hlt
      refine ⟨?_, ?_⟩
      · simp [isDigit, hval, hlt]
      · simp [numeral, hval]
    · have hval := digitVal_digitChar (Nat.mod_lt n (by decide : 0 < 10))
      obtain ⟨hdigits, hnumeral⟩ := ih (n / 10) (Nat.div_lt_self (by omega) (by decide))
      rw [List.map_append, List.map_singleton]
      refine ⟨?_, ?_⟩
      · rw [List.forall_mem_append]
        refine ⟨hdigits, ?_⟩
        simpa [isDigit, hval] using Nat.mod_lt n (by decide : 0 < 10)
      · rw [numeral_concat, hval, hnumeral]
        omega

theorem toString_ne_nil (n : ℕ) : lit (toString n) ≠ [] := by
  rw [lit_toString_eq, Ne, List.map_eq_nil_iff]
  exact Nat.toDigits_ne_nil

end Text

end TuxDock
