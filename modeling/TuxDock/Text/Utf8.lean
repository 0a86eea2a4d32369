import TuxDock.Text.Bytes

/-!
# UTF-8

Well-formed UTF-8, as the JSON library checks it on reading and on writing: no overlong forms, no
surrogates, nothing above `U+10FFFF`, no character cut off at the end.
-/

namespace TuxDock

namespace Text

/-- What the first byte of a character asks for: how many bytes follow, and the least and the
greatest value of the first of them. -/
def utf8Lead (b : ℕ) : Option (ℕ × ℕ × ℕ) :=
  if b ≤ 0x7F then some (0, 0x80, 0xBF)
  else if 0xC2 ≤ b ∧ b ≤ 0xDF then some (1, 0x80, 0xBF)
  else if b = 0xE0 then some (2, 0xA0, 0xBF)
  else if b = 0xED then some (2, 0x80, 0x9F)
  else if 0xE1 ≤ b ∧ b ≤ 0xEF then some (2, 0x80, 0xBF)
  else if b = 0xF0 then some (3, 0x90, 0xBF)
  else if 0xF1 ≤ b ∧ b ≤ 0xF3 then some (3, 0x80, 0xBF)
  else if b = 0xF4 then some (3, 0x80, 0x8F)
  else none

/-- The rest of a text with `owed` bytes of a character still to come, the next of them between
`low` and `high`. -/
def utf8From (owed low high : ℕ) : Bytes → Bool
  | [] => owed == 0
  | c :: s =>
    match owed with
    | 0 =>
      match utf8Lead c.toNat with
      | none => false
      | some (owed, low, high) => utf8From owed low high s
    | owed + 1 => low ≤ c.toNat && c.toNat ≤ high && utf8From owed 0x80 0xBF s

/-- The text is well-formed UTF-8. -/
def ValidUtf8 (s : Bytes) : Prop := utf8From 0 0x80 0xBF s = true

instance (s : Bytes) : Decidable (ValidUtf8 s) := inferInstanceAs (Decidable (_ = true))

/-- Bytes below 128 are characters of their own. -/
theorem validUtf8_of_ascii {s : Bytes} (h : ∀ c ∈ s, c.toNat < 128) : ValidUtf8 s := by
  unfold ValidUtf8
  induction s with
  | nil => rfl
  | cons c s ih =>
    rw [List.forall_mem_cons] at h
    have hlead : utf8Lead c.toNat = some (0, 0x80, 0xBF) := if_pos (by omega)
    simp only [utf8From, hlead]
    exact ih h.2

end Text

end TuxDock
