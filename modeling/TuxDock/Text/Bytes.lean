import TuxDock.Lib.Search
import Mathlib.Data.Nat.Digits.Defs
import Mathlib.Data.List.DropRight

/-!
# Byte strings

The parts of `std::string`, `std::istringstream` and `std::stoull` that the source uses.  A
string is a list of bytes, a position a natural number; where the source computes with
positions in `std::size_t`, the model does so modulo `2^64` (`sub64`, `npos`).

`find` answers `none` for `npos`.  Every call of `substr` in the source but one has a start
inside the string; the exception, in the chunk decoder, is checked there.
-/

namespace TuxDock

open Search

/-- A `std::string`. -/
abbrev Bytes := List UInt8

/-- The bytes of an ASCII literal. -/
def lit (s : String) : Bytes := s.toList.map fun c => UInt8.ofNat c.toNat

namespace Text

/-- `std::string::npos`. -/
def npos : ℕ := 2 ^ 64 - 1

/-- Subtraction of `std::size_t`. -/
def sub64 (a b : ℕ) : ℕ := (a + (2 ^ 64 - b)) % 2 ^ 64

/-- `s.find(pat, pos)`. -/
def find (s pat : Bytes) (pos : ℕ) : Option ℕ :=
  if pos ≤ s.length then (indexOf pat (s.drop pos)).map (pos + ·) else none

/-- `s.substr(pos, n)` for a `pos` inside `s`. -/
def substr (s : Bytes) (pos n : ℕ) : Bytes := (s.drop pos).take n

/-- `std::isspace` in the C locale. -/
def isspace (c : UInt8) : Bool := c.toNat == 32 || (9 ≤ c.toNat && c.toNat ≤ 13)

/-- The bytes `trim` removes: blank, tab, carriage return and line feed. -/
def isTrimmed (c : UInt8) : Bool := lit " \t\r\n" |>.contains c

/-- `std::tolower` in the C locale. -/
def tolower (c : UInt8) : UInt8 := if 65 ≤ c.toNat && c.toNat ≤ 90 then c + 32 else c

/-- `lower`. -/
def lower (value : Bytes) : Bytes := value.map tolower

/-- `trim`. -/
def trim (value : Bytes) : Bytes := (value.dropWhile isTrimmed).rdropWhile isTrimmed

/-- The value of a digit or letter as `strtoull` counts it; `36` for any other byte. -/
def digitVal (c : UInt8) : ℕ :=
  if 48 ≤ c.toNat ∧ c.toNat ≤ 57 then c.toNat - 48
  else if 97 ≤ c.toNat ∧ c.toNat ≤ 122 then c.toNat - 87
  else if 65 ≤ c.toNat ∧ c.toNat ≤ 90 then c.toNat - 55
  else 36

/-- It is a digit of that base. -/
def isDigit (base : ℕ) (c : UInt8) : Bool := digitVal c < base

/-- The number a list of digits denotes, the most significant digit first. -/
def numeral (base : ℕ) (ds : Bytes) : ℕ := Nat.ofDigits base (ds.map digitVal).reverse

/-- An optional sign: whether it is a minus, and what follows it. -/
def sign : Bytes → Bool × Bytes
  | 45 :: s => (true, s)
  | 43 :: s => (false, s)
  | s => (false, s)

/-- The prefix `0x` that base 16 allows, dropped if a hexadecimal digit follows. -/
def dropHexPrefix : Bytes → Bytes
  | 48 :: x :: d :: s => if tolower x = 120 ∧ isDigit 16 d then d :: s else 48 :: x :: d :: s
  | s => s

/-- `std::stoull(s, nullptr, base)`; `none` when it throws (`invalid_argument` without a digit,
`out_of_range` above `2^64 - 1`).  A minus sign negates modulo `2^64`. -/
def stoull (base : ℕ) (s : Bytes) : Option ℕ :=
  let (negative, s) := sign (s.dropWhile isspace)
  let ds := (if base = 16 then dropHexPrefix s else s).takeWhile (isDigit base)
  if ds = [] then none
  else if numeral base ds < 2 ^ 64 then
    some (if negative then sub64 0 (numeral base ds) else numeral base ds)
  else none

/-- `stream >> word` on the unread rest `s`: the word and the new rest, `none` on failure. -/
def readWord (s : Bytes) : Option (Bytes × Bytes) :=
  let s := s.dropWhile isspace
  if s = [] then none
  else some (s.takeWhile (! isspace ·), s.dropWhile (! isspace ·))

/-- The value `stream >> n` leaves in an `int n = 0`: zero when no number follows, the nearest
`int` when it is out of range. -/
def readInt (s : Bytes) : ℤ :=
  let (negative, s) := sign (s.dropWhile isspace)
  let v : ℤ := numeral 10 (s.takeWhile (isDigit 10))
  if negative then max (-v) (-2 ^ 31) else min v (2 ^ 31 - 1)

/-- `std::stoi(s)`; `none` when it throws (`invalid_argument` without a digit, `out_of_range` for
a number that is no `int`). -/
def stoi (s : Bytes) : Option ℤ :=
  let (negative, s) := sign (s.dropWhile isspace)
  let ds := s.takeWhile (isDigit 10)
  let v : ℤ := if negative then -(numeral 10 ds : ℤ) else numeral 10 ds
  if ds = [] then none else if -2 ^ 31 ≤ v ∧ v < 2 ^ 31 then some v else none

/-! ### Substrings and searches -/

theorem sub64_eq {a b : ℕ} (h : b ≤ a) (ha : a < 2 ^ 64) : sub64 a b = a - b := by
  unfold sub64; omega

theorem substr_append (u v w : Bytes) : substr (u ++ (v ++ w)) u.length v.length = v := by
  simp [substr]

theorem find_append (u l pat : Bytes) :
    find (u ++ l) pat u.length = (indexOf pat l).map (u.length + ·) := by
  simp [find]

theorem find_zero (s pat : Bytes) : find s pat 0 = indexOf pat s := by
  cases h : indexOf pat s <;> simp [find, h]

theorem find_eq_some_iff {s pat : Bytes} {pos i : ℕ} (hpos : pos ≤ s.length) :
    find s pat pos = some i ↔
      pos ≤ i ∧ pat <+: s.drop i ∧ ∀ j, pos ≤ j → j < i → ¬ pat <+: s.drop j := by
  simp only [find, if_pos hpos, Option.map_eq_some_iff, indexOf_eq_some_iff, List.drop_drop]
  constructor
  · rintro ⟨k, ⟨hk, hfirst⟩, rfl⟩
    refine ⟨Nat.le_add_right pos k, hk, ?_⟩
    intro j hj hji hocc
    refine hfirst (j - pos) (by omega) ?_
    rwa [Nat.add_sub_cancel' hj]
  · rintro ⟨hi, hocc, hfirst⟩
    refine ⟨i - pos, ⟨by rwa [Nat.add_sub_cancel' hi], ?_⟩, Nat.add_sub_cancel' hi⟩
    intro j hj hocc'
    exact hfirst (pos + j) (Nat.le_add_right pos j) (by omega) hocc'

/-! ### Case and blanks -/

theorem lower_isInfix {s t : Bytes} (h : s <:+: t) : lower s <:+: lower t := h.map tolower

@[simp] theorem length_lower (s : Bytes) : (lower s).length = s.length := List.length_map _

theorem lower_drop (s : Bytes) (n : ℕ) : lower (s.drop n) = (lower s).drop n := List.map_drop

theorem lower_append (s t : Bytes) : lower (s ++ t) = lower s ++ lower t := List.map_append

/-- Only letters are changed, and into letters. -/
theorem eq_of_tolower_eq {c d : UInt8} (hd : ¬ (97 ≤ d.toNat ∧ d.toNat ≤ 122))
    (h : tolower c = d) : c = d := by
  subst h
  unfold tolower at hd ⊢
  split_ifs at hd ⊢ with hupper
  · have h32 : (32 : UInt8).toNat = 32 := rfl
    rw [UInt8.toNat_add, h32] at hd
    simp only [Bool.and_eq_true, decide_eq_true_eq] at hupper
    omega
  · rfl

theorem isTrimmed_iff (c : UInt8) :
    isTrimmed c = true ↔ c = 32 ∨ c = 9 ∨ c = 13 ∨ c = 10 := by
  simp [isTrimmed, lit]

theorem trim_eq_self {value : Bytes} (h : ∀ c ∈ value, isTrimmed c = false) :
    trim value = value := by
  have hd : value.dropWhile isTrimmed = value := by
    cases value with
    | nil => rfl
    | cons a l => exact List.dropWhile_cons_of_neg (by simp [h a (by simp)])
  rw [trim, hd, List.rdropWhile_eq_self_iff]
  intro hne
  simp [h _ (List.getLast_mem hne)]

/-- Bytes that are no blanks stay, and only the end of what follows them is trimmed. -/
theorem trim_append {u : Bytes} (hu : u ≠ []) (h : ∀ c ∈ u, isTrimmed c = false) (v : Bytes) :
    trim (u ++ v) = u ++ v.rdropWhile isTrimmed := by
  have hfront : (u ++ v).dropWhile isTrimmed = u ++ v := by
    cases u with
    | nil => exact absurd rfl hu
    | cons a l => exact List.dropWhile_cons_of_neg (by simp [h a (by simp)])
  have hback : u.reverse.dropWhile isTrimmed = u.reverse := by
    rcases hr : u.reverse with _ | ⟨a, l⟩
    · rfl
    · have ha : a ∈ u := by rw [← List.mem_reverse, hr]; simp
      exact List.dropWhile_cons_of_neg (by simp [h a ha])
  rw [trim, hfront, List.rdropWhile, List.rdropWhile, List.reverse_append, List.dropWhile_append]
  split_ifs with he
  · rw [List.isEmpty_iff] at he
    simp [hback, he]
  · simp

theorem exists_trim (value : Bytes) :
    ∃ b b', (∀ c ∈ b, isTrimmed c = true) ∧ (∀ c ∈ b', isTrimmed c = true) ∧
      value = b ++ (trim value ++ b') := by
  refine ⟨value.takeWhile isTrimmed, (value.dropWhile isTrimmed).rtakeWhile isTrimmed,
    fun c hc => List.mem_takeWhile_imp hc, fun c hc => List.mem_rtakeWhile_imp hc, ?_⟩
  rw [trim, List.rdropWhile_append_rtakeWhile, List.takeWhile_append_dropWhile]

/-- The first byte of a trimmed text is no blank. -/
theorem not_isTrimmed_head_trim (value : Bytes) :
    ∀ c ∈ (trim value).head?, isTrimmed c = false := by
  intro c hc
  have hhead : c ∈ (value.dropWhile isTrimmed).head? := by
    obtain ⟨t, ht⟩ := List.rdropWhile_prefix isTrimmed (value.dropWhile isTrimmed)
    rw [← ht, List.head?_append_of_ne_nil]
    · exact hc
    · intro hnil; simp [trim, hnil] at hc
  have hstop := List.head?_dropWhile_not isTrimmed value
  rw [Option.mem_def.1 hhead] at hstop
  simpa using hstop

/-- A text that starts and ends with no blank, behind blanks. -/
theorem trim_blanks_append {b u : Bytes} (hb : ∀ c ∈ b, isTrimmed c = true) {d : UInt8}
    (hhead : ∀ c ∈ (u ++ [d]).head?, isTrimmed c = false) (hd : isTrimmed d = false) :
    trim (b ++ (u ++ [d])) = u ++ [d] := by
  have hfront : (u ++ [d]).dropWhile isTrimmed = u ++ [d] := by
    rcases hu : u ++ [d] with _ | ⟨c, l⟩
    · rfl
    · have hc := hhead c (by simp [hu])
      exact List.dropWhile_cons_of_neg (by simp [hc])
  rw [trim, List.dropWhile_append_of_pos hb, hfront]
  exact List.rdropWhile_concat_neg _ _ _ (by simp [hd])

/-! ### Numbers -/

theorem digitVal_of_isTrimmed {c : UInt8} (h : isTrimmed c = true) : digitVal c = 36 := by
  rcases (isTrimmed_iff c).1 h with rfl | rfl | rfl | rfl <;> rfl

theorem stoull_lt {base n : ℕ} {s : Bytes} (h : stoull base s = some n) : n < 2 ^ 64 := by
  unfold stoull at h
  split at h
  rename_i negative rest hsign
  dsimp only at h
  generalize List.takeWhile (isDigit base) _ = ds at h
  split_ifs at h with hnil hlt hneg
  · simp only [Option.some.injEq] at h
    subst h
    exact Nat.mod_lt _ (by decide)
  · simp only [Option.some.injEq] at h
    omega

/-- A digit is neither a blank nor a sign. -/
theorem not_blank_of_isDigit {base : ℕ} (hb : base ≤ 36) {c : UInt8} (h : isDigit base c = true) :
    isspace c = false ∧ isTrimmed c = false ∧ c ≠ 43 ∧ c ≠ 45 := by
  have hd : digitVal c < base := by simpa [isDigit] using h
  have hc : 48 ≤ c.toNat := by
    unfold digitVal at hd
    split_ifs at hd <;> omega
  refine ⟨?_, ?_, ?_, ?_⟩
  · simp only [isspace, Bool.or_eq_false_iff, beq_eq_false_iff_ne, Bool.and_eq_false_iff,
      decide_eq_false_iff_not]
    omega
  · rw [Bool.eq_false_iff, ne_eq, isTrimmed_iff]
    rintro (rfl | rfl | rfl | rfl) <;> revert hc <;> decide
  · rintro rfl; revert hc; decide
  · rintro rfl; revert hc; decide

/-- Blanks in front of a number are skipped. -/
theorem stoull_blanks {base : ℕ} {b u : Bytes} (hb : ∀ c ∈ b, isspace c = true) :
    stoull base (b ++ u) = stoull base u := by
  simp only [stoull, List.dropWhile_append_of_pos hb]

/-- A sign is a minus, a plus or not there. -/
theorem sign_cases (u : Bytes) :
    (∃ r, u = 45 :: r ∧ sign u = (true, r)) ∨ (∃ r, u = 43 :: r ∧ sign u = (false, r)) ∨
      sign u = (false, u) := by
  rcases u with _ | ⟨c, r⟩
  · exact Or.inr (Or.inr rfl)
  · by_cases h45 : c = 45
    · subst h45; exact Or.inl ⟨r, rfl, rfl⟩
    · by_cases h43 : c = 43
      · subst h43; exact Or.inr (Or.inl ⟨r, rfl, rfl⟩)
      · exact Or.inr (Or.inr (by simp [sign, h45, h43]))

/-- A number has a digit behind its blanks and its sign. -/
theorem exists_digit_of_stoull {n : ℕ} {s : Bytes} (h : stoull 10 s = some n) :
    ∃ d r, (sign (s.dropWhile isspace)).2 = d :: r ∧ isDigit 10 d = true := by
  have hne : (sign (s.dropWhile isspace)).2.takeWhile (isDigit 10) ≠ [] := by
    intro hnil
    simp [stoull, hnil] at h
  rcases hr : (sign (s.dropWhile isspace)).2 with _ | ⟨d, r⟩
  · simp [hr] at hne
  · refine ⟨d, r, rfl, ?_⟩
    by_contra hd
    rw [hr, List.takeWhile_cons_of_neg hd] at hne
    exact hne rfl

/-- A digit behind a sign, as the only one. -/
theorem stoull_signed (sg : Bytes) {neg : Bool} {d : UInt8} (hd : isDigit 10 d = true)
    (hskip : (sg ++ [d]).dropWhile isspace = sg ++ [d]) (hsign : sign (sg ++ [d]) = (neg, [d])) :
    stoull 10 (sg ++ [d]) = some (if neg then sub64 0 (digitVal d) else digitVal d) := by
  have hlt : digitVal d < 10 := by simpa [isDigit] using hd
  have hnum : numeral 10 [d] = digitVal d := by simp [numeral]
  have htake : [d].takeWhile (isDigit 10) = [d] := by simp [hd]
  simp only [stoull, hskip, hsign, show (10 : ℕ) ≠ 16 by decide, ↓reduceIte, htake, hnum]
  rw [if_neg (by simp), if_pos (by omega)]

/-- **A number read up to its first digit** is that digit, or its negative. -/
theorem exists_first_digit {n : ℕ} {s : Bytes} (h : stoull 10 s = some n) :
    ∃ p d v, p ++ [d] <+: s ∧ isDigit 10 d = true ∧ stoull 10 (p ++ [d]) = some v ∧
      (v = digitVal d ∨ v = sub64 0 (digitVal d)) := by
  obtain ⟨d, r, hr, hd⟩ := exists_digit_of_stoull h
  have hdspace : isspace d = false := (not_blank_of_isDigit (by omega) hd).1
  have hs : s = s.takeWhile isspace ++ s.dropWhile isspace := List.takeWhile_append_dropWhile.symm
  have hb : ∀ c ∈ s.takeWhile isspace, isspace c = true := fun c hc => List.mem_takeWhile_imp hc
  rcases sign_cases (s.dropWhile isspace) with ⟨r', hu, hsg⟩ | ⟨r', hu, hsg⟩ | hsg <;>
    rw [hsg] at hr <;> dsimp only at hr
  · subst hr
    refine ⟨s.takeWhile isspace ++ [45], d, sub64 0 (digitVal d), ⟨r, ?_⟩, hd, ?_, Or.inr rfl⟩
    · simp [← hu]
    · rw [List.append_assoc, stoull_blanks hb]
      exact stoull_signed [45] hd (List.dropWhile_cons_of_neg (by decide)) rfl
  · subst hr
    refine ⟨s.takeWhile isspace ++ [43], d, digitVal d, ⟨r, ?_⟩, hd, ?_, Or.inl rfl⟩
    · simp [← hu]
    · rw [List.append_assoc, stoull_blanks hb]
      exact stoull_signed [43] hd (List.dropWhile_cons_of_neg (by decide)) rfl
  · refine ⟨s.takeWhile isspace, d, digitVal d, ⟨r, ?_⟩, hd, ?_, Or.inl rfl⟩
    · simp [← hr]
    · rw [stoull_blanks hb]
      obtain ⟨-, -, h43, h45⟩ := not_blank_of_isDigit (by omega) hd
      have hplain : sign ([] ++ [d]) = (false, [d]) := by simp [sign, h43, h45]
      exact stoull_signed [] hd (List.dropWhile_cons_of_neg (by simp [hdspace])) hplain

/-- Only the letter x, in either case, is lowered to x; no digit of base 16 is, nor is it a byte
that counts as no digit at all. -/
theorem digitVal_of_tolower_x {c : UInt8} (h : tolower c = 120) : digitVal c = 33 := by
  have hn := congrArg UInt8.toNat h
  have h120 : (120 : UInt8).toNat = 120 := rfl
  have h32 : (32 : UInt8).toNat = 32 := rfl
  have hx : c.toNat = 120 ∨ c.toNat = 88 := by
    unfold tolower at hn
    split_ifs at hn with hu
    · rw [UInt8.toNat_add] at hn
      simp only [Bool.and_eq_true, decide_eq_true_eq] at hu
      omega
    · omega
  unfold digitVal
  split_ifs <;> omega

theorem numeral_lt {base : ℕ} (hb : 1 < base) {ds : Bytes} (h : ∀ c ∈ ds, isDigit base c = true) :
    numeral base ds < base ^ ds.length := by
  have hlt := Nat.ofDigits_lt_base_pow_length (b := base) (l := (ds.map digitVal).reverse) hb
  rw [List.length_reverse, List.length_map] at hlt
  refine hlt ?_
  intro d hd
  rw [List.mem_reverse, List.mem_map] at hd
  obtain ⟨c, hc, rfl⟩ := hd
  simpa [isDigit] using h c hc

theorem length_sign_le (s : Bytes) : (sign s).2.length ≤ s.length := by
  rcases sign_cases s with ⟨r, rfl, h⟩ | ⟨r, rfl, h⟩ | h <;> simp [h]

theorem length_of_readInt {s : Bytes} (h : 100 ≤ readInt s) : 3 ≤ s.length := by
  have hskip : (s.dropWhile isspace).length ≤ s.length := List.length_dropWhile_le _ _
  have hsign := length_sign_le (s.dropWhile isspace)
  unfold readInt at h
  generalize sign (s.dropWhile isspace) = p at hsign h
  obtain ⟨negative, u⟩ := p
  dsimp only at hsign h
  have hdigits : ∀ c ∈ u.takeWhile (isDigit 10), isDigit 10 c = true := fun c hc =>
    List.mem_takeWhile_imp hc
  have hlt := numeral_lt (by decide) hdigits
  have hle : (u.takeWhile (isDigit 10)).length ≤ u.length := (List.takeWhile_prefix _).length_le
  by_contra hshort
  have hpow : 10 ^ (u.takeWhile (isDigit 10)).length ≤ 10 ^ 2 :=
    Nat.pow_le_pow_right (by decide) (by omega)
  split_ifs at h <;> omega

/-- Digits followed by something that is no letter or digit. -/
structure DigitsThen (base : ℕ) (ds rest : Bytes) : Prop where
  digits : ∀ c ∈ ds, isDigit base c = true
  ne_nil : ds ≠ []
  stop : ∀ c ∈ rest.head?, digitVal c = 36

namespace DigitsThen

variable {base : ℕ} {ds rest : Bytes}

theorem takeWhile_eq (h : DigitsThen base ds rest) (hb : base ≤ 36) :
    (ds ++ rest).takeWhile (isDigit base) = ds := by
  rw [List.takeWhile_append_of_pos h.digits]
  cases rest with
  | nil => simp
  | cons c rest =>
    have hc : digitVal c = 36 := h.stop c (by simp)
    have hn : isDigit base c = false := by simp [isDigit, hc, hb]
    simp [hn]

theorem dropWhile_isspace (h : DigitsThen base ds rest) (hb : base ≤ 36) :
    (ds ++ rest).dropWhile isspace = ds ++ rest := by
  cases hds : ds with
  | nil => exact absurd hds h.ne_nil
  | cons c l =>
    have hc := (not_blank_of_isDigit hb (h.digits c (by simp [hds]))).1
    rw [List.cons_append, List.dropWhile_cons_of_neg (by simp [hc])]

theorem sign_eq (h : DigitsThen base ds rest) (hb : base ≤ 36) :
    sign (ds ++ rest) = (false, ds ++ rest) := by
  cases hds : ds with
  | nil => exact absurd hds h.ne_nil
  | cons c l =>
    obtain ⟨-, -, h43, h45⟩ := not_blank_of_isDigit hb (h.digits c (by simp [hds]))
    simp [sign, h43, h45]

theorem dropHexPrefix_eq (h : DigitsThen 16 ds rest) :
    dropHexPrefix (ds ++ rest) = ds ++ rest := by
  -- the second byte is a digit or the byte that ends the digits, so never an x
  have key : ∀ x, (ds ++ rest)[1]? = some x → tolower x ≠ 120 := by
    intro x hx
    rcases ds with _ | ⟨a, _ | ⟨b, l⟩⟩
    · exact absurd rfl h.ne_nil
    · have hr : x ∈ rest.head? := by simpa [List.head?_eq_getElem?] using hx
      have h36 := h.stop x hr
      intro hlow
      rw [digitVal_of_tolower_x hlow] at h36
      omega
    · have hb : x = b := by simpa using hx.symm
      have hd := h.digits b (by simp)
      intro hlow
      simp [isDigit, ← hb, digitVal_of_tolower_x hlow] at hd
  unfold dropHexPrefix
  split
  · rename_i x d l heq
    rw [heq] at key ⊢
    rw [if_neg fun hc => key x rfl hc.1]
  · rfl

/-- **`std::stoull` reads the digits**, unless their number needs more than 64 bits. -/
theorem stoull_ite (h : DigitsThen base ds rest) (hbase : base = 10 ∨ base = 16) :
    stoull base (ds ++ rest) =
      if numeral base ds < 2 ^ 64 then some (numeral base ds) else none := by
  have hb : base ≤ 36 := by omega
  have hx : (if base = 16 then dropHexPrefix (ds ++ rest) else ds ++ rest) = ds ++ rest := by
    split_ifs with h16
    · subst h16; exact h.dropHexPrefix_eq
    · rfl
  simp only [stoull, h.dropWhile_isspace hb, h.sign_eq hb, hx, h.takeWhile_eq hb, h.ne_nil,
    ↓reduceIte, Bool.false_eq_true]

theorem stoull_eq (h : DigitsThen base ds rest) (hbase : base = 10 ∨ base = 16)
    (hlt : numeral base ds < 2 ^ 64) : stoull base (ds ++ rest) = some (numeral base ds) := by
  rw [h.stoull_ite hbase, if_pos hlt]

theorem stoull_eq_none (h : DigitsThen base ds rest) (hbase : base = 10 ∨ base = 16)
    (hle : 2 ^ 64 ≤ numeral base ds) : stoull base (ds ++ rest) = none := by
  rw [h.stoull_ite hbase, if_neg (by omega)]

theorem lower_eq (h : DigitsThen 10 ds rest) : lower ds = ds := by
  refine (List.map_congr_left fun c hc => ?_).trans (List.map_id ds)
  have hd : digitVal c < 10 := by simpa [isDigit] using h.digits c hc
  have hle : ¬ 65 ≤ c.toNat := by
    unfold digitVal at hd
    split_ifs at hd <;> omega
  simp [tolower, hle]

theorem readInt_eq (h : DigitsThen 10 ds rest) (hlt : numeral 10 ds < 2 ^ 31) :
    readInt (ds ++ rest) = numeral 10 ds := by
  have hb : 10 ≤ 36 := by omega
  simp only [readInt, h.dropWhile_isspace hb, h.sign_eq hb, h.takeWhile_eq hb,
    Bool.false_eq_true, ↓reduceIte]
  omega

/-- **`std::stoi` reads the digits**, unless their number is no `int`. -/
theorem stoi_ite (h : DigitsThen 10 ds rest) :
    stoi (ds ++ rest) = if numeral 10 ds < 2 ^ 31 then some (numeral 10 ds : ℤ) else none := by
  have hb : 10 ≤ 36 := by omega
  have hrange : (-2 ^ 31 ≤ (numeral 10 ds : ℤ) ∧ (numeral 10 ds : ℤ) < 2 ^ 31) ↔
      numeral 10 ds < 2 ^ 31 := by omega
  simp only [stoi, h.dropWhile_isspace hb, h.sign_eq hb, h.takeWhile_eq hb, h.ne_nil, hrange,
    ↓reduceIte, Bool.false_eq_true]

end DigitsThen

end Text

end TuxDock
