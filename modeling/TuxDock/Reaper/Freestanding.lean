import Mathlib.Data.List.Nodup
import TuxDock.Lib.Buffer
import TuxDock.Reaper.Scan

/-!
# Strings without a C library

The string functions of `tuxreaperdasm.c`, on memory.  A pointer is the memory from there to the end
of its object, and a function that reads past the end, or writes there, has no result.  A C string
`s` in memory is `s ++ 0 :: m`, whatever `m` is.

* `myStrlen_append`, `myStrcmp_append`, `myStrncmp_append` : on such memory they compute what the
  functions of libc do;
* `copyString_append`, `myMemcpy_eq` : copying is writing the bytes to the array.
-/

namespace TuxDock

namespace Reaper

open Text

/-- `my_strlen`; `none` when it reads beyond the buffer. -/
def myStrlen : Bytes → Option ℕ
  | [] => none
  | c :: s => if c = 0 then some 0 else (myStrlen s).map (· + 1)

/-- `my_strcmp`. -/
def myStrcmp : Bytes → Bytes → Option ℤ
  | a :: s, b :: t => if a ≠ 0 ∧ a = b then myStrcmp s t else some ((a.toNat : ℤ) - b.toNat)
  | _, _ => none

/-- `my_strncmp`. -/
def myStrncmp : Bytes → Bytes → ℕ → Option ℤ
  | _, _, 0 => some 0
  | a :: s, b :: t, n + 1 =>
    if a ≠ b then some ((a.toNat : ℤ) - b.toNat)
    else if a = 0 then some 0
    else myStrncmp s t n
  | _, _, _ + 1 => none

/-- `my_strchr`: how far on the character is, if the string has it. -/
def myStrchr (c : UInt8) : Bytes → Option (Option ℕ)
  | [] => none
  | d :: s =>
    if d = 0 then some none
    else if d = c then some (some 0)
    else (myStrchr c s).map (Option.map (· + 1))

/-- `my_memcpy(dst + p, src, n)`. -/
def myMemcpy {k : ℕ} (dst : Vector UInt8 k) (p : ℕ) : Bytes → ℕ → Option (Vector UInt8 k)
  | _, 0 => some dst
  | [], _ + 1 => none
  | c :: src, n + 1 => (Buffer.set? dst p c).bind fun dst => myMemcpy dst (p + 1) src n

/-- `while (*s) *p++ = *s++;` with the array `p` points into and its index there. -/
def copyString {k : ℕ} (dst : Vector UInt8 k) (p : ℕ) : Bytes → Option (Vector UInt8 k × ℕ)
  | [] => none
  | c :: s =>
    if c = 0 then some (dst, p)
    else (Buffer.set? dst p c).bind fun dst => copyString dst (p + 1) s

/-- The string the kernel reads from a pointer. -/
def cstring : Bytes → Option Bytes
  | [] => none
  | c :: s => if c = 0 then some [] else (cstring s).map (c :: ·)

/-! ### Agreement with libc -/

theorem myStrlen_append (s m : Bytes) : myStrlen (s ++ 0 :: m) = some (strlen s) := by
  induction s with
  | nil => rfl
  | cons c s ih =>
    rw [List.cons_append, myStrlen, ih, strlen, strlen, List.takeWhile_cons]
    by_cases hc : c = 0 <;> simp [hc]

theorem myStrcmp_append (s t m m' : Bytes) :
    myStrcmp (s ++ 0 :: m) (t ++ 0 :: m') = some (strcmp s t) := by
  induction s generalizing t with
  | nil => cases t <;> simp [myStrcmp, strcmp]
  | cons a s ih =>
    cases t with
    | nil =>
      have hstop : ¬ (a ≠ 0 ∧ a = 0) := fun h => h.1 h.2
      simp [myStrcmp, strcmp, hstop]
    | cons b t =>
      rw [List.cons_append, List.cons_append, myStrcmp, strcmp, ih]
      split_ifs <;> rfl

theorem myStrncmp_append (s t m m' : Bytes) (n : ℕ) :
    myStrncmp (s ++ 0 :: m) (t ++ 0 :: m') n = some (strncmp s t n) := by
  induction n generalizing s t with
  | zero => rw [myStrncmp, strncmp]
  | succ n ih =>
    rw [strncmp]
    cases s with
    | nil => cases t <;> simp [myStrncmp, eq_comm, apply_ite some]
    | cons a s =>
      cases t with
      | nil => simp +contextual [myStrncmp, apply_ite some]
      | cons b t =>
        rw [List.cons_append, List.cons_append, myStrncmp, ih]
        by_cases hab : a = b
        · by_cases ha : a = 0 <;> simp [← hab, ha]
        · simp [hab]

theorem cstring_append {s : Bytes} (hs : (0 : UInt8) ∉ s) (m : Bytes) :
    cstring (s ++ 0 :: m) = some s := by
  induction s with
  | nil => rfl
  | cons c s ih =>
    rw [List.mem_cons, not_or] at hs
    rw [List.cons_append, cstring, if_neg (Ne.symm hs.1), ih hs.2, Option.map_some]

/-- `my_strchr` finds the first place of a character. -/
theorem myStrchr_append (c : UInt8) {s : Bytes} (hs : (0 : UInt8) ∉ s) (m : Bytes) :
    myStrchr c (s ++ 0 :: m) = some (s.idxOf? c) := by
  induction s with
  | nil => rfl
  | cons d s ih =>
    rw [List.mem_cons, not_or] at hs
    rw [List.cons_append, myStrchr, if_neg (Ne.symm hs.1), ih hs.2, List.idxOf?_cons]
    by_cases hd : d = c <;> simp [hd]

theorem myMemcpy_eq {k : ℕ} (dst : Vector UInt8 k) (p : ℕ) {src : Bytes} {n : ℕ}
    (h : n ≤ src.length) : myMemcpy dst p src n = Buffer.write dst p (src.take n) := by
  induction src generalizing dst p n with
  | nil =>
    obtain rfl : n = 0 := by simpa using h
    rfl
  | cons c src ih =>
    cases n with
    | zero => rfl
    | succ n =>
      rw [myMemcpy, List.take_succ_cons, Buffer.write]
      congr 1
      funext dst'
      exact ih dst' (p + 1) (by simpa using h)

theorem copyString_append {k : ℕ} (dst : Vector UInt8 k) (p : ℕ) {s : Bytes}
    (hs : (0 : UInt8) ∉ s) (m : Bytes) :
    copyString dst p (s ++ 0 :: m) = (Buffer.write dst p s).map (·, p + s.length) := by
  induction s generalizing dst p with
  | nil => rfl
  | cons c s ih =>
    rw [List.mem_cons, not_or] at hs
    rw [List.cons_append, copyString, if_neg (Ne.symm hs.1), Buffer.write, Option.map_bind]
    congr 1
    funext dst'
    rw [ih dst' (p + 1) hs.2, Function.comp_apply, List.length_cons, Nat.add_right_comm,
      Nat.add_assoc]

end Reaper

end TuxDock
