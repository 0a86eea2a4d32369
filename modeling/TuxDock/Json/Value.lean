import TuxDock.Text.Utf8

/-!
# JSON values

The values of the JSON library, the operations of it that the program uses, and the library itself
as a parameter: `parse` and `dump` are not part of the source.
-/

namespace TuxDock

open Text

/-- A JSON value.  The members of an object are in the order of their keys. -/
inductive Json where
  | null
  | bool (b : Bool)
  | number (n : ℤ)
  /-- A number that is no integer. -/
  | float
  | str (s : Bytes)
  | arr (items : List Json)
  | obj (members : List (Bytes × Json))

namespace Json

/-- Every string of the value is well-formed UTF-8. -/
inductive Utf8 : Json → Prop where
  | null : Utf8 null
  | bool (b : Bool) : Utf8 (bool b)
  | number (n : ℤ) : Utf8 (number n)
  | float : Utf8 float
  | str {s : Bytes} (valid : ValidUtf8 s) : Utf8 (str s)
  | arr {items : List Json} (valid : ∀ v ∈ items, Utf8 v) : Utf8 (arr items)
  | obj {members : List (Bytes × Json)} (keys : ∀ m ∈ members, ValidUtf8 m.1)
      (valid : ∀ m ∈ members, Utf8 m.2) : Utf8 (obj members)

/-- What a range-based `for` over a value visits. -/
def items : Json → List Json
  | null => []
  | arr items => items
  | obj members => members.map Prod.snd
  | v => [v]

/-- `v.value(key, default)` with a string for the default; `none` when it throws. -/
def valueStr (v : Json) (key default : Bytes) : Option Bytes :=
  match v with
  | obj members =>
    match members.lookup key with
    | none => some default
    | some (str s) => some s
    | some _ => none
  | _ => none

/-- The strings of an array of strings; `none` when a value is no string. -/
def strs : List Json → Option (List Bytes)
  | [] => some []
  | str s :: items => (strs items).map (s :: ·)
  | _ :: _ => none

/-- `v.value(key, default)` with a list of strings for the default; `none` when it throws. -/
def valueStrs (v : Json) (key : Bytes) (default : List Bytes) : Option (List Bytes) :=
  match v with
  | obj members =>
    match members.lookup key with
    | none => some default
    | some (arr items) => strs items
    | some _ => none
  | _ => none

/-- `v.find(key)`; `none` for `end()`, which is also the answer of a value that is no object. -/
def find (v : Json) (key : Bytes) : Option Json :=
  match v with
  | obj members => members.lookup key
  | _ => none

/-- `v.get<std::string>()`; `none` when it throws. -/
def getStr : Json → Option Bytes
  | str s => some s
  | _ => none

/-- `v.get<int>()`; `none` when it throws.  An integer is converted modulo `2^32`, and what becomes
of a number that is no integer is left open. -/
def getInt (truncate : ℤ) : Json → Option ℤ
  | number n => some (n.bmod (2 ^ 32))
  | bool b => some (if b then 1 else 0)
  | float => some truncate
  | _ => none

/-- `is_string`. -/
def isString : Json → Bool
  | str _ => true
  | _ => false

/-- `is_number`. -/
def isNumber : Json → Bool
  | number _ => true
  | float => true
  | _ => false

/-- The JSON library: `json::parse` and `dump(2)`; `none` when they throw. -/
structure Library where
  parse : Bytes → Option Json
  dump : Json → Option Bytes

theorem strs_isSome_iff {items : List Json} :
    (strs items).isSome ↔ ∃ ss : List Bytes, items = ss.map str := by
  induction items with
  | nil => exact iff_of_true rfl ⟨[], rfl⟩
  | cons v items ih =>
    cases v with
    | str s =>
      rw [strs, Option.isSome_map, ih]
      constructor
      · rintro ⟨ss, rfl⟩
        exact ⟨s :: ss, rfl⟩
      · rintro ⟨ss, h⟩
        cases ss with
        | nil => cases h
        | cons t ss => exact ⟨ss, (List.cons.inj h).2⟩
    | _ =>
      refine iff_of_false (by simp [strs]) ?_
      rintro ⟨ss, h⟩
      cases ss <;> cases h

theorem strs_map (ss : List Bytes) : strs (ss.map str) = some ss := by
  induction ss with
  | nil => rfl
  | cons s ss ih => rw [List.map_cons, strs, ih]; rfl

theorem Utf8.items {v : Json} (h : Utf8 v) : ∀ item ∈ v.items, Utf8 item := by
  cases h with
  | null => simp [Json.items]
  | bool b => simpa [Json.items] using Utf8.bool b
  | number n => simpa [Json.items] using Utf8.number n
  | float => simpa [Json.items] using Utf8.float
  | str valid => simpa [Json.items] using Utf8.str valid
  | arr valid => exact valid
  | obj keys valid =>
    intro item hitem
    obtain ⟨m, hm, rfl⟩ := List.mem_map.1 hitem
    exact valid m hm

/-- A string read from a value with a valid default is valid. -/
theorem Utf8.valueStr {v : Json} (h : Utf8 v) {key default s : Bytes} (hd : ValidUtf8 default)
    (hs : v.valueStr key default = some s) : ValidUtf8 s := by
  cases h with
  | obj keys valid =>
    simp only [Json.valueStr] at hs
    split at hs
    · cases hs
      exact hd
    · rename_i str hlookup
      cases hs
      obtain ⟨front, back, rfl, -⟩ := List.lookup_eq_some_iff.1 hlookup
      cases valid (key, Json.str s) (by simp) with
      | str valid => exact valid
    · cases hs
  | _ => cases hs

end Json

end TuxDock
