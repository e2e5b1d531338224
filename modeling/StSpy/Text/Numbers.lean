import StSpy.Text
import StSpy.StackTrace
import Mathlib.Data.Option.Basic

/-!
# Numbers in text

The number parsers of the source, and that they read what its formatters write.
-/

namespace StSpy

/-- `char::to_digit`. -/
def toDigit (radix : Nat) (c : Char) : Option Nat := (hexDigit c).filter (· < radix)

/-- At least one digit. -/
def parseDigits (radix : Nat) (digits : List Char) : Option Nat :=
  if digits = [] then none
  else (digits.mapM (toDigit radix)).map fun values => values.foldl (fun acc digit => radix * acc + digit) 0

/-- `i32::from_str_radix`, and `parse` with radix 10. -/
def parseI32 (radix : Nat) : List Char → Option Int32
  | '-' :: digits => do
    let value ← parseDigits radix digits
    if value ≤ 2 ^ 31 then some (Int32.ofInt (-value)) else none
  | text => do
    let digits := if text.head? = some '+' then text.tail else text
    let value ← parseDigits radix digits
    if value < 2 ^ 31 then some (Int32.ofNat value) else none

/-- `str::parse::<u64>`. -/
def parseU64 (text : List Char) : Option UInt64 := do
  let digits := if text.head? = some '+' then text.tail else text
  let value ← parseDigits 10 digits
  if value < 2 ^ 64 then some (UInt64.ofNat value) else none

/-! ## Reading what was written -/

variable {radix n : Nat}

theorem hexDigit_digitChar {d : Nat} (h : d < 16) : hexDigit (Nat.digitChar d) = some d := by
  have hall : ∀ d : Fin 16, hexDigit (Nat.digitChar d) = some d.val := by decide
  exact hall ⟨d, h⟩

theorem toDigit_digitChar (hradix : radix ≤ 16) {d : Nat} (h : d < radix) :
    toDigit radix (Nat.digitChar d) = some d := by
  rw [toDigit, hexDigit_digitChar (by omega), Option.filter_some, if_pos (by simpa using h)]

/-- The digits of a number, most significant first. -/
theorem mapM_toDigits {read : Char → Option Nat} (hone : 1 < radix)
    (hread : ∀ d < radix, read (Nat.digitChar d) = some d) (n : Nat) :
    ∃ values, (Nat.toDigits radix n).mapM read = some values ∧
      values.foldl (fun acc digit => radix * acc + digit) 0 = n := by
  induction n using Nat.strongRecOn with
  | ind n ih =>
    rcases lt_or_ge n radix with hlt | hge
    · refine ⟨[n], ?_, by simp⟩
      rw [Nat.toDigits_of_lt_base hlt, List.mapM_cons, hread n hlt]
      rfl
    · obtain ⟨values, hvalues, hfold⟩ := ih (n / radix) (Nat.div_lt_self (by omega) hone)
      refine ⟨values ++ [n % radix], ?_, ?_⟩
      · rw [Nat.toDigits_of_base_le hone hge, List.mapM_append, hvalues, List.mapM_cons,
          hread _ (Nat.mod_lt _ (by omega))]
        rfl
      · rw [List.foldl_append, hfold]
        exact Nat.div_add_mod n radix

theorem parseDigits_toDigits (hone : 1 < radix) (hradix : radix ≤ 16) (n : Nat) :
    parseDigits radix (Nat.toDigits radix n) = some n := by
  obtain ⟨values, hvalues, hfold⟩ := mapM_toDigits hone (fun d hd => toDigit_digitChar hradix hd) n
  rw [parseDigits, if_neg Nat.toDigits_ne_nil, hvalues, Option.map_some, hfold]

/-- Digits start with no sign. -/
theorem head?_toDigits_ne (n : Nat) (hone : 1 < radix) (hradix : radix ≤ 16) {c : Char}
    (hc : hexDigit c = none) : (Nat.toDigits radix n).head? ≠ some c := by
  intro hhead
  obtain ⟨values, hvalues, -⟩ := mapM_toDigits hone (fun d hd => hexDigit_digitChar (d := d) (by omega)) n
  cases hdigits : Nat.toDigits radix n with
  | nil => exact Nat.toDigits_ne_nil hdigits
  | cons first digits =>
    rw [hdigits] at hhead hvalues
    cases hhead
    rw [List.mapM_cons, hc] at hvalues
    cases hvalues

theorem parseI32_toDigits (hone : 1 < radix) (hradix : radix ≤ 16) (h : n < 2 ^ 31) :
    parseI32 radix (Nat.toDigits radix n) = some (Int32.ofNat n) := by
  have hplus : (Nat.toDigits radix n).head? ≠ some '+' := head?_toDigits_ne n hone hradix (by decide)
  have hminus : (Nat.toDigits radix n).head? ≠ some '-' := head?_toDigits_ne n hone hradix (by decide)
  have hread := parseDigits_toDigits hone hradix n
  generalize Nat.toDigits radix n = digits at *
  unfold parseI32
  split
  · exact absurd rfl hminus
  · simp only [if_neg hplus, hread, Option.bind_eq_bind, Option.bind_some, if_pos h]

theorem parseI32_neg_toDigits (hone : 1 < radix) (hradix : radix ≤ 16) (h : n ≤ 2 ^ 31) :
    parseI32 radix ('-' :: Nat.toDigits radix n) = some (Int32.ofInt (-n)) := by
  simp only [parseI32, parseDigits_toDigits hone hradix n, Option.bind_eq_bind, Option.bind_some, if_pos h]

/-- A number is read from the text it is written in. -/
theorem parseI32_repr (value : Int32) : parseI32 10 value.toInt.repr.toList = some value := by
  have hlow := value.le_toInt
  have hhigh := value.toInt_lt
  rw [Int.repr_eq_if]
  split
  · rename_i hnonneg
    rw [Nat.toList_repr, parseI32_toDigits (by decide) (by decide) (by omega), ← Int32.ofInt_eq_ofNat,
      Int.toNat_of_nonneg hnonneg, Int32.ofInt_toInt]
  · have hminus : ("-" ++ (-value.toInt).toNat.repr).toList = '-' :: Nat.toDigits 10 (-value.toInt).toNat := by
      rw [String.toList_append, Nat.toList_repr]
      rfl
    rw [hminus, parseI32_neg_toDigits (by decide) (by decide) (by omega), Int.toNat_of_nonneg (by omega), Int.neg_neg,
      Int32.ofInt_toInt]

theorem parseU64_toDigits (h : n < 2 ^ 64) : parseU64 (Nat.toDigits 10 n) = some (UInt64.ofNat n) := by
  have hplus : (Nat.toDigits 10 n).head? ≠ some '+' := head?_toDigits_ne n (by decide) (by decide) (by decide)
  have hread : parseDigits 10 (Nat.toDigits 10 n) = some n := parseDigits_toDigits (by decide) (by decide) n
  simp only [parseU64, if_neg hplus, hread, Option.bind_eq_bind, Option.bind_some, if_pos h]

theorem toLower_ne_of_isDigit {c : Char} (h : c.isDigit = true) : c.toLower ≠ 'x' := by
  obtain ⟨-, hnine⟩ := Char.isDigit_iff_toNat.mp h
  have hnine' : c.toNat ≤ 57 := hnine
  unfold Char.toLower
  split
  · rename_i hupper
    have hA : 65 ≤ c.toNat := UInt32.le_iff_toNat_le.mp hupper.1
    omega
  · rintro rfl
    cases h

/-- No letter of a decimal number is an `x`. -/
theorem toLower_ne_of_mem_repr {value : Int} {c : Char} (hc : c ∈ value.repr.toList) : c.toLower ≠ 'x' := by
  rw [Int.repr_eq_if] at hc
  split at hc
  · rw [Nat.toList_repr] at hc
    exact toLower_ne_of_isDigit (Nat.isDigit_of_mem_toDigits (by decide) (by decide) hc)
  · rw [String.toList_append, Nat.toList_repr, List.mem_append] at hc
    rcases hc with hminus | hdigit
    · rw [List.mem_singleton.mp hminus]
      decide
    · exact toLower_ne_of_isDigit (Nat.isDigit_of_mem_toDigits (by decide) (by decide) hdigit)

end StSpy
