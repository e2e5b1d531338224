import Mathlib.Algebra.Group.Nat.Defs
import Mathlib.Data.List.Infix

/-!
# Strings

The string operations of the source, on the characters of a string.
-/

namespace StSpy

/-- `str::starts_with`. -/
def startsWith (name pre : String) : Bool := pre.toList.isPrefixOf name.toList

/-- What follows a text as long as the prefix makes no difference. -/
theorem startsWith_append {name pre : String} (h : pre.toList.length ≤ name.toList.length) (rest : String) :
    startsWith (name ++ rest) pre = startsWith name pre := by
  have hiff : pre.toList <+: name.toList ++ rest.toList ↔ pre.toList <+: name.toList :=
    ⟨fun hp => List.prefix_of_prefix_length_le hp (List.prefix_append _ _) h,
      fun hp => hp.trans (List.prefix_append _ _)⟩
  rw [Bool.eq_iff_iff]
  simpa [startsWith, List.isPrefixOf_iff_prefix] using hiff

/-- `str::ends_with`. -/
def endsWith (name suf : String) : Bool := suf.toList.isSuffixOf name.toList

/-- `str::contains`. -/
def containsStr (name part : String) : Bool := name.toList.tails.any part.toList.isPrefixOf

/-- `Path::file_name`: the last component, unless the path ends in `..` or has
no component but the root and the current directory. -/
def fileName (path : String) : Option String :=
  match ((path.toList.splitOn '/').filter fun part => part ≠ [] ∧ part ≠ ['.']).getLast? with
  | none => none
  | some part => if part = ['.', '.'] then none else some (String.ofList part)

/-- The value of a hexadecimal digit. -/
def hexDigit (c : Char) : Option Nat :=
  if '0' ≤ c ∧ c ≤ '9' then some (c.toNat - '0'.toNat)
  else if 'a' ≤ c ∧ c ≤ 'f' then some (c.toNat - 'a'.toNat + 10)
  else if 'A' ≤ c ∧ c ≤ 'F' then some (c.toNat - 'A'.toNat + 10)
  else none

/-- `u64::from_str_radix(_, 16)`: an optional plus sign, then at least one digit
and a value below `2 ^ 64`. -/
def parseHex (digits : List Char) : Option UInt64 := do
  let digits := if digits.head? = some '+' then digits.tail else digits
  if digits = [] then none
  else
    let values ← digits.mapM hexDigit
    let value := values.foldl (fun acc digit => 16 * acc + digit) 0
    if value < 2 ^ 64 then some (UInt64.ofNat value) else none

def parseHexAddress (value : String) : Option UInt64 :=
  if startsWith value "0x" then parseHex (value.toList.drop 2) else none

example : (fileName "/a/b.c/", fileName "a/..", parseHexAddress "0x1fF", parseHexAddress "0x") =
    (some "b.c", none, some 511, none) := by decide

end StSpy
