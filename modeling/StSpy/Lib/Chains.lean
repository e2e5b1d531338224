import Mathlib.Data.List.Basic
import Mathlib.Tactic.Common

/-!
# Chains of links

A partial function followed from a start, with something read at each element.
The chain may end, go round in a circle or go on for ever; of any of them there
is one longest readable prefix of at most a given length, and following the
links finds it.
-/

namespace Chains

variable {α β : Type*} (next : α → Option α) (read : α → Option β)

/-- The element behind `k` links. -/
def link (a : α) : Nat → Option α
  | 0 => some a
  | k + 1 => (link a k).bind next

/-- What is read when the links are followed, as far as that goes. -/
def follow : Nat → α → List β
  | 0, _ => []
  | limit + 1, a =>
    match read a with
    | none => []
    | some b => b :: ((next a).map (follow limit)).getD []

/-- `l` is read off the first elements from `a`, and cannot be longer. -/
structure LongestPrefix (limit : Nat) (a : α) (l : List β) : Prop where
  read_eq : ∀ k < l.length, (link next a k).bind read = l[k]?
  short : l.length ≤ limit
  longest : l.length = limit ∨ (link next a l.length).bind read = none

variable {next read} {limit : Nat} {a b : α} {l m : List β}

theorem link_succ (k : Nat) : link next a (k + 1) = (next a).bind fun b => link next b k := by
  induction k with
  | zero => cases h : next a <;> simp [link, h]
  | succ k ih =>
    rw [link, ih]
    cases next a <;> rfl

theorem link_none (h : next a = none) (k : Nat) : link next a (k + 1) = none := by
  rw [link_succ, h]
  rfl

theorem longestPrefix_follow (next : α → Option α) (read : α → Option β) (limit : Nat) (a : α) :
    LongestPrefix next read limit a (follow next read limit a) := by
  induction limit generalizing a with
  | zero => exact ⟨fun k hk => absurd hk (Nat.not_lt_zero k), Nat.le_refl 0, .inl rfl⟩
  | succ limit ih =>
    unfold follow
    cases hread : read a with
    | none => exact ⟨fun k hk => absurd hk (Nat.not_lt_zero k), Nat.zero_le _, .inr hread⟩
    | some value =>
      cases hnext : next a with
      | none =>
        refine ⟨fun k hk => ?_, by simp, .inr ?_⟩
        · obtain rfl : k = 0 := by simpa using hk
          exact hread
        · exact congrArg (·.bind read) (link_none hnext 0)
      | some b =>
        have hb := ih b
        have hstep : ∀ k, link next a (k + 1) = link next b k := fun k => by rw [link_succ, hnext]; rfl
        refine ⟨fun k hk => ?_, ?_, ?_⟩
        · cases k with
          | zero => exact hread
          | succ k =>
            rw [hstep, Option.map_some, Option.getD_some, List.getElem?_cons_succ]
            exact hb.read_eq k (by simpa using hk)
        · simpa using hb.short
        · simp only [Option.map_some, Option.getD_some, List.length_cons, Nat.add_right_cancel_iff, hstep]
          exact hb.longest

theorem LongestPrefix.length_le (hl : LongestPrefix next read limit a l) (hm : LongestPrefix next read limit a m) :
    m.length ≤ l.length := by
  by_contra hlt
  have hlt := Nat.lt_of_not_le hlt
  rcases hl.longest with hfull | hnone
  · exact absurd (hfull ▸ hlt) (Nat.not_lt.mpr hm.short)
  · have hsome := hm.read_eq l.length hlt
    rw [hnone, List.getElem?_eq_getElem hlt] at hsome
    cases hsome

/-- There is no other such prefix. -/
theorem LongestPrefix.unique (hl : LongestPrefix next read limit a l) (hm : LongestPrefix next read limit a m) :
    l = m := by
  have hlength : l.length = m.length := Nat.le_antisymm (hm.length_le hl) (hl.length_le hm)
  apply List.ext_getElem? fun k => ?_
  by_cases hk : k < l.length
  · rw [← hl.read_eq k hk, hm.read_eq k (hlength ▸ hk)]
  · rw [List.getElem?_eq_none (Nat.not_lt.mp hk), List.getElem?_eq_none (hlength ▸ Nat.not_lt.mp hk)]

end Chains
