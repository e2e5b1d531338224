import Mathlib.Data.List.Basic
import Mathlib.Data.Prod.Lex
import Mathlib.Tactic.Common

/-!
# Windows over what has arrived

A window `[since, upto)` over a list that grows at its end. It takes in the next
element, or is cut off where it ends. What arrives behind it does not change what
lies in it.
-/

namespace Windows

structure Window where
  since : Nat
  upto : Nat
  since_le_upto : since ≤ upto

namespace Window

/-- A window is later where neither of its ends is earlier. -/
instance : Preorder Window := Preorder.lift fun window => (window.since, window.upto)

def empty : Window := ⟨0, 0, le_rfl⟩

/-- Leave out all so far. -/
def cut (window : Window) : Window := ⟨window.upto, window.upto, le_rfl⟩

/-- Take in the next element. -/
def grow (window : Window) : Window := ⟨window.since, window.upto + 1, Nat.le_succ_of_le window.since_le_upto⟩

variable {α : Type*} {l : List α} {window : Window}

/-- The elements that lie in the window. -/
def of (window : Window) (l : List α) : List α := (l.take window.upto).drop window.since

theorem of_append (h : window.upto ≤ l.length) (m : List α) : window.of (l ++ m) = window.of l := by
  rw [of, List.take_append_of_le_length h, of]

theorem of_cut (window : Window) (l : List α) : window.cut.of l = [] := by
  rw [of, cut, List.drop_eq_nil_iff, List.length_take]
  exact min_le_left _ _

theorem of_grow (h : window.upto = l.length) (x : α) : window.grow.of (l ++ [x]) = window.of l ++ [x] := by
  have hgrown : (l ++ [x]).take window.grow.upto = l ++ [x] := by
    rw [List.take_of_length_le]
    rw [List.length_append, ← h]
    rfl
  have hbefore : l.take window.upto = l := List.take_of_length_le h.ge
  have hsince : window.since ≤ l.length := h ▸ window.since_le_upto
  rw [of, hgrown, of, hbefore]
  exact List.drop_append_of_le_length hsince

theorem le_cut (window : Window) : window ≤ window.cut := ⟨window.since_le_upto, le_rfl⟩

theorem le_grow (window : Window) : window ≤ window.grow := ⟨le_rfl, Nat.le_succ _⟩

end Window

end Windows
