import Mathlib.Data.List.TakeWhile
import Mathlib.Tactic.Common

/-!
# Ordered forests

A forest is a list of trees, each a label over a forest. A walk visits it in
preorder and goes on as long as the labels satisfy a test.
-/

inductive Forest (α : Type*) where
  | nil
  | cons (label : α) (children siblings : Forest α)

namespace Forest

variable {α : Type*}

/-- The labels of the trees themselves. -/
def roots : Forest α → List α
  | nil => []
  | cons label _ siblings => label :: siblings.roots

def preorder : Forest α → List α
  | nil => []
  | cons label children siblings => label :: (children.preorder ++ siblings.preorder)

/-- Every label with that of its parent, the parent of the roots being given. -/
def edges (parent : α) : Forest α → List (α × α)
  | nil => []
  | cons label children siblings => (label, parent) :: (children.edges label ++ siblings.edges parent)

def depth : Forest α → Nat
  | nil => 0
  | cons _ children siblings => max (children.depth + 1) siblings.depth

end Forest

namespace List

variable {α : Type*} {p : α → Bool}

/-- A walk over two lists enters the second if it gets through the first. -/
theorem takeWhile_append_cases (l m : List α) :
    (l ++ m).takeWhile p = l.takeWhile p ++ if l.all p then m.takeWhile p else [] := by
  induction l with
  | nil => simp
  | cons x l ih =>
    cases hx : p x with
    | true => simp [hx, ih]
    | false => simp [hx]

/-- A walk takes what a filter keeps exactly when nothing behind its end passes the test. -/
theorem takeWhile_perm_filter_iff (l : List α) :
    (l.takeWhile p).Perm (l.filter p) ↔ ∀ x ∈ l.dropWhile p, p x = false := by
  have hsplit : l.filter p = l.takeWhile p ++ (l.dropWhile p).filter p := by
    have htaken : (l.takeWhile p).filter p = l.takeWhile p :=
      filter_eq_self.mpr fun x hx => mem_takeWhile_imp hx
    calc l.filter p = (l.takeWhile p ++ l.dropWhile p).filter p := by rw [takeWhile_append_dropWhile]
      _ = l.takeWhile p ++ (l.dropWhile p).filter p := by rw [filter_append, htaken]
  rw [hsplit]
  constructor
  · intro h
    have hlength := h.length_eq
    rw [length_append] at hlength
    have hnil : (l.dropWhile p).filter p = [] := eq_nil_of_length_eq_zero (by omega)
    simpa using filter_eq_nil_iff.mp hnil
  · intro h
    have hnil : (l.dropWhile p).filter p = [] := filter_eq_nil_iff.mpr (by simpa using h)
    rw [hnil, append_nil]

end List
