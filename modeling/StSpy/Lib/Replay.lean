import Mathlib.Data.List.Basic
import Mathlib.Tactic.Common

/-!
# Replaying pushes and pops

Events of several threads, mixed in one list, each pushing a label on the stack
of its thread or popping one. `replay k` runs those of thread `k`; a pop that
does not name the label on top fails. Stacks have their top first.
-/

namespace Replay

inductive Op (α : Type*) where
  | push (x : α)
  | pop (x : α)

variable {ε κ α ρ : Type*} [DecidableEq κ] [DecidableEq α]

def apply (stack : List α) : Op α → Option (List α)
  | .push x => some (x :: stack)
  | .pop x =>
    match stack with
    | [] => none
    | y :: rest => if y = x then some rest else none

variable (key : ε → κ) (op : ε → Option (Op α))

/-- The events of thread `k`, run from `stack`. -/
def replay (k : κ) (events : List ε) (stack : List α) : Option (List α) :=
  (events.filter fun e => key e = k).foldlM (fun stack e => (op e).bind (apply stack)) stack

variable {key op} {k : κ}

theorem replay_append (l m : List ε) (stack : List α) :
    replay key op k (l ++ m) stack = (replay key op k l stack).bind (replay key op k m) := by
  simp only [replay, List.filter_append, List.foldlM_append, Option.bind_eq_bind]
  rfl

/-- Other threads' events leave the stack alone. -/
theorem replay_other {l : List ε} (h : ∀ e ∈ l, key e ≠ k) (stack : List α) :
    replay key op k l stack = some stack := by
  have hnone : l.filter (fun e => decide (key e = k)) = [] :=
    List.filter_eq_nil_iff.mpr fun e he => by simpa using h e he
  simp only [replay, hnone, List.foldlM_nil, Option.pure_def]

theorem replay_cons {e : ε} (h : key e = k) (l : List ε) (stack : List α) :
    replay key op k (e :: l) stack = ((op e).bind (apply stack)).bind (replay key op k l) := by
  simp only [replay, List.filter_cons, h, decide_true, if_true, List.foldlM_cons, Option.bind_eq_bind]
  rfl

/-- Popping what is on the stack, from the top. -/
theorem replay_pops {f : ρ → ε} {g : ρ → α} (hkey : ∀ x, key (f x) = k)
    (hop : ∀ x, op (f x) = some (.pop (g x))) (stack : List α) :
    ∀ l : List ρ, replay key op k (l.map f) (l.map g ++ stack) = some stack
  | [] => rfl
  | x :: l => by
    have hpop : apply (g x :: (l.map g ++ stack)) (.pop (g x)) = some (l.map g ++ stack) := by
      simp [apply]
    rw [List.map_cons, List.map_cons, List.cons_append, replay_cons (hkey x), hop, Option.bind_some,
      hpop, Option.bind_some, replay_pops hkey hop stack l]

/-- Pushing leaves the labels in reverse. -/
theorem replay_pushes {f : ρ → ε} {g : ρ → α} (hkey : ∀ x, key (f x) = k)
    (hop : ∀ x, op (f x) = some (.push (g x))) :
    ∀ (l : List ρ) (stack : List α),
      replay key op k (l.map f) stack = some ((l.map g).reverse ++ stack)
  | [], _ => rfl
  | x :: l, stack => by
    rw [List.map_cons, List.map_cons, replay_cons (hkey x), hop, Option.bind_some, apply,
      Option.bind_some, replay_pushes hkey hop l, List.reverse_cons, List.append_assoc]
    rfl

/-! ## The part two lists have in common -/

/-- The index of the first element failing `q`, or the length, counts the
leading elements that satisfy it. -/
theorem getD_findIdx? (q : ρ → Bool) : ∀ l : List ρ,
    (l.findIdx? fun x => !q x).getD l.length = (l.takeWhile q).length
  | [] => rfl
  | x :: l => by
    cases hq : q x with
    | true =>
      have ih := getD_findIdx? q l
      simp only [List.findIdx?_cons, hq, Bool.not_true, List.takeWhile_cons, if_true, List.length_cons]
      cases hfind : l.findIdx? (fun x => !q x) <;> simp_all
    | false => simp [List.findIdx?_cons, hq]

/-- As far as the labels of two lists agree, their prefixes have equal labels. -/
theorem take_agreeing {g : ρ → α} : ∀ l m : List ρ,
    let n := ((l.zip m).takeWhile fun x => decide (g x.1 = g x.2)).length
    (l.take n).map g = (m.take n).map g
  | [], m => by simp
  | _ :: _, [] => by simp
  | x :: l, y :: m => by
    have ih := take_agreeing (g := g) l m
    by_cases h : g x = g y <;> simp_all

end Replay
