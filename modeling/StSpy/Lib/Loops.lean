import Mathlib.Tactic.TypeStar

/-!
# Loops

`turn` is the body of a loop: it goes on with a next state or leaves with a
result. `EndsIn turn n s out`: the loop from `s` goes on `n` times and leaves
with `out`. A loop that ends does so with one result. `Follows body s l out`: a loop
over items has taken `l` from `s` on, and stands at `out`.
-/

namespace Loops

inductive Turn (σ β : Type*) where
  | next (s : σ)
  | exit (out : β)

variable {σ β : Type*} {turn : σ → Turn σ β}

variable (turn) in
inductive EndsIn : Nat → σ → β → Prop
  | exit {s : σ} {out : β} (h : turn s = .exit out) : EndsIn 0 s out
  | next {n : Nat} {s s' : σ} {out : β} (h : turn s = .next s') (rest : EndsIn n s' out) : EndsIn (n + 1) s out

variable (turn) in
/-- The loop from `s` ends with `out`. -/
def Ends (s : σ) (out : β) : Prop := ∃ n, EndsIn turn n s out

theorem Ends.exit {s : σ} {out : β} (h : turn s = .exit out) : Ends turn s out := ⟨0, .exit h⟩

theorem Ends.next {s s' : σ} {out : β} (h : turn s = .next s') (rest : Ends turn s' out) : Ends turn s out := by
  obtain ⟨n, hn⟩ := rest
  exact ⟨n + 1, .next h hn⟩

/-- A loop ends in one way only. -/
theorem EndsIn.unique {n n' : Nat} {s : σ} {out out' : β} (h : EndsIn turn n s out) (h' : EndsIn turn n' s out') :
    n = n' ∧ out = out' := by
  induction h generalizing n' with
  | exit hexit =>
    cases h' with
    | exit hexit' =>
      rw [hexit] at hexit'
      cases hexit'
      exact ⟨rfl, rfl⟩
    | next hnext' => rw [hexit] at hnext'; cases hnext'
  | next hnext _ ih =>
    cases h' with
    | exit hexit' => rw [hnext] at hexit'; cases hexit'
    | next hnext' rest' =>
      rw [hnext] at hnext'
      cases hnext'
      obtain ⟨rfl, hout⟩ := ih rest'
      exact ⟨rfl, hout⟩

theorem Ends.unique {s : σ} {out out' : β} (h : Ends turn s out) (h' : Ends turn s out') : out = out' := by
  obtain ⟨n, hn⟩ := h
  obtain ⟨n', hn'⟩ := h'
  exact (hn.unique hn').2

/-! ## Loops over items -/

variable {α : Type*} {body : σ → α → Turn σ β}

variable (body) in
inductive Follows : σ → List α → Turn σ β → Prop
  | nil (s : σ) : Follows s [] (.next s)
  | next {s s' : σ} {x : α} {l : List α} {out : Turn σ β} (h : body s x = .next s') (rest : Follows s' l out) :
      Follows s (x :: l) out
  | exit {s : σ} {x : α} {out : β} (h : body s x = .exit out) : Follows s [x] (.exit out)

/-- A loop that has not left takes one more item. -/
theorem Follows.concat {s s' : σ} {l : List α} (h : Follows body s l (.next s')) (x : α) :
    Follows body s (l ++ [x]) (body s' x) := by
  generalize hout : Turn.next s' = out at h
  induction h with
  | nil s =>
    cases hout
    cases hx : body s' x with
    | next t => exact .next hx (.nil t)
    | exit out => exact .exit hx
  | next hy _ ih => exact .next hy (ih hout)
  | exit => cases hout

variable (body) in
/-- Where a loop stands that has taken `l` and meets `P` before each item. -/
def Stands (P : σ → List α → Prop) (l : List α) : Turn σ β → Prop
  | .next s => P s l
  | .exit out => ∃ m x s, l = m ++ [x] ∧ P s m ∧ body s x = .exit out

/-- What holds at the start and is kept by every turn that goes on holds before each item. -/
theorem Follows.stands {P : σ → List α → Prop} {s : σ} {l : List α} {out : Turn σ β} (h : Follows body s l out)
    (hs : P s []) (hbody : ∀ t m x t', P t m → body t x = .next t' → P t' (m ++ [x])) : Stands body P l out := by
  suffices hgeneral : ∀ m, P s m → Stands body P (m ++ l) out from hgeneral [] hs
  clear hs
  induction h with
  | nil s =>
    intro m hm
    rwa [List.append_nil]
  | @next s s' x l out hx _ ih =>
    intro m hm
    have hrest := ih (m ++ [x]) (hbody s m x s' hm hx)
    rwa [← List.append_cons] at hrest
  | exit hx => exact fun m hm => ⟨m, _, _, rfl, hm, hx⟩

end Loops
