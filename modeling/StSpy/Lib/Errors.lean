import Mathlib.Data.List.Forall2

/-!
# Computations that may fail

Rules for `Except`: what a bind, a `mapM` and a `foldlM` that succeed say of
their parts.
-/

namespace Errors

variable {ε α β γ : Type}

theorem bind_eq_ok {x : Except ε α} {f : α → Except ε β} {b : β} (h : (x >>= f) = .ok b) :
    ∃ a, x = .ok a ∧ f a = .ok b := by
  cases x with
  | error e => cases h
  | ok a => exact ⟨a, rfl, h⟩

theorem bind_eq_error {x : Except ε α} {f : α → Except ε β} {e : ε} (h : (x >>= f) = .error e) :
    x = .error e ∨ ∃ a, x = .ok a ∧ f a = .error e := by
  cases x with
  | error e' =>
    cases h
    exact .inl rfl
  | ok a => exact .inr ⟨a, rfl, h⟩

theorem map_eq_ok {x : Except ε α} {f : α → β} {b : β} (h : x.map f = .ok b) : ∃ a, x = .ok a ∧ f a = b := by
  cases x with
  | error e => cases h
  | ok a => exact ⟨a, rfl, Except.ok.inj h⟩

/-- A fold over one more element is a step from where the fold got. -/
theorem foldlM_concat {step : β → α → Except ε β} {l : List α} {a : α} {b c : β}
    (h : l.foldlM step b = .ok c) : (l ++ [a]).foldlM step b = step c a := by
  rw [List.foldlM_append, h]
  show [a].foldlM step c = step c a
  rw [List.foldlM_cons]
  cases step c a <;> rfl

/-- What the steps preserve holds at the end of a fold. -/
theorem foldlM_invariant {step : β → α → Except ε β} {P : List α → β → Prop} {b : β}
    (hnil : P [] b)
    (hstep : ∀ l a c d, P l c → step c a = .ok d → P (l ++ [a]) d) {l : List α} {c : β}
    (h : l.foldlM step b = .ok c) : P l c := by
  suffices hall : ∀ (rest done : List α) (d : β), P done d → rest.foldlM step d = .ok c → P (done ++ rest) c from
    hall l [] b hnil h
  intro rest
  induction rest with
  | nil =>
    intro done d hdone hrest
    cases hrest
    rwa [List.append_nil]
  | cons a rest ih =>
    intro done d hdone hrest
    rw [List.foldlM_cons] at hrest
    obtain ⟨d', hd', hrest⟩ := bind_eq_ok hrest
    rw [List.append_cons]
    exact ih (done ++ [a]) d' (hstep done a d d' hdone hd') hrest

/-- A list read without an error is read element by element. -/
theorem forall₂_of_mapM {f : α → Except ε β} {l : List α} {read : List β} (h : l.mapM f = .ok read) :
    List.Forall₂ (fun x y => f x = .ok y) l read := by
  induction l generalizing read with
  | nil =>
    cases h
    exact .nil
  | cons x l ih =>
    rw [List.mapM_cons] at h
    obtain ⟨y, hy, h⟩ := bind_eq_ok h
    obtain ⟨ys, hys, h⟩ := bind_eq_ok h
    cases h
    exact .cons hy (ih hys)

/-- What is kept of the elements read is what is kept of the elements. -/
theorem filterMap_of_mapM {f : α → Except ε β} {g : β → Option γ} {k : α → Option γ}
    (hk : ∀ x y, f x = .ok y → g y = k x) {l : List α} {read : List β} (h : l.mapM f = .ok read) :
    read.filterMap g = l.filterMap k := by
  have hall := forall₂_of_mapM h
  clear h
  induction hall with
  | nil => rfl
  | cons hx _ ih => rw [List.filterMap_cons, List.filterMap_cons, hk _ _ hx, ih]

theorem flatMap_of_mapM {f : α → Except ε β} {g : β → List γ} {k : α → List γ}
    (hk : ∀ x y, f x = .ok y → g y = k x) {l : List α} {read : List β} (h : l.mapM f = .ok read) :
    read.flatMap g = l.flatMap k := by
  have hall := forall₂_of_mapM h
  clear h
  induction hall with
  | nil => rfl
  | cons hx _ ih => rw [List.flatMap_cons, List.flatMap_cons, hk _ _ hx, ih]

end Errors
