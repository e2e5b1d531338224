import Mathlib.Tactic.Common

/-!
# Logged computations

A computation together with the log of what it did. `Computes Q x a P` says that
`x` computes `a`, and that every entry of its log satisfies `Q` exactly if `P`
holds. Sequences, failing computations and searches have such a `P` if their parts
have one, so it is found along the syntax of a program. The rules come in threes
where one of the two parts may ask for nothing.
-/

/-- A value, and what was logged on the way to it. -/
structure Logged (ω : Type*) (α : Type*) where
  value : α
  log : List ω

namespace Logged

universe u

variable {ω α β : Type u}

instance : Monad (Logged ω) where
  pure a := ⟨a, []⟩
  bind x f := ⟨(f x.value).value, x.log ++ (f x.value).log⟩

/-- Only an entry of the log. -/
def note (entry : ω) : Logged ω PUnit := ⟨⟨⟩, [entry]⟩

/-- A logged computation that may fail. -/
abbrev Attempt (ω α : Type u) := OptionT (Logged ω) α

/-- A value or a failure, with nothing logged. -/
def given (a : Option α) : Attempt ω α := OptionT.mk (pure a)

/-- `Option::filter` of the outcome. -/
def keep (p : α → Bool) (x : Attempt ω α) : Attempt ω α := do
  let a ← x
  if p a then pure a else failure

structure Computes (Q : ω → Prop) (x : Logged ω α) (a : α) (P : Prop) : Prop where
  value : x.value = a
  all_iff : (∀ entry ∈ x.log, Q entry) ↔ P

namespace Computes

variable {Q : ω → Prop} {x y : Logged ω α} {a a' : α} {b : β} {P P' : Prop} {f : α → Logged ω β}

theorem congr (h : Computes Q x a P) (hiff : P ↔ P') : Computes Q x a P' := ⟨h.value, h.all_iff.trans hiff⟩

theorem pure (a : α) : Computes Q (Pure.pure a) a True := ⟨rfl, by simp [Pure.pure]⟩

theorem bind (hx : Computes Q x a P) (hf : Computes Q (f a) b P') : Computes Q (x >>= f) b (P ∧ P') := by
  obtain ⟨rfl, hx⟩ := hx
  obtain ⟨rfl, hf⟩ := hf
  refine ⟨rfl, ?_⟩
  show (∀ entry ∈ x.log ++ (f x.value).log, Q entry) ↔ P ∧ P'
  rw [List.forall_mem_append, hx, hf]

theorem bind_first (hx : Computes Q x a P) (hf : Computes Q (f a) b True) : Computes Q (x >>= f) b P :=
  (hx.bind hf).congr (and_iff_left trivial)

theorem bind_second (hx : Computes Q x a True) (hf : Computes Q (f a) b P) : Computes Q (x >>= f) b P :=
  (hx.bind hf).congr (and_iff_right trivial)

/-- The second part asks for nothing that the first one does not. -/
theorem bind_implied (hx : Computes Q x a P) (hf : Computes Q (f a) b P') (himp : P → P') :
    Computes Q (x >>= f) b P := (hx.bind hf).congr (and_iff_left_of_imp himp)

theorem map {g : α → β} (hx : Computes Q x a P) : Computes Q (g <$> x) (g a) P := hx.bind_first (.pure (g a))

theorem ite {c : Prop} [Decidable c] (hthen : c → Computes Q x a P) (helse : ¬c → Computes Q y a' P') :
    Computes Q (if c then x else y) (if c then a else a') (if c then P else P') := by
  split
  · rename_i h
    exact hthen h
  · rename_i h
    exact helse h

theorem ite_then {c : Prop} [Decidable c] (hthen : c → Computes Q x a P) (helse : ¬c → Computes Q y a' True) :
    Computes Q (if c then x else y) (if c then a else a') (c → P) :=
  (ite hthen helse).congr (by split <;> simp [*])

theorem ite_else {c : Prop} [Decidable c] (hthen : c → Computes Q x a True) (helse : ¬c → Computes Q y a' P) :
    Computes Q (if c then x else y) (if c then a else a') (¬c → P) :=
  (ite hthen helse).congr (by split <;> simp [*])

theorem ite_free {c : Prop} [Decidable c] (hthen : c → Computes Q x a True) (helse : ¬c → Computes Q y a' True) :
    Computes Q (if c then x else y) (if c then a else a') True :=
  (ite_then hthen helse).congr (by simp)

/-! ## Failing computations -/

section Attempts

variable {x y : Attempt ω α} {a a' : Option α} {f : α → Attempt ω β} {g : α → Option β} {P' : Prop} {R : α → Prop}

theorem failure : Computes Q (Alternative.failure : Attempt ω α).run none True := .pure none

theorem succeed (a : α) : Computes Q (Pure.pure a : Attempt ω α).run (some a) True := .pure (some a)

theorem given (a : Option α) : Computes Q (given a : Attempt ω α).run a True := .pure a

theorem attempt (hx : Computes Q x.run a P) (hf : ∀ v, a = some v → Computes Q (f v).run (g v) (R v)) :
    Computes Q (x >>= f).run (a >>= g) (P ∧ ∀ v, a = some v → R v) := by
  rw [OptionT.run_bind, Option.elimM]
  refine hx.bind ?_
  cases a with
  | none => exact (pure none).congr (by simp)
  | some v => exact (hf v rfl).congr (by simp)

theorem attempt_first (hx : Computes Q x.run a P) (hf : ∀ v, a = some v → Computes Q (f v).run (g v) True) :
    Computes Q (x >>= f).run (a >>= g) P :=
  (hx.attempt hf).congr (by simp)

theorem attempt_second (hx : Computes Q x.run a True) (hf : ∀ v, a = some v → Computes Q (f v).run (g v) (R v)) :
    Computes Q (x >>= f).run (a >>= g) (∀ v, a = some v → R v) :=
  (hx.attempt hf).congr (and_iff_right trivial)

/-- A step that cannot fail. -/
theorem lift {x : Logged ω α} {a : α} {b : Option β} (hx : Computes Q x a P) (hf : Computes Q (f a).run b P') :
    Computes Q ((liftM x : Attempt ω α) >>= f).run b (P ∧ P') := by
  rw [OptionT.run_bind, Option.elimM]
  exact (hx.map (g := some)).bind hf

theorem lift_first {x : Logged ω α} {a : α} {b : Option β} (hx : Computes Q x a P)
    (hf : Computes Q (f a).run b True) : Computes Q ((liftM x : Attempt ω α) >>= f).run b P :=
  (hx.lift hf).congr (and_iff_left trivial)

theorem lift_second {x : Logged ω α} {a : α} {b : Option β} (hx : Computes Q x a True)
    (hf : Computes Q (f a).run b P) : Computes Q ((liftM x : Attempt ω α) >>= f).run b P :=
  (hx.lift hf).congr (and_iff_right trivial)

theorem iteRun {c : Prop} [Decidable c] (hthen : c → Computes Q x.run a P) (helse : ¬c → Computes Q y.run a' P') :
    Computes Q (if c then x else y).run (if c then a else a') (if c then P else P') := by
  rw [apply_ite OptionT.run]
  exact ite hthen helse

theorem iteRun_then {c : Prop} [Decidable c] (hthen : c → Computes Q x.run a P)
    (helse : ¬c → Computes Q y.run a' True) :
    Computes Q (if c then x else y).run (if c then a else a') (c → P) := by
  rw [apply_ite OptionT.run]
  exact ite_then hthen helse

theorem iteRun_else {c : Prop} [Decidable c] (hthen : c → Computes Q x.run a True)
    (helse : ¬c → Computes Q y.run a' P) :
    Computes Q (if c then x else y).run (if c then a else a') (¬c → P) := by
  rw [apply_ite OptionT.run]
  exact ite_else hthen helse

theorem iteRun_free {c : Prop} [Decidable c] (hthen : c → Computes Q x.run a True)
    (helse : ¬c → Computes Q y.run a' True) : Computes Q (if c then x else y).run (if c then a else a') True := by
  rw [apply_ite OptionT.run]
  exact ite_free hthen helse

/-- A check that ends the computation. -/
theorem guardRun {c : Bool} (hy : c = true → Computes Q y.run a' P) :
    Computes Q (if !c then Alternative.failure else y).run (if !c then none else a') (c = true → P) :=
  (iteRun_else (fun _ => failure) fun h => hy (by simpa using h)).congr (by simp)

theorem orElse (hx : Computes Q x.run a P) (hy : a = none → Computes Q y.run a' P') :
    Computes Q (x <|> y).run (a <|> a') (P ∧ (a = none → P')) := by
  rw [OptionT.run_orElse]
  refine hx.bind ?_
  cases a with
  | none => exact (hy rfl).congr (by simp)
  | some v => exact (pure (some v)).congr (by simp)

theorem keep {p : α → Bool} (hx : Computes Q x.run a P) : Computes Q (keep p x).run (a.filter p) P := by
  have hfilter : a.filter p = a >>= fun v => if p v then some v else none := by cases a <;> rfl
  rw [hfilter]
  refine hx.attempt_first fun v _ => ?_
  exact iteRun_free (fun _ => succeed v) fun _ => failure

end Attempts

end Computes

/-! ## Searches -/

/-- A search that goes on behind what is `passed` comes to this element of the list. -/
inductive Searched {α : Type*} (passed : α → Prop) : List α → α → Prop
  | here {a : α} {l : List α} : Searched passed (a :: l) a
  | next {a x : α} {l : List α} (goesOn : passed a) (later : Searched passed l x) : Searched passed (a :: l) x

theorem forall_searched_cons {α : Type*} {passed R : α → Prop} {a : α} {l : List α} :
    (∀ x, Searched passed (a :: l) x → R x) ↔ R a ∧ (passed a → ∀ x, Searched passed l x → R x) := by
  constructor
  · exact fun h => ⟨h a .here, fun hpassed x hx => h x (.next hpassed hx)⟩
  · rintro ⟨hhere, hnext⟩ x hx
    cases hx with
    | here => exact hhere
    | next hpassed hx => exact hnext hpassed x hx

theorem forall_searched_nil {α : Type*} {passed R : α → Prop} : (∀ x, Searched passed [] x → R x) ↔ True :=
  iff_true_intro fun _ h => by cases h

theorem searched_of_find? {α : Type*} {g : α → Bool} {a : α} {l : List α} (h : l.find? g = some a) :
    Searched (g · = false) l a := by
  induction l with
  | nil => cases h
  | cons x l ih =>
    rw [List.find?_cons] at h
    cases hx : g x with
    | true =>
      rw [hx] at h
      cases h
      exact .here
    | false =>
      rw [hx] at h
      exact .next hx (ih h)

namespace Computes

theorem findSomeM {Q : ω → Prop} {f : α → Logged ω (Option β)} {g : α → Option β} {R : α → Prop} {l : List α}
    (h : ∀ a ∈ l, Computes Q (f a) (g a) (R a)) :
    Computes Q (l.findSomeM? f) (l.findSome? g) (∀ a, Searched (g · = none) l a → R a) := by
  induction l with
  | nil => exact (pure none).congr forall_searched_nil.symm
  | cons a l ih =>
    obtain ⟨hfirst, hrest⟩ := List.forall_mem_cons.mp h
    rw [List.findSomeM?, List.findSome?_cons]
    refine (hfirst.bind ?_).congr forall_searched_cons.symm
    cases g a with
    | none => exact (ih hrest).congr (by simp)
    | some b => exact (pure (some b)).congr (by simp)

section

variable {ω α : Type} {Q : ω → Prop} {f : α → Logged ω Bool} {g : α → Bool} {R : α → Prop} {l : List α}

theorem anyM (h : ∀ a ∈ l, Computes Q (f a) (g a) (R a)) :
    Computes Q (l.anyM f) (l.any g) (∀ a, Searched (g · = false) l a → R a) := by
  induction l with
  | nil => exact (pure false).congr forall_searched_nil.symm
  | cons a l ih =>
    obtain ⟨hfirst, hrest⟩ := List.forall_mem_cons.mp h
    rw [List.anyM, List.any_cons]
    refine (hfirst.bind ?_).congr forall_searched_cons.symm
    cases g a with
    | false => exact (ih hrest).congr (by simp)
    | true => exact (pure true).congr (by simp)

theorem findM (h : ∀ a ∈ l, Computes Q (f a) (g a) (R a)) :
    Computes Q (l.findM? f) (l.find? g) (∀ a, Searched (g · = false) l a → R a) := by
  induction l with
  | nil => exact (pure none).congr forall_searched_nil.symm
  | cons a l ih =>
    obtain ⟨hfirst, hrest⟩ := List.forall_mem_cons.mp h
    rw [List.findM?, List.find?_cons]
    refine (hfirst.bind ?_).congr forall_searched_cons.symm
    cases g a with
    | false => exact (ih hrest).congr (by simp)
    | true => exact (pure (some a)).congr (by simp)

end

end Computes

end Logged
