import Mathlib.Algebra.GroupWithZero.Nat
import Mathlib.Data.List.Induction
import Mathlib.Tactic.Common

/-!
# Runs of a transition system

`step s a` is the state after action `a`, `none` where `s` does not allow it.
What every step preserves holds after every run.
-/

namespace Runs

variable {σ α : Type*} (step : σ → α → Option σ)

def run (s : σ) (actions : List α) : Option σ := actions.foldlM step s

variable {step} {s s' : σ} {a : α} {l m : List α}

theorem run_nil (h : run step s [] = some s') : s' = s := (Option.some.inj h).symm

theorem run_cons : run step s (a :: l) = some s' ↔ ∃ t, step s a = some t ∧ run step t l = some s' := by
  simp only [run, List.foldlM_cons]
  exact Option.bind_eq_some_iff

theorem run_append :
    run step s (l ++ m) = some s' ↔ ∃ t, run step s l = some t ∧ run step t m = some s' := by
  simp only [run, List.foldlM_append]
  exact Option.bind_eq_some_iff

theorem run_concat : run step s (l ++ [a]) = some s' ↔ ∃ t, run step s l = some t ∧ step t a = some s' := by
  simp [run, List.foldlM_append, Option.bind_eq_some_iff]

/-- A relation that holds between a state and itself, and stays when its second
state takes a step, holds between the ends of a run. -/
theorem run_rel {R : σ → σ → Prop} (hrefl : ∀ s, R s s)
    (hstep : ∀ {s t t' a}, R s t → step t a = some t' → R s t') :
    run step s l = some s' → R s s' := by
  suffices h : ∀ (l : List α) {t : σ}, R s t → run step t l = some s' → R s s' from h l (hrefl s)
  intro l
  induction l with
  | nil =>
    intro t ht hrun
    rw [run_nil hrun]
    exact ht
  | cons a l ih =>
    intro t ht hrun
    obtain ⟨u, hu, hrun⟩ := run_cons.mp hrun
    exact ih (hstep ht hu) hrun

theorem run_invariant {P : σ → Prop} (hstep : ∀ {s s' a}, P s → step s a = some s' → P s')
    (hrun : run step s l = some s') (hs : P s) : P s' :=
  run_rel (R := fun s t => P s → P t) (fun _ h => h) (fun h ht hs => hstep (h hs) ht) hrun hs

/-- An invariant that rests on what the actions meet. -/
theorem run_invariant_of {P : σ → Prop} {Q : α → Prop}
    (hstep : ∀ {s s' a}, P s → Q a → step s a = some s' → P s') (hactions : ∀ a ∈ l, Q a)
    (hrun : run step s l = some s') (hs : P s) : P s' := by
  induction l generalizing s with
  | nil =>
    rw [run_nil hrun]
    exact hs
  | cons a l ih =>
    obtain ⟨t, ht, hrest⟩ := run_cons.mp hrun
    obtain ⟨hfirst, hothers⟩ := List.forall_mem_cons.mp hactions
    exact ih hothers hrest (hstep hs hfirst ht)

/-- What holds at the start, and after a step from where it holds exactly if the
step is safe, holds throughout a run exactly if its steps are safe. -/
theorem run_always_iff {P : σ → Prop} {Safe : σ → α → Prop} (hs : P s)
    (hstep : ∀ {s s' a}, P s → step s a = some s' → (P s' ↔ Safe s a)) :
    (∀ m, m <+: l → ∀ t, run step s m = some t → P t) ↔
      ∀ m a, m ++ [a] <+: l → ∀ t u, run step s m = some t → step t a = some u → Safe t a := by
  constructor
  · intro h m a hprefix t u hrun hu
    have ht := h m ((List.prefix_append m [a]).trans hprefix) t hrun
    exact (hstep ht hu).mp (h (m ++ [a]) hprefix u (run_concat.mpr ⟨t, hrun, hu⟩))
  · intro h m
    induction m using List.reverseRecOn with
    | nil =>
      intro _ t hrun
      rw [run_nil hrun]
      exact hs
    | append_singleton m a ih =>
      intro hprefix u hrun
      obtain ⟨t, ht, hu⟩ := run_concat.mp hrun
      exact (hstep (ih ((List.prefix_append m [a]).trans hprefix) t ht) hu).mpr (h m a hprefix t u ht hu)

/-- Where every step lowers the rank by what it weighs, a run weighs no more than the rank. -/
theorem run_weight_le (weight : α → Nat) (rank : σ → Nat) {P : σ → Prop}
    (hstep : ∀ {s s' a}, P s → step s a = some s' → P s' ∧ weight a + rank s' ≤ rank s)
    (hrun : run step s l = some s') (hs : P s) : (l.map weight).sum + rank s' ≤ rank s := by
  induction l generalizing s with
  | nil =>
    rw [run_nil hrun]
    simp
  | cons a l ih =>
    obtain ⟨t, ht, hrun⟩ := run_cons.mp hrun
    obtain ⟨hp, hle⟩ := hstep hs ht
    have hrest := ih hrun hp
    rw [List.map_cons, List.sum_cons]
    omega

theorem run_count_le (counted : α → Bool) (rank : σ → Nat) {P : σ → Prop}
    (hstep : ∀ {s s' a}, P s → step s a = some s' → P s' ∧ (counted a).toNat + rank s' ≤ rank s)
    (hrun : run step s l = some s') (hs : P s) : l.countP counted + rank s' ≤ rank s := by
  have hcount : l.countP counted = (l.map fun a => (counted a).toNat).sum := by
    clear hrun
    induction l with
    | nil => rfl
    | cons a l ih =>
      rw [List.countP_cons, ih, List.map_cons, List.sum_cons, Nat.add_comm]
      cases counted a <;> rfl
  rw [hcount]
  exact run_weight_le (fun a => (counted a).toNat) rank hstep hrun hs

/-! ## Runs that stay inside -/

/-- The steps to a state inside. -/
def within (inside : σ → Bool) (step : σ → α → Option σ) (s : σ) (a : α) : Option σ := (step s a).filter inside

theorem within_eq_some {inside : σ → Bool} :
    within inside step s a = some s' ↔ step s a = some s' ∧ inside s' = true := Option.filter_eq_some_iff

theorem run_within {inside : σ → Bool} (hrun : run (within inside step) s l = some s') (hs : inside s = true) :
    run step s l = some s' ∧ inside s' = true := by
  induction l generalizing s with
  | nil =>
    rw [run_nil hrun]
    exact ⟨rfl, hs⟩
  | cons a l ih =>
    obtain ⟨t, ht, hrest⟩ := run_cons.mp hrun
    obtain ⟨hstep, hinside⟩ := within_eq_some.mp ht
    obtain ⟨hrun, hlast⟩ := ih hrest hinside
    exact ⟨run_cons.mpr ⟨t, hstep, hrun⟩, hlast⟩

end Runs
