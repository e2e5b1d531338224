import Mathlib.Order.WellFoundedSet

/-!
# Parents

A partial function that gives each element its parent. It is rooted if every
chain of parents ends. A link more keeps it so exactly when the new parent is not
below the child, and among finitely many links an endless chain is a cycle.
-/

namespace Parents

variable {α : Type*}

/-- `p` is the parent of `c`. -/
def IsParent (parent : α → Option α) (p c : α) : Prop := parent c = some p

/-- `a` is `c` or an ancestor of it. -/
def Below (parent : α → Option α) (c a : α) : Prop := Relation.ReflTransGen (Function.swap (IsParent parent)) c a

def Rooted (parent : α → Option α) : Prop := WellFounded (IsParent parent)

variable {parent : α → Option α} {p c : α}

theorem rooted_none : Rooted fun _ : α => none := ⟨fun _ => ⟨_, nofun⟩⟩

/-- Ranks that rise from parent to child leave room for finitely many ancestors. -/
theorem rooted_of_rank (rank : α → Nat) (h : ∀ c p, parent c = some p → rank p < rank c) : Rooted parent :=
  Subrelation.wf (fun {_ _} hparent => h _ _ hparent) (measure rank).wf

theorem not_rooted_of_cycle (h : Relation.TransGen (IsParent parent) c c) : ¬Rooted parent :=
  fun hrooted => hrooted.transGen.irrefl.irrefl c h

/-- Finitely many links are rooted unless they contain a cycle. -/
theorem rooted_iff_acyclic (hfinite : {c | parent c ≠ none}.Finite) :
    Rooted parent ↔ ∀ c, ¬Relation.TransGen (IsParent parent) c c := by
  constructor
  · exact fun hrooted c hcycle => not_rooted_of_cycle hcycle hrooted
  · intro hacyclic
    have hirrefl : Std.Irrefl (Relation.TransGen (IsParent parent)) := ⟨hacyclic⟩
    have hstrict : IsStrictOrder α (Relation.TransGen (IsParent parent)) := { }
    have hlinked := hfinite.wellFoundedOn (r := Relation.TransGen (IsParent parent))
    have hacc : ∀ c, parent c ≠ none → Acc (IsParent parent) c := by
      intro c hc
      refine hlinked.induction (P := Acc (IsParent parent)) hc fun c hc ih => ⟨c, fun p hparent => ?_⟩
      by_cases hp : parent p = none
      · exact ⟨p, fun q hq => absurd (hp.symm.trans hq) nofun⟩
      · exact ih p hp (.single hparent)
    refine ⟨fun c => ?_⟩
    by_cases hc : parent c = none
    · exact ⟨c, fun p hparent => absurd (hc.symm.trans hparent) nofun⟩
    · exact hacc c hc

variable [DecidableEq α]

theorem isParent_update_ne {q a : α} (h : a ≠ c) :
    IsParent (Function.update parent c (some p)) q a ↔ IsParent parent q a := by
  unfold IsParent
  rw [Function.update_of_ne h]

/-- The way up to the child is still one after the link, so the link closes it. -/
theorem cycle_of_below (h : Below parent p c) :
    Relation.TransGen (IsParent (Function.update parent c (some p))) c c := by
  have hway : Below (Function.update parent c (some p)) p c := by
    have hkept : ∀ a, Below parent a c → Below (Function.update parent c (some p)) a c := by
      intro a ha
      induction ha using Relation.ReflTransGen.head_induction_on with
      | refl => exact .refl
      | @head a b hstep _ ih =>
        by_cases ha : a = c
        · rw [ha]
          exact .refl
        · exact .head ((isParent_update_ne ha).mpr hstep) ih
    exact hkept p h
  have hlink : IsParent (Function.update parent c (some p)) p c := Function.update_self ..
  exact Relation.transGen_swap.mp (Relation.TransGen.head' hlink hway)

/-- What is not below the child keeps its ancestors. -/
theorem acc_update_of_not_below {a : α} (h : Rooted parent) (hfree : ¬Below parent a c) :
    Acc (IsParent (Function.update parent c (some p))) a := by
  induction a using h.induction with
  | h a ih =>
    have hne : a ≠ c := by
      rintro rfl
      exact hfree .refl
    refine ⟨a, fun q hq => ?_⟩
    have hparent := (isParent_update_ne hne).mp hq
    exact ih q hparent fun hbelow => hfree (.head hparent hbelow)

/-- A link keeps the chains ending exactly when the parent is not below the child. -/
theorem rooted_update_iff (h : Rooted parent) :
    Rooted (Function.update parent c (some p)) ↔ ¬Below parent p c := by
  constructor
  · exact fun hrooted hbelow => not_rooted_of_cycle (cycle_of_below hbelow) hrooted
  · intro hfree
    have hchild : Acc (IsParent (Function.update parent c (some p))) c := by
      refine ⟨c, fun q hq => ?_⟩
      unfold IsParent at hq
      rw [Function.update_self] at hq
      cases hq
      exact acc_update_of_not_below h hfree
    refine ⟨fun a => ?_⟩
    induction a using h.induction with
    | h a ih =>
      by_cases ha : a = c
      · rw [ha]
        exact hchild
      · exact ⟨a, fun q hq => ih q ((isParent_update_ne ha).mp hq)⟩

end Parents
