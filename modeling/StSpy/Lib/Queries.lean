import Mathlib.Data.Finset.Basic
import Mathlib.Data.List.Perm.Lattice
import Mathlib.Data.Finset.Dedup
import Mathlib.Data.Finset.SDiff

/-!
# Queries with side effects

`ask s k` answers the query `k` in state `s` and gives the state after. The
answers to a set of queries are free of order exactly when no answer depends on
the queries asked before it (`orderFree_iff`).
-/

namespace Queries

variable {σ κ α : Type*} (ask : σ → κ → α × σ)

/-- The state after a list of queries. -/
def run (s : σ) (l : List κ) : σ := l.foldl (fun s k => (ask s k).2) s

/-- The queries of a list with their answers. -/
def answers (s : σ) : List κ → List (κ × α)
  | [] => []
  | k :: l => (k, (ask s k).1) :: answers (ask s k).2 l

variable {ask}

/-- What one query preserves, a run preserves. -/
theorem run_invariant {P : σ → Prop} {s : σ} : ∀ {l : List κ},
    (∀ s, ∀ k ∈ l, P s → P (ask s k).2) → P s → P (run ask s l)
  | [], _, h => h
  | k :: l, hstep, h => run_invariant (l := l)
      (fun s k' hk' => hstep s k' (List.mem_cons_of_mem _ hk')) (hstep s k List.mem_cons_self h)

theorem answers_append (s : σ) : ∀ l m : List κ,
    answers ask s (l ++ m) = answers ask s l ++ answers ask (run ask s l) m
  | [], _ => rfl
  | _ :: l, m => congrArg _ (answers_append _ l m)

theorem map_fst_answers (s : σ) : ∀ l : List κ, (answers ask s l).map Prod.fst = l
  | [] => rfl
  | _ :: l => congrArg _ (map_fst_answers _ l)

theorem mem_of_mem_answers {s : σ} {l : List κ} {k : κ} {a : α} (h : (k, a) ∈ answers ask s l) :
    k ∈ l := by
  have hkeys := List.mem_map_of_mem (f := Prod.fst) h
  rwa [map_fst_answers] at hkeys

/-- With every answer what it is in `s`, the answers of a list are read off. -/
theorem answers_eq_map {s : σ} {l : List κ}
    (h : ∀ pre k post, l = pre ++ k :: post → (ask (run ask s pre) k).1 = (ask s k).1) :
    answers ask s l = l.map fun k => (k, (ask s k).1) := by
  induction l using List.reverseRecOn with
  | nil => rfl
  | append_singleton l k ih =>
    have hl := ih fun pre k' post e => h pre k' (post ++ [k]) (by rw [e]; simp)
    rw [answers_append, hl, List.map_append]
    simp only [answers, List.map_cons, List.map_nil]
    rw [h l k [] rfl]

variable (ask)

/-- Every order of the queries of a set gives each query the same answer. -/
def OrderFree [DecidableEq κ] (s : σ) (ks : Finset κ) : Prop :=
  ∀ l m : List κ, l.Nodup → m.Nodup → l.toFinset = ks → m.toFinset = ks →
    (answers ask s l).Perm (answers ask s m)

variable {ask}

theorem orderFree_iff [DecidableEq κ] {s : σ} {ks : Finset κ} :
    OrderFree ask s ks ↔
      ∀ l k, (l ++ [k]).Nodup → (∀ x ∈ l ++ [k], x ∈ ks) → (ask (run ask s l) k).1 = (ask s k).1 := by
  constructor
  · intro hfree l k hnodup hsub
    -- the rest of the set, asked after `l` and `k`
    obtain ⟨rest, hrest⟩ : ∃ rest : List κ, (l ++ k :: rest).Nodup ∧ (l ++ k :: rest).toFinset = ks := by
      refine ⟨ks.toList.filter (· ∉ l ++ [k]), ?_, ?_⟩
      · rw [← List.singleton_append, ← List.append_assoc]
        refine hnodup.append (ks.nodup_toList.filter _) fun x hx hx' => ?_
        exact (of_decide_eq_true (List.mem_filter.mp hx').2) hx
      · ext x
        simp only [List.mem_toFinset, List.mem_append, List.mem_cons, List.mem_filter,
          Finset.mem_toList, decide_eq_true_eq, List.not_mem_nil, or_false, not_or] at hsub ⊢
        have := hsub x
        tauto
    have hperm : (l ++ k :: rest).Perm (k :: (l ++ rest)) := List.perm_middle
    have hanswers := hfree _ _ hrest.1 (hperm.nodup_iff.mp hrest.1) hrest.2
      (by rw [← List.toFinset_eq_of_perm _ _ hperm, hrest.2])
    have hmem : (k, (ask (run ask s l) k).1) ∈ answers ask s (l ++ k :: rest) := by
      rw [answers_append]
      exact List.mem_append_right _ List.mem_cons_self
    rcases List.mem_cons.mp (hanswers.mem_iff.mp hmem) with he | hlater
    · exact (Prod.mk.inj he).2
    · have := (List.nodup_cons.mp (hperm.nodup_iff.mp hrest.1)).1
      exact absurd (mem_of_mem_answers hlater) this
  · intro h l m hl hm hlks hmks
    have hmap : ∀ l : List κ, l.Nodup → l.toFinset = ks →
        answers ask s l = l.map fun k => (k, (ask s k).1) := by
      rintro l hl rfl
      refine answers_eq_map fun pre k post e => h pre k ?_ ?_
      · rw [e, ← List.singleton_append, ← List.append_assoc] at hl
        exact hl.of_append_left
      · intro x hx
        rw [e, List.mem_toFinset, ← List.singleton_append, ← List.append_assoc]
        exact List.mem_append_left _ hx
    rw [hmap l hl hlks, hmap m hm hmks]
    refine List.Perm.map _ ((List.perm_ext_iff_of_nodup hl hm).mpr fun x => ?_)
    rw [← List.mem_toFinset, ← List.mem_toFinset, hlks, hmks]

end Queries
