import Mathlib.Data.List.AList
import Mathlib.Data.List.Forall2

/-!
# Interning

Values are stored in a list once for each key and named by their index. The
values only grow, so an index denotes the same value ever after.
-/

namespace Interning

structure Table (κ ν : Type*) where
  values : List ν
  index : AList fun _ : κ => Nat

section Denotes

variable {κ ν : Type*} {R : κ → ν → Prop} {key : κ} {i : Nat}

/-- The value at `i` is related to `key`. -/
def Denotes (R : κ → ν → Prop) (values : List ν) (i : Nat) (key : κ) : Prop :=
  ∃ value, values[i]? = some value ∧ R key value

theorem Denotes.lt {values : List ν} (h : Denotes R values i key) : i < values.length := by
  obtain ⟨value, hvalue, _⟩ := h
  exact (List.getElem?_eq_some_iff.mp hvalue).1

theorem Denotes.mono {values more : List ν} (h : Denotes R values i key) (hpre : values <+: more) :
    Denotes R more i key := by
  obtain ⟨value, hvalue, hR⟩ := h
  obtain ⟨rest, rfl⟩ := hpre
  have hlt := (List.getElem?_eq_some_iff.mp hvalue).1
  exact ⟨value, by rw [List.getElem?_append_left hlt, hvalue], hR⟩

end Denotes

variable {κ ν : Type*} [DecidableEq κ]

/-- The index of `key`, whose value is stored if the key is new. -/
def intern (t : Table κ ν) (key : κ) (value : ν) : Nat × Table κ ν :=
  match t.index.lookup key with
  | some i => (i, t)
  | none => (t.values.length, ⟨t.values ++ [value], t.index.insert key t.values.length⟩)

def internAll : Table κ ν → List (κ × ν) → List Nat × Table κ ν
  | t, [] => ([], t)
  | t, (key, value) :: entries =>
    let (i, t) := intern t key value
    let (indices, t) := internAll t entries
    (i :: indices, t)

/-- Every index handed out denotes its key. -/
def Sound (R : κ → ν → Prop) (t : Table κ ν) : Prop :=
  ∀ key i, t.index.lookup key = some i → Denotes R t.values i key

variable {R : κ → ν → Prop} {t : Table κ ν} {key : κ} {value : ν}

theorem values_intern (t : Table κ ν) (key : κ) (value : ν) : t.values <+: (intern t key value).2.values := by
  unfold intern
  split
  · exact List.prefix_rfl
  · exact List.prefix_append _ _

theorem denotes_intern (h : Sound R t) (hR : R key value) :
    Sound R (intern t key value).2 ∧
      Denotes R (intern t key value).2.values (intern t key value).1 key := by
  unfold intern
  split
  · rename_i i hi
    exact ⟨h, h key i hi⟩
  · have hnew : Denotes R (t.values ++ [value]) t.values.length key := ⟨value, by simp, hR⟩
    refine ⟨fun other i hi => ?_, hnew⟩
    by_cases hother : other = key
    · subst hother
      rw [AList.lookup_insert] at hi
      cases hi
      exact hnew
    · rw [AList.lookup_insert_ne hother] at hi
      exact (h other i hi).mono (List.prefix_append _ _)

/-- Interning a list gives indices that denote its keys in order. -/
theorem denotes_internAll {entries : List (κ × ν)} (h : Sound R t) (hR : ∀ e ∈ entries, R e.1 e.2) :
    let (indices, t') := internAll t entries
    Sound R t' ∧ t.values <+: t'.values ∧ List.Forall₂ (Denotes R t'.values) indices (entries.map (·.1)) := by
  induction entries generalizing t with
  | nil => exact ⟨h, List.prefix_rfl, .nil⟩
  | cons e entries ih =>
    obtain ⟨key, value⟩ := e
    obtain ⟨hsound, hdenotes⟩ := denotes_intern h (hR _ List.mem_cons_self)
    obtain ⟨hsound', hpre, hall⟩ := ih hsound fun e he => hR e (List.mem_cons_of_mem _ he)
    exact ⟨hsound', (values_intern t key value).trans hpre, .cons (hdenotes.mono hpre) hall⟩

end Interning
