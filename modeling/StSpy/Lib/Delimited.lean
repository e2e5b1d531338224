import Mathlib.Data.List.Basic
import Mathlib.Tactic.Common

/-!
# Delimited fields

Lists of fields written with a delimiter between or behind them, and read back
by splitting. Fields without the delimiter are read back; what is read back
never holds the delimiter.
-/

namespace Delimited

variable {α β γ δ : Type*} [DecidableEq α] {a : α}

/-! ## Splitting -/

theorem splitOn_cons (x : α) (xs : List α) :
    (x :: xs).splitOn a = if x = a then [] :: xs.splitOn a else (xs.splitOn a).modifyHead (x :: ·) := by
  simp [List.splitOn_cons_eq_if_modifyHead]

/-- The fields of a split have neither the delimiter nor anything new. -/
theorem of_mem_splitOn {xs field : List α} (h : field ∈ xs.splitOn a) : a ∉ field ∧ field ⊆ xs := by
  induction xs generalizing field with
  | nil =>
    rw [List.splitOn_nil, List.mem_singleton] at h
    simp [h]
  | cons x xs ih =>
    rw [splitOn_cons] at h
    split at h
    · rcases List.mem_cons.mp h with rfl | h
      · simp
      · exact ⟨(ih h).1, List.Subset.trans (ih h).2 (List.subset_cons_self _ _)⟩
    · rename_i hx
      cases hsplit : xs.splitOn a with
      | nil => exact absurd hsplit (List.splitOn_ne_nil a xs)
      | cons first rest =>
        rw [hsplit, List.modifyHead_cons] at h
        rcases List.mem_cons.mp h with rfl | h
        · obtain ⟨hnot, hsub⟩ := ih (hsplit ▸ List.mem_cons_self)
          exact ⟨by simp [Ne.symm hx, hnot], List.cons_subset_cons _ hsub⟩
        · obtain ⟨hnot, hsub⟩ := ih (hsplit ▸ List.mem_cons_of_mem _ h)
          exact ⟨hnot, List.Subset.trans hsub (List.subset_cons_self _ _)⟩

/-! ## Fields with the delimiter behind each -/

def terminated (a : α) (fields : List (List α)) : List α := fields.flatMap (· ++ [a])

/-- The fields that end in the delimiter. -/
def fields (a : α) (xs : List α) : List (List α) := (xs.splitOn a).dropLast

theorem fields_terminated {l : List (List α)} (h : ∀ field ∈ l, a ∉ field) : fields a (terminated a l) = l := by
  have hsplit : (terminated a l).splitOn a = l ++ [[]] := by
    induction l with
    | nil => exact List.splitOn_nil a
    | cons field l ih =>
      have hcons : terminated a (field :: l) = field ++ a :: terminated a l := by simp [terminated]
      rw [hcons, List.splitOn_append_cons_self_of_not_mem (h field List.mem_cons_self),
        ih fun f hf => h f (List.mem_cons_of_mem _ hf), List.cons_append]
  rw [fields, hsplit, List.dropLast_concat]

theorem not_mem_of_mem_fields {xs field : List α} (h : field ∈ fields a xs) : a ∉ field :=
  (of_mem_splitOn ((List.dropLast_sublist _).subset h)).1

/-! ## The last field -/

/-- What stands before and behind the last delimiter. -/
def splitLast (a : α) (xs : List α) : Option (List α × List α) :=
  match xs.reverse.dropWhile (· ≠ a) with
  | [] => none
  | _ :: rest => some (rest.reverse, (xs.reverse.takeWhile (· ≠ a)).reverse)

theorem splitLast_append (xs : List α) {field : List α} (h : a ∉ field) :
    splitLast a (xs ++ a :: field) = some (xs, field) := by
  have hfield : ∀ x ∈ field.reverse, decide (x ≠ a) = true := by
    intro x hx
    simp only [ne_eq, decide_eq_true_eq]
    rintro rfl
    exact h (List.mem_reverse.mp hx)
  have hrev : (xs ++ a :: field).reverse = field.reverse ++ a :: xs.reverse := by simp
  rw [splitLast, hrev, List.dropWhile_append_of_pos hfield, List.takeWhile_append_of_pos hfield]
  simp

theorem subset_of_splitLast {xs before field : List α} (h : splitLast a xs = some (before, field)) :
    before ⊆ xs := by
  unfold splitLast at h
  split at h
  · cases h
  · rename_i x rest hrest
    cases h
    intro y hy
    have hdrop : y ∈ xs.reverse.dropWhile (· ≠ a) := by
      rw [hrest]
      exact List.mem_cons_of_mem _ (List.mem_reverse.mp hy)
    exact List.mem_reverse.mp ((List.dropWhile_sublist _).subset hdrop)

/-! ## Reading a list field by field -/

theorem mapM_map {f : β → δ} {g : δ → Option γ} {h : β → γ} {l : List β} (hl : ∀ x ∈ l, g (f x) = some (h x)) :
    (l.map f).mapM g = some (l.map h) := by
  induction l with
  | nil => rfl
  | cons x l ih =>
    rw [List.map_cons, List.mapM_cons, hl x List.mem_cons_self, ih fun y hy => hl y (List.mem_cons_of_mem _ hy)]
    rfl

theorem exists_of_mem_mapM {g : β → Option γ} {l : List β} {read : List γ} (h : l.mapM g = some read) {y : γ}
    (hy : y ∈ read) : ∃ x ∈ l, g x = some y := by
  induction l generalizing read with
  | nil =>
    cases h
    cases hy
  | cons x l ih =>
    rw [List.mapM_cons] at h
    obtain ⟨z, hz, h⟩ := Option.bind_eq_some_iff.mp h
    obtain ⟨rest, hrest, h⟩ := Option.bind_eq_some_iff.mp h
    cases h
    rcases List.mem_cons.mp hy with rfl | hy
    · exact ⟨x, List.mem_cons_self, hz⟩
    · obtain ⟨x', hx', hread⟩ := ih hrest hy
      exact ⟨x', List.mem_cons_of_mem _ hx', hread⟩

end Delimited
