import StSpy.Lib.Blocks
import Mathlib.Logic.Function.Basic
import Mathlib.Data.List.Destutter

/-!
# Sorted block lists as finite maps

A list of blocks sorted by lower bound represents the map from lower bound to
block. Insertion updates the map at one key, and the search finds the entry of
the greatest key not above a point.
-/

namespace Blocks

variable {α ρ : Type*} [LinearOrder α] (lo : ρ → α) {hi : ρ → α}

/-- The block with a given lower bound. -/
def toMap (l : List ρ) (k : α) : Option ρ := l.find? fun x => lo x = k

/-- `l` is sorted and holds the entries of `m`. -/
structure Represents (l : List ρ) (m : α → Option ρ) : Prop where
  sorted : Sorted lo l
  toMap_eq : toMap lo l = m

/-- `x` is the entry of the greatest key not above `p`. -/
def IsFloor (m : α → Option ρ) (p : α) (x : ρ) : Prop :=
  ∃ k, k ≤ p ∧ m k = some x ∧ ∀ k' y, k' ≤ p → m k' = some y → k' ≤ k

variable {lo} {l : List ρ}

theorem Sorted.injOn (hs : Sorted lo l) : ∀ x ∈ l, ∀ y ∈ l, lo x = lo y → x = y :=
  fun _ hx _ hy h => hs.inj hx hy h

theorem mem_of_toMap {k : α} {x : ρ} (h : toMap lo l k = some x) : x ∈ l ∧ lo x = k := by
  unfold toMap at h
  have hkey := List.find?_some h
  exact ⟨List.mem_of_find?_eq_some h, of_decide_eq_true hkey⟩

/-- Where no two blocks share a lower bound, the map holds all of them. -/
theorem toMap_eq_some (hinj : ∀ x ∈ l, ∀ y ∈ l, lo x = lo y → x = y) {k : α} {x : ρ} :
    toMap lo l k = some x ↔ x ∈ l ∧ lo x = k := by
  refine ⟨mem_of_toMap, ?_⟩
  rintro ⟨hx, rfl⟩
  cases hfind : toMap lo l (lo x) with
  | none => exact absurd (decide_eq_true rfl) (List.find?_eq_none.mp hfind x hx)
  | some y =>
    obtain ⟨hy, hkey⟩ := mem_of_toMap hfind
    rw [hinj y hy x hx hkey]

theorem isFloor_toMap (hinj : ∀ x ∈ l, ∀ y ∈ l, lo x = lo y → x = y) {p : α} {x : ρ} :
    IsFloor (toMap lo l) p x ↔ x ∈ l ∧ lo x ≤ p ∧ ∀ y ∈ l, lo y ≤ p → lo y ≤ lo x := by
  constructor
  · rintro ⟨k, hk, hx, hmax⟩
    obtain ⟨hmem, rfl⟩ := mem_of_toMap hx
    exact ⟨hmem, hk, fun y hy hyp => hmax (lo y) y hyp ((toMap_eq_some hinj).mpr ⟨hy, rfl⟩)⟩
  · rintro ⟨hx, hxp, hmax⟩
    refine ⟨lo x, hxp, (toMap_eq_some hinj).mpr ⟨hx, rfl⟩, ?_⟩
    intro k y hk hy
    obtain ⟨hmem, rfl⟩ := mem_of_toMap hy
    exact hmax y hmem hk

/-- Insertion sets one entry of the map. -/
theorem Represents.put {m : α → Option ρ} (h : Represents lo l m) (r : ρ) :
    Represents lo (put lo r l) (Function.update m (lo r) (some r)) where
  sorted := sorted_put h.sorted r
  toMap_eq := by
    funext k
    apply Option.ext
    intro x
    rw [toMap_eq_some (sorted_put h.sorted r).injOn, mem_put h.sorted, ← h.toMap_eq]
    by_cases hk : k = lo r
    · rw [hk, Function.update_self, Option.some.injEq]
      constructor
      · rintro ⟨rfl | ⟨-, hne⟩, hx⟩
        · rfl
        · exact absurd hx hne
      · rintro rfl
        exact ⟨.inl rfl, rfl⟩
    · rw [Function.update_of_ne hk, toMap_eq_some h.sorted.injOn]
      constructor
      · rintro ⟨rfl | ⟨hx, -⟩, hxk⟩
        · exact absurd hxk.symm hk
        · exact ⟨hx, hxk⟩
      · rintro ⟨hx, rfl⟩
        exact ⟨.inr ⟨hx, hk⟩, rfl⟩

/-- The last block starting at or below a point is the entry of the greatest
key not above it. -/
theorem Represents.getLast?_eq_some {m : α → Option ρ} (h : Represents lo l m) {p : α} {x : ρ} :
    (l.takeWhile fun y => decide (lo y ≤ p)).getLast? = some x ↔ IsFloor m p x := by
  rw [getLast?_takeWhile_eq_some h.sorted, ← h.toMap_eq, isFloor_toMap h.sorted.injOn]

/-- The search finds the entry of the greatest key not above a point, if that
covers the point. -/
theorem Represents.locate_eq_some {m : α → Option ρ} (h : Represents lo l m) {p : α} {x : ρ} :
    locate lo hi p l = some x ↔ IsFloor m p x ∧ p < hi x := by
  rw [locate, Option.filter_eq_some_iff, h.getLast?_eq_some, decide_eq_true_eq]

/-! ## Sorting and dropping repeated keys -/

theorem toMap_cons (r : ρ) (l : List ρ) : toMap lo (r :: l) = Function.update (toMap lo l) (lo r) (some r) := by
  funext k
  by_cases hk : k = lo r
  · rw [hk, Function.update_self, toMap, List.find?_cons_of_pos (by simp)]
  · rw [Function.update_of_ne hk, toMap, List.find?_cons_of_neg (by simpa using Ne.symm hk), toMap]

/-- A block inserted before those of its key is the first with it. -/
theorem toMap_orderedInsert (r : ρ) (l : List ρ) :
    toMap lo (l.orderedInsert (fun x y => lo x ≤ lo y) r) = toMap lo (r :: l) := by
  induction l with
  | nil => rfl
  | cons x l ih =>
    by_cases hle : lo r ≤ lo x
    · rw [List.orderedInsert_cons_of_le _ l hle]
    · have hne : lo x ≠ lo r := fun h => hle h.ge
      rw [List.orderedInsert_of_not_le _ l hle, toMap_cons, ih, toMap_cons, toMap_cons, toMap_cons,
        Function.update_comm hne]

theorem toMap_insertionSort (l : List ρ) : toMap lo (l.insertionSort fun x y => lo x ≤ lo y) = toMap lo l := by
  induction l with
  | nil => rfl
  | cons x l ih => rw [List.insertionSort_cons, toMap_orderedInsert, toMap_cons, ih, toMap_cons]

theorem toMap_destutter (l : List ρ) : toMap lo (l.destutter fun x y => lo x ≠ lo y) = toMap lo l := by
  have hrest (l : List ρ) (x : ρ) : toMap lo (l.destutter' (fun x y => lo x ≠ lo y) x) = toMap lo (x :: l) := by
    induction l generalizing x with
    | nil => rfl
    | cons y l ih =>
      by_cases hkey : lo x ≠ lo y
      · rw [List.destutter'_cons_pos l hkey, toMap_cons, ih, ← toMap_cons]
      · rw [List.destutter'_cons_neg l hkey, ih, toMap_cons, toMap_cons, toMap_cons, not_not.mp hkey,
          Function.update_idem]
  cases l with
  | nil => rfl
  | cons x l => rw [List.destutter_cons', hrest]

/-- Neighbours in order with different keys make a sorted list. -/
theorem sorted_of_isChain {l : List ρ} (hle : l.Pairwise fun x y => lo x ≤ lo y)
    (hne : l.IsChain fun x y => lo x ≠ lo y) : Sorted lo l := by
  induction l with
  | nil => exact List.Pairwise.nil
  | cons x l ih =>
    obtain ⟨hx, hl⟩ := List.pairwise_cons.mp hle
    have hrest := ih hl hne.tail
    refine List.pairwise_cons.mpr ⟨fun z hz => ?_, hrest⟩
    cases l with
    | nil => cases hz
    | cons y l =>
      have hxy : lo x < lo y := lt_of_le_of_ne (hx y List.mem_cons_self) (List.isChain_cons_cons.mp hne).1
      rcases List.mem_cons.mp hz with rfl | hz
      · exact hxy
      · exact hxy.trans ((List.pairwise_cons.mp hrest).1 z hz)

/-- Sorting by key and dropping repeated keys keeps the first block of each. -/
theorem represents_sort (l : List ρ) :
    Represents lo ((l.insertionSort fun x y => lo x ≤ lo y).destutter fun x y => lo x ≠ lo y) (toMap lo l) where
  sorted := by
    have htotal : Std.Total fun x y : ρ => lo x ≤ lo y := ⟨fun x y => le_total (lo x) (lo y)⟩
    have htrans : IsTrans ρ fun x y => lo x ≤ lo y := ⟨fun _ _ _ => le_trans⟩
    have hle := List.pairwise_insertionSort (fun x y => lo x ≤ lo y) l
    exact sorted_of_isChain (hle.sublist (List.destutter_sublist _ _)) (List.isChain_destutter _ _)
  toMap_eq := by rw [toMap_destutter, toMap_insertionSort]

end Blocks
