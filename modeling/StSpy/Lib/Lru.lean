import Mathlib.Data.List.Basic

/-!
# Least recently used

A cache of bounded size as the list of its entries, the latest used first. An
entry may be forgotten, but what is found for a key is what was last put there.
-/

namespace Lru

variable {κ ν : Type*} [DecidableEq κ]

/-- The entry moved to the front. -/
def touch (cache : List (κ × ν)) (key : κ) (value : ν) : List (κ × ν) :=
  (key, value) :: cache.filter fun entry => entry.1 ≠ key

/-- The value of `key`, which becomes the latest used. -/
def get (cache : List (κ × ν)) (key : κ) : Option ν × List (κ × ν) :=
  match cache.lookup key with
  | some value => (some value, touch cache key value)
  | none => (none, cache)

/-- A value put in, for which the entry used least recently may have to go. -/
def put (capacity : Nat) (cache : List (κ × ν)) (key : κ) (value : ν) : List (κ × ν) :=
  (touch cache key value).take capacity

variable {cache : List (κ × ν)} {key other : κ} {value : ν}

theorem lookup_touch (cache : List (κ × ν)) (key other : κ) (value : ν) :
    (touch cache key value).lookup other = if other = key then some value else cache.lookup other := by
  have hothers : other ≠ key → (cache.filter fun entry => entry.1 ≠ key).lookup other = cache.lookup other := by
    intro hne
    induction cache with
    | nil => rfl
    | cons entry cache ih =>
      obtain ⟨k, v⟩ := entry
      by_cases hk : k = key
      · have hother : (other == k) = false := by simpa [hk] using hne
        rw [List.filter_cons_of_neg (by simpa using hk), ih, List.lookup_cons, hother]
      · rw [List.filter_cons_of_pos (by simpa using hk), List.lookup_cons, List.lookup_cons, ih]
  rw [touch, List.lookup_cons]
  by_cases h : other = key
  · simp [h]
  · rw [if_neg h, hothers h, beq_false_of_ne h]

theorem lookup_take {n : Nat} (h : (cache.take n).lookup key = some value) : cache.lookup key = some value := by
  induction cache generalizing n with
  | nil => simp at h
  | cons entry cache ih =>
    cases n with
    | zero => cases h
    | succ n =>
      rw [List.take_succ_cons, List.lookup_cons] at h
      rw [List.lookup_cons]
      cases hk : key == entry.1 with
      | true => rwa [hk] at h
      | false =>
        rw [hk] at h
        exact ih h

/-- What is found after a `put` was put just now, or was found before. -/
theorem lookup_put {capacity : Nat} {found : ν} (h : (put capacity cache key value).lookup other = some found) :
    (other = key ∧ found = value) ∨ cache.lookup other = some found := by
  have h := lookup_take h
  rw [lookup_touch] at h
  split at h
  · rename_i heq
    cases h
    exact .inl ⟨heq, rfl⟩
  · exact .inr h

theorem lookup_put_self {capacity : Nat} (h : 0 < capacity) :
    (put capacity cache key value).lookup key = some value := by
  cases capacity with
  | zero => exact absurd h (Nat.lt_irrefl 0)
  | succ n => simp [put, touch]

/-- Moving an entry to the front changes what is found for no key. -/
theorem lookup_get (cache : List (κ × ν)) (key other : κ) : (get cache key).2.lookup other = cache.lookup other := by
  unfold get
  cases h : cache.lookup key with
  | none => rfl
  | some value =>
    rw [lookup_touch]
    split
    · rename_i heq
      rw [heq, h]
    · rfl

/-! ## Size -/

/-- No more entries than the capacity allows, and one for each key. -/
structure Bounded (capacity : Nat) (cache : List (κ × ν)) : Prop where
  length_le : cache.length ≤ capacity
  nodup : (cache.map Prod.fst).Nodup

theorem nodup_touch (h : (cache.map Prod.fst).Nodup) (key : κ) (value : ν) :
    ((touch cache key value).map Prod.fst).Nodup := by
  rw [touch, List.map_cons, List.nodup_cons]
  refine ⟨fun hmem => ?_, h.sublist (List.filter_sublist.map _)⟩
  obtain ⟨entry, hentry, hkey⟩ := List.mem_map.mp hmem
  have hne := (List.mem_filter.mp hentry).2
  simp [hkey] at hne

theorem Bounded.put {capacity : Nat} (h : Bounded capacity cache) (key : κ) (value : ν) :
    Bounded capacity (put capacity cache key value) where
  length_le := List.length_take_le _ _
  nodup := (nodup_touch h.nodup key value).sublist ((List.take_sublist _ _).map _)

/-- What is moved to the front has been in the cache. -/
theorem Bounded.get {capacity : Nat} (h : Bounded capacity cache) (key : κ) : Bounded capacity (get cache key).2 := by
  unfold Lru.get
  cases hfound : cache.lookup key with
  | none => exact h
  | some value =>
    refine ⟨?_, nodup_touch h.nodup key value⟩
    have hmem : ∃ entry ∈ cache, ¬decide (entry.1 ≠ key) = true := by
      obtain ⟨entry, hentry, hkey⟩ := List.lookup_isSome_iff.mp (Option.isSome_of_eq_some hfound)
      exact ⟨entry, hentry, by simpa using (eq_of_beq hkey).symm⟩
    have hlt := List.length_filter_lt_length_iff_exists.mpr hmem
    have hle := h.length_le
    simp only [touch, List.length_cons]
    omega

end Lru
