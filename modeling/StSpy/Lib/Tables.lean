import Mathlib.Algebra.GroupWithZero.Nat
import Mathlib.Data.List.AList

/-!
# Tables

A table from keys to values, with the entry operations of a hash map: storing a
value under a key that is new, and changing the value of a key that starts from a
default. What a key is looked up to, and what the values add up to, is given for
each operation and for a change of each key of another table.
-/

namespace Tables

abbrev Table (κ ν : Type*) := AList fun _ : κ => ν

/-- What the values of a table add up to. -/
def total {κ ν : Type*} (weight : ν → Nat) (t : Table κ ν) : Nat := (t.entries.map fun e => weight e.2).sum

/-- The table with each value changed. -/
def mapValues {κ ν : Type*} (f : ν → ν) (t : Table κ ν) : Table κ ν :=
  ⟨t.entries.map (.map id fun _ => f), t.nodupKeys.map₂ fun _ => f⟩

theorem total_mapValues {κ ν : Type*} {weight : ν → Nat} {f : ν → ν} (hf : ∀ v, weight (f v) = weight v)
    (t : Table κ ν) : total weight (mapValues f t) = total weight t := by
  rw [total, mapValues, List.map_map]
  exact congrArg List.sum (List.map_congr_left fun e _ => hf e.2)

variable {κ ν : Type*} [DecidableEq κ]

/-- `entry(key).or_insert(value)`. -/
def orInsert (t : Table κ ν) (key : κ) (value : ν) : Table κ ν :=
  match t.lookup key with
  | some _ => t
  | none => t.insert key value

/-- `f` applied to `entry(key).or_insert(default)`. -/
def modify (t : Table κ ν) (key : κ) (default : ν) (f : ν → ν) : Table κ ν :=
  t.insert key (f ((t.lookup key).getD default))

/-- One change for each entry of a table. -/
def modifyAll {μ : Type*} (t : Table κ ν) (changes : List (Sigma fun _ : κ => μ)) (default : ν) (f : μ → ν → ν) :
    Table κ ν := changes.foldl (fun t change => modify t change.1 default (f change.2)) t

variable {t : Table κ ν} {key other : κ} {value default : ν} {f : ν → ν} {weight : ν → Nat}

/-! ## Lookups -/

theorem lookup_mapValues (f : ν → ν) (t : Table κ ν) (key : κ) :
    (mapValues f t).lookup key = (t.lookup key).map f :=
  List.dlookup_map₂ (f := fun _ => f) key

theorem lookup_orInsert (t : Table κ ν) (key other : κ) (value : ν) :
    (orInsert t key value).lookup other = (t.lookup other).or (if other = key then some value else none) := by
  unfold orInsert
  split
  · rename_i found hfound
    by_cases hkey : other = key
    · rw [hkey, hfound]
      rfl
    · rw [if_neg hkey, Option.or_none]
  · rename_i hnew
    by_cases hkey : other = key
    · rw [hkey, AList.lookup_insert, hnew, if_pos rfl]
      rfl
    · rw [AList.lookup_insert_ne hkey, if_neg hkey, Option.or_none]

theorem lookup_modify_self (t : Table κ ν) (key : κ) (default : ν) (f : ν → ν) :
    (modify t key default f).lookup key = some (f ((t.lookup key).getD default)) := AList.lookup_insert _

theorem lookup_modify_ne (h : other ≠ key) : (modify t key default f).lookup other = t.lookup other :=
  AList.lookup_insert_ne h

/-- A key is changed once if it has a change, and otherwise left. -/
theorem lookup_modifyAll {μ : Type*} {changes : List (Sigma fun _ : κ => μ)} (hnodup : changes.NodupKeys)
    (t : Table κ ν) (default : ν) (f : μ → ν → ν) (key : κ) :
    (modifyAll t changes default f).lookup key =
      match changes.dlookup key with
      | some change => some (f change ((t.lookup key).getD default))
      | none => t.lookup key := by
  induction changes generalizing t with
  | nil => rfl
  | cons change changes ih =>
    obtain ⟨hfresh, hrest⟩ := List.nodupKeys_cons.mp hnodup
    show (modifyAll (modify t change.1 default (f change.2)) changes default f).lookup key = _
    rw [ih hrest]
    obtain ⟨changed, how⟩ := change
    by_cases hkey : key = changed
    · subst hkey
      rw [List.dlookup_eq_none.mpr hfresh, List.dlookup_cons_eq]
      exact lookup_modify_self t key default (f how)
    · rw [List.dlookup_cons_ne _ _ hkey, lookup_modify_ne hkey]

/-! ## Totals -/

theorem sum_kerase (weight : ν → Nat) (key : κ) (entries : List (Sigma fun _ : κ => ν)) :
    ((entries.kerase key).map fun e => weight e.2).sum + ((entries.dlookup key).map weight).getD 0 =
      (entries.map fun e => weight e.2).sum := by
  induction entries with
  | nil => rfl
  | cons entry entries ih =>
    by_cases hkey : key = entry.1
    · have hlookup : (entry :: entries).dlookup key = some entry.2 := by
        subst hkey
        exact List.dlookup_cons_eq _ _ _
      rw [List.kerase_cons_eq hkey, hlookup]
      simp [Nat.add_comm]
    · rw [List.kerase_cons_ne hkey, List.dlookup_cons_ne _ _ hkey]
      simp only [List.map_cons, List.sum_cons]
      omega

theorem total_insert (weight : ν → Nat) (t : Table κ ν) (key : κ) (value : ν) :
    total weight (t.insert key value) + ((t.lookup key).map weight).getD 0 = total weight t + weight value := by
  have hsum := sum_kerase weight key t.entries
  have hentries : (t.insert key value).entries = ⟨key, value⟩ :: t.entries.kerase key := rfl
  rw [total, total, hentries, List.map_cons, List.sum_cons, ← hsum, AList.lookup]
  simp only
  omega

/-- A change that adds `n` to the weight of every value adds it to the total, where
the default weighs nothing. -/
theorem total_modify {n : Nat} (hdefault : weight default = 0) (hf : ∀ v, weight (f v) = weight v + n)
    (t : Table κ ν) (key : κ) : total weight (modify t key default f) = total weight t + n := by
  have hinsert := total_insert weight t key (f ((t.lookup key).getD default))
  rw [hf] at hinsert
  rw [modify]
  cases hlookup : t.lookup key with
  | none =>
    rw [hlookup] at hinsert
    simp only [Option.getD_none, hdefault, Option.map_none] at hinsert ⊢
    omega
  | some value =>
    rw [hlookup] at hinsert
    simp only [Option.getD_some, Option.map_some] at hinsert ⊢
    omega

theorem total_modifyAll {μ : Type*} {f : μ → ν → ν} {added : μ → Nat} (hdefault : weight default = 0)
    (hf : ∀ change v, weight (f change v) = weight v + added change) (t : Table κ ν)
    (changes : List (Sigma fun _ : κ => μ)) :
    total weight (modifyAll t changes default f) = total weight t + (changes.map fun e => added e.2).sum := by
  induction changes generalizing t with
  | nil => rfl
  | cons change changes ih =>
    show total weight (modifyAll (modify t change.1 default (f change.2)) changes default f) = _
    rw [ih, total_modify hdefault (hf change.2), List.map_cons, List.sum_cons]
    omega

/-! ## First positions -/

/-- The first position of each key of a list, counted from `i`. -/
def firstPositions : Table κ Nat → Nat → List κ → Table κ Nat
  | t, _, [] => t
  | t, i, key :: keys => firstPositions (orInsert t key i) (i + 1) keys

theorem lookup_firstPositions (t : Table κ Nat) (i : Nat) (keys : List κ) (key : κ) :
    (firstPositions t i keys).lookup key =
      (t.lookup key).or (if key ∈ keys then some (i + keys.idxOf key) else none) := by
  induction keys generalizing t i with
  | nil => simp [firstPositions]
  | cons first keys ih =>
    rw [firstPositions, ih, lookup_orInsert, Option.or_assoc]
    congr 1
    by_cases hkey : key = first
    · simp [hkey]
    · have hidx : (first :: keys).idxOf key = keys.idxOf key + 1 := List.idxOf_cons_ne _ (Ne.symm hkey)
      rw [if_neg hkey, Option.none_or, hidx, Nat.add_assoc, Nat.add_comm 1]
      simp only [List.mem_cons, hkey, false_or]

/-- No position but that of the first key is 0. -/
theorem total_firstPositions_succ (t : Table κ Nat) (i : Nat) (keys : List κ) :
    total (fun n => if n = 0 then 1 else 0) (firstPositions t (i + 1) keys) =
      total (fun n => if n = 0 then 1 else 0) t := by
  induction keys generalizing t i with
  | nil => rfl
  | cons key keys ih =>
    rw [firstPositions, ih]
    unfold orInsert
    split
    · rfl
    · rename_i hnew
      have hinsert := total_insert (fun n => if n = 0 then 1 else 0) t key (i + 1)
      simpa [hnew] using hinsert

end Tables
