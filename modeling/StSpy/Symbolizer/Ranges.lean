import StSpy.Symbolizer
import StSpy.Lib.BlockMaps

/-!
# The range vector as an ordered block list

On a vector sorted by start, `lookup_method_range` is `Blocks.locate` and
`insert_method_range`, with its two fast paths, is `Blocks.put`. So the vector
is a map from start to range.
-/

namespace StSpy

open Blocks

/-- Ranges strictly increasing in start. -/
abbrev SortedRanges (l : List CogMethodRange) : Prop := Sorted CogMethodRange.start l

/-- Ranges ending where a later one starts, or before. -/
abbrev DisjointRanges (l : List CogMethodRange) : Prop :=
  Disjoint CogMethodRange.start CogMethodRange.stop l

/-- Ranges filling `[a, b)`. -/
abbrev TiledRanges (l : List CogMethodRange) (a b : UInt64) : Prop :=
  Tiles CogMethodRange.start CogMethodRange.stop l a b

abbrev locateRange (pc : UInt64) (l : List CogMethodRange) : Option CogMethodRange :=
  locate CogMethodRange.start CogMethodRange.stop pc l

abbrev putRange (range : CogMethodRange) (l : List CogMethodRange) : List CogMethodRange :=
  put CogMethodRange.start range l

namespace Symbolizer

theorem lookupMethodRange_eq (s : Symbolizer) (pc : UInt64) :
    s.lookupMethodRange pc = (locateRange pc s.methodRanges).map (·.name) := by
  unfold lookupMethodRange locateRange locate partitionPoint
  generalize hl : s.methodRanges = l
  obtain ⟨upper, hup⟩ := List.takeWhile_prefix (l := l) fun range => decide (range.start ≤ pc)
  generalize (l.takeWhile fun range => decide (range.start ≤ pc)) = lower at hup ⊢
  subst hup
  rcases List.eq_nil_or_concat lower with rfl | ⟨lower, last, rfl⟩
  · rfl
  · simp only [List.concat_eq_append, List.length_append, List.length_singleton, List.append_assoc,
      List.getLast?_append, List.getLast?_singleton, Option.some_or, List.getElem?_append_right le_rfl,
      Nat.sub_self, List.singleton_append, List.getElem?_cons_zero]
    by_cases h : pc < last.stop <;> simp [Option.filter, h]

theorem insertIdx_middle {ρ : Type} (r : ρ) (upper : List ρ) :
    ∀ lower : List ρ, (lower ++ upper).insertIdx lower.length r = lower ++ r :: upper
  | [] => rfl
  | x :: lower => congrArg (x :: ·) (insertIdx_middle r upper lower)

theorem insertMethodRange_eq {l : List CogMethodRange} (hs : SortedRanges l) (range : CogMethodRange) :
    insertMethodRange l range = putRange range l := by
  unfold insertMethodRange
  rcases List.eq_nil_or_concat l with rfl | ⟨init, last, rfl⟩
  · rfl
  rw [List.concat_eq_append] at hs ⊢
  have hinit : ∀ x ∈ init, x.start < last.start := fun x hx =>
    (List.pairwise_append.mp hs).2.2 x hx last (by simp)
  simp only [List.getLast?_append, List.getLast?_singleton, Option.some_or, List.dropLast_concat]
  split
  · rename_i heq
    exact (put_replace hs heq).symm
  · split
    · rename_i hlt
      refine (put_append fun x hx => ?_).symm
      rcases List.mem_append.mp hx with hx | hx
      · exact (hinit x hx).trans hlt
      · rwa [List.mem_singleton.mp hx]
    · -- the binary-search path: split the vector at the partition point
      generalize init ++ [last] = l at hs ⊢
      have hlower := fun x => mem_takeWhile_iff (hs.lt_respects range.start) (x := x)
      have hupper := fun x => mem_dropWhile_iff (hs.lt_respects range.start) (x := x)
      simp only [decide_eq_true_eq, decide_eq_false_iff_not, not_lt] at hlower hupper
      have hsplit := List.takeWhile_append_dropWhile
        (p := fun existing : CogMethodRange => decide (existing.start < range.start)) (l := l)
      unfold partitionPoint
      generalize l.takeWhile (fun existing => decide (existing.start < range.start)) = lower at *
      generalize l.dropWhile (fun existing => decide (existing.start < range.start)) = upper at *
      subst hsplit
      cases upper with
      | nil =>
        simp only [List.append_nil, List.getElem?_length, Option.any_none, Bool.false_eq_true, if_false,
          List.insertIdx_length_self]
        exact (put_append fun x hx => ((hlower x).mp hx).2).symm
      | cons x rest =>
        simp only [List.getElem?_append_right le_rfl, Nat.sub_self, List.getElem?_cons_zero,
          Option.any_some, decide_eq_true_eq]
        split
        · rename_i heq
          have hset : (lower ++ x :: rest).set lower.length range = lower ++ range :: rest := by simp
          rw [hset, putRange, put_replace hs heq]
        · rename_i hne
          have hx := lt_of_le_of_ne ((hupper x).mp (by simp)).2 (Ne.symm hne)
          rw [insertIdx_middle, putRange, put_between (fun y hy => ((hlower y).mp hy).2) fun y hy => ?_]
          rcases List.mem_cons.mp hy with rfl | hy
          · exact hx
          · have hrest := (List.pairwise_cons.mp (List.pairwise_append.mp hs).2.1).1
            exact hx.trans (hrest y hy)

theorem sorted_insertMethodRange {l : List CogMethodRange} (hs : SortedRanges l)
    (range : CogMethodRange) : SortedRanges (insertMethodRange l range) :=
  insertMethodRange_eq hs range ▸ sorted_put hs range

theorem mem_insertMethodRange {l : List CogMethodRange} (hs : SortedRanges l)
    {range x : CogMethodRange} :
    x ∈ insertMethodRange l range ↔ x = range ∨ (x ∈ l ∧ x.start ≠ range.start) :=
  insertMethodRange_eq hs range ▸ mem_put hs

/-! ## The vector as a map -/

/-- The range with a given start. -/
abbrev rangeMap (l : List CogMethodRange) : UInt64 → Option CogMethodRange := toMap CogMethodRange.start l

/-- Each range in turn set at its start. -/
def setRanges (m : UInt64 → Option CogMethodRange) (ranges : List CogMethodRange) :
    UInt64 → Option CogMethodRange :=
  ranges.foldl (fun m range => Function.update m range.start (some range)) m

theorem represents_insertMethodRange {l : List CogMethodRange} {m : UInt64 → Option CogMethodRange}
    (h : Represents CogMethodRange.start l m) (range : CogMethodRange) :
    Represents CogMethodRange.start (insertMethodRange l range) (Function.update m range.start (some range)) :=
  insertMethodRange_eq h.sorted range ▸ h.put range

theorem represents_insertions {l : List CogMethodRange} {m : UInt64 → Option CogMethodRange}
    (h : Represents CogMethodRange.start l m) (ranges : List CogMethodRange) :
    Represents CogMethodRange.start (ranges.foldl insertMethodRange l) (setRanges m ranges) := by
  induction ranges generalizing l m with
  | nil => exact h
  | cons range ranges ih => exact ih (represents_insertMethodRange h range)

/-- `lookup_method_range` asks the entry of the greatest start not above the pc. -/
theorem lookupMethodRange_eq_some {s : Symbolizer} {m : UInt64 → Option CogMethodRange}
    (h : Represents CogMethodRange.start s.methodRanges m) {pc : UInt64} {name : String} :
    s.lookupMethodRange pc = some name ↔ ∃ X, IsFloor m pc X ∧ pc < X.stop ∧ X.name = name := by
  simp only [lookupMethodRange_eq, Option.map_eq_some_iff, h.locate_eq_some, and_assoc]

/-- A sorted vector is a map, insertions in any order set its entries, and the
lookup answers from it. -/
theorem rangeVector_refines {l : List CogMethodRange} (hs : SortedRanges l) :
    (∀ range, SortedRanges (insertMethodRange l range) ∧
      rangeMap (insertMethodRange l range) = Function.update (rangeMap l) range.start (some range)) ∧
    (∀ ranges, SortedRanges (ranges.foldl insertMethodRange l) ∧
      rangeMap (ranges.foldl insertMethodRange l) = setRanges (rangeMap l) ranges) ∧
    ∀ (s : Symbolizer) (pc : UInt64) (name : String), s.methodRanges = l →
      (s.lookupMethodRange pc = some name ↔ ∃ X, IsFloor (rangeMap l) pc X ∧ pc < X.stop ∧ X.name = name) := by
  have h : Represents CogMethodRange.start l (rangeMap l) := ⟨hs, rfl⟩
  refine ⟨fun range => ?_, fun ranges => ?_, ?_⟩
  · have hinsert := represents_insertMethodRange h range
    exact ⟨hinsert.sorted, hinsert.toMap_eq⟩
  · have hinsert := represents_insertions h ranges
    exact ⟨hinsert.sorted, hinsert.toMap_eq⟩
  · rintro s pc name rfl
    exact lookupMethodRange_eq_some h

theorem rangeVector_refines_two :
    SortedRanges [⟨0x1000, 0x1040, "a"⟩, ⟨0x1080, 0x10c0, "b"⟩] ∧
    ∀ ranges, SortedRanges (ranges.foldl insertMethodRange [⟨0x1000, 0x1040, "a"⟩, ⟨0x1080, 0x10c0, "b"⟩]) ∧
      rangeMap (ranges.foldl insertMethodRange [⟨0x1000, 0x1040, "a"⟩, ⟨0x1080, 0x10c0, "b"⟩]) =
        setRanges (rangeMap [⟨0x1000, 0x1040, "a"⟩, ⟨0x1080, 0x10c0, "b"⟩]) ranges :=
  ⟨by decide, (rangeVector_refines (by decide)).2.1⟩

end Symbolizer

end StSpy
