import Mathlib.Order.Defs.LinearOrder
import Mathlib.Data.List.Pairwise
import Mathlib.Data.List.TakeWhile
import Mathlib.Data.List.Sort
import Mathlib.Tactic.Common

/-!
# Half-open blocks over a linear order

A block `x` covers `[lo x, hi x)`. `Tiles l a b`: the blocks of `l` fill
`[a, b)` in order with no gap and no overlap. `locate p l` is the search of an
ordered block list by its lower bounds (the last block starting at or below
`p`, if it reaches past `p`), and `put r l` is insertion by lower bound,
replacing a block with the same one. On lists sorted by `lo` both are
described by membership alone (`locate_eq_some`, `mem_put`).
-/

namespace Blocks

variable {α ρ : Type*} [LinearOrder α] (lo hi : ρ → α)

/-! ## Tilings -/

/-- The blocks of `l` fill `[a, b)`. -/
def Tiles : List ρ → α → α → Prop
  | [], a, b => a = b
  | x :: l, a, b => lo x = a ∧ a < hi x ∧ Tiles l (hi x) b

/-- Every block of `l` is what `dec` reads at its lower bound. -/
def DecodedBy (dec : α → Option ρ) (l : List ρ) : Prop := ∀ x ∈ l, dec (lo x) = some x

omit [LinearOrder α] in
instance [DecidableEq ρ] (dec : α → Option ρ) (l : List ρ) : Decidable (DecodedBy lo dec l) :=
  inferInstanceAs (Decidable (∀ x ∈ l, dec (lo x) = some x))

instance Tiles.decidable : ∀ (l : List ρ) (a b : α), Decidable (Tiles lo hi l a b)
  | [], a, b => inferInstanceAs (Decidable (a = b))
  | x :: l, a, b =>
    have := Tiles.decidable l (hi x) b
    inferInstanceAs (Decidable (lo x = a ∧ a < hi x ∧ Tiles lo hi l (hi x) b))

variable {lo hi}

theorem Tiles.le : ∀ {l : List ρ} {a b : α}, Tiles lo hi l a b → a ≤ b
  | [], _, _, h => le_of_eq h
  | _ :: _, _, _, ⟨_, h1, h2⟩ => (le_of_lt h1).trans h2.le

theorem Tiles.append : ∀ {l m : List ρ} {a b c : α}, Tiles lo hi l a b → Tiles lo hi m b c →
    Tiles lo hi (l ++ m) a c
  | [], _, _, _, _, h, h' => by cases h; exact h'
  | _ :: _, _, _, _, _, ⟨h0, h1, h2⟩, h' => ⟨h0, h1, h2.append h'⟩

/-- Nothing tiles an empty interval. -/
theorem Tiles.eq_nil : ∀ {l : List ρ} {a : α}, Tiles lo hi l a a → l = []
  | [], _, _ => rfl
  | _ :: _, _, ⟨_, h1, h2⟩ => absurd h1 (not_lt.mpr h2.le)

/-- Every block of a tiling is nonempty and inside the tiled interval. -/
theorem Tiles.inside : ∀ {l : List ρ} {a b : α}, Tiles lo hi l a b →
    ∀ x ∈ l, a ≤ lo x ∧ lo x < hi x ∧ hi x ≤ b
  | y :: l, a, b, ⟨h0, h1, h2⟩, x, hx => by
    rcases List.mem_cons.mp hx with rfl | hx
    · exact ⟨h0.ge, h0 ▸ h1, h2.le⟩
    · obtain ⟨i0, i1, i2⟩ := h2.inside x hx
      exact ⟨(le_of_lt h1).trans i0, i1, i2⟩

/-- The blocks of a tiling follow each other. -/
theorem Tiles.pairwise : ∀ {l : List ρ} {a b : α}, Tiles lo hi l a b →
    l.Pairwise fun x y => hi x ≤ lo y
  | [], _, _, _ => List.Pairwise.nil
  | _ :: _, _, _, ⟨_, _, h2⟩ => List.Pairwise.cons (fun y hy => (h2.inside y hy).1) h2.pairwise

/-- Every point of the tiled interval is in some block. -/
theorem Tiles.cover : ∀ {l : List ρ} {a b p : α}, Tiles lo hi l a b → a ≤ p → p < b →
    ∃ x ∈ l, lo x ≤ p ∧ p < hi x
  | [], _, _, _, h, h1, h2 => absurd (h.symm ▸ h2) (not_lt.mpr h1)
  | x :: l, a, b, p, ⟨h0, h1, h2⟩, h3, h4 => by
    rcases lt_or_ge p (hi x) with hp | hp
    · exact ⟨x, List.mem_cons_self, h0.le.trans h3, hp⟩
    · obtain ⟨y, hy, h⟩ := h2.cover hp h4
      exact ⟨y, List.mem_cons_of_mem _ hy, h⟩

omit [LinearOrder α] in
theorem DecodedBy.nil {dec : α → Option ρ} : DecodedBy lo dec [] := fun _ h => nomatch h

omit [LinearOrder α] in
theorem DecodedBy.cons {dec : α → Option ρ} {x : ρ} {l : List ρ} (hx : dec (lo x) = some x)
    (hl : DecodedBy lo dec l) : DecodedBy lo dec (x :: l) := fun y hy => by
  rcases List.mem_cons.mp hy with rfl | hy
  · exact hx
  · exact hl y hy

/-- Two tilings from one point, read by one decoder: the longer extends the
shorter. -/
theorem Tiles.extend {dec : α → Option ρ} : ∀ {l m : List ρ} {a b c : α},
    Tiles lo hi l a b → Tiles lo hi m a c → DecodedBy lo dec l → DecodedBy lo dec m → b ≤ c →
    ∃ n, m = l ++ n ∧ Tiles lo hi n b c
  | [], m, _, _, _, h, hm, _, _, _ => ⟨m, rfl, by cases h; exact hm⟩
  | x :: l, [], a, b, c, ⟨_, h1, h2⟩, hm, _, _, hbc => by
    cases hm
    exact absurd (h2.le.trans hbc) (not_le.mpr h1)
  | x :: l, y :: m, a, b, c, ⟨h0, _, h2⟩, ⟨k0, _, k2⟩, hl, hm, hbc => by
    have hxy : x = y := by
      have hx := hl x List.mem_cons_self
      have hy := hm y List.mem_cons_self
      rw [h0] at hx
      rw [k0, hx] at hy
      exact Option.some.inj hy
    subst hxy
    obtain ⟨n, rfl, hn⟩ := h2.extend k2 (fun z hz => hl z (List.mem_cons_of_mem _ hz))
      (fun z hz => hm z (List.mem_cons_of_mem _ hz)) hbc
    exact ⟨n, rfl, hn⟩

/-! ## Lists sorted by lower bound -/

variable (lo hi)

/-- Strictly increasing lower bounds. -/
def Sorted (l : List ρ) : Prop := l.Pairwise fun x y => lo x < lo y

/-- Each block ends where a later one starts, or before. -/
def Disjoint (l : List ρ) : Prop := l.Pairwise fun x y => hi x ≤ lo y

instance (l : List ρ) : Decidable (Sorted lo l) :=
  inferInstanceAs (Decidable (l.Pairwise fun x y => lo x < lo y))

instance (l : List ρ) : Decidable (Disjoint lo hi l) :=
  inferInstanceAs (Decidable (l.Pairwise fun x y => hi x ≤ lo y))

/-- The last block starting at or below `p`, if it covers `p`. -/
def locate (p : α) (l : List ρ) : Option ρ :=
  (l.takeWhile (fun x => lo x ≤ p)).getLast?.filter (fun x => p < hi x)

/-- Insert `r` by its lower bound, replacing the block that has it. -/
def put (r : ρ) (l : List ρ) : List ρ :=
  l.takeWhile (fun x => lo x < lo r) ++ r :: l.dropWhile (fun x => lo x ≤ lo r)

variable {lo hi}

theorem Tiles.disjoint {l : List ρ} {a b : α} (h : Tiles lo hi l a b) : Disjoint lo hi l := h.pairwise

theorem Tiles.sorted {l : List ρ} {a b : α} (h : Tiles lo hi l a b) : Sorted lo l :=
  h.pairwise.imp_of_mem fun hx _ hxy => lt_of_lt_of_le (h.inside _ hx).2.1 hxy

/-- On a list whose order respects `q` (once false, false from there on),
`takeWhile` keeps exactly the elements satisfying `q`. -/
theorem mem_takeWhile_iff {q : ρ → Bool} : ∀ {l : List ρ},
    l.Pairwise (fun x y => q y = true → q x = true) → ∀ {x}, x ∈ l.takeWhile q ↔ x ∈ l ∧ q x = true
  | [], _, x => by simp
  | y :: l, h, x => by
    obtain ⟨hy, hl⟩ := List.pairwise_cons.mp h
    by_cases hq : q y = true
    · rw [List.takeWhile_cons_of_pos hq, List.mem_cons, mem_takeWhile_iff hl, List.mem_cons]
      constructor
      · rintro (rfl | ⟨h1, h2⟩)
        · exact ⟨.inl rfl, hq⟩
        · exact ⟨.inr h1, h2⟩
      · rintro ⟨rfl | h1, h2⟩
        · exact .inl rfl
        · exact .inr ⟨h1, h2⟩
    · rw [List.takeWhile_cons_of_neg hq]
      simp only [List.not_mem_nil, List.mem_cons, false_iff, not_and]
      rintro (rfl | hx) hqx
      · exact hq hqx
      · exact hq (hy x hx hqx)

/-- ... and `dropWhile` keeps exactly the others. -/
theorem mem_dropWhile_iff {q : ρ → Bool} : ∀ {l : List ρ},
    l.Pairwise (fun x y => q y = true → q x = true) → ∀ {x}, x ∈ l.dropWhile q ↔ x ∈ l ∧ q x = false
  | [], _, x => by simp
  | y :: l, h, x => by
    obtain ⟨hy, hl⟩ := List.pairwise_cons.mp h
    by_cases hq : q y = true
    · rw [List.dropWhile_cons_of_pos hq, mem_dropWhile_iff hl, List.mem_cons]
      constructor
      · rintro ⟨h1, h2⟩
        exact ⟨.inr h1, h2⟩
      · rintro ⟨rfl | h1, h2⟩
        · rw [hq] at h2; cases h2
        · exact ⟨h1, h2⟩
    · rw [List.dropWhile_cons_of_neg hq, List.mem_cons]
      constructor
      · rintro (rfl | hx)
        · exact ⟨.inl rfl, by simpa using hq⟩
        · exact ⟨.inr hx, by simpa using fun hqx => hq (hy x hx hqx)⟩
      · exact And.left

theorem Sorted.le_respects {l : List ρ} (hs : Sorted lo l) (p : α) :
    l.Pairwise fun x y => decide (lo y ≤ p) = true → decide (lo x ≤ p) = true :=
  hs.imp fun hxy h => by simpa using (le_of_lt hxy).trans (by simpa using h)

theorem Sorted.lt_respects {l : List ρ} (hs : Sorted lo l) (p : α) :
    l.Pairwise fun x y => decide (lo y < p) = true → decide (lo x < p) = true :=
  hs.imp fun hxy h => by simpa using hxy.trans (by simpa using h)

/-- Two elements of a pairwise related list are equal or related one way. -/
theorem pairwise_cases {R : ρ → ρ → Prop} {l : List ρ} (h : l.Pairwise R) {x y : ρ} (hx : x ∈ l)
    (hy : y ∈ l) : x = y ∨ R x y ∨ R y x := by
  have : Std.Symm fun x y => R x y ∨ R y x := ⟨fun _ _ => Or.symm⟩
  by_cases he : x = y
  · exact .inl he
  · exact .inr ((h.imp (S := fun x y => R x y ∨ R y x) .inl).forall hx hy he)

theorem Sorted.inj {l : List ρ} (hs : Sorted lo l) {x y : ρ} (hx : x ∈ l) (hy : y ∈ l)
    (h : lo x = lo y) : x = y := by
  rcases pairwise_cases hs hx hy with he | hlt | hlt
  · exact he
  · exact absurd hlt (not_lt.mpr h.ge)
  · exact absurd hlt (not_lt.mpr h.le)

/-- A sorted list is determined by its members. -/
theorem Sorted.ext {l m : List ρ} (hl : Sorted lo l) (hm : Sorted lo m) (h : ∀ x, x ∈ l ↔ x ∈ m) :
    l = m := by
  have : Std.Irrefl fun x y : ρ => lo x < lo y := ⟨fun x => lt_irrefl (lo x)⟩
  have : Std.Antisymm fun x y : ρ => lo x < lo y := ⟨fun _ _ h1 h2 => absurd h1 (not_lt_of_gt h2)⟩
  exact List.Pairwise.eq_of_mem_iff hl hm h

/-- Of the blocks starting at or below `p` one starts last. -/
theorem exists_last_le {p : α} : ∀ {l : List ρ}, (∃ x ∈ l, lo x ≤ p) →
    ∃ y ∈ l, lo y ≤ p ∧ ∀ z ∈ l, lo z ≤ p → lo z ≤ lo y := by
  intro l
  induction l with
  | nil => rintro ⟨x, hx, _⟩; cases hx
  | cons w l ih =>
    intro h
    by_cases hl : ∃ x ∈ l, lo x ≤ p
    · obtain ⟨y, hy, hyp, hmax⟩ := ih hl
      by_cases hw : lo w ≤ p ∧ lo y ≤ lo w
      · refine ⟨w, List.mem_cons_self, hw.1, fun z hz hzp => ?_⟩
        rcases List.mem_cons.mp hz with rfl | hz
        · exact le_rfl
        · exact (hmax z hz hzp).trans hw.2
      · refine ⟨y, List.mem_cons_of_mem _ hy, hyp, fun z hz hzp => ?_⟩
        rcases List.mem_cons.mp hz with rfl | hz
        · exact le_of_lt (not_le.mp fun hyz => hw ⟨hzp, hyz⟩)
        · exact hmax z hz hzp
    · obtain ⟨x, hx, hxp⟩ := h
      rcases List.mem_cons.mp hx with rfl | hx
      · refine ⟨x, List.mem_cons_self, hxp, fun z hz hzp => ?_⟩
        rcases List.mem_cons.mp hz with rfl | hz
        · exact le_rfl
        · exact absurd ⟨z, hz, hzp⟩ hl
      · exact absurd ⟨x, hx, hxp⟩ hl

/-! ## Searching -/

/-- On a sorted list the last block of those starting at or below `p` has the
greatest lower bound of them. -/
theorem getLast?_takeWhile_eq_some {l : List ρ} (hs : Sorted lo l) {p : α} {x : ρ} :
    (l.takeWhile fun y => decide (lo y ≤ p)).getLast? = some x ↔
      x ∈ l ∧ lo x ≤ p ∧ ∀ y ∈ l, lo y ≤ p → lo y ≤ lo x := by
  have hmem := fun y => mem_takeWhile_iff (hs.le_respects p) (x := y)
  simp only [decide_eq_true_eq] at hmem
  have hsub := hs.sublist (List.takeWhile_sublist (fun y => decide (lo y ≤ p)))
  constructor
  · intro hlast
    obtain ⟨ys, hys⟩ := List.getLast?_eq_some_iff.mp hlast
    have hx := (hmem x).mp (by rw [hys]; simp)
    refine ⟨hx.1, hx.2, fun y hy hyp => ?_⟩
    have hy' := (hmem y).mpr ⟨hy, hyp⟩
    rw [hys] at hy' hsub
    rcases List.mem_append.mp hy' with hy' | hy'
    · exact le_of_lt ((List.pairwise_append.mp hsub).2.2 y hy' x (by simp))
    · rw [List.mem_singleton.mp hy']
  · rintro ⟨hx, hxp, hmax⟩
    have hx' := (hmem x).mpr ⟨hx, hxp⟩
    have hne : l.takeWhile (fun y => decide (lo y ≤ p)) ≠ [] := List.ne_nil_of_mem hx'
    have hz := (hmem _).mp (List.getLast_mem hne)
    rw [List.getLast?_eq_some_getLast hne, Option.some.injEq]
    refine (hs.inj hx hz.1 (le_antisymm ?_ (hmax _ hz.1 hz.2))).symm
    rw [← List.dropLast_append_getLast hne] at hx' hsub
    rcases List.mem_append.mp hx' with hx' | hx'
    · exact le_of_lt ((List.pairwise_append.mp hsub).2.2 x hx' _ (by simp))
    · exact le_of_eq (congrArg lo (List.mem_singleton.mp hx'))

/-- On a sorted list `locate` finds the block with the greatest lower bound
not above `p`, when that one covers `p`. -/
theorem locate_eq_some {l : List ρ} (hs : Sorted lo l) {p : α} {x : ρ} :
    locate lo hi p l = some x ↔
      x ∈ l ∧ lo x ≤ p ∧ p < hi x ∧ ∀ y ∈ l, lo y ≤ p → lo y ≤ lo x := by
  rw [locate, Option.filter_eq_some_iff, getLast?_takeWhile_eq_some hs, decide_eq_true_eq]
  constructor
  · rintro ⟨⟨hx, hxp, hmax⟩, hp⟩
    exact ⟨hx, hxp, hp, hmax⟩
  · rintro ⟨hx, hxp, hp, hmax⟩
    exact ⟨⟨hx, hxp, hmax⟩, hp⟩

/-- On a sorted list of disjoint blocks `locate` finds the block covering `p`. -/
theorem locate_disjoint {l : List ρ} (hs : Sorted lo l) (hd : Disjoint lo hi l) {p : α} {x : ρ} :
    locate lo hi p l = some x ↔ x ∈ l ∧ lo x ≤ p ∧ p < hi x := by
  rw [locate_eq_some hs]
  refine ⟨fun ⟨h1, h2, h3, _⟩ => ⟨h1, h2, h3⟩, fun ⟨h1, h2, h3⟩ => ⟨h1, h2, h3, fun y hy hyp => ?_⟩⟩
  rcases pairwise_cases (hs.and hd) h1 hy with rfl | ⟨_, h⟩ | ⟨h, _⟩
  · exact le_rfl
  · exact absurd (h.trans hyp) (not_le.mpr h3)
  · exact le_of_lt h

/-- In a tiling `locate` finds a block at exactly the points tiled. -/
theorem Tiles.locate {l : List ρ} {a b p : α} (h : Tiles lo hi l a b) (ha : a ≤ p) (hb : p < b) :
    ∃ x ∈ l, lo x ≤ p ∧ p < hi x ∧ Blocks.locate lo hi p l = some x := by
  obtain ⟨x, hx, h1, h2⟩ := h.cover ha hb
  exact ⟨x, hx, h1, h2, (locate_disjoint h.sorted h.disjoint).mpr ⟨hx, h1, h2⟩⟩

/-- Searching looks at the bounds only. -/
theorem locate_map {p : α} {g : ρ → ρ} (hlo : ∀ x, lo (g x) = lo x) (hhi : ∀ x, hi (g x) = hi x)
    (l : List ρ) : Blocks.locate lo hi p (l.map g) = (Blocks.locate lo hi p l).map g := by
  have htake : (l.map g).takeWhile (fun x => decide (lo x ≤ p)) =
      (l.takeWhile fun x => decide (lo x ≤ p)).map g := by
    rw [List.takeWhile_map]
    simp only [Function.comp_def, hlo]
  unfold Blocks.locate
  rw [htake, List.getLast?_map, Option.filter_map]
  simp only [Function.comp_def, hhi]

/-! ## Insertion -/

theorem mem_put {l : List ρ} (hs : Sorted lo l) {r y : ρ} :
    y ∈ put lo r l ↔ y = r ∨ (y ∈ l ∧ lo y ≠ lo r) := by
  have h1 := mem_takeWhile_iff (hs.lt_respects (lo r)) (x := y)
  have h2 := mem_dropWhile_iff (hs.le_respects (lo r)) (x := y)
  simp only [decide_eq_true_eq, decide_eq_false_iff_not, not_le] at h1 h2
  simp only [put, List.mem_append, List.mem_cons, h1, h2, ne_iff_lt_or_gt]
  tauto

theorem sorted_put {l : List ρ} (hs : Sorted lo l) (r : ρ) : Sorted lo (put lo r l) := by
  have h1 := fun x => mem_takeWhile_iff (hs.lt_respects (lo r)) (x := x)
  have h2 := fun x => mem_dropWhile_iff (hs.le_respects (lo r)) (x := x)
  simp only [decide_eq_true_eq, decide_eq_false_iff_not, not_le] at h1 h2
  refine List.pairwise_append.mpr ⟨hs.sublist (List.takeWhile_sublist _), List.pairwise_cons.mpr
    ⟨fun y hy => ((h2 y).mp hy).2, hs.sublist (List.dropWhile_sublist _)⟩, fun x hx y hy => ?_⟩
  have hx := ((h1 x).mp hx).2
  rcases List.mem_cons.mp hy with rfl | hy
  · exact hx
  · exact hx.trans ((h2 y).mp hy).2

/-- Insertion between the blocks below and those above. -/
theorem put_between {lower upper : List ρ} {r : ρ} (hl : ∀ x ∈ lower, lo x < lo r)
    (hu : ∀ x ∈ upper, lo r < lo x) : put lo r (lower ++ upper) = lower ++ r :: upper := by
  have h1 : upper.takeWhile (fun x => decide (lo x < lo r)) = [] := by
    cases upper with
    | nil => rfl
    | cons y upper => exact List.takeWhile_cons_of_neg (by simpa using le_of_lt (hu y (by simp)))
  have h2 : upper.dropWhile (fun x => decide (lo x ≤ lo r)) = upper := by
    cases upper with
    | nil => rfl
    | cons y upper => exact List.dropWhile_cons_of_neg (by simpa using hu y (by simp))
  rw [put, List.takeWhile_append_of_pos (fun x hx => by simpa using hl x hx),
    List.dropWhile_append_of_pos (fun x hx => by simpa using le_of_lt (hl x hx)), h1, h2,
    List.append_nil]

/-- Insertion at the lower bound of a block replaces it. -/
theorem put_replace {lower rest : List ρ} {r x : ρ} (hs : Sorted lo (lower ++ x :: rest))
    (h : lo x = lo r) : put lo r (lower ++ x :: rest) = lower ++ r :: rest := by
  obtain ⟨hl, hxr, hc⟩ := List.pairwise_append.mp hs
  obtain ⟨hx, hrest⟩ := List.pairwise_cons.mp hxr
  refine (sorted_put hs r).ext ?_ fun y => ?_
  · refine List.pairwise_append.mpr ⟨hl, List.pairwise_cons.mpr ⟨fun y hy => h ▸ hx y hy, hrest⟩,
      fun y hy z hz => ?_⟩
    rcases List.mem_cons.mp hz with rfl | hz
    · exact h ▸ hc y hy x (by simp)
    · exact hc y hy z (List.mem_cons_of_mem _ hz)
  · rw [mem_put hs]
    simp only [List.mem_append, List.mem_cons]
    constructor
    · rintro (rfl | ⟨hy | rfl | hy, hne⟩)
      · exact .inr (.inl rfl)
      · exact .inl hy
      · exact absurd h hne
      · exact .inr (.inr hy)
    · rintro (hy | rfl | hy)
      · exact .inr ⟨.inl hy, ne_of_lt (h ▸ hc y hy x (by simp))⟩
      · exact .inl rfl
      · exact .inr ⟨.inr (.inr hy), ne_of_gt (h ▸ hx y hy)⟩

/-- Insertion above every lower bound appends. -/
theorem put_append {l : List ρ} {r : ρ} (h : ∀ x ∈ l, lo x < lo r) : put lo r l = l ++ [r] := by
  have hput : put lo r (l ++ []) = l ++ [r] := put_between h (by simp)
  rwa [List.append_nil] at hput

/-- A disjoint list stays disjoint exactly when the new block overlaps none of
the blocks it does not replace. -/
theorem disjoint_put {l : List ρ} (hs : Sorted lo l) (hd : Disjoint lo hi l)
    (hne : ∀ x ∈ l, lo x < hi x) {r : ρ} (hr : lo r < hi r) :
    Disjoint lo hi (put lo r l) ↔ ∀ x ∈ l, lo x ≠ lo r → hi x ≤ lo r ∨ hi r ≤ lo x := by
  have hps := sorted_put hs r
  constructor
  · intro hput x hx hxr
    have hxp := (mem_put hs (r := r)).mpr (.inr ⟨hx, hxr⟩)
    rcases pairwise_cases hput hxp ((mem_put hs).mpr (.inl rfl)) with rfl | h | h
    · exact absurd rfl hxr
    · exact .inl h
    · exact .inr h
  · intro h
    refine (List.Pairwise.and_mem.mp hps).imp fun {x y} ⟨hxp, hyp, hxy⟩ => ?_
    rcases (mem_put hs).mp hxp with rfl | ⟨hx, hxr⟩ <;> rcases (mem_put hs).mp hyp with rfl | ⟨hy, hyr⟩
    · exact absurd hxy (lt_irrefl _)
    · rcases h y hy hyr with h' | h'
      · exact absurd (hxy.trans ((hne y hy).trans_le h')) (lt_irrefl _)
      · exact h'
    · rcases h x hx hxr with h' | h'
      · exact h'
      · exact absurd ((hr.trans_le h').trans hxy) (lt_irrefl _)
    · rcases pairwise_cases hd hx hy with rfl | h' | h'
      · exact absurd hxy (lt_irrefl _)
      · exact h'
      · exact absurd ((hxy.trans (hne y hy)).trans_le h') (lt_irrefl _)

end Blocks
