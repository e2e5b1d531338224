import StSpy.Symbolizer.Zone

/-!
# The backward scan

`Nearest M start pc range`: going down from `pc` in steps of 8, `range` is the
first thing at or above `start` that decodes as a method whose body holds
`pc`. `scanned_eq_some` says the scan finds exactly that in its window.
-/

namespace StSpy

/-- `range` decodes at the nearest aligned address not above `pc` and not
below `start` at which a method with `pc` in its body decodes. -/
structure Nearest (M : Memory) (start pc : UInt64) (range : CogMethodRange) : Prop where
  aligned : range.start.toNat % 8 = 0
  above : start ≤ range.start
  decoded : M.readCogMethodAt range.start = some range
  body : range.Body pc
  first : ∀ x, range.start < x.start → x.start.toNat % 8 = 0 → M.readCogMethodAt x.start = some x →
    ¬x.Body pc

namespace Symbolizer

theorem readCogMethod_eq_some {M : Memory} {addr pc : UInt64} {range : CogMethodRange} :
    readCogMethod M addr pc = some range ↔ M.readCogMethodAt addr = some range ∧ range.Body pc := by
  unfold readCogMethod
  cases hread : M.readCogMethodAt addr with
  | none => simp
  | some r =>
    have hspan := M.readCogMethodAt_span hread
    have hlt := r.stop.toNat_lt
    have hsize : (r.start + cogMethodSize).toNat = r.start.toNat + cogMethodSize.toNat :=
      toNat_add_of_lt (by rw [hspan.start_eq]; have := hspan.header_le; omega)
    have hbody : r.Body pc ↔ ¬(pc < r.start + cogMethodSize ∨ pc ≥ r.stop) := by
      unfold CogMethodRange.Body
      rw [not_or, not_lt, UInt64.le_iff_toNat_le, hsize, ge_iff_le, not_le]
    simp only [Option.bind_eq_bind, Option.bind_some, Option.some.injEq]
    split
    · rename_i h
      simp only [reduceCtorEq, false_iff, not_and]
      rintro rfl hb
      exact hbody.mp hb h
    · rename_i h
      rw [Option.some.injEq]
      exact ⟨fun e => ⟨e, e ▸ hbody.mpr h⟩, And.left⟩

theorem toNat_step {k : Nat} {pc : UInt64} (hk : 8 * k ≤ pc.toNat) : (UInt64.ofNat (8 * k)).toNat = 8 * k :=
  UInt64.toNat_ofNat_of_lt' (Nat.lt_of_le_of_lt hk pc.toNat_lt)

/-- One step of the scan loop, within the window: a hit ends it. -/
theorem scanDown_succ {M : Memory} {pc start stop : UInt64} (hstop : pc ≤ stop) {k : Nat}
    (hk : 8 * (k + 1) ≤ pc.toNat) (hge : start ≤ UInt64.ofNat (8 * (k + 1))) :
    scanDown M pc start stop (k + 1) =
      (readCogMethod M (UInt64.ofNat (8 * (k + 1))) pc).or (scanDown M pc start stop k) := by
  have hcand := toNat_step hk
  have hin : ¬UInt64.ofNat (8 * (k + 1)) - 8 > stop := by
    have h8 : (8 : UInt64).toNat = 8 := rfl
    rw [gt_iff_lt, not_lt, UInt64.le_iff_toNat_le,
      UInt64.toNat_sub_of_le _ _ (by rw [UInt64.le_iff_toNat_le, hcand]; omega), hcand]
    have := UInt64.le_iff_toNat_le.mp hstop
    omega
  conv_lhs => unfold scanDown
  rw [if_pos hge]
  cases readCogMethod M (UInt64.ofNat (8 * (k + 1))) pc with
  | some r => rfl
  | none => exact if_neg hin

/-- Below the window the scan loop has ended. -/
theorem scanDown_below {M : Memory} {pc start stop : UInt64} {k : Nat}
    (hlt : ¬start ≤ UInt64.ofNat (8 * (k + 1))) : scanDown M pc start stop (k + 1) = none := by
  unfold scanDown
  exact if_neg hlt

/-- The scan loop at `8 * k`: the nearest hit at or above `start`. -/
theorem scanDown_eq_some {M : Memory} {pc start stop : UInt64} (hstop : pc ≤ stop)
    {range : CogMethodRange} : ∀ {k : Nat}, 8 * k ≤ pc.toNat →
    (scanDown M pc start stop k = some range ↔
      ∃ j ≤ k, start ≤ UInt64.ofNat (8 * j) ∧ readCogMethod M (UInt64.ofNat (8 * j)) pc = some range ∧
        ∀ i, j < i → i ≤ k → readCogMethod M (UInt64.ofNat (8 * i)) pc = none) := by
  intro k
  induction k with
  | zero =>
    intro _
    unfold scanDown
    constructor
    · intro h
      split at h
      · rename_i h0
        exact ⟨0, le_rfl, h0, h, fun i h1 h2 => by omega⟩
      · cases h
    · rintro ⟨j, hj, hge, hread, _⟩
      obtain rfl : j = 0 := by omega
      rw [if_pos (show (0 : UInt64) ≥ start from hge)]
      exact hread
  | succ k ih =>
    intro hk
    by_cases hge : start ≤ UInt64.ofNat (8 * (k + 1))
    · rw [scanDown_succ hstop hk hge]
      cases hread : readCogMethod M (UInt64.ofNat (8 * (k + 1))) pc with
      | some r =>
        rw [Option.some_or, Option.some.injEq]
        constructor
        · rintro rfl
          exact ⟨k + 1, le_rfl, hge, hread, fun i h1 h2 => by omega⟩
        · rintro ⟨j, hj, _, hr, hnone⟩
          rcases Nat.lt_or_eq_of_le hj with hlt | rfl
          · rw [hnone (k + 1) hlt le_rfl] at hread; cases hread
          · rw [hr] at hread; exact (Option.some.inj hread).symm
      | none =>
        rw [Option.none_or, ih (by omega)]
        constructor
        · rintro ⟨j, hj, h1, h2, h3⟩
          refine ⟨j, by omega, h1, h2, fun i hi hik => ?_⟩
          rcases Nat.lt_or_eq_of_le hik with hlt | rfl
          · exact h3 i hi (by omega)
          · exact hread
        · rintro ⟨j, hj, h1, h2, h3⟩
          rcases Nat.lt_or_eq_of_le hj with hlt | rfl
          · exact ⟨j, by omega, h1, h2, fun i hi hik => h3 i hi (by omega)⟩
          · rw [hread] at h2; cases h2
    · rw [scanDown_below hge]
      simp only [reduceCtorEq, false_iff, not_exists, not_and]
      intro j hj hs
      have hcand := toNat_step hk
      have hjk := toNat_step (show 8 * j ≤ pc.toNat by omega)
      exact absurd (hs.trans (UInt64.le_iff_toNat_le.mpr (by rw [hjk, hcand]; omega))) hge

/-- The scan loop from `pc` finds the nearest method in its window. -/
theorem scanDown_nearest {M : Memory} {pc start stop : UInt64} (hstop : pc ≤ stop) {range : CogMethodRange} :
    scanDown M pc start stop (pc.toNat / 8) = some range ↔ Nearest M start pc range := by
  have hpc8 : 8 * (pc.toNat / 8) ≤ pc.toNat := by omega
  rw [scanDown_eq_some hstop hpc8]
  constructor
  · rintro ⟨j, hj, hge, hread, hnone⟩
    have hjn := toNat_step (show 8 * j ≤ pc.toNat by omega)
    obtain ⟨hat, hbody⟩ := readCogMethod_eq_some.mp hread
    have hstart := (M.readCogMethodAt_span hat).start_eq
    refine ⟨by rw [hstart, hjn]; omega, hstart ▸ hge, by rw [hstart]; exact hat, hbody, ?_⟩
    intro x hx halign hdec hxb
    have hxle := UInt64.le_iff_toNat_le.mp hxb.covers.1
    have hxn : UInt64.ofNat (8 * (x.start.toNat / 8)) = x.start := by
      rw [← UInt64.toNat_inj, toNat_step (show 8 * (x.start.toNat / 8) ≤ pc.toNat by omega)]; omega
    have := hnone (x.start.toNat / 8)
      (by rw [hstart, UInt64.lt_iff_toNat_lt, hjn] at hx; omega) (by omega)
    rw [hxn, readCogMethod_eq_some.mpr ⟨hdec, hxb⟩] at this
    cases this
  · intro hn
    have hle := UInt64.le_iff_toNat_le.mp hn.body.covers.1
    have halign := hn.aligned
    have hjn : UInt64.ofNat (8 * (range.start.toNat / 8)) = range.start := by
      rw [← UInt64.toNat_inj, toNat_step (show 8 * (range.start.toNat / 8) ≤ pc.toNat by omega)]; omega
    refine ⟨range.start.toNat / 8, by omega, by rw [hjn]; exact hn.above,
      by rw [hjn]; exact readCogMethod_eq_some.mpr ⟨hn.decoded, hn.body⟩, fun i hi hik => ?_⟩
    have hin := toNat_step (show 8 * i ≤ pc.toNat by omega)
    rw [Option.eq_none_iff_forall_ne_some]
    intro x hx
    obtain ⟨hat, hxb⟩ := readCogMethod_eq_some.mp hx
    have hstart := (M.readCogMethodAt_span hat).start_eq
    exact hn.first x (by rw [hstart, UInt64.lt_iff_toNat_lt, hin]; omega) (by rw [hstart, hin]; omega)
      (by rw [hstart]; exact hat) hxb

/-- The scan, tried for `pc`, has `range` nearest in its window. -/
def ScanMeets (s : Symbolizer) (M : Memory) (pc : UInt64) (range : CogMethodRange) : Prop :=
  s.scans pc = true ∧ ∃ start stop, s.scanBounds pc = some (start, stop) ∧
    Nearest M (alignDown start) pc range

theorem ScanMeets.decoded {s : Symbolizer} {M : Memory} {pc : UInt64} {range : CogMethodRange}
    (h : s.ScanMeets M pc range) : M.readCogMethodAt range.start = some range := by
  obtain ⟨_, _, _, _, hnear⟩ := h
  exact hnear.decoded

theorem ScanMeets.body {s : Symbolizer} {M : Memory} {pc : UInt64} {range : CogMethodRange}
    (h : s.ScanMeets M pc range) : range.Body pc := by
  obtain ⟨_, _, _, _, hnear⟩ := h
  exact hnear.body

/-- The scan stays below the end of its window. -/
theorem scanBounds_stop {s : Symbolizer} {pc start stop : UInt64}
    (h : s.scanBounds pc = some (start, stop)) (hs : s.scans pc = true) : pc ≤ stop := by
  unfold scanBounds at h
  split at h
  · rename_i map hmap
    cases h
    have := List.find?_some hmap
    simp only [inMap, Bool.and_eq_true, decide_eq_true_eq] at this
    exact le_of_lt this.2
  · obtain ⟨⟨base, freeStart⟩, hb, h⟩ := Option.map_eq_some_iff.mp h
    cases h
    simp only [scans, pcInMethodZone, hb, Option.any_some, Option.isNone_some, Bool.or_false,
      Bool.and_eq_true, decide_eq_true_eq] at hs
    exact le_of_lt hs.2

theorem scanned_eq_some {s : Symbolizer} {M : Memory} {pc : UInt64} {range : CogMethodRange}
    (hs : s.scans pc = true) :
    s.scanned M pc = some range ↔ s.ScanMeets M pc range := by
  simp only [scanned, ScanMeets, hs, true_and, Option.bind_eq_bind, Option.bind_eq_some_iff,
    Prod.exists]
  refine exists_congr fun start => exists_congr fun stop => and_congr_right fun hb => ?_
  exact scanDown_nearest (scanBounds_stop hb hs)

/-! ## What a pc gets without the cache -/

theorem met_eq_some {Z : Symbolizer} {M : Memory} {pc : UInt64} {r : CogMethodRange} :
    Z.met M pc = some r ↔ Z.ScanMeets M pc r := by
  unfold met
  split
  · rename_i hs
    exact scanned_eq_some hs
  · rename_i hs
    exact iff_of_false (fun h => nomatch h) fun h => hs h.1

/-- The answer apart from the cache. -/
def labelOf (Z : Symbolizer) (M : Memory) (pc : UInt64) : Option String :=
  Z.lookupMethodRange pc <|> Z.lookupJitEntrySymbol pc <|> (Z.met M pc).map (·.name) <|>
    Z.genericCogCodeName pc

theorem resolveJitPc_label {s : Symbolizer} {M : Memory} {pc : UInt64} (hc : s.resolvedPcs pc = none)
    (hn : s.lookupMethodRange pc = none) : (s.resolveJitPc M pc).1 = (s.settled M pc).labelOf M pc := by
  have hcases := s.resolveJitPc_cases M pc
  generalize s.resolveJitPc M pc = res at hcases
  obtain ⟨answer, s'⟩ := res
  unfold labelOf
  cases hcases with
  | cached hc' => rw [hc] at hc'; cases hc'
  | known _ hn' => rw [hn] at hn'; cases hn'
  | loaded _ _ _ hu => rw [hu]; rfl
  | entry _ _ hu he => rw [hu, he]; rfl
  | scanned _ _ hu he hr => rw [hu, he, hr]; rfl
  | generic _ _ hu he hr => rw [hu, he, hr]; rfl

theorem resolveJitPc_cached {s : Symbolizer} {M : Memory} {pc : UInt64} {answer : Option String}
    (hc : s.resolvedPcs pc = some answer) : s.resolveJitPc M pc = (answer, s) := by
  unfold resolveJitPc
  rw [hc]

theorem resolveJitPc_known {s : Symbolizer} {M : Memory} {pc : UInt64} {name : String}
    (hc : s.resolvedPcs pc = none) (hn : s.lookupMethodRange pc = some name) :
    (s.resolveJitPc M pc).1 = some name := by
  unfold resolveJitPc
  rw [hc, hn]

end Symbolizer

end StSpy
