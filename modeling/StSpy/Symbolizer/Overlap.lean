import StSpy.Symbolizer.Calls

/-!
# Overlapping ranges

The walk loads ranges that follow each other; the scan inserts whatever header
it finds, and `insert_method_range` compares starts only. The ranges of a run
stay disjoint exactly as long as every range the scan inserts overlaps none it
does not replace (`ScansFit`).
-/

namespace StSpy

open Blocks

namespace Symbolizer

/-- What `lookup_method_range` relies on, and what it then delivers. -/
structure RangesExact (s : Symbolizer) : Prop where
  sorted : SortedRanges s.methodRanges
  disjoint : DisjointRanges s.methodRanges
  lookup : ∀ pc name, s.lookupMethodRange pc = some name ↔
    ∃ x ∈ s.methodRanges, x.Covers pc ∧ x.name = name
  unique : ∀ pc, ∀ x ∈ s.methodRanges, ∀ y ∈ s.methodRanges, x.Covers pc → y.Covers pc → x = y

theorem Inv.rangesExact {s : Symbolizer} (h : s.Inv) (hd : DisjointRanges s.methodRanges) :
    s.RangesExact := by
  have hfind := fun pc x => locate_disjoint h.sorted hd (p := pc) (x := x)
  refine ⟨h.sorted, hd, fun pc name => ?_, fun pc x hx y hy hxp hyp => ?_⟩
  · rw [lookupMethodRange_eq, Option.map_eq_some_iff]
    constructor
    · rintro ⟨x, hx, rfl⟩
      obtain ⟨hmem, hcov⟩ := (hfind pc x).mp hx
      exact ⟨x, hmem, hcov, rfl⟩
    · rintro ⟨x, hmem, hcov, rfl⟩
      exact ⟨x, (hfind pc x).mpr ⟨hmem, hcov⟩, rfl⟩
  · have hx := (hfind pc x).mpr ⟨hx, hxp⟩
    rw [(hfind pc y).mpr ⟨hy, hyp⟩] at hx
    exact (Option.some.inj hx).symm

/-- A refresh keeps ranges disjoint. -/
theorem Inv.refresh_disjoint {s : Symbolizer} (h : s.Inv) (hd : DisjointRanges s.methodRanges)
    (M : Memory) : DisjointRanges (s.refreshMethodZone M).methodRanges := by
  rcases (h.refresh_ranges M).2 with hsame | ⟨_, _, htiled⟩
  · exact hsame ▸ hd
  · exact htiled.disjoint

/-- If resolving `pc` comes to the scan, the method the scan will meet overlaps
no stored range with another start. -/
def ScanFits (s : Symbolizer) (M : Memory) (pc : UInt64) : Prop :=
  let Z := s.settled M pc
  ∀ range, s.resolvedPcs pc = none → s.lookupMethodRange pc = none →
    Z.lookupMethodRange pc = none → Z.lookupJitEntrySymbol pc = none → Z.ScanMeets M pc range →
    ∀ x ∈ Z.methodRanges, x.start ≠ range.start → x.stop ≤ range.start ∨ range.stop ≤ x.start

/-- `ScanFits` at every resolve of a run. -/
def ScansFit (s : Symbolizer) : List (Memory × UInt64) → Prop
  | [] => True
  | r :: rs => s.ScanFits r.1 r.2 ∧ (s.resolve r).ScansFit rs

/-- One resolve keeps ranges disjoint exactly when its scan fits. -/
theorem Inv.resolve_disjoint {s : Symbolizer} (h : s.Inv) (hd : DisjointRanges s.methodRanges)
    (r : Memory × UInt64) : DisjointRanges (s.resolve r).methodRanges ↔ s.ScanFits r.1 r.2 := by
  obtain ⟨M, pc⟩ := r
  have hcases := s.resolveJitPc_cases M pc
  have hset := h.settled M pc
  have hsd : DisjointRanges (s.settled M pc).methodRanges := by
    unfold Symbolizer.settled
    split
    · exact h.refresh_disjoint hd M
    · exact hd
  unfold Symbolizer.resolve
  generalize s.resolveJitPc M pc = res at hcases
  obtain ⟨answer, s'⟩ := res
  cases hcases with
  | cached hc =>
    exact iff_of_true hd fun _ hc' => by rw [hc] at hc'; cases hc'
  | known hc hn =>
    exact iff_of_true hd fun _ _ hn' => by rw [hn] at hn'; cases hn'
  | loaded hc hn hs hu =>
    exact iff_of_true hsd fun _ _ _ hu' => by rw [hu] at hu'; cases hu'
  | entry hc hn hu he =>
    exact iff_of_true hsd fun _ _ _ _ he' => by rw [he] at he'; cases he'
  | generic hc hn hu he hg =>
    refine iff_of_true hsd fun range _ _ _ _ hmeets => ?_
    rw [met_eq_some.mpr hmeets] at hg
    cases hg
  | @scanned range hc hn hu he hr =>
    have hmeets := met_eq_some.mp hr
    have hput := disjoint_put hset.sorted hsd hset.nonempty (M.readCogMethodAt_span hmeets.decoded).lt
    have hins := insertMethodRange_eq hset.sorted range
    show DisjointRanges (insertMethodRange (s.settled M pc).methodRanges range) ↔ _
    rw [hins]
    refine hput.trans ⟨fun hfit range' _ _ _ _ hmeets' => ?_, fun hfit => hfit range hc hn hu he hmeets⟩
    have hfound := met_eq_some.mpr hmeets'
    rw [hr] at hfound
    cases hfound
    exact hfit

/-- Along a run of resolves the ranges stay exact exactly when its scans fit. -/
theorem Inv.resolves_rangesExact {s : Symbolizer} (h : s.Inv) (hd : DisjointRanges s.methodRanges) :
    ∀ rs, (∀ rs', rs' <+: rs → (s.runResolves rs').RangesExact) ↔ s.ScansFit rs := by
  intro rs
  induction rs generalizing s with
  | nil =>
    refine iff_of_true (fun rs' hrs' => ?_) trivial
    rw [List.prefix_nil.mp hrs']
    exact h.rangesExact hd
  | cons r rs ih =>
    have hstep := h.resolve_disjoint hd r
    constructor
    · intro hall
      have hd' : DisjointRanges (s.resolve r).methodRanges := (hall [r] ⟨rs, rfl⟩).disjoint
      exact ⟨hstep.mp hd', (ih (h.resolve r) hd').mp fun rs' hrs' =>
        hall (r :: rs') (List.cons_prefix_cons.mpr ⟨rfl, hrs'⟩)⟩
    · rintro ⟨hfit, hrest⟩ rs' hrs'
      cases rs' with
      | nil => exact h.rangesExact hd
      | cons r' rs' =>
        obtain ⟨heq, htail⟩ := List.cons_prefix_cons.mp hrs'
        subst heq
        exact (ih (h.resolve r') (hstep.mpr hfit)).mpr hrest rs' htail

/-- In every run of calls the ranges are exact after each resolve, those inside
a frame walk included, exactly when every scan fits. -/
theorem rangesExact_iff_scansFit (maps : List MapRange) (binary : Option BinaryInfo)
    (calls : List (Memory × Call)) :
    let s := new maps binary
    let rs := expand s.cogFrameSymbols calls
    s.runCalls calls = s.runResolves rs ∧
      ((∀ rs', rs' <+: rs → (s.runResolves rs').RangesExact) ↔ s.ScansFit rs) :=
  ⟨runCalls_eq _ calls, (Inv.new maps binary).resolves_rangesExact .nil _⟩

/-- A method at 0x1000 whose body holds, at 0x1040, words that read as another
header. -/
def nestedHeaders : Memory :=
  .ofWords [(0x1008, 0x8000000000), (0x1010, 0), (0x1018, 0), (0x1020, 0),
    (0x1048, 0x3000000000), (0x1050, 0), (0x1058, 0), (0x1060, 0)]

def codeMap : MapRange := { start := 0x1000, size := 0x1000, isExec := true, filename := none }

/-- Resolving a pc behind the inner header, then one before it, stores both. -/
theorem nestedHeaders_overlap :
    ¬((new [codeMap] none).runCalls
      [(nestedHeaders, .resolveJitPc 0x1068), (nestedHeaders, .resolveJitPc 0x1030)]).RangesExact := by
  intro h
  exact absurd h.disjoint (by decide +kernel)

end Symbolizer

end StSpy
