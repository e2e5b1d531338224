import StSpy.Symbolizer.Growth

/-!
# The scan against the walk

The walk follows block sizes from `base`; the scan takes the nearest aligned
address that reads as the header of a method with `pc` in its body. On a zone
the walk gets through, the two give one name exactly when that nearest method
has the name of the one walked over, as it does when no bytes between the
method's start and `pc` read as such a header.
-/

namespace StSpy

open Blocks

namespace Symbolizer

variable {symbols : MethodZoneSymbols} {base : UInt64} {s : Symbolizer} {X : CogMethodRange}
  {pc : UInt64}

/-- In a zone with bounds known the scan is tried. -/
theorem scans_of_mem (Z : ZoneImage symbols base) (hb : s.methodZoneBounds = some (base, Z.freeStart))
    (hX : X ∈ Z.methods) (hcov : X.Covers pc) : s.scans pc = true := by
  have hin := Z.tiled.inside X hX
  have h1 : base ≤ pc := hin.1.trans hcov.1
  have h2 : pc < Z.freeStart := lt_of_lt_of_le hcov.2 hin.2.2
  simp [scans, pcInMethodZone, hb, h1, h2]

theorem scanForCogMethod_name (s : Symbolizer) (M : Memory) (pc : UInt64) :
    (s.scanForCogMethod M pc).1 = (s.scanned M pc).map (·.name) := by
  unfold scanForCogMethod
  cases s.scanned M pc <;> rfl

/-- The scan's name is the walked method's exactly when the method it meets has
that name. -/
theorem scanForCogMethod_eq_walked (Z : ZoneImage symbols base)
    (hb : s.methodZoneBounds = some (base, Z.freeStart)) (hX : X ∈ Z.methods) (hcov : X.Covers pc) :
    (s.scanForCogMethod Z.mem pc).1 = some X.name ↔ ∃ r, s.ScanMeets Z.mem pc r ∧ r.name = X.name := by
  have hs := scans_of_mem Z hb hX hcov
  rw [scanForCogMethod_name, Option.map_eq_some_iff]
  exact exists_congr fun r => and_congr_left fun _ => scanned_eq_some hs

/-- The scan's window reaches down to a method holding `pc` if every mapping of
`pc` does. -/
theorem scanBounds_le (Z : ZoneImage symbols base) (hb : s.methodZoneBounds = some (base, Z.freeStart))
    (hX : X ∈ Z.methods) (hcov : X.Covers pc)
    (hmaps : ∀ map ∈ s.maps, inMap pc map = true → map.start ≤ X.start) :
    ∃ start stop, s.scanBounds pc = some (start, stop) ∧ alignDown start ≤ X.start := by
  have hback : saturatingSub pc cogScanLimit ≤ X.start := by
    have hspan := Z.mem.readCogMethodAt_span (Z.decoded X hX)
    have hlt := UInt64.lt_iff_toNat_lt.mp hcov.2
    have hlimit : cogScanLimit.toNat = 1024 * 1024 := rfl
    rw [UInt64.le_iff_toNat_le, saturatingSub_toNat, hlimit]
    have := hspan.stop_le
    omega
  unfold scanBounds
  cases hfind : s.maps.find? (inMap pc) with
  | some map =>
    have hstart := hmaps map (List.mem_of_find?_eq_some hfind) (List.find?_some hfind)
    exact ⟨_, _, rfl, (alignDown_le _).trans (max_le hback hstart)⟩
  | none =>
    rw [hb]
    exact ⟨_, _, rfl, (alignDown_le _).trans (max_le hback (Z.tiled.inside X hX).1)⟩

/-- The scan meets the method itself when nothing nearer reads as a header. -/
theorem scanMeets_of_first (Z : ZoneImage symbols base)
    (hb : s.methodZoneBounds = some (base, Z.freeStart)) (hX : X ∈ Z.methods) (hbody : X.Body pc)
    (haligned : X.start.toNat % 8 = 0)
    (hmaps : ∀ map ∈ s.maps, inMap pc map = true → map.start ≤ X.start)
    (hfirst : ∀ x, X.start < x.start → x.start.toNat % 8 = 0 →
      Z.mem.readCogMethodAt x.start = some x → ¬x.Body pc) :
    s.ScanMeets Z.mem pc X := by
  obtain ⟨start, stop, hbounds, hle⟩ := scanBounds_le Z hb hX hbody.covers hmaps
  exact ⟨scans_of_mem Z hb hX hbody.covers, start, stop, hbounds, haligned, hle, Z.decoded X hX, hbody,
    hfirst⟩

/-- For a pc in a method's body, the scan gives the name the walk and the lookup
give exactly when the method it meets has that name; so it does for a method
that starts aligned and in the window, with nothing nearer that reads as the
header of a method around `pc`. -/
theorem scan_agrees_walk {maps : List MapRange} {binary : Option BinaryInfo}
    (hsym : (new maps binary).methodZoneSymbols = some symbols) (Z : ZoneImage symbols base)
    (hb : s.methodZoneBounds = some (base, Z.freeStart)) (hX : X ∈ Z.methods) (hbody : X.Body pc) :
    let walked := ((new maps binary).refreshMethodZone Z.mem).lookupMethodRange pc
    let found := (s.scanForCogMethod Z.mem pc).1
    walked = some X.name ∧ (found = walked ↔ ∃ r, s.ScanMeets Z.mem pc r ∧ r.name = X.name) ∧
      (X.start.toNat % 8 = 0 → (∀ map ∈ s.maps, inMap pc map = true → map.start ≤ X.start) →
        (∀ x, X.start < x.start → x.start.toNat % 8 = 0 → Z.mem.readCogMethodAt x.start = some x →
          ¬x.Body pc) → found = walked) := by
  intro walked found
  have hwalked : walked = some X.name := by
    show ((new maps binary).refreshMethodZone Z.mem).lookupMethodRange pc = some X.name
    rw [lookupMethodRange_eq, ((unwalked_new hsym).refresh Z).ranges, Z.locate hX hbody.covers]
    rfl
  have hiff := scanForCogMethod_eq_walked Z hb hX hbody.covers
  refine ⟨hwalked, hwalked ▸ hiff, fun haligned hmaps hfirst => hwalked ▸ hiff.mpr ⟨X, ?_, rfl⟩⟩
  exact scanMeets_of_first Z hb hX hbody haligned hmaps hfirst

theorem scan_agrees_walk_zoneAfter :
    let s := (new [] (some zoneBinary)).refreshMethodZone zoneAfter.mem
    let walked := s.lookupMethodRange 0x1070
    let found := (s.scanForCogMethod zoneAfter.mem 0x1070).1
    walked = some "JIT method>>a" ∧
      (found = walked ↔ ∃ r, s.ScanMeets zoneAfter.mem 0x1070 r ∧ r.name = "JIT method>>a") ∧
      (secondMethod.start.toNat % 8 = 0 →
        (∀ map ∈ s.maps, inMap 0x1070 map = true → map.start ≤ secondMethod.start) →
        (∀ x, secondMethod.start < x.start → x.start.toNat % 8 = 0 →
          zoneAfter.mem.readCogMethodAt x.start = some x → ¬x.Body 0x1070) → found = walked) :=
  scan_agrees_walk (X := secondMethod) rfl zoneAfter (by decide +kernel)
    (List.mem_cons_of_mem _ List.mem_cons_self) ⟨by decide, by decide⟩

/-! ### A body that holds a header -/

def nestedMethod : CogMethodRange := ⟨0x1000, 0x1080, "JIT method>>a"⟩

/-- A zone of one method whose body has, at 0x1040, words that read as the
header of another. -/
def nestedZone : ZoneImage zoneSymbols 0x1000 where
  mem := .ofWords [(0x100, 0x1000), (0x108, 0x1080),
    (0x1008, 0x8000000500), (0x1010, 0), (0x1018, 0), (0x1020, 0x20000),
    (0x1048, 0x3000000000), (0x1050, 0), (0x1058, 0), (0x1060, 0),
    (0x20000, 0x0100000017000000), (0x20008, 0x61)]
  freeStart := 0x1080
  methods := [nestedMethod]
  bounds := by decide
  tiled := by decide
  decoded := by decide +kernel

/-- The scan stops at the words in the body. -/
theorem nestedZone_disagrees :
    ¬∀ (Z : ZoneImage zoneSymbols 0x1000) (s : Symbolizer),
      s.methodZoneBounds = some (0x1000, Z.freeStart) → ∀ X ∈ Z.methods, ∀ pc, X.Body pc →
        (s.scanForCogMethod Z.mem pc).1 =
          ((new [] (some zoneBinary)).refreshMethodZone Z.mem).lookupMethodRange pc := by
  intro h
  have hagree := h nestedZone ((new [] (some zoneBinary)).refreshMethodZone nestedZone.mem)
    (by decide +kernel) nestedMethod List.mem_cons_self 0x1068 ⟨by decide, by decide⟩
  exact absurd hagree (by decide +kernel)

end Symbolizer

end StSpy
