import StSpy.Symbolizer.Growth

/-!
# A blocked walk

The walk that stops at a header it cannot load remembers the place in
`method_zone_blocked_cursor`. While the base stays and `free_start` does not
decrease, a refresh adopts the bounds and does not walk, whatever the header has
become; when they move, the walk starts over at the base.
-/

namespace StSpy

open Blocks

namespace Symbolizer

variable {s : Symbolizer} {M : Memory} {base base' before freeStart c : UInt64}

/-- The walk of the zone `[base, before)` stopped at `c`. -/
structure BlockedAt (s : Symbolizer) (base before c : UInt64) : Prop where
  bounds : s.methodZoneBounds = some (base, before)
  blocked : s.methodZoneBlockedCursor = some c

/-- A walk is blocked nowhere but at its cursor. -/
theorem Inv.cursor_of_blocked (h : s.Inv) (hb : s.BlockedAt base before c) : s.methodZoneScanCursor = some c := by
  obtain ⟨c', hcursor, -, hblocked | ⟨hblocked, -, -⟩⟩ := h.loaded _ _ hb.bounds
  · rw [hb.blocked] at hblocked
    rw [hcursor, hblocked]
  · rw [hb.blocked] at hblocked
    cases hblocked

/-- Against the same base and no smaller `free_start` only the bounds change, and
the entry symbols with them. -/
theorem BlockedAt.refresh_eq (h : s.Inv) (hb : s.BlockedAt base before c)
    (hr : s.readBounds M = some (base, freeStart)) (hle : before ≤ freeStart) :
    s.refreshMethodZone M = if before = freeStart then s else s.adoptBounds M base freeStart := by
  obtain ⟨symbols, hsymbols, hread⟩ := Option.bind_eq_some_iff.mp hr
  simp only [refreshMethodZone, hsymbols, hread, hb.bounds, h.cursor_of_blocked hb, hb.blocked,
    Option.getD_some]
  by_cases heq : before = freeStart
  · simp [heq]
  · simp [heq, lt_of_le_of_ne hle heq]

theorem BlockedAt.refresh (h : s.Inv) (hb : s.BlockedAt base before c)
    (hr : s.readBounds M = some (base, freeStart)) (hle : before ≤ freeStart) :
    (s.refreshMethodZone M).BlockedAt base freeStart c ∧
      (s.refreshMethodZone M).methodRanges = s.methodRanges := by
  rw [hb.refresh_eq h hr hle]
  split
  · rename_i heq
    exact ⟨heq ▸ hb, rfl⟩
  · exact ⟨⟨rfl, hb.blocked⟩, rfl⟩

end Symbolizer

end StSpy
