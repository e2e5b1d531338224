import StSpy.Symbolizer.Growth
import StSpy.Lib.Loops

/-!
# The loops of the symbolizer

`scan_for_cog_method` counts an address down, `refresh_method_zone` walks one
up. Both are written here as the source has them, turn by turn, and end on
every memory with what `scanDown` and `walkZone` compute. A walk leaves the
cursor where a second refresh has nothing to do.
-/

namespace StSpy

namespace Symbolizer

open Loops

/-! ## The backward scan -/

/-- One turn of the scan loop; `candidate` is its only variable. -/
def scanTurn (M : Memory) (pc start stop candidate : UInt64) : Turn UInt64 (Option CogMethodRange) :=
  if candidate ≥ start then
    match readCogMethod M candidate pc with
    | some range => .exit (some range)
    | none =>
      if candidate < 8 then .exit none
      else if candidate - 8 > stop then .exit none
      else .next (candidate - 8)
  else .exit none

theorem ends_scanDown (M : Memory) (pc start stop : UInt64) {k : Nat} (hk : 8 * k ≤ pc.toNat) :
    Ends (scanTurn M pc start stop) (UInt64.ofNat (8 * k)) (scanDown M pc start stop k) := by
  induction k with
  | zero =>
    refine .exit ?_
    unfold scanTurn scanDown
    have hzero : UInt64.ofNat (8 * 0) = 0 := rfl
    rw [hzero]
    split
    · cases hread : readCogMethod M 0 pc with
      | some range => rfl
      | none => exact if_pos (by decide)
    · rfl
  | succ k ih =>
    have hcand := toNat_step hk
    have h8 : ¬UInt64.ofNat (8 * (k + 1)) < 8 := by
      rw [UInt64.lt_iff_toNat_lt, hcand]
      show ¬8 * (k + 1) < 8
      omega
    have hprev : UInt64.ofNat (8 * (k + 1)) - 8 = UInt64.ofNat (8 * k) := by
      rw [← UInt64.toNat_inj, UInt64.toNat_sub_of_le _ _ (not_lt.mp h8), hcand,
        toNat_step (show 8 * k ≤ pc.toNat by omega)]
      show 8 * (k + 1) - 8 = 8 * k
      omega
    by_cases hge : UInt64.ofNat (8 * (k + 1)) ≥ start
    · cases hread : readCogMethod M (UInt64.ofNat (8 * (k + 1))) pc with
      | some range =>
        refine .exit ?_
        simp only [scanTurn, scanDown, if_pos hge, hread]
      | none =>
        by_cases hout : UInt64.ofNat (8 * k) > stop
        · refine .exit ?_
          simp only [scanTurn, scanDown, if_pos hge, hread, if_neg h8, hprev, if_pos hout]
        · have hturn : scanTurn M pc start stop (UInt64.ofNat (8 * (k + 1))) = .next (UInt64.ofNat (8 * k)) := by
            simp only [scanTurn, if_pos hge, hread, if_neg h8, hprev, if_neg hout]
          have hdown : scanDown M pc start stop (k + 1) = scanDown M pc start stop k := by
            conv_lhs => unfold scanDown
            simp only [if_pos hge, hread, hprev, if_neg hout]
          rw [hdown]
          exact .next hturn (ih (by omega))
    · refine .exit ?_
      simp only [scanTurn, scanDown, if_neg hge]

/-- The scan begins at the pc aligned down. -/
theorem ends_scanTurn (M : Memory) (pc start stop : UInt64) :
    Ends (scanTurn M pc start stop) (alignDown pc) (scanDown M pc start stop (pc.toNat / 8)) := by
  have hpc8 : 8 * (pc.toNat / 8) ≤ pc.toNat := by omega
  have hcandidate : UInt64.ofNat (8 * (pc.toNat / 8)) = alignDown pc := by
    rw [← UInt64.toNat_inj, toNat_step hpc8, alignDown_toNat]
    omega
  rw [← hcandidate]
  exact ends_scanDown M pc start stop hpc8

/-- It ends with a range exactly if that is the nearest around the pc. -/
theorem ends_scanTurn_iff {M : Memory} {pc start stop : UInt64} (hlt : pc < stop) {range : CogMethodRange} :
    Ends (scanTurn M pc start stop) (alignDown pc) (some range) ↔ Nearest M start pc range := by
  have hends := ends_scanTurn M pc start stop
  rw [← scanDown_nearest (le_of_lt hlt)]
  constructor
  · exact fun h => hends.unique h
  · intro hfound
    rw [hfound] at hends
    exact hends

/-- The scan from a pc below the end of its window ends, finds the nearest
method with the pc in its body, and inserts that. -/
theorem scanForCogMethod_complete {s : Symbolizer} {M : Memory} {pc start stop : UInt64}
    (hb : s.scanBounds pc = some (start, stop)) (hlt : pc < stop) :
    ∃ found, Ends (scanTurn M pc (alignDown start) stop) (alignDown pc) found ∧
      (∀ range, found = some range ↔ Nearest M (alignDown start) pc range) ∧
      s.scanForCogMethod M pc = (found.map (·.name), found.elim s s.insertRange) := by
  refine ⟨_, ends_scanTurn M pc (alignDown start) stop, fun range => scanDown_nearest (le_of_lt hlt), ?_⟩
  have hscanned : s.scanned M pc = scanDown M pc (alignDown start) stop (pc.toNat / 8) := by
    unfold scanned
    rw [hb]
    rfl
  unfold scanForCogMethod
  rw [hscanned]
  cases scanDown M pc (alignDown start) stop (pc.toNat / 8) with
  | some range => rfl
  | none => rfl

theorem scanForCogMethod_complete_zoneBefore :
    let s := new [{ start := 0x1000, size := 0x1000, isExec := true, filename := none }] none
    ∃ found, Ends (scanTurn zoneBefore.mem 0x1030 (alignDown 0x1000) 0x2000) (alignDown 0x1030) found ∧
      (∀ range, found = some range ↔ Nearest zoneBefore.mem (alignDown 0x1000) 0x1030 range) ∧
      s.scanForCogMethod zoneBefore.mem 0x1030 = (found.map (·.name), found.elim s s.insertRange) :=
  scanForCogMethod_complete (by decide) (by decide)

/-! ## The method-zone walk -/

/-- One turn of the walk loop over its cursor and the symbolizer. -/
def walkTurn (M : Memory) (freeStart : UInt64) : UInt64 × Symbolizer → Turn (UInt64 × Symbolizer) Symbolizer
  | (cursor, s) =>
    if cursor < freeStart then
      match M.readCogMethodAt cursor with
      | none => .exit { s with methodZoneScanCursor := some cursor, methodZoneBlockedCursor := some cursor }
      | some range =>
        if range.stop ≤ cursor ∨ range.stop > saturatingAdd freeStart 8 then
          .exit { s with methodZoneScanCursor := some cursor, methodZoneBlockedCursor := some cursor }
        else
          .next (range.stop,
            { s with
              methodZoneBlockedCursor := none
              methodRanges := insertMethodRange s.methodRanges range })
    else .exit { s with methodZoneScanCursor := some cursor }

/-- The bound on the turns of `walkZone` is never reached. -/
theorem ends_walkZone (M : Memory) (freeStart : UInt64) {fuel : Nat} {cursor : UInt64} (s : Symbolizer)
    (hfuel : freeStart.toNat - cursor.toNat ≤ fuel) :
    Ends (walkTurn M freeStart) (cursor, s) (walkZone M freeStart fuel cursor s) := by
  induction fuel generalizing cursor s with
  | zero =>
    have hdone : ¬cursor < freeStart := by
      rw [UInt64.lt_iff_toNat_lt]
      omega
    refine .exit ?_
    simp only [walkTurn, walkZone, if_neg hdone]
  | succ fuel ih =>
    by_cases hlt : cursor < freeStart
    · cases hread : M.readCogMethodAt cursor with
      | none =>
        refine .exit ?_
        simp only [walkTurn, walkZone, if_pos hlt, hread]
      | some range =>
        by_cases hguard : range.stop ≤ cursor ∨ range.stop > saturatingAdd freeStart 8
        · refine .exit ?_
          simp only [walkTurn, walkZone, if_pos hlt, hread, if_pos hguard]
        · have hadv : cursor < range.stop := not_le.mp fun h => hguard (.inl h)
          rw [walkZone]
          simp only [if_pos hlt, hread, if_neg hguard]
          refine .next ?_ (ih _ ?_)
          · simp only [walkTurn, if_pos hlt, hread, if_neg hguard]
          · rw [UInt64.lt_iff_toNat_lt] at hadv hlt
            omega
    · refine .exit ?_
      simp only [walkTurn, walkZone, if_neg hlt]

/-- A walk that is begun ends with the state `walkFrom` gives. -/
theorem ends_walkFrom (s : Symbolizer) (M : Memory) (base : UInt64) {freeStart scanStart : UInt64}
    (hlt : scanStart < freeStart) :
    Ends (walkTurn M freeStart) (scanStart, s.adoptBounds M base freeStart)
      (s.walkFrom M base freeStart scanStart) := by
  unfold walkFrom
  rw [if_neg (not_le.mpr hlt)]
  refine ends_walkZone M freeStart _ ?_
  rw [UInt64.toNat_sub_of_le _ _ (le_of_lt hlt)]

/-! ## Refreshing twice -/

/-- A refresh leaves nothing for another one to do. -/
theorem Inv.refresh_refresh {s : Symbolizer} (h : s.Inv) (M : Memory) :
    (s.refreshMethodZone M).refreshMethodZone M = s.refreshMethodZone M := by
  have hcases := s.refreshMethodZone_cases M
  generalize heq : s.refreshMethodZone M = s' at hcases
  cases hcases with
  | unread => exact heq
  | upToDate => exact heq
  | overrun => exact heq
  | resumed hr hb hlt hblocked hw => exact (hw.upToDate hr).refresh
  | grown hr hb hgrow hblocked hw => exact (hw.upToDate hr).refresh
  | moved hr hmoved hw => exact (hw.upToDate (s := s.clearZone) hr).refresh
  | grownBlocked hr hb hgrow hblocked =>
    -- the cursor is known, so it does not depend on the bounds it is read with
    obtain ⟨c, hc, -, -⟩ := h.loaded _ _ hb
    rw [hc, Option.getD_some] at hblocked
    refine UpToDate.refresh (.inr ⟨_, _, hr, rfl, .inr ?_⟩)
    show s.methodZoneBlockedCursor = some (s.methodZoneScanCursor.getD _)
    rw [hc, hblocked, Option.getD_some]

/-- The cursor stands at or above the base, and the walk is past the end there
or blocked there. -/
def CursorKept (s : Symbolizer) : Prop :=
  ∀ base freeStart, s.methodZoneBounds = some (base, freeStart) →
    ∃ c, s.methodZoneScanCursor = some c ∧ base ≤ c ∧ (freeStart ≤ c ∨ s.methodZoneBlockedCursor = some c)

theorem Loaded.cursorKept {s : Symbolizer} (h : s.Loaded) : s.CursorKept := by
  intro base freeStart hb
  obtain ⟨c, hc, hbase, hblocked | ⟨-, hle, -⟩⟩ := h base freeStart hb
  · exact ⟨c, hc, hbase, .inr hblocked⟩
  · exact ⟨c, hc, hbase, .inl hle⟩

/-- A direct call of the two operations, whatever the target's memory is then. -/
inductive MemoryCall where
  | refreshMethodZone (M : Memory)
  | resolveJitPc (M : Memory) (pc : UInt64)

def memoryCall (s : Symbolizer) : MemoryCall → Symbolizer
  | .refreshMethodZone M => s.refreshMethodZone M
  | .resolveJitPc M pc => (s.resolveJitPc M pc).2

theorem Inv.memoryCalls {s : Symbolizer} (h : s.Inv) (calls : List MemoryCall) : (calls.foldl memoryCall s).Inv := by
  induction calls generalizing s with
  | nil => exact h
  | cons c calls ih =>
    cases c with
    | refreshMethodZone M => exact ih (h.refresh M)
    | resolveJitPc M pc => exact ih (h.resolve (M, pc))

/-- In every reachable state the cursor invariant holds, every walk that is
begun ends, and a second refresh changes nothing. -/
theorem refresh_idempotent (maps : List MapRange) (binary : Option BinaryInfo) (calls : List MemoryCall) :
    let s := calls.foldl memoryCall (new maps binary)
    s.CursorKept ∧
      (∀ (M : Memory) (base freeStart scanStart : UInt64), scanStart < freeStart →
        Ends (walkTurn M freeStart) (scanStart, s.adoptBounds M base freeStart)
          (s.walkFrom M base freeStart scanStart)) ∧
      ∀ M : Memory, (s.refreshMethodZone M).refreshMethodZone M = s.refreshMethodZone M := by
  have hinv := (Inv.new maps binary).memoryCalls calls
  exact ⟨hinv.loaded.cursorKept, fun M base _ _ hlt => ends_walkFrom _ M base hlt, hinv.refresh_refresh⟩

end Symbolizer

end StSpy
