import StSpy.Symbolizer.Growth
import StSpy.Symbolizer.Frames

/-!
# A zone that stays as it is

`S` has walked the zone of `Z`. On memories that hold this zone and the same entry
symbols, whatever else in them changes, a symbolizer that has started on this zone
differs from `S` in its cache alone, and what it answers for a pc is a function of
the pc: the method there, else the entry symbol, else the generic label.
-/

namespace StSpy

open Blocks

namespace Symbolizer

variable {symbols : MethodZoneSymbols} {base : UInt64}

/-- The answer apart from the cache and the scan. -/
def listedLabel (S : Symbolizer) (pc : UInt64) : Option String :=
  S.lookupMethodRange pc <|> S.lookupJitEntrySymbol pc <|> S.genericCogCodeName pc

/-- `M` holds the zone and the entry symbols that `S` knows. -/
structure Steady (S : Symbolizer) (Z : ZoneImage symbols base) (M : Memory) : Prop where
  bounds : readMethodZoneBounds M symbols = some (base, Z.freeStart)
  decoded : DecodedIn M Z.methods
  entries : (S.refreshJitEntrySymbols M).jitEntrySymbols = S.jitEntrySymbols

/-- The zone as `M` holds it. -/
def Steady.image {S : Symbolizer} {Z : ZoneImage symbols base} {M : Memory} (h : Steady S Z M) :
    ZoneImage symbols base where
  mem := M
  freeStart := Z.freeStart
  methods := Z.methods
  bounds := h.bounds
  tiled := Z.tiled
  decoded := h.decoded

/-- `s` has not walked the zone yet, or knows it as `S` does. -/
inductive Knows (symbols : MethodZoneSymbols) (S s : Symbolizer) : Prop
  | unwalked (unwalked : Unwalked symbols s) (target : s.SameTarget S) (empty : ∀ pc, s.resolvedPcs pc = none)
  | walked (same : s = { S with resolvedPcs := s.resolvedPcs })
      (cache : ∀ pc answer, s.resolvedPcs pc = some answer → answer = S.listedLabel pc)

variable {S s : Symbolizer} {Z : ZoneImage symbols base} {M : Memory} {pc : UInt64}

theorem eq_of_fields {s t : Symbolizer} (target : s.SameTarget t) (hranges : t.methodRanges = s.methodRanges)
    (hcache : t.resolvedPcs = s.resolvedPcs) (hbounds : t.methodZoneBounds = s.methodZoneBounds)
    (hcursor : t.methodZoneScanCursor = s.methodZoneScanCursor)
    (hblocked : t.methodZoneBlockedCursor = s.methodZoneBlockedCursor)
    (hentries : t.jitEntrySymbols = s.jitEntrySymbols) : t = s := by
  obtain ⟨hmaps, hsymbols, hslots, hframes⟩ := target
  cases s
  cases t
  simp_all

/-! ## The first refresh -/

/-- The entry symbols that a refresh finds depend on the slots, the mappings and
the bounds alone. -/
theorem entries_congr {s t : Symbolizer} (target : s.SameTarget t) (hbounds : t.methodZoneBounds = s.methodZoneBounds)
    (M : Memory) : (t.refreshJitEntrySymbols M).jitEntrySymbols = (s.refreshJitEntrySymbols M).jitEntrySymbols := by
  have hcode : t.pcLooksLikeCogCode = s.pcLooksLikeCogCode := by
    funext pc
    rw [pcLooksLikeCogCode, pcLooksLikeCogCode, target.maps, hbounds]
  simp only [refreshJitEntrySymbols, target.jitEntrySymbolSlots, hcode]

/-- A refresh of a symbolizer that has not walked yet finds the entry symbols of
the memory at hand. -/
theorem Unwalked.refresh_entries (h : Unwalked symbols s) (Z : ZoneImage symbols base) :
    (s.refreshMethodZone Z.mem).jitEntrySymbols =
        ((s.refreshMethodZone Z.mem).refreshJitEntrySymbols Z.mem).jitEntrySymbols ∧
      (s.refreshMethodZone Z.mem).resolvedPcs = fun _ => none := by
  have hread := readBounds_image h.symbols Z
  have hcases := s.refreshMethodZone_cases Z.mem
  generalize s.refreshMethodZone Z.mem = s' at hcases
  cases hcases with
  | unread hr => rw [hread] at hr; cases hr
  | upToDate hr hb => rw [h.bounds] at hb; cases hb
  | resumed hr hb => rw [h.bounds] at hb; cases hb
  | grownBlocked hr hb => rw [h.bounds] at hb; cases hb
  | overrun hr hb => rw [h.bounds] at hb; cases hb
  | grown hr hb => rw [h.bounds] at hb; cases hb
  | moved hr hmoved hw => exact ⟨rfl, rfl⟩

/-- The first refresh makes a symbolizer know the zone. -/
theorem Unwalked.refresh_eq (hS : S.Tracks Z) (h : Unwalked symbols s) (target : s.SameTarget S)
    (hM : Steady S Z M) : s.refreshMethodZone M = { S with resolvedPcs := fun _ => none } := by
  have htracks : (s.refreshMethodZone M).Tracks hM.image := h.refresh hM.image
  obtain ⟨hentries, hcache⟩ := h.refresh_entries hM.image
  have hsame := s.refresh_sameTarget M
  have hboth : (s.refreshMethodZone M).SameTarget S :=
    ⟨target.maps.trans hsame.maps.symm, target.methodZoneSymbols.trans hsame.methodZoneSymbols.symm,
      target.jitEntrySymbolSlots.trans hsame.jitEntrySymbolSlots.symm,
      target.cogFrameSymbols.trans hsame.cogFrameSymbols.symm⟩
  have hbounds : S.methodZoneBounds = (s.refreshMethodZone M).methodZoneBounds := by
    rw [hS.bounds, htracks.bounds]
    rfl
  symm
  refine eq_of_fields ⟨hboth.maps, hboth.methodZoneSymbols, hboth.jitEntrySymbolSlots, hboth.cogFrameSymbols⟩
    (hS.ranges.trans htracks.ranges.symm) hcache.symm hbounds (hS.cursor.trans htracks.cursor.symm)
    (hS.blocked.trans htracks.blocked.symm) ?_
  have hsteady := entries_congr hboth hbounds M
  rw [hM.entries] at hsteady
  exact hsteady.trans hentries.symm

/-! ## Resolving -/

/-- When the ranges are consulted for the last time, they are those of `S`. -/
theorem Knows.settled (hS : S.Tracks Z) (hM : Steady S Z M) (h : Knows symbols S s) (pc : UInt64) :
    s.settled M pc = { S with resolvedPcs := s.resolvedPcs } := by
  unfold Symbolizer.settled
  cases h with
  | unwalked hunwalked target hempty =>
    have hrefresh : s.shouldRefresh pc = true := by rw [shouldRefresh, hunwalked.bounds]
    have hcache : s.resolvedPcs = fun _ => none := funext hempty
    rw [if_pos hrefresh, hunwalked.refresh_eq hS target hM, hcache]
  | walked same =>
    have hread : s.readBounds M = some (base, Z.freeStart) := by
      rw [same]
      exact readBounds_image hS.symbols hM.image
    have hdone : s.UpToDate M := by
      refine .inr ⟨base, Z.freeStart, hread, ?_, .inl ?_⟩
      · rw [same]
        exact hS.bounds
      · rw [same]
        show Z.freeStart ≤ S.methodZoneScanCursor.getD base
        rw [hS.cursor, Option.getD_some]
    rw [hdone.refresh, ite_self]
    exact same

/-- A walked zone leaves nothing to the scan. -/
theorem Knows.met_none (hS : S.Tracks Z) (hn : S.lookupMethodRange pc = none) (cache : UInt64 → Option (Option String)) :
    ({ S with resolvedPcs := cache } : Symbolizer).met M pc = none := by
  have hscans : ({ S with resolvedPcs := cache } : Symbolizer).scans pc = false :=
    Tracks.not_scans (Z := Z) ⟨hS.symbols, hS.bounds, hS.cursor, hS.blocked, hS.ranges⟩ hn
  exact if_neg (by rw [hscans]; exact Bool.false_ne_true)

/-- What is cached for a pc is its label. -/
def Cached (S : Symbolizer) (cache : UInt64 → Option (Option String)) : Prop :=
  ∀ pc answer, cache pc = some answer → answer = S.listedLabel pc

theorem Knows.cached (h : Knows symbols S s) : Cached S s.resolvedPcs := by
  cases h with
  | unwalked _ _ hempty =>
    intro pc answer hanswer
    rw [hempty] at hanswer
    cases hanswer
  | walked _ hcache => exact hcache

theorem Cached.cachePc {cache : UInt64 → Option (Option String)} (h : Cached S cache) {answer : Option String}
    (hanswer : answer = S.listedLabel pc) :
    Knows symbols S (({ S with resolvedPcs := cache } : Symbolizer).cachePc pc answer) := by
  refine .walked rfl fun other found hfound => ?_
  change Function.update cache pc (some answer) other = some found at hfound
  by_cases hother : other = pc
  · subst hother
    rw [Function.update_self] at hfound
    cases hfound
    exact hanswer
  · rw [Function.update_of_ne hother] at hfound
    exact h other found hfound

/-- A pc is answered by its label, and what is known stays so. -/
theorem Knows.resolve (hS : S.Tracks Z) (hM : Steady S Z M) (h : Knows symbols S s) (pc : UInt64) :
    (s.resolveJitPc M pc).1 = S.listedLabel pc ∧ Knows symbols S (s.resolveJitPc M pc).2 := by
  have hset := h.settled hS hM pc
  have hcached := h.cached
  have hcases := s.resolveJitPc_cases M pc
  generalize s.resolveJitPc M pc = res at hcases
  obtain ⟨answer, s'⟩ := res
  cases hcases with
  | cached hc => exact ⟨hcached pc answer hc, h⟩
  | @known name hc hn =>
    cases h with
    | unwalked hunwalked =>
      rw [lookupMethodRange_eq, hunwalked.ranges] at hn
      cases hn
    | walked hsame _ =>
      have hlabel : some name = S.listedLabel pc := by
        rw [hsame] at hn
        rw [listedLabel, show S.lookupMethodRange pc = some name from hn]
        rfl
      rw [hsame]
      exact ⟨hlabel, hcached.cachePc hlabel⟩
  | @loaded name hc hn hs hu =>
    rw [hset] at hu ⊢
    have hlabel : some name = S.listedLabel pc := by
      rw [listedLabel, show S.lookupMethodRange pc = some name from hu]
      rfl
    exact ⟨hlabel, hcached.cachePc hlabel⟩
  | @entry name hc hn hu he =>
    rw [hset] at hu he ⊢
    have hlabel : some name = S.listedLabel pc := by
      rw [listedLabel, show S.lookupMethodRange pc = none from hu,
        show S.lookupJitEntrySymbol pc = some name from he]
      rfl
    exact ⟨hlabel, hcached.cachePc hlabel⟩
  | scanned hc hn hu he hmet =>
    rw [hset] at hu hmet
    rw [Knows.met_none hS hu] at hmet
    cases hmet
  | generic hc hn hu he hmet =>
    rw [hset] at hu he ⊢
    have hlabel : S.genericCogCodeName pc = S.listedLabel pc := by
      rw [listedLabel, show S.lookupMethodRange pc = none from hu, show S.lookupJitEntrySymbol pc = none from he]
      rfl
    exact ⟨hlabel, hcached.cachePc hlabel⟩

/-! ## The frame chain -/

/-- The name of a frame with this method field. -/
def frameLabel (S : Symbolizer) (M : Memory) (heapBase methodField : UInt64) : Option String :=
  if methodField = 0 then none
  else if methodField < heapBase then S.listedLabel (methodField + cogMethodSize)
  else interpretedFrameName M methodField

/-- The names of the chain from the VM's frame pointer. -/
def chainLabels (S : Symbolizer) (M : Memory) : List String :=
  ((do
    let symbols ← S.cogFrameSymbols
    let fp ← M.copyU64 symbols.framePointerAddr
    if fp = 0 then none
    else
      let heapBase ← M.copyU64 symbols.heapBaseAddr
      return (Chains.follow (callerOf M) (methodFieldOf M) cogFrameWalkLimit fp).filterMap
        (S.frameLabel M heapBase)).getD [])

theorem Knows.resolveFrameMethod (hS : S.Tracks Z) (hM : Steady S Z M) (h : Knows symbols S s)
    (methodField heapBase : UInt64) :
    (s.resolveFrameMethod M methodField heapBase).1 = S.frameLabel M heapBase methodField ∧
      Knows symbols S (s.resolveFrameMethod M methodField heapBase).2 := by
  unfold Symbolizer.resolveFrameMethod frameLabel
  split
  · exact ⟨rfl, h⟩
  · split
    · exact h.resolve hS hM _
    · exact ⟨rfl, h⟩

theorem Knows.resolveFields (hS : S.Tracks Z) (hM : Steady S Z M) (h : Knows symbols S s) (heapBase : UInt64)
    (fields : List UInt64) :
    (resolveFields M heapBase fields s).1 = fields.filterMap (S.frameLabel M heapBase) ∧
      Knows symbols S (resolveFields M heapBase fields s).2 := by
  induction fields generalizing s with
  | nil => exact ⟨rfl, h⟩
  | cons methodField fields ih =>
    obtain ⟨hname, hnext⟩ := h.resolveFrameMethod hS hM methodField heapBase
    obtain ⟨hnames, hlast⟩ := ih hnext
    rw [Symbolizer.resolveFields]
    simp only [hname, hnames, List.filterMap_cons]
    refine ⟨?_, hlast⟩
    cases S.frameLabel M heapBase methodField <;> rfl

theorem Knows.cogFrameSymbols (h : Knows symbols S s) : s.cogFrameSymbols = S.cogFrameSymbols := by
  cases h with
  | unwalked _ target => exact target.cogFrameSymbols.symm
  | walked same => rw [same]

/-- The walk gives the labels of the chain. -/
theorem Knows.walkCogFrames (hS : S.Tracks Z) (hM : Steady S Z M) (h : Knows symbols S s) :
    (s.walkCogFrames M).1 = S.chainLabels M ∧ Knows symbols S (s.walkCogFrames M).2 := by
  have hsymbols := h.cogFrameSymbols
  unfold Symbolizer.walkCogFrames chainLabels
  rw [hsymbols]
  cases S.cogFrameSymbols with
  | none => exact ⟨rfl, h⟩
  | some symbols =>
    simp only [Option.bind_eq_bind, Option.bind_some]
    cases M.copyU64 symbols.framePointerAddr with
    | none => exact ⟨rfl, h⟩
    | some fp =>
      simp only [Option.bind_some]
      by_cases hfp : fp = 0
      · rw [if_pos hfp, if_pos hfp]
        exact ⟨rfl, h⟩
      · rw [if_neg hfp, if_neg hfp]
        cases M.copyU64 symbols.heapBaseAddr with
        | none => exact ⟨rfl, h⟩
        | some heapBase =>
          simp only [walkFrames_eq M heapBase cogFrameWalkLimit hfp s]
          exact h.resolveFields hS hM heapBase _

end Symbolizer

end StSpy
