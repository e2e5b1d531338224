import StSpy.Symbolizer.Calls

/-!
# A zone that only grows

`ZoneImage`: a memory whose method zone is a gap-free sequence of decodable
methods ending at `free_start`. `Grows`: the later zone keeps the methods of
the earlier one. Along growing images the symbolizer's ranges are always the
methods of some earlier image (`Follows`), so walking on from the cursor gives
what a walk from scratch gives, and a pc not asked for before the zone reached
it gets its method's name.
-/

namespace StSpy

open Blocks

/-- A memory whose zone starts at `base` and is tiled by `methods`. A zone that
`read_method_zone_bounds` rejects is none: one that is still empty, or above 512 MiB. -/
structure ZoneImage (symbols : MethodZoneSymbols) (base : UInt64) where
  mem : Memory
  freeStart : UInt64
  methods : List CogMethodRange
  bounds : Symbolizer.readMethodZoneBounds mem symbols = some (base, freeStart)
  tiled : TiledRanges methods base freeStart
  decoded : DecodedIn mem methods

namespace ZoneImage

variable {symbols : MethodZoneSymbols} {base : UInt64}

/-- `free_start` has not decreased and what was below it still decodes as it
did: the methods' bytes and the heap objects they refer to are as before. -/
structure Grows (Z Z' : ZoneImage symbols base) : Prop where
  freeStart_le : Z.freeStart ≤ Z'.freeStart
  kept : DecodedIn Z'.mem Z.methods

theorem Grows.refl (Z : ZoneImage symbols base) : Z.Grows Z := ⟨le_rfl, Z.decoded⟩

/-- The methods of a grown zone are the earlier ones and more behind them. -/
theorem Grows.methods {Z Z' : ZoneImage symbols base} (h : Z.Grows Z') :
    ∃ more, Z'.methods = Z.methods ++ more ∧ TiledRanges more Z.freeStart Z'.freeStart ∧
      DecodedIn Z'.mem more := by
  obtain ⟨more, heq, ht⟩ := Z.tiled.extend Z'.tiled h.kept Z'.decoded h.freeStart_le
  exact ⟨more, heq, ht, fun x hx => Z'.decoded x (heq ▸ List.mem_append_right _ hx)⟩

theorem Grows.mem_methods {Z Z' : ZoneImage symbols base} (h : Z.Grows Z') {X : CogMethodRange}
    (hX : X ∈ Z.methods) : X ∈ Z'.methods := by
  obtain ⟨more, heq, _⟩ := h.methods
  exact heq ▸ List.mem_append_left _ hX

theorem Grows.trans {Z Z' Z'' : ZoneImage symbols base} (h : Z.Grows Z') (h' : Z'.Grows Z'') :
    Z.Grows Z'' :=
  ⟨h.freeStart_le.trans h'.freeStart_le, fun x hx => h'.kept x (h.mem_methods hx)⟩

/-- A pc of the zone is found in its methods, and only there. -/
theorem locate (Z : ZoneImage symbols base) {X : CogMethodRange} {pc : UInt64} (hX : X ∈ Z.methods)
    (hcov : X.Covers pc) : locateRange pc Z.methods = some X :=
  (locate_disjoint Z.tiled.sorted Z.tiled.disjoint).mpr ⟨hX, hcov⟩

/-- A method of the grown zone that covers a pc of the earlier one was there. -/
theorem Grows.mem_earlier {Z Z' : ZoneImage symbols base} (h : Z.Grows Z') {X : CogMethodRange}
    {pc : UInt64} (hX : X ∈ Z'.methods) (hcov : X.Covers pc) (hpc : pc < Z.freeStart) : X ∈ Z.methods := by
  have hbase : base ≤ pc := (Z'.tiled.inside X hX).1.trans hcov.1
  obtain ⟨x, hx, h1, h2, _⟩ := Z.tiled.locate hbase hpc
  have hsame := Z'.locate (h.mem_methods hx) ⟨h1, h2⟩
  rw [Z'.locate hX hcov] at hsame
  exact Option.some.inj hsame ▸ hx

end ZoneImage

/-- A direct call of the two operations on the zone. -/
inductive ZoneCall where
  | refreshMethodZone
  | resolveJitPc (pc : UInt64)
  deriving DecidableEq

namespace Symbolizer

variable {symbols : MethodZoneSymbols} {base : UInt64}

def zoneCall (s : Symbolizer) : ZoneImage symbols base × ZoneCall → Symbolizer
  | (Z, .refreshMethodZone) => s.refreshMethodZone Z.mem
  | (Z, .resolveJitPc pc) => s.resolve (Z.mem, pc)

def runZone (s : Symbolizer) (calls : List (ZoneImage symbols base × ZoneCall)) : Symbolizer :=
  calls.foldl zoneCall s

/-- `s` has walked the whole zone of `Z`, and nothing else is in its ranges. -/
structure Tracks (s : Symbolizer) (Z : ZoneImage symbols base) : Prop where
  symbols : s.methodZoneSymbols = some symbols
  bounds : s.methodZoneBounds = some (base, Z.freeStart)
  cursor : s.methodZoneScanCursor = some Z.freeStart
  blocked : s.methodZoneBlockedCursor = none
  ranges : s.methodRanges = Z.methods

/-- Not walked yet. -/
structure Unwalked (symbols : MethodZoneSymbols) (s : Symbolizer) : Prop where
  symbols : s.methodZoneSymbols = some symbols
  bounds : s.methodZoneBounds = none
  ranges : s.methodRanges = []

/-- `s` is not walked yet or tracks a zone that `Z` has grown from. -/
def Follows (s : Symbolizer) (Z : ZoneImage symbols base) : Prop :=
  Unwalked symbols s ∨ ∃ Z₀ : ZoneImage symbols base, Z₀.Grows Z ∧ s.Tracks Z₀

variable {s : Symbolizer} {Z Z' : ZoneImage symbols base} {pc : UInt64}

theorem Follows.mono (h : s.Follows Z) (hg : Z.Grows Z') : s.Follows Z' :=
  h.imp_right fun ⟨Z₀, hg₀, ht⟩ => ⟨Z₀, hg₀.trans hg, ht⟩

theorem readBounds_image (hs : s.methodZoneSymbols = some symbols) (Z : ZoneImage symbols base) :
    s.readBounds Z.mem = some (base, Z.freeStart) := by
  rw [readBounds, hs]
  exact Z.bounds

/-! ## Refreshing -/

/-- The state a walk from `cursor` over the rest of the zone leaves. -/
theorem Tracks.of_walked {cursor c : UInt64} {blocked : Option UInt64} {l : List CogMethodRange}
    {more : List CogMethodRange} (hs : s.methodZoneSymbols = some symbols)
    (hr : TiledRanges s.methodRanges base cursor) (hmore : Z.methods = s.methodRanges ++ more)
    (ht : TiledRanges more cursor Z.freeStart)
    (hw : Walked Z.mem Z.freeStart cursor none l c blocked) :
    ((s.adoptBounds Z.mem base Z.freeStart).loaded l c blocked).Tracks Z := by
  have hdec : DecodedIn Z.mem more := fun x hx => Z.decoded x (hmore ▸ List.mem_append_right _ hx)
  obtain ⟨rfl, rfl, hblocked⟩ := hw.complete ht hdec
  have hload := loaded_tiled (s := s.adoptBounds Z.mem base Z.freeStart) hr hw
  exact ⟨hs, rfl, rfl, hblocked.trans (ite_self _), hload.1.trans hmore.symm⟩

/-- A refresh against a grown zone catches up with it. -/
theorem Tracks.refresh (h : s.Tracks Z) (hg : Z.Grows Z') : (s.refreshMethodZone Z'.mem).Tracks Z' := by
  have hread := readBounds_image h.symbols Z'
  obtain ⟨more, hmore, ht, _⟩ := hg.methods
  have hcases := s.refreshMethodZone_cases Z'.mem
  generalize s.refreshMethodZone Z'.mem = s' at hcases
  -- with the bounds unchanged there is nothing behind the earlier methods
  have hsame : s.methodZoneBounds = some (base, Z'.freeStart) →
      Z.freeStart = Z'.freeStart ∧ Z'.methods = Z.methods := fun hb => by
    rw [h.bounds] at hb
    have hf : Z.freeStart = Z'.freeStart := (Prod.mk.inj (Option.some.inj hb)).2
    refine ⟨hf, hmore.trans ?_⟩
    rw [hf] at ht
    rw [ht.eq_nil, List.append_nil]
  cases hcases with
  | unread hr => rw [hread] at hr; cases hr
  | upToDate hr hb =>
    rw [hread] at hr
    cases hr
    obtain ⟨hf, hm⟩ := hsame hb
    exact ⟨h.symbols, hb, hf ▸ h.cursor, h.blocked, h.ranges.trans hm.symm⟩
  | resumed hr hb hlt =>
    rw [hread] at hr
    cases hr
    rw [h.cursor, (hsame hb).1] at hlt
    exact absurd hlt (lt_irrefl _)
  | grownBlocked hr hb hgrow hblocked => rw [h.blocked] at hblocked; cases hblocked
  | overrun hr hb hgrow hle =>
    rw [h.bounds] at hb
    cases hb
    rw [h.cursor] at hle
    exact absurd hgrow (not_lt.mpr hle)
  | grown hr hb hgrow hblocked hw =>
    rw [hread] at hr
    cases hr
    rw [h.bounds] at hb
    cases hb
    rw [h.cursor, h.blocked] at hw
    exact .of_walked h.symbols (h.ranges ▸ Z.tiled) (h.ranges ▸ hmore) ht hw
  | moved hr hmoved hw =>
    rw [hread] at hr
    cases hr
    exact absurd (hmoved _ h.bounds) (not_lt.mpr hg.freeStart_le)

theorem Unwalked.refresh (h : Unwalked symbols s) (Z : ZoneImage symbols base) :
    (s.refreshMethodZone Z.mem).Tracks Z := by
  have hread := readBounds_image h.symbols Z
  have hcases := s.refreshMethodZone_cases Z.mem
  generalize s.refreshMethodZone Z.mem = s' at hcases
  cases hcases with
  | unread hr => rw [hread] at hr; cases hr
  | upToDate hr hb => rw [h.bounds] at hb; cases hb
  | resumed hr hb => rw [h.bounds] at hb; cases hb
  | grownBlocked hr hb => rw [h.bounds] at hb; cases hb
  | overrun hr hb => rw [h.bounds] at hb; cases hb
  | grown hr hb => rw [h.bounds] at hb; cases hb
  | moved hr hmoved hw =>
    rw [hread] at hr
    cases hr
    exact .of_walked (s := s.clearZone) h.symbols rfl rfl Z.tiled hw

theorem Follows.refresh (h : s.Follows Z) : (s.refreshMethodZone Z.mem).Tracks Z := by
  rcases h with h | ⟨Z₀, hg, ht⟩
  · exact h.refresh Z
  · exact ht.refresh hg

/-! ## Resolving -/

/-- When the ranges are consulted for the last time, they are those of an image
that reaches as far as `pc` if `Z` does. -/
theorem Follows.settled (h : s.Follows Z) (pc : UInt64) :
    ∃ Z₁ : ZoneImage symbols base, Z₁.Grows Z ∧ (s.settled Z.mem pc).Tracks Z₁ ∧
      (pc < Z.freeStart → pc < Z₁.freeStart) := by
  unfold Symbolizer.settled
  split
  · exact ⟨Z, .refl Z, h.refresh, id⟩
  · rename_i hno
    rcases h with h | ⟨Z₀, hg, ht⟩
    · rw [shouldRefresh, h.bounds] at hno
      exact absurd rfl hno
    · refine ⟨Z₀, hg, ht, fun _ => ?_⟩
      rw [shouldRefresh, ht.bounds] at hno
      by_contra hle
      exact hno (by simp [not_lt.mp hle])

/-- Behind a walked zone the scan is never tried. -/
theorem Tracks.not_scans (h : s.Tracks Z) (hn : s.lookupMethodRange pc = none) : s.scans pc = false := by
  by_contra hs
  simp only [scans, pcInMethodZone, h.bounds, Option.any_some, Option.isNone_some, Bool.or_false,
    Bool.and_eq_true, decide_eq_true_eq, Bool.not_eq_false] at hs
  obtain ⟨x, _, _, _, hx⟩ := Z.tiled.locate hs.1 hs.2
  rw [lookupMethodRange_eq, h.ranges, locateRange, hx] at hn
  cases hn

theorem Tracks.cachePc (h : s.Tracks Z) (pc : UInt64) (answer : Option String) :
    (s.cachePc pc answer).Tracks Z := ⟨h.symbols, h.bounds, h.cursor, h.blocked, h.ranges⟩

theorem Follows.cachePc (h : s.Follows Z) (pc : UInt64) (answer : Option String) :
    (s.cachePc pc answer).Follows Z :=
  h.imp (fun h => ⟨h.symbols, h.bounds, h.ranges⟩) fun ⟨Z₀, hg, ht⟩ => ⟨Z₀, hg, ht.cachePc pc answer⟩

theorem Follows.resolve (h : s.Follows Z) (pc : UInt64) : (s.resolve (Z.mem, pc)).Follows Z := by
  have hcases := s.resolveJitPc_cases Z.mem pc
  unfold Symbolizer.resolve
  generalize s.resolveJitPc Z.mem pc = res at hcases
  obtain ⟨answer, s'⟩ := res
  obtain ⟨Z₁, hg, ht, _⟩ := h.settled pc
  cases hcases with
  | cached => exact h
  | known => exact h.cachePc _ _
  | loaded => exact .inr ⟨Z₁, hg, ht.cachePc _ _⟩
  | entry => exact .inr ⟨Z₁, hg, ht.cachePc _ _⟩
  | generic => exact .inr ⟨Z₁, hg, ht.cachePc _ _⟩
  | scanned hc hn hu he hr =>
    have hs := (met_eq_some.mp hr).1
    rw [ht.not_scans hu] at hs
    cases hs

/-! ## Runs -/

theorem Follows.run {s : Symbolizer} (h : ∀ Z : ZoneImage symbols base, s.Follows Z)
    (calls : List (ZoneImage symbols base × ZoneCall)) (Z : ZoneImage symbols base)
    (hgrows : (calls.map Prod.fst ++ [Z]).Pairwise ZoneImage.Grows) : (s.runZone calls).Follows Z := by
  induction calls using List.reverseRecOn generalizing Z with
  | nil => exact h Z
  | append_singleton calls c ih =>
    obtain ⟨Z₁, c⟩ := c
    rw [List.map_append, List.append_assoc] at hgrows
    have hpre : (calls.map Prod.fst ++ [Z₁]).Pairwise ZoneImage.Grows :=
      hgrows.sublist (by simp)
    have hlast : Z₁.Grows Z :=
      (List.pairwise_cons.mp (List.pairwise_append.mp hgrows).2.1).1 Z List.mem_cons_self
    have hf := ih Z₁ hpre
    rw [runZone, List.foldl_append]
    refine Follows.mono ?_ hlast
    cases c with
    | refreshMethodZone => exact .inr ⟨Z₁, .refl Z₁, hf.refresh⟩
    | resolveJitPc pc => exact hf.resolve pc

theorem unwalked_new {maps : List MapRange} {binary : Option BinaryInfo}
    (hs : (new maps binary).methodZoneSymbols = some symbols) : Unwalked symbols (new maps binary) :=
  ⟨hs, rfl, rfl⟩

/-! ### A zone of one method and then two

The selectors are the one-byte object at 0x20000. -/

def zoneBinary : BinaryInfo where
  symbols := [("baseAddress", 0x100), ("mzFreeStart", 0x108)]
  bssAddr := 0
  bssSize := 0

def zoneSymbols : MethodZoneSymbols := { baseAddressAddr := 0x100, freeStartAddr := 0x108 }

def firstMethod : CogMethodRange := ⟨0x1000, 0x1040, "JIT method>>a"⟩

def secondMethod : CogMethodRange := ⟨0x1040, 0x1080, "JIT method>>a"⟩

def firstWords : List (UInt64 × UInt64) :=
  [(0x100, 0x1000), (0x1008, 0x4000000500), (0x1010, 0), (0x1018, 0), (0x1020, 0x20000),
    (0x20000, 0x0100000017000000), (0x20008, 0x61)]

def zoneBefore : ZoneImage zoneSymbols 0x1000 where
  mem := .ofWords ((0x108, 0x1040) :: firstWords)
  freeStart := 0x1040
  methods := [firstMethod]
  bounds := by decide
  tiled := by decide
  decoded := by decide +kernel

def zoneAfter : ZoneImage zoneSymbols 0x1000 where
  mem := .ofWords ((0x108, 0x1080) :: firstWords ++
    [(0x1048, 0x4000000500), (0x1050, 0), (0x1058, 0), (0x1060, 0x20000)])
  freeStart := 0x1080
  methods := [firstMethod, secondMethod]
  bounds := by decide
  tiled := by decide
  decoded := by decide +kernel

theorem zoneBefore_grows : zoneBefore.Grows zoneAfter :=
  ⟨by decide, by decide +kernel⟩

/-! ### Any run -/

/-- Walking on after any run against growing zones gives the ranges of a walk
from scratch, and they tile the zone. -/
theorem refresh_incremental {maps : List MapRange} {binary : Option BinaryInfo}
    (hs : (new maps binary).methodZoneSymbols = some symbols)
    (calls : List (ZoneImage symbols base × ZoneCall)) (Z : ZoneImage symbols base)
    (hgrows : (calls.map Prod.fst ++ [Z]).Pairwise ZoneImage.Grows) :
    let s := (new maps binary).runZone calls
    (s.refreshMethodZone Z.mem).methodRanges =
        ((new maps binary).refreshMethodZone Z.mem).methodRanges ∧
      TiledRanges (s.refreshMethodZone Z.mem).methodRanges base Z.freeStart := by
  have hf := (Follows.run (fun _ => .inl (unwalked_new hs)) calls Z hgrows).refresh
  have hfresh := (unwalked_new hs).refresh Z
  exact ⟨hf.ranges.trans hfresh.ranges.symm, hf.ranges ▸ Z.tiled⟩

theorem refresh_incremental_zoneAfter :
    let s := (new [] (some zoneBinary)).runZone [(zoneBefore, .resolveJitPc 0x1030)]
    (s.refreshMethodZone zoneAfter.mem).methodRanges =
        ((new [] (some zoneBinary)).refreshMethodZone zoneAfter.mem).methodRanges ∧
      TiledRanges (s.refreshMethodZone zoneAfter.mem).methodRanges 0x1000 zoneAfter.freeStart :=
  refresh_incremental rfl [(zoneBefore, .resolveJitPc 0x1030)] zoneAfter
    (.cons (fun _ h => List.mem_singleton.mp h ▸ zoneBefore_grows) (List.pairwise_singleton _ _))

/-! ## Names -/

/-- A pc of the zone is named after its method, unless the cache says otherwise. -/
theorem Follows.resolve_named (h : s.Follows Z) {X : CogMethodRange} (hX : X ∈ Z.methods)
    (hcov : X.Covers pc)
    (hc : s.resolvedPcs pc = none ∨ s.resolvedPcs pc = some (some X.name)) :
    (s.resolveJitPc Z.mem pc).1 = some X.name ∧
      (s.resolve (Z.mem, pc)).resolvedPcs pc = some (some X.name) := by
  have hfree : pc < Z.freeStart := lt_of_lt_of_le hcov.2 (Z.tiled.inside X hX).2.2
  obtain ⟨Z₁, hg, ht, hreach⟩ := h.settled pc
  -- the tracked image holds the method too, since it reaches past `pc`
  have hfound : ∀ {s : Symbolizer} {Z₁ : ZoneImage symbols base}, Z₁.Grows Z → s.Tracks Z₁ →
      ∀ name, s.lookupMethodRange pc = some name → name = X.name := by
    intro s Z₁ hg ht name hname
    rw [lookupMethodRange_eq, ht.ranges, Option.map_eq_some_iff] at hname
    obtain ⟨x, hx, rfl⟩ := hname
    obtain ⟨hmem, hxcov⟩ := (locate_disjoint Z₁.tiled.sorted Z₁.tiled.disjoint).mp hx
    have := Z.locate (hg.mem_methods hmem) hxcov
    rw [Z.locate hX hcov] at this
    rw [Option.some.inj this]
  have hsettled : (s.settled Z.mem pc).lookupMethodRange pc ≠ none := by
    rw [lookupMethodRange_eq, ht.ranges, Z₁.locate (hg.mem_earlier hX hcov (hreach hfree)) hcov]
    exact Option.some_ne_none _
  have hcases := s.resolveJitPc_cases Z.mem pc
  unfold Symbolizer.resolve
  generalize s.resolveJitPc Z.mem pc = res at hcases
  obtain ⟨answer, s'⟩ := res
  cases hcases with
  | cached hc' =>
    rw [hc'] at hc ⊢
    have := Option.some.inj (hc.resolve_left (Option.some_ne_none _))
    exact ⟨this, congrArg some this⟩
  | @known name hc' hn =>
    have hname : name = X.name := by
      rcases h with h | ⟨Z₀, hg₀, ht₀⟩
      · rw [lookupMethodRange_eq, h.ranges] at hn
        cases hn
      · exact hfound hg₀ ht₀ name hn
    subst hname
    exact ⟨rfl, Function.update_self ..⟩
  | @loaded name hc' hn hs hu =>
    have hname := hfound hg ht name hu
    subst hname
    exact ⟨rfl, Function.update_self ..⟩
  | entry _ _ hu => exact absurd hu hsettled
  | scanned _ _ hu => exact absurd hu hsettled
  | generic _ _ hu => exact absurd hu hsettled

/-- Along a run that asks for `pc` only once the zone has reached it, the cache
holds nothing else for it than the name of its method. -/
theorem runZone_cache {s : Symbolizer} (h : ∀ Z : ZoneImage symbols base, s.Follows Z)
    (hc : s.resolvedPcs pc = none) {X : CogMethodRange} (hX : X ∈ Z.methods) (hcov : X.Covers pc)
    (calls : List (ZoneImage symbols base × ZoneCall))
    (hgrows : (calls.map Prod.fst ++ [Z]).Pairwise ZoneImage.Grows)
    (htimely : ∀ Z', (Z', ZoneCall.resolveJitPc pc) ∈ calls → pc < Z'.freeStart) :
    (s.runZone calls).resolvedPcs pc = none ∨
      (s.runZone calls).resolvedPcs pc = some (some X.name) := by
  induction calls using List.reverseRecOn with
  | nil => exact .inl hc
  | append_singleton calls c ih =>
    obtain ⟨Z₁, c⟩ := c
    rw [List.map_append, List.append_assoc] at hgrows
    have hlast : Z₁.Grows Z :=
      (List.pairwise_cons.mp (List.pairwise_append.mp hgrows).2.1).1 Z List.mem_cons_self
    have hcache := ih (hgrows.sublist (by simp)) fun Z' hZ' => htimely Z' (List.mem_append_left _ hZ')
    have hf := Follows.run h calls Z₁ (hgrows.sublist (by simp))
    rw [runZone, List.foldl_append]
    change ((s.runZone calls).zoneCall (Z₁, c)).resolvedPcs pc = none ∨
      ((s.runZone calls).zoneCall (Z₁, c)).resolvedPcs pc = some (some X.name)
    cases c with
    | refreshMethodZone =>
      rcases (s.runZone calls).refresh_cache Z₁.mem with heq | heq
      · exact hcache.imp (congrFun heq pc).trans (congrFun heq pc).trans
      · exact .inl (congrFun heq pc)
    | resolveJitPc pc' =>
      by_cases hpc : pc' = pc
      · subst hpc
        have hreached := htimely Z₁ (List.mem_append_right _ List.mem_cons_self)
        exact .inr (hf.resolve_named (hlast.mem_earlier hX hcov hreached) hcov hcache).2
      · rcases (s.runZone calls).resolve_cache (r := (Z₁.mem, pc')) (Ne.symm hpc) with heq | heq
        · exact hcache.imp heq.trans heq.trans
        · exact .inl heq

/-- In a run against growing zones, a pc of a method is answered with the
method's name, provided it was never asked for before the zone reached it. -/
theorem resolve_grown {maps : List MapRange} {binary : Option BinaryInfo}
    (hs : (new maps binary).methodZoneSymbols = some symbols)
    (calls : List (ZoneImage symbols base × ZoneCall)) (Z : ZoneImage symbols base)
    (hgrows : (calls.map Prod.fst ++ [Z]).Pairwise ZoneImage.Grows) {X : CogMethodRange}
    (hX : X ∈ Z.methods) {pc : UInt64} (hbody : X.Body pc)
    (htimely : ∀ Z', (Z', ZoneCall.resolveJitPc pc) ∈ calls → pc < Z'.freeStart) :
    (((new maps binary).runZone calls).resolveJitPc Z.mem pc).1 = some X.name := by
  have hnew : ∀ Z : ZoneImage symbols base, (new maps binary).Follows Z := fun _ => .inl (unwalked_new hs)
  have hcache := runZone_cache hnew rfl hX hbody.covers calls hgrows htimely
  exact ((Follows.run hnew calls Z hgrows).resolve_named hX hbody.covers hcache).1

theorem resolve_grown_zoneAfter :
    (((new [] (some zoneBinary)).runZone [(zoneBefore, .resolveJitPc 0x1030)]).resolveJitPc
      zoneAfter.mem 0x1070).1 = some "JIT method>>a" :=
  resolve_grown (X := secondMethod) rfl [(zoneBefore, .resolveJitPc 0x1030)] zoneAfter
    (.cons (fun _ h => List.mem_singleton.mp h ▸ zoneBefore_grows) (List.pairwise_singleton _ _))
    (List.mem_cons_of_mem _ List.mem_cons_self) ⟨by decide, by decide⟩
    (fun _ h => by cases List.mem_singleton.mp h)

/-- Asked for against the first zone, the pc is cached as a generic frame, and
stays one when the second method is there. -/
theorem zoneAfter_stale :
    ¬∀ (calls : List (ZoneImage zoneSymbols 0x1000 × UInt64)) (Z : ZoneImage zoneSymbols 0x1000),
      (calls.map Prod.fst ++ [Z]).Pairwise ZoneImage.Grows → ∀ X ∈ Z.methods, ∀ pc, X.Body pc →
        (((new [] (some zoneBinary)).runResolves (calls.map fun (Z, pc) => (Z.mem, pc))).resolveJitPc
          Z.mem pc).1 = some X.name := by
  intro h
  have hname := h [(zoneBefore, 0x1070)] zoneAfter
    (.cons (fun _ h => List.mem_singleton.mp h ▸ zoneBefore_grows) (List.pairwise_singleton _ _))
    secondMethod (List.mem_cons_of_mem _ List.mem_cons_self) 0x1070 ⟨by decide, by decide⟩
  exact absurd hname (by decide +kernel)

end Symbolizer

end StSpy
