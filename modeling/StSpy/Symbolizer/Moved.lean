import StSpy.Symbolizer.Growth

/-!
# A zone that moved or shrank

Names read from the zone are told apart by relabelling them: an answer owes
nothing to them when it is the same whatever they are replaced by (`Forgets`).
`Traced` carries, beside the symbolizer, which cached answers were read from
the zone. After the zone has moved or shrunk, old names survive in two places,
in front of the refresh that would clear them: the cache and the ranges.
-/

namespace StSpy

open Blocks

namespace Symbolizer

/-! ## Where names come from -/

/-- Whether resolving `pc`, not in the cache, takes its answer from a method in
the zone: a stored range, one loaded by the refresh, or one the scan meets. -/
def readsZone (s : Symbolizer) (M : Memory) (pc : UInt64) : Bool :=
  (s.lookupMethodRange pc).isSome || ((s.settled M pc).lookupMethodRange pc).isSome ||
    (((s.settled M pc).lookupJitEntrySymbol pc).isNone && ((s.settled M pc).met M pc).isSome)

/-- The name of a method some memory of `Ms` holds. -/
def NameIn (Ms : List Memory) (name : String) : Prop :=
  ∃ M ∈ Ms, ∃ x, M.readCogMethodAt x.start = some x ∧ x.name = name

end Symbolizer

/-- A symbolizer, and the pcs whose cached answer was read from the zone. -/
structure Traced where
  state : Symbolizer
  fromZone : UInt64 → Bool

namespace Traced

open Symbolizer

def resolve (t : Traced) (r : Memory × UInt64) : Traced where
  state := t.state.resolve r
  fromZone :=
    if (t.state.resolvedPcs r.2).isSome then t.fromZone
    else Function.update t.fromZone r.2 (t.state.readsZone r.1 r.2)

def run (t : Traced) (rs : List (Memory × UInt64)) : Traced := rs.foldl resolve t

def new (maps : List MapRange) (binary : Option BinaryInfo) : Traced where
  state := .new maps binary
  fromZone := fun _ => false

theorem run_state (t : Traced) (rs : List (Memory × UInt64)) :
    (t.run rs).state = t.state.runResolves rs := by
  induction rs generalizing t with
  | nil => rfl
  | cons r rs ih => exact ih (t.resolve r)

/-- The trace says where cached names come from: those marked are names of
methods in memories seen, the others are not. -/
structure Sound (Ms : List Memory) (t : Traced) : Prop where
  inv : t.state.Inv
  ranges : ∀ x ∈ t.state.methodRanges, NameIn Ms x.name
  marked : ∀ pc answer, t.fromZone pc = true → t.state.resolvedPcs pc = some answer →
    ∃ name, answer = some name ∧ NameIn Ms name
  unmarked : ∀ pc name, t.fromZone pc = false → t.state.resolvedPcs pc = some (some name) →
    name = "JIT frame" ∨ ∃ entry : String, name = "Cog " ++ entry

theorem Sound.new (Ms : List Memory) (maps : List MapRange) (binary : Option BinaryInfo) :
    (new maps binary).Sound Ms :=
  ⟨.new maps binary, (fun _ h => nomatch h), (fun _ _ _ h => nomatch h), (fun _ _ _ h => nomatch h)⟩

theorem lookupMethodRange_nameIn {Ms : List Memory} {s : Symbolizer} {pc : UInt64} {name : String}
    (h : ∀ x ∈ s.methodRanges, NameIn Ms x.name) (hs : SortedRanges s.methodRanges)
    (hn : s.lookupMethodRange pc = some name) : NameIn Ms name := by
  rw [lookupMethodRange_eq, Option.map_eq_some_iff] at hn
  obtain ⟨x, hx, rfl⟩ := hn
  exact h x ((locate_eq_some hs).mp hx).1

theorem lookupJitEntrySymbol_name {s : Symbolizer} {pc : UInt64} {name : String}
    (h : s.lookupJitEntrySymbol pc = some name) : ∃ entry : String, name = "Cog " ++ entry := by
  unfold lookupJitEntrySymbol at h
  split at h
  · cases h
  · simp only [Option.bind_eq_bind, Option.bind_eq_some_iff] at h
    obtain ⟨entry, _, h⟩ := h
    split at h
    · exact ⟨entry.name, (Option.some.inj h).symm⟩
    · cases h

theorem genericCogCodeName_name {s : Symbolizer} {pc : UInt64} {name : String}
    (h : s.genericCogCodeName pc = some name) : name = "JIT frame" := by
  unfold genericCogCodeName at h
  split at h
  · exact (Option.some.inj h).symm
  · cases h

/-- What a resolve outside the cache answers, by the source of the answer. -/
theorem resolveJitPc_source {Ms : List Memory} {s : Symbolizer} {M : Memory} {pc : UInt64}
    (hi : s.Inv) (hranges : ∀ x ∈ s.methodRanges, NameIn Ms x.name) (hM : M ∈ Ms)
    (hc : s.resolvedPcs pc = none) :
    (∀ x ∈ (s.resolve (M, pc)).methodRanges, NameIn Ms x.name) ∧
    (s.resolve (M, pc)).resolvedPcs pc = some (s.resolveJitPc M pc).1 ∧
    if s.readsZone M pc then ∃ name, (s.resolveJitPc M pc).1 = some name ∧ NameIn Ms name
    else ∀ name, (s.resolveJitPc M pc).1 = some name →
      name = "JIT frame" ∨ ∃ entry : String, name = "Cog " ++ entry := by
  have hset : ∀ x ∈ (s.settled M pc).methodRanges, NameIn Ms x.name := fun x hx => by
    unfold settled at hx
    split at hx
    · rcases hi.refresh_mem hx with hx | hdec
      · exact hranges x hx
      · exact ⟨M, hM, x, hdec, rfl⟩
    · exact hranges x hx
  have hsorted := (hi.settled M pc).sorted
  have hcases := s.resolveJitPc_cases M pc
  unfold Symbolizer.resolve readsZone
  generalize s.resolveJitPc M pc = res at hcases
  obtain ⟨answer, s'⟩ := res
  cases hcases with
  | cached hc' => rw [hc] at hc'; cases hc'
  | known _ hn =>
    rw [hn]
    exact ⟨hranges, Function.update_self .., _, rfl, lookupMethodRange_nameIn hranges hi.sorted hn⟩
  | loaded _ hn _ hu =>
    rw [hn, hu]
    exact ⟨hset, Function.update_self .., _, rfl, lookupMethodRange_nameIn hset hsorted hu⟩
  | entry _ hn hu he =>
    rw [hn, hu, he]
    refine ⟨hset, Function.update_self .., fun name hname => .inr ?_⟩
    cases hname
    exact lookupJitEntrySymbol_name he
  | scanned _ hn hu he hr =>
    have hdec := (met_eq_some.mp hr).decoded
    rw [hn, hu, he, hr]
    refine ⟨fun x hx => ?_, Function.update_self .., _, rfl, M, hM, _, hdec, rfl⟩
    rcases (mem_insertMethodRange hsorted).mp hx with rfl | ⟨hx, _⟩
    · exact ⟨M, hM, _, hdec, rfl⟩
    · exact hset x hx
  | generic _ hn hu he hr =>
    rw [hn, hu, he, hr]
    exact ⟨hset, Function.update_self .., fun name hname => .inl (genericCogCodeName_name hname)⟩

theorem Sound.resolve {Ms : List Memory} {t : Traced} (h : t.Sound Ms) {r : Memory × UInt64}
    (hM : r.1 ∈ Ms) : (t.resolve r).Sound Ms := by
  obtain ⟨M, pc⟩ := r
  have hinv := h.inv.resolve (M, pc)
  cases hc : t.state.resolvedPcs pc with
  | some answer =>
    have hsame : t.resolve (M, pc) = t := by
      unfold Traced.resolve Symbolizer.resolve
      rw [hc, resolveJitPc_cached hc]
      rfl
    rw [hsame]
    exact h
  | none =>
    obtain ⟨hranges, hcache, hsource⟩ := resolveJitPc_source h.inv h.ranges hM hc
    have hmark : (t.resolve (M, pc)).fromZone =
        Function.update t.fromZone pc (t.state.readsZone M pc) := by
      unfold Traced.resolve
      rw [hc]
      rfl
    refine ⟨hinv, hranges, fun q answer hq ha => ?_, fun q name hq ha => ?_⟩
    · change (t.state.resolve (M, pc)).resolvedPcs q = some answer at ha
      rw [hmark] at hq
      by_cases hqp : q = pc
      · subst hqp
        rw [Function.update_self] at hq
        rw [hcache] at ha
        rw [if_pos hq] at hsource
        exact Option.some.inj ha ▸ hsource
      · rw [Function.update_of_ne hqp] at hq
        rcases t.state.resolve_cache (r := (M, pc)) hqp with heq | heq
        · exact h.marked q answer hq (heq.symm.trans ha)
        · rw [heq] at ha; cases ha
    · change (t.state.resolve (M, pc)).resolvedPcs q = some (some name) at ha
      rw [hmark] at hq
      by_cases hqp : q = pc
      · subst hqp
        rw [Function.update_self] at hq
        rw [hcache] at ha
        rw [if_neg (by rw [hq]; decide)] at hsource
        exact hsource name (Option.some.inj ha)
      · rw [Function.update_of_ne hqp] at hq
        rcases t.state.resolve_cache (r := (M, pc)) hqp with heq | heq
        · exact h.unmarked q name hq (heq.symm.trans ha)
        · rw [heq] at ha; cases ha

theorem Sound.run {Ms : List Memory} {t : Traced} (h : t.Sound Ms) :
    ∀ {rs : List (Memory × UInt64)}, (∀ r ∈ rs, r.1 ∈ Ms) → (t.run rs).Sound Ms := by
  intro rs
  induction rs generalizing t with
  | nil => exact fun _ => h
  | cons r rs ih =>
    exact fun hrs => ih (h.resolve (hrs r List.mem_cons_self)) fun r' hr' =>
      hrs r' (List.mem_cons_of_mem _ hr')

/-! ## Relabelling -/

/-- A range under another name. -/
def rename (f : String → String) (x : CogMethodRange) : CogMethodRange := { x with name := f x.name }

/-- The symbolizer with every name read from the zone replaced. -/
def relabel (f : String → String) (t : Traced) : Symbolizer :=
  { t.state with
    methodRanges := t.state.methodRanges.map (rename f)
    resolvedPcs := fun pc =>
      if t.fromZone pc then (t.state.resolvedPcs pc).map (·.map f) else t.state.resolvedPcs pc }

/-- The answer for `pc` owes nothing to the names read from the zone so far. -/
def Forgets (t : Traced) (M : Memory) (pc : UInt64) : Prop :=
  ∀ f, ((t.relabel f).resolveJitPc M pc).1 = (t.state.resolveJitPc M pc).1

variable {t : Traced} {M : Memory} {pc : UInt64}

theorem relabel_lookupMethodRange (f : String → String) (t : Traced) (pc : UInt64) :
    (t.relabel f).lookupMethodRange pc = (t.state.lookupMethodRange pc).map f := by
  have hmap : locateRange pc (t.relabel f).methodRanges =
      (locateRange pc t.state.methodRanges).map (rename f) :=
    locate_map (g := rename f) (fun _ => rfl) (fun _ => rfl) t.state.methodRanges
  rw [lookupMethodRange_eq, lookupMethodRange_eq, hmap, Option.map_map, Option.map_map]
  rfl

/-- Bounds that moved or shrank take the branch that drops everything. -/
theorem refresh_moved {s : Symbolizer} {base freeStart base' freeStart' : UInt64}
    (hr : s.readBounds M = some (base', freeStart')) (hb : s.methodZoneBounds = some (base, freeStart))
    (hmoved : base' ≠ base ∨ freeStart' < freeStart) :
    s.refreshMethodZone M = s.clearZone.walkFrom M base' freeStart' base' := by
  obtain ⟨symbols, hsym, hread⟩ := Option.bind_eq_some_iff.mp hr
  have hne : (base, freeStart) ≠ (base', freeStart') := fun h => by
    cases h
    exact hmoved.elim (absurd rfl) (absurd · (lt_irrefl _))
  have hgrown : ¬(base = base' ∧ freeStart < freeStart') := fun h =>
    hmoved.elim (absurd h.1.symm) (absurd h.2 <| not_lt_of_gt ·)
  unfold refreshMethodZone
  rw [hsym]
  simp only [hread, hb, Option.some.injEq, if_neg hne, if_neg hgrown]

/-- The bounds read, if any, are the words at the two addresses. -/
theorem readMethodZoneBounds_words {symbols : MethodZoneSymbols} {base freeStart : UInt64}
    {bounds : UInt64 × UInt64} (hbase : M.copyU64 symbols.baseAddressAddr = some base)
    (hfree : M.copyU64 symbols.freeStartAddr = some freeStart)
    (h : readMethodZoneBounds M symbols = some bounds) : bounds = (base, freeStart) := by
  simp only [readMethodZoneBounds, hbase, hfree, Option.bind_eq_bind, Option.bind_some] at h
  split at h
  · cases h
  · exact (Option.some.inj h).symm

/-- With the zone moved, a pc in no stored range gets a label without old names. -/
theorem relabel_labelOf {base freeStart base' freeStart' : UInt64} (f : String → String)
    (hb : t.state.methodZoneBounds = some (base, freeStart))
    (hread : ∀ bounds, t.state.readBounds M = some bounds → bounds = (base', freeStart'))
    (hmoved : base' ≠ base ∨ freeStart' < freeStart) (hn : t.state.lookupMethodRange pc = none) :
    ((t.relabel f).settled M pc).labelOf M pc = (t.state.settled M pc).labelOf M pc := by
  have hsame : (t.relabel f).labelOf M pc = t.state.labelOf M pc := by
    have hn' : (t.relabel f).lookupMethodRange pc = none := by
      rw [relabel_lookupMethodRange, hn]; rfl
    unfold labelOf
    rw [hn, hn']
    rfl
  have hrefresh : ((t.relabel f).refreshMethodZone M).labelOf M pc =
      (t.state.refreshMethodZone M).labelOf M pc := by
    cases hr : t.state.readBounds M with
    | none =>
      have h1 : t.state.refreshMethodZone M = t.state := UpToDate.refresh (.inl hr)
      have h2 : (t.relabel f).refreshMethodZone M = t.relabel f := UpToDate.refresh (.inl hr)
      rw [h1, h2, hsame]
    | some bounds =>
      obtain rfl := hread bounds hr
      have h1 := refresh_moved hr hb hmoved
      have h2 : (t.relabel f).refreshMethodZone M =
          (t.relabel f).clearZone.walkFrom M base' freeStart' base' := refresh_moved hr hb hmoved
      rw [h1, h2]
      rfl
  have hshould : (t.relabel f).shouldRefresh pc = t.state.shouldRefresh pc := rfl
  unfold settled
  rw [hshould]
  split
  · exact hrefresh
  · exact hsame

/-- A name with a mark behind it is another name. -/
theorem marked_ne (name : String) : name ++ "'" ≠ name := fun h => by
  have := congrArg String.length h
  simp at this

theorem relabel_resolvedPcs (f : String → String) (t : Traced) (pc : UInt64) :
    (t.relabel f).resolvedPcs pc =
      if t.fromZone pc then (t.state.resolvedPcs pc).map (·.map f) else t.state.resolvedPcs pc := rfl

/-- A cached answer is given as it is. -/
theorem forgets_cached {Ms : List Memory} (hsound : t.Sound Ms) {answer : Option String}
    (hc : t.state.resolvedPcs pc = some answer) : t.Forgets M pc ↔ t.fromZone pc = false := by
  cases hz : t.fromZone pc with
  | false =>
    refine iff_of_true (fun f => ?_) rfl
    have hc' : (t.relabel f).resolvedPcs pc = some answer := by
      rw [relabel_resolvedPcs, hz, hc]; rfl
    rw [resolveJitPc_cached hc, resolveJitPc_cached hc']
  | true =>
    obtain ⟨name, rfl, _⟩ := hsound.marked pc answer hz hc
    refine iff_of_false (fun h => ?_) (by decide)
    have hc' : (t.relabel (· ++ "'")).resolvedPcs pc = some (some (name ++ "'")) := by
      rw [relabel_resolvedPcs, hz, hc]; rfl
    have := h (· ++ "'")
    rw [resolveJitPc_cached hc, resolveJitPc_cached hc'] at this
    exact marked_ne name (Option.some.inj this)

/-- Before a refresh the stored ranges are asked, and give their names. -/
theorem forgets_uncached {base freeStart base' freeStart' : UInt64}
    (hb : t.state.methodZoneBounds = some (base, freeStart))
    (hread : ∀ bounds, t.state.readBounds M = some bounds → bounds = (base', freeStart'))
    (hmoved : base' ≠ base ∨ freeStart' < freeStart) (hc : t.state.resolvedPcs pc = none) :
    t.Forgets M pc ↔ t.state.lookupMethodRange pc = none := by
  have hc' : ∀ f, (t.relabel f).resolvedPcs pc = none := fun f => by
    rw [relabel_resolvedPcs, hc]
    exact ite_self _
  cases hn : t.state.lookupMethodRange pc with
  | none =>
    refine iff_of_true (fun f => ?_) rfl
    have hn' : (t.relabel f).lookupMethodRange pc = none := by
      rw [relabel_lookupMethodRange, hn]; rfl
    rw [resolveJitPc_label hc hn, resolveJitPc_label (hc' f) hn', relabel_labelOf f hb hread hmoved hn]
  | some name =>
    refine iff_of_false (fun h => ?_) (Option.some_ne_none _)
    have hn' : (t.relabel (· ++ "'")).lookupMethodRange pc = some (name ++ "'") := by
      rw [relabel_lookupMethodRange, hn]; rfl
    have := h (· ++ "'")
    rw [resolveJitPc_known hc hn, resolveJitPc_known (hc' _) hn'] at this
    exact marked_ne name (Option.some.inj this)

/-- After the zone has moved or shrunk, the answer for `pc` owes nothing to the
old names exactly when it is cached as something else, or not cached and in no
stored range. -/
theorem forgets_iff {maps : List MapRange} {binary : Option BinaryInfo} {symbols : MethodZoneSymbols}
    (hsym : (Symbolizer.new maps binary).methodZoneSymbols = some symbols)
    (rs : List (Memory × UInt64)) {base freeStart base' freeStart' : UInt64}
    (hb : ((new maps binary).run rs).state.methodZoneBounds = some (base, freeStart))
    (hbase : M.copyU64 symbols.baseAddressAddr = some base')
    (hfree : M.copyU64 symbols.freeStartAddr = some freeStart')
    (hmoved : base' ≠ base ∨ freeStart' < freeStart) (pc : UInt64) :
    let t := (new maps binary).run rs
    t.Forgets M pc ↔
      if (t.state.resolvedPcs pc).isSome then t.fromZone pc = false
      else t.state.lookupMethodRange pc = none := by
  have hsound := (Sound.new (rs.map Prod.fst) maps binary).run fun r hr => List.mem_map_of_mem hr
  have hstate := run_state (new maps binary) rs
  have hread : ∀ bounds, ((new maps binary).run rs).state.readBounds M = some bounds →
      bounds = (base', freeStart') := by
    intro bounds h
    rw [readBounds, hstate, (runResolves_sameTarget _ rs).methodZoneSymbols] at h
    change (Symbolizer.new maps binary).methodZoneSymbols.bind _ = some bounds at h
    rw [hsym] at h
    exact readMethodZoneBounds_words hbase hfree h
  intro t
  cases hc : t.state.resolvedPcs pc with
  | some answer =>
    simp only [Option.isSome_some, if_true]
    exact forgets_cached hsound hc
  | none =>
    simp only [Option.isSome_none, Bool.false_eq_true, if_false]
    exact forgets_uncached hb hread hmoved hc

/-- A memory that has a zone of the same size elsewhere. -/
def movedZone : Memory := .ofWords [(0x100, 0x2000), (0x108, 0x2040)]

theorem forgets_iff_movedZone :
    let t := (new [] (some zoneBinary)).run [(zoneBefore.mem, 0x1030)]
    t.Forgets movedZone 0x2030 ↔
      if (t.state.resolvedPcs 0x2030).isSome then t.fromZone 0x2030 = false
      else t.state.lookupMethodRange 0x2030 = none :=
  have hb : ((new [] (some zoneBinary)).run [(zoneBefore.mem, 0x1030)]).state.methodZoneBounds =
      some (0x1000, 0x1040) := by decide +kernel
  have hbase : movedZone.copyU64 zoneSymbols.baseAddressAddr = some 0x2000 := by decide
  have hfree : movedZone.copyU64 zoneSymbols.freeStartAddr = some 0x2040 := by decide
  forgets_iff rfl [(zoneBefore.mem, 0x1030)] hb hbase hfree (.inl (by decide)) 0x2030

/-- A pc cached before the move keeps its old name. -/
theorem movedZone_stale :
    ¬∀ (rs : List (Memory × UInt64)) (base freeStart : UInt64) (M : Memory) (base' freeStart' : UInt64),
      ((new [] (some zoneBinary)).run rs).state.methodZoneBounds = some (base, freeStart) →
      M.copyU64 zoneSymbols.baseAddressAddr = some base' →
      M.copyU64 zoneSymbols.freeStartAddr = some freeStart' → base' ≠ base ∨ freeStart' < freeStart →
      ∀ pc, ((new [] (some zoneBinary)).run rs).Forgets M pc := by
  intro h
  have hforgets := h [(zoneBefore.mem, 0x1030)] 0x1000 0x1040 movedZone 0x2000 0x2040 (by decide +kernel)
    (by decide) (by decide) (.inl (by decide)) 0x1030 fun _ => "gone"
  exact absurd hforgets (by decide +kernel)

end Traced

end StSpy
