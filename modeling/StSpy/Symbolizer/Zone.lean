import StSpy.Symbolizer.Ranges

/-!
# The method-zone walk

`walkZone_spec` says what one run of the walk loop loads: methods that tile
the zone from its start to the cursor where it ends, which is at or past
`free_start` or where decoding is stuck. `Refreshes` lists the ways out of
`refresh_method_zone` and `Resolves` those of `resolve_jit_pc`.

`Loaded` is what every reachable state knows about the zone it has bounds for:
the walk is blocked at its cursor, or it is past `free_start` and the ranges
are exactly the methods walked over.
-/

namespace StSpy

open Blocks

/-- The ranges of `l` are what `M` holds at their starts. -/
abbrev DecodedIn (M : Memory) (l : List CogMethodRange) : Prop :=
  DecodedBy CogMethodRange.start M.readCogMethodAt l

/-- No method can be loaded at `c`: nothing decodes, or it runs over the end. -/
def Stuck (M : Memory) (freeStart c : UInt64) : Prop :=
  ∀ range, M.readCogMethodAt c = some range → range.stop > saturatingAdd freeStart 8

namespace Symbolizer

/-! ## The loop -/

/-- A walk from `cursor` loaded `l` and ended at `c` with `blocked`. -/
structure Walked (M : Memory) (freeStart cursor : UInt64) (blocked₀ : Option UInt64)
    (l : List CogMethodRange) (c : UInt64) (blocked : Option UInt64) : Prop where
  tiled : TiledRanges l cursor c
  decoded : DecodedIn M l
  below : ∀ x ∈ l, x.start < freeStart
  ended : (freeStart ≤ c ∧ blocked = if l = [] then blocked₀ else none) ∨
    (c < freeStart ∧ Stuck M freeStart c ∧ blocked = some c)

theorem Walked.stuck {M : Memory} {freeStart cursor : UInt64} {blocked₀ : Option UInt64}
    (hlt : cursor < freeStart) (hstuck : Stuck M freeStart cursor) :
    Walked M freeStart cursor blocked₀ [] cursor (some cursor) :=
  ⟨rfl, .nil, (fun _ h => nomatch h), .inr ⟨hlt, hstuck, rfl⟩⟩

/-- Through methods that end exactly at `free_start` the walk goes to the end. -/
theorem Walked.complete {M : Memory} {freeStart cursor c : UInt64} {blocked₀ blocked : Option UInt64}
    {l m : List CogMethodRange} (hw : Walked M freeStart cursor blocked₀ l c blocked)
    (hm : TiledRanges m cursor freeStart) (hdec : DecodedIn M m) :
    l = m ∧ c = freeStart ∧ blocked = if m = [] then blocked₀ else none := by
  rcases hw.ended with ⟨hle, hblocked⟩ | ⟨hlt, hstuck, _⟩
  · -- past the end: what follows `m` would start at or after `free_start`
    obtain ⟨n, rfl, hn⟩ := hm.extend hw.tiled hdec hw.decoded hle
    cases n with
    | nil =>
      rw [List.append_nil] at hblocked ⊢
      exact ⟨rfl, hn.symm, hblocked⟩
    | cons x n =>
      have hx := hw.below x (by simp)
      rw [hn.1] at hx
      exact absurd hx (lt_irrefl _)
  · -- stuck: but the next method of `m` loads
    obtain ⟨n, rfl, hn⟩ := hw.tiled.extend hm hw.decoded hdec (le_of_lt hlt)
    cases n with
    | nil => exact absurd hlt (not_lt.mpr hn.ge)
    | cons x n =>
      have hread := hdec x (by simp)
      rw [hn.1] at hread
      exact absurd (hn.2.2.le.trans (le_saturatingAdd freeStart 8)) (not_le.mpr (hstuck x hread))

/-- A state after such a walk. -/
def loaded (s : Symbolizer) (l : List CogMethodRange) (c : UInt64) (blocked : Option UInt64) :
    Symbolizer :=
  { s with
    methodRanges := l.foldl insertMethodRange s.methodRanges
    methodZoneScanCursor := some c
    methodZoneBlockedCursor := blocked }

theorem walkZone_spec (M : Memory) (freeStart : UInt64) : ∀ (fuel : Nat) (cursor : UInt64)
    (s : Symbolizer), freeStart.toNat - cursor.toNat ≤ fuel →
    ∃ l c blocked, Walked M freeStart cursor s.methodZoneBlockedCursor l c blocked ∧
      walkZone M freeStart fuel cursor s = s.loaded l c blocked := by
  intro fuel
  induction fuel with
  | zero =>
    intro cursor s hfuel
    exact ⟨[], cursor, s.methodZoneBlockedCursor,
      ⟨rfl, .nil, (fun _ h => nomatch h), .inl ⟨UInt64.le_iff_toNat_le.mpr (by omega), rfl⟩⟩, rfl⟩
  | succ fuel ih =>
    intro cursor s hfuel
    unfold walkZone
    by_cases hlt : cursor < freeStart
    · rw [if_pos hlt]
      cases hread : M.readCogMethodAt cursor with
      | none =>
        have hstuck : Stuck M freeStart cursor := fun range h => by rw [hread] at h; cases h
        exact ⟨[], cursor, some cursor, .stuck hlt hstuck, rfl⟩
      | some range =>
        have hspan := M.readCogMethodAt_span hread
        have hadv : cursor < range.stop := hspan.start_eq ▸ hspan.lt
        simp only
        split
        · rename_i hguard
          have hstuck : Stuck M freeStart cursor := fun r h => by
            rw [hread] at h
            cases h
            exact hguard.resolve_left (not_le.mpr hadv)
          exact ⟨[], cursor, some cursor, .stuck hlt hstuck, rfl⟩
        · obtain ⟨l, c, blocked, hw, heq⟩ := ih range.stop
            { s with
              methodZoneBlockedCursor := none
              methodRanges := insertMethodRange s.methodRanges range }
            (by rw [UInt64.lt_iff_toNat_lt] at hadv hlt; omega)
          have hdec : M.readCogMethodAt range.start = some range := by rw [hspan.start_eq, hread]
          refine ⟨range :: l, c, blocked,
            ⟨⟨hspan.start_eq, hadv, hw.tiled⟩, hw.decoded.cons hdec, fun x hx => ?_, ?_⟩, heq⟩
          · rcases List.mem_cons.mp hx with rfl | hx
            · rw [hspan.start_eq]; exact hlt
            · exact hw.below x hx
          · rcases hw.ended with ⟨h1, h2⟩ | h
            · exact .inl ⟨h1, by rw [h2]; simp⟩
            · exact .inr h
    · rw [if_neg hlt]
      exact ⟨[], cursor, s.methodZoneBlockedCursor,
        ⟨rfl, .nil, (fun _ h => nomatch h), .inl ⟨not_lt.mp hlt, rfl⟩⟩, rfl⟩

/-- The walk from `scanStart` and everything it changes. -/
theorem walkFrom_spec (s : Symbolizer) (M : Memory) (base : UInt64) {freeStart scanStart : UInt64}
    (hlt : scanStart < freeStart) :
    ∃ l c blocked, Walked M freeStart scanStart s.methodZoneBlockedCursor l c blocked ∧
      s.walkFrom M base freeStart scanStart = (s.adoptBounds M base freeStart).loaded l c blocked := by
  unfold walkFrom
  rw [if_neg (not_le.mpr hlt)]
  have hfuel : freeStart.toNat - scanStart.toNat ≤ (freeStart - scanStart).toNat := by
    rw [UInt64.toNat_sub_of_le _ _ (le_of_lt hlt)]
  exact walkZone_spec M freeStart _ scanStart (s.adoptBounds M base freeStart) hfuel

/-- Loading a tiling behind sorted ranges that end before it appends it. -/
theorem foldl_insert_tiled : ∀ {l ranges : List CogMethodRange} {a b : UInt64},
    TiledRanges l a b → SortedRanges ranges → (∀ x ∈ ranges, x.start < a) →
    l.foldl insertMethodRange ranges = ranges ++ l
  | [], ranges, _, _, _, _, _ => by simp
  | x :: l, ranges, a, b, ⟨h0, h1, h2⟩, hs, hlt => by
    have hput : insertMethodRange ranges x = ranges ++ [x] := by
      rw [insertMethodRange_eq hs]
      exact put_append fun y hy => h0 ▸ hlt y hy
    have hs' : SortedRanges (ranges ++ [x]) := hput ▸ sorted_insertMethodRange hs x
    rw [List.foldl_cons, hput, foldl_insert_tiled h2 hs' fun y hy => ?_, List.append_assoc]
    · rfl
    · rcases List.mem_append.mp hy with hy | hy
      · exact (hlt y hy).trans h1
      · rw [List.mem_singleton.mp hy, h0]; exact h1

/-! ## Refreshing -/

/-- The bounds `refresh_method_zone` reads. -/
def readBounds (s : Symbolizer) (M : Memory) : Option (UInt64 × UInt64) :=
  s.methodZoneSymbols.bind (readMethodZoneBounds M)

theorem readMethodZoneBounds_lt {M : Memory} {symbols : MethodZoneSymbols} {base freeStart : UInt64}
    (h : readMethodZoneBounds M symbols = some (base, freeStart)) : base < freeStart := by
  simp only [readMethodZoneBounds, Option.bind_eq_bind, Option.bind_eq_some_iff] at h
  obtain ⟨b, _, f, _, h⟩ := h
  split at h
  · cases h
  · rename_i hg
    cases h
    simp only [not_or] at hg
    exact not_le.mp hg.2.1

theorem readBounds_lt {s : Symbolizer} {M : Memory} {base freeStart : UInt64}
    (h : s.readBounds M = some (base, freeStart)) : base < freeStart := by
  obtain ⟨symbols, _, h⟩ := Option.bind_eq_some_iff.mp h
  exact readMethodZoneBounds_lt h

/-- The ways out of `refresh_method_zone`. -/
inductive Refreshes (s : Symbolizer) (M : Memory) : Symbolizer → Prop
  | unread (hr : s.readBounds M = none) : Refreshes s M s
  | upToDate {base freeStart : UInt64} (hr : s.readBounds M = some (base, freeStart))
      (hb : s.methodZoneBounds = some (base, freeStart))
      (hc : freeStart ≤ s.methodZoneScanCursor.getD base ∨
        s.methodZoneBlockedCursor = some (s.methodZoneScanCursor.getD base)) : Refreshes s M s
  | resumed {base freeStart : UInt64} {l : List CogMethodRange} {c : UInt64} {blocked : Option UInt64}
      (hr : s.readBounds M = some (base, freeStart)) (hb : s.methodZoneBounds = some (base, freeStart))
      (hlt : s.methodZoneScanCursor.getD base < freeStart)
      (hblocked : s.methodZoneBlockedCursor ≠ some (s.methodZoneScanCursor.getD base))
      (hw : Walked M freeStart (s.methodZoneScanCursor.getD base) s.methodZoneBlockedCursor l c blocked) :
      Refreshes s M ((s.adoptBounds M base freeStart).loaded l c blocked)
  | grownBlocked {base before freeStart : UInt64} (hr : s.readBounds M = some (base, freeStart))
      (hb : s.methodZoneBounds = some (base, before)) (hgrow : before < freeStart)
      (hblocked : s.methodZoneBlockedCursor = some (s.methodZoneScanCursor.getD before)) :
      Refreshes s M (s.adoptBounds M base freeStart)
  | overrun {base before freeStart : UInt64} (hr : s.readBounds M = some (base, freeStart))
      (hb : s.methodZoneBounds = some (base, before)) (hgrow : before < freeStart)
      (hle : freeStart ≤ s.methodZoneScanCursor.getD before) : Refreshes s M s
  | grown {base before freeStart : UInt64} {l : List CogMethodRange} {c : UInt64}
      {blocked : Option UInt64} (hr : s.readBounds M = some (base, freeStart))
      (hb : s.methodZoneBounds = some (base, before)) (hgrow : before < freeStart)
      (hblocked : s.methodZoneBlockedCursor ≠ some (s.methodZoneScanCursor.getD before))
      (hw : Walked M freeStart (s.methodZoneScanCursor.getD before) s.methodZoneBlockedCursor l c
        blocked) :
      Refreshes s M ((s.adoptBounds M base freeStart).loaded l c blocked)
  | moved {base freeStart : UInt64} {l : List CogMethodRange} {c : UInt64} {blocked : Option UInt64}
      (hr : s.readBounds M = some (base, freeStart))
      (hmoved : ∀ before, s.methodZoneBounds = some (base, before) → freeStart < before)
      (hw : Walked M freeStart base none l c blocked) :
      Refreshes s M ((s.clearZone.adoptBounds M base freeStart).loaded l c blocked)

theorem refreshMethodZone_cases (s : Symbolizer) (M : Memory) :
    Refreshes s M (s.refreshMethodZone M) := by
  unfold refreshMethodZone
  cases hsym : s.methodZoneSymbols with
  | none => exact .unread (by rw [readBounds, hsym]; rfl)
  | some symbols =>
    have hrb : s.readBounds M = readMethodZoneBounds M symbols := by rw [readBounds, hsym]; rfl
    simp only
    cases hread : readMethodZoneBounds M symbols with
    | none => exact .unread (hrb.trans hread)
    | some bounds =>
      obtain ⟨base, freeStart⟩ := bounds
      have hr := hrb.trans hread
      have hmoved : (∀ before, s.methodZoneBounds = some (base, before) → freeStart < before) →
          Refreshes s M (s.clearZone.walkFrom M base freeStart base) := fun h => by
        obtain ⟨l, c, blocked, hw, heq⟩ := s.clearZone.walkFrom_spec M base (readBounds_lt hr)
        rw [heq]
        exact .moved hr h hw
      simp only
      split
      · rename_i hb
        split
        · rename_i hc
          exact .upToDate hr hb hc
        · rename_i hc
          obtain ⟨hlt, hblocked⟩ := not_or.mp hc
          obtain ⟨l, c, blocked, hw, heq⟩ := s.walkFrom_spec M base (not_le.mp hlt)
          rw [heq]
          exact .resumed hr hb (not_le.mp hlt) hblocked hw
      · rename_i hb
        split
        · rename_i previousBase before hprev
          split
          · rename_i hg
            obtain ⟨rfl, hgrow⟩ := hg
            split
            · rename_i hblocked
              exact .grownBlocked hr hprev hgrow hblocked
            · rename_i hblocked
              rcases lt_or_ge (s.methodZoneScanCursor.getD before) freeStart with hlt | hle
              · obtain ⟨l, c, blocked, hw, heq⟩ := s.walkFrom_spec M previousBase hlt
                rw [heq]
                exact .grown hr hprev hgrow hblocked hw
              · rw [walkFrom, if_pos hle]
                exact .overrun hr hprev hgrow hle
          · rename_i hg
            refine hmoved fun before' h => ?_
            rw [hprev] at h
            cases h
            rcases lt_trichotomy before freeStart with h | rfl | h
            · exact absurd ⟨rfl, h⟩ hg
            · exact absurd hprev hb
            · exact h
        · rename_i hnone
          exact hmoved fun before h => by rw [hnone] at h; cases h

/-- A refresh would find nothing to do. -/
def UpToDate (s : Symbolizer) (M : Memory) : Prop :=
  s.readBounds M = none ∨ ∃ base freeStart, s.readBounds M = some (base, freeStart) ∧
    s.methodZoneBounds = some (base, freeStart) ∧
      (freeStart ≤ s.methodZoneScanCursor.getD base ∨
        s.methodZoneBlockedCursor = some (s.methodZoneScanCursor.getD base))

theorem UpToDate.refresh {s : Symbolizer} {M : Memory} (h : s.UpToDate M) : s.refreshMethodZone M = s := by
  have hcases := s.refreshMethodZone_cases M
  generalize s.refreshMethodZone M = s' at hcases
  rcases h with hnone | ⟨base, freeStart, hread, hbounds, hdone⟩
  · cases hcases with
    | unread => rfl
    | upToDate => rfl
    | overrun => rfl
    | resumed hr => rw [hnone] at hr; cases hr
    | grownBlocked hr => rw [hnone] at hr; cases hr
    | grown hr => rw [hnone] at hr; cases hr
    | moved hr => rw [hnone] at hr; cases hr
  · cases hcases with
    | unread => rfl
    | upToDate => rfl
    | overrun => rfl
    | resumed hr hb hlt hblocked =>
      rw [hbounds] at hb
      cases hb
      exact absurd (hdone.resolve_right hblocked) (not_le.mpr hlt)
    | grownBlocked hr hb hgrow =>
      rw [hbounds, ← hread, hr] at hb
      cases hb
      exact absurd hgrow (lt_irrefl _)
    | grown hr hb hgrow =>
      rw [hbounds, ← hread, hr] at hb
      cases hb
      exact absurd hgrow (lt_irrefl _)
    | moved hr hmoved =>
      rw [hread] at hr
      cases hr
      exact absurd (hmoved _ hbounds) (lt_irrefl _)

/-- The end of a walk is past `free_start` or blocked. -/
theorem Walked.upToDate {s : Symbolizer} {M : Memory} {base freeStart cursor c : UInt64}
    {blocked₀ blocked : Option UInt64} {l : List CogMethodRange}
    (hr : s.readBounds M = some (base, freeStart)) (hw : Walked M freeStart cursor blocked₀ l c blocked) :
    ((s.adoptBounds M base freeStart).loaded l c blocked).UpToDate M :=
  .inr ⟨base, freeStart, hr, rfl, hw.ended.imp (fun h => h.1) (fun h => h.2.2)⟩

/-! ## Resolving -/

/-- The state in which `resolve_jit_pc` consults the entry symbols and the
scan: refreshed if the guard says so. -/
def settled (s : Symbolizer) (M : Memory) (pc : UInt64) : Symbolizer :=
  if s.shouldRefresh pc then s.refreshMethodZone M else s

/-- Whether the scan is tried for `pc`. -/
def scans (s : Symbolizer) (pc : UInt64) : Bool := s.pcInMethodZone pc || s.methodZoneBounds.isNone

/-- What the scan finds for `pc`, if it is tried. -/
def met (s : Symbolizer) (M : Memory) (pc : UInt64) : Option CogMethodRange :=
  if s.scans pc then s.scanned M pc else none

/-- The state after the scan found `range`. -/
def insertRange (s : Symbolizer) (range : CogMethodRange) : Symbolizer :=
  { s with methodRanges := insertMethodRange s.methodRanges range }

/-- The ways out of `resolve_jit_pc`, with answer and state after. -/
inductive Resolves (s : Symbolizer) (M : Memory) (pc : UInt64) : Option String → Symbolizer → Prop
  | cached {answer : Option String} (hc : s.resolvedPcs pc = some answer) : Resolves s M pc answer s
  | known {name : String} (hc : s.resolvedPcs pc = none) (h : s.lookupMethodRange pc = some name) :
      Resolves s M pc (some name) (s.cachePc pc (some name))
  | loaded {name : String} (hc : s.resolvedPcs pc = none) (hn : s.lookupMethodRange pc = none)
      (hs : s.shouldRefresh pc = true) (h : (s.settled M pc).lookupMethodRange pc = some name) :
      Resolves s M pc (some name) ((s.settled M pc).cachePc pc (some name))
  | entry {name : String} (hc : s.resolvedPcs pc = none) (hn : s.lookupMethodRange pc = none)
      (hu : (s.settled M pc).lookupMethodRange pc = none)
      (h : (s.settled M pc).lookupJitEntrySymbol pc = some name) :
      Resolves s M pc (some name) ((s.settled M pc).cachePc pc (some name))
  | scanned {range : CogMethodRange} (hc : s.resolvedPcs pc = none)
      (hn : s.lookupMethodRange pc = none) (hu : (s.settled M pc).lookupMethodRange pc = none)
      (he : (s.settled M pc).lookupJitEntrySymbol pc = none)
      (h : (s.settled M pc).met M pc = some range) :
      Resolves s M pc (some range.name)
        (((s.settled M pc).insertRange range).cachePc pc (some range.name))
  | generic (hc : s.resolvedPcs pc = none) (hn : s.lookupMethodRange pc = none)
      (hu : (s.settled M pc).lookupMethodRange pc = none)
      (he : (s.settled M pc).lookupJitEntrySymbol pc = none)
      (h : (s.settled M pc).met M pc = none) :
      Resolves s M pc ((s.settled M pc).genericCogCodeName pc)
        ((s.settled M pc).cachePc pc ((s.settled M pc).genericCogCodeName pc))

theorem resolveJitPc_cases (s : Symbolizer) (M : Memory) (pc : UInt64) :
    Resolves s M pc (s.resolveJitPc M pc).1 (s.resolveJitPc M pc).2 := by
  unfold resolveJitPc
  cases hc : s.resolvedPcs pc with
  | some answer => exact .cached hc
  | none =>
    simp only
    cases hn : s.lookupMethodRange pc with
    | some name => exact .known hc hn
    | none =>
      simp only
      have hunlisted : (s.settled M pc).lookupMethodRange pc = none →
          Resolves s M pc ((s.settled M pc).resolveUnlisted M pc).1
            ((s.settled M pc).resolveUnlisted M pc).2 := fun hu => by
        unfold resolveUnlisted
        cases he : (s.settled M pc).lookupJitEntrySymbol pc with
        | some name => exact .entry hc hn hu he
        | none =>
          simp only
          by_cases hs : (s.settled M pc).scans pc = true
          · have hmet : (s.settled M pc).met M pc = (s.settled M pc).scanned M pc := if_pos hs
            rw [if_pos (show ((s.settled M pc).pcInMethodZone pc ||
              (s.settled M pc).methodZoneBounds.isNone) = true from hs)]
            unfold scanForCogMethod
            cases hr : (s.settled M pc).scanned M pc with
            | some range => exact .scanned hc hn hu he (hmet.trans hr)
            | none => exact .generic hc hn hu he (hmet.trans hr)
          · rw [if_neg (show ¬((s.settled M pc).pcInMethodZone pc ||
              (s.settled M pc).methodZoneBounds.isNone) = true from hs)]
            exact .generic hc hn hu he (if_neg hs)
      by_cases hs : s.shouldRefresh pc = true
      · have hset : s.settled M pc = s.refreshMethodZone M := if_pos hs
        rw [if_pos hs, ← hset]
        cases hu : (s.settled M pc).lookupMethodRange pc with
        | some name => exact .loaded hc hn hs hu
        | none => exact hunlisted hu
      · have hset : s.settled M pc = s := if_neg hs
        have hres := hunlisted (by rw [hset]; exact hn)
        rw [if_neg hs]
        rwa [hset] at hres

/-! ## What a reachable state knows about its zone -/

/-- With bounds known, the walk is blocked at its cursor, or it is past
`free_start` and the ranges are the methods walked over. -/
def Loaded (s : Symbolizer) : Prop :=
  ∀ base freeStart, s.methodZoneBounds = some (base, freeStart) →
    ∃ c, s.methodZoneScanCursor = some c ∧ base ≤ c ∧
      (s.methodZoneBlockedCursor = some c ∨
        (s.methodZoneBlockedCursor = none ∧ freeStart ≤ c ∧ TiledRanges s.methodRanges base c))

/-- The invariant of the symbolizer, whatever memory it has read. -/
structure Inv (s : Symbolizer) : Prop where
  sorted : SortedRanges s.methodRanges
  nonempty : ∀ x ∈ s.methodRanges, x.start < x.stop
  loaded : s.Loaded

theorem Inv.new (maps : List MapRange) (binary : Option BinaryInfo) : (new maps binary).Inv :=
  ⟨.nil, (fun _ h => nomatch h), (fun _ _ h => nomatch h)⟩

theorem mem_foldl_insert : ∀ {l ranges : List CogMethodRange} {x : CogMethodRange},
    SortedRanges ranges → x ∈ l.foldl insertMethodRange ranges → x ∈ l ∨ x ∈ ranges
  | [], _, _, _, h => .inr h
  | y :: l, ranges, x, hs, h => by
    rcases mem_foldl_insert (sorted_insertMethodRange hs y) h with h | h
    · exact .inl (List.mem_cons_of_mem _ h)
    · rcases (mem_insertMethodRange hs).mp h with rfl | ⟨h, _⟩
      · exact .inl List.mem_cons_self
      · exact .inr h

/-- A walk continuing a tiling extends it. -/
theorem loaded_tiled {s : Symbolizer} {M : Memory} {base freeStart cursor c : UInt64}
    {l : List CogMethodRange} {blocked₀ blocked : Option UInt64} (ht : TiledRanges s.methodRanges base cursor)
    (hw : Walked M freeStart cursor blocked₀ l c blocked) :
    (s.loaded l c blocked).methodRanges = s.methodRanges ++ l ∧
      TiledRanges (s.methodRanges ++ l) base c :=
  ⟨foldl_insert_tiled hw.tiled ht.sorted fun x hx =>
    lt_of_lt_of_le (ht.inside x hx).2.1 (ht.inside x hx).2.2, ht.append hw.tiled⟩

/-- A walk that continues a tiling leaves one, and the invariant. -/
theorem Inv.of_walked {s : Symbolizer} {M : Memory} {base freeStart cursor c : UInt64}
    {l : List CogMethodRange} {blocked : Option UInt64} (ht : TiledRanges s.methodRanges base cursor)
    (hw : Walked M freeStart cursor none l c blocked) :
    let s' := (s.adoptBounds M base freeStart).loaded l c blocked
    s'.Inv ∧ TiledRanges s'.methodRanges base c := by
  have hload := loaded_tiled (s := s.adoptBounds M base freeStart) ht hw
  have hl : ((s.adoptBounds M base freeStart).loaded l c blocked).methodRanges = s.methodRanges ++ l :=
    hload.1
  have htiled : TiledRanges (s.methodRanges ++ l) base c := hload.2
  refine ⟨⟨hl ▸ htiled.sorted, fun x hx => (htiled.inside x (hl ▸ hx)).2.1, fun b f hbf => ?_⟩,
    hl ▸ htiled⟩
  cases hbf
  refine ⟨c, rfl, htiled.le, ?_⟩
  rcases hw.ended with ⟨h1, h2⟩ | ⟨_, _, h2⟩
  · refine .inr ⟨?_, h1, hl ▸ htiled⟩
    show blocked = none
    rw [h2]; exact ite_self _
  · exact .inl h2

/-- A refresh keeps the invariant, and leaves the ranges alone or tiled. -/
theorem Inv.refresh_ranges {s : Symbolizer} (h : s.Inv) (M : Memory) :
    (s.refreshMethodZone M).Inv ∧ ((s.refreshMethodZone M).methodRanges = s.methodRanges ∨
      ∃ base c, TiledRanges (s.refreshMethodZone M).methodRanges base c) := by
  have hcases := s.refreshMethodZone_cases M
  generalize s.refreshMethodZone M = s' at hcases
  cases hcases with
  | unread => exact ⟨h, .inl rfl⟩
  | upToDate => exact ⟨h, .inl rfl⟩
  | overrun => exact ⟨h, .inl rfl⟩
  | resumed hr hb hlt hblocked hw =>
    obtain ⟨c, hc, _, hstate⟩ := h.loaded _ _ hb
    rw [hc, Option.getD_some] at hlt hblocked
    rcases hstate with hstate | ⟨_, hle, _⟩
    · exact absurd hstate hblocked
    · exact absurd hlt (not_lt.mpr hle)
  | grownBlocked hr hb hgrow hblocked =>
    obtain ⟨c, hc, hbase, _⟩ := h.loaded _ _ hb
    rw [hc, Option.getD_some] at hblocked
    refine ⟨⟨h.sorted, h.nonempty, fun b f hbf => ?_⟩, .inl rfl⟩
    cases hbf
    exact ⟨c, hc, hbase, .inl hblocked⟩
  | grown hr hb hgrow hblocked hw =>
    obtain ⟨c, hc, _, hstate⟩ := h.loaded _ _ hb
    rw [hc, Option.getD_some] at hblocked hw
    obtain ⟨hnone, _, ht⟩ := hstate.resolve_left hblocked
    rw [hnone] at hw
    obtain ⟨hinv, htiled⟩ := Inv.of_walked ht hw
    exact ⟨hinv, .inr ⟨_, _, htiled⟩⟩
  | moved hr hmoved hw =>
    obtain ⟨hinv, htiled⟩ := Inv.of_walked (s := s.clearZone) rfl hw
    exact ⟨hinv, .inr ⟨_, _, htiled⟩⟩

theorem Inv.refresh {s : Symbolizer} (h : s.Inv) (M : Memory) : (s.refreshMethodZone M).Inv :=
  (h.refresh_ranges M).1

/-- A range after a refresh was there before or is read from the memory at hand. -/
theorem Inv.refresh_mem {s : Symbolizer} (h : s.Inv) {M : Memory} {x : CogMethodRange}
    (hx : x ∈ (s.refreshMethodZone M).methodRanges) :
    x ∈ s.methodRanges ∨ M.readCogMethodAt x.start = some x := by
  have hcases := s.refreshMethodZone_cases M
  generalize s.refreshMethodZone M = s' at hcases hx
  cases hcases with
  | unread => exact .inl hx
  | upToDate => exact .inl hx
  | overrun => exact .inl hx
  | grownBlocked => exact .inl hx
  | resumed _ _ _ _ hw => exact (mem_foldl_insert h.sorted hx).symm.imp_right (hw.decoded x)
  | grown _ _ _ _ hw => exact (mem_foldl_insert h.sorted hx).symm.imp_right (hw.decoded x)
  | moved _ _ hw =>
    rcases mem_foldl_insert .nil hx with hx | hx
    · exact .inr (hw.decoded x hx)
    · cases hx

/-- The scan is tried only with the walk blocked or no bounds known. -/
theorem Loaded.unblocked_listed {s : Symbolizer} (h : s.Loaded) {pc : UInt64}
    (hn : s.lookupMethodRange pc = none) (hs : s.scans pc = true) {base freeStart : UInt64}
    (hb : s.methodZoneBounds = some (base, freeStart)) : s.methodZoneBlockedCursor ≠ none := by
  obtain ⟨c, _, _, hblocked | ⟨_, hle, ht⟩⟩ := h _ _ hb
  · rw [hblocked]; exact Option.some_ne_none c
  · simp only [scans, pcInMethodZone, hb, Option.any_some, Option.isNone_some, Bool.or_false,
      Bool.and_eq_true, decide_eq_true_eq] at hs
    obtain ⟨x, _, _, _, hx⟩ := ht.locate hs.1 (lt_of_lt_of_le hs.2 hle)
    rw [lookupMethodRange_eq, locateRange, hx] at hn
    cases hn

theorem Inv.settled {s : Symbolizer} (h : s.Inv) (M : Memory) (pc : UInt64) : (s.settled M pc).Inv := by
  unfold Symbolizer.settled
  split
  · exact h.refresh M
  · exact h

theorem Inv.cachePc {s : Symbolizer} (h : s.Inv) (pc : UInt64) (answer : Option String) :
    (s.cachePc pc answer).Inv := ⟨h.sorted, h.nonempty, h.loaded⟩

theorem Inv.insertRange {s : Symbolizer} (h : s.Inv) {pc : UInt64} {range : CogMethodRange}
    (hn : s.lookupMethodRange pc = none) (hs : s.scans pc = true) (hne : range.start < range.stop) :
    (s.insertRange range).Inv := by
  refine ⟨sorted_insertMethodRange h.sorted range, fun x hx => ?_, fun base freeStart hb => ?_⟩
  · rcases (mem_insertMethodRange h.sorted).mp hx with rfl | ⟨hx, _⟩
    · exact hne
    · exact h.nonempty x hx
  · obtain ⟨c, hc, hbase, hstate⟩ := h.loaded _ _ hb
    have hblocked := h.loaded.unblocked_listed hn hs hb
    exact ⟨c, hc, hbase, .inl (hstate.resolve_right fun hu => hblocked hu.1)⟩

end Symbolizer

end StSpy
