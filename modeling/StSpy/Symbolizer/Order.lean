import StSpy.Symbolizer.Calls
import StSpy.Lib.Queries

/-!
# The order of queries

Against one memory the first resolve surveys the zone, and from then on the
only thing later resolves can add is a range met by a scan. So the answers to a
set of pcs are free of order exactly when such a range gives no other pc of the
set a name it would not get by itself (`ScanConsistent`).
-/

namespace StSpy

open Blocks

namespace Symbolizer

/-! ## After the first refresh -/

/-- A symbolizer that has walked the zone of `M`, and met nothing else. -/
structure Surveyed (Z : Symbolizer) (M : Memory) : Prop where
  upToDate : Z.UpToDate M
  decoded : DecodedIn M Z.methodRanges
  tiled : ∀ base freeStart, Z.methodZoneBounds = some (base, freeStart) →
    ∃ c, TiledRanges Z.methodRanges base c
  unbounded : Z.methodZoneBounds = none → Z.methodRanges = []
  uncached : ∀ pc, Z.resolvedPcs pc = none

theorem surveyed_new (maps : List MapRange) (binary : Option BinaryInfo) (M : Memory) :
    ((new maps binary).refreshMethodZone M).Surveyed M := by
  have hcases := (new maps binary).refreshMethodZone_cases M
  generalize (new maps binary).refreshMethodZone M = Z at hcases
  cases hcases with
  | unread hr =>
    exact ⟨.inl hr, .nil, (fun _ _ hb => nomatch hb), fun _ => rfl, fun _ => rfl⟩
  | upToDate hr hb => cases hb
  | resumed hr hb => cases hb
  | grownBlocked hr hb => cases hb
  | overrun hr hb => cases hb
  | grown hr hb => cases hb
  | @moved base freeStart l c blocked hr hmoved hw =>
    have hload := loaded_tiled (s := (new maps binary).clearZone.adoptBounds M base freeStart) rfl hw
    refine ⟨hw.upToDate hr, hload.1 ▸ hw.decoded, fun b f hb => ?_, (fun h => nomatch h), fun _ => rfl⟩
    cases hb
    exact ⟨c, hload.1 ▸ hload.2⟩

theorem Surveyed.sorted {Z : Symbolizer} {M : Memory} (h : Z.Surveyed M) :
    SortedRanges Z.methodRanges := by
  cases hb : Z.methodZoneBounds with
  | none => rw [h.unbounded hb]; exact .nil
  | some bounds =>
    obtain ⟨c, ht⟩ := h.tiled bounds.1 bounds.2 hb
    exact ht.sorted

/-- A pc outside the walked ranges at which the scan is tried lies past them. -/
theorem Surveyed.le_of_scans {Z : Symbolizer} {M : Memory} (h : Z.Surveyed M) {q : UInt64}
    (hn : Z.lookupMethodRange q = none) (hs : Z.scans q = true) : ∀ x ∈ Z.methodRanges, x.stop ≤ q := by
  intro x hx
  cases hb : Z.methodZoneBounds with
  | none => rw [h.unbounded hb] at hx; cases hx
  | some bounds =>
    obtain ⟨base, freeStart⟩ := bounds
    obtain ⟨c, ht⟩ := h.tiled base freeStart hb
    simp only [scans, pcInMethodZone, hb, Option.any_some, Option.isNone_some, Bool.or_false,
      Bool.and_eq_true, decide_eq_true_eq] at hs
    rcases lt_or_ge q c with hlt | hge
    · obtain ⟨y, _, _, _, hy⟩ := ht.locate hs.1 hlt
      rw [lookupMethodRange_eq, locateRange, hy] at hn
      cases hn
    · exact (ht.inside x hx).2.2.trans hge

/-! ## What a pc gets by itself -/

theorem Surveyed.settled {Z : Symbolizer} {M : Memory} (h : Z.Surveyed M) (pc : UInt64) :
    Z.settled M pc = Z := by
  unfold Symbolizer.settled
  split
  · exact h.upToDate.refresh
  · rfl

theorem Surveyed.resolveJitPc_label {Z : Symbolizer} {M : Memory} (h : Z.Surveyed M) (pc : UInt64) :
    (Z.resolveJitPc M pc).1 = Z.labelOf M pc := by
  cases hn : Z.lookupMethodRange pc with
  | some name =>
    rw [resolveJitPc_known (h.uncached pc) hn, labelOf, hn]
    rfl
  | none => rw [Symbolizer.resolveJitPc_label (h.uncached pc) hn, h.settled pc]

/-- A fresh symbolizer resolves its first pc as the surveyed one does. -/
theorem resolveJitPc_new (maps : List MapRange) (binary : Option BinaryInfo) (M : Memory) (pc : UInt64) :
    (new maps binary).resolveJitPc M pc =
      ((new maps binary).refreshMethodZone M).resolveJitPc M pc := by
  have hz := surveyed_new maps binary M
  have huncached : (new maps binary).resolvedPcs pc = none := rfl
  have hunlisted : (new maps binary).lookupMethodRange pc = none := rfl
  have hrefresh : (new maps binary).shouldRefresh pc = true := rfl
  simp only [resolveJitPc, huncached, hunlisted, hrefresh, hz.uncached pc, hz.upToDate.refresh, if_true]
  cases hn : ((new maps binary).refreshMethodZone M).lookupMethodRange pc with
  | some name => rfl
  | none => simp only [ite_self]

/-- `name` is what is known of `pc` apart from ranges met by earlier scans: its
walked range, else its entry symbol, else the method the scan meets, else the
generic label. -/
def OwnLabel (Z : Symbolizer) (M : Memory) (pc : UInt64) (name : String) : Prop :=
  match Z.lookupMethodRange pc <|> Z.lookupJitEntrySymbol pc with
  | some known => known = name
  | none => (∃ r, Z.ScanMeets M pc r ∧ r.name = name) ∨
      ((∀ r, ¬Z.ScanMeets M pc r) ∧ Z.genericCogCodeName pc = some name)

theorem ownLabel_iff {Z : Symbolizer} {M : Memory} {pc : UInt64} {name : String} :
    Z.OwnLabel M pc name ↔ Z.labelOf M pc = some name := by
  unfold OwnLabel labelOf
  cases hn : Z.lookupMethodRange pc with
  | some known => exact Option.some_inj.symm
  | none =>
    cases he : Z.lookupJitEntrySymbol pc with
    | some known => exact Option.some_inj.symm
    | none =>
      show (∃ r, Z.ScanMeets M pc r ∧ r.name = name) ∨
        ((∀ r, ¬Z.ScanMeets M pc r) ∧ Z.genericCogCodeName pc = some name) ↔
        ((Z.met M pc).map (·.name) <|> Z.genericCogCodeName pc) = some name
      simp only [← met_eq_some]
      cases Z.met M pc with
      | some r =>
        simp
      | none => simp

/-- Along a run from the surveyed state only the cache grows, and the ranges by
what scans from pcs of `pcs` meet. -/
structure Explored (Z : Symbolizer) (M : Memory) (pcs : Finset UInt64) (s : Symbolizer) : Prop where
  zone : s = { Z with methodRanges := s.methodRanges, resolvedPcs := s.resolvedPcs }
  sorted : SortedRanges s.methodRanges
  kept : ∀ x ∈ Z.methodRanges, x ∈ s.methodRanges
  met : ∀ x ∈ s.methodRanges, x ∈ Z.methodRanges ∨ ∃ q ∈ pcs, Z.lookupMethodRange q = none ∧
    Z.lookupJitEntrySymbol q = none ∧ Z.ScanMeets M q x

variable {Z s : Symbolizer} {M : Memory} {pcs : Finset UInt64} {pc : UInt64}

theorem Surveyed.explored (h : Z.Surveyed M) : Explored Z M pcs Z :=
  ⟨rfl, h.sorted, fun _ hx => hx, fun _ hx => .inl hx⟩

theorem Explored.settled (hz : Z.Surveyed M) (h : Explored Z M pcs s) (pc : UInt64) :
    s.settled M pc = s := by
  have hup : s.UpToDate M := by
    have hread : s.readBounds M = Z.readBounds M := by rw [h.zone]; rfl
    unfold UpToDate
    rw [hread, h.zone]
    exact hz.upToDate
  unfold Symbolizer.settled
  split
  · exact hup.refresh
  · rfl

/-- A range found for `pc` was walked, or met by a scan with no walked range
starting between. -/
theorem Explored.locate (hz : Z.Surveyed M) (h : Explored Z M pcs s) {r : CogMethodRange}
    (hr : locateRange pc s.methodRanges = some r) :
    locateRange pc Z.methodRanges = some r ∨ ∃ q ∈ pcs, Z.lookupMethodRange q = none ∧
      Z.lookupJitEntrySymbol q = none ∧ Z.ScanMeets M q r ∧ r.Covers pc ∧
      ∀ x ∈ Z.methodRanges, x.start ≤ pc → x.start ≤ r.start := by
  obtain ⟨hmem, hle, hlt, hmax⟩ := (locate_eq_some h.sorted).mp hr
  rcases h.met r hmem with hz' | ⟨q, hq, hn, he, hmeets⟩
  · exact .inl ((locate_eq_some hz.sorted).mpr ⟨hz', hle, hlt, fun y hy => hmax y (h.kept y hy)⟩)
  · exact .inr ⟨q, hq, hn, he, hmeets, ⟨hle, hlt⟩, fun x hx => hmax x (h.kept x hx)⟩

/-- Ranges met by scans shadow no walked range. -/
theorem Explored.lookup_none (hz : Z.Surveyed M) (h : Explored Z M pcs s)
    (hn : s.lookupMethodRange pc = none) : Z.lookupMethodRange pc = none := by
  by_contra hsome
  obtain ⟨name, hname⟩ := Option.ne_none_iff_exists'.mp hsome
  rw [lookupMethodRange_eq, Option.map_eq_some_iff] at hname
  obtain ⟨x, hx, _⟩ := hname
  obtain ⟨hmem, hle, hlt, hmax⟩ := (locate_eq_some hz.sorted).mp hx
  -- the last range of `s` at or below `pc` covers it, walked or met beyond the walked ones
  obtain ⟨y, hy, hyle, hymax⟩ := exists_last_le ⟨x, h.kept x hmem, hle⟩
  have hcov : pc < y.stop := by
    rcases h.met y hy with hyz | ⟨q, _, hqn, _, hmeets⟩
    · have : y.start = x.start := le_antisymm (hmax y hyz hyle) (hymax x (h.kept x hmem) hle)
      rw [hz.sorted.inj hyz hmem this]
      exact hlt
    · exact hlt.trans_le ((hz.le_of_scans hqn hmeets.1 x hmem).trans (le_of_lt hmeets.body.2))
  have hloc : locateRange pc s.methodRanges = some y :=
    (locate_eq_some h.sorted).mpr ⟨hy, hyle, hcov, hymax⟩
  rw [lookupMethodRange_eq, hloc] at hn
  cases hn

theorem Explored.lookupJitEntrySymbol_eq (h : Explored Z M pcs s) (pc : UInt64) :
    s.lookupJitEntrySymbol pc = Z.lookupJitEntrySymbol pc := by rw [h.zone]; rfl

theorem Explored.genericCogCodeName_eq (h : Explored Z M pcs s) (pc : UInt64) :
    s.genericCogCodeName pc = Z.genericCogCodeName pc := by rw [h.zone]; rfl

theorem Explored.met_eq (h : Explored Z M pcs s) (pc : UInt64) : s.met M pc = Z.met M pc := by
  rw [h.zone]; rfl

theorem Explored.cachePc (h : Explored Z M pcs s) (pc : UInt64) (answer : Option String) :
    Explored Z M pcs (s.cachePc pc answer) := ⟨by rw [h.zone]; rfl, h.sorted, h.kept, h.met⟩

/-- Inserting a range a scan met drops no walked range: both are read from `M`. -/
theorem Explored.insertRange (hz : Z.Surveyed M) (h : Explored Z M pcs s) {r : CogMethodRange}
    {q : UInt64} (hq : q ∈ pcs) (hn : Z.lookupMethodRange q = none)
    (he : Z.lookupJitEntrySymbol q = none) (hmeets : Z.ScanMeets M q r) :
    Explored Z M pcs (s.insertRange r) := by
  refine ⟨by rw [h.zone]; rfl, sorted_insertMethodRange h.sorted r, fun x hx => ?_, fun x hx => ?_⟩
  · refine (mem_insertMethodRange h.sorted).mpr ?_
    by_cases hstart : x.start = r.start
    · have hdec := hz.decoded x hx
      rw [hstart, hmeets.decoded] at hdec
      exact .inl (Option.some.inj hdec).symm
    · exact .inr ⟨h.kept x hx, hstart⟩
  · rcases (mem_insertMethodRange h.sorted).mp hx with rfl | ⟨hx, _⟩
    · exact .inr ⟨q, hq, hn, he, hmeets⟩
    · exact h.met x hx

theorem Explored.resolve (hz : Z.Surveyed M) (h : Explored Z M pcs s) (hpc : pc ∈ pcs) :
    Explored Z M pcs (s.resolve (M, pc)) := by
  have hcases := s.resolveJitPc_cases M pc
  unfold Symbolizer.resolve
  generalize s.resolveJitPc M pc = res at hcases
  obtain ⟨answer, s'⟩ := res
  have hset := h.settled hz pc
  cases hcases with
  | cached => exact h
  | known => exact h.cachePc _ _
  | loaded => exact (hset ▸ h).cachePc _ _
  | entry => exact (hset ▸ h).cachePc _ _
  | generic => exact (hset ▸ h).cachePc _ _
  | scanned hc hn hu he hr =>
    rw [hset] at he hr ⊢
    rw [h.met_eq] at hr
    rw [h.lookupJitEntrySymbol_eq] at he
    exact (h.insertRange hz hpc (h.lookup_none hz hn) he (met_eq_some.mp hr)).cachePc _ _

/-! ## Order -/

/-- Of the pcs in `pcs`: a method met by a scan from one of them gives those it
covers, as far as no walked range starts between, only their own label. -/
def ScanConsistent (Z : Symbolizer) (M : Memory) (pcs : Finset UInt64) : Prop :=
  ∀ q ∈ pcs, ∀ pc ∈ pcs, ∀ r, Z.lookupMethodRange q = none → Z.lookupJitEntrySymbol q = none →
    Z.ScanMeets M q r → r.Covers pc → (∀ x ∈ Z.methodRanges, x.start ≤ pc → x.start ≤ r.start) →
    Z.OwnLabel M pc r.name

/-- In an explored state a pc not resolved before gets its own label. -/
theorem Explored.resolveJitPc_label (hz : Z.Surveyed M) (hcon : Z.ScanConsistent M pcs)
    (h : Explored Z M pcs s) (hpc : pc ∈ pcs) (hc : s.resolvedPcs pc = none) :
    (s.resolveJitPc M pc).1 = Z.labelOf M pc := by
  cases hn : s.lookupMethodRange pc with
  | none =>
    rw [Symbolizer.resolveJitPc_label hc hn, h.settled hz, labelOf, labelOf, hn, h.lookup_none hz hn,
      h.lookupJitEntrySymbol_eq, h.met_eq, h.genericCogCodeName_eq]
  | some name =>
    rw [resolveJitPc_known hc hn]
    rw [lookupMethodRange_eq, Option.map_eq_some_iff] at hn
    obtain ⟨r, hr, rfl⟩ := hn
    rcases h.locate hz hr with hwalked | ⟨q, hq, hqn, hqe, hmeets, hcov, hmax⟩
    · rw [labelOf, lookupMethodRange_eq, hwalked]
      rfl
    · exact (ownLabel_iff.mp (hcon q hq pc hpc r hqn hqe hmeets hcov hmax)).symm

/-- After a scan from `q` met `r`, a pc that `r` covers is named after it. -/
theorem Surveyed.resolveJitPc_after (hz : Z.Surveyed M) {q : UInt64} {r : CogMethodRange}
    (hn : Z.lookupMethodRange q = none) (he : Z.lookupJitEntrySymbol q = none)
    (hmeets : Z.ScanMeets M q r) (hne : pc ≠ q) (hcov : r.Covers pc)
    (hmax : ∀ x ∈ Z.methodRanges, x.start ≤ pc → x.start ≤ r.start) :
    ((Z.resolve (M, q)).resolveJitPc M pc).1 = some r.name := by
  have hstate : Z.resolve (M, q) = (Z.insertRange r).cachePc q (some r.name) := by
    have hcases := Z.resolveJitPc_cases M q
    unfold Symbolizer.resolve
    generalize Z.resolveJitPc M q = res at hcases
    obtain ⟨answer, s'⟩ := res
    have hset := hz.settled q
    have hr := met_eq_some.mpr hmeets
    cases hcases with
    | cached hc => rw [hz.uncached] at hc; cases hc
    | known _ hn' => rw [hn] at hn'; cases hn'
    | loaded _ _ _ hu => rw [hset, hn] at hu; cases hu
    | entry _ _ _ he' => rw [hset, he] at he'; cases he'
    | generic _ _ _ _ hr' => rw [hset, hr] at hr'; cases hr'
    | scanned _ _ _ _ hr' =>
      rw [hset, hr] at hr'
      cases hr'
      rw [hset]
      rfl
  have hsorted := sorted_insertMethodRange hz.sorted r
  have hloc : locateRange pc (insertMethodRange Z.methodRanges r) = some r := by
    refine (locate_eq_some hsorted).mpr
      ⟨(mem_insertMethodRange hz.sorted).mpr (.inl rfl), hcov.1, hcov.2, fun y hy hyp => ?_⟩
    rcases (mem_insertMethodRange hz.sorted).mp hy with rfl | ⟨hy, _⟩
    · exact le_rfl
    · exact hmax y hy hyp
  rw [hstate]
  refine resolveJitPc_known ((Function.update_of_ne hne _ _).trans (hz.uncached pc)) ?_
  show lookupMethodRange ((Z.insertRange r).cachePc q (some r.name)) pc = some r.name
  rw [lookupMethodRange_eq]
  exact congrArg (Option.map (·.name)) hloc

theorem run_eq_runResolves (s : Symbolizer) (M : Memory) (l : List UInt64) :
    Queries.run (fun s pc => s.resolveJitPc M pc) s l = s.runResolves (l.map fun pc => (M, pc)) :=
  (List.foldl_map (f := fun pc => (M, pc)) (g := resolve)).symm

/-- The answers to a set of pcs, resolved against one memory on a fresh
symbolizer, are free of order exactly when its scans are consistent. -/
theorem orderFree_iff_scanConsistent (maps : List MapRange) (binary : Option BinaryInfo) (M : Memory)
    (pcs : Finset UInt64) :
    Queries.OrderFree (fun s pc => s.resolveJitPc M pc) (new maps binary) pcs ↔
      ((new maps binary).refreshMethodZone M).ScanConsistent M pcs := by
  have hz := surveyed_new maps binary M
  have hnew := resolveJitPc_new maps binary M
  generalize (new maps binary).refreshMethodZone M = Z at hz hnew
  rw [Queries.orderFree_iff]
  constructor
  · intro hfree q hq pc hpc r hn he hmeets hcov hmax
    rw [ownLabel_iff]
    by_cases hne : pc = q
    · rw [hne, labelOf, hn, he, met_eq_some.mpr hmeets]
      rfl
    · have hsame := hfree [q] pc (by simpa using Ne.symm hne) (by simp [hq, hpc])
      have hrun : Queries.run (fun s pc => s.resolveJitPc M pc) (new maps binary) [q] = Z.resolve (M, q) := by
        show ((new maps binary).resolveJitPc M q).2 = (Z.resolveJitPc M q).2
        rw [hnew]
      rw [hrun, hz.resolveJitPc_after hn he hmeets hne hcov hmax, hnew, hz.resolveJitPc_label] at hsame
      exact hsame.symm
  · intro hcon l k hnodup hsub
    have hl : ∀ x ∈ l, x ∈ pcs := fun x hx => hsub x (List.mem_append_left _ hx)
    have hk : k ∈ pcs := hsub k (by simp)
    cases l with
    | nil => rfl
    | cons q l =>
      have hrun : Queries.run (fun s pc => s.resolveJitPc M pc) (new maps binary) (q :: l) =
          Queries.run (fun s pc => s.resolveJitPc M pc) Z (q :: l) := by
        show Queries.run _ ((new maps binary).resolveJitPc M q).2 l = Queries.run _ (Z.resolveJitPc M q).2 l
        rw [hnew]
      have hexp : Explored Z M pcs (Queries.run (fun s pc => s.resolveJitPc M pc) Z (q :: l)) :=
        Queries.run_invariant (fun s x hx h => h.resolve hz (hl x hx)) hz.explored
      have hcache : (Queries.run (fun s pc => s.resolveJitPc M pc) Z (q :: l)).resolvedPcs k = none := by
        rw [run_eq_runResolves]
        refine runResolves_cache _ (fun r hr => ?_) (hz.uncached k)
        obtain ⟨x, hx, rfl⟩ := List.mem_map.mp hr
        rintro rfl
        exact (List.nodup_append.mp hnodup).2.2 k hx k (List.mem_singleton.mpr rfl) rfl
      rw [hrun, hexp.resolveJitPc_label hz hcon hk hcache, hnew, hz.resolveJitPc_label]

/-- A method of size 0x40 at 0x1000, its selector a one-byte object at 0x20000. -/
def loneMethod : Memory :=
  .ofWords [(0x1008, 0x4000000500), (0x1010, 0), (0x1018, 0), (0x1020, 0x20000),
    (0x20000, 0x0100000017000000), (0x20008, 0x61)]

def jitMap : MapRange := { start := 0x1000, size := 0x1000, isExec := true, filename := none }

/-- A pc in the header is named after the method once a scan from the body has
stored it, and not before. -/
theorem loneMethod_order :
    ¬∀ pcs, Queries.OrderFree (fun s pc => s.resolveJitPc loneMethod pc) (new [jitMap] none) pcs := by
  intro h
  have hperm := h {0x1010, 0x1030} [0x1010, 0x1030] [0x1030, 0x1010] (by decide) (by decide) (by decide)
    (by decide)
  have h1 : Queries.answers (fun s pc => s.resolveJitPc loneMethod pc) (new [jitMap] none)
      [0x1010, 0x1030] = [(0x1010, some "JIT frame"), (0x1030, some "JIT method>>a")] := by
    decide +kernel
  have h2 : Queries.answers (fun s pc => s.resolveJitPc loneMethod pc) (new [jitMap] none)
      [0x1030, 0x1010] = [(0x1030, some "JIT method>>a"), (0x1010, some "JIT method>>a")] := by
    decide +kernel
  rw [h1, h2] at hperm
  exact absurd (hperm.mem_iff.mp List.mem_cons_self) (by decide)

end Symbolizer

end StSpy
