import StSpy.PauseTiming
import StSpy.Lib.Errors
import Mathlib.Algebra.GroupWithZero.Nat

/-!
# Exact pause statistics

The total and the extremes are those of all pauses, up to the 2^64 samples the
counter can count. The average divides by the count cut to 32 bits, so a report
is exact while fewer than 2^32 samples were recorded, and after that only where
the wrong divisor makes no difference.
-/

namespace StSpy

open Errors

namespace PauseTiming

def pausesOf (calls : List Measured) : List Nat := calls.map (·.pause.nanos)

/-- The pauses since the counter was last zero. -/
def recent (pauses : List Nat) : List Nat := pauses.drop ((pauses.length - 1) / 2 ^ 64 * 2 ^ 64)

/-- The report gives the mean of the pauses, rounded down, and their extremes
around it. -/
structure Exact (r : PauseReport) (pauses : List Nat) : Prop where
  avg_eq : r.avg.nanos = pauses.sum / pauses.length
  min_le_avg : r.pauseMin.nanos ≤ r.avg.nanos
  avg_le_max : r.avg.nanos ≤ r.pauseMax.nanos
  least : pauses.min? = some r.pauseMin.nanos
  greatest : pauses.max? = some r.pauseMax.nanos

/-- The call after others does not divide by zero, and its report is exact. -/
def CallExact (calls : List Measured) (m : Measured) : Prop :=
  ∀ s, run calls = .ok s → s.record m ≠ .error .divideByZero ∧
    ∀ s' r, s.record m = .ok (s', some r) → Exact r (pausesOf (calls ++ [m]))

/-- A report falls due at the call. -/
def Due (calls : List Measured) (m : Measured) : Prop :=
  ∃ s s', run calls = .ok s ∧ s.tally m = .ok s' ∧ s'.reportDue m = true

/-- The narrowed count divides as the count does, and the extremes are recent. -/
structure CountFits (pauses : List Nat) : Prop where
  divides : pauses.length % 2 ^ 32 ≠ 0
  short : pauses.sum < pauses.length % 2 ^ 32 * (pauses.sum / pauses.length + 1)
  least : (recent pauses).min? = pauses.min?
  greatest : (recent pauses).max? = pauses.max?

/-! ## What a state knows of its pauses -/

structure Tallied (s : PauseTiming) (pauses : List Nat) : Prop where
  samples : s.samples.toNat = pauses.length % 2 ^ 64
  total : s.pauseTotal.nanos = pauses.sum
  least : pauses ≠ [] → (recent pauses).min? = some s.pauseMin.nanos
  greatest : pauses ≠ [] → (recent pauses).max? = some s.pauseMax.nanos

theorem tallied_initial : Tallied {} [] := ⟨rfl, rfl, nofun, nofun⟩

theorem min?_concat {l : List Nat} {least : Nat} (h : l.min? = some least) (p : Nat) :
    (l ++ [p]).min? = some (min least p) := by
  cases l with
  | nil => cases h
  | cons first l =>
    rw [List.min?_cons', Option.some.injEq] at h
    rw [List.cons_append, List.min?_cons', List.foldl_append, h]
    rfl

theorem max?_concat {l : List Nat} {greatest : Nat} (h : l.max? = some greatest) (p : Nat) :
    (l ++ [p]).max? = some (max greatest p) := by
  cases l with
  | nil => cases h
  | cons first l =>
    rw [List.max?_cons', Option.some.injEq] at h
    rw [List.cons_append, List.max?_cons', List.foldl_append, h]
    rfl

theorem recent_concat (pauses : List Nat) (p : Nat) :
    recent (pauses ++ [p]) = if pauses.length % 2 ^ 64 = 0 then [p] else recent pauses ++ [p] := by
  unfold recent
  rw [List.length_append, List.length_singleton, Nat.add_sub_cancel]
  split
  · rename_i hzero
    have hall : pauses.length / 2 ^ 64 * 2 ^ 64 = pauses.length := by omega
    rw [hall, List.drop_left]
  · rename_i hzero
    have hsame : pauses.length / 2 ^ 64 * 2 ^ 64 = (pauses.length - 1) / 2 ^ 64 * 2 ^ 64 := by omega
    rw [hsame, List.drop_append_of_le_length (by omega)]

theorem add_eq_ok {a b c : Duration} (h : a.add b = .ok c) : c.nanos = a.nanos + b.nanos := by
  unfold Duration.add at h
  split at h
  · cases h
    rfl
  · cases h

theorem add_ne_divideByZero (a b : Duration) : a.add b ≠ .error .divideByZero := by
  unfold Duration.add
  split <;> nofun

/-- What a call has added before the report. -/
structure Added (s : PauseTiming) (m : Measured) (s' : PauseTiming) : Prop where
  samples : s'.samples = s.samples + 1
  total : s'.pauseTotal.nanos = s.pauseTotal.nanos + m.pause.nanos
  pauseMin : s'.pauseMin = (s.noteExtremes m).pauseMin
  pauseMax : s'.pauseMax = (s.noteExtremes m).pauseMax

theorem added_of_tally {s s' : PauseTiming} {m : Measured} (h : s.tally m = .ok s') : Added s m s' := by
  have hnoted : (s.noteExtremes m).samples = s.samples ∧ (s.noteExtremes m).pauseTotal = s.pauseTotal := by
    unfold noteExtremes
    split <;> exact ⟨rfl, rfl⟩
  obtain ⟨pauseTotal, hpause, h⟩ := bind_eq_ok h
  obtain ⟨cogTotal, _, h⟩ := bind_eq_ok h
  obtain ⟨lockTotal, _, h⟩ := bind_eq_ok h
  obtain ⟨unwindTotal, _, h⟩ := bind_eq_ok h
  obtain ⟨detachTotal, _, h⟩ := bind_eq_ok h
  cases h
  rw [hnoted.2] at hpause
  exact ⟨by rw [hnoted.1], add_eq_ok hpause, rfl, rfl⟩

theorem tally_ne_divideByZero (s : PauseTiming) (m : Measured) : s.tally m ≠ .error .divideByZero := by
  intro h
  obtain h | ⟨pauseTotal, _, h⟩ := bind_eq_error h
  · exact add_ne_divideByZero _ _ h
  obtain h | ⟨cogTotal, _, h⟩ := bind_eq_error h
  · exact add_ne_divideByZero _ _ h
  obtain h | ⟨lockTotal, _, h⟩ := bind_eq_error h
  · exact add_ne_divideByZero _ _ h
  obtain h | ⟨unwindTotal, _, h⟩ := bind_eq_error h
  · exact add_ne_divideByZero _ _ h
  obtain h | ⟨detachTotal, _, h⟩ := bind_eq_error h
  · exact add_ne_divideByZero _ _ h
  cases h

/-- A call adds its pause to what the state knows. -/
theorem Tallied.added {s s' : PauseTiming} {m : Measured} {pauses : List Nat} (h : Tallied s pauses)
    (hadd : Added s m s') : Tallied s' (pauses ++ [m.pause.nanos]) := by
  have hlt := s.samples.toNat_lt
  have hzero : s.samples = 0 ↔ pauses.length % 2 ^ 64 = 0 := by
    rw [← UInt64.toNat_inj, h.samples]
    rfl
  have hsamples : s'.samples.toNat = (pauses ++ [m.pause.nanos]).length % 2 ^ 64 := by
    rw [hadd.samples, UInt64.toNat_add, h.samples, List.length_append, List.length_singleton]
    show (pauses.length % 2 ^ 64 + 1) % 2 ^ 64 = _
    omega
  have htotal : s'.pauseTotal.nanos = (pauses ++ [m.pause.nanos]).sum := by
    rw [hadd.total, h.total, List.sum_append, List.sum_singleton]
  by_cases hfirst : pauses.length % 2 ^ 64 = 0
  · -- the first sample, or the first after the counter has wrapped
    have hrecent : recent (pauses ++ [m.pause.nanos]) = [m.pause.nanos] := by
      rw [recent_concat, if_pos hfirst]
    have hmin : s'.pauseMin = m.pause := by
      rw [hadd.pauseMin, noteExtremes, if_pos (hzero.mpr hfirst)]
    have hmax : s'.pauseMax = m.pause := by
      rw [hadd.pauseMax, noteExtremes, if_pos (hzero.mpr hfirst)]
    refine ⟨hsamples, htotal, fun _ => ?_, fun _ => ?_⟩
    · rw [hrecent, hmin]
      rfl
    · rw [hrecent, hmax]
      rfl
  · have hne : pauses ≠ [] := by
      rintro rfl
      exact hfirst rfl
    have hrecent : recent (pauses ++ [m.pause.nanos]) = recent pauses ++ [m.pause.nanos] := by
      rw [recent_concat, if_neg hfirst]
    have hmin : s'.pauseMin.nanos = min s.pauseMin.nanos m.pause.nanos := by
      rw [hadd.pauseMin, noteExtremes, if_neg (mt hzero.mp hfirst)]
      dsimp only
      split <;> omega
    have hmax : s'.pauseMax.nanos = max s.pauseMax.nanos m.pause.nanos := by
      rw [hadd.pauseMax, noteExtremes, if_neg (mt hzero.mp hfirst)]
      dsimp only
      split <;> omega
    refine ⟨hsamples, htotal, fun _ => ?_, fun _ => ?_⟩
    · rw [hrecent, hmin]
      exact min?_concat (h.least hne) m.pause.nanos
    · rw [hrecent, hmax]
      exact max?_concat (h.greatest hne) m.pause.nanos

/-- Only the time of the last report is set after that. -/
theorem Tallied.record {s s' : PauseTiming} {m : Measured} {r : Option PauseReport} {pauses : List Nat}
    (h : Tallied s pauses) (hr : s.record m = .ok (s', r)) : Tallied s' (pauses ++ [m.pause.nanos]) := by
  obtain ⟨tallied, htally, hr⟩ := bind_eq_ok hr
  have hadded := h.added (added_of_tally htally)
  split at hr
  · obtain ⟨report, _, hr⟩ := bind_eq_ok hr
    cases hr
    exact ⟨hadded.samples, hadded.total, hadded.least, hadded.greatest⟩
  · cases hr
    exact hadded

theorem tallied_run {calls : List Measured} {s : PauseTiming} (h : run calls = .ok s) :
    Tallied s (pausesOf calls) := by
  refine foldlM_invariant (P := fun calls s => Tallied s (pausesOf calls)) tallied_initial ?_ h
  intro calls m s s' hs hstep
  obtain ⟨⟨after, r⟩, hr, rfl⟩ := map_eq_ok hstep
  rw [pausesOf, List.map_append]
  exact hs.record hr

/-! ## Reports -/

/-- Dividing by the narrowed count and by the count gives the same exactly when
the total is this small. -/
theorem div_narrowed_iff {total count : Nat} (hne : count % 2 ^ 32 ≠ 0) :
    total / (count % 2 ^ 32) = total / count ↔ total < count % 2 ^ 32 * (total / count + 1) := by
  have hpos : 0 < count % 2 ^ 32 := Nat.pos_of_ne_zero hne
  have hge : total / count ≤ total / (count % 2 ^ 32) := Nat.div_le_div_left (Nat.mod_le _ _) hpos
  rw [Nat.mul_comm, ← Nat.div_lt_iff_lt_mul hpos]
  omega

theorem Tallied.narrowed {s : PauseTiming} {pauses : List Nat} (h : Tallied s pauses) :
    s.samples.toUInt32.toNat = pauses.length % 2 ^ 32 := by
  rw [UInt64.toNat_toUInt32, h.samples]
  omega

/-- A report divides by the narrowed count. -/
theorem Tallied.report_eq {s : PauseTiming} {pauses : List Nat} (h : Tallied s pauses) (m : Measured) :
    (pauses.length % 2 ^ 32 = 0 ∧ s.report m = .error .divideByZero) ∨
      pauses.length % 2 ^ 32 ≠ 0 ∧ ∃ r, s.report m = .ok r ∧ r.avg.nanos = pauses.sum / (pauses.length % 2 ^ 32) ∧
        r.pauseMin = s.pauseMin ∧ r.pauseMax = s.pauseMax := by
  have hzero : s.samples.toUInt32 = 0 ↔ pauses.length % 2 ^ 32 = 0 := by
    rw [← UInt32.toNat_inj, h.narrowed]
    rfl
  by_cases hdiv : pauses.length % 2 ^ 32 = 0
  · refine .inl ⟨hdiv, ?_⟩
    rw [report, Duration.div, if_pos (hzero.mpr hdiv)]
    rfl
  · refine .inr ⟨hdiv, ?_⟩
    rw [report, Duration.div, if_neg (mt hzero.mp hdiv), ← h.total, ← h.narrowed]
    exact ⟨_, rfl, rfl, rfl, rfl⟩

/-- A report is given, and is exact, exactly when the count fits. -/
theorem Tallied.report_iff {s : PauseTiming} {pauses : List Nat} (h : Tallied s pauses) (hne : pauses ≠ [])
    (m : Measured) : (∃ r, s.report m = .ok r ∧ Exact r pauses) ↔ CountFits pauses := by
  obtain ⟨hdiv, herror⟩ | ⟨hdiv, r, hr, havg, hmin, hmax⟩ := h.report_eq m
  · constructor
    · rintro ⟨r, hr, -⟩
      rw [herror] at hr
      cases hr
    · intro hfits
      exact absurd hdiv hfits.divides
  · have hleast := h.least hne
    have hgreatest := h.greatest hne
    rw [← hmin] at hleast
    rw [← hmax] at hgreatest
    constructor
    · rintro ⟨r', hr', hexact⟩
      rw [hr] at hr'
      cases hr'
      refine ⟨hdiv, ?_, hleast.trans hexact.least.symm, hgreatest.trans hexact.greatest.symm⟩
      rw [← div_narrowed_iff hdiv, ← havg, hexact.avg_eq]
    · intro hfits
      have hmean := (div_narrowed_iff hdiv).mpr hfits.short
      rw [hfits.least] at hleast
      rw [hfits.greatest] at hgreatest
      rw [hmean] at havg
      refine ⟨r, hr, havg, ?_, ?_, hleast, hgreatest⟩
      · rw [havg]
        exact List.le_sum_div_length_of_min?_eq_some_nat hleast
      · rw [havg]
        exact List.sum_div_length_le_max_of_max?_eq_some_nat hgreatest

theorem record_due {s s' : PauseTiming} {m : Measured} (htally : s.tally m = .ok s') (hdue : s'.reportDue m = true) :
    s.record m = (s'.report m).map fun r => ({ s' with lastReport := some m.reported }, some r) := by
  rw [record, htally]
  show (if s'.reportDue m = true then _ else _) = _
  rw [if_pos hdue]
  cases s'.report m <;> rfl

theorem record_quiet {s s' : PauseTiming} {m : Measured} (htally : s.tally m = .ok s')
    (hdue : s'.reportDue m ≠ true) : s.record m = .ok (s', none) := by
  rw [record, htally]
  exact if_neg hdue

/-- A call is exact exactly when the count fits, if a report falls due. -/
theorem callExact_iff (calls : List Measured) (m : Measured) :
    CallExact calls m ↔ (Due calls m → CountFits (pausesOf (calls ++ [m]))) := by
  have hne : pausesOf (calls ++ [m]) ≠ [] := by simp [pausesOf]
  have htallied {s s' : PauseTiming} (hrun : run calls = .ok s) (htally : s.tally m = .ok s') :
      Tallied s' (pausesOf (calls ++ [m])) := by
    rw [pausesOf, List.map_append]
    exact (tallied_run hrun).added (added_of_tally htally)
  constructor
  · rintro h ⟨s, s', hrun, htally, hdue⟩
    obtain ⟨hdiv, hexact⟩ := h s hrun
    rw [record_due htally hdue] at hdiv hexact
    refine ((htallied hrun htally).report_iff hne m).mp ?_
    obtain ⟨-, herror⟩ | ⟨-, r, hr, -⟩ := (htallied hrun htally).report_eq m
    · rw [herror] at hdiv
      exact absurd rfl hdiv
    · rw [hr] at hexact
      exact ⟨r, hr, hexact _ r rfl⟩
  · intro h s hrun
    cases htally : s.tally m with
    | error e =>
      have herror : s.record m = .error e := by
        rw [record, htally]
        rfl
      rw [herror]
      refine ⟨fun he => ?_, nofun⟩
      rw [Except.error.inj he] at htally
      exact tally_ne_divideByZero s m htally
    | ok s' =>
      by_cases hdue : s'.reportDue m = true
      · obtain ⟨r, hr, hexact⟩ := ((htallied hrun htally).report_iff hne m).mpr (h ⟨s, s', hrun, htally, hdue⟩)
        rw [record_due htally hdue, hr]
        refine ⟨nofun, fun s'' r' heq => ?_⟩
        cases heq
        exact hexact
      · rw [record_quiet htally hdue]
        exact ⟨nofun, nofun⟩

/-- While fewer than 2^32 samples were recorded the count fits. -/
theorem countFits_of_lt {pauses : List Nat} (hne : pauses ≠ []) (hlt : pauses.length < 2 ^ 32) : CountFits pauses := by
  have hpos : 0 < pauses.length := List.length_pos_iff.mpr hne
  have hrecent : recent pauses = pauses := by
    have hzero : (pauses.length - 1) / 2 ^ 64 * 2 ^ 64 = 0 := by omega
    rw [recent, hzero, List.drop_zero]
  have hsame : pauses.length % 2 ^ 32 = pauses.length := Nat.mod_eq_of_lt hlt
  refine ⟨by omega, ?_, by rw [hrecent], by rw [hrecent]⟩
  rw [hsame]
  exact Nat.lt_mul_div_succ _ hpos

/-- Every call of a run is exact exactly when the count fits at each report. -/
theorem run_exact_iff (calls : List Measured) :
    (∀ before m, before ++ [m] <+: calls → CallExact before m) ↔
      ∀ before m, before ++ [m] <+: calls → Due before m → CountFits (pausesOf (before ++ [m])) := by
  simp only [callExact_iff]

/-! ## A long run -/

/-- A call with every duration a microsecond. -/
def tick (asked : Instant) : Measured where
  pause := ⟨1000, by decide⟩
  cog := ⟨1000, by decide⟩
  lock := ⟨1000, by decide⟩
  unwind := ⟨1000, by decide⟩
  detach := ⟨1000, by decide⟩
  firstReport := 0
  firstStart := 0
  asked
  windowEnd := 0
  reported := 0

/-- The state after `n` of these calls. -/
structure Ticked (n : Nat) (s : PauseTiming) : Prop where
  samples : s.samples.toNat = n
  pauseTotal : s.pauseTotal.nanos = n * 1000
  cogTotal : s.cogTotal.nanos = n * 1000
  lockTotal : s.lockTotal.nanos = n * 1000
  unwindTotal : s.unwindTotal.nanos = n * 1000
  detachTotal : s.detachTotal.nanos = n * 1000
  lastReport : s.lastReport = if n = 0 then none else some 0

theorem Ticked.tally {n : Nat} {s : PauseTiming} (h : Ticked n s) (hn : n < 2 ^ 32) (asked : Instant) :
    ∃ s', s.tally (tick asked) = .ok s' ∧ Ticked (n + 1) s' := by
  have hadd (d : Duration) (hd : d.nanos = n * 1000) :
      ∃ e, d.add ⟨1000, by decide⟩ = .ok e ∧ e.nanos = (n + 1) * 1000 := by
    have hfits : d.nanos + 1000 < durationLimit := by
      unfold durationLimit
      omega
    exact ⟨_, dif_pos hfits, by show d.nanos + 1000 = _; omega⟩
  obtain ⟨pauseTotal, hpause, hpauseTotal⟩ := hadd s.pauseTotal h.pauseTotal
  obtain ⟨cogTotal, hcog, hcogTotal⟩ := hadd s.cogTotal h.cogTotal
  obtain ⟨lockTotal, hlock, hlockTotal⟩ := hadd s.lockTotal h.lockTotal
  obtain ⟨unwindTotal, hunwind, hunwindTotal⟩ := hadd s.unwindTotal h.unwindTotal
  obtain ⟨detachTotal, hdetach, hdetachTotal⟩ := hadd s.detachTotal h.detachTotal
  have hsamples : (s.samples + 1).toNat = n + 1 := by
    rw [UInt64.toNat_add, h.samples]
    show (n + 1) % 2 ^ 64 = n + 1
    omega
  rw [PauseTiming.tally, noteExtremes]
  by_cases hfirst : s.samples = 0
  · rw [if_pos hfirst]
    simp only [tick, hpause, hcog, hlock, hunwind, hdetach]
    exact ⟨_, rfl, hsamples, hpauseTotal, hcogTotal, hlockTotal, hunwindTotal, hdetachTotal, rfl⟩
  · have hpos : n ≠ 0 := by
      rintro rfl
      exact hfirst (UInt64.toNat_inj.mp h.samples)
    have hlast : s.lastReport = some 0 := h.lastReport.trans (if_neg hpos)
    rw [if_neg hfirst]
    simp only [tick, hpause, hcog, hlock, hunwind, hdetach]
    exact ⟨_, rfl, hsamples, hpauseTotal, hcogTotal, hlockTotal, hunwindTotal, hdetachTotal, hlast⟩

theorem Ticked.due_iff {n : Nat} {s : PauseTiming} (h : Ticked (n + 1) s) (m : Measured) :
    s.reportDue m = true ↔ reportInterval ≤ m.asked := by
  have hlast : s.lastReport = some 0 := h.lastReport.trans (if_neg (Nat.succ_ne_zero n))
  simp [reportDue, hlast]

theorem ticked_run {n : Nat} (hn : n ≤ 2 ^ 32) : ∃ s, run (List.replicate n (tick 0)) = .ok s ∧ Ticked n s := by
  induction n with
  | zero => exact ⟨{}, rfl, rfl, rfl, rfl, rfl, rfl, rfl, rfl⟩
  | succ n ih =>
    obtain ⟨s, hrun, hs⟩ := ih (by omega)
    obtain ⟨s', htally, hs'⟩ := hs.tally (by omega) 0
    have hquiet : s'.reportDue (tick 0) ≠ true := mt (hs'.due_iff (tick 0)).mp (by decide)
    refine ⟨s', ?_, hs'⟩
    rw [List.replicate_succ', run, foldlM_concat hrun, record_quiet htally hquiet]
    rfl

/-- The 2^32nd sample divides by zero where a report falls due at it. -/
theorem manySamples_inexact : ¬CallExact (List.replicate (2 ^ 32 - 1) (tick 0)) (tick reportInterval) := by
  intro hexact
  obtain ⟨s, hrun, hs⟩ := ticked_run (n := 2 ^ 32 - 1) (by omega)
  obtain ⟨s', htally, hs'⟩ := hs.tally (by omega) reportInterval
  have hfits := (callExact_iff _ _).mp hexact ⟨s, s', hrun, htally, (hs'.due_iff _).mpr (Nat.le_refl _)⟩
  refine hfits.divides ?_
  rw [pausesOf, List.length_map, List.length_append, List.length_replicate, List.length_singleton]
  omega

end PauseTiming

end StSpy
