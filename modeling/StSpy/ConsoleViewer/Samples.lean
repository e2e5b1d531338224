import StSpy.ConsoleViewer

/-!
# How often a sample is counted

A sample is counted once for its traces and once more for each of its errors. So
as long as nothing is reset, `top` counts each sample once exactly when no sample
has errors.
-/

namespace StSpy

/-- No key that resets the statistics. -/
def Typed.Quiet (typed : Typed) : Prop := ∀ key ∈ typed.before ++ typed.during, key ≠ 'R' ∧ key ≠ 'r'

/-- Whether one of these keys asks for a reset. -/
def resets (keys : List Char) : Bool := keys.any fun key => key == 'R' || key == 'r'

theorem resets_quiet {keys : List Char} (hkeys : ∀ key ∈ keys, key ≠ 'R' ∧ key ≠ 'r') : resets keys = false := by
  rw [resets, List.any_eq_false]
  intro key hkey
  simp [hkeys key hkey]

theorem Typed.Quiet.before {typed : Typed} (hquiet : typed.Quiet) : resets typed.before = false :=
  resets_quiet fun key hkey => hquiet key (List.mem_append_left _ hkey)

theorem Typed.Quiet.during {typed : Typed} (hquiet : typed.Quiet) : resets typed.during = false :=
  resets_quiet fun key hkey => hquiet key (List.mem_append_right _ hkey)

namespace ConsoleViewer

def Processed.errors (processed : Processed) : List (Pid × String) := processed.sample.samplingErrors.getD []

def run (viewer : ConsoleViewer) (samples : List Processed) : ConsoleViewer := samples.foldl sampleConsole viewer

/-- How many samples were processed since the last refresh, starting with `n`. -/
def sinceRefresh : ConsoleViewer → Nat → List Processed → Nat
  | _, n, [] => n
  | viewer, n, processed :: samples =>
    let next := viewer.sampleConsole processed
    sinceRefresh next (if next.screens.length = viewer.screens.length then n + 1 else 0) samples

/-- After each sample the counters are the numbers of samples processed, since the
start and since the last refresh. -/
structure CountsOnce (config : ViewerConfig) (samples : List Processed) : Prop where
  overall : ∀ processed, processed <+: samples →
    ((new config).run processed).stats.overallSamples = processed.length
  current : ∀ processed, processed <+: samples →
    ((new config).run processed).stats.currentSamples = (new config).sinceRefresh 0 processed

/-- What one call counts where no reset is asked for: one sample, in the current
counter unless it refreshes. -/
structure CountedOne (viewer next : ConsoleViewer) : Prop where
  overall : next.stats.overallSamples = viewer.stats.overallSamples + 1
  current : next.screens.length = viewer.screens.length ∧ next.stats.currentSamples = viewer.stats.currentSamples + 1 ∨
    next.screens.length = viewer.screens.length + 1 ∧ next.stats.currentSamples = 0
  unreset : next.options.reset = false

variable {viewer : ConsoleViewer} {typed : Typed}

/-! ## A call -/

theorem press_reset (options : Options) (key : Char) :
    (options.press key).reset = (options.reset || (key == 'R' || key == 'r')) := by
  unfold Options.press Options.key
  dsimp only
  split <;> simp_all

theorem type_reset (viewer : ConsoleViewer) (keys : List Char) :
    (viewer.type keys).options.reset = (viewer.options.reset || resets keys) := by
  show (keys.foldl Options.press viewer.options).reset = _
  induction keys generalizing viewer with
  | nil => exact (Bool.or_false _).symm
  | cons key keys ih =>
    rw [List.foldl_cons, ih { viewer with options := viewer.options.press key }, press_reset, resets, resets,
      List.any_cons, Bool.or_assoc]

theorem type_before_reset (hquiet : typed.Quiet) (viewer : ConsoleViewer) :
    (viewer.type typed.before).options.reset = viewer.options.reset := by
  rw [type_reset, hquiet.before, Bool.or_false]

theorem maybeReset_type (hreset : viewer.options.reset = false) (hquiet : typed.Quiet) :
    (viewer.type typed.before).maybeReset = viewer.type typed.before := by
  rw [maybeReset, type_before_reset hquiet, hreset]
  rfl

theorem incrementTraces_samples (config : Config) (stats : Stats) (lastPid : Option Pid) (traces : List StackTrace) :
    (incrementTraces config stats lastPid traces).currentSamples = stats.currentSamples ∧
      (incrementTraces config stats lastPid traces).overallSamples = stats.overallSamples := by
  obtain ⟨_, _, _, _, _, htraces⟩ := incrementTraces_eq config stats lastPid traces
  rw [htraces]
  exact ⟨rfl, rfl⟩

theorem incrementCommon_countedOne (viewer : ConsoleViewer) {keys : List Char} (hreset : viewer.options.reset = false)
    (hkeys : resets keys = false) : CountedOne viewer (viewer.incrementCommon keys) := by
  have htyped : (viewer.type keys).options.reset = false := by
    rw [type_reset, hreset, hkeys]
    rfl
  unfold incrementCommon
  simp only
  split
  · exact ⟨rfl, .inr ⟨rfl, rfl⟩, htyped⟩
  · exact ⟨rfl, .inl ⟨rfl, rfl⟩, htyped⟩

theorem incrementError_countedOne (hreset : viewer.options.reset = false) (hquiet : typed.Quiet) (error : String) :
    CountedOne viewer (viewer.incrementError typed error) := by
  rw [incrementError, maybeReset_type hreset hquiet]
  have hbefore := type_before_reset hquiet viewer
  obtain ⟨hoverall, hcurrent, hunreset⟩ := incrementCommon_countedOne
    { viewer.type typed.before with
      stats := { viewer.stats with errors := viewer.stats.errors + 1, lastError := some error } }
    (hbefore.trans hreset) hquiet.during
  exact ⟨hoverall, hcurrent, hunreset⟩

theorem increment_countedOne (viewer : ConsoleViewer) (hreset : viewer.options.reset = false) (hquiet : typed.Quiet)
    (traces : List StackTrace) : CountedOne viewer (viewer.increment typed traces) := by
  rw [increment, maybeReset_type hreset hquiet]
  have hbefore := type_before_reset hquiet viewer
  obtain ⟨hcurrentSame, hoverallSame⟩ := incrementTraces_samples viewer.config.toConfig
    { viewer.stats with threads := 0, processes := 0 } none traces
  obtain ⟨hoverall, hcurrent, hunreset⟩ := incrementCommon_countedOne
    { viewer.type typed.before with
      stats := incrementTraces viewer.config.toConfig { viewer.stats with threads := 0, processes := 0 } none traces }
    (hbefore.trans hreset) hquiet.during
  rw [hoverallSame] at hoverall
  rw [hcurrentSame] at hcurrent
  exact ⟨hoverall, hcurrent, hunreset⟩

/-! ## A sample -/

theorem headD_quiet {typed : List Typed} (hquiet : ∀ t ∈ typed, t.Quiet) : (typed.headD {}).Quiet := by
  cases typed with
  | nil => simp [Typed.Quiet]
  | cons t _ => exact hquiet t List.mem_cons_self

theorem incrementErrors_overall (viewer : ConsoleViewer) {typed : List Typed}
    (hreset : viewer.options.reset = false) (hquiet : ∀ t ∈ typed, t.Quiet) (errors : List (Pid × String)) :
    (viewer.incrementErrors typed errors).stats.overallSamples = viewer.stats.overallSamples + errors.length ∧
      (viewer.incrementErrors typed errors).options.reset = false := by
  induction errors generalizing viewer typed with
  | nil => exact ⟨rfl, hreset⟩
  | cons error errors ih =>
    have hone := incrementError_countedOne hreset (headD_quiet hquiet) error.2
    obtain ⟨hoverall, hunreset⟩ := ih _ hone.unreset fun t ht => hquiet t (List.mem_of_mem_tail ht)
    refine ⟨?_, hunreset⟩
    rw [incrementErrors, hoverall, hone.overall, List.length_cons]
    omega

variable {config : ViewerConfig} {processed : Processed} {samples : List Processed}

/-- A sample is counted once, and once more for each error. -/
theorem sampleConsole_overall (hreset : viewer.options.reset = false) (hquiet : ∀ t ∈ processed.typed, t.Quiet) :
    (viewer.sampleConsole processed).stats.overallSamples =
        viewer.stats.overallSamples + processed.errors.length + 1 ∧
      (viewer.sampleConsole processed).options.reset = false := by
  have hcounted : ∀ viewer : ConsoleViewer, viewer.options.reset = false →
      CountedOne (viewer.incrementErrors processed.typed processed.errors)
        ((viewer.incrementErrors processed.typed processed.errors).increment
          ((processed.typed.drop processed.errors.length).headD {}) processed.sample.traces) := by
    intro viewer hreset
    refine increment_countedOne _ (incrementErrors_overall viewer hreset hquiet processed.errors).2 (headD_quiet ?_) _
    exact fun t ht => hquiet t (List.mem_of_mem_drop ht)
  unfold sampleConsole
  simp only
  split
  · rename_i elapsed _
    have hone := hcounted (viewer.incrementLateSample elapsed) hreset
    refine ⟨?_, hone.unreset⟩
    rw [← Processed.errors, hone.overall,
      (incrementErrors_overall (viewer.incrementLateSample elapsed) hreset hquiet _).1]
    rfl
  · have hone := hcounted viewer hreset
    refine ⟨?_, hone.unreset⟩
    rw [← Processed.errors, hone.overall, (incrementErrors_overall viewer hreset hquiet _).1]

/-- A sample without errors is counted as one. -/
theorem sampleConsole_countedOne (hreset : viewer.options.reset = false) (hquiet : ∀ t ∈ processed.typed, t.Quiet)
    (herrors : processed.errors = []) : CountedOne viewer (viewer.sampleConsole processed) := by
  unfold sampleConsole
  simp only
  rw [← Processed.errors, herrors]
  split
  · rename_i elapsed _
    obtain ⟨hoverall, hcurrent, hunreset⟩ := increment_countedOne (viewer.incrementLateSample elapsed) hreset
      (headD_quiet fun t ht => hquiet t (List.mem_of_mem_drop ht)) processed.sample.traces
    exact ⟨hoverall, hcurrent, hunreset⟩
  · exact increment_countedOne viewer hreset (headD_quiet fun t ht => hquiet t (List.mem_of_mem_drop ht)) _

/-! ## A run -/

theorem run_overall (hreset : viewer.options.reset = false) (hquiet : ∀ p ∈ samples, ∀ t ∈ p.typed, t.Quiet) :
    (viewer.run samples).stats.overallSamples =
      viewer.stats.overallSamples + samples.length + (samples.flatMap Processed.errors).length := by
  induction samples generalizing viewer with
  | nil => rfl
  | cons processed samples ih =>
    obtain ⟨hfirst, hrest⟩ := List.forall_mem_cons.mp hquiet
    obtain ⟨hoverall, hunreset⟩ := sampleConsole_overall hreset hfirst
    show ((viewer.sampleConsole processed).run samples).stats.overallSamples = _
    rw [ih hunreset hrest, hoverall, List.flatMap_cons, List.length_append, List.length_cons]
    omega

theorem run_current (viewer : ConsoleViewer) (hreset : viewer.options.reset = false)
    (hquiet : ∀ p ∈ samples, ∀ t ∈ p.typed, t.Quiet) (herrors : ∀ p ∈ samples, p.errors = []) :
    (viewer.run samples).stats.currentSamples = viewer.sinceRefresh viewer.stats.currentSamples samples := by
  induction samples generalizing viewer with
  | nil => rfl
  | cons processed samples ih =>
    obtain ⟨hfirst, hrest⟩ := List.forall_mem_cons.mp hquiet
    obtain ⟨hnone, hnones⟩ := List.forall_mem_cons.mp herrors
    obtain ⟨_, hcurrent, hunreset⟩ := sampleConsole_countedOne hreset hfirst hnone
    show ((viewer.sampleConsole processed).run samples).stats.currentSamples = _
    rw [ih _ hunreset hrest hnones, sinceRefresh]
    rcases hcurrent with ⟨hscreens, hcount⟩ | ⟨hscreens, hcount⟩
    · rw [if_pos hscreens, hcount]
    · rw [if_neg (by omega), hcount]

/-- Where no reset is typed, each sample is counted once exactly when none has errors. -/
theorem countsOnce_iff (config : ViewerConfig) (samples : List Processed)
    (hquiet : ∀ p ∈ samples, ∀ t ∈ p.typed, t.Quiet) :
    CountsOnce config samples ↔ ∀ p ∈ samples, p.sample.samplingErrors.getD [] = [] := by
  have hquiet' : ∀ processed, processed <+: samples → ∀ p ∈ processed, ∀ t ∈ p.typed, t.Quiet :=
    fun processed hpre p hp => hquiet p (hpre.subset hp)
  constructor
  · intro h
    have hoverall := h.overall samples List.prefix_rfl
    rw [run_overall rfl hquiet] at hoverall
    have hnone : (samples.flatMap Processed.errors).length = 0 := by
      simp only [new] at hoverall
      omega
    exact List.flatMap_eq_nil_iff.mp (List.eq_nil_of_length_eq_zero hnone)
  · intro herrors
    refine ⟨fun processed hpre => ?_, fun processed hpre => ?_⟩
    · have hnone : processed.flatMap Processed.errors = [] :=
        List.flatMap_eq_nil_iff.mpr fun p hp => herrors p (hpre.subset hp)
      rw [run_overall rfl (hquiet' processed hpre), hnone]
      exact Nat.zero_add _
    · exact run_current (new config) rfl (hquiet' processed hpre) fun p hp => herrors p (hpre.subset hp)

/-- Two samples without errors, the second one refreshed by a key. -/
theorem countsOnce_iff_two :
    CountsOnce { refreshDue := fun _ => false } [⟨⟨[], none, none⟩, []⟩, ⟨⟨[], none, some 5⟩, [⟨['l'], []⟩]⟩] :=
  (countsOnce_iff { refreshDue := fun _ => false } _ (by simp [Typed.Quiet])).mpr (by simp)

/-- A sample with an error is counted twice. -/
theorem oneError_twice :
    ¬∀ (config : ViewerConfig) (samples : List Processed), (∀ p ∈ samples, ∀ t ∈ p.typed, t.Quiet) →
      CountsOnce config samples := by
  intro h
  have hoverall := (h { refreshDue := fun _ => false } [⟨⟨[], some [(1, "no such process")], none⟩, []⟩]
    (by simp)).overall _ List.prefix_rfl
  exact absurd hoverall (by decide)

end ConsoleViewer

end StSpy
