import StSpy.ConsoleViewer.Screens

/-!
# The rows of a screen

A screen has as many rows as there is room for. They are the first functions by the
column that is sorted by, the largest first, with the counts of the traces since the
last reset.
-/

namespace StSpy

open Errors

/-- What a function is sorted by. -/
def FunctionStatistics.sortedBy (sortColumn : Nat) (entry : FunctionStatistics) : Nat :=
  match sortColumn with
  | 1 => entry.currentOwn
  | 2 => entry.currentTotal
  | 3 => entry.overallOwn
  | _ => entry.overallTotal

theorem sortedBy_default (sortColumn : Nat) : ({} : FunctionStatistics).sortedBy sortColumn = 0 := by
  unfold FunctionStatistics.sortedBy
  split <;> rfl

def rowOf : Drawn → Option (Sigma fun _ : String => FunctionStatistics)
  | .line (.row entry _ label _) => some ⟨label, entry⟩
  | _ => none

def rowsOf (drawn : List Drawn) : List (Sigma fun _ : String => FunctionStatistics) := drawn.filterMap rowOf

theorem sortCounts_sorted {counts : FunctionCounts} {sortColumn : Nat}
    {sorted : List (Sigma fun _ : String => FunctionStatistics)} (h : sortCounts counts sortColumn = .ok sorted) :
    sorted.Perm counts.entries ∧
      sorted.Pairwise fun a b => b.2.sortedBy sortColumn ≤ a.2.sortedBy sortColumn := by
  have hsort : ∀ key : FunctionStatistics → Nat,
      (counts.entries.mergeSort fun a b => key a.2 ≥ key b.2).Pairwise fun a b => key b.2 ≤ key a.2 := by
    intro key
    refine List.Pairwise.imp ?_ (List.pairwise_mergeSort ?_ ?_ counts.entries)
    · exact fun hle => of_decide_eq_true hle
    · intro a b c hab hbc
      simp only [ge_iff_le, decide_eq_true_eq] at hab hbc ⊢
      exact Nat.le_trans hbc hab
    · intro a b
      simp only [ge_iff_le, Bool.or_eq_true, decide_eq_true_eq]
      exact Nat.le_total (key b.2) (key a.2)
  unfold sortCounts at h
  split at h
  · cases h
    exact ⟨List.mergeSort_perm _ _, hsort FunctionStatistics.currentOwn⟩
  · cases h
    exact ⟨List.mergeSort_perm _ _, hsort FunctionStatistics.currentTotal⟩
  · cases h
    exact ⟨List.mergeSort_perm _ _, hsort FunctionStatistics.overallOwn⟩
  · cases h
    exact ⟨List.mergeSort_perm _ _, hsort FunctionStatistics.overallTotal⟩
  · cases h

namespace ConsoleViewer

/-- How many rows there is room for. -/
def room (viewer : ConsoleViewer) (terminal : Terminal) : Nat :=
  (terminal.height.toUInt64 - viewer.headerLines terminal).toNat

/-- What the labels of the table are made by. -/
def shownLabel (viewer : ConsoleViewer) : Frame → String :=
  if viewer.options.showLinenumbers then lineLabel else functionLabel

/-- `rows` are the first functions of the traces `counted`. -/
structure Ranks (viewer : ConsoleViewer) (terminal : Terminal) (counted : List StackTrace)
    (rows : List (Sigma fun _ : String => FunctionStatistics)) : Prop where
  descending : rows.Pairwise fun a b =>
    b.2.sortedBy viewer.options.sortColumn ≤ a.2.sortedBy viewer.options.sortColumn
  once : rows.NodupKeys
  room : rows.length = min (viewer.room terminal) viewer.shownCounts.entries.length
  shown : ∀ row ∈ rows, viewer.shownCounts.lookup row.1 = some row.2 ∧
    row.2.overallTotal = counted.countP (fun trace => row.1 ∈ trace.frames.map viewer.shownLabel) ∧
    row.2.overallOwn = counted.countP fun trace => (trace.frames.map viewer.shownLabel).head? = some row.1
  /-- What has no row is not larger. -/
  first : ∀ row ∈ rows, ∀ label, label ∉ rows.keys →
    (FunctionCounts.entry viewer.shownCounts label).sortedBy viewer.options.sortColumn ≤
      row.2.sortedBy viewer.options.sortColumn

variable {viewer : ConsoleViewer} {terminal : Terminal} {counted : List StackTrace}

theorem rowsOf_layout (viewer : ConsoleViewer) (terminal : Terminal) (commandLine samplesLine : Line)
    (counts : List (Sigma fun _ : String => FunctionStatistics))
    (hcommand : rowOf (.line commandLine) = none) (hsamples : rowOf (.line samplesLine) = none) :
    rowsOf (viewer.layout terminal commandLine samplesLine counts) = counts.take (viewer.room terminal) := by
  have hlate :
      ((viewer.lateDelay terminal).toList.map fun delay => Drawn.line (.behind delay)).filterMap rowOf = [] := by
    cases viewer.lateDelay terminal <;> rfl
  have hwide : (if terminal.width.toUInt64 > 50 then [Drawn.subtract terminal.width.toUInt64 35] else []).filterMap
      rowOf = [] := by
    split <;> rfl
  have hrows (rows : List (Sigma fun _ : String => FunctionStatistics)) (width : UInt64) :
      (rows.flatMap fun row => [Drawn.subtract width 2,
        .line (.row row.2 viewer.stats.currentSamples row.1 (width - 2))]).filterMap rowOf = rows := by
    induction rows with
    | nil => rfl
    | cons row rows ih =>
      rw [List.flatMap_cons, List.filterMap_append, ih]
      rfl
  have hpadding (n : Nat) : (List.replicate n (Drawn.line .padding)).filterMap rowOf = [] := by
    induction n with
    | zero => rfl
    | succ n ih => rw [List.replicate_succ, List.filterMap_cons, ih]; rfl
  have hfooter : ((footer viewer.options.usage terminal.width.toUInt64).map Drawn.line).filterMap rowOf = [] := by
    cases viewer.options.usage <;> rfl
  have hheader : [Drawn.line commandLine, .line samplesLine, .line viewer.activeLine, .line .blank].filterMap rowOf =
      [] := by
    rw [List.filterMap_cons_none hcommand, List.filterMap_cons_none hsamples]
    rfl
  have hsubtract (a b : UInt64) : [Drawn.subtract a b].filterMap rowOf = [] := rfl
  have htable (width : UInt64) : [Drawn.line (.tableHeader viewer.options.sortColumn viewer.options.showLinenumbers
      width)].filterMap rowOf = [] := rfl
  have hblank : [Drawn.line .blank].filterMap rowOf = [] := rfl
  unfold layout rowsOf
  simp only [List.filterMap_append, hlate, hheader, hwide, hsubtract, htable, hblank, hrows, hpadding, hfooter,
    List.nil_append, List.append_nil]
  rfl

/-- The lines above the table are no rows. -/
theorem rowsOf_draw {drawn : List Drawn} (h : viewer.draw terminal = .ok drawn) :
    ∃ sorted, sortCounts viewer.shownCounts viewer.options.sortColumn = .ok sorted ∧
      rowsOf drawn = sorted.take (viewer.room terminal) := by
  obtain ⟨sorted, hsorted, h⟩ := bind_eq_ok h
  obtain ⟨commandLine, hcommandLine, h⟩ := bind_eq_ok h
  obtain ⟨samplesLine, hsamplesLine, h⟩ := bind_eq_ok h
  cases h
  refine ⟨sorted, hsorted, rowsOf_layout viewer terminal commandLine samplesLine sorted ?_ ?_⟩
  · unfold ConsoleViewer.commandLine at hcommandLine
    split at hcommandLine
    · cases hcommandLine
      rfl
    · split at hcommandLine <;> cases hcommandLine
      rfl
  · unfold ConsoleViewer.samplesLine at hsamplesLine
    split at hsamplesLine
    · split at hsamplesLine <;> cases hsamplesLine
      rfl
    · cases hsamplesLine
      rfl

theorem shown_tallies (h : Consistent viewer.stats counted) :
    Tallies viewer.shownLabel viewer.shownCounts counted := by
  unfold shownLabel shownCounts
  split
  · exact h.lines
  · exact h.functions

theorem ranks_draw (h : Consistent viewer.stats counted) {drawn : List Drawn}
    (hdrawn : viewer.draw terminal = .ok drawn) : viewer.Ranks terminal counted (rowsOf drawn) := by
  obtain ⟨sorted, hsorted, hrows⟩ := rowsOf_draw hdrawn
  obtain ⟨hperm, hdescending⟩ := sortCounts_sorted hsorted
  have htallies := shown_tallies h
  have hfirst := List.take_sublist (viewer.room terminal) sorted
  have hlookup : ∀ row ∈ sorted, viewer.shownCounts.lookup row.1 = some row.2 := fun row hrow =>
    AList.mem_lookup_iff.mpr (hperm.mem_iff.mp hrow)
  rw [hrows]
  refine ⟨hdescending.sublist hfirst, ?_, ?_, fun row hrow => ?_, fun row hrow label hlabel => ?_⟩
  · exact ((List.perm_nodupKeys hperm).mpr viewer.shownCounts.nodupKeys).sublist hfirst
  · rw [List.length_take, hperm.length_eq]
  · have hentry := hlookup row (hfirst.subset hrow)
    have hcounts : FunctionCounts.entry viewer.shownCounts row.1 = row.2 := by
      rw [FunctionCounts.entry, hentry]
      rfl
    exact ⟨hentry, hcounts ▸ htallies.overallTotal row.1, hcounts ▸ htallies.overallOwn row.1⟩
  · cases hother : viewer.shownCounts.lookup label with
    | none =>
      have hzero : (FunctionCounts.entry viewer.shownCounts label).sortedBy viewer.options.sortColumn = 0 := by
        rw [FunctionCounts.entry, hother]
        exact sortedBy_default viewer.options.sortColumn
      rw [hzero]
      exact Nat.zero_le _
    | some entry =>
      rw [FunctionCounts.entry, hother, Option.getD_some]
      have hmem : (⟨label, entry⟩ : Sigma fun _ : String => FunctionStatistics) ∈ sorted :=
        hperm.mem_iff.mpr (AList.mem_lookup_iff.mp hother)
      have hlater : (⟨label, entry⟩ : Sigma fun _ : String => FunctionStatistics) ∈
          sorted.drop (viewer.room terminal) := by
        rw [← List.take_append_drop (viewer.room terminal) sorted] at hmem
        exact (List.mem_append.mp hmem).resolve_left fun hrow => hlabel (List.mem_keys_of_mem hrow)
      rw [← List.take_append_drop (viewer.room terminal) sorted] at hdescending
      exact (List.pairwise_append.mp hdescending).2.2 row hrow ⟨label, entry⟩ hlater

/-- The viewer where it has shown a screen and these keys have been typed. -/
def showing (config : ViewerConfig) (screen : Stats) (keys : List Char) : ConsoleViewer :=
  { new config with stats := screen }.type keys

theorem displayable_showing (config : ViewerConfig) (samples : List Processed) {screen : Stats}
    (hscreen : screen ∈ ((new config).run samples).stats :: ((new config).run samples).screens) (keys : List Char) :
    (showing config screen keys).Displayable := by
  have hnew : (new config).Displayable := ⟨by simp [new], fun hne => absurd rfl hne, (fun _ h => nomatch h)⟩
  have hrun := hnew.run (samples.flatMap eventsOf)
  rw [← run_eq] at hrun
  have hlast : screen.errors ≠ 0 → screen.lastError.isSome := by
    rcases List.mem_cons.mp hscreen with rfl | hearlier
    · exact hrun.lastError
    · exact hrun.screens screen hearlier
  have hbefore : ({ new config with stats := screen } : ConsoleViewer).Displayable :=
    ⟨hnew.sortColumn, hlast, hnew.screens⟩
  exact hbefore.type keys

/-- Whatever is typed in a run, each of its screens is drawn without a panic where the terminal is roomy, and its rows
are the first functions of the samples in its window. -/
theorem screens_ranked (config : ViewerConfig) (samples : List Processed)
    (hversion : config.subprocesses = true ∨ terminal.version.isSome)
    (hrate : ∀ n, terminal.errorRateHigh 0 n = false) :
    List.Forall₂ (fun screen window => ∀ keys,
        terminal.Roomy (showing config screen keys).options.usage
            ((showing config screen keys).lateDelay terminal).isSome
            (showing config screen keys).shownCounts.entries.length →
          ∃ drawn, (showing config screen keys).draw terminal = .ok drawn ∧ FitsHeight terminal.height drawn ∧
            (showing config screen keys).Ranks terminal
              (included config.toConfig (window.of (samples.map fun processed => processed.sample.traces)))
              (rowsOf drawn))
      (((new config).run samples).stats :: ((new config).run samples).screens)
      ((Watch.of samples).window :: Watch.shownOf config samples) := by
  have hshows := shows_run config samples
  have hall := List.Forall₂.cons hshows.now hshows.screens
  have hconfig : ((new config).run samples).config = config := by
    rw [run_eq]
    exact run_config (new config) _
  rw [hconfig] at hall
  refine List.forall₂_iff_get.mpr ⟨hall.length_eq, fun i hscreen hwindow keys hroomy => ?_⟩
  have hconsistent := (List.forall₂_iff_get.mp hall).2 i hscreen hwindow
  have hdisplayable := displayable_showing config samples (List.get_mem _ ⟨i, hscreen⟩) keys
  obtain ⟨drawn, hdrawn⟩ := hdisplayable.draw hversion hrate
  refine ⟨drawn, hdrawn, (draw_fits_iff hdrawn).mpr hroomy, ranks_draw ?_ hdrawn⟩
  exact hconsistent

/-- An active trace of two functions, then another of one. -/
def twoTraces : List Processed :=
  [{ sample.traces :=
        [{ pid := 1, threadId := 1, frames := [⟨"a", "m", none, none, 0⟩, ⟨"b", "m", none, none, 0⟩] }] },
    { sample.traces := [{ pid := 1, threadId := 1, frames := [⟨"b", "m", none, none, 0⟩] }] }]

/-- The last of its screens, sorted by the total time: both samples are counted. -/
theorem screens_ranked_twoTraces :
    let terminal : Terminal :=
      { height := 24, width := 80, command := "image", version := some "5.2", lateRateHigh := fun _ _ => false,
        errorRateHigh := fun _ _ => false }
    let config : ViewerConfig := { refreshDue := fun _ => true }
    let viewer := showing config ((new config).run twoTraces).stats ['4']
    (Watch.of twoTraces).window.since = 0 ∧ (Watch.of twoTraces).window.upto = 2 ∧
      ∃ drawn, viewer.draw terminal = .ok drawn ∧ FitsHeight terminal.height drawn ∧
        viewer.Ranks terminal
          (included config.toConfig ((Watch.of twoTraces).window.of
            (twoTraces.map fun processed => processed.sample.traces))) (rowsOf drawn) := by
  intro terminal config viewer
  have hranked := @screens_ranked terminal config twoTraces (.inr rfl) fun _ => rfl
  exact ⟨rfl, rfl, (List.forall₂_cons.mp hranked).1 ['4'] ⟨by decide, .inl (by decide)⟩⟩

end ConsoleViewer

end StSpy
