import StSpy.ConsoleViewer

/-!
# The tables of the console viewer

Whatever is counted, reset or refreshed in a run, the tables tell of each label
how many of the traces counted since the last reset contain it and how many end in
it. The current columns stay below the overall ones.
-/

namespace StSpy

/-- The entry of a label, zero where it has none. -/
def FunctionCounts.entry (counts : FunctionCounts) (label : String) : FunctionStatistics :=
  (counts.lookup label).getD {}

structure FunctionStatistics.Ordered (entry : FunctionStatistics) : Prop where
  currentOwn_le_currentTotal : entry.currentOwn ≤ entry.currentTotal
  currentTotal_le_overallTotal : entry.currentTotal ≤ entry.overallTotal
  currentOwn_le_overallOwn : entry.currentOwn ≤ entry.overallOwn
  overallOwn_le_overallTotal : entry.overallOwn ≤ entry.overallTotal

/-- The table of these traces, by the labels of their frames. -/
structure Tallies (keyFunc : Frame → String) (counts : FunctionCounts) (traces : List StackTrace) : Prop where
  ordered : ∀ label entry, counts.lookup label = some entry → entry.Ordered
  overallTotal : ∀ label, (FunctionCounts.entry counts label).overallTotal =
    traces.countP fun trace => label ∈ trace.frames.map keyFunc
  overallOwn : ∀ label, (FunctionCounts.entry counts label).overallOwn =
    traces.countP fun trace => (trace.frames.map keyFunc).head? = some label
  ownSum : Tables.total FunctionStatistics.overallOwn counts = traces.countP fun trace => trace.frames ≠ []

variable {keyFunc : Frame → String} {counts : FunctionCounts} {traces : List StackTrace} {trace : StackTrace}

/-! ## One table -/

theorem idxOf_eq_zero_iff {label : String} {labels : List String} (h : label ∈ labels) :
    labels.idxOf label = 0 ↔ labels.head? = some label := by
  cases labels with
  | nil => simp at h
  | cons first labels =>
    by_cases hlabel : first = label
    · simp [hlabel]
    · simp [hlabel, List.idxOf_cons_ne]

namespace FunctionStatistics

theorem add_overallTotal (order : Nat) (entry : FunctionStatistics) :
    (entry.add order).overallTotal = entry.overallTotal + 1 := by
  unfold add
  split_ifs <;> rfl

theorem add_overallOwn (order : Nat) (entry : FunctionStatistics) :
    (entry.add order).overallOwn = entry.overallOwn + if order = 0 then 1 else 0 := by
  unfold add
  split_ifs <;> rfl

theorem Ordered.add {entry : FunctionStatistics} (h : entry.Ordered) (order : Nat) : (entry.add order).Ordered := by
  obtain ⟨h1, h2, h3, h4⟩ := h
  unfold FunctionStatistics.add
  split_ifs
  · exact ⟨by simpa using h1, by simpa using h2, by simpa using h3, by simpa using h4⟩
  · exact ⟨Nat.le_succ_of_le h1, by simpa using h2, h3, Nat.le_succ_of_le h4⟩

end FunctionStatistics

theorem lookup_update (counts : FunctionCounts) (trace : StackTrace) (keyFunc : Frame → String) (label : String) :
    (updateFunctionStatistics counts trace keyFunc).lookup label =
      if label ∈ trace.frames.map keyFunc then
        some ((FunctionCounts.entry counts label).add ((trace.frames.map keyFunc).idxOf label))
      else counts.lookup label := by
  have hposition := Tables.lookup_firstPositions ∅ 0 (trace.frames.map keyFunc) label
  rw [updateFunctionStatistics, Tables.lookup_modifyAll (AList.nodupKeys _)]
  rw [AList.lookup_empty, Option.none_or] at hposition
  rw [show (Tables.firstPositions ∅ 0 (trace.frames.map keyFunc)).entries.dlookup label = _ from hposition]
  split_ifs with hlabel
  · rw [Nat.zero_add]
    rfl
  · rfl

/-- What a trace adds to the sum of the own columns: one unless it is empty. -/
theorem ownSum_update (counts : FunctionCounts) (trace : StackTrace) (keyFunc : Frame → String) :
    Tables.total FunctionStatistics.overallOwn (updateFunctionStatistics counts trace keyFunc) =
      Tables.total FunctionStatistics.overallOwn counts + if trace.frames ≠ [] then 1 else 0 := by
  have hzero : FunctionStatistics.overallOwn {} = 0 := rfl
  rw [updateFunctionStatistics, Tables.total_modifyAll hzero FunctionStatistics.add_overallOwn]
  congr 1
  cases trace.frames with
  | nil => rfl
  | cons frame frames =>
    have hrest := Tables.total_firstPositions_succ (Tables.orInsert ∅ (keyFunc frame) 0) 0 (frames.map keyFunc)
    exact hrest

theorem Tallies.entry_ordered (h : Tallies keyFunc counts traces) (label : String) :
    (FunctionCounts.entry counts label).Ordered := by
  unfold FunctionCounts.entry
  cases hlookup : counts.lookup label with
  | none => exact ⟨le_refl _, le_refl _, le_refl _, le_refl _⟩
  | some entry => exact h.ordered label entry hlookup

theorem Tallies.empty (keyFunc : Frame → String) : Tallies keyFunc ∅ [] :=
  ⟨fun _ _ h => by simp at h, fun _ => rfl, fun _ => rfl, rfl⟩

theorem Tallies.update (h : Tallies keyFunc counts traces) (trace : StackTrace) :
    Tallies keyFunc (updateFunctionStatistics counts trace keyFunc) (traces ++ [trace]) := by
  have hentry : ∀ label, FunctionCounts.entry (updateFunctionStatistics counts trace keyFunc) label =
      if label ∈ trace.frames.map keyFunc then
        (FunctionCounts.entry counts label).add ((trace.frames.map keyFunc).idxOf label)
      else FunctionCounts.entry counts label := by
    intro label
    rw [FunctionCounts.entry, lookup_update]
    split_ifs <;> rfl
  refine ⟨fun label entry hlookup => ?_, fun label => ?_, fun label => ?_, ?_⟩
  · rw [lookup_update] at hlookup
    split_ifs at hlookup with hlabel
    · cases hlookup
      exact (h.entry_ordered label).add _
    · exact h.ordered label entry hlookup
  · rw [hentry, List.countP_append, ← h.overallTotal label, List.countP_singleton]
    simp only [decide_eq_true_eq]
    split_ifs
    · exact FunctionStatistics.add_overallTotal _ _
    · rfl
  · rw [hentry, List.countP_append, ← h.overallOwn label, List.countP_singleton]
    simp only [decide_eq_true_eq]
    by_cases hlabel : label ∈ trace.frames.map keyFunc
    · rw [if_pos hlabel, FunctionStatistics.add_overallOwn]
      simp only [idxOf_eq_zero_iff hlabel]
    · have hhead : (trace.frames.map keyFunc).head? ≠ some label := fun heq => hlabel (List.mem_of_head? heq)
      rw [if_neg hlabel, if_neg hhead]
      rfl
  · rw [ownSum_update, h.ownSum, List.countP_append, List.countP_singleton]
    simp only [decide_eq_true_eq]

theorem Tallies.resetCurrent (h : Tallies keyFunc counts traces) :
    Tallies keyFunc (Tables.mapValues FunctionStatistics.resetCurrent counts) traces := by
  have hentry : ∀ label, FunctionCounts.entry (Tables.mapValues FunctionStatistics.resetCurrent counts) label =
      (FunctionCounts.entry counts label).resetCurrent := by
    intro label
    rw [FunctionCounts.entry, Tables.lookup_mapValues, FunctionCounts.entry]
    cases counts.lookup label <;> rfl
  refine ⟨fun label entry hlookup => ?_, fun label => ?_, fun label => ?_, ?_⟩
  · rw [Tables.lookup_mapValues, Option.map_eq_some_iff] at hlookup
    obtain ⟨before, hbefore, rfl⟩ := hlookup
    exact ⟨Nat.zero_le _, Nat.zero_le _, Nat.zero_le _, (h.ordered label before hbefore).overallOwn_le_overallTotal⟩
  · rw [hentry]
    exact h.overallTotal label
  · rw [hentry]
    exact h.overallOwn label
  · have hkept : ∀ entry : FunctionStatistics, entry.resetCurrent.overallOwn = entry.overallOwn := fun _ => rfl
    rw [Tables.total_mapValues hkept]
    exact h.ownSum

/-! ## A run -/

namespace ConsoleViewer

/-- The calls of the viewer, and the resets of its current columns. -/
inductive Event where
  | increment (typed : Typed) (traces : List StackTrace)
  | incrementError (typed : Typed) (error : String)
  | incrementLateSample (delay : Nat)
  | resetCurrent

def apply (viewer : ConsoleViewer) : Event → ConsoleViewer
  | .increment typed traces => viewer.increment typed traces
  | .incrementError typed error => viewer.incrementError typed error
  | .incrementLateSample delay => viewer.incrementLateSample delay
  | .resetCurrent => { viewer with stats := viewer.stats.resetCurrent }

/-- The traces that are counted, and were not reset, of those counted so far. -/
def kept (viewer : ConsoleViewer) (typed : Typed) (counted : List StackTrace) : List StackTrace :=
  if (viewer.type typed.before).options.reset then [] else counted

def countedBy (viewer : ConsoleViewer) (counted : List StackTrace) : Event → List StackTrace
  | .increment typed traces =>
    viewer.kept typed counted ++ traces.filter fun trace => viewer.config.includeIdle || trace.active
  | .incrementError typed _ => viewer.kept typed counted
  | .incrementLateSample _ => counted
  | .resetCurrent => counted

/-- The traces counted since the last reset of a run. -/
def countedSince : ConsoleViewer → List StackTrace → List Event → List StackTrace
  | _, counted, [] => counted
  | viewer, counted, event :: events => countedSince (viewer.apply event) (viewer.countedBy counted event) events

/-- Both tables are those of these traces. -/
structure Consistent (stats : Stats) (counted : List StackTrace) : Prop where
  lines : Tallies lineLabel stats.lineCounts counted
  functions : Tallies functionLabel stats.functionCounts counted

variable {viewer : ConsoleViewer} {stats : Stats} {counted : List StackTrace}

theorem Consistent.resetCurrent (h : Consistent stats counted) : Consistent stats.resetCurrent counted :=
  ⟨h.lines.resetCurrent, h.functions.resetCurrent⟩

theorem Consistent.incrementCommon (viewer : ConsoleViewer) (h : Consistent viewer.stats counted) (keys : List Char) :
    Consistent (viewer.incrementCommon keys).stats counted := by
  unfold ConsoleViewer.incrementCommon
  simp only
  split
  · exact ⟨h.lines.resetCurrent, h.functions.resetCurrent⟩
  · exact ⟨h.lines, h.functions⟩

theorem Consistent.maybeReset (h : Consistent viewer.stats counted) (typed : Typed) :
    Consistent (viewer.type typed.before).maybeReset.stats (viewer.kept typed counted) := by
  unfold ConsoleViewer.maybeReset kept
  split
  · exact ⟨.empty lineLabel, .empty functionLabel⟩
  · exact ⟨h.lines, h.functions⟩

theorem Consistent.incrementTrace (config : Config) (h : Consistent stats counted) (lastPid : Option Pid)
    (trace : StackTrace) :
    Consistent (incrementTrace config stats lastPid trace)
      (counted ++ [trace].filter fun trace => config.includeIdle || trace.active) := by
  unfold ConsoleViewer.incrementTrace
  cases hincluded : (config.includeIdle || trace.active) with
  | false =>
    simp only [hincluded, Bool.not_false, if_true, List.filter_cons, List.filter_nil, Bool.false_eq_true, if_false,
      List.append_nil]
    split <;> exact ⟨h.lines, h.functions⟩
  | true =>
    simp only [hincluded, Bool.not_true, Bool.false_eq_true, if_false, List.filter_cons, List.filter_nil, if_true]
    split_ifs <;> exact ⟨h.lines.update trace, h.functions.update trace⟩

theorem Consistent.incrementTraces (config : Config) (h : Consistent stats counted) (lastPid : Option Pid)
    (traces : List StackTrace) :
    Consistent (incrementTraces config stats lastPid traces)
      (counted ++ traces.filter fun trace => config.includeIdle || trace.active) := by
  induction traces generalizing stats counted lastPid with
  | nil => simpa [ConsoleViewer.incrementTraces] using h
  | cons trace traces ih =>
    have hrest := ih (h.incrementTrace config lastPid trace) (some trace.pid)
    rw [List.append_assoc, ← List.filter_append] at hrest
    exact hrest

theorem maybeReset_config (viewer : ConsoleViewer) : viewer.maybeReset.config = viewer.config := by
  unfold maybeReset
  split <;> rfl

theorem Consistent.apply (h : Consistent viewer.stats counted) (event : Event) :
    Consistent (viewer.apply event).stats (viewer.countedBy counted event) := by
  cases event with
  | increment typed traces =>
    have hreset := h.maybeReset typed
    have hconfig : (viewer.type typed.before).maybeReset.config = viewer.config := maybeReset_config _
    have hstart : Consistent { (viewer.type typed.before).maybeReset.stats with threads := 0, processes := 0 }
        (viewer.kept typed counted) := ⟨hreset.lines, hreset.functions⟩
    have htraces := hstart.incrementTraces viewer.config.toConfig none traces
    rw [← hconfig] at htraces
    rw [countedBy, ← hconfig]
    exact Consistent.incrementCommon
      { (viewer.type typed.before).maybeReset with stats := ConsoleViewer.incrementTraces _ _ none traces }
      htraces typed.during
  | incrementError typed error =>
    have hreset := h.maybeReset typed
    exact Consistent.incrementCommon
      { (viewer.type typed.before).maybeReset with
        stats := { (viewer.type typed.before).maybeReset.stats with
          errors := (viewer.type typed.before).maybeReset.stats.errors + 1, lastError := some error } }
      ⟨hreset.lines, hreset.functions⟩ typed.during
  | incrementLateSample delay => exact ⟨h.lines, h.functions⟩
  | resetCurrent => exact h.resetCurrent

theorem Consistent.run (h : Consistent viewer.stats counted) (events : List Event) :
    Consistent (events.foldl ConsoleViewer.apply viewer).stats (countedSince viewer counted events) := by
  induction events generalizing viewer counted with
  | nil => exact h
  | cons event events ih => exact ih (h.apply event)

/-- After any run both tables are those of the traces counted since the last reset. -/
theorem run_consistent (config : ViewerConfig) (events : List Event) :
    Consistent (events.foldl apply (new config)).stats (countedSince (new config) [] events) :=
  Consistent.run ⟨.empty lineLabel, .empty functionLabel⟩ events

end ConsoleViewer

end StSpy
