import StSpy.Record
import StSpy.Lib.Tables

/-!
# The console viewer

The counters of `top` and the loop of `sample_console`. `elapsed` is the number of
times that `sampling_rate` was added to it since it was zero, and whether that
reaches `refresh_seconds` is a parameter of the configuration. The keyboard is
what is typed before a call looks at the options, and what is typed between that
and its test for a refresh.
-/

namespace StSpy

structure FunctionStatistics where
  currentOwn : Nat := 0
  currentTotal : Nat := 0
  overallOwn : Nat := 0
  overallTotal : Nat := 0
  deriving DecidableEq

abbrev FunctionCounts := Tables.Table String FunctionStatistics

/-- What a trace does to the entry of a label first seen at position `order`. -/
def FunctionStatistics.add (order : Nat) (entry : FunctionStatistics) : FunctionStatistics :=
  let entry := { entry with currentTotal := entry.currentTotal + 1, overallTotal := entry.overallTotal + 1 }
  if order = 0 then { entry with currentOwn := entry.currentOwn + 1, overallOwn := entry.overallOwn + 1 } else entry

def FunctionStatistics.resetCurrent (entry : FunctionStatistics) : FunctionStatistics :=
  { entry with currentTotal := 0, currentOwn := 0 }

/-- Each label of the trace is counted once. Its labels differ, so the order in which
`current` lists them changes no entry. -/
def updateFunctionStatistics (counts : FunctionCounts) (trace : StackTrace) (keyFunc : Frame → String) :
    FunctionCounts :=
  let current := Tables.firstPositions ∅ 0 (trace.frames.map keyFunc)
  Tables.modifyAll counts current.entries {} FunctionStatistics.add

def functionLabel (frame : Frame) : String :=
  frame.name ++ " (" ++ frame.shortFilename.getD frame.filename ++ ")"

def lineLabel (frame : Frame) : String :=
  if frame.line ≠ 0 then
    frame.name ++ " (" ++ frame.shortFilename.getD frame.filename ++ ":" ++ toString frame.line ++ ")"
  else functionLabel frame

/-! ## Options -/

structure Options where
  dirty : Bool := false
  usage : Bool := false
  resetStyle : Bool := false
  sortColumn : Nat := 3
  showLinenumbers : Bool
  reset : Bool := false

/-- What a key does, apart from marking the options. -/
def Options.key (options : Options) : Char → Options
  | 'R' | 'r' => { options with reset := true }
  | 'L' | 'l' => { options with showLinenumbers := !options.showLinenumbers }
  | 'X' | 'x' => { options with usage := false }
  | '?' => { options with usage := true }
  | '1' => { options with sortColumn := 1 }
  | '2' => { options with sortColumn := 2 }
  | '3' => { options with sortColumn := 3 }
  | '4' => { options with sortColumn := 4 }
  | _ => options

def Options.press (options : Options) (key : Char) : Options :=
  let previousUsage := options.usage
  let options := { options with dirty := true }.key key
  { options with resetStyle := previousUsage != options.usage }

/-! ## Statistics -/

structure Stats where
  currentSamples : Nat := 0
  overallSamples : Nat := 0
  elapsed : Nat := 0
  errors : Nat := 0
  lateSamples : Nat := 0
  threads : Nat := 0
  processes : Nat := 0
  active : Nat := 0
  functionCounts : FunctionCounts := ∅
  lineCounts : FunctionCounts := ∅
  lastError : Option String := none
  lastDelay : Option Nat := none

def Stats.resetCurrent (stats : Stats) : Stats :=
  { stats with
    lineCounts := Tables.mapValues FunctionStatistics.resetCurrent stats.lineCounts
    functionCounts := Tables.mapValues FunctionStatistics.resetCurrent stats.functionCounts
    active := 0
    currentSamples := 0
    elapsed := 0 }

structure ViewerConfig extends Config where
  /-- Whether that many additions of the sampling rate reach `refresh_seconds`. -/
  refreshDue : Nat → Bool

/-- `screens` are the statistics that were displayed, the latest first. -/
structure ConsoleViewer where
  config : ViewerConfig
  options : Options
  stats : Stats := {}
  screens : List Stats := []

/-- The keys typed around a call. -/
structure Typed where
  before : List Char := []
  during : List Char := []

namespace ConsoleViewer

def new (config : ViewerConfig) : ConsoleViewer where
  config
  options := { showLinenumbers := config.showLineNumbers }

variable (viewer : ConsoleViewer)

def type (keys : List Char) : ConsoleViewer := { viewer with options := keys.foldl Options.press viewer.options }

def maybeReset : ConsoleViewer :=
  if viewer.options.reset then { viewer with stats := {}, options := { viewer.options with reset := false } }
  else viewer

def display : ConsoleViewer :=
  { viewer with
    options := { viewer.options with dirty := false, resetStyle := false }
    screens := viewer.stats :: viewer.screens }

def shouldRefresh : Bool :=
  match viewer.stats.overallSamples with
  | 10 | 100 | 500 => true
  | _ => viewer.options.dirty || viewer.config.refreshDue viewer.stats.elapsed

/-- The counting that `increment` and `increment_error` share. -/
def incrementCommon (typed : List Char) : ConsoleViewer :=
  let stats :=
    { viewer.stats with
      currentSamples := viewer.stats.currentSamples + 1
      overallSamples := viewer.stats.overallSamples + 1
      elapsed := viewer.stats.elapsed + 1 }
  let viewer := { viewer with stats }.type typed
  if viewer.shouldRefresh then { viewer.display with stats := viewer.display.stats.resetCurrent } else viewer

/-- The body of the loop over the traces; `lastPid` is that of the trace before. -/
def incrementTrace (config : Config) (stats : Stats) (lastPid : Option Pid) (trace : StackTrace) : Stats :=
  let stats := { stats with threads := stats.threads + 1 }
  let stats := if lastPid ≠ some trace.pid then { stats with processes := stats.processes + 1 } else stats
  if !(config.includeIdle || trace.active) then stats
  else
    let stats := if trace.active then { stats with active := stats.active + 1 } else stats
    { stats with
      lineCounts := updateFunctionStatistics stats.lineCounts trace lineLabel
      functionCounts := updateFunctionStatistics stats.functionCounts trace functionLabel }

def incrementTraces (config : Config) : Stats → Option Pid → List StackTrace → Stats
  | stats, _, [] => stats
  | stats, lastPid, trace :: traces =>
    incrementTraces config (incrementTrace config stats lastPid trace) (some trace.pid) traces

/-- The traces change only what they count. -/
theorem incrementTraces_eq (config : Config) (stats : Stats) (lastPid : Option Pid) (traces : List StackTrace) :
    ∃ threads processes active functionCounts lineCounts, incrementTraces config stats lastPid traces =
      { stats with threads, processes, active, functionCounts, lineCounts } := by
  induction traces generalizing stats lastPid with
  | nil => exact ⟨_, _, _, _, _, rfl⟩
  | cons trace traces ih =>
    have hone : ∃ threads processes active functionCounts lineCounts, incrementTrace config stats lastPid trace =
        { stats with threads, processes, active, functionCounts, lineCounts } := by
      unfold incrementTrace
      dsimp only
      split_ifs <;> exact ⟨_, _, _, _, _, rfl⟩
    obtain ⟨_, _, _, _, _, hone⟩ := hone
    rw [incrementTraces, hone]
    exact ih _ _

def increment (typed : Typed) (traces : List StackTrace) : ConsoleViewer :=
  let viewer := (viewer.type typed.before).maybeReset
  let stats := { viewer.stats with threads := 0, processes := 0 }
  let stats := incrementTraces viewer.config.toConfig stats none traces
  { viewer with stats }.incrementCommon typed.during

def incrementError (typed : Typed) (error : String) : ConsoleViewer :=
  let viewer := (viewer.type typed.before).maybeReset
  let stats := { viewer.stats with errors := viewer.stats.errors + 1, lastError := some error }
  { viewer with stats }.incrementCommon typed.during

def incrementLateSample (delay : Nat) : ConsoleViewer :=
  { viewer with
    stats := { viewer.stats with lateSamples := viewer.stats.lateSamples + 1, lastDelay := some delay } }

/-- The errors of a sample; `typed` is what is typed around each of the calls. -/
def incrementErrors : ConsoleViewer → List Typed → List (Pid × String) → ConsoleViewer
  | viewer, _, [] => viewer
  | viewer, typed, error :: errors =>
    incrementErrors (viewer.incrementError (typed.headD {}) error.2) typed.tail errors

/-- A sample, and what is typed around the calls that it takes. -/
structure Processed where
  sample : Sample
  typed : List Typed := []

/-- The body of the loop of `sample_console`. -/
def sampleConsole (processed : Processed) : ConsoleViewer :=
  let viewer :=
    match processed.sample.late with
    | some elapsed => viewer.incrementLateSample elapsed
    | none => viewer
  let errors := processed.sample.samplingErrors.getD []
  (viewer.incrementErrors processed.typed errors).increment ((processed.typed.drop errors.length).headD {})
    processed.sample.traces

end ConsoleViewer

end StSpy
