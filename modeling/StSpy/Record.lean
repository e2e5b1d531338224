import StSpy.StackTrace

/-!
# Recording samples

The configuration as the exporters read it, what `record_samples` does to each
trace before it hands it to one of them, and its loop over the samples. Their
`increment` never fails, so the loop only lists what it hands over.
-/

namespace StSpy

structure Config where
  samplingRate : UInt64 := 100
  showLineNumbers : Bool := false
  includeIdle : Bool := false
  includeThreadIds : Bool := false
  subprocesses : Bool := false
  dumpJson : Bool := false

/-- The frame that names the thread, at the root of its stack. -/
def StackTrace.threadFrame (trace : StackTrace) : Frame where
  name :=
    match trace.threadName with
    | some threadName => "thread (" ++ trace.formatThreadid ++ "): " ++ threadName
    | none => "thread (" ++ trace.formatThreadid ++ ")"
  filename := ""
  module := none
  shortFilename := none
  line := 0

/-- A trace as it is recorded, unless it is skipped. -/
def recordedTrace (config : Config) (trace : StackTrace) : Option StackTrace :=
  if !(config.includeIdle || trace.active) then none
  else
    let frames := trace.frames ++ if config.includeThreadIds then [trace.threadFrame] else []
    some { trace with frames := frames ++ (trace.processInfo.map ProcessInfo.frames).getD [] }

/-- The traces an output gets, from those of each sample. -/
def recordedTraces (config : Config) (samples : List (List StackTrace)) : List StackTrace :=
  samples.flatten.filterMap (recordedTrace config)

/-! ## The loop -/

/-- What the sampler sends; `late` is in nanoseconds. -/
structure Sample where
  traces : List StackTrace
  samplingErrors : Option (List (Pid × String)) := none
  late : Option Nat := none

inductive RecordDuration where
  | unlimited
  | seconds (sec : UInt64)

structure RecordConfig extends Config where
  duration : RecordDuration := .unlimited

/-- After how many samples to stop. The product wraps. -/
def maxIntervals (config : RecordConfig) : Option UInt64 :=
  match config.duration with
  | .unlimited => none
  | .seconds sec => some (sec * config.samplingRate)

/-- A sample, and whether Control-C has not been pressed when it arrives. -/
structure Arrival where
  sample : Sample
  running : Bool := true

structure Recording where
  /-- What `output.increment` was called with. -/
  recorded : List StackTrace := []
  errors : Int32 := 0
  intervals : UInt64 := 0
  samples : Int32 := 0
  exitMessage : String := "Stopped sampling because process exited"

namespace Recording

variable (config : RecordConfig) (state : Recording)

def recordTrace (trace : StackTrace) : Recording :=
  match recordedTrace config.toConfig trace with
  | none => state
  | some trace => { state with recorded := state.recorded ++ [trace], samples := state.samples + 1 }

def countError (_ : Pid × String) : Recording := { state with errors := state.errors + 1 }

/-- What a pass of the loop does once it does not stop there. -/
def recordSample (sample : Sample) : Recording :=
  (sample.samplingErrors.getD []).foldl countError (sample.traces.foldl (recordTrace config) state)

def loop : Recording → List Arrival → Recording
  | state, [] => state
  | state, arrival :: arrivals =>
    if !arrival.running then { state with exitMessage := "Stopped sampling because Control-C pressed" }
    else
      let state := { state with intervals := state.intervals + 1 }
      -- the sample at hand is dropped with the stop
      if (maxIntervals config).any (state.intervals ≥ ·) then { state with exitMessage := "" }
      else loop (state.recordSample config arrival.sample) arrivals

end Recording

def recordSamples (config : RecordConfig) (arrivals : List Arrival) : Recording := Recording.loop config {} arrivals

end StSpy
