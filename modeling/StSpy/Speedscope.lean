import StSpy.Record
import StSpy.Lib.Interning

/-!
# The speedscope profile

`Stats` interns the frames it is given and stores each trace as their indices.
`SpeedscopeFile.new` is given the order in which the `HashMap` `samples` lists
its entries. The thread ids of the profile are those of Linux, of 32 bits.
-/

namespace StSpy.Speedscope

abbrev Tid := Int32

structure Frame where
  name : String
  file : Option String
  line : Option UInt32
  col : Option UInt32
  deriving DecidableEq

def Frame.new (stackFrame : StSpy.Frame) (showLineNumbers : Bool) : Frame where
  name := stackFrame.name
  file := some stackFrame.filename
  line := if showLineNumbers then some stackFrame.line.toUInt32 else none
  col := none

/-! ## The file -/

inductive ProfileType where
  | evented | sampled
  deriving DecidableEq

inductive ValueUnit where
  | bytes | microseconds | milliseconds | nanoseconds | none | seconds
  deriving DecidableEq

structure Profile where
  profileType : ProfileType
  name : String
  unit : ValueUnit
  startValue : Float
  endValue : Float
  samples : List (List Nat)
  weights : List Float

structure Shared where
  frames : List Frame

structure SpeedscopeFile where
  schema : String
  profiles : List Profile
  shared : Shared
  activeProfileIndex : Option Float
  exporter : Option String
  name : Option String

/-- The profile of one thread. -/
def Profile.ofThread (threadNameMap : AList fun _ : Pid × Tid => String) (sampleRate : UInt64)
    (entry : Sigma fun _ : Pid × Tid => List (List Nat)) : Profile where
  profileType := .sampled
  name := (threadNameMap.lookup entry.1).getD "st-spy"
  unit := .seconds
  startValue := 0.0
  endValue := Float.ofNat entry.2.length / sampleRate.toFloat
  samples := entry.2
  weights := entry.2.map fun _ => 1.0 / sampleRate.toFloat

def SpeedscopeFile.new (samples : List (Sigma fun _ : Pid × Tid => List (List Nat))) (frames : List Frame)
    (threadNameMap : AList fun _ : Pid × Tid => String) (sampleRate : UInt64) : SpeedscopeFile where
  schema := "https://www.speedscope.app/file-format-schema.json"
  activeProfileIndex := none
  name := some "st-spy profile"
  exporter := some "st-spy@0.1.0"
  profiles := (samples.map (Profile.ofThread threadNameMap sampleRate)).mergeSort fun a b => a.name ≤ b.name
  shared := { frames }

/-! ## The statistics -/

structure Stats where
  samples : AList fun _ : Pid × Tid => List (List Nat)
  frames : List Frame
  frameToIndex : AList fun _ : StSpy.Frame => Nat
  threadNameMap : AList fun _ : Pid × Tid => String
  config : Config

/-- What a frame is interned by. -/
def frameKey (showLineNumbers : Bool) (frame : StSpy.Frame) : StSpy.Frame :=
  if showLineNumbers then frame else { frame with line := 0 }

/-- `as Tid`, which keeps the low bits. -/
def asTid (threadId : UInt64) : Tid := threadId.toUInt32.toInt32

def threadName (subprocesses : Bool) (stack : StackTrace) : String :=
  let name := stack.threadName.getD ""
  if subprocesses then
    "Process " ++ toString stack.pid ++ " Thread " ++ stack.formatThreadid ++ " \"" ++ name ++ "\""
  else "Thread " ++ stack.formatThreadid ++ " \"" ++ name ++ "\""

namespace Stats

def new (config : Config) : Stats where
  samples := ∅
  frames := []
  frameToIndex := ∅
  threadNameMap := ∅
  config := config

def record (s : Stats) (stack : StackTrace) : Stats :=
  let showLineNumbers := s.config.showLineNumbers
  let (frameIndices, table) := Interning.internAll ⟨s.frames, s.frameToIndex⟩
    (stack.frames.map fun frame => (frameKey showLineNumbers frame, Frame.new frame showLineNumbers))
  let key := (stack.pid, asTid stack.threadId)
  { s with
    samples := s.samples.insert key ((s.samples.lookup key).getD [] ++ [frameIndices.reverse])
    frames := table.values
    frameToIndex := table.index
    threadNameMap := s.threadNameMap.insert key
      ((s.threadNameMap.lookup key).getD (threadName s.config.subprocesses stack)) }

/-- The file `write` prints. -/
def write (s : Stats) (samples : List (Sigma fun _ : Pid × Tid => List (List Nat))) : SpeedscopeFile :=
  SpeedscopeFile.new samples s.frames s.threadNameMap s.config.samplingRate

/-- A run of `record` calls. -/
def recordAll (config : Config) (traces : List StackTrace) : Stats := traces.foldl record (new config)

end Stats

end StSpy.Speedscope
