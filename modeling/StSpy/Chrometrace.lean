import StSpy.StackTrace
import Mathlib.Data.List.AList

/-!
# The chrome trace

`Chrometrace` collects begin and end events. `increment` is given the time
stamp the source takes from the clock, `write` also the order in which the
`HashMap` `prev_traces` lists its values.
-/

namespace StSpy

structure Args where
  filename : String
  line : Option UInt32
  deriving DecidableEq

structure Event where
  args : Args
  cat : String
  name : String
  ph : String
  pid : UInt64
  tid : UInt64
  ts : UInt64
  deriving DecidableEq

structure Chrometrace where
  events : List Event
  prevTraces : AList fun _ : UInt64 => StackTrace
  showLinenumbers : Bool

/-- `as u64`, which extends the sign. -/
def StackTrace.pidU64 (trace : StackTrace) : UInt64 := trace.pid.toInt64.toUInt64

namespace Chrometrace

def new (showLinenumbers : Bool) : Chrometrace where
  events := []
  prevTraces := ∅
  showLinenumbers := showLinenumbers

variable (c : Chrometrace)

def shouldMergeFrames (a b : Frame) : Bool :=
  a.name = b.name && a.filename = b.filename && (!c.showLinenumbers || a.line = b.line)

def event (trace : StackTrace) (frame : Frame) (phase : String) (ts : UInt64) : Event where
  tid := trace.threadId
  pid := trace.pidU64
  name := frame.name
  cat := "st-spy"
  ph := phase
  ts := ts
  args :=
    { filename := frame.filename
      line := if c.showLinenumbers then some frame.line.toUInt32 else none }

/-- The index, from the root, of the first frame of `trace` that is new. -/
def newIdx (prevFrames : List Frame) (trace : StackTrace) : Nat :=
  ((prevFrames.reverse.zip trace.frames.reverse).findIdx? fun (a, b) => !c.shouldMergeFrames a b).getD
    (min prevFrames.length trace.frames.length)

def increment (now : UInt64) (trace : StackTrace) : Chrometrace :=
  let prevFrames := ((c.prevTraces.lookup trace.threadId).map (·.frames)).getD []
  let newIdx := c.newIdx prevFrames trace
  let ends := (prevFrames.reverse.drop newIdx).reverse.map fun frame => c.event trace frame "E" now
  let begins := (trace.frames.reverse.drop newIdx).map fun frame => c.event trace frame "B" now
  { c with
    events := c.events ++ ends ++ begins
    prevTraces := (c.prevTraces.erase trace.threadId).insert trace.threadId trace }

/-- The values of `prev_traces`, in one of the orders they may come in. -/
def values : List StackTrace := c.prevTraces.entries.map Sigma.snd

/-- The events `write` prints. -/
def write (now : UInt64) (prevTraces : List StackTrace) : List Event :=
  c.events ++ prevTraces.flatMap fun trace => trace.frames.map fun frame => c.event trace frame "E" now

/-- A run of `increment` calls. -/
def record (samples : List (UInt64 × StackTrace)) : Chrometrace :=
  samples.foldl (fun c sample => c.increment sample.1 sample.2) c

end Chrometrace

end StSpy
