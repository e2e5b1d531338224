import StSpy.Record
import Mathlib.Data.List.AList

/-!
# The flame graph

`Flamegraph` counts the stacks it is given, each as one string. `writeRaw` is
given the order in which the `HashMap` `counts` lists its entries.
-/

namespace StSpy

structure Flamegraph where
  counts : AList fun _ : String => Nat
  showLinenumbers : Bool

namespace Flamegraph

def new (showLinenumbers : Bool) : Flamegraph where
  counts := ∅
  showLinenumbers := showLinenumbers

def label (showLinenumbers : Bool) (frame : Frame) : String :=
  let filename := frame.shortFilename.getD frame.filename
  if showLinenumbers && frame.line ≠ 0 then
    frame.name ++ " (" ++ filename ++ ":" ++ toString frame.line ++ ")"
  else if filename ≠ "" then frame.name ++ " (" ++ filename ++ ")"
  else frame.name

/-- The labels of a trace, outermost first. -/
def labels (showLinenumbers : Bool) (trace : StackTrace) : List String :=
  trace.frames.reverse.map (label showLinenumbers)

def increment (f : Flamegraph) (trace : StackTrace) : Flamegraph :=
  let frame := String.intercalate ";" (labels f.showLinenumbers trace)
  { f with counts := f.counts.insert frame ((f.counts.lookup frame).getD 0 + 1) }

def getLines (counts : List (Sigma fun _ : String => Nat)) : List String :=
  counts.map fun entry => entry.1 ++ " " ++ toString entry.2

/-- The text of `write_raw`. -/
def writeRaw (counts : List (Sigma fun _ : String => Nat)) : String :=
  String.join ((getLines counts).map (· ++ "\n"))

/-- `record_samples` into a flame graph. -/
def recordSamples (config : Config) (samples : List (List StackTrace)) : Flamegraph :=
  (recordedTraces config samples).foldl increment (new config.showLineNumbers)

end Flamegraph

end StSpy
