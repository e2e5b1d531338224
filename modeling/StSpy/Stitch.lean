import StSpy.Symbolizer
import StSpy.StackTrace
import Mathlib.Data.List.DropRight

/-!
# Stitching callouts

What `get_stack_traces` does to the frames of one thread after the native walk:
JIT addresses are named, and when the stack ends in VM code entered from
Smalltalk, the Cog frame chain is spliced in behind the boundary. Frames are
innermost first.
-/

namespace StSpy

/-- A method of the image, not a trampoline or a JIT placeholder. -/
def isSmalltalkMethod (frame : Frame) : Bool :=
  frame.filename = "Smalltalk" && !startsWith frame.name "Cog " && !startsWith frame.name "JIT "

/-! ## Short filenames -/

/-- The parts of `SmalltalkSpy` that `shorten_filename` uses. -/
structure Filenames where
  fullFilenames : Bool
  shortFilenames : String → Option (Option String)

namespace Filenames

def shorten (files : Filenames) (filename : String) : Option String × Filenames :=
  if files.fullFilenames then (some filename, files)
  else
    match files.shortFilenames filename with
    | some short => (short, files)
    | none =>
      (fileName filename,
        { files with
          shortFilenames := Function.update files.shortFilenames filename (some (fileName filename)) })

end Filenames

/-! ## The passes -/

/-- Pass 1 on one frame. -/
def nameFrame (M : Memory) (files : Filenames) (symbolizer : Symbolizer) (frame : Frame) :
    Frame × Filenames × Symbolizer :=
  let (frame, symbolizer) :=
    if frame.filename = "?" then
      match parseHexAddress frame.name with
      | none => (frame, symbolizer)
      | some addr =>
        let (resolved, symbolizer) := symbolizer.resolveJitPc M addr
        match resolved with
        | none => (frame, symbolizer)
        | some name => ({ frame with name, filename := "Smalltalk", module := some "Squeak" }, symbolizer)
    else (frame, symbolizer)
  let (shortFilename, files) := files.shorten frame.filename
  ({ frame with shortFilename }, files, symbolizer)

def nameFrames (M : Memory) : Filenames → Symbolizer → List Frame → List Frame × Filenames × Symbolizer
  | files, symbolizer, [] => ([], files, symbolizer)
  | files, symbolizer, frame :: frames =>
    let (frame, files, symbolizer) := nameFrame M files symbolizer frame
    let (frames, files, symbolizer) := nameFrames M files symbolizer frames
    (frame :: frames, files, symbolizer)

def isBoundary (frame : Frame) : Bool :=
  let dominatedByCogEntry := frame.filename = "Smalltalk" &&
    (startsWith frame.name "Cog ce" || startsWith frame.name "Cog methodAbort")
  let isVmPrimitive := startsWith frame.name "primitive" &&
    (endsWith frame.filename "cointerp.c" || endsWith frame.filename "Plugin.c")
  let isInterpret := frame.name = "interpret" || frame.name = "ceCaptureCStackPointers" ||
    startsWith frame.name "ceSend" || startsWith frame.name "ceReturn"
  dominatedByCogEntry || isVmPrimitive || isInterpret

/-- The loop of `find_interpreter_boundary` from index `i`. -/
def lastBoundary : List Frame → Nat → Option Nat → Option Nat
  | [], _, boundary => boundary
  | frame :: frames, i, boundary =>
    lastBoundary frames (i + 1) (if isBoundary frame then some i else boundary)

def findInterpreterBoundary (frames : List Frame) : Option Nat :=
  if (frames.filter isSmalltalkMethod).length > 3 then none
  else (lastBoundary frames 0 none).map (· + 1)

/-- The names of the native Smalltalk methods, from the whole stack. -/
def existingStNames (frames : List Frame) : List String := (frames.filter isSmalltalkMethod).map (·.name)

/-- A frame of the Cog chain, or the synthetic root. -/
def cogFrame (shortFilename : Option String) (name : String) : Frame where
  name := name
  filename := "Smalltalk"
  module := some "Squeak"
  shortFilename := shortFilename
  line := 0

/-- What the splice takes for native-resolved Smalltalk frames. -/
def isReplaced (frame : Frame) : Bool :=
  frame.filename = "Smalltalk" || startsWith frame.name "Cog " || startsWith frame.name "JIT "

/-- The `trim_end` loop, with the frames from index `trimEnd` on. -/
def trimEndFrom : List Frame → Nat → Nat
  | [], trimEnd => trimEnd
  | frame :: frames, trimEnd => if isReplaced frame then trimEndFrom frames (trimEnd + 1) else trimEnd

def trimEnd (frames : List Frame) (splicePos : Nat) : Nat :=
  trimEndFrom (frames.drop splicePos) splicePos

/-- The splice at a boundary. The source also measures the run of Smalltalk
frames behind it (`trimEnd`), but truncates at the boundary whatever its length. -/
def spliceCogFrames (files : Filenames) (frames : List Frame) (splicePos : Nat) (cogFrames : List String) :
    List Frame × Filenames :=
  let existing := existingStNames frames
  let (stShort, files) := files.shorten "Smalltalk"
  let dedupedFrames := (cogFrames.filter fun name => !existing.contains name).map (cogFrame stShort)
  (frames.take splicePos ++ dedupedFrames ++ [cogFrame stShort "Cog ceBaseFrameReturn"], files)

/-- Pass 2. -/
def stitch (files : Filenames) (frames : List Frame) (cogFrames : List String) :
    List Frame × Filenames :=
  match findInterpreterBoundary frames with
  | none => (frames, files)
  | some splicePos =>
    if cogFrames = [] then (frames, files) else spliceCogFrames files frames splicePos cogFrames

/-- `rposition` of a Smalltalk method, then the truncation behind it. -/
def trimNativeRoots (frames : List Frame) : List Frame :=
  if frames.any isSmalltalkMethod then frames.rdropWhile fun frame => !isSmalltalkMethod frame else frames

/-- The frames of one thread's trace. -/
def threadFrames (hideNativeRoots : Bool) (M : Memory) (cogFrames : List String) (files : Filenames)
    (symbolizer : Symbolizer) (frames : List Frame) : List Frame × Filenames × Symbolizer :=
  let (frames, files, symbolizer) := nameFrames M files symbolizer frames
  let (frames, files) := stitch files frames cogFrames
  (if hideNativeRoots then trimNativeRoots frames else frames, files, symbolizer)

end StSpy
