import Mathlib.Tactic.Common

/-!
# Stack traces

`Frame` and `StackTrace` as the sampler hands them to the output formats. Frames
are innermost first.
-/

namespace StSpy

abbrev Pid := Int32

structure Frame where
  name : String
  filename : String
  module : Option String
  shortFilename : Option String
  line : Int32
  deriving DecidableEq

/-- A process and, when they are sampled too, the processes above it. -/
structure ProcessInfo where
  pid : Pid
  commandLine : String
  parent : Option ProcessInfo

structure StackTrace where
  pid : Pid
  threadId : UInt64
  threadName : Option String := none
  osThreadId : Option UInt64 := none
  active : Bool := true
  frames : List Frame
  processInfo : Option ProcessInfo := none

/-- The digits of `{:X}`. -/
def upperHex (n : Nat) : String :=
  String.ofList ((Nat.toDigits 16 n).map Char.toUpper)

def StackTrace.formatThreadid (trace : StackTrace) : String :=
  match trace.osThreadId with
  | some tid => toString tid
  | none => "0x" ++ upperHex trace.threadId.toNat

namespace ProcessInfo

def toFrame (info : ProcessInfo) : Frame where
  name := "process " ++ toString info.pid ++ ":\"" ++ info.commandLine ++ "\""
  filename := ""
  module := none
  shortFilename := none
  line := 0

/-- The frames of a process and of those above it, innermost first. -/
def frames : ProcessInfo → List Frame
  | ⟨pid, commandLine, none⟩ => [toFrame ⟨pid, commandLine, none⟩]
  | ⟨pid, commandLine, some parent⟩ => toFrame ⟨pid, commandLine, some parent⟩ :: parent.frames

end ProcessInfo

end StSpy
