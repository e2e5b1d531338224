import StSpy.FramehopUnwind
import StSpy.StackTrace
import StSpy.Lib.Lru

/-!
# The native stack

`NativeStack` captures a thread and turns the addresses of its stack into frames.
The symbolicator is the function from addresses to reports that the modules it
knows give; only a reload replaces it. What `resolve_filename` finds on disk and
what the demangler gives are parameters.
-/

namespace StSpy

/-- `remoteprocess::StackFrame`. -/
structure StackFrame where
  line : Option UInt64
  filename : Option String
  function : Option String
  module : String
  addr : UInt64
  deriving DecidableEq

/-- How a symbolication fails. -/
inductive SymbolicateError where
  | noBinaryForAddress
  | other
  deriving DecidableEq

/-- The frames reported for an address, and the outcome. -/
structure Report where
  frames : List StackFrame
  result : Except SymbolicateError Unit

abbrev Symbolicator := UInt64 → Report

/-- What the translation of a frame looks up. -/
structure Lookups where
  resolveFilename : String → String → Option String
  demangle : String → Option String

def lowerHex (n : Nat) : String := String.ofList (Nat.toDigits 16 n)

/-- The frames of the runtime that are left out on Linux. -/
def ignoreFrame (function module : String) : Bool :=
  (function = "__libc_start_main" && containsStr module "/libc") ||
    (function = "__clone" && containsStr module "/libc") ||
    (function = "start_thread" && containsStr module "/libpthread")

def translateNativeFrame (lookups : Lookups) (frame : StackFrame) : Option Frame :=
  match frame.function with
  | some func =>
    if ignoreFrame func frame.module then none
    else
      let filename :=
        match frame.filename with
        | some filename => (lookups.resolveFilename filename frame.module).getD filename
        | none => frame.module
      let demangled := if startsWith func "_" then lookups.demangle func else none
      some
        { name := demangled.getD func
          filename
          module := some frame.module
          shortFilename := none
          line := (frame.line.getD 0).toUInt32.toInt32 }
  | none =>
    some
      { name := "0x" ++ lowerHex frame.addr.toNat
        filename := frame.module
        module := some frame.module
        shortFilename := none
        line := 0 }

/-- The frame of an address that fails to symbolicate. -/
def unknownFrame (addr : UInt64) : Frame where
  name := "0x" ++ lowerHex addr.toNat
  filename := "?"
  module := none
  shortFilename := none
  line := 0

def symbolCacheCapacity : Nat := 65536

def framehopRefreshInterval : Nat := 2000

/-- The state with the framehop backend. -/
structure NativeStack where
  shouldReload : Bool := false
  backend : FramehopUnwind.Framehop
  symbolicator : Symbolicator
  capturesSinceReload : Nat := 0
  symbolCache : List (UInt64 × StackFrame) := []

namespace NativeStack

variable (lookups : Lookups) (ns : NativeStack)

/-! ## Capturing -/

/-- The modules are scanned again once in `framehopRefreshInterval` captures. -/
def refreshBackend (call : FramehopUnwind.Call) : NativeStack :=
  if ns.capturesSinceReload + 1 ≥ framehopRefreshInterval then
    { ns with backend := ns.backend.loadModules call, capturesSinceReload := 0 }
  else { ns with capturesSinceReload := ns.capturesSinceReload + 1 }

def capture (call : FramehopUnwind.Call) (M : Memory) (regs : Option FramehopUnwind.Registers) :
    Option FramehopUnwind.StackSnapshot × NativeStack :=
  let ns := ns.refreshBackend call
  (ns.backend.capture M regs, ns)

/-! ## Symbolizing -/

/-- What is shown of an address when it is symbolicated. -/
def shown (symbolicator : Symbolicator) (addr : UInt64) : List Frame :=
  (symbolicator addr).frames.filterMap (translateNativeFrame lookups) ++
    match (symbolicator addr).result with
    | .ok _ => []
    | .error _ => [unknownFrame addr]

/-- A symbolication: an unknown address asks for a reload, and the frame of an
address with one frame is cached. -/
def symbolicate (addr : UInt64) : List Frame × NativeStack :=
  let report := ns.symbolicator addr
  let reload :=
    match report.result with
    | .error .noBinaryForAddress => true
    | _ => ns.shouldReload
  let symbolCache :=
    match report.frames with
    | [frame] => Lru.put symbolCacheCapacity ns.symbolCache addr frame
    | _ => ns.symbolCache
  (shown lookups ns.symbolicator addr, { ns with shouldReload := reload, symbolCache })

/-- The body of the loop over the addresses. -/
def symbolizeAddress (addr : UInt64) : List Frame × NativeStack :=
  match Lru.get ns.symbolCache addr with
  | (some frame, symbolCache) => ((translateNativeFrame lookups frame).toList, { ns with symbolCache })
  | (none, _) => ns.symbolicate lookups addr

def symbolizeAddresses : NativeStack → List UInt64 → List Frame × NativeStack
  | ns, [] => ([], ns)
  | ns, addr :: addrs =>
    let (frames, ns) := ns.symbolizeAddress lookups addr
    let (rest, ns) := symbolizeAddresses ns addrs
    (frames ++ rest, ns)

/-- The symbolicator after the reload that an unknown address asked for. -/
def reload (reloaded : Symbolicator) : NativeStack :=
  if ns.shouldReload then { ns with symbolicator := reloaded, shouldReload := false } else ns

/-- `resolve` of a capture whose stack has these addresses; `reloaded` is what a
reload makes of the symbolicator at that time. -/
def resolve (reloaded : Symbolicator) (addrs : List UInt64) : List Frame × NativeStack :=
  symbolizeAddresses lookups (ns.reload reloaded) addrs

end NativeStack

end StSpy
