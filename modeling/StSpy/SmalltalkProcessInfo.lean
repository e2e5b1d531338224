import StSpy.Symbolizer
import StSpy.Text.Numbers

/-!
# Recognizing VM processes

`smalltalk_process_info.rs`: which processes are taken for OpenSmalltalk VMs, and
the version string that is read from one. What the operating system answers about
a process is an argument, and so is `str::to_lowercase`.
-/

namespace StSpy

def vmSymbols : List String :=
  ["interpreterVersion", "__interpBuildInfo", "interpret", "vmIsInitialized", "fullDisplayUpdate"]

/-! ## The version string -/

def cStringLimit : Nat := 4096

namespace Memory

variable (M : Memory)

/-- The bytes from `addr` up to a zero, at most `turns` of them. -/
def bytesToZero : Nat → UInt64 → Option (List UInt8)
  | 0, _ => some []
  | turns + 1, addr => do
    let byte ← M.copyU8 addr
    if byte = 0 then some [] else return byte :: (← bytesToZero turns (addr + 1))

def copyCString (addr : UInt64) : Option String := do
  let bytes ← M.bytesToZero cStringLimit addr
  if bytes = [] then none else String.fromUTF8? bytes.toByteArray

end Memory

def isVmVersion (value : String) : Bool :=
  containsStr value "Open Smalltalk" || containsStr value "OpenSmalltalk" ||
    containsStr value "StackInterpreter" || containsStr value "Cog"

/-- A version string at `addr`. -/
def versionAt (M : Memory) (addr : UInt64) : Option String := (M.copyCString addr).filter isVmVersion

/-- The body of the loop over the two symbols: the symbol is tried as a pointer
to the string and then as the string. -/
def versionOfSymbol (M : Memory) (addr : UInt64) : Option String :=
  match M.copyU64 addr with
  | none => versionAt M addr
  | some ptr => if ptr ≠ 0 then (versionAt M ptr).or (versionAt M addr) else versionAt M addr

def readVmVersion (binary : BinaryInfo) (M : Memory) : Option String :=
  ["interpreterVersion", "__interpBuildInfo"].findSome? fun symbol =>
    (binary.symbols.lookup symbol).bind (versionOfSymbol M)

/-! ## One process -/

/-- What is known of a process that is opened. A symbol table that cannot be
parsed counts as none. -/
structure OpenProcess where
  exe : Except String String
  maps : Except String (List MapRange)
  /-- `parse_binary` of the executable, for the start and the size of its mapping. -/
  parseBinary : UInt64 → UInt64 → Option BinaryInfo
  mem : Memory

structure SmalltalkProcessInfo where
  binary : Option BinaryInfo
  vmVersion : String

variable (lower : String → String)

namespace SmalltalkProcessInfo

/-- The executable mapping of the executable. -/
def executableMap (executable : String) (maps : List MapRange) : Option MapRange :=
  (maps.filter (·.isExec)).find? fun m => m.filename = some executable

def symbolMatch (binary : Option BinaryInfo) : Bool :=
  binary.any fun binary => vmSymbols.any fun symbol => (binary.symbols.lookup symbol).isSome

def nameMatch (executableLower : String) : Bool :=
  containsStr executableLower "squeak" || containsStr executableLower "opensmalltalk" ||
    containsStr executableLower "spur" || containsStr executableLower "cog"

def new (process : OpenProcess) : Except String SmalltalkProcessInfo :=
  match process.exe with
  | .error _ => .error "Failed to find process executable"
  | .ok executable =>
    match process.maps with
    | .error e => .error e
    | .ok maps =>
      match executableMap executable maps with
      | none => .error "Failed to find executable memory map"
      | some map =>
        let binary := process.parseBinary map.start map.size
        if !symbolMatch binary && !nameMatch (lower executable) then
          .error ("Target executable '" ++ executable ++ "' does not look like an OpenSmalltalk VM")
        else
          .ok
            { binary
              vmVersion := (binary.bind fun binary => readVmVersion binary process.mem).getD
                ((fileName executable).getD "OpenSmalltalk VM") }

end SmalltalkProcessInfo

/-! ## All processes -/

def nameLooksLikeVm (name : String) : Bool :=
  let lower := lower name
  containsStr lower "squeak" || containsStr lower "opensmalltalk" || containsStr lower "pharo" ||
    containsStr lower "spur" || containsStr lower "cogspur" || endsWith lower "/cog" || lower = "cog"

/-- An entry of `/proc`, with what is found under it if its name is a pid. A name
or a link that is no text counts as none. -/
structure ProcEntry where
  name : Option String
  /-- `comm`, trimmed. -/
  comm : Option String
  exe : Option String
  process : Except String OpenProcess

/-- The body of the loop over the entries. -/
def vmProcess (selfPid : Pid) (entry : ProcEntry) : Option Pid := do
  let name ← entry.name
  let pid ← parseI32 10 name.toList
  if pid = selfPid then none
  else if !nameLooksLikeVm lower (entry.comm.getD "") && !nameLooksLikeVm lower (entry.exe.getD "") then none
  else
    match entry.process with
    | .error _ => none
    | .ok process =>
      match SmalltalkProcessInfo.new lower process with
      | .error _ => none
      | .ok _ => some pid

/-- `/proc` may be unreadable. -/
def findVmProcesses (entries : Option (List ProcEntry)) (selfPid : Pid) : List Pid :=
  match entries with
  | none => []
  | some entries => (entries.filterMap (vmProcess lower selfPid)).mergeSort fun a b => decide (a ≤ b)

end StSpy
