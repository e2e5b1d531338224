import StSpy.BinaryParser
import StSpy.Text
import Mathlib.Data.List.Dedup

/-!
# Framehop's modules

`loadModules` of the framehop backend: the mappings of one moment are grouped by
file, and each file not loaded yet is registered with the unwinder. The unwinder
is the list of the modules added to it.
-/

namespace StSpy.FramehopUnwind

open BinaryParser (ProgramHeader ptLoad shtNobits)

/-- `std::ops::Range<u64>`. -/
structure Range where
  start : UInt64
  stop : UInt64
  deriving DecidableEq

/-- A mapping of the target. A path that is no text counts as none. -/
structure MapRange where
  start : UInt64
  size : UInt64
  offset : UInt64
  isExec : Bool
  isWrite : Bool
  filename : Option String

structure SectionHeader extends BinaryParser.SectionHeader where
  shOffset : UInt64

/-- A file on disk as `goblin` parses it. -/
structure ElfFile where
  data : List UInt8
  programHeaders : List ProgramHeader
  sectionHeaders : List SectionHeader

structure ExplicitModuleSectionInfo where
  baseSvma : UInt64
  textSvma : Option Range
  text : Option (List UInt8)
  ehFrameSvma : Option Range
  ehFrame : Option (List UInt8)
  ehFrameHdrSvma : Option Range
  ehFrameHdr : Option (List UInt8)
  gotSvma : Option Range

structure Module where
  name : String
  avmaRange : Range
  baseAvma : UInt64
  sectionInfo : ExplicitModuleSectionInfo

/-! ## One file -/

/-- `data.get(off..off + sz)`. -/
def dataRange (data : List UInt8) (off sz : UInt64) : Option (List UInt8) :=
  let stop := off + sz
  if off ≤ stop ∧ stop.toNat ≤ data.length then some ((data.drop off.toNat).take sz.toNat) else none

/-- The `section` closure, on the headers still to be looked at. -/
def sectionFrom (data : List UInt8) (name : String) : List SectionHeader → Option (Range × List UInt8)
  | [] => none
  | sh :: headers =>
    match sh.name with
    | none => none
    | some sname =>
      if sname = name then do
        let bytes ← if sh.shType = shtNobits then some [] else dataRange data sh.shOffset sh.shSize
        some (⟨sh.shAddr, sh.shAddr + sh.shSize⟩, bytes)
      else sectionFrom data name headers

def ElfFile.sectionNamed (elf : ElfFile) (name : String) : Option (Range × List UInt8) :=
  sectionFrom elf.data name elf.sectionHeaders

def baseSvma (elf : ElfFile) : UInt64 :=
  (((elf.programHeaders.filter fun ph => ph.pType = ptLoad).map (·.pVaddr)).min?).getD 0

/-- The module `add_module_from_file` builds, with the segment it takes the base address from. -/
def moduleOf (elf : ElfFile) (path : String) (execSeg : MapRange) (avmaRange : Range) : Module :=
  let text := elf.sectionNamed ".text"
  let ehFrame := elf.sectionNamed ".eh_frame"
  let ehFrameHdr := elf.sectionNamed ".eh_frame_hdr"
  let got := elf.sectionNamed ".got"
  { name := path
    avmaRange
    baseAvma := execSeg.start - execSeg.offset
    sectionInfo :=
      { baseSvma := baseSvma elf
        textSvma := text.map (·.1)
        text := text.map (·.2)
        ehFrameSvma := ehFrame.map (·.1)
        ehFrame := ehFrame.map (·.2)
        ehFrameHdrSvma := ehFrameHdr.map (·.1)
        ehFrameHdr := ehFrameHdr.map (·.2)
        gotSvma := got.map (·.1) } }

/-- The module of a file, given what reading and parsing it gives. -/
def addModuleFromFile (file : Except String ElfFile) (path : String) (segs : List MapRange) (avmaRange : Range) :
    Except String Module :=
  match file with
  | .error e => .error e
  | .ok elf =>
    match (segs.find? (·.isExec)).or segs.head? with
    | none => .error "no segments"
    | some execSeg =>
      if (elf.sectionNamed ".eh_frame").isNone && (elf.sectionNamed ".text").isNone then
        .error "no .eh_frame or .text"
      else .ok (moduleOf elf path execSeg avmaRange)

/-! ## One scan -/

/-- The paths of the files mapped, each once. -/
def paths (maps : List MapRange) : List String :=
  ((maps.filterMap (·.filename)).filter fun path => path ≠ "" && !startsWith path "[").dedup

/-- The mappings of a file. -/
def segsOf (maps : List MapRange) (path : String) : List MapRange := maps.filter fun m => m.filename = some path

/-- The range that all mappings of a file cover. -/
def avmaRange (segs : List MapRange) : Range where
  start := ((segs.map (·.start)).min?).getD 0
  stop := ((segs.map fun s => s.start + s.size).max?).getD 0

def writable (maps : List MapRange) : List Range :=
  (maps.filter (·.isWrite)).map fun m => ⟨m.start, m.start + m.size⟩

/-- The backend's state. `loadedFor` is not in the source: the file that each
range of `loaded` was recorded for. -/
structure Framehop where
  modules : List Module
  loaded : List Range
  loadedFor : List String
  writableRanges : List Range

/-- What a call of `load_modules` meets: the mappings, unless they cannot be
read, what each file reads and parses as, and the order of the files in `by_file`. -/
structure Call where
  maps : Option (List MapRange)
  files : String → Except String ElfFile
  order : List String
  listed : ∀ m, maps = some m → order.Perm (paths m)

namespace Framehop

variable (fh : Framehop)

/-- Before the first call. -/
def empty : Framehop := ⟨[], [], [], []⟩

/-- Whether the start address is that of a range loaded already. -/
def isLoaded (start : UInt64) : Bool := fh.loaded.any fun r => r.start = start

def loadFile (maps : List MapRange) (files : String → Except String ElfFile) (path : String) : Framehop :=
  let segs := segsOf maps path
  let range := avmaRange segs
  if fh.isLoaded range.start then fh
  else
    match addModuleFromFile (files path) path segs range with
    | .ok m =>
      { fh with
        modules := fh.modules ++ [m]
        loaded := fh.loaded ++ [range]
        loadedFor := fh.loadedFor ++ [path] }
    | .error _ => { fh with loaded := fh.loaded ++ [range], loadedFor := fh.loadedFor ++ [path] }

/-- The loop over the files. -/
def loadFiles (maps : List MapRange) (files : String → Except String ElfFile) (order : List String) : Framehop :=
  order.foldl (fun fh path => fh.loadFile maps files path) fh

def loadModules (call : Call) : Framehop :=
  match call.maps with
  | none => fh
  | some maps =>
    { fh with writableRanges := writable maps }.loadFiles maps call.files call.order

/-- A sequence of calls. -/
def run (calls : List Call) : Framehop := calls.foldl loadModules fh

end Framehop

/-! ## One thread -/

def stackCopyWindow : UInt64 := 128 * 1024

structure Registers where
  rip : UInt64
  rsp : UInt64
  rbp : UInt64

/-- What is needed to unwind one thread without the target. -/
structure StackSnapshot where
  rip : UInt64
  regs : Registers
  stack : List UInt8
  stackBase : UInt64

namespace Framehop

variable (fh : Framehop)

def stackTopFor (addr : UInt64) : Option UInt64 :=
  (fh.writableRanges.find? fun r => r.start ≤ addr && addr < r.stop).map (·.stop)

/-- The end of the range that `capture` copies from `rsp`. -/
def copyTop (rsp : UInt64) : UInt64 :=
  match fh.stackTopFor rsp with
  | some mapTop => min (rsp + stackCopyWindow) mapTop
  | none => rsp + stackCopyWindow

/-- The snapshot of a thread, unless its registers or its stack cannot be read. -/
def capture (M : Memory) (regs : Option Registers) : Option StackSnapshot := do
  let regs ← regs
  let stack ← M.copy regs.rsp (saturatingSub (fh.copyTop regs.rsp) regs.rsp).toNat
  return { rip := regs.rip, regs, stack, stackBase := regs.rsp }

end Framehop

end StSpy.FramehopUnwind
