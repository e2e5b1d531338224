import StSpy.Memory
import Mathlib.Data.List.AList

/-!
# Parsing the executable

`parseBinary` on an executable as `goblin` has parsed it: the sections, segments
and symbols the source reads, with the errors `goblin` may report in their place.
-/

namespace StSpy

/-- `utils::is_subrange` on addresses. -/
def isSubrange (start size subStart subSize : UInt64) : Bool :=
  size ≠ 0 && subSize ≠ 0 && (checkedAdd start size).isSome && (checkedAdd subStart subSize).isSome &&
    subStart ≥ start && subStart + subSize ≤ start + size

namespace BinaryParser

structure BinaryInfo where
  symbols : AList fun _ : String => UInt64
  bssAddr : UInt64
  bssSize : UInt64
  addr : UInt64
  size : UInt64

/-! ## Parsed executables -/

structure MachSection where
  name : Except String String
  addr : UInt64
  size : UInt64

structure MachSegment where
  name : String
  vmaddr : UInt64
  sections : Except String (List MachSection)

structure MachO where
  segments : List MachSegment
  symbols : Option (List (Except String (String × UInt64)))

/-- An architecture of an archive, and what its bytes parse as. -/
structure FatArch where
  is64 : Bool
  cputype : UInt32
  offset : UInt32
  size : UInt32
  parsed : Except String MachO

inductive Mach where
  | binary (mach : MachO)
  | fat (arches : List (Except String FatArch))

/-- A section header, with its name in the string table. -/
structure SectionHeader where
  shType : UInt32
  name : Option String
  shAddr : UInt64
  shSize : UInt64

structure ProgramHeader where
  pType : UInt32
  pFlags : UInt32
  pVaddr : UInt64

/-- A symbol, with its name in the string table of its kind. -/
structure Sym where
  name : Option String
  stShndx : Nat
  isImport : Bool
  isFunction : Bool
  stValue : UInt64
  stSize : UInt64

structure Elf where
  sectionHeaders : List SectionHeader
  programHeaders : List ProgramHeader
  syms : List Sym
  dynsyms : List Sym

structure Export where
  name : Option String
  rva : UInt64

structure SectionTable where
  name : List UInt8
  virtualAddress : UInt32
  virtualSize : UInt32

structure PE where
  exports : List Export
  sections : List SectionTable

inductive Object where
  | mach (mach : Mach)
  | elf (elf : Elf)
  | pe (pe : PE)
  | unknown

/-- What `parse_binary` reads besides the parsed file. -/
structure Host where
  filename : String
  bufferLen : UInt64
  machCputype : UInt32
  pageSize : UInt64

/-! ## Parts the formats share -/

def insertAll (symbols : AList fun _ : String => UInt64) (recorded : List (String × UInt64)) :
    AList fun _ : String => UInt64 :=
  recorded.foldl (fun symbols entry => symbols.insert entry.1 entry.2) symbols

/-- The address a section is loaded at, when it ends below the end of memory. -/
def loadedAddr (offset addr size : UInt64) : Option UInt64 :=
  (checkedAdd addr offset).filter fun addr => (checkedAdd addr size).isSome

/-- The address and the size of the last section that is loaded. -/
def lastLoaded (offset : UInt64) (sections : List (UInt64 × UInt64)) : UInt64 × UInt64 :=
  sections.foldl (fun bss sec =>
    match loadedAddr offset sec.1 sec.2 with
    | some addr => (addr, sec.2)
    | none => bss) (0, 0)

/-! ## Mach-O -/

def selectMach (host : Host) : Mach → Except String MachO
  | .binary mach => .ok mach
  | .fat arches =>
    match arches.findSome? fun arch =>
      arch.toOption.filter fun arch => arch.is64 && arch.cputype = host.machCputype with
    | none => .error ("Failed to find 64 bit arch in FAT archive in " ++ host.filename)
    | some arch =>
      if !isSubrange 0 host.bufferLen arch.offset.toUInt64 arch.size.toUInt64 then
        .error ("Invalid offset/size in FAT archive in " ++ host.filename)
      else arch.parsed

def stripUnderscore (name : String) : Option String :=
  match name.toList with
  | '_' :: rest => some (String.ofList rest)
  | _ => none

def parseMach (mach : MachO) (addr size : UInt64) : Except String BinaryInfo := do
  let offset := addr
  let sections ← mach.segments.mapM fun segment => do
    (← segment.sections).mapM fun sec => do
      let name ← sec.name
      pure (name, sec.addr, sec.size)
  let bss := lastLoaded offset ((sections.flatten.filter fun sec => sec.1 = "__bss").map (·.2))
  let syms ← (mach.symbols.getD []).mapM id
  let symbols := insertAll ∅ (syms.filterMap fun sym =>
    (stripUnderscore sym.1).map fun strippedName => (strippedName, sym.2 + offset))
  pure { symbols, bssAddr := bss.1, bssSize := bss.2, addr, size }

/-! ## ELF -/

def shtNobits : UInt32 := 8
def ptLoad : UInt32 := 1
def pfX : UInt32 := 1
def shnUndef : Nat := 0

/-- `max_by_key`: of several largest headers, the last. -/
def largest (headers : List SectionHeader) : Option SectionHeader :=
  headers.foldl (fun best header =>
    match best with
    | none => some header
    | some best => if best.shSize ≤ header.shSize then some header else some best) none

def bssHeader (elf : Elf) : Option SectionHeader :=
  largest (elf.sectionHeaders.filter fun header =>
    header.shType = shtNobits && (header.name.all fun name => name = ".bss"))

/-- The first executable `PT_LOAD` header. -/
def executableHeader (elf : Elf) : Option ProgramHeader :=
  elf.programHeaders.find? fun header => header.pType = ptLoad && header.pFlags &&& pfX ≠ 0

def alignedVaddr (pageSize : UInt64) (header : ProgramHeader) : UInt64 :=
  header.pVaddr - header.pVaddr % pageSize

/-- What the loops over `syms` and `dynsyms` record of a symbol. -/
def elfSymbol (addr size offset bssEnd : UInt64) (sym : Sym) : Option (String × UInt64) :=
  if sym.stShndx = shnUndef then none
  else if sym.isImport || (bssEnd ≠ 0 && sym.stSize ≠ 0 && !isSubrange 0 bssEnd sym.stValue sym.stSize) then none
  else
    match checkedAdd sym.stValue offset with
    | none => none
    | some pos =>
      if sym.isFunction && !isSubrange addr size pos sym.stSize then none else sym.name.map fun name => (name, pos)

def parseElf (host : Host) (elf : Elf) (addr size : UInt64) : Except String BinaryInfo :=
  match bssHeader elf with
  | none => .error ("Failed to find BSS section header in " ++ host.filename)
  | some bssHeader =>
    match executableHeader elf with
    | none => .error ("Failed to find executable PT_LOAD program header in " ++ host.filename)
    | some programHeader =>
      let offset := saturatingSub addr (alignedVaddr host.pageSize programHeader)
      let withSymbols (bssAddr bssSize bssEnd : UInt64) : BinaryInfo :=
        let symbols := insertAll ∅ (elf.syms.filterMap (elfSymbol addr size offset bssEnd))
        let symbols := insertAll symbols (elf.dynsyms.filterMap (elfSymbol addr size offset bssEnd))
        { symbols, bssAddr, bssSize, addr, size }
      match checkedAdd bssHeader.shAddr offset with
      | none => .ok (withSymbols 0 0 0)
      | some bssAddr =>
        if (checkedAdd bssHeader.shSize bssAddr).isNone then
          .error ("Invalid bss address/size in " ++ host.filename)
        else .ok (withSymbols bssAddr bssHeader.shSize (bssHeader.shAddr + bssHeader.shSize))

/-! ## PE -/

/-- `starts_with(b".data")`. -/
def isData (sec : SectionTable) : Bool := ".data".toUTF8.toList.isPrefixOf sec.name

def parsePe (host : Host) (pe : PE) (addr size : UInt64) : Except String BinaryInfo :=
  let offset := addr
  let symbols := insertAll ∅ (pe.exports.filterMap fun e =>
    e.name.bind fun name => (checkedAdd offset e.rva).map fun addr => (name, addr))
  let bss := lastLoaded offset ((pe.sections.filter isData).map fun sec =>
    (sec.virtualAddress.toUInt64, sec.virtualSize.toUInt64))
  if !pe.sections.any isData then
    .error ("Failed to find .data section in PE binary of " ++ host.filename)
  else .ok { symbols, bssAddr := bss.1, bssSize := bss.2, addr, size }

def parseBinary (host : Host) (object : Object) (addr size : UInt64) : Except String BinaryInfo :=
  match object with
  | .mach mach => do parseMach (← selectMach host mach) addr size
  | .elf elf => parseElf host elf addr size
  | .pe pe => parsePe host pe addr size
  | .unknown => .error "Unhandled binary type"

end BinaryParser

end StSpy
