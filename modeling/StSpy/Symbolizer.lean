import StSpy.CogMethod
import StSpy.Text
import StSpy.Lib.Blocks
import Mathlib.Data.List.Sort
import Mathlib.Data.List.Destutter

/-!
# The symbolizer

`Symbolizer` is `SmalltalkSymbolizer` without its process handle: each
operation takes the target's memory at the call. The `HashMap` `resolved_pcs`
is a partial function, `binary.symbols` the list of its entries in iteration
order. `partition_point` of a slice is the number of leading elements that
satisfy the predicate; on a partitioned slice that is what the library's
binary search returns.
-/

namespace StSpy

/-- The fields of `BinaryInfo` the symbolizer reads. -/
structure BinaryInfo where
  symbols : List (String × UInt64)
  bssAddr : UInt64
  bssSize : UInt64

/-- The parts of a `MapRange` the symbolizer reads. -/
structure MapRange where
  start : UInt64
  size : UInt64
  isExec : Bool
  filename : Option String

structure MethodZoneSymbols where
  baseAddressAddr : UInt64
  freeStartAddr : UInt64

structure CogFrameSymbols where
  framePointerAddr : UInt64
  heapBaseAddr : UInt64

structure JitEntrySymbolSlot where
  slotAddr : UInt64
  name : String

structure JitEntrySymbol where
  address : UInt64
  name : String
  deriving DecidableEq

structure Symbolizer where
  maps : List MapRange
  methodRanges : List CogMethodRange
  resolvedPcs : UInt64 → Option (Option String)
  methodZoneSymbols : Option MethodZoneSymbols
  methodZoneBounds : Option (UInt64 × UInt64)
  methodZoneScanCursor : Option UInt64
  methodZoneBlockedCursor : Option UInt64
  jitEntrySymbolSlots : List JitEntrySymbolSlot
  jitEntrySymbols : List JitEntrySymbol
  cogFrameSymbols : Option CogFrameSymbols

def maxMethodZoneSize : UInt64 := 512 * 1024 * 1024
def cogCodeWindow : UInt64 := 64 * 1024
def maxJitEntrySpan : UInt64 := 4096
def lowCogCodeMin : UInt64 := 0x10000
def lowCogCodeMax : UInt64 := 0xffffffff
def cogFrameWalkLimit : Nat := 200

/-! ## Construction -/

def symbolIsInBss (binary : BinaryInfo) (addr : UInt64) : Bool :=
  binary.bssSize ≠ 0 && binary.bssAddr ≤ addr && addr < saturatingAdd binary.bssAddr binary.bssSize

def looksLikeJitEntrySymbol (name : String) : Bool :=
  containsStr name "Trampoline" || endsWith name "Label" || endsWith name "Entry" ||
    endsWith name "PIC" || startsWith name "ce" || startsWith name "blockEntry" ||
    name = "stackCheckLabel" || name = "checkedEntryAlignment" ||
    name = "uncheckedEntryAlignment" || name = "cPICPrototype"

def cleanJitEntrySymbolName (name : String) : String :=
  if endsWith name "Trampoline" then
    String.ofList (name.toList.take (name.toList.length - "Trampoline".toList.length))
  else name

namespace Symbolizer

def new (maps : List MapRange) (binary : Option BinaryInfo) : Symbolizer where
  maps := maps
  methodRanges := []
  resolvedPcs := fun _ => none
  methodZoneSymbols := do
    let symbols := (← binary).symbols
    let baseAddressAddr ← symbols.lookup "baseAddress" <|> symbols.lookup "methodZoneBase"
    let freeStartAddr ← symbols.lookup "mzFreeStart"
    return { baseAddressAddr, freeStartAddr }
  methodZoneBounds := none
  methodZoneScanCursor := none
  methodZoneBlockedCursor := none
  jitEntrySymbolSlots :=
    match binary with
    | none => []
    | some binary =>
      (binary.symbols.filter fun (name, addr) =>
        symbolIsInBss binary addr && looksLikeJitEntrySymbol name).map fun (name, addr) =>
          { slotAddr := addr, name := cleanJitEntrySymbolName name }
  jitEntrySymbols := []
  cogFrameSymbols := do
    let symbols := (← binary).symbols
    let framePointerAddr ← symbols.lookup "framePointer"
    let heapBaseAddr ← symbols.lookup "heapBase"
    return { framePointerAddr, heapBaseAddr }

/-! ## The range vector -/

/-- `slice::partition_point`. -/
def partitionPoint {ρ : Type} (q : ρ → Bool) (l : List ρ) : Nat := (l.takeWhile q).length

def lookupMethodRange (s : Symbolizer) (pc : UInt64) : Option String :=
  match partitionPoint (fun range => range.start ≤ pc) s.methodRanges with
  | 0 => none
  | index + 1 =>
    match s.methodRanges[index]? with
    | some range => if pc < range.stop then some range.name else none
    | none => none

def insertMethodRange (ranges : List CogMethodRange) (range : CogMethodRange) : List CogMethodRange :=
  match ranges.getLast? with
  | none => ranges ++ [range]
  | some last =>
    if last.start = range.start then ranges.dropLast ++ [range]
    else if last.start < range.start then ranges ++ [range]
    else
      let index := partitionPoint (fun existing => existing.start < range.start) ranges
      if ranges[index]?.any fun existing => existing.start = range.start then ranges.set index range
      else ranges.insertIdx index range

/-! ## What looks like Cog code -/

variable (s : Symbolizer) (M : Memory) (pc : UInt64)

def pcInMethodZone : Bool :=
  s.methodZoneBounds.any fun (base, freeStart) => base ≤ pc && pc < freeStart

/-- An address in a mapping. -/
def inMap (map : MapRange) : Bool := map.start ≤ pc && pc < map.start + map.size

def pcLooksLikeCogCode : Bool :=
  let inMethodZoneWindow := s.methodZoneBounds.any fun (base, freeStart) =>
    saturatingSub base cogCodeWindow ≤ pc && pc < saturatingAdd freeStart cogCodeWindow
  let inLowCogRegion := s.methodZoneBounds.isSome && lowCogCodeMin ≤ pc && pc ≤ lowCogCodeMax
  inMethodZoneWindow || inLowCogRegion ||
    s.maps.any fun map => inMap pc map && map.isExec && map.filename.isNone

def genericCogCodeName : Option String :=
  if s.pcLooksLikeCogCode pc then some "JIT frame" else none

def lookupJitEntrySymbol : Option String :=
  match partitionPoint (fun entry => entry.address ≤ pc) s.jitEntrySymbols with
  | 0 => none
  | index + 1 => do
    let entry ← s.jitEntrySymbols[index]?
    let nextAddress := (s.jitEntrySymbols[index + 1]?.map (·.address)).getD
      (saturatingAdd entry.address maxJitEntrySpan)
    if entry.address ≤ pc ∧ pc < nextAddress ∧ pc - entry.address < maxJitEntrySpan ∧
        s.pcLooksLikeCogCode pc then
      some ("Cog " ++ entry.name)
    else none

/-! ## The backward scan -/

def scanBounds : Option (UInt64 × UInt64) :=
  match s.maps.find? (inMap pc) with
  | some map => some (max (saturatingSub pc cogScanLimit) map.start, map.start + map.size)
  | none => s.methodZoneBounds.map fun (base, freeStart) =>
      (max (saturatingSub pc cogScanLimit) base, freeStart)

def readCogMethod (M : Memory) (addr pc : UInt64) : Option CogMethodRange := do
  let range ← M.readCogMethodAt addr
  if pc < range.start + cogMethodSize ∨ pc ≥ range.stop then none else some range

/-- The scan loop at `candidate`, a multiple of 8 counted by the first argument. -/
def scanDown (M : Memory) (pc start stop : UInt64) : Nat → Option CogMethodRange
  | 0 => if 0 ≥ start then readCogMethod M 0 pc else none
  | k + 1 =>
    let candidate := UInt64.ofNat (8 * (k + 1))
    if candidate ≥ start then
      match readCogMethod M candidate pc with
      | some range => some range
      | none => if candidate - 8 > stop then none else scanDown M pc start stop k
    else none

/-- The range the scan from `pc` finds. -/
def scanned : Option CogMethodRange := do
  let (start, stop) ← s.scanBounds pc
  scanDown M pc (alignDown start) stop (pc.toNat / 8)

def scanForCogMethod : Option String × Symbolizer :=
  match s.scanned M pc with
  | some range =>
    (some range.name, { s with methodRanges := insertMethodRange s.methodRanges range })
  | none => (none, s)

/-! ## The method-zone walk -/

def readMethodZoneBounds (M : Memory) (symbols : MethodZoneSymbols) : Option (UInt64 × UInt64) := do
  let base ← M.copyU64 symbols.baseAddressAddr
  let freeStart ← M.copyU64 symbols.freeStartAddr
  if base = 0 ∨ freeStart ≤ base ∨ freeStart - base > maxMethodZoneSize then none
  else some (base, freeStart)

/-- `sort_by_key` is stable, as insertion sort is; `dedup_by_key` keeps the
first of neighbours with one key, as `destutter` does. -/
def refreshJitEntrySymbols : Symbolizer :=
  let entries := s.jitEntrySymbolSlots.filterMap fun slot => do
    let address ← M.copyU64 slot.slotAddr
    if address = 0 ∨ !s.pcLooksLikeCogCode address then none
    else some { address, name := slot.name }
  { s with
    jitEntrySymbols := (entries.insertionSort fun a b => a.address ≤ b.address).destutter
      fun a b => a.address ≠ b.address }

/-- The walk loop; the first argument bounds its turns. -/
def walkZone (M : Memory) (freeStart : UInt64) : Nat → UInt64 → Symbolizer → Symbolizer
  | 0, cursor, s => { s with methodZoneScanCursor := some cursor }
  | fuel + 1, cursor, s =>
    if cursor < freeStart then
      match M.readCogMethodAt cursor with
      | none =>
        { s with methodZoneScanCursor := some cursor, methodZoneBlockedCursor := some cursor }
      | some range =>
        if range.stop ≤ cursor ∨ range.stop > saturatingAdd freeStart 8 then
          { s with methodZoneScanCursor := some cursor, methodZoneBlockedCursor := some cursor }
        else
          walkZone M freeStart fuel range.stop
            { s with
              methodZoneBlockedCursor := none
              methodRanges := insertMethodRange s.methodRanges range }
    else { s with methodZoneScanCursor := some cursor }

/-- The new bounds, and the entry symbols they let through. -/
def adoptBounds (base freeStart : UInt64) : Symbolizer :=
  refreshJitEntrySymbols { s with methodZoneBounds := some (base, freeStart) } M

/-- The part of `refresh_method_zone` after its early returns. -/
def walkFrom (base freeStart scanStart : UInt64) : Symbolizer :=
  if scanStart ≥ freeStart then s
  else walkZone M freeStart (freeStart - scanStart).toNat scanStart (s.adoptBounds M base freeStart)

/-- The branch for bounds that are new, moved or shrunk: everything known
about the zone is dropped. -/
def clearZone : Symbolizer :=
  { s with methodRanges := [], resolvedPcs := fun _ => none, methodZoneBlockedCursor := none }

def refreshMethodZone : Symbolizer :=
  match s.methodZoneSymbols with
  | none => s
  | some symbols =>
    match readMethodZoneBounds M symbols with
    | none => s
    | some (base, freeStart) =>
      if s.methodZoneBounds = some (base, freeStart) then
        let cursor := s.methodZoneScanCursor.getD base
        if cursor ≥ freeStart ∨ s.methodZoneBlockedCursor = some cursor then s
        else s.walkFrom M base freeStart cursor
      else
        match s.methodZoneBounds with
        | some (previousBase, previousFreeStart) =>
          if previousBase = base ∧ previousFreeStart < freeStart then
            let cursor := s.methodZoneScanCursor.getD previousFreeStart
            if s.methodZoneBlockedCursor = some cursor then s.adoptBounds M base freeStart
            else s.walkFrom M base freeStart cursor
          else s.clearZone.walkFrom M base freeStart base
        | none => s.clearZone.walkFrom M base freeStart base

/-! ## Resolving a pc -/

/-- `resolved_pcs.insert`. -/
def cachePc (answer : Option String) : Symbolizer :=
  { s with resolvedPcs := Function.update s.resolvedPcs pc (some answer) }

def shouldRefresh : Bool :=
  match s.methodZoneBounds with
  | some (base, freeStart) =>
    let scanCursor := s.methodZoneScanCursor.getD base
    freeStart ≤ pc || (scanCursor ≤ pc && scanCursor < freeStart)
  | none => true

/-- The last part of `resolve_jit_pc`, for a pc in no known range: entry
symbols, then the scan, then the generic label. -/
def resolveUnlisted : Option String × Symbolizer :=
  match s.lookupJitEntrySymbol pc with
  | some name => (some name, s.cachePc pc (some name))
  | none =>
    let (found, s) :=
      if s.pcInMethodZone pc || s.methodZoneBounds.isNone then s.scanForCogMethod M pc else (none, s)
    let resolved := found <|> s.genericCogCodeName pc
    (resolved, s.cachePc pc resolved)

def resolveJitPc : Option String × Symbolizer :=
  match s.resolvedPcs pc with
  | some cached => (cached, s)
  | none =>
    match s.lookupMethodRange pc with
    | some name => (some name, s.cachePc pc (some name))
    | none =>
      if s.shouldRefresh pc then
        let s := s.refreshMethodZone M
        match s.lookupMethodRange pc with
        | some name => (some name, s.cachePc pc (some name))
        | none => s.resolveUnlisted M pc
      else s.resolveUnlisted M pc

/-! ## The Cog frame chain -/

/-- The interpreted branch of `resolve_frame_method`: the method in slot 3 of
the context. -/
def interpretedFrameName (M : Memory) (context : UInt64) : Option String :=
  if !isHeapObject context then none
  else do
    let methodObj ← M.copyU64 (context + baseHeaderSize + 3 * wordSize)
    if !isHeapObject methodObj ∨ !M.isCompiledMethod methodObj then none
    else
      let methodHeader ← M.methodHeaderOf methodObj
      let selector ← (M.maybeSelectorOfMethod (maxClassNameDepth + 1) methodObj methodHeader).filter
        looksLikeSelector
      match M.classNameOfMethod (maxClassNameDepth + 1) methodObj methodHeader with
      | some className => return className ++ ">>" ++ selector
      | none => return "???>>" ++ selector

def resolveFrameMethod (methodField heapBase : UInt64) : Option String × Symbolizer :=
  if methodField = 0 then (none, s)
  else if methodField < heapBase then s.resolveJitPc M (methodField + cogMethodSize)
  else (interpretedFrameName M methodField, s)

def walkFrames (M : Memory) (heapBase : UInt64) : Nat → UInt64 → Symbolizer → List String × Symbolizer
  | 0, _, s => ([], s)
  | turns + 1, currentFp, s =>
    if currentFp = 0 then ([], s)
    else
      match M.copyU64 (currentFp - 8) with
      | none => ([], s)
      | some methodField =>
        let (name, s) := s.resolveFrameMethod M methodField heapBase
        let (rest, s) :=
          match M.copyU64 currentFp with
          | none => ([], s)
          | some callerFp =>
            if callerFp = currentFp ∨ callerFp = 0 then ([], s)
            else walkFrames M heapBase turns callerFp s
        (name.toList ++ rest, s)

def walkCogFrames : List String × Symbolizer :=
  match s.cogFrameSymbols with
  | none => ([], s)
  | some symbols =>
    match M.copyU64 symbols.framePointerAddr with
    | none => ([], s)
    | some fp =>
      if fp = 0 then ([], s)
      else
        match M.copyU64 symbols.heapBaseAddr with
        | none => ([], s)
        | some heapBase => walkFrames M heapBase cogFrameWalkLimit fp s

end Symbolizer

end StSpy
