import StSpy.Symbolizer
import StSpy.Lib.Logged

/-!
# The arithmetic of the frame walk

`walk_cog_frames` and what it calls once more, with a log: each unchecked `+`, `-`
and `*` on `u64` with its operands. What wraps here panics in an overflow-checked
build.
-/

namespace StSpy

namespace Arithmetic

/-- An unchecked operation of the source. -/
inductive Operation where
  | add (a b : UInt64)
  | sub (a b : UInt64)
  | mul (a b : UInt64)
  deriving DecidableEq

/-- The result is the exact one. -/
def Operation.Fits : Operation → Prop
  | add a b => a.toNat + b.toNat < 2 ^ 64
  | sub a b => b ≤ a
  | mul a b => a.toNat * b.toNat < 2 ^ 64

open Logged

abbrev Run (α : Type) := Logged Operation α

abbrev Reading (α : Type) := Attempt Operation α

def add (a b : UInt64) : Run UInt64 := do
  note (.add a b)
  return a + b

def sub (a b : UInt64) : Run UInt64 := do
  note (.sub a b)
  return a - b

def mul (a b : UInt64) : Run UInt64 := do
  note (.mul a b)
  return a * b

/-! ## The heap -/

variable (M : Memory)

def formatOf (oop : UInt64) : Reading UInt8 :=
  if isHeapObject oop then do
    let byte ← given (M.copyU8 (← add oop formatFieldByteOffset))
    return byte &&& formatMask
  else failure

def isCompiledMethod (oop : UInt64) : Run Bool := do
  return (← (formatOf M oop).run).any fun format => format ≥ firstCompiledMethodFormat

def isWordsOrBytes (oop : UInt64) : Run Bool := do
  return (← (formatOf M oop).run).any fun format =>
    firstWordOrByteFormat ≤ format && format < firstCompiledMethodFormat

def isPointerObject (oop : UInt64) : Run Bool := do
  return (← (formatOf M oop).run).any fun format => format ≤ lastPointerFormat

def numSlots (oop : UInt64) : Reading UInt64 :=
  if isHeapObject oop then do
    let slots ← given (M.copyU8 (← add oop numSlotsFieldByteOffset))
    if slots = numSlotsMask then
      let longHeader ← given (M.copyU64 (← sub oop baseHeaderSize))
      return longHeader >>> 8
    else
      return slots.toUInt64
  else failure

def readByteObject (oop : UInt64) : Reading String :=
  if isHeapObject oop then do
    let header ← given (M.copy oop baseHeaderSize.toNat)
    let format ← given (header[formatFieldByteOffset.toNat]?.map (· &&& formatMask))
    if firstByteFormat ≤ format ∧ format < firstCompiledMethodFormat then
      let slots ← numSlots M oop
      let words ← given (checkedMul slots wordSize)
      let byteSize ← given (checkedSub words (format &&& 7).toUInt64)
      if byteSize = 0 ∨ byteSize > 512 then failure
      else
        let bytes ← given (M.copy (← add oop baseHeaderSize) byteSize.toNat)
        if bytes.all Memory.isPrintable then
          return String.ofList (bytes.map fun byte => Char.ofNat byte.toNat)
        else failure
    else failure
  else failure

def readSelector (oop : UInt64) : Reading String := if oop = nilObject then failure else readByteObject M oop

def fieldAddr (oop offset : UInt64) : Run UInt64 := do
  let fields ← add oop baseHeaderSize
  add fields (← mul offset wordSize)

def literalField (oop offset : UInt64) : Reading UInt64 := do given (M.copyU64 (← fieldAddr oop offset))

def literalOfMethod (methodObj offset : UInt64) : Reading UInt64 := do
  literalField M methodObj (← add offset literalStart)

def methodHeaderOf (methodObj : UInt64) : Reading UInt64 := do
  let header ← literalField M methodObj headerIndex
  if isSmallInteger header then return header
  else given (M.copyU64 (← add header cogMethodMethodHeaderOffset))

def literalCountOfMethod (methodObj methodHeader : UInt64) : Reading UInt64 := do
  let header ← if isSmallInteger methodHeader then pure methodHeader else methodHeaderOf M methodObj
  return (header >>> 3) &&& alternateHeaderNumLiteralsMask

/-- The end of `maybe_selector_of_method`. -/
def penultimateSelector (methodObj penultimateLiteral : UInt64) : Reading String := do
  if ← isWordsOrBytes M penultimateLiteral then readSelector M penultimateLiteral
  else if ← isPointerObject M penultimateLiteral then
    let slots ← numSlots M penultimateLiteral
    if slots ≥ 2 then
      let methodField ← literalField M penultimateLiteral 0
      let maybeSelector ← literalField M penultimateLiteral 1
      if methodField = methodObj then
        if ← isWordsOrBytes M maybeSelector then readSelector M maybeSelector else failure
      else failure
    else failure
  else failure

def maybeSelectorOfMethod : Nat → UInt64 → UInt64 → Reading String
  | 0, _, _ => failure
  | left + 1, methodObj, methodHeader => do
    if !(← isCompiledMethod M methodObj) then failure
    else
      let literalCount ← literalCountOfMethod M methodObj methodHeader
      if literalCount < 2 then failure
      else
        let ultimateLiteral ← literalOfMethod M methodObj (← sub literalCount 1)
        let penultimate : Reading String := do
          penultimateSelector M methodObj (← literalOfMethod M methodObj (← sub literalCount 2))
        if ← isCompiledMethod M ultimateLiteral then
          let nestedHeader ← methodHeaderOf M ultimateLiteral
          maybeSelectorOfMethod left ultimateLiteral nestedHeader <|> penultimate
        else penultimate

/-! ### Class names -/

def readClassName (oop : UInt64) : Reading String := keep looksLikeClassName (readByteObject M oop)

def fieldClassName (oop offset : UInt64) : Reading String := do readClassName M (← literalField M oop offset)

def classNameFromClassObject : Nat → UInt64 → Reading String
  | 0, _ => failure
  | left + 1, oop => do
    if !(← isPointerObject M oop) then failure
    else
      let slots ← numSlots M oop
      let name := if slots > 6 then fieldClassName M oop 6 else failure
      let thisClassName :=
        if slots > 5 then do
          let thisClass ← literalField M oop 5
          if thisClass ≠ oop then return (← classNameFromClassObject left thisClass) ++ " class" else failure
        else failure
      let otherName : Reading String :=
        OptionT.mk ((List.range (min slots maxClassObjectScan).toNat).findSomeM? fun offset =>
          if offset = 5 ∨ offset = 6 then pure none else (fieldClassName M oop (UInt64.ofNat offset)).run)
      name <|> thisClassName <|> otherName

def classNameFromMethodLiteral : Nat → UInt64 → Reading String
  | 0, _ => failure
  | left + 1, oop =>
    if oop = nilObject ∨ !isHeapObject oop then failure
    else do
      if ← isWordsOrBytes M oop then readClassName M oop
      else if !(← isPointerObject M oop) then failure
      else
        classNameFromClassObject M left oop <|> do
          let slots ← numSlots M oop
          let binding :=
            if slots ≥ 2 then
              (do classNameFromClassObject M left (← literalField M oop 1)) <|> fieldClassName M oop 0
            else failure
          let nested : Reading String :=
            OptionT.mk ((List.range (min slots maxClassObjectScan).toNat).findSomeM? fun offset =>
              (do classNameFromMethodLiteral left (← literalField M oop (UInt64.ofNat offset)) : Reading String).run)
          binding <|> nested

def classNameOfMethod : Nat → UInt64 → UInt64 → Reading String
  | 0, _, _ => failure
  | left + 1, methodObj, methodHeader => do
    if !(← isCompiledMethod M methodObj) then failure
    else
      let literalCount ← literalCountOfMethod M methodObj methodHeader
      if literalCount = 0 then failure
      else
        let firstLiteral := saturatingSub literalCount maxClassLiteralScan
        OptionT.mk ((List.range (literalCount - firstLiteral).toNat).findSomeM? fun back => OptionT.run do
          let literal ← literalOfMethod M methodObj (literalCount - 1 - UInt64.ofNat back)
          let nested : Reading String := do
            if ← isCompiledMethod M literal then
              let nestedHeader ← methodHeaderOf M literal
              classNameOfMethod left literal nestedHeader
            else failure
          nested <|> classNameFromMethodLiteral M left literal)

/-! ## CogMethods -/

def cogSelector (cmType : UInt8) (methodObject methodHeader selectorOop : UInt64) : Run (Option String) :=
  (keep looksLikeSelector (readSelector M selectorOop <|>
    if Memory.isMethodType cmType then maybeSelectorOfMethod M (maxClassNameDepth + 1) methodObject methodHeader
    else failure)).run

def cogLabel (cmType : UInt8) (methodObject methodHeader : UInt64) : Option String → Run String
  | none => return "JIT frame"
  | some selector =>
    if cmType = cmOpenPic then return "JIT PIC>>" ++ selector
    else if cmType = cmClosedPic then return "JIT closed PIC>>" ++ selector
    else if Memory.isMethodType cmType then do
      match ← (classNameOfMethod M (maxClassNameDepth + 1) methodObject methodHeader).run with
      | some className => return className ++ ">>" ++ selector
      | none => return "JIT method>>" ++ selector
    else return "JIT frame>>" ++ selector

def readCogMethodAt (addr : UInt64) : Reading CogMethodRange := do
  let blockSize ← given ((M.copyU16 (← add addr cogMethodBlockSizeOffset)).map UInt16.toUInt64)
  if cogMethodSize ≤ blockSize ∧ blockSize ≤ cogScanLimit then
    let stop ← given ((checkedAdd addr blockSize).bind roundUpToMethodAlignment)
    let flags ← given (M.copyU32 (← add addr cogMethodFlagsOffset))
    let cmType := ((flags >>> 8) &&& 0x7).toUInt8
    let methodObject ← given (M.copyU64 (← add addr cogMethodMethodObjectOffset))
    let methodHeader ← given (M.copyU64 (← add addr cogMethodMethodHeaderOffset))
    let selectorOop ← given (M.copyU64 (← add addr cogMethodSelectorOffset))
    let selector ← liftM (cogSelector M cmType methodObject methodHeader selectorOop)
    return { start := addr, stop, name := ← cogLabel M cmType methodObject methodHeader selector }
  else failure

/-! ## The symbolizer -/

variable (s : Symbolizer) (pc : UInt64)

def mapEnd (map : MapRange) : Run UInt64 := add map.start map.size

def pcLooksLikeCogCode : Run Bool :=
  let inMethodZoneWindow := s.methodZoneBounds.any fun (base, freeStart) =>
    saturatingSub base cogCodeWindow ≤ pc && pc < saturatingAdd freeStart cogCodeWindow
  let inLowCogRegion := s.methodZoneBounds.isSome && lowCogCodeMin ≤ pc && pc ≤ lowCogCodeMax
  if inMethodZoneWindow || inLowCogRegion then return true
  else s.maps.anyM fun map => do
    let stop ← mapEnd map
    return map.start ≤ pc && pc < stop && map.isExec && map.filename.isNone

def genericCogCodeName : Run (Option String) := do
  if ← pcLooksLikeCogCode s pc then return some "JIT frame" else return none

def lookupJitEntrySymbol : Run (Option String) :=
  match Symbolizer.partitionPoint (fun entry => entry.address ≤ pc) s.jitEntrySymbols with
  | 0 => return none
  | index + 1 =>
    match s.jitEntrySymbols[index]? with
    | none => return none
    | some entry => do
      let nextAddress := (s.jitEntrySymbols[index + 1]?.map (·.address)).getD
        (saturatingAdd entry.address maxJitEntrySpan)
      if entry.address ≤ pc ∧ pc < nextAddress then
        if (← sub pc entry.address) < maxJitEntrySpan then
          if ← pcLooksLikeCogCode s pc then return some ("Cog " ++ entry.name) else return none
        else return none
      else return none

def scanBounds : Run (Option (UInt64 × UInt64)) := do
  match ← s.maps.findM? fun map => do
    if map.start ≤ pc then return pc < (← mapEnd map) else return false with
  | some map => return some (max (saturatingSub pc cogScanLimit) map.start, ← mapEnd map)
  | none => return s.methodZoneBounds.map fun (base, freeStart) =>
      (max (saturatingSub pc cogScanLimit) base, freeStart)

def readCogMethod (addr pc : UInt64) : Reading CogMethodRange := do
  let range ← readCogMethodAt M addr
  if pc < (← add range.start cogMethodSize) ∨ pc ≥ range.stop then failure else return range

def scanDown (pc start stop : UInt64) : Nat → Reading CogMethodRange
  | 0 => if 0 ≥ start then readCogMethod M 0 pc else failure
  | k + 1 =>
    let candidate := UInt64.ofNat (8 * (k + 1))
    if candidate ≥ start then
      readCogMethod M candidate pc <|> do
        if (← sub candidate 8) > stop then failure else scanDown pc start stop k
    else failure

def scanForCogMethod : Run (Option String × Symbolizer) := do
  let scanned : Reading CogMethodRange := do
    let (start, stop) ← OptionT.mk (scanBounds s pc)
    scanDown M pc (alignDown start) stop (pc.toNat / 8)
  match ← scanned.run with
  | some range =>
    return (some range.name, { s with methodRanges := Symbolizer.insertMethodRange s.methodRanges range })
  | none => return (none, s)

/-! ### The method zone -/

def readMethodZoneBounds (symbols : MethodZoneSymbols) : Reading (UInt64 × UInt64) := do
  let base ← given (M.copyU64 symbols.baseAddressAddr)
  let freeStart ← given (M.copyU64 symbols.freeStartAddr)
  if base = 0 ∨ freeStart ≤ base then failure
  else if (← sub freeStart base) > maxMethodZoneSize then failure
  else return (base, freeStart)

def entrySymbol (slot : JitEntrySymbolSlot) : Reading JitEntrySymbol := do
  let address ← given (M.copyU64 slot.slotAddr)
  if address = 0 then failure
  else if ← pcLooksLikeCogCode s address then return { address, name := slot.name }
  else failure

def entrySymbols : List JitEntrySymbolSlot → Run (List JitEntrySymbol)
  | [] => return []
  | slot :: slots => do
    let entry ← (entrySymbol M s slot).run
    return entry.toList ++ (← entrySymbols slots)

def refreshJitEntrySymbols : Run Symbolizer := do
  let entries ← entrySymbols M s s.jitEntrySymbolSlots
  return { s with
    jitEntrySymbols := (entries.insertionSort fun a b => a.address ≤ b.address).destutter
      fun a b => a.address ≠ b.address }

def walkZone (freeStart : UInt64) : Nat → UInt64 → Symbolizer → Run Symbolizer
  | 0, cursor, s => return { s with methodZoneScanCursor := some cursor }
  | fuel + 1, cursor, s =>
    if cursor < freeStart then do
      match ← (readCogMethodAt M cursor).run with
      | none => return { s with methodZoneScanCursor := some cursor, methodZoneBlockedCursor := some cursor }
      | some range =>
        if range.stop ≤ cursor ∨ range.stop > saturatingAdd freeStart 8 then
          return { s with methodZoneScanCursor := some cursor, methodZoneBlockedCursor := some cursor }
        else
          walkZone freeStart fuel range.stop
            { s with
              methodZoneBlockedCursor := none
              methodRanges := Symbolizer.insertMethodRange s.methodRanges range }
    else return { s with methodZoneScanCursor := some cursor }

def adoptBounds (base freeStart : UInt64) : Run Symbolizer :=
  refreshJitEntrySymbols M { s with methodZoneBounds := some (base, freeStart) }

def walkFrom (base freeStart scanStart : UInt64) : Run Symbolizer :=
  if scanStart ≥ freeStart then return s
  else do walkZone M freeStart (freeStart - scanStart).toNat scanStart (← adoptBounds M s base freeStart)

def refreshMethodZone : Run Symbolizer :=
  match s.methodZoneSymbols with
  | none => return s
  | some symbols => do
    match ← (readMethodZoneBounds M symbols).run with
    | none => return s
    | some (base, freeStart) =>
      if s.methodZoneBounds = some (base, freeStart) then
        let cursor := s.methodZoneScanCursor.getD base
        if cursor ≥ freeStart ∨ s.methodZoneBlockedCursor = some cursor then return s
        else walkFrom M s base freeStart cursor
      else
        match s.methodZoneBounds with
        | some (previousBase, previousFreeStart) =>
          if previousBase = base ∧ previousFreeStart < freeStart then
            let cursor := s.methodZoneScanCursor.getD previousFreeStart
            if s.methodZoneBlockedCursor = some cursor then adoptBounds M s base freeStart
            else walkFrom M s base freeStart cursor
          else walkFrom M s.clearZone base freeStart base
        | none => walkFrom M s.clearZone base freeStart base

/-! ### Frames -/

def resolveUnlisted : Run (Option String × Symbolizer) := do
  match ← lookupJitEntrySymbol s pc with
  | some name => return (some name, s.cachePc pc (some name))
  | none =>
    let (found, s) ←
      (if s.pcInMethodZone pc || s.methodZoneBounds.isNone then scanForCogMethod M s pc else pure (none, s))
    match found with
    | some name => return (some name, s.cachePc pc (some name))
    | none =>
      let resolved ← genericCogCodeName s pc
      return (resolved, s.cachePc pc resolved)

def resolveJitPc : Run (Option String × Symbolizer) :=
  match s.resolvedPcs pc with
  | some cached => return (cached, s)
  | none =>
    match s.lookupMethodRange pc with
    | some name => return (some name, s.cachePc pc (some name))
    | none =>
      if s.shouldRefresh pc then do
        let s ← refreshMethodZone M s
        match s.lookupMethodRange pc with
        | some name => return (some name, s.cachePc pc (some name))
        | none => resolveUnlisted M s pc
      else resolveUnlisted M s pc

/-- The address of the method of a context. -/
def contextMethodAddr (context : UInt64) : Run UInt64 := do
  let fields ← add context baseHeaderSize
  add fields (← mul 3 wordSize)

def interpretedFrameName (context : UInt64) : Reading String :=
  if !isHeapObject context then failure
  else do
    let methodObj ← given (M.copyU64 (← contextMethodAddr context))
    if !isHeapObject methodObj then failure
    else if !(← isCompiledMethod M methodObj) then failure
    else
      let methodHeader ← methodHeaderOf M methodObj
      let selector ← keep looksLikeSelector
        (maybeSelectorOfMethod M (maxClassNameDepth + 1) methodObj methodHeader)
      match ← liftM (classNameOfMethod M (maxClassNameDepth + 1) methodObj methodHeader).run with
      | some className => return className ++ ">>" ++ selector
      | none => return "???>>" ++ selector

def resolveFrameMethod (methodField heapBase : UInt64) : Run (Option String × Symbolizer) :=
  if methodField = 0 then return (none, s)
  else if methodField < heapBase then do
    resolveJitPc M s (← add methodField cogMethodSize)
  else return (← (interpretedFrameName M methodField).run, s)

def walkFrames (heapBase : UInt64) : Nat → UInt64 → Symbolizer → Run (List String × Symbolizer)
  | 0, _, s => return ([], s)
  | turns + 1, currentFp, s =>
    if currentFp = 0 then return ([], s)
    else
      -- a `wrapping_sub` of the source
      match M.copyU64 (currentFp - 8) with
      | none => return ([], s)
      | some methodField => do
        let (name, s) ← resolveFrameMethod M s methodField heapBase
        let (rest, s) ←
          match M.copyU64 currentFp with
          | none => pure ([], s)
          | some callerFp =>
            if callerFp = currentFp ∨ callerFp = 0 then pure ([], s) else walkFrames heapBase turns callerFp s
        return (name.toList ++ rest, s)

def walkCogFrames : Run (List String × Symbolizer) :=
  match s.cogFrameSymbols with
  | none => return ([], s)
  | some symbols =>
    match M.copyU64 symbols.framePointerAddr with
    | none => return ([], s)
    | some fp =>
      if fp = 0 then return ([], s)
      else
        match M.copyU64 symbols.heapBaseAddr with
        | none => return ([], s)
        | some heapBase => walkFrames M heapBase cogFrameWalkLimit fp s

end Arithmetic

end StSpy
