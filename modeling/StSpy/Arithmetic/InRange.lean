import StSpy.Symbolizer.Frames
import StSpy.Lib.Logged

/-!
# Words in range

Where the frame walk takes a word of the target for the address of something, the
part of it that it looks at has to start below 2^64. This module says of each
reader which words these are, given what the memory holds: the words it comes to
when the words before are what they are. What is read, and whether a search goes
on, is said with the readers of the model; sums and logs play no part in it.
-/

namespace StSpy

namespace Arithmetic

open Logged (Searched)

variable (M : Memory)

/-! ## The heap -/

/-- Slot `offset` of the object. -/
def SlotInRange (oop offset : UInt64) : Prop := oop.toNat + 8 + 8 * offset.toNat < 2 ^ 64

/-- The number of bytes that `read_byte_object` goes on to read behind the header. -/
def bodySize (oop : UInt64) : Option UInt64 :=
  if isHeapObject oop then do
    let header ← M.copy oop baseHeaderSize.toNat
    let format ← header[formatFieldByteOffset.toNat]?.map (· &&& formatMask)
    if firstByteFormat ≤ format ∧ format < firstCompiledMethodFormat then
      let slots ← M.numSlots oop
      let words ← checkedMul slots wordSize
      let byteSize ← checkedSub words (format &&& 7).toUInt64
      if byteSize = 0 ∨ byteSize > 512 then none else some byteSize
    else none
  else none

def ByteObjectInRange (oop : UInt64) : Prop := (bodySize M oop).isSome → oop.toNat + 8 < 2 ^ 64

def SelectorInRange (oop : UInt64) : Prop := ¬oop = nilObject → ByteObjectInRange M oop

def LiteralInRange (methodObj offset : UInt64) : Prop := SlotInRange methodObj (offset + literalStart)

/-- A header that is no small integer is taken for a CogMethod. -/
def MethodHeaderInRange (methodObj : UInt64) : Prop :=
  SlotInRange methodObj headerIndex ∧
    ∀ header, M.literalField methodObj headerIndex = some header → ¬isSmallInteger header →
      header.toNat + 0x18 < 2 ^ 64

def LiteralCountInRange (methodObj methodHeader : UInt64) : Prop :=
  ¬isSmallInteger methodHeader → MethodHeaderInRange M methodObj

def PenultimateInRange (methodObj penultimateLiteral : UInt64) : Prop :=
  if M.isWordsOrBytes penultimateLiteral then SelectorInRange M penultimateLiteral
  else M.isPointerObject penultimateLiteral → ∀ slots, M.numSlots penultimateLiteral = some slots → slots ≥ 2 →
    SlotInRange penultimateLiteral 0 ∧ ∀ methodField, M.literalField penultimateLiteral 0 = some methodField →
      SlotInRange penultimateLiteral 1 ∧ ∀ maybeSelector, M.literalField penultimateLiteral 1 = some maybeSelector →
        methodField = methodObj → M.isWordsOrBytes maybeSelector → SelectorInRange M maybeSelector

def SelectorLiteralInRange (methodObj literalCount : UInt64) : Prop :=
  LiteralInRange methodObj (literalCount - 2) ∧
    ∀ penultimateLiteral, M.literalOfMethod methodObj (literalCount - 2) = some penultimateLiteral →
      PenultimateInRange M methodObj penultimateLiteral

def MaybeSelectorInRange : Nat → UInt64 → UInt64 → Prop
  | 0, _, _ => True
  | left + 1, methodObj, methodHeader =>
    M.isCompiledMethod methodObj → LiteralCountInRange M methodObj methodHeader ∧
      ∀ literalCount, M.literalCountOfMethod methodObj methodHeader = some literalCount → ¬literalCount < 2 →
        LiteralInRange methodObj (literalCount - 1) ∧
          ∀ ultimateLiteral, M.literalOfMethod methodObj (literalCount - 1) = some ultimateLiteral →
            if M.isCompiledMethod ultimateLiteral then
              MethodHeaderInRange M ultimateLiteral ∧
                ∀ nestedHeader, M.methodHeaderOf ultimateLiteral = some nestedHeader →
                  MaybeSelectorInRange left ultimateLiteral nestedHeader ∧
                    (M.maybeSelectorOfMethod left ultimateLiteral nestedHeader = none →
                      SelectorLiteralInRange M methodObj literalCount)
            else SelectorLiteralInRange M methodObj literalCount

/-! ### Class names -/

/-- The class name that a slot refers to. -/
def fieldName (oop offset : UInt64) : Option String := (M.literalField oop offset).bind M.readClassName

def FieldNameInRange (oop offset : UInt64) : Prop :=
  SlotInRange oop offset ∧ ∀ field, M.literalField oop offset = some field → ByteObjectInRange M field

/-- The name that the class object takes from slot 6. -/
def ownName (oop slots : UInt64) : Option String := if slots > 6 then fieldName M oop 6 else none

/-- The name that it takes from the class it is an instance of. -/
def thisClassName (left : Nat) (oop slots : UInt64) : Option String :=
  if slots > 5 then do
    let thisClass ← M.literalField oop 5
    if thisClass ≠ oop then return (← M.classNameFromClassObject left thisClass) ++ " class" else none
  else none

/-- The name that it takes from another slot. -/
def otherName (oop : UInt64) (offset : Nat) : Option String :=
  if offset = 5 ∨ offset = 6 then none else fieldName M oop (UInt64.ofNat offset)

def ClassObjectInRange : Nat → UInt64 → Prop
  | 0, _ => True
  | left + 1, oop =>
    M.isPointerObject oop → ∀ slots, M.numSlots oop = some slots →
      (slots > 6 → FieldNameInRange M oop 6) ∧
        (ownName M oop slots = none →
          (slots > 5 → SlotInRange oop 5 ∧ ∀ thisClass, M.literalField oop 5 = some thisClass → thisClass ≠ oop →
            ClassObjectInRange left thisClass) ∧
            (thisClassName M left oop slots = none →
              ∀ offset,
                Searched (otherName M oop · = none) (List.range (min slots maxClassObjectScan).toNat) offset →
                ¬(offset = 5 ∨ offset = 6) → FieldNameInRange M oop (UInt64.ofNat offset)))

/-- The name that the value and the key of an association give. -/
def bindingName (left : Nat) (oop slots : UInt64) : Option String :=
  if slots ≥ 2 then (M.literalField oop 1).bind (M.classNameFromClassObject left) <|> fieldName M oop 0 else none

/-- The name that something behind a slot gives. -/
def nestedName (left : Nat) (oop : UInt64) (offset : Nat) : Option String :=
  (M.literalField oop (UInt64.ofNat offset)).bind fun field => M.classNameFromMethodLiteral left field

def BindingInRange (left : Nat) (oop : UInt64) : Prop :=
  (SlotInRange oop 1 ∧ ∀ value, M.literalField oop 1 = some value → ClassObjectInRange M left value) ∧
    ((M.literalField oop 1).bind (M.classNameFromClassObject left) = none → FieldNameInRange M oop 0)

def MethodLiteralInRange : Nat → UInt64 → Prop
  | 0, _ => True
  | left + 1, oop =>
    ¬(oop = nilObject ∨ !isHeapObject oop) →
      if M.isWordsOrBytes oop then ByteObjectInRange M oop
      else M.isPointerObject oop → ClassObjectInRange M left oop ∧
        (M.classNameFromClassObject left oop = none → ∀ slots, M.numSlots oop = some slots →
          (slots ≥ 2 → BindingInRange M left oop) ∧
            (bindingName M left oop slots = none →
              ∀ offset,
                Searched (nestedName M left oop · = none) (List.range (min slots maxClassObjectScan).toNat) offset →
                SlotInRange oop (UInt64.ofNat offset) ∧
                  ∀ field, M.literalField oop (UInt64.ofNat offset) = some field → MethodLiteralInRange left field))

/-- The class name that a method nested in a literal gives. -/
def outerName (left : Nat) (literal : UInt64) : Option String :=
  if M.isCompiledMethod literal then
    (M.methodHeaderOf literal).bind fun nestedHeader => M.classNameOfMethod left literal nestedHeader
  else none

/-- The class name that the literal `back` from the end gives. -/
def literalName (left : Nat) (methodObj literalCount : UInt64) (back : Nat) : Option String := do
  let literal ← M.literalOfMethod methodObj (literalCount - 1 - UInt64.ofNat back)
  outerName M left literal <|> M.classNameFromMethodLiteral left literal

def MethodClassInRange : Nat → UInt64 → UInt64 → Prop
  | 0, _, _ => True
  | left + 1, methodObj, methodHeader =>
    M.isCompiledMethod methodObj → LiteralCountInRange M methodObj methodHeader ∧
      ∀ literalCount, M.literalCountOfMethod methodObj methodHeader = some literalCount → ¬literalCount = 0 →
        ∀ back,
          Searched (literalName M left methodObj literalCount · = none)
            (List.range (literalCount - saturatingSub literalCount maxClassLiteralScan).toNat) back →
          LiteralInRange methodObj (literalCount - 1 - UInt64.ofNat back) ∧
            ∀ literal, M.literalOfMethod methodObj (literalCount - 1 - UInt64.ofNat back) = some literal →
              (M.isCompiledMethod literal → MethodHeaderInRange M literal ∧
                ∀ nestedHeader, M.methodHeaderOf literal = some nestedHeader →
                  MethodClassInRange left literal nestedHeader) ∧
                (outerName M left literal = none → MethodLiteralInRange M left literal)

/-! ## CogMethods -/

def CogSelectorInRange (cmType : UInt8) (methodObject methodHeader selectorOop : UInt64) : Prop :=
  SelectorInRange M selectorOop ∧ (M.readSelector selectorOop = none → Memory.isMethodType cmType →
    MaybeSelectorInRange M (maxClassNameDepth + 1) methodObject methodHeader)

def CogLabelInRange (cmType : UInt8) (methodObject methodHeader : UInt64) : Option String → Prop
  | none => True
  | some _ => ¬cmType = cmOpenPic → ¬cmType = cmClosedPic → Memory.isMethodType cmType →
      MethodClassInRange M (maxClassNameDepth + 1) methodObject methodHeader

/-- Of the header, where a CogMethod is looked for, the block size comes last that is not behind its check. -/
def CogMethodInRange (addr : UInt64) : Prop :=
  addr.toNat + 0x0c < 2 ^ 64 ∧
    ∀ blockSize, (M.copyU16 (addr + cogMethodBlockSizeOffset)).map UInt16.toUInt64 = some blockSize →
      cogMethodSize ≤ blockSize ∧ blockSize ≤ cogScanLimit →
      ∀ stop, (checkedAdd addr blockSize).bind roundUpToMethodAlignment = some stop →
      ∀ flags, M.copyU32 (addr + cogMethodFlagsOffset) = some flags →
      ∀ methodObject, M.copyU64 (addr + cogMethodMethodObjectOffset) = some methodObject →
      ∀ methodHeader, M.copyU64 (addr + cogMethodMethodHeaderOffset) = some methodHeader →
      ∀ selectorOop, M.copyU64 (addr + cogMethodSelectorOffset) = some selectorOop →
        let cmType := ((flags >>> 8) &&& 0x7).toUInt8
        CogSelectorInRange M cmType methodObject methodHeader selectorOop ∧
          CogLabelInRange M cmType methodObject methodHeader
            (M.cogSelector cmType methodObject methodHeader selectorOop)

/-! ## The symbolizer -/

variable (s : Symbolizer) (pc : UInt64)

def MapInRange (map : MapRange) : Prop := map.start.toNat + map.size.toNat < 2 ^ 64

/-- No mapping is asked for to tell that it looks like Cog code. -/
def nearMethodZone : Bool :=
  (s.methodZoneBounds.any fun (base, freeStart) =>
    saturatingSub base cogCodeWindow ≤ pc && pc < saturatingAdd freeStart cogCodeWindow) ||
  (s.methodZoneBounds.isSome && lowCogCodeMin ≤ pc && pc ≤ lowCogCodeMax)

def CogCodeInRange : Prop :=
  ¬nearMethodZone s pc → ∀ map,
    Searched (fun map => (Symbolizer.inMap pc map && map.isExec && map.filename.isNone) = false) s.maps map →
    MapInRange map

def EntryLookupInRange : Prop :=
  match Symbolizer.partitionPoint (fun entry => entry.address ≤ pc) s.jitEntrySymbols with
  | 0 => True
  | index + 1 => ∀ entry, s.jitEntrySymbols[index]? = some entry →
      entry.address ≤ pc ∧ pc < (s.jitEntrySymbols[index + 1]?.map (·.address)).getD
        (saturatingAdd entry.address maxJitEntrySpan) →
      pc - entry.address < maxJitEntrySpan → CogCodeInRange s pc

def ScanBoundsInRange : Prop :=
  ∀ map, Searched (Symbolizer.inMap pc · = false) s.maps map → map.start ≤ pc → MapInRange map

def ScanDownInRange (pc start stop : UInt64) : Nat → Prop
  | 0 => 0 ≥ start → CogMethodInRange M 0
  | k + 1 =>
    let candidate := UInt64.ofNat (8 * (k + 1))
    candidate ≥ start → CogMethodInRange M candidate ∧
      (Symbolizer.readCogMethod M candidate pc = none → ¬candidate - 8 > stop → ScanDownInRange pc start stop k)

def ScanInRange : Prop :=
  ScanBoundsInRange s pc ∧ ∀ bounds, s.scanBounds pc = some bounds →
    ScanDownInRange M pc (alignDown bounds.1) bounds.2 (pc.toNat / 8)

/-! ### The method zone -/

def EntriesInRange : Prop :=
  ∀ slot ∈ s.jitEntrySymbolSlots, ∀ address, M.copyU64 slot.slotAddr = some address → ¬address = 0 →
    CogCodeInRange s address

def WalkZoneInRange (freeStart : UInt64) : Nat → UInt64 → Prop
  | 0, _ => True
  | fuel + 1, cursor =>
    cursor < freeStart → CogMethodInRange M cursor ∧ ∀ range, M.readCogMethodAt cursor = some range →
      ¬(range.stop ≤ cursor ∨ range.stop > saturatingAdd freeStart 8) → WalkZoneInRange freeStart fuel range.stop

def AdoptInRange (base freeStart : UInt64) : Prop :=
  EntriesInRange M { s with methodZoneBounds := some (base, freeStart) }

def WalkFromInRange (base freeStart scanStart : UInt64) : Prop :=
  ¬scanStart ≥ freeStart → AdoptInRange M s base freeStart ∧
    WalkZoneInRange M freeStart (freeStart - scanStart).toNat scanStart

def RefreshInRange : Prop :=
  match s.methodZoneSymbols with
  | none => True
  | some symbols =>
    match Symbolizer.readMethodZoneBounds M symbols with
    | none => True
    | some (base, freeStart) =>
      if s.methodZoneBounds = some (base, freeStart) then
        let cursor := s.methodZoneScanCursor.getD base
        ¬(cursor ≥ freeStart ∨ s.methodZoneBlockedCursor = some cursor) → WalkFromInRange M s base freeStart cursor
      else
        match s.methodZoneBounds with
        | some (previousBase, previousFreeStart) =>
          if previousBase = base ∧ previousFreeStart < freeStart then
            let cursor := s.methodZoneScanCursor.getD previousFreeStart
            if s.methodZoneBlockedCursor = some cursor then AdoptInRange M s base freeStart
            else WalkFromInRange M s base freeStart cursor
          else WalkFromInRange M s.clearZone base freeStart base
        | none => WalkFromInRange M s.clearZone base freeStart base

/-! ### Frames -/

/-- The method that the backward scan finds, if there is one. -/
def scannedName : Option String :=
  if s.pcInMethodZone pc || s.methodZoneBounds.isNone then (s.scanned M pc).map (·.name) else none

def UnlistedInRange : Prop :=
  EntryLookupInRange s pc ∧ (s.lookupJitEntrySymbol pc = none →
    (s.pcInMethodZone pc || s.methodZoneBounds.isNone → ScanInRange M s pc) ∧
      (scannedName M s pc = none → CogCodeInRange s pc))

def JitPcInRange : Prop :=
  s.resolvedPcs pc = none → s.lookupMethodRange pc = none →
    if s.shouldRefresh pc then
      RefreshInRange M s ∧ ((s.refreshMethodZone M).lookupMethodRange pc = none →
        UnlistedInRange M (s.refreshMethodZone M) pc)
    else UnlistedInRange M s pc

/-- The method of a context is in slot 3. -/
def ContextInRange (context : UInt64) : Prop :=
  isHeapObject context → SlotInRange context 3 ∧
    ∀ methodObj, M.copyU64 (context + baseHeaderSize + 3 * wordSize) = some methodObj →
      isHeapObject methodObj → M.isCompiledMethod methodObj → MethodHeaderInRange M methodObj ∧
        ∀ methodHeader, M.methodHeaderOf methodObj = some methodHeader →
          MaybeSelectorInRange M (maxClassNameDepth + 1) methodObj methodHeader ∧
            ∀ selector,
              (M.maybeSelectorOfMethod (maxClassNameDepth + 1) methodObj methodHeader).filter looksLikeSelector =
                some selector →
              MethodClassInRange M (maxClassNameDepth + 1) methodObj methodHeader

/-- A method field below the heap is taken for a CogMethod, another one for a context. -/
def FrameInRange (methodField heapBase : UInt64) : Prop :=
  ¬methodField = 0 →
    if methodField < heapBase then
      methodField.toNat + 0x28 < 2 ^ 64 ∧ JitPcInRange M s (methodField + cogMethodSize)
    else ContextInRange M methodField

/-- The frames with these method fields, each met by the symbolizer with what it knows by then. -/
def FramesInRange (heapBase : UInt64) : List UInt64 → Symbolizer → Prop
  | [], _ => True
  | methodField :: fields, s =>
    FrameInRange M s methodField heapBase ∧
      FramesInRange heapBase fields (s.resolveFrameMethod M methodField heapBase).2

/-- Every word that the walk takes for an address is in range. -/
def WordsInRange : Prop :=
  ∀ symbols, s.cogFrameSymbols = some symbols → ∀ fp, M.copyU64 symbols.framePointerAddr = some fp → ¬fp = 0 →
    ∀ heapBase, M.copyU64 symbols.heapBaseAddr = some heapBase →
      ∀ fields, VisitedFields M fp fields → FramesInRange M heapBase fields s

end Arithmetic

end StSpy
