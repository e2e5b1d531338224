import StSpy.Memory

/-!
# Reading the Spur heap

The readers of `smalltalk_symbolizer.rs` that look at heap objects: object
headers, literals of compiled methods, and the two searches for a method's
selector and for its class name. The source's searches carry a `depth` that
may not exceed 4; here `left` is `5 - depth`, the calls still allowed, so the
recursion is structural and `left = 0` is the source's `depth > 4`.
-/

namespace StSpy

def baseHeaderSize : UInt64 := 8
def wordSize : UInt64 := 8
def tagMask : UInt64 := 0x7
def formatFieldByteOffset : UInt64 := 3
def numSlotsFieldByteOffset : UInt64 := 7
def formatMask : UInt8 := 0x1f
def firstWordOrByteFormat : UInt8 := 9
def firstByteFormat : UInt8 := 16
def firstCompiledMethodFormat : UInt8 := 24
def lastPointerFormat : UInt8 := 5
def numSlotsMask : UInt8 := 255
def literalStart : UInt64 := 1
def headerIndex : UInt64 := 0
def alternateHeaderNumLiteralsMask : UInt64 := 0x7fff
def smallIntegerTag : UInt64 := 1
def nilObject : UInt64 := 0x19
def cogMethodMethodHeaderOffset : UInt64 := 0x18
def maxClassNameDepth : Nat := 4
def maxClassLiteralScan : UInt64 := 4
def maxClassObjectScan : UInt64 := 8

def isHeapObject (oop : UInt64) : Bool := oop ≠ 0 && oop &&& tagMask = 0

theorem toNat_of_isHeapObject {oop : UInt64} (h : isHeapObject oop) : oop.toNat % 8 = 0 ∧ 8 ≤ oop.toNat := by
  simp only [isHeapObject, ne_eq, Bool.and_eq_true, decide_eq_true_eq] at h
  obtain ⟨hne, htag⟩ := h
  have hmod : (oop &&& tagMask).toNat = oop.toNat % 8 := Nat.and_two_pow_sub_one_eq_mod oop.toNat 3
  have hzero : oop.toNat % 8 = 0 := by rw [← hmod, htag]; rfl
  have hpositive : oop.toNat ≠ 0 := fun h0 => hne (UInt64.toNat_inj.mp h0)
  omega

def isSmallInteger (oop : UInt64) : Bool := oop &&& tagMask = smallIntegerTag

/-- The source tests the bytes of the name; a byte of a non-ASCII character
passes none of the tests, so testing characters is the same. -/
def looksLikeSelector (selector : String) : Bool :=
  selector ≠ "" && selector.utf8ByteSize ≤ 256 &&
    selector.toList.all fun c => c.isAlphanum || "+-*/\\~<>=@,%|&?!_:".toList.contains c

def looksLikeClassName (name : String) : Bool :=
  match name.toList with
  | [] => false
  | first :: _ =>
    first.isUpper && name.utf8ByteSize ≤ 160 && name.toList.all fun c => c.isAlphanum || c = '_'

namespace Memory

variable (M : Memory)

/-! ## Object headers -/

def formatOf (oop : UInt64) : Option UInt8 :=
  if isHeapObject oop then (M.copyU8 (oop + formatFieldByteOffset)).map (· &&& formatMask) else none

def isCompiledMethod (oop : UInt64) : Bool :=
  (M.formatOf oop).any fun format => format ≥ firstCompiledMethodFormat

def isWordsOrBytes (oop : UInt64) : Bool :=
  (M.formatOf oop).any fun format =>
    firstWordOrByteFormat ≤ format && format < firstCompiledMethodFormat

def isPointerObject (oop : UInt64) : Bool :=
  (M.formatOf oop).any fun format => format ≤ lastPointerFormat

def numSlots (oop : UInt64) : Option UInt64 :=
  if isHeapObject oop then do
    let slots ← M.copyU8 (oop + numSlotsFieldByteOffset)
    if slots = numSlotsMask then
      let longHeader ← M.copyU64 (oop - baseHeaderSize)
      return longHeader >>> 8
    else
      return slots.toUInt64
  else none

/-- `is_ascii_graphic` or a space. -/
def isPrintable (byte : UInt8) : Bool := (0x21 ≤ byte && byte ≤ 0x7e) || byte = 0x20

def readByteObject (oop : UInt64) : Option String :=
  if isHeapObject oop then do
    let header ← M.copy oop baseHeaderSize.toNat
    let format ← header[formatFieldByteOffset.toNat]?.map (· &&& formatMask)
    if firstByteFormat ≤ format ∧ format < firstCompiledMethodFormat then
      let slots ← M.numSlots oop
      let words ← checkedMul slots wordSize
      let byteSize ← checkedSub words (format &&& 7).toUInt64
      if byteSize = 0 ∨ byteSize > 512 then none
      else
        let bytes ← M.copy (oop + baseHeaderSize) byteSize.toNat
        if bytes.all isPrintable then
          return String.ofList (bytes.map fun byte => Char.ofNat byte.toNat)
        else none
    else none
  else none

def readSelector (oop : UInt64) : Option String :=
  if oop = nilObject then none else M.readByteObject oop

/-! ## Compiled methods -/

def literalField (oop offset : UInt64) : Option UInt64 :=
  M.copyU64 (oop + baseHeaderSize + offset * wordSize)

def literalOfMethod (methodObj offset : UInt64) : Option UInt64 :=
  M.literalField methodObj (offset + literalStart)

/-- A header that is no small integer points at the method's CogMethod, which
keeps the original one. -/
def methodHeaderOf (methodObj : UInt64) : Option UInt64 := do
  let header ← M.literalField methodObj headerIndex
  if isSmallInteger header then return header
  else M.copyU64 (header + cogMethodMethodHeaderOffset)

def literalCountOfMethod (methodObj methodHeader : UInt64) : Option UInt64 := do
  let header ← if isSmallInteger methodHeader then some methodHeader else M.methodHeaderOf methodObj
  return (header >>> 3) &&& alternateHeaderNumLiteralsMask

def maybeSelectorOfMethod : Nat → UInt64 → UInt64 → Option String
  | 0, _, _ => none
  | left + 1, methodObj, methodHeader =>
    if !M.isCompiledMethod methodObj then none
    else do
      let literalCount ← M.literalCountOfMethod methodObj methodHeader
      if literalCount < 2 then none
      else
        let ultimateLiteral ← M.literalOfMethod methodObj (literalCount - 1)
        -- a block's last literal is the method it is nested in
        if M.isCompiledMethod ultimateLiteral then
          let nestedHeader ← M.methodHeaderOf ultimateLiteral
          if let some selector := maybeSelectorOfMethod left ultimateLiteral nestedHeader then
            return selector
        let penultimateLiteral ← M.literalOfMethod methodObj (literalCount - 2)
        if M.isWordsOrBytes penultimateLiteral then
          M.readSelector penultimateLiteral
        else if M.isPointerObject penultimateLiteral then
          let slots ← M.numSlots penultimateLiteral
          if slots ≥ 2 then
            let methodField ← M.literalField penultimateLiteral 0
            let maybeSelector ← M.literalField penultimateLiteral 1
            if methodField = methodObj ∧ M.isWordsOrBytes maybeSelector then
              M.readSelector maybeSelector
            else none
          else none
        else none

/-! ## Class names -/

def readClassName (oop : UInt64) : Option String := (M.readByteObject oop).filter looksLikeClassName

def classNameFromClassObject : Nat → UInt64 → Option String
  | 0, _ => none
  | left + 1, oop =>
    if !M.isPointerObject oop then none
    else do
      let slots ← M.numSlots oop
      if slots > 6 then
        if let some className := (M.literalField oop 6).bind M.readClassName then
          return className
      if slots > 5 then
        if let some thisClass := M.literalField oop 5 then
          if thisClass ≠ oop then
            if let some className := classNameFromClassObject left thisClass then
              return className ++ " class"
      (List.range (min slots maxClassObjectScan).toNat).findSome? fun offset =>
        if offset = 5 ∨ offset = 6 then none
        else (M.literalField oop (UInt64.ofNat offset)).bind M.readClassName

def classNameFromMethodLiteral : Nat → UInt64 → Option String
  | 0, _ => none
  | left + 1, oop =>
    if oop = nilObject ∨ !isHeapObject oop then none
    else if M.isWordsOrBytes oop then M.readClassName oop
    else if !M.isPointerObject oop then none
    else if let some className := M.classNameFromClassObject left oop then some className
    else do
      let slots ← M.numSlots oop
      if slots ≥ 2 then
        if let some value := M.literalField oop 1 then
          if let some className := M.classNameFromClassObject left value then
            return className
        if let some key := M.literalField oop 0 then
          if let some className := M.readClassName key then
            return className
      (List.range (min slots maxClassObjectScan).toNat).findSome? fun offset =>
        (M.literalField oop (UInt64.ofNat offset)).bind fun field => classNameFromMethodLiteral left field

def classNameOfMethod : Nat → UInt64 → UInt64 → Option String
  | 0, _, _ => none
  | left + 1, methodObj, methodHeader =>
    if !M.isCompiledMethod methodObj then none
    else do
      let literalCount ← M.literalCountOfMethod methodObj methodHeader
      if literalCount = 0 then none
      else
        let firstLiteral := saturatingSub literalCount maxClassLiteralScan
        -- the last literals first
        (List.range (literalCount - firstLiteral).toNat).findSome? fun back => do
          let literal ← M.literalOfMethod methodObj (literalCount - 1 - UInt64.ofNat back)
          let nested :=
            if M.isCompiledMethod literal then
              (M.methodHeaderOf literal).bind fun nestedHeader =>
                classNameOfMethod left literal nestedHeader
            else none
          nested <|> M.classNameFromMethodLiteral left literal

end Memory

end StSpy
