import StSpy.Heap

/-!
# CogMethod headers

`readCogMethodAt` is `read_cog_method_at`: what the symbolizer makes of the
bytes at an address taken as a CogMethod header, a range `[start, stop)` of
machine code and its label. The label says what kind of code it is: a
class-qualified method, or one of the `JIT` placeholders.
-/

namespace StSpy

def cogMethodSize : UInt64 := 0x28
def cogMethodSelectorOffset : UInt64 := 0x20
def cogMethodBlockSizeOffset : UInt64 := 0x0c
def cogMethodMethodObjectOffset : UInt64 := 0x10
def cogMethodFlagsOffset : UInt64 := 0x08
def cogScanLimit : UInt64 := 1024 * 1024
def cmMethod : UInt8 := 5
def cmMethodFlaggedForBecome : UInt8 := 6
def cmOpenPic : UInt8 := 3
def cmClosedPic : UInt8 := 2

/-- A decoded method; `stop` is the source's `end`. -/
structure CogMethodRange where
  start : UInt64
  stop : UInt64
  name : String
  deriving DecidableEq, Repr

namespace CogMethodRange

/-- The pcs of the machine code behind the header. -/
def Body (X : CogMethodRange) (pc : UInt64) : Prop :=
  X.start.toNat + cogMethodSize.toNat ≤ pc.toNat ∧ pc < X.stop

/-- Header and body. -/
def Covers (X : CogMethodRange) (pc : UInt64) : Prop := X.start ≤ pc ∧ pc < X.stop

theorem Body.covers {X : CogMethodRange} {pc : UInt64} (h : X.Body pc) : X.Covers pc :=
  ⟨by rw [UInt64.le_iff_toNat_le]; have := h.1; omega, h.2⟩

end CogMethodRange

def roundUpToMethodAlignment (addr : UInt64) : Option UInt64 := (checkedAdd addr 7).map alignDown

namespace Memory

variable (M : Memory)

/-- Whether a type field says a method rather than a PIC. -/
def isMethodType (cmType : UInt8) : Bool := cmType = cmMethod || cmType = cmMethodFlaggedForBecome

/-- The selector of a CogMethod: its own selector field, else the one found
from its method object. -/
def cogSelector (cmType : UInt8) (methodObject methodHeader selectorOop : UInt64) : Option String :=
  ((M.readSelector selectorOop) <|>
    if isMethodType cmType then
      M.maybeSelectorOfMethod (maxClassNameDepth + 1) methodObject methodHeader
    else none).filter looksLikeSelector

/-- The label of a CogMethod. -/
def cogLabel (cmType : UInt8) (methodObject methodHeader : UInt64) : Option String → String
  | none => "JIT frame"
  | some selector =>
    if cmType = cmOpenPic then "JIT PIC>>" ++ selector
    else if cmType = cmClosedPic then "JIT closed PIC>>" ++ selector
    else if isMethodType cmType then
      match M.classNameOfMethod (maxClassNameDepth + 1) methodObject methodHeader with
      | some className => className ++ ">>" ++ selector
      | none => "JIT method>>" ++ selector
    else "JIT frame>>" ++ selector

def readCogMethodAt (addr : UInt64) : Option CogMethodRange := do
  let blockSize ← (M.copyU16 (addr + cogMethodBlockSizeOffset)).map UInt16.toUInt64
  if cogMethodSize ≤ blockSize ∧ blockSize ≤ cogScanLimit then
    let stop ← (checkedAdd addr blockSize).bind roundUpToMethodAlignment
    let flags ← M.copyU32 (addr + cogMethodFlagsOffset)
    let cmType := ((flags >>> 8) &&& 0x7).toUInt8
    let methodObject ← M.copyU64 (addr + cogMethodMethodObjectOffset)
    let methodHeader ← M.copyU64 (addr + cogMethodMethodHeaderOffset)
    let selectorOop ← M.copyU64 (addr + cogMethodSelectorOffset)
    let selector := M.cogSelector cmType methodObject methodHeader selectorOop
    return { start := addr, stop, name := M.cogLabel cmType methodObject methodHeader selector }
  else none

/-- A decoded range starts where it was read, is at least a header long, at
most 64 KiB, and ends aligned without wrapping. -/
structure DecodedSpan (addr : UInt64) (X : CogMethodRange) : Prop where
  start_eq : X.start = addr
  header_le : addr.toNat + cogMethodSize.toNat ≤ X.stop.toNat
  stop_le : X.stop.toNat ≤ addr.toNat + 2 ^ 16 + 7
  aligned : X.stop.toNat % 8 = 0

theorem readCogMethodAt_span {addr : UInt64} {X : CogMethodRange}
    (h : M.readCogMethodAt addr = some X) : DecodedSpan addr X := by
  simp only [readCogMethodAt, Option.bind_eq_bind, Option.bind_eq_some_iff] at h
  obtain ⟨blockSize, hb, h⟩ := h
  split at h
  · rename_i hsize
    simp only [Option.bind_eq_some_iff] at h
    obtain ⟨stop, ⟨sum, hsum, hround⟩, _, _, _, _, _, _, _, _, h⟩ := h
    cases h
    obtain ⟨b16, _, rfl⟩ := Option.map_eq_some_iff.mp hb
    obtain ⟨up, hup, rfl⟩ := Option.map_eq_some_iff.mp hround
    obtain ⟨_, hsum⟩ := checkedAdd_eq_some.mp hsum
    obtain ⟨_, hup⟩ := checkedAdd_eq_some.mp hup
    have h16 := b16.toNat_lt
    have h28 := UInt64.le_iff_toNat_le.mp hsize.1
    have h7 : (7 : UInt64).toNat = 7 := rfl
    rw [UInt16.toNat_toUInt64] at hsum h28
    exact ⟨rfl, by rw [alignDown_toNat]; omega, by rw [alignDown_toNat]; omega,
      by rw [alignDown_toNat]; omega⟩
  · cases h

theorem DecodedSpan.lt {addr : UInt64} {X : CogMethodRange} (h : DecodedSpan addr X) :
    X.start < X.stop := by
  have := h.header_le
  have hs : cogMethodSize.toNat = 0x28 := rfl
  rw [h.start_eq, UInt64.lt_iff_toNat_lt]
  omega

end Memory

end StSpy
