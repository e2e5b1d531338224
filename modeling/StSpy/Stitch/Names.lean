import StSpy.Stitch
import StSpy.Heap.Nesting

/-!
# Names of interpreted and compiled activations

A method on the Cog chain is named from its context when it is interpreted and
from its CogMethod when it is compiled. Both take the selector and the class
from the method; where no class is found the first writes `???` and the second
`JIT method`, which `isSmalltalkMethod` tells apart.
-/

namespace StSpy

namespace Memory

variable {M : Memory} {cog methodObj methodHeader : UInt64} {selector : String}

variable (M) in
/-- The CogMethod at `cog`, of type `CM_METHOD`, is the compiled method's: its
method object, the original header and, where it reads as text, its selector. -/
structure CogMethodOf (cog methodObj methodHeader : UInt64) : Prop where
  flags_eq : ∃ flags, M.copyU32 (cog + cogMethodFlagsOffset) = some flags ∧
    ((flags >>> 8) &&& 0x7).toUInt8 = cmMethod
  methodObject_eq : M.copyU64 (cog + cogMethodMethodObjectOffset) = some methodObj
  methodHeader_eq : M.copyU64 (cog + cogMethodMethodHeaderOffset) = some methodHeader
  header_eq : M.methodHeaderOf methodObj = some methodHeader
  selector_eq : ∃ selectorOop, M.copyU64 (cog + cogMethodSelectorOffset) = some selectorOop ∧
    (M.readSelector selectorOop = none ∨
      M.readSelector selectorOop = M.maybeSelectorOfMethod (maxClassNameDepth + 1) methodObj methodHeader)

variable (M) in
/-- The method's selector as both names have it. -/
def methodSelector (methodObj methodHeader : UInt64) : Option String :=
  (M.maybeSelectorOfMethod (maxClassNameDepth + 1) methodObj methodHeader).filter looksLikeSelector

theorem isCompiledMethod_of_selector (h : M.methodSelector methodObj methodHeader = some selector) :
    M.isCompiledMethod methodObj = true := by
  cases hc : M.isCompiledMethod methodObj with
  | true => rfl
  | false => simp [methodSelector, maybeSelectorOfMethod, hc] at h

theorem CogMethodOf.cogSelector_eq (h : M.CogMethodOf cog methodObj methodHeader) {selectorOop : UInt64}
    (hoop : M.copyU64 (cog + cogMethodSelectorOffset) = some selectorOop) :
    M.cogSelector cmMethod methodObj methodHeader selectorOop = M.methodSelector methodObj methodHeader := by
  obtain ⟨own, hown, hread⟩ := h.selector_eq
  rw [hoop] at hown
  cases hown
  have hmethod : isMethodType cmMethod = true := by decide
  unfold cogSelector methodSelector
  rw [if_pos hmethod]
  rcases hread with hnone | hsame
  · rw [hnone]
    rfl
  · rw [hsame]
    cases M.maybeSelectorOfMethod (maxClassNameDepth + 1) methodObj methodHeader <;> rfl

/-- The name `readCogMethodAt` gives the CogMethod. -/
theorem CogMethodOf.name_eq (h : M.CogMethodOf cog methodObj methodHeader) {X : CogMethodRange}
    (hread : M.readCogMethodAt cog = some X) :
    X.name = M.cogLabel cmMethod methodObj methodHeader (M.methodSelector methodObj methodHeader) := by
  obtain ⟨flags, hflags, htype⟩ := h.flags_eq
  simp only [readCogMethodAt, Option.bind_eq_bind, Option.bind_eq_some_iff] at hread
  obtain ⟨blockSize, _, hread⟩ := hread
  split at hread
  · obtain ⟨stop, _, hread⟩ := Option.bind_eq_some_iff.mp hread
    simp only [hflags, h.methodObject_eq, h.methodHeader_eq, htype, Option.bind_some] at hread
    obtain ⟨selectorOop, hoop, hread⟩ := Option.bind_eq_some_iff.mp hread
    rw [h.cogSelector_eq hoop] at hread
    cases hread
    rfl
  · cases hread

/-- A compiled method with a selector is named after its class, or as `JIT method`. -/
theorem CogMethodOf.name_of_selector (h : M.CogMethodOf cog methodObj methodHeader) {X : CogMethodRange}
    (hread : M.readCogMethodAt cog = some X) (hsel : M.methodSelector methodObj methodHeader = some selector) :
    X.name = ((M.classNameOfMethod (maxClassNameDepth + 1) methodObj methodHeader).getD "JIT method") ++
      ">>" ++ selector := by
  rw [h.name_eq hread, hsel, cogLabel, if_neg (by decide), if_neg (by decide), if_pos (by decide)]
  cases M.classNameOfMethod (maxClassNameDepth + 1) methodObj methodHeader with
  | none => exact congrArg (· ++ selector) (by decide)
  | some className => rfl

end Memory

open Memory Symbolizer

variable {M : Memory} {context heapBase cog methodObj methodHeader : UInt64} {selector : String}

/-- An interpreted one is named after its class, or as `???`. -/
theorem resolveFrameMethod_of_selector (s : Symbolizer) (hcontext : isHeapObject context = true)
    (hbase : heapBase ≤ context) (hslot : M.copyU64 (context + baseHeaderSize + 3 * wordSize) = some methodObj)
    (hheader : M.methodHeaderOf methodObj = some methodHeader)
    (hsel : M.methodSelector methodObj methodHeader = some selector) :
    (s.resolveFrameMethod M context heapBase).1 =
      some (((M.classNameOfMethod (maxClassNameDepth + 1) methodObj methodHeader).getD "???") ++ ">>" ++
        selector) := by
  have hcompiled := isCompiledMethod_of_selector hsel
  have hheap := isHeapObject_of_compiled hcompiled
  have hzero : context ≠ 0 := by
    rintro rfl
    cases hcontext
  have hlt : ¬context < heapBase := UInt64.not_lt.mpr hbase
  have htext : "???" ++ ">>" = "???>>" := by decide
  unfold methodSelector at hsel
  rw [resolveFrameMethod, if_neg hzero, if_neg hlt, interpretedFrameName]
  cases hclass : M.classNameOfMethod (maxClassNameDepth + 1) methodObj methodHeader <;>
    simp [hcontext, hslot, hcompiled, hheap, hheader, hsel, hclass, htext]

theorem isSmalltalkMethod_interpreted (short : Option String) (selector : String) :
    isSmalltalkMethod (cogFrame short ("???>>" ++ selector)) = true := by
  have hcog : startsWith "???>>" "Cog " = false := by decide
  have hjit : startsWith "???>>" "JIT " = false := by decide
  simp [isSmalltalkMethod, cogFrame, startsWith_append, hcog, hjit]

theorem isSmalltalkMethod_compiled (short : Option String) (selector : String) :
    isSmalltalkMethod (cogFrame short ("JIT method>>" ++ selector)) = false := by
  have hjit : startsWith "JIT method>>" "JIT " = true := by decide
  simp [isSmalltalkMethod, cogFrame, startsWith_append, hjit]

variable (M) in
/-- Whether a class is found for the method. -/
def ClassKnown (methodObj methodHeader : UInt64) : Prop :=
  (M.classNameOfMethod (maxClassNameDepth + 1) methodObj methodHeader).isSome

/-- An interpreted and a compiled activation of one method have one name, and
both or neither count as a Smalltalk method, exactly when its class is found. -/
theorem activations_named_alike_iff (s : Symbolizer) (hcontext : isHeapObject context = true)
    (hbase : heapBase ≤ context) (hslot : M.copyU64 (context + baseHeaderSize + 3 * wordSize) = some methodObj)
    (hcog : M.CogMethodOf cog methodObj methodHeader)
    (hsel : M.methodSelector methodObj methodHeader = some selector) {X : CogMethodRange}
    (hread : M.readCogMethodAt cog = some X) :
    ∃ name, (s.resolveFrameMethod M context heapBase).1 = some name ∧
      (name = X.name ↔ ClassKnown M methodObj methodHeader) ∧
      ∀ short, isSmalltalkMethod (cogFrame short name) = isSmalltalkMethod (cogFrame short X.name) ↔
        ClassKnown M methodObj methodHeader := by
  refine ⟨_, resolveFrameMethod_of_selector s hcontext hbase hslot hcog.header_eq hsel, ?_⟩
  rw [hcog.name_of_selector hread hsel]
  unfold ClassKnown
  cases M.classNameOfMethod (maxClassNameDepth + 1) methodObj methodHeader with
  | some className => simp
  | none =>
    have hinterpreted : "???" ++ ">>" = "???>>" := by decide
    have hcompiled : "JIT method" ++ ">>" = "JIT method>>" := by decide
    rw [Option.getD_none, Option.getD_none, hinterpreted, hcompiled]
    have hverdict : ∀ short, isSmalltalkMethod (cogFrame short ("???>>" ++ selector)) ≠
        isSmalltalkMethod (cogFrame short ("JIT method>>" ++ selector)) := by
      intro short
      rw [isSmalltalkMethod_interpreted, isSmalltalkMethod_compiled]
      decide
    refine ⟨iff_of_false (fun h => hverdict none (by rw [h])) nofun, fun short => ?_⟩
    exact iff_of_false (hverdict short) nofun

/-- The class of a method laid out as the reader assumes is found. -/
theorem classKnown_of_home (H : M.HomeMethod) (h : H.Reached 0) : ClassKnown M H.obj H.header := by
  have hname := H.classNameOf_reached h
  rw [Nat.sub_zero] at hname
  rw [ClassKnown, hname]
  rfl

/-! ### A method with and without its class -/

/-- A context at 0x8000 of the method `run` at 0x5000, whose CogMethod is at
0x1000; its last literal is the association of `Foo` at 0x400, or `nil`. -/
def activationImage (known : Bool) : Memory :=
  .ofWords [(0x100, 0x0100000015000000), (0x108, 0x6f6f46),
    (0x200, 0x0700000001000000), (0x238, 0x100),
    (0x400, 0x0200000001000000), (0x408, 0x100), (0x410, 0x200),
    (0x1008, 0x4000000500), (0x1010, 0x5000), (0x1018, 0x11), (0x1020, 0x6000),
    (0x5000, 0x0300000018000000), (0x5008, 0x1000), (0x5010, 0x6000),
    (0x5018, if known then 0x400 else nilObject),
    (0x6000, 0x0100000015000000), (0x6008, 0x6e7572),
    (0x8020, 0x5000)]

def activationRange (name : String) : CogMethodRange := ⟨0x1000, 0x1040, name⟩

theorem activationImage_cogMethod (known : Bool) : (activationImage known).CogMethodOf 0x1000 0x5000 0x11 where
  flags_eq := ⟨0x500, by revert known; decide +kernel, by decide⟩
  methodObject_eq := by revert known; decide +kernel
  methodHeader_eq := by revert known; decide +kernel
  header_eq := by revert known; decide +kernel
  selector_eq := ⟨0x6000, by revert known; decide +kernel, by revert known; decide +kernel⟩

theorem activations_named_alike_iff_foo :
    ∃ name, ((new [] none).resolveFrameMethod (activationImage true) 0x8000 0x4000).1 = some name ∧
      (name = "Foo>>run" ↔ ClassKnown (activationImage true) 0x5000 0x11) ∧
      ∀ short, isSmalltalkMethod (cogFrame short name) = isSmalltalkMethod (cogFrame short "Foo>>run") ↔
        ClassKnown (activationImage true) 0x5000 0x11 :=
  have hsel : (activationImage true).methodSelector 0x5000 0x11 = some "run" := by decide +kernel
  activations_named_alike_iff (X := activationRange "Foo>>run") (new [] none) (by decide) (by decide)
    (by decide +kernel) (activationImage_cogMethod true) hsel (by decide +kernel)

/-- Without the class, the interpreted activation is `???>>run` and counts as a
method, the compiled one is `JIT method>>run` and does not. -/
theorem activationImage_unlike :
    ((new [] none).resolveFrameMethod (activationImage false) 0x8000 0x4000).1 = some "???>>run" ∧
      (activationImage false).readCogMethodAt 0x1000 = some (activationRange "JIT method>>run") ∧
      isSmalltalkMethod (cogFrame none "???>>run") = true ∧
      isSmalltalkMethod (cogFrame none "JIT method>>run") = false := by
  decide +kernel

theorem activations_not_named_alike :
    ¬∀ (M : Memory) (s : Symbolizer) (context heapBase cog methodObj methodHeader : UInt64)
      (selector : String) (X : CogMethodRange), isHeapObject context = true → heapBase ≤ context →
      M.copyU64 (context + baseHeaderSize + 3 * wordSize) = some methodObj →
      M.CogMethodOf cog methodObj methodHeader → M.methodSelector methodObj methodHeader = some selector →
      M.readCogMethodAt cog = some X → (s.resolveFrameMethod M context heapBase).1 = some X.name := by
  intro h
  have hname := h (activationImage false) (new [] none) 0x8000 0x4000 0x1000 0x5000 0x11 "run"
    (activationRange "JIT method>>run") (by decide) (by decide) (by decide +kernel)
    (activationImage_cogMethod false) (by decide +kernel) activationImage_unlike.2.1
  rw [activationImage_unlike.1] at hname
  exact absurd hname (by decide)

end StSpy
