import StSpy.SmalltalkSpy.Samples
import StSpy.Stitch.Names
import StSpy.Text.Numbers

/-!
# Activations

The frame chain of a thread that has left Smalltalk for the VM is a chain of
activations, each of a method or of a block in it, interpreted or compiled. The
samples label every one of them after the home method, `Class>>selector`: the
compiled ones through the method zone, the interpreted ones through their contexts.
-/

namespace StSpy

open Memory Symbolizer

/-- A method, or a block near enough to its home method for both parts of the label. -/
structure Code (M : Memory) where
  home : M.HomeMethod
  depth : Nat
  obj : UInt64
  header : UInt64
  nested : M.NestedIn 2 home.obj depth obj
  header_eq : M.methodHeaderOf obj = some header
  reached : home.Reached depth
  selector_text : looksLikeSelector home.selector = true

namespace Code

variable {M : Memory} (code : Code M)

def label : String := code.home.label ++ ">>" ++ code.home.selector

theorem selector_eq : M.methodSelector code.obj code.header = some code.home.selector := by
  have hdepth : maxClassNameDepth + 1 = 4 - code.depth + 1 + code.depth := by
    have hle := code.reached.le
    unfold maxClassNameDepth
    omega
  rw [methodSelector, hdepth, code.nested.selectorOf code.home (4 - code.depth) code.header_eq,
    Option.filter_some, if_pos code.selector_text]

theorem className_eq :
    M.classNameOfMethod (maxClassNameDepth + 1) code.obj code.header = some code.home.label := by
  have hone := code.nested.mono (show (1 : UInt64) ≤ 2 by decide)
  have hdepth : maxClassNameDepth + 1 = maxClassNameDepth + 1 - code.depth + code.depth := by
    have hle := code.reached.le
    unfold maxClassNameDepth
    omega
  rw [hdepth]
  exact hone.classNameOf code.home (code.home.classNameOf_reached code.reached) code.header_eq

end Code

variable {symbols : MethodZoneSymbols} {base : UInt64} {S : Symbolizer} {Z : ZoneImage symbols base} {M : Memory}
  {heapBase methodField pc fp : UInt64} {code : Code M} {codes : List (Code M)} {X : CogMethodRange}

/-- `X` is the code compiled. -/
structure CompiledAs (Z : ZoneImage symbols base) (code : Code M) (X : CogMethodRange) : Prop where
  listed : X ∈ Z.methods
  cogMethod : M.CogMethodOf X.start code.obj code.header

/-- What a frame's method field says of a frame of this code: it refers to a context
in the heap, or it is the address of a CogMethod below it, which may carry flags. -/
inductive Activates (Z : ZoneImage symbols base) (heapBase methodField : UInt64) (code : Code M) : Prop
  | interpreted (context : isHeapObject methodField = true) (heap : heapBase ≤ methodField)
      (slot : M.copyU64 (methodField + baseHeaderSize + 3 * wordSize) = some code.obj)
  | compiled {X : CogMethodRange} (as : CompiledAs Z code X) (nonzero : methodField ≠ 0)
      (below : methodField < heapBase) (covers : X.Covers (methodField + cogMethodSize))

/-- The frames from `fp` on activate these, innermost first. -/
inductive FrameChain (M : Memory) (Z : ZoneImage symbols base) (heapBase : UInt64) : UInt64 → List (Code M) → Prop
  | base {fp methodField : UInt64} {code : Code M} (field : methodFieldOf M fp = some methodField)
      (activates : Activates Z heapBase methodField code) (last : callerOf M fp = none) :
      FrameChain M Z heapBase fp [code]
  | frame {fp methodField callerFp : UInt64} {code : Code M} {codes : List (Code M)}
      (field : methodFieldOf M fp = some methodField) (activates : Activates Z heapBase methodField code)
      (caller : callerOf M fp = some callerFp) (callers : FrameChain M Z heapBase callerFp codes) :
      FrameChain M Z heapBase fp (code :: codes)

/-! ## Labels -/

/-- A pc in a compiled method is labelled after it. -/
theorem CompiledAs.listedLabel (hS : S.Tracks Z) (hM : S.Steady Z M) (h : CompiledAs Z code X) (hcov : X.Covers pc) :
    S.listedLabel pc = some code.label := by
  have hname := h.cogMethod.name_of_selector (hM.decoded X h.listed) code.selector_eq
  rw [code.className_eq, Option.getD_some] at hname
  rw [Symbolizer.listedLabel, lookupMethodRange_eq, hS.ranges, Z.locate h.listed hcov, Option.map_some, hname]
  rfl

/-- A frame is labelled after the code it activates. -/
theorem Activates.frameLabel (hS : S.Tracks Z) (hM : S.Steady Z M) (h : Activates Z heapBase methodField code) :
    S.frameLabel M heapBase methodField = some code.label := by
  cases h with
  | interpreted context heap slot =>
    have hname := resolveFrameMethod_of_selector S context heap slot code.header_eq code.selector_eq
    have hzero : methodField ≠ 0 := by
      rintro rfl
      cases context
    have hlt : ¬methodField < heapBase := not_lt.mpr heap
    rw [code.className_eq, Option.getD_some, resolveFrameMethod, if_neg hzero, if_neg hlt] at hname
    rw [Symbolizer.frameLabel, if_neg hzero, if_neg hlt]
    exact hname
  | compiled as nonzero below covers =>
    rw [Symbolizer.frameLabel, if_neg nonzero, if_pos below]
    exact as.listedLabel hS hM covers

/-- The walk labels the activations, as many as it has turns. -/
theorem FrameChain.labels (hS : S.Tracks Z) (hM : S.Steady Z M) (h : FrameChain M Z heapBase fp codes) (turns : Nat) :
    (Chains.follow (callerOf M) (methodFieldOf M) turns fp).filterMap (S.frameLabel M heapBase) =
      (codes.take turns).map Code.label := by
  induction h generalizing turns with
  | base field activates last =>
    cases turns with
    | zero => rfl
    | succ turns =>
      rw [Chains.follow, field]
      simp [last, activates.frameLabel hS hM]
  | frame field activates caller callers ih =>
    cases turns with
    | zero => rfl
    | succ turns =>
      rw [Chains.follow, field]
      simp [caller, activates.frameLabel hS hM, ih turns]

/-- Where the VM keeps its frame pointer and the start of the heap, and the chain from there. -/
structure ChainFrom (S : Symbolizer) (M : Memory) (Z : ZoneImage symbols base) (codes : List (Code M)) : Prop where
  frames : ∃ cogSymbols fp heapBase, S.cogFrameSymbols = some cogSymbols ∧
    M.copyU64 cogSymbols.framePointerAddr = some fp ∧ fp ≠ 0 ∧
    M.copyU64 cogSymbols.heapBaseAddr = some heapBase ∧ FrameChain M Z heapBase fp codes

theorem ChainFrom.chainLabels (hS : S.Tracks Z) (hM : S.Steady Z M) (h : ChainFrom S M Z codes) :
    S.chainLabels M = (codes.take cogFrameWalkLimit).map Code.label := by
  obtain ⟨cogSymbols, fp, heapBase, hsymbols, hfp, hne, hheap, hchain⟩ := h.frames
  simp only [Symbolizer.chainLabels, hsymbols, hfp, hheap, Option.bind_eq_bind, Option.bind_some, if_neg hne]
  exact hchain.labels hS hM cogFrameWalkLimit

namespace SmalltalkSpy

/-! ## Traces -/

variable {native : Native} {symbolicator : Symbolicator} {spy : SmalltalkSpy} {visit : Visit}

end SmalltalkSpy

end StSpy
