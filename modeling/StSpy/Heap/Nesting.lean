import StSpy.Heap

/-!
# Blocks and their home methods

The last literal of a block is the method or block it is written in, so the
two searches climb from an innermost block to its home method, one call down
for each block. What they may still do there is what the climb has left of the
depth limit: the selector needs no further call, the class name one for the
association, one more for its value and one more for a metaclass's class.
-/

namespace StSpy

namespace Memory

variable {M : Memory} {oop : UInt64}

/-! ## What a format says -/

theorem isHeapObject_of_formatOf {format : UInt8} (h : M.formatOf oop = some format) :
    isHeapObject oop = true := by
  unfold formatOf at h
  split at h
  · assumption
  · cases h

theorem isHeapObject_of_compiled (h : M.isCompiledMethod oop = true) : isHeapObject oop = true := by
  unfold isCompiledMethod at h
  cases hformat : M.formatOf oop with
  | none => simp [hformat] at h
  | some format => exact isHeapObject_of_formatOf hformat

theorem isPointerObject_iff :
    M.isPointerObject oop = true ↔ ∃ format, M.formatOf oop = some format ∧ format ≤ lastPointerFormat := by
  simp [isPointerObject, Option.any_eq_true]

theorem isHeapObject_of_pointers (h : M.isPointerObject oop = true) : isHeapObject oop = true := by
  obtain ⟨format, hformat, -⟩ := isPointerObject_iff.mp h
  exact isHeapObject_of_formatOf hformat

theorem not_isCompiledMethod_of_pointers (h : M.isPointerObject oop = true) :
    M.isCompiledMethod oop = false := by
  obtain ⟨format, hf, hle⟩ := isPointerObject_iff.mp h
  have hlt : ¬firstCompiledMethodFormat ≤ format := by
    simp only [lastPointerFormat, firstCompiledMethodFormat, UInt8.le_iff_toNat_le, UInt8.reduceToNat] at *
    omega
  simp [isCompiledMethod, hf, hlt]

theorem not_isWordsOrBytes_of_pointers (h : M.isPointerObject oop = true) :
    M.isWordsOrBytes oop = false := by
  obtain ⟨format, hf, hle⟩ := isPointerObject_iff.mp h
  have hlt : ¬firstWordOrByteFormat ≤ format := by
    simp only [lastPointerFormat, firstWordOrByteFormat, UInt8.le_iff_toNat_le, UInt8.reduceToNat] at *
    omega
  simp [isWordsOrBytes, hf, hlt]

/-- Heap objects are aligned, and `nil`'s address here is not. -/
theorem ne_nilObject (h : isHeapObject oop = true) : oop ≠ nilObject := by
  rintro rfl
  exact absurd h (by decide)

/-- What reads as text has a byte format. -/
theorem isWordsOrBytes_of_readByteObject (hreads : M.Reads) {text : String} (h : M.readByteObject oop = some text) :
    M.isWordsOrBytes oop = true := by
  unfold readByteObject at h
  split at h
  · rename_i hheap
    obtain ⟨header, hcopy, h⟩ := Option.bind_eq_some_iff.mp h
    obtain ⟨format, hformat, h⟩ := Option.bind_eq_some_iff.mp h
    obtain ⟨byte, hbyte, rfl⟩ := Option.map_eq_some_iff.mp hformat
    split at h
    · rename_i hrange
      have hread : M.copyU8 (oop + formatFieldByteOffset) = some byte :=
        hreads.copyU8_of_word (toNat_of_isHeapObject hheap).1 hcopy hbyte
      have hbase : firstWordOrByteFormat ≤ firstByteFormat := by decide
      have hlow : firstWordOrByteFormat ≤ byte &&& formatMask := UInt8.le_trans hbase hrange.1
      simp [isWordsOrBytes, formatOf, hheap, hread, hlow, hrange.2]
    · cases h
  · cases h

theorem readByteObject_of_pointers (hreads : M.Reads) (h : M.isPointerObject oop = true) :
    M.readByteObject oop = none := by
  cases hread : M.readByteObject oop with
  | none => rfl
  | some text =>
    have hbytes := isWordsOrBytes_of_readByteObject hreads hread
    rw [not_isWordsOrBytes_of_pointers h] at hbytes
    cases hbytes

theorem readClassName_of_pointers (hreads : M.Reads) (h : M.isPointerObject oop = true) :
    M.readClassName oop = none := by
  rw [readClassName, readByteObject_of_pointers hreads h, Option.filter_none]

/-! ## The layout -/

variable (M)

/-- A compiled method or block. -/
structure CompiledCode (obj header count : UInt64) : Prop where
  compiled : M.isCompiledMethod obj = true
  header_eq : M.methodHeaderOf obj = some header
  count_eq : M.literalCountOfMethod obj header = some count

structure ClassObject (oop : UInt64) (name : String) : Prop where
  pointers : M.isPointerObject oop = true
  slots : ∃ slots, M.numSlots oop = some slots ∧ 6 < slots
  name_eq : (M.literalField oop 6).bind M.readClassName = some name

/-- A metaclass, with the name of its class. -/
structure Metaclass (oop : UInt64) (name : String) : Prop where
  pointers : M.isPointerObject oop = true
  slots : M.numSlots oop = some 6
  thisClass : ∃ thisClass, M.literalField oop 5 = some thisClass ∧ M.ClassObject thisClass name

/-- A home method: its penultimate literal is the selector, its last one the
association of its class (`keyed` if slot 0 reads as the class's name). -/
structure HomeMethod where
  obj : UInt64
  header : UInt64
  count : UInt64
  selectorOop : UInt64
  association : UInt64
  key : UInt64
  value : UInt64
  selector : String
  className : String
  isMeta : Bool
  keyed : Bool
  code : M.CompiledCode obj header count
  two_le : 2 ≤ count
  selector_field : M.literalOfMethod obj (count - 2) = some selectorOop
  selector_eq : M.readSelector selectorOop = some selector
  association_field : M.literalOfMethod obj (count - 1) = some association
  pointers : M.isPointerObject association = true
  slots : M.numSlots association = some 2
  key_field : M.literalField association 0 = some key
  key_eq : M.readClassName key = if keyed then some className else none
  value_field : M.literalField association 1 = some value
  value_eq : if isMeta then M.Metaclass value className else M.ClassObject value className
  reads : M.Reads

/-- `obj` is nested `n` blocks deep in the home method, each block with at
least `least` literals. -/
inductive NestedIn (least home : UInt64) : Nat → UInt64 → Prop
  | home : NestedIn least home 0 home
  | block {n : Nat} {outer obj header count : UInt64} (code : M.CompiledCode obj header count)
      (least_le : least ≤ count) (outerCode : M.literalOfMethod obj (count - 1) = some outer)
      (nested : NestedIn least home n outer) : NestedIn least home (n + 1) obj

variable {M}

/-- The class name a block of the home method is to be labelled with. -/
def HomeMethod.label (H : M.HomeMethod) : String :=
  if H.isMeta then H.className ++ " class" else H.className

/-- The block is few enough calls away from the home method for the class name:
the value of the association is two calls further on, a metaclass's class
three. The key is one call further on, but is not where a metaclass's own name
is. -/
def HomeMethod.Reached (H : M.HomeMethod) (n : Nat) : Prop :=
  if H.isMeta then H.keyed = false ∧ n ≤ 1 else n ≤ if H.keyed then 3 else 2

instance instDecidableReached (H : M.HomeMethod) (n : Nat) : Decidable (H.Reached n) :=
  inferInstanceAs (Decidable (if H.isMeta then H.keyed = false ∧ n ≤ 1 else n ≤ if H.keyed then 3 else 2))

/-! ## The class -/

theorem ClassObject.found {name : String} (h : M.ClassObject oop name) (left : Nat) :
    M.classNameFromClassObject (left + 1) oop = some name := by
  obtain ⟨slots, hslots, hlt⟩ := h.slots
  simp [classNameFromClassObject, h.pointers, hslots, hlt, h.name_eq]

/-- A class has more slots than a metaclass. -/
theorem Metaclass.ne {name : String} (h : M.Metaclass oop name) {thisClass : UInt64}
    (hclass : M.ClassObject thisClass name) : thisClass ≠ oop := by
  rintro rfl
  obtain ⟨slots, hslots, hlt⟩ := hclass.slots
  rw [h.slots] at hslots
  cases hslots
  exact absurd hlt (by decide)

theorem Metaclass.found {name : String} (h : M.Metaclass oop name) (left : Nat) :
    M.classNameFromClassObject (left + 2) oop = some (name ++ " class") := by
  obtain ⟨thisClass, hfield, hclass⟩ := h.thisClass
  have hne := h.ne hclass
  have hfound := hclass.found left
  rw [classNameFromClassObject]
  simp [h.pointers, h.slots, hfield, hne, hfound]

namespace HomeMethod

variable (H : M.HomeMethod)

theorem value_pointers : M.isPointerObject H.value = true := by
  have h := H.value_eq
  split at h
  · exact h.pointers
  · exact h.pointers

/-- Taken for a class, the association gives what its key reads as. -/
theorem association_asClass (left : Nat) :
    M.classNameFromClassObject (left + 1) H.association = M.readClassName H.key := by
  have hscan : List.range (min 2 maxClassObjectScan).toNat = [0, 1] := by decide
  have hvalue := readClassName_of_pointers H.reads H.value_pointers
  rw [classNameFromClassObject]
  cases hkey : M.readClassName H.key <;>
    simp [H.pointers, H.slots, hscan, H.key_field, H.value_field, hkey, hvalue]

/-- The association is taken for a class, then its value, and then its key is read. -/
theorem association_literal {left : Nat} {name : String}
    (h : (M.classNameFromClassObject left H.association).or
      ((M.classNameFromClassObject left H.value).or (M.readClassName H.key)) = some name) :
    M.classNameFromMethodLiteral (left + 1) H.association = some name := by
  have hheap := isHeapObject_of_pointers H.pointers
  have hnil := ne_nilObject hheap
  have hpointers := H.pointers
  have hbytes := not_isWordsOrBytes_of_pointers hpointers
  rw [classNameFromMethodLiteral]
  cases hclass : M.classNameFromClassObject left H.association with
  | some found => simp_all
  | none =>
    cases hvalue : M.classNameFromClassObject left H.value <;>
      simp_all [H.slots, H.value_field, H.key_field]

/-- A key that is the class's name is found with the calls used up. -/
theorem association_keyed (hkey : M.readClassName H.key = some H.className) (left : Nat) :
    M.classNameFromMethodLiteral (left + 1) H.association = some H.className := by
  apply H.association_literal
  cases left with
  | zero => simp [classNameFromClassObject, hkey]
  | succ left => simp [H.association_asClass, hkey]

/-- Past a key that reads as no class name, the value is asked. -/
theorem association_valued (hkey : M.readClassName H.key = none) {left : Nat} {name : String}
    (hvalue : M.classNameFromClassObject left H.value = some name) :
    M.classNameFromMethodLiteral (left + 1) H.association = some name := by
  apply H.association_literal
  cases left with
  | zero => simp [classNameFromClassObject] at hvalue
  | succ left => simp [H.association_asClass, hkey, hvalue]

end HomeMethod

/-! ## The climb -/

section Climb

variable {obj header count : UInt64}

/-- What the last literal gives is the answer. -/
theorem CompiledCode.classNameOf (h : M.CompiledCode obj header count) (hcount : 1 ≤ count)
    {left : Nat} {literal : UInt64} (hliteral : M.literalOfMethod obj (count - 1) = some literal)
    {name : String}
    (hfound : (if M.isCompiledMethod literal then
        (M.methodHeaderOf literal).bind fun nestedHeader => M.classNameOfMethod left literal nestedHeader
      else none).or (M.classNameFromMethodLiteral left literal) = some name) :
    M.classNameOfMethod (left + 1) obj header = some name := by
  have hne : count ≠ 0 := by
    rintro rfl
    exact absurd hcount (by decide)
  obtain ⟨scanned, hscan⟩ :
      ∃ scanned, (count - saturatingSub count maxClassLiteralScan).toNat = scanned + 1 := by
    have hone : 1 ≤ count.toNat := UInt64.le_iff_toNat_le.mp hcount
    have hlimit : maxClassLiteralScan.toNat = 4 := rfl
    have hle : saturatingSub count maxClassLiteralScan ≤ count := by
      rw [UInt64.le_iff_toNat_le, saturatingSub_toNat]
      omega
    refine ⟨(count - saturatingSub count maxClassLiteralScan).toNat - 1, ?_⟩
    rw [UInt64.toNat_sub_of_le _ _ hle, saturatingSub_toNat]
    omega
  rw [classNameOfMethod]
  simp [h.compiled, h.count_eq, hne, hscan, List.range_succ_eq_map, hliteral, hfound]

/-- A name found in the outer code is the block's. -/
theorem CompiledCode.classNameOf_nested (h : M.CompiledCode obj header count) (hcount : 1 ≤ count)
    {left : Nat} {outer outerHeader outerCount : UInt64}
    (hliteral : M.literalOfMethod obj (count - 1) = some outer)
    (houter : M.CompiledCode outer outerHeader outerCount) {name : String}
    (hfound : M.classNameOfMethod left outer outerHeader = some name) :
    M.classNameOfMethod (left + 1) obj header = some name := by
  refine h.classNameOf hcount hliteral ?_
  simp [houter.compiled, houter.header_eq, hfound]

theorem CompiledCode.selectorOf_nested (h : M.CompiledCode obj header count) (hcount : 2 ≤ count)
    {left : Nat} {outer outerHeader outerCount : UInt64}
    (hliteral : M.literalOfMethod obj (count - 1) = some outer)
    (houter : M.CompiledCode outer outerHeader outerCount) {selector : String}
    (hfound : M.maybeSelectorOfMethod left outer outerHeader = some selector) :
    M.maybeSelectorOfMethod (left + 1) obj header = some selector := by
  have hlt : ¬count < 2 := UInt64.not_lt.mpr hcount
  rw [maybeSelectorOfMethod]
  simp [h.compiled, h.count_eq, hlt, hliteral, houter.compiled, houter.header_eq, hfound]

end Climb

namespace HomeMethod

variable (H : M.HomeMethod)

theorem selectorOf (left : Nat) :
    M.maybeSelectorOfMethod (left + 1) H.obj H.header = some H.selector := by
  have hlt : ¬H.count < 2 := UInt64.not_lt.mpr H.two_le
  have hbytes : M.isWordsOrBytes H.selectorOop = true := by
    have hread := H.selector_eq
    unfold readSelector at hread
    split at hread
    · cases hread
    · exact isWordsOrBytes_of_readByteObject H.reads hread
  rw [maybeSelectorOfMethod]
  simp [H.code.compiled, H.code.count_eq, hlt, H.association_field,
    not_isCompiledMethod_of_pointers H.pointers, H.selector_field, hbytes, H.selector_eq]

theorem Reached.le {H : M.HomeMethod} {n : Nat} (h : H.Reached n) : n ≤ 3 := by
  unfold Reached at h
  split at h
  · omega
  · split at h <;> omega

theorem classNameOf {left : Nat} {name : String}
    (hfound : M.classNameFromMethodLiteral left H.association = some name) :
    M.classNameOfMethod (left + 1) H.obj H.header = some name := by
  have hone : 1 ≤ H.count := le_trans (by decide) H.two_le
  refine H.code.classNameOf hone H.association_field ?_
  simp [not_isCompiledMethod_of_pointers H.pointers, hfound]

/-- Within reach, the calls left at the home method get to its class. -/
theorem classNameOf_reached {n : Nat} (h : H.Reached n) :
    M.classNameOfMethod (maxClassNameDepth + 1 - n) H.obj H.header = some H.label := by
  have hkey := H.key_eq
  have hvalue := H.value_eq
  unfold Reached at h
  unfold label
  cases hmeta : H.isMeta with
  | false =>
    simp only [hmeta, Bool.false_eq_true, if_false] at h hvalue ⊢
    cases hkeyed : H.keyed with
    | false =>
      simp only [hkeyed, Bool.false_eq_true, if_false] at h hkey
      have hleft : maxClassNameDepth + 1 - n = 2 - n + 1 + 1 + 1 := by unfold maxClassNameDepth; omega
      rw [hleft]
      exact H.classNameOf (H.association_valued hkey (hvalue.found _))
    | true =>
      simp only [hkeyed, if_true] at h hkey
      have hleft : maxClassNameDepth + 1 - n = 3 - n + 1 + 1 := by unfold maxClassNameDepth; omega
      rw [hleft]
      exact H.classNameOf (H.association_keyed hkey _)
  | true =>
    simp only [hmeta, if_true] at h hvalue ⊢
    obtain ⟨hkeyed, hn⟩ := h
    simp only [hkeyed, Bool.false_eq_true, if_false] at hkey
    have hleft : maxClassNameDepth + 1 - n = 1 - n + 2 + 1 + 1 := by unfold maxClassNameDepth; omega
    rw [hleft]
    exact H.classNameOf (H.association_valued hkey (hvalue.found _))

end HomeMethod

variable {least home : UInt64} {n : Nat} {block : UInt64}

theorem NestedIn.mono {fewer : UInt64} (hle : fewer ≤ least) (h : M.NestedIn least home n block) :
    M.NestedIn fewer home n block := by
  induction h with
  | home => exact .home
  | block code least_le outerCode _ ih => exact .block code (le_trans hle least_le) outerCode ih

theorem NestedIn.code (H : M.HomeMethod) (h : M.NestedIn least H.obj n block) :
    ∃ header count, M.CompiledCode block header count := by
  cases h with
  | home => exact ⟨_, _, H.code⟩
  | block code => exact ⟨_, _, code⟩

/-- Each block takes one call. -/
theorem NestedIn.classNameOf (H : M.HomeMethod) (h : M.NestedIn 1 H.obj n block) {left : Nat} {name : String}
    (hhome : M.classNameOfMethod left H.obj H.header = some name) {header : UInt64}
    (hheader : M.methodHeaderOf block = some header) :
    M.classNameOfMethod (left + n) block header = some name := by
  induction h generalizing header with
  | home =>
    rw [H.code.header_eq] at hheader
    cases hheader
    exact hhome
  | block code least_le outerCode nested ih =>
    obtain ⟨outerHeader, _, outer⟩ := nested.code H
    rw [code.header_eq] at hheader
    cases hheader
    exact code.classNameOf_nested least_le outerCode outer (ih outer.header_eq)

theorem NestedIn.selectorOf (H : M.HomeMethod) (h : M.NestedIn 2 H.obj n block) (left : Nat) {header : UInt64}
    (hheader : M.methodHeaderOf block = some header) :
    M.maybeSelectorOfMethod (left + 1 + n) block header = some H.selector := by
  induction h generalizing header with
  | home =>
    rw [H.code.header_eq] at hheader
    cases hheader
    exact H.selectorOf left
  | block code least_le outerCode nested ih =>
    obtain ⟨outerHeader, _, outer⟩ := nested.code H
    rw [code.header_eq] at hheader
    cases hheader
    exact code.selectorOf_nested least_le outerCode outer (ih outer.header_eq)

/-- The innermost block has the label of its home method while the climb to it
leaves calls enough: the class name within `Reached`, the selector up to four
blocks deep if each block has a literal besides its outer code. -/
theorem innermost_labelled (H : M.HomeMethod) (h : M.NestedIn 1 H.obj n block) {header : UInt64}
    (hheader : M.methodHeaderOf block = some header) :
    (H.Reached n → M.classNameOfMethod (maxClassNameDepth + 1) block header = some H.label) ∧
      (n ≤ 4 → M.NestedIn 2 H.obj n block →
        M.maybeSelectorOfMethod (maxClassNameDepth + 1) block header = some H.selector) := by
  constructor
  · intro hreached
    have hn : maxClassNameDepth + 1 - n + n = maxClassNameDepth + 1 := by
      have := hreached.le
      unfold maxClassNameDepth
      omega
    rw [← hn]
    exact h.classNameOf H (H.classNameOf_reached hreached) hheader
  · intro hn h2
    have hleft : maxClassNameDepth + 1 = 4 - n + 1 + n := by
      unfold maxClassNameDepth
      omega
    rw [hleft]
    exact h2.selectorOf H (4 - n) hheader

/-! ### Five blocks deep -/

/-- The block `n` deep of `blockImage`; 0 is the home method. -/
def blockAt (n : Nat) : UInt64 := 0x1000 + 0x100 * UInt64.ofNat n

/-- A method `run` of `Foo` or `Foo class` with five blocks in one another, and at
0x2000 a block of it that has no literal but its outer code. -/
def blockImage (keyed isMeta : Bool) : Memory :=
  let blocks := (List.range 5).flatMap fun n =>
    [(blockAt (n + 1), 0x0300000018000000), (blockAt (n + 1) + 8, 0x11), (blockAt (n + 1) + 16, nilObject),
      (blockAt (n + 1) + 24, blockAt n)]
  .ofWords ([
    (0x100, 0x0100000015000000), (0x108, 0x6f6f46),
    (0x200, 0x0700000001000000), (0x238, 0x100),
    (0x300, 0x0600000001000000), (0x330, 0x200),
    (0x400, 0x0200000001000000), (0x408, if keyed then 0x100 else nilObject),
    (0x410, if isMeta then 0x300 else 0x200),
    (0x500, 0x0100000015000000), (0x508, 0x6e7572),
    (0x1000, 0x0300000018000000), (0x1008, 0x11), (0x1010, 0x500), (0x1018, 0x400),
    (0x2000, 0x0200000018000000), (0x2008, 0x9), (0x2010, 0x1000)] ++ blocks)

theorem blockImage_class (keyed isMeta : Bool) : (blockImage keyed isMeta).ClassObject 0x200 "Foo" where
  pointers := by revert keyed isMeta; decide +kernel
  slots := ⟨7, by revert keyed isMeta; decide +kernel, by decide⟩
  name_eq := by revert keyed isMeta; decide +kernel

theorem blockImage_code (keyed isMeta : Bool) {n : Nat} (hn : n < 6) :
    (blockImage keyed isMeta).CompiledCode (blockAt n) 0x11 2 where
  compiled := by revert keyed isMeta n; decide +kernel
  header_eq := by revert keyed isMeta n; decide +kernel
  count_eq := by revert keyed isMeta n; decide +kernel

def blockImageHome (keyed isMeta : Bool) : (blockImage keyed isMeta).HomeMethod where
  obj := 0x1000
  header := 0x11
  count := 2
  selectorOop := 0x500
  association := 0x400
  key := if keyed then 0x100 else nilObject
  value := if isMeta then 0x300 else 0x200
  selector := "run"
  className := "Foo"
  isMeta := isMeta
  keyed := keyed
  code := blockImage_code keyed isMeta (n := 0) (by decide)
  two_le := by decide
  selector_field := by revert keyed isMeta; decide +kernel
  selector_eq := by revert keyed isMeta; decide +kernel
  association_field := by revert keyed isMeta; decide +kernel
  pointers := by revert keyed isMeta; decide +kernel
  slots := by revert keyed isMeta; decide +kernel
  key_field := by revert keyed isMeta; decide +kernel
  key_eq := by revert keyed isMeta; decide +kernel
  value_field := by revert keyed isMeta; decide +kernel
  value_eq := by
    cases isMeta with
    | false => exact blockImage_class keyed false
    | true =>
      refine ⟨?_, ?_, 0x200, ?_, blockImage_class keyed true⟩ <;> revert keyed <;> decide +kernel
  reads := reads_ofWords _

theorem blockImage_nested (keyed isMeta : Bool) {n : Nat} (hn : n ≤ 5) :
    (blockImage keyed isMeta).NestedIn 2 0x1000 n (blockAt n) := by
  induction n with
  | zero => exact .home
  | succ n ih =>
    refine .block (blockImage_code keyed isMeta (by omega)) (by decide) ?_ (ih (by omega))
    have houter : ∀ keyed isMeta, ∀ n < 5,
        (blockImage keyed isMeta).literalOfMethod (blockAt (n + 1)) (2 - 1) = some (blockAt n) := by
      decide +kernel
    exact houter keyed isMeta n (by omega)

theorem innermost_labelled_blockImage :
    let M := blockImage false true
    M.classNameOfMethod (maxClassNameDepth + 1) (blockAt 1) 0x11 = some "Foo class" ∧
      M.maybeSelectorOfMethod (maxClassNameDepth + 1) (blockAt 1) 0x11 = some "run" :=
  have hnested := blockImage_nested false true (n := 1) (by decide)
  have hlabels := innermost_labelled (blockImageHome false true) (hnested.mono (by decide))
    (blockImage_code false true (n := 1) (by decide)).header_eq
  ⟨hlabels.1 (by decide), hlabels.2 (by decide) hnested⟩

/-- One block further than `Reached` the class name is lost. -/
theorem blockImage_classNames (keyed isMeta : Bool) :
    let n := if isMeta then if keyed then 0 else 2 else if keyed then 4 else 3
    (blockImage keyed isMeta).classNameOfMethod (maxClassNameDepth + 1) (blockAt n) 0x11 ≠
      some (blockImageHome keyed isMeta).label := by
  revert keyed isMeta
  decide +kernel

/-- So is the selector five blocks deep, and in a block with one literal. -/
theorem blockImage_selectors :
    (blockImage false false).maybeSelectorOfMethod (maxClassNameDepth + 1) (blockAt 5) 0x11 = none ∧
      (blockImage false false).maybeSelectorOfMethod (maxClassNameDepth + 1) 0x2000 0x9 = none := by
  decide +kernel

theorem innermost_unlabelled :
    (¬∀ (M : Memory) (H : M.HomeMethod) (n : Nat) (block header : UInt64), M.NestedIn 1 H.obj n block →
      M.methodHeaderOf block = some header →
      M.classNameOfMethod (maxClassNameDepth + 1) block header = some H.label) ∧
    ¬∀ (M : Memory) (H : M.HomeMethod) (n : Nat) (block header : UInt64), M.NestedIn 1 H.obj n block →
      M.methodHeaderOf block = some header →
      M.maybeSelectorOfMethod (maxClassNameDepth + 1) block header = some H.selector := by
  have hnested {n : Nat} (hn : n ≤ 5) : (blockImage false false).NestedIn 1 0x1000 n (blockAt n) :=
    (blockImage_nested false false hn).mono (by decide)
  constructor
  · intro h
    exact blockImage_classNames false false
      (h _ (blockImageHome false false) 3 _ _ (hnested (by decide)) (blockImage_code _ _ (by decide)).header_eq)
  · intro h
    have hfound := h _ (blockImageHome false false) 5 _ _ (hnested (by decide))
      (blockImage_code _ _ (by decide)).header_eq
    rw [blockImage_selectors.1] at hfound
    cases hfound

end Memory

end StSpy
