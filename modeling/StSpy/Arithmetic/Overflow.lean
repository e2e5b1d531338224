import StSpy.Arithmetic
import StSpy.Arithmetic.InRange

/-!
# Which arithmetic can overflow

Each traced function computes what the model of it does, and its operations fit
exactly when the words that it takes for addresses are in range: every other
operation is guarded by a check or by an earlier read.
-/

namespace StSpy

namespace Arithmetic

open Logged

/-- `x` computes `a`, and its operations fit exactly if `P` holds. -/
abbrev Sound {α : Type} (x : Run α) (a : α) (P : Prop) : Prop := Computes Operation.Fits x a P

/-- `x` computes `a`, and all its operations fit. -/
abbrev Safe {α : Type} (x : Run α) (a : α) : Prop := Sound x a True

variable {M : Memory} {oop : UInt64}

/-! ## Operations -/

theorem sound_add (a b : UInt64) : Sound (add a b) (a + b) (a.toNat + b.toNat < 2 ^ 64) :=
  ⟨rfl, by simp [add, note, bind, pure, Operation.Fits]⟩

theorem safe_add {a b : UInt64} (h : a.toNat + b.toNat < 2 ^ 64) : Safe (add a b) (a + b) :=
  (sound_add a b).congr (iff_true_intro h)

theorem safe_sub {a b : UInt64} (h : b ≤ a) : Safe (sub a b) (a - b) :=
  ⟨rfl, by simpa [sub, note, bind, pure, Operation.Fits] using h⟩

/-- Where the address of a slot fits, both sums and the product do. -/
theorem sound_fieldAddr (oop offset : UInt64) :
    Sound (fieldAddr oop offset) (oop + baseHeaderSize + offset * wordSize) (SlotInRange oop offset) := by
  refine ⟨rfl, ?_⟩
  have h8 : baseHeaderSize.toNat = 8 := rfl
  have hw : wordSize.toNat = 8 := rfl
  simp [fieldAddr, add, mul, note, bind, pure, Operation.Fits, SlotInRange, h8, hw, UInt64.toNat_add,
    UInt64.toNat_mul]
  omega

theorem sound_contextMethodAddr (context : UInt64) :
    Sound (contextMethodAddr context) (context + baseHeaderSize + 3 * wordSize) (SlotInRange context 3) :=
  sound_fieldAddr context 3

/-! ## The heap -/

theorem safe_formatOf (M : Memory) (oop : UInt64) : Safe (formatOf M oop).run (M.formatOf oop) := by
  unfold formatOf Memory.formatOf
  refine .iteRun_free (fun hheap => ?_) fun _ => .failure
  obtain ⟨haligned, _⟩ := toNat_of_isHeapObject hheap
  have hlt := oop.toNat_lt
  have hoffset : formatFieldByteOffset.toNat = 3 := rfl
  refine .lift_first (safe_add (by omega)) ?_
  rw [Option.map_eq_bind]
  exact .attempt_first (.given _) fun byte _ => .succeed _

theorem safe_isCompiledMethod (M : Memory) (oop : UInt64) : Safe (isCompiledMethod M oop) (M.isCompiledMethod oop) :=
  (safe_formatOf M oop).bind_first (.pure _)

theorem safe_isWordsOrBytes (M : Memory) (oop : UInt64) : Safe (isWordsOrBytes M oop) (M.isWordsOrBytes oop) :=
  (safe_formatOf M oop).bind_first (.pure _)

theorem safe_isPointerObject (M : Memory) (oop : UInt64) : Safe (isPointerObject M oop) (M.isPointerObject oop) :=
  (safe_formatOf M oop).bind_first (.pure _)

theorem safe_numSlots (M : Memory) (oop : UInt64) : Safe (numSlots M oop).run (M.numSlots oop) := by
  unfold numSlots Memory.numSlots
  refine .iteRun_free (fun hheap => ?_) fun _ => .failure
  obtain ⟨haligned, hpositive⟩ := toNat_of_isHeapObject hheap
  have hlt := oop.toNat_lt
  have hoffset : numSlotsFieldByteOffset.toNat = 7 := rfl
  refine .lift_first (safe_add (by omega)) ?_
  refine .attempt_first (.given _) fun slots _ => ?_
  refine .iteRun_free (fun _ => ?_) fun _ => .succeed _
  refine .lift_first (safe_sub (UInt64.le_iff_toNat_le.mpr hpositive)) ?_
  exact .attempt_first (.given _) fun longHeader _ => .succeed _

theorem isSome_bind_imp {α β : Type} {a : Option α} {f : α → Option β} {R : Prop} :
    ((a >>= f).isSome → R) ↔ ∀ v, a = some v → (f v).isSome → R := by
  cases a <;> simp

theorem isSome_ite_imp {α : Type} {c : Prop} [Decidable c] {a : Option α} {R : Prop} :
    ((if c then a else none).isSome → R) ↔ (c → a.isSome → R) := by
  split <;> simp [*]

theorem isSome_ite_some_imp {α : Type} {c : Prop} [Decidable c] {a : α} {R : Prop} :
    ((if c then none else some a).isSome → R) ↔ (¬c → R) := by
  split <;> simp [*]

theorem byteObjectInRange_iff : ByteObjectInRange M oop ↔ (isHeapObject oop →
    ∀ header, M.copy oop baseHeaderSize.toNat = some header →
    ∀ format, header[formatFieldByteOffset.toNat]?.map (· &&& formatMask) = some format →
    firstByteFormat ≤ format ∧ format < firstCompiledMethodFormat →
    ∀ slots, M.numSlots oop = some slots → ∀ words, checkedMul slots wordSize = some words →
    ∀ byteSize, checkedSub words (format &&& 7).toUInt64 = some byteSize → ¬(byteSize = 0 ∨ byteSize > 512) →
      oop.toNat + 8 < 2 ^ 64) := by
  unfold ByteObjectInRange bodySize
  simp only [isSome_ite_imp, isSome_bind_imp, isSome_ite_some_imp]

theorem sound_readByteObject (M : Memory) (oop : UInt64) :
    Sound (readByteObject M oop).run (M.readByteObject oop) (ByteObjectInRange M oop) := by
  rw [byteObjectInRange_iff]
  unfold readByteObject Memory.readByteObject
  refine .iteRun_then (fun _ => ?_) fun _ => .failure
  refine .attempt_second (.given _) fun header _ => ?_
  refine .attempt_second (.given _) fun format _ => ?_
  refine .iteRun_then (fun _ => ?_) fun _ => .failure
  refine .attempt_second (safe_numSlots M oop) fun slots _ => ?_
  refine .attempt_second (.given _) fun words _ => ?_
  refine .attempt_second (.given _) fun byteSize _ => ?_
  refine .iteRun_else (fun _ => .failure) fun _ => ?_
  refine .lift_first (sound_add oop baseHeaderSize) ?_
  refine .attempt_first (.given _) fun bytes _ => ?_
  exact .iteRun_free (fun _ => .succeed _) fun _ => .failure

theorem sound_readSelector (M : Memory) (oop : UInt64) :
    Sound (readSelector M oop).run (M.readSelector oop) (SelectorInRange M oop) :=
  .iteRun_else (fun _ => .failure) fun _ => sound_readByteObject M oop

theorem sound_literalField (M : Memory) (oop offset : UInt64) :
    Sound (literalField M oop offset).run (M.literalField oop offset) (SlotInRange oop offset) :=
  .lift_first (sound_fieldAddr oop offset) (.given _)

theorem sound_literalOfMethod {methodObj offset : UInt64} (hoffset : offset.toNat + 1 < 2 ^ 64) :
    Sound (literalOfMethod M methodObj offset).run (M.literalOfMethod methodObj offset)
      (LiteralInRange methodObj offset) :=
  .lift_second (safe_add hoffset) (sound_literalField M methodObj _)

theorem sound_methodHeaderOf (M : Memory) (methodObj : UInt64) :
    Sound (methodHeaderOf M methodObj).run (M.methodHeaderOf methodObj) (MethodHeaderInRange M methodObj) := by
  refine .attempt (sound_literalField M methodObj headerIndex) fun header _ => ?_
  refine .iteRun_else (fun _ => .succeed _) fun _ => ?_
  exact .lift_first (sound_add header cogMethodMethodHeaderOffset) (.given _)

theorem sound_literalCountOfMethod (M : Memory) (methodObj methodHeader : UInt64) :
    Sound (literalCountOfMethod M methodObj methodHeader).run (M.literalCountOfMethod methodObj methodHeader)
      (LiteralCountInRange M methodObj methodHeader) := by
  unfold literalCountOfMethod Memory.literalCountOfMethod
  refine .iteRun_else (fun _ => ?_) fun _ => ?_
  · exact .succeed _
  · exact .attempt_first (sound_methodHeaderOf M methodObj) fun header _ => .succeed _

theorem sound_penultimateSelector (M : Memory) (methodObj penultimateLiteral : UInt64) :
    Sound (penultimateSelector M methodObj penultimateLiteral).run
      (if M.isWordsOrBytes penultimateLiteral then M.readSelector penultimateLiteral
      else if M.isPointerObject penultimateLiteral then do
        let slots ← M.numSlots penultimateLiteral
        if slots ≥ 2 then
          let methodField ← M.literalField penultimateLiteral 0
          let maybeSelector ← M.literalField penultimateLiteral 1
          if methodField = methodObj ∧ M.isWordsOrBytes maybeSelector then M.readSelector maybeSelector else none
        else none
      else none)
      (PenultimateInRange M methodObj penultimateLiteral) := by
  refine .lift_second (safe_isWordsOrBytes M penultimateLiteral) ?_
  refine .iteRun (fun _ => sound_readSelector M penultimateLiteral) fun _ => ?_
  refine .lift_second (safe_isPointerObject M penultimateLiteral) ?_
  refine .iteRun_then (fun _ => ?_) fun _ => .failure
  refine .attempt_second (safe_numSlots M penultimateLiteral) fun slots _ => ?_
  refine .iteRun_then (fun _ => ?_) fun _ => .failure
  refine .attempt (sound_literalField M penultimateLiteral 0) fun methodField _ => ?_
  refine .attempt (sound_literalField M penultimateLiteral 1) fun maybeSelector _ => ?_
  rw [ite_and]
  refine .iteRun_then (fun _ => ?_) fun _ => .failure
  refine .lift_second (safe_isWordsOrBytes M maybeSelector) ?_
  exact .iteRun_then (fun _ => sound_readSelector M maybeSelector) fun _ => .failure

theorem sound_maybeSelectorOfMethod (M : Memory) (left : Nat) (methodObj methodHeader : UInt64) :
    Sound (maybeSelectorOfMethod M left methodObj methodHeader).run
      (M.maybeSelectorOfMethod left methodObj methodHeader) (MaybeSelectorInRange M left methodObj methodHeader) := by
  induction left generalizing methodObj methodHeader with
  | zero => exact .failure
  | succ left ih =>
    rw [maybeSelectorOfMethod, Memory.maybeSelectorOfMethod]
    refine .lift_second (safe_isCompiledMethod M methodObj) (.guardRun fun _ => ?_)
    refine .attempt (sound_literalCountOfMethod M methodObj methodHeader) fun literalCount _ => ?_
    refine .iteRun_else (fun _ => .failure) fun htwo => ?_
    have hcount : 2 ≤ literalCount.toNat := UInt64.le_iff_toNat_le.mp (not_lt.mp htwo)
    have hlt := literalCount.toNat_lt
    have hone : (literalCount - 1).toNat = literalCount.toNat - 1 :=
      UInt64.toNat_sub_of_le literalCount 1 (UInt64.le_iff_toNat_le.mpr (by show 1 ≤ _; omega))
    have htwo' : (literalCount - 2).toNat = literalCount.toNat - 2 :=
      UInt64.toNat_sub_of_le literalCount 2 (UInt64.le_iff_toNat_le.mpr (by show 2 ≤ _; omega))
    refine .lift_second (safe_sub (UInt64.le_iff_toNat_le.mpr (by show 1 ≤ _; omega))) ?_
    refine .attempt (sound_literalOfMethod (by omega)) fun ultimateLiteral _ => ?_
    have hpenultimate : Sound (do
        penultimateSelector M methodObj (← literalOfMethod M methodObj (← sub literalCount 2)) :
          Reading String).run _ (SelectorLiteralInRange M methodObj literalCount) :=
      .lift_second (safe_sub (UInt64.le_iff_toNat_le.mpr (by show 2 ≤ _; omega)))
        (.attempt (sound_literalOfMethod (by omega)) fun penultimateLiteral _ =>
          sound_penultimateSelector M methodObj penultimateLiteral)
    refine .lift_second (safe_isCompiledMethod M ultimateLiteral) ?_
    by_cases hnested : M.isCompiledMethod ultimateLiteral = true
    · simp only [hnested, if_true]
      refine .attempt (sound_methodHeaderOf M ultimateLiteral) fun nestedHeader _ => ?_
      have hsound := (ih ultimateLiteral nestedHeader).orElse fun _ => hpenultimate
      cases hselector : M.maybeSelectorOfMethod left ultimateLiteral nestedHeader with
      | none =>
        rw [hselector] at hsound
        exact hsound
      | some selector =>
        rw [hselector] at hsound
        exact hsound
    · simp only [if_neg hnested]
      exact hpenultimate

/-! ### Class names -/

theorem sound_readClassName (M : Memory) (oop : UInt64) :
    Sound (readClassName M oop).run (M.readClassName oop) (ByteObjectInRange M oop) :=
  .keep (sound_readByteObject M oop)

theorem sound_fieldClassName (M : Memory) (oop offset : UInt64) :
    Sound (fieldClassName M oop offset).run (fieldName M oop offset) (FieldNameInRange M oop offset) :=
  .attempt (sound_literalField M oop offset) fun field _ => sound_readClassName M field

/-- The early returns of `class_name_from_class_object` as alternatives. -/
theorem classNameFromClassObject_succ (M : Memory) (left : Nat) (oop : UInt64) :
    M.classNameFromClassObject (left + 1) oop =
      if !M.isPointerObject oop then none
      else M.numSlots oop >>= fun slots =>
        ownName M oop slots <|> thisClassName M left oop slots <|>
          (List.range (min slots maxClassObjectScan).toNat).findSome? (otherName M oop) := by
  rw [Memory.classNameFromClassObject]
  refine if_congr Iff.rfl rfl (bind_congr fun slots => ?_)
  have hothers : (List.range (min slots maxClassObjectScan).toNat).findSome? (otherName M oop) =
      (List.range (min slots maxClassObjectScan).toNat).findSome? fun offset =>
        if offset = 5 ∨ offset = 6 then none
        else (M.literalField oop (UInt64.ofNat offset)).bind M.readClassName := rfl
  rw [← hothers]
  generalize (List.range (min slots maxClassObjectScan).toNat).findSome? _ = others
  simp only [ownName, fieldName, thisClassName]
  generalize (M.literalField oop 6).bind M.readClassName = name
  by_cases h6 : slots > 6 <;> by_cases h5 : slots > 5 <;> cases name <;> cases M.literalField oop 5 <;>
    simp only [h5, h6, if_true, if_false]
  all_goals first
    | rfl
    | rename_i thisClass
      by_cases hother : thisClass ≠ oop
      · simp only [if_pos hother, Option.bind_eq_bind, Option.bind_some]
        cases M.classNameFromClassObject left thisClass <;> rfl
      · simp only [if_neg hother, Option.bind_eq_bind, Option.bind_some]
        rfl

/-- The early returns of `class_name_from_method_literal` as alternatives. -/
theorem classNameFromMethodLiteral_succ (M : Memory) (left : Nat) (oop : UInt64) :
    M.classNameFromMethodLiteral (left + 1) oop =
      if oop = nilObject ∨ !isHeapObject oop then none
      else if M.isWordsOrBytes oop then M.readClassName oop
      else if !M.isPointerObject oop then none
      else M.classNameFromClassObject left oop <|> M.numSlots oop >>= fun slots =>
        bindingName M left oop slots <|>
          (List.range (min slots maxClassObjectScan).toNat).findSome? (nestedName M left oop) := by
  rw [Memory.classNameFromMethodLiteral]
  refine if_congr Iff.rfl rfl (if_congr Iff.rfl rfl (if_congr Iff.rfl rfl ?_))
  cases M.classNameFromClassObject left oop with
  | some className => rfl
  | none =>
    refine bind_congr fun slots => ?_
    have hnested : (List.range (min slots maxClassObjectScan).toNat).findSome? (nestedName M left oop) =
        (List.range (min slots maxClassObjectScan).toNat).findSome? fun offset =>
          (M.literalField oop (UInt64.ofNat offset)).bind fun field => M.classNameFromMethodLiteral left field := rfl
    rw [← hnested]
    generalize (List.range (min slots maxClassObjectScan).toNat).findSome? _ = nested
    simp only [bindingName, fieldName]
    by_cases h2 : slots ≥ 2
    · simp only [if_pos h2]
      cases M.literalField oop 1 with
      | none =>
        cases M.literalField oop 0 with
        | none => rfl
        | some key =>
          simp only [Option.bind_some, Option.bind_none]
          cases M.readClassName key <;> rfl
      | some value =>
        simp only [Option.bind_some]
        cases M.classNameFromClassObject left value with
        | some className => rfl
        | none =>
          cases M.literalField oop 0 with
          | none => rfl
          | some key =>
            simp only [Option.bind_some]
            cases M.readClassName key <;> rfl
    · simp only [if_neg h2]
      rfl

theorem sound_classNameFromClassObject (M : Memory) (left : Nat) (oop : UInt64) :
    Sound (classNameFromClassObject M left oop).run (M.classNameFromClassObject left oop)
      (ClassObjectInRange M left oop) := by
  induction left generalizing oop with
  | zero => exact .failure
  | succ left ih =>
    rw [classNameFromClassObject, classNameFromClassObject_succ]
    refine .lift_second (safe_isPointerObject M oop) (.guardRun fun _ => ?_)
    refine .attempt_second (safe_numSlots M oop) fun slots _ => ?_
    refine .orElse (.iteRun_then (fun _ => sound_fieldClassName M oop 6) fun _ => .failure) fun _ => ?_
    refine .orElse (.iteRun_then (fun _ => ?_) fun _ => .failure) fun _ => ?_
    · refine .attempt (sound_literalField M oop 5) fun thisClass _ => ?_
      refine .iteRun_then (fun _ => ?_) fun _ => .failure
      exact .attempt_first (ih thisClass) fun className _ => .succeed _
    · refine .findSomeM fun offset _ => ?_
      exact .ite_else (fun _ => .pure none) fun _ => sound_fieldClassName M oop _

theorem sound_classNameFromMethodLiteral (M : Memory) (left : Nat) (oop : UInt64) :
    Sound (classNameFromMethodLiteral M left oop).run (M.classNameFromMethodLiteral left oop)
      (MethodLiteralInRange M left oop) := by
  induction left generalizing oop with
  | zero => exact .failure
  | succ left ih =>
    rw [classNameFromMethodLiteral, classNameFromMethodLiteral_succ]
    refine .iteRun_else (fun _ => .failure) fun _ => ?_
    refine .lift_second (safe_isWordsOrBytes M oop) ?_
    refine .iteRun (fun _ => sound_readClassName M oop) fun _ => ?_
    refine .lift_second (safe_isPointerObject M oop) (.guardRun fun _ => ?_)
    refine .orElse (sound_classNameFromClassObject M left oop) fun _ => ?_
    refine .attempt_second (safe_numSlots M oop) fun slots _ => ?_
    refine .orElse (.iteRun_then (fun _ => ?_) fun _ => .failure) fun _ => ?_
    · refine .orElse ?_ fun _ => sound_fieldClassName M oop 0
      exact .attempt (sound_literalField M oop 1) fun value _ => sound_classNameFromClassObject M left value
    · refine .findSomeM fun offset _ => ?_
      exact .attempt (sound_literalField M oop _) fun field _ => ih field

/-- The scan of the last literals stays below their number. -/
theorem toNat_scanned {literalCount : UInt64} {back : Nat} (hne : literalCount ≠ 0)
    (hback : back < (literalCount - saturatingSub literalCount maxClassLiteralScan).toNat) :
    (literalCount - 1 - UInt64.ofNat back).toNat + 1 < 2 ^ 64 := by
  have hlt := literalCount.toNat_lt
  have hpositive : literalCount.toNat ≠ 0 := fun h0 => hne (UInt64.toNat_inj.mp h0)
  have hfirst := saturatingSub_toNat literalCount maxClassLiteralScan
  rw [UInt64.toNat_sub_of_le _ _ (UInt64.le_iff_toNat_le.mpr (by omega))] at hback
  have hone : (literalCount - 1).toNat = literalCount.toNat - 1 :=
    UInt64.toNat_sub_of_le literalCount 1 (UInt64.le_iff_toNat_le.mpr (by show 1 ≤ _; omega))
  have hofNat : (UInt64.ofNat back).toNat = back := UInt64.toNat_ofNat_of_lt' (by show back < 2 ^ 64; omega)
  rw [UInt64.toNat_sub_of_le _ _ (UInt64.le_iff_toNat_le.mpr (by omega))]
  omega

theorem sound_classNameOfMethod (M : Memory) (left : Nat) (methodObj methodHeader : UInt64) :
    Sound (classNameOfMethod M left methodObj methodHeader).run (M.classNameOfMethod left methodObj methodHeader)
      (MethodClassInRange M left methodObj methodHeader) := by
  induction left generalizing methodObj methodHeader with
  | zero => exact .failure
  | succ left ih =>
    rw [classNameOfMethod, Memory.classNameOfMethod]
    refine .lift_second (safe_isCompiledMethod M methodObj) (.guardRun fun _ => ?_)
    refine .attempt (sound_literalCountOfMethod M methodObj methodHeader) fun literalCount _ => ?_
    refine .iteRun_else (fun _ => .failure) fun hne => ?_
    refine .findSomeM fun back hback => ?_
    have hoffset := toNat_scanned hne (List.mem_range.mp hback)
    refine .attempt (sound_literalOfMethod hoffset) fun literal _ => ?_
    refine .orElse ?_ fun _ => sound_classNameFromMethodLiteral M left literal
    refine .lift_second (safe_isCompiledMethod M literal) (.iteRun_then (fun _ => ?_) fun _ => .failure)
    exact .attempt (sound_methodHeaderOf M literal) fun nestedHeader _ => ih literal nestedHeader

/-! ## CogMethods -/

theorem sound_cogSelector (M : Memory) (cmType : UInt8) (methodObject methodHeader selectorOop : UInt64) :
    Sound (cogSelector M cmType methodObject methodHeader selectorOop)
      (M.cogSelector cmType methodObject methodHeader selectorOop)
      (CogSelectorInRange M cmType methodObject methodHeader selectorOop) := by
  refine .keep (.orElse (sound_readSelector M selectorOop) fun _ => ?_)
  exact .iteRun_then (fun _ => sound_maybeSelectorOfMethod M _ methodObject methodHeader) fun _ => .failure

theorem sound_cogLabel (M : Memory) (cmType : UInt8) (methodObject methodHeader : UInt64) (selector : Option String) :
    Sound (cogLabel M cmType methodObject methodHeader selector)
      (M.cogLabel cmType methodObject methodHeader selector)
      (CogLabelInRange M cmType methodObject methodHeader selector) := by
  cases selector with
  | none => exact .pure _
  | some selector =>
    unfold cogLabel Memory.cogLabel
    refine .ite_else (fun _ => .pure _) fun _ => .ite_else (fun _ => .pure _) fun _ => ?_
    refine .ite_then (fun _ => ?_) fun _ => .pure _
    refine .bind_first (sound_classNameOfMethod M _ methodObject methodHeader) ?_
    cases M.classNameOfMethod (maxClassNameDepth + 1) methodObject methodHeader <;> exact .pure _

/-- Behind the check of its end, the other fields of a header are in the address space. -/
theorem sound_readCogMethodAt (M : Memory) (addr : UInt64) :
    Sound (readCogMethodAt M addr).run (M.readCogMethodAt addr) (CogMethodInRange M addr) := by
  unfold readCogMethodAt Memory.readCogMethodAt
  refine .lift (sound_add addr cogMethodBlockSizeOffset) ?_
  refine .attempt_second (.given _) fun blockSize _ => ?_
  refine .iteRun_then (fun hsize => ?_) fun _ => .failure
  refine .attempt_second (.given _) fun stop hstop => ?_
  have hfits : addr.toNat + 0x28 < 2 ^ 64 := by
    obtain ⟨sum, hsum, _⟩ := Option.bind_eq_some_iff.mp hstop
    have hle : 0x28 ≤ blockSize.toNat := UInt64.le_iff_toNat_le.mp hsize.1
    have := (checkedAdd_eq_some.mp hsum).1
    omega
  have h8 : cogMethodFlagsOffset.toNat = 8 := rfl
  have h10 : cogMethodMethodObjectOffset.toNat = 0x10 := rfl
  have h18 : cogMethodMethodHeaderOffset.toNat = 0x18 := rfl
  have h20 : cogMethodSelectorOffset.toNat = 0x20 := rfl
  refine .lift_second (safe_add (by omega)) (.attempt_second (.given _) fun flags _ => ?_)
  refine .lift_second (safe_add (by omega)) (.attempt_second (.given _) fun methodObject _ => ?_)
  refine .lift_second (safe_add (by omega)) (.attempt_second (.given _) fun methodHeader _ => ?_)
  refine .lift_second (safe_add (by omega)) (.attempt_second (.given _) fun selectorOop _ => ?_)
  refine .lift (sound_cogSelector M _ methodObject methodHeader selectorOop) ?_
  exact .lift_first (sound_cogLabel M _ methodObject methodHeader _) (.succeed _)

/-! ## The symbolizer -/

theorem sound_mapEnd (map : MapRange) : Sound (mapEnd map) (map.start + map.size) (MapInRange map) :=
  sound_add map.start map.size

theorem sound_pcLooksLikeCogCode (s : Symbolizer) (pc : UInt64) :
    Sound (pcLooksLikeCogCode s pc) (s.pcLooksLikeCogCode pc) (CogCodeInRange s pc) := by
  have hnear : s.pcLooksLikeCogCode pc = if nearMethodZone s pc then true else
      s.maps.any fun map => Symbolizer.inMap pc map && map.isExec && map.filename.isNone := by
    unfold Symbolizer.pcLooksLikeCogCode nearMethodZone
    simp only
    generalize (s.methodZoneBounds.any _ || _) = near
    cases near <;> rfl
  rw [hnear]
  refine .ite_else (fun _ => .pure true) fun _ => .anyM fun map _ => ?_
  exact (sound_mapEnd map).bind_first (.pure _)

theorem sound_genericCogCodeName (s : Symbolizer) (pc : UInt64) :
    Sound (genericCogCodeName s pc) (s.genericCogCodeName pc) (CogCodeInRange s pc) := by
  refine (sound_pcLooksLikeCogCode s pc).bind_first ?_
  exact .ite_free (fun _ => .pure _) fun _ => .pure _

theorem sound_lookupJitEntrySymbol (s : Symbolizer) (pc : UInt64) :
    Sound (lookupJitEntrySymbol s pc) (s.lookupJitEntrySymbol pc) (EntryLookupInRange s pc) := by
  unfold lookupJitEntrySymbol Symbolizer.lookupJitEntrySymbol EntryLookupInRange
  cases Symbolizer.partitionPoint (fun entry => entry.address ≤ pc) s.jitEntrySymbols with
  | zero => exact .pure none
  | succ index =>
    simp only
    cases s.jitEntrySymbols[index]? with
    | none => exact (Computes.pure none).congr (by simp)
    | some entry =>
      simp only [Option.bind_eq_bind, Option.bind_some, Option.some.injEq, forall_eq', ite_and, and_imp]
      refine .ite_then (fun hfrom => ?_) fun _ => .pure none
      refine .ite_then (fun _ => ?_) fun _ => .pure none
      refine .bind_second (safe_sub hfrom) (.ite_then (fun _ => ?_) fun _ => .pure none)
      refine (sound_pcLooksLikeCogCode s pc).bind_first ?_
      exact .ite_free (fun _ => .pure _) fun _ => .pure none

theorem sound_scanBounds (s : Symbolizer) (pc : UInt64) :
    Sound (scanBounds s pc) (s.scanBounds pc) (ScanBoundsInRange s pc) := by
  unfold scanBounds Symbolizer.scanBounds
  have hsearch : Sound (s.maps.findM? fun map => do
      if map.start ≤ pc then return pc < (← mapEnd map) else return false)
      (s.maps.find? (Symbolizer.inMap pc)) (ScanBoundsInRange s pc) := by
    refine .findM fun map _ => ?_
    rw [Symbolizer.inMap]
    by_cases hfrom : map.start ≤ pc
    · rw [if_pos hfrom, decide_eq_true hfrom, Bool.true_and]
      exact Computes.congr (P := MapInRange map) ((sound_mapEnd map).bind_first (.pure _)) (by simp [hfrom])
    · rw [if_neg hfrom, decide_eq_false hfrom, Bool.false_and]
      exact (Computes.pure false).congr (by simp [hfrom])
  -- the end of the mapping found has been computed before
  have hfound : ScanBoundsInRange s pc → ∀ map, s.maps.find? (Symbolizer.inMap pc) = some map → MapInRange map := by
    intro hrange map hfound
    have hin := List.find?_some hfound
    simp only [Symbolizer.inMap, Bool.and_eq_true, decide_eq_true_eq] at hin
    exact hrange map (searched_of_find? hfound) hin.1
  refine hsearch.bind_implied ?_ hfound
  cases s.maps.find? (Symbolizer.inMap pc) with
  | none => exact (Computes.pure _).congr (by simp)
  | some map => exact Computes.congr (P := MapInRange map) ((sound_mapEnd map).bind_first (.pure _)) (by simp)

theorem sound_readCogMethod (M : Memory) (addr pc : UInt64) :
    Sound (readCogMethod M addr pc).run (Symbolizer.readCogMethod M addr pc) (CogMethodInRange M addr) := by
  refine .attempt_first (sound_readCogMethodAt M addr) fun range hrange => ?_
  have hspan := M.readCogMethodAt_span hrange
  have hstop := range.stop.toNat_lt
  have hheader := hspan.header_le
  refine .lift_first (safe_add (by rw [hspan.start_eq]; omega)) ?_
  exact .iteRun_free (fun _ => .failure) fun _ => .succeed _

theorem sound_scanDown (M : Memory) (pc start stop : UInt64) {k : Nat} (hk : 8 * k < 2 ^ 64) :
    Sound (scanDown M pc start stop k).run (Symbolizer.scanDown M pc start stop k)
      (ScanDownInRange M pc start stop k) := by
  induction k with
  | zero =>
    rw [scanDown, Symbolizer.scanDown]
    exact .iteRun_then (fun _ => sound_readCogMethod M 0 pc) fun _ => .failure
  | succ k ih =>
    rw [scanDown, Symbolizer.scanDown]
    refine .iteRun_then (fun _ => ?_) fun _ => .failure
    have hlater : Sound (do
        if (← sub (UInt64.ofNat (8 * (k + 1))) 8) > stop then failure else scanDown M pc start stop k :
          Reading CogMethodRange).run
        (if UInt64.ofNat (8 * (k + 1)) - 8 > stop then none else Symbolizer.scanDown M pc start stop k)
        (¬UInt64.ofNat (8 * (k + 1)) - 8 > stop → ScanDownInRange M pc start stop k) := by
      refine .lift_second (safe_sub ?_) ?_
      · rw [UInt64.le_iff_toNat_le, UInt64.toNat_ofNat_of_lt' hk]
        show 8 ≤ 8 * (k + 1)
        omega
      · exact .iteRun_else (fun _ => .failure) fun _ => ih (by omega)
    have hsound := (sound_readCogMethod M (UInt64.ofNat (8 * (k + 1))) pc).orElse fun _ => hlater
    cases hread : Symbolizer.readCogMethod M (UInt64.ofNat (8 * (k + 1))) pc with
    | some range =>
      rw [hread] at hsound
      exact hsound
    | none =>
      rw [hread] at hsound
      exact hsound

theorem sound_scanForCogMethod (M : Memory) (s : Symbolizer) (pc : UInt64) :
    Sound (scanForCogMethod M s pc) (s.scanForCogMethod M pc) (ScanInRange M s pc) := by
  unfold scanForCogMethod Symbolizer.scanForCogMethod
  refine .bind_first (a := s.scanned M pc) ?_ ?_
  · refine .attempt (sound_scanBounds s pc) fun bounds _ => ?_
    have hlt := pc.toNat_lt
    exact sound_scanDown M pc _ _ (by omega)
  · cases s.scanned M pc <;> exact .pure _

/-! ### The method zone -/

theorem safe_readMethodZoneBounds (M : Memory) (symbols : MethodZoneSymbols) :
    Safe (readMethodZoneBounds M symbols).run (Symbolizer.readMethodZoneBounds M symbols) := by
  unfold readMethodZoneBounds Symbolizer.readMethodZoneBounds
  refine .attempt_first (.given _) fun base _ => .attempt_first (.given _) fun freeStart _ => ?_
  simp only [ite_or]
  refine .iteRun_free (fun _ => .failure) fun _ => .iteRun_free (fun _ => .failure) fun hlt => ?_
  refine .lift_first (safe_sub (not_le.mp hlt).le) ?_
  exact .iteRun_free (fun _ => .failure) fun _ => .succeed _

theorem sound_entrySymbol (M : Memory) (s : Symbolizer) (slot : JitEntrySymbolSlot) :
    Sound (entrySymbol M s slot).run (do
      let address ← M.copyU64 slot.slotAddr
      if address = 0 ∨ !s.pcLooksLikeCogCode address then none else some { address, name := slot.name })
      (∀ address, M.copyU64 slot.slotAddr = some address → ¬address = 0 → CogCodeInRange s address) := by
  refine .attempt_second (.given _) fun address _ => ?_
  simp only [ite_or]
  refine .iteRun_else (fun _ => .failure) fun _ => .lift_first (sound_pcLooksLikeCogCode s address) ?_
  cases s.pcLooksLikeCogCode address with
  | false => exact .failure
  | true => exact .succeed _

theorem sound_refreshJitEntrySymbols (M : Memory) (s : Symbolizer) :
    Sound (refreshJitEntrySymbols M s) (s.refreshJitEntrySymbols M) (EntriesInRange M s) := by
  refine .bind_first ?_ (.pure _)
  unfold EntriesInRange
  induction s.jitEntrySymbolSlots with
  | nil => exact (Computes.pure []).congr (by simp)
  | cons slot slots ih =>
    rw [List.filterMap_cons]
    refine ((sound_entrySymbol M s slot).bind (ih.bind_first ?_)).congr (by rw [List.forall_mem_cons])
    generalize (M.copyU64 slot.slotAddr >>= _ : Option JitEntrySymbol) = entry
    cases entry <;> exact .pure _

theorem sound_walkZone (M : Memory) (freeStart : UInt64) (fuel : Nat) (cursor : UInt64) (s : Symbolizer) :
    Sound (walkZone M freeStart fuel cursor s) (Symbolizer.walkZone M freeStart fuel cursor s)
      (WalkZoneInRange M freeStart fuel cursor) := by
  induction fuel generalizing cursor s with
  | zero => exact .pure _
  | succ fuel ih =>
    rw [walkZone, Symbolizer.walkZone]
    refine .ite_then (fun _ => ?_) fun _ => .pure _
    refine .bind (sound_readCogMethodAt M cursor) ?_
    cases M.readCogMethodAt cursor with
    | none => exact (Computes.pure _).congr (by simp)
    | some range =>
      refine (Computes.ite_else (fun _ => .pure _) fun _ => ih range.stop _).congr ?_
      simp

theorem sound_walkFrom (M : Memory) (s : Symbolizer) (base freeStart scanStart : UInt64) :
    Sound (walkFrom M s base freeStart scanStart) (s.walkFrom M base freeStart scanStart)
      (WalkFromInRange M s base freeStart scanStart) := by
  refine .ite_else (fun _ => .pure s) fun _ => ?_
  exact .bind (sound_refreshJitEntrySymbols M _) (sound_walkZone M freeStart _ scanStart _)

theorem sound_refreshMethodZone (M : Memory) (s : Symbolizer) :
    Sound (refreshMethodZone M s) (s.refreshMethodZone M) (RefreshInRange M s) := by
  unfold refreshMethodZone Symbolizer.refreshMethodZone RefreshInRange
  cases s.methodZoneSymbols with
  | none => exact .pure s
  | some symbols =>
    refine .bind_second (safe_readMethodZoneBounds M symbols) ?_
    simp only
    cases Symbolizer.readMethodZoneBounds M symbols with
    | none => exact .pure s
    | some bounds =>
      obtain ⟨base, freeStart⟩ := bounds
      simp only
      refine .ite (fun _ => ?_) fun _ => ?_
      · exact .ite_else (fun _ => .pure s) fun _ => sound_walkFrom M s base freeStart _
      · cases s.methodZoneBounds with
        | none => exact sound_walkFrom M s.clearZone base freeStart base
        | some previous =>
          refine .ite (fun _ => ?_) fun _ => sound_walkFrom M s.clearZone base freeStart base
          exact .ite (fun _ => sound_refreshJitEntrySymbols M _) fun _ => sound_walkFrom M s base freeStart _

/-! ### Frames -/

theorem sound_resolveUnlisted (M : Memory) (s : Symbolizer) (pc : UInt64) :
    Sound (resolveUnlisted M s pc) (s.resolveUnlisted M pc) (UnlistedInRange M s pc) := by
  unfold resolveUnlisted Symbolizer.resolveUnlisted
  refine .bind (sound_lookupJitEntrySymbol s pc) ?_
  cases s.lookupJitEntrySymbol pc with
  | some name => exact (Computes.pure _).congr (by simp)
  | none =>
    simp only [eq_self, true_imp_iff]
    refine .bind (.ite_then (fun _ => sound_scanForCogMethod M s pc) fun _ => .pure (none, s)) ?_
    -- a scan that finds nothing leaves the symbolizer as it is
    have hscan : (if (s.pcInMethodZone pc || s.methodZoneBounds.isNone) = true then s.scanForCogMethod M pc
        else (none, s)).1 = scannedName M s pc ∧ (scannedName M s pc = none →
          (if (s.pcInMethodZone pc || s.methodZoneBounds.isNone) = true then s.scanForCogMethod M pc
            else (none, s)).2 = s) := by
      unfold scannedName Symbolizer.scanForCogMethod
      split
      · cases s.scanned M pc <;> simp
      · simp
    generalize (if (s.pcInMethodZone pc || s.methodZoneBounds.isNone) = true then s.scanForCogMethod M pc
      else (none, s)) = found at hscan
    obtain ⟨found, s'⟩ := found
    obtain ⟨rfl, hsame⟩ := hscan
    cases hname : scannedName M s pc with
    | some name => exact (Computes.pure _).congr (by simp)
    | none =>
      obtain rfl : s' = s := hsame hname
      simp only [eq_self, true_imp_iff]
      exact (sound_genericCogCodeName s' pc).bind_first (.pure _)

theorem sound_resolveJitPc (M : Memory) (s : Symbolizer) (pc : UInt64) :
    Sound (resolveJitPc M s pc) (s.resolveJitPc M pc) (JitPcInRange M s pc) := by
  unfold resolveJitPc Symbolizer.resolveJitPc JitPcInRange
  cases s.resolvedPcs pc with
  | some cached => exact (Computes.pure _).congr (by simp)
  | none =>
    cases s.lookupMethodRange pc with
    | some name => exact (Computes.pure _).congr (by simp)
    | none =>
      simp only [eq_self, true_imp_iff]
      refine .ite (fun _ => ?_) fun _ => sound_resolveUnlisted M s pc
      refine .bind (sound_refreshMethodZone M s) ?_
      cases (s.refreshMethodZone M).lookupMethodRange pc with
      | some name => exact (Computes.pure _).congr (by simp)
      | none => exact (sound_resolveUnlisted M _ pc).congr (by simp)

theorem sound_interpretedFrameName (M : Memory) (context : UInt64) :
    Sound (interpretedFrameName M context).run (Symbolizer.interpretedFrameName M context)
      (ContextInRange M context) := by
  unfold interpretedFrameName Symbolizer.interpretedFrameName
  refine .guardRun fun _ => ?_
  refine .lift (sound_contextMethodAddr context) (.attempt_second (.given _) fun methodObj _ => ?_)
  rw [ite_or]
  refine .guardRun fun _ => ?_
  refine .lift_second (safe_isCompiledMethod M methodObj) (.guardRun fun _ => ?_)
  refine .attempt (sound_methodHeaderOf M methodObj) fun methodHeader _ => ?_
  refine .attempt (.keep (sound_maybeSelectorOfMethod M _ methodObj methodHeader)) fun selector _ => ?_
  refine .lift_first (sound_classNameOfMethod M _ methodObj methodHeader) ?_
  cases M.classNameOfMethod (maxClassNameDepth + 1) methodObj methodHeader <;> exact .succeed _

theorem sound_resolveFrameMethod (M : Memory) (s : Symbolizer) (methodField heapBase : UInt64) :
    Sound (resolveFrameMethod M s methodField heapBase) (s.resolveFrameMethod M methodField heapBase)
      (FrameInRange M s methodField heapBase) := by
  refine .ite_else (fun _ => .pure _) fun _ => .ite (fun _ => ?_) fun _ => ?_
  · exact .bind (sound_add methodField cogMethodSize) (sound_resolveJitPc M s _)
  · exact .bind_first (sound_interpretedFrameName M methodField) (.pure _)

theorem sound_walkFrames (M : Memory) (heapBase : UInt64) (turns : Nat) {fp : UInt64} (hfp : fp ≠ 0)
    (s : Symbolizer) :
    Sound (walkFrames M heapBase turns fp s) (Symbolizer.walkFrames M heapBase turns fp s)
      (FramesInRange M heapBase (Chains.follow (callerOf M) (methodFieldOf M) turns fp) s) := by
  induction turns generalizing fp s with
  | zero => exact .pure _
  | succ turns ih =>
    rw [walkFrames, Symbolizer.walkFrames, if_neg hfp, if_neg hfp, Chains.follow, methodFieldOf]
    cases M.copyU64 (fp - 8) with
    | none => exact .pure _
    | some methodField =>
      refine .bind (sound_resolveFrameMethod M s methodField heapBase) ?_
      simp only
      generalize s.resolveFrameMethod M methodField heapBase = resolved
      obtain ⟨name, s⟩ := resolved
      simp only
      cases hlink : M.copyU64 fp with
      | none =>
        refine (Computes.pure _).congr ?_
        simp [callerOf, hlink, FramesInRange]
      | some callerFp =>
        rw [Symbolizer.callerOf_link hlink]
        by_cases hend : callerFp = fp ∨ callerFp = 0
        · simp only [if_pos hend, Option.map_none, Option.getD_none]
          exact .pure _
        · simp only [if_neg hend, Option.map_some, Option.getD_some]
          exact .bind_first (ih (fun h => hend (.inr h)) s) (.pure _)

/-- The traced walk is the walk, and its operations fit exactly when the words
that it takes for addresses are in range. -/
theorem sound_walkCogFrames (M : Memory) (s : Symbolizer) :
    Sound (walkCogFrames M s) (s.walkCogFrames M) (WordsInRange M s) := by
  unfold walkCogFrames Symbolizer.walkCogFrames WordsInRange
  cases s.cogFrameSymbols with
  | none => exact (Computes.pure _).congr (by simp)
  | some symbols =>
    simp only [Option.some.injEq, forall_eq']
    cases M.copyU64 symbols.framePointerAddr with
    | none => exact (Computes.pure _).congr (by simp)
    | some fp =>
      simp only [Option.some.injEq, forall_eq']
      refine .ite_else (fun _ => .pure _) fun hfp => ?_
      cases M.copyU64 symbols.heapBaseAddr with
      | none => exact (Computes.pure _).congr (by simp)
      | some heapBase =>
        simp only [Option.some.injEq, forall_eq']
        refine (sound_walkFrames M heapBase cogFrameWalkLimit hfp s).congr ?_
        have hfollow := Chains.longestPrefix_follow (callerOf M) (methodFieldOf M) cogFrameWalkLimit fp
        constructor
        · intro h fields hfields
          rwa [← hfollow.unique hfields]
        · exact fun h => h _ hfollow

/-- No unchecked operation of the walk leaves the `u64` range. -/
def NoOverflow (M : Memory) (s : Symbolizer) : Prop := ∀ op ∈ (walkCogFrames M s).log, op.Fits

/-- Nothing overflows exactly when every word that the walk takes for an address
leaves room for the part that it looks at. -/
theorem noOverflow_iff (M : Memory) (s : Symbolizer) : NoOverflow M s ↔ WordsInRange M s :=
  (sound_walkCogFrames M s).all_iff

/-- A frame that was torn: its method field is the word -8. -/
def tornFrame : Memory := .ofWords [(0x100, 0x8000), (0x108, 0x1000), (0x7ff8, 0xfffffffffffffff8), (0x8000, 0)]

/-- A symbolizer that knows where the frame pointer and the heap base are. -/
def walkingFrames : Symbolizer := .new [] (some ⟨[("framePointer", 0x100), ("heapBase", 0x108)], 0, 0⟩)

/-- The fields of the context at -8 lie past the end of the address space. -/
theorem tornFrame_overflow : ¬∀ (M : Memory) (s : Symbolizer), NoOverflow M s := by
  intro h
  have hfits := h tornFrame walkingFrames (.add 0xfffffffffffffff8 8) (by decide)
  exact absurd hfits (by simp [Operation.Fits])

end Arithmetic

end StSpy
