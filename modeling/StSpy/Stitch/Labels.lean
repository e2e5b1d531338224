import StSpy.Symbolizer
import StSpy.Stitch

/-!
# Kinds of labels

A label says what a piece of code is: a method qualified by its class, or a
trampoline, a PIC or a placeholder. `isSmalltalkMethod` reads that back from the
first characters of the label, which is unambiguous but for one thing: the
suffix of a class-side method makes the prefix of a trampoline of a class named
`Cog`, and that of a placeholder of a class named `JIT`.
-/

namespace StSpy

inductive Label where
  /-- A method of a class, `metas` steps from its class object to a named class. -/
  | method (className : String) (metas : Nat) (selector : String)
  | trampoline (name : String)
  | openPic (selector : String)
  | closedPic (selector : String)
  /-- A method whose class is not found. -/
  | unclassed (selector : String)
  | frame
  | frameOf (selector : String)

/-- A class name with the suffix of each metaclass. -/
def qualifiedName (className : String) : Nat → String
  | 0 => className
  | metas + 1 => qualifiedName className metas ++ " class"

namespace Label

def text : Label → String
  | method className metas selector => qualifiedName className metas ++ ">>" ++ selector
  | trampoline name => "Cog " ++ name
  | openPic selector => "JIT PIC>>" ++ selector
  | closedPic selector => "JIT closed PIC>>" ++ selector
  | unclassed selector => "JIT method>>" ++ selector
  | frame => "JIT frame"
  | frameOf selector => "JIT frame>>" ++ selector

def isMethod : Label → Bool
  | method .. => true
  | _ => false

/-- Its class name and its selector are ones that the symbolizer accepts. -/
def Accepted : Label → Prop
  | method className _ selector => looksLikeClassName className = true ∧ looksLikeSelector selector = true
  | trampoline _ => True
  | openPic selector => looksLikeSelector selector = true
  | closedPic selector => looksLikeSelector selector = true
  | unclassed selector => looksLikeSelector selector = true
  | frame => True
  | frameOf selector => looksLikeSelector selector = true

/-- Frames with this label are told to be what they are. -/
def Classified (label : Label) : Prop :=
  ∀ f : Frame, f.filename = "Smalltalk" → f.name = label.text → isSmalltalkMethod f = label.isMethod

/-- The labels of a class, a selector and an entry symbol. -/
def labelsOf (className selector entryName : String) : List Label :=
  [method className 0 selector, method className 1 selector, trampoline entryName, openPic selector,
    closedPic selector, unclassed selector, frame, frameOf selector]

end Label

/-! ## The labels the symbolizer gives -/

/-- A class name the symbolizer accepts, or that of one of its metaclasses. -/
def IsClassName (name : String) : Prop :=
  ∃ className metas, looksLikeClassName className = true ∧ name = qualifiedName className metas

theorem IsClassName.metaclass {name : String} (h : IsClassName name) : IsClassName (name ++ " class") := by
  obtain ⟨className, metas, hname, rfl⟩ := h
  exact ⟨className, metas + 1, hname, rfl⟩

namespace Memory

variable {M : Memory} {left : Nat} {oop : UInt64} {name : String}

theorem isClassName_of_read (h : M.readClassName oop = some name) : IsClassName name :=
  ⟨name, 0, (Option.filter_eq_some_iff.mp h).2, rfl⟩

/-- The name of a class object is the text of a field, or a class's with the
suffix of its metaclass. -/
theorem classNameFromClassObject_cases (h : M.classNameFromClassObject (left + 1) oop = some name) :
    (∃ field, M.readClassName field = some name) ∨
      ∃ thisClass className, M.classNameFromClassObject left thisClass = some className ∧
        name = className ++ " class" := by
  have hfield {offset : UInt64} (h : (M.literalField oop offset).bind M.readClassName = some name) :
      ∃ field, M.readClassName field = some name := by
    obtain ⟨field, _, h⟩ := Option.bind_eq_some_iff.mp h
    exact ⟨field, h⟩
  have hscan {slots : UInt64} (h : (List.range (min slots maxClassObjectScan).toNat).findSome? (fun offset =>
      if offset = 5 ∨ offset = 6 then none
      else (M.literalField oop (UInt64.ofNat offset)).bind M.readClassName) = some name) :
      ∃ field, M.readClassName field = some name := by
    obtain ⟨offset, _, h⟩ := List.exists_of_findSome?_eq_some h
    split at h
    · cases h
    · exact hfield h
  unfold classNameFromClassObject at h
  split at h
  · cases h
  obtain ⟨slots, _, h⟩ := Option.bind_eq_some_iff.mp h
  dsimp only at h
  repeat' split at h
  · rename_i hread
    exact .inl (hfield (hread.trans h))
  all_goals first
    | exact .inl (hscan h)
    | rename_i hclass
      exact .inr ⟨_, _, hclass, (Option.some.inj h).symm⟩

theorem isClassName_of_classObject (h : M.classNameFromClassObject left oop = some name) : IsClassName name := by
  induction left generalizing oop name with
  | zero => cases h
  | succ left ih =>
    obtain ⟨field, hread⟩ | ⟨thisClass, className, hclass, rfl⟩ := classNameFromClassObject_cases h
    · exact isClassName_of_read hread
    · exact (ih hclass).metaclass

theorem isClassName_of_methodLiteral (h : M.classNameFromMethodLiteral left oop = some name) : IsClassName name := by
  induction left generalizing oop name with
  | zero => cases h
  | succ left ih =>
    have hscan {slots : UInt64} (h : (List.range (min slots maxClassObjectScan).toNat).findSome? (fun offset =>
        (M.literalField oop (UInt64.ofNat offset)).bind fun field => M.classNameFromMethodLiteral left field) =
        some name) : IsClassName name := by
      obtain ⟨offset, _, h⟩ := List.exists_of_findSome?_eq_some h
      obtain ⟨field, _, h⟩ := Option.bind_eq_some_iff.mp h
      exact ih h
    unfold classNameFromMethodLiteral at h
    split at h
    · cases h
    split at h
    · exact isClassName_of_read h
    split at h
    · cases h
    split at h
    · rename_i hclass
      cases h
      exact isClassName_of_classObject hclass
    obtain ⟨slots, _, h⟩ := Option.bind_eq_some_iff.mp h
    dsimp only at h
    repeat' split at h
    all_goals first
      | exact hscan h
      | rename_i hclass
        first
        | exact isClassName_of_classObject (hclass.trans h)
        | exact isClassName_of_read (hclass.trans h)

theorem isClassName_of_method {methodObj methodHeader : UInt64}
    (h : M.classNameOfMethod left methodObj methodHeader = some name) : IsClassName name := by
  induction left generalizing methodObj methodHeader name with
  | zero => cases h
  | succ left ih =>
    unfold classNameOfMethod at h
    split at h
    · cases h
    obtain ⟨literalCount, _, h⟩ := Option.bind_eq_some_iff.mp h
    split at h
    · cases h
    obtain ⟨back, _, h⟩ := List.exists_of_findSome?_eq_some h
    obtain ⟨literal, _, h⟩ := Option.bind_eq_some_iff.mp h
    simp only [Option.orElse_eq_orElse, Option.orElse_eq_or, Option.or_eq_some_iff] at h
    rcases h with hnested | ⟨_, hliteral⟩
    · split at hnested
      · obtain ⟨nestedHeader, _, h⟩ := Option.bind_eq_some_iff.mp hnested
        exact ih h
      · cases hnested
    · exact isClassName_of_methodLiteral hliteral

/-- What is decoded as a CogMethod has a label, and that is its name. -/
theorem readCogMethodAt_label {addr : UInt64} {X : CogMethodRange} (h : M.readCogMethodAt addr = some X) :
    ∃ label : Label, label.Accepted ∧ X.name = label.text := by
  simp only [readCogMethodAt, Option.bind_eq_bind, Option.bind_eq_some_iff] at h
  obtain ⟨blockSize, _, h⟩ := h
  split at h
  · simp only [Option.bind_eq_some_iff] at h
    obtain ⟨stop, _, flags, _, methodObject, _, methodHeader, _, selectorOop, _, h⟩ := h
    cases h
    dsimp only
    cases hsel : M.cogSelector ((flags >>> 8) &&& 0x7).toUInt8 methodObject methodHeader selectorOop with
    | none => exact ⟨.frame, trivial, rfl⟩
    | some selector =>
      have hselector : looksLikeSelector selector = true := (Option.filter_eq_some_iff.mp hsel).2
      unfold cogLabel
      dsimp only
      repeat' split
      · exact ⟨.openPic selector, hselector, rfl⟩
      · exact ⟨.closedPic selector, hselector, rfl⟩
      · rename_i hclass
        obtain ⟨className, metas, hname, rfl⟩ := isClassName_of_method hclass
        exact ⟨.method className metas selector, ⟨hname, hselector⟩, rfl⟩
      · exact ⟨.unclassed selector, hselector, rfl⟩
      · exact ⟨.frameOf selector, hselector, rfl⟩
  · cases h

end Memory

theorem Symbolizer.lookupJitEntrySymbol_label {s : Symbolizer} {pc : UInt64} {name : String}
    (h : s.lookupJitEntrySymbol pc = some name) : ∃ entryName, name = (Label.trampoline entryName).text := by
  unfold lookupJitEntrySymbol at h
  split at h
  · cases h
  · obtain ⟨entry, _, h⟩ := Option.bind_eq_some_iff.mp h
    dsimp only at h
    split at h
    · cases h
      exact ⟨entry.name, rfl⟩
    · cases h

theorem Symbolizer.genericCogCodeName_label {s : Symbolizer} {pc : UInt64} {name : String}
    (h : s.genericCogCodeName pc = some name) : name = Label.frame.text := by
  unfold genericCogCodeName at h
  split at h
  · cases h
    rfl
  · cases h

/-! ## Prefixes -/

/-- A character of a class name. -/
def isNameChar (c : Char) : Bool := c.isAlphanum || c = '_'

theorem nameChars {className : String} (h : looksLikeClassName className = true) :
    ∀ c ∈ className.toList, isNameChar c = true := by
  unfold looksLikeClassName at h
  split at h
  · cases h
  · rename_i hlist
    rw [Bool.and_eq_true, List.all_eq_true] at h
    exact h.2

/-- A word with a space behind it is a prefix of a name and what follows it only
if it is the name, and the space follows. -/
theorem word_prefix_iff {word name rest : List Char} (hword : ∀ c ∈ word, isNameChar c = true)
    (hname : ∀ c ∈ name, isNameChar c = true) (hrest : rest.takeWhile isNameChar = []) :
    word ++ [' '] <+: name ++ rest ↔ word = name ∧ [' '] <+: rest := by
  constructor
  · rintro ⟨others, hothers⟩
    have hleft : (word ++ ' ' :: others).takeWhile isNameChar = word := by
      rw [List.takeWhile_append_of_pos hword, List.takeWhile_cons_of_neg (by decide), List.append_nil]
    have hright : (name ++ rest).takeWhile isNameChar = name := by
      rw [List.takeWhile_append_of_pos hname, hrest, List.append_nil]
    rw [List.append_assoc, List.singleton_append] at hothers
    have hsame : word = name := by rw [← hleft, hothers, hright]
    subst hsame
    exact ⟨rfl, others, List.append_cancel_left hothers⟩
  · rintro ⟨rfl, others, rfl⟩
    exact ⟨others, by simp⟩

theorem startsWith_word_iff {word name rest : String} (hword : ∀ c ∈ word.toList, isNameChar c = true)
    (hname : looksLikeClassName name = true) (hrest : rest.toList.takeWhile isNameChar = []) :
    startsWith (name ++ rest) (word ++ " ") = true ↔ word = name ∧ startsWith rest " " = true := by
  have hspace : " ".toList = [' '] := rfl
  simp only [startsWith, List.isPrefixOf_iff_prefix, String.toList_append, hspace]
  rw [word_prefix_iff hword (nameChars hname) hrest, String.toList_inj]

theorem qualifiedName_succ (className : String) (metas : Nat) :
    ∃ rest, qualifiedName className (metas + 1) = className ++ (" class" ++ rest) := by
  induction metas with
  | zero => exact ⟨"", by simp [qualifiedName]⟩
  | succ metas ih =>
    obtain ⟨rest, hrest⟩ := ih
    exact ⟨rest ++ " class", by rw [qualifiedName, hrest]; simp [String.append_assoc]⟩

/-- The label of a method starts with a word exactly where that is the name of
the class, and the method is on its class side. -/
theorem startsWith_method_iff (word : String) {className : String} (hword : ∀ c ∈ word.toList, isNameChar c = true)
    (hname : looksLikeClassName className = true) (metas : Nat) (selector : String) :
    startsWith (Label.method className metas selector).text (word ++ " ") = true ↔ word = className ∧ metas ≠ 0 := by
  cases metas with
  | zero =>
    have htext : (Label.method className 0 selector).text = className ++ (">>" ++ selector) :=
      String.append_assoc ..
    have hrest : (">>" ++ selector).toList.takeWhile isNameChar = [] := by
      rw [String.toList_append]
      exact List.takeWhile_cons_of_neg (by decide)
    have hspace : startsWith (">>" ++ selector) " " = false := by
      rw [startsWith_append (by decide)]
      decide
    rw [htext, startsWith_word_iff hword hname hrest, hspace]
    simp
  | succ metas =>
    obtain ⟨suffix, hsuffix⟩ := qualifiedName_succ className metas
    have htext : (Label.method className (metas + 1) selector).text =
        className ++ (" class" ++ (suffix ++ ">>" ++ selector)) := by
      show qualifiedName className (metas + 1) ++ ">>" ++ selector = _
      rw [hsuffix]
      simp only [String.append_assoc]
    have hrest : (" class" ++ (suffix ++ ">>" ++ selector)).toList.takeWhile isNameChar = [] := by
      rw [String.toList_append]
      exact List.takeWhile_cons_of_neg (by decide)
    have hspace : startsWith (" class" ++ (suffix ++ ">>" ++ selector)) " " = true := by
      rw [startsWith_append (by decide)]
      decide
    rw [htext, startsWith_word_iff hword hname hrest, hspace]
    simp

/-! ## Classification -/

namespace Label

theorem classified_text {label : Label} :
    label.Classified ↔
      (!startsWith label.text "Cog " && !startsWith label.text "JIT ") = label.isMethod := by
  constructor
  · intro h
    have hframe := h (cogFrame none label.text) rfl rfl
    simpa [isSmalltalkMethod, cogFrame] using hframe
  · intro h f hfile hname
    rw [← h, isSmalltalkMethod, hfile, hname]
    simp

/-- The labels that start as no method does are not taken for one. -/
theorem classified_of_prefix {label : Label} (hmethod : label.isMethod = false)
    (hstart : startsWith label.text "Cog " = true ∨ startsWith label.text "JIT " = true) : label.Classified := by
  rw [classified_text, hmethod]
  rcases hstart with h | h <;> simp [h]

theorem classified_method_iff {className selector : String} (hname : looksLikeClassName className = true)
    (metas : Nat) :
    (method className metas selector).Classified ↔ (metas ≠ 0 → className ≠ "Cog" ∧ className ≠ "JIT") := by
  have hcog : startsWith (method className metas selector).text "Cog " = true ↔ "Cog" = className ∧ metas ≠ 0 :=
    startsWith_method_iff "Cog" (nameChars (by decide)) hname metas selector
  have hjit : startsWith (method className metas selector).text "JIT " = true ↔ "JIT" = className ∧ metas ≠ 0 :=
    startsWith_method_iff "JIT" (nameChars (by decide)) hname metas selector
  have hmethod : (method className metas selector).isMethod = true := rfl
  rw [classified_text, hmethod, Bool.and_eq_true, Bool.not_eq_true', Bool.not_eq_true', ← Bool.not_eq_true,
    ← Bool.not_eq_true, hcog, hjit]
  constructor
  · rintro ⟨h1, h2⟩ hmetas
    exact ⟨fun h => h1 ⟨h.symm, hmetas⟩, fun h => h2 ⟨h.symm, hmetas⟩⟩
  · intro h
    exact ⟨fun ⟨h1, hmetas⟩ => (h hmetas).1 h1.symm, fun ⟨h1, hmetas⟩ => (h hmetas).2 h1.symm⟩

/-- Trampolines, PICs and placeholders are never taken for methods. -/
theorem classified_other {label : Label} (h : label.isMethod = false) : label.Classified := by
  refine classified_of_prefix h ?_
  cases label with
  | method => cases h
  | trampoline name => exact .inl ((startsWith_append (by decide) name).trans (by decide))
  | openPic selector => exact .inr ((startsWith_append (by decide) selector).trans (by decide))
  | closedPic selector => exact .inr ((startsWith_append (by decide) selector).trans (by decide))
  | unclassed selector => exact .inr ((startsWith_append (by decide) selector).trans (by decide))
  | frame => exact .inr (by decide)
  | frameOf selector => exact .inr ((startsWith_append (by decide) selector).trans (by decide))

/-- The labels of a class are told apart exactly when its name is no prefix. -/
theorem classified_iff {className : String} (hname : looksLikeClassName className = true)
    (selector entryName : String) :
    (∀ label ∈ labelsOf className selector entryName, label.Classified) ↔
      className ≠ "Cog" ∧ className ≠ "JIT" := by
  constructor
  · intro h
    have hclassSide := h (method className 1 selector) (by simp [labelsOf])
    exact (classified_method_iff hname 1).mp hclassSide Nat.one_ne_zero
  · intro hne label hlabel
    simp only [labelsOf, List.mem_cons, List.not_mem_nil, or_false] at hlabel
    rcases hlabel with rfl | rfl | rfl | rfl | rfl | rfl | rfl | rfl
    · exact (classified_method_iff hname 0).mpr fun _ => hne
    · exact (classified_method_iff hname 1).mpr fun _ => hne
    all_goals exact classified_other rfl

theorem classified_iff_object :
    (∀ label ∈ labelsOf "Object" "at:put:" "ceSendSuper", label.Classified) ↔
      "Object" ≠ "Cog" ∧ "Object" ≠ "JIT" := classified_iff (by decide) "at:put:" "ceSendSuper"

/-- `Cog class>>new` is taken for a trampoline. -/
theorem cogClass_misclassified :
    looksLikeClassName "Cog" = true ∧ looksLikeSelector "new" = true ∧
      ¬∀ label ∈ labelsOf "Cog" "new" "", label.Classified := by
  refine ⟨by decide, by decide, fun h => ?_⟩
  have hclassSide := h (method "Cog" 1 "new") (by simp [labelsOf])
  rw [classified_text] at hclassSide
  exact absurd hclassSide (by decide)

end Label

end StSpy
