import StSpy.Flamegraph
import StSpy.Lib.Delimited

/-!
# Reading the folded stacks back

A folded line is the labels of a stack between semicolons, a space, and the
count. Reading the lines of a run back gives each recorded stack once, with its
count, exactly when no recorded trace is empty and no name or file name in it
holds a semicolon or a line break.
-/

namespace StSpy

namespace Flamegraph

/-! ## The reader -/

def parseCount (digits : List Char) : Option Nat :=
  if digits ≠ [] ∧ digits.all Char.isDigit then some (Nat.ofDigitChars 10 digits 0) else none

def splitFrames (stack : List Char) : List String := (stack.splitOn ';').map String.ofList

/-- A line: the count after the last space, the frames split at the semicolons. -/
def decodeLine (line : List Char) : Option (List String × Nat) := do
  let (stack, digits) ← Delimited.splitLast ' ' line
  let count ← parseCount digits
  some (splitFrames stack, count)

def decode (text : String) : Option (List (List String × Nat)) :=
  (Delimited.fields '\n' text.toList).mapM decodeLine

/-- Each stack of `recorded` is decoded once, with the number of times it is there. -/
structure Decodes (decoded : List (List String × Nat)) (recorded : List (List String)) : Prop where
  once : (decoded.map (·.1)).Nodup
  counts : ∀ stack count, (stack, count) ∈ decoded ↔ 0 < count ∧ count = recorded.count stack

def recordedStacks (config : Config) (samples : List (List StackTrace)) : List (List String) :=
  (recordedTraces config samples).map (labels config.showLineNumbers)

/-- Text that breaks neither a line nor a frame of it. -/
def Plain (text : String) : Prop := ';' ∉ text.toList ∧ '\n' ∉ text.toList

instance Plain.decidable (text : String) : Decidable (Plain text) := inferInstanceAs (Decidable (_ ∧ _))

/-- A stack with a label, and all of them plain. -/
def Foldable (stack : List String) : Prop := stack ≠ [] ∧ ∀ label ∈ stack, Plain label

/-- A trace with a frame, and all names and file names in it plain. -/
def PlainTrace (trace : StackTrace) : Prop :=
  trace.frames ≠ [] ∧
    ∀ frame ∈ trace.frames, Plain frame.name ∧ Plain (frame.shortFilename.getD frame.filename)

instance PlainTrace.decidable (trace : StackTrace) : Decidable (PlainTrace trace) :=
  inferInstanceAs (Decidable (_ ∧ _))

/-! ## Labels -/

theorem plain_append {a b : String} : Plain (a ++ b) ↔ Plain a ∧ Plain b := by
  simp only [Plain, String.toList_append, List.mem_append]
  tauto

theorem not_mem_toDigits {c : Char} (hc : c.isDigit = false) (count : Nat) : c ∉ Nat.toDigits 10 count := by
  intro h
  rw [Nat.isDigit_of_mem_toDigits (by decide) (by decide) h] at hc
  cases hc

theorem plain_toString (line : Int32) : Plain (toString line) := by
  have hnat : ∀ n : Nat, Plain (toString n) := by
    intro n
    have hdigits : (toString n).toList = Nat.toDigits 10 n := Nat.toList_repr
    rw [Plain, hdigits]
    exact ⟨not_mem_toDigits (by decide) n, not_mem_toDigits (by decide) n⟩
  show Plain (Int.repr line.toInt)
  cases line.toInt with
  | ofNat n => exact hnat n
  | negSucc n => exact plain_append.mpr ⟨by decide, hnat (n + 1)⟩

/-- A label is plain exactly when what it is made of is. -/
theorem plain_label (showLinenumbers : Bool) (frame : Frame) :
    Plain (label showLinenumbers frame) ↔
      Plain frame.name ∧ Plain (frame.shortFilename.getD frame.filename) := by
  have hopen : Plain " (" := by decide
  have hclose : Plain ")" := by decide
  have hcolon : Plain ":" := by decide
  unfold label
  split
  · simp only [plain_append, hopen, hclose, hcolon, plain_toString, and_true]
  · show Plain (if frame.shortFilename.getD frame.filename ≠ "" then _ else _) ↔ _
    split
    · simp only [plain_append, hopen, hclose, and_true]
    · rename_i hfile
      have hempty : Plain "" := by decide
      rw [not_ne_iff.mp hfile]
      exact (and_iff_left hempty).symm

theorem foldable_labels (showLinenumbers : Bool) (trace : StackTrace) :
    Foldable (labels showLinenumbers trace) ↔ PlainTrace trace := by
  simp [Foldable, PlainTrace, labels, plain_label]

/-! ## Counting -/

def fold (stack : List String) : String := String.intercalate ";" stack

theorem lookup_foldl (traces : List StackTrace) (f : Flamegraph) (key : String) :
    ((traces.foldl increment f).counts.lookup key).getD 0 = (f.counts.lookup key).getD 0 +
        (traces.map fun trace => fold (labels f.showLinenumbers trace)).count key ∧
      ((traces.foldl increment f).counts.lookup key = some 0 → f.counts.lookup key = some 0) := by
  induction traces generalizing f with
  | nil => exact ⟨rfl, id⟩
  | cons trace traces ih =>
    obtain ⟨hcount, hzero⟩ := ih (f.increment trace)
    have hshow : (f.increment trace).showLinenumbers = f.showLinenumbers := rfl
    rw [hshow] at hcount
    rw [List.foldl_cons, hcount, List.map_cons, List.count_cons]
    by_cases hkey : key = fold (labels f.showLinenumbers trace)
    · have hlookup : (f.increment trace).counts.lookup key = some ((f.counts.lookup key).getD 0 + 1) := by
        rw [hkey]
        exact AList.lookup_insert _
      refine ⟨?_, fun h => ?_⟩
      · rw [hlookup, ← hkey]
        simp only [Option.getD_some, beq_self_eq_true, if_true]
        omega
      · have := hzero h
        rw [hlookup] at this
        cases this
    · have hlookup : (f.increment trace).counts.lookup key = f.counts.lookup key :=
        AList.lookup_insert_ne hkey
      refine ⟨?_, fun h => hlookup ▸ hzero h⟩
      rw [hlookup]
      simp [Ne.symm hkey]

/-- The entries of a run: each folded stack with the number of times it was recorded. -/
theorem mem_entries {config : Config} {samples : List (List StackTrace)} {key : String} {count : Nat} :
    ⟨key, count⟩ ∈ (recordSamples config samples).counts.entries ↔
      0 < count ∧ count = ((recordedStacks config samples).map fold).count key := by
  obtain ⟨hcount, hzero⟩ := lookup_foldl (recordedTraces config samples) (new config.showLineNumbers) key
  have hempty : (new config.showLineNumbers).counts.lookup key = none := rfl
  have hmap : ((recordedTraces config samples).map fun trace =>
      fold (labels (new config.showLineNumbers).showLinenumbers trace)) =
      (recordedStacks config samples).map fold := by
    rw [recordedStacks, List.map_map]
    rfl
  rw [hempty, hmap, Option.getD_none, Nat.zero_add] at hcount
  rw [hempty] at hzero
  rw [← AList.mem_lookup_iff, ← hcount, Option.mem_def, recordSamples]
  cases hl : ((recordedTraces config samples).foldl increment (new config.showLineNumbers)).counts.lookup key with
  | none =>
    simp only [reduceCtorEq, Option.getD_none, false_iff]
    omega
  | some n =>
    have hn : n ≠ 0 := by
      rintro rfl
      cases hzero hl
    simp only [Option.some.injEq, Option.getD_some]
    omega

/-! ## One line -/

theorem parseCount_toDigits (count : Nat) : parseCount (Nat.toDigits 10 count) = some count := by
  have hne : Nat.toDigits 10 count ≠ [] := by
    intro h
    have hlen := Nat.length_toDigits_pos (b := 10) (n := count)
    simp [h] at hlen
  have hall : (Nat.toDigits 10 count).all Char.isDigit = true :=
    List.all_eq_true.mpr fun c hc => Nat.isDigit_of_mem_toDigits (by decide) (by decide) hc
  rw [parseCount, if_pos ⟨hne, hall⟩, Nat.ofDigitChars_ten_toDigits]

/-- The line of an entry. -/
def lineOf (entry : Sigma fun _ : String => Nat) : List Char :=
  entry.1.toList ++ ' ' :: Nat.toDigits 10 entry.2

theorem writeRaw_toList (counts : List (Sigma fun _ : String => Nat)) :
    (writeRaw counts).toList = Delimited.terminated '\n' (counts.map lineOf) := by
  have hline : ∀ entry : Sigma fun _ : String => Nat,
      (entry.1 ++ " " ++ toString entry.2 ++ "\n").toList = lineOf entry ++ ['\n'] := by
    intro entry
    simp [lineOf]
  simp only [writeRaw, getLines, String.toList_join, Delimited.terminated, List.map_map, List.flatMap_map,
    Function.comp_def, hline]

theorem decodeLine_lineOf (entry : Sigma fun _ : String => Nat) :
    decodeLine (lineOf entry) = some (splitFrames entry.1.toList, entry.2) := by
  rw [decodeLine, lineOf, Delimited.splitLast_append _ (not_mem_toDigits (by decide) entry.2)]
  simp [parseCount_toDigits]

theorem splitFrames_fold {stack : List String} (h : Foldable stack) : splitFrames (fold stack).toList = stack := by
  have hfields : ∀ field ∈ stack.map String.toList, ';' ∉ field := by
    intro field hfield
    obtain ⟨label, hlabel, rfl⟩ := List.mem_map.mp hfield
    exact (h.2 label hlabel).1
  have hne : stack.map String.toList ≠ [] := by simpa using h.1
  have hfold : (fold stack).toList = [';'].intercalate (stack.map String.toList) := by
    rw [fold, String.toList_intercalate]
    rfl
  rw [splitFrames, hfold, List.splitOn_intercalate ';' hfields hne, List.map_map]
  simp

theorem fold_splitFrames (key : String) : fold (splitFrames key.toList) = key := by
  have hfields : (splitFrames key.toList).map String.toList = key.toList.splitOn ';' := by
    simp [splitFrames, Function.comp_def]
  rw [← String.toList_inj, fold, String.toList_intercalate, hfields]
  exact List.intercalate_splitOn ';'

theorem not_mem_fold {stack : List String} (h : ∀ label ∈ stack, '\n' ∉ label.toList) :
    '\n' ∉ (fold stack).toList := by
  intro hmem
  rw [fold, String.toList_intercalate] at hmem
  induction stack with
  | nil => simp at hmem
  | cons label stack ih =>
    cases stack with
    | nil => exact h label List.mem_cons_self (by simpa using hmem)
    | cons next stack =>
      rw [List.map_cons, List.map_cons, List.intercalate_cons_cons] at hmem
      rcases List.mem_append.mp hmem with hmem | hmem
      · rcases List.mem_append.mp hmem with hmem | hmem
        · exact h label List.mem_cons_self hmem
        · exact absurd hmem (by decide)
      · exact ih (fun l hl => h l (List.mem_cons_of_mem _ hl)) hmem

/-! ## A run -/

variable {config : Config} {samples : List (List StackTrace)} {counts : List (Sigma fun _ : String => Nat)}

/-- A line gives back labels without a semicolon, which come from the line. -/
theorem foldable_of_decodeLine {line : List Char} {stack : List String} {count : Nat} (hline : '\n' ∉ line)
    (h : decodeLine line = some (stack, count)) : Foldable stack := by
  obtain ⟨⟨before, digits⟩, hsplit, h⟩ := Option.bind_eq_some_iff.mp h
  obtain ⟨n, _, h⟩ := Option.bind_eq_some_iff.mp h
  cases h
  refine ⟨by simp [splitFrames], fun label hlabel => ?_⟩
  obtain ⟨field, hfield, rfl⟩ := List.mem_map.mp hlabel
  obtain ⟨hnot, hsub⟩ := Delimited.of_mem_splitOn hfield
  rw [Plain, String.toList_ofList]
  exact ⟨hnot, fun hbreak => hline (Delimited.subset_of_splitLast hsplit (hsub hbreak))⟩

/-- On foldable stacks the folded strings are counted like the stacks. -/
theorem count_fold {recorded : List (List String)} (h : ∀ stack ∈ recorded, Foldable stack)
    {stack : List String} (hstack : Foldable stack) :
    (recorded.map fold).count (fold stack) = recorded.count stack := by
  rw [List.count, List.countP_map, List.count]
  refine List.countP_congr fun other hother => ?_
  simp only [Function.comp_apply, beq_iff_eq]
  refine ⟨fun heq => ?_, fun heq => by rw [heq]⟩
  rw [← splitFrames_fold (h other hother), heq, splitFrames_fold hstack]

/-- Every entry is the fold of a recorded stack, with the number of its
occurrences. -/
theorem exists_stack_of_mem (hcounts : counts.Perm (recordSamples config samples).counts.entries)
    (h : ∀ stack ∈ recordedStacks config samples, Foldable stack) {entry : Sigma fun _ : String => Nat}
    (hentry : entry ∈ counts) :
    ∃ stack ∈ recordedStacks config samples, entry.1 = fold stack ∧
      entry.2 = (recordedStacks config samples).count stack ∧ 0 < entry.2 := by
  obtain ⟨hpos, hcount⟩ := mem_entries.mp (hcounts.mem_iff.mp hentry)
  obtain ⟨stack, hstack, heq⟩ := List.mem_map.mp (List.count_pos_iff.mp (hcount ▸ hpos))
  refine ⟨stack, hstack, heq.symm, ?_, hpos⟩
  rw [← count_fold h (h stack hstack), heq]
  exact hcount

theorem not_mem_lineOf {entry : Sigma fun _ : String => Nat} {stack : List String} (heq : entry.1 = fold stack)
    (h : Foldable stack) : '\n' ∉ lineOf entry := by
  intro hbreak
  rcases List.mem_append.mp hbreak with hbreak | hbreak
  · rw [heq] at hbreak
    exact not_mem_fold (fun label hlabel => (h.2 label hlabel).2) hbreak
  · rcases List.mem_cons.mp hbreak with hbreak | hbreak
    · exact absurd hbreak (by decide)
    · exact not_mem_toDigits (by decide) entry.2 hbreak

theorem decode_writeRaw (hlines : ∀ entry ∈ counts, '\n' ∉ lineOf entry) :
    decode (writeRaw counts) = some (counts.map fun entry => (splitFrames entry.1.toList, entry.2)) := by
  have hmem : ∀ line ∈ counts.map lineOf, '\n' ∉ line := by
    intro line hline
    obtain ⟨entry, hentry, rfl⟩ := List.mem_map.mp hline
    exact hlines entry hentry
  rw [decode, writeRaw_toList, Delimited.fields_terminated hmem]
  exact Delimited.mapM_map fun entry _ => decodeLine_lineOf entry

/-- Different keys split into different stacks. -/
theorem nodup_splitFrames (hkeys : (counts.map Sigma.fst).Nodup) :
    ((counts.map fun entry => (splitFrames entry.1.toList, entry.2)).map Prod.fst).Nodup := by
  have hback : (counts.map fun entry => (splitFrames entry.1.toList, entry.2)).map
      (fun decoded => fold decoded.1) = counts.map Sigma.fst := by
    rw [List.map_map]
    exact List.map_congr_left fun entry _ => fold_splitFrames entry.1
  rw [← hback] at hkeys
  exact List.Nodup.of_map fold (by simpa [Function.comp_def] using hkeys)

theorem decodes_of_foldable (hcounts : counts.Perm (recordSamples config samples).counts.entries)
    (h : ∀ stack ∈ recordedStacks config samples, Foldable stack) :
    Decodes (counts.map fun entry => (splitFrames entry.1.toList, entry.2)) (recordedStacks config samples) := by
  refine ⟨nodup_splitFrames ?_, fun stack count => ?_⟩
  · rw [(hcounts.map Sigma.fst).nodup_iff]
    exact (recordSamples config samples).counts.keys_nodup
  · rw [List.mem_map]
    constructor
    · rintro ⟨entry, hentry, heq⟩
      cases heq
      obtain ⟨stack, hstack, hfold, hcount, hpos⟩ := exists_stack_of_mem hcounts h hentry
      rw [hfold, splitFrames_fold (h stack hstack)]
      exact ⟨hpos, hcount⟩
    · rintro ⟨hpos, hcount⟩
      have hstack := h stack (List.count_pos_iff.mp (hcount ▸ hpos))
      refine ⟨⟨fold stack, count⟩, ?_, by rw [splitFrames_fold hstack]⟩
      exact hcounts.mem_iff.mpr (mem_entries.mpr ⟨hpos, by rw [count_fold h hstack, hcount]⟩)

/-- The text of a run, its lines in any order, is read back as the recorded
stacks exactly when all recorded traces are plain. -/
theorem decodes_iff (hcounts : counts.Perm (recordSamples config samples).counts.entries) :
    (∃ decoded, decode (writeRaw counts) = some decoded ∧ Decodes decoded (recordedStacks config samples)) ↔
      ∀ trace ∈ recordedTraces config samples, PlainTrace trace := by
  have hplain : (∀ trace ∈ recordedTraces config samples, PlainTrace trace) ↔
      ∀ stack ∈ recordedStacks config samples, Foldable stack := by
    simp [recordedStacks, foldable_labels]
  rw [hplain]
  constructor
  · rintro ⟨decoded, hdecode, hdecodes⟩ stack hstack
    have hmem := (hdecodes.counts stack ((recordedStacks config samples).count stack)).mpr
      ⟨List.count_pos_iff.mpr hstack, rfl⟩
    obtain ⟨line, hline, hread⟩ := Delimited.exists_of_mem_mapM hdecode hmem
    exact foldable_of_decodeLine (Delimited.not_mem_of_mem_fields hline) hread
  · intro h
    refine ⟨_, decode_writeRaw fun entry hentry => ?_, decodes_of_foldable hcounts h⟩
    obtain ⟨stack, hstack, heq, -, -⟩ := exists_stack_of_mem hcounts h hentry
    exact not_mem_lineOf heq (h stack hstack)

/-- One thread of a process with the command line it is given. -/
def processSample (commandLine : String) : List (List StackTrace) :=
  [[{ pid := 4, threadId := 9, frames := [⟨"Foo>>run", "Smalltalk", none, none, 0⟩],
      processInfo := some ⟨4, commandLine, none⟩ }]]

theorem decodes_iff_processSample :
    (∃ decoded, decode (writeRaw (recordSamples {} (processSample "squeak a.image")).counts.entries) = some decoded ∧
        Decodes decoded (recordedStacks {} (processSample "squeak a.image"))) ↔
      ∀ trace ∈ recordedTraces {} (processSample "squeak a.image"), PlainTrace trace :=
  decodes_iff (.refl _)

/-- A semicolon in a command line makes one frame of the process two. -/
theorem processSample_split :
    ¬∀ (config : Config) (samples : List (List StackTrace)) (counts : List (Sigma fun _ : String => Nat)),
      counts.Perm (recordSamples config samples).counts.entries →
        ∃ decoded, decode (writeRaw counts) = some decoded ∧ Decodes decoded (recordedStacks config samples) := by
  intro h
  obtain ⟨decoded, hdecode, hdecodes⟩ := h {} (processSample "sh -c 'cd a; squeak'") _ (.refl _)
  have hstack : ["process 4:\"sh -c 'cd a; squeak'\"", "Foo>>run (Smalltalk)"] ∈
      recordedStacks {} (processSample "sh -c 'cd a; squeak'") := by decide
  have hmem := (hdecodes.counts _ _).mpr ⟨List.count_pos_iff.mpr hstack, rfl⟩
  obtain ⟨line, hline, hread⟩ := Delimited.exists_of_mem_mapM hdecode hmem
  have hfoldable := foldable_of_decodeLine (Delimited.not_mem_of_mem_fields hline) hread
  exact absurd (hfoldable.2 _ List.mem_cons_self) (by decide)

end Flamegraph

end StSpy
