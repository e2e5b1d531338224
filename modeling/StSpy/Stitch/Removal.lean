import StSpy.Stitch

/-!
# What the splice removes

The splice measures the run of Smalltalk frames behind the boundary, which the
Cog chain is to replace, and then cuts off everything behind the boundary. It
removes that run and nothing else exactly when the run reaches the end of the
stack.
-/

namespace StSpy

variable {frames : List Frame} {splicePos : Nat} {cogFrames : List String}

/-! ## The run behind the boundary -/

theorem trimEndFrom_eq (frames : List Frame) (i : Nat) :
    trimEndFrom frames i = i + (frames.takeWhile isReplaced).length := by
  induction frames generalizing i with
  | nil => rfl
  | cons frame frames ih =>
    cases h : isReplaced frame with
    | false => simp [trimEndFrom, h]
    | true =>
      rw [trimEndFrom, if_pos h, ih, List.takeWhile_cons_of_pos h, List.length_cons]
      omega

/-- Behind `trimEnd` is what the maximal run of replaced frames leaves. -/
theorem drop_trimEnd (frames : List Frame) (splicePos : Nat) :
    frames.drop (trimEnd frames splicePos) = (frames.drop splicePos).dropWhile isReplaced := by
  have hsplit := (frames.drop splicePos).takeWhile_append_dropWhile (p := isReplaced)
  rw [trimEnd, trimEndFrom_eq, ← List.drop_drop]
  calc (frames.drop splicePos).drop ((frames.drop splicePos).takeWhile isReplaced).length
      = ((frames.drop splicePos).takeWhile isReplaced ++ (frames.drop splicePos).dropWhile isReplaced).drop
          ((frames.drop splicePos).takeWhile isReplaced).length := by rw [hsplit]
    _ = (frames.drop splicePos).dropWhile isReplaced := List.drop_left

/-! ## The splice -/

/-- What the splice adds: the Cog chain without the methods that are there
already, and the synthetic root. -/
def addedFrames (files : Filenames) (frames : List Frame) (cogFrames : List String) : List Frame :=
  ((cogFrames.filter fun name => !(existingStNames frames).contains name) ++
    ["Cog ceBaseFrameReturn"]).map (cogFrame (files.shorten "Smalltalk").1)

/-- The native frames without the maximal run of replaced frames at `splicePos`. -/
def keptFrames (frames : List Frame) (splicePos : Nat) : List Frame :=
  frames.take splicePos ++ (frames.drop splicePos).dropWhile isReplaced

/-- Of the native frames exactly the run at `splicePos` is gone, and the others
are still in order. -/
structure RemovesOnlyRun (files : Filenames) (frames : List Frame) (splicePos : Nat)
    (cogFrames : List String) (result : List Frame) : Prop where
  kept : (keptFrames frames splicePos).Sublist result
  exactly : result.Perm (keptFrames frames splicePos ++ addedFrames files frames cogFrames)

theorem stitch_truncates (files : Filenames) (hb : findInterpreterBoundary frames = some splicePos)
    (hne : cogFrames ≠ []) :
    (stitch files frames cogFrames).1 = frames.take splicePos ++ addedFrames files frames cogFrames := by
  simp [stitch, hb, hne, spliceCogFrames, addedFrames]

/-- The splice removes only what it replaces exactly when it would replace every
frame from the boundary on. -/
theorem removesOnlyRun_iff (files : Filenames) (hb : findInterpreterBoundary frames = some splicePos)
    (hne : cogFrames ≠ []) :
    RemovesOnlyRun files frames splicePos cogFrames (stitch files frames cogFrames).1 ↔
      ∀ frame ∈ frames.drop splicePos, isReplaced frame = true := by
  rw [stitch_truncates files hb hne, ← List.dropWhile_eq_nil_iff]
  constructor
  · intro h
    have hlength := h.exactly.length_eq
    simp only [keptFrames, List.length_append] at hlength
    exact List.eq_nil_of_length_eq_zero (by omega)
  · intro hrest
    have hkept : keptFrames frames splicePos = frames.take splicePos := by
      rw [keptFrames, hrest, List.append_nil]
    refine ⟨?_, ?_⟩
    · rw [hkept]
      exact List.sublist_append_left _ _
    · rw [hkept]

/-- A native stack whose boundary has one Smalltalk frame behind it. -/
def replacedFrames : List Frame :=
  [⟨"primitiveCallout", "X64SysVFFIPlugin.c", none, some "X64SysVFFIPlugin.c", 0⟩,
    ⟨"Foo>>bar", "Smalltalk", some "Squeak", some "Smalltalk", 0⟩]

theorem removesOnlyRun_iff_replacedFrames :
    RemovesOnlyRun ⟨false, fun _ => none⟩ replacedFrames 1 ["Baz>>qux"]
        (stitch ⟨false, fun _ => none⟩ replacedFrames ["Baz>>qux"]).1 ↔
      ∀ frame ∈ replacedFrames.drop 1, isReplaced frame = true :=
  removesOnlyRun_iff ⟨false, fun _ => none⟩ (by decide) (by decide)

/-- The same stack with its native root. -/
def rootedFrames : List Frame := replacedFrames ++ [⟨"main", "sqUnixMain.c", none, some "sqUnixMain.c", 0⟩]

/-- The root is cut off with the Smalltalk frame. -/
theorem rootedFrames_cut :
    ¬∀ (files : Filenames) (frames : List Frame) (splicePos : Nat) (cogFrames : List String),
      findInterpreterBoundary frames = some splicePos → cogFrames ≠ [] →
        RemovesOnlyRun files frames splicePos cogFrames (stitch files frames cogFrames).1 := by
  intro h
  have hremoves := h ⟨false, fun _ => none⟩ rootedFrames 1 ["Baz>>qux"] (by decide) (by decide)
  have hmain : "main" ∈ (stitch ⟨false, fun _ => none⟩ rootedFrames ["Baz>>qux"]).1.map (·.name) :=
    (hremoves.kept.map (·.name)).subset (by decide)
  have hnames : (stitch ⟨false, fun _ => none⟩ rootedFrames ["Baz>>qux"]).1.map (·.name) =
      ["primitiveCallout", "Baz>>qux", "Cog ceBaseFrameReturn"] := by decide
  rw [hnames] at hmain
  exact absurd hmain (by decide)

end StSpy
