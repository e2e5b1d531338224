import StSpy.Stitch.Callers

/-!
# Leaf and root of a finished stack

The splice cuts behind a boundary frame and the trimming behind a Smalltalk
method, so the innermost frame survives both; the trimming takes no method of
the image and leaves one at the root, if there is any.
-/

namespace StSpy

/-- Pass 2 and, with `hide_native_roots`, the trimming. -/
def finishFrames (hideNativeRoots : Bool) (files : Filenames) (frames : List Frame) (cogFrames : List String) :
    List Frame :=
  let stitched := (stitch files frames cogFrames).1
  if hideNativeRoots then trimNativeRoots stitched else stitched

theorem threadFrames_eq (hideNativeRoots : Bool) (M : Memory) (cogFrames : List String) (files : Filenames)
    (symbolizer : Symbolizer) (frames : List Frame) :
    let named := nameFrames M files symbolizer frames
    (threadFrames hideNativeRoots M cogFrames files symbolizer frames).1 =
      finishFrames hideNativeRoots named.2.1 named.1 cogFrames := rfl

/-- What the two steps leave of `frames`, with `stitched` in between. -/
structure Finished (hideNativeRoots : Bool) (frames stitched result : List Frame) : Prop where
  nonempty : result = [] → frames = []
  leaf : result.head? = frames.head?
  native : hideNativeRoots = false → ∀ splicePos, findInterpreterBoundary frames = some splicePos →
    result.take splicePos = frames.take splicePos
  rooted : hideNativeRoots = true → (∃ frame ∈ stitched, isSmalltalkMethod frame = true) →
    ∃ root, result.getLast? = some root ∧ isSmalltalkMethod root = true
  untrimmed : hideNativeRoots = true → (∀ frame ∈ stitched, isSmalltalkMethod frame = false) → result = stitched
  methods : result.filter isSmalltalkMethod = stitched.filter isSmalltalkMethod

variable {frames : List Frame} {splicePos : Nat} {cogFrames : List String}

/-! ## The splice -/

theorem lastBoundary_cases {i j : Nat} {boundary : Option Nat} (h : lastBoundary frames i boundary = some j) :
    boundary = some j ∨ (i ≤ j ∧ j < i + frames.length) := by
  induction frames generalizing i boundary with
  | nil => exact .inl h
  | cons frame frames ih =>
    rw [List.length_cons]
    rcases ih h with hb | ⟨hle, hlt⟩
    · split at hb
      · cases hb
        exact .inr ⟨le_rfl, by omega⟩
      · exact .inl hb
    · exact .inr ⟨by omega, by omega⟩

theorem boundary_bounds (h : findInterpreterBoundary frames = some splicePos) :
    0 < splicePos ∧ splicePos ≤ frames.length := by
  unfold findInterpreterBoundary at h
  split at h
  · cases h
  · obtain ⟨i, hi, rfl⟩ := Option.map_eq_some_iff.mp h
    rcases lastBoundary_cases hi with hnone | ⟨-, hlt⟩
    · cases hnone
    · omega

theorem stitch_take (files : Filenames) (h : findInterpreterBoundary frames = some splicePos) :
    (stitch files frames cogFrames).1.take splicePos = frames.take splicePos := by
  by_cases hne : cogFrames = []
  · simp [stitch, h, hne]
  · obtain ⟨short, hspliced⟩ := stitch_spliced files h hne
    have hlength : (frames.take splicePos).length = splicePos := by
      rw [List.length_take, min_eq_left (boundary_bounds h).2]
    rw [hspliced, List.take_left' hlength]

theorem stitch_head (files : Filenames) (frames : List Frame) (cogFrames : List String) :
    (stitch files frames cogFrames).1.head? = frames.head? := by
  cases h : findInterpreterBoundary frames with
  | none => simp [stitch, h]
  | some splicePos =>
    obtain ⟨hpos, -⟩ := boundary_bounds h
    have hhead : ∀ l : List Frame, (l.take splicePos).head? = l.head? := fun l => by
      rw [List.head?_take, if_neg (by omega)]
    rw [← hhead, stitch_take files h, hhead]

/-! ## The trimming -/

theorem trim_prefix (frames : List Frame) : trimNativeRoots frames <+: frames := by
  unfold trimNativeRoots
  split
  · exact List.rdropWhile_prefix _ _
  · exact List.prefix_rfl

theorem trim_root (h : ∃ frame ∈ frames, isSmalltalkMethod frame = true) :
    ∃ root, (trimNativeRoots frames).getLast? = some root ∧ isSmalltalkMethod root = true := by
  have hany : frames.any isSmalltalkMethod = true := List.any_eq_true.mpr h
  rw [trimNativeRoots, if_pos hany]
  have hne : frames.rdropWhile (fun frame => !isSmalltalkMethod frame) ≠ [] := by
    obtain ⟨frame, hframe, hmethod⟩ := h
    intro hnil
    simpa [hmethod] using List.rdropWhile_eq_nil_iff.mp hnil frame hframe
  refine ⟨_, List.getLast?_eq_some_getLast hne, ?_⟩
  simpa using List.rdropWhile_last_not _ _ hne

theorem trim_untouched (h : ∀ frame ∈ frames, isSmalltalkMethod frame = false) : trimNativeRoots frames = frames := by
  have hany : ¬frames.any isSmalltalkMethod = true := by simpa using h
  rw [trimNativeRoots, if_neg hany]

theorem trim_nil (h : trimNativeRoots frames = []) : frames = [] := by
  by_cases hmethod : ∃ frame ∈ frames, isSmalltalkMethod frame = true
  · obtain ⟨root, hroot, -⟩ := trim_root hmethod
    rw [h] at hroot
    cases hroot
  · rwa [trim_untouched (by simpa using hmethod)] at h

theorem trim_head (frames : List Frame) : (trimNativeRoots frames).head? = frames.head? := by
  obtain ⟨rest, hrest⟩ := trim_prefix frames
  cases htrim : trimNativeRoots frames with
  | nil => rw [trim_nil htrim]
  | cons leaf others =>
    rw [htrim] at hrest
    rw [← hrest]
    rfl

theorem trim_methods (frames : List Frame) :
    (trimNativeRoots frames).filter isSmalltalkMethod = frames.filter isSmalltalkMethod := by
  unfold trimNativeRoots
  split
  · have hnative : ∀ frame ∈ frames.rtakeWhile fun frame => !isSmalltalkMethod frame,
        ¬isSmalltalkMethod frame = true := fun frame hframe => by
      simpa using List.mem_rtakeWhile_imp hframe
    conv_rhs => rw [← List.rdropWhile_append_rtakeWhile (p := fun frame => !isSmalltalkMethod frame) (l := frames)]
    rw [List.filter_append, List.filter_eq_nil_iff.mpr hnative, List.append_nil]
  · rfl

/-- The innermost frame stays, and with `hide_native_roots` the stack is rooted
in its outermost Smalltalk method. -/
theorem finishFrames_finished (hideNativeRoots : Bool) (files : Filenames) (frames : List Frame)
    (cogFrames : List String) :
    Finished hideNativeRoots frames (stitch files frames cogFrames).1
      (finishFrames hideNativeRoots files frames cogFrames) := by
  have hleaf : (finishFrames hideNativeRoots files frames cogFrames).head? = frames.head? := by
    unfold finishFrames
    split
    · rw [trim_head, stitch_head]
    · rw [stitch_head]
  refine ⟨fun hnil => ?_, hleaf, ?_, ?_, ?_, ?_⟩
  · rw [hnil] at hleaf
    exact List.head?_eq_none_iff.mp hleaf.symm
  · rintro rfl splicePos hb
    exact stitch_take files hb
  · rintro rfl hmethod
    exact trim_root hmethod
  · rintro rfl hnone
    exact trim_untouched hnone
  · unfold finishFrames
    split
    · exact trim_methods _
    · rfl

end StSpy
