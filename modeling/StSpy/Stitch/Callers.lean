import StSpy.Stitch

/-!
# Smalltalk callers after stitching

The splice drops from the Cog chain every method that has the name of a native
Smalltalk method, and from the native stack every frame behind the boundary. It
loses no caller exactly when what it drops from the chain, and all that comes
before it there, is found in order on the native stack before the boundary.
-/

namespace StSpy

/-- Dropping from `l` what fails `q`, behind `kept`, loses nothing exactly when
`kept` has `l` up to its last element that fails `q`. -/
theorem sublist_splice_iff {α : Type} {q : α → Bool} {l kept tail : List α} (htail : ∀ x ∈ tail, q x = true) :
    l.Sublist (kept ++ (l.filter q ++ tail)) ↔ (l.rdropWhile q).Sublist kept := by
  constructor
  · intro h
    obtain ⟨m₁, m₂, hm, h₁, h₂⟩ := List.sublist_append_iff.mp ((l.rdropWhile_prefix q).sublist.trans h)
    rcases List.eq_nil_or_concat m₂ with rfl | ⟨m₂, e, rfl⟩
    · rw [hm, List.append_nil]
      exact h₁
    · -- the last element fails `q`, but was found behind `kept`
      rw [List.concat_eq_append] at hm h₂
      have hlast : q e = true := by
        have he : e ∈ l.filter q ++ tail := h₂.subset (by simp)
        rcases List.mem_append.mp he with he | he
        · exact (List.mem_filter.mp he).2
        · exact htail e he
      have hne : l.rdropWhile q ≠ [] := by simp [hm]
      have hfail := List.rdropWhile_last_not q l hne
      simp only [hm, ← List.append_assoc, List.getLast_append_singleton] at hfail
      exact absurd hlast hfail
  · intro h
    have hadded : (l.rtakeWhile q).Sublist (l.filter q) := by
      have hall : (l.rtakeWhile q).filter q = l.rtakeWhile q :=
        List.filter_eq_self.mpr fun x hx => List.mem_rtakeWhile_imp hx
      rw [← hall]
      exact (l.rtakeWhile_suffix q).sublist.filter q
    calc l = l.rdropWhile q ++ l.rtakeWhile q := l.rdropWhile_append_rtakeWhile.symm
      List.Sublist _ (kept ++ l.filter q) := h.append hadded
      List.Sublist _ (kept ++ (l.filter q ++ tail)) := by
        rw [← List.append_assoc]
        exact List.sublist_append_left _ _

/-- The names of the Smalltalk frames, trampolines included. -/
def smalltalkNames (frames : List Frame) : List String :=
  (frames.filter fun frame => frame.filename = "Smalltalk").map (·.name)

/-- The chain is found among the Smalltalk names of the result, with
multiplicity, and a name dropped as a duplicate is that of a native frame kept. -/
structure KeepsCallers (frames : List Frame) (splicePos : Nat) (cogFrames : List String)
    (result : List Frame) : Prop where
  chain : cogFrames.Sublist (smalltalkNames result)
  counts : ∀ name, cogFrames.count name ≤ (smalltalkNames result).count name
  dropped : ∀ name ∈ cogFrames, name ∈ existingStNames frames →
    ∃ frame ∈ frames.take splicePos, frame ∈ result ∧ frame.filename = "Smalltalk" ∧ frame.name = name

/-- The part of the chain up to its last name that some native method has. -/
def duplicated (frames : List Frame) (cogFrames : List String) : List String :=
  cogFrames.rdropWhile fun name => !(existingStNames frames).contains name

theorem smalltalkNames_append (l m : List Frame) :
    smalltalkNames (l ++ m) = smalltalkNames l ++ smalltalkNames m := by
  simp [smalltalkNames]

theorem smalltalkNames_cogFrame (short : Option String) (names : List String) :
    smalltalkNames (names.map (cogFrame short)) = names := by
  simp [smalltalkNames, List.filter_map, Function.comp_def, cogFrame]

variable {frames : List Frame} {splicePos : Nat} {cogFrames : List String}

theorem stitch_spliced (files : Filenames) (hb : findInterpreterBoundary frames = some splicePos)
    (hne : cogFrames ≠ []) :
    ∃ short, (stitch files frames cogFrames).1 = frames.take splicePos ++
      ((cogFrames.filter fun name => !(existingStNames frames).contains name) ++
        ["Cog ceBaseFrameReturn"]).map (cogFrame short) := by
  refine ⟨(files.shorten "Smalltalk").1, ?_⟩
  simp [stitch, hb, hne, spliceCogFrames]

/-- The synthetic root has no method's name. -/
theorem root_not_existing (frames : List Frame) : "Cog ceBaseFrameReturn" ∉ existingStNames frames := by
  intro h
  obtain ⟨frame, hframe, hname⟩ := List.mem_map.mp h
  have hmethod := (List.mem_filter.mp hframe).2
  rw [isSmalltalkMethod, hname] at hmethod
  have hcog : startsWith "Cog ceBaseFrameReturn" "Cog " = true := by decide
  simp [hcog] at hmethod

/-- Stitching keeps the Smalltalk callers exactly when the chain, up to its last
name that some native method has, is found in order before the boundary. -/
theorem keepsCallers_iff (files : Filenames) (hb : findInterpreterBoundary frames = some splicePos)
    (hne : cogFrames ≠ []) :
    KeepsCallers frames splicePos cogFrames (stitch files frames cogFrames).1 ↔
      (duplicated frames cogFrames).Sublist (smalltalkNames (frames.take splicePos)) := by
  obtain ⟨short, hresult⟩ := stitch_spliced files hb hne
  have hnames : smalltalkNames (stitch files frames cogFrames).1 =
      smalltalkNames (frames.take splicePos) ++
        ((cogFrames.filter fun name => !(existingStNames frames).contains name) ++
          ["Cog ceBaseFrameReturn"]) := by
    rw [hresult, smalltalkNames_append, smalltalkNames_cogFrame]
  have hroot : ∀ name ∈ ["Cog ceBaseFrameReturn"], (!(existingStNames frames).contains name) = true := by
    simpa using root_not_existing frames
  have hiff : cogFrames.Sublist (smalltalkNames (frames.take splicePos) ++
      ((cogFrames.filter fun name => !(existingStNames frames).contains name) ++ ["Cog ceBaseFrameReturn"])) ↔
      (duplicated frames cogFrames).Sublist (smalltalkNames (frames.take splicePos)) := sublist_splice_iff hroot
  constructor
  · intro h
    have := h.chain
    rw [hnames] at this
    exact hiff.mp this
  · intro h
    have hchain : cogFrames.Sublist (smalltalkNames (stitch files frames cogFrames).1) := by
      rw [hnames]
      exact hiff.mpr h
    refine ⟨hchain, fun name => hchain.count_le name, fun name hname hexisting => ?_⟩
    have hdup : name ∈ duplicated frames cogFrames := by
      have hparts := cogFrames.rdropWhile_append_rtakeWhile
        (p := fun name => !(existingStNames frames).contains name)
      rw [← hparts] at hname
      rcases List.mem_append.mp hname with hname | hname
      · exact hname
      · have hnot := List.mem_rtakeWhile_imp hname
        simp [hexisting] at hnot
    obtain ⟨frame, hframe, hframename⟩ := List.mem_map.mp (h.subset hdup)
    obtain ⟨hkept, hfile⟩ := List.mem_filter.mp hframe
    exact ⟨frame, hkept, hresult ▸ List.mem_append_left _ hkept, of_decide_eq_true hfile, hframename⟩

/-- A callout out of a method, which the native unwinder has also seen, behind
the boundary. -/
def calloutFrames : List Frame :=
  [⟨"primitiveCallout", "X64SysVFFIPlugin.c", none, some "X64SysVFFIPlugin.c", 0⟩,
    ⟨"Foo>>bar", "Smalltalk", some "Squeak", some "Smalltalk", 0⟩]

def noFilenames : Filenames := { fullFilenames := false, shortFilenames := fun _ => none }

theorem keepsCallers_iff_calloutFrames :
    KeepsCallers calloutFrames 1 ["Baz>>qux"] (stitch noFilenames calloutFrames ["Baz>>qux"]).1 ↔
      (duplicated calloutFrames ["Baz>>qux"]).Sublist (smalltalkNames (calloutFrames.take 1)) :=
  keepsCallers_iff noFilenames (by decide) (by decide)

/-- The method is cut off with the native frames behind the boundary, and
dropped from the chain because it was there. -/
theorem calloutFrames_lost :
    ¬∀ (files : Filenames) (frames : List Frame) (splicePos : Nat) (cogFrames : List String),
      findInterpreterBoundary frames = some splicePos → cogFrames ≠ [] →
        KeepsCallers frames splicePos cogFrames (stitch files frames cogFrames).1 := by
  intro h
  have hkeeps := h noFilenames calloutFrames 1 ["Foo>>bar", "Baz>>qux"] (by decide) (by decide)
  have hcount := hkeeps.counts "Foo>>bar"
  have hnames : smalltalkNames (stitch noFilenames calloutFrames ["Foo>>bar", "Baz>>qux"]).1 =
      ["Baz>>qux", "Cog ceBaseFrameReturn"] := by decide
  rw [hnames] at hcount
  exact absurd hcount (by decide)

end StSpy
