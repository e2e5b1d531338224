import StSpy.Symbolizer
import StSpy.Lib.Chains

/-!
# The frame chain

`walk_cog_frames` follows the callers from the VM's frame pointer and reads the
method field of each frame. The fields it comes to are the longest readable
prefix of the chain, whatever the symbolizer knows: resolving them in between
changes names, not frames.
-/

namespace StSpy

/-- `FP[0]`, unless the chain ends there. -/
def callerOf (M : Memory) (fp : UInt64) : Option UInt64 :=
  (M.copyU64 fp).filter fun callerFp => callerFp ≠ 0 ∧ callerFp ≠ fp

/-- `FP[-8]`. -/
def methodFieldOf (M : Memory) (fp : UInt64) : Option UInt64 := M.copyU64 (fp - 8)

/-- The method fields of the first frames from `fp`. -/
abbrev VisitedFields (M : Memory) (fp : UInt64) (fields : List UInt64) : Prop :=
  Chains.LongestPrefix (callerOf M) (methodFieldOf M) cogFrameWalkLimit fp fields

namespace Symbolizer

/-- The names of frames with these method fields, each resolved with what the
symbolizer knows by then. -/
def resolveFields (M : Memory) (heapBase : UInt64) : List UInt64 → Symbolizer → List String × Symbolizer
  | [], s => ([], s)
  | methodField :: fields, s =>
    let (name, s) := s.resolveFrameMethod M methodField heapBase
    let (names, s) := resolveFields M heapBase fields s
    (name.toList ++ names, s)

variable {M : Memory} {heapBase fp : UInt64}

/-- Of a link that can be read, the chain ends at those that the walk does not follow. -/
theorem callerOf_link {callerFp : UInt64} (h : M.copyU64 fp = some callerFp) :
    callerOf M fp = if callerFp = fp ∨ callerFp = 0 then none else some callerFp := by
  rw [callerOf, h, Option.filter_some]
  by_cases hend : callerFp = fp ∨ callerFp = 0
  · rw [if_pos hend, if_neg]
    simp only [ne_eq, decide_eq_true_eq, not_and_or, not_not]
    exact hend.symm
  · rw [if_neg hend, if_pos]
    simp only [ne_eq, decide_eq_true_eq]
    exact ⟨fun h => hend (.inr h), fun h => hend (.inl h)⟩

theorem walkFrames_eq (M : Memory) (heapBase : UInt64) (turns : Nat) {fp : UInt64} (hfp : fp ≠ 0)
    (s : Symbolizer) :
    walkFrames M heapBase turns fp s =
      resolveFields M heapBase (Chains.follow (callerOf M) (methodFieldOf M) turns fp) s := by
  induction turns generalizing fp s with
  | zero => rfl
  | succ turns ih =>
    rw [walkFrames, if_neg hfp, Chains.follow, methodFieldOf]
    cases M.copyU64 (fp - 8) with
    | none => rfl
    | some methodField =>
      simp only [resolveFields]
      cases hlink : M.copyU64 fp with
      | none => simp [callerOf, hlink, resolveFields]
      | some callerFp =>
        rw [callerOf_link hlink]
        by_cases hend : callerFp = fp ∨ callerFp = 0
        · simp [hend, resolveFields]
        · simp only [if_neg hend, Option.map_some, Option.getD_some, ih fun h => hend (.inr h)]

variable {symbols : CogFrameSymbols}

theorem walkCogFrames_eq (hfp : M.copyU64 symbols.framePointerAddr = some fp)
    (hheap : M.copyU64 symbols.heapBaseAddr = some heapBase) (hne : fp ≠ 0) {s : Symbolizer}
    (hsymbols : s.cogFrameSymbols = some symbols) :
    s.walkCogFrames M =
      resolveFields M heapBase (Chains.follow (callerOf M) (methodFieldOf M) cogFrameWalkLimit fp) s := by
  simp only [walkCogFrames, hsymbols, hfp, hheap, if_neg hne]
  exact walkFrames_eq M heapBase cogFrameWalkLimit hne s

/-- Any list that is the longest readable prefix of the chain is the one walked. -/
theorem walkCogFrames_of_visited (hfp : M.copyU64 symbols.framePointerAddr = some fp)
    (hheap : M.copyU64 symbols.heapBaseAddr = some heapBase) (hne : fp ≠ 0) {s : Symbolizer}
    (hsymbols : s.cogFrameSymbols = some symbols) {fields : List UInt64} (hfields : VisitedFields M fp fields) :
    s.walkCogFrames M = resolveFields M heapBase fields s := by
  rw [walkCogFrames_eq hfp hheap hne hsymbols, (Chains.longestPrefix_follow _ _ _ fp).unique hfields]

/-- The walk names the frames of the longest readable prefix of the chain, which
does not depend on the symbolizer. -/
theorem walkCogFrames_chain {symbols : CogFrameSymbols} (M : Memory) (fp heapBase : UInt64)
    (hfp : M.copyU64 symbols.framePointerAddr = some fp) (hheap : M.copyU64 symbols.heapBaseAddr = some heapBase)
    (hne : fp ≠ 0) :
    ∃ fields, VisitedFields M fp fields ∧ ∀ s : Symbolizer, s.cogFrameSymbols = some symbols →
      s.walkCogFrames M = resolveFields M heapBase fields s := by
  have hfollow := Chains.longestPrefix_follow (callerOf M) (methodFieldOf M) cogFrameWalkLimit fp
  exact ⟨_, hfollow, fun s hsymbols => walkCogFrames_of_visited hfp hheap hne hsymbols hfollow⟩

def frameSymbols : CogFrameSymbols := { framePointerAddr := 0x100, heapBaseAddr := 0x108 }

/-- Two frames that refer to each other, one of them with no method. -/
def circleImage : Memory :=
  .ofWords [(0x100, 0x8000), (0x108, 0x1000), (0x7ff8, 0), (0x8000, 0x9000), (0x8ff8, 0x20), (0x9000, 0x8000)]

theorem walkCogFrames_chain_circleImage :
    ∃ fields, VisitedFields circleImage 0x8000 fields ∧ ∀ s : Symbolizer, s.cogFrameSymbols = some frameSymbols →
      s.walkCogFrames circleImage = resolveFields circleImage 0x1000 fields s :=
  walkCogFrames_chain circleImage 0x8000 0x1000 (by decide) (by decide) (by decide)

end Symbolizer

end StSpy
