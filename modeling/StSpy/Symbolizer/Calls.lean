import StSpy.Symbolizer.Scan

/-!
# Runs of the symbolizer

A run is a list of calls, each against the memory the target has then.
`walk_cog_frames` visits frames that depend on memory alone, so its effect on
the symbolizer is that of the `resolve_jit_pc` calls on the pcs of the JIT
frames it meets (`walkCogFrames_state`), and every run of calls is a run of
resolves (`runCalls_eq`).
-/

namespace StSpy

inductive Call where
  | resolveJitPc (pc : UInt64)
  | walkCogFrames

namespace Symbolizer

/-- The state after one call. -/
def call (s : Symbolizer) : Memory × Call → Symbolizer
  | (M, .resolveJitPc pc) => (s.resolveJitPc M pc).2
  | (M, .walkCogFrames) => (s.walkCogFrames M).2

def runCalls (s : Symbolizer) (calls : List (Memory × Call)) : Symbolizer := calls.foldl call s

/-- The state after a resolve. -/
def resolve (s : Symbolizer) (r : Memory × UInt64) : Symbolizer := (s.resolveJitPc r.1 r.2).2

def runResolves (s : Symbolizer) (rs : List (Memory × UInt64)) : Symbolizer := rs.foldl resolve s

/-! ## Expanding frame walks -/

/-- The pcs the frame walk resolves. -/
def framePcs (M : Memory) (heapBase : UInt64) : Nat → UInt64 → List UInt64
  | 0, _ => []
  | turns + 1, currentFp =>
    if currentFp = 0 then []
    else
      match M.copyU64 (currentFp - 8) with
      | none => []
      | some methodField =>
        (if methodField ≠ 0 ∧ methodField < heapBase then [methodField + cogMethodSize] else []) ++
          match M.copyU64 currentFp with
          | none => []
          | some callerFp =>
            if callerFp = currentFp ∨ callerFp = 0 then [] else framePcs M heapBase turns callerFp

/-- The pcs a call resolves. -/
def callPcs (cogFrameSymbols : Option CogFrameSymbols) (M : Memory) : Call → List UInt64
  | .resolveJitPc pc => [pc]
  | .walkCogFrames =>
    ((do
      let symbols ← cogFrameSymbols
      let fp ← M.copyU64 symbols.framePointerAddr
      if fp = 0 then none
      else
        let heapBase ← M.copyU64 symbols.heapBaseAddr
        return framePcs M heapBase cogFrameWalkLimit fp) : Option (List UInt64)).getD []

/-- The resolves of a run of calls, in order. -/
def expand (cogFrameSymbols : Option CogFrameSymbols) (calls : List (Memory × Call)) :
    List (Memory × UInt64) :=
  calls.flatMap fun (M, c) => (callPcs cogFrameSymbols M c).map fun pc => (M, pc)

theorem resolveFrameMethod_state (s : Symbolizer) (M : Memory) (methodField heapBase : UInt64) :
    (s.resolveFrameMethod M methodField heapBase).2 =
      s.runResolves (((if methodField ≠ 0 ∧ methodField < heapBase then
        [methodField + cogMethodSize] else []).map fun pc => (M, pc))) := by
  unfold resolveFrameMethod
  by_cases h0 : methodField = 0
  · rw [if_pos h0, if_neg (fun h => h.1 h0)]; rfl
  · by_cases hlt : methodField < heapBase
    · rw [if_neg h0, if_pos hlt, if_pos ⟨h0, hlt⟩]; rfl
    · rw [if_neg h0, if_neg hlt, if_neg (fun h => hlt h.2)]; rfl

theorem walkFrames_state (M : Memory) (heapBase : UInt64) : ∀ (turns : Nat) (fp : UInt64)
    (s : Symbolizer), (walkFrames M heapBase turns fp s).2 =
      s.runResolves ((framePcs M heapBase turns fp).map fun pc => (M, pc)) := by
  intro turns
  induction turns with
  | zero => intro fp s; rfl
  | succ turns ih =>
    intro fp s
    unfold walkFrames framePcs
    by_cases h0 : fp = 0
    · rw [if_pos h0, if_pos h0]; rfl
    rw [if_neg h0, if_neg h0]
    cases M.copyU64 (fp - 8) with
    | none => rfl
    | some methodField =>
      simp only [List.map_append, runResolves, List.foldl_append]
      have hstate := s.resolveFrameMethod_state M methodField heapBase
      simp only [runResolves] at hstate ih
      rw [← hstate]
      cases M.copyU64 fp with
      | none => rfl
      | some callerFp =>
        by_cases hend : callerFp = fp ∨ callerFp = 0
        · simp only [if_pos hend]; rfl
        · simp only [if_neg hend]; exact ih callerFp _

theorem walkCogFrames_state (s : Symbolizer) (M : Memory) :
    (s.walkCogFrames M).2 =
      s.runResolves ((callPcs s.cogFrameSymbols M .walkCogFrames).map fun pc => (M, pc)) := by
  unfold walkCogFrames callPcs
  cases s.cogFrameSymbols with
  | none => rfl
  | some symbols =>
    simp only [Option.bind_eq_bind, Option.bind_some]
    cases M.copyU64 symbols.framePointerAddr with
    | none => rfl
    | some fp =>
      simp only [Option.bind_some]
      by_cases h0 : fp = 0
      · rw [if_pos h0, if_pos h0]; rfl
      rw [if_neg h0, if_neg h0]
      cases M.copyU64 symbols.heapBaseAddr with
      | none => rfl
      | some heapBase => exact walkFrames_state M heapBase cogFrameWalkLimit fp s

/-! ## What no operation changes -/

/-- The fields fixed at construction. -/
structure SameTarget (s s' : Symbolizer) : Prop where
  maps : s'.maps = s.maps
  methodZoneSymbols : s'.methodZoneSymbols = s.methodZoneSymbols
  jitEntrySymbolSlots : s'.jitEntrySymbolSlots = s.jitEntrySymbolSlots
  cogFrameSymbols : s'.cogFrameSymbols = s.cogFrameSymbols

theorem SameTarget.rfl {s : Symbolizer} : s.SameTarget s := ⟨Eq.refl _, Eq.refl _, Eq.refl _, Eq.refl _⟩

theorem SameTarget.trans {s t u : Symbolizer} (h : s.SameTarget t) (h' : t.SameTarget u) :
    s.SameTarget u :=
  ⟨h'.maps.trans h.maps, h'.methodZoneSymbols.trans h.methodZoneSymbols,
    h'.jitEntrySymbolSlots.trans h.jitEntrySymbolSlots, h'.cogFrameSymbols.trans h.cogFrameSymbols⟩

theorem refresh_sameTarget (s : Symbolizer) (M : Memory) : s.SameTarget (s.refreshMethodZone M) := by
  have hcases := s.refreshMethodZone_cases M
  generalize s.refreshMethodZone M = s' at hcases
  cases hcases <;> exact ⟨rfl, rfl, rfl, rfl⟩

theorem settled_sameTarget (s : Symbolizer) (M : Memory) (pc : UInt64) :
    s.SameTarget (s.settled M pc) := by
  unfold settled
  split
  · exact s.refresh_sameTarget M
  · exact .rfl

theorem resolve_sameTarget (s : Symbolizer) (r : Memory × UInt64) : s.SameTarget (s.resolve r) := by
  have hcases := s.resolveJitPc_cases r.1 r.2
  have hset := s.settled_sameTarget r.1 r.2
  unfold resolve
  generalize s.resolveJitPc r.1 r.2 = res at hcases
  obtain ⟨answer, s'⟩ := res
  cases hcases with
  | cached => exact .rfl
  | known => exact ⟨rfl, rfl, rfl, rfl⟩
  | loaded => exact hset.trans ⟨rfl, rfl, rfl, rfl⟩
  | entry => exact hset.trans ⟨rfl, rfl, rfl, rfl⟩
  | scanned => exact hset.trans ⟨rfl, rfl, rfl, rfl⟩
  | generic => exact hset.trans ⟨rfl, rfl, rfl, rfl⟩

theorem runResolves_sameTarget (s : Symbolizer) (rs : List (Memory × UInt64)) :
    s.SameTarget (s.runResolves rs) := by
  induction rs generalizing s with
  | nil => exact .rfl
  | cons r rs ih => exact (s.resolve_sameTarget r).trans (ih (s.resolve r))

theorem runResolves_append (s : Symbolizer) (rs rs' : List (Memory × UInt64)) :
    s.runResolves (rs ++ rs') = (s.runResolves rs).runResolves rs' := List.foldl_append

/-- A run of calls is the run of its resolves. -/
theorem runCalls_eq (s : Symbolizer) (calls : List (Memory × Call)) :
    s.runCalls calls = s.runResolves (expand s.cogFrameSymbols calls) := by
  induction calls generalizing s with
  | nil => rfl
  | cons c calls ih =>
    obtain ⟨M, c⟩ := c
    have hc : s.call (M, c) =
        s.runResolves ((callPcs s.cogFrameSymbols M c).map fun pc => (M, pc)) := by
      cases c with
      | resolveJitPc pc => rfl
      | walkCogFrames => exact s.walkCogFrames_state M
    have hsym : (s.call (M, c)).cogFrameSymbols = s.cogFrameSymbols := by
      rw [hc]; exact (s.runResolves_sameTarget _).cogFrameSymbols
    show (s.call (M, c)).runCalls calls = _
    rw [ih, hsym, hc, ← runResolves_append]
    rfl

/-- A refresh leaves the cache alone or clears it. -/
theorem refresh_cache (s : Symbolizer) (M : Memory) :
    (s.refreshMethodZone M).resolvedPcs = s.resolvedPcs ∨
      (s.refreshMethodZone M).resolvedPcs = fun _ => none := by
  have hcases := s.refreshMethodZone_cases M
  generalize s.refreshMethodZone M = s' at hcases
  cases hcases with
  | moved => exact .inr rfl
  | _ => exact .inl rfl

theorem settled_cache (s : Symbolizer) (M : Memory) (pc : UInt64) :
    (s.settled M pc).resolvedPcs = s.resolvedPcs ∨ (s.settled M pc).resolvedPcs = fun _ => none := by
  unfold settled
  split
  · exact s.refresh_cache M
  · exact .inl rfl

/-- What the cache holds for a pc changes only by resolving it, or to nothing. -/
theorem resolve_cache {s : Symbolizer} {r : Memory × UInt64} {pc : UInt64} (hne : pc ≠ r.2) :
    (s.resolve r).resolvedPcs pc = s.resolvedPcs pc ∨ (s.resolve r).resolvedPcs pc = none := by
  have hother : ∀ (z : Symbolizer) answer, (z.cachePc r.2 answer).resolvedPcs pc = z.resolvedPcs pc :=
    fun _ _ => Function.update_of_ne hne _ _
  have hset : ∀ answer, ((s.settled r.1 r.2).cachePc r.2 answer).resolvedPcs pc = s.resolvedPcs pc ∨
      ((s.settled r.1 r.2).cachePc r.2 answer).resolvedPcs pc = none := fun answer => by
    rw [hother]
    exact (s.settled_cache r.1 r.2).imp (fun h => congrFun h pc) (fun h => congrFun h pc)
  have hcases := s.resolveJitPc_cases r.1 r.2
  unfold resolve
  generalize s.resolveJitPc r.1 r.2 = res at hcases
  obtain ⟨answer, s'⟩ := res
  cases hcases with
  | cached => exact .inl rfl
  | known => exact .inl (hother _ _)
  | loaded => exact hset _
  | entry => exact hset _
  | scanned => exact hset _
  | generic => exact hset _

theorem runResolves_cache {pc : UInt64} : ∀ (rs : List (Memory × UInt64)) {s : Symbolizer},
    (∀ r ∈ rs, pc ≠ r.2) → s.resolvedPcs pc = none → (s.runResolves rs).resolvedPcs pc = none
  | [], _, _, hc => hc
  | r :: rs, _, hne, hc => runResolves_cache rs (fun r' hr' => hne r' (List.mem_cons_of_mem _ hr'))
      ((resolve_cache (hne r List.mem_cons_self)).elim (·.trans hc) id)

/-! ## The invariant along runs -/

theorem Inv.resolve {s : Symbolizer} (h : s.Inv) (r : Memory × UInt64) : (s.resolve r).Inv := by
  have hcases := s.resolveJitPc_cases r.1 r.2
  have hset := h.settled r.1 r.2
  unfold Symbolizer.resolve
  generalize s.resolveJitPc r.1 r.2 = res at hcases
  obtain ⟨answer, s'⟩ := res
  cases hcases with
  | cached => exact h
  | known => exact h.cachePc _ _
  | loaded => exact hset.cachePc _ _
  | entry => exact hset.cachePc _ _
  | generic => exact hset.cachePc _ _
  | scanned hc hn hu he hr =>
    have hmeets := met_eq_some.mp hr
    exact (hset.insertRange hu hmeets.1 (r.1.readCogMethodAt_span hmeets.decoded).lt).cachePc _ _

theorem Inv.runResolves {s : Symbolizer} (h : s.Inv) (rs : List (Memory × UInt64)) :
    (s.runResolves rs).Inv := by
  induction rs generalizing s with
  | nil => exact h
  | cons r rs ih => exact ih (h.resolve r)

end Symbolizer

end StSpy
