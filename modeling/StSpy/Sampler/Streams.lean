import StSpy.Sampler.Rounds

/-!
# What the samples tell of a process

The samples list the results of all processes, round by round. Of each process they
tell what its worker has sent: nothing is lost, told twice or out of order, whichever
way the threads interleave.
-/

namespace StSpy

variable {α : Type}

namespace SpyThread

variable {spy spy' : SpyThread α}

theorem collect_collected {round : Nat} {result : Option α} (h : spy.collect round = some (result, spy')) :
    spy'.collected.map (·.2.2) = spy.collected.map (·.2.2) ++ result.toList := by
  obtain ⟨_, _, _, _, rfl, hcollected, -⟩ := collect_frame h
  exact hcollected

theorem isInitialized_collected (spy : SpyThread α) : spy.isInitialized.2.collected = spy.collected := by
  obtain ⟨_, _, _, hframe⟩ := spy.isInitialized_frame
  rw [hframe]

theorem notify_collected (round : Nat) (spy : SpyThread α) : (spy.notify round).collected = spy.collected := by
  obtain ⟨_, _, _, hframe⟩ := spy.notify_frame round
  rw [hframe]

theorem waitInitialized_collected {ok : Bool} (h : spy.waitInitialized = some (ok, spy')) :
    spy'.collected = spy.collected := by
  obtain ⟨_, _, _, rfl⟩ := waitInitialized_frame h
  rfl

end SpyThread

def SamplerPc.asking : SamplerPc → Bool
  | .checking _ | .notifying _ _ => true
  | _ => false

namespace SamplerState

variable {s s' : SamplerState α}

/-! ## What the sampling thread does with the results -/

inductive RoundMoves (s : SamplerState α) : SamplerState α → Prop where
  | skip : RoundMoves s s
  | lock {order : List Pid} (hpc : s.sampler = .idle) :
      RoundMoves s { s with sampler := .checking order, round := s.round + 1, results := [] }
  | check {pid : Pid} {todo : List Pid} {spy : SpyThread α} (hpc : s.sampler = .checking (pid :: todo))
      (hspy : s.spies.lookup pid = some spy) :
      RoundMoves s { s with
        sampler := if spy.isInitialized.1 then .notifying pid todo else .checking todo
        spies := s.spies.insert pid spy.isInitialized.2 }
  | notify {pid : Pid} {todo : List Pid} {spy : SpyThread α} (hpc : s.sampler = .notifying pid todo)
      (hspy : s.spies.lookup pid = some spy) :
      RoundMoves s { s with sampler := .checking todo, spies := s.spies.insert pid (spy.notify s.round) }
  | iterate {order : List Pid} (hpc : s.sampler = .checking []) (horder : order.Perm s.spies.keys) :
      RoundMoves s { s with sampler := .collecting order }
  | collect {pid : Pid} {todo : List Pid} {spy spy' : SpyThread α} {result : Option α}
      (hpc : s.sampler = .collecting (pid :: todo)) (hspy : s.spies.lookup pid = some spy)
      (hcollect : spy.collect s.round = some (result, spy')) :
      RoundMoves s { s with
        sampler := .collecting todo
        spies := s.spies.insert pid spy'
        results := s.results ++ (result.map fun r => (pid, r)).toList }
  | send (hpc : s.sampler = .collecting []) :
      RoundMoves s { s with sampler := .testing, samples := s.samples ++ [s.results] }
  | leave (hpc : s.sampler = .collecting []) : RoundMoves s { s with sampler := .finished .receiverGone }
  | test (hpc : s.sampler = .testing) :
      RoundMoves s { s with sampler := if s.allStopped then .finished .allStopped else .idle }

theorem samplerStep_roundMoves {action : SamplerAction} (h : s.samplerStep action = some s') : RoundMoves s s' := by
  simp only [samplerStep] at h
  split at h
  · split at h
    case h_1 hpc =>
      split at h
      · cases h
      · split at h
        · cases h
          exact .skip
        · split at h
          · cases h
            exact .lock hpc
          · cases h
    case h_2 hpc =>
      split at h
      · cases h
      · rename_i hspy
        cases h
        exact .check hpc hspy
    case h_3 hpc =>
      split at h
      · cases h
      · rename_i hspy
        cases h
        exact .notify hpc hspy
    case h_4 hpc =>
      split at h
      · rename_i horder
        cases h
        exact .iterate hpc horder
      · cases h
    case h_5 hpc =>
      split at h
      · cases h
      · rename_i hspy
        split at h
        · cases h
        · rename_i hcollect
          cases h
          exact .collect hpc hspy hcollect
    case h_6 hpc =>
      split at h
      · cases h
        exact .send hpc
      · cases h
        exact .leave hpc
    case h_7 hpc =>
      cases h
      exact .test hpc
    case h_8 => cases h
  · cases h

/-! ## One process -/

/-- The results of one process, in their order. -/
def resultsOf (pid : Pid) (results : List (Pid × α)) : List α :=
  results.filterMap fun r => if r.1 = pid then some r.2 else none

theorem mem_resultsOf {pid : Pid} {r : α} {results : List (Pid × α)} :
    r ∈ resultsOf pid results ↔ (pid, r) ∈ results := by
  rw [resultsOf, List.mem_filterMap]
  constructor
  · rintro ⟨⟨other, told⟩, hmem, heq⟩
    dsimp only at heq
    split at heq
    · rename_i hpid
      cases heq
      exact hpid ▸ hmem
    · cases heq
  · intro hmem
    exact ⟨_, hmem, if_pos rfl⟩

theorem resultsOf_cons (pid : Pid) (r : α) (l : List (Pid × α)) :
    resultsOf pid ((pid, r) :: l) = r :: resultsOf pid l :=
  List.filterMap_cons_some (if_pos rfl)

theorem resultsOf_cons_ne {pid other : Pid} (hne : other ≠ pid) (r : α) (l : List (Pid × α)) :
    resultsOf other ((pid, r) :: l) = resultsOf other l := List.filterMap_cons_none (if_neg hne.symm)

theorem resultsOf_append (pid : Pid) (l m : List (Pid × α)) :
    resultsOf pid (l ++ m) = resultsOf pid l ++ resultsOf pid m := List.filterMap_append

theorem resultsOf_result (pid : Pid) (result : Option α) :
    resultsOf pid (result.map fun r => (pid, r)).toList = result.toList := by
  cases result with
  | none => rfl
  | some r => exact resultsOf_cons pid r []

theorem resultsOf_result_ne {pid other : Pid} (hne : other ≠ pid) (result : Option α) :
    resultsOf other (result.map fun r => (pid, r)).toList = [] := by
  cases result with
  | none => rfl
  | some r => exact resultsOf_cons_ne hne r []

/-- What has been collected for the samples, those of the round at hand included. -/
def told (s : SamplerState α) : List (Pid × α) :=
  s.samples.flatten ++
    match s.sampler with
    | .collecting _ => s.results
    | _ => []

theorem told_of_not_collecting (h : ∀ todo, s.sampler ≠ .collecting todo) : s.told = s.samples.flatten := by
  unfold told
  split
  · rename_i hpc
    exact absurd hpc (h _)
  · exact List.append_nil _

theorem told_collecting {todo : List Pid} (h : s.sampler = .collecting todo) :
    s.told = s.samples.flatten ++ s.results := by rw [told, h]

/-- What is told of a process is what has been collected from its worker, as long as there is somebody to tell. -/
def Tells (s : SamplerState α) (pid : Pid) (spy : SpyThread α) : Prop :=
  resultsOf pid s.told <+: spy.collected.map (·.2.2) ∧
    (s.sampler ≠ .finished .receiverGone → resultsOf pid s.told = spy.collected.map (·.2.2))

structure Streams (s : SamplerState α) : Prop where
  absent : ∀ pid, s.spies.lookup pid = none → resultsOf pid s.told = []
  present : ∀ pid spy, s.spies.lookup pid = some spy → s.Tells pid spy
  asking : s.sampler.asking = true → s.results = []
  discovery : s.main ≠ .sampling → s.told = []

theorem Tells.collected {pid : Pid} {spy spy' : SpyThread α} (h : s.Tells pid spy)
    (hcollected : spy'.collected = spy.collected) : s.Tells pid spy' := by
  unfold Tells
  rw [hcollected]
  exact h

/-- Nothing has been collected from a new spy. -/
theorem tells_new {pid : Pid} (h : resultsOf pid s.told = []) (parent : Option Pid) (commandLine : String) :
    s.Tells pid (.new parent commandLine) := by
  unfold Tells
  rw [h]
  exact ⟨List.nil_prefix, fun _ => rfl⟩

theorem lookup_none_of_insert {spies : Spies α} {pid other : Pid} {spy : SpyThread α}
    (h : (spies.insert pid spy).lookup other = none) : spies.lookup other = none := by
  by_contra hsome
  obtain ⟨old, hold⟩ := Option.ne_none_iff_exists'.mp hsome
  have hinsert : ((spies.insert pid spy).lookup other).isSome = true :=
    isSome_insert spy (Option.isSome_of_eq_some hold)
  rw [h] at hinsert
  cases hinsert

theorem Streams.start (pid : Pid) (commandLine : String) : (start pid commandLine : SamplerState α).Streams where
  absent _ _ := rfl
  present := forall_insert (fun other spy hspy _ => by cases hspy) (tells_new rfl none commandLine)
  asking h := by cases h
  discovery _ := rfl

/-- One spy changes, or is new. -/
theorem Streams.insert (h : s.Streams) {pid : Pid} {spy : SpyThread α} (hspy : s.Tells pid spy) :
    ({ s with spies := s.spies.insert pid spy } : SamplerState α).Streams where
  absent other hnone := h.absent other (lookup_none_of_insert hnone)
  present := forall_insert (fun other spy hother _ => h.present other spy hother) hspy
  asking := h.asking
  discovery := h.discovery

/-- The sampling thread moves on, with as much told as before. -/
theorem Streams.goesTo (h : s.Streams) (hhere : s.sampler ≠ .finished .receiverGone) {pc : SamplerPc} {round : Nat}
    {results : List (Pid × α)} {samples : List (List (Pid × α))}
    (htold : { s with sampler := pc, round, results, samples }.told = s.told)
    (hasking : pc.asking = true → results = []) :
    ({ s with sampler := pc, round, results, samples } : SamplerState α).Streams where
  absent pid hnone := htold ▸ h.absent pid hnone
  present pid spy hspy := by
    obtain ⟨-, hwhole⟩ := h.present pid spy hspy
    unfold Tells
    rw [htold, hwhole hhere]
    exact ⟨List.prefix_rfl, fun _ => rfl⟩
  asking := hasking
  discovery hmain := htold ▸ h.discovery hmain

theorem Streams.sampler (h : s.Streams) (hmain : s.main = .sampling) (hmoves : RoundMoves s s') : s'.Streams := by
  cases hmoves with
  | skip => exact h
  | lock hpc =>
    refine h.goesTo (by simp [hpc]) ?_ fun _ => rfl
    rw [told_of_not_collecting (s := s) (by simp [hpc])]
    exact List.append_nil _
  | @check pid todo spy hpc hspy =>
    have hresults := h.asking (by rw [hpc]; rfl)
    have hinsert := h.insert ((h.present pid spy hspy).collected spy.isInitialized_collected)
    refine hinsert.goesTo (by simp [hpc]) ?_ fun _ => hresults
    rw [told_of_not_collecting, told_of_not_collecting]
    · simp [hpc]
    · intro todo
      split <;> simp
  | @notify pid todo spy hpc hspy =>
    have hresults := h.asking (by rw [hpc]; rfl)
    have hinsert := h.insert ((h.present pid spy hspy).collected (spy.notify_collected s.round))
    refine hinsert.goesTo (by simp [hpc]) ?_ fun _ => hresults
    rw [told_of_not_collecting, told_of_not_collecting]
    · simp [hpc]
    · simp
  | iterate hpc =>
    have hresults := h.asking (by rw [hpc]; rfl)
    refine h.goesTo (by simp [hpc]) ?_ fun hasking => by cases hasking
    rw [told_collecting rfl, told_of_not_collecting (s := s) (by simp [hpc]), hresults]
    exact List.append_nil _
  | @collect pid todo spy spy' result hpc hspy hcollect =>
    have hhere : s.sampler ≠ .finished .receiverGone := by simp [hpc]
    have hcollected := SpyThread.collect_collected hcollect
    have htold : ({ s with
        sampler := .collecting todo
        spies := s.spies.insert pid spy'
        results := s.results ++ (result.map fun r => (pid, r)).toList } : SamplerState α).told =
        s.told ++ (result.map fun r => (pid, r)).toList := by
      rw [told_collecting rfl, told_collecting hpc, List.append_assoc]
    have hothers : ∀ other, other ≠ pid →
        resultsOf other (s.told ++ (result.map fun r => (pid, r)).toList) = resultsOf other s.told := by
      intro other hne
      rw [resultsOf_append, resultsOf_result_ne hne, List.append_nil]
    refine ⟨fun other hnone => ?_, ?_, (fun hasking => by cases hasking), fun hnot => absurd hmain hnot⟩
    · have hnone' := lookup_none_of_insert hnone
      have hne : other ≠ pid := by
        rintro rfl
        rw [hspy] at hnone'
        cases hnone'
      rw [htold, hothers other hne]
      exact h.absent other hnone'
    · refine forall_insert (fun other old hold hne => ?_) ?_
      · have hold' := h.present other old hold
        unfold Tells at hold' ⊢
        rw [htold, hothers other hne]
        exact ⟨hold'.1, fun _ => hold'.2 hhere⟩
      · have hwhole := (h.present pid spy hspy).2 hhere
        unfold Tells
        rw [htold, hcollected, resultsOf_append, resultsOf_result, hwhole]
        exact ⟨List.prefix_rfl, fun _ => rfl⟩
  | send hpc =>
    refine h.goesTo (by simp [hpc]) ?_ fun hasking => by cases hasking
    rw [told_of_not_collecting (by simp), told_collecting hpc, List.flatten_concat]
  | leave hpc =>
    -- the results of the round are told to nobody
    have hfirst : ∀ pid, resultsOf pid s.samples.flatten <+: resultsOf pid s.told := by
      intro pid
      rw [told_collecting hpc, resultsOf_append]
      exact List.prefix_append _ _
    have htold : ({ s with sampler := .finished .receiverGone } : SamplerState α).told = s.samples.flatten :=
      List.append_nil _
    refine ⟨fun pid hnone => ?_, fun pid spy hspy => ⟨?_, fun hhere => absurd rfl hhere⟩,
      (fun hasking => by cases hasking), fun hnot => absurd hmain hnot⟩
    · have hnothing := h.absent pid hnone ▸ hfirst pid
      rw [htold]
      exact List.prefix_nil.mp hnothing
    · rw [htold]
      exact (hfirst pid).trans (h.present pid spy hspy).1
  | test hpc =>
    refine h.goesTo (by simp [hpc]) ?_ fun hasking => ?_
    · rw [told_of_not_collecting (s := s) (by simp [hpc]), told_of_not_collecting]
      intro todo
      split <;> simp
    · split at hasking <;> cases hasking

theorem Streams.main (h : s.Streams) (hmain : s.main ≠ .sampling) (hmoves : MainMoves s s') : s'.Streams := by
  have htold := h.discovery hmain
  cases hmoves with
  | still => exact { h with discovery := fun _ => htold }
  | create hmain pid parent commandLine =>
    have hnothing : resultsOf pid s.told = [] := by
      rw [htold]
      rfl
    exact { h.insert (tells_new hnothing (some parent) commandLine) with discovery := fun _ => htold }
  | waitInitialized hspy hwait =>
    exact { h.insert ((h.present _ _ hspy).collected (SpyThread.waitInitialized_collected hwait)) with
      discovery := fun _ => htold }

theorem Streams.monitor (h : s.Streams) (hmoves : MonitorMoves s s') : s'.Streams := by
  cases hmoves with
  | still => exact { h with }
  | create _ hnew parent commandLine =>
    exact { h.insert (tells_new (h.absent _ hnew) (some parent) commandLine) with }

theorem Streams.step (h : s.Streams) {event : SamplerEvent α} (hstep : s.step event = some s') : s'.Streams := by
  cases event with
  | worker pid action =>
    obtain ⟨spy, spy', hspy, hwork, rfl⟩ := step_worker hstep
    exact h.insert ((h.present pid spy hspy).collected (SpyThread.moved hwork).collected)
  | main action => exact h.main (mainStep_moves hstep).1 (mainStep_moves hstep).2
  | monitor action => exact h.monitor (monitorStep_moves hstep).2
  | sampler action => exact h.sampler (samplerStep_moves hstep).1 (samplerStep_roundMoves hstep)
  | dropReceiver =>
    obtain ⟨-, rfl⟩ := step_dropReceiver hstep
    exact { h with }

/-- What the samples tell of a process was sent by its worker, in order; between two rounds, and behind the last that
somebody received, they tell all of it. -/
theorem Streams.sent (h : s.Streams) (hinv : s.Inv) {pid : Pid} {spy : SpyThread α}
    (hspy : s.spies.lookup pid = some spy) :
    resultsOf pid s.samples.flatten <+: spy.sent.map Prod.snd ∧
      (s.sampler.holdsLock = false → s.sampler ≠ .finished .receiverGone →
        resultsOf pid s.samples.flatten = spy.sent.map Prod.snd) := by
  obtain ⟨hsound, hat⟩ := hinv.spies pid spy hspy
  obtain ⟨hfirst, hwhole⟩ := h.present pid spy hspy
  have hsent : spy.sent.map Prod.snd = spy.collected.map (·.2.2) ++ spy.sampleChannel.queue.map Prod.snd := by
    rw [hsound.sent, List.map_append, List.map_map]
    rfl
  have hsamples : resultsOf pid s.samples.flatten <+: resultsOf pid s.told := by
    rw [told, resultsOf_append]
    exact List.prefix_append _ _
  refine ⟨hsamples.trans (hfirst.trans ?_), fun hfree hhere => ?_⟩
  · rw [hsent]
    exact List.prefix_append _ _
  · have hempty := inFlight_nil hat (by rw [stage_rest hfree]; exact Stage.noConfusion)
    simp only [SpyThread.inFlight, List.append_eq_nil_iff, List.map_eq_nil_iff] at hempty
    have htold : s.told = s.samples.flatten := by
      refine told_of_not_collecting fun todo hpc => ?_
      rw [hpc] at hfree
      cases hfree
    rw [hsent, hempty.1.1, List.map_nil, List.append_nil, ← hwhole hhere, htold]

end SamplerState

end StSpy
