import StSpy.Sampler.Handshake

/-!
# Rounds of the sampling thread

In every run, whatever the order of discovery, monitor, workers and sampling
thread, each spy is where the sampling thread's place in its loop says. So no
sample is stale, lost or taken twice, and a spy that has stopped stays stopped.
-/

namespace StSpy

variable {α : Type}

def SamplerPc.stage : SamplerPc → Pid → Stage
  | .idle, _ => .rest
  | .checking todo, pid => if pid ∈ todo then .due else .asked
  | .notifying next todo, pid => if pid = next then .ready else if pid ∈ todo then .due else .asked
  | .collecting todo, pid => if pid ∈ todo then .asked else .done
  | .testing, _ => .done
  | .finished _, _ => .rest

/-- The spies the loop has still to come to. -/
def SamplerPc.pending : SamplerPc → List Pid
  | .checking todo => todo
  | .notifying next todo => next :: todo
  | .collecting todo => todo
  | _ => []

namespace SamplerState

/-! ## What a step can do -/

inductive MainMoves (s : SamplerState α) : SamplerState α → Prop where
  | still {main : MainPc} (hmain : main ≠ .sampling) : MainMoves s { s with main := main }
  | create {main : MainPc} (hmain : main ≠ .sampling) (pid parent : Pid) (commandLine : String) :
      MainMoves s { s with main := main, spies := s.spies.insert pid (.new (some parent) commandLine) }
  | waitInitialized {main : MainPc} {pid : Pid} {spy spy' : SpyThread α} {ok : Bool}
      (hspy : s.spies.lookup pid = some spy) (hwait : spy.waitInitialized = some (ok, spy'))
      (hmain : main ≠ .sampling → ok = false) :
      MainMoves s { s with main := main, spies := s.spies.insert pid spy' }

inductive MonitorMoves (s : SamplerState α) : SamplerState α → Prop where
  | still {monitor : MonitorPc} {poisoned : Bool}
      (hlock : monitor.holdsLock = true → s.sampler.holdsLock = true → s.monitor.holdsLock = true) :
      MonitorMoves s { s with monitor := monitor, poisoned := poisoned }
  | create {monitor : MonitorPc} (hlock : s.monitor.holdsLock = true) {pid : Pid}
      (hnew : s.spies.lookup pid = none) (parent : Pid) (commandLine : String) :
      MonitorMoves s { s with monitor := monitor, spies := s.spies.insert pid (.new (some parent) commandLine) }

inductive SamplerMoves (s : SamplerState α) : SamplerState α → Prop where
  | skip : SamplerMoves s s
  | lock {order : List Pid} (hpc : s.sampler = .idle) (hfree : s.monitor.holdsLock = false)
      (horder : order.Perm s.spies.keys) :
      SamplerMoves s { s with sampler := .checking order, round := s.round + 1, results := [] }
  | check {pid : Pid} {todo : List Pid} {spy : SpyThread α} (hpc : s.sampler = .checking (pid :: todo))
      (hspy : s.spies.lookup pid = some spy) :
      SamplerMoves s { s with
        sampler := if spy.isInitialized.1 then .notifying pid todo else .checking todo
        spies := s.spies.insert pid spy.isInitialized.2 }
  | notify {pid : Pid} {todo : List Pid} {spy : SpyThread α} (hpc : s.sampler = .notifying pid todo)
      (hspy : s.spies.lookup pid = some spy) :
      SamplerMoves s { s with sampler := .checking todo, spies := s.spies.insert pid (spy.notify s.round) }
  | iterate {order : List Pid} (hpc : s.sampler = .checking []) (horder : order.Perm s.spies.keys) :
      SamplerMoves s { s with sampler := .collecting order }
  | collect {pid : Pid} {todo : List Pid} {spy spy' : SpyThread α} {result : Option α} {results : List (Pid × α)}
      (hpc : s.sampler = .collecting (pid :: todo)) (hspy : s.spies.lookup pid = some spy)
      (hcollect : spy.collect s.round = some (result, spy')) :
      SamplerMoves s { s with
        sampler := .collecting todo, spies := s.spies.insert pid spy', results := results }
  | send {samples : List (List (Pid × α))} (hpc : s.sampler = .collecting []) :
      SamplerMoves s { s with sampler := .testing, samples := samples }
  | leave (hpc : s.sampler = .collecting []) : SamplerMoves s { s with sampler := .finished .receiverGone }
  | test (hpc : s.sampler = .testing) :
      SamplerMoves s { s with sampler := if s.allStopped then .finished .allStopped else .idle }

variable {s s' : SamplerState α}

theorem mainStep_moves {action : MainAction} (h : s.mainStep action = some s') :
    s.main ≠ .sampling ∧ MainMoves s s' := by
  simp only [mainStep] at h
  split at h
  case h_1 hmain =>
    cases h
    exact ⟨by simp [hmain], .still (by simp)⟩
  case h_2 hmain =>
    cases h
    exact ⟨by simp [hmain], .still (by simp)⟩
  case h_3 hmain =>
    cases h
    exact ⟨by simp [hmain], .create (by simp) ..⟩
  case h_4 hmain =>
    cases h
    exact ⟨by simp [hmain], .still (by simp)⟩
  case h_5 hmain =>
    split at h
    · cases h
      exact ⟨by simp [hmain], .still (by simp)⟩
    · cases h
  case h_6 hmain =>
    split at h
    · cases h
    · rename_i spy hspy
      split at h
      · cases h
      · rename_i ok spy' hwait
        cases h
        refine ⟨by simp [hmain], .waitInitialized hspy hwait ?_⟩
        cases ok <;> simp
  case h_7 hmain =>
    cases h
    refine ⟨by simp [hmain], .still ?_⟩
    split <;> simp
  case h_8 => cases h

theorem monitorStep_moves {action : MonitorAction} (h : s.monitorStep action = some s') :
    s.main = .sampling ∧ MonitorMoves s s' := by
  simp only [monitorStep] at h
  split at h
  · rename_i hmain
    refine ⟨hmain, ?_⟩
    split at h
    case h_1 hmonitor =>
      cases h
      exact .still (by simp [MonitorPc.holdsLock])
    case h_2 hmonitor =>
      split at h
      · cases h
      · rename_i hfree
        split at h
        · cases h
          exact .still fun hlock _ => hlock
        · cases h
          exact .still fun _ hlock => absurd hlock hfree
    case h_3 hmonitor =>
      cases h
      exact .still (by simp [MonitorPc.holdsLock])
    case h_4 hmonitor =>
      cases h
      exact .still fun _ _ => by simp [hmonitor, MonitorPc.holdsLock]
    case h_5 hmonitor =>
      have hlock : s.monitor.holdsLock = true := by simp [hmonitor, MonitorPc.holdsLock]
      split at h
      · cases h
        exact .still fun _ _ => hlock
      · rename_i hnew
        split at h
        · cases h
          exact .create hlock (by simpa using hnew) ..
        · cases h
          exact .still fun _ _ => hlock
    case h_6 hmonitor =>
      cases h
      exact .still (by simp [MonitorPc.holdsLock])
    case h_7 => cases h
  · cases h

theorem samplerStep_moves {action : SamplerAction} (h : s.samplerStep action = some s') :
    s.main = .sampling ∧ SamplerMoves s s' := by
  simp only [samplerStep] at h
  split at h
  · rename_i hmain
    refine ⟨hmain, ?_⟩
    split at h
    case h_1 hpc =>
      split at h
      · cases h
      · rename_i hfree
        split at h
        · cases h
          exact .skip
        · split at h
          · rename_i horder
            cases h
            exact .lock hpc (by simpa using hfree) horder
          · cases h
    case h_2 hpc =>
      split at h
      · cases h
      · rename_i hspy
        cases h
        exact .check hpc hspy
    case h_3 hpc =>
      split at h
      · cases h
      · rename_i hspy
        cases h
        exact .notify hpc hspy
    case h_4 hpc =>
      split at h
      · rename_i horder
        cases h
        exact .iterate hpc horder
      · cases h
    case h_5 hpc =>
      split at h
      · cases h
      · rename_i hspy
        split at h
        · cases h
        · rename_i hcollect
          cases h
          exact .collect hpc hspy hcollect
    case h_6 hpc =>
      split at h
      · cases h
        exact .send hpc
      · cases h
        exact .leave hpc
    case h_7 hpc =>
      cases h
      exact .test hpc
    case h_8 => cases h
  · cases h

theorem step_worker {pid : Pid} {action : WorkerAction α} (h : s.step (.worker pid action) = some s') :
    ∃ spy spy', s.spies.lookup pid = some spy ∧ spy.work action = some spy' ∧
      s' = { s with spies := s.spies.insert pid spy' } := by
  simp only [step] at h
  split at h
  · cases h
  · rename_i spy hspy
    split at h
    · cases h
    · rename_i spy' hwork
      exact ⟨spy, spy', hspy, hwork, (Option.some.inj h).symm⟩

theorem step_dropReceiver (h : s.step .dropReceiver = some s') :
    s.main = .sampling ∧ s' = { s with receiver := false } := by
  simp only [step] at h
  split at h
  · rename_i hmain
    exact ⟨hmain, (Option.some.inj h).symm⟩
  · cases h

/-! ## The invariant -/

theorem forall_insert {P : Pid → SpyThread α → Prop} {spies : Spies α} {pid : Pid} {spy : SpyThread α}
    (hothers : ∀ other spy, spies.lookup other = some spy → other ≠ pid → P other spy) (hspy : P pid spy) :
    ∀ other spy', (spies.insert pid spy).lookup other = some spy' → P other spy' := by
  intro other spy' hlookup
  by_cases hne : other = pid
  · subst hne
    rw [AList.lookup_insert] at hlookup
    cases hlookup
    exact hspy
  · rw [AList.lookup_insert_ne hne] at hlookup
    exact hothers other spy' hlookup hne

theorem isSome_insert {spies : Spies α} {pid other : Pid} (spy : SpyThread α)
    (h : (spies.lookup other).isSome = true) : ((spies.insert pid spy).lookup other).isSome = true := by
  rw [AList.lookup_isSome] at h ⊢
  exact (AList.mem_insert _).mpr (.inr h)

structure Inv (s : SamplerState α) : Prop where
  spies : ∀ pid spy, s.spies.lookup pid = some spy → spy.Sound ∧ spy.At s.round (s.sampler.stage pid)
  pending : s.sampler.pending.Nodup
  present : ∀ pid ∈ s.sampler.pending, (s.spies.lookup pid).isSome = true
  lock : s.monitor.holdsLock = true → s.sampler.holdsLock = false
  discovery : s.main ≠ .sampling → s.sampler = .idle ∧ s.monitor = .idle ∧
    ∀ pid spy, s.spies.lookup pid = some spy → spy.running = false

theorem stage_rest {pc : SamplerPc} (h : pc.holdsLock = false) (pid : Pid) : pc.stage pid = .rest := by
  cases pc <;> simp_all [SamplerPc.holdsLock, SamplerPc.stage]

theorem new_at_rest (parent : Option Pid) (commandLine : String) (round : Nat) :
    (SpyThread.new parent commandLine : SpyThread α).At round .rest := by
  simp [SpyThread.At, SpyThread.Quiet, SpyThread.new, SpyThread.inFlight, Channel.new, WorkerPc.taken]

theorem Inv.start (pid : Pid) (commandLine : String) : (start pid commandLine : SamplerState α).Inv where
  spies := forall_insert (fun _ _ hnone => by simp at hnone) ⟨.new .., new_at_rest ..⟩
  pending := List.nodup_nil
  present _ hpid := by cases hpid
  lock hlock := by cases hlock
  discovery _ := ⟨rfl, rfl, forall_insert (fun _ _ hnone => by simp at hnone) rfl⟩

theorem Inv.worker (h : s.Inv) {pid : Pid} {spy spy' : SpyThread α} {action : WorkerAction α}
    (hspy : s.spies.lookup pid = some spy) (hwork : spy.work action = some spy') :
    ({ s with spies := s.spies.insert pid spy' } : SamplerState α).Inv where
  spies := by
    have hmoved := SpyThread.moved hwork
    exact forall_insert (fun other spy hother _ => h.spies other spy hother)
      ⟨(h.spies pid spy hspy).1.work hwork, (h.spies pid spy hspy).2.moved hmoved⟩
  pending := h.pending
  present other hother := isSome_insert spy' (h.present other hother)
  lock := h.lock
  discovery hmain := by
    obtain ⟨hidle, hmonitor, hrunning⟩ := h.discovery hmain
    refine ⟨hidle, hmonitor, forall_insert (fun other spy hother _ => hrunning other spy hother) ?_⟩
    exact (SpyThread.moved hwork).running.trans (hrunning pid spy hspy)

theorem Inv.main (h : s.Inv) (hmain : s.main ≠ .sampling) (hmoves : MainMoves s s') : s'.Inv := by
  obtain ⟨hidle, hmonitor, hrunning⟩ := h.discovery hmain
  have hrest : ∀ pid, s.sampler.stage pid = .rest := fun pid => by rw [hidle]; rfl
  cases hmoves with
  | still hmain' => exact { h with discovery := fun _ => ⟨hidle, hmonitor, hrunning⟩ }
  | create hmain' pid parent commandLine =>
    refine { h with
      spies := ?_, present := fun other hother => isSome_insert _ (h.present other hother)
      discovery := fun _ => ⟨hidle, hmonitor, ?_⟩ }
    · exact forall_insert (fun other spy hother _ => h.spies other spy hother)
        ⟨.new .., by rw [hrest]; exact new_at_rest ..⟩
    · exact forall_insert (fun other spy hother _ => hrunning other spy hother) rfl
  | @waitInitialized main pid spy spy' ok hspy hwait hok =>
    obtain ⟨hsound, hat⟩ := h.spies pid spy hspy
    obtain ⟨hsound', hat', hrunning'⟩ := SpyThread.waitInitialized_sound hsound hwait
    refine { h with
      spies := ?_, present := fun other hother => isSome_insert _ (h.present other hother)
      discovery := fun hmain' => ⟨hidle, hmonitor, ?_⟩ }
    · refine forall_insert (fun other spy hother _ => h.spies other spy hother) ⟨hsound', ?_⟩
      rw [hrest] at hat ⊢
      exact hat' s.round hat
    · refine forall_insert (fun other spy hother _ => hrunning other spy hother) ?_
      rw [hrunning' (hrunning pid spy hspy)]
      exact hok hmain'

theorem Inv.monitor (h : s.Inv) (hmain : s.main = .sampling) (hmoves : MonitorMoves s s') : s'.Inv := by
  cases hmoves with
  | @still monitor poisoned hlock =>
    refine { h with lock := fun hmonitor => ?_, discovery := fun hnot => absurd hmain hnot }
    by_contra hsampler
    have hheld := hlock hmonitor (by simpa using hsampler)
    exact hsampler (h.lock hheld)
  | @create monitor hlock pid hnew parent commandLine =>
    have hfree := h.lock hlock
    refine { h with
      spies := forall_insert (fun other spy hother _ => h.spies other spy hother) ⟨.new .., ?_⟩
      present := fun other hother => isSome_insert _ (h.present other hother)
      lock := fun _ => hfree, discovery := fun hnot => absurd hmain hnot }
    rw [stage_rest hfree]
    exact new_at_rest ..

/-- An order of iteration comes to every spy. -/
theorem mem_order {order : List Pid} (horder : order.Perm s.spies.keys) {pid : Pid} {spy : SpyThread α}
    (hspy : s.spies.lookup pid = some spy) : pid ∈ order := by
  apply horder.mem_iff.mpr
  apply AList.lookup_isSome.mp
  simp [hspy]

/-- A round that ends leaves its spies at rest. -/
theorem at_rest_of_done {spy : SpyThread α} {round : Nat} (h : spy.At round .done) : spy.At round .rest :=
  ⟨h.1, h.2.1⟩

/-- One of the two threads at most holds the lock. -/
theorem Inv.free (h : s.Inv) (hheld : s.sampler.holdsLock = true) : s.monitor.holdsLock = false := by
  by_contra hmonitor
  have hfree := h.lock (by simpa using hmonitor)
  rw [hheld] at hfree
  cases hfree

/-- The sampling thread goes on without touching a spy, to no loop or into a new one. -/
theorem Inv.goesTo (h : s.Inv) (hmain : s.main = .sampling) {pc : SamplerPc} {round : Nat}
    {results : List (Pid × α)} {samples : List (List (Pid × α))}
    (hat : ∀ pid spy, s.spies.lookup pid = some spy → spy.At s.round (s.sampler.stage pid) →
      spy.At round (pc.stage pid))
    (hpending : pc.pending = [] ∨ pc.pending.Perm s.spies.keys)
    (hfree : s.monitor.holdsLock = true → pc.holdsLock = false) :
    ({ s with sampler := pc, round := round, results := results, samples := samples } : SamplerState α).Inv where
  spies pid spy hspy := ⟨(h.spies pid spy hspy).1, hat pid spy hspy (h.spies pid spy hspy).2⟩
  pending := by
    rcases hpending with hnone | hperm
    · exact hnone ▸ List.nodup_nil
    · exact hperm.nodup_iff.mpr s.spies.keys_nodup
  present pid hpid := by
    rcases hpending with hnone | hperm
    · rw [hnone] at hpid
      cases hpid
    · exact AList.lookup_isSome.mpr (hperm.mem_iff.mp hpid)
  lock := hfree
  discovery hnot := absurd hmain hnot

/-- The sampling thread, in a round, does its part with one spy. -/
theorem Inv.turn (h : s.Inv) (hmain : s.main = .sampling) (hheld : s.sampler.holdsLock = true) {pc : SamplerPc}
    {pid : Pid} {spy' : SpyThread α} {results : List (Pid × α)}
    (hspy' : spy'.Sound ∧ spy'.At s.round (pc.stage pid))
    (hothers : ∀ other, other ≠ pid → pc.stage other = s.sampler.stage other)
    (hpending : pc.pending.Sublist s.sampler.pending) :
    ({ s with sampler := pc, spies := s.spies.insert pid spy', results := results } : SamplerState α).Inv where
  spies := by
    refine forall_insert (fun other spy hother hne => ?_) hspy'
    rw [hothers other hne]
    exact h.spies other spy hother
  pending := h.pending.sublist hpending
  present other hother := isSome_insert _ (h.present other (hpending.subset hother))
  lock hmonitor := by simp [h.free hheld] at hmonitor
  discovery hnot := absurd hmain hnot

theorem Inv.sampler (h : s.Inv) (hmain : s.main = .sampling) (hmoves : SamplerMoves s s') : s'.Inv := by
  cases hmoves with
  | skip => exact h
  | @lock order hpc hfree horder =>
    refine h.goesTo hmain (fun pid spy hspy hat => ?_) (.inr horder) fun hmonitor => by simp [hfree] at hmonitor
    simp only [hpc, SamplerPc.stage] at hat
    simp only [SamplerPc.stage, mem_order horder hspy, if_true]
    exact ⟨hat.1, fun c hc => Nat.lt_succ_of_le (hat.2 c hc)⟩
  | @check pid todo spy hpc hspy =>
    have hnodup := h.pending
    obtain ⟨hsound, hat⟩ := h.spies pid spy hspy
    simp only [hpc, SamplerPc.pending, SamplerPc.stage, List.nodup_cons, List.mem_cons_self, if_true] at hnodup hat
    obtain ⟨hsound', hat'⟩ := SpyThread.isInitialized_sound hsound hat
    refine h.turn hmain (by simp [hpc, SamplerPc.holdsLock]) ⟨hsound', ?_⟩ (fun other hne => ?_) ?_
    · split at hat' <;> rename_i hok <;> simpa [SamplerPc.stage, hok, hnodup.1] using hat'
    · split <;> simp [hpc, SamplerPc.stage, hne]
    · split <;> simp [hpc, SamplerPc.pending]
  | @notify pid todo spy hpc hspy =>
    have hnodup := h.pending
    obtain ⟨hsound, hat⟩ := h.spies pid spy hspy
    simp only [hpc, SamplerPc.pending, SamplerPc.stage, List.nodup_cons, if_true] at hnodup hat
    obtain ⟨hsound', hat'⟩ := SpyThread.notify_sound hsound hat
    refine h.turn hmain (by simp [hpc, SamplerPc.holdsLock]) ⟨hsound', ?_⟩ (fun other hne => ?_) ?_
    · simpa [SamplerPc.stage, hnodup.1] using hat'
    · simp [hpc, SamplerPc.stage, hne]
    · simp [hpc, SamplerPc.pending]
  | @iterate order hpc horder =>
    have hfree := h.free (by simp [hpc, SamplerPc.holdsLock])
    refine h.goesTo hmain (fun pid spy hspy hat => ?_) (.inr horder) fun hmonitor => by simp [hfree] at hmonitor
    simp only [hpc, SamplerPc.stage, List.not_mem_nil, if_false] at hat
    simp only [SamplerPc.stage, mem_order horder hspy, if_true]
    exact hat
  | @collect pid todo spy spy' result results hpc hspy hcollect =>
    have hnodup := h.pending
    obtain ⟨hsound, hat⟩ := h.spies pid spy hspy
    simp only [hpc, SamplerPc.pending, SamplerPc.stage, List.nodup_cons, List.mem_cons_self, if_true] at hnodup hat
    obtain ⟨hsound', hat'⟩ := SpyThread.collect_sound hsound hat hcollect
    refine h.turn hmain (by simp [hpc, SamplerPc.holdsLock]) ⟨hsound', ?_⟩ (fun other hne => ?_) ?_
    · simpa [SamplerPc.stage, hnodup.1] using hat'
    · simp [hpc, SamplerPc.stage, hne]
    · simp [hpc, SamplerPc.pending]
  | @send samples hpc =>
    have hfree := h.free (by simp [hpc, SamplerPc.holdsLock])
    refine h.goesTo hmain (fun pid spy hspy hat => ?_) (.inl rfl) fun hmonitor => by simp [hfree] at hmonitor
    simpa [hpc, SamplerPc.stage] using hat
  | leave hpc =>
    refine h.goesTo hmain (fun pid spy hspy hat => ?_) (.inl rfl) fun _ => rfl
    simp only [hpc, SamplerPc.stage, List.not_mem_nil, if_false] at hat
    exact at_rest_of_done hat
  | test hpc =>
    have hout : (if s.allStopped = true then SamplerPc.finished .allStopped else .idle).holdsLock = false := by
      split <;> rfl
    refine h.goesTo hmain (fun pid spy hspy hat => ?_) (.inl ?_) fun _ => hout
    · rw [stage_rest hout]
      simp only [hpc, SamplerPc.stage] at hat
      exact at_rest_of_done hat
    · split <;> rfl

theorem Inv.step (h : s.Inv) {event : SamplerEvent α} (hstep : s.step event = some s') : s'.Inv := by
  cases event with
  | worker pid action =>
    obtain ⟨spy, spy', hspy, hwork, rfl⟩ := step_worker hstep
    exact h.worker hspy hwork
  | main action => exact h.main (mainStep_moves hstep).1 (mainStep_moves hstep).2
  | monitor action => exact h.monitor (monitorStep_moves hstep).1 (monitorStep_moves hstep).2
  | sampler action => exact h.sampler (samplerStep_moves hstep).1 (samplerStep_moves hstep).2
  | dropReceiver =>
    obtain ⟨-, rfl⟩ := step_dropReceiver hstep
    exact { h with }

/-! ## Spies that have stopped -/

/-- A spy that was initialized still is, and has not started again. -/
def Keeps (pid : Pid) (s s' : SamplerState α) : Prop :=
  s.main = .sampling → ∀ spy, s.spies.lookup pid = some spy → spy.initialized = some true →
    s'.main = .sampling ∧ ∃ spy', s'.spies.lookup pid = some spy' ∧ spy'.initialized = some true ∧
      (spy.running = false → spy'.running = false)

theorem Keeps.refl (pid : Pid) (s : SamplerState α) : Keeps pid s s :=
  fun hmain spy hspy hinit => ⟨hmain, spy, hspy, hinit, id⟩

theorem Keeps.trans {pid : Pid} {s t u : SamplerState α} (h : Keeps pid s t) (h' : Keeps pid t u) :
    Keeps pid s u := by
  intro hmain spy hspy hinit
  obtain ⟨hmain, spy', hspy', hinit', hstopped⟩ := h hmain spy hspy hinit
  obtain ⟨hmain, spy'', hspy'', hinit'', hstopped'⟩ := h' hmain spy' hspy' hinit'
  exact ⟨hmain, spy'', hspy'', hinit'', fun hrunning => hstopped' (hstopped hrunning)⟩

/-- Replacing one spy by one that keeps its flags. -/
theorem lookup_insert_keeps {spies : Spies α} {pid other : Pid} {spy old new : SpyThread α}
    (hspy : spies.lookup pid = some spy) (hinit : spy.initialized = some true) (hold : spies.lookup other = some old)
    (hnew : old.initialized = some true →
      new.initialized = some true ∧ (old.running = false → new.running = false)) :
    ∃ spy', (spies.insert other new).lookup pid = some spy' ∧ spy'.initialized = some true ∧
      (spy.running = false → spy'.running = false) := by
  by_cases hne : pid = other
  · subst hne
    obtain rfl : spy = old := Option.some.inj (hspy.symm.trans hold)
    exact ⟨new, AList.lookup_insert _, hnew hinit⟩
  · exact ⟨spy, by rw [AList.lookup_insert_ne hne]; exact hspy, hinit, id⟩

theorem keeps_step (pid : Pid) {event : SamplerEvent α} (hstep : s.step event = some s') : Keeps pid s s' := by
  intro hmain spy hspy hinit
  cases event with
  | worker other action =>
    obtain ⟨old, new, hold, hwork, rfl⟩ := step_worker hstep
    have hmoved := SpyThread.moved hwork
    exact ⟨hmain, lookup_insert_keeps hspy hinit hold fun hold =>
      ⟨hmoved.initialized.trans hold, hmoved.running.trans⟩⟩
  | main action => exact absurd hmain (mainStep_moves hstep).1
  | monitor action =>
    obtain ⟨-, hmoves⟩ := monitorStep_moves hstep
    cases hmoves with
    | still hlock => exact ⟨hmain, spy, hspy, hinit, id⟩
    | @create monitor hlock other hnew parent commandLine =>
      have hne : pid ≠ other := by
        rintro rfl
        simp [hspy] at hnew
      exact ⟨hmain, spy, by rw [AList.lookup_insert_ne hne]; exact hspy, hinit, id⟩
  | sampler action =>
    obtain ⟨-, hmoves⟩ := samplerStep_moves hstep
    cases hmoves with
    | check hpc hold =>
      refine ⟨hmain, lookup_insert_keeps hspy hinit hold fun hold => ?_⟩
      rw [SpyThread.isInitialized_some hold]
      exact ⟨hold, id⟩
    | notify hpc hold => exact ⟨hmain, lookup_insert_keeps hspy hinit hold SpyThread.notify_keeps⟩
    | collect hpc hold hcollect =>
      exact ⟨hmain, lookup_insert_keeps hspy hinit hold (SpyThread.collect_keeps hcollect)⟩
    | _ => exact ⟨hmain, spy, hspy, hinit, id⟩
  | dropReceiver =>
    obtain ⟨-, rfl⟩ := step_dropReceiver hstep
    exact ⟨hmain, spy, hspy, hinit, id⟩

theorem keeps_run (pid : Pid) {events : List (SamplerEvent α)} (hrun : Runs.run step s events = some s') :
    Keeps pid s s' :=
  Runs.run_rel (Keeps.refl pid) (fun h hstep => h.trans (keeps_step pid hstep)) hrun

/-! ## Runs -/

/-- The spy of `pid` is marked running. -/
def runs (s : SamplerState α) (pid : Pid) : Bool := (s.spies.lookup pid).any (·.running)

theorem inv_run {root : Pid} {commandLine : String} {events : List (SamplerEvent α)}
    (hrun : Runs.run step (start root commandLine) events = some s) : s.Inv :=
  Runs.run_invariant (fun h hstep => h.step hstep) hrun (.start root commandLine)

/-- A spy that has gone from running to not running stays so. -/
theorem stays_stopped {root pid : Pid} {commandLine : String} {before between after : List (SamplerEvent α)}
    {t u : SamplerState α} (hbefore : Runs.run step (start root commandLine) before = some t)
    (hbetween : Runs.run step t between = some u) (hafter : Runs.run step u after = some s)
    (hruns : t.runs pid = true) (hstopped : u.runs pid = false) : s.runs pid = false := by
  have hinv := inv_run hbefore
  obtain ⟨spy, hspy, hrunning⟩ : ∃ spy, t.spies.lookup pid = some spy ∧ spy.running = true := by
    simpa [runs, Option.any_eq_true] using hruns
  have hmain : t.main = .sampling := by
    by_contra hmain
    have := (hinv.discovery hmain).2.2 pid spy hspy
    simp [hrunning] at this
  have hinit := (hinv.spies pid spy hspy).1.running hrunning
  obtain ⟨hmain, spy', hspy', hinit', -⟩ := keeps_run pid hbetween hmain spy hspy hinit
  have hrunning' : spy'.running = false := by simpa [runs, hspy'] using hstopped
  obtain ⟨-, spy'', hspy'', -, hstopped⟩ := keeps_run pid hafter hmain spy' hspy' hinit'
  simp [runs, hspy'', hstopped hrunning']

/-- Out of the stretch between asking a spy and collecting from it, nothing is on its way. -/
theorem inFlight_nil {spy : SpyThread α} {round : Nat} {stage : Stage} (h : spy.At round stage)
    (hstage : stage ≠ .asked) : spy.inFlight = [] := by
  cases stage with
  | asked => exact absurd rfl hstage
  | _ => exact h.1.2

theorem inFlight_length {spy : SpyThread α} {round : Nat} {stage : Stage} (h : spy.At round stage) :
    spy.inFlight.length ≤ 1 := by
  cases stage with
  | asked =>
    rcases h.2 with ⟨hquiet, -⟩ | ⟨-, -, hone | ⟨hnone, -⟩⟩
    · simp [hquiet.2]
    · simp [hone]
    · simp [hnone]
  | _ => simp [h.1.2]

/-- A sample on its way is the only one, and the `collect` still to come takes it. -/
theorem collectable {spy : SpyThread α} {round : Nat} {stage : Stage} (h : spy.At round stage)
    (hqueue : spy.sampleChannel.queue ≠ []) :
    stage = .asked ∧ ∃ sample spy', spy.sampleChannel.queue = [sample] ∧ sample.1 = round ∧
      spy.collect round = some (some sample.2, spy') := by
  have hflight : spy.inFlight ≠ [] := by simp [SpyThread.inFlight, hqueue]
  have hstage : stage = .asked := by
    by_contra hstage
    exact hflight (inFlight_nil h hstage)
  subst hstage
  refine ⟨rfl, ?_⟩
  rcases h.2 with ⟨hquiet, -⟩ | ⟨hnotified, -, hone | ⟨hnone, -⟩⟩
  · exact absurd hquiet.2 hflight
  · cases hsamples : spy.sampleChannel.queue with
    | nil => exact absurd hsamples hqueue
    | cons sample rest =>
      simp only [SpyThread.inFlight, hsamples, List.map_cons, List.cons_append, List.cons.injEq,
        List.append_eq_nil_iff, List.map_eq_nil_iff] at hone
      obtain ⟨hround, ⟨rfl, -⟩, -⟩ := hone
      obtain ⟨spy', hcollect⟩ := SpyThread.collect_sample hnotified hsamples
      exact ⟨sample, spy', rfl, hround, hcollect⟩
  · exact absurd hnone hflight

/-- Rounds stay aligned: in every state of every run a spy has at most one
notification or sample on its way; what was collected in a round was sent for
that round's notification; what was sent has been collected, in order and once,
but for a sample that the `collect` of this round has still to take; and a spy
that has gone from running to not running never runs again. -/
theorem rounds_aligned {root : Pid} {commandLine : String} {events : List (SamplerEvent α)}
    (hrun : Runs.run step (start root commandLine) events = some s) :
    (∀ pid spy, s.spies.lookup pid = some spy →
      spy.inFlight.length ≤ 1 ∧
      (∀ c ∈ spy.collected, c.2.1 = c.1) ∧
      spy.sent = spy.collected.map (·.2) ++ spy.sampleChannel.queue ∧
      (spy.sampleChannel.queue ≠ [] → s.sampler.stage pid = .asked ∧ ∃ sample spy',
        spy.sampleChannel.queue = [sample] ∧ sample.1 = s.round ∧
        spy.collect s.round = some (some sample.2, spy'))) ∧
    ∀ pid before between after t u, events = before ++ between ++ after →
      Runs.run step (start root commandLine) before = some t → Runs.run step t between = some u →
      t.runs pid = true → u.runs pid = false → s.runs pid = false := by
  have hinv := inv_run hrun
  refine ⟨fun pid spy hspy => ?_, fun pid before between after t u hevents hbefore hbetween hruns hstopped => ?_⟩
  · obtain ⟨hsound, hat⟩ := hinv.spies pid spy hspy
    exact ⟨inFlight_length hat, hsound.rounds, hsound.sent, collectable hat⟩
  · rw [hevents, List.append_assoc, Runs.run_append] at hrun
    obtain ⟨t', ht', hrest⟩ := hrun
    obtain rfl : t = t' := Option.some.inj (hbefore.symm.trans ht')
    obtain ⟨u', hu', hafter⟩ := Runs.run_append.mp hrest
    obtain rfl : u = u' := Option.some.inj (hbetween.symm.trans hu')
    exact stays_stopped hbefore hbetween hafter hruns hstopped

/-- The root is running and answers a round; its child is still starting. -/
def answeredRound : List (SamplerEvent Nat) :=
  [.main (.childProcesses (some [(2, 1)])), .main (.create (some "child")), .worker 1 (.retryNew true),
    .main (.await [1, 2]), .main .waitInitialized,
    .sampler (.lock [1, 2]), .sampler .check, .sampler .notify, .sampler .check, .sampler (.iterate [1, 2]),
    .worker 1 .receive, .worker 1 (.answer 7), .sampler .collect, .sampler .collect, .sampler .send, .sampler .test]

/-- The root is gone before it answers the next one. -/
def exitRound : List (SamplerEvent Nat) :=
  [.sampler (.lock [2, 1]), .sampler .check, .sampler .check, .sampler .notify, .sampler (.iterate [2, 1]),
    .sampler .collect, .worker 1 .receive, .worker 1 .quit, .worker 1 .drop, .worker 1 .drop, .worker 1 .drop,
    .sampler .collect, .sampler .send]

def afterAnswer : SamplerState Nat := (Runs.run step (start 1 "root") answeredRound).get (by decide)

def afterExit : SamplerState Nat := (Runs.run step afterAnswer exitRound).get (by decide)

theorem afterExit_run : Runs.run step (start 1 "root") (answeredRound ++ exitRound) = some afterExit :=
  Runs.run_append.mpr ⟨afterAnswer, (Option.some_get _).symm, (Option.some_get _).symm⟩

theorem rounds_aligned_afterExit : afterExit.runs 1 = false :=
  (rounds_aligned afterExit_run).2 1 answeredRound exitRound [] afterAnswer afterExit (by simp)
    (Option.some_get _).symm (Option.some_get _).symm (by decide) (by decide)

/-! ## No deadlock -/

end SamplerState

namespace SpyThread

/-- The steps a worker that answers nothing more has left to its end. -/
def stepsLeft (spy : SpyThread α) : Nat :=
  match spy.worker with
  | .waiting => 5
  | .starting | .tracing _ => 4
  | .returning =>
    spy.initializedChannel.sender.toNat + spy.notifyChannel.receiver.toNat + spy.sampleChannel.sender.toNat

theorem stepsLeft_le (spy : SpyThread α) : spy.stepsLeft ≤ 5 := by
  have h1 := spy.initializedChannel.sender.toNat_le
  have h2 := spy.notifyChannel.receiver.toNat_le
  have h3 := spy.sampleChannel.sender.toNat_le
  unfold stepsLeft
  split <;> omega

theorem stepsLeft_returning (spy : SpyThread α) :
    ({ spy with worker := .returning } : SpyThread α).stepsLeft ≤ 3 := by
  have h1 := spy.initializedChannel.sender.toNat_le
  have h2 := spy.notifyChannel.receiver.toNat_le
  have h3 := spy.sampleChannel.sender.toNat_le
  simp only [stepsLeft]
  omega

/-- The worker gets a step nearer to its end, without an answer. -/
def Nears (spy : SpyThread α) : Prop :=
  ∃ action spy', spy.work action = some spy' ∧ (∀ result, action ≠ .answer result) ∧
    spy'.stepsLeft < spy.stepsLeft

variable {spy : SpyThread α}

theorem nears_tracing {round : Nat} (hworker : spy.worker = .tracing round) : spy.Nears := by
  refine ⟨.quit, { spy with worker := .returning }, by simp [work, hworker], nofun, ?_⟩
  have hleft : spy.stepsLeft = 4 := by simp [stepsLeft, hworker]
  have := stepsLeft_returning spy
  omega

theorem nears_waiting {round : Nat} {rest : List Nat} (hworker : spy.worker = .waiting)
    (hqueue : spy.notifyChannel.queue = round :: rest) : spy.Nears := by
  refine ⟨.receive, { spy with
    notifyChannel := { spy.notifyChannel with queue := rest }, worker := .tracing round }, ?_, nofun, ?_⟩
  · simp [work, hworker, Channel.recv, hqueue]
  · simp [stepsLeft, hworker]

theorem nears_returning (hworker : spy.worker = .returning) (hsender : spy.sampleChannel.sender = true) :
    spy.Nears := by
  cases hinitialized : spy.initializedChannel.sender with
  | true =>
    refine ⟨.drop, { spy with initializedChannel := spy.initializedChannel.dropSender }, ?_, nofun, ?_⟩
    · simp [work, hworker, hinitialized]
    · simp [stepsLeft, hworker, hinitialized, Channel.dropSender]
  | false =>
    cases hreceiver : spy.notifyChannel.receiver with
    | true =>
      refine ⟨.drop, { spy with notifyChannel := spy.notifyChannel.dropReceiver }, ?_, nofun, ?_⟩
      · simp [work, hworker, hinitialized, hreceiver]
      · simp [stepsLeft, hworker, hinitialized, hreceiver, Channel.dropReceiver]
    | false =>
      refine ⟨.drop, { spy with sampleChannel := spy.sampleChannel.dropSender }, ?_, nofun, ?_⟩
      · simp [work, hworker, hinitialized, hreceiver, hsender]
      · simp [stepsLeft, hworker, hinitialized, hreceiver, hsender, Channel.dropSender]

/-- Where `collect` blocks, the worker can get nearer to its end. -/
theorem collect_or_nears {round : Nat} (h : spy.Sound) (hat : spy.At round .asked) :
    spy.collect round ≠ none ∨ spy.Nears := by
  cases hnotified : spy.notified with
  | false => exact .inl (by simp [collect, hnotified])
  | true =>
    rcases hat.2 with ⟨hquiet, -⟩ | ⟨-, hrunning, hflight⟩
    · simp [hquiet.1] at hnotified
    · cases hworker : spy.worker with
      | starting =>
        have := (h.starting hworker).1
        simp [h.running hrunning] at this
      | waiting =>
        rcases hflight with hone | ⟨-, hleft⟩
        · cases hsamples : spy.sampleChannel.queue with
          | cons sample rest =>
            obtain ⟨spy', hcollect⟩ := collect_sample hnotified hsamples
            exact .inl (Option.ne_none_iff_exists'.mpr ⟨_, hcollect⟩)
          | nil =>
            simp only [inFlight, hsamples, hworker, WorkerPc.taken, List.map_nil, List.nil_append] at hone
            exact .inr (nears_waiting hworker hone)
        · simp [hworker] at hleft
      | tracing round => exact .inr (nears_tracing hworker)
      | returning =>
        cases hsender : spy.sampleChannel.sender with
        | true => exact .inr (nears_returning hworker hsender)
        | false =>
          left
          cases hsamples : spy.sampleChannel.queue <;>
            simp [collect, hnotified, Channel.recv, hsamples, hsender]

end SpyThread

/-- The steps the sampling thread has left in the round, with `count` spies. -/
def SamplerPc.stepsLeft (count : Nat) : SamplerPc → Nat
  | .idle | .finished _ => 0
  | .checking todo => count + 3 + 2 * todo.length
  | .notifying _ todo => count + 4 + 2 * todo.length
  | .collecting todo => todo.length + 2
  | .testing => 1

/-- The spy `collect` is called on. -/
def SamplerPc.next : SamplerPc → Option Pid
  | .collecting (pid :: _) => some pid
  | _ => none

namespace SamplerState

variable {s s' : SamplerState α}

/-- The steps left in the round if no worker answers: those of the sampling
thread, and of the worker it waits for. -/
def stepsLeft (s : SamplerState α) : Nat :=
  6 * s.sampler.stepsLeft s.spies.keys.length +
    ((s.sampler.next.bind s.spies.lookup).map SpyThread.stepsLeft).getD 0

theorem waitedFor_le (s : SamplerState α) :
    ((s.sampler.next.bind s.spies.lookup).map SpyThread.stepsLeft).getD 0 ≤ 5 := by
  cases s.sampler.next.bind s.spies.lookup with
  | none => simp
  | some spy => exact spy.stepsLeft_le

/-- A step of the sampling thread counts more than all of a worker's. -/
theorem stepsLeft_lt
    (h : s'.sampler.stepsLeft s'.spies.keys.length < s.sampler.stepsLeft s.spies.keys.length) :
    s'.stepsLeft < s.stepsLeft := by
  have := s'.waitedFor_le
  unfold stepsLeft
  omega

theorem length_keys_insert {spies : Spies α} {pid : Pid} {spy : SpyThread α} (hspy : spies.lookup pid = some spy)
    (spy' : SpyThread α) : (spies.insert pid spy').keys.length = spies.keys.length := by
  have hmem : pid ∈ spies.keys := AList.lookup_isSome.mp (by simp [hspy])
  have hpos := List.length_pos_of_mem hmem
  rw [AList.keys_insert, List.length_cons, List.length_erase_of_mem hmem]
  omega

/-- Some step other than an answer leaves fewer steps. -/
def GoesOn (s : SamplerState α) : Prop :=
  ∃ event s', s.step event = some s' ∧ (∀ pid result, event ≠ .worker pid (.answer result)) ∧
    s'.stepsLeft < s.stepsLeft

theorem goesOn_sampler (action : SamplerAction) (s' : SamplerState α) (hstep : s.samplerStep action = some s')
    (hlt : s'.sampler.stepsLeft s'.spies.keys.length < s.sampler.stepsLeft s.spies.keys.length) : s.GoesOn :=
  ⟨.sampler action, s', hstep, nofun, stepsLeft_lt hlt⟩

theorem goesOn_worker {pid : Pid} {todo : List Pid} {spy : SpyThread α}
    (hpc : s.sampler = .collecting (pid :: todo)) (hspy : s.spies.lookup pid = some spy) (h : spy.Nears) :
    s.GoesOn := by
  obtain ⟨action, spy', hwork, hanswer, hlt⟩ := h
  refine ⟨.worker pid action, { s with spies := s.spies.insert pid spy' }, ?_, ?_, ?_⟩
  · simp [step, hspy, hwork]
  · rintro _ result ⟨⟩
    exact hanswer result rfl
  · simp only [stepsLeft, length_keys_insert hspy, hpc, SamplerPc.next, Option.bind_some, hspy,
      AList.lookup_insert, Option.map_some, Option.getD_some]
    omega

theorem Inv.goes_on (h : s.Inv) (hlock : s.sampler.holdsLock = true) : s.GoesOn := by
  have hmain : s.main = .sampling := by
    by_contra hmain
    simp [(h.discovery hmain).1, SamplerPc.holdsLock] at hlock
  have hpresent := h.present
  cases hpc : s.sampler with
  | idle => simp [hpc, SamplerPc.holdsLock] at hlock
  | finished => simp [hpc, SamplerPc.holdsLock] at hlock
  | checking todo =>
    cases todo with
    | nil =>
      refine goesOn_sampler (.iterate s.spies.keys) { s with sampler := .collecting s.spies.keys } ?_ ?_
      · simp [samplerStep, hmain, hpc]
      · simp [hpc, SamplerPc.stepsLeft]
    | cons pid todo =>
      obtain ⟨spy, hspy⟩ := Option.isSome_iff_exists.mp (hpresent pid (by simp [hpc, SamplerPc.pending]))
      refine goesOn_sampler .check _ (by simp [samplerStep, hmain, hpc, hspy]; rfl) ?_
      simp only [length_keys_insert hspy, hpc]
      split <;> simp only [SamplerPc.stepsLeft, List.length_cons] <;> omega
  | notifying pid todo =>
    obtain ⟨spy, hspy⟩ := Option.isSome_iff_exists.mp (hpresent pid (by simp [hpc, SamplerPc.pending]))
    refine goesOn_sampler .notify _ (by simp [samplerStep, hmain, hpc, hspy]; rfl) ?_
    simp only [length_keys_insert hspy, hpc, SamplerPc.stepsLeft]
    omega
  | collecting todo =>
    cases todo with
    | nil =>
      cases hreceiver : s.receiver with
      | true =>
        refine goesOn_sampler .send { s with sampler := .testing, samples := s.samples ++ [s.results] } ?_ ?_
        · simp [samplerStep, hmain, hpc, hreceiver]
        · simp [hpc, SamplerPc.stepsLeft]
      | false =>
        refine goesOn_sampler .send { s with sampler := .finished .receiverGone } ?_ ?_
        · simp [samplerStep, hmain, hpc, hreceiver]
        · simp [hpc, SamplerPc.stepsLeft]
    | cons pid todo =>
      obtain ⟨spy, hspy⟩ := Option.isSome_iff_exists.mp (hpresent pid (by simp [hpc, SamplerPc.pending]))
      obtain ⟨hsound, hat⟩ := h.spies pid spy hspy
      simp only [hpc, SamplerPc.stage, List.mem_cons_self, if_true] at hat
      rcases SpyThread.collect_or_nears hsound hat with hcollect | hnears
      · obtain ⟨⟨result, spy'⟩, hcollect⟩ := Option.ne_none_iff_exists'.mp hcollect
        refine goesOn_sampler .collect _ (by simp [samplerStep, hmain, hpc, hspy, hcollect]; rfl) ?_
        simp [hpc, SamplerPc.stepsLeft]
      · exact goesOn_worker hpc hspy hnears
  | testing =>
    refine goesOn_sampler .test { s with sampler := if s.allStopped then .finished .allStopped else .idle } ?_ ?_
    · simp [samplerStep, hmain, hpc]
    · simp only [hpc]
      split <;> simp [SamplerPc.stepsLeft]

/-- A round never gets stuck: the sampling thread can go on, or it waits for a
worker that can. -/
theorem round_goes_on {root : Pid} {commandLine : String} {events : List (SamplerEvent α)}
    (hrun : Runs.run step (start root commandLine) events = some s) (hlock : s.sampler.holdsLock = true) :
    ∃ event, s.step event ≠ none := by
  obtain ⟨event, s', hstep, -⟩ := (inv_run hrun).goes_on hlock
  exact ⟨event, by simp [hstep]⟩

end SamplerState

end StSpy
