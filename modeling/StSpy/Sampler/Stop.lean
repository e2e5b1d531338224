import Mathlib.Data.List.Induction
import StSpy.Sampler.Rounds

/-!
# When the sampling thread stops

The stop test reads `running`, which is off both before a spy is initialized and
after it has stopped. At the test a spy runs exactly if its worker answered in
the round, so the thread leaves a spy behind that is still starting exactly when
no worker answers in the round.
-/

namespace StSpy

variable {α : Type}

namespace SpyThread

/-- The worker is still starting, or its success has not been received. -/
def Pending (spy : SpyThread α) : Prop :=
  spy.worker = .starting ∨ true ∈ spy.initializedChannel.queue

/-- The worker has ended without a successful initialization. -/
def NeverStarted (spy : SpyThread α) : Prop :=
  spy.worker = .returning ∧ spy.initialized ≠ some true ∧ true ∉ spy.initializedChannel.queue

/-- The worker has answered the notification of the round. -/
def Answered (spy : SpyThread α) (round : Nat) : Prop := ∃ sample ∈ spy.sent, sample.1 = round

variable {spy spy' : SpyThread α} {round : Nat}

/-- At the end of a round the spies that run are those that answered. -/
theorem running_iff_answered (h : spy.Sound) (hat : spy.At round .done) :
    spy.running = true ↔ spy.Answered round := by
  obtain ⟨⟨-, hflight⟩, -, hrunning⟩ := hat
  have hqueue : spy.sampleChannel.queue = [] := by
    simp only [inFlight, List.append_eq_nil_iff, List.map_eq_nil_iff] at hflight
    exact hflight.1.1
  rw [hrunning, Answered, h.sent, hqueue, List.append_nil]
  constructor
  · rintro ⟨c, hc, hround⟩
    exact ⟨c.2, List.mem_map_of_mem hc, (h.rounds c hc).trans hround⟩
  · rintro ⟨sample, hsample, hround⟩
    obtain ⟨c, hc, rfl⟩ := List.mem_map.mp hsample
    exact ⟨c, hc, (h.rounds c hc).symm.trans hround⟩

/-- `running` comes on with a successful `initialized`. -/
def Starts (spy spy' : SpyThread α) : Prop :=
  spy'.initialized = some true → spy.initialized = some true ∨ spy'.running = true

theorem waitInitialized_starts {ok : Bool} (h : spy.waitInitialized = some (ok, spy')) : Starts spy spy' := by
  simp only [waitInitialized] at h
  split at h
  · cases h
  · obtain ⟨-, rfl⟩ := Prod.mk.inj (Option.some.inj h)
    exact fun hinit => .inr (Option.some.inj hinit)
  · obtain ⟨-, rfl⟩ := Prod.mk.inj (Option.some.inj h)
    exact .inl

theorem isInitialized_starts : Starts spy spy.isInitialized.2 := by
  unfold isInitialized
  split
  · exact .inl
  · split
    · exact fun hinit => .inr (Option.some.inj hinit)
    · exact .inl

theorem notify_starts : Starts spy (spy.notify round) := by
  unfold notify
  split <;> exact .inl

theorem collect_starts {result : Option α} (h : spy.collect round = some (result, spy')) : Starts spy spy' := by
  rcases collect_cases h with ⟨-, rfl⟩ | ⟨-, sample, rest, -, rfl⟩ | ⟨-, -, -, rfl⟩ <;> exact .inl

end SpyThread

namespace SamplerState

variable {s s' : SamplerState α} {root : Pid} {commandLine : String}

/-! ## Spies that have run -/

/-- In the run of `events` the spy of `pid` has been running. -/
def HasRun (α : Type) (root : Pid) (commandLine : String) (events : List (SamplerEvent α)) (pid : Pid) : Prop :=
  ∃ before after t, events = before ++ after ∧ Runs.run step (start root commandLine) before = some t ∧
    t.runs pid = true

/-- A spy initialized with success was so in `s`, or it runs. -/
def StartsFrom (s : SamplerState α) (pid : Pid) (spy : SpyThread α) : Prop :=
  spy.initialized = some true →
    (∃ old, s.spies.lookup pid = some old ∧ old.initialized = some true) ∨ spy.running = true

theorem startsFrom_same {pid : Pid} {spy : SpyThread α} (hspy : s.spies.lookup pid = some spy) :
    s.StartsFrom pid spy :=
  fun hinit => .inl ⟨spy, hspy, hinit⟩

theorem startsFrom_starts {pid : Pid} {spy spy' : SpyThread α} (hspy : s.spies.lookup pid = some spy)
    (h : spy.Starts spy') : s.StartsFrom pid spy' :=
  fun hinit => (h hinit).imp_left fun hold => ⟨spy, hspy, hold⟩

theorem startsFrom_new (pid : Pid) (parent : Option Pid) (commandLine : String) :
    s.StartsFrom pid (.new parent commandLine) :=
  fun hinit => by cases hinit

theorem startsFrom_insert {pid : Pid} {spy : SpyThread α} (h : s.StartsFrom pid spy) :
    ∀ other spy', (s.spies.insert pid spy).lookup other = some spy' → s.StartsFrom other spy' :=
  forall_insert (fun _ _ hother _ => startsFrom_same hother) h

theorem startsFrom_step {event : SamplerEvent α} (hstep : s.step event = some s') :
    ∀ pid spy, s'.spies.lookup pid = some spy → s.StartsFrom pid spy := by
  cases event with
  | worker pid action =>
    obtain ⟨spy, spy', hspy, hwork, rfl⟩ := step_worker hstep
    have hmoved := SpyThread.moved hwork
    exact startsFrom_insert (startsFrom_starts hspy fun hinit => .inl (hmoved.initialized.symm.trans hinit))
  | main action =>
    cases (mainStep_moves hstep).2 with
    | still => exact fun _ _ => startsFrom_same
    | create => exact startsFrom_insert (startsFrom_new _ _ _)
    | waitInitialized hspy hwait =>
      exact startsFrom_insert (startsFrom_starts hspy (SpyThread.waitInitialized_starts hwait))
  | monitor action =>
    cases (monitorStep_moves hstep).2 with
    | still => exact fun _ _ => startsFrom_same
    | create => exact startsFrom_insert (startsFrom_new _ _ _)
  | sampler action =>
    cases (samplerStep_moves hstep).2 with
    | check hpc hspy => exact startsFrom_insert (startsFrom_starts hspy SpyThread.isInitialized_starts)
    | notify hpc hspy => exact startsFrom_insert (startsFrom_starts hspy SpyThread.notify_starts)
    | collect hpc hspy hcollect =>
      exact startsFrom_insert (startsFrom_starts hspy (SpyThread.collect_starts hcollect))
    | _ => exact fun _ _ => startsFrom_same
  | dropReceiver =>
    obtain ⟨-, rfl⟩ := step_dropReceiver hstep
    exact fun _ _ => startsFrom_same

/-- A spy that is initialized has run. -/
theorem hasRun_of_initialized {events : List (SamplerEvent α)} :
    ∀ {s : SamplerState α}, Runs.run step (start root commandLine) events = some s →
      ∀ {pid spy}, s.spies.lookup pid = some spy → spy.initialized = some true →
        HasRun α root commandLine events pid := by
  induction events using List.reverseRecOn with
  | nil =>
    intro s hrun pid spy hspy hinit
    obtain rfl := Runs.run_nil hrun
    have hnone : ∀ pid spy, (start root commandLine : SamplerState α).spies.lookup pid = some spy →
        spy.initialized = none := forall_insert (fun _ _ hempty => by simp at hempty) rfl
    simp [hnone pid spy hspy] at hinit
  | append_singleton events event ih =>
    intro s hrun pid spy hspy hinit
    obtain ⟨t, ht, hstep⟩ := Runs.run_concat.mp hrun
    rcases startsFrom_step hstep pid spy hspy hinit with ⟨old, hold, holdinit⟩ | hrunning
    · obtain ⟨before, after, u, rfl, hu, hruns⟩ := ih ht hold holdinit
      exact ⟨before, after ++ [event], u, by rw [List.append_assoc], hu, hruns⟩
    · exact ⟨events ++ [event], [], s, by rw [List.append_nil], hrun, by simp [runs, hspy, hrunning]⟩

/-! ## The stop test -/

theorem allStopped_iff :
    s.allStopped = true ↔ ∀ pid spy, s.spies.lookup pid = some spy → spy.running = false := by
  simp only [allStopped, Bool.or_eq_true, List.isEmpty_iff, List.all_eq_true, Bool.not_eq_true']
  constructor
  · intro h pid spy hspy
    have hmem := AList.mem_lookup_iff.mp hspy
    rcases h with hnone | hall
    · simp [hnone] at hmem
    · exact hall _ hmem
  · exact fun h => .inr fun entry hentry => h entry.1 entry.2 (AList.mem_lookup_iff.mpr hentry)

/-- Leaving because all spies have stopped is right: each of them never started,
or has run and stopped, and none is pending. -/
def StopsRight (root : Pid) (commandLine : String) (events : List (SamplerEvent α)) (s : SamplerState α) : Prop :=
  s.allStopped = true → ∀ pid spy, s.spies.lookup pid = some spy →
    (spy.NeverStarted ∨ HasRun α root commandLine events pid ∧ spy.running = false) ∧ ¬spy.Pending

def AnsweredWhilePending (s : SamplerState α) : Prop :=
  (∃ pid spy, s.spies.lookup pid = some spy ∧ spy.Pending) →
    ∃ pid spy, s.spies.lookup pid = some spy ∧ spy.Answered s.round

theorem test_iff {events : List (SamplerEvent α)} (hrun : Runs.run step (start root commandLine) events = some s)
    (hpc : s.sampler = .testing) : StopsRight root commandLine events s ↔ AnsweredWhilePending s := by
  have hinv := inv_run hrun
  have hiff : ∀ pid spy, s.spies.lookup pid = some spy → (spy.running = true ↔ spy.Answered s.round) := by
    intro pid spy hspy
    obtain ⟨hsound, hat⟩ := hinv.spies pid spy hspy
    simp only [hpc, SamplerPc.stage] at hat
    exact SpyThread.running_iff_answered hsound hat
  constructor
  · rintro hright ⟨pid, spy, hspy, hpending⟩
    by_contra hnone
    have hstopped : s.allStopped = true := allStopped_iff.mpr fun other spy hother => by
      by_contra hrunning
      exact hnone ⟨other, spy, hother, (hiff other spy hother).mp (by simpa using hrunning)⟩
    exact (hright hstopped pid spy hspy).2 hpending
  · intro hanswered hstopped pid spy hspy
    have hrunning := allStopped_iff.mp hstopped
    have hnot : ¬spy.Pending := by
      intro hpending
      obtain ⟨other, spy', hother, hanswer⟩ := hanswered ⟨pid, spy, hspy, hpending⟩
      have := (hiff other spy' hother).mpr hanswer
      simp [hrunning other spy' hother] at this
    refine ⟨?_, hnot⟩
    by_cases hinit : spy.initialized = some true
    · exact .inr ⟨hasRun_of_initialized hrun hspy hinit, hrunning pid spy hspy⟩
    · have hserving := (hinv.spies pid spy hspy).1.serving
      have hsuccess : true ∉ spy.initializedChannel.queue := fun hmem => hnot (.inr hmem)
      refine .inl ⟨?_, hinit, hsuccess⟩
      cases hworker : spy.worker with
      | starting => exact absurd (.inl hworker) hnot
      | returning => rfl
      | waiting => simp_all
      | tracing round => simp_all

/-- In every run the sampling thread stops rightly, whenever it does because all
spies have stopped, exactly when at each of its stop tests with a spy still
pending some worker has answered in the round. -/
theorem stopsRight_iff {events : List (SamplerEvent α)}
    (hrun : Runs.run step (start root commandLine) events = some s) :
    (∀ before after t, events = before ++ .sampler .test :: after →
      Runs.run step (start root commandLine) before = some t → StopsRight root commandLine before t) ↔
    ∀ before after t, events = before ++ .sampler .test :: after →
      Runs.run step (start root commandLine) before = some t → AnsweredWhilePending t := by
  have htesting : ∀ before after t, events = before ++ .sampler .test :: after →
      Runs.run step (start root commandLine) before = some t → t.sampler = .testing := by
    intro before after t hevents ht
    rw [hevents] at hrun
    obtain ⟨t', ht', hrest⟩ := Runs.run_append.mp hrun
    obtain rfl : t = t' := Option.some.inj (ht.symm.trans ht')
    obtain ⟨u, hstep, -⟩ := Runs.run_cons.mp hrest
    simp only [step, samplerStep] at hstep
    split at hstep
    · split at hstep <;> simp_all
    · cases hstep
  constructor
  · intro h before after t hevents ht
    exact (test_iff ht (htesting before after t hevents ht)).mp (h before after t hevents ht)
  · intro h before after t hevents ht
    exact (test_iff ht (htesting before after t hevents ht)).mpr (h before after t hevents ht)

/-- The root has run and is gone; the sampling thread stops. -/
def stopEvents : List (SamplerEvent Nat) := (answeredRound ++ exitRound) ++ [.sampler .test]

theorem stopEvents_run : Runs.run step (start 1 "root") stopEvents =
    some { afterExit with sampler := .finished .allStopped } :=
  Runs.run_concat.mpr ⟨afterExit, afterExit_run, by rfl⟩

theorem stopsRight_iff_stopEvents :
    (∀ before after t, stopEvents = before ++ .sampler .test :: after →
      Runs.run step (start 1 "root") before = some t → StopsRight 1 "root" before t) ↔
    ∀ before after t, stopEvents = before ++ .sampler .test :: after →
      Runs.run step (start 1 "root") before = some t → AnsweredWhilePending t :=
  stopsRight_iff stopEvents_run

/-- The child is still starting when the sampling thread leaves. -/
theorem stopEvents_pending :
    ¬∀ (root : Pid) (commandLine : String) (events : List (SamplerEvent Nat)) (s : SamplerState Nat),
      Runs.run step (start root commandLine) events = some s →
      ∀ before after t, events = before ++ .sampler .test :: after →
        Runs.run step (start root commandLine) before = some t → StopsRight root commandLine before t := by
  intro h
  have hright := h 1 "root" stopEvents _ stopEvents_run (answeredRound ++ exitRound) [] afterExit rfl afterExit_run
  have hworker : (afterExit.spies.lookup 2).map (·.worker) = some .starting := by decide
  obtain ⟨child, hchild, hstarting⟩ := Option.map_eq_some_iff.mp hworker
  exact (hright (by decide) 2 child hchild).2 (.inl hstarting)

end SamplerState

end StSpy
