import StSpy.ConsoleViewer.Screens
import StSpy.Record.Stop
import StSpy.Sampler.SingleRuns

/-!
# The commands that sample

`record` and `top` loop over the samples of a sampler: `for sample in sampler`. The
body is given what it meets besides the sample, which is whether Control-C has been
pressed and what is typed. The sampler is dropped where the loop ends, also where it
ends because the terminal fails. Of the two samplers it is the one of one process.
-/

namespace StSpy

open Loops

/-- Where the loop is; `failed` is behind a `?`. -/
inductive LoopPc (γ : Type) where
  | looping (state : γ)
  | ended (state : γ)
  | failed

def LoopPc.ofTurn {γ : Type} : Turn γ γ → LoopPc γ
  | .next state => looping state
  | .exit state => ended state

theorem LoopPc.ofTurn_eq_looping {γ : Type} {turn : Turn γ γ} {state : γ} (h : ofTurn turn = .looping state) :
    turn = .next state := by
  cases turn with
  | next => cases h; rfl
  | exit => cases h

theorem LoopPc.ofTurn_eq_ended {γ : Type} {turn : Turn γ γ} {state : γ} (h : ofTurn turn = .ended state) :
    turn = .exit state := by
  cases turn with
  | next => cases h
  | exit => cases h; rfl

/-- The loop is where the body leaves it, or where the samples are over. -/
structure LoopPc.Reached {γ ι : Type} (body : γ → ι → Turn γ γ) (state : γ) (taken : List ι) (allTaken : Prop)
    (pc : LoopPc γ) : Prop where
  looping : ∀ now, pc = .looping now → Follows body state taken (.next now)
  ended : ∀ now, pc = .ended now →
    Follows body state taken (.exit now) ∨ allTaken ∧ Follows body state taken (.next now)

namespace LoopPc.Reached

variable {γ ι : Type} {body : γ → ι → Turn γ γ} {state now : γ} {taken : List ι} {allTaken allTaken' : Prop}

theorem start (state : γ) : Reached body state [] allTaken (.looping state) where
  looping now h := by
    cases h
    exact .nil state
  ended now h := by cases h

theorem take (h : Reached body state taken allTaken (.looping now)) (x : ι) :
    Reached body state (taken ++ [x]) allTaken' (.ofTurn (body now x)) := by
  have hnext := (h.looping now rfl).concat x
  refine ⟨fun now' hlooping => ?_, fun now' hended => ?_⟩
  · rwa [ofTurn_eq_looping hlooping] at hnext
  · rw [ofTurn_eq_ended hended] at hnext
    exact .inl hnext

theorem finish (h : Reached body state taken allTaken (.looping now)) (hover : allTaken') :
    Reached body state taken allTaken' (.ended now) where
  looping now h := by cases h
  ended now' hended := by
    cases hended
    exact .inr ⟨hover, h.looping now rfl⟩

theorem failed : Reached body state taken allTaken .failed where
  looping now h := by cases h
  ended now h := by cases h

theorem mono {pc : LoopPc γ} (h : Reached body state taken allTaken pc) (hover : allTaken → allTaken') :
    Reached body state taken allTaken' pc where
  looping := h.looping
  ended now hended := (h.ended now hended).imp_right fun hleft => ⟨hover hleft.1, hleft.2⟩

end LoopPc.Reached

structure SamplingLoop (γ ε : Type) where
  sampler : SingleSampler
  pc : LoopPc γ
  /-- What the body was given. -/
  taken : List (ε × Sample)

inductive LoopAction (ε : Type) where
  | sampler (action : SamplingAction)
  | next (met : ε)
  | fail
  | drop

/-- The actions that the loop takes itself. -/
def SamplingAction.ofLoop : SamplingAction → Bool
  | next | dropSampler => true
  | _ => false

namespace SamplingLoop

variable {γ ε : Type}

def start (state : γ) : SamplingLoop γ ε where
  sampler := .start
  pc := .looping state
  taken := []

section

variable (lower : String → String) (native : Native) (pid : Pid) (config : SpyConfig)
  (body : γ → ε × Sample → Turn γ γ)

def step (s : SamplingLoop γ ε) : LoopAction ε → Option (SamplingLoop γ ε)
  | .sampler action =>
    if action.ofLoop then none
    else (s.sampler.step lower native pid config action).map fun sampler => { s with sampler }
  | .next met =>
    match s.pc, s.sampler.sampleChannel.recv with
    | .looping state, some (some sample, _) =>
      (s.sampler.step lower native pid config .next).map fun sampler =>
        { sampler, pc := .ofTurn (body state (met, sample)), taken := s.taken ++ [(met, sample)] }
    | .looping state, some (none, _) =>
      (s.sampler.step lower native pid config .next).map fun sampler => { s with sampler, pc := .ended state }
    | _, _ => none
  | .fail =>
    match s.pc, s.sampler.caller with
    | .looping _, .sampling _ => some { s with pc := .failed }
    | _, _ => none
  | .drop =>
    match s.pc with
    | .looping _ => none
    | _ => (s.sampler.step lower native pid config .dropSampler).map fun sampler => { s with sampler }

end

variable {lower : String → String} {native : Native} {pid : Pid} {config : SpyConfig}
  {body : γ → ε × Sample → Turn γ γ} {s s' : SamplingLoop γ ε} {state : γ} {action : LoopAction ε}
  {actions : List (LoopAction ε)}

/-! ## Runs -/

/-- The body was given what the sampler received, one after the other. -/
structure Inv (lower : String → String) (native : Native) (pid : Pid) (config : SpyConfig)
    (body : γ → ε × Sample → Turn γ γ) (state : γ) (s : SamplingLoop γ ε) : Prop where
  sampler : s.sampler.Inv lower native pid config
  received : s.sampler.received = s.taken.map Prod.snd
  reached : s.pc.Reached body state s.taken (s.sampler.ended = true)
  started : ∀ now, s.pc = .ended now → s.sampler.started ≠ none

theorem Inv.start (state : γ) : (start state).Inv lower native pid config body state where
  sampler := .start
  received := rfl
  reached := .start state
  started now h := by cases h

/-- What only the loop's own calls of `next` change. -/
theorem moves_keeps {t t' : SingleSampler} {action : SamplingAction}
    (hmoves : t.Moves lower native pid config action t') (haction : action ≠ .next) :
    t'.received = t.received ∧ t'.ended = t.ended ∧ (t.started ≠ none → t'.started ≠ none) := by
  cases hmoves with
  | received => exact absurd rfl haction
  | ended => exact absurd rfl haction
  | attached => exact ⟨rfl, rfl, fun _ => Option.some_ne_none _⟩
  | _ => exact ⟨rfl, rfl, id⟩

theorem Inv.sampler_step (h : s.Inv lower native pid config body state) {action : SamplingAction}
    (haction : action ≠ .next) {sampler : SingleSampler}
    (hstep : s.sampler.step lower native pid config action = some sampler) :
    { s with sampler }.Inv lower native pid config body state := by
  obtain ⟨hreceived, hended, hstarted⟩ := moves_keeps (h.sampler.moves hstep) haction
  exact
    { sampler := h.sampler.step hstep
      received := hreceived.trans h.received
      reached := h.reached.mono hended.trans
      started := fun now hdone => hstarted (h.started now hdone) }

theorem Inv.step (h : s.Inv lower native pid config body state)
    (hstep : s.step lower native pid config body action = some s') : s'.Inv lower native pid config body state := by
  cases action with
  | sampler action =>
    simp only [SamplingLoop.step] at hstep
    split at hstep
    · cases hstep
    · rename_i hnot
      obtain ⟨sampler, hsampler, rfl⟩ := Option.map_eq_some_iff.mp hstep
      refine h.sampler_step (fun hnext => hnot ?_) hsampler
      rw [hnext]
      rfl
  | next met =>
    cases hpc : s.pc with
    | looping now =>
      have hreached : LoopPc.Reached body state s.taken (s.sampler.ended = true) (.looping now) := hpc ▸ h.reached
      cases hrecv : s.sampler.sampleChannel.recv with
      | none => simp [SamplingLoop.step, hpc, hrecv] at hstep
      | some message =>
        obtain ⟨message, channel⟩ := message
        cases message with
        | none =>
          simp only [SamplingLoop.step, hpc, hrecv] at hstep
          obtain ⟨sampler, hsampler, rfl⟩ := Option.map_eq_some_iff.mp hstep
          obtain ⟨hqueue, -⟩ := Channel.recv_disconnected hrecv
          cases h.sampler.moves hsampler with
          | received _ hmore =>
            rw [hqueue] at hmore
            cases hmore
          | ended hsampling =>
            obtain ⟨first, hfirst, -⟩ := h.sampler.handshake.sampling _ hsampling
            exact ⟨h.sampler.step hsampler, h.received, hreached.finish rfl, fun _ _ => hfirst ▸ Option.some_ne_none _⟩
        | some sample =>
          simp only [SamplingLoop.step, hpc, hrecv] at hstep
          obtain ⟨sampler, hsampler, rfl⟩ := Option.map_eq_some_iff.mp hstep
          obtain ⟨hqueue, -⟩ := Channel.recv_message hrecv
          cases h.sampler.moves hsampler with
          | ended _ hempty =>
            rw [hqueue] at hempty
            cases hempty
          | received hsampling hmore =>
            obtain ⟨first, hfirst, -⟩ := h.sampler.handshake.sampling _ hsampling
            rw [hqueue] at hmore
            cases hmore
            refine ⟨h.sampler.step hsampler, ?_, hreached.take (met, sample), fun _ _ => hfirst ▸ Option.some_ne_none _⟩
            rw [h.received, List.map_append]
            rfl
    | _ => simp [SamplingLoop.step, hpc] at hstep
  | fail =>
    simp only [SamplingLoop.step] at hstep
    split at hstep
    · cases hstep
      exact { h with reached := .failed, started := fun now hdone => by cases hdone }
    · cases hstep
  | drop =>
    simp only [SamplingLoop.step] at hstep
    split at hstep
    · cases hstep
    · obtain ⟨sampler, hsampler, rfl⟩ := Option.map_eq_some_iff.mp hstep
      exact h.sampler_step SamplingAction.noConfusion hsampler

theorem Inv.run
    (hrun : Runs.run (SamplingLoop.step lower native pid config body) (SamplingLoop.start state) actions = some s) :
    s.Inv lower native pid config body state :=
  Runs.run_invariant (fun h hstep => h.step hstep) hrun (Inv.start state)

/-- The body is given the first samples of the spy that has attached. -/
theorem Inv.taken_prefix (h : s.Inv lower native pid config body state) {first : SmalltalkSpy}
    (hfirst : s.sampler.started = some first) :
    s.taken.map Prod.snd <+: samplesOf native first s.sampler.turns := by
  have hsent := h.sampler.loop.sent
  rw [hfirst, Option.map_some, Option.getD_some] at hsent
  rw [← h.received, ← hsent]
  exact h.sampler.stream.received

/-- It is given all of them where it does not leave the loop before. -/
theorem Inv.left (h : s.Inv lower native pid config body state) {now : γ} (hdone : s.pc = .ended now) :
    ∃ first, s.sampler.started = some first ∧
      (Follows body state s.taken (.exit now) ∨
        s.taken.map Prod.snd = samplesOf native first s.sampler.turns ∧ Follows body state s.taken (.next now)) := by
  have hleft := h.reached.ended now hdone
  obtain ⟨first, hfirst⟩ := Option.ne_none_iff_exists'.mp (h.started now hdone)
  have hsent := h.sampler.loop.sent
  rw [hfirst, Option.map_some, Option.getD_some] at hsent
  refine ⟨first, hfirst, hleft.imp_right fun hended => ⟨?_, hended.2⟩⟩
  rw [← h.received, ← hsent]
  exact (h.sampler.stream.ended hended.1).1

end SamplingLoop

/-! ## `record` -/

theorem Recording.arrivals_samples (taken : List (Bool × Sample)) :
    (taken.map Recording.arrivalOf).map Arrival.sample = taken.map Prod.snd := by
  rw [List.map_map]
  rfl

/-- What has passed of a loop that has ended. -/
theorem SamplingLoop.Inv.recorded {lower : String → String} {native : Native} {pid : Pid} {config : SpyConfig}
    {rate : RecordConfig} {s : SamplingLoop Recording Bool}
    (h : s.Inv lower native pid config (Recording.turn rate) {}) {state : Recording} (hdone : s.pc = .ended state) :
    ∃ first passed, s.sampler.started = some first ∧
      state = recordSamples rate (s.taken.map Recording.arrivalOf) ∧ Recording.Records rate state passed ∧
      Recording.Ended rate (samplesOf native first s.sampler.turns) (s.taken.map Recording.arrivalOf) passed
        state.exitMessage := by
  obtain ⟨first, hfirst, hfollows | ⟨hall, hfollows⟩⟩ := h.left hdone
  · obtain ⟨passed, hrecords, hended⟩ := Recording.ended_of_follows hfollows fun _ h => nomatch h
    exact ⟨first, passed, hfirst, (Recording.loop_of_follows hfollows).symm, hrecords, hended⟩
  · obtain ⟨passed, hrecords, hended⟩ := Recording.ended_of_follows hfollows fun _ _ => hall
    exact ⟨first, passed, hfirst, (Recording.loop_of_follows hfollows).symm, hrecords, hended⟩

/-- In every interleaving, a recording that has ended holds what passed of the samples of the spy that has
attached: all of them where the process exited, else those before Control-C or before the last requested one. -/
theorem record_run {lower : String → String} {native : Native} {pid : Pid} {config : SpyConfig}
    {actions : List (LoopAction Bool)} {s : SamplingLoop Recording Bool}
    (hrun : Runs.run (SamplingLoop.step lower native pid config (Recording.turn config.toRecordConfig))
      (SamplingLoop.start {}) actions = some s)
    {state : Recording} (hdone : s.pc = .ended state) :
    ∃ first arrivals passed, s.sampler.started = some first ∧ state = recordSamples config.toRecordConfig arrivals ∧
      arrivals.map Arrival.sample <+: samplesOf native first s.sampler.turns ∧
      Recording.Records config.toRecordConfig state passed ∧
      Recording.Ended config.toRecordConfig (samplesOf native first s.sampler.turns) arrivals passed
        state.exitMessage := by
  have hinv := SamplingLoop.Inv.run hrun
  obtain ⟨first, passed, hfirst, hstate, hrecords, hended⟩ := hinv.recorded hdone
  have hprefix := hinv.taken_prefix hfirst
  rw [← Recording.arrivals_samples] at hprefix
  exact ⟨first, _, passed, hfirst, hstate, hprefix, hrecords, hended⟩

/-- A recording of two samples, the second behind Control-C. -/
def interruptedActions : List (LoopAction Bool) :=
  [.sampler (.retryNew SingleSampler.zoneAttempts 0), .sampler .recvInitialized, .sampler (.wait ⟨100, 0⟩),
    .sampler (.trace (SmalltalkSpy.zoneVisit [0x1030]) false), .next true, .sampler (.wait ⟨100, 300⟩),
    .sampler (.trace (SmalltalkSpy.zoneVisit [0x1038]) false), .next false, .drop]

theorem record_run_interrupted :
    ∃ s state, Runs.run (SamplingLoop.step id SmalltalkSpy.noNative 5 SingleSampler.zoneConfig
        (Recording.turn SingleSampler.zoneConfig.toRecordConfig)) (SamplingLoop.start {}) interruptedActions = some s ∧
      s.pc = .ended state ∧
      ∃ first arrivals passed, s.sampler.started = some first ∧
        state = recordSamples SingleSampler.zoneConfig.toRecordConfig arrivals ∧
        arrivals.map Arrival.sample <+: samplesOf SmalltalkSpy.noNative first s.sampler.turns ∧
        Recording.Records SingleSampler.zoneConfig.toRecordConfig state passed ∧
        Recording.Ended SingleSampler.zoneConfig.toRecordConfig
          (samplesOf SmalltalkSpy.noNative first s.sampler.turns) arrivals passed state.exitMessage :=
  have hrun : ∃ s state, Runs.run (SamplingLoop.step id SmalltalkSpy.noNative 5 SingleSampler.zoneConfig
      (Recording.turn SingleSampler.zoneConfig.toRecordConfig)) (SamplingLoop.start {}) interruptedActions = some s ∧
      s.pc = .ended state := ⟨_, _, rfl, rfl⟩
  let ⟨s, state, hs, hdone⟩ := hrun
  ⟨s, state, hs, hdone, record_run hs hdone⟩

/-! ## `top` -/

namespace ConsoleViewer

def processedOf (taken : List Typed × Sample) : Processed := ⟨taken.2, taken.1⟩

/-- The body of the loop of `sample_console`. -/
def turn (viewer : ConsoleViewer) (taken : List Typed × Sample) : Turn ConsoleViewer ConsoleViewer :=
  .next (viewer.sampleConsole (processedOf taken))

theorem eq_of_follows {viewer : ConsoleViewer} {taken : List (List Typed × Sample)}
    {out : Turn ConsoleViewer ConsoleViewer} (h : Follows turn viewer taken out) :
    out = .next (viewer.run (taken.map processedOf)) := by
  induction h with
  | nil viewer => rfl
  | next hx _ ih =>
    cases hx
    exact ih
  | exit hx => cases hx

variable {config : ViewerConfig} {viewer : ConsoleViewer} {taken : List (List Typed × Sample)} {allTaken : Prop}
  {pc : LoopPc ConsoleViewer}

theorem eq_of_reached {start : ConsoleViewer} (h : LoopPc.Reached turn start taken allTaken pc)
    (hpc : pc = .looping viewer ∨ pc = .ended viewer) : viewer = start.run (taken.map processedOf) := by
  rcases hpc with hlooping | hdone
  · cases eq_of_follows (h.looping viewer hlooping)
    rfl
  · rcases h.ended viewer hdone with hfollows | ⟨-, hfollows⟩
    · cases eq_of_follows hfollows
    · cases eq_of_follows hfollows
      rfl

/-- Only the end of the samples ends the loop. -/
theorem over_of_reached {start : ConsoleViewer} (h : LoopPc.Reached turn start taken allTaken pc)
    (hdone : pc = .ended viewer) : allTaken := by
  rcases h.ended viewer hdone with hfollows | ⟨hover, -⟩
  · cases eq_of_follows hfollows
  · exact hover

/-- The viewer and its screens tell of these samples, each of those in its window: of all so far where no reset is
asked for. -/
structure ShowsTaken (config : ViewerConfig) (taken : List (List Typed × Sample)) (viewer : ConsoleViewer) : Prop where
  shows : viewer.Shows (Watch.of (taken.map processedOf)) (Watch.shownOf config (taken.map processedOf))
    (taken.map fun met => met.2.traces)
  whole : (∀ met ∈ taken, ∀ typed ∈ met.1, typed.Quiet) →
    ∀ window ∈ (Watch.of (taken.map processedOf)).window :: Watch.shownOf config (taken.map processedOf),
      window.since = 0

/-- What the loop shows of the samples it has taken. -/
theorem showsTaken_of_reached (h : LoopPc.Reached turn (new config) taken allTaken pc)
    (hpc : pc = .looping viewer ∨ pc = .ended viewer) : viewer.ShowsTaken config taken where
  shows := by
    have hshows := shows_run config (taken.map processedOf)
    rw [← eq_of_reached h hpc, List.map_map] at hshows
    exact hshows
  whole hquiet := by
    refine Watch.since_eq_zero config fun processed hprocessed typed htyped => ?_
    obtain ⟨met, hmet, rfl⟩ := List.mem_map.mp hprocessed
    exact hquiet met hmet typed htyped

end ConsoleViewer

/-- In every interleaving and whatever is typed, the viewer has taken the first samples of the spy that has attached,
all of them at the end, and its screens tell of those in their windows. -/
theorem top_run {lower : String → String} {native : Native} {pid : Pid} {config : SpyConfig}
    {refreshDue : Nat → Bool} {actions : List (LoopAction (List Typed))} {s : SamplingLoop ConsoleViewer (List Typed)}
    (hrun : Runs.run (SamplingLoop.step lower native pid config ConsoleViewer.turn)
      (SamplingLoop.start (.new { config.toConfig with refreshDue })) actions = some s)
    {viewer : ConsoleViewer} (hpc : s.pc = .looping viewer ∨ s.pc = .ended viewer) :
    (∀ first, s.sampler.started = some first → s.taken.map Prod.snd <+: samplesOf native first s.sampler.turns) ∧
      (s.pc = .ended viewer → ∃ first, s.sampler.started = some first ∧
        s.taken.map Prod.snd = samplesOf native first s.sampler.turns) ∧
      viewer.ShowsTaken { config.toConfig with refreshDue } s.taken := by
  have hinv := SamplingLoop.Inv.run hrun
  refine ⟨fun first hfirst => hinv.taken_prefix hfirst, fun hdone => ?_,
    ConsoleViewer.showsTaken_of_reached hinv.reached hpc⟩
  obtain ⟨first, hfirst, hfollows | ⟨hall, -⟩⟩ := hinv.left hdone
  · cases ConsoleViewer.eq_of_follows hfollows
  · exact ⟨first, hfirst, hall⟩

/-- A viewer that has shown two samples, the first one as a key was typed. -/
def viewedActions : List (LoopAction (List Typed)) :=
  [.sampler (.retryNew SingleSampler.zoneAttempts 0), .sampler .recvInitialized, .sampler (.wait ⟨100, 0⟩),
    .sampler (.trace (SmalltalkSpy.zoneVisit [0x1030]) false), .next [⟨['4'], []⟩], .sampler (.wait ⟨100, 300⟩),
    .sampler (.trace (SmalltalkSpy.zoneVisit [0x1038]) false), .next []]

theorem top_run_viewed :
    ∃ s viewer, Runs.run (SamplingLoop.step id SmalltalkSpy.noNative 5 SingleSampler.zoneConfig ConsoleViewer.turn)
        (SamplingLoop.start (.new { SingleSampler.zoneConfig.toConfig with refreshDue := fun _ => true }))
        viewedActions = some s ∧
      s.pc = .looping viewer ∧ viewer.screens.length = 2 ∧
      (∀ first, s.sampler.started = some first →
        s.taken.map Prod.snd <+: samplesOf SmalltalkSpy.noNative first s.sampler.turns) ∧
      (s.pc = .ended viewer → ∃ first, s.sampler.started = some first ∧
        s.taken.map Prod.snd = samplesOf SmalltalkSpy.noNative first s.sampler.turns) ∧
      viewer.ShowsTaken { SingleSampler.zoneConfig.toConfig with refreshDue := fun _ => true } s.taken :=
  have hrun : ∃ s viewer,
      Runs.run (SamplingLoop.step id SmalltalkSpy.noNative 5 SingleSampler.zoneConfig ConsoleViewer.turn)
        (SamplingLoop.start (.new { SingleSampler.zoneConfig.toConfig with refreshDue := fun _ => true }))
        viewedActions = some s ∧ s.pc = .looping viewer ∧ viewer.screens.length = 2 := ⟨_, _, rfl, rfl, rfl⟩
  let ⟨s, viewer, hs, hlooping, hscreens⟩ := hrun
  ⟨s, viewer, hs, hlooping, hscreens, top_run hs (.inl hlooping)⟩

end StSpy
