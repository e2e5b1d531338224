import StSpy.Commands
import StSpy.Sampler.Annotations
import StSpy.Sampler.Leave

/-!
# Recording several processes

The loop of a command over the samples of the subprocess sampler. However its threads
and the loop interleave, a recording holds of each process what the spy of its worker
has told, with the ancestry of the process below each stack, and nothing else of it.
-/

namespace StSpy

open Loops

/-- The samples that are sent and not yet taken are in the channel. -/
structure SubprocessLoop (γ ε : Type) where
  sampler : AnnotatedState
  pc : LoopPc γ
  /-- What the body was given. -/
  taken : List (ε × Sample)

inductive SubprocessAction (ε : Type) where
  | sampler (event : AnnotatedEvent)
  | next (met : ε)
  | fail
  | drop

/-- The events that the loop causes itself. -/
def AnnotatedEvent.ofLoop : AnnotatedEvent → Bool
  | .below (.threads .dropReceiver) => true
  | _ => false

theorem AnnotatedEvent.ofLoop_iff {event : AnnotatedEvent} : event.ofLoop = true ↔ event.party = .receiver := by
  cases event with
  | below event =>
    cases event with
    | threads event => cases event <;> simp [ofLoop, party, SpiesEvent.party, SamplerEvent.party]
    | _ => simp [ofLoop, party, SpiesEvent.party]
  | send depth late => simp [ofLoop, party]

namespace SubprocessLoop

variable {γ ε : Type}

def start (root : Pid) (commandLine : String) (state : γ) : SubprocessLoop γ ε where
  sampler := .start root commandLine
  pc := .looping state
  taken := []

section

variable (lower : String → String) (native : Native) (config : SpyConfig) (body : γ → ε × Sample → Turn γ γ)

def step (s : SubprocessLoop γ ε) : SubprocessAction ε → Option (SubprocessLoop γ ε)
  | .sampler event =>
    if event.ofLoop then none
    else (s.sampler.step lower native config event).map fun sampler => { s with sampler }
  | .next met =>
    match s.pc, s.sampler.below.threads.main, s.sampler.sent[s.taken.length]? with
    | .looping state, .sampling, some sample =>
      some { s with pc := .ofTurn (body state (met, sample)), taken := s.taken ++ [(met, sample)] }
    | .looping state, .sampling, none =>
      match s.sampler.below.threads.sampler with
      -- the sender is dropped with the thread
      | .finished _ => some { s with pc := .ended state }
      | _ => none
    | _, _, _ => none
  | .fail =>
    match s.pc, s.sampler.below.threads.main with
    | .looping _, .sampling => some { s with pc := .failed }
    | _, _ => none
  | .drop =>
    match s.pc with
    | .looping _ => none
    | _ =>
      (s.sampler.step lower native config (.below (.threads .dropReceiver))).map fun sampler => { s with sampler }

end

end SubprocessLoop

/-! ## The channel of the samples -/

namespace SamplerState

variable {α : Type} {s s' : SamplerState α} {event : SamplerEvent α}

theorem step_receiver (hstep : s.step event = some s') (hne : event ≠ .dropReceiver) : s'.receiver = s.receiver := by
  cases event with
  | worker pid action =>
    obtain ⟨spy, spy', -, -, rfl⟩ := step_worker hstep
    rfl
  | main action => cases (mainStep_moves hstep).2 <;> rfl
  | monitor action => cases (monitorStep_moves hstep).2 <;> rfl
  | sampler action => cases samplerStep_roundMoves hstep <;> rfl
  | dropReceiver => exact absurd rfl hne

/-- The thread leaves for the receiver only where it is gone. -/
def GoneRight (s : SamplerState α) : Prop := s.sampler = .finished .receiverGone → s.receiver = false

theorem GoneRight.step (h : s.GoneRight) (hstep : s.step event = some s') : s'.GoneRight := by
  intro hgone
  rcases sampler_or_elsewhere hstep with ⟨action, rfl⟩ | ⟨hpc, -⟩
  · cases samplerStep_roundMoves hstep with
    | skip => exact h hgone
    | leave hpc =>
      by_contra hreceiver
      have hmain := (samplerStep_moves hstep).1
      cases action with
      | send => simp [SamplerState.step, samplerStep, hmain, hpc, hreceiver] at hstep
      | _ => simp [SamplerState.step, samplerStep, hmain, hpc] at hstep
    | check =>
      dsimp only at hgone
      split at hgone <;> cases hgone
    | test =>
      dsimp only at hgone
      split at hgone <;> cases hgone
    | _ => cases hgone
  · exact receiver_step hstep (h (hpc ▸ hgone))

end SamplerState

namespace AnnotatedState

variable {lower : String → String} {native : Native} {config : SpyConfig} {s s' : AnnotatedState}
  {event : AnnotatedEvent}

/-- What is sent stays, and a thread that has left sends no more. -/
theorem step_sent (hstep : s.step lower native config event = some s') :
    s.sent <+: s'.sent ∧ ∀ left, s.below.threads.sampler = .finished left → s'.sent = s.sent := by
  cases event with
  | below event =>
    simp only [AnnotatedState.step] at hstep
    split at hstep
    · cases hstep
    · obtain ⟨state, -, rfl⟩ := Option.map_eq_some_iff.mp hstep
      exact ⟨List.prefix_rfl, fun _ _ => rfl⟩
  | send depth late =>
    simp only [AnnotatedState.step] at hstep
    split at hstep
    · cases hstep
    · obtain ⟨state, hstate, rfl⟩ := Option.map_eq_some_iff.mp hstep
      obtain ⟨threads, hthreads, -⟩ := Option.map_eq_some_iff.mp hstate
      obtain ⟨-, hpc, -⟩ := SamplerState.samplerStep_send hthreads
      refine ⟨?_, fun left hleft => ?_⟩
      · dsimp only
        split
        · exact List.prefix_append _ _
        · exact List.prefix_rfl
      · rw [hpc] at hleft
        cases hleft

end AnnotatedState

/-! ## Runs of the loop -/

theorem exists_of_forall₂ {ι κ : Type} {R : ι → κ → Prop} {l : List ι} {m : List κ} (h : List.Forall₂ R l m) {y : κ}
    (hy : y ∈ m) : ∃ x ∈ l, R x y := by
  induction h with
  | nil => cases hy
  | @cons first other l m hfirst _ ih =>
    rcases List.mem_cons.mp hy with rfl | hrest
    · exact ⟨first, List.mem_cons_self, hfirst⟩
    · obtain ⟨found, hfound, hof⟩ := ih hrest
      exact ⟨found, List.mem_cons_of_mem _ hfound, hof⟩

theorem prefix_concat {ι : Type} {l m : List ι} {x : ι} (h : l <+: m) (hx : m[l.length]? = some x) :
    l ++ [x] <+: m := by
  obtain ⟨rest, rfl⟩ := h
  rw [List.getElem?_append_right le_rfl, Nat.sub_self] at hx
  cases rest with
  | nil => cases hx
  | cons y rest =>
    cases hx
    exact ⟨rest, by rw [List.append_assoc]; rfl⟩

namespace SubprocessLoop

variable {γ ε : Type} {lower : String → String} {native : Native} {config : SpyConfig}
  {body : γ → ε × Sample → Turn γ γ} {s s' : SubprocessLoop γ ε} {state : γ} {action : SubprocessAction ε}
  {actions : List (SubprocessAction ε)}

/-- All samples are taken, and no more come. -/
def Over (s : SubprocessLoop γ ε) : Prop :=
  s.taken.map Prod.snd = s.sampler.sent ∧ s.sampler.below.threads.sampler = .finished .allStopped

structure Inv (lower : String → String) (native : Native) (config : SpyConfig) (body : γ → ε × Sample → Turn γ γ)
    (state : γ) (s : SubprocessLoop γ ε) : Prop where
  sampler : s.sampler.Inv lower native config
  taken : s.taken.map Prod.snd <+: s.sampler.sent
  receiver : ∀ now, s.pc = .looping now → s.sampler.below.threads.receiver = true
  gone : s.sampler.below.threads.GoneRight
  reached : s.pc.Reached body state s.taken s.Over

theorem Inv.start (root : Pid) (commandLine : String) (state : γ) :
    (start root commandLine state).Inv lower native config body state where
  sampler := .start root commandLine
  taken := List.prefix_rfl
  receiver _ _ := rfl
  gone h := by cases h
  reached := .start state

/-- The sampler takes a step; only a loop that is left drops it. -/
theorem Inv.sampler_step (h : s.Inv lower native config body state) {event : AnnotatedEvent} {sampler : AnnotatedState}
    (hstep : s.sampler.step lower native config event = some sampler)
    (hloop : ∀ now, s.pc = .looping now → event.ofLoop = false) :
    { s with sampler }.Inv lower native config body state := by
  obtain ⟨below, hbelow, hparty⟩ := AnnotatedState.step_below hstep
  obtain ⟨hsent, hleft⟩ := AnnotatedState.step_sent hstep
  have hreceiver : event.ofLoop = false → below ≠ .dropReceiver := by
    rintro hof rfl
    rw [AnnotatedEvent.ofLoop_iff.mpr hparty.symm] at hof
    cases hof
  refine
    { sampler := h.sampler.step hstep
      taken := h.taken.trans hsent
      receiver := fun now hlooping => ?_
      gone := h.gone.step hbelow
      reached := h.reached.mono ?_ }
  · exact (SamplerState.step_receiver hbelow (hreceiver (hloop now hlooping))).trans (h.receiver now hlooping)
  · rintro ⟨hall, hfinished⟩
    exact ⟨hall.trans (hleft _ hfinished).symm, SamplerState.finished_step hfinished hbelow⟩

theorem Inv.step (h : s.Inv lower native config body state)
    (hstep : s.step lower native config body action = some s') : s'.Inv lower native config body state := by
  cases action with
  | sampler event =>
    simp only [SubprocessLoop.step] at hstep
    split at hstep
    · cases hstep
    · rename_i hloop
      obtain ⟨sampler, hsampler, rfl⟩ := Option.map_eq_some_iff.mp hstep
      exact h.sampler_step hsampler fun _ _ => Bool.eq_false_iff.mpr hloop
  | next met =>
    simp only [SubprocessLoop.step] at hstep
    split at hstep
    · rename_i now sample hpc hmain hsample
      cases hstep
      have hreached : LoopPc.Reached body state s.taken s.Over (.looping now) := hpc ▸ h.reached
      refine ⟨h.sampler, ?_, fun _ _ => h.receiver now hpc, h.gone, hreached.take (met, sample)⟩
      rw [List.map_append]
      exact prefix_concat h.taken (by rw [List.length_map]; exact hsample)
    · rename_i now hpc hmain hnone
      have hreached : LoopPc.Reached body state s.taken s.Over (.looping now) := hpc ▸ h.reached
      split at hstep
      · rename_i left hfinished
        cases hstep
        have hall : s.taken.map Prod.snd = s.sampler.sent := by
          refine h.taken.eq_of_length_le ?_
          rw [List.length_map]
          exact List.getElem?_eq_none_iff.mp hnone
        refine ⟨h.sampler, h.taken, (fun _ hlooping => by cases hlooping), h.gone, hreached.finish ⟨hall, ?_⟩⟩
        cases left with
        | allStopped => exact hfinished
        | receiverGone =>
          have hgone := h.gone hfinished
          rw [h.receiver now hpc] at hgone
          cases hgone
      · cases hstep
    · cases hstep
  | fail =>
    simp only [SubprocessLoop.step] at hstep
    split at hstep
    · cases hstep
      exact ⟨h.sampler, h.taken, (fun _ hlooping => by cases hlooping), h.gone, .failed⟩
    · cases hstep
  | drop =>
    simp only [SubprocessLoop.step] at hstep
    split at hstep
    · cases hstep
    · rename_i hpc
      obtain ⟨sampler, hsampler, rfl⟩ := Option.map_eq_some_iff.mp hstep
      exact h.sampler_step hsampler fun now hlooping => absurd hlooping (hpc now)

theorem Inv.run {root : Pid} {commandLine : String}
    (hrun : Runs.run (SubprocessLoop.step lower native config body) (SubprocessLoop.start root commandLine state)
      actions = some s) : s.Inv lower native config body state :=
  Runs.run_invariant (fun h hstep => h.step hstep) hrun (.start root commandLine state)

end SubprocessLoop

/-! ## What is told of one process -/

theorem filter_flatMap_resultsOf {α β : Type} {key : β → Pid} {f : Pid × α → List β} {results : List (Pid × α)}
    (hkey : ∀ r ∈ results, ∀ x ∈ f r, key x = r.1) (pid : Pid) :
    (results.flatMap f).filter (fun x => key x = pid) =
      (SamplerState.resultsOf pid results).flatMap fun result => f (pid, result) := by
  induction results with
  | nil => rfl
  | cons r results ih =>
    obtain ⟨hfirst, hrest⟩ := List.forall_mem_cons.mp hkey
    rw [List.flatMap_cons, List.filter_append, ih hrest]
    obtain ⟨other, result⟩ := r
    by_cases hpid : pid = other
    · subst hpid
      have hall : (f (pid, result)).filter (fun x => key x = pid) = f (pid, result) :=
        List.filter_eq_self.mpr fun x hx => decide_eq_true (hfirst x hx)
      rw [hall, SamplerState.resultsOf_cons, List.flatMap_cons]
    · have hnone : (f (other, result)).filter (fun x => key x = pid) = [] :=
        List.filter_eq_nil_iff.mpr fun x hx => by simp [hfirst x hx, Ne.symm hpid]
      rw [hnone, SamplerState.resultsOf_cons_ne hpid, List.nil_append]

theorem roundErrors_getD (results : List (Pid × WorkerResult)) :
    (roundErrors results).getD [] = results.flatMap fun r => (errorOf r.1 r.2).toList := by
  rw [← List.filterMap_eq_flatMap_toList, roundErrors]
  split
  · rename_i hnone
    exact hnone.symm
  · rfl

/-- What the samples of some rounds have of one process. -/
structure TellsOf (processInfo : Option ProcessInfo) (pid : Pid) (told : List WorkerResult)
    (samples : List Sample) : Prop where
  traces : (samples.flatMap Sample.traces).filter (fun trace => trace.pid = pid) =
    (told.flatMap fun result => result.toOption.getD []).map fun trace => { trace with processInfo }
  errors : (samples.flatMap fun sample => sample.samplingErrors.getD []).filter (fun error => error.1 = pid) =
    told.filterMap (errorOf pid)

theorem sampleOfRound_tellsOf {config : SpyConfig} {results : List (Pid × WorkerResult)}
    (hown : ∀ r ∈ results, SpiesState.OfSpy config r.1 r.2) (processInfo : Pid → Option ProcessInfo)
    (late : Option Nat) (pid : Pid) :
    TellsOf (processInfo pid) pid (SamplerState.resultsOf pid results) [sampleOfRound processInfo late results] where
  traces := by
    have hkey : ∀ r ∈ results, ∀ trace ∈ r.2.toOption.getD [], trace.pid = r.1 := by
      intro r hr trace htrace
      cases hresult : r.2 with
      | error e =>
        rw [hresult] at htrace
        cases htrace
      | ok traces =>
        rw [hresult] at htrace
        exact (hown r hr traces hresult trace htrace).pid_eq
    have hround := filter_flatMap_resultsOf hkey pid
    rw [List.flatMap_singleton, sampleOfRound, List.filter_map, ← hround]
    refine List.map_congr_left fun trace htrace => ?_
    have hpid : trace.pid = pid := of_decide_eq_true (List.mem_filter.mp htrace).2
    rw [hpid]
  errors := by
    have hkey : ∀ r ∈ results, ∀ error ∈ (errorOf r.1 r.2).toList, error.1 = r.1 := by
      intro r _ error herror
      cases hresult : r.2 with
      | ok traces =>
        rw [hresult] at herror
        cases herror
      | error e =>
        rw [hresult] at herror
        rw [List.mem_singleton.mp herror]
    rw [List.flatMap_singleton, sampleOfRound, roundErrors_getD, filter_flatMap_resultsOf hkey pid,
      List.filterMap_eq_flatMap_toList]

theorem TellsOf.append {processInfo : Option ProcessInfo} {pid : Pid} {told more : List WorkerResult}
    {samples others : List Sample} (h : TellsOf processInfo pid told samples)
    (hmore : TellsOf processInfo pid more others) : TellsOf processInfo pid (told ++ more) (samples ++ others) where
  traces := by
    rw [List.flatMap_append, List.filter_append, h.traces, hmore.traces, List.flatMap_append, List.map_append]
  errors := by
    rw [List.flatMap_append, List.filter_append, h.errors, hmore.errors, List.filterMap_append]

theorem rounds_tellsOf {config : SpyConfig} {processInfo : Pid → Option ProcessInfo}
    {rounds : List (List (Pid × WorkerResult))} {samples : List Sample}
    (h : List.Forall₂ (fun results sample => ∃ late, sample = sampleOfRound processInfo late results) rounds samples)
    (hown : ∀ results ∈ rounds, ∀ r ∈ results, SpiesState.OfSpy config r.1 r.2) (pid : Pid) :
    TellsOf (processInfo pid) pid (SamplerState.resultsOf pid rounds.flatten) samples := by
  induction h with
  | nil => exact ⟨rfl, rfl⟩
  | @cons results sample rounds samples hfirst _ ih =>
    obtain ⟨late, rfl⟩ := hfirst
    obtain ⟨hresults, hrest⟩ := List.forall_mem_cons.mp hown
    rw [List.flatten_cons, SamplerState.resultsOf_append]
    exact (sampleOfRound_tellsOf hresults processInfo late pid).append (ih hrest)

/-- What has told of traces of a process has been sent with an ancestry of it. -/
theorem AnnotatedState.Inv.annotated_of_told {lower : String → String} {native : Native} {config : SpyConfig}
    {s : AnnotatedState} (h : s.Inv lower native config) {pid : Pid} {result : WorkerResult}
    (hresult : result ∈ SamplerState.resultsOf pid s.below.threads.samples.flatten)
    (htraces : result.toOption.getD [] ≠ []) : ((s.processInfo pid).join).isSome := by
  obtain ⟨results, hresults, hmem⟩ := List.mem_flatten.mp (SamplerState.mem_resultsOf.mp hresult)
  have hsent : List.Forall₂ (flip (Shows s.processInfo)) s.sent s.below.threads.samples := h.sent.flip
  obtain ⟨sample, -, hknown, -⟩ := exists_of_forall₂ hsent hresults
  obtain ⟨trace, htrace⟩ := List.exists_mem_of_ne_nil _ htraces
  have hpid : trace.pid = pid := by
    cases result with
    | error e => cases htrace
    | ok traces => exact ((h.below.gathers.samples results hresults).2 _ hmem traces rfl trace htrace).pid_eq
  have hround : trace ∈ roundTraces results := List.mem_flatMap.mpr ⟨_, hmem, htrace⟩
  obtain ⟨info, hinfo⟩ := Option.ne_none_iff_exists'.mp (hknown trace hround)
  rw [hpid] at hinfo
  obtain ⟨found, rfl, -⟩ := h.recorded pid info hinfo
  rw [hinfo]
  rfl

/-! ## `record` with subprocesses -/

theorem recordedTrace_pid {config : Config} {trace recorded : StackTrace}
    (h : recordedTrace config trace = some recorded) : recorded.pid = trace.pid := by
  unfold recordedTrace at h
  split at h
  · cases h
  · cases h
    rfl

/-- What is recorded of one process is what is recorded of its traces. -/
theorem recordedTraces_filter (config : Config) (samples : List (List StackTrace)) (pid : Pid) :
    (recordedTraces config samples).filter (fun trace => trace.pid = pid) =
      (samples.flatten.filter fun trace => trace.pid = pid).filterMap (recordedTrace config) := by
  rw [recordedTraces, List.filter_filterMap, List.filterMap_filter]
  refine List.filterMap_congr fun trace _ => ?_
  cases hrecorded : recordedTrace config trace with
  | none => simp
  | some recorded => simp [Option.filter, recordedTrace_pid hrecorded]

/-- What a recording holds of a process whose spy has told this: with traces comes the ancestry below them. -/
structure Recording.HoldsOf (config : Config) (processInfo : Option ProcessInfo) (pid : Pid) (told : List WorkerResult)
    (passed : List Arrival) (state : Recording) : Prop where
  annotated : ∀ result ∈ told, result.toOption.getD [] ≠ [] → processInfo.isSome
  recorded : state.recorded.filter (fun trace => trace.pid = pid) =
    (told.flatMap fun result => result.toOption.getD []).filterMap fun trace =>
      recordedTrace config { trace with processInfo }
  errors : (errorsOf passed).filter (fun error => error.1 = pid) = told.filterMap (errorOf pid)

theorem TellsOf.holdsOf {config : RecordConfig} {processInfo : Option ProcessInfo} {pid : Pid}
    {told : List WorkerResult} {passed : List Arrival} {state : Recording}
    (h : TellsOf processInfo pid told (passed.map Arrival.sample))
    (hannotated : ∀ result ∈ told, result.toOption.getD [] ≠ [] → processInfo.isSome)
    (hrecords : Recording.Records config state passed) :
    state.HoldsOf config.toConfig processInfo pid told passed where
  annotated := hannotated
  recorded := by
    have htraces : (tracesOf passed).flatten = (passed.map Arrival.sample).flatMap Sample.traces := by
      rw [tracesOf, List.flatMap_map, List.flatMap_def]
    rw [hrecords.recorded, recordedTraces_filter, htraces, h.traces, List.filterMap_map]
    rfl
  errors := by
    have herrors : errorsOf passed =
        (passed.map Arrival.sample).flatMap fun sample => sample.samplingErrors.getD [] := by
      rw [errorsOf, List.flatMap_map]
    rw [herrors, h.errors]

/-- In every interleaving, a recording that has ended holds of each process what the spy of its worker told first,
with one ancestry below all its stacks: all that it told, if the processes have exited. -/
theorem record_subprocesses {lower : String → String} {native : Native} {config : SpyConfig} {root : Pid}
    {commandLine : String} {actions : List (SubprocessAction Bool)} {s : SubprocessLoop Recording Bool}
    (hrun : Runs.run (SubprocessLoop.step lower native config (Recording.turn config.toRecordConfig))
      (SubprocessLoop.start root commandLine {}) actions = some s)
    {state : Recording} (hdone : s.pc = .ended state) :
    ∃ arrivals passed, state = recordSamples config.toRecordConfig arrivals ∧
      arrivals.map Arrival.sample <+: s.sampler.sent ∧ Recording.Records config.toRecordConfig state passed ∧
      Recording.Ended config.toRecordConfig s.sampler.sent arrivals passed state.exitMessage ∧
      ∃ (processInfo : Pid → Option ProcessInfo) (told : Pid → List WorkerResult),
        (∀ pid, state.HoldsOf config.toConfig (processInfo pid) pid (told pid) passed) ∧
        (∀ pid info, processInfo pid = some info →
          info.pid = pid ∧ Recorded s.sampler.below.threads.spies info) ∧
        (∀ pid, s.sampler.below.serving pid = none → told pid = []) ∧
        ∀ pid first visits, s.sampler.below.serving pid = some (first, visits) →
          (∃ attempts, SmalltalkSpy.retryNew lower native pid config 5 attempts = some (.ok first)) ∧
          told pid <+: workerResults native first visits ∧
          (state.exitMessage = "Stopped sampling because process exited" →
            told pid = workerResults native first visits) := by
  have hinv := SubprocessLoop.Inv.run hrun
  have hleft := hinv.reached.ended state hdone
  obtain ⟨passed, hstate, hrecords, hended⟩ : ∃ passed,
      state = recordSamples config.toRecordConfig (s.taken.map Recording.arrivalOf) ∧
      Recording.Records config.toRecordConfig state passed ∧
      Recording.Ended config.toRecordConfig s.sampler.sent (s.taken.map Recording.arrivalOf) passed
        state.exitMessage := by
    rcases hleft with hfollows | ⟨hover, hfollows⟩
    · obtain ⟨passed, hrecords, hended⟩ := Recording.ended_of_follows hfollows fun _ h => nomatch h
      exact ⟨passed, (Recording.loop_of_follows hfollows).symm, hrecords, hended⟩
    · obtain ⟨passed, hrecords, hended⟩ := Recording.ended_of_follows hfollows fun _ _ => hover.1
      exact ⟨passed, (Recording.loop_of_follows hfollows).symm, hrecords, hended⟩
  have harrivals : (s.taken.map Recording.arrivalOf).map Arrival.sample <+: s.sampler.sent := by
    rw [Recording.arrivals_samples]
    exact hinv.taken
  have hpassed : passed.map Arrival.sample = s.sampler.sent.take passed.length := by
    have htake := List.prefix_iff_eq_take.mp ((hended.passed_prefix.map Arrival.sample).trans harrivals)
    rwa [List.length_map] at htake
  have hrounds := List.forall₂_take passed.length (hinv.sampler.sent.imp fun _ _ hshows => hshows.2)
  rw [← hpassed] at hrounds
  have htells := rounds_tellsOf hrounds fun results hresults =>
    (hinv.sampler.below.gathers.samples results (List.mem_of_mem_take hresults)).2
  have htold : ∀ pid, SamplerState.resultsOf pid (s.sampler.below.threads.samples.take passed.length).flatten <+:
      SamplerState.resultsOf pid s.sampler.below.threads.samples.flatten := by
    intro pid
    refine List.IsPrefix.filterMap _ ?_
    exact (List.take_prefix _ _).flatten
  refine ⟨_, passed, hstate, harrivals, hrecords, hended, _, _,
    fun pid => (htells pid).holdsOf (fun result hresult => hinv.sampler.annotated_of_told ((htold pid).subset hresult))
      hrecords,
    fun pid info hinfo => ?_, fun pid hserving => ?_, fun pid first visits hserving => ?_⟩
  · obtain ⟨found, heq, hpid, hrecorded⟩ := hinv.sampler.recorded pid (some info) (Option.join_eq_some_iff.mp hinfo)
    cases heq
    exact ⟨hpid, hrecorded⟩
  · have hnothing := htold pid
    rw [hinv.sampler.below.nothing hserving] at hnothing
    exact List.prefix_nil.mp hnothing
  · obtain ⟨hattached, hfirst, hwhole⟩ := hinv.sampler.below.serving hserving
    refine ⟨hattached, (htold pid).trans hfirst, fun hexited => ?_⟩
    rcases hleft with hfollows | ⟨⟨-, hfinished⟩, -⟩
    · exact absurd hexited (Recording.exitMessage_of_exit hfollows)
    · obtain ⟨hall, hsent⟩ := hended.exited_all hexited
      have hlength : passed.length = s.sampler.below.threads.samples.length := by
        rw [hinv.sampler.sent.length_eq, ← hsent, hall, List.length_map, List.length_map,
          List.length_map]
      rw [hlength, List.take_length]
      refine hwhole (by rw [hfinished]; rfl) ?_
      rw [hfinished]
      simp

/-- The worker takes the process for gone where a sample fails. -/
def exits (pid : Pid) : List SpiesEvent :=
  [.threads (.worker pid .receive), .trace pid { SmalltalkSpy.zoneVisit [] with listed := .error "exited" } true,
    .threads (.worker pid .drop), .threads (.worker pid .drop), .threads (.worker pid .drop)]

/-- A recording of a process and its child, which exit after one sample of each. -/
def exitedActions : List (SubprocessAction Bool) :=
  annotatedProcesses.map .sampler ++ [.next true] ++
    [.threads (.sampler (.lock [1, 2])), .threads (.sampler .check), .threads (.sampler .notify),
      .threads (.sampler .check), .threads (.sampler .notify), .threads (.sampler (.iterate [1, 2]))].map
        (fun event => .sampler (.below event)) ++
    (exits 1 ++ exits 2).map (fun event => .sampler (.below event)) ++
    [.sampler (.below (.threads (.sampler .collect))), .sampler (.below (.threads (.sampler .collect))),
      .sampler (.send 3 none), .sampler (.below (.threads (.sampler .test))), .next true, .next true, .drop]

theorem record_subprocesses_exited :
    ∃ s state, Runs.run (SubprocessLoop.step id SmalltalkSpy.noNative SingleSampler.zoneConfig
        (Recording.turn SingleSampler.zoneConfig.toRecordConfig)) (SubprocessLoop.start 1 "root" {}) exitedActions =
          some s ∧
      s.pc = .ended state ∧ state.recorded.length = 2 ∧
      state.exitMessage = "Stopped sampling because process exited" ∧
      ∃ arrivals passed, state = recordSamples SingleSampler.zoneConfig.toRecordConfig arrivals ∧
        arrivals.map Arrival.sample <+: s.sampler.sent ∧
        Recording.Records SingleSampler.zoneConfig.toRecordConfig state passed ∧
        Recording.Ended SingleSampler.zoneConfig.toRecordConfig s.sampler.sent arrivals passed state.exitMessage ∧
        ∃ (processInfo : Pid → Option ProcessInfo) (told : Pid → List WorkerResult),
          (∀ pid, state.HoldsOf SingleSampler.zoneConfig.toConfig (processInfo pid) pid (told pid) passed) ∧
          (∀ pid info, processInfo pid = some info →
            info.pid = pid ∧ Recorded s.sampler.below.threads.spies info) ∧
          (∀ pid, s.sampler.below.serving pid = none → told pid = []) ∧
          ∀ pid first visits, s.sampler.below.serving pid = some (first, visits) →
            (∃ attempts, SmalltalkSpy.retryNew id SmalltalkSpy.noNative pid SingleSampler.zoneConfig 5 attempts =
              some (.ok first)) ∧
            told pid <+: workerResults SmalltalkSpy.noNative first visits ∧
            (state.exitMessage = "Stopped sampling because process exited" →
              told pid = workerResults SmalltalkSpy.noNative first visits) :=
  have hrun : ∃ s state, Runs.run (SubprocessLoop.step id SmalltalkSpy.noNative SingleSampler.zoneConfig
      (Recording.turn SingleSampler.zoneConfig.toRecordConfig)) (SubprocessLoop.start 1 "root" {}) exitedActions =
        some s ∧
      s.pc = .ended state ∧ state.recorded.length = 2 ∧
      state.exitMessage = "Stopped sampling because process exited" := ⟨_, _, rfl, rfl, rfl, rfl⟩
  let ⟨s, state, hs, hdone, htwo, hexited⟩ := hrun
  ⟨s, state, hs, hdone, htwo, hexited, record_subprocesses hs hdone⟩

/-! ## `top` with subprocesses -/

/-- In every interleaving and whatever is typed, the viewer has taken the first samples that were sent, all of them at
the end, its screens tell of those in their windows, and it counts the threads and the processes of the last one. -/
theorem top_subprocesses {lower : String → String} {native : Native} {config : SpyConfig} {refreshDue : Nat → Bool}
    {root : Pid} {commandLine : String} {actions : List (SubprocessAction (List Typed))}
    {s : SubprocessLoop ConsoleViewer (List Typed)}
    (hrun : Runs.run (SubprocessLoop.step lower native config ConsoleViewer.turn)
      (SubprocessLoop.start root commandLine (.new { config.toConfig with refreshDue })) actions = some s)
    {viewer : ConsoleViewer} (hpc : s.pc = .looping viewer ∨ s.pc = .ended viewer) :
    s.taken.map Prod.snd <+: s.sampler.sent ∧
      (s.pc = .ended viewer → s.taken.map Prod.snd = s.sampler.sent) ∧
      viewer.ShowsTaken { config.toConfig with refreshDue } s.taken ∧
      ∀ before typed sample, s.taken = before ++ [(typed, sample)] →
        viewer.stats.threads = sample.traces.length ∧
          viewer.stats.processes = (sample.traces.map StackTrace.pid).toFinset.card := by
  have hinv := SubprocessLoop.Inv.run hrun
  refine ⟨hinv.taken, fun hdone => (ConsoleViewer.over_of_reached hinv.reached hdone).1,
    ConsoleViewer.showsTaken_of_reached hinv.reached hpc, fun before typed sample htaken => ?_⟩
  have hsample : sample ∈ s.sampler.sent := by
    refine hinv.taken.subset ?_
    rw [htaken, List.map_append]
    exact List.mem_append_right _ List.mem_cons_self
  obtain ⟨results, hresults, -, late, rfl⟩ := exists_of_forall₂ hinv.sampler.sent hsample
  rw [ConsoleViewer.eq_of_reached hinv.reached hpc, htaken, List.map_append, ConsoleViewer.run, List.foldl_append]
  exact ConsoleViewer.increment_sampleOfRound (hinv.sampler.below.gathered hresults) _ late _ _

theorem top_subprocesses_annotated :
    ∃ s viewer, Runs.run (SubprocessLoop.step id SmalltalkSpy.noNative SingleSampler.zoneConfig ConsoleViewer.turn)
        (SubprocessLoop.start 1 "root"
          (.new { SingleSampler.zoneConfig.toConfig with refreshDue := fun _ => true }))
        (annotatedProcesses.map .sampler ++ [.next [⟨['4'], []⟩]]) = some s ∧
      s.pc = .looping viewer ∧ viewer.stats.processes = 2 ∧
      s.taken.map Prod.snd <+: s.sampler.sent ∧
      (s.pc = .ended viewer → s.taken.map Prod.snd = s.sampler.sent) ∧
      viewer.ShowsTaken { SingleSampler.zoneConfig.toConfig with refreshDue := fun _ => true } s.taken ∧
      ∀ before typed sample, s.taken = before ++ [(typed, sample)] →
        viewer.stats.threads = sample.traces.length ∧
          viewer.stats.processes = (sample.traces.map StackTrace.pid).toFinset.card :=
  have hrun : ∃ s viewer,
      Runs.run (SubprocessLoop.step id SmalltalkSpy.noNative SingleSampler.zoneConfig ConsoleViewer.turn)
        (SubprocessLoop.start 1 "root"
          (.new { SingleSampler.zoneConfig.toConfig with refreshDue := fun _ => true }))
        (annotatedProcesses.map .sampler ++ [.next [⟨['4'], []⟩]]) = some s ∧
      s.pc = .looping viewer ∧ viewer.stats.processes = 2 := ⟨_, _, rfl, rfl, rfl⟩
  let ⟨s, viewer, hs, hlooping, htwo⟩ := hrun
  ⟨s, viewer, hs, hlooping, htwo, top_subprocesses hs (.inl hlooping)⟩

end StSpy
