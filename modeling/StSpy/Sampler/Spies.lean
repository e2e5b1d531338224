import StSpy.Sampler.Groups
import StSpy.Sampler.SingleRuns

/-!
# The spies of the workers

Each worker of the subprocess sampler holds a spy of its own, which attaches before the
worker says so, and takes a sample for each notification. `SpiesState` has these spies
where the threads of `SamplerState` have results of any kind.
-/

namespace StSpy

abbrev WorkerResult := Except String (List StackTrace)

/-- What a worker sends for a sample, unless it panics. -/
def workerResult : Except SpyError (List StackTrace) → Option WorkerResult
  | .ok traces => some (.ok traces)
  | .error (.error e) => some (.error e)
  | .error (.panic _) => none

/-- The results of a spy's successive samples. -/
def workerResults (native : Native) : SmalltalkSpy → List Visit → List WorkerResult
  | _, [] => []
  | spy, visit :: visits =>
    (workerResult (spy.getStackTraces native visit).1).toList ++
      workerResults native (spy.getStackTraces native visit).2 visits

structure SpiesState where
  threads : SamplerState WorkerResult
  /-- The spy that a worker's loop starts with, and what the samples it has taken since have met. -/
  serving : Pid → Option (SmalltalkSpy × List Visit)

inductive SpiesEvent where
  /-- `retry_new` returns. -/
  | retryNew (pid : Pid) (attempts : Nat → SmalltalkSpy.Attempt)
  /-- The worker takes a sample; `exited`: the process is found gone if the sample fails. -/
  | trace (pid : Pid) (visit : Visit) (exited : Bool)
  | threads (event : SamplerEvent WorkerResult)

/-- Who takes a step: `receiver` is the owner of the sampler. -/
inductive Party where
  | discovery
  | monitor
  | sampling
  | worker (pid : Pid)
  | receiver
  deriving DecidableEq

def SamplerEvent.party {α : Type} : SamplerEvent α → Party
  | .main _ => .discovery
  | .monitor _ => .monitor
  | .sampler _ => .sampling
  | .worker pid _ => .worker pid
  | .dropReceiver => .receiver

def SpiesEvent.party : SpiesEvent → Party
  | .retryNew pid _ | .trace pid _ _ => .worker pid
  | .threads event => event.party

/-- What a worker does for its spy. -/
def SamplerEvent.ofSpy {α : Type} : SamplerEvent α → Bool
  | .worker _ (.retryNew _) | .worker _ (.answer _) | .worker _ .quit => true
  | _ => false

def SamplerState.workerOf {α : Type} (s : SamplerState α) (pid : Pid) : Option WorkerPc :=
  (s.spies.lookup pid).map SpyThread.worker

namespace SpiesState

def start (pid : Pid) (commandLine : String) : SpiesState where
  threads := .start pid commandLine
  serving _ := none

/-- A step of the worker, which then serves with `serving`. -/
def work (s : SpiesState) (pid : Pid) (action : WorkerAction WorkerResult)
    (serving : Option (SmalltalkSpy × List Visit)) : Option SpiesState :=
  (s.threads.step (.worker pid action)).map fun threads =>
    { threads, serving := Function.update s.serving pid serving }

section

variable (lower : String → String) (native : Native) (config : SpyConfig)

def step (s : SpiesState) : SpiesEvent → Option SpiesState
  | .retryNew pid attempts =>
    match s.threads.workerOf pid with
    | some .starting =>
      match SmalltalkSpy.retryNew lower native pid config 5 attempts with
      | none => none
      | some (.ok spy) => s.work pid (.retryNew true) (some (spy, []))
      | some (.error (.error _)) => s.work pid (.retryNew false) none
      | some (.error (.panic _)) => s.work pid .quit none
    | _ => none
  | .trace pid visit exited =>
    match s.threads.workerOf pid, s.serving pid with
    | some (.tracing _), some (first, visits) =>
      match ((first.run native visits).getStackTraces native visit).1 with
      | .ok traces => s.work pid (.answer (.ok traces)) (some (first, visits ++ [visit]))
      | .error (.panic _) => s.work pid .quit (some (first, visits))
      | .error (.error e) =>
        if exited then s.work pid .quit (some (first, visits))
        else s.work pid (.answer (.error e)) (some (first, visits ++ [visit]))
    | _, _ => none
  | .threads event =>
    if event.ofSpy then none
    else
      (s.threads.step event).map fun threads =>
        -- a worker that starts has no spy yet
        { threads, serving := fun pid => if threads.workerOf pid = some .starting then none else s.serving pid }

end

end SpiesState

/-! ## What the other steps leave alone -/

namespace SpyThread

variable {α : Type} {spy spy' : SpyThread α}

/-- What has been sent stays, and a worker that holds a spy goes on holding one. -/
structure Untouched (spy spy' : SpyThread α) : Prop where
  sent : spy'.sent = spy.sent
  receiver : spy'.sampleChannel.receiver = spy.sampleChannel.receiver
  starting : spy'.worker = .starting ↔ spy.worker = .starting
  returning : spy.worker = .returning → spy'.worker = .returning

theorem Untouched.refl (spy : SpyThread α) : Untouched spy spy := ⟨rfl, rfl, Iff.rfl, id⟩

theorem waitInitialized_untouched {ok : Bool} (h : spy.waitInitialized = some (ok, spy')) : spy.Untouched spy' := by
  obtain ⟨_, _, _, rfl⟩ := waitInitialized_frame h
  exact ⟨rfl, rfl, Iff.rfl, id⟩

theorem isInitialized_untouched (spy : SpyThread α) : spy.Untouched spy.isInitialized.2 := by
  obtain ⟨_, _, _, hframe⟩ := spy.isInitialized_frame
  rw [hframe]
  exact ⟨rfl, rfl, Iff.rfl, id⟩

theorem notify_untouched (round : Nat) (spy : SpyThread α) : spy.Untouched (spy.notify round) := by
  obtain ⟨_, _, _, hframe⟩ := spy.notify_frame round
  rw [hframe]
  exact ⟨rfl, rfl, Iff.rfl, id⟩

theorem collect_untouched {round : Nat} {result : Option α} (h : spy.collect round = some (result, spy')) :
    spy.Untouched spy' := by
  obtain ⟨_, _, _, _, rfl, -⟩ := collect_frame h
  exact ⟨rfl, rfl, Iff.rfl, id⟩

theorem work_untouched {pid : Pid} {action : WorkerAction α} (h : spy.work action = some spy')
    (hof : (SamplerEvent.worker pid action).ofSpy = false) : spy.Untouched spy' := by
  cases action with
  | receive =>
    obtain ⟨hworker, rfl | ⟨round, rest, -, rfl⟩⟩ := work_receive h
    · exact ⟨rfl, rfl, by simp [hworker], fun _ => rfl⟩
    · exact ⟨rfl, rfl, by simp [hworker], fun hreturning => by simp [hworker] at hreturning⟩
  | drop =>
    obtain ⟨hworker, rfl | rfl | ⟨-, rfl⟩⟩ := work_drop h
    · exact ⟨rfl, rfl, Iff.rfl, id⟩
    · exact ⟨rfl, rfl, Iff.rfl, id⟩
    · exact ⟨rfl, rfl, Iff.rfl, id⟩
  | _ => cases hof

end SpyThread

namespace SamplerState

variable {α : Type} {s s' : SamplerState α}

/-- After a step that is not of a spy, a thread is new or is as it was, for the spy. -/
structure Leaves (spies spies' : Spies α) : Prop where
  absent : ∀ pid, spies'.lookup pid = none → spies.lookup pid = none
  present : ∀ pid thread', spies'.lookup pid = some thread' →
    (∃ parent commandLine, thread' = .new parent commandLine) ∨
      ∃ thread, spies.lookup pid = some thread ∧ thread.Untouched thread'

theorem leaves_refl (spies : Spies α) : Leaves spies spies where
  absent _ hnone := hnone
  present _ thread hthread := .inr ⟨thread, hthread, .refl thread⟩

theorem leaves_insert {spies : Spies α} {pid : Pid} {spy spy' : SpyThread α} (hspy : spies.lookup pid = some spy)
    (h : spy.Untouched spy') : Leaves spies (spies.insert pid spy') where
  absent _ hnone := lookup_none_of_insert hnone
  present := forall_insert (fun _ thread hthread _ => .inr ⟨thread, hthread, .refl thread⟩) (.inr ⟨spy, hspy, h⟩)

theorem leaves_create (spies : Spies α) (pid : Pid) (parent : Option Pid) (commandLine : String) :
    Leaves spies (spies.insert pid (.new parent commandLine)) where
  absent _ hnone := lookup_none_of_insert hnone
  present :=
    forall_insert (fun _ thread hthread _ => .inr ⟨thread, hthread, .refl thread⟩) (.inl ⟨parent, commandLine, rfl⟩)

theorem step_leaves {event : SamplerEvent α} (hstep : s.step event = some s') (hof : event.ofSpy = false) :
    Leaves s.spies s'.spies := by
  cases event with
  | worker pid action =>
    obtain ⟨spy, spy', hspy, hwork, rfl⟩ := step_worker hstep
    exact leaves_insert hspy (SpyThread.work_untouched hwork hof)
  | main action =>
    cases (mainStep_moves hstep).2 with
    | still => exact leaves_refl s.spies
    | create _ pid parent commandLine => exact leaves_create s.spies pid (some parent) commandLine
    | waitInitialized hspy hwait => exact leaves_insert hspy (SpyThread.waitInitialized_untouched hwait)
  | monitor action =>
    cases (monitorStep_moves hstep).2 with
    | still => exact leaves_refl s.spies
    | create _ _ parent commandLine => exact leaves_create s.spies _ (some parent) commandLine
  | sampler action =>
    cases samplerStep_roundMoves hstep with
    | check _ hspy => exact leaves_insert hspy (SpyThread.isInitialized_untouched _)
    | notify _ hspy => exact leaves_insert hspy (SpyThread.notify_untouched s.round _)
    | collect _ hspy hcollect => exact leaves_insert hspy (SpyThread.collect_untouched hcollect)
    | _ => exact leaves_refl s.spies
  | dropReceiver =>
    obtain ⟨-, rfl⟩ := step_dropReceiver hstep
    exact leaves_refl s.spies

end SamplerState

/-! ## The spies -/

theorem workerResults_concat (native : Native) (spy : SmalltalkSpy) (visits : List Visit) (visit : Visit) :
    workerResults native spy (visits ++ [visit]) = workerResults native spy visits ++
      (workerResult ((spy.run native visits).getStackTraces native visit).1).toList := by
  induction visits generalizing spy with
  | nil => exact List.append_nil _
  | cons first visits ih =>
    rw [List.cons_append, workerResults, workerResults, ih, List.append_assoc]
    rfl

namespace SpiesState

variable {lower : String → String} {native : Native} {config : SpyConfig} {s s' : SpiesState} {event : SpiesEvent}

/-- What a worker has sent are the results of the spy it holds, if it holds one. -/
def Holds (lower : String → String) (native : Native) (config : SpyConfig) (pid : Pid)
    (thread : SpyThread WorkerResult) : Option (SmalltalkSpy × List Visit) → Prop
  | none => thread.sent = [] ∧ (thread.worker = .starting ∨ thread.worker = .returning)
  | some (first, visits) => thread.worker ≠ .starting ∧
      (∃ attempts, SmalltalkSpy.retryNew lower native pid config 5 attempts = some (.ok first)) ∧
      thread.sent.map Prod.snd = workerResults native first visits

structure Serves (lower : String → String) (native : Native) (config : SpyConfig) (s : SpiesState) : Prop where
  absent : ∀ pid, s.threads.spies.lookup pid = none → s.serving pid = none
  present : ∀ pid thread, s.threads.spies.lookup pid = some thread →
    thread.sampleChannel.receiver = true ∧ Holds lower native config pid thread (s.serving pid)

theorem Serves.start (pid : Pid) (commandLine : String) : (start pid commandLine).Serves lower native config where
  absent _ _ := rfl
  present := SamplerState.forall_insert (fun _ _ hthread _ => by cases hthread) ⟨rfl, rfl, .inl rfl⟩

theorem workerOf_eq_some {threads : SamplerState WorkerResult} {pid : Pid} {pc : WorkerPc}
    (h : threads.workerOf pid = some pc) : ∃ thread, threads.spies.lookup pid = some thread ∧ thread.worker = pc :=
  Option.map_eq_some_iff.mp h

/-- A worker that starts holds no spy. -/
theorem Serves.starting (h : s.Serves lower native config) {pid : Pid} {thread : SpyThread WorkerResult}
    (hthread : s.threads.spies.lookup pid = some thread) (hstarting : thread.worker = .starting) :
    thread.sent = [] := by
  have hholds := (h.present pid thread hthread).2
  cases hserving : s.serving pid with
  | none =>
    rw [hserving] at hholds
    exact hholds.1
  | some serving =>
    rw [hserving] at hholds
    exact absurd hstarting hholds.1

/-- A worker takes a step for its spy. -/
theorem Serves.work (h : s.Serves lower native config) {pid : Pid} {action : WorkerAction WorkerResult}
    {serving : Option (SmalltalkSpy × List Visit)} (hstep : s.work pid action serving = some s')
    (hwork : ∀ thread thread', s.threads.spies.lookup pid = some thread → thread.sampleChannel.receiver = true →
      Holds lower native config pid thread (s.serving pid) → thread.work action = some thread' →
      thread'.sampleChannel.receiver = true ∧ Holds lower native config pid thread' serving) :
    s'.Serves lower native config := by
  obtain ⟨threads, hthreads, rfl⟩ := Option.map_eq_some_iff.mp hstep
  obtain ⟨thread, thread', hthread, hmoved, rfl⟩ := SamplerState.step_worker hthreads
  refine ⟨fun other hnone => ?_, SamplerState.forall_insert (fun other old hold hne => ?_) ?_⟩
  · have hnone' := SamplerState.lookup_none_of_insert hnone
    have hne : other ≠ pid := by
      rintro rfl
      rw [hthread] at hnone'
      cases hnone'
    simp only [Function.update_of_ne hne]
    exact h.absent other hnone'
  · simp only [Function.update_of_ne hne]
    exact h.present other old hold
  · obtain ⟨hreceiver, hholds⟩ := h.present pid thread hthread
    simp only [Function.update_self]
    exact hwork thread thread' hthread hreceiver hholds hmoved

/-- Quitting, a worker has sent what it had. -/
theorem Serves.quit (h : s.Serves lower native config) {pid : Pid}
    (hstep : s.work pid .quit (s.serving pid) = some s') : s'.Serves lower native config := by
  refine h.work hstep fun thread thread' _ hreceiver hholds hmoved => ?_
  rw [SpyThread.work_quit hmoved]
  refine ⟨hreceiver, ?_⟩
  generalize s.serving pid = serving at hholds
  cases serving with
  | none => exact ⟨hholds.1, .inr rfl⟩
  | some serving =>
    refine ⟨?_, hholds.2⟩
    simp

/-- A worker sends the result of the next sample of its spy. -/
theorem Serves.answer (h : s.Serves lower native config) {pid : Pid} {first : SmalltalkSpy} {visits : List Visit}
    (hserving : s.serving pid = some (first, visits)) {visit : Visit} {result : WorkerResult}
    (hresult : workerResult ((first.run native visits).getStackTraces native visit).1 = some result)
    (hstep : s.work pid (.answer result) (some (first, visits ++ [visit])) = some s') :
    s'.Serves lower native config := by
  refine h.work hstep fun thread thread' _ hreceiver hholds hmoved => ?_
  rw [hserving] at hholds
  obtain ⟨-, hattached, hsent⟩ := hholds
  simp only [SpyThread.work] at hmoved
  split at hmoved
  · rename_i round hworker
    rw [Channel.send, if_pos hreceiver] at hmoved
    cases hmoved
    refine ⟨hreceiver, ?_, hattached, ?_⟩
    · simp
    · rw [List.map_append, hsent, workerResults_concat, hresult]
      rfl
  · cases hmoved

theorem Serves.retryNew (h : s.Serves lower native config) {pid : Pid} {ok : Bool}
    {serving : Option (SmalltalkSpy × List Visit)}
    (hserving : ok = true → ∃ first attempts,
      SmalltalkSpy.retryNew lower native pid config 5 attempts = some (.ok first) ∧ serving = some (first, []))
    (hfailed : ok = false → serving = none) (hstep : s.work pid (.retryNew ok) serving = some s') :
    s'.Serves lower native config := by
  refine h.work hstep fun thread thread' hthread hreceiver _ hmoved => ?_
  obtain ⟨hstarting, hmoved⟩ := SpyThread.work_retryNew hmoved
  have hnothing := h.starting hthread hstarting
  cases ok with
  | true =>
    obtain ⟨first, attempts, hattached, rfl⟩ := hserving rfl
    have hsent : thread.sent.map Prod.snd = workerResults native first [] := by
      rw [hnothing]
      rfl
    rcases hmoved with rfl | rfl
    · exact ⟨hreceiver, by simp, ⟨attempts, hattached⟩, hsent⟩
    · exact ⟨hreceiver, by simp, ⟨attempts, hattached⟩, hsent⟩
  | false =>
    rw [hfailed rfl]
    rcases hmoved with rfl | rfl
    · exact ⟨hreceiver, hnothing, .inr rfl⟩
    · exact ⟨hreceiver, hnothing, .inr rfl⟩

theorem Serves.leaves (h : s.Serves lower native config) {threads : SamplerState WorkerResult}
    (hleaves : SamplerState.Leaves s.threads.spies threads.spies) :
    Serves lower native config
      { threads, serving := fun pid => if threads.workerOf pid = some .starting then none else s.serving pid } where
  absent pid hnone := by
    dsimp only
    rw [h.absent pid (hleaves.absent pid hnone)]
    exact ite_self none
  present pid thread' hthread' := by
    dsimp only
    have hworker : threads.workerOf pid = some thread'.worker := by
      rw [SamplerState.workerOf, hthread']
      rfl
    rcases hleaves.present pid thread' hthread' with ⟨parent, commandLine, rfl⟩ | ⟨thread, hthread, hsame⟩
    · have hstarting : threads.workerOf pid = some .starting := hworker
      rw [if_pos hstarting]
      exact ⟨rfl, rfl, .inl rfl⟩
    · obtain ⟨hreceiver, hholds⟩ := h.present pid thread hthread
      refine ⟨hsame.receiver.trans hreceiver, ?_⟩
      by_cases hstarting : thread'.worker = .starting
      · rw [if_pos (hworker.trans (congrArg some hstarting))]
        exact ⟨hsame.sent.trans (h.starting hthread (hsame.starting.mp hstarting)), .inl hstarting⟩
      · rw [if_neg fun heq => hstarting (Option.some.inj (hworker.symm.trans heq))]
        cases hserving : s.serving pid with
        | none =>
          rw [hserving] at hholds
          refine ⟨hsame.sent.trans hholds.1, .inr (hsame.returning ?_)⟩
          exact hholds.2.resolve_left fun hbefore => hstarting (hsame.starting.mpr hbefore)
        | some serving =>
          rw [hserving] at hholds
          exact ⟨hstarting, hholds.2.1, hsame.sent ▸ hholds.2.2⟩

theorem Serves.step (h : s.Serves lower native config) (hstep : s.step lower native config event = some s') :
    s'.Serves lower native config := by
  cases event with
  | retryNew pid attempts =>
    simp only [SpiesState.step] at hstep
    split at hstep
    · rename_i hpc
      obtain ⟨thread, hthread, hstarting⟩ := workerOf_eq_some hpc
      split at hstep
      · cases hstep
      · rename_i first hattached
        exact h.retryNew (fun _ => ⟨first, attempts, hattached, rfl⟩) (fun hfailed => by cases hfailed) hstep
      · exact h.retryNew (fun hok => by cases hok) (fun _ => rfl) hstep
      · have hnone : s.serving pid = none := by
          have hholds := (h.present pid thread hthread).2
          cases hserving : s.serving pid with
          | none => rfl
          | some serving =>
            rw [hserving] at hholds
            exact absurd hstarting hholds.1
        rw [← hnone] at hstep
        exact h.quit hstep
    · cases hstep
  | trace pid visit exited =>
    simp only [SpiesState.step] at hstep
    split at hstep
    · rename_i hserving
      split at hstep
      · rename_i traces hresult
        exact h.answer hserving (by rw [hresult]; rfl) hstep
      · rw [← hserving] at hstep
        exact h.quit hstep
      · rename_i e hresult
        split at hstep
        · rw [← hserving] at hstep
          exact h.quit hstep
        · exact h.answer hserving (by rw [hresult]; rfl) hstep
    · cases hstep
  | threads event =>
    simp only [SpiesState.step] at hstep
    split at hstep
    · cases hstep
    · rename_i hof
      obtain ⟨threads, hthreads, rfl⟩ := Option.map_eq_some_iff.mp hstep
      exact h.leaves (SamplerState.step_leaves hthreads (Bool.eq_false_iff.mpr hof))

/-! ## Runs -/

/-- The traces that a process answers with are well formed, and its own. -/
def OfSpy (config : SpyConfig) (pid : Pid) (result : WorkerResult) : Prop :=
  ∀ traces, result = .ok traces → ∀ trace ∈ traces, SmalltalkSpy.WellFormed pid config trace

theorem Serves.ofSpy (h : s.Serves lower native config) {pid : Pid} {first : SmalltalkSpy} {visits : List Visit}
    (hserving : s.serving pid = some (first, visits)) {visit : Visit} {traces : List StackTrace}
    (hresult : ((first.run native visits).getStackTraces native visit).1 = .ok traces) :
    OfSpy config pid (.ok traces) := by
  cases hthread : s.threads.spies.lookup pid with
  | none =>
    rw [h.absent pid hthread] at hserving
    cases hserving
  | some thread =>
    have hholds := (h.present pid thread hthread).2
    rw [hserving] at hholds
    obtain ⟨-, ⟨attempts, hattached⟩, -⟩ := hholds
    obtain ⟨k, -, hdecided⟩ := SmalltalkSpy.retryNew_eq lower native pid config 5 attempts
    rw [hattached] at hdecided
    obtain ⟨hinv, hpid, hconfig, -⟩ := SmalltalkSpy.connect_inv (Option.some.inj hdecided).symm
    obtain ⟨hrun, hrunPid, hrunConfig, -⟩ := hinv.run native visits
    have hshape := ((hrun.getStackTraces native visit).2.2.2.2 traces hresult).shape
    rw [hrunPid, hrunConfig, hpid, hconfig] at hshape
    rintro traces ⟨⟩
    exact hshape

/-- Each step is one of the same party below: of a worker, or with the same event. -/
theorem step_below (hstep : s.step lower native config event = some s') :
    ∃ below, s.threads.step below = some s'.threads ∧ below.party = event.party ∧
      ((∃ pid action, below = .worker pid action) ∨ event = .threads below) := by
  have hwork : ∀ {pid action serving}, s.work pid action serving = some s' → event.party = .worker pid →
      ∃ below, s.threads.step below = some s'.threads ∧ below.party = event.party ∧
        ((∃ pid action, below = .worker pid action) ∨ event = .threads below) := by
    intro pid action serving hwork hparty
    obtain ⟨threads, hthreads, rfl⟩ := Option.map_eq_some_iff.mp hwork
    exact ⟨_, hthreads, hparty.symm, .inl ⟨pid, action, rfl⟩⟩
  cases event with
  | retryNew pid attempts =>
    simp only [SpiesState.step] at hstep
    split at hstep
    · split at hstep
      · cases hstep
      · exact hwork hstep rfl
      · exact hwork hstep rfl
      · exact hwork hstep rfl
    · cases hstep
  | trace pid visit exited =>
    simp only [SpiesState.step] at hstep
    split at hstep
    · split at hstep
      · exact hwork hstep rfl
      · exact hwork hstep rfl
      · split at hstep
        · exact hwork hstep rfl
        · exact hwork hstep rfl
    · cases hstep
  | threads event =>
    simp only [SpiesState.step] at hstep
    split at hstep
    · cases hstep
    · obtain ⟨threads, hthreads, rfl⟩ := Option.map_eq_some_iff.mp hstep
      exact ⟨event, hthreads, rfl, .inr rfl⟩

/-- Each step is one of the threads below, and the workers answer with what is of their spies. -/
theorem step_threads (h : s.Serves lower native config) (hstep : s.step lower native config event = some s') :
    ∃ below, s.threads.step below = some s'.threads ∧ SamplerState.Answers (OfSpy config) below := by
  have hwork : ∀ {pid action serving}, s.work pid action serving = some s' →
      s.threads.step (.worker pid action) = some s'.threads := by
    intro pid action serving hwork
    obtain ⟨threads, hthreads, rfl⟩ := Option.map_eq_some_iff.mp hwork
    exact hthreads
  have hquiet : ∀ {pid action}, (∀ result, action ≠ .answer result) →
      SamplerState.Answers (OfSpy config) (.worker pid action) := by
    rintro pid action hnot _ result ⟨⟩
    exact absurd rfl (hnot result)
  cases event with
  | retryNew pid attempts =>
    simp only [SpiesState.step] at hstep
    split at hstep
    · split at hstep
      · cases hstep
      · exact ⟨_, hwork hstep, hquiet fun _ h => by cases h⟩
      · exact ⟨_, hwork hstep, hquiet fun _ h => by cases h⟩
      · exact ⟨_, hwork hstep, hquiet fun _ h => by cases h⟩
    · cases hstep
  | trace pid visit exited =>
    simp only [SpiesState.step] at hstep
    split at hstep
    · rename_i hserving
      split at hstep
      · rename_i traces hresult
        refine ⟨_, hwork hstep, ?_⟩
        rintro _ _ ⟨⟩
        exact h.ofSpy hserving hresult
      · exact ⟨_, hwork hstep, hquiet fun _ h => by cases h⟩
      · split at hstep
        · exact ⟨_, hwork hstep, hquiet fun _ h => by cases h⟩
        · refine ⟨_, hwork hstep, ?_⟩
          rintro _ _ ⟨⟩ traces heq
          cases heq
    · cases hstep
  | threads event =>
    simp only [SpiesState.step] at hstep
    split at hstep
    · cases hstep
    · rename_i hof
      obtain ⟨threads, hthreads, rfl⟩ := Option.map_eq_some_iff.mp hstep
      refine ⟨event, hthreads, ?_⟩
      rintro pid result rfl
      exact absurd rfl hof

structure Inv (lower : String → String) (native : Native) (config : SpyConfig) (s : SpiesState) : Prop where
  threads : s.threads.Inv
  streams : s.threads.Streams
  gathers : s.threads.Gathers (OfSpy config)
  serves : s.Serves lower native config

theorem Inv.start (pid : Pid) (commandLine : String) : (start pid commandLine).Inv lower native config where
  threads := .start pid commandLine
  streams := .start pid commandLine
  gathers := .start _ pid commandLine
  serves := .start pid commandLine

theorem Inv.step (h : s.Inv lower native config) (hstep : s.step lower native config event = some s') :
    s'.Inv lower native config := by
  obtain ⟨below, hbelow, hanswers⟩ := step_threads h.serves hstep
  exact ⟨h.threads.step hbelow, h.streams.step hbelow, h.gathers.step hanswers hbelow, h.serves.step hstep⟩

theorem Inv.run {root : Pid} {commandLine : String} {events : List SpiesEvent}
    (hrun : Runs.run (SpiesState.step lower native config) (SpiesState.start root commandLine) events = some s) :
    s.Inv lower native config :=
  Runs.run_invariant (fun h hstep => h.step hstep) hrun (.start root commandLine)

/-- What the samples tell of a worker that holds a spy. -/
theorem Inv.serving (h : s.Inv lower native config) {pid : Pid} {first : SmalltalkSpy} {visits : List Visit}
    (hserving : s.serving pid = some (first, visits)) :
    (∃ attempts, SmalltalkSpy.retryNew lower native pid config 5 attempts = some (.ok first)) ∧
      SamplerState.resultsOf pid s.threads.samples.flatten <+: workerResults native first visits ∧
      (s.threads.sampler.holdsLock = false → s.threads.sampler ≠ .finished .receiverGone →
        SamplerState.resultsOf pid s.threads.samples.flatten = workerResults native first visits) := by
  cases hthread : s.threads.spies.lookup pid with
  | none =>
    rw [h.serves.absent pid hthread] at hserving
    cases hserving
  | some thread =>
    have hholds := (h.serves.present pid thread hthread).2
    rw [hserving] at hholds
    obtain ⟨-, hattached, hsent⟩ := hholds
    have hstream := h.streams.sent h.threads hthread
    rw [hsent] at hstream
    exact ⟨hattached, hstream⟩

/-- They tell nothing of a process without one. -/
theorem Inv.nothing (h : s.Inv lower native config) {pid : Pid} (hserving : s.serving pid = none) :
    SamplerState.resultsOf pid s.threads.samples.flatten = [] := by
  cases hthread : s.threads.spies.lookup pid with
  | none =>
    have hnothing := h.streams.absent pid hthread
    rw [SamplerState.told, SamplerState.resultsOf_append] at hnothing
    exact (List.append_eq_nil_iff.mp hnothing).1
  | some thread =>
    have hholds := (h.serves.present pid thread hthread).2
    rw [hserving] at hholds
    have hfirst := (h.streams.sent h.threads hthread).1
    rw [hholds.1] at hfirst
    exact List.prefix_nil.mp hfirst

/-- Each process answers once in a sample, with traces of its own. -/
theorem Inv.gathered (h : s.Inv lower native config) {results : List (Pid × WorkerResult)}
    (hresults : results ∈ s.threads.samples) : SamplerState.Gathered OfProcess results := by
  obtain ⟨hnodup, hown⟩ := h.gathers.samples results hresults
  exact ⟨hnodup, fun r hr traces heq trace htrace => (hown r hr traces heq trace htrace).pid_eq⟩

/-- In every interleaving, the samples tell of each process the successive results of the spy that its worker holds,
none lost, told twice or out of order: all of them between two rounds. No sample has a process twice, and the traces
of a process are well formed. -/
theorem run_streams {root : Pid} {commandLine : String} {events : List SpiesEvent}
    (hrun : Runs.run (SpiesState.step lower native config) (SpiesState.start root commandLine) events = some s) :
    (∀ pid first visits, s.serving pid = some (first, visits) →
      (∃ attempts, SmalltalkSpy.retryNew lower native pid config 5 attempts = some (.ok first)) ∧
      SamplerState.resultsOf pid s.threads.samples.flatten <+: workerResults native first visits ∧
      (s.threads.sampler = .idle →
        SamplerState.resultsOf pid s.threads.samples.flatten = workerResults native first visits)) ∧
    (∀ pid, s.serving pid = none → SamplerState.resultsOf pid s.threads.samples.flatten = []) ∧
    ∀ results ∈ s.threads.samples, (results.map Prod.fst).Nodup ∧ ∀ r ∈ results, OfSpy config r.1 r.2 := by
  have hinv := Inv.run hrun
  refine ⟨fun pid first visits hserving => ?_, fun pid => hinv.nothing, hinv.gathers.samples⟩
  obtain ⟨hattached, hfirst, hwhole⟩ := hinv.serving hserving
  refine ⟨hattached, hfirst, fun hidle => hwhole (by rw [hidle]; rfl) ?_⟩
  rw [hidle]
  exact SamplerPc.noConfusion

/-- A round of a process and its child, the child's answer is listed first. -/
def zoneProcesses : List SpiesEvent :=
  [.threads (.main (.childProcesses (some [(2, 1)]))), .threads (.main (.create (some "child"))),
    .retryNew 1 SingleSampler.zoneAttempts, .retryNew 2 SingleSampler.zoneAttempts,
    .threads (.main (.await [1, 2])), .threads (.main .waitInitialized),
    .threads (.sampler (.lock [1, 2])), .threads (.sampler .check), .threads (.sampler .notify),
    .threads (.sampler .check), .threads (.sampler .notify), .threads (.sampler (.iterate [2, 1])),
    .threads (.worker 1 .receive), .trace 1 (SmalltalkSpy.zoneVisit [0x1030]) false,
    .threads (.worker 2 .receive), .trace 2 (SmalltalkSpy.zoneVisit []) false,
    .threads (.sampler .collect), .threads (.sampler .collect), .threads (.sampler .send), .threads (.sampler .test)]

theorem run_streams_zoneProcesses :
    ∃ s, Runs.run (SpiesState.step id SmalltalkSpy.noNative SingleSampler.zoneConfig) (SpiesState.start 1 "root")
        zoneProcesses = some s ∧ s.threads.sampler = .idle ∧ s.threads.samples.flatten.length = 2 ∧
      (∀ pid first visits, s.serving pid = some (first, visits) →
        (∃ attempts, SmalltalkSpy.retryNew id SmalltalkSpy.noNative pid SingleSampler.zoneConfig 5 attempts =
          some (.ok first)) ∧
        SamplerState.resultsOf pid s.threads.samples.flatten <+: workerResults SmalltalkSpy.noNative first visits ∧
        (s.threads.sampler = .idle →
          SamplerState.resultsOf pid s.threads.samples.flatten =
            workerResults SmalltalkSpy.noNative first visits)) ∧
      (∀ pid, s.serving pid = none → SamplerState.resultsOf pid s.threads.samples.flatten = []) ∧
      ∀ results ∈ s.threads.samples, (results.map Prod.fst).Nodup ∧
        ∀ r ∈ results, OfSpy SingleSampler.zoneConfig r.1 r.2 :=
  have hrun : ∃ s, Runs.run (SpiesState.step id SmalltalkSpy.noNative SingleSampler.zoneConfig)
      (SpiesState.start 1 "root") zoneProcesses = some s ∧ s.threads.sampler = .idle ∧
      s.threads.samples.flatten.length = 2 := ⟨_, rfl, rfl, rfl⟩
  let ⟨s, hs, hidle, htwo⟩ := hrun
  ⟨s, hs, hidle, htwo, run_streams hs⟩

/-- In every interleaving, the viewer counts the threads and the processes of each sample. -/
theorem processes_counted {root : Pid} {commandLine : String} {events : List SpiesEvent}
    (hrun : Runs.run (SpiesState.step lower native config) (SpiesState.start root commandLine) events = some s)
    {results : List (Pid × WorkerResult)} (hresults : results ∈ s.threads.samples)
    (processInfo : Pid → Option ProcessInfo) (late : Option Nat) (viewer : ConsoleViewer) (typed : Typed) :
    let traces := (sampleOfRound processInfo late results).traces
    (viewer.increment typed traces).stats.threads = traces.length ∧
      (viewer.increment typed traces).stats.processes = (traces.map StackTrace.pid).toFinset.card :=
  ConsoleViewer.increment_sampleOfRound ((Inv.run hrun).gathered hresults) processInfo late viewer typed

theorem processes_counted_zoneProcesses :
    let viewer := ConsoleViewer.new { subprocesses := true, refreshDue := fun _ => false }
    ∃ s results, Runs.run (SpiesState.step id SmalltalkSpy.noNative SingleSampler.zoneConfig)
        (SpiesState.start 1 "root") zoneProcesses = some s ∧ results ∈ s.threads.samples ∧ results.length = 2 ∧
      let traces := (sampleOfRound (fun _ => none) none results).traces
      (viewer.increment {} traces).stats.threads = traces.length ∧
        (viewer.increment {} traces).stats.processes = (traces.map StackTrace.pid).toFinset.card :=
  have hrun : ∃ s results, Runs.run (SpiesState.step id SmalltalkSpy.noNative SingleSampler.zoneConfig)
      (SpiesState.start 1 "root") zoneProcesses = some s ∧ results ∈ s.threads.samples ∧ results.length = 2 :=
    ⟨_, _, rfl, List.mem_cons_self, rfl⟩
  let ⟨s, results, hs, hresults, htwo⟩ := hrun
  ⟨s, results, hs, hresults, htwo, processes_counted hs hresults (fun _ => none) none _ {}⟩

end SpiesState

end StSpy
