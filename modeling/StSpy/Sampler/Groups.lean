import Mathlib.Data.Finset.Card
import StSpy.ConsoleViewer
import StSpy.Sampler.Streams

/-!
# The processes of a sample

A sample of several processes lists the traces process by process, in the order in
which the map lists the spies. The console viewer counts on it: it takes each trace
of another process than the one before for one more process.
-/

namespace StSpy

variable {α : Type}

namespace SpyThread

variable {spy spy' : SpyThread α}

/-- What a worker adds to its sample channel. -/
theorem work_queue {action : WorkerAction α} (h : spy.work action = some spy') {m : Nat × α}
    (hm : m ∈ spy'.sampleChannel.queue) : m ∈ spy.sampleChannel.queue ∨ action = .answer m.2 := by
  cases action with
  | retryNew ok =>
    obtain ⟨-, rfl | rfl⟩ := work_retryNew h
    · exact .inl hm
    · exact .inl hm
  | receive =>
    obtain ⟨-, rfl | ⟨round, rest, -, rfl⟩⟩ := work_receive h
    · exact .inl hm
    · exact .inl hm
  | answer result =>
    obtain ⟨round, -, rfl | rfl⟩ := work_answer h
    · exact .inl hm
    · rcases List.mem_append.mp hm with hold | hnew
      · exact .inl hold
      · rw [List.mem_singleton.mp hnew]
        exact .inr rfl
  | quit =>
    rw [work_quit h] at hm
    exact .inl hm
  | drop =>
    obtain ⟨-, rfl | rfl | ⟨-, rfl⟩⟩ := work_drop h
    · exact .inl hm
    · exact .inl hm
    · exact .inl hm

/-- What is collected was in the channel. -/
theorem collect_queue {round : Nat} {result : Option α} (h : spy.collect round = some (result, spy')) :
    (∀ m ∈ spy'.sampleChannel.queue, m ∈ spy.sampleChannel.queue) ∧
      ∀ r, result = some r → ∃ m ∈ spy.sampleChannel.queue, m.2 = r := by
  obtain ⟨_, _, queue, _, rfl, -, hqueue, hrest⟩ := collect_frame h
  refine ⟨hrest, fun r hr => ?_⟩
  have hmem : r ∈ spy.sampleChannel.queue.map Prod.snd := by
    rw [← hqueue, hr]
    exact List.mem_cons_self
  exact List.mem_map.mp hmem

theorem isInitialized_sampleChannel (spy : SpyThread α) : spy.isInitialized.2.sampleChannel = spy.sampleChannel := by
  obtain ⟨_, _, _, hframe⟩ := spy.isInitialized_frame
  rw [hframe]

theorem notify_sampleChannel (round : Nat) (spy : SpyThread α) :
    (spy.notify round).sampleChannel = spy.sampleChannel := by
  obtain ⟨_, _, _, hframe⟩ := spy.notify_frame round
  rw [hframe]

end SpyThread

namespace SamplerState

variable {s s' : SamplerState α} {P : Pid → α → Prop}

/-- Each process answers once in a sample, and with a result of its own. -/
def Gathered (P : Pid → α → Prop) (results : List (Pid × α)) : Prop :=
  (results.map Prod.fst).Nodup ∧ ∀ r ∈ results, P r.1 r.2

structure Gathers (P : Pid → α → Prop) (s : SamplerState α) : Prop where
  queued : ∀ pid spy, s.spies.lookup pid = some spy → ∀ m ∈ spy.sampleChannel.queue, P pid m.2
  asking : s.sampler.asking = true → s.results = []
  todo : ∀ todo, s.sampler = .collecting todo → (s.results.map Prod.fst ++ todo).Nodup
  results : ∀ r ∈ s.results, P r.1 r.2
  samples : ∀ results ∈ s.samples, Gathered P results

theorem Gathers.start (P : Pid → α → Prop) (pid : Pid) (commandLine : String) :
    Gathers P (start pid commandLine) where
  queued := by
    refine forall_insert (fun other spy hspy => ?_) fun _ hm => nomatch hm
    cases hspy
  asking h := nomatch h
  todo _ h := nomatch h
  results _ h := nomatch h
  samples _ h := nomatch h

theorem Gathers.insert (h : Gathers P s) {pid : Pid} {spy : SpyThread α}
    (hspy : ∀ m ∈ spy.sampleChannel.queue, P pid m.2) :
    ∀ other spy', (s.spies.insert pid spy).lookup other = some spy' → ∀ m ∈ spy'.sampleChannel.queue, P other m.2 :=
  forall_insert (fun other spy hother _ => h.queued other spy hother) hspy

theorem Gathers.main (h : Gathers P s) (hmoves : MainMoves s s') : Gathers P s' := by
  cases hmoves with
  | still => exact { h with }
  | create => exact { h with queued := h.insert fun _ hm => nomatch hm }
  | @waitInitialized main pid spy spy' ok hspy hwait =>
    obtain ⟨_, _, _, rfl⟩ := SpyThread.waitInitialized_frame hwait
    exact { h with queued := h.insert (h.queued pid spy hspy) }

theorem Gathers.monitor (h : Gathers P s) (hmoves : MonitorMoves s s') : Gathers P s' := by
  cases hmoves with
  | still => exact { h with }
  | create => exact { h with queued := h.insert fun _ hm => nomatch hm }

/-- One more process is collected. -/
theorem Gathers.collect (h : Gathers P s) {pid : Pid} {todo : List Pid} (hpc : s.sampler = .collecting (pid :: todo))
    {spy spy' : SpyThread α} (hspy : s.spies.lookup pid = some spy) {result : Option α}
    (hcollect : spy.collect s.round = some (result, spy')) :
    Gathers P { s with
      sampler := .collecting todo
      spies := s.spies.insert pid spy'
      results := s.results ++ (result.map fun r => (pid, r)).toList } := by
  obtain ⟨hrest, hresult⟩ := SpyThread.collect_queue hcollect
  have hnodup := h.todo _ hpc
  refine
    { queued := h.insert fun m hm => h.queued pid spy hspy m (hrest m hm)
      asking := fun h => nomatch h
      todo := fun todo' htodo => ?_
      results := ?_
      samples := h.samples }
  · cases htodo
    cases result with
    | none =>
      rw [Option.map_none, Option.toList_none, List.append_nil]
      exact hnodup.sublist (List.sublist_cons_self _ _ |>.append_left _)
    | some r =>
      rw [Option.map_some, Option.toList_some, List.map_append, List.map_singleton, List.append_assoc]
      exact hnodup
  · intro r hr
    rcases List.mem_append.mp hr with hold | hnew
    · exact h.results r hold
    · obtain ⟨value, hvalue, rfl⟩ := Option.map_eq_some_iff.mp (Option.mem_toList.mp hnew)
      obtain ⟨m, hm, rfl⟩ := hresult value hvalue
      exact h.queued pid spy hspy m hm

theorem Gathers.sampler (h : Gathers P s) (hmoves : RoundMoves s s') : Gathers P s' := by
  cases hmoves with
  | skip => exact h
  | lock =>
    exact
      { h with
        asking := fun _ => rfl
        todo := (fun _ htodo => by cases htodo)
        results := List.forall_mem_nil _ }
  | @check pid todo spy hpc hspy =>
    have hnone := h.asking (by rw [hpc]; rfl)
    refine { h with queued := h.insert ?_, asking := fun _ => hnone, todo := fun todo htodo => ?_ }
    · rw [SpyThread.isInitialized_sampleChannel]
      exact h.queued pid spy hspy
    · dsimp only at htodo
      split at htodo <;> cases htodo
  | @notify pid todo spy hpc hspy =>
    have hnone := h.asking (by rw [hpc]; rfl)
    refine { h with queued := h.insert ?_, asking := fun _ => hnone, todo := (fun _ htodo => by cases htodo) }
    rw [SpyThread.notify_sampleChannel]
    exact h.queued pid spy hspy
  | iterate hpc horder =>
    have hnone := h.asking (by rw [hpc]; rfl)
    refine { h with asking := (fun hasking => by cases hasking), todo := fun todo htodo => ?_ }
    cases htodo
    rw [hnone]
    exact horder.nodup_iff.mpr (AList.keys_nodup s.spies)
  | collect hpc hspy hcollect => exact h.collect hpc hspy hcollect
  | send hpc =>
    have hnodup := h.todo [] hpc
    rw [List.append_nil] at hnodup
    refine
      { h with
        asking := (fun hasking => by cases hasking)
        todo := (fun _ htodo => by cases htodo)
        samples := ?_ }
    rw [List.forall_mem_append, List.forall_mem_singleton]
    exact ⟨h.samples, hnodup, h.results⟩
  | leave => exact { h with asking := (fun hasking => by cases hasking), todo := (fun _ htodo => by cases htodo) }
  | test =>
    refine { h with asking := fun hasking => ?_, todo := fun todo htodo => ?_ }
    · dsimp only at hasking
      split at hasking <;> cases hasking
    · dsimp only at htodo
      split at htodo <;> cases htodo

/-- The workers answer for their own processes. -/
def Answers (P : Pid → α → Prop) (event : SamplerEvent α) : Prop :=
  ∀ pid result, event = .worker pid (.answer result) → P pid result

theorem Gathers.step (h : Gathers P s) {event : SamplerEvent α} (hanswers : Answers P event)
    (hstep : s.step event = some s') : Gathers P s' := by
  cases event with
  | worker pid action =>
    obtain ⟨spy, spy', hspy, hwork, rfl⟩ := step_worker hstep
    refine { h with queued := h.insert fun m hm => ?_ }
    rcases SpyThread.work_queue hwork hm with hold | rfl
    · exact h.queued pid spy hspy m hold
    · exact hanswers pid m.2 rfl
  | main action => exact h.main (mainStep_moves hstep).2
  | monitor action => exact h.monitor (monitorStep_moves hstep).2
  | sampler action => exact h.sampler (samplerStep_roundMoves hstep)
  | dropReceiver =>
    obtain ⟨-, rfl⟩ := step_dropReceiver hstep
    exact { h with }

end SamplerState

/-! ## The sample of a round -/

def roundTraces (results : List (Pid × Except String (List StackTrace))) : List StackTrace :=
  results.flatMap fun r => r.2.toOption.getD []

def errorOf (pid : Pid) : Except String (List StackTrace) → Option (Pid × String)
  | .ok _ => none
  | .error e => some (pid, e)

def roundErrors (results : List (Pid × Except String (List StackTrace))) : Option (List (Pid × String)) :=
  let errors := results.filterMap fun r => errorOf r.1 r.2
  if errors = [] then none else some errors

/-- What is sent for the results of a round. -/
def sampleOfRound (processInfo : Pid → Option ProcessInfo) (late : Option Nat)
    (results : List (Pid × Except String (List StackTrace))) : Sample where
  traces := (roundTraces results).map fun trace => { trace with processInfo := processInfo trace.pid }
  samplingErrors := roundErrors results
  late

/-- A spy's traces are those of its process. -/
def OfProcess (pid : Pid) (result : Except String (List StackTrace)) : Prop :=
  ∀ traces, result = .ok traces → ∀ trace ∈ traces, trace.pid = pid

namespace ConsoleViewer

/-- How often the pid changes, from `last` on. -/
def changes : Option Pid → List Pid → Nat
  | _, [] => 0
  | last, pid :: pids => (if last ≠ some pid then 1 else 0) + changes (some pid) pids

theorem incrementTrace_processes (config : Config) (stats : Stats) (lastPid : Option Pid) (trace : StackTrace) :
    (incrementTrace config stats lastPid trace).threads = stats.threads + 1 ∧
      (incrementTrace config stats lastPid trace).processes =
        stats.processes + if lastPid ≠ some trace.pid then 1 else 0 := by
  unfold incrementTrace
  dsimp only
  split_ifs <;> exact ⟨rfl, rfl⟩

theorem incrementTraces_processes (config : Config) (stats : Stats) (lastPid : Option Pid) (traces : List StackTrace) :
    (incrementTraces config stats lastPid traces).threads = stats.threads + traces.length ∧
      (incrementTraces config stats lastPid traces).processes =
        stats.processes + changes lastPid (traces.map StackTrace.pid) := by
  induction traces generalizing stats lastPid with
  | nil => exact ⟨rfl, rfl⟩
  | cons trace traces ih =>
    obtain ⟨hthreads, hprocesses⟩ := ih (incrementTrace config stats lastPid trace) (some trace.pid)
    obtain ⟨hthread, hprocess⟩ := incrementTrace_processes config stats lastPid trace
    rw [incrementTraces, hthreads, hprocesses, hthread, hprocess, List.map_cons, changes, List.length_cons]
    constructor <;> omega

/-- The counts are those of the last sample, also behind a refresh. -/
theorem increment_processes (viewer : ConsoleViewer) (typed : Typed) (traces : List StackTrace) :
    (viewer.increment typed traces).stats.threads = traces.length ∧
      (viewer.increment typed traces).stats.processes = changes none (traces.map StackTrace.pid) := by
  have hcommon : ∀ (viewer : ConsoleViewer) (keys : List Char),
      (viewer.incrementCommon keys).stats.threads = viewer.stats.threads ∧
        (viewer.incrementCommon keys).stats.processes = viewer.stats.processes := by
    intro viewer keys
    unfold incrementCommon
    dsimp only
    split <;> exact ⟨rfl, rfl⟩
  obtain ⟨hthreads, hprocesses⟩ := incrementTraces_processes (viewer.type typed.before).maybeReset.config.toConfig
    { (viewer.type typed.before).maybeReset.stats with threads := 0, processes := 0 } none traces
  rw [increment]
  exact ⟨(hcommon _ _).1.trans (hthreads.trans (Nat.zero_add _)),
    (hcommon _ _).2.trans (hprocesses.trans (Nat.zero_add _))⟩

theorem changes_replicate (pid : Pid) (n : Nat) (pids : List Pid) :
    changes (some pid) (List.replicate n pid ++ pids) = changes (some pid) pids := by
  induction n with
  | zero => rfl
  | succ n ih => rw [List.replicate_succ, List.cons_append, changes, ih, if_neg (not_not.mpr rfl), Nat.zero_add]

/-- Of groups with pids of their own, each that is not empty makes a change. -/
theorem changes_groups {groups : List (Pid × List Pid)} (hpids : ∀ group ∈ groups, ∀ pid ∈ group.2, pid = group.1)
    (hnodup : (groups.map Prod.fst).Nodup) {last : Option Pid} (hlast : ∀ pid ∈ groups.map Prod.fst, last ≠ some pid) :
    changes last (groups.flatMap Prod.snd) = (groups.flatMap Prod.snd).toFinset.card := by
  induction groups generalizing last with
  | nil => rfl
  | cons group groups ih =>
    obtain ⟨pid, pids⟩ := group
    obtain ⟨hfirst, hrest⟩ := List.forall_mem_cons.mp hpids
    rw [List.map_cons, List.nodup_cons] at hnodup
    rw [List.map_cons, List.forall_mem_cons] at hlast
    have hsame : pids = List.replicate pids.length pid := List.eq_replicate_length.mpr hfirst
    rw [List.flatMap_cons]
    dsimp only
    rw [hsame]
    cases pids.length with
    | zero => exact ih hrest hnodup.2 hlast.2
    | succ n =>
      have hnew : pid ∉ (groups.flatMap Prod.snd).toFinset := by
        intro hmem
        obtain ⟨group, hgroup, hmem⟩ := List.mem_flatMap.mp (List.mem_toFinset.mp hmem)
        rw [hrest group hgroup pid hmem] at hnodup
        exact hnodup.1 (List.mem_map.mpr ⟨group, hgroup, rfl⟩)
      have hnext : ∀ other ∈ groups.map Prod.fst, some pid ≠ some other := by
        rintro other hother heq
        cases heq
        exact hnodup.1 hother
      have hothers := ih hrest hnodup.2 hnext
      rw [List.toFinset_append, List.toFinset_replicate_of_ne_zero n.succ_ne_zero, ← Finset.insert_eq,
        Finset.card_insert_of_notMem hnew, List.replicate_succ, List.cons_append, changes, changes_replicate, hothers,
        if_pos hlast.1, Nat.add_comm]

/-- The viewer counts the threads and the processes of a round that has each process once. -/
theorem increment_sampleOfRound {results : List (Pid × Except String (List StackTrace))}
    (hgathered : SamplerState.Gathered OfProcess results) (processInfo : Pid → Option ProcessInfo) (late : Option Nat)
    (viewer : ConsoleViewer) (typed : Typed) :
    let traces := (sampleOfRound processInfo late results).traces
    (viewer.increment typed traces).stats.threads = traces.length ∧
      (viewer.increment typed traces).stats.processes = (traces.map StackTrace.pid).toFinset.card := by
  intro traces
  obtain ⟨hnodup, hown⟩ := hgathered
  obtain ⟨hthreads, hprocesses⟩ := viewer.increment_processes typed traces
  refine ⟨hthreads, hprocesses.trans ?_⟩
  have hpids : traces.map StackTrace.pid =
      (results.map fun r => (r.1, (r.2.toOption.getD []).map StackTrace.pid)).flatMap Prod.snd := by
    simp [traces, sampleOfRound, roundTraces, List.flatMap_map, List.map_flatMap, Function.comp_def]
  rw [hpids]
  refine changes_groups ?_ ?_ fun _ _ h => nomatch h
  · intro group hgroup pid hpid
    obtain ⟨⟨worker, result⟩, hr, rfl⟩ := List.mem_map.mp hgroup
    obtain ⟨trace, htrace, rfl⟩ := List.mem_map.mp hpid
    cases result with
    | ok traces => exact hown _ hr traces rfl trace htrace
    | error e => cases htrace
  · rw [List.map_map]
    exact hnodup

end ConsoleViewer

end StSpy
