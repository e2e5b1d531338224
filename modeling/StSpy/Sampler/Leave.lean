import StSpy.Sampler.Stop

/-!
# Leaving the sampling loop

The sampling is over when the receiver of the samples is dropped or all spies have
stopped: a spy whose worker has ended, whether it attached or not, and one whose
process has exited, which answers no notification of a later round. From then on
the next iteration leaves the loop, unless the monitor's `child_processes` has
failed under the lock: its panic poisons the lock, and each iteration skips on a
poisoned lock.
-/

namespace StSpy

variable {α : Type}

namespace SpyThread

variable {spy spy' : SpyThread α}

/-- A worker sends by answering the notification it has taken. -/
theorem work_sent {action : WorkerAction α} (h : spy.work action = some spy') :
    spy'.sent = spy.sent ∨ ∃ round result, action = .answer result ∧ round ∈ spy.worker.taken ∧
      spy'.sent = spy.sent ++ [(round, result)] := by
  cases action with
  | retryNew ok => obtain ⟨-, rfl | rfl⟩ := work_retryNew h <;> exact .inl rfl
  | receive => obtain ⟨-, rfl | ⟨_, _, -, rfl⟩⟩ := work_receive h <;> exact .inl rfl
  | answer result =>
    obtain ⟨round, hworker, rfl | rfl⟩ := work_answer h
    · exact .inl rfl
    · exact .inr ⟨round, result, rfl, by simp [hworker, WorkerPc.taken], rfl⟩
  | quit =>
    rw [work_quit h]
    exact .inl rfl
  | drop => obtain ⟨-, rfl | rfl | ⟨-, rfl⟩⟩ := work_drop h <;> exact .inl rfl

/-! The calls of the sampling thread touch neither the worker nor what it has sent. -/

theorem isInitialized_worker (spy : SpyThread α) :
    spy.isInitialized.2.worker = spy.worker ∧ spy.isInitialized.2.sent = spy.sent := by
  obtain ⟨_, _, _, hframe⟩ := spy.isInitialized_frame
  rw [hframe]
  exact ⟨rfl, rfl⟩

theorem notify_worker (round : Nat) (spy : SpyThread α) :
    (spy.notify round).worker = spy.worker ∧ (spy.notify round).sent = spy.sent := by
  obtain ⟨_, _, _, hframe⟩ := spy.notify_frame round
  rw [hframe]
  exact ⟨rfl, rfl⟩

theorem collect_worker {round : Nat} {result : Option α} (h : spy.collect round = some (result, spy')) :
    spy'.worker = spy.worker ∧ spy'.sent = spy.sent := by
  obtain ⟨_, _, _, _, rfl, -⟩ := collect_frame h
  exact ⟨rfl, rfl⟩

end SpyThread

namespace SamplerState

variable {s s' : SamplerState α} {event : SamplerEvent α}

/-! ## The iteration step by step -/

/-- `spy` was in `s`, and has since sent the answer of the event at most. -/
structure SentFrom (s : SamplerState α) (event : SamplerEvent α) (pid : Pid) (old spy : SpyThread α) : Prop where
  held : s.spies.lookup pid = some old
  returning : old.worker = .returning → spy.worker = .returning
  sent : spy.sent = old.sent ∨ ∃ round result,
    event = .worker pid (.answer result) ∧ round ∈ old.worker.taken ∧ spy.sent = old.sent ++ [(round, result)]

theorem sentFrom_same {pid : Pid} {old spy : SpyThread α} (hold : s.spies.lookup pid = some old)
    (hsame : spy.worker = old.worker ∧ spy.sent = old.sent) : s.SentFrom event pid old spy :=
  ⟨hold, fun hreturning => hsame.1.trans hreturning, .inl hsame.2⟩

theorem sentFrom_insert {pid : Pid} {old spy : SpyThread α} (h : s.SentFrom event pid old spy) :
    ∀ other spy', (s.spies.insert pid spy).lookup other = some spy' → ∃ old, s.SentFrom event other old spy' :=
  forall_insert (fun _ _ hother _ => ⟨_, sentFrom_same hother ⟨rfl, rfl⟩⟩) ⟨old, h⟩

/-- In a round no spy is added, and none answers but by the event. -/
theorem sentFrom_step (h : s.Inv) (hheld : s.sampler.holdsLock = true) (hstep : s.step event = some s') :
    ∀ pid spy, s'.spies.lookup pid = some spy → ∃ old, s.SentFrom event pid old spy := by
  have hstill : ∀ pid spy, s.spies.lookup pid = some spy → ∃ old, s.SentFrom event pid old spy :=
    fun pid spy hspy => ⟨spy, sentFrom_same hspy ⟨rfl, rfl⟩⟩
  cases event with
  | worker pid action =>
    obtain ⟨old, new, hold, hwork, rfl⟩ := step_worker hstep
    refine sentFrom_insert ⟨hold, (SpyThread.moved hwork).left, ?_⟩
    rcases SpyThread.work_sent hwork with hsame | ⟨round, result, rfl, htaken, hsent⟩
    · exact .inl hsame
    · exact .inr ⟨round, result, rfl, htaken, hsent⟩
  | main action =>
    obtain ⟨hidle, -⟩ := h.discovery (mainStep_moves hstep).1
    simp [hidle, SamplerPc.holdsLock] at hheld
  | monitor action =>
    cases (monitorStep_moves hstep).2 with
    | still => exact hstill
    | create hlock =>
      rw [h.free hheld] at hlock
      cases hlock
  | sampler action =>
    cases (samplerStep_moves hstep).2 with
    | check hpc hspy => exact sentFrom_insert (sentFrom_same hspy (SpyThread.isInitialized_worker _))
    | notify hpc hspy => exact sentFrom_insert (sentFrom_same hspy (SpyThread.notify_worker _ _))
    | collect hpc hspy hcollect => exact sentFrom_insert (sentFrom_same hspy (SpyThread.collect_worker hcollect))
    | _ => exact hstill
  | dropReceiver =>
    obtain ⟨-, rfl⟩ := step_dropReceiver hstep
    exact hstill

/-- Only the sampling thread goes through its loop and begins rounds. -/
theorem sampler_or_elsewhere (hstep : s.step event = some s') :
    (∃ action, event = .sampler action) ∨ s'.sampler = s.sampler ∧ s'.round = s.round := by
  cases event with
  | worker pid action =>
    obtain ⟨_, _, -, -, rfl⟩ := step_worker hstep
    exact .inr ⟨rfl, rfl⟩
  | main action => cases (mainStep_moves hstep).2 <;> exact .inr ⟨rfl, rfl⟩
  | monitor action => cases (monitorStep_moves hstep).2 <;> exact .inr ⟨rfl, rfl⟩
  | sampler action => exact .inl ⟨action, rfl⟩
  | dropReceiver =>
    obtain ⟨-, rfl⟩ := step_dropReceiver hstep
    exact .inr ⟨rfl, rfl⟩

/-- A receiver that is dropped is gone for good. -/
theorem receiver_step (hstep : s.step event = some s') (h : s.receiver = false) : s'.receiver = false := by
  cases event with
  | worker pid action =>
    obtain ⟨_, _, -, -, rfl⟩ := step_worker hstep
    exact h
  | main action => cases (mainStep_moves hstep).2 <;> exact h
  | monitor action => cases (monitorStep_moves hstep).2 <;> exact h
  | sampler action => cases (samplerStep_moves hstep).2 <;> exact h
  | dropReceiver =>
    obtain ⟨-, rfl⟩ := step_dropReceiver hstep
    rfl

/-- A round is begun at the head of the loop. -/
theorem round_step (hstep : s.step event = some s') :
    s'.round = s.round ∨ s.sampler = .idle ∧ s'.round = s.round + 1 := by
  rcases sampler_or_elsewhere hstep with ⟨action, rfl⟩ | ⟨-, hround⟩
  · cases (samplerStep_moves hstep).2 with
    | lock hpc => exact .inr ⟨hpc, rfl⟩
    | _ => exact .inl rfl
  · exact .inl hround

/-- Once a thread has left its loop it makes no step. -/
theorem finished_step {left : Left} (h : s.sampler = .finished left) (hstep : s.step event = some s') :
    s'.sampler = .finished left := by
  rcases sampler_or_elsewhere hstep with ⟨action, rfl⟩ | ⟨hpc, -⟩
  · cases (samplerStep_moves hstep).2 with
    | skip => exact h
    | _ hpc => simp [h] at hpc
  · rw [hpc, h]

/-- To come to the stop test, a sample has to be sent. -/
theorem receiver_of_testing {action : SamplerAction} (hstep : s.samplerStep action = some s')
    (hpc : s.sampler = .collecting []) (htest : s'.sampler = .testing) : s.receiver = true := by
  by_contra hreceiver
  cases action with
  | send =>
    simp only [samplerStep, hpc, if_neg hreceiver, Option.ite_none_right_eq_some, Option.some.injEq] at hstep
    obtain ⟨-, rfl⟩ := hstep
    cases htest
  | _ => simp [samplerStep, hpc] at hstep

/-- Out of the loop the sampling thread gets by leaving it, or by the stop test. -/
theorem loop_step {action : SamplerAction} (hheld : s.sampler.holdsLock = true)
    (hstep : s.samplerStep action = some s') :
    s' = s ∨ (∃ left, s'.sampler = .finished left) ∨
      s'.sampler.holdsLock = true ∧ (s'.sampler = .testing → s.receiver = true) ∨
      s.sampler = .testing ∧ s'.sampler = if s.allStopped then .finished .allStopped else .idle := by
  have hne : ∀ {pc : SamplerPc}, pc ≠ .testing → pc = .testing → s.receiver = true := fun hne heq => absurd heq hne
  cases (samplerStep_moves hstep).2 with
  | skip => exact .inl rfl
  | lock hpc => simp [hpc, SamplerPc.holdsLock] at hheld
  | check hpc hspy =>
    refine .inr (.inr (.inl ?_))
    dsimp only
    split <;> exact ⟨rfl, hne (by simp)⟩
  | notify hpc hspy => exact .inr (.inr (.inl ⟨rfl, hne (by simp)⟩))
  | iterate hpc horder => exact .inr (.inr (.inl ⟨rfl, hne (by simp)⟩))
  | collect hpc hspy hcollect => exact .inr (.inr (.inl ⟨rfl, hne (by simp)⟩))
  | send hpc => exact .inr (.inr (.inl ⟨rfl, receiver_of_testing hstep hpc⟩))
  | leave hpc => exact .inr (.inl ⟨_, rfl⟩)
  | test hpc => exact .inr (.inr (.inr ⟨hpc, rfl⟩))

theorem lock_cases {order : List Pid} (hstep : s.samplerStep (.lock order) = some s') :
    s.sampler = .idle ∧ (s.poisoned = true ∧ s' = s ∨ s.poisoned = false ∧
      s' = { s with sampler := .checking order, round := s.round + 1, results := [] }) := by
  cases hpc : s.sampler with
  | idle =>
    simp only [samplerStep, hpc] at hstep
    refine ⟨rfl, ?_⟩
    split at hstep
    · split at hstep
      · cases hstep
      · split at hstep
        · rename_i hpoisoned
          exact .inl ⟨hpoisoned, (Option.some.inj hstep).symm⟩
        · rename_i hpoisoned
          split at hstep
          · exact .inr ⟨by simpa using hpoisoned, (Option.some.inj hstep).symm⟩
          · cases hstep
    · cases hstep
  | _ => simp [samplerStep, hpc] at hstep

/-- At the head of the loop a poisoned lock is skipped. -/
theorem idle_step {action : SamplerAction} (hpoisoned : s.poisoned = true) (hidle : s.sampler = .idle)
    (hstep : s.samplerStep action = some s') : s' = s := by
  cases action with
  | lock order =>
    obtain ⟨-, ⟨-, hsame⟩ | ⟨hnot, -⟩⟩ := lock_cases hstep
    · exact hsame
    · simp [hpoisoned] at hnot
  | _ => simp [samplerStep, hidle] at hstep

/-- A failure of the monitor's `child_processes` poisons the lock, and nothing else does. -/
theorem poisoned_step (hstep : s.step event = some s') :
    s'.poisoned = true ↔ s.poisoned = true ∨ event = .monitor (.childProcesses none) := by
  cases event with
  | worker pid action =>
    obtain ⟨_, _, -, -, rfl⟩ := step_worker hstep
    simp
  | main action => cases (mainStep_moves hstep).2 <;> simp
  | monitor action =>
    simp only [step, monitorStep] at hstep
    split at hstep
    · split at hstep
      case h_2 =>
        split at hstep
        · cases hstep
        · split at hstep <;> cases hstep <;> simp
      case h_5 =>
        split at hstep
        · cases hstep
          simp
        · split at hstep <;> cases hstep <;> simp
      case h_7 => cases hstep
      all_goals
        cases hstep
        simp
    · cases hstep
  | sampler action => cases (samplerStep_moves hstep).2 <;> simp
  | dropReceiver =>
    obtain ⟨-, rfl⟩ := step_dropReceiver hstep
    simp

end SamplerState

/-- The sampler and the processes that have exited, each with the round it
exited in. -/
structure Observed (α : Type) where
  sampler : SamplerState α
  exits : List (Pid × Nat)

inductive ObservedEvent (α : Type) where
  | exit (pid : Pid)
  | code (event : SamplerEvent α)

namespace Observed

def start (root : Pid) (commandLine : String) : Observed α where
  sampler := .start root commandLine
  exits := []

/-- An answer to a notification of a round after the one the process exited in
is not possible. -/
def allows (s : Observed α) : SamplerEvent α → Bool
  | .worker pid (.answer _) =>
    (s.sampler.spies.lookup pid).all fun spy => spy.worker.taken.all fun round =>
      s.exits.all fun exit => exit.1 ≠ pid || round ≤ exit.2
  | _ => true

def step (s : Observed α) : ObservedEvent α → Option (Observed α)
  | .exit pid => some { s with exits := (pid, s.sampler.round) :: s.exits }
  | .code event =>
    if s.allows event then (s.sampler.step event).map fun sampler => { s with sampler } else none

/-- The process has exited, or the worker has ended: it never attached, or it has panicked. -/
def Stopped (s : Observed α) (pid : Pid) (spy : SpyThread α) : Prop :=
  (∃ exit ∈ s.exits, exit.1 = pid) ∨ spy.worker = .returning

/-- There is nothing left to sample for: the receiver has been dropped, or all spies have stopped. -/
def Over (s : Observed α) : Prop :=
  s.sampler.receiver = false ∨ ∀ pid spy, s.sampler.spies.lookup pid = some spy → s.Stopped pid spy

/-- The sampling thread has left its loop. -/
def HasLeft (s : Observed α) : Prop := ∃ left, s.sampler.sampler = .finished left

/-- The iteration begun leaves the loop: whatever happens, the sampling thread
is in it or has left, and can get to leaving. -/
def Leaves (s : Observed α) : Prop :=
  ∀ events t, Runs.run step s events = some t →
    (t.sampler.sampler.holdsLock = true ∨ t.HasLeft) ∧
      ∃ events' u, Runs.run step t events' = some u ∧ u.HasLeft

variable {s s' : Observed α}

theorem step_code {event : SamplerEvent α} (h : s.step (.code event) = some s') :
    s.allows event = true ∧ s'.exits = s.exits ∧ s.sampler.step event = some s'.sampler := by
  simp only [step] at h
  split at h
  · rename_i hallows
    obtain ⟨sampler, hsampler, rfl⟩ := Option.map_eq_some_iff.mp h
    exact ⟨hallows, rfl, hsampler⟩
  · cases h

structure Inv (s : Observed α) : Prop where
  sampler : s.sampler.Inv
  exits : ∀ exit ∈ s.exits, exit.2 ≤ s.sampler.round

theorem Inv.start (root : Pid) (commandLine : String) : (start root commandLine : Observed α).Inv where
  sampler := .start root commandLine
  exits _ hexit := by cases hexit

theorem Inv.step {event : ObservedEvent α} (h : s.Inv) (hstep : s.step event = some s') : s'.Inv := by
  cases event with
  | exit pid =>
    cases hstep
    refine { h with exits := fun exit hexit => ?_ }
    rcases List.mem_cons.mp hexit with rfl | hexit
    · exact Nat.le_refl _
    · exact h.exits exit hexit
  | code event =>
    obtain ⟨-, hexits, hstep⟩ := step_code hstep
    refine ⟨h.sampler.step hstep, fun exit hexit => ?_⟩
    have hle := h.exits exit (hexits ▸ hexit)
    rcases SamplerState.round_step hstep with hsame | ⟨-, hnext⟩ <;> omega

/-- The spies have stopped before the round, and nothing is answered in it. -/
def Silent (s : Observed α) : Prop :=
  ∀ pid spy, s.sampler.spies.lookup pid = some spy →
    ((∃ exit ∈ s.exits, exit.1 = pid ∧ exit.2 < s.sampler.round) ∨ spy.worker = .returning) ∧
      ¬spy.Answered s.sampler.round

/-- In the last iteration, or past it. -/
def Leaving (s : Observed α) : Prop :=
  s.HasLeft ∨ s.sampler.sampler.holdsLock = true ∧
    (s.sampler.receiver = false ∧ s.sampler.sampler ≠ .testing ∨ s.Silent)

theorem Silent.step {event : SamplerEvent α} (h : s.Silent) (hinv : s.Inv)
    (hheld : s.sampler.sampler.holdsLock = true) (hallows : s.allows event = true)
    (hexits : s'.exits = s.exits) (hstep : s.sampler.step event = some s'.sampler) : s'.Silent := by
  have hround : s'.sampler.round = s.sampler.round := by
    rcases SamplerState.round_step hstep with hsame | ⟨hidle, -⟩
    · exact hsame
    · simp [hidle, SamplerPc.holdsLock] at hheld
  intro pid spy hspy
  obtain ⟨old, hfrom⟩ := SamplerState.sentFrom_step hinv.sampler hheld hstep pid spy hspy
  have hold := hfrom.held
  obtain ⟨hstopped, hnot⟩ := h pid old hold
  rw [hround, hexits]
  refine ⟨hstopped.imp_right hfrom.returning, ?_⟩
  rcases hfrom.sent with hsame | ⟨round, result, rfl, htaken, hsent⟩
  · rwa [SpyThread.Answered, hsame]
  · rintro ⟨sample, hsample, heq⟩
    rw [hsent, List.mem_append, List.mem_singleton] at hsample
    rcases hsample with hsample | rfl
    · exact hnot ⟨sample, hsample, heq⟩
    · rcases hstopped with ⟨exit, hexit, hpid, hlt⟩ | hreturning
      · -- an answer to a notification older than the round
        have hlate : round ≤ exit.2 := by
          simp only [allows, hold, Option.all_some, List.all_eq_true] at hallows
          simpa [hpid] using hallows round htaken exit hexit
        simp only at heq
        omega
      · -- a worker that has ended holds no notification
        rw [hreturning] at htaken
        cases htaken

/-- At the stop test of a silent round all spies have stopped. -/
theorem Silent.allStopped (h : s.Silent) (hinv : s.Inv) (hpc : s.sampler.sampler = .testing) :
    s.sampler.allStopped = true := by
  refine SamplerState.allStopped_iff.mpr fun pid spy hspy => ?_
  obtain ⟨hsound, hat⟩ := hinv.sampler.spies pid spy hspy
  simp only [hpc, SamplerPc.stage] at hat
  by_contra hrunning
  exact (h pid spy hspy).2 ((SpyThread.running_iff_answered hsound hat).mp (by simpa using hrunning))

theorem Leaving.step {event : ObservedEvent α} (h : s.Leaving) (hinv : s.Inv)
    (hstep : s.step event = some s') : s'.Leaving := by
  cases event with
  | exit pid =>
    cases hstep
    refine h.imp_right fun ⟨hheld, hover⟩ => ⟨hheld, hover.imp_right fun hsilent other spy hspy => ?_⟩
    obtain ⟨hstopped, hnot⟩ := hsilent other spy hspy
    refine ⟨hstopped.imp_left ?_, hnot⟩
    rintro ⟨exit, hexit, hbefore⟩
    exact ⟨exit, List.mem_cons_of_mem _ hexit, hbefore⟩
  | code event =>
    obtain ⟨hallows, hexits, hstep⟩ := step_code hstep
    rcases h with ⟨left, hleft⟩ | ⟨hheld, hover⟩
    · exact .inl ⟨left, SamplerState.finished_step hleft hstep⟩
    · have hsilent : s.Silent → s'.Silent := fun hsilent => hsilent.step hinv hheld hallows hexits hstep
      have hreceiver := SamplerState.receiver_step hstep
      rcases SamplerState.sampler_or_elsewhere hstep with ⟨action, rfl⟩ | ⟨hpc, -⟩
      · rcases SamplerState.loop_step hheld hstep with hsame | hleft | ⟨hheld', htest⟩ | ⟨hpc, hafter⟩
        · rw [← hsame] at hheld hover
          exact .inr ⟨hheld, hover.imp_right hsilent⟩
        · exact .inl hleft
        · refine .inr ⟨hheld', hover.imp (fun hgone => ⟨hreceiver hgone.1, fun htesting => ?_⟩) hsilent⟩
          exact absurd (htest htesting) (by simp [hgone.1])
        · -- at the stop test the receiver is there, so the round is silent
          have hsilent := hover.resolve_left fun hgone => hgone.2 hpc
          rw [hsilent.allStopped hinv hpc, if_pos rfl] at hafter
          exact .inl ⟨_, hafter⟩
      · rw [← hpc] at hheld hover
        exact .inr ⟨hheld, hover.imp (fun hgone => ⟨hreceiver hgone.1, hgone.2⟩) hsilent⟩

theorem inv_run {root : Pid} {commandLine : String} {events : List (ObservedEvent α)}
    (hrun : Runs.run step (start root commandLine) events = some s) : s.Inv :=
  Runs.run_invariant (fun h hstep => h.step hstep) hrun (.start root commandLine)

/-- On a poisoned lock the sampling thread skips for ever. -/
theorem skips_forever {events : List (ObservedEvent α)} (hrun : Runs.run step s events = some s')
    (hpoisoned : s.sampler.poisoned = true) (hidle : s.sampler.sampler = .idle) :
    s'.sampler.sampler = .idle := by
  refine (Runs.run_invariant (P := fun s : Observed α => s.sampler.poisoned = true ∧ s.sampler.sampler = .idle)
    ?_ hrun ⟨hpoisoned, hidle⟩).2
  rintro s s' event ⟨hpoisoned, hidle⟩ hstep
  cases event with
  | exit pid =>
    cases hstep
    exact ⟨hpoisoned, hidle⟩
  | code event =>
    obtain ⟨-, -, hstep⟩ := step_code hstep
    refine ⟨(SamplerState.poisoned_step hstep).mpr (.inl hpoisoned), ?_⟩
    rcases SamplerState.sampler_or_elsewhere hstep with ⟨action, rfl⟩ | ⟨hpc, -⟩
    · rw [SamplerState.idle_step hpoisoned hidle hstep, hidle]
    · rw [hpc, hidle]

/-- The root is running, and exits; its child goes on, but is no VM. -/
def exitEvents : List (ObservedEvent Nat) :=
  [.code (.main (.childProcesses (some [(2, 1)]))), .code (.main (.create (some "sh"))),
    .code (.main (.await [1, 2])), .code (.worker 1 (.retryNew true)), .code (.worker 2 (.retryNew false)),
    .code (.main .waitInitialized), .exit 1]

def exited : Observed Nat := (Runs.run step (start 1 "root") exitEvents).get (by decide)

end Observed

end StSpy
