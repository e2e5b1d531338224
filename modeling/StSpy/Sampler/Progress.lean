import StSpy.Sampler.Annotations

/-!
# The end of a round

The sampling thread holds the lock of the spies for a round. It asks each spy once, waits
for those that it has asked, and sends. A worker that is asked once answers or leaves, so
the lock is given back however the threads interleave.
-/

namespace StSpy

variable {α : Type}

/-! ## One worker -/

namespace SpyThread

/-- The steps that the worker can take, if it is notified no more. -/
def workLeft (spy : SpyThread α) : Nat :=
  2 * spy.notifyChannel.queue.length +
    match spy.worker with
    | .starting | .tracing _ => 5
    | .waiting => 4
    | .returning =>
      spy.initializedChannel.sender.toNat + spy.notifyChannel.receiver.toNat + spy.sampleChannel.sender.toNat

variable {spy spy' : SpyThread α} {round : Nat}

theorem workLeft_returning (spy : SpyThread α) :
    ({ spy with worker := .returning } : SpyThread α).workLeft ≤ 2 * spy.notifyChannel.queue.length + 3 := by
  have h1 := spy.initializedChannel.sender.toNat_le
  have h2 := spy.notifyChannel.receiver.toNat_le
  have h3 := spy.sampleChannel.sender.toNat_le
  simp only [workLeft]
  omega

theorem work_workLeft {action : WorkerAction α} (h : spy.work action = some spy') :
    1 + spy'.workLeft ≤ spy.workLeft := by
  have hreturning := spy.workLeft_returning
  cases action with
  | retryNew ok =>
    obtain ⟨hworker, rfl | rfl⟩ := work_retryNew h
    · simp only [workLeft, hworker] at hreturning ⊢
      omega
    · cases ok
      · have h1 := spy.initializedChannel.sender.toNat_le
        have h2 := spy.notifyChannel.receiver.toNat_le
        have h3 := spy.sampleChannel.sender.toNat_le
        simp only [workLeft, hworker, Bool.false_eq_true, if_false]
        omega
      · simp only [workLeft, hworker, if_true]
        omega
  | receive =>
    obtain ⟨hworker, rfl | ⟨round, rest, hqueue, rfl⟩⟩ := work_receive h
    · simp only [workLeft, hworker] at hreturning ⊢
      omega
    · simp only [workLeft, hworker, hqueue, List.length_cons]
      omega
  | answer result =>
    obtain ⟨round, hworker, rfl | rfl⟩ := work_answer h
    · simp only [workLeft, hworker] at hreturning ⊢
      omega
    · simp only [workLeft, hworker]
      omega
  | quit =>
    have hworker : spy.worker = .starting ∨ ∃ round, spy.worker = .tracing round := by
      simp only [work] at h
      split at h
      · exact .inl ‹_›
      · exact .inr ⟨_, ‹_›⟩
      · cases h
    rw [work_quit h]
    rcases hworker with hworker | ⟨round, hworker⟩
    · simp only [workLeft, hworker] at hreturning ⊢
      omega
    · simp only [workLeft, hworker] at hreturning ⊢
      omega
  | drop =>
    simp only [work] at h
    split at h
    · rename_i hworker
      split at h
      · rename_i hsender
        cases h
        simp only [workLeft, hworker, Channel.dropSender, hsender, Bool.toNat_true, Bool.toNat_false]
        omega
      · split at h
        · rename_i hreceiver
          cases h
          simp only [workLeft, hworker, Channel.dropReceiver, hreceiver, List.length_nil, Bool.toNat_true,
            Bool.toNat_false]
          omega
        · split at h
          · rename_i hsender
            cases h
            simp only [workLeft, hworker, Channel.dropSender, hsender, Bool.toNat_true, Bool.toNat_false]
            omega
          · cases h
    · cases h

theorem isInitialized_workLeft (spy : SpyThread α) : spy.isInitialized.2.workLeft = spy.workLeft := by
  unfold isInitialized
  split
  · rfl
  · split
    · rename_i status channel hrecv
      have hsender : channel.sender = spy.initializedChannel.sender := by rw [(Channel.tryRecv_ok hrecv).2]
      simp only [workLeft, hsender]
    · rename_i e channel hrecv
      rw [(Channel.tryRecv_error hrecv).2]

theorem notify_workLeft (round : Nat) (spy : SpyThread α) : (spy.notify round).workLeft ≤ spy.workLeft + 2 := by
  unfold notify
  split
  · rename_i channel hsend
    obtain ⟨-, rfl⟩ := Channel.send_eq_some hsend
    simp only [workLeft, List.length_append, List.length_singleton]
    omega
  · simp only [workLeft]
    omega

theorem collect_workLeft {result : Option α} (h : spy.collect round = some (result, spy')) :
    spy'.workLeft = spy.workLeft := by
  obtain ⟨_, _, _, _, rfl, -⟩ := collect_frame h
  rfl

theorem workLeft_le (spy : SpyThread α) : spy.workLeft ≤ 2 * spy.inFlight.length + 5 := by
  have h1 := spy.initializedChannel.sender.toNat_le
  have h2 := spy.notifyChannel.receiver.toNat_le
  have h3 := spy.sampleChannel.sender.toNat_le
  have hqueue : spy.notifyChannel.queue.length ≤ spy.inFlight.length := by
    rw [inFlight, List.length_append]
    exact Nat.le_add_left _ _
  rw [workLeft]
  split <;> omega

/-- The worker has a step to take, whatever its sample meets. -/
inductive Serving (spy : SpyThread α) : Prop
  | receives {round : Nat} {rest : List Nat} (hworker : spy.worker = .waiting)
      (hqueue : spy.notifyChannel.queue = round :: rest)
  | traces {round : Nat} (hworker : spy.worker = .tracing round)
  | drops (hworker : spy.worker = .returning) (hsender : spy.sampleChannel.sender = true)

/-- Where `collect` blocks, the worker has a step to take. -/
theorem collect_or_serving (h : spy.Sound) (hat : spy.At round .asked) :
    (∃ result spy', spy.collect round = some (result, spy')) ∨ spy.Serving := by
  cases hnotified : spy.notified with
  | false => exact .inl ⟨none, spy, by simp [collect, hnotified]⟩
  | true =>
    rcases hat.2 with ⟨hquiet, -⟩ | ⟨-, hrunning, hflight⟩
    · rw [hquiet.1] at hnotified
      cases hnotified
    · cases hsamples : spy.sampleChannel.queue with
      | cons sample rest =>
        obtain ⟨spy', hcollect⟩ := collect_sample hnotified hsamples
        exact .inl ⟨_, spy', hcollect⟩
      | nil =>
        cases hworker : spy.worker with
        | starting =>
          have hnone := (h.starting hworker).1
          rw [h.running hrunning] at hnone
          cases hnone
        | tracing round => exact .inr (.traces hworker)
        | waiting =>
          rcases hflight with hone | ⟨-, hleft⟩
          · rw [inFlight, hsamples, hworker] at hone
            exact .inr (.receives hworker hone)
          · rw [hworker] at hleft
            cases hleft
        | returning =>
          cases hsender : spy.sampleChannel.sender with
          | true => exact .inr (.drops hworker hsender)
          | false => exact .inl ⟨none, _, by simp [collect, hnotified, Channel.recv, hsamples, hsender]; rfl⟩

end SpyThread

/-! ## The round -/

/-- The spies that the thread has still to ask. -/
def SamplerPc.toAsk : SamplerPc → List Pid
  | .checking todo => todo
  | .notifying pid todo => pid :: todo
  | _ => []

namespace SamplerState

variable {s s' : SamplerState α} {event : SamplerEvent α} {pid : Pid}

/-- The steps that the worker of `pid` can take until the round is over. -/
def workLeft (s : SamplerState α) (pid : Pid) : Nat :=
  ((s.spies.lookup pid).map SpyThread.workLeft).getD 0 + 2 * s.sampler.toAsk.count pid

/-- In a round, a step is one of a worker, of the sampling thread, or leaves both alone. -/
theorem Inv.round_cases (h : s.Inv) (hheld : s.sampler.holdsLock = true) (hstep : s.step event = some s') :
    (∃ pid action, event = .worker pid action) ∨ (∃ action, event = .sampler action) ∨
      event.party ≠ .sampling ∧ (∀ pid, event.party ≠ .worker pid) ∧ s'.sampler = s.sampler ∧ s'.spies = s.spies := by
  cases event with
  | worker pid action => exact .inl ⟨pid, action, rfl⟩
  | sampler action => exact .inr (.inl ⟨action, rfl⟩)
  | main action =>
    rw [(h.discovery (mainStep_moves hstep).1).1] at hheld
    cases hheld
  | monitor action =>
    refine .inr (.inr ⟨by simp [SamplerEvent.party], by simp [SamplerEvent.party], ?_⟩)
    cases (monitorStep_moves hstep).2 with
    | still => exact ⟨rfl, rfl⟩
    | create hlock =>
      rw [h.free hheld] at hlock
      cases hlock
  | dropReceiver =>
    obtain ⟨-, rfl⟩ := step_dropReceiver hstep
    exact .inr (.inr ⟨by simp [SamplerEvent.party], by simp [SamplerEvent.party], rfl, rfl⟩)

/-- Only at the head of its loop the sampling thread can stay where it is. -/
theorem samplerStep_ne {action : SamplerAction} (hheld : s.sampler.holdsLock = true)
    (hstep : s.samplerStep action = some s') : s' ≠ s := by
  rintro rfl
  have hsame : ∀ {t : SamplerState α}, some t = some s' → t.sampler = s'.sampler :=
    fun h => congrArg SamplerState.sampler (Option.some.inj h)
  simp only [samplerStep] at hstep
  split at hstep
  · split at hstep
    case h_1 hpc =>
      rw [hpc] at hheld
      cases hheld
    case h_2 hpc =>
      split at hstep
      · cases hstep
      · have hpc' := hsame hstep
        dsimp only at hpc'
        split at hpc' <;> simp [hpc] at hpc'
    case h_3 hpc =>
      split at hstep
      · cases hstep
      · simpa [hpc] using hsame hstep
    case h_4 hpc =>
      split at hstep
      · simpa [hpc] using hsame hstep
      · cases hstep
    case h_5 hpc =>
      split at hstep
      · cases hstep
      · split at hstep
        · cases hstep
        · simpa [hpc] using hsame hstep
    case h_6 hpc => split at hstep <;> simpa [hpc] using hsame hstep
    case h_7 hpc =>
      have hpc' := hsame hstep
      dsimp only at hpc'
      split at hpc' <;> simp [hpc] at hpc'
    case h_8 => cases hstep
  · cases hstep

theorem lock_begins {order : List Pid} (hstep : s.samplerStep (.lock order) = some s')
    (hbegun : s'.sampler.holdsLock = true) :
    s'.sampler = .checking order ∧ order.length = s'.spies.keys.length := by
  cases hpc : s.sampler with
  | idle =>
    simp only [samplerStep, hpc] at hstep
    split at hstep
    · split at hstep
      · cases hstep
      · split at hstep
        · cases hstep
          rw [hpc] at hbegun
          cases hbegun
        · split at hstep
          · rename_i horder
            cases hstep
            exact ⟨rfl, horder.length_eq⟩
          · cases hstep
    · cases hstep
  | _ => simp [samplerStep, hpc] at hstep

/-- Each step of the sampling thread is one of those it has left in the round. -/
theorem Inv.sampler_counts (h : s.Inv) (hheld : s.sampler.holdsLock = true) (hstep : s.step event = some s') :
    (decide (event.party = .sampling)).toNat + s'.sampler.stepsLeft s'.spies.keys.length ≤
      s.sampler.stepsLeft s.spies.keys.length := by
  rcases h.round_cases hheld hstep with ⟨pid, action, rfl⟩ | ⟨action, rfl⟩ | ⟨hother, -, hpc, hspies⟩
  · obtain ⟨spy, spy', hspy, -, rfl⟩ := step_worker hstep
    rw [length_keys_insert hspy]
    simp [SamplerEvent.party]
  · cases (samplerStep_moves hstep).2 with
    | skip => exact absurd rfl (samplerStep_ne hheld hstep)
    | lock hpc => simp [hpc, SamplerPc.holdsLock] at hheld
    | check hpc hspy =>
      simp only [length_keys_insert hspy, hpc, SamplerEvent.party]
      split <;> simp [SamplerPc.stepsLeft] <;> omega
    | notify hpc hspy =>
      simp only [length_keys_insert hspy, hpc, SamplerEvent.party]
      simp [SamplerPc.stepsLeft]
      omega
    | iterate hpc horder =>
      simp [hpc, SamplerEvent.party, SamplerPc.stepsLeft, horder.length_eq]
      omega
    | collect hpc hspy hcollect =>
      simp only [length_keys_insert hspy, hpc, SamplerEvent.party]
      simp [SamplerPc.stepsLeft]
      omega
    | send hpc => simp [hpc, SamplerEvent.party, SamplerPc.stepsLeft]
    | leave hpc => simp [hpc, SamplerEvent.party, SamplerPc.stepsLeft]
    | test hpc =>
      simp only [hpc, SamplerEvent.party]
      split <;> simp [SamplerPc.stepsLeft]
  · rw [hpc, hspies, decide_eq_false hother]
    simp

theorem workLeft_insert {spies : Spies α} {spy : SpyThread α} (other : Pid) :
    (((spies.insert pid spy).lookup other).map SpyThread.workLeft).getD 0 =
      if other = pid then spy.workLeft else ((spies.lookup other).map SpyThread.workLeft).getD 0 := by
  split
  · subst other
    rw [AList.lookup_insert]
    rfl
  · rename_i hne
    rw [AList.lookup_insert_ne hne]

/-- A spy is changed, and its worker has no more to do than before. -/
theorem workLeft_le_of_insert {spies : Spies α} {spy spy' : SpyThread α} (hspy : spies.lookup pid = some spy)
    (hle : spy'.workLeft ≤ spy.workLeft) (other : Pid) :
    (((spies.insert pid spy').lookup other).map SpyThread.workLeft).getD 0 ≤
      ((spies.lookup other).map SpyThread.workLeft).getD 0 := by
  rw [workLeft_insert]
  split
  · subst other
    rw [hspy]
    exact hle
  · exact le_rfl

/-- Each step of a worker is one of those it has left in the round. -/
theorem Inv.worker_counts (h : s.Inv) (hheld : s.sampler.holdsLock = true) (hstep : s.step event = some s')
    (pid : Pid) : (decide (event.party = .worker pid)).toNat + s'.workLeft pid ≤ s.workLeft pid := by
  rcases h.round_cases hheld hstep with ⟨other, action, rfl⟩ | ⟨action, rfl⟩ | ⟨-, hother, hpc, hspies⟩
  · obtain ⟨spy, spy', hspy, hwork, rfl⟩ := step_worker hstep
    have hless := SpyThread.work_workLeft hwork
    simp only [workLeft, SamplerEvent.party, workLeft_insert]
    by_cases hpid : pid = other
    · subst hpid
      simp only [if_true, hspy, Option.map_some, Option.getD_some, decide_true, Bool.toNat_true]
      omega
    · have hne : ¬Party.worker other = Party.worker pid := fun heq => hpid (Party.worker.inj heq).symm
      simp [hpid, hne]
  · have hnone : decide ((SamplerEvent.sampler action : SamplerEvent α).party = .worker pid) = false := rfl
    rw [hnone, Bool.toNat_false, Nat.zero_add]
    cases (samplerStep_moves hstep).2 with
    | skip => exact le_rfl
    | lock hpc => simp [hpc, SamplerPc.holdsLock] at hheld
    | check hpc hspy =>
      have hle := workLeft_le_of_insert hspy (le_of_eq (SpyThread.isInitialized_workLeft _)) pid
      simp only [workLeft, hpc]
      split
      · simpa [SamplerPc.toAsk] using hle
      · simp only [SamplerPc.toAsk]
        rw [List.count_cons]
        omega
    | @notify next todo spy hpc hspy =>
      have hmore := spy.notify_workLeft s.round
      simp only [workLeft, hpc, SamplerPc.toAsk, workLeft_insert]
      split
      · subst pid
        rw [hspy, List.count_cons_self]
        simp only [Option.map_some, Option.getD_some]
        omega
      · rename_i hne
        rw [List.count_cons_of_ne (Ne.symm hne)]
    | iterate hpc horder => simp [workLeft, hpc, SamplerPc.toAsk]
    | collect hpc hspy hcollect =>
      have hle := workLeft_le_of_insert hspy (le_of_eq (SpyThread.collect_workLeft hcollect)) pid
      simpa [workLeft, hpc, SamplerPc.toAsk] using hle
    | send hpc => simp [workLeft, hpc, SamplerPc.toAsk]
    | leave hpc => simp [workLeft, hpc, SamplerPc.toAsk]
    | test hpc =>
      simp only [workLeft, hpc]
      split <;> simp [SamplerPc.toAsk]
  · rw [decide_eq_false (hother pid), workLeft, workLeft, hpc, hspies]
    simp

/-- While the spies are asked, a worker has no more to do than to answer once and to leave. -/
theorem Inv.workLeft_le (h : s.Inv) {todo : List Pid} (hpc : s.sampler = .checking todo) (pid : Pid) :
    s.workLeft pid ≤ 7 := by
  have hnodup := h.pending
  simp only [hpc, SamplerPc.pending] at hnodup
  have hcount : todo.count pid ≤ 1 := List.nodup_iff_count_le_one.mp hnodup pid
  rw [workLeft, hpc, SamplerPc.toAsk]
  cases hspy : s.spies.lookup pid with
  | none =>
    rw [Option.map_none, Option.getD_none]
    omega
  | some spy =>
    obtain ⟨-, hat⟩ := h.spies pid spy hspy
    rw [hpc, SamplerPc.stage] at hat
    have hleft := spy.workLeft_le
    rw [Option.map_some, Option.getD_some]
    split at hat
    · -- not asked yet
      rw [hat.1.2, List.length_nil] at hleft
      omega
    · rename_i hasked
      have hone := inFlight_length hat
      rw [List.count_eq_zero_of_not_mem hasked]
      omega

theorem Inv.sampling (h : s.Inv) (hheld : s.sampler.holdsLock = true) : s.main = .sampling := by
  by_contra hmain
  rw [(h.discovery hmain).1] at hheld
  cases hheld

/-- In a round the sampling thread has a step to take, or it waits for a worker that has. -/
theorem Inv.round_ready (h : s.Inv) (hheld : s.sampler.holdsLock = true) :
    (∃ action s', action ≠ .send ∧ s.samplerStep action = some s') ∨ s.sampler = .collecting [] ∨
      ∃ pid spy, s.sampler.next = some pid ∧ s.spies.lookup pid = some spy ∧ spy.Serving := by
  have hmain := h.sampling hheld
  have hpresent := h.present
  cases hpc : s.sampler with
  | idle | finished =>
    rw [hpc] at hheld
    cases hheld
  | checking todo =>
    cases todo with
    | nil => exact .inl ⟨.iterate s.spies.keys, _, by simp, by simp [samplerStep, hmain, hpc]; rfl⟩
    | cons pid todo =>
      obtain ⟨spy, hspy⟩ := Option.isSome_iff_exists.mp (hpresent pid (by simp [hpc, SamplerPc.pending]))
      exact .inl ⟨.check, _, by simp, by simp [samplerStep, hmain, hpc, hspy]; rfl⟩
  | notifying pid todo =>
    obtain ⟨spy, hspy⟩ := Option.isSome_iff_exists.mp (hpresent pid (by simp [hpc, SamplerPc.pending]))
    exact .inl ⟨.notify, _, by simp, by simp [samplerStep, hmain, hpc, hspy]; rfl⟩
  | collecting todo =>
    cases todo with
    | nil => exact .inr (.inl rfl)
    | cons pid todo =>
      obtain ⟨spy, hspy⟩ := Option.isSome_iff_exists.mp (hpresent pid (by simp [hpc, SamplerPc.pending]))
      obtain ⟨hsound, hat⟩ := h.spies pid spy hspy
      simp only [hpc, SamplerPc.stage, List.mem_cons_self, if_true] at hat
      rcases SpyThread.collect_or_serving hsound hat with ⟨result, spy', hcollect⟩ | hserving
      · exact .inl ⟨.collect, _, by simp, by simp [samplerStep, hmain, hpc, hspy, hcollect]; rfl⟩
      · exact .inr (.inr ⟨pid, spy, rfl, hspy, hserving⟩)
  | testing => exact .inl ⟨.test, _, by simp, by simp [samplerStep, hmain, hpc]; rfl⟩

end SamplerState

namespace SpiesState

variable {lower : String → String} {native : Native} {config : SpyConfig} {s : SpiesState}

/-- What the worker of `pid` can do next, if its sample meets this. -/
def answering (pid : Pid) (visit : Visit) (exited : Bool) : List SpiesEvent :=
  [.threads (.worker pid .receive), .trace pid visit exited, .threads (.worker pid .drop)]

theorem threads_step {event : SamplerEvent WorkerResult} (hof : event.ofSpy = false)
    {threads : SamplerState WorkerResult} (hstep : s.threads.step event = some threads) :
    ∃ s', s.step lower native config (.threads event) = some s' := by
  simp only [SpiesState.step, hof, hstep, Option.map_some]
  exact ⟨_, rfl⟩

theorem work_step {pid : Pid} {spy : SpyThread WorkerResult} (hspy : s.threads.spies.lookup pid = some spy)
    {action : WorkerAction WorkerResult} (hwork : spy.work action ≠ none)
    (serving : Option (SmalltalkSpy × List Visit)) : ∃ s', s.work pid action serving = some s' := by
  obtain ⟨spy', hspy'⟩ := Option.ne_none_iff_exists'.mp hwork
  simp only [SpiesState.work, SamplerState.step, hspy, hspy', Option.map_some]
  exact ⟨_, rfl⟩

/-- A worker that takes a sample gets to the end of it. -/
theorem Serves.trace (h : s.Serves lower native config) {pid : Pid} {spy : SpyThread WorkerResult} {round : Nat}
    (hspy : s.threads.spies.lookup pid = some spy) (hworker : spy.worker = .tracing round) (visit : Visit)
    (exited : Bool) : ∃ s', s.step lower native config (.trace pid visit exited) = some s' := by
  have hpc : s.threads.workerOf pid = some (.tracing round) := by
    rw [SamplerState.workerOf, hspy, Option.map_some, hworker]
  have hquit : spy.work .quit ≠ none := by simp [SpyThread.work, hworker]
  have hanswer : ∀ result, spy.work (.answer result) ≠ none := by
    intro result
    simp only [SpyThread.work, hworker]
    split <;> exact Option.some_ne_none _
  have hholds := (h.present pid spy hspy).2
  cases hserving : s.serving pid with
  | none =>
    rw [hserving] at hholds
    rcases hholds.2 with hother | hother
    · rw [hworker] at hother
      cases hother
    · rw [hworker] at hother
      cases hother
  | some serving =>
    obtain ⟨first, visits⟩ := serving
    simp only [SpiesState.step, hpc, hserving]
    split
    · exact work_step hspy (hanswer _) _
    · exact work_step hspy hquit _
    · split
      · exact work_step hspy hquit _
      · exact work_step hspy (hanswer _) _

/-- Whatever its sample meets, a worker that serves takes a step. -/
theorem Serves.ready (h : s.Serves lower native config) {pid : Pid} {spy : SpyThread WorkerResult}
    (hspy : s.threads.spies.lookup pid = some spy) (hserving : spy.Serving) (visit : Visit) (exited : Bool) :
    ∃ event ∈ answering pid visit exited, event.sends = false ∧
      ∃ s', s.step lower native config event = some s' := by
  cases hserving with
  | receives hworker hqueue =>
    refine ⟨.threads (.worker pid .receive), by simp [answering], rfl, ?_⟩
    exact threads_step rfl (by simp [SamplerState.step, hspy, SpyThread.work, hworker, Channel.recv, hqueue]; rfl)
  | drops hworker hsender =>
    refine ⟨.threads (.worker pid .drop), by simp [answering], rfl, ?_⟩
    have hdrop : spy.work .drop ≠ none := by
      simp only [SpyThread.work, hworker, hsender, if_true]
      split
      · exact Option.some_ne_none _
      · split <;> exact Option.some_ne_none _
    obtain ⟨spy', hspy'⟩ := Option.ne_none_iff_exists'.mp hdrop
    exact threads_step rfl (by simp only [SamplerState.step, hspy, hspy']; rfl)
  | traces hworker => exact ⟨.trace pid visit exited, by simp [answering], rfl, h.trace hspy hworker visit exited⟩

end SpiesState

namespace AnnotatedState

variable {lower : String → String} {native : Native} {config : SpyConfig} {s t u : AnnotatedState}

def holdsLock (s : AnnotatedState) : Bool := s.below.threads.sampler.holdsLock

theorem below_step {event : SpiesEvent} (hsends : event.sends = false) {below : SpiesState}
    (hstep : s.below.step lower native config event = some below) :
    ∃ s', s.step lower native config (.below event) = some s' := by
  simp only [AnnotatedState.step, hsends, hstep, Option.map_some]
  exact ⟨_, rfl⟩

/-- Until the lock is given back, the sampling thread goes on, or the worker it waits for. -/
theorem Inv.round_ready (h : s.Inv lower native config) (hheld : s.holdsLock = true)
    (hends : AncestryEnds s.below.threads.spies) :
    (∃ event s', event.party = .sampling ∧ s.step lower native config event = some s') ∨
      ∃ pid, s.below.threads.sampler.next = some pid ∧ ∀ visit exited, ∃ event ∈ SpiesState.answering pid visit exited,
        ∃ s', s.step lower native config (.below event) = some s' := by
  rcases h.below.threads.round_ready hheld with
    ⟨action, threads, hsend, hstep⟩ | hcollected | ⟨pid, spy, hnext, hspy, hserving⟩
  · have hsends : (SpiesEvent.threads (.sampler action)).sends = false := by
      cases action with
      | send => exact absurd rfl hsend
      | _ => rfl
    obtain ⟨below, hbelow⟩ : ∃ below, s.below.step lower native config (.threads (.sampler action)) = some below :=
      SpiesState.threads_step rfl hstep
    obtain ⟨s', hs'⟩ := below_step hsends hbelow
    exact .inl ⟨.below (.threads (.sampler action)), s', rfl, hs'⟩
  · obtain ⟨depth, s', hs'⟩ := send_ready (h.below.threads.sampling hheld) hcollected hends none
    exact .inl ⟨.send depth none, s', rfl, hs'⟩
  · refine .inr ⟨pid, hnext, fun visit exited => ?_⟩
    obtain ⟨event, hevent, hsends, below, hbelow⟩ := h.below.serves.ready hspy hserving visit exited
    exact ⟨event, hevent, below_step hsends hbelow⟩

theorem lock_begins {order : List Pid}
    (hstep : s.step lower native config (.below (.threads (.sampler (.lock order)))) = some t)
    (hbegun : t.holdsLock = true) :
    t.below.threads.sampler = .checking order ∧ order.length = t.below.threads.spies.keys.length := by
  obtain ⟨below, hbelow, rfl⟩ := Option.map_eq_some_iff.mp hstep
  obtain ⟨threads, hthreads, rfl⟩ := Option.map_eq_some_iff.mp hbelow
  exact SamplerState.lock_begins hthreads hbegun

/-- Each step of the sampling thread and of a worker is one of those it has left in the round. -/
theorem Inv.round_counts (h : s.Inv lower native config) (hheld : s.holdsLock = true) {event : AnnotatedEvent}
    (hstep : s.step lower native config event = some t) :
    (decide (event.party = .sampling)).toNat + t.below.threads.sampler.stepsLeft t.below.threads.spies.keys.length ≤
        s.below.threads.sampler.stepsLeft s.below.threads.spies.keys.length ∧
      ∀ pid, (decide (event.party = .worker pid)).toNat + t.below.threads.workLeft pid ≤
        s.below.threads.workLeft pid := by
  obtain ⟨below, hbelow, hparty⟩ := step_below hstep
  rw [← hparty]
  exact ⟨h.below.threads.sampler_counts hheld hbelow, h.below.threads.worker_counts hheld hbelow⟩

end AnnotatedState

theorem SamplerPc.stepsLeft_pos {pc : SamplerPc} (hheld : pc.holdsLock = true) (count : Nat) :
    0 < pc.stepsLeft count := by
  cases pc with
  | idle | finished => cases hheld
  | _ =>
    simp only [SamplerPc.stepsLeft]
    omega

/-- Every round ends, however the threads interleave. While the sampling thread holds the lock of `n` spies, it takes
fewer than `3 * n + 3` steps and each worker at most seven. Until it gives the lock back it has a step to take, or the
worker that it waits for has one, whatever its sample meets, if the ancestries end. -/
theorem rounds_end {lower : String → String} {native : Native} {config : SpyConfig} {s t u : AnnotatedState}
    {root : Pid} {commandLine : String} {events more : List AnnotatedEvent} {order : List Pid}
    (hrun : Runs.run (AnnotatedState.step lower native config) (AnnotatedState.start root commandLine) events =
      some s)
    (hlock : s.step lower native config (.below (.threads (.sampler (.lock order)))) = some t)
    (hbegun : t.holdsLock = true)
    (hround : Runs.run (Runs.within AnnotatedState.holdsLock (AnnotatedState.step lower native config)) t more =
      some u) :
    more.countP (fun event => event.party = .sampling) < 3 * order.length + 3 ∧
      (∀ pid, more.countP (fun event => event.party = .worker pid) ≤ 7) ∧
      (AncestryEnds u.below.threads.spies →
        (∃ event v, event.party = .sampling ∧ u.step lower native config event = some v) ∨
          ∃ pid, u.below.threads.sampler.next = some pid ∧ ∀ visit exited,
            ∃ event ∈ SpiesState.answering pid visit exited,
              ∃ v, u.step lower native config (.below event) = some v) := by
  have hinv : t.Inv lower native config := (AnnotatedState.Inv.run hrun).step hlock
  obtain ⟨hwhole, hheld⟩ := Runs.run_within hround hbegun
  have hend : u.Inv lower native config := Runs.run_invariant (fun h hstep => h.step hstep) hwhole hinv
  have hpc := AnnotatedState.lock_begins hlock hbegun
  have hstep : ∀ {s s' event}, (s.Inv lower native config ∧ s.holdsLock = true) →
      Runs.within AnnotatedState.holdsLock (AnnotatedState.step lower native config) s event = some s' →
      (s'.Inv lower native config ∧ s'.holdsLock = true) ∧ s.step lower native config event = some s' := by
    intro s s' event h hwithin
    obtain ⟨hstep, hheld⟩ := Runs.within_eq_some.mp hwithin
    exact ⟨⟨h.1.step hstep, hheld⟩, hstep⟩
  refine ⟨?_, fun pid => ?_, hend.round_ready hheld⟩
  · have hcount := Runs.run_count_le (fun event : AnnotatedEvent => event.party = .sampling)
      (fun s : AnnotatedState => s.below.threads.sampler.stepsLeft s.below.threads.spies.keys.length)
      (fun h hwithin => ⟨(hstep h hwithin).1, (h.1.round_counts h.2 (hstep h hwithin).2).1⟩) hround ⟨hinv, hbegun⟩
    have hpos := SamplerPc.stepsLeft_pos hheld u.below.threads.spies.keys.length
    rw [hpc.1, ← hpc.2, SamplerPc.stepsLeft] at hcount
    omega
  · have hcount := Runs.run_count_le (fun event : AnnotatedEvent => event.party = .worker pid)
      (fun s : AnnotatedState => s.below.threads.workLeft pid)
      (fun h hwithin => ⟨(hstep h hwithin).1, (h.1.round_counts h.2 (hstep h hwithin).2).2 pid⟩) hround ⟨hinv, hbegun⟩
    have hseven := hinv.below.threads.workLeft_le hpc.1 pid
    omega

/-- The round of a process and its child, up to what is sent. -/
theorem rounds_end_zoneProcesses :
    ∃ s t u, Runs.run (AnnotatedState.step id SmalltalkSpy.noNative SingleSampler.zoneConfig)
        (AnnotatedState.start 1 "root") (annotatedProcesses.take 6) = some s ∧
      s.step id SmalltalkSpy.noNative SingleSampler.zoneConfig (.below (.threads (.sampler (.lock [1, 2])))) = some t ∧
      t.holdsLock = true ∧
      Runs.run (Runs.within AnnotatedState.holdsLock
          (AnnotatedState.step id SmalltalkSpy.noNative SingleSampler.zoneConfig)) t
        ((annotatedProcesses.drop 7).take 11) = some u ∧
      ((annotatedProcesses.drop 7).take 11).countP (fun event => event.party = .sampling) < 9 ∧
      (∀ pid, ((annotatedProcesses.drop 7).take 11).countP (fun event => event.party = .worker pid) ≤ 7) ∧
      (AncestryEnds u.below.threads.spies →
        (∃ event v, event.party = .sampling ∧
          u.step id SmalltalkSpy.noNative SingleSampler.zoneConfig event = some v) ∨
        ∃ pid, u.below.threads.sampler.next = some pid ∧ ∀ visit exited,
          ∃ event ∈ SpiesState.answering pid visit exited,
            ∃ v, u.step id SmalltalkSpy.noNative SingleSampler.zoneConfig (.below event) = some v) :=
  have hround : ∃ s t u, Runs.run (AnnotatedState.step id SmalltalkSpy.noNative SingleSampler.zoneConfig)
        (AnnotatedState.start 1 "root") (annotatedProcesses.take 6) = some s ∧
      s.step id SmalltalkSpy.noNative SingleSampler.zoneConfig (.below (.threads (.sampler (.lock [1, 2])))) = some t ∧
      t.holdsLock = true ∧
      Runs.run (Runs.within AnnotatedState.holdsLock
          (AnnotatedState.step id SmalltalkSpy.noNative SingleSampler.zoneConfig)) t
        ((annotatedProcesses.drop 7).take 11) = some u := ⟨_, _, _, rfl, rfl, rfl, rfl⟩
  let ⟨s, t, u, hs, ht, hheld, hu⟩ := hround
  ⟨s, t, u, hs, ht, hheld, hu, rounds_end hs ht hheld hu⟩

end StSpy
