import StSpy.Sampler

/-!
# The handshake of a round

What a spy can have on its way depends on how far the sampling thread has come
with it in the round: nothing before it is notified and after its sample is
collected, and in between one notification or sample, of this round, or nothing
when its worker has left.
-/

namespace StSpy

variable {α : Type}

/-! ## One spy -/

/-- The notification taken and not yet answered. -/
def WorkerPc.taken : WorkerPc → List Nat
  | .tracing round => [round]
  | _ => []

namespace SpyThread

/-- The rounds of the samples and notifications on their way, oldest first. -/
def inFlight (spy : SpyThread α) : List Nat :=
  spy.sampleChannel.queue.map (·.1) ++ spy.worker.taken ++ spy.notifyChannel.queue

structure Sound (spy : SpyThread α) : Prop where
  single : spy.initializedChannel.queue.length ≤ 1
  starting : spy.worker = .starting → spy.initialized = none ∧ spy.initializedChannel.queue = []
  serving : spy.worker = .waiting ∨ (∃ round, spy.worker = .tracing round) →
    spy.initialized = some true ∨ spy.initialized = none ∧ spy.initializedChannel.queue = [true]
  received : spy.initialized ≠ none → spy.initializedChannel.queue = []
  running : spy.running = true → spy.initialized = some true
  /-- A spy no longer running has no receiver for its notifications. -/
  stopped : spy.initialized = some true → spy.running = false → spy.notifyChannel.receiver = false
  left : spy.notifyChannel.receiver = false → spy.notifyChannel.queue = [] ∧ spy.worker = .returning
  /-- The worker drops its end of the sample channel last. -/
  last : spy.sampleChannel.sender = false → spy.notifyChannel.receiver = false
  sent : spy.sent = spy.collected.map (·.2) ++ spy.sampleChannel.queue
  rounds : ∀ c ∈ spy.collected, c.2.1 = c.1

theorem Sound.new (parent : Option Pid) (commandLine : String) : (new parent commandLine : SpyThread α).Sound := by
  constructor <;> simp [SpyThread.new, Channel.new]

variable {spy spy' : SpyThread α} {action : WorkerAction α} {round : Nat}

/-- What a worker can do to its spy: its flags stay, and what is on its way is
either the same or some of it, the worker having left. -/
structure Moved (spy spy' : SpyThread α) : Prop where
  initialized : spy'.initialized = spy.initialized
  running : spy'.running = spy.running
  notified : spy'.notified = spy.notified
  collected : spy'.collected = spy.collected
  left : spy.worker = .returning → spy'.worker = .returning
  inFlight : spy'.inFlight = spy.inFlight ∨ spy'.inFlight.Sublist spy.inFlight ∧ spy'.worker = .returning

theorem work_retryNew {ok : Bool} (h : spy.work (.retryNew ok) = some spy') :
    spy.worker = .starting ∧ (spy' = { spy with worker := .returning } ∨
      spy' = { spy with
        initializedChannel := { spy.initializedChannel with queue := spy.initializedChannel.queue ++ [ok] }
        worker := if ok then .waiting else .returning }) := by
  simp only [work] at h
  split at h
  · rename_i hworker
    refine ⟨hworker, ?_⟩
    split at h
    · rename_i channel hsend
      obtain ⟨-, rfl⟩ := Channel.send_eq_some hsend
      exact .inr (Option.some.inj h).symm
    · exact .inl (Option.some.inj h).symm
  · cases h

theorem work_receive (h : spy.work .receive = some spy') :
    spy.worker = .waiting ∧ (spy' = { spy with worker := .returning } ∨
      ∃ round rest, spy.notifyChannel.queue = round :: rest ∧ spy' = { spy with
        notifyChannel := { spy.notifyChannel with queue := rest }, worker := .tracing round }) := by
  simp only [work] at h
  split at h
  · rename_i hworker
    refine ⟨hworker, ?_⟩
    split at h
    · cases h
    · rename_i round channel hrecv
      obtain ⟨hqueue, hchannel⟩ := Channel.recv_message hrecv
      refine .inr ⟨round, channel.queue, hqueue, ?_⟩
      rw [← hchannel]
      exact (Option.some.inj h).symm
    · rename_i channel hrecv
      obtain ⟨-, -, rfl⟩ := Channel.recv_disconnected hrecv
      exact .inl (Option.some.inj h).symm
  · cases h

theorem work_answer {result : α} (h : spy.work (.answer result) = some spy') :
    ∃ round, spy.worker = .tracing round ∧ (spy' = { spy with worker := .returning } ∨
      spy' = { spy with
        sampleChannel := { spy.sampleChannel with queue := spy.sampleChannel.queue ++ [(round, result)] }
        worker := .waiting, sent := spy.sent ++ [(round, result)] }) := by
  simp only [work] at h
  split at h
  · rename_i round hworker
    refine ⟨round, hworker, ?_⟩
    split at h
    · rename_i channel hsend
      obtain ⟨-, rfl⟩ := Channel.send_eq_some hsend
      exact .inr (Option.some.inj h).symm
    · exact .inl (Option.some.inj h).symm
  · cases h

theorem work_quit (h : spy.work .quit = some spy') : spy' = { spy with worker := .returning } := by
  simp only [work] at h
  split at h <;> simp_all

/-- The ends go in their order. -/
theorem work_drop (h : spy.work .drop = some spy') : spy.worker = .returning ∧
    (spy' = { spy with initializedChannel := spy.initializedChannel.dropSender } ∨
      spy' = { spy with notifyChannel := spy.notifyChannel.dropReceiver } ∨
      spy.notifyChannel.receiver = false ∧ spy' = { spy with sampleChannel := spy.sampleChannel.dropSender }) := by
  simp only [work] at h
  split at h
  · rename_i hworker
    refine ⟨hworker, ?_⟩
    split at h
    · exact .inl (Option.some.inj h).symm
    · split at h
      · exact .inr (.inl (Option.some.inj h).symm)
      · rename_i hreceiver
        split at h
        · exact .inr (.inr ⟨by simpa using hreceiver, (Option.some.inj h).symm⟩)
        · cases h
  · cases h

/-- A worker that leaves takes the notification it had taken along. -/
theorem moved_returning (spy : SpyThread α) : Moved spy { spy with worker := .returning } := by
  refine ⟨rfl, rfl, rfl, rfl, fun _ => rfl, .inr ⟨?_, rfl⟩⟩
  simp only [SpyThread.inFlight, WorkerPc.taken, List.append_nil]
  exact (List.sublist_append_left _ _).append_right _

theorem moved (h : spy.work action = some spy') : Moved spy spy' := by
  cases action with
  | retryNew ok =>
    obtain ⟨hworker, rfl | rfl⟩ := work_retryNew h
    · exact moved_returning spy
    · refine ⟨rfl, rfl, rfl, rfl, by simp [hworker], .inl ?_⟩
      cases ok <;> simp [SpyThread.inFlight, hworker, WorkerPc.taken]
  | receive =>
    obtain ⟨hworker, rfl | ⟨round, rest, hqueue, rfl⟩⟩ := work_receive h
    · exact moved_returning spy
    · refine ⟨rfl, rfl, rfl, rfl, by simp [hworker], .inl ?_⟩
      simp [SpyThread.inFlight, hworker, hqueue, WorkerPc.taken]
  | answer result =>
    obtain ⟨round, hworker, rfl | rfl⟩ := work_answer h
    · exact moved_returning spy
    · refine ⟨rfl, rfl, rfl, rfl, by simp [hworker], .inl ?_⟩
      simp [SpyThread.inFlight, hworker, WorkerPc.taken]
  | quit =>
    rw [work_quit h]
    exact moved_returning spy
  | drop =>
    obtain ⟨hworker, rfl | rfl | ⟨-, rfl⟩⟩ := work_drop h
    · exact ⟨rfl, rfl, rfl, rfl, id, .inl rfl⟩
    · refine ⟨rfl, rfl, rfl, rfl, id, .inr ⟨?_, hworker⟩⟩
      simp only [SpyThread.inFlight, Channel.dropReceiver, List.append_nil]
      exact List.sublist_append_left _ _
    · exact ⟨rfl, rfl, rfl, rfl, id, .inl rfl⟩

/-- A worker that leaves keeps its spy sound. -/
theorem Sound.returning (h : spy.Sound) : ({ spy with worker := .returning } : SpyThread α).Sound where
  single := h.single
  starting hworker := by cases hworker
  serving hworker := by simp at hworker
  received := h.received
  running := h.running
  stopped := h.stopped
  left hreceiver := ⟨(h.left hreceiver).1, rfl⟩
  last := h.last
  sent := h.sent
  rounds := h.rounds

/-- While the worker takes notifications, its ends are live. -/
theorem Sound.live (h : spy.Sound) (hworker : spy.worker ≠ .returning) : spy.notifyChannel.receiver = true := by
  by_contra hreceiver
  exact hworker (h.left (by simpa using hreceiver)).2

theorem Sound.work (h : spy.Sound) (hwork : spy.work action = some spy') : spy'.Sound := by
  cases action with
  | retryNew ok =>
    obtain ⟨hworker, rfl | rfl⟩ := work_retryNew hwork
    · exact h.returning
    · obtain ⟨hnone, hqueue⟩ := h.starting hworker
      have hlive := h.live (by simp [hworker])
      have hrunning : spy.running = false := by
        have := h.running
        simp_all
      refine { h with
        single := by simp [hqueue], starting := ?_, serving := ?_, received := fun hsome => absurd hnone hsome
        left := fun hreceiver => by simp [hlive] at hreceiver }
      · cases ok <;> simp
      · cases ok <;> simp [hnone, hqueue]
  | receive =>
    obtain ⟨hworker, rfl | ⟨round, rest, hqueue, rfl⟩⟩ := work_receive hwork
    · exact h.returning
    · have hlive := h.live (by simp [hworker])
      exact { h with
        starting := fun hstart => by cases hstart
        serving := fun _ => h.serving (.inl hworker)
        left := fun hreceiver => by simp [hlive] at hreceiver }
  | answer result =>
    obtain ⟨round, hworker, rfl | rfl⟩ := work_answer hwork
    · exact h.returning
    · have hlive := h.live (by simp [hworker])
      exact { h with
        starting := fun hstart => by cases hstart
        serving := fun _ => h.serving (.inr ⟨round, hworker⟩)
        left := fun hreceiver => by simp [hlive] at hreceiver
        sent := by simp [h.sent] }
  | quit =>
    rw [work_quit hwork]
    exact h.returning
  | drop =>
    obtain ⟨hworker, rfl | rfl | ⟨hreceiver, rfl⟩⟩ := work_drop hwork
    · exact { h with }
    · exact { h with stopped := fun _ _ => rfl, left := fun _ => ⟨rfl, hworker⟩, last := fun _ => rfl }
    · exact { h with last := fun _ => hreceiver }

/-! ## One spy in a round -/

def Quiet (spy : SpyThread α) : Prop := spy.notified = false ∧ spy.inFlight = []

end SpyThread

/-- How far the sampling thread has come with a spy in the round. -/
inductive Stage where
  | rest
  | due
  | ready
  | asked
  | done

namespace SpyThread

def At (spy : SpyThread α) (round : Nat) : Stage → Prop
  | .rest => spy.Quiet ∧ ∀ c ∈ spy.collected, c.1 ≤ round
  | .due => spy.Quiet ∧ ∀ c ∈ spy.collected, c.1 < round
  | .ready => spy.Quiet ∧ (∀ c ∈ spy.collected, c.1 < round) ∧ spy.initialized = some true
  | .asked => (∀ c ∈ spy.collected, c.1 < round) ∧
      (spy.Quiet ∧ spy.running = false ∨ spy.notified = true ∧ spy.running = true ∧
        (spy.inFlight = [round] ∨ spy.inFlight = [] ∧ spy.worker = .returning))
  | .done => spy.Quiet ∧ (∀ c ∈ spy.collected, c.1 ≤ round) ∧
      (spy.running = true ↔ ∃ c ∈ spy.collected, c.1 = round)

variable {spy spy' : SpyThread α} {round : Nat} {stage : Stage}

theorem Quiet.moved (h : spy.Quiet) (hmoved : Moved spy spy') : spy'.Quiet := by
  refine ⟨hmoved.notified.trans h.1, ?_⟩
  rcases hmoved.inFlight with hsame | ⟨hsub, -⟩
  · exact hsame.trans h.2
  · rw [h.2] at hsub
    exact List.sublist_nil.mp hsub

/-- A worker's move leaves its spy where it is in the round. -/
theorem At.moved (h : spy.At round stage) (hmoved : Moved spy spy') : spy'.At round stage := by
  cases stage with
  | rest => exact ⟨h.1.moved hmoved, hmoved.collected ▸ h.2⟩
  | due => exact ⟨h.1.moved hmoved, hmoved.collected ▸ h.2⟩
  | ready => exact ⟨h.1.moved hmoved, hmoved.collected ▸ h.2.1, hmoved.initialized.trans h.2.2⟩
  | asked =>
    refine ⟨hmoved.collected ▸ h.1, ?_⟩
    rcases h.2 with ⟨hquiet, hrunning⟩ | ⟨hnotified, hrunning, hflight⟩
    · exact .inl ⟨hquiet.moved hmoved, hmoved.running.trans hrunning⟩
    · refine .inr ⟨hmoved.notified.trans hnotified, hmoved.running.trans hrunning, ?_⟩
      rcases hflight, hmoved.inFlight with ⟨hone | ⟨hnone, hleft⟩, hsame | ⟨hsub, hleft'⟩⟩
      · exact .inl (hsame.trans hone)
      · rw [hone] at hsub
        rcases List.sublist_singleton.mp hsub with hempty | hall
        · exact .inr ⟨hempty, hleft'⟩
        · exact .inl hall
      · exact .inr ⟨hsame.trans hnone, hmoved.left hleft⟩
      · rw [hnone] at hsub
        exact .inr ⟨List.sublist_nil.mp hsub, hleft'⟩
  | done =>
    refine ⟨h.1.moved hmoved, hmoved.collected ▸ h.2.1, ?_⟩
    rw [hmoved.running, hmoved.collected]
    exact h.2.2

/-- The status is received, by either of the two methods that do. -/
theorem Sound.status (h : spy.Sound) {status : Bool} {channel : Channel Bool}
    (hqueue : spy.initializedChannel.queue = status :: channel.queue) :
    ({ spy with initializedChannel := channel, running := status, initialized := some status } :
      SpyThread α).Sound := by
  have hrest : channel.queue = [] := by
    have := h.single
    simpa [hqueue] using this
  refine { h with
    single := by simp [hrest]
    starting := fun hworker => by simp [(h.starting hworker).2] at hqueue
    serving := fun hworker => .inl ?_
    received := fun _ => hrest
    running := fun hstatus => by simp_all
    stopped := fun hstatus hrunning => by simp_all }
  have hnone : spy.initialized = none := by
    by_contra hsome
    simp [h.received hsome] at hqueue
  have hsent := h.serving hworker
  simp_all

/-- `wait_initialized` touches nothing of a round, and starts its spy if it says so. -/
theorem waitInitialized_sound (h : spy.Sound) {ok : Bool} (hwait : spy.waitInitialized = some (ok, spy')) :
    spy'.Sound ∧ (∀ round, spy.At round .rest → spy'.At round .rest) ∧
      (spy.running = false → spy'.running = ok) := by
  simp only [waitInitialized] at hwait
  split at hwait
  · cases hwait
  · rename_i status channel hrecv
    obtain ⟨hqueue, -⟩ := Channel.recv_message hrecv
    obtain ⟨rfl, rfl⟩ := Prod.mk.inj (Option.some.inj hwait)
    exact ⟨h.status hqueue, fun _ => id, fun _ => rfl⟩
  · rename_i channel hrecv
    obtain ⟨-, -, rfl⟩ := Channel.recv_disconnected hrecv
    obtain ⟨rfl, rfl⟩ := Prod.mk.inj (Option.some.inj hwait)
    exact ⟨h, fun _ => id, id⟩

theorem isInitialized_some {status : Bool} (h : spy.initialized = some status) :
    spy.isInitialized = (status, spy) := by
  simp only [isInitialized, h]

/-- `initialized` tells whether a spy is to be notified; one that is not does not run. -/
theorem isInitialized_sound (h : spy.Sound) (hdue : spy.At round .due) :
    spy.isInitialized.2.Sound ∧
      spy.isInitialized.2.At round (if spy.isInitialized.1 = true then .ready else .asked) := by
  cases hinit : spy.initialized with
  | some status =>
    rw [isInitialized_some hinit]
    refine ⟨h, ?_⟩
    cases status with
    | true => exact ⟨hdue.1, hdue.2, hinit⟩
    | false =>
      have hrunning : spy.running = false := by
        by_contra hrun
        have := h.running (by simpa using hrun)
        simp_all
      exact ⟨hdue.2, .inl ⟨hdue.1, hrunning⟩⟩
  | none =>
    have hrunning : spy.running = false := by
      by_contra hrun
      have := h.running (by simpa using hrun)
      simp_all
    unfold isInitialized
    split
    · simp_all
    · split
      · rename_i status channel hrecv
        refine ⟨h.status (Channel.tryRecv_ok hrecv).1, ?_⟩
        cases status with
        | true => exact ⟨hdue.1, hdue.2, rfl⟩
        | false => exact ⟨hdue.2, .inl ⟨hdue.1, rfl⟩⟩
      · rename_i e channel hrecv
        obtain ⟨-, rfl⟩ := Channel.tryRecv_error hrecv
        exact ⟨h, hdue.2, .inl ⟨hdue.1, hrunning⟩⟩

/-- `notify` puts one notification on its way, or finds the worker gone. -/
theorem notify_sound (h : spy.Sound) (hready : spy.At round .ready) :
    (spy.notify round).Sound ∧ (spy.notify round).At round .asked := by
  obtain ⟨⟨hnotified, hflight⟩, hbefore, hinit⟩ := hready
  simp only [notify]
  split
  · rename_i channel hsend
    obtain ⟨hreceiver, rfl⟩ := Channel.send_eq_some hsend
    have hrunning : spy.running = true := by
      by_contra hrun
      simp [h.stopped hinit (by simpa using hrun)] at hreceiver
    refine ⟨{ h with left := fun hgone => by simp [hreceiver] at hgone }, hbefore,
      .inr ⟨rfl, hrunning, .inl ?_⟩⟩
    simp only [inFlight, List.append_eq_nil_iff] at hflight ⊢
    simp [hflight]
  · rename_i hsend
    have hgone := Channel.send_eq_none hsend
    exact ⟨{ h with running := fun hrun => by simp at hrun, stopped := fun _ _ => hgone },
      hbefore, .inl ⟨⟨hnotified, hflight⟩, rfl⟩⟩

theorem notify_keeps (hinit : spy.initialized = some true) :
    (spy.notify round).initialized = some true ∧ (spy.running = false → (spy.notify round).running = false) := by
  simp only [notify]
  split
  · exact ⟨hinit, id⟩
  · exact ⟨hinit, fun _ => rfl⟩

theorem collect_cases {result : Option α} (h : spy.collect round = some (result, spy')) :
    spy.notified = false ∧ spy' = spy ∨
    (spy.notified = true ∧ ∃ sample rest, spy.sampleChannel.queue = sample :: rest ∧ spy' = { spy with
      sampleChannel := { spy.sampleChannel with queue := rest }, notified := false
      collected := spy.collected ++ [(round, sample)] }) ∨
    spy.notified = true ∧ spy.sampleChannel.queue = [] ∧ spy.sampleChannel.sender = false ∧
      spy' = { spy with notified := false, running := false } := by
  simp only [collect] at h
  split at h
  · rename_i hnotified
    split at h
    · cases h
    · rename_i sample channel hrecv
      obtain ⟨hqueue, hchannel⟩ := Channel.recv_message hrecv
      obtain ⟨-, rfl⟩ := Prod.mk.inj (Option.some.inj h)
      exact .inr (.inl ⟨hnotified, sample, channel.queue, hqueue, by rw [← hchannel]⟩)
    · rename_i channel hrecv
      obtain ⟨hqueue, hsender, rfl⟩ := Channel.recv_disconnected hrecv
      obtain ⟨-, rfl⟩ := Prod.mk.inj (Option.some.inj h)
      exact .inr (.inr ⟨hnotified, hqueue, hsender, rfl⟩)
  · rename_i hnotified
    obtain ⟨-, rfl⟩ := Prod.mk.inj (Option.some.inj h)
    exact .inl ⟨by simpa using hnotified, rfl⟩

theorem collect_sample {sample : Nat × α} {rest : List (Nat × α)} (hnotified : spy.notified = true)
    (hqueue : spy.sampleChannel.queue = sample :: rest) :
    ∃ spy', spy.collect round = some (some sample.2, spy') := by
  unfold collect Channel.recv
  rw [if_pos hnotified, hqueue]
  exact ⟨_, rfl⟩

theorem collect_keeps {result : Option α} (hcollect : spy.collect round = some (result, spy'))
    (hinit : spy.initialized = some true) :
    spy'.initialized = some true ∧ (spy.running = false → spy'.running = false) := by
  rcases collect_cases hcollect with ⟨-, rfl⟩ | ⟨-, sample, rest, -, rfl⟩ | ⟨-, -, -, rfl⟩
  · exact ⟨hinit, id⟩
  · exact ⟨hinit, id⟩
  · exact ⟨hinit, fun _ => rfl⟩

/-- `collect` takes what is on its way, so a spy still runs exactly if it answered. -/
theorem collect_sound (h : spy.Sound) (hasked : spy.At round .asked) {result : Option α}
    (hcollect : spy.collect round = some (result, spy')) : spy'.Sound ∧ spy'.At round .done := by
  obtain ⟨hbefore, hasked⟩ := hasked
  have hupto : ∀ c ∈ spy.collected, c.1 ≤ round := fun c hc => Nat.le_of_lt (hbefore c hc)
  have hnone : ¬∃ c ∈ spy.collected, c.1 = round := by
    rintro ⟨c, hc, rfl⟩
    exact Nat.lt_irrefl _ (hbefore c hc)
  rcases collect_cases hcollect with ⟨hnotified, rfl⟩ | ⟨hnotified, sample, rest, hqueue, rfl⟩ |
    ⟨hnotified, hqueue, hsender, rfl⟩
  · rcases hasked with ⟨hquiet, hrunning⟩ | ⟨hnot, -⟩
    · exact ⟨h, hquiet, hupto, by simp [hrunning, hnone]⟩
    · simp [hnotified] at hnot
  · rcases hasked with ⟨⟨hnot, -⟩, -⟩ | ⟨-, hrunning, hflight⟩
    · simp [hnotified] at hnot
    · -- the one thing on its way is this sample
      simp only [inFlight, hqueue, List.map_cons, List.cons_append, List.cons.injEq, reduceCtorEq, false_and,
        or_false] at hflight
      obtain ⟨hround, hrest⟩ := hflight
      refine ⟨{ h with
        last := h.last
        sent := by simp [h.sent, hqueue]
        rounds := ?_ }, ⟨rfl, hrest⟩, ?_, ?_⟩
      · intro c hc
        rcases List.mem_append.mp hc with hc | hc
        · exact h.rounds c hc
        · rw [List.mem_singleton.mp hc]
          exact hround
      · intro c hc
        rcases List.mem_append.mp hc with hc | hc
        · exact hupto c hc
        · rw [List.mem_singleton.mp hc]
      · simp [hrunning]
  · rcases hasked with ⟨⟨hnot, -⟩, -⟩ | ⟨-, -, hflight⟩
    · simp [hnotified] at hnot
    · have hgone := h.last hsender
      obtain ⟨hnotify, hworker⟩ := h.left hgone
      refine ⟨{ h with running := fun hrun => by simp at hrun, stopped := fun _ _ => hgone },
        ⟨rfl, ?_⟩, hupto, ?_⟩
      · simp [inFlight, hqueue, hworker, hnotify, WorkerPc.taken]
      · simpa using hnone

/-! ## What a call changes -/

theorem waitInitialized_frame {ok : Bool} (h : spy.waitInitialized = some (ok, spy')) :
    ∃ initializedChannel running initialized,
      spy' = { spy with initializedChannel, running, initialized } := by
  simp only [waitInitialized] at h
  split at h
  · cases h
  · cases h
    exact ⟨_, _, _, rfl⟩
  · cases h
    exact ⟨_, _, _, rfl⟩

theorem isInitialized_frame (spy : SpyThread α) :
    ∃ initializedChannel running initialized,
      spy.isInitialized.2 = { spy with initializedChannel, running, initialized } := by
  unfold isInitialized
  split
  · exact ⟨_, _, _, rfl⟩
  · split <;> exact ⟨_, _, _, rfl⟩

theorem notify_frame (round : Nat) (spy : SpyThread α) :
    ∃ notifyChannel running notified, spy.notify round = { spy with notifyChannel, running, notified } := by
  unfold notify
  split <;> exact ⟨_, _, _, rfl⟩

theorem collect_frame {round : Nat} {result : Option α} (h : spy.collect round = some (result, spy')) :
    ∃ running notified queue collected, spy' =
        { spy with running, notified, sampleChannel := { spy.sampleChannel with queue }, collected } ∧
      collected.map (·.2.2) = spy.collected.map (·.2.2) ++ result.toList ∧
      result.toList ++ queue.map Prod.snd = spy.sampleChannel.queue.map Prod.snd ∧
      ∀ m ∈ queue, m ∈ spy.sampleChannel.queue := by
  simp only [collect] at h
  split at h
  · split at h
    · cases h
    · rename_i sample channel hrecv
      obtain ⟨hqueue, hchannel⟩ := Channel.recv_message hrecv
      cases h
      refine ⟨_, _, channel.queue, _, by rw [← hchannel], ?_, ?_, ?_⟩
      · rw [List.map_append]
        rfl
      · rw [hqueue]
        rfl
      · rw [hqueue]
        exact fun m hm => List.mem_cons_of_mem _ hm
    · rename_i channel hrecv
      obtain ⟨-, -, rfl⟩ := Channel.recv_disconnected hrecv
      cases h
      exact ⟨_, _, _, _, rfl, (List.append_nil _).symm, rfl, fun _ hm => hm⟩
  · cases h
    exact ⟨_, _, _, _, rfl, (List.append_nil _).symm, rfl, fun _ hm => hm⟩

end SpyThread

end StSpy
