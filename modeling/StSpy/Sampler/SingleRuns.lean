import StSpy.Sampler.Single

/-!
# Runs of the sampler of one process

Whatever the order in which the thread and the caller act: `new_sampler` returns a
sampler exactly with a spy that is attached, the samples that are received are those
of the spy's successive `get_stack_traces`, none lost, repeated or out of order, and
`next` returns `None` only when all of them are received. Dropping the sampler ends
the thread after one more sample at most.
-/

namespace StSpy

namespace SamplingPc

/-- The spy that the thread holds. -/
def spy : SamplingPc → Option SmalltalkSpy
  | waiting spy _ | tracing spy _ _ => some spy
  | _ => none

def panic : SamplingPc → Option ThreadPanic
  | returning panic | finished panic => panic
  | _ => none

/-- The thread has left its loop, or never got to it. -/
def Over : SamplingPc → Prop
  | returning _ | finished _ => True
  | _ => False

/-- How many steps are left to a thread whose samples nobody receives. -/
def stepsLeft (sender : Bool) : SamplingPc → Nat
  | starting => 5
  | waiting .. => 4
  | tracing .. => 3
  | returning _ => if sender then 2 else 1
  | finished _ => 0

/-- How many samples it may still take. -/
def tracesLeft : SamplingPc → Nat
  | returning _ | finished _ => 0
  | _ => 1

end SamplingPc

namespace CallerPc

/-- The caller holds the receiver of the samples. -/
def Listens : CallerPc → Prop
  | initializing | sampling _ => True
  | _ => False

def stepsLeft : CallerPc → Nat
  | dropping => 1
  | _ => 0

end CallerPc

def SamplingAction.traces : SamplingAction → Nat
  | trace .. => 1
  | _ => 0

namespace SingleSampler

variable {lower : String → String} {native : Native} {pid : Pid} {config : SpyConfig} {s s' : SingleSampler}
  {action : SamplingAction} {actions : List SamplingAction}

/-! ## The invariant -/

/-- The samples are those of the spy that is attached, and only the spy and the timer panic. -/
structure Sampling (lower : String → String) (native : Native) (pid : Pid) (config : SpyConfig) (s : SingleSampler) :
    Prop where
  spy : ∀ spy, s.thread.spy = some spy →
    ∃ first, s.started = some first ∧ spy = first.run native (s.turns.map Prod.snd)
  first : ∀ first, s.started = some first →
    ∃ attempts, SmalltalkSpy.retryNew lower native pid config 20 attempts = some (.ok first)
  fresh : s.started = none → s.turns = []
  sent : s.sent = (s.started.map fun first => samplesOf native first s.turns).getD []
  panic : ∀ panic, s.thread.panic = some panic → ∃ cause, panic = .panic cause

/-- The caller is told whether there is a spy. -/
structure Handshake (s : SingleSampler) : Prop where
  starting : s.thread = .starting →
    s.caller = .initializing ∧ s.initializedChannel = .new ∧ s.started = none
  initializing : s.caller = .initializing → s.initializedChannel.receiver = true ∧
    (∀ first, s.started = some first → s.initializedChannel.queue = [.ok first.vmVersion]) ∧
    (s.started = none → ∀ version, .ok version ∉ s.initializedChannel.queue)
  sampling : ∀ version, s.caller = .sampling version → ∃ first, s.started = some first ∧ version = first.vmVersion
  failed : s.caller = .failed → s.started = none

/-- What is sent is received or queued. -/
structure Stream (s : SingleSampler) : Prop where
  listens : s.sampleChannel.receiver = true ↔ s.caller.Listens
  queued : s.sampleChannel.receiver = true → s.sent = s.received ++ s.sampleChannel.queue
  received : s.received <+: s.sent
  sender : s.sampleChannel.sender = false → s.thread.Over
  ended : s.ended = true → s.received = s.sent ∧ s.thread.Over

/-- What is left when a side is past its end. -/
structure Finish (s : SingleSampler) : Prop where
  finished : ∀ panic, s.thread = .finished panic →
    s.initializedChannel.sender = false ∧ s.sampleChannel.sender = false
  dropped : s.caller = .dropped → s.thread = .finished none
  panicked : s.caller = .panicked → ∃ panic, s.thread = .finished (some panic)

structure Inv (lower : String → String) (native : Native) (pid : Pid) (config : SpyConfig) (s : SingleSampler) :
    Prop where
  loop : s.Sampling lower native pid config
  handshake : s.Handshake
  stream : s.Stream
  finish : s.Finish

theorem Inv.start : start.Inv lower native pid config where
  loop := ⟨(fun _ h => nomatch h), (fun _ h => nomatch h), fun _ => rfl, rfl, (fun _ h => nomatch h)⟩
  handshake := ⟨fun _ => ⟨rfl, rfl, rfl⟩, fun _ => ⟨rfl, (fun _ h => nomatch h), fun _ _ => List.not_mem_nil⟩,
    (fun _ h => nomatch h), (fun h => nomatch h)⟩
  stream :=
    ⟨⟨fun _ => trivial, fun _ => rfl⟩, fun _ => rfl, List.prefix_rfl, (fun h => nomatch h), (fun h => nomatch h)⟩
  finish := ⟨(fun _ h => nomatch h), (fun h => nomatch h), (fun h => nomatch h)⟩

theorem samplesOf_concat (native : Native) (spy : SmalltalkSpy) (turns : List (Option Nat × Visit)) (late : Option Nat)
    (visit : Visit) :
    samplesOf native spy (turns ++ [(late, visit)]) = samplesOf native spy turns ++
      (sampleOf ((spy.run native (turns.map Prod.snd)).getStackTraces native visit).2 late
        ((spy.run native (turns.map Prod.snd)).getStackTraces native visit).1).toList := by
  induction turns generalizing spy with
  | nil => simp [samplesOf, SmalltalkSpy.run]
  | cons turn turns ih =>
    obtain ⟨lateTurn, visitTurn⟩ := turn
    rw [List.cons_append, samplesOf, samplesOf, ih, List.append_assoc]
    rfl

theorem Sampling.moves (h : s.Sampling lower native pid config) (hhand : s.Handshake)
    (hmoves : s.Moves lower native pid config action s') : s'.Sampling lower native pid config := by
  cases hmoves with
  | attached hstarting hspy =>
    obtain ⟨-, -, hnone⟩ := hhand.starting hstarting
    have hturns := h.fresh hnone
    have hsent := h.sent
    rw [hnone] at hsent
    refine ⟨fun spy hheld => ?_, fun first hfirst => ?_, (fun h => nomatch h), ?_, (fun _ h => nomatch h)⟩
    · cases hheld
      exact ⟨_, rfl, by rw [hturns]; rfl⟩
    · cases hfirst
      exact ⟨_, hspy⟩
    · rw [hsent, hturns]
      rfl
  | unattached => exact { h with spy := (fun _ h => nomatch h), panic := (fun _ h => nomatch h) }
  | attachPanics =>
    refine { h with spy := (fun _ h => nomatch h), panic := fun panic hpanic => ?_ }
    cases hpanic
    exact ⟨_, rfl⟩
  | waited hwaiting =>
    refine { h with spy := fun spy hheld => ?_, panic := (fun _ h => nomatch h) }
    cases hheld
    exact h.spy _ (by rw [hwaiting]; rfl)
  | timerPanics =>
    refine { h with spy := (fun _ h => nomatch h), panic := fun panic hpanic => ?_ }
    cases hpanic
    exact ⟨_, rfl⟩
  | @sent visit exited spy timer late sample htracing hreceiver hsample =>
    obtain ⟨first, hstarted, hrun⟩ := h.spy spy (by rw [htracing]; rfl)
    have hsent := h.sent
    rw [hstarted] at hsent
    refine ⟨fun held hheld => ⟨first, hstarted, ?_⟩, h.first, fun hnone => ?_, ?_, (fun _ h => nomatch h)⟩
    · cases hheld
      rw [hrun, SmalltalkSpy.run, SmalltalkSpy.run, List.map_append, List.foldl_append]
      rfl
    · rw [show s.started = none from hnone] at hstarted
      cases hstarted
    · rw [hrun] at hsample
      rw [hsent, hstarted, Option.map_some, Option.map_some, Option.getD_some, Option.getD_some, samplesOf_concat,
        hsample]
      rfl
  | left => exact { h with spy := (fun _ h => nomatch h), panic := (fun _ h => nomatch h) }
  | tracePanics =>
    refine { h with spy := (fun _ h => nomatch h), panic := fun panic hpanic => ?_ }
    cases hpanic
    exact ⟨_, rfl⟩
  | finishes hreturning =>
    refine { h with spy := (fun _ h => nomatch h), panic := fun panic hpanic => h.panic panic ?_ }
    rw [hreturning]
    exact hpanic
  | _ => exact { h with }

theorem Handshake.moves (h : s.Handshake) (hmoves : s.Moves lower native pid config action s') : s'.Handshake := by
  -- a thread that has not attached yet has left the caller where it is
  have hnotStarting : s.caller ≠ .initializing → s.thread ≠ .starting :=
    fun hcaller hstarting => hcaller (h.starting hstarting).1
  cases hmoves with
  | attached hstarting =>
    obtain ⟨hcaller, hnew, -⟩ := h.starting hstarting
    refine ⟨(fun h => nomatch h), fun _ => ⟨(h.initializing hcaller).1, fun first hfirst => ?_, (fun h => nomatch h)⟩,
      fun version hsampling => ?_, fun hfailed => ?_⟩
    · cases hfirst
      rw [hnew]
      rfl
    · rw [show s.caller = .sampling version from hsampling] at hcaller
      cases hcaller
    · rw [show s.caller = .failed from hfailed] at hcaller
      cases hcaller
  | unattached hstarting =>
    obtain ⟨hcaller, hnew, hnone⟩ := h.starting hstarting
    refine { h with
      starting := (fun h => nomatch h)
      initializing := fun _ => ⟨(h.initializing hcaller).1, fun first hfirst => ?_, fun _ version hmem => ?_⟩ }
    · rw [show s.started = some first from hfirst] at hnone
      cases hnone
    · rw [hnew] at hmem
      simp [Channel.new] at hmem
  | attachPanics | timerPanics | tracePanics | left | waited | sent | finishes =>
    exact { h with starting := (fun h => nomatch h) }
  | dropsInitialized hreturning =>
    refine { h with starting := fun hstarting => ?_ }
    rw [show s.thread = .starting from hstarting] at hreturning
    cases hreturning
  | @opened version queue hinitializing hqueue =>
    obtain ⟨-, hsome, hnone⟩ := h.initializing hinitializing
    refine ⟨fun hstarting => ?_, (fun h => nomatch h), fun _ hsampling => ?_, (fun h => nomatch h)⟩
    · obtain ⟨-, hnew, -⟩ := h.starting hstarting
      rw [hnew] at hqueue
      cases hqueue
    · cases hsampling
      cases hstarted : s.started with
      | none => exact absurd (hqueue ▸ List.mem_cons_self) (hnone hstarted version)
      | some first =>
        have hmessage := hsome first hstarted
        rw [hqueue] at hmessage
        cases hmessage
        exact ⟨first, rfl, rfl⟩
  | refused hinitializing hqueue =>
    obtain ⟨-, hsome, -⟩ := h.initializing hinitializing
    refine ⟨fun hstarting => ?_, (fun h => nomatch h), (fun _ h => nomatch h), fun _ => ?_⟩
    · obtain ⟨-, hnew, -⟩ := h.starting hstarting
      rw [hnew] at hqueue
      rcases hqueue with ⟨e, queue, hqueue⟩ | ⟨-, hsender⟩
      · cases hqueue
      · cases hsender
    · cases hstarted : s.started with
      | none => rfl
      | some first =>
        have hmessage := hsome first hstarted
        rcases hqueue with ⟨e, queue, hqueue⟩ | ⟨hqueue, -⟩
        · rw [hqueue] at hmessage
          cases hmessage
        · rw [hqueue] at hmessage
          cases hmessage
  | received | ended => exact { h with }
  | dropsSampler hsampling =>
    have hnot := hnotStarting (by rw [hsampling]; exact fun h => nomatch h)
    exact ⟨fun hstarting => absurd hstarting hnot, (fun h => nomatch h), (fun _ h => nomatch h), (fun h => nomatch h)⟩
  | joined hdropping | joinPanics hdropping =>
    have hnot := hnotStarting (by rw [hdropping]; exact fun h => nomatch h)
    exact ⟨fun hstarting => absurd hstarting hnot, (fun h => nomatch h), (fun _ h => nomatch h), (fun h => nomatch h)⟩

theorem Stream.moves (h : s.Stream) (hmoves : s.Moves lower native pid config action s') : s'.Stream := by
  have hsender : ∀ thread, s.thread = thread → ¬thread.Over → s.sampleChannel.sender = true := by
    intro thread hthread hnot
    by_contra hdropped
    have hover := h.sender (Bool.eq_false_iff.mpr hdropped)
    rw [hthread] at hover
    exact hnot hover
  have hended : ∀ thread, s.thread = thread → ¬thread.Over → s.ended ≠ true := by
    intro thread hthread hnot hended
    have hover := (h.ended hended).2
    rw [hthread] at hover
    exact hnot hover
  cases hmoves with
  | attached hstarting =>
    have hsends := hsender _ hstarting id
    have hgoes := hended _ hstarting id
    refine { h with sender := fun hdropped => ?_, ended := fun hover => absurd hover hgoes }
    rw [show s.sampleChannel.sender = false from hdropped] at hsends
    cases hsends
  | unattached | attachPanics | timerPanics | tracePanics | left =>
    exact { h with sender := fun _ => trivial, ended := fun hended => ⟨(h.ended hended).1, trivial⟩ }
  | waited hwaiting =>
    have hsends := hsender _ hwaiting id
    have hgoes := hended _ hwaiting id
    refine { h with sender := fun hdropped => ?_, ended := fun hover => absurd hover hgoes }
    rw [show s.sampleChannel.sender = false from hdropped] at hsends
    cases hsends
  | sent htracing hreceiver =>
    have hsends := hsender _ htracing id
    have hgoes := hended _ htracing id
    have hqueued := h.queued hreceiver
    refine ⟨h.listens, fun _ => ?_, h.received.trans (List.prefix_append _ _), fun hdropped => ?_,
      fun hover => absurd hover hgoes⟩
    · rw [hqueued, List.append_assoc]
    · rw [show s.sampleChannel.sender = false from hdropped] at hsends
      cases hsends
  | dropsInitialized hreturning => exact { h with }
  | finishes hreturning =>
    exact { h with sender := fun _ => trivial, ended := fun hended => ⟨(h.ended hended).1, trivial⟩ }
  | opened hinitializing =>
    have hlistens : s.sampleChannel.receiver = true := h.listens.mpr (by rw [hinitializing]; trivial)
    exact { h with listens := ⟨fun _ => trivial, fun _ => hlistens⟩ }
  | refused =>
    exact { h with listens := ⟨(fun h => nomatch h), (fun h => nomatch h)⟩, queued := (fun h => nomatch h) }
  | received hsampling hqueue =>
    have hreceiver : s.sampleChannel.receiver = true := h.listens.mpr (by rw [hsampling]; trivial)
    have hqueued := h.queued hreceiver
    rw [hqueue, List.append_cons] at hqueued
    refine { h with queued := fun _ => hqueued, received := hqueued ▸ List.prefix_append _ _, ended := fun hover => ?_ }
    have hall := (h.ended hover).1
    rw [hqueued] at hall
    simp at hall
  | ended hsampling hqueue hdropped =>
    have hreceiver : s.sampleChannel.receiver = true := h.listens.mpr (by rw [hsampling]; trivial)
    have hqueued := h.queued hreceiver
    rw [hqueue, List.append_nil] at hqueued
    exact { h with ended := fun _ => ⟨hqueued.symm, h.sender hdropped⟩ }
  | dropsSampler =>
    exact { h with listens := ⟨(fun h => nomatch h), (fun h => nomatch h)⟩, queued := (fun h => nomatch h) }
  | joined hdropping | joinPanics hdropping =>
    refine { h with listens := ⟨fun hreceiver => ?_, (fun h => nomatch h)⟩ }
    have hlistens := h.listens.mp hreceiver
    rw [hdropping] at hlistens
    exact hlistens

theorem Finish.moves (h : s.Finish) (hmoves : s.Moves lower native pid config action s') : s'.Finish := by
  -- a caller past its end has waited for the thread
  have hcallerOpen : ∀ thread, s.thread = thread → (∀ panic, thread ≠ .finished panic) →
      s.caller ≠ .dropped ∧ s.caller ≠ .panicked := by
    rintro thread rfl hnot
    refine ⟨fun hdropped => hnot _ (h.dropped hdropped), fun hpanicked => ?_⟩
    obtain ⟨panic, hfinished⟩ := h.panicked hpanicked
    exact hnot _ hfinished
  cases hmoves with
  | attached hthread | unattached hthread | attachPanics hthread | waited hthread | timerPanics hthread
  | sent hthread | left hthread | tracePanics hthread =>
    obtain ⟨hdropped, hpanicked⟩ := hcallerOpen _ hthread fun _ h => nomatch h
    exact ⟨(fun _ h => nomatch h), fun h => absurd h hdropped, fun h => absurd h hpanicked⟩
  | dropsInitialized => exact { h with finished := fun panic hfinished => ⟨rfl, (h.finished panic hfinished).2⟩ }
  | finishes hreturning hsender =>
    obtain ⟨hdropped, hpanicked⟩ := hcallerOpen _ hreturning fun _ h => nomatch h
    exact ⟨fun _ _ => ⟨hsender, rfl⟩, fun h => absurd h hdropped, fun h => absurd h hpanicked⟩
  | opened | refused | dropsSampler =>
    exact { h with dropped := (fun h => nomatch h), panicked := (fun h => nomatch h) }
  | received | ended => exact { h with }
  | joined _ hfinished => exact { h with dropped := fun _ => hfinished, panicked := (fun h => nomatch h) }
  | joinPanics _ hfinished => exact { h with dropped := (fun h => nomatch h), panicked := fun _ => ⟨_, hfinished⟩ }

theorem Inv.moves (h : s.Inv lower native pid config) (hstep : s.step lower native pid config action = some s') :
    s.Moves lower native pid config action s' :=
  step_moves (fun hstarting => by rw [(h.handshake.starting hstarting).2.1]; rfl) hstep

theorem Inv.step (h : s.Inv lower native pid config) (hstep : s.step lower native pid config action = some s') :
    s'.Inv lower native pid config := by
  have hmoves := h.moves hstep
  exact ⟨h.loop.moves h.handshake hmoves, h.handshake.moves hmoves, h.stream.moves hmoves, h.finish.moves hmoves⟩

theorem Inv.run (hrun : Runs.run (SingleSampler.step lower native pid config) SingleSampler.start actions = some s) :
    s.Inv lower native pid config :=
  Runs.run_invariant (fun h hstep => h.step hstep) hrun .start

/-! ## What is delivered -/

/-- In every interleaving: a sampler is returned only with a spy that has attached and never without one when
there is one; what is received are the first samples of that spy's successive calls, and what is not is queued;
at the end of the samples nothing is missing; and no message of the thread meets a caller that is gone. -/
theorem run_delivers
    (hrun : Runs.run (SingleSampler.step lower native pid config) SingleSampler.start actions = some s) :
    (∀ first, s.started = some first →
      (∃ attempts, SmalltalkSpy.retryNew lower native pid config 20 attempts = some (.ok first)) ∧
      s.caller ≠ .failed ∧ s.received <+: samplesOf native first s.turns ∧
      (∀ version, s.caller = .sampling version → version = first.vmVersion ∧
        s.received ++ s.sampleChannel.queue = samplesOf native first s.turns) ∧
      (s.ended = true → s.received = samplesOf native first s.turns ∧ s.thread.Over)) ∧
    (s.started = none → s.received = [] ∧ ∀ version, s.caller ≠ .sampling version) ∧
    ∀ panic, s.thread.panic = some panic → ∃ cause, panic = .panic cause := by
  obtain ⟨hloop, hhand, hstream, -⟩ := Inv.run hrun
  have hsent := hloop.sent
  have hreceived := hstream.received
  refine ⟨fun first hstarted => ?_, fun hnone => ?_, hloop.panic⟩
  · rw [hstarted, Option.map_some, Option.getD_some] at hsent
    refine ⟨hloop.first first hstarted, fun hfailed => ?_, hsent ▸ hreceived, fun version hsampling => ?_,
      fun hended => ?_⟩
    · rw [hhand.failed hfailed] at hstarted
      cases hstarted
    · obtain ⟨other, hother, hversion⟩ := hhand.sampling version hsampling
      rw [hstarted] at hother
      cases hother
      have hreceiver : s.sampleChannel.receiver = true := hstream.listens.mpr (by rw [hsampling]; trivial)
      exact ⟨hversion, (hstream.queued hreceiver).symm.trans hsent⟩
    · obtain ⟨hall, hover⟩ := hstream.ended hended
      exact ⟨hall.trans hsent, hover⟩
  · rw [hnone, Option.map_none, Option.getD_none] at hsent
    rw [hsent, List.prefix_nil] at hreceived
    refine ⟨hreceived, fun version hsampling => ?_⟩
    obtain ⟨first, hstarted, -⟩ := hhand.sampling version hsampling
    rw [hnone] at hstarted
    cases hstarted

/-! ### One sample received, one queued -/

def zoneConfig : SpyConfig := { unwinder := .libunwind }

/-- An attempt that succeeds. -/
def zoneAttempts : Nat → SmalltalkSpy.Attempt :=
  fun _ => ⟨SmalltalkSpy.zoneAttachment, SmalltalkSpy.zoneVisit [0x1038]⟩

def zoneActions : List SamplingAction :=
  [.retryNew zoneAttempts 0, .recvInitialized, .wait ⟨100, 0⟩, .trace (SmalltalkSpy.zoneVisit [0x1030]) false, .next,
    .wait ⟨100, 300⟩, .trace (SmalltalkSpy.zoneVisit [0x1038]) false]

/-- The steps of the sampler of that process. -/
abbrev zoneStep : SingleSampler → SamplingAction → Option SingleSampler := step id SmalltalkSpy.noNative 5 zoneConfig

theorem run_delivers_zoneSpy :
    ∃ s, Runs.run zoneStep SingleSampler.start zoneActions = some s ∧
      (∀ first, s.started = some first →
        (∃ attempts, SmalltalkSpy.retryNew id SmalltalkSpy.noNative 5 zoneConfig 20 attempts = some (.ok first)) ∧
        s.caller ≠ .failed ∧ s.received <+: samplesOf SmalltalkSpy.noNative first s.turns ∧
        (∀ version, s.caller = .sampling version → version = first.vmVersion ∧
          s.received ++ s.sampleChannel.queue = samplesOf SmalltalkSpy.noNative first s.turns) ∧
        (s.ended = true → s.received = samplesOf SmalltalkSpy.noNative first s.turns ∧ s.thread.Over)) ∧
      (s.started = none → s.received = [] ∧ ∀ version, s.caller ≠ .sampling version) ∧
      ∀ panic, s.thread.panic = some panic → ∃ cause, panic = .panic cause :=
  have hrun : ∃ s, Runs.run zoneStep SingleSampler.start zoneActions = some s := ⟨_, rfl⟩
  let ⟨s, hs⟩ := hrun
  ⟨s, hs, run_delivers hs⟩

/-! ## Going on -/

/-- A thread past its start goes on, whatever it meets. -/
theorem attached_goes_on (lower : String → String) (native : Native) (pid : Pid) (config : SpyConfig)
    (hstarting : s.thread ≠ .starting) (hfinished : ∀ panic, s.thread ≠ .finished panic) (turn : Timer.Turn)
    (visit : Visit) (exited : Bool) :
    ∃ a ∈ [.wait turn, .trace visit exited, .dropEnd], ∃ t, s.step lower native pid config a = some t := by
  cases hthread : s.thread with
  | starting => exact absurd hthread hstarting
  | waiting spy timer =>
    refine ⟨.wait turn, by simp, ?_⟩
    simp only [step, hthread]
    split <;> exact ⟨_, rfl⟩
  | tracing spy timer late =>
    refine ⟨.trace visit exited, by simp, ?_⟩
    simp only [step, hthread]
    split
    · exact ⟨_, rfl⟩
    · exact ⟨_, rfl⟩
    · split <;> exact ⟨_, rfl⟩
  | returning panic =>
    refine ⟨.dropEnd, by simp, ?_⟩
    simp only [step, hthread]
    split <;> exact ⟨_, rfl⟩
  | finished panic => exact absurd hthread (hfinished panic)

theorem starting_goes_on (lower : String → String) (native : Native) (pid : Pid) (config : SpyConfig)
    (hstarting : s.thread = .starting) (attempts : Nat → SmalltalkSpy.Attempt) (start : Instant) :
    ∃ t, s.step lower native pid config (.retryNew attempts start) = some t := by
  obtain ⟨k, -, houtcome⟩ := SmalltalkSpy.retryNew_eq lower native pid config 20 attempts
  simp only [step, hstarting, houtcome]
  cases SmalltalkSpy.connect lower native pid config (attempts k) with
  | ok spy =>
    dsimp only
    split <;> exact ⟨_, rfl⟩
  | error e =>
    cases e with
    | error e =>
      dsimp only
      split <;> exact ⟨_, rfl⟩
    | panic panic => exact ⟨_, rfl⟩

/-- In every interleaving, a caller that waits for the sampler, for a sample or for the thread is answered:
its call returns, or the thread goes on, whatever it meets. -/
theorem run_goes_on
    (hrun : Runs.run (SingleSampler.step lower native pid config) SingleSampler.start actions = some s)
    {call : SamplingAction}
    (hcall : (s.caller = .initializing ∧ call = .recvInitialized) ∨
      (∃ version, s.caller = .sampling version ∧ call = .next) ∨ (s.caller = .dropping ∧ call = .join))
    (attempts : Nat → SmalltalkSpy.Attempt) (start : Instant) (turn : Timer.Turn) (visit : Visit) (exited : Bool) :
    ∃ a ∈ [call, .retryNew attempts start, .wait turn, .trace visit exited, .dropEnd],
      ∃ t, s.step lower native pid config a = some t := by
  by_cases hfinished : ∃ panic, s.thread = .finished panic
  · obtain ⟨panic, hthread⟩ := hfinished
    obtain ⟨hinit, hsample⟩ := (Inv.run hrun).finish.finished panic hthread
    refine ⟨call, List.mem_cons_self, ?_⟩
    rcases hcall with ⟨hcaller, rfl⟩ | ⟨version, hcaller, rfl⟩ | ⟨hcaller, rfl⟩
    · cases hqueue : s.initializedChannel.queue with
      | nil => simp [step, hcaller, Channel.recv, hqueue, hinit]
      | cons message queue => cases message <;> simp [step, hcaller, Channel.recv, hqueue]
    · cases hqueue : s.sampleChannel.queue with
      | nil => simp [step, hcaller, Channel.recv, hqueue, hsample]
      | cons message queue => simp [step, hcaller, Channel.recv, hqueue]
    · cases panic <;> simp [step, hcaller, hthread]
  · by_cases hstarting : s.thread = .starting
    · exact ⟨.retryNew attempts start, by simp, starting_goes_on lower native pid config hstarting attempts start⟩
    · obtain ⟨a, ha, hstep⟩ := attached_goes_on lower native pid config hstarting
        (fun panic h => hfinished ⟨panic, h⟩) turn visit exited
      exact ⟨a, List.mem_cons_of_mem _ (List.mem_cons_of_mem _ ha), hstep⟩

theorem run_goes_on_zoneSpy :
    ∃ s, Runs.run zoneStep SingleSampler.start [.retryNew zoneAttempts 0] = some s ∧
      ∃ a ∈ [.recvInitialized, .retryNew zoneAttempts 0, .wait ⟨100, 0⟩, .trace (SmalltalkSpy.zoneVisit []) true,
          .dropEnd], ∃ t, zoneStep s a = some t :=
  have hrun : ∃ s, Runs.run zoneStep SingleSampler.start [.retryNew zoneAttempts 0] = some s ∧
    s.caller = .initializing := ⟨_, rfl, rfl⟩
  let ⟨s, hs, hcaller⟩ := hrun
  ⟨s, hs, run_goes_on hs (.inl ⟨hcaller, rfl⟩) zoneAttempts 0 ⟨100, 0⟩ (SmalltalkSpy.zoneVisit []) true⟩

/-! ## Dropping the sampler -/

def stepsLeft (s : SingleSampler) : Nat := s.thread.stepsLeft s.initializedChannel.sender + s.caller.stepsLeft

/-- The sampler is dropped, and only its thread is left. -/
def Dropped (s : SingleSampler) : Prop := s.caller = .dropping ∨ s.caller = .dropped ∨ s.caller = .panicked

theorem Dropped.not_listens (h : s.Dropped) : ¬s.caller.Listens := by
  intro hlistens
  rcases h with h | h | h
  · rw [h] at hlistens
    exact hlistens
  · rw [h] at hlistens
    exact hlistens
  · rw [h] at hlistens
    exact hlistens

/-- Each step of a dropped sampler is one of those left, and each sample it takes one of the samples left. -/
theorem Dropped.step (h : s.Dropped) (hinv : s.Inv lower native pid config)
    (hstep : s.step lower native pid config action = some s') :
    s'.Dropped ∧ 1 + s'.stepsLeft ≤ s.stepsLeft ∧ action.traces + s'.thread.tracesLeft ≤ s.thread.tracesLeft := by
  have hnot := h.not_listens
  have hstarting : s.thread ≠ .starting := fun hthread =>
    hnot (by rw [(hinv.handshake.starting hthread).1]; trivial)
  have hmoves := step_moves (fun hthread => absurd hthread hstarting) hstep
  cases hmoves with
  | attached hthread | unattached hthread | attachPanics hthread => exact absurd hthread hstarting
  | waited hthread =>
    refine ⟨h, ?_, ?_⟩
    · simp only [stepsLeft, SamplingPc.stepsLeft, hthread]
      omega
    · simp [SamplingPc.tracesLeft, hthread, SamplingAction.traces]
  | timerPanics hthread | left hthread | tracePanics hthread =>
    refine ⟨h, ?_, ?_⟩
    · simp only [stepsLeft, SamplingPc.stepsLeft, hthread]
      split <;> omega
    · simp [SamplingPc.tracesLeft, hthread, SamplingAction.traces]
  | sent _ hreceiver => exact absurd (hinv.stream.listens.mp hreceiver) hnot
  | dropsInitialized hthread hsender =>
    refine ⟨h, ?_, ?_⟩
    · simp [stepsLeft, SamplingPc.stepsLeft, hthread, hsender, Channel.dropSender]
      omega
    · simp [SamplingPc.tracesLeft, hthread, SamplingAction.traces]
  | finishes hthread hsender =>
    refine ⟨h, ?_, ?_⟩
    · simp [stepsLeft, SamplingPc.stepsLeft, hthread, hsender]
    · simp [SamplingPc.tracesLeft, hthread, SamplingAction.traces]
  | opened hcaller | refused hcaller | received hcaller | ended hcaller | dropsSampler hcaller =>
    exact absurd (by rw [hcaller]; trivial) hnot
  | joined hcaller hthread =>
    refine ⟨.inr (.inl rfl), ?_, by simp [SamplingAction.traces]⟩
    simp only [stepsLeft, CallerPc.stepsLeft, hcaller]
    omega
  | joinPanics hcaller hthread =>
    refine ⟨.inr (.inr rfl), ?_, by simp [SamplingAction.traces]⟩
    simp only [stepsLeft, CallerPc.stepsLeft, hcaller]
    omega

theorem Dropped.stepsLeft_le (h : s.Dropped) (hinv : s.Inv lower native pid config) : s.stepsLeft ≤ 5 := by
  have hcaller : s.caller.stepsLeft ≤ 1 := by
    cases s.caller with
    | dropping => exact le_rfl
    | _ => exact Nat.zero_le 1
  unfold stepsLeft
  cases hthread : s.thread with
  | starting => exact absurd (by rw [(hinv.handshake.starting hthread).1]; trivial) h.not_listens
  | returning panic =>
    simp only [SamplingPc.stepsLeft]
    split <;> omega
  | _ =>
    simp only [SamplingPc.stepsLeft]
    omega

/-- From wherever the sampler is dropped, whatever the thread meets: it takes one more sample at most, the drop
is over after five steps at most, and it panics only where the spy or the timer has. -/
theorem drop_returns
    (hrun : Runs.run (SingleSampler.step lower native pid config) SingleSampler.start actions = some s)
    (hdropped : s.Dropped) {more : List SamplingAction}
    (hmore : Runs.run (SingleSampler.step lower native pid config) s more = some s') :
    more.length ≤ 5 ∧ (more.map SamplingAction.traces).sum ≤ 1 ∧
      (s'.caller = .dropping → ∀ turn visit exited, ∃ a ∈ [.wait turn, .trace visit exited, .dropEnd, .join],
        ∃ t, s'.step lower native pid config a = some t) ∧
      (s'.caller ≠ .dropping → s'.thread = .finished none ∧ s'.caller = .dropped ∨
        ∃ cause, s'.thread = .finished (some (.panic cause)) ∧ s'.caller = .panicked) := by
  have hinv := Inv.run hrun
  have hstep : ∀ {t t' : SingleSampler} {a : SamplingAction}, (t.Dropped ∧ t.Inv lower native pid config) →
      t.step lower native pid config a = some t' → t'.Dropped ∧ t'.Inv lower native pid config :=
    fun ht hstep => ⟨(ht.1.step ht.2 hstep).1, ht.2.step hstep⟩
  have hsteps := Runs.run_weight_le (fun _ => 1) stepsLeft
    (fun ht h => ⟨hstep ht h, (ht.1.step ht.2 h).2.1⟩) hmore ⟨hdropped, hinv⟩
  have htraces := Runs.run_weight_le SamplingAction.traces (fun t => t.thread.tracesLeft)
    (fun ht h => ⟨hstep ht h, (ht.1.step ht.2 h).2.2⟩) hmore ⟨hdropped, hinv⟩
  obtain ⟨hlast, hlastInv⟩ := Runs.run_invariant hstep hmore ⟨hdropped, hinv⟩
  have hfive := hdropped.stepsLeft_le hinv
  have hone : s.thread.tracesLeft ≤ 1 := by cases s.thread <;> simp [SamplingPc.tracesLeft]
  have hlength : (more.map fun _ => 1).sum = more.length := by simp
  refine ⟨by omega, by omega, fun hdropping turn visit exited => ?_, fun hpast => ?_⟩
  · by_cases hfinished : ∃ panic, s'.thread = .finished panic
    · obtain ⟨panic, hthread⟩ := hfinished
      refine ⟨.join, by simp, ?_⟩
      cases panic <;> simp [SingleSampler.step, hdropping, hthread]
    · have hstarting : s'.thread ≠ .starting := fun hthread =>
        hlast.not_listens (by rw [(hlastInv.handshake.starting hthread).1]; trivial)
      obtain ⟨a, ha, hnext⟩ := attached_goes_on lower native pid config hstarting
        (fun panic h => hfinished ⟨panic, h⟩) turn visit exited
      exact ⟨a, List.mem_append_left [SamplingAction.join] ha, hnext⟩
  · rcases hlast with hdropping | hdone | hpanicked
    · exact absurd hdropping hpast
    · exact .inl ⟨hlastInv.finish.dropped hdone, hdone⟩
    · obtain ⟨panic, hthread⟩ := hlastInv.finish.panicked hpanicked
      obtain ⟨cause, rfl⟩ := hlastInv.loop.panic panic (by rw [hthread]; rfl)
      exact .inr ⟨cause, hthread, hpanicked⟩

theorem drop_returns_zoneSpy :
    let more := [.wait ⟨100, 500⟩, .trace (SmalltalkSpy.zoneVisit []) false, .dropEnd, .dropEnd, .join]
    ∃ s s', Runs.run zoneStep SingleSampler.start (zoneActions ++ [.dropSampler]) = some s ∧
      Runs.run zoneStep s more = some s' ∧ more.length ≤ 5 ∧ (more.map SamplingAction.traces).sum ≤ 1 ∧
      (s'.caller = .dropping → ∀ turn visit exited, ∃ a ∈ [.wait turn, .trace visit exited, .dropEnd, .join],
        ∃ t, zoneStep s' a = some t) ∧
      (s'.caller ≠ .dropping → s'.thread = .finished none ∧ s'.caller = .dropped ∨
        ∃ cause, s'.thread = .finished (some (.panic cause)) ∧ s'.caller = .panicked) :=
  have hrun : ∃ s s', Runs.run zoneStep SingleSampler.start (zoneActions ++ [.dropSampler]) = some s ∧
      s.caller = .dropping ∧ Runs.run zoneStep s
        [.wait ⟨100, 500⟩, .trace (SmalltalkSpy.zoneVisit []) false, .dropEnd, .dropEnd, .join] = some s' :=
    ⟨_, _, rfl, rfl, rfl⟩
  let ⟨s, s', hs, hdropping, hmore⟩ := hrun
  ⟨s, s', hs, hmore, drop_returns hs (.inl hdropping) hmore⟩

end SingleSampler

end StSpy
