import StSpy.Lib.Channel
import StSpy.Lib.Runs
import StSpy.SmalltalkSpy.Invariants
import StSpy.Timer

/-!
# The sampler of one process

`new_sampler` starts a thread that attaches to the process and from then on sends a
sample whenever the timer lets it; the `Sampler` it returns receives them, and joins
the thread when it is dropped. One action is one call that the other side can see,
with what it meets, so a list of actions is an interleaving.
-/

namespace StSpy

/-- A panic of the spy or the timer, or that of `unwrap` on a message that could not be sent. -/
inductive ThreadPanic where
  | panic (panic : Panic)
  | sendError

/-- Where the sampling thread is: in `retry_new`, in the timer, in `get_stack_traces`,
dropping its ends of the channels, or over. -/
inductive SamplingPc where
  | starting
  | waiting (spy : SmalltalkSpy) (timer : Timer)
  | tracing (spy : SmalltalkSpy) (timer : Timer) (late : Option Nat)
  | returning (panic : Option ThreadPanic)
  | finished (panic : Option ThreadPanic)

/-- Where the caller is: in `new_sampler`, past its error, holding a sampler of this
version, in its `drop`, or past that. -/
inductive CallerPc where
  | initializing
  | failed
  | sampling (version : String)
  | dropping
  | dropped
  | panicked

structure SingleSampler where
  initializedChannel : Channel (Except SpyError String)
  sampleChannel : Channel Sample
  thread : SamplingPc
  caller : CallerPc
  /-- The spy that the loop starts with. -/
  started : Option SmalltalkSpy
  /-- The turns of the loop whose sample was sent. -/
  turns : List (Option Nat × Visit)
  sent : List Sample
  received : List Sample
  /-- `next` has returned `None`. -/
  ended : Bool

inductive SamplingAction where
  | retryNew (attempts : Nat → SmalltalkSpy.Attempt) (start : Instant)
  | wait (turn : Timer.Turn)
  /-- `exited`: whether the process is found gone after an error. -/
  | trace (visit : Visit) (exited : Bool)
  /-- The thread's next end of a channel is dropped. -/
  | dropEnd
  | recvInitialized
  | next
  | dropSampler
  | join

/-- `Result::err`. -/
def lateOf : Except Nat Nat → Option Nat
  | .ok _ => none
  | .error late => some late

/-- The sample that is sent for a result, unless the thread stops at it. -/
def sampleOf (spy : SmalltalkSpy) (late : Option Nat) : Except SpyError (List StackTrace) → Option Sample
  | .ok traces => some { traces, late }
  | .error (.error e) => some { traces := [], samplingErrors := some [(spy.pid, e)], late }
  | .error (.panic _) => none

/-- The samples of a loop that starts with `spy` and takes these turns. -/
def samplesOf (native : Native) : SmalltalkSpy → List (Option Nat × Visit) → List Sample
  | _, [] => []
  | spy, (late, visit) :: turns =>
    let sampled := spy.getStackTraces native visit
    (sampleOf sampled.2 late sampled.1).toList ++ samplesOf native sampled.2 turns

namespace SingleSampler

variable (lower : String → String) (native : Native) (pid : Pid) (config : SpyConfig)

def start : SingleSampler where
  initializedChannel := .new
  sampleChannel := .new
  thread := .starting
  caller := .initializing
  started := none
  turns := []
  sent := []
  received := []
  ended := false

/-- The end of the loop body. -/
def sendSample (s : SingleSampler) (spy : SmalltalkSpy) (timer : Timer) (turn : Option Nat × Visit) (sample : Sample) :
    SingleSampler :=
  match s.sampleChannel.send sample with
  | some sampleChannel =>
    { s with
      sampleChannel
      thread := .waiting spy timer
      turns := s.turns ++ [turn]
      sent := s.sent ++ [sample] }
  | none => { s with thread := .returning none }

def step (s : SingleSampler) : SamplingAction → Option SingleSampler
  | .retryNew attempts start =>
    match s.thread with
    | .starting =>
      match SmalltalkSpy.retryNew lower native pid config 20 attempts with
      | none => none
      | some (.ok spy) =>
        match s.initializedChannel.send (.ok spy.vmVersion) with
        | some initializedChannel =>
          some { s with initializedChannel, thread := .waiting spy (.new start), started := some spy }
        | none => some { s with thread := .returning none }
      | some (.error (.panic panic)) => some { s with thread := .returning (some (.panic panic)) }
      | some (.error e) =>
        match s.initializedChannel.send (.error e) with
        | some initializedChannel => some { s with initializedChannel, thread := .returning none }
        | none => some { s with thread := .returning (some .sendError) }
    | _ => none
  | .wait turn =>
    match s.thread with
    | .waiting spy timer =>
      match timer.next turn with
      | .ok (result, timer) => some { s with thread := .tracing spy timer (lateOf result) }
      | .error panic => some { s with thread := .returning (some (.panic panic)) }
    | _ => none
  | .trace visit exited =>
    match s.thread with
    | .tracing spy timer late =>
      match spy.getStackTraces native visit with
      | (.ok traces, spy) => some (s.sendSample spy timer (late, visit) { traces, late })
      | (.error (.panic panic), _) => some { s with thread := .returning (some (.panic panic)) }
      | (.error (.error e), spy) =>
        if exited then some { s with thread := .returning none }
        else some (s.sendSample spy timer (late, visit) { traces := [], samplingErrors := some [(spy.pid, e)], late })
    | _ => none
  | .dropEnd =>
    match s.thread with
    | .returning panic =>
      -- the closure has captured `initialized_tx` before `tx`
      if s.initializedChannel.sender then some { s with initializedChannel := s.initializedChannel.dropSender }
      else some { s with sampleChannel := s.sampleChannel.dropSender, thread := .finished panic }
    | _ => none
  | .recvInitialized =>
    match s.caller with
    | .initializing =>
      match s.initializedChannel.recv with
      | none => none
      | some (some (.ok version), channel) =>
        some { s with initializedChannel := channel.dropReceiver, caller := .sampling version }
      | some (_, channel) =>
        some { s with
          initializedChannel := channel.dropReceiver
          sampleChannel := s.sampleChannel.dropReceiver
          caller := .failed }
    | _ => none
  | .next =>
    match s.caller with
    | .sampling _ =>
      match s.sampleChannel.recv with
      | none => none
      | some (some sample, sampleChannel) => some { s with sampleChannel, received := s.received ++ [sample] }
      | some (none, sampleChannel) => some { s with sampleChannel, ended := true }
    | _ => none
  | .dropSampler =>
    match s.caller with
    | .sampling _ => some { s with sampleChannel := s.sampleChannel.dropReceiver, caller := .dropping }
    | _ => none
  | .join =>
    match s.caller, s.thread with
    | .dropping, .finished none => some { s with caller := .dropped }
    | .dropping, .finished (some _) => some { s with caller := .panicked }
    | _, _ => none

/-! ## Steps -/

/-- What a step does while the caller still listens to an attaching thread. -/
inductive Moves (s : SingleSampler) : SamplingAction → SingleSampler → Prop
  | attached {attempts : Nat → SmalltalkSpy.Attempt} {start : Instant} {spy : SmalltalkSpy}
      (hstarting : s.thread = .starting)
      (hspy : SmalltalkSpy.retryNew lower native pid config 20 attempts = some (.ok spy)) :
      Moves s (.retryNew attempts start)
        { s with
          initializedChannel := { s.initializedChannel with
            queue := s.initializedChannel.queue ++ [.ok spy.vmVersion] }
          thread := .waiting spy (.new start)
          started := some spy }
  | unattached {attempts : Nat → SmalltalkSpy.Attempt} {start : Instant} {e : String}
      (hstarting : s.thread = .starting) :
      Moves s (.retryNew attempts start)
        { s with
          initializedChannel := { s.initializedChannel with
            queue := s.initializedChannel.queue ++ [.error (.error e)] }
          thread := .returning none }
  | attachPanics {attempts : Nat → SmalltalkSpy.Attempt} {start : Instant} {panic : Panic}
      (hstarting : s.thread = .starting) :
      Moves s (.retryNew attempts start) { s with thread := .returning (some (.panic panic)) }
  | waited {turn : Timer.Turn} {spy : SmalltalkSpy} {timer after : Timer} {late : Option Nat}
      (hwaiting : s.thread = .waiting spy timer) :
      Moves s (.wait turn) { s with thread := .tracing spy after late }
  | timerPanics {turn : Timer.Turn} {spy : SmalltalkSpy} {timer : Timer} {panic : Panic}
      (hwaiting : s.thread = .waiting spy timer) :
      Moves s (.wait turn) { s with thread := .returning (some (.panic panic)) }
  | sent {visit : Visit} {exited : Bool} {spy : SmalltalkSpy} {timer : Timer} {late : Option Nat} {sample : Sample}
      (htracing : s.thread = .tracing spy timer late) (hreceiver : s.sampleChannel.receiver = true)
      (hsample : sampleOf (spy.getStackTraces native visit).2 late (spy.getStackTraces native visit).1 = some sample) :
      Moves s (.trace visit exited)
        { s with
          sampleChannel := { s.sampleChannel with queue := s.sampleChannel.queue ++ [sample] }
          thread := .waiting (spy.getStackTraces native visit).2 timer
          turns := s.turns ++ [(late, visit)]
          sent := s.sent ++ [sample] }
  | left {visit : Visit} {exited : Bool} {spy : SmalltalkSpy} {timer : Timer} {late : Option Nat}
      (htracing : s.thread = .tracing spy timer late) :
      Moves s (.trace visit exited) { s with thread := .returning none }
  | tracePanics {visit : Visit} {exited : Bool} {spy : SmalltalkSpy} {timer : Timer} {late : Option Nat} {panic : Panic}
      (htracing : s.thread = .tracing spy timer late) :
      Moves s (.trace visit exited) { s with thread := .returning (some (.panic panic)) }
  | dropsInitialized {panic : Option ThreadPanic} (hreturning : s.thread = .returning panic)
      (hsender : s.initializedChannel.sender = true) :
      Moves s .dropEnd { s with initializedChannel := s.initializedChannel.dropSender }
  | finishes {panic : Option ThreadPanic} (hreturning : s.thread = .returning panic)
      (hsender : s.initializedChannel.sender = false) :
      Moves s .dropEnd { s with sampleChannel := s.sampleChannel.dropSender, thread := .finished panic }
  | opened {version : String} {queue : List (Except SpyError String)} (hinitializing : s.caller = .initializing)
      (hqueue : s.initializedChannel.queue = .ok version :: queue) :
      Moves s .recvInitialized
        { s with initializedChannel := s.initializedChannel.dropReceiver, caller := .sampling version }
  | refused (hinitializing : s.caller = .initializing)
      (hqueue : (∃ e queue, s.initializedChannel.queue = .error e :: queue) ∨
        (s.initializedChannel.queue = [] ∧ s.initializedChannel.sender = false)) :
      Moves s .recvInitialized
        { s with
          initializedChannel := s.initializedChannel.dropReceiver
          sampleChannel := s.sampleChannel.dropReceiver
          caller := .failed }
  | received {version : String} {sample : Sample} {queue : List Sample} (hsampling : s.caller = .sampling version)
      (hqueue : s.sampleChannel.queue = sample :: queue) :
      Moves s .next { s with sampleChannel := { s.sampleChannel with queue }, received := s.received ++ [sample] }
  | ended {version : String} (hsampling : s.caller = .sampling version) (hqueue : s.sampleChannel.queue = [])
      (hsender : s.sampleChannel.sender = false) : Moves s .next { s with ended := true }
  | dropsSampler {version : String} (hsampling : s.caller = .sampling version) :
      Moves s .dropSampler { s with sampleChannel := s.sampleChannel.dropReceiver, caller := .dropping }
  | joined (hdropping : s.caller = .dropping) (hfinished : s.thread = .finished none) :
      Moves s .join { s with caller := .dropped }
  | joinPanics {panic : ThreadPanic} (hdropping : s.caller = .dropping) (hfinished : s.thread = .finished (some panic)) :
      Moves s .join { s with caller := .panicked }

variable {lower native pid config} {s s' : SingleSampler} {action : SamplingAction}

theorem sendSample_moves {visit : Visit} {exited : Bool} {spy : SmalltalkSpy} {timer : Timer} {late : Option Nat}
    {sample : Sample} (htracing : s.thread = .tracing spy timer late)
    (hsample : sampleOf (spy.getStackTraces native visit).2 late (spy.getStackTraces native visit).1 = some sample) :
    Moves lower native pid config s (.trace visit exited)
      (s.sendSample (spy.getStackTraces native visit).2 timer (late, visit) sample) := by
  unfold sendSample
  cases hsend : s.sampleChannel.send sample with
  | none => exact .left htracing
  | some channel =>
    obtain ⟨hreceiver, rfl⟩ := Channel.send_eq_some hsend
    exact .sent htracing hreceiver hsample

theorem step_moves (hlistening : s.thread = .starting → s.initializedChannel.receiver = true)
    (hstep : s.step lower native pid config action = some s') :
    Moves lower native pid config s action s' := by
  cases action with
  | retryNew attempts start =>
    cases hthread : s.thread with
    | starting =>
      have hsend : ∀ message, s.initializedChannel.send message =
          some { s.initializedChannel with queue := s.initializedChannel.queue ++ [message] } :=
        fun message => if_pos (hlistening hthread)
      simp only [step, hthread, hsend] at hstep
      split at hstep
      · cases hstep
      · rename_i spy hspy
        cases hstep
        exact .attached hthread hspy
      · cases hstep
        exact .attachPanics hthread
      · rename_i e hpanic hfailed
        cases e with
        | error e =>
          cases hstep
          exact .unattached hthread
        | panic panic => exact (hpanic panic rfl).elim
    | _ => simp [step, hthread] at hstep
  | wait turn =>
    cases hthread : s.thread with
    | waiting spy timer =>
      simp only [step, hthread] at hstep
      split at hstep
      · cases hstep
        exact .waited hthread
      · cases hstep
        exact .timerPanics hthread
    | _ => simp [step, hthread] at hstep
  | trace visit exited =>
    cases hthread : s.thread with
    | tracing spy timer late =>
      simp only [step, hthread] at hstep
      split at hstep
      · rename_i traces after hresult
        cases hstep
        have hsample : sampleOf (spy.getStackTraces native visit).2 late (spy.getStackTraces native visit).1 =
            some { traces, late } := by rw [hresult]; rfl
        have hmoves : Moves lower native pid config s (.trace visit exited) _ := sendSample_moves hthread hsample
        rwa [hresult] at hmoves
      · cases hstep
        exact .tracePanics hthread
      · rename_i e after hresult
        split at hstep
        · cases hstep
          exact .left hthread
        · cases hstep
          have hsample : sampleOf (spy.getStackTraces native visit).2 late (spy.getStackTraces native visit).1 =
              some { traces := [], samplingErrors := some [(after.pid, e)], late } := by rw [hresult]; rfl
          have hmoves : Moves lower native pid config s (.trace visit exited) _ := sendSample_moves hthread hsample
          rwa [hresult] at hmoves
    | _ => simp [step, hthread] at hstep
  | dropEnd =>
    cases hthread : s.thread with
    | returning panic =>
      simp only [step, hthread] at hstep
      split at hstep
      · rename_i hsender
        cases hstep
        rw [← hthread]
        exact .dropsInitialized hthread hsender
      · rename_i hsender
        cases hstep
        exact .finishes hthread (Bool.eq_false_iff.mpr hsender)
    | _ => simp [step, hthread] at hstep
  | recvInitialized =>
    cases hcaller : s.caller with
    | initializing =>
      simp only [step, hcaller] at hstep
      split at hstep
      · cases hstep
      · rename_i version channel hrecv
        obtain ⟨hqueue, hchannel⟩ := Channel.recv_message hrecv
        cases hstep
        rw [hchannel]
        exact .opened hcaller hqueue
      · rename_i message channel hother hrecv
        cases hstep
        cases message with
        | none =>
          obtain ⟨hqueue, hsender, rfl⟩ := Channel.recv_disconnected hrecv
          exact .refused hcaller (.inr ⟨hqueue, hsender⟩)
        | some message =>
          obtain ⟨hqueue, hchannel⟩ := Channel.recv_message hrecv
          rw [hchannel]
          cases message with
          | error e => exact .refused hcaller (.inl ⟨e, _, hqueue⟩)
          | ok version => exact (hother version rfl).elim
    | _ => simp [step, hcaller] at hstep
  | next =>
    cases hcaller : s.caller with
    | sampling version =>
      simp only [step, hcaller] at hstep
      split at hstep
      · cases hstep
      · rename_i sample channel hrecv
        obtain ⟨hqueue, hchannel⟩ := Channel.recv_message hrecv
        cases hstep
        rw [hchannel, ← hcaller]
        exact .received hcaller hqueue
      · rename_i channel hrecv
        obtain ⟨hqueue, hsender, rfl⟩ := Channel.recv_disconnected hrecv
        cases hstep
        rw [← hcaller]
        exact .ended hcaller hqueue hsender
    | _ => simp [step, hcaller] at hstep
  | dropSampler =>
    cases hcaller : s.caller with
    | sampling version =>
      simp only [step, hcaller] at hstep
      cases hstep
      exact .dropsSampler hcaller
    | _ => simp [step, hcaller] at hstep
  | join =>
    cases hcaller : s.caller with
    | dropping =>
      cases hthread : s.thread with
      | finished panic =>
        cases panic with
        | none =>
          simp only [step, hcaller, hthread] at hstep
          cases hstep
          rw [← hthread]
          exact .joined hcaller hthread
        | some panic =>
          simp only [step, hcaller, hthread] at hstep
          cases hstep
          rw [← hthread]
          exact .joinPanics hcaller hthread
      | _ => simp [step, hcaller, hthread] at hstep
    | _ => simp [step, hcaller] at hstep

end SingleSampler

end StSpy
