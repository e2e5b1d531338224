import Mathlib.Data.List.AList
import StSpy.Lib.Channel
import StSpy.Lib.Runs
import StSpy.StackTrace

/-!
# The subprocess sampler

`new_subprocess_sampler` first discovers the VM processes, then runs a monitor
thread and a sampling thread over one mutex-guarded map of spies; each spy has a
worker thread at the far ends of its three channels. One action is one call that
another thread can see, so a list of actions is an interleaving.

Messages carry what those of the code do not: the number of the round they
belong to. `sent` and `collected` record what went through the sample channel.
-/

namespace StSpy

/-- Where a worker is: in `SmalltalkSpy::retry_new`, at the head of its loop,
between taking a notification and answering it, or on its way out. -/
inductive WorkerPc where
  | starting
  | waiting
  | tracing (round : Nat)
  | returning
  deriving DecidableEq

/-- A `SmalltalkSpyThread` over results of type `α` and its worker. Of an
initialization status only whether it is `Ok` is kept. -/
structure SpyThread (α : Type) where
  initializedChannel : Channel Bool
  notifyChannel : Channel Nat
  sampleChannel : Channel (Nat × α)
  initialized : Option Bool
  running : Bool
  notified : Bool
  parent : Option Pid
  commandLine : String
  worker : WorkerPc
  /-- What the worker has sent, by the round of the notification. -/
  sent : List (Nat × α)
  /-- What `collect` has returned, with the round of the call. -/
  collected : List (Nat × (Nat × α))

namespace SpyThread

variable {α : Type}

def new (parent : Option Pid) (commandLine : String) : SpyThread α where
  initializedChannel := .new
  notifyChannel := .new
  sampleChannel := .new
  initialized := none
  running := false
  notified := false
  parent := parent
  commandLine := commandLine
  worker := .starting
  sent := []
  collected := []

/-- `none` while it blocks. -/
def waitInitialized (spy : SpyThread α) : Option (Bool × SpyThread α) :=
  match spy.initializedChannel.recv with
  | none => none
  | some (some status, channel) =>
    some (status, { spy with initializedChannel := channel, running := status, initialized := some status })
  | some (none, channel) => some (false, { spy with initializedChannel := channel })

/-- The method `initialized`. -/
def isInitialized (spy : SpyThread α) : Bool × SpyThread α :=
  match spy.initialized with
  | some status => (status, spy)
  | none =>
    match spy.initializedChannel.tryRecv with
    | (.ok status, channel) =>
      (status, { spy with initializedChannel := channel, running := status, initialized := some status })
    | (.error _, channel) => (false, { spy with initializedChannel := channel })

def notify (round : Nat) (spy : SpyThread α) : SpyThread α :=
  match spy.notifyChannel.send round with
  | some channel => { spy with notifyChannel := channel, notified := true }
  | none => { spy with running := false }

/-- `none` while it blocks. -/
def collect (round : Nat) (spy : SpyThread α) : Option (Option α × SpyThread α) :=
  if spy.notified then
    match spy.sampleChannel.recv with
    | none => none
    | some (some sample, channel) =>
      some (some sample.2, { spy with
        sampleChannel := channel, notified := false, collected := spy.collected ++ [(round, sample)] })
    | some (none, channel) =>
      some (none, { spy with sampleChannel := channel, notified := false, running := false })
  else some (none, spy)

end SpyThread

inductive WorkerAction (α : Type) where
  /-- `retry_new` returns, with a spy or an error. -/
  | retryNew (ok : Bool)
  | receive
  | answer (result : α)
  /-- The process is found gone, or the worker panics. -/
  | quit
  /-- The next end of a channel is dropped. -/
  | drop

/-- The worker's closure. Its ends of the channels are dropped in the order in
which it captures them: `initialized_tx`, `notify_rx`, `sample_tx`. -/
def SpyThread.work {α : Type} (spy : SpyThread α) : WorkerAction α → Option (SpyThread α)
  | .retryNew ok =>
    match spy.worker with
    | .starting =>
      match spy.initializedChannel.send ok with
      | some channel =>
        some { spy with initializedChannel := channel, worker := if ok then .waiting else .returning }
      | none => some { spy with worker := .returning }
    | _ => none
  | .receive =>
    match spy.worker with
    | .waiting =>
      match spy.notifyChannel.recv with
      | none => none
      | some (some round, channel) => some { spy with notifyChannel := channel, worker := .tracing round }
      | some (none, channel) => some { spy with notifyChannel := channel, worker := .returning }
    | _ => none
  | .answer result =>
    match spy.worker with
    | .tracing round =>
      match spy.sampleChannel.send (round, result) with
      | some channel =>
        some { spy with sampleChannel := channel, worker := .waiting, sent := spy.sent ++ [(round, result)] }
      | none => some { spy with worker := .returning }
    | _ => none
  | .quit =>
    match spy.worker with
    | .starting | .tracing _ => some { spy with worker := .returning }
    | _ => none
  | .drop =>
    match spy.worker with
    | .returning =>
      if spy.initializedChannel.sender then
        some { spy with initializedChannel := spy.initializedChannel.dropSender }
      else if spy.notifyChannel.receiver then
        some { spy with notifyChannel := spy.notifyChannel.dropReceiver }
      else if spy.sampleChannel.sender then
        some { spy with sampleChannel := spy.sampleChannel.dropSender }
      else none
    | _ => none

/-- The spies by pid; `HashMap` iterates over them in any order. -/
abbrev Spies (α : Type) := AList fun _ : Pid => SpyThread α

/-- The discovery loop, before the threads are spawned. `children` are the pairs
of a pid and its parent still to be opened, `todo` the spies still to wait for. -/
inductive MainPc where
  | listing (retries : Nat)
  | opening (retries : Nat) (children : List (Pid × Pid))
  | waiting (retries : Nat) (todo : List Pid)
  | failed
  | sampling
  deriving DecidableEq

/-- The monitor thread; it holds the lock where it lists and opens. -/
inductive MonitorPc where
  | idle
  | listing
  | opening (children : List (Pid × Pid))
  | finished
  deriving DecidableEq

def MonitorPc.holdsLock : MonitorPc → Bool
  | .idle | .finished => false
  | .listing | .opening _ => true

/-- Why the sampling thread leaves its loop. -/
inductive Left where
  | receiverGone
  | allStopped
  deriving DecidableEq

/-- The sampling thread; it holds the lock from the first spy it asks to the
stop test. `todo` are the spies that the loop it is in has still to come to. -/
inductive SamplerPc where
  | idle
  | checking (todo : List Pid)
  | notifying (pid : Pid) (todo : List Pid)
  | collecting (todo : List Pid)
  | testing
  | finished (left : Left)
  deriving DecidableEq

def SamplerPc.holdsLock : SamplerPc → Bool
  | .idle | .finished _ => false
  | .checking _ | .notifying _ _ | .collecting _ | .testing => true

structure SamplerState (α : Type) where
  spies : Spies α
  main : MainPc
  monitor : MonitorPc
  sampler : SamplerPc
  poisoned : Bool
  /-- The receiver of the samples is live. -/
  receiver : Bool
  round : Nat
  /-- The results of the round, and those sent on, round by round. -/
  results : List (Pid × α)
  samples : List (List (Pid × α))

inductive MainAction where
  | childProcesses (answer : Option (List (Pid × Pid)))
  /-- `SmalltalkSpyThread::new` for the next child, with its command line. -/
  | create (commandLine : Option String)
  | await (order : List Pid)
  | waitInitialized
  | retry

inductive MonitorAction where
  | lock
  | childProcesses (answer : Option (List (Pid × Pid)))
  | create (commandLine : Option String)
  | unlock
  /-- The process is gone. -/
  | exit

inductive SamplerAction where
  | lock (order : List Pid)
  | check
  | notify
  | iterate (order : List Pid)
  | collect
  | send
  | test

inductive SamplerEvent (α : Type) where
  | worker (pid : Pid) (action : WorkerAction α)
  | main (action : MainAction)
  | monitor (action : MonitorAction)
  | sampler (action : SamplerAction)
  | dropReceiver

namespace SamplerState

variable {α : Type}

def start (pid : Pid) (commandLine : String) : SamplerState α where
  spies := AList.insert pid (.new none commandLine) ∅
  main := .listing 10
  monitor := .idle
  sampler := .idle
  poisoned := false
  receiver := true
  round := 0
  results := []
  samples := []

def mainStep (s : SamplerState α) (action : MainAction) : Option (SamplerState α) :=
  match s.main, action with
  | .listing _, .childProcesses none => some { s with main := .failed }
  | .listing retries, .childProcesses (some children) => some { s with main := .opening retries children }
  | .opening retries ((childpid, parentpid) :: children), .create (some commandLine) =>
    -- a spy of an earlier pass is replaced
    some { s with
      main := .opening retries children
      spies := s.spies.insert childpid (.new (some parentpid) commandLine) }
  | .opening retries (_ :: children), .create none => some { s with main := .opening retries children }
  | .opening retries [], .await order =>
    if order.Perm s.spies.keys then some { s with main := .waiting retries order } else none
  | .waiting retries (pid :: todo), .waitInitialized =>
    match s.spies.lookup pid with
    | none => none
    | some spy =>
      match spy.waitInitialized with
      | none => none
      | some (ok, spy) =>
        some { s with main := if ok then .sampling else .waiting retries todo, spies := s.spies.insert pid spy }
  | .waiting retries [], .retry =>
    some { s with main := if retries - 1 = 0 then .failed else .listing (retries - 1) }
  | _, _ => none

def monitorStep (s : SamplerState α) (action : MonitorAction) : Option (SamplerState α) :=
  if s.main = .sampling then
    match s.monitor, action with
    | .idle, .exit => some { s with monitor := .finished }
    | .idle, .lock =>
      if s.sampler.holdsLock then none
      else if s.poisoned then some s
      else some { s with monitor := .listing }
    -- the panic of `expect` poisons the lock
    | .listing, .childProcesses none => some { s with monitor := .finished, poisoned := true }
    | .listing, .childProcesses (some children) => some { s with monitor := .opening children }
    | .opening ((childpid, parentpid) :: children), .create commandLine =>
      if (s.spies.lookup childpid).isSome then some { s with monitor := .opening children }
      else
        match commandLine with
        | some commandLine =>
          some { s with
            monitor := .opening children
            spies := s.spies.insert childpid (.new (some parentpid) commandLine) }
        | none => some { s with monitor := .opening children }
    | .opening [], .unlock => some { s with monitor := .idle }
    | _, _ => none
  else none

/-- The stop test. -/
def allStopped (s : SamplerState α) : Bool :=
  s.spies.entries.isEmpty || s.spies.entries.all fun entry => !entry.2.running

def samplerStep (s : SamplerState α) (action : SamplerAction) : Option (SamplerState α) :=
  if s.main = .sampling then
    match s.sampler, action with
    | .idle, .lock order =>
      if s.monitor.holdsLock then none
      else if s.poisoned then some s
      else if order.Perm s.spies.keys then
        some { s with sampler := .checking order, round := s.round + 1, results := [] }
      else none
    | .checking (pid :: todo), .check =>
      match s.spies.lookup pid with
      | none => none
      | some spy =>
        let (ok, spy) := spy.isInitialized
        some { s with
          sampler := if ok then .notifying pid todo else .checking todo
          spies := s.spies.insert pid spy }
    | .notifying pid todo, .notify =>
      match s.spies.lookup pid with
      | none => none
      | some spy => some { s with sampler := .checking todo, spies := s.spies.insert pid (spy.notify s.round) }
    | .checking [], .iterate order =>
      if order.Perm s.spies.keys then some { s with sampler := .collecting order } else none
    | .collecting (pid :: todo), .collect =>
      match s.spies.lookup pid with
      | none => none
      | some spy =>
        match spy.collect s.round with
        | none => none
        | some (result, spy) =>
          some { s with
            sampler := .collecting todo
            spies := s.spies.insert pid spy
            results := s.results ++ (result.map fun r => (pid, r)).toList }
    | .collecting [], .send =>
      if s.receiver then some { s with sampler := .testing, samples := s.samples ++ [s.results] }
      else some { s with sampler := .finished .receiverGone }
    | .testing, .test => some { s with sampler := if s.allStopped then .finished .allStopped else .idle }
    | _, _ => none
  else none

def step (s : SamplerState α) : SamplerEvent α → Option (SamplerState α)
  | .worker pid action =>
    match s.spies.lookup pid with
    | none => none
    | some spy =>
      match spy.work action with
      | none => none
      | some spy => some { s with spies := s.spies.insert pid spy }
  | .main action => s.mainStep action
  | .monitor action => s.monitorStep action
  | .sampler action => s.samplerStep action
  | .dropReceiver => if s.main = .sampling then some { s with receiver := false } else none

end SamplerState

end StSpy
