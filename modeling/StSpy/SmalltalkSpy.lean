import StSpy.NativeStack.Backends
import StSpy.PauseTiming
import StSpy.SmalltalkProcessInfo
import StSpy.Stitch

/-!
# The spy

`SmalltalkSpy` attaches to a process and takes samples of its threads. A sample
captures every thread and walks the Cog frame chain while the target is suspended,
and resolves the captures afterwards, when it runs again. What the target and the
operating system answer in one sample is a `Visit`.
-/

namespace StSpy

open FramehopUnwind (Framehop StackSnapshot)

abbrev Tid := Int32

/-- `thread_id as u64`. -/
def Tid.toThreadId (tid : Tid) : UInt64 := tid.toInt64.toUInt64

/-- How a call fails. An error is given by its outermost context. -/
inductive SpyError where
  | error (message : String)
  | panic (panic : Panic)

/-- The durations of a sample, and what the clock says when they are recorded. -/
structure SampleTimes where
  lock : Duration
  underLock : Duration
  detach : Duration
  cog : Duration
  unwind : Duration
  firstReport : Instant
  firstStart : Instant
  asked : Instant
  windowEnd : Instant
  reported : Instant

/-- What is recorded; the pause adds up three durations. -/
def SampleTimes.measured (times : SampleTimes) : Except Panic Measured := do
  let pause ← (← times.lock.add times.underLock).add times.detach
  return {
    pause
    cog := times.cog
    lock := times.lock
    unwind := times.unwind
    detach := times.detach
    firstReport := times.firstReport
    firstStart := times.firstStart
    asked := times.asked
    windowEnd := times.windowEnd
    reported := times.reported }

/-- What one call of `get_stack_traces` meets. The memory of the suspended target
does not change; when the `n`-th capture is resolved the target runs again, and its
memory is `later n`. -/
structure Visit where
  /-- The threads, each with its id and whether it is active. -/
  listed : Except String (List (Except String Tid × Option Bool))
  lock : Except String Unit
  /-- The threads listed under the lock. -/
  threads : Except String (List (Option Tid × ThreadAnswers))
  frozen : Memory
  later : Nat → Memory
  reloaded : Nat → Symbolicator
  times : SampleTimes

structure SmalltalkSpy where
  pid : Pid
  vmVersion : String
  config : SpyConfig
  native : NativeStack
  symbolizer : Symbolizer
  shortFilenames : String → Option (Option String)
  timing : PauseTiming

/-! ## A sample -/

/-- The loop that notes which threads are active; the last entry for an id counts. -/
def threadActivity (noted : Tid → Option Bool) :
    List (Except String Tid × Option Bool) → Except String (Tid → Option Bool)
  | [] => .ok noted
  | (.error e, _) :: _ => .error e
  | (.ok _, none) :: threads => threadActivity noted threads
  | (.ok tid, some active) :: threads => threadActivity (Function.update noted tid (some active)) threads

/-- A thread that was captured. -/
structure Captured where
  tid : Tid
  active : Bool
  capture : ThreadCapture

/-- The loop over the threads under the lock. -/
def captureThreads (kind : UnwinderKind) (M : Memory) (activity : Tid → Option Bool) :
    NativeStack → List (Option Tid × ThreadAnswers) → Except String (List Captured) × NativeStack
  | ns, [] => (.ok [], ns)
  | ns, (none, _) :: threads => captureThreads kind M activity ns threads
  | ns, (some tid, answers) :: threads =>
    match ns.captureThread kind M answers with
    | (none, ns) => (.error ("Failed to capture thread " ++ toString tid), ns)
    | (some capture, ns) =>
      let (captures, ns) := captureThreads kind M activity ns threads
      (captures.map (⟨tid, (activity tid).getD true, capture⟩ :: ·), ns)

/-- What the framehop walk and the symbolicator's lookups give. -/
structure Native where
  lookups : Lookups
  unwind : Framehop → StackSnapshot → List UInt64

namespace SmalltalkSpy

variable (spy : SmalltalkSpy)

def files : Filenames := ⟨spy.config.fullFilenames, spy.shortFilenames⟩

/-- A capture's trace. -/
def resolveThread (native : Native) (M : Memory) (reloaded : Symbolicator) (cogFrames : List String)
    (captured : Captured) : StackTrace × SmalltalkSpy :=
  let (frames, ns) :=
    spy.native.resolveCapture spy.config.unwinder native.lookups native.unwind reloaded captured.capture
  let (frames, files, symbolizer) :=
    threadFrames spy.config.hideNativeRoots M cogFrames spy.files spy.symbolizer frames
  ({ pid := spy.pid
     threadId := captured.tid.toThreadId
     threadName := none
     osThreadId := some captured.tid.toThreadId
     active := captured.active
     frames
     processInfo := none },
   { spy with native := ns, symbolizer, shortFilenames := files.shortFilenames })

/-- The loop over the captures, from the `n`-th on. -/
def resolveThreads (native : Native) (visit : Visit) (cogFrames : List String) :
    SmalltalkSpy → Nat → List Captured → List StackTrace × SmalltalkSpy
  | spy, _, [] => ([], spy)
  | spy, n, captured :: captures =>
    let (trace, spy) := spy.resolveThread native (visit.later n) (visit.reloaded n) cogFrames captured
    let (traces, spy) := resolveThreads native visit cogFrames spy (n + 1) captures
    (trace :: traces, spy)

/-- What is done once the threads are captured. -/
def finishSample (native : Native) (visit : Visit) (captures : List Captured) :
    Except SpyError (List StackTrace) × SmalltalkSpy :=
  let (cogFrames, symbolizer) := spy.symbolizer.walkCogFrames visit.frozen
  let (traces, spy) := resolveThreads native visit cogFrames { spy with symbolizer } 0 captures
  match visit.times.measured with
  | .error panic => (.error (.panic panic), spy)
  | .ok measured =>
    match spy.timing.record measured with
    | .error panic => (.error (.panic panic), spy)
    | .ok (timing, _) => (.ok traces, { spy with timing })

def getStackTraces (native : Native) (visit : Visit) : Except SpyError (List StackTrace) × SmalltalkSpy :=
  match visit.listed with
  | .error e => (.error (.error e), spy)
  | .ok listed =>
    match threadActivity (fun _ => none) listed with
    | .error e => (.error (.error e), spy)
    | .ok activity =>
      match if spy.config.blocking = .lock then visit.lock else .ok () with
      | .error _ => (.error (.error "Failed to suspend process"), spy)
      | .ok () =>
        match visit.threads with
        | .error e => (.error (.error e), spy)
        | .ok threads =>
          match captureThreads spy.config.unwinder visit.frozen activity spy.native threads with
          | (.error e, ns) => (.error (.error e), { spy with native := ns })
          | (.ok captures, ns) => finishSample { spy with native := ns } native visit captures

/-! ## Attaching -/

/-- What attaching to a process meets: the process as it is opened, the mappings
that the symbolizer reads, and what the native unwinder starts from. -/
structure Attachment where
  process : Except String OpenProcess
  maps : List MapRange
  symbolicator : Except String Symbolicator
  /-- The first scan of framehop's modules. -/
  scan : FramehopUnwind.Call
  /-- The error of libunwind's unwinder. -/
  unwinder : Except String Unit

/-- `NativeStack::new`. -/
def newNative (kind : UnwinderKind) (attachment : Attachment) : Except String NativeStack :=
  match attachment.symbolicator with
  | .error e => .error e
  | .ok symbolicator =>
    match kind with
    | .framehop =>
      match attachment.scan.maps with
      | none => .error "failed to load modules for framehop unwinder"
      | some _ => .ok { backend := Framehop.empty.loadModules attachment.scan, symbolicator }
    | .libunwind => attachment.unwinder.map fun _ => { backend := .empty, symbolicator }

def new (lower : String → String) (pid : Pid) (config : SpyConfig) (attachment : Attachment) :
    Except String SmalltalkSpy :=
  match attachment.process with
  | .error _ => .error "Failed to open process - check if it is running."
  | .ok process =>
    match SmalltalkProcessInfo.new lower process with
    | .error e => .error e
    | .ok vmInfo =>
      match newNative config.unwinder attachment with
      | .error e => .error e
      | .ok native =>
        .ok
          { pid
            vmVersion := vmInfo.vmVersion
            config
            native
            symbolizer := Symbolizer.new attachment.maps vmInfo.binary
            shortFilenames := fun _ => none
            timing := {} }

/-- What an attempt to connect meets. -/
structure Attempt where
  attachment : Attachment
  visit : Visit

/-- The body of the loop of `retry_new`. A panic is not caught. -/
def connect (lower : String → String) (native : Native) (pid : Pid) (config : SpyConfig) (attempt : Attempt) :
    Except SpyError SmalltalkSpy :=
  match new lower pid config attempt.attachment with
  | .error e => .error (.error e)
  | .ok spy =>
    match spy.getStackTraces native attempt.visit with
    | (.ok _, spy) => .ok spy
    | (.error e, _) => .error e

/-- The loop, when `retries` attempts have failed; `fuel` are the ones allowed.
`attempts n` is what the `n`-th one meets. -/
def retryLoop (lower : String → String) (native : Native) (pid : Pid) (config : SpyConfig) (maxRetries : UInt64)
    (attempts : Nat → Attempt) : Nat → UInt64 → Option (Except SpyError SmalltalkSpy)
  | 0, _ => none
  | fuel + 1, retries =>
    match connect lower native pid config (attempts retries.toNat) with
    | .ok spy => some (.ok spy)
    | .error (.panic panic) => some (.error (.panic panic))
    | .error e =>
      let retries := retries + 1
      if retries ≥ maxRetries then some (.error e)
      else retryLoop lower native pid config maxRetries attempts fuel retries

/-- There are no more attempts than allowed, but at least one. -/
def retryNew (lower : String → String) (native : Native) (pid : Pid) (config : SpyConfig) (maxRetries : UInt64)
    (attempts : Nat → Attempt) : Option (Except SpyError SmalltalkSpy) :=
  retryLoop lower native pid config maxRetries attempts (max 1 maxRetries.toNat) 0

end SmalltalkSpy

end StSpy
