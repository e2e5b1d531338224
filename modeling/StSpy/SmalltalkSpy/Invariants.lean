import StSpy.SmalltalkSpy.Samples
import StSpy.PauseTiming.Exact

/-!
# What holds of every sample

Whatever the target's memory holds from one sample to the next, and however samples
fail: `Inv` is what every reachable spy knows of its own caches and tables, and
`WellFormed` is what every trace it gives looks like.
-/

namespace StSpy

open Symbolizer

variable {files : Filenames} {s : Symbolizer} {M : Memory}

/-! ## Frames -/

/-- The frame has the short filename of its file. -/
def Frame.Short (fullFilenames : Bool) (frame : Frame) : Prop :=
  frame.shortFilename = shortOf fullFilenames frame.filename

/-- What the passes need and keep. -/
structure PassInv (fullFilenames : Bool) (files : Filenames) (s : Symbolizer) : Prop where
  right : files.Right
  full : files.fullFilenames = fullFilenames
  symbolizer : s.Inv

variable {fullFilenames : Bool}

theorem PassInv.nameFrame (h : PassInv fullFilenames files s) (M : Memory) (frame : Frame) :
    (nameFrame M files s frame).1.Short fullFilenames ∧
      PassInv fullFilenames (nameFrame M files s frame).2.1 (nameFrame M files s frame).2.2 := by
  have hshort : ∀ filename, (files.shorten filename).1 = shortOf fullFilenames filename ∧
      ∀ next : Symbolizer, next.Inv → PassInv fullFilenames (files.shorten filename).2 next := by
    intro filename
    obtain ⟨hname, hright, hfull⟩ := Filenames.shorten_right h.right filename
    rw [h.full] at hname hfull
    exact ⟨hname, fun next hnext => ⟨hright, hfull, hnext⟩⟩
  unfold StSpy.nameFrame Frame.Short
  by_cases hunknown : frame.filename = "?"
  · simp only [if_pos hunknown]
    cases parseHexAddress frame.name with
    | none => exact ⟨(hshort _).1, (hshort _).2 s h.symbolizer⟩
    | some addr =>
      have hresolved : (s.resolveJitPc M addr).2.Inv := h.symbolizer.resolve (M, addr)
      cases hname : (s.resolveJitPc M addr).1 with
      | none =>
        simp only [hname]
        exact ⟨(hshort _).1, (hshort _).2 _ hresolved⟩
      | some name =>
        simp only [hname]
        exact ⟨(hshort _).1, (hshort _).2 _ hresolved⟩
  · simp only [if_neg hunknown]
    exact ⟨(hshort _).1, (hshort _).2 s h.symbolizer⟩

theorem PassInv.nameFrames (h : PassInv fullFilenames files s) (M : Memory) (frames : List Frame) :
    (∀ frame ∈ (nameFrames M files s frames).1, frame.Short fullFilenames) ∧
      PassInv fullFilenames (nameFrames M files s frames).2.1 (nameFrames M files s frames).2.2 := by
  induction frames generalizing files s with
  | nil => exact ⟨(fun _ h => nomatch h), h⟩
  | cons frame frames ih =>
    obtain ⟨hframe, hnext⟩ := h.nameFrame M frame
    obtain ⟨hframes, hlast⟩ := ih hnext
    exact ⟨List.forall_mem_cons.mpr ⟨hframe, hframes⟩, hlast⟩

/-- The frames that are spliced in have the short name of their file, too. -/
theorem PassInv.stitch (h : PassInv fullFilenames files s) {frames : List Frame}
    (hframes : ∀ frame ∈ frames, frame.Short fullFilenames) (cogFrames : List String) :
    (∀ frame ∈ (stitch files frames cogFrames).1, frame.Short fullFilenames) ∧
      PassInv fullFilenames (stitch files frames cogFrames).2 s := by
  obtain ⟨hshort, hright, hfull⟩ := Filenames.shorten_right h.right "Smalltalk"
  rw [h.full] at hshort hfull
  have hcog : ∀ name, (cogFrame (files.shorten "Smalltalk").1 name).Short fullFilenames := fun _ => hshort
  unfold StSpy.stitch
  split
  · exact ⟨hframes, h⟩
  · split
    · exact ⟨hframes, h⟩
    · refine ⟨fun frame hframe => ?_, hright, hfull, h.symbolizer⟩
      simp only [spliceCogFrames, List.mem_append, List.mem_map, List.mem_singleton] at hframe
      rcases hframe with (hframe | ⟨name, -, rfl⟩) | rfl
      · exact hframes frame (List.mem_of_mem_take hframe)
      · exact hcog name
      · exact hcog _

theorem PassInv.threadFrames (h : PassInv fullFilenames files s) (hideNativeRoots : Bool) (M : Memory)
    (cogFrames : List String) (frames : List Frame) :
    let result := threadFrames hideNativeRoots M cogFrames files s frames
    (∀ frame ∈ result.1, frame.Short fullFilenames) ∧ PassInv fullFilenames result.2.1 result.2.2 := by
  obtain ⟨hnamed, hnext⟩ := h.nameFrames M frames
  obtain ⟨hstitched, hlast⟩ := hnext.stitch hnamed cogFrames
  refine ⟨fun frame hframe => hstitched frame ?_, hlast⟩
  unfold StSpy.threadFrames at hframe
  cases hideNativeRoots with
  | false => exact hframe
  | true =>
    refine List.IsPrefix.subset ?_ hframe
    exact trim_prefix _

/-! ## The native stack -/

namespace NativeStack

/-- The cache stays within its size, and the modules are never long unscanned. -/
structure Inv (ns : NativeStack) : Prop where
  cache : Lru.Bounded symbolCacheCapacity ns.symbolCache
  captures : ns.capturesSinceReload < framehopRefreshInterval

variable {ns : NativeStack}

theorem Inv.symbolizeAddress (h : ns.Inv) (lookups : Lookups) (addr : UInt64) :
    (ns.symbolizeAddress lookups addr).2.Inv := by
  have hget := h.cache.get addr
  unfold NativeStack.symbolizeAddress
  split
  · rename_i frame symbolCache hfound
    rw [hfound] at hget
    exact ⟨hget, h.captures⟩
  · refine ⟨?_, h.captures⟩
    unfold symbolicate
    dsimp only
    split
    · exact h.cache.put addr _
    · exact h.cache

theorem Inv.symbolizeAddresses (h : ns.Inv) (lookups : Lookups) (addrs : List UInt64) :
    (symbolizeAddresses lookups ns addrs).2.Inv := by
  induction addrs generalizing ns with
  | nil => exact h
  | cons addr addrs ih => exact ih (h.symbolizeAddress lookups addr)

theorem Inv.resolve (h : ns.Inv) (lookups : Lookups) (reloaded : Symbolicator) (addrs : List UInt64) :
    (ns.resolve lookups reloaded addrs).2.Inv := by
  refine Inv.symbolizeAddresses ?_ lookups addrs
  unfold reload
  split
  · exact ⟨h.cache, h.captures⟩
  · exact h

theorem Inv.captureThread (h : ns.Inv) (kind : UnwinderKind) (M : Memory) (answers : ThreadAnswers) :
    (ns.captureThread kind M answers).2.Inv := by
  have hpositive : 0 < framehopRefreshInterval := by decide
  cases kind with
  | framehop =>
    unfold NativeStack.captureThread capture refreshBackend
    dsimp only
    split
    · exact ⟨h.cache, hpositive⟩
    · rename_i hbelow
      exact ⟨h.cache, not_le.mp hbelow⟩
  | libunwind =>
    unfold NativeStack.captureThread countCapture
    dsimp only
    split
    · exact ⟨h.cache, hpositive⟩
    · rename_i hbelow
      exact ⟨h.cache, not_le.mp hbelow⟩

end NativeStack

/-! ## The threads -/

/-- The last entry for a thread that says whether it is active. -/
def lastActivity (listed : List (Except String Tid × Option Bool)) (tid : Tid) : Option Bool :=
  (listed.reverse.filterMap fun
    | (.ok other, some active) => if other = tid then some active else none
    | _ => none).head?

theorem threadActivity_eq {noted activity : Tid → Option Bool} {listed : List (Except String Tid × Option Bool)}
    (h : threadActivity noted listed = .ok activity) (tid : Tid) :
    activity tid = (lastActivity listed tid).or (noted tid) := by
  induction listed generalizing noted with
  | nil =>
    cases h
    rfl
  | cons thread threads ih =>
    obtain ⟨id, state⟩ := thread
    have hlast : ∀ entry, lastActivity (entry :: threads) tid =
        (lastActivity threads tid).or (lastActivity [entry] tid) := by
      intro entry
      simp only [lastActivity, List.reverse_cons, List.filterMap_append, List.head?_append, List.reverse_nil,
        List.nil_append]
    cases id with
    | error e => cases h
    | ok other =>
      cases state with
      | none =>
        rw [threadActivity] at h
        rw [ih h, hlast, Option.or_assoc]
        rfl
      | some active =>
        rw [threadActivity] at h
        rw [ih h, hlast, Option.or_assoc]
        by_cases hother : tid = other
        · simp [lastActivity, hother]
        · have hne : ¬other = tid := fun heq => hother heq.symm
          simp [lastActivity, hother, hne]

/-- The threads that are captured, and whether they are said to be active. -/
def sampledThreads (listed : List (Except String Tid × Option Bool)) (threads : List (Option Tid × ThreadAnswers)) :
    List (Tid × Bool) :=
  (threads.filterMap Prod.fst).map fun tid => (tid, (lastActivity listed tid).getD true)

theorem captureThreads_inv (kind : UnwinderKind) (M : Memory) (activity : Tid → Option Bool) {ns : NativeStack}
    (h : ns.Inv) (threads : List (Option Tid × ThreadAnswers)) :
    (captureThreads kind M activity ns threads).2.Inv ∧
      ∀ captures, (captureThreads kind M activity ns threads).1 = .ok captures →
        captures.map (fun c => (c.tid, c.active)) =
          (threads.filterMap Prod.fst).map fun tid => (tid, (activity tid).getD true) := by
  induction threads generalizing ns with
  | nil =>
    refine ⟨h, fun captures hcaptures => ?_⟩
    cases hcaptures
    rfl
  | cons thread threads ih =>
    obtain ⟨tid, answers⟩ := thread
    cases tid with
    | none => exact ih h
    | some tid =>
      have hone := h.captureThread kind M answers
      rw [captureThreads]
      split
      · rename_i next heq
        rw [heq] at hone
        refine ⟨hone, fun captures hcaptures => ?_⟩
        cases hcaptures
      · rename_i capture next heq
        rw [heq] at hone
        obtain ⟨hlast, hrest⟩ := ih hone
        refine ⟨hlast, fun captures hcaptures => ?_⟩
        change (captureThreads kind M activity next threads).1.map _ = _ at hcaptures
        cases hothers : (captureThreads kind M activity next threads).1 with
        | error e =>
          rw [hothers] at hcaptures
          cases hcaptures
        | ok others =>
          rw [hothers] at hcaptures
          cases hcaptures
          exact congrArg (_ :: ·) (hrest others hothers)

namespace SmalltalkSpy

variable {spy : SmalltalkSpy} {native : Native} {visit : Visit}

/-! ## The spy -/

/-- What every reachable spy knows of its own state. -/
structure Inv (spy : SmalltalkSpy) : Prop where
  symbolizer : spy.symbolizer.Inv
  native : spy.native.Inv
  files : spy.files.Right

/-- A trace of the process with this pid. -/
structure WellFormed (pid : Pid) (config : SpyConfig) (trace : StackTrace) : Prop where
  pid_eq : trace.pid = pid
  thread : trace.osThreadId = some trace.threadId
  unnamed : trace.threadName = none
  processInfo : trace.processInfo = none
  frames : ∀ frame ∈ trace.frames, frame.Short config.fullFilenames

/-- The thread of a trace, and whether it was active. -/
def threadOf (trace : StackTrace) : UInt64 × Bool := (trace.threadId, trace.active)

theorem Inv.resolveThread (h : spy.Inv) (native : Native) (M : Memory) (reloaded : Symbolicator)
    (cogFrames : List String) (captured : Captured) :
    let resolved := spy.resolveThread native M reloaded cogFrames captured
    resolved.2.Inv ∧ resolved.2.pid = spy.pid ∧ resolved.2.config = spy.config ∧
      WellFormed spy.pid spy.config resolved.1 ∧
      threadOf resolved.1 = (captured.tid.toThreadId, captured.active) := by
  have hnative := h.native.resolve native.lookups reloaded
    (spy.native.addressesOf spy.config.unwinder native.unwind captured.capture)
  have hpasses : PassInv spy.config.fullFilenames spy.files spy.symbolizer := ⟨h.files, rfl, h.symbolizer⟩
  obtain ⟨hframes, hnext⟩ := hpasses.threadFrames spy.config.hideNativeRoots M cogFrames
    (spy.native.resolve native.lookups reloaded
      (spy.native.addressesOf spy.config.unwinder native.unwind captured.capture)).1
  exact ⟨⟨hnext.symbolizer, hnative, hnext.right⟩, rfl, rfl, ⟨rfl, rfl, rfl, rfl, hframes⟩, rfl⟩

theorem Inv.resolveThreads (h : spy.Inv) (native : Native) (visit : Visit) (cogFrames : List String) (n : Nat)
    (captures : List Captured) :
    let resolved := resolveThreads native visit cogFrames spy n captures
    resolved.2.Inv ∧ resolved.2.pid = spy.pid ∧ resolved.2.config = spy.config ∧
      resolved.2.timing = spy.timing ∧ (∀ trace ∈ resolved.1, WellFormed spy.pid spy.config trace) ∧
      resolved.1.map threadOf = captures.map fun c => (c.tid.toThreadId, c.active) := by
  induction captures generalizing spy n with
  | nil => exact ⟨h, rfl, rfl, rfl, (fun _ h => nomatch h), rfl⟩
  | cons captured captures ih =>
    obtain ⟨hnext, hpid, hconfig, htrace, hthread⟩ :=
      h.resolveThread native (visit.later n) (visit.reloaded n) cogFrames captured
    obtain ⟨hlast, hlastPid, hlastConfig, htiming, htraces, hthreads⟩ := ih hnext (n + 1)
    rw [hpid, hconfig] at htraces
    refine ⟨hlast, hlastPid.trans hpid, hlastConfig.trans hconfig, htiming.trans rfl,
      List.forall_mem_cons.mpr ⟨htrace, htraces⟩, ?_⟩
    exact congr (congrArg List.cons hthread) hthreads

/-- A record that succeeds counts one sample. -/
theorem record_samples {timing next : PauseTiming} {m : Measured} {report : Option PauseReport}
    (h : timing.record m = .ok (next, report)) : next.samples = timing.samples + 1 := by
  obtain ⟨tallied, htally, h⟩ := Errors.bind_eq_ok h
  have hadded := (PauseTiming.added_of_tally htally).samples
  split at h
  · obtain ⟨_, -, h⟩ := Errors.bind_eq_ok h
    cases h
    exact hadded
  · cases h
    exact hadded

/-- What a sample says, if it succeeds. -/
structure Sound (spy : SmalltalkSpy) (visit : Visit) (traces : List StackTrace) (next : SmalltalkSpy) : Prop where
  counted : next.timing.samples = spy.timing.samples + 1
  shape : ∀ trace ∈ traces, WellFormed spy.pid spy.config trace
  threads : ∃ listed threads, visit.listed = .ok listed ∧ visit.threads = .ok threads ∧
    traces.map threadOf = (sampledThreads listed threads).map fun thread => (thread.1.toThreadId, thread.2)

theorem Inv.finishSample (h : spy.Inv) (native : Native) (visit : Visit) (captures : List Captured) :
    let finished := spy.finishSample native visit captures
    finished.2.Inv ∧ finished.2.pid = spy.pid ∧ finished.2.config = spy.config ∧
      (∀ e, finished.1 = .error e → finished.2.timing = spy.timing) ∧
      ∀ traces, finished.1 = .ok traces → finished.2.timing.samples = spy.timing.samples + 1 ∧
        (∀ trace ∈ traces, WellFormed spy.pid spy.config trace) ∧
        traces.map threadOf = captures.map fun c => (c.tid.toThreadId, c.active) := by
  have hwalked : (spy.symbolizer.walkCogFrames visit.frozen).2.Inv := by
    rw [walkCogFrames_state]
    exact h.symbolizer.runResolves _
  have hafter : Inv { spy with symbolizer := (spy.symbolizer.walkCogFrames visit.frozen).2 } :=
    ⟨hwalked, h.native, h.files⟩
  obtain ⟨hlast, hpid, hconfig, htiming, htraces, hthreads⟩ :=
    hafter.resolveThreads native visit (spy.symbolizer.walkCogFrames visit.frozen).1 0 captures
  unfold SmalltalkSpy.finishSample
  dsimp only
  split
  · exact ⟨hlast, hpid, hconfig, fun _ _ => htiming, fun _ h => nomatch h⟩
  · split
    · exact ⟨hlast, hpid, hconfig, fun _ _ => htiming, fun _ h => nomatch h⟩
    · rename_i hrecord
      refine ⟨⟨hlast.symbolizer, hlast.native, hlast.files⟩, hpid, hconfig, (fun _ h => nomatch h), fun traces h => ?_⟩
      cases h
      have hcount := record_samples hrecord
      rw [htiming] at hcount
      exact ⟨hcount, htraces, hthreads⟩

theorem Inv.getStackTraces (h : spy.Inv) (native : Native) (visit : Visit) :
    let sampled := spy.getStackTraces native visit
    sampled.2.Inv ∧ sampled.2.pid = spy.pid ∧ sampled.2.config = spy.config ∧
      (∀ e, sampled.1 = .error e → sampled.2.timing = spy.timing) ∧
      ∀ traces, sampled.1 = .ok traces → Sound spy visit traces sampled.2 := by
  have hcases := spy.getStackTraces_cases native visit
  generalize spy.getStackTraces native visit = sampled at hcases
  cases hcases with
  | failed hns =>
    obtain ⟨activity, threads, rfl⟩ := hns
    have hnative := (captureThreads_inv spy.config.unwinder visit.frozen activity h.native threads).1
    exact ⟨⟨h.symbolizer, hnative, h.files⟩, rfl, rfl, (fun _ _ => rfl), fun _ h => nomatch h⟩
  | @finished captures ns hcaptured =>
    obtain ⟨listed, activity, threads, hlisted, hactivity, hthreads, heq⟩ := captured_eq_some hcaptured
    obtain ⟨hnative, hcaptures⟩ := captureThreads_inv spy.config.unwinder visit.frozen activity h.native threads
    rw [heq] at hnative hcaptures
    have hafter : Inv { spy with native := ns } := ⟨h.symbolizer, hnative, h.files⟩
    obtain ⟨hlast, hpid, hconfig, hfailed, hok⟩ := hafter.finishSample native visit captures
    refine ⟨hlast, hpid, hconfig, hfailed, fun traces htraces => ?_⟩
    obtain ⟨hcount, hshape, hof⟩ := hok traces htraces
    refine ⟨hcount, hshape, listed, threads, hlisted, hthreads, ?_⟩
    have hnoted : ∀ tid, activity tid = lastActivity listed tid := fun tid => by
      rw [threadActivity_eq hactivity, Option.or_none]
    have hmap := congrArg (List.map fun thread : Tid × Bool => (thread.1.toThreadId, thread.2)) (hcaptures captures rfl)
    rw [List.map_map] at hmap
    simp only [hnoted] at hmap
    exact hof.trans hmap

/-- How many of the samples succeed. -/
def successes (native : Native) : SmalltalkSpy → List Visit → Nat
  | _, [] => 0
  | spy, visit :: visits =>
    (if (spy.getStackTraces native visit).1.isOk then 1 else 0) +
      successes native (spy.getStackTraces native visit).2 visits

theorem Inv.run (h : spy.Inv) (native : Native) (visits : List Visit) :
    (spy.run native visits).Inv ∧ (spy.run native visits).pid = spy.pid ∧
      (spy.run native visits).config = spy.config ∧
      (spy.run native visits).timing.samples = spy.timing.samples + UInt64.ofNat (successes native spy visits) := by
  induction visits generalizing spy with
  | nil => exact ⟨h, rfl, rfl, (UInt64.add_zero _).symm⟩
  | cons visit visits ih =>
    obtain ⟨hnext, hpid, hconfig, hfailed, hok⟩ := h.getStackTraces native visit
    obtain ⟨hlast, hlastPid, hlastConfig, hcount⟩ := ih hnext
    refine ⟨hlast, hlastPid.trans hpid, hlastConfig.trans hconfig, hcount.trans ?_⟩
    rw [successes]
    cases hresult : (spy.getStackTraces native visit).1 with
    | error e =>
      rw [hfailed e hresult]
      simp [Except.isOk, Except.toBool]
    | ok traces =>
      rw [(hok traces hresult).counted]
      simp [Except.isOk, Except.toBool, UInt64.ofNat_add, UInt64.add_assoc]

theorem inv_new {lower : String → String} {pid : Pid} {config : SpyConfig} {attachment : Attachment}
    (h : new lower pid config attachment = .ok spy) :
    spy.Inv ∧ spy.pid = pid ∧ spy.config = config ∧ spy.timing.samples = 0 := by
  obtain ⟨hpid, hconfig, ⟨binary, hbinary⟩, hcache, hcaptures, hshort, htiming⟩ := new_fresh h
  refine ⟨⟨?_, ⟨⟨?_, ?_⟩, ?_⟩, ?_⟩, hpid, hconfig, by rw [htiming]⟩
  · rw [hbinary]
    exact .new _ _
  · rw [hcache]
    exact Nat.zero_le _
  · rw [hcache]
    exact List.nodup_nil
  · rw [hcaptures]
    decide
  · intro filename short hfound
    rw [SmalltalkSpy.files, hshort] at hfound
    cases hfound

/-- In every run against any target: the tables keep their invariants, the counter counts the samples that
succeeded, and a sample has one well-formed trace for each thread found under the lock, active as was last noted. -/
theorem samples_sound {lower : String → String} {pid : Pid} {config : SpyConfig} {attachment : Attachment}
    (hnew : new lower pid config attachment = .ok spy) (native : Native) (visits : List Visit) :
    (spy.run native visits).Inv ∧
      (spy.run native visits).timing.samples = UInt64.ofNat (successes native spy visits) ∧
      ∀ visit traces, ((spy.run native visits).getStackTraces native visit).1 = .ok traces →
        (∀ trace ∈ traces, WellFormed pid config trace) ∧
        ∃ listed threads, visit.listed = .ok listed ∧ visit.threads = .ok threads ∧
          traces.map threadOf = (sampledThreads listed threads).map fun thread => (thread.1.toThreadId, thread.2) := by
  obtain ⟨hinv, hpid, hconfig, hzero⟩ := inv_new hnew
  obtain ⟨hrun, hrunPid, hrunConfig, hcount⟩ := hinv.run native visits
  rw [hzero, UInt64.zero_add] at hcount
  refine ⟨hrun, hcount, fun visit traces htraces => ?_⟩
  have hsound := (hrun.getStackTraces native visit).2.2.2.2 traces htraces
  have hshape := hsound.shape
  rw [hrunPid, hrunConfig, hpid, hconfig] at hshape
  exact ⟨hshape, hsound.threads⟩

theorem samples_sound_zoneSpy :
    let spy := zoneSpy.run noNative [zoneVisit [0x1038]]
    spy.Inv ∧ spy.timing.samples = UInt64.ofNat (successes noNative zoneSpy [zoneVisit [0x1038]]) ∧
      ∀ visit traces, (spy.getStackTraces noNative visit).1 = .ok traces →
        (∀ trace ∈ traces, WellFormed 5 { unwinder := .libunwind } trace) ∧
        ∃ listed threads, visit.listed = .ok listed ∧ visit.threads = .ok threads ∧
          traces.map threadOf = (sampledThreads listed threads).map fun thread => (thread.1.toThreadId, thread.2) :=
  samples_sound new_zoneSpy noNative [zoneVisit [0x1038]]

/-! ## Attaching -/

section Retry

variable {lower : String → String} {pid : Pid} {config : SpyConfig}

/-- A spy that is connected is a new one that has taken one sample. -/
theorem connect_eq_ok {attempt : Attempt} (h : connect lower native pid config attempt = .ok spy) :
    ∃ fresh traces, new lower pid config attempt.attachment = .ok fresh ∧
      fresh.getStackTraces native attempt.visit = (.ok traces, spy) := by
  unfold connect at h
  split at h
  · cases h
  · rename_i fresh hfresh
    split at h
    · rename_i traces next hsampled
      cases h
      exact ⟨fresh, traces, hfresh, hsampled⟩
    · cases h

theorem connect_inv {attempt : Attempt} (h : connect lower native pid config attempt = .ok spy) :
    spy.Inv ∧ spy.pid = pid ∧ spy.config = config ∧ spy.timing.samples = 1 := by
  obtain ⟨fresh, traces, hfresh, hsampled⟩ := connect_eq_ok h
  obtain ⟨hinv, hpid, hconfig, hzero⟩ := inv_new hfresh
  obtain ⟨hnext, hnextPid, hnextConfig, -, hok⟩ := hinv.getStackTraces native attempt.visit
  rw [hsampled] at hnext hnextPid hnextConfig hok
  have hcount := (hok traces rfl).counted
  rw [hzero, UInt64.zero_add] at hcount
  exact ⟨hnext, hnextPid.trans hpid, hnextConfig.trans hconfig, hcount⟩

/-- An error that leads to another attempt if there may be one. -/
def Retried (outcome : Except SpyError SmalltalkSpy) : Prop := ∃ e, outcome = .error (.error e)

/-- The attempts from `retries` on fail up to the `k`-th, which decides or is the last one. -/
structure DecidedBy (lower : String → String) (native : Native) (pid : Pid) (config : SpyConfig) (allowed : Nat)
    (attempts : Nat → Attempt) (retries k : Nat) : Prop where
  le : retries ≤ k
  lt : k < allowed
  earlier : ∀ j, retries ≤ j → j < k → Retried (connect lower native pid config (attempts j))
  last : Retried (connect lower native pid config (attempts k)) → k + 1 = allowed

theorem retryLoop_decides (maxRetries : UInt64) (attempts : Nat → Attempt) {fuel : Nat} {retries : UInt64}
    (hfuel : fuel ≠ 0) (hmax : fuel + retries.toNat = max 1 maxRetries.toNat) :
    ∃ k, DecidedBy lower native pid config (max 1 maxRetries.toNat) attempts retries.toNat k ∧
      retryLoop lower native pid config maxRetries attempts fuel retries =
        some (connect lower native pid config (attempts k)) := by
  induction fuel generalizing retries with
  | zero => exact absurd rfl hfuel
  | succ fuel ih =>
    have hnow : (Retried (connect lower native pid config (attempts retries.toNat)) →
        retries.toNat + 1 = max 1 maxRetries.toNat) →
        DecidedBy lower native pid config (max 1 maxRetries.toNat) attempts retries.toNat retries.toNat :=
      fun hlast => ⟨le_rfl, by omega, fun j hle hlt => absurd hlt (by omega), hlast⟩
    cases hconnect : connect lower native pid config (attempts retries.toNat) with
    | ok spy =>
      rw [hconnect] at hnow
      exact ⟨retries.toNat, hnow (fun ⟨_, h⟩ => nomatch h), by rw [retryLoop, hconnect]⟩
    | error e =>
      cases e with
      | panic panic =>
        rw [hconnect] at hnow
        exact ⟨retries.toNat, hnow (fun ⟨_, h⟩ => nomatch h), by rw [retryLoop, hconnect]⟩
      | error e =>
        have hlimit := maxRetries.toNat_lt
        have hone : (retries + 1).toNat = retries.toNat + 1 := toNat_add_of_lt (by simp; omega)
        by_cases hlast : retries + 1 ≥ maxRetries
        · have hle := UInt64.le_iff_toNat_le.mp hlast
          refine ⟨retries.toNat, hnow fun _ => by omega, ?_⟩
          rw [retryLoop, hconnect]
          exact if_pos hlast
        · have hlt := UInt64.lt_iff_toNat_lt.mp (not_le.mp hlast)
          have hleft : fuel ≠ 0 := by omega
          have hsum : fuel + (retries + 1).toNat = max 1 maxRetries.toNat := by omega
          obtain ⟨k, hk, hloop⟩ := ih hleft hsum
          refine ⟨k, ⟨by have := hk.le; omega, hk.lt, fun j hj hlt' => ?_, hk.last⟩, ?_⟩
          · rcases Nat.eq_or_lt_of_le hj with rfl | hj
            · exact ⟨e, hconnect⟩
            · exact hk.earlier j (by omega) hlt'
          · rw [retryLoop, hconnect]
            exact (if_neg hlast).trans hloop

theorem retryNew_eq (lower : String → String) (native : Native) (pid : Pid) (config : SpyConfig)
    (maxRetries : UInt64) (attempts : Nat → Attempt) :
    ∃ k, DecidedBy lower native pid config (max 1 maxRetries.toNat) attempts 0 k ∧
      retryNew lower native pid config maxRetries attempts = some (connect lower native pid config (attempts k)) := by
  have hfuel : max 1 maxRetries.toNat ≠ 0 := by omega
  have hsum : max 1 maxRetries.toNat + (0 : UInt64).toNat = max 1 maxRetries.toNat := Nat.add_zero _
  exact retryLoop_decides maxRetries attempts hfuel hsum

/-- `retry_new` ends as its first attempt ends that does not fail with an error, or as its last one,
and a spy it returns is sound and has taken one sample. -/
theorem retryNew_decides (lower : String → String) (native : Native) (pid : Pid) (config : SpyConfig)
    (maxRetries : UInt64) (attempts : Nat → Attempt) :
    ∃ k, k < max 1 maxRetries.toNat ∧
      retryNew lower native pid config maxRetries attempts = some (connect lower native pid config (attempts k)) ∧
      (∀ j < k, Retried (connect lower native pid config (attempts j))) ∧
      (Retried (connect lower native pid config (attempts k)) → k + 1 = max 1 maxRetries.toNat) ∧
      ∀ spy, connect lower native pid config (attempts k) = .ok spy →
        spy.Inv ∧ spy.pid = pid ∧ spy.config = config ∧ spy.timing.samples = 1 := by
  obtain ⟨k, hk, hloop⟩ := retryNew_eq lower native pid config maxRetries attempts
  exact ⟨k, hk.lt, hloop, fun j hj => hk.earlier j (Nat.zero_le _) hj, hk.last, fun _ h => connect_inv h⟩

end Retry

end SmalltalkSpy

end StSpy
