import StSpy.SmalltalkSpy
import StSpy.Lib.Errors
import StSpy.NativeStack.Cache
import StSpy.Stitch.Roots
import StSpy.Symbolizer.Steady

/-!
# Samples of a steady target

Three caches outlive a sample: the names of JIT pcs, the native symbols and the
short filenames. While the target's modules and its method zone stay as they are,
they change nothing: every trace is what its own thread's addresses and the frame
chain of its own sample give, whatever was sampled before and whichever threads
were resolved first. Stacks and heap may change freely.
-/

namespace StSpy

open Symbolizer

/-! ## Short filenames -/

/-- `shorten_filename` without the cache. -/
def shortOf (fullFilenames : Bool) (filename : String) : Option String :=
  if fullFilenames then some filename else fileName filename

namespace Filenames

variable {files : Filenames}

/-- What is cached is right. -/
def Right (files : Filenames) : Prop :=
  ∀ filename short, files.shortFilenames filename = some short → short = fileName filename

theorem shorten_right (h : files.Right) (filename : String) :
    (files.shorten filename).1 = shortOf files.fullFilenames filename ∧ (files.shorten filename).2.Right ∧
      (files.shorten filename).2.fullFilenames = files.fullFilenames := by
  unfold shorten shortOf
  split
  · exact ⟨rfl, h, rfl⟩
  · cases hcached : files.shortFilenames filename with
    | some short => exact ⟨h filename short hcached, h, rfl⟩
    | none =>
      refine ⟨rfl, fun other short hshort => ?_, rfl⟩
      change Function.update files.shortFilenames filename (some (fileName filename)) other = some short at hshort
      by_cases hother : other = filename
      · subst hother
        rw [Function.update_self] at hshort
        exact (Option.some.inj hshort).symm
      · rw [Function.update_of_ne hother] at hshort
        exact h other short hshort

end Filenames

/-! ## The passes -/

/-- Pass 1 on one frame, with `label` for the names of pcs. -/
def labelFrame (label : UInt64 → Option String) (fullFilenames : Bool) (frame : Frame) : Frame :=
  let frame :=
    if frame.filename = "?" then
      match (parseHexAddress frame.name).bind label with
      | none => frame
      | some name => { frame with name, filename := "Smalltalk", module := some "Squeak" }
    else frame
  { frame with shortFilename := shortOf fullFilenames frame.filename }

/-- The frames of a thread's trace, from its addresses and the names of the frame chain. -/
def expectedFrames (config : SpyConfig) (native : Native) (symbolicator : Symbolicator) (S : Symbolizer)
    (cogFrames : List String) (addrs : List UInt64) : List Frame :=
  let frames := addrs.flatMap (NativeStack.shown native.lookups symbolicator)
  finishFrames config.hideNativeRoots ⟨config.fullFilenames, fun _ => none⟩
    (frames.map (labelFrame S.listedLabel config.fullFilenames)) cogFrames

variable {symbols : MethodZoneSymbols} {base : UInt64} {S s : Symbolizer} {Z : ZoneImage symbols base} {M : Memory}
  {files : Filenames}

theorem nameFrame_eq (hS : S.Tracks Z) (hM : S.Steady Z M) (h : Knows symbols S s) (hfiles : files.Right)
    (frame : Frame) :
    (nameFrame M files s frame).1 = labelFrame S.listedLabel files.fullFilenames frame ∧
      (nameFrame M files s frame).2.1.Right ∧
      (nameFrame M files s frame).2.1.fullFilenames = files.fullFilenames ∧
      Knows symbols S (nameFrame M files s frame).2.2 := by
  have hshort := fun filename => Filenames.shorten_right hfiles filename
  unfold nameFrame labelFrame
  by_cases hunknown : frame.filename = "?"
  · simp only [if_pos hunknown]
    cases haddr : parseHexAddress frame.name with
    | none =>
      simp only [Option.bind_none]
      obtain ⟨hname, hright, hfull⟩ := hshort frame.filename
      exact ⟨by rw [hname], hright, hfull, h⟩
    | some addr =>
      obtain ⟨hlabel, hknows⟩ := h.resolve hS hM addr
      simp only [Option.bind_some, hlabel]
      cases S.listedLabel addr with
      | none =>
        obtain ⟨hname, hright, hfull⟩ := hshort frame.filename
        exact ⟨by rw [hname], hright, hfull, hknows⟩
      | some name =>
        obtain ⟨hname, hright, hfull⟩ := hshort "Smalltalk"
        exact ⟨by rw [hname], hright, hfull, hknows⟩
  · simp only [if_neg hunknown]
    obtain ⟨hname, hright, hfull⟩ := hshort frame.filename
    exact ⟨by rw [hname], hright, hfull, h⟩

theorem nameFrames_eq (hS : S.Tracks Z) (hM : S.Steady Z M) (h : Knows symbols S s) (hfiles : files.Right)
    (frames : List Frame) :
    (nameFrames M files s frames).1 = frames.map (labelFrame S.listedLabel files.fullFilenames) ∧
      (nameFrames M files s frames).2.1.Right ∧
      (nameFrames M files s frames).2.1.fullFilenames = files.fullFilenames ∧
      Knows symbols S (nameFrames M files s frames).2.2 := by
  induction frames generalizing files s with
  | nil => exact ⟨rfl, hfiles, rfl, h⟩
  | cons frame frames ih =>
    obtain ⟨hframe, hright, hfull, hknows⟩ := nameFrame_eq hS hM h hfiles frame
    obtain ⟨hrest, hlastRight, hlastFull, hlast⟩ := ih hknows hright
    rw [nameFrames]
    simp only [hframe, hrest, hfull, List.map_cons]
    exact ⟨trivial, hlastRight, hlastFull.trans hfull, hlast⟩

/-- The splice needs the short name of one file. -/
theorem stitch_right (hfiles : files.Right) (frames : List Frame) (cogFrames : List String) :
    (stitch files frames cogFrames).1 = (stitch ⟨files.fullFilenames, fun _ => none⟩ frames cogFrames).1 ∧
      (stitch files frames cogFrames).2.Right ∧
      (stitch files frames cogFrames).2.fullFilenames = files.fullFilenames := by
  have hempty : (⟨files.fullFilenames, fun _ => none⟩ : Filenames).Right := fun _ _ h => nomatch h
  unfold stitch
  cases findInterpreterBoundary frames with
  | none => exact ⟨rfl, hfiles, rfl⟩
  | some splicePos =>
    simp only
    split
    · exact ⟨rfl, hfiles, rfl⟩
    · obtain ⟨hshort, hright, hfull⟩ := Filenames.shorten_right hfiles "Smalltalk"
      have hplain := (Filenames.shorten_right hempty "Smalltalk").1
      unfold spliceCogFrames
      simp only [hshort, hplain]
      exact ⟨trivial, hright, hfull⟩

theorem threadFrames_steady (hS : S.Tracks Z) (hM : S.Steady Z M) (h : Knows symbols S s) (hfiles : files.Right)
    (hideNativeRoots : Bool) (cogFrames : List String) (frames : List Frame) :
    let result := threadFrames hideNativeRoots M cogFrames files s frames
    result.1 = finishFrames hideNativeRoots ⟨files.fullFilenames, fun _ => none⟩
        (frames.map (labelFrame S.listedLabel files.fullFilenames)) cogFrames ∧
      result.2.1.Right ∧ result.2.1.fullFilenames = files.fullFilenames ∧ Knows symbols S result.2.2 := by
  obtain ⟨hnamed, hright, hfull, hknows⟩ := nameFrames_eq hS hM h hfiles frames
  obtain ⟨hstitched, hlastRight, hlastFull⟩ := stitch_right hright (nameFrames M files s frames).1 cogFrames
  rw [hnamed, hfull] at hstitched
  refine ⟨?_, ?_, ?_, hknows⟩
  · unfold threadFrames finishFrames
    simp only [hnamed, hstitched]
  · unfold threadFrames
    exact hlastRight
  · unfold threadFrames
    exact hlastFull.trans hfull

/-! ## The native stack -/

namespace NativeStack

variable {ns : NativeStack} {lookups : Lookups} {symbolicator : Symbolicator}

/-- Resolving leaves the unwinder as it is. -/
theorem symbolizeAddresses_backend (lookups : Lookups) (ns : NativeStack) (addrs : List UInt64) :
    (symbolizeAddresses lookups ns addrs).2.backend = ns.backend := by
  induction addrs generalizing ns with
  | nil => rfl
  | cons addr addrs ih =>
    have hone : (ns.symbolizeAddress lookups addr).2.backend = ns.backend := by
      unfold symbolizeAddress
      split <;> rfl
    rw [symbolizeAddresses]
    exact (ih _).trans hone

/-- With nothing new to load, a capture is resolved as without a cache. -/
theorem resolve_steady (hclean : Clean symbolicator) (hsame : ns.symbolicator = symbolicator)
    (h : ns.UpToDate lookups) (addrs : List UInt64) :
    let resolved := ns.resolve lookups symbolicator addrs
    resolved.1 = addrs.flatMap (shown lookups symbolicator) ∧ resolved.2.UpToDate lookups ∧
      resolved.2.symbolicator = symbolicator ∧ resolved.2.backend = ns.backend := by
  have hreload : (ns.reload symbolicator).symbolicator = symbolicator := by
    unfold reload
    split
    · rfl
    · exact hsame
  have hbackend : (ns.reload symbolicator).backend = ns.backend := by
    unfold reload
    split <;> rfl
  have hup : (ns.reload symbolicator).UpToDate lookups := by
    intro addr frame hcached
    rw [reload_symbolCache] at hcached
    rw [hreload, ← hsame]
    exact h addr frame hcached
  have hcleanNow : Clean (ns.reload symbolicator).symbolicator := by rwa [hreload]
  obtain ⟨hframes, hnext, hlast⟩ := hup.symbolizeAddresses hcleanNow addrs
  rw [hreload] at hframes hlast
  exact ⟨hframes, hnext, hlast, (symbolizeAddresses_backend lookups _ addrs).trans hbackend⟩

/-- Capturing touches neither the symbolicator nor its cache. -/
theorem captureThread_symbols (kind : UnwinderKind) (ns : NativeStack) (M : Memory) (answers : ThreadAnswers) :
    (ns.captureThread kind M answers).2.symbolicator = ns.symbolicator ∧
      (ns.captureThread kind M answers).2.symbolCache = ns.symbolCache := by
  cases kind with
  | framehop =>
    simp only [captureThread, capture, refreshBackend]
    split <;> exact ⟨rfl, rfl⟩
  | libunwind =>
    simp only [captureThread, countCapture]
    split <;> exact ⟨rfl, rfl⟩

end NativeStack

theorem captureThreads_symbols (kind : UnwinderKind) (M : Memory) (activity : Tid → Option Bool) (ns : NativeStack)
    (threads : List (Option Tid × ThreadAnswers)) :
    (captureThreads kind M activity ns threads).2.symbolicator = ns.symbolicator ∧
      (captureThreads kind M activity ns threads).2.symbolCache = ns.symbolCache := by
  induction threads generalizing ns with
  | nil => exact ⟨rfl, rfl⟩
  | cons thread threads ih =>
    obtain ⟨tid, answers⟩ := thread
    cases tid with
    | none => exact ih ns
    | some tid =>
      obtain ⟨hsymbolicator, hcache⟩ := NativeStack.captureThread_symbols kind ns M answers
      rw [captureThreads]
      split
      · rename_i next heq
        rw [heq] at hsymbolicator hcache
        exact ⟨hsymbolicator, hcache⟩
      · rename_i capture next heq
        rw [heq] at hsymbolicator hcache
        exact ⟨(ih next).1.trans hsymbolicator, (ih next).2.trans hcache⟩

/-! ## A sample -/

namespace SmalltalkSpy

/-- What the caches of a spy hold is right for a target with this zone and these modules. -/
structure Settled (symbols : MethodZoneSymbols) (S : Symbolizer) (native : Native) (symbolicator : Symbolicator)
    (spy : SmalltalkSpy) : Prop where
  symbolizer : Knows symbols S spy.symbolizer
  files : spy.files.Right
  symbolicator : spy.native.symbolicator = symbolicator
  upToDate : spy.native.UpToDate native.lookups

/-- The visit finds the zone and the modules as they are. -/
structure Unchanged (S : Symbolizer) (Z : ZoneImage symbols base) (symbolicator : Symbolicator) (visit : Visit) :
    Prop where
  frozen : S.Steady Z visit.frozen
  later : ∀ n, S.Steady Z (visit.later n)
  reloaded : ∀ n, visit.reloaded n = symbolicator

/-- A captured thread's trace; `ns` is the native stack when the threads are captured. -/
def expectedTrace (native : Native) (symbolicator : Symbolicator) (S : Symbolizer) (pid : Pid) (config : SpyConfig)
    (cogFrames : List String) (ns : NativeStack) (captured : Captured) : StackTrace where
  pid := pid
  threadId := captured.tid.toThreadId
  osThreadId := some captured.tid.toThreadId
  active := captured.active
  frames := expectedFrames config native symbolicator S cogFrames
    (ns.addressesOf config.unwinder native.unwind captured.capture)

variable {native : Native} {symbolicator : Symbolicator} {spy : SmalltalkSpy} {visit : Visit}

theorem Settled.resolveThread (hS : S.Tracks Z) (hclean : NativeStack.Clean symbolicator)
    (h : spy.Settled symbols S native symbolicator) (hM : S.Steady Z M) (cogFrames : List String)
    (captured : Captured) :
    let resolved := spy.resolveThread native M symbolicator cogFrames captured
    resolved.1 = expectedTrace native symbolicator S spy.pid spy.config cogFrames spy.native captured ∧
      resolved.2.Settled symbols S native symbolicator ∧ resolved.2.pid = spy.pid ∧
      resolved.2.config = spy.config ∧ resolved.2.native.backend = spy.native.backend := by
  obtain ⟨hframes, hup, hsymbolicator, hbackend⟩ := NativeStack.resolve_steady hclean h.symbolicator h.upToDate
    (spy.native.addressesOf spy.config.unwinder native.unwind captured.capture)
  obtain ⟨hthread, hright, hfull, hknows⟩ := threadFrames_steady hS hM h.symbolizer h.files
    spy.config.hideNativeRoots cogFrames
    ((spy.native.addressesOf spy.config.unwinder native.unwind captured.capture).flatMap
      (NativeStack.shown native.lookups symbolicator))
  unfold SmalltalkSpy.resolveThread NativeStack.resolveCapture
  simp only [hframes]
  refine ⟨?_, ⟨hknows, hright, hsymbolicator, hup⟩, trivial, trivial, hbackend⟩
  simp only [hthread]
  rfl

theorem Settled.resolveThreads (hS : S.Tracks Z) (hclean : NativeStack.Clean symbolicator)
    (h : spy.Settled symbols S native symbolicator) (hvisit : Unchanged S Z symbolicator visit)
    (cogFrames : List String) (n : Nat) (captures : List Captured) :
    let resolved := resolveThreads native visit cogFrames spy n captures
    resolved.1 = captures.map (expectedTrace native symbolicator S spy.pid spy.config cogFrames spy.native) ∧
      resolved.2.Settled symbols S native symbolicator ∧ resolved.2.pid = spy.pid ∧
      resolved.2.config = spy.config := by
  induction captures generalizing spy n with
  | nil => exact ⟨rfl, h, rfl, rfl⟩
  | cons captured captures ih =>
    obtain ⟨htrace, hnext, hpid, hconfig, hbackend⟩ := h.resolveThread hS hclean (hvisit.later n) cogFrames captured
    obtain ⟨htraces, hlast, hlastPid, hlastConfig⟩ := ih hnext (n + 1)
    -- a capture resolved later meets the unwinder as the first one does
    have hexpected : ∀ other, expectedTrace native symbolicator S spy.pid spy.config cogFrames
        (spy.resolveThread native (visit.later n) symbolicator cogFrames captured).2.native other =
          expectedTrace native symbolicator S spy.pid spy.config cogFrames spy.native other := by
      intro other
      simp only [expectedTrace, NativeStack.addressesOf, hbackend]
    rw [hpid, hconfig, List.map_congr_left fun other _ => hexpected other] at htraces
    rw [SmalltalkSpy.resolveThreads, hvisit.reloaded n]
    simp only [htrace, htraces, List.map_cons]
    exact ⟨trivial, hlast, hlastPid.trans hpid, hlastConfig.trans hconfig⟩

/-- The threads of a visit, captured. -/
def captured (spy : SmalltalkSpy) (visit : Visit) : Option (List Captured × NativeStack) :=
  match visit.listed.bind (threadActivity fun _ => none), visit.threads with
  | .ok activity, .ok threads =>
    match captureThreads spy.config.unwinder visit.frozen activity spy.native threads with
    | (.ok captures, ns) => some (captures, ns)
    | (.error _, _) => none
  | _, _ => none

theorem captured_eq_some {captures : List Captured} {ns : NativeStack} (h : spy.captured visit = some (captures, ns)) :
    ∃ listed activity threads, visit.listed = .ok listed ∧ threadActivity (fun _ => none) listed = .ok activity ∧
      visit.threads = .ok threads ∧
      captureThreads spy.config.unwinder visit.frozen activity spy.native threads = (.ok captures, ns) := by
  unfold captured at h
  split at h
  · rename_i activity threads hactivity hthreads
    obtain ⟨listed, hlisted, hactivity⟩ := Errors.bind_eq_ok hactivity
    split at h
    · rename_i others next hcaptured
      cases h
      exact ⟨listed, activity, threads, hlisted, hactivity, hthreads, hcaptured⟩
    · cases h
  · cases h

/-- The ways out of a sample: an error before all threads are captured, which
leaves all but the native stack as it is, or what is done with the captures. -/
inductive Sampled (spy : SmalltalkSpy) (native : Native) (visit : Visit) :
    Except SpyError (List StackTrace) × SmalltalkSpy → Prop
  | failed {e : String} {ns : NativeStack}
      (hns : ∃ activity threads, ns = (captureThreads spy.config.unwinder visit.frozen activity spy.native threads).2) :
      Sampled spy native visit (.error (.error e), { spy with native := ns })
  | finished {captures : List Captured} {ns : NativeStack} (hcaptured : spy.captured visit = some (captures, ns)) :
      Sampled spy native visit (finishSample { spy with native := ns } native visit captures)

theorem getStackTraces_cases (spy : SmalltalkSpy) (native : Native) (visit : Visit) :
    Sampled spy native visit (spy.getStackTraces native visit) := by
  have hearly : ∀ e, Sampled spy native visit (.error (.error e), spy) := fun e => .failed ⟨fun _ => none, [], rfl⟩
  unfold getStackTraces
  cases hlisted : visit.listed with
  | error e => exact hearly e
  | ok listed =>
    simp only
    cases hactivity : threadActivity (fun _ => none) listed with
    | error e => exact hearly e
    | ok activity =>
      simp only
      cases if spy.config.blocking = .lock then visit.lock else .ok () with
      | error e => exact hearly _
      | ok =>
        simp only
        cases hthreads : visit.threads with
        | error e => exact hearly e
        | ok threads =>
          simp only
          split
          · rename_i e ns heq
            exact .failed ⟨activity, threads, by rw [heq]⟩
          · rename_i captures ns heq
            refine .finished ?_
            have hboth : (Except.ok listed : Except String _).bind (threadActivity fun _ => none) = .ok activity :=
              hactivity
            simp only [captured, hlisted, hthreads, hboth, heq]

theorem Settled.finishSample (hS : S.Tracks Z) (hclean : NativeStack.Clean symbolicator)
    (h : spy.Settled symbols S native symbolicator) (hvisit : Unchanged S Z symbolicator visit)
    (captures : List Captured) :
    let finished := spy.finishSample native visit captures
    finished.2.Settled symbols S native symbolicator ∧ finished.2.pid = spy.pid ∧ finished.2.config = spy.config ∧
      ∀ traces, finished.1 = .ok traces → traces =
        captures.map (expectedTrace native symbolicator S spy.pid spy.config (S.chainLabels visit.frozen) spy.native) := by
  obtain ⟨hchain, hwalked⟩ := h.symbolizer.walkCogFrames hS hvisit.frozen
  have hafter : Settled symbols S native symbolicator
      { spy with symbolizer := (spy.symbolizer.walkCogFrames visit.frozen).2 } :=
    ⟨hwalked, h.files, h.symbolicator, h.upToDate⟩
  obtain ⟨htraces, hlast, hpid, hconfig⟩ :=
    hafter.resolveThreads hS hclean hvisit (S.chainLabels visit.frozen) 0 captures
  unfold SmalltalkSpy.finishSample
  simp only [hchain]
  split
  · exact ⟨hlast, hpid, hconfig, fun _ h => nomatch h⟩
  · split
    · exact ⟨hlast, hpid, hconfig, fun _ h => nomatch h⟩
    · refine ⟨⟨hlast.symbolizer, hlast.files, hlast.symbolicator, hlast.upToDate⟩, hpid, hconfig, fun traces h => ?_⟩
      cases h
      exact htraces

/-- The spy after a sequence of samples. -/
def run (native : Native) (spy : SmalltalkSpy) (visits : List Visit) : SmalltalkSpy :=
  visits.foldl (fun spy visit => (spy.getStackTraces native visit).2) spy

theorem Settled.getStackTraces (hS : S.Tracks Z) (hclean : NativeStack.Clean symbolicator)
    (h : spy.Settled symbols S native symbolicator) (hvisit : Unchanged S Z symbolicator visit) :
    let sampled := spy.getStackTraces native visit
    sampled.2.Settled symbols S native symbolicator ∧ sampled.2.pid = spy.pid ∧ sampled.2.config = spy.config ∧
      ∀ traces, sampled.1 = .ok traces → ∃ captures ns, spy.captured visit = some (captures, ns) ∧ traces =
        captures.map (expectedTrace native symbolicator S spy.pid spy.config (S.chainLabels visit.frozen) ns) := by
  have hsettled : ∀ ns : NativeStack, ns.symbolicator = spy.native.symbolicator →
      ns.symbolCache = spy.native.symbolCache → Settled symbols S native symbolicator { spy with native := ns } := by
    intro ns hsymbols hcache
    refine ⟨h.symbolizer, h.files, hsymbols.trans h.symbolicator, fun addr frame hcached => ?_⟩
    rw [hcache] at hcached
    rw [hsymbols]
    exact h.upToDate addr frame hcached
  have hcases := spy.getStackTraces_cases native visit
  generalize spy.getStackTraces native visit = sampled at hcases
  cases hcases with
  | failed hns =>
    obtain ⟨activity, threads, rfl⟩ := hns
    obtain ⟨hsymbols, hcache⟩ := captureThreads_symbols spy.config.unwinder visit.frozen activity spy.native threads
    exact ⟨hsettled _ hsymbols hcache, rfl, rfl, fun _ h => nomatch h⟩
  | @finished captures ns hcaptured =>
    obtain ⟨_, activity, threads, -, -, -, heq⟩ := captured_eq_some hcaptured
    obtain ⟨hsymbols, hcache⟩ := captureThreads_symbols spy.config.unwinder visit.frozen activity spy.native threads
    rw [heq] at hsymbols hcache
    obtain ⟨hnext, hpid, hconfig, htraces⟩ := (hsettled ns hsymbols hcache).finishSample hS hclean hvisit captures
    exact ⟨hnext, hpid, hconfig, fun traces hok => ⟨captures, ns, hcaptured, htraces traces hok⟩⟩

theorem Settled.run (hS : S.Tracks Z) (hclean : NativeStack.Clean symbolicator)
    (h : spy.Settled symbols S native symbolicator) {visits : List Visit}
    (hvisits : ∀ visit ∈ visits, Unchanged S Z symbolicator visit) :
    (spy.run native visits).Settled symbols S native symbolicator ∧ (spy.run native visits).pid = spy.pid ∧
      (spy.run native visits).config = spy.config := by
  induction visits generalizing spy with
  | nil => exact ⟨h, rfl, rfl⟩
  | cons visit visits ih =>
    obtain ⟨hfirst, hothers⟩ := List.forall_mem_cons.mp hvisits
    obtain ⟨hnext, hpid, hconfig, -⟩ := h.getStackTraces hS hclean hfirst
    obtain ⟨hlast, hlastPid, hlastConfig⟩ := ih hnext hothers
    exact ⟨hlast, hlastPid.trans hpid, hlastConfig.trans hconfig⟩

/-- A spy starts with nothing cached. -/
theorem new_fresh {lower : String → String} {pid : Pid} {config : SpyConfig} {attachment : Attachment}
    (h : new lower pid config attachment = .ok spy) :
    spy.pid = pid ∧ spy.config = config ∧ (∃ binary, spy.symbolizer = Symbolizer.new attachment.maps binary) ∧
      spy.native.symbolCache = [] ∧ spy.native.capturesSinceReload = 0 ∧ (spy.shortFilenames = fun _ => none) ∧
      spy.timing = {} := by
  unfold new at h
  split at h
  · cases h
  · split at h
    · cases h
    · split at h
      · cases h
      · rename_i native hnative
        cases h
        suffices hempty : native.symbolCache = [] ∧ native.capturesSinceReload = 0 from
          ⟨rfl, rfl, ⟨_, rfl⟩, hempty.1, hempty.2, rfl, rfl⟩
        unfold newNative at hnative
        split at hnative
        · cases hnative
        · split at hnative
          · split at hnative
            · cases hnative
            · cases hnative
              exact ⟨rfl, rfl⟩
          · cases hunwinder : attachment.unwinder with
            | error e =>
              rw [hunwinder] at hnative
              cases hnative
            | ok =>
              rw [hunwinder] at hnative
              cases hnative
              exact ⟨rfl, rfl⟩

/-- What a spy that has just attached knows is right, with `S` what it will make of the zone. -/
theorem settled_new {lower : String → String} {pid : Pid} {config : SpyConfig} {attachment : Attachment}
    (h : new lower pid config attachment = .ok spy) (hsymbols : spy.symbolizer.methodZoneSymbols = some symbols)
    (Z : ZoneImage symbols base) (native : Native) :
    (spy.symbolizer.refreshMethodZone Z.mem).Tracks Z ∧
      spy.Settled symbols (spy.symbolizer.refreshMethodZone Z.mem) native spy.native.symbolicator := by
  obtain ⟨-, -, ⟨binary, hbinary⟩, hcache, -, hshort, -⟩ := new_fresh h
  have hunwalked : Unwalked symbols spy.symbolizer := by
    rw [hbinary] at hsymbols ⊢
    exact unwalked_new hsymbols
  have hempty : ∀ pc, spy.symbolizer.resolvedPcs pc = none := by
    rw [hbinary]
    exact fun _ => rfl
  refine ⟨hunwalked.refresh Z, .unwalked hunwalked (spy.symbolizer.refresh_sameTarget Z.mem) hempty, ?_, rfl, ?_⟩
  · intro filename short hfound
    rw [files, hshort] at hfound
    cases hfound
  · intro addr frame hfound
    rw [hcache] at hfound
    cases hfound

/-- While the zone and the modules stay as they are, each trace of each sample is
what its thread's addresses and the sample's frame chain give, whatever was sampled
before. -/
theorem samples_expected {lower : String → String} {pid : Pid} {config : SpyConfig} {attachment : Attachment}
    (hnew : new lower pid config attachment = .ok spy)
    (hsymbols : spy.symbolizer.methodZoneSymbols = some symbols) (Z : ZoneImage symbols base)
    (hclean : NativeStack.Clean spy.native.symbolicator) (visits : List Visit)
    (hvisits : ∀ v ∈ visits ++ [visit],
      Unchanged (spy.symbolizer.refreshMethodZone Z.mem) Z spy.native.symbolicator v)
    {traces : List StackTrace} (hok : ((spy.run native visits).getStackTraces native visit).1 = .ok traces) :
    ∃ captures ns, (spy.run native visits).captured visit = some (captures, ns) ∧
      traces = captures.map
        (expectedTrace native spy.native.symbolicator (spy.symbolizer.refreshMethodZone Z.mem) pid config
          ((spy.symbolizer.refreshMethodZone Z.mem).chainLabels visit.frozen) ns) := by
  obtain ⟨hpid, hconfig, -⟩ := new_fresh hnew
  obtain ⟨hS, hsettled⟩ := settled_new hnew hsymbols Z native
  rw [List.forall_mem_append, List.forall_mem_singleton] at hvisits
  obtain ⟨hrun, hrunPid, hrunConfig⟩ := hsettled.run hS hclean hvisits.1
  obtain ⟨-, -, -, htraces⟩ := hrun.getStackTraces hS hclean hvisits.2
  have hexpected := htraces traces hok
  rwa [hrunPid, hrunConfig, hpid, hconfig] at hexpected

/-! ### A thread in a compiled method -/

/-- No module has symbols. -/
def noSymbols : Symbolicator := fun _ => ⟨[], .error .noBinaryForAddress⟩

theorem noSymbols_clean : NativeStack.Clean noSymbols := fun _ _ h => nomatch h

/-- A scan that could not read the mappings. -/
def noScan : FramehopUnwind.Call := ⟨none, fun _ => .error "no file", [], nofun⟩

def zoneProcess : OpenProcess where
  exe := .ok "/opt/squeak"
  maps := .ok [⟨0x400000, 0x1000, true, some "/opt/squeak"⟩]
  parseBinary _ _ := some zoneBinary
  mem := zoneBefore.mem

def zoneAttachment : Attachment where
  process := .ok zoneProcess
  maps := []
  symbolicator := .ok noSymbols
  scan := noScan
  unwinder := .ok ()

def noTimes : SampleTimes := ⟨.zero, .zero, .zero, .zero, .zero, 0, 0, 0, 0, 0⟩

/-- One thread, at these addresses. -/
def zoneVisit (addrs : List UInt64) : Visit where
  listed := .ok [(.ok 7, some true)]
  lock := .ok ()
  threads := .ok [(some 7, ⟨noScan, none, some (addrs.map some)⟩)]
  frozen := zoneBefore.mem
  later _ := zoneBefore.mem
  reloaded _ := noSymbols
  times := noTimes

def noNative : Native := ⟨⟨fun _ _ => none, fun _ => none⟩, fun _ _ => []⟩

def zoneSpy : SmalltalkSpy where
  pid := 5
  vmVersion := "squeak"
  config := { unwinder := .libunwind }
  native := { backend := .empty, symbolicator := noSymbols }
  symbolizer := Symbolizer.new [] (some zoneBinary)
  shortFilenames _ := none
  timing := {}

theorem new_zoneSpy : new id 5 { unwinder := .libunwind } zoneAttachment = .ok zoneSpy := rfl

theorem zoneVisit_unchanged (addrs : List UInt64) :
    Unchanged (zoneSpy.symbolizer.refreshMethodZone zoneBefore.mem) zoneBefore noSymbols (zoneVisit addrs) :=
  have hsteady : Steady (zoneSpy.symbolizer.refreshMethodZone zoneBefore.mem) zoneBefore zoneBefore.mem :=
    ⟨zoneBefore.bounds, zoneBefore.decoded, by decide +kernel⟩
  ⟨hsteady, fun _ => hsteady, fun _ => rfl⟩

theorem samples_expected_zoneSpy :
    ∃ traces captures ns,
      ((zoneSpy.run noNative [zoneVisit [0x1038]]).getStackTraces noNative (zoneVisit [0x1030])).1 = .ok traces ∧
      (zoneSpy.run noNative [zoneVisit [0x1038]]).captured (zoneVisit [0x1030]) = some (captures, ns) ∧
      traces = captures.map
        (expectedTrace noNative noSymbols (zoneSpy.symbolizer.refreshMethodZone zoneBefore.mem) 5
          { unwinder := .libunwind }
          ((zoneSpy.symbolizer.refreshMethodZone zoneBefore.mem).chainLabels (zoneVisit [0x1030]).frozen) ns) :=
  have hvisits : ∀ v ∈ [zoneVisit [0x1038]] ++ [zoneVisit [0x1030]],
      Unchanged (zoneSpy.symbolizer.refreshMethodZone zoneBefore.mem) zoneBefore noSymbols v := by
    simp [zoneVisit_unchanged]
  have hok : ∃ traces,
      ((zoneSpy.run noNative [zoneVisit [0x1038]]).getStackTraces noNative (zoneVisit [0x1030])).1 = .ok traces :=
    ⟨_, rfl⟩
  let ⟨traces, htraces⟩ := hok
  let ⟨captures, ns, hcaptured, hexpected⟩ :=
    samples_expected new_zoneSpy rfl zoneBefore noSymbols_clean [zoneVisit [0x1038]] hvisits htraces
  ⟨traces, captures, ns, htraces, hcaptured, hexpected⟩

end SmalltalkSpy

end StSpy
