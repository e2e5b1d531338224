import StSpy.Commands

/-!
# Recording a steady target

While the target's modules and its method zone stay as they are, from the attempt that
attaches on, a recording holds what the captured addresses and the frame chain of each
sample give: the caches do not show, in whatever order the sampling thread and the loop
take their steps.
-/

namespace StSpy

open Loops SmalltalkSpy

section

variable (native : Native) (symbolicator : Symbolicator) (S : Symbolizer) (pid : Pid) (config : SpyConfig)

/-- What a turn gives that `spy` takes. -/
inductive ExpectedSample (spy : SmalltalkSpy) : Option Nat × Visit → Sample → Prop
  | traced {late : Option Nat} {visit : Visit} {captures : List Captured} {ns : NativeStack}
      (hcaptured : spy.captured visit = some (captures, ns)) :
      ExpectedSample spy (late, visit)
        { traces := captures.map (expectedTrace native symbolicator S pid config (S.chainLabels visit.frozen) ns)
          late }
  | failed {late : Option Nat} {visit : Visit} {e : String}
      (herror : (spy.getStackTraces native visit).1 = .error (.error e)) :
      ExpectedSample spy (late, visit) { traces := [], samplingErrors := some [(pid, e)], late }

/-- The first samples of a loop that starts with `spy` and takes these turns. -/
inductive ExpectedSamples : SmalltalkSpy → List (Option Nat × Visit) → List Sample → Prop
  | nil (spy : SmalltalkSpy) (turns : List (Option Nat × Visit)) : ExpectedSamples spy turns []
  | cons {spy : SmalltalkSpy} {turn : Option Nat × Visit} {turns : List (Option Nat × Visit)} {sample : Sample}
      {samples : List Sample} (hsample : ExpectedSample native symbolicator S pid config spy turn sample)
      (hrest : ExpectedSamples (spy.getStackTraces native turn.2).2 turns samples) :
      ExpectedSamples spy (turn :: turns) (sample :: samples)

end

variable {symbols : MethodZoneSymbols} {base : UInt64} {S : Symbolizer} {Z : ZoneImage symbols base}
  {lower : String → String} {native : Native} {symbolicator : Symbolicator} {pid : Pid} {config : SpyConfig}

/-! ## The samples of the thread -/

theorem samplesOf_length_le (native : Native) (spy : SmalltalkSpy) (turns : List (Option Nat × Visit)) :
    (samplesOf native spy turns).length ≤ turns.length := by
  induction turns generalizing spy with
  | nil => exact le_rfl
  | cons turn turns ih =>
    have hone : ∀ sample : Option Sample, sample.toList.length ≤ 1 := fun sample => by cases sample <;> simp
    rw [samplesOf, List.length_append, List.length_cons, Nat.add_comm]
    exact Nat.add_le_add (ih _) (hone _)

/-- A turn of a spy that is settled. -/
theorem expectedSample_of_settled (hS : S.Tracks Z) (hclean : NativeStack.Clean symbolicator) {spy : SmalltalkSpy}
    (h : spy.Settled symbols S native symbolicator) {turn : Option Nat × Visit}
    (hturn : Unchanged S Z symbolicator turn.2) {sample : Sample}
    (hsample : sampleOf (spy.getStackTraces native turn.2).2 turn.1 (spy.getStackTraces native turn.2).1 =
      some sample) :
    ExpectedSample native symbolicator S spy.pid spy.config spy turn sample := by
  obtain ⟨-, hpid, -, htraces⟩ := h.getStackTraces hS hclean hturn
  cases hresult : (spy.getStackTraces native turn.2).1 with
  | ok traces =>
    obtain ⟨captures, ns, hcaptured, rfl⟩ := htraces traces hresult
    rw [hresult] at hsample
    cases hsample
    exact .traced hcaptured
  | error e =>
    cases e with
    | error e =>
      rw [hresult, sampleOf, hpid] at hsample
      cases hsample
      exact .failed hresult
    | panic panic =>
      rw [hresult] at hsample
      cases hsample

/-- The samples of a loop all of whose turns give one. -/
theorem expectedSamples_of_settled (hS : S.Tracks Z) (hclean : NativeStack.Clean symbolicator) {spy : SmalltalkSpy}
    (h : spy.Settled symbols S native symbolicator) (hpid : spy.pid = pid) (hconfig : spy.config = config)
    {turns : List (Option Nat × Visit)} (hturns : ∀ turn ∈ turns, Unchanged S Z symbolicator turn.2)
    (hall : (samplesOf native spy turns).length = turns.length) {samples : List Sample}
    (hsamples : samples <+: samplesOf native spy turns) :
    ExpectedSamples native symbolicator S pid config spy turns samples := by
  induction turns generalizing spy samples with
  | nil =>
    rw [List.prefix_nil.mp hsamples]
    exact .nil spy []
  | cons turn turns ih =>
    obtain ⟨hturn, hothers⟩ := List.forall_mem_cons.mp hturns
    obtain ⟨hnext, hnextPid, hnextConfig, -⟩ := h.getStackTraces hS hclean hturn
    have hrest := samplesOf_length_le native (spy.getStackTraces native turn.2).2 turns
    rw [samplesOf] at hall hsamples
    cases hsample : sampleOf (spy.getStackTraces native turn.2).2 turn.1 (spy.getStackTraces native turn.2).1 with
    | none =>
      rw [hsample, List.length_append, List.length_cons] at hall
      simp only [Option.toList_none, List.length_nil] at hall
      omega
    | some sample =>
      rw [hsample, Option.toList_some, List.singleton_append] at hall hsamples
      cases samples with
      | nil => exact .nil spy _
      | cons first samples =>
        obtain ⟨rfl, hlater⟩ := List.cons_prefix_cons.mp hsamples
        have hfirst := expectedSample_of_settled hS hclean h hturn hsample
        rw [hpid, hconfig] at hfirst
        exact .cons hfirst
          (ih hnext (hnextPid.trans hpid) (hnextConfig.trans hconfig) hothers (Nat.succ.inj hall) hlater)

/-! ## The interleaving -/

/-- Whatever the thread meets, the target is as it was. -/
def SamplingAction.Steady (lower : String → String) (pid : Pid) (config : SpyConfig) (S : Symbolizer)
    (Z : ZoneImage symbols base) (symbolicator : Symbolicator) : SamplingAction → Prop
  | .retryNew attempts _ => ∀ k fresh, SmalltalkSpy.new lower pid config (attempts k).attachment = .ok fresh →
      fresh.symbolizer.methodZoneSymbols = some symbols ∧ fresh.symbolizer.refreshMethodZone Z.mem = S ∧
        fresh.native.symbolicator = symbolicator ∧ Unchanged S Z symbolicator (attempts k).visit
  | .trace visit _ => Unchanged S Z symbolicator visit
  | _ => True

def LoopAction.Steady {ε : Type} (lower : String → String) (pid : Pid) (config : SpyConfig) (S : Symbolizer)
    (Z : ZoneImage symbols base) (symbolicator : Symbolicator) : LoopAction ε → Prop
  | .sampler action => action.Steady lower pid config S Z symbolicator
  | _ => True

namespace SingleSampler

variable {s s' : SingleSampler} {action : SamplingAction}

/-- The spy is settled when the loop starts, and each turn finds the target as it was and gives a sample. -/
structure Steady (S : Symbolizer) (Z : ZoneImage symbols base) (native : Native) (symbolicator : Symbolicator)
    (pid : Pid) (config : SpyConfig) (s : SingleSampler) : Prop where
  first : ∀ first, s.started = some first →
    S.Tracks Z ∧ first.Settled symbols S native symbolicator ∧ first.pid = pid ∧ first.config = config
  turns : ∀ turn ∈ s.turns, Unchanged S Z symbolicator turn.2
  sent : s.sent.length = s.turns.length

theorem Steady.start : Steady S Z native symbolicator pid config .start where
  first _ h := nomatch h
  turns _ h := nomatch h
  sent := rfl

/-- The spy that attaches has taken a sample of the steady target. -/
theorem settled_of_retryNew (hclean : NativeStack.Clean symbolicator) {attempts : Nat → SmalltalkSpy.Attempt}
    {start : Instant} (hsteady : (SamplingAction.retryNew attempts start).Steady lower pid config S Z symbolicator)
    {first : SmalltalkSpy} {maxRetries : UInt64}
    (hfirst : SmalltalkSpy.retryNew lower native pid config maxRetries attempts = some (.ok first)) :
    S.Tracks Z ∧ first.Settled symbols S native symbolicator ∧ first.pid = pid ∧ first.config = config := by
  obtain ⟨k, -, hdecided⟩ := retryNew_eq lower native pid config maxRetries attempts
  rw [hfirst] at hdecided
  obtain ⟨fresh, traces, hnew, hsampled⟩ := connect_eq_ok (Option.some.inj hdecided).symm
  obtain ⟨hsymbols, rfl, rfl, hvisit⟩ := hsteady k fresh hnew
  obtain ⟨hS, hsettled⟩ := settled_new hnew hsymbols Z native
  obtain ⟨hfreshPid, hfreshConfig, -⟩ := new_fresh hnew
  obtain ⟨hnext, hpid, hconfig, -⟩ := hsettled.getStackTraces hS hclean hvisit
  rw [hsampled] at hnext hpid hconfig
  exact ⟨hS, hnext, hpid.trans hfreshPid, hconfig.trans hfreshConfig⟩

theorem Steady.moves (hclean : NativeStack.Clean symbolicator) (h : Steady S Z native symbolicator pid config s)
    (hsteady : action.Steady lower pid config S Z symbolicator) (hmoves : s.Moves lower native pid config action s') :
    Steady S Z native symbolicator pid config s' := by
  cases hmoves with
  | attached hstarting hspy =>
    refine { h with first := fun first hfirst => ?_ }
    cases hfirst
    exact settled_of_retryNew hclean hsteady hspy
  | sent =>
    refine { h with turns := ?_, sent := ?_ }
    · rw [List.forall_mem_append, List.forall_mem_singleton]
      exact ⟨h.turns, hsteady⟩
    · rw [List.length_append, List.length_append, h.sent]
      rfl
  | _ => exact { h with }

end SingleSampler

namespace SamplingLoop

variable {γ ε : Type} {body : γ → ε × Sample → Turn γ γ} {s s' : SamplingLoop γ ε} {state : γ}
  {action : LoopAction ε} {actions : List (LoopAction ε)}

/-- What an action of the loop is to its sampler. -/
theorem sampler_step (hstep : s.step lower native pid config body action = some s') :
    s'.sampler = s.sampler ∨
      ∃ inner, s.sampler.step lower native pid config inner = some s'.sampler ∧
        (action = .sampler inner ∨ inner.ofLoop = true) := by
  cases action with
  | sampler inner =>
    simp only [step] at hstep
    split at hstep
    · cases hstep
    · obtain ⟨sampler, hsampler, rfl⟩ := Option.map_eq_some_iff.mp hstep
      exact .inr ⟨inner, hsampler, .inl rfl⟩
  | next met =>
    simp only [step] at hstep
    split at hstep
    · obtain ⟨sampler, hsampler, rfl⟩ := Option.map_eq_some_iff.mp hstep
      exact .inr ⟨.next, hsampler, .inr rfl⟩
    · obtain ⟨sampler, hsampler, rfl⟩ := Option.map_eq_some_iff.mp hstep
      exact .inr ⟨.next, hsampler, .inr rfl⟩
    · cases hstep
  | fail =>
    simp only [step] at hstep
    split at hstep
    · cases hstep
      exact .inl rfl
    · cases hstep
  | drop =>
    simp only [step] at hstep
    split at hstep
    · cases hstep
    · obtain ⟨sampler, hsampler, rfl⟩ := Option.map_eq_some_iff.mp hstep
      exact .inr ⟨.dropSampler, hsampler, .inr rfl⟩

theorem steady_run (hclean : NativeStack.Clean symbolicator)
    (hactions : ∀ action ∈ actions, action.Steady lower pid config S Z symbolicator)
    (hrun : Runs.run (SamplingLoop.step lower native pid config body) (SamplingLoop.start state) actions = some s) :
    s.Inv lower native pid config body state ∧
      SingleSampler.Steady S Z native symbolicator pid config s.sampler := by
  refine Runs.run_invariant_of
    (P := fun s => s.Inv lower native pid config body state ∧
      SingleSampler.Steady S Z native symbolicator pid config s.sampler) ?_ hactions hrun ⟨.start state, .start⟩
  intro s s' action h hsteady hstep
  refine ⟨h.1.step hstep, ?_⟩
  rcases sampler_step hstep with hsame | ⟨inner, hinner, hof⟩
  · rw [hsame]
    exact h.2
  · have hquiet : inner.Steady lower pid config S Z symbolicator := by
      rcases hof with rfl | hof
      · exact hsteady
      · cases inner with
        | next => trivial
        | dropSampler => trivial
        | _ => cases hof
    exact h.2.moves hclean hquiet (h.1.sampler.moves hinner)

/-- What the body has been given is what was expected. -/
theorem taken_expected (hclean : NativeStack.Clean symbolicator)
    (hactions : ∀ action ∈ actions, action.Steady lower pid config S Z symbolicator)
    (hrun : Runs.run (SamplingLoop.step lower native pid config body) (SamplingLoop.start state) actions = some s)
    {first : SmalltalkSpy} (hfirst : s.sampler.started = some first) {samples : List Sample}
    (hsamples : samples <+: s.taken.map Prod.snd) :
    ExpectedSamples native symbolicator S pid config first s.sampler.turns samples := by
  obtain ⟨hinv, hsteady⟩ := steady_run hclean hactions hrun
  obtain ⟨hS, hsettled, hpid, hconfig⟩ := hsteady.first first hfirst
  have hsent := hinv.sampler.loop.sent
  rw [hfirst, Option.map_some, Option.getD_some] at hsent
  have hall := hsteady.sent
  rw [hsent] at hall
  exact expectedSamples_of_settled hS hclean hsettled hpid hconfig hsteady.turns hall
    (hsamples.trans (hinv.taken_prefix hfirst))

end SamplingLoop

/-- In every interleaving over a steady target, what a recording that has ended holds is, sample by sample and
thread by thread, what the captured addresses and the frame chain give. -/
theorem record_expected {symbols : MethodZoneSymbols} {base : UInt64} {S : Symbolizer} {Z : ZoneImage symbols base}
    {lower : String → String} {native : Native} {symbolicator : Symbolicator} {pid : Pid} {config : SpyConfig}
    (hclean : NativeStack.Clean symbolicator) {actions : List (LoopAction Bool)}
    (hactions : ∀ action ∈ actions, action.Steady lower pid config S Z symbolicator)
    {s : SamplingLoop Recording Bool}
    (hrun : Runs.run (SamplingLoop.step lower native pid config (Recording.turn config.toRecordConfig))
      (SamplingLoop.start {}) actions = some s)
    {state : Recording} (hdone : s.pc = .ended state) :
    ∃ first passed, s.sampler.started = some first ∧ Recording.Records config.toRecordConfig state passed ∧
      ExpectedSamples native symbolicator S pid config first s.sampler.turns (passed.map Arrival.sample) := by
  obtain ⟨first, passed, hfirst, -, hrecords, hended⟩ := (SamplingLoop.Inv.run hrun).recorded hdone
  have hpassed := hended.passed_prefix.map Arrival.sample
  rw [Recording.arrivals_samples] at hpassed
  exact ⟨first, passed, hfirst, hrecords, SamplingLoop.taken_expected hclean hactions hrun hfirst hpassed⟩

theorem interruptedActions_steady :
    ∀ action ∈ interruptedActions, action.Steady id 5 SingleSampler.zoneConfig
      (zoneSpy.symbolizer.refreshMethodZone Symbolizer.zoneBefore.mem) Symbolizer.zoneBefore noSymbols := by
  have hattach : (SamplingAction.retryNew SingleSampler.zoneAttempts 0).Steady id 5 SingleSampler.zoneConfig
      (zoneSpy.symbolizer.refreshMethodZone Symbolizer.zoneBefore.mem) Symbolizer.zoneBefore noSymbols := by
    intro k fresh hfresh
    cases new_zoneSpy.symm.trans hfresh
    exact ⟨rfl, rfl, rfl, zoneVisit_unchanged _⟩
  simp only [interruptedActions, List.forall_mem_cons]
  exact ⟨hattach, trivial, trivial, zoneVisit_unchanged _, trivial, trivial, zoneVisit_unchanged _, trivial, trivial,
    List.forall_mem_nil _⟩

theorem record_expected_interrupted :
    ∃ s state, Runs.run (SamplingLoop.step id noNative 5 SingleSampler.zoneConfig
        (Recording.turn SingleSampler.zoneConfig.toRecordConfig)) (SamplingLoop.start {}) interruptedActions = some s ∧
      s.pc = .ended state ∧
      ∃ first passed, s.sampler.started = some first ∧
        Recording.Records SingleSampler.zoneConfig.toRecordConfig state passed ∧
        ExpectedSamples noNative noSymbols (zoneSpy.symbolizer.refreshMethodZone Symbolizer.zoneBefore.mem) 5
          SingleSampler.zoneConfig first s.sampler.turns (passed.map Arrival.sample) :=
  have hrun : ∃ s state, Runs.run (SamplingLoop.step id noNative 5 SingleSampler.zoneConfig
      (Recording.turn SingleSampler.zoneConfig.toRecordConfig)) (SamplingLoop.start {}) interruptedActions = some s ∧
      s.pc = .ended state := ⟨_, _, rfl, rfl⟩
  let ⟨s, state, hs, hdone⟩ := hrun
  ⟨s, state, hs, hdone, record_expected noSymbols_clean interruptedActions_steady hs hdone⟩

end StSpy
