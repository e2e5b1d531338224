import StSpy.Sampler.Ancestry
import StSpy.Sampler.Spies

/-!
# The processes on the traces

Before a sample is sent, each trace is given what is recorded of its process and of the
processes above it. The sampling thread keeps what it has found of a process, so all
traces of a process show what the first of them has found.
-/

namespace StSpy

variable {α : Type}

/-- The map `process_info` of the sampling thread. -/
abbrev ProcessInfos := Pid → Option (Option ProcessInfo)

/-- The loop over the traces; `none` where the depth is not enough for `get_process_info`. -/
def annotate (spies : Spies α) (depth : Nat) :
    ProcessInfos → List StackTrace → Option (List StackTrace × ProcessInfos)
  | infos, [] => some ([], infos)
  | infos, trace :: traces =>
    match infos trace.pid with
    | some info =>
      (annotate spies depth infos traces).map fun rest => ({ trace with processInfo := info } :: rest.1, rest.2)
    | none =>
      match getProcessInfo spies depth trace.pid with
      | none => none
      | some info =>
        (annotate spies depth (Function.update infos trace.pid (some info)) traces).map fun rest =>
          ({ trace with processInfo := info } :: rest.1, rest.2)

structure AnnotatedState where
  below : SpiesState
  processInfo : ProcessInfos
  sent : List Sample

inductive AnnotatedEvent where
  | below (event : SpiesEvent)
  /-- The traces of the round are annotated and sent. -/
  | send (depth : Nat) (late : Option Nat)

def AnnotatedEvent.party : AnnotatedEvent → Party
  | .below event => event.party
  | .send _ _ => .sampling

def SpiesEvent.sends : SpiesEvent → Bool
  | .threads (.sampler .send) => true
  | _ => false

namespace AnnotatedState

def start (pid : Pid) (commandLine : String) : AnnotatedState where
  below := .start pid commandLine
  processInfo _ := none
  sent := []

def step (lower : String → String) (native : Native) (config : SpyConfig) (s : AnnotatedState) :
    AnnotatedEvent → Option AnnotatedState
  | .below event =>
    if event.sends then none else (s.below.step lower native config event).map fun below => { s with below }
  | .send depth late =>
    match annotate s.below.threads.spies depth s.processInfo (roundTraces s.below.threads.results) with
    | none => none
    | some (traces, processInfo) =>
      (s.below.step lower native config (.threads (.sampler .send))).map fun below =>
        { below
          processInfo
          sent :=
            if s.below.threads.receiver then
              s.sent ++ [{ traces, samplingErrors := roundErrors s.below.threads.results, late }]
            else s.sent }

end AnnotatedState

/-! ## Ancestries -/

/-- The process at the end of an ancestry. -/
def ProcessInfo.top : ProcessInfo → Pid
  | ⟨pid, _, none⟩ => pid
  | ⟨_, _, some parent⟩ => parent.top

/-- Each link of an ancestry is recorded. -/
inductive Recorded (spies : Spies α) : ProcessInfo → Prop
  | top {pid : Pid} {spy : SpyThread α} (hspy : spies.lookup pid = some spy) :
      Recorded spies ⟨pid, spy.commandLine, none⟩
  | child {pid : Pid} {spy : SpyThread α} {parent : ProcessInfo} (hspy : spies.lookup pid = some spy)
      (hparent : spy.parent = some parent.pid) (h : Recorded spies parent) :
      Recorded spies ⟨pid, spy.commandLine, some parent⟩

variable {spies spies' : Spies α} {pid : Pid} {depth : Nat}

theorem getProcessInfo_recorded {info : ProcessInfo} (h : getProcessInfo spies depth pid = some (some info)) :
    info.pid = pid ∧ Recorded spies info := by
  induction depth generalizing pid info with
  | zero => cases h
  | succ depth ih =>
    unfold getProcessInfo at h
    split at h
    · cases h
    · rename_i spy hspy
      split at h
      · cases h
        exact ⟨rfl, .top hspy⟩
      · rename_i parentpid hparent
        obtain ⟨parent, hinfo, heq⟩ := Option.map_eq_some_iff.mp h
        cases heq
        cases parent with
        | none => exact ⟨rfl, .top hspy⟩
        | some parent =>
          obtain ⟨rfl, hrecorded⟩ := ih hinfo
          exact ⟨rfl, .child hspy hparent hrecorded⟩

/-- A process that is recorded has an ancestry. -/
theorem getProcessInfo_ne_none {spy : SpyThread α} (hspy : spies.lookup pid = some spy) {info : Option ProcessInfo}
    (h : getProcessInfo spies depth pid = some info) : info ≠ none := by
  cases depth with
  | zero => cases h
  | succ depth =>
    unfold getProcessInfo at h
    simp only [hspy] at h
    split at h
    · cases h
      exact Option.some_ne_none _
    · obtain ⟨parent, -, rfl⟩ := Option.map_eq_some_iff.mp h
      exact Option.some_ne_none _

/-- An ancestry is what is found now exactly if nothing is recorded of the parent of its top. -/
theorem Recorded.found_iff {info : ProcessInfo} (h : Recorded spies info) :
    (∃ depth, getProcessInfo spies depth info.pid = some (some info)) ↔
      ∀ parentpid, spies.parent info.top = some parentpid → spies.lookup parentpid = none := by
  induction h with
  | @top pid spy hspy =>
    have hup : spies.parent pid = spy.parent := by rw [Spies.parent, hspy, Option.bind_some]
    rw [ProcessInfo.top, hup]
    constructor
    · rintro ⟨depth, hfound⟩ parentpid hparent
      cases depth with
      | zero => cases hfound
      | succ depth =>
        unfold getProcessInfo at hfound
        simp only [hspy, hparent] at hfound
        obtain ⟨parent, hinfo, heq⟩ := Option.map_eq_some_iff.mp hfound
        cases heq
        by_contra hrecorded
        obtain ⟨above, habove⟩ := Option.ne_none_iff_exists'.mp hrecorded
        exact getProcessInfo_ne_none habove hinfo rfl
    · intro hlast
      cases hparent : spy.parent with
      | none => exact ⟨1, by simp only [getProcessInfo, hspy, hparent]⟩
      | some parentpid =>
        have hnone := hlast parentpid hparent
        exact ⟨2, by simp only [getProcessInfo, hspy, hparent, hnone, Option.map_some]⟩
  | @child pid spy parent hspy hparent hrecorded ih =>
    rw [ProcessInfo.top, ← ih]
    constructor
    · rintro ⟨depth, hfound⟩
      cases depth with
      | zero => cases hfound
      | succ depth =>
        unfold getProcessInfo at hfound
        simp only [hspy, hparent] at hfound
        obtain ⟨above, hinfo, heq⟩ := Option.map_eq_some_iff.mp hfound
        cases heq
        exact ⟨depth, hinfo⟩
    · rintro ⟨depth, hfound⟩
      exact ⟨depth + 1, by simp only [getProcessInfo, hspy, hparent, hfound, Option.map_some]⟩

/-! ## The loop over the traces -/

/-- What the loop leaves: the traces show what is known of their processes, what was known stays so, and what is
new has just been found. -/
structure Annotates (spies : Spies α) (infos infos' : ProcessInfos) (traces annotated : List StackTrace) : Prop where
  annotated_eq : annotated = traces.map fun trace => { trace with processInfo := (infos' trace.pid).join }
  kept : ∀ pid info, infos pid = some info → infos' pid = some info
  known : ∀ trace ∈ traces, infos' trace.pid ≠ none
  found : ∀ pid info, infos' pid = some info → infos pid = some info ∨
    (∃ trace ∈ traces, trace.pid = pid) ∧ ∃ depth, getProcessInfo spies depth pid = some info

theorem annotates_cons {infos before infos' : ProcessInfos} {trace : StackTrace} {traces annotated : List StackTrace}
    {info : Option ProcessInfo} (hinfo : before trace.pid = some info)
    (hkept : ∀ pid info, infos pid = some info → before pid = some info)
    (hfound : ∀ pid info, before pid = some info → infos pid = some info ∨
      trace.pid = pid ∧ ∃ depth, getProcessInfo spies depth pid = some info)
    (h : Annotates spies before infos' traces annotated) :
    Annotates spies infos infos' (trace :: traces) ({ trace with processInfo := info } :: annotated) where
  annotated_eq := by
    rw [List.map_cons, ← h.annotated_eq, h.kept _ _ hinfo]
    rfl
  kept pid info hknown := h.kept pid info (hkept pid info hknown)
  known := by
    rw [List.forall_mem_cons, h.kept _ _ hinfo]
    exact ⟨Option.some_ne_none info, h.known⟩
  found pid other hother := by
    rcases h.found pid other hother with hbefore | ⟨⟨later, hlater, hpid⟩, hdepth⟩
    · rcases hfound pid other hbefore with hknown | ⟨hpid, hdepth⟩
      · exact .inl hknown
      · exact .inr ⟨⟨trace, List.mem_cons_self, hpid⟩, hdepth⟩
    · exact .inr ⟨⟨later, List.mem_cons_of_mem _ hlater, hpid⟩, hdepth⟩

theorem annotate_annotates {infos infos' : ProcessInfos} {traces annotated : List StackTrace}
    (h : annotate spies depth infos traces = some (annotated, infos')) :
    Annotates spies infos infos' traces annotated := by
  induction traces generalizing infos annotated with
  | nil =>
    cases h
    exact ⟨rfl, fun _ _ hknown => hknown, List.forall_mem_nil _, fun _ _ hknown => .inl hknown⟩
  | cons trace traces ih =>
    unfold annotate at h
    split at h
    · rename_i info hinfo
      obtain ⟨rest, hrest, heq⟩ := Option.map_eq_some_iff.mp h
      cases heq
      exact annotates_cons hinfo (fun _ _ hknown => hknown) (fun _ _ hknown => .inl hknown) (ih hrest)
    · rename_i hnone
      split at h
      · cases h
      · rename_i info hfound
        obtain ⟨rest, hrest, heq⟩ := Option.map_eq_some_iff.mp h
        cases heq
        refine annotates_cons (Function.update_self ..) (fun pid other hknown => ?_) (fun pid other hother => ?_)
          (ih hrest)
        · have hne : pid ≠ trace.pid := by
            rintro rfl
            rw [hnone] at hknown
            cases hknown
          rw [Function.update_of_ne hne]
          exact hknown
        · by_cases hpid : pid = trace.pid
          · subst hpid
            rw [Function.update_self] at hother
            cases hother
            exact .inr ⟨rfl, depth, hfound⟩
          · rw [Function.update_of_ne hpid] at hother
            exact .inl hother

/-- Where the ancestries end, so does the loop. -/
theorem annotate_returns (hends : AncestryEnds spies) (infos : ProcessInfos) (traces : List StackTrace) :
    ∃ depth annotated, annotate spies depth infos traces = some annotated := by
  suffices h : ∃ depth, ∀ more infos, depth ≤ more → ∃ annotated, annotate spies more infos traces = some annotated by
    obtain ⟨depth, hdepth⟩ := h
    exact ⟨depth, hdepth depth infos le_rfl⟩
  induction traces with
  | nil => exact ⟨0, fun more infos _ => ⟨_, rfl⟩⟩
  | cons trace traces ih =>
    obtain ⟨rest, hrest⟩ := ih
    obtain ⟨depth, info, hinfo⟩ := hends trace.pid
    have hmore : ∀ n, getProcessInfo spies (depth + n) trace.pid = some info := by
      intro n
      induction n with
      | zero => exact hinfo
      | succ n ihn => exact getProcessInfo_succ ihn
    refine ⟨depth + rest, fun more infos hle => ?_⟩
    obtain ⟨n, rfl⟩ := Nat.exists_eq_add_of_le (le_trans (Nat.le_add_right depth rest) hle)
    have hrests : rest ≤ depth + n := le_trans (Nat.le_add_left rest depth) hle
    unfold annotate
    split
    · obtain ⟨annotated, hannotated⟩ := hrest (depth + n) infos hrests
      rw [hannotated]
      exact ⟨_, rfl⟩
    · obtain ⟨annotated, hannotated⟩ := hrest (depth + n) (Function.update infos trace.pid (some info)) hrests
      simp only [hmore n, hannotated]
      exact ⟨_, rfl⟩

/-! ## The table grows -/

/-- Every process is recorded as it was. -/
def Grows (spies spies' : Spies α) : Prop :=
  ∀ pid spy, spies.lookup pid = some spy →
    ∃ spy', spies'.lookup pid = some spy' ∧ spy'.parent = spy.parent ∧ spy'.commandLine = spy.commandLine

theorem Recorded.grows {info : ProcessInfo} (h : Recorded spies info) (hgrows : Grows spies spies') :
    Recorded spies' info := by
  induction h with
  | @top pid spy hspy =>
    obtain ⟨spy', hspy', -, hcommandLine⟩ := hgrows pid spy hspy
    rw [← hcommandLine]
    exact .top hspy'
  | @child pid spy parent hspy hparent _ ih =>
    obtain ⟨spy', hspy', hsame, hcommandLine⟩ := hgrows pid spy hspy
    rw [← hcommandLine]
    exact .child hspy' (hsame.trans hparent) ih

theorem grows_refl (spies : Spies α) : Grows spies spies := fun _ spy hspy => ⟨spy, hspy, rfl, rfl⟩

theorem grows_insert {spy spy' : SpyThread α} (hspy : spies.lookup pid = some spy) (hparent : spy'.parent = spy.parent)
    (hcommandLine : spy'.commandLine = spy.commandLine) : Grows spies (spies.insert pid spy') := by
  intro other old hold
  by_cases hne : other = pid
  · subst hne
    rw [hspy] at hold
    cases hold
    exact ⟨spy', AList.lookup_insert _, hparent, hcommandLine⟩
  · exact ⟨old, by rw [AList.lookup_insert_ne hne]; exact hold, rfl, rfl⟩

theorem grows_create (hnew : spies.lookup pid = none) (spy : SpyThread α) : Grows spies (spies.insert pid spy) := by
  intro other old hold
  have hne : other ≠ pid := by
    rintro rfl
    rw [hnew] at hold
    cases hold
  exact ⟨old, by rw [AList.lookup_insert_ne hne]; exact hold, rfl, rfl⟩

namespace SpyThread

variable {spy spy' : SpyThread α}

theorem work_commandLine {action : WorkerAction α} (h : spy.work action = some spy') :
    spy'.commandLine = spy.commandLine := by
  cases action with
  | retryNew ok => obtain ⟨-, rfl | rfl⟩ := work_retryNew h <;> rfl
  | receive => obtain ⟨-, rfl | ⟨round, rest, -, rfl⟩⟩ := work_receive h <;> rfl
  | answer result => obtain ⟨round, -, rfl | rfl⟩ := work_answer h <;> rfl
  | quit => rw [work_quit h]
  | drop => obtain ⟨-, rfl | rfl | ⟨-, rfl⟩⟩ := work_drop h <;> rfl

theorem isInitialized_commandLine : spy.isInitialized.2.commandLine = spy.commandLine := by
  obtain ⟨_, _, _, hframe⟩ := spy.isInitialized_frame
  rw [hframe]

theorem notify_commandLine (round : Nat) : (spy.notify round).commandLine = spy.commandLine := by
  obtain ⟨_, _, _, hframe⟩ := spy.notify_frame round
  rw [hframe]

theorem collect_commandLine {round : Nat} {result : Option α} (h : spy.collect round = some (result, spy')) :
    spy'.commandLine = spy.commandLine := by
  obtain ⟨_, _, _, _, rfl, -⟩ := collect_frame h
  rfl

end SpyThread

/-- Once samples are taken, a step records new processes only. -/
theorem SamplerState.step_grows {s s' : SamplerState α} {event : SamplerEvent α} (hmain : s.main = .sampling)
    (hstep : s.step event = some s') : Grows s.spies s'.spies := by
  cases event with
  | worker pid action =>
    obtain ⟨spy, spy', hspy, hwork, rfl⟩ := step_worker hstep
    exact grows_insert hspy (SpyThread.work_parent hwork) (SpyThread.work_commandLine hwork)
  | main action => exact absurd hmain (mainStep_moves hstep).1
  | monitor action =>
    cases (monitorStep_moves hstep).2 with
    | still => exact grows_refl s.spies
    | create _ hnew parent commandLine => exact grows_create hnew _
  | sampler action =>
    cases samplerStep_roundMoves hstep with
    | check _ hspy => exact grows_insert hspy SpyThread.isInitialized_parent SpyThread.isInitialized_commandLine
    | notify _ hspy => exact grows_insert hspy SpyThread.notify_parent (SpyThread.notify_commandLine s.round)
    | collect _ hspy hcollect =>
      exact grows_insert hspy (SpyThread.collect_parent hcollect) (SpyThread.collect_commandLine hcollect)
    | _ => exact grows_refl s.spies
  | dropReceiver =>
    obtain ⟨-, rfl⟩ := step_dropReceiver hstep
    exact grows_refl s.spies

namespace SamplerState

variable {s s' : SamplerState α}

theorem step_sampling {event : SamplerEvent α} (hmain : s.main = .sampling) (hstep : s.step event = some s') :
    s'.main = .sampling := by
  cases event with
  | worker pid action =>
    obtain ⟨spy, spy', -, -, rfl⟩ := step_worker hstep
    exact hmain
  | main action => exact absurd hmain (mainStep_moves hstep).1
  | monitor action => cases (monitorStep_moves hstep).2 <;> exact hmain
  | sampler action => cases samplerStep_roundMoves hstep <;> exact hmain
  | dropReceiver =>
    obtain ⟨-, rfl⟩ := step_dropReceiver hstep
    exact hmain

theorem samplerStep_send (h : s.samplerStep .send = some s') :
    s.main = .sampling ∧ s.sampler = .collecting [] ∧ s'.spies = s.spies ∧ s'.main = s.main ∧
      s'.samples = if s.receiver then s.samples ++ [s.results] else s.samples := by
  simp only [samplerStep] at h
  split at h
  · rename_i hmain
    cases hpc : s.sampler with
    | collecting todo =>
      cases todo with
      | nil =>
        simp only [hpc] at h
        split at h
        · rename_i hreceiver
          cases h
          exact ⟨hmain, rfl, rfl, rfl, (if_pos hreceiver).symm⟩
        · rename_i hreceiver
          cases h
          exact ⟨hmain, rfl, rfl, rfl, (if_neg hreceiver).symm⟩
      | cons pid todo => simp [hpc] at h
    | checking todo => cases todo <;> simp [hpc] at h
    | _ => simp [hpc] at h
  · cases h

/-- Only the sampling thread sends. -/
theorem step_samples {event : SamplerEvent α} (h : s.step event = some s') (hne : event ≠ .sampler .send) :
    s'.samples = s.samples := by
  cases event with
  | worker pid action =>
    obtain ⟨spy, spy', -, -, rfl⟩ := step_worker h
    rfl
  | main action => cases (mainStep_moves h).2 <;> rfl
  | monitor action => cases (monitorStep_moves h).2 <;> rfl
  | sampler action =>
    cases action with
    | send => exact absurd rfl hne
    | _ =>
      cases samplerStep_roundMoves h with
      | @send hpc =>
        simp only [SamplerState.step, samplerStep, hpc] at h
        split at h <;> cases h
      | _ => rfl
  | dropReceiver =>
    obtain ⟨-, rfl⟩ := step_dropReceiver h
    rfl

end SamplerState

namespace SpiesState

variable {lower : String → String} {native : Native} {config : SpyConfig} {s s' : SpiesState} {event : SpiesEvent}

theorem step_samples (hstep : s.step lower native config event = some s') (hsends : event.sends = false) :
    s'.threads.samples = s.threads.samples := by
  obtain ⟨below, hthreads, -, hbelow⟩ := step_below hstep
  refine SamplerState.step_samples hthreads ?_
  rintro rfl
  rcases hbelow with ⟨pid, action, heq⟩ | rfl
  · cases heq
  · cases hsends

/-- The processes of the traces of a round are recorded. -/
theorem Inv.roundTraces (h : s.Inv lower native config) {todo : List Pid} (hpc : s.threads.sampler = .collecting todo) :
    ∀ trace ∈ roundTraces s.threads.results, ∃ thread, s.threads.spies.lookup trace.pid = some thread := by
  intro trace htrace
  obtain ⟨⟨pid, result⟩, hresult, htrace⟩ := List.mem_flatMap.mp htrace
  cases result with
  | error e => cases htrace
  | ok traces =>
    have hpid : trace.pid = pid := (h.gathers.results _ hresult traces rfl trace htrace).pid_eq
    by_contra hnot
    have hnothing := h.streams.absent pid (hpid ▸ Option.eq_none_iff_forall_ne_some.mpr (not_exists.mp hnot))
    rw [SamplerState.told_collecting hpc, SamplerState.resultsOf_append, List.append_eq_nil_iff] at hnothing
    have hmem : Except.ok traces ∈ SamplerState.resultsOf pid s.threads.results :=
      SamplerState.mem_resultsOf.mpr hresult
    rw [hnothing.2] at hmem
    cases hmem

end SpiesState

/-! ## Runs -/

/-- A sample shows the traces of a round with what is known of their processes. -/
def Shows (infos : ProcessInfos) (results : List (Pid × WorkerResult)) (sample : Sample) : Prop :=
  (∀ trace ∈ roundTraces results, infos trace.pid ≠ none) ∧
    ∃ late, sample = sampleOfRound (fun pid => (infos pid).join) late results

/-- What is known stays so, and with it what the samples show. -/
theorem Shows.kept {infos infos' : ProcessInfos} (hkept : ∀ pid info, infos pid = some info → infos' pid = some info)
    {results : List (Pid × WorkerResult)} {sample : Sample} (h : Shows infos results sample) :
    Shows infos' results sample := by
  obtain ⟨hknown, late, rfl⟩ := h
  have hsame : ∀ trace ∈ roundTraces results, infos' trace.pid = infos trace.pid := by
    intro trace htrace
    obtain ⟨info, hinfo⟩ := Option.ne_none_iff_exists'.mp (hknown trace htrace)
    rw [hinfo]
    exact hkept _ _ hinfo
  refine ⟨fun trace htrace => hsame trace htrace ▸ hknown trace htrace, late, ?_⟩
  unfold sampleOfRound
  congr 1
  refine List.map_congr_left fun trace htrace => ?_
  dsimp only
  rw [hsame trace htrace]

theorem Annotates.shows {infos infos' : ProcessInfos} {results : List (Pid × WorkerResult)}
    {annotated : List StackTrace} (h : Annotates spies infos infos' (roundTraces results) annotated)
    (late : Option Nat) : Shows infos' results { traces := annotated, samplingErrors := roundErrors results, late } :=
  ⟨h.known, late, by rw [h.annotated_eq]; rfl⟩

namespace AnnotatedState

variable {lower : String → String} {native : Native} {config : SpyConfig} {s s' : AnnotatedState}
  {event : AnnotatedEvent}

structure Inv (lower : String → String) (native : Native) (config : SpyConfig) (s : AnnotatedState) : Prop where
  below : s.below.Inv lower native config
  sent : List.Forall₂ (Shows s.processInfo) s.below.threads.samples s.sent
  recorded : ∀ pid info, s.processInfo pid = some info →
    ∃ found, info = some found ∧ found.pid = pid ∧ Recorded s.below.threads.spies found
  discovery : s.below.threads.main ≠ .sampling → ∀ pid, s.processInfo pid = none

theorem Inv.start (pid : Pid) (commandLine : String) : (start pid commandLine).Inv lower native config where
  below := .start pid commandLine
  sent := .nil
  recorded _ _ hinfo := by cases hinfo
  discovery _ _ := rfl

theorem Inv.stepBelow (h : s.Inv lower native config) {event : SpiesEvent} {below : SpiesState}
    (hsends : event.sends = false) (hstep : s.below.step lower native config event = some below) :
    ({ s with below } : AnnotatedState).Inv lower native config := by
  obtain ⟨threads, hthreads, -⟩ := SpiesState.step_threads h.below.serves hstep
  have hsent : List.Forall₂ (Shows s.processInfo) below.threads.samples s.sent := by
    rw [SpiesState.step_samples hstep hsends]
    exact h.sent
  by_cases hmain : s.below.threads.main = .sampling
  · refine ⟨h.below.step hstep, hsent, fun pid info hinfo => ?_, fun hnot => ?_⟩
    · obtain ⟨found, hfound, hpid, hrecorded⟩ := h.recorded pid info hinfo
      exact ⟨found, hfound, hpid, hrecorded.grows (SamplerState.step_grows hmain hthreads)⟩
    · exact absurd (SamplerState.step_sampling hmain hthreads) hnot
  · have hnone := h.discovery hmain
    refine ⟨h.below.step hstep, hsent, fun pid info hinfo => ?_, fun _ => hnone⟩
    rw [hnone pid] at hinfo
    cases hinfo

theorem Inv.send (h : s.Inv lower native config) {depth : Nat} {late : Option Nat}
    (hstep : s.step lower native config (.send depth late) = some s') : s'.Inv lower native config := by
  simp only [AnnotatedState.step] at hstep
  split at hstep
  · cases hstep
  · rename_i traces infos hannotate
    obtain ⟨below, hbelow, rfl⟩ := Option.map_eq_some_iff.mp hstep
    obtain ⟨threads, hthreads, hsent⟩ := Option.map_eq_some_iff.mp hbelow
    have hannotates := annotate_annotates hannotate
    have hold := h.sent.imp fun _ _ => Shows.kept hannotates.kept
    obtain ⟨hmain, hpc, hspies, hmain', hsamples⟩ := SamplerState.samplerStep_send hthreads
    have hbelow' := h.below.step hbelow
    subst hsent
    refine ⟨hbelow', ?_, fun pid info hinfo => ?_, fun hnot => absurd (hmain'.trans hmain) hnot⟩
    · dsimp only
      rw [hsamples]
      split
      · exact List.rel_append hold (.cons (hannotates.shows late) .nil)
      · exact hold
    · dsimp only at hinfo ⊢
      rw [hspies]
      rcases hannotates.found pid info hinfo with hknown | ⟨⟨trace, htrace, rfl⟩, depth, hfound⟩
      · exact h.recorded pid info hknown
      · obtain ⟨thread, hthread⟩ := h.below.roundTraces hpc trace htrace
        obtain ⟨found, rfl⟩ := Option.ne_none_iff_exists'.mp (getProcessInfo_ne_none hthread hfound)
        exact ⟨found, rfl, getProcessInfo_recorded hfound⟩

theorem Inv.step (h : s.Inv lower native config) (hstep : s.step lower native config event = some s') :
    s'.Inv lower native config := by
  cases event with
  | below event =>
    simp only [AnnotatedState.step] at hstep
    split at hstep
    · cases hstep
    · rename_i hsends
      obtain ⟨below, hbelow, rfl⟩ := Option.map_eq_some_iff.mp hstep
      exact h.stepBelow (Bool.eq_false_iff.mpr hsends) hbelow
  | send depth late => exact h.send hstep

theorem Inv.run {root : Pid} {commandLine : String} {events : List AnnotatedEvent}
    (hrun : Runs.run (AnnotatedState.step lower native config) (AnnotatedState.start root commandLine) events =
      some s) : s.Inv lower native config :=
  Runs.run_invariant (fun h hstep => h.step hstep) hrun (.start root commandLine)

/-- Each step is one of the same party below. -/
theorem step_below (hstep : s.step lower native config event = some s') :
    ∃ below, s.below.threads.step below = some s'.below.threads ∧ below.party = event.party := by
  cases event with
  | below event =>
    simp only [AnnotatedState.step] at hstep
    split at hstep
    · cases hstep
    · obtain ⟨state, hstate, rfl⟩ := Option.map_eq_some_iff.mp hstep
      obtain ⟨below, hbelow, hparty, -⟩ := SpiesState.step_below hstate
      exact ⟨below, hbelow, hparty⟩
  | send depth late =>
    simp only [AnnotatedState.step] at hstep
    split at hstep
    · cases hstep
    · obtain ⟨state, hstate, rfl⟩ := Option.map_eq_some_iff.mp hstep
      obtain ⟨threads, hthreads, rfl⟩ := Option.map_eq_some_iff.mp hstate
      exact ⟨_, hthreads, rfl⟩

/-- The next round can be sent if the ancestries end. -/
theorem send_ready (hmain : s.below.threads.main = .sampling) (hpc : s.below.threads.sampler = .collecting [])
    (hends : AncestryEnds s.below.threads.spies) (late : Option Nat) :
    ∃ depth s', s.step lower native config (.send depth late) = some s' := by
  obtain ⟨depth, annotated, hannotated⟩ := annotate_returns hends s.processInfo (roundTraces s.below.threads.results)
  refine ⟨depth, ?_⟩
  have hsend : ∃ threads, s.below.threads.step (.sampler .send) = some threads := by
    simp only [SamplerState.step, SamplerState.samplerStep, hmain, hpc, if_true]
    split
    · exact ⟨_, rfl⟩
    · exact ⟨_, rfl⟩
  obtain ⟨threads, hthreads⟩ := hsend
  simp only [AnnotatedState.step, hannotated, SpiesState.step, SamplerEvent.ofSpy, hthreads, Option.map_some]
  exact ⟨_, rfl⟩

end AnnotatedState

/-- In every interleaving, all traces of a process show one ancestry in every sample: the first that was found, each
of its links recorded to this day. It is what would be found now exactly if nothing is recorded of the parent of its
top. Where the ancestries end, the round at hand can be sent. -/
theorem run_annotated {lower : String → String} {native : Native} {config : SpyConfig} {s : AnnotatedState} {root : Pid}
    {commandLine : String} {events : List AnnotatedEvent}
    (hrun : Runs.run (AnnotatedState.step lower native config) (AnnotatedState.start root commandLine) events =
      some s) :
    ∃ processInfo : Pid → Option ProcessInfo,
      List.Forall₂ (fun results sample => (∃ late, sample = sampleOfRound processInfo late results) ∧
        ∀ trace ∈ roundTraces results, (processInfo trace.pid).isSome) s.below.threads.samples s.sent ∧
      (∀ pid info, processInfo pid = some info →
        info.pid = pid ∧ Recorded s.below.threads.spies info ∧
          ((∃ depth, getProcessInfo s.below.threads.spies depth pid = some (some info)) ↔
            ∀ parentpid, s.below.threads.spies.parent info.top = some parentpid →
              s.below.threads.spies.lookup parentpid = none)) ∧
      (s.below.threads.main = .sampling → s.below.threads.sampler = .collecting [] →
        AncestryEnds s.below.threads.spies →
          ∀ late, ∃ depth s', s.step lower native config (.send depth late) = some s') := by
  have hinv := AnnotatedState.Inv.run hrun
  refine ⟨fun pid => (s.processInfo pid).join, hinv.sent.imp fun results sample hshows => ?_, fun pid info hinfo => ?_,
    fun hmain hpc hends late => s.send_ready hmain hpc hends late⟩
  · obtain ⟨hknown, hsample⟩ := hshows
    refine ⟨hsample, fun trace htrace => ?_⟩
    obtain ⟨info, hinfo⟩ := Option.ne_none_iff_exists'.mp (hknown trace htrace)
    obtain ⟨found, rfl, -⟩ := hinv.recorded _ info hinfo
    show ((s.processInfo trace.pid).join).isSome = true
    rw [hinfo]
    rfl
  · obtain ⟨found, heq, hpid, hrecorded⟩ := hinv.recorded pid (some info) (Option.join_eq_some_iff.mp hinfo)
    cases heq
    rw [← hpid]
    exact ⟨rfl, hrecorded, hrecorded.found_iff⟩

/-- The child's trace shows the root above it. -/
def annotatedProcesses : List AnnotatedEvent :=
  SpiesState.zoneProcesses.map fun event => if event.sends then .send 3 none else .below event

theorem run_annotated_zoneProcesses :
    ∃ s, Runs.run (AnnotatedState.step id SmalltalkSpy.noNative SingleSampler.zoneConfig)
        (AnnotatedState.start 1 "root") annotatedProcesses = some s ∧
      s.sent.map (fun sample => sample.traces.map fun trace => trace.processInfo) =
        [[some ⟨2, "child", some ⟨1, "root", none⟩⟩, some ⟨1, "root", none⟩]] ∧
      ∃ processInfo : Pid → Option ProcessInfo,
        List.Forall₂ (fun results sample => (∃ late, sample = sampleOfRound processInfo late results) ∧
          ∀ trace ∈ roundTraces results, (processInfo trace.pid).isSome) s.below.threads.samples s.sent ∧
        (∀ pid info, processInfo pid = some info →
          info.pid = pid ∧ Recorded s.below.threads.spies info ∧
            ((∃ depth, getProcessInfo s.below.threads.spies depth pid = some (some info)) ↔
              ∀ parentpid, s.below.threads.spies.parent info.top = some parentpid →
                s.below.threads.spies.lookup parentpid = none)) ∧
        (s.below.threads.main = .sampling → s.below.threads.sampler = .collecting [] →
          AncestryEnds s.below.threads.spies →
            ∀ late, ∃ depth s',
              s.step id SmalltalkSpy.noNative SingleSampler.zoneConfig (.send depth late) = some s') :=
  have hrun : ∃ s, Runs.run (AnnotatedState.step id SmalltalkSpy.noNative SingleSampler.zoneConfig)
      (AnnotatedState.start 1 "root") annotatedProcesses = some s ∧
      s.sent.map (fun sample => sample.traces.map fun trace => trace.processInfo) =
        [[some ⟨2, "child", some ⟨1, "root", none⟩⟩, some ⟨1, "root", none⟩]] := ⟨_, rfl, rfl⟩
  let ⟨s, hs, htraces⟩ := hrun
  ⟨s, hs, htraces, run_annotated hs⟩

end StSpy
