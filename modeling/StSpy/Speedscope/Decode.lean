import StSpy.Speedscope
import Mathlib.Algebra.Group.Nat.Defs
import Mathlib.Data.List.Induction

/-!
# Reading the speedscope profile back

The indices stored for a thread denote the frames of its traces, the outermost
first, in both line modes. The invariant of a run is that every index the map
holds denotes the frame it is for; the table of frames only grows.
-/

namespace StSpy.Speedscope

/-- A thread id that fits a `Tid`. -/
def InTid (threadId : UInt64) : Prop := threadId.toNat < 2 ^ 31

instance InTid.decidable (threadId : UInt64) : Decidable (InTid threadId) := Nat.decLt _ _

theorem asTid_inj {a b : UInt64} (ha : InTid a) (hb : InTid b) (h : asTid a = asTid b) : a = b := by
  have h32 : a.toUInt32 = b.toUInt32 := by
    have := congrArg Int32.toUInt32 h
    simpa [asTid] using this
  have hnat := congrArg UInt32.toNat h32
  simp only [UInt64.toNat_toUInt32] at hnat
  unfold InTid at ha hb
  exact UInt64.toNat.inj (by omega)

/-- A stored frame has the name and the file of a frame, and its line when lines are shown. -/
def Shows (showLineNumbers : Bool) (frame : StSpy.Frame) (stored : Frame) : Prop :=
  stored.name = frame.name ∧ stored.file = some frame.filename ∧
    (showLineNumbers = true → stored.line = some frame.line.toUInt32)

/-- Stored indices decode to the frames of a trace. -/
structure SampleOf (frames : List Frame) (showLineNumbers : Bool) (indices : List Nat) (trace : StackTrace) :
    Prop where
  below : ∀ i ∈ indices, i < frames.length
  frames : List.Forall₂ (Interning.Denotes (Shows showLineNumbers) frames) indices trace.frames.reverse

/-- The traces of one thread of one process. -/
def ofThread (pid : Pid) (tid : UInt64) (traces : List StackTrace) : List StackTrace :=
  traces.filter fun trace => trace.pid = pid ∧ trace.threadId = tid

variable {config : Config} {s : Stats} {traces : List StackTrace} {trace : StackTrace}

/-! ## Frames -/

theorem shows_frameKey (showLineNumbers : Bool) (frame : StSpy.Frame) (stored : Frame) :
    Shows showLineNumbers (frameKey showLineNumbers frame) stored ↔ Shows showLineNumbers frame stored := by
  cases showLineNumbers <;> simp [Shows, frameKey]

theorem shows_new (showLineNumbers : Bool) (frame : StSpy.Frame) :
    Shows showLineNumbers (frameKey showLineNumbers frame) (Frame.new frame showLineNumbers) := by
  rw [shows_frameKey]
  refine ⟨rfl, rfl, fun hshow => ?_⟩
  rw [Frame.new, hshow]
  rfl

theorem SampleOf.of_denotes {frames : List Frame} {showLineNumbers : Bool} {indices : List Nat}
    (h : List.Forall₂ (Interning.Denotes (Shows showLineNumbers) frames) indices trace.frames.reverse) :
    SampleOf frames showLineNumbers indices trace :=
  ⟨((List.forall₂_and_left _ _).mp (h.imp fun _ _ hi => ⟨hi.lt, hi⟩)).1, h⟩

theorem SampleOf.mono {frames more : List Frame} {showLineNumbers : Bool} {indices : List Nat}
    (h : SampleOf frames showLineNumbers indices trace) (hpre : frames <+: more) :
    SampleOf more showLineNumbers indices trace :=
  .of_denotes (h.frames.imp fun _ _ hi => hi.mono hpre)

/-! ## Runs -/

/-- What the statistics hold after the traces. -/
structure Recorded (config : Config) (s : Stats) (traces : List StackTrace) : Prop where
  configured : s.config = config
  interned : Interning.Sound (Shows config.showLineNumbers) ⟨s.frames, s.frameToIndex⟩
  stored : ∀ pid tid, InTid tid → List.Forall₂ (SampleOf s.frames config.showLineNumbers)
    ((s.samples.lookup (pid, asTid tid)).getD []) (ofThread pid tid traces)
  keys : ∀ key, key ∈ s.samples ↔ ∃ trace ∈ traces, key = (trace.pid, asTid trace.threadId)

theorem recorded_new (config : Config) : Recorded config (Stats.new config) [] :=
  ⟨rfl, fun _ _ h => (by cases h), fun _ _ _ => .nil, fun key => by simp [Stats.new]⟩

/-- What a call adds: the table grows, and the new indices denote the frames of the trace. -/
theorem record_interns (h : Recorded config s traces) (trace : StackTrace) :
    ∃ indices,
      SampleOf (s.record trace).frames config.showLineNumbers indices trace ∧
      s.frames <+: (s.record trace).frames ∧
      Interning.Sound (Shows config.showLineNumbers) ⟨(s.record trace).frames, (s.record trace).frameToIndex⟩ ∧
      (s.record trace).samples = s.samples.insert (trace.pid, asTid trace.threadId)
        ((s.samples.lookup (trace.pid, asTid trace.threadId)).getD [] ++ [indices]) := by
  have hentries : ∀ e ∈ trace.frames.map fun frame =>
      (frameKey config.showLineNumbers frame, Frame.new frame config.showLineNumbers),
      Shows config.showLineNumbers e.1 e.2 := by
    intro e he
    obtain ⟨frame, _, rfl⟩ := List.mem_map.mp he
    exact shows_new _ frame
  obtain ⟨hsound, hpre, hall⟩ := Interning.denotes_internAll h.interned hentries
  rw [← h.configured] at hsound hpre hall ⊢
  refine ⟨(Interning.internAll ⟨s.frames, s.frameToIndex⟩ (trace.frames.map fun frame =>
    (frameKey s.config.showLineNumbers frame, Frame.new frame s.config.showLineNumbers))).1.reverse,
    ?_, hpre, hsound, rfl⟩
  have hframes : List.Forall₂ (Interning.Denotes (Shows s.config.showLineNumbers) (s.record trace).frames)
      (Interning.internAll ⟨s.frames, s.frameToIndex⟩ (trace.frames.map fun frame =>
        (frameKey s.config.showLineNumbers frame, Frame.new frame s.config.showLineNumbers))).1 trace.frames := by
    rw [List.map_map, List.forall₂_map_right_iff] at hall
    refine hall.imp fun i frame hi => ?_
    obtain ⟨stored, hstored, hshows⟩ := hi
    exact ⟨stored, hstored, (shows_frameKey _ _ _).mp hshows⟩
  exact .of_denotes (List.rel_reverse hframes)

theorem mem_record_samples (h : Recorded config s traces) (trace : StackTrace) (key : Pid × Tid) :
    key ∈ (s.record trace).samples ↔ key = (trace.pid, asTid trace.threadId) ∨ key ∈ s.samples := by
  obtain ⟨indices, -, -, -, hsamples⟩ := record_interns h trace
  rw [hsamples, AList.mem_insert]

theorem Recorded.record (h : Recorded config s traces) (htid : InTid trace.threadId) :
    Recorded config (s.record trace) (traces ++ [trace]) := by
  obtain ⟨indices, hsample, hpre, hsound, hsamples⟩ := record_interns h trace
  refine ⟨h.configured, hsound, fun pid tid ht => ?_, fun key => ?_⟩
  · have hstored := (h.stored pid tid ht).imp fun _ _ hs => hs.mono hpre
    rw [hsamples]
    by_cases hkey : trace.pid = pid ∧ trace.threadId = tid
    · obtain ⟨rfl, rfl⟩ := hkey
      have hof : ofThread trace.pid trace.threadId (traces ++ [trace]) =
          ofThread trace.pid trace.threadId traces ++ [trace] := by simp [ofThread]
      rw [AList.lookup_insert, hof, Option.getD_some]
      exact List.rel_append hstored (.cons hsample .nil)
    · have hof : ofThread pid tid (traces ++ [trace]) = ofThread pid tid traces := by
        rw [ofThread, List.filter_append, ← ofThread]
        simp [hkey]
      have hne : (pid, asTid tid) ≠ (trace.pid, asTid trace.threadId) := by
        intro heq
        obtain ⟨hpid, hasTid⟩ := Prod.mk.inj heq
        exact hkey ⟨hpid.symm, (asTid_inj ht htid hasTid).symm⟩
      rw [AList.lookup_insert_ne hne, hof]
      exact hstored
  · rw [mem_record_samples h, h.keys]
    constructor
    · rintro (rfl | ⟨t, ht, rfl⟩)
      · exact ⟨trace, by simp, rfl⟩
      · exact ⟨t, List.mem_append_left _ ht, rfl⟩
    · rintro ⟨t, ht, rfl⟩
      rcases List.mem_append.mp ht with ht | ht
      · exact .inr ⟨t, ht, rfl⟩
      · rw [List.mem_singleton.mp ht]
        exact .inl rfl

theorem recordAll_concat (config : Config) (traces : List StackTrace) (trace : StackTrace) :
    Stats.recordAll config (traces ++ [trace]) = (Stats.recordAll config traces).record trace := by
  rw [Stats.recordAll, List.foldl_append]
  rfl

theorem recorded_recordAll (config : Config) (h : ∀ trace ∈ traces, InTid trace.threadId) :
    Recorded config (Stats.recordAll config traces) traces := by
  induction traces using List.reverseRecOn with
  | nil => exact recorded_new config
  | append_singleton traces trace ih =>
    rw [recordAll_concat]
    exact (ih fun t ht => h t (List.mem_append_left _ ht)).record (h trace (by simp))

/-- Later calls extend the frames and what is stored for each thread. -/
theorem recordAll_extends {more : List StackTrace} (h : ∀ trace ∈ traces ++ more, InTid trace.threadId) :
    (Stats.recordAll config traces).frames <+: (Stats.recordAll config (traces ++ more)).frames ∧
      ∀ key, ((Stats.recordAll config traces).samples.lookup key).getD [] <+:
        ((Stats.recordAll config (traces ++ more)).samples.lookup key).getD [] := by
  induction more using List.reverseRecOn with
  | nil =>
    rw [List.append_nil]
    exact ⟨List.prefix_rfl, fun _ => List.prefix_rfl⟩
  | append_singleton more trace ih =>
    rw [← List.append_assoc] at h ⊢
    have hbefore : ∀ t ∈ traces ++ more, InTid t.threadId := fun t ht => h t (List.mem_append_left _ ht)
    obtain ⟨hframes, hkeys⟩ := ih hbefore
    obtain ⟨indices, -, hpre, -, hsamples⟩ := record_interns (recorded_recordAll config hbefore) trace
    rw [recordAll_concat]
    refine ⟨hframes.trans hpre, fun key => (hkeys key).trans ?_⟩
    rw [hsamples]
    by_cases hkey : key = (trace.pid, asTid trace.threadId)
    · subst hkey
      rw [AList.lookup_insert, Option.getD_some]
      exact List.prefix_append _ _
    · simp [AList.lookup_insert_ne hkey]

/-! ## The file -/

/-- What the statistics, and the file written from them, say of the traces of a run. -/
structure Decodes (config : Config) (traces : List StackTrace) : Prop where
  samples : ∀ pid tid, InTid tid →
    List.Forall₂ (SampleOf (Stats.recordAll config traces).frames config.showLineNumbers)
      (((Stats.recordAll config traces).samples.lookup (pid, asTid tid)).getD []) (ofThread pid tid traces)
  keys : ∀ key, key ∈ (Stats.recordAll config traces).samples ↔
    ∃ trace ∈ traces, key = (trace.pid, asTid trace.threadId)
  /-- Later records never change what an earlier index denotes. -/
  stable : ∀ earlier, earlier <+: traces →
    (Stats.recordAll config earlier).frames <+: (Stats.recordAll config traces).frames ∧
      ∀ key, ((Stats.recordAll config earlier).samples.lookup key).getD [] <+:
        ((Stats.recordAll config traces).samples.lookup key).getD []
  /-- The file has the frames and, for each thread, one profile with its
  samples and as many weights. -/
  profiles : ∀ order, order.Perm (Stats.recordAll config traces).samples.entries →
    ((Stats.recordAll config traces).write order).shared.frames = (Stats.recordAll config traces).frames ∧
      (((Stats.recordAll config traces).write order).profiles.map fun p => (p.samples, p.weights.length)).Perm
        ((Stats.recordAll config traces).samples.entries.map fun entry => (entry.2, entry.2.length))

theorem recordAll_decodes (config : Config) (traces : List StackTrace)
    (h : ∀ trace ∈ traces, InTid trace.threadId) : Decodes config traces := by
  have hrecorded := recorded_recordAll config h
  refine ⟨hrecorded.stored, hrecorded.keys, ?_, fun order horder => ⟨rfl, ?_⟩⟩
  · rintro earlier ⟨more, rfl⟩
    exact recordAll_extends h
  · have hsorted := List.mergeSort_perm (order.map (Profile.ofThread
      (Stats.recordAll config traces).threadNameMap (Stats.recordAll config traces).config.samplingRate))
      fun a b => a.name ≤ b.name
    refine (hsorted.map _).trans ?_
    rw [List.map_map]
    have hentry : ((fun p : Profile => (p.samples, p.weights.length)) ∘ Profile.ofThread
        (Stats.recordAll config traces).threadNameMap (Stats.recordAll config traces).config.samplingRate) =
        fun entry => (entry.2, entry.2.length) := by
      funext entry
      simp [Profile.ofThread]
    rw [hentry]
    exact horder.map _

/-- Two threads that share a frame, in lines of their own. -/
def sharedFrame : List StackTrace :=
  [{ pid := 1, threadId := 1, frames := [⟨"test", "test.st", none, none, 3⟩] },
    { pid := 1, threadId := 2, frames := [⟨"test", "test.st", none, none, 8⟩, ⟨"run", "test.st", none, none, 1⟩] }]

theorem recordAll_decodes_sharedFrame : Decodes {} sharedFrame :=
  recordAll_decodes {} sharedFrame (by decide)

end StSpy.Speedscope
