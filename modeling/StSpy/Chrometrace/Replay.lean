import StSpy.Chrometrace
import StSpy.Lib.Replay
import Mathlib.Data.List.Induction

/-!
# Replaying the chrome trace

Replayed thread by thread, begin events pushing a slice and end events popping
it, the events of a run leave open the frames of each thread's last trace, and
those of `write` close them.
-/

namespace StSpy

/-- What an event says of the slice it begins or ends. -/
structure Slice where
  name : String
  filename : String
  line : Option UInt32
  deriving DecidableEq

namespace Event

def slice (e : Event) : Slice := { name := e.name, filename := e.args.filename, line := e.args.line }

def op (e : Event) : Option (Replay.Op Slice) :=
  if e.ph = "B" then some (.push e.slice)
  else if e.ph = "E" then some (.pop e.slice)
  else none

def thread (e : Event) : UInt64 × UInt64 := (e.pid, e.tid)

end Event

/-- The events of thread `k`, begins pushing and ends popping their slice. -/
def replayThread (k : UInt64 × UInt64) (events : List Event) (stack : List Slice) :
    Option (List Slice) :=
  Replay.replay Event.thread Event.op k events stack

theorem replayThread_append (k : UInt64 × UInt64) (l m : List Event) (stack : List Slice) :
    replayThread k (l ++ m) stack = (replayThread k l stack).bind (replayThread k m) :=
  Replay.replay_append l m stack

namespace Chrometrace

variable {c : Chrometrace} {trace : StackTrace} {now : UInt64} {k : UInt64 × UInt64}

/-- The slice a frame is shown as. -/
def slice (c : Chrometrace) (frame : Frame) : Slice where
  name := frame.name
  filename := frame.filename
  line := if c.showLinenumbers then some frame.line.toUInt32 else none

/-- Frames are merged exactly when they are shown alike. -/
theorem shouldMergeFrames_iff (a b : Frame) : c.shouldMergeFrames a b = decide (c.slice a = c.slice b) := by
  have hline : a.line.toUInt32 = b.line.toUInt32 ↔ a.line = b.line := by
    cases a.line; cases b.line; simp
  unfold shouldMergeFrames slice
  cases c.showLinenumbers <;> simp [hline, Bool.and_assoc]

theorem newIdx_eq (prevFrames : List Frame) :
    c.newIdx prevFrames trace = ((prevFrames.reverse.zip trace.frames.reverse).takeWhile fun x =>
      decide (c.slice x.1 = c.slice x.2)).length := by
  have hlen : (prevFrames.reverse.zip trace.frames.reverse).length =
      min prevFrames.length trace.frames.length := by simp
  rw [← Replay.getD_findIdx?, hlen]
  simp only [newIdx, shouldMergeFrames_iff]

theorem replay_ends (frames : List Frame) (stack : List Slice) :
    replayThread (trace.pidU64, trace.threadId) (frames.map fun frame => c.event trace frame "E" now)
      (frames.map c.slice ++ stack) = some stack :=
  Replay.replay_pops (f := fun frame => c.event trace frame "E" now) (fun _ => rfl) (fun _ => rfl) stack
    frames

theorem replay_begins (frames : List Frame) (stack : List Slice) :
    replayThread (trace.pidU64, trace.threadId) (frames.map fun frame => c.event trace frame "B" now) stack =
      some ((frames.map c.slice).reverse ++ stack) :=
  Replay.replay_pushes (f := fun frame => c.event trace frame "B" now) (fun _ => rfl) (fun _ => rfl) frames
    stack

/-- The frames of the thread's last trace. -/
def prevFrames (c : Chrometrace) (trace : StackTrace) : List Frame :=
  ((c.prevTraces.lookup trace.threadId).map (·.frames)).getD []

/-- The events one call adds. -/
def newEvents (c : Chrometrace) (now : UInt64) (trace : StackTrace) (prevFrames : List Frame) :
    List Event :=
  let newIdx := c.newIdx prevFrames trace
  ((prevFrames.reverse.drop newIdx).reverse.map fun frame => c.event trace frame "E" now) ++
    (trace.frames.reverse.drop newIdx).map fun frame => c.event trace frame "B" now

theorem increment_events (c : Chrometrace) (now : UInt64) (trace : StackTrace) :
    (c.increment now trace).events = c.events ++ c.newEvents now trace (c.prevFrames trace) :=
  List.append_assoc _ _ _

/-- They take the stack of the thread from the frames it had to those it has. -/
theorem replay_newEvents (prevFrames : List Frame) (hk : k = (trace.pidU64, trace.threadId)) :
    replayThread k (c.newEvents now trace prevFrames) (prevFrames.map c.slice) =
      some (trace.frames.map c.slice) := by
  subst hk
  have hagree := Replay.take_agreeing (g := c.slice) prevFrames.reverse trace.frames.reverse
  simp only [← newIdx_eq] at hagree
  unfold newEvents
  generalize c.newIdx prevFrames trace = n at hagree ⊢
  have hsplit : ∀ l : List Frame, l.map c.slice =
      (l.reverse.drop n).reverse.map c.slice ++ ((l.reverse.take n).map c.slice).reverse := by
    intro l
    rw [← List.map_reverse, ← List.map_append, ← List.reverse_append, List.take_append_drop,
      List.reverse_reverse]
  rw [replayThread_append, hsplit prevFrames, replay_ends, Option.bind_some, replay_begins,
    hagree, hsplit trace.frames, List.map_reverse]

/-! ## Runs -/

/-- The slices open on thread `k`: the frames of its last trace. -/
def openSlices (c : Chrometrace) (k : UInt64 × UInt64) : List Slice :=
  match c.prevTraces.lookup k.2 with
  | none => []
  | some trace => if trace.pidU64 = k.1 then trace.frames.map c.slice else []

/-- Traces of one thread id are of one process. -/
def OnePid (samples : List (UInt64 × StackTrace)) : Prop :=
  ∀ a ∈ samples, ∀ b ∈ samples, a.2.threadId = b.2.threadId → a.2.pid = b.2.pid

instance (samples : List (UInt64 × StackTrace)) : Decidable (OnePid samples) :=
  inferInstanceAs (Decidable (∀ a ∈ samples, ∀ b ∈ samples, a.2.threadId = b.2.threadId → a.2.pid = b.2.pid))

/-- What `c` holds after the samples. -/
structure Recorded (c : Chrometrace) (samples : List (UInt64 × StackTrace)) : Prop where
  stored : ∀ tid trace, c.prevTraces.lookup tid = some trace →
    trace.threadId = tid ∧ ∃ sample ∈ samples, sample.2 = trace
  replays : ∀ k, replayThread k c.events [] = some (c.openSlices k)

theorem recorded_new (showLinenumbers : Bool) : (new showLinenumbers).Recorded [] := by
  refine ⟨fun tid trace h => ?_, fun k => ?_⟩
  · simp [new] at h
  · simp [openSlices, new, replayThread, Replay.replay]

theorem lookup_increment (c : Chrometrace) (now : UInt64) (trace : StackTrace) (tid : UInt64) :
    (c.increment now trace).prevTraces.lookup tid =
      if tid = trace.threadId then some trace else c.prevTraces.lookup tid := by
  by_cases h : tid = trace.threadId
  · subst h
    simp [increment]
  · simp [increment, h]

theorem Recorded.increment {samples : List (UInt64 × StackTrace)} (h : c.Recorded samples)
    (hpid : OnePid (samples ++ [(now, trace)])) :
    (c.increment now trace).Recorded (samples ++ [(now, trace)]) := by
  refine ⟨fun tid t ht => ?_, fun k => ?_⟩
  · rw [lookup_increment] at ht
    split at ht
    · rename_i htid
      cases ht
      exact ⟨htid.symm, (now, trace), by simp, rfl⟩
    · obtain ⟨hkey, sample, hsample, rfl⟩ := h.stored tid t ht
      exact ⟨hkey, sample, List.mem_append_left _ hsample, rfl⟩
  · -- the process of the thread's last trace, if it has one, is that of the new one
    have hsame : ∀ t, c.prevTraces.lookup trace.threadId = some t → t.pidU64 = trace.pidU64 := by
      intro t ht
      obtain ⟨hkey, sample, hsample, rfl⟩ := h.stored _ t ht
      have := hpid sample (List.mem_append_left _ hsample) (now, trace) (by simp) hkey
      rw [StackTrace.pidU64, StackTrace.pidU64, this]
    rw [increment_events, replayThread_append, h.replays, Option.bind_some]
    by_cases hk : k = (trace.pidU64, trace.threadId)
    · have hopen : c.openSlices k = (c.prevFrames trace).map c.slice := by
        rw [hk, openSlices, prevFrames]
        cases hl : c.prevTraces.lookup trace.threadId with
        | none => rfl
        | some t => exact if_pos (hsame t hl)
      rw [hopen, replay_newEvents _ hk, hk, openSlices, lookup_increment, if_pos rfl]
      exact congrArg some (if_pos rfl).symm
    · have hother : c.openSlices k = (c.increment now trace).openSlices k := by
        rw [openSlices, openSlices, lookup_increment]
        by_cases htid : k.2 = trace.threadId
        · have hpidk : trace.pidU64 ≠ k.1 := fun h => hk (Prod.ext h.symm htid)
          rw [if_pos htid]
          cases hl : c.prevTraces.lookup k.2 with
          | none => exact (if_neg hpidk).symm
          | some t =>
            have ht := hsame t (htid ▸ hl)
            simp only [ht, if_neg hpidk]
        · rw [if_neg htid]
          rfl
      rw [← hother]
      refine Replay.replay_other (fun e he hthread => hk ?_) _
      rcases List.mem_append.mp he with he | he <;> obtain ⟨frame, _, rfl⟩ := List.mem_map.mp he <;>
        exact hthread.symm

/-- A run leaves open, on each thread, the frames of its last trace. -/
theorem recorded_record (showLinenumbers : Bool) (samples : List (UInt64 × StackTrace))
    (hpid : OnePid samples) : ((new showLinenumbers).record samples).Recorded samples := by
  induction samples using List.reverseRecOn with
  | nil => exact recorded_new showLinenumbers
  | append_singleton samples sample ih =>
    have hpre : OnePid samples := fun a ha b hb =>
      hpid a (List.mem_append_left _ ha) b (List.mem_append_left _ hb)
    rw [record, List.foldl_append]
    exact (ih hpre).increment hpid

/-! ## Writing -/

/-- The end events of `write`, in any order of the threads, close what is open. -/
theorem replay_closing : ∀ (traces : List StackTrace) (stack : List Slice),
    (traces.map (·.threadId)).Nodup →
    ((∃ t ∈ traces, (t.pidU64, t.threadId) = k ∧ stack = t.frames.map c.slice) ∨
      ((∀ t ∈ traces, (t.pidU64, t.threadId) ≠ k) ∧ stack = [])) →
    replayThread k (traces.flatMap fun t => t.frames.map fun frame => c.event t frame "E" now) stack =
      some []
  | [], stack, _, hopen => by
    obtain ⟨_, rfl⟩ := hopen.resolve_left (by simp)
    rfl
  | t :: traces, stack, hnodup, hopen => by
    obtain ⟨hnot, hrest⟩ := List.nodup_cons.mp hnodup
    rw [List.flatMap_cons, replayThread_append]
    by_cases hk : (t.pidU64, t.threadId) = k
    · have hothers : ∀ t' ∈ traces, (t'.pidU64, t'.threadId) ≠ k := fun t' ht' h' => by
        rw [← h'] at hk
        exact hnot (List.mem_map.mpr ⟨t', ht', (Prod.mk.inj hk).2.symm⟩)
      have hstack : stack = t.frames.map c.slice := by
        rcases hopen with ⟨t', ht', hk', rfl⟩ | ⟨hnone, _⟩
        · rcases List.mem_cons.mp ht' with rfl | ht'
          · rfl
          · exact absurd hk' (hothers t' ht')
        · exact absurd hk (hnone t List.mem_cons_self)
      have hends : replayThread (t.pidU64, t.threadId) (t.frames.map fun frame => c.event t frame "E" now)
          (t.frames.map c.slice ++ []) = some [] := replay_ends t.frames []
      rw [List.append_nil, hk] at hends
      rw [hstack, hends, Option.bind_some]
      exact replay_closing traces [] hrest (.inr ⟨hothers, rfl⟩)
    · have hskip : replayThread k (t.frames.map fun frame => c.event t frame "E" now) stack = some stack :=
        Replay.replay_other (fun e he hthread => by
          obtain ⟨frame, _, rfl⟩ := List.mem_map.mp he
          exact hk hthread) stack
      rw [hskip, Option.bind_some]
      refine replay_closing traces stack hrest ?_
      rcases hopen with ⟨t', ht', hk', rfl⟩ | ⟨hnone, rfl⟩
      · rcases List.mem_cons.mp ht' with rfl | ht'
        · exact absurd hk' hk
        · exact .inl ⟨t', ht', hk', rfl⟩
      · exact .inr ⟨fun t' ht' => hnone t' (List.mem_cons_of_mem _ ht'), rfl⟩

theorem Recorded.values_nodup {samples : List (UInt64 × StackTrace)} (h : c.Recorded samples) :
    (c.values.map (·.threadId)).Nodup := by
  have hkeys : c.values.map (·.threadId) = c.prevTraces.keys := by
    unfold values
    rw [List.map_map]
    refine List.map_congr_left fun entry hentry => ?_
    exact (h.stored entry.1 entry.2 (AList.mem_lookup_iff.mpr hentry)).1
  rw [hkeys]
  exact c.prevTraces.keys_nodup

/-- With `write`'s events every slice is closed. -/
theorem Recorded.replay_write {samples : List (UInt64 × StackTrace)} (h : c.Recorded samples)
    {order : List StackTrace} (horder : order.Perm c.values) (now : UInt64) (k : UInt64 × UInt64) :
    replayThread k (c.write now order) [] = some [] := by
  have hnodup : (order.map (·.threadId)).Nodup := (horder.map _).nodup_iff.mpr h.values_nodup
  have hmem : ∀ t, t ∈ order ↔ c.prevTraces.lookup t.threadId = some t := by
    intro t
    rw [horder.mem_iff]
    constructor
    · intro ht
      obtain ⟨entry, hentry, rfl⟩ := List.mem_map.mp ht
      have hlookup : c.prevTraces.lookup entry.1 = some entry.2 := AList.mem_lookup_iff.mpr hentry
      rw [(h.stored _ _ hlookup).1]
      exact hlookup
    · intro ht
      exact List.mem_map.mpr ⟨⟨t.threadId, t⟩, AList.mem_lookup_iff.mp ht, rfl⟩
  rw [write, replayThread_append, h.replays, Option.bind_some]
  refine replay_closing order _ hnodup ?_
  have hthread : ∀ t ∈ order, (t.pidU64, t.threadId) = k →
      c.prevTraces.lookup k.2 = some t ∧ t.pidU64 = k.1 := by
    rintro t ht rfl
    exact ⟨(hmem t).mp ht, rfl⟩
  unfold openSlices
  cases hl : c.prevTraces.lookup k.2 with
  | none =>
    refine .inr ⟨fun t ht hkey => ?_, rfl⟩
    rw [(hthread t ht hkey).1] at hl
    cases hl
  | some t =>
    have htid := (h.stored _ _ hl).1
    by_cases hp : t.pidU64 = k.1
    · exact .inl ⟨t, (hmem t).mpr (by rw [htid, hl]), Prod.ext hp htid, if_pos hp⟩
    · refine .inr ⟨fun t' ht' hkey => hp ?_, if_neg hp⟩
      obtain ⟨hl', hp'⟩ := hthread t' ht' hkey
      rw [hl] at hl'
      cases hl'
      exact hp'

/-- The events of a run are among those of a longer one, and of `write`. -/
theorem events_prefix (c : Chrometrace) (samples : List (UInt64 × StackTrace)) :
    c.events <+: (c.record samples).events := by
  induction samples generalizing c with
  | nil => exact List.prefix_rfl
  | cons sample samples ih =>
    refine List.IsPrefix.trans ?_ (ih (c.increment sample.1 sample.2))
    rw [increment_events]
    exact List.prefix_append _ _

theorem record_showLinenumbers (c : Chrometrace) (samples : List (UInt64 × StackTrace)) :
    (c.record samples).showLinenumbers = c.showLinenumbers := by
  induction samples generalizing c with
  | nil => rfl
  | cons sample samples ih => exact ih (c.increment sample.1 sample.2)

/-- Replaying what `write` prints after a run closes every slice, and in the
events up to a sample leaves open the sample's frames. -/
theorem replay_run (showLinenumbers : Bool) (samples : List (UInt64 × StackTrace)) (hpid : OnePid samples)
    (now : UInt64) (order : List StackTrace)
    (horder : order.Perm ((new showLinenumbers).record samples).values) :
    let written := ((new showLinenumbers).record samples).write now order
    (∀ k, replayThread k written [] = some []) ∧
      ∀ pre sample post, samples = pre ++ sample :: post →
        let soFar := ((new showLinenumbers).record (pre ++ [sample])).events
        soFar <+: written ∧
          replayThread (sample.2.pidU64, sample.2.threadId) soFar [] =
            some (sample.2.frames.map (new showLinenumbers).slice) := by
  intro written
  refine ⟨(recorded_record showLinenumbers samples hpid).replay_write horder now, ?_⟩
  rintro pre sample post rfl
  have hpre : OnePid (pre ++ [sample]) := fun a ha b hb =>
    hpid a (by simp at ha ⊢; tauto) b (by simp at hb ⊢; tauto)
  have hsplit : (new showLinenumbers).record (pre ++ sample :: post) =
      ((new showLinenumbers).record (pre ++ [sample])).record post := by
    rw [record, record, record, ← List.foldl_append, List.append_assoc]
    rfl
  constructor
  · refine List.IsPrefix.trans ?_ (List.prefix_append _ _)
    rw [hsplit]
    exact events_prefix _ post
  · rw [(recorded_record showLinenumbers _ hpre).replays]
    have hlast : ((new showLinenumbers).record (pre ++ [sample])).prevTraces.lookup sample.2.threadId =
        some sample.2 := by
      rw [record, List.foldl_append]
      exact (lookup_increment _ sample.1 sample.2 sample.2.threadId).trans (if_pos rfl)
    have hshow : ((new showLinenumbers).record (pre ++ [sample])).slice = (new showLinenumbers).slice := by
      funext frame
      rw [slice, slice, record_showLinenumbers]
    rw [openSlices, hlast, ← hshow]
    exact congrArg some (if_pos rfl)

/-- A thread seen twice, the second time in another leaf. -/
def twoSamples : List (UInt64 × StackTrace) :=
  let root : Frame := ⟨"Foo>>run", "Smalltalk", none, none, 0⟩
  [(10, { pid := 4, threadId := 9, frames := [⟨"primitiveAdd", "cointerp.c", none, none, 12⟩, root] }),
    (20, { pid := 4, threadId := 9, frames := [⟨"Foo>>leaf", "Smalltalk", none, none, 0⟩, root] })]

theorem replay_run_twoSamples :
    let c := (new true).record twoSamples
    ∀ k, replayThread k (c.write 30 c.values) [] = some [] :=
  (replay_run true twoSamples (by decide) 30 _ (.refl _)).1

end Chrometrace

end StSpy
