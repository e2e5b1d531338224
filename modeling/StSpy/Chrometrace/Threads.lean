import StSpy.Chrometrace.Replay
import Mathlib.Data.List.Chain

/-!
# One process's events beside another's

The previous trace is stored by thread id, the events carry a process and a
thread id. What is written for one thread of one process is what its own traces
give, at every point of a run, exactly when no trace with frames is followed on
its thread id by a trace of another process.
-/

namespace StSpy

theorem pidU64_inj {a b : Pid} (h : a.toInt64.toUInt64 = b.toInt64.toUInt64) : a = b := by
  have h32 := congrArg (fun x => x.toInt64.toInt32) h
  simpa using h32

namespace Chrometrace

variable {c c' : Chrometrace} {trace : StackTrace} {now now' : UInt64} {pid : Pid} {tid : UInt64}
  {samples : List (UInt64 × StackTrace)} {showLinenumbers : Bool}

def untimed (e : Event) : Event := { e with ts := 0 }

/-- The events that carry a process and a thread id, time stamps aside. -/
def eventsOf (pid : Pid) (tid : UInt64) (events : List Event) : List Event :=
  (events.filter fun e => e.thread = (pid.toInt64.toUInt64, tid)).map untimed

/-- The samples of one thread of one process. -/
def ofThread (pid : Pid) (tid : UInt64) (samples : List (UInt64 × StackTrace)) : List (UInt64 × StackTrace) :=
  samples.filter fun sample => sample.2.pid = pid ∧ sample.2.threadId = tid

/-- The traces with one thread id, of any process. -/
def onThread (tid : UInt64) (samples : List (UInt64 × StackTrace)) : List StackTrace :=
  (samples.map (·.2)).filter fun trace => trace.threadId = tid

/-- What `write` prints for a thread, after the samples so far, is what it
prints when only the samples of that thread are recorded. -/
def Independent (showLinenumbers : Bool) (samples : List (UInt64 × StackTrace)) : Prop :=
  ∀ soFar, soFar <+: samples → ∀ (pid : Pid) (tid now now' : UInt64) (order order' : List StackTrace),
    let together := (new showLinenumbers).record soFar
    let alone := (new showLinenumbers).record (ofThread pid tid soFar)
    order.Perm together.values → order'.Perm alone.values →
      eventsOf pid tid (together.write now order) = eventsOf pid tid (alone.write now' order')

/-- `t` leaves no frames to a trace of another process. -/
def HandsOver (t u : StackTrace) : Prop := t.pid ≠ u.pid → t.frames = []

/-- No trace with frames is followed on its thread id by one of another process. -/
def HandOvers (samples : List (UInt64 × StackTrace)) : Prop :=
  ∀ tid, (onThread tid samples).IsChain HandsOver

/-! ## The stored trace -/

theorem lookup_record (showLinenumbers : Bool) (tid : UInt64) :
    ((new showLinenumbers).record samples).prevTraces.lookup tid = (onThread tid samples).getLast? := by
  induction samples using List.reverseRecOn with
  | nil => rfl
  | append_singleton samples sample ih =>
    have hstep : (new showLinenumbers).record (samples ++ [sample]) =
        ((new showLinenumbers).record samples).increment sample.1 sample.2 := by
      rw [record, List.foldl_append]
      rfl
    rw [hstep, lookup_increment, ih]
    by_cases h : tid = sample.2.threadId
    · simp [onThread, h]
    · simp [onThread, h, Ne.symm h]

/-- The frames of the last of some traces. -/
def lastFrames (traces : List StackTrace) : List Frame := (traces.getLast?.map (·.frames)).getD []

theorem prevFrames_record (trace : StackTrace) :
    ((new showLinenumbers).record samples).prevFrames trace = lastFrames (onThread trace.threadId samples) := by
  rw [prevFrames, lookup_record, lastFrames]

/-- The frames that the last of some traces leaves open for a process. -/
def openFrames (pid : Pid) (traces : List StackTrace) : List Frame :=
  lastFrames (traces.getLast?.toList.filter fun trace => trace.pid = pid)

/-- Where each trace hands over, a process's last trace either is the last one
or has no frames. -/
theorem lastFrames_filter {traces : List StackTrace} (h : traces.IsChain HandsOver) (pid : Pid) :
    lastFrames (traces.filter fun trace => trace.pid = pid) = openFrames pid traces := by
  induction traces using List.reverseRecOn with
  | nil => rfl
  | append_singleton traces t ih =>
    obtain ⟨hchain, -, hlast⟩ := List.isChain_append.mp h
    by_cases ht : t.pid = pid
    · simp [lastFrames, openFrames, ht]
    · have hnone : openFrames pid (traces ++ [t]) = [] := by simp [openFrames, lastFrames, ht]
      have hskip : (traces ++ [t]).filter (fun trace => decide (trace.pid = pid)) =
          traces.filter fun trace => decide (trace.pid = pid) := by simp [ht]
      rw [hnone, hskip, ih hchain]
      cases hl : traces.getLast? with
      | none => simp [openFrames, lastFrames, hl]
      | some u =>
        by_cases hu : u.pid = pid
        · have hempty := hlast u hl t rfl (hu ▸ Ne.symm ht)
          simp [openFrames, lastFrames, hl, hu, hempty]
        · simp [openFrames, lastFrames, hl, hu]

theorem onThread_ofThread :
    onThread tid (ofThread pid tid samples) = (onThread tid samples).filter fun trace => trace.pid = pid := by
  simp only [onThread, ofThread, List.filter_map, List.filter_filter, Function.comp_def]
  congr 1
  refine List.filter_congr fun sample _ => ?_
  by_cases h : sample.2.threadId = tid <;> simp [h]

/-! ## The events of one call -/

/-- An event of a thread, without its time. -/
def threadEvent (c : Chrometrace) (pid : Pid) (tid : UInt64) (phase : String) (frame : Frame) : Event :=
  untimed (c.event { pid, threadId := tid, frames := [] } frame phase 0)

theorem threadEvent_congr (h : c.showLinenumbers = c'.showLinenumbers) :
    c.threadEvent pid tid = c'.threadEvent pid tid := by
  funext phase frame
  simp [threadEvent, event, h]

theorem newIdx_congr (h : c.showLinenumbers = c'.showLinenumbers) (prevFrames : List Frame)
    (trace : StackTrace) : c.newIdx prevFrames trace = c'.newIdx prevFrames trace := by
  simp [newIdx, shouldMergeFrames, h]

theorem eventsOf_append (l m : List Event) :
    eventsOf pid tid (l ++ m) = eventsOf pid tid l ++ eventsOf pid tid m := by
  simp [eventsOf]

theorem eventsOf_event (h : trace.pid = pid ∧ trace.threadId = tid) (phase : String) (frames : List Frame) :
    eventsOf pid tid (frames.map fun frame => c.event trace frame phase now) =
      frames.map (c.threadEvent pid tid phase) := by
  obtain ⟨rfl, rfl⟩ := h
  have hall : (frames.map fun frame => c.event trace frame phase now).filter (fun e =>
      decide (e.thread = (trace.pid.toInt64.toUInt64, trace.threadId))) =
      frames.map fun frame => c.event trace frame phase now := by
    refine List.filter_eq_self.mpr fun e he => ?_
    obtain ⟨frame, _, rfl⟩ := List.mem_map.mp he
    exact decide_eq_true rfl
  rw [eventsOf, hall, List.map_map]
  rfl

theorem eventsOf_event_other (h : ¬(trace.pid = pid ∧ trace.threadId = tid)) (phase : String)
    (frames : List Frame) :
    eventsOf pid tid (frames.map fun frame => c.event trace frame phase now) = [] := by
  have hnone : (frames.map fun frame => c.event trace frame phase now).filter (fun e =>
      decide (e.thread = (pid.toInt64.toUInt64, tid))) = [] := by
    refine List.filter_eq_nil_iff.mpr fun e he hthread => h ?_
    obtain ⟨frame, _, rfl⟩ := List.mem_map.mp he
    have hkey := Prod.mk.inj (of_decide_eq_true hthread)
    exact ⟨pidU64_inj hkey.1, hkey.2⟩
  rw [eventsOf, hnone, List.map_nil]

/-- What a call adds for the thread it is about, given the frames it takes for the previous ones. -/
theorem eventsOf_newEvents (h : trace.pid = pid ∧ trace.threadId = tid) (prevFrames : List Frame) :
    eventsOf pid tid (c.newEvents now trace prevFrames) =
      (prevFrames.reverse.drop (c.newIdx prevFrames trace)).reverse.map (c.threadEvent pid tid "E") ++
        (trace.frames.reverse.drop (c.newIdx prevFrames trace)).map (c.threadEvent pid tid "B") := by
  rw [newEvents, eventsOf_append, eventsOf_event h, eventsOf_event h]

theorem eventsOf_newEvents_other (h : ¬(trace.pid = pid ∧ trace.threadId = tid)) (prevFrames : List Frame) :
    eventsOf pid tid (c.newEvents now trace prevFrames) = [] := by
  rw [newEvents, eventsOf_append, eventsOf_event_other h, eventsOf_event_other h, List.append_nil]

/-- A call adds the same for two tables that agree on the thread's previous frames. -/
theorem eventsOf_newEvents_congr (hshow : c.showLinenumbers = c'.showLinenumbers)
    (h : trace.pid = pid ∧ trace.threadId = tid) (prevFrames : List Frame) :
    eventsOf pid tid (c.newEvents now trace prevFrames) =
      eventsOf pid tid (c'.newEvents now' trace prevFrames) := by
  rw [eventsOf_newEvents h, eventsOf_newEvents h, threadEvent_congr hshow, newIdx_congr hshow]

/-! ## Runs -/

theorem record_concat (c : Chrometrace) (samples : List (UInt64 × StackTrace)) (sample : UInt64 × StackTrace) :
    c.record (samples ++ [sample]) = (c.record samples).increment sample.1 sample.2 := by
  rw [record, List.foldl_append]
  rfl

theorem onThread_concat (samples : List (UInt64 × StackTrace)) (sample : UInt64 × StackTrace) :
    onThread sample.2.threadId (samples ++ [sample]) = onThread sample.2.threadId samples ++ [sample.2] := by
  simp [onThread]

theorem HandOvers.initial {samples more : List (UInt64 × StackTrace)} (h : HandOvers (samples ++ more)) :
    HandOvers samples := by
  intro tid
  have htid := h tid
  rw [onThread, List.map_append, List.filter_append] at htid
  exact htid.left_of_append

/-- Where each trace hands over, the events before `write` are those of the
thread alone. -/
theorem eventsOf_record (h : HandOvers samples) :
    eventsOf pid tid ((new showLinenumbers).record samples).events =
      eventsOf pid tid ((new showLinenumbers).record (ofThread pid tid samples)).events := by
  induction samples using List.reverseRecOn with
  | nil => rfl
  | append_singleton samples sample ih =>
    rw [record_concat, increment_events, eventsOf_append, ih h.initial]
    by_cases hkey : sample.2.pid = pid ∧ sample.2.threadId = tid
    · have hof : ofThread pid tid (samples ++ [sample]) = ofThread pid tid samples ++ [sample] := by
        simp [ofThread, hkey]
      -- the frames before the call are the thread's own
      have hprev : lastFrames (onThread sample.2.threadId samples) =
          lastFrames (onThread sample.2.threadId (ofThread pid tid samples)) := by
        have hchain := h sample.2.threadId
        rw [onThread_concat] at hchain
        obtain ⟨hchain, -, hlast⟩ := List.isChain_append.mp hchain
        rw [hkey.2, onThread_ofThread, ← hkey.2, lastFrames_filter hchain, openFrames]
        cases hl : (onThread sample.2.threadId samples).getLast? with
        | none => simp [lastFrames, hl]
        | some t =>
          by_cases ht : t.pid = pid
          · simp [lastFrames, hl, ht]
          · have hempty := hlast t hl sample.2 (by simp) (hkey.1 ▸ ht)
            simp [lastFrames, hl, ht, hempty]
      rw [hof, record_concat, increment_events, eventsOf_append, prevFrames_record, prevFrames_record, hprev]
      congr 1
      refine eventsOf_newEvents_congr ?_ hkey _
      rw [record_showLinenumbers, record_showLinenumbers]
    · have hof : ofThread pid tid (samples ++ [sample]) = ofThread pid tid samples := by
        rw [ofThread, List.filter_append, ← ofThread]
        simp [hkey]
      rw [hof, eventsOf_newEvents_other hkey, List.append_nil]

/-! ## Writing -/

theorem filter_threadId {traces : List StackTrace} (h : (traces.map (·.threadId)).Nodup) {t : StackTrace}
    (ht : t ∈ traces) : (traces.filter fun trace => trace.threadId = t.threadId) = [t] := by
  induction traces with
  | nil => cases ht
  | cons u traces ih =>
    obtain ⟨hnot, hrest⟩ := List.nodup_cons.mp h
    rcases List.mem_cons.mp ht with rfl | ht
    · have hothers : (traces.filter fun trace => trace.threadId = t.threadId) = [] :=
        List.filter_eq_nil_iff.mpr fun u hu hsame => hnot (List.mem_map.mpr ⟨u, hu, of_decide_eq_true hsame⟩)
      simp [hothers]
    · have hne : u.threadId ≠ t.threadId := fun hsame => hnot (List.mem_map.mpr ⟨t, ht, hsame.symm⟩)
      simp [hne, ih hrest ht]

/-- The stored trace of a thread id is the last one with it. -/
theorem filter_values {order : List StackTrace} (tid : UInt64)
    (horder : order.Perm ((new showLinenumbers).record samples).values) :
    (order.filter fun trace => trace.threadId = tid) = (onThread tid samples).getLast?.toList := by
  have hkeys : ∀ entry ∈ ((new showLinenumbers).record samples).prevTraces.entries,
      entry.2.threadId = entry.1 := by
    intro entry hentry
    have hlookup := AList.mem_lookup_iff.mpr hentry
    rw [lookup_record] at hlookup
    exact of_decide_eq_true (List.mem_filter.mp (List.mem_of_getLast? hlookup)).2
  have hnodup : (order.map (·.threadId)).Nodup := by
    have hmap : ((new showLinenumbers).record samples).values.map (·.threadId) =
        ((new showLinenumbers).record samples).prevTraces.keys := by
      rw [values, List.map_map]
      exact List.map_congr_left hkeys
    rw [(horder.map _).nodup_iff, hmap]
    exact ((new showLinenumbers).record samples).prevTraces.keys_nodup
  have hmem : ∀ t, t ∈ order ↔ (onThread t.threadId samples).getLast? = some t := by
    intro t
    rw [horder.mem_iff, ← lookup_record showLinenumbers, values, List.mem_map]
    constructor
    · rintro ⟨entry, hentry, rfl⟩
      rw [hkeys entry hentry]
      exact AList.mem_lookup_iff.mpr hentry
    · exact fun ht => ⟨⟨t.threadId, t⟩, AList.mem_lookup_iff.mp ht, rfl⟩
  cases hl : (onThread tid samples).getLast? with
  | none =>
    refine List.filter_eq_nil_iff.mpr fun t ht hsame => ?_
    rw [← of_decide_eq_true hsame, (hmem t).mp ht] at hl
    cases hl
  | some t =>
    have htid : t.threadId = tid := of_decide_eq_true (List.mem_filter.mp (List.mem_of_getLast? hl)).2
    subst htid
    exact filter_threadId hnodup ((hmem t).mpr hl)

theorem eventsOf_closing (c : Chrometrace) (order : List StackTrace) :
    eventsOf pid tid (order.flatMap fun trace => trace.frames.map fun frame => c.event trace frame "E" now) =
      ((order.filter fun trace => trace.threadId = tid).filter fun trace => trace.pid = pid).flatMap
        fun trace => trace.frames.map (c.threadEvent pid tid "E") := by
  induction order with
  | nil => rfl
  | cons trace order ih =>
    rw [List.flatMap_cons, eventsOf_append, ih]
    by_cases htid : trace.threadId = tid
    · by_cases hpid : trace.pid = pid
      · rw [eventsOf_event ⟨hpid, htid⟩]
        simp [htid, hpid]
      · rw [eventsOf_event_other fun h => hpid h.1]
        simp [htid, hpid]
    · rw [eventsOf_event_other fun h => htid h.2]
      simp [htid]

/-- What `write` prints for a thread: its events, then the ends of what is open. -/
theorem eventsOf_write {order : List StackTrace}
    (horder : order.Perm ((new showLinenumbers).record samples).values) :
    eventsOf pid tid (((new showLinenumbers).record samples).write now order) =
      eventsOf pid tid ((new showLinenumbers).record samples).events ++
        (openFrames pid (onThread tid samples)).map ((new showLinenumbers).threadEvent pid tid "E") := by
  rw [write, eventsOf_append, eventsOf_closing, filter_values tid horder, openFrames,
    threadEvent_congr (record_showLinenumbers _ _)]
  congr 1
  cases (onThread tid samples).getLast? with
  | none => rfl
  | some t => by_cases ht : t.pid = pid <;> simp [ht, lastFrames]

theorem openFrames_filter (pid : Pid) (traces : List StackTrace) :
    openFrames pid (traces.filter fun trace => trace.pid = pid) =
      lastFrames (traces.filter fun trace => trace.pid = pid) := by
  rw [openFrames]
  cases hl : (traces.filter fun trace => trace.pid = pid).getLast? with
  | none => simp [lastFrames, hl]
  | some t =>
    have ht : t.pid = pid := of_decide_eq_true (List.mem_filter.mp (List.mem_of_getLast? hl)).2
    simp [lastFrames, hl, ht]

/-- With the thread's own traces alone, `write` closes the frames of the last of them. -/
theorem eventsOf_write_alone {order : List StackTrace}
    (horder : order.Perm ((new showLinenumbers).record (ofThread pid tid samples)).values) :
    eventsOf pid tid (((new showLinenumbers).record (ofThread pid tid samples)).write now order) =
      eventsOf pid tid ((new showLinenumbers).record (ofThread pid tid samples)).events ++
        (lastFrames ((onThread tid samples).filter fun trace => trace.pid = pid)).map
          ((new showLinenumbers).threadEvent pid tid "E") := by
  rw [eventsOf_write horder, onThread_ofThread, openFrames_filter]

/-- Begins alone are the events of a call only where nothing was open. -/
theorem eq_nil_of_newEvents (h : trace.pid = pid ∧ trace.threadId = tid) (prevFrames : List Frame)
    (heq : eventsOf pid tid (c.newEvents now trace prevFrames) =
      eventsOf pid tid (c'.newEvents now' trace [])) : prevFrames = [] := by
  rw [eventsOf_newEvents h, eventsOf_newEvents h] at heq
  have hends := congrArg (fun events => events.countP fun e : Event => e.ph = "E") heq
  have hlength := congrArg List.length heq
  have hidx : c'.newIdx [] trace = 0 := by simp [newIdx]
  have hle : c.newIdx prevFrames trace ≤ min prevFrames.length trace.frames.length := by
    rw [newIdx_eq]
    exact (List.takeWhile_prefix _).length_le.trans (by simp)
  simp only [hidx, List.countP_append, List.countP_map, Function.comp_def, threadEvent, untimed, event] at hends
  simp [hidx] at hends hlength
  exact List.eq_nil_of_length_eq_zero (by omega)

/-! ## Independence -/

theorem independent_of_handOvers (h : HandOvers samples) : Independent showLinenumbers samples := by
  rintro soFar ⟨more, rfl⟩ pid tid now now' order order' together alone horder horder'
  rw [eventsOf_write horder, eventsOf_write_alone horder', eventsOf_record h.initial,
    lastFrames_filter (h.initial tid)]

/-- The threads of a run are independent exactly when each leaves nothing open
to the threads that have its id in other processes. -/
theorem independent_iff (showLinenumbers : Bool) (samples : List (UInt64 × StackTrace)) :
    Independent showLinenumbers samples ↔ HandOvers samples := by
  refine ⟨fun h => ?_, independent_of_handOvers⟩
  induction samples using List.reverseRecOn with
  | nil => exact fun tid => List.isChain_nil
  | append_singleton samples sample ih =>
    have hso : HandOvers samples := ih fun soFar hpre => h soFar (hpre.trans (List.prefix_append _ _))
    intro tid
    by_cases htid : sample.2.threadId = tid
    · subst htid
      rw [onThread_concat]
      refine (hso sample.2.threadId).append (.singleton _) fun t ht u hu hpid => ?_
      cases hu
      -- the sample is the first of its process since `t`, so its thread alone has nothing open
      have hlast : lastFrames (onThread sample.2.threadId samples) = t.frames := by
        rw [lastFrames, ht]
        rfl
      have hown : lastFrames ((onThread sample.2.threadId samples).filter fun trace =>
          trace.pid = sample.2.pid) = [] := by
        rw [lastFrames_filter (hso _), openFrames, ht]
        simp [lastFrames, hpid]
      have hof : ofThread sample.2.pid sample.2.threadId (samples ++ [sample]) =
          ofThread sample.2.pid sample.2.threadId samples ++ [sample] := by simp [ofThread]
      have hwrite := h _ List.prefix_rfl sample.2.pid sample.2.threadId 0 0 _ _ (.refl _) (.refl _)
      rw [eventsOf_write (.refl _), eventsOf_write_alone (.refl _), hof, record_concat, record_concat,
        increment_events, increment_events, eventsOf_append, eventsOf_append, eventsOf_record hso,
        prevFrames_record, prevFrames_record, hlast, onThread_ofThread, hown, onThread_concat] at hwrite
      have hclose : openFrames sample.2.pid (onThread sample.2.threadId samples ++ [sample.2]) =
          lastFrames ((onThread sample.2.threadId samples ++ [sample.2]).filter fun trace =>
            trace.pid = sample.2.pid) := by simp [openFrames, lastFrames]
      rw [hclose, List.append_assoc, List.append_assoc, List.append_cancel_left_eq,
        List.append_cancel_right_eq] at hwrite
      exact eq_nil_of_newEvents ⟨rfl, rfl⟩ t.frames hwrite
    · have hskip : onThread tid (samples ++ [sample]) = onThread tid samples := by simp [onThread, htid]
      rw [hskip]
      exact hso tid

/-- A thread id seen in two processes, one after the other. -/
def reusedThread : List (UInt64 × StackTrace) :=
  let root : Frame := ⟨"Foo>>run", "Smalltalk", none, none, 0⟩
  [(10, { pid := 4, threadId := 9, frames := [root] }), (20, { pid := 5, threadId := 9, frames := [root] })]

/-- The second process gets no begin event, and the first no end event. -/
theorem reusedThread_dependent :
    ¬∀ (showLinenumbers : Bool) (samples : List (UInt64 × StackTrace)), Independent showLinenumbers samples := by
  intro h
  have hwrite := h true reusedThread reusedThread List.prefix_rfl 4 9 30 30 _ _ (.refl _) (.refl _)
  exact absurd hwrite (by decide)

end Chrometrace

end StSpy
