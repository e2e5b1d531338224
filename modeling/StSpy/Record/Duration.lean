import StSpy.Record
import Mathlib.Algebra.Group.Nat.Defs

/-!
# A timed recording

A recording of `sec` seconds stops at the sample that completes the requested
number, before that sample is processed. So it passes on all that was requested
exactly when the last requested sample has nothing to pass on, as long as the
counts fit their types.
-/

namespace StSpy

/-- How many samples a recording of so many seconds asks for. -/
def requested (config : RecordConfig) (sec : UInt64) : Nat := sec.toNat * config.samplingRate.toNat

def tracesOf (arrivals : List Arrival) : List (List StackTrace) := arrivals.map (·.sample.traces)

/-- The sample that completes the requested number, if it arrives. -/
def lastRequested (config : RecordConfig) (sec : UInt64) (arrivals : List Arrival) : List Arrival :=
  (arrivals.take (requested config sec)).drop (requested config sec - 1)

def errorsOf (arrivals : List Arrival) : List (Pid × String) := arrivals.flatMap (·.sample.samplingErrors.getD [])

/-- The requested samples are passed on: their included traces are recorded, and
their errors counted. -/
structure PassedOn (config : RecordConfig) (sec : UInt64) (arrivals : List Arrival) : Prop where
  fits : requested config sec < 2 ^ 64
  recorded : (recordSamples config arrivals).recorded =
    recordedTraces config.toConfig (tracesOf (arrivals.take (requested config sec)))
  errors : (recordSamples config arrivals).errors.toInt = (errorsOf (arrivals.take (requested config sec))).length

/-- A sample with no included trace and no error. -/
def NothingToPass (config : RecordConfig) (arrival : Arrival) : Prop :=
  (∀ trace ∈ arrival.sample.traces, (config.includeIdle || trace.active) = false) ∧
    arrival.sample.samplingErrors.getD [] = []

variable {config : RecordConfig} {state : Recording} {arrivals : List Arrival} {sec : UInt64}

/-! ## One sample -/

theorem recordedTraces_append (config : Config) (samples others : List (List StackTrace)) :
    recordedTraces config (samples ++ others) = recordedTraces config samples ++ recordedTraces config others := by
  rw [recordedTraces, List.flatten_append, List.filterMap_append]
  rfl

theorem tracesOf_append (arrivals others : List Arrival) :
    tracesOf (arrivals ++ others) = tracesOf arrivals ++ tracesOf others := List.map_append

theorem errorsOf_append (arrivals others : List Arrival) :
    errorsOf (arrivals ++ others) = errorsOf arrivals ++ errorsOf others := List.flatMap_append

theorem recordedTrace_none_iff {config : Config} {trace : StackTrace} :
    recordedTrace config trace = none ↔ (config.includeIdle || trace.active) = false := by
  rw [recordedTrace]
  cases config.includeIdle || trace.active <;> simp

theorem nothingToPass_iff :
    (∀ a ∈ arrivals, NothingToPass config a) ↔
      recordedTraces config.toConfig (tracesOf arrivals) = [] ∧ errorsOf arrivals = [] := by
  simp only [NothingToPass, forall_and]
  refine and_congr ?_ List.flatMap_eq_nil_iff.symm
  simp [recordedTraces, tracesOf, List.filterMap_eq_nil_iff, recordedTrace_none_iff]

namespace Recording

theorem recordTraces_eq (config : RecordConfig) (state : Recording) (traces : List StackTrace) :
    ∃ samples, traces.foldl (recordTrace config) state =
      { state with recorded := state.recorded ++ traces.filterMap (recordedTrace config.toConfig), samples } := by
  induction traces generalizing state with
  | nil => exact ⟨state.samples, by simp⟩
  | cons trace traces ih =>
    obtain ⟨samples, hrest⟩ := ih (recordTrace config state trace)
    refine ⟨samples, ?_⟩
    rw [List.foldl_cons, hrest, recordTrace]
    cases htrace : recordedTrace config.toConfig trace with
    | none => simp [htrace]
    | some recorded => simp [htrace]

theorem countErrors_eq (state : Recording) (errors : List (Pid × String)) :
    errors.foldl countError state = { state with errors := state.errors + Int32.ofNat errors.length } := by
  induction errors generalizing state with
  | nil => simp
  | cons error errors ih =>
    rw [List.foldl_cons, ih, countError, List.length_cons, Nat.add_comm, Int32.ofNat_add, ← Int32.add_assoc]
    rfl

/-- What is left of a sample: its recorded traces and its number of errors. -/
theorem recordSample_eq (config : RecordConfig) (state : Recording) (arrival : Arrival) :
    (state.recordSample config arrival.sample).recorded =
        state.recorded ++ recordedTraces config.toConfig (tracesOf [arrival]) ∧
      (state.recordSample config arrival.sample).errors = state.errors + Int32.ofNat (errorsOf [arrival]).length ∧
      (state.recordSample config arrival.sample).intervals = state.intervals := by
  obtain ⟨samples, htraces⟩ := recordTraces_eq config state arrival.sample.traces
  simp only [recordSample, htraces, countErrors_eq]
  simp [recordedTraces, tracesOf, errorsOf]

/-! ## The loop -/

/-- A recording that counted `state.intervals` samples records those that come
before the one that completes `max`. -/
theorem loop_eq {max : UInt64} (hmax : maxIntervals config = some max) (hrunning : ∀ a ∈ arrivals, a.running = true)
    (hcount : state.intervals.toNat + 1 < 2 ^ 64) :
    (loop config state arrivals).recorded =
        state.recorded ++
          recordedTraces config.toConfig (tracesOf (arrivals.take (max.toNat - (state.intervals.toNat + 1)))) ∧
      (loop config state arrivals).errors =
        state.errors + Int32.ofNat (errorsOf (arrivals.take (max.toNat - (state.intervals.toNat + 1)))).length := by
  induction arrivals generalizing state with
  | nil => simp [loop, recordedTraces, tracesOf, errorsOf]
  | cons arrival arrivals ih =>
    obtain ⟨hfirst, hothers⟩ := List.forall_mem_cons.mp hrunning
    have hnext : (state.intervals + 1).toNat = state.intervals.toNat + 1 := by
      rw [UInt64.toNat_add, UInt64.toNat_one, Nat.mod_eq_of_lt hcount]
    rw [loop, hfirst, hmax]
    simp only [Bool.not_true, Bool.false_eq_true, if_false, Option.any_some, decide_eq_true_eq, ge_iff_le,
      UInt64.le_iff_toNat_le, hnext]
    by_cases hstop : max.toNat ≤ state.intervals.toNat + 1
    · have hnone : max.toNat - (state.intervals.toNat + 1) = 0 := by omega
      simp [if_pos hstop, hnone, recordedTraces, tracesOf, errorsOf]
    · rw [if_neg hstop]
      obtain ⟨htraces, herrors, hintervals⟩ :=
        recordSample_eq config { state with intervals := state.intervals + 1 } arrival
      have hlt := max.toNat_lt
      have hrestCount :
          (recordSample config { state with intervals := state.intervals + 1 } arrival.sample).intervals.toNat + 1 <
            2 ^ 64 := by
        rw [hintervals, hnext]
        omega
      obtain ⟨hrestTraces, hrestErrors⟩ := ih hothers hrestCount
      obtain ⟨n, hn⟩ : ∃ n, max.toNat - (state.intervals.toNat + 1) = n + 1 :=
        ⟨max.toNat - (state.intervals.toNat + 2), by omega⟩
      have hrest : max.toNat - (state.intervals.toNat + 1 + 1) = n := by omega
      rw [hintervals, hnext, hrest] at hrestTraces hrestErrors
      have hsplit : (arrival :: arrivals).take (n + 1) = [arrival] ++ arrivals.take n := rfl
      rw [hn, hsplit, tracesOf_append, recordedTraces_append, errorsOf_append, hrestTraces, hrestErrors, htraces,
        herrors]
      constructor
      · rw [List.append_assoc]
      · rw [List.length_append, Int32.ofNat_add, Int32.add_assoc]

end Recording

/-! ## A whole recording -/

theorem toNat_maxIntervals (hfits : requested config sec < 2 ^ 64) :
    (sec * config.samplingRate).toNat = requested config sec := by
  rw [UInt64.toNat_mul]
  exact Nat.mod_eq_of_lt hfits

/-- A count of errors in an `i32` is at most the number counted, and the number
itself exactly below 2 ^ 31. -/
theorem toInt_count (n : Nat) :
    (Int32.ofNat n).toInt ≤ n ∧ ((Int32.ofNat n).toInt = n ↔ n < 2 ^ 31) := by
  rw [Int32.toInt_ofNat', Int32.size, Int.bmod]
  split <;> omega

/-- Whatever was requested, all but the last sample of it is passed on. -/
theorem recordSamples_eq (hduration : config.duration = .seconds sec) (hrunning : ∀ a ∈ arrivals, a.running = true)
    (hfits : requested config sec < 2 ^ 64) :
    (recordSamples config arrivals).recorded =
        recordedTraces config.toConfig (tracesOf (arrivals.take (requested config sec - 1))) ∧
      (recordSamples config arrivals).errors =
        Int32.ofNat (errorsOf (arrivals.take (requested config sec - 1))).length := by
  have hmax : maxIntervals config = some (sec * config.samplingRate) := by rw [maxIntervals, hduration]
  have hstart : ({} : Recording).intervals.toNat + 1 < 2 ^ 64 := by decide
  have hloop := Recording.loop_eq hmax hrunning hstart
  rw [toNat_maxIntervals hfits] at hloop
  simpa [recordSamples] using hloop

theorem take_requested (config : RecordConfig) (sec : UInt64) (arrivals : List Arrival) :
    arrivals.take (requested config sec) =
      arrivals.take (requested config sec - 1) ++ lastRequested config sec arrivals := by
  have hsplit := List.take_append_drop (requested config sec - 1) (arrivals.take (requested config sec))
  rw [List.take_take, Nat.min_eq_left (Nat.sub_le _ 1)] at hsplit
  exact hsplit.symm

/-- A recording passes on the requested samples exactly when their number fits in
64 bits, the number of their errors in 31, and the last of them has no included
trace and no error. -/
theorem passedOn_iff (config : RecordConfig) (sec : UInt64) (arrivals : List Arrival)
    (hduration : config.duration = .seconds sec) (hrunning : ∀ a ∈ arrivals, a.running = true) :
    PassedOn config sec arrivals ↔
      requested config sec < 2 ^ 64 ∧ (errorsOf (arrivals.take (requested config sec))).length < 2 ^ 31 ∧
        ∀ a ∈ lastRequested config sec arrivals, NothingToPass config a := by
  rw [nothingToPass_iff]
  by_cases hfits : requested config sec < 2 ^ 64
  case neg => exact ⟨fun h => absurd h.fits hfits, fun h => absurd h.1 hfits⟩
  obtain ⟨htraces, hcount⟩ := recordSamples_eq hduration hrunning hfits
  obtain ⟨hle, hexact⟩ := toInt_count (errorsOf (arrivals.take (requested config sec - 1))).length
  have hlength : (errorsOf (arrivals.take (requested config sec))).length =
      (errorsOf (arrivals.take (requested config sec - 1))).length +
        (errorsOf (lastRequested config sec arrivals)).length := by
    rw [take_requested, errorsOf_append, List.length_append]
  constructor
  · rintro ⟨-, hrecorded, herrors⟩
    rw [hcount] at herrors
    rw [htraces, take_requested, tracesOf_append, recordedTraces_append, List.self_eq_append_right] at hrecorded
    exact ⟨hfits, by omega, hrecorded, List.eq_nil_of_length_eq_zero (by omega)⟩
  · rintro ⟨-, hsmall, hrecorded, herrors⟩
    rw [herrors, List.length_nil, Nat.add_zero] at hlength
    refine ⟨hfits, ?_, ?_⟩
    · rw [htraces, take_requested, tracesOf_append, recordedTraces_append, hrecorded, List.append_nil]
    · rw [hcount, hlength]
      exact hexact.mpr (by omega)

/-- An active thread, seen by each sample. -/
def activeSample : Arrival where
  sample.traces := [{ pid := 1, threadId := 1, frames := [] }]

/-- A thread that is idle in the second of two samples is recorded as requested. -/
theorem passedOn_iff_idle :
    PassedOn { samplingRate := 1, duration := .seconds 2 } 2
        [activeSample, ⟨⟨[{ pid := 1, threadId := 1, active := false, frames := [] }], none, none⟩, true⟩] :=
  (passedOn_iff { samplingRate := 1, duration := .seconds 2 } 2 _ rfl (by simp [activeSample])).mpr
    ⟨by decide, by decide, by simp [lastRequested, requested, NothingToPass, activeSample]⟩

/-- A recording of one second at one sample a second records nothing. -/
theorem activeSample_dropped :
    ¬∀ (config : RecordConfig) (sec : UInt64) (arrivals : List Arrival), config.duration = .seconds sec →
      (∀ a ∈ arrivals, a.running = true) → requested config sec ≤ arrivals.length → PassedOn config sec arrivals := by
  intro h
  have hpassed := h { samplingRate := 1, duration := .seconds 1 } 1 [activeSample] rfl (by simp [activeSample])
    (by decide)
  have hnone : (recordSamples { samplingRate := 1, duration := .seconds 1 } [activeSample]).recorded.length = 0 := by
    decide
  rw [hpassed.recorded] at hnone
  exact absurd hnone (by decide)

end StSpy
