import StSpy.Flamegraph
import StSpy.Lib.Tables
import StSpy.Record.Stop
import StSpy.Speedscope

/-!
# What the files account for

Whatever the format, a file accounts for each recorded trace once, and the number of
samples that is printed is theirs.
-/

namespace StSpy

/-! ## What is printed -/

namespace Recording

variable {config : RecordConfig} {state : Recording}

theorem recordSample_samples (h : state.samples = Int32.ofNat state.recorded.length) (sample : Sample) :
    (state.recordSample config sample).samples = Int32.ofNat (state.recordSample config sample).recorded.length := by
  rw [recordSample, recordTraces_counted, countErrors_eq]
  simp only
  rw [h, List.length_append, Int32.ofNat_add]

/-- The samples are counted as they are recorded. -/
theorem loop_samples (h : state.samples = Int32.ofNat state.recorded.length) (arrivals : List Arrival) :
    (loop config state arrivals).samples = Int32.ofNat (loop config state arrivals).recorded.length := by
  induction arrivals generalizing state with
  | nil => exact h
  | cons arrival arrivals ih =>
    rw [loop]
    split
    · exact h
    · dsimp only
      split
      · exact h
      · apply ih
        apply recordSample_samples
        exact h

end Recording

/-! ## Flame graphs -/

theorem Flamegraph.increment_counts (f : Flamegraph) (trace : StackTrace) :
    (f.increment trace).counts =
      Tables.modify f.counts (String.intercalate ";" (labels f.showLinenumbers trace)) 0 (· + 1) := rfl

theorem Flamegraph.total_foldl (f : Flamegraph) (traces : List StackTrace) :
    Tables.total id (traces.foldl Flamegraph.increment f).counts = Tables.total id f.counts + traces.length := by
  induction traces generalizing f with
  | nil => rfl
  | cons trace traces ih =>
    have hone : Tables.total id (f.increment trace).counts = Tables.total id f.counts + 1 := by
      rw [increment_counts]
      apply Tables.total_modify
      · rfl
      · exact fun _ => rfl
    rw [List.foldl_cons, ih, hone, List.length_cons, Nat.add_assoc, Nat.add_comm 1]

/-! ## Speedscope profiles -/

namespace Speedscope

theorem record_samples (s : Stats) (trace : StackTrace) :
    ∃ indices, (s.record trace).samples =
      Tables.modify s.samples (trace.pid, asTid trace.threadId) [] (· ++ [indices]) := ⟨_, rfl⟩

theorem total_recordAll (config : Config) (traces : List StackTrace) :
    Tables.total List.length (Stats.recordAll config traces).samples = traces.length := by
  suffices h : ∀ s : Stats, Tables.total List.length (traces.foldl Stats.record s).samples =
      Tables.total List.length s.samples + traces.length from (h (.new config)).trans (Nat.zero_add _)
  induction traces with
  | nil => exact fun _ => rfl
  | cons trace traces ih =>
    intro s
    obtain ⟨indices, hsamples⟩ := record_samples s trace
    have hone : Tables.total List.length (s.record trace).samples = Tables.total List.length s.samples + 1 := by
      rw [hsamples]
      apply Tables.total_modify
      · rfl
      · exact fun _ => List.length_append
    rw [List.foldl_cons, ih, hone, List.length_cons, Nat.add_assoc, Nat.add_comm 1]

/-- The profiles hold all samples, each with its weight. -/
theorem profiles_write (s : Stats) {order : List (Sigma fun _ : Pid × Tid => List (List Nat))}
    (horder : order.Perm s.samples.entries) :
    ((s.write order).profiles.map fun profile => profile.samples.length).sum = Tables.total List.length s.samples ∧
      ∀ profile ∈ (s.write order).profiles, profile.weights.length = profile.samples.length := by
  have hsorted : (s.write order).profiles.Perm (order.map (Profile.ofThread s.threadNameMap s.config.samplingRate)) :=
    List.mergeSort_perm _ _
  constructor
  · rw [(hsorted.map _).sum_nat, List.map_map, (horder.map _).sum_nat]
    rfl
  · intro profile hprofile
    obtain ⟨entry, -, rfl⟩ := List.mem_map.mp (hsorted.mem_iff.mp hprofile)
    exact List.length_map _

end Speedscope

/-- Whatever arrives, the number of samples printed is that of the recorded traces, and in each format the
file accounts for as many. -/
theorem recordSamples_accounts (config : RecordConfig) (arrivals : List Arrival) :
    let state := recordSamples config arrivals
    state.samples = Int32.ofNat state.recorded.length ∧
      Tables.total id (state.recorded.foldl Flamegraph.increment (.new config.showLineNumbers)).counts =
        state.recorded.length ∧
      ∀ order, order.Perm (Speedscope.Stats.recordAll config.toConfig state.recorded).samples.entries →
        (((Speedscope.Stats.recordAll config.toConfig state.recorded).write order).profiles.map
          fun profile => profile.samples.length).sum = state.recorded.length ∧
        ∀ profile ∈ ((Speedscope.Stats.recordAll config.toConfig state.recorded).write order).profiles,
          profile.weights.length = profile.samples.length := by
  intro state
  refine ⟨Recording.loop_samples rfl arrivals, ?_, fun order horder => ?_⟩
  · exact (Flamegraph.total_foldl _ state.recorded).trans (Nat.zero_add _)
  · obtain ⟨hsamples, hweights⟩ := Speedscope.profiles_write _ horder
    exact ⟨hsamples.trans (Speedscope.total_recordAll config.toConfig state.recorded), hweights⟩

end StSpy
