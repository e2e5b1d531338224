import StSpy.Lib.Loops
import StSpy.Record.Duration

/-!
# How a recording ends

`turn` is the body of the loop of `record_samples`. A recording ends at the first
arrival behind Control-C or at the one that completes the requested number, neither
of which is recorded, or when no more samples arrive.
-/

namespace StSpy

open Loops

namespace Recording

variable (config : RecordConfig)

def arrivalOf (taken : Bool × Sample) : Arrival := ⟨taken.2, taken.1⟩

/-- The body of the loop of `record_samples`. -/
def turn (state : Recording) (taken : Bool × Sample) : Turn Recording Recording :=
  if !taken.1 then .exit { state with exitMessage := "Stopped sampling because Control-C pressed" }
  else
    let state := { state with intervals := state.intervals + 1 }
    if (maxIntervals config).any (state.intervals ≥ ·) then .exit { state with exitMessage := "" }
    else .next (state.recordSample config taken.2)

/-- What a recording holds that these arrivals have passed. -/
structure Records (state : Recording) (passed : List Arrival) : Prop where
  recorded : state.recorded = recordedTraces config.toConfig (tracesOf passed)
  samples : state.samples = Int32.ofNat state.recorded.length
  errors : state.errors = Int32.ofNat (errorsOf passed).length
  running : ∀ a ∈ passed, a.running = true
  below : ∀ limit, maxIntervals config = some limit → passed ≠ [] → passed.length < limit.toNat

/-- Why a recording has ended, with what has passed and the message it shows. `all` is
what could have arrived. -/
inductive Ended (all : List Sample) (arrivals : List Arrival) : List Arrival → String → Prop
  | exited (hall : arrivals.map Arrival.sample = all) :
      Ended all arrivals arrivals "Stopped sampling because process exited"
  | interrupted {passed : List Arrival} {last : Arrival} (harrivals : arrivals = passed ++ [last])
      (hlast : last.running = false) : Ended all arrivals passed "Stopped sampling because Control-C pressed"
  | completed {passed : List Arrival} {last : Arrival} {limit : UInt64} (harrivals : arrivals = passed ++ [last])
      (hlast : last.running = true) (hmax : maxIntervals config = some limit)
      (hcount : passed.length + 1 = max 1 limit.toNat) : Ended all arrivals passed ""

variable {config} {state : Recording} {taken : List (Bool × Sample)}

/-- The sample at hand completes the requested number. -/
def AtLimit (config : RecordConfig) (state : Recording) : Prop :=
  (maxIntervals config).any (state.intervals + 1 ≥ ·) = true

theorem turn_eq_next {met : Bool × Sample} {next : Recording} (h : turn config state met = .next next) :
    met.1 = true ∧ ¬AtLimit config state ∧
      next = { state with intervals := state.intervals + 1 }.recordSample config met.2 := by
  simp only [turn] at h
  split at h
  · cases h
  · rename_i hrunning
    split at h
    · cases h
    · rename_i hlimit
      cases h
      exact ⟨by simpa using hrunning, hlimit, rfl⟩

theorem turn_eq_exit {met : Bool × Sample} {next : Recording} (h : turn config state met = .exit next) :
    (met.1 = false ∧ next = { state with exitMessage := "Stopped sampling because Control-C pressed" }) ∨
      (met.1 = true ∧ AtLimit config state ∧
        next = { state with intervals := state.intervals + 1, exitMessage := "" }) := by
  simp only [turn] at h
  split at h
  · rename_i hrunning
    cases h
    exact .inl ⟨by simpa using hrunning, rfl⟩
  · rename_i hrunning
    split at h
    · rename_i hlimit
      cases h
      exact .inr ⟨by simpa using hrunning, hlimit, rfl⟩
    · cases h

def ofTurn : Turn Recording Recording → Recording
  | .next state => state
  | .exit state => state

/-- The loop over what was taken is the loop over its arrivals. -/
theorem loop_of_follows {out : Turn Recording Recording} (h : Follows (turn config) state taken out) :
    loop config state (taken.map arrivalOf) = ofTurn out := by
  induction h with
  | nil state => rfl
  | @next state state' x l out hx _ ih =>
    obtain ⟨hrunning, hlimit, rfl⟩ := turn_eq_next hx
    rw [List.map_cons, loop, arrivalOf, hrunning]
    exact (if_neg hlimit).trans ih
  | @exit state x out hx =>
    rw [List.map_singleton, loop, arrivalOf]
    rcases turn_eq_exit hx with ⟨hstopped, rfl⟩ | ⟨hrunning, hlimit, rfl⟩
    · rw [hstopped]
      rfl
    · rw [hrunning]
      exact if_pos hlimit

theorem recordTraces_counted (state : Recording) (traces : List StackTrace) :
    traces.foldl (recordTrace config) state =
      { state with
        recorded := state.recorded ++ traces.filterMap (recordedTrace config.toConfig)
        samples := state.samples + Int32.ofNat (traces.filterMap (recordedTrace config.toConfig)).length } := by
  induction traces generalizing state with
  | nil => simp
  | cons trace traces ih =>
    rw [List.foldl_cons, ih, recordTrace]
    cases htrace : recordedTrace config.toConfig trace with
    | none => simp [htrace]
    | some recorded =>
      have hcount : state.samples + 1 + Int32.ofNat (traces.filterMap (recordedTrace config.toConfig)).length =
          state.samples + Int32.ofNat ((traces.filterMap (recordedTrace config.toConfig)).length + 1) := by
        rw [Nat.add_comm, Int32.ofNat_add, ← Int32.add_assoc]
        rfl
      simp [htrace, hcount]

theorem Ended.passed_prefix {all : List Sample} {arrivals passed : List Arrival} {message : String}
    (h : Ended config all arrivals passed message) : passed <+: arrivals := by
  cases h with
  | exited => exact List.prefix_rfl
  | interrupted harrivals => exact ⟨_, harrivals.symm⟩
  | completed harrivals => exact ⟨_, harrivals.symm⟩

/-- Where the process has exited, all there is has passed. -/
theorem Ended.exited_all {all : List Sample} {arrivals passed : List Arrival} {message : String}
    (h : Ended config all arrivals passed message) (hexited : message = "Stopped sampling because process exited") :
    passed = arrivals ∧ arrivals.map Arrival.sample = all := by
  cases h with
  | exited hall => exact ⟨rfl, hall⟩
  | interrupted => exact absurd hexited (by decide)
  | completed => exact absurd hexited (by decide)

/-! ## While it runs -/

/-- A recording still runs, with one interval for each arrival. -/
structure Running (config : RecordConfig) (state : Recording) (passed : List Arrival) : Prop where
  records : Records config state passed
  intervals : state.intervals = UInt64.ofNat passed.length
  exitMessage : state.exitMessage = "Stopped sampling because process exited"

theorem Running.start : Running config {} [] where
  records :=
    { recorded := rfl
      samples := rfl
      errors := rfl
      running := (fun _ h => nomatch h)
      below := fun _ _ h => absurd rfl h }
  intervals := rfl
  exitMessage := rfl

/-- The limit is at the arrival that completes the number. -/
theorem Running.atLimit_iff {passed : List Arrival} (h : Running config state passed) {limit : UInt64}
    (hmax : maxIntervals config = some limit) : AtLimit config state ↔ limit.toNat ≤ passed.length + 1 := by
  have hlt := limit.toNat_lt
  have hfits : passed.length + 1 < 2 ^ 64 := by
    by_cases hnil : passed = []
    · simp [hnil]
    · have hbelow := h.records.below limit hmax hnil
      omega
  have hcount : (state.intervals + 1).toNat = passed.length + 1 := by
    have hbefore : (UInt64.ofNat passed.length).toNat = passed.length :=
      UInt64.toNat_ofNat_of_lt' (Nat.lt_of_succ_lt hfits)
    rw [h.intervals, UInt64.toNat_add, hbefore, UInt64.toNat_one, Nat.mod_eq_of_lt hfits]
  rw [AtLimit, hmax, Option.any_some, decide_eq_true_eq, ge_iff_le, UInt64.le_iff_toNat_le, hcount]

theorem Running.turn {passed : List Arrival} {met : Bool × Sample} {next : Recording}
    (h : Running config state passed) (hnext : turn config state met = .next next) :
    Running config next (passed ++ [arrivalOf met]) := by
  obtain ⟨hrunning, hlimit, rfl⟩ := turn_eq_next hnext
  have hone : recordedTraces config.toConfig (tracesOf [arrivalOf met]) =
      met.2.traces.filterMap (recordedTrace config.toConfig) := by simp [recordedTraces, tracesOf, arrivalOf]
  have hrecorded : state.recorded ++ met.2.traces.filterMap (recordedTrace config.toConfig) =
      recordedTraces config.toConfig (tracesOf (passed ++ [arrivalOf met])) := by
    rw [tracesOf_append, recordedTraces_append, ← h.records.recorded, hone]
  rw [recordSample, recordTraces_counted, countErrors_eq]
  exact
    { records :=
        { recorded := hrecorded
          samples := by
            rw [List.length_append, Int32.ofNat_add, ← h.records.samples]
          errors := by
            rw [errorsOf_append, List.length_append, Int32.ofNat_add, ← h.records.errors]
            simp [errorsOf, arrivalOf]
          running := by
            rw [List.forall_mem_append, List.forall_mem_singleton]
            exact ⟨h.records.running, hrunning⟩
          below := fun limit hmax _ => by
            rw [h.atLimit_iff hmax] at hlimit
            rw [List.length_append, List.length_singleton]
            omega }
      intervals := by
        rw [List.length_append, List.length_singleton, UInt64.ofNat_add, ← h.intervals]
        rfl
      exitMessage := h.exitMessage }

/-- A recording that has left its loop, or whose arrivals were all there are. -/
theorem ended_of_follows {all : List Sample} {out : Turn Recording Recording}
    (h : Follows (Recording.turn config) {} taken out)
    (hall : ∀ state, out = .next state → taken.map Prod.snd = all) :
    ∃ passed, Records config (ofTurn out) passed ∧
      Ended config all (taken.map arrivalOf) passed (ofTurn out).exitMessage := by
  have hstands := h.stands (P := fun state l => Running config state (l.map arrivalOf)) Running.start
    (fun t m x t' ht hx => by
      rw [List.map_append, List.map_singleton]
      exact ht.turn hx)
  cases out with
  | next state =>
    refine ⟨taken.map arrivalOf, hstands.records, ?_⟩
    have hmessage : (ofTurn (.next state)).exitMessage = "Stopped sampling because process exited" :=
      hstands.exitMessage
    rw [hmessage]
    refine .exited ?_
    rw [← hall state rfl, List.map_map]
    rfl
  | exit state =>
    obtain ⟨m, x, before, rfl, hbefore, hx⟩ := hstands
    rw [List.map_append, List.map_singleton]
    rcases turn_eq_exit hx with ⟨hstopped, rfl⟩ | ⟨hrunning, hlimit, rfl⟩
    · exact ⟨m.map arrivalOf, { hbefore.records with }, .interrupted rfl hstopped⟩
    · obtain ⟨limit, hmax⟩ : ∃ limit, maxIntervals config = some limit := by
        cases hmax : maxIntervals config with
        | none => simp [AtLimit, hmax] at hlimit
        | some limit => exact ⟨limit, rfl⟩
      have hreached := (hbefore.atLimit_iff hmax).mp hlimit
      have hcount : (m.map arrivalOf).length + 1 = max 1 limit.toNat := by
        by_cases hnil : m.map arrivalOf = []
        · rw [hnil, List.length_nil] at hreached ⊢
          omega
        · have hbelow := hbefore.records.below limit hmax hnil
          omega
      exact ⟨m.map arrivalOf, { hbefore.records with }, .completed rfl hrunning hmax hcount⟩

/-- A loop that is left says why. -/
theorem exitMessage_of_exit {now : Recording} (h : Follows (Recording.turn config) state taken (.exit now)) :
    now.exitMessage ≠ "Stopped sampling because process exited" := by
  generalize hout : Turn.exit now = out at h
  induction h with
  | nil => cases hout
  | next _ _ ih => exact ih hout
  | exit hx =>
    cases hout
    rcases turn_eq_exit hx with ⟨-, rfl⟩ | ⟨-, -, rfl⟩ <;> simp

end Recording

end StSpy
