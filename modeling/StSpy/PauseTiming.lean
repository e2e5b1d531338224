import Mathlib.Algebra.Group.Nat.Defs

/-!
# Pause timing

`PauseTiming` of `smalltalk_spy.rs`. A `Duration` is a number of nanoseconds
below the limit of its type; adding panics past the limit, and dividing by zero
panics. `Measured` carries the durations of one call of `record` and what the
clock says wherever the call reads it. The columns of a report that are
computed in floating point are given by their operands.
-/

namespace StSpy

/-- One nanosecond more than `Duration::MAX`. -/
def durationLimit : Nat := 2 ^ 64 * 1000000000

structure Duration where
  nanos : Nat
  fits : nanos < durationLimit
  deriving DecidableEq

inductive Panic where
  /-- overflow when adding durations -/
  | durationOverflow
  /-- divide by zero error when dividing duration by scalar -/
  | divideByZero
  deriving DecidableEq

namespace Duration

def zero : Duration := ⟨0, by decide⟩

instance : Inhabited Duration := ⟨zero⟩

def add (a b : Duration) : Except Panic Duration :=
  if h : a.nanos + b.nanos < durationLimit then .ok ⟨a.nanos + b.nanos, h⟩ else .error .durationOverflow

def div (a : Duration) (n : UInt32) : Except Panic Duration :=
  if n = 0 then .error .divideByZero
  else .ok ⟨a.nanos / n.toNat, Nat.lt_of_le_of_lt (Nat.div_le_self _ _) a.fits⟩

end Duration

/-- A reading of the clock, in nanoseconds. -/
abbrev Instant := Nat

/-- One call of `record`. -/
structure Measured where
  pause : Duration
  cog : Duration
  lock : Duration
  unwind : Duration
  detach : Duration
  /-- `last_report` at the first sample. -/
  firstReport : Instant
  /-- `started` at the first sample. -/
  firstStart : Instant
  /-- When `last_report` is asked how long ago it was. -/
  asked : Instant
  /-- When `started` is asked how long ago it was. -/
  windowEnd : Instant
  /-- `last_report` after a report. -/
  reported : Instant

structure PauseTiming where
  samples : UInt64 := 0
  pauseTotal : Duration := .zero
  pauseMin : Duration := .zero
  pauseMax : Duration := .zero
  cogTotal : Duration := .zero
  cogMax : Duration := .zero
  lockTotal : Duration := .zero
  unwindTotal : Duration := .zero
  detachTotal : Duration := .zero
  lastReport : Option Instant := none
  started : Option Instant := none

structure PauseReport where
  samples : UInt64
  avg : Duration
  pauseMin : Duration
  pauseMax : Duration
  lockTotal : Duration
  cogTotal : Duration
  detachTotal : Duration
  unwindTotal : Duration
  pauseTotal : Duration
  /-- How long ago the timing started, if it did. -/
  window : Option Nat

namespace PauseTiming

def reportInterval : Nat := 2000000000

/-- The branch on the first sample. -/
def noteExtremes (s : PauseTiming) (m : Measured) : PauseTiming :=
  if s.samples = 0 then
    { s with
      pauseMin := m.pause
      pauseMax := m.pause
      cogMax := m.cog
      lastReport := some m.firstReport
      started := some m.firstStart }
  else
    { s with
      pauseMin := if m.pause.nanos < s.pauseMin.nanos then m.pause else s.pauseMin
      pauseMax := if m.pause.nanos > s.pauseMax.nanos then m.pause else s.pauseMax
      cogMax := if m.cog.nanos > s.cogMax.nanos then m.cog else s.cogMax }

/-- The part of `record` before the report. -/
def tally (s : PauseTiming) (m : Measured) : Except Panic PauseTiming := do
  let s := s.noteExtremes m
  let pauseTotal ← s.pauseTotal.add m.pause
  let cogTotal ← s.cogTotal.add m.cog
  let lockTotal ← s.lockTotal.add m.lock
  let unwindTotal ← s.unwindTotal.add m.unwind
  let detachTotal ← s.detachTotal.add m.detach
  return { s with samples := s.samples + 1, pauseTotal, cogTotal, lockTotal, unwindTotal, detachTotal }

def reportDue (s : PauseTiming) (m : Measured) : Bool :=
  (s.lastReport.map fun last => decide (m.asked - last ≥ reportInterval)).getD true

/-- The number of samples is cut to 32 bits for the division. -/
def report (s : PauseTiming) (m : Measured) : Except Panic PauseReport := do
  let avg ← s.pauseTotal.div s.samples.toUInt32
  return {
    samples := s.samples
    avg
    pauseMin := s.pauseMin
    pauseMax := s.pauseMax
    lockTotal := s.lockTotal
    cogTotal := s.cogTotal
    detachTotal := s.detachTotal
    unwindTotal := s.unwindTotal
    pauseTotal := s.pauseTotal
    window := s.started.map fun started => m.windowEnd - started }

def record (s : PauseTiming) (m : Measured) : Except Panic (PauseTiming × Option PauseReport) := do
  let s ← s.tally m
  if s.reportDue m then
    let report ← s.report m
    return ({ s with lastReport := some m.reported }, some report)
  else return (s, none)

/-- The state after a sequence of calls. -/
def run (calls : List Measured) : Except Panic PauseTiming :=
  calls.foldlM (fun s m => (s.record m).map Prod.fst) {}

end PauseTiming

end StSpy
