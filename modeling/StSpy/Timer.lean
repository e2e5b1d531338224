import StSpy.PauseTiming
import StSpy.Lib.Errors
import Mathlib.Algebra.GroupWithZero.Nat

/-!
# The timer

`Timer` says when the next sample is due. The nanoseconds that its exponential
distribution gives are a parameter, as are the readings of the clock. The samples
are scheduled at the sums of what was drawn, whatever was late before.
-/

namespace StSpy

/-- `Duration::from_nanos`. -/
def Duration.ofNanos (nanos : UInt64) : Duration :=
  ⟨nanos.toNat, by
    have h := nanos.toNat_lt
    unfold durationLimit
    omega⟩

structure Timer where
  start : Instant
  desired : Duration

namespace Timer

def new (start : Instant) : Timer := ⟨start, .zero⟩

/-- What a call of `next` draws, and the clock at its start. -/
structure Turn where
  nanos : UInt64
  now : Instant

/-- `Ok` with how long the call has slept, or `Err` with how late it is, in nanoseconds. -/
def next (timer : Timer) (turn : Turn) : Except Panic (Except Nat Nat × Timer) := do
  let elapsed := turn.now - timer.start
  let desired ← timer.desired.add (.ofNanos turn.nanos)
  let timer := { timer with desired }
  if desired.nanos > elapsed then return (.ok (desired.nanos - elapsed), timer)
  else return (.error (elapsed - desired.nanos), timer)

/-- A sequence of calls. -/
def run (timer : Timer) (turns : List Turn) : Except Panic (List (Except Nat Nat) × Timer) :=
  match turns with
  | [] => .ok ([], timer)
  | turn :: turns => do
    let (result, timer) ← timer.next turn
    let (results, timer) ← timer.run turns
    return (result :: results, timer)

/-! ## The schedule -/

/-- How long after the start the sample behind these calls is due. -/
def drawn (turns : List Turn) : Nat := (turns.map (·.nanos.toNat)).sum

/-- A call at `now` for a sample that is due at `due`, both since the start: it sleeps until
then, or says how long ago it was. -/
def Meets (now due : Nat) : Except Nat Nat → Prop
  | .ok slept => 0 < slept ∧ now + slept = due
  | .error late => now = due + late

/-- The calls return, and meet what is due from `due` on. -/
structure Followed (start : Instant) (due : Nat) (turns : List Turn) (results : List (Except Nat Nat)) (after : Timer) :
    Prop where
  start_eq : after.start = start
  desired_eq : after.desired.nanos = due + drawn turns
  length_eq : results.length = turns.length
  meets : ∀ k turn result, turns[k]? = some turn → results[k]? = some result →
    Meets (turn.now - start) (due + drawn (turns.take (k + 1))) result

theorem drawn_cons (turn : Turn) (turns : List Turn) : drawn (turn :: turns) = turn.nanos.toNat + drawn turns := by
  simp [drawn]

theorem next_meets (timer : Timer) (turn : Turn)
    (hfits : timer.desired.nanos + turn.nanos.toNat < durationLimit) :
    ∃ result, timer.next turn = .ok (result, ⟨timer.start, timer.desired.nanos + turn.nanos.toNat, hfits⟩) ∧
      Meets (turn.now - timer.start) (timer.desired.nanos + turn.nanos.toNat) result := by
  have hadd : timer.desired.add (.ofNanos turn.nanos) = .ok ⟨timer.desired.nanos + turn.nanos.toNat, hfits⟩ :=
    dif_pos hfits
  by_cases hahead : timer.desired.nanos + turn.nanos.toNat > turn.now - timer.start
  · refine ⟨.ok (timer.desired.nanos + turn.nanos.toNat - (turn.now - timer.start)), ?_, ?_⟩
    · simp only [next, hadd, bind, Except.bind, if_pos hahead]
      rfl
    · simp only [Meets]
      omega
  · refine ⟨.error (turn.now - timer.start - (timer.desired.nanos + turn.nanos.toNat)), ?_, ?_⟩
    · simp only [next, hadd, bind, Except.bind, if_neg hahead]
      rfl
    · simp only [Meets]
      omega

theorem next_overflow (timer : Timer) (turn : Turn)
    (hover : durationLimit ≤ timer.desired.nanos + turn.nanos.toNat) :
    timer.next turn = .error .durationOverflow := by
  have hadd : timer.desired.add (.ofNanos turn.nanos) = .error .durationOverflow := dif_neg (Nat.not_lt.mpr hover)
  simp only [next, hadd, bind, Except.bind]

theorem run_followed (timer : Timer) (turns : List Turn) :
    if timer.desired.nanos + drawn turns < durationLimit then
      ∃ results after, timer.run turns = .ok (results, after) ∧
        Followed timer.start timer.desired.nanos turns results after
    else timer.run turns = .error .durationOverflow := by
  induction turns generalizing timer with
  | nil =>
    have hzero : drawn [] = 0 := rfl
    rw [hzero, Nat.add_zero, if_pos timer.desired.fits]
    exact ⟨[], timer, rfl, rfl, rfl, rfl, fun k turn _ h => by cases h⟩
  | cons turn turns ih =>
    rw [drawn_cons, ← Nat.add_assoc]
    by_cases hfits : timer.desired.nanos + turn.nanos.toNat < durationLimit
    · obtain ⟨result, hnext, hmeets⟩ := next_meets timer turn hfits
      have hrest := ih ⟨timer.start, timer.desired.nanos + turn.nanos.toNat, hfits⟩
      split
      · rename_i htotal
        rw [if_pos htotal] at hrest
        obtain ⟨results, after, hrun, hstart, hdesired, hlength, hall⟩ := hrest
        refine ⟨result :: results, after, ?_, hstart, ?_, by simp [hlength], ?_⟩
        · rw [run, hnext]
          simp only [bind, Except.bind, hrun]
          rfl
        · rw [hdesired, drawn_cons, ← Nat.add_assoc]
        · intro k other answer hturn hresult
          cases k with
          | zero =>
            cases hturn
            cases hresult
            simpa [drawn] using hmeets
          | succ k =>
            have hlater := hall k other answer hturn hresult
            rw [Nat.add_assoc, ← drawn_cons] at hlater
            exact hlater
      · rename_i htotal
        rw [if_neg htotal] at hrest
        rw [run, hnext]
        simp only [bind, Except.bind, hrest]
    · rw [if_neg (by omega), run, next_overflow timer turn (Nat.not_lt.mp hfits)]
      rfl

/-- The `k`-th sample is due at the sum of the first `k` draws after the start: the timer sleeps until then
or says how late it is, whatever was late before, and panics once the sum is too large for a duration. -/
theorem run_schedule (start : Instant) (turns : List Turn) :
    if drawn turns < durationLimit then
      ∃ results after, (new start).run turns = .ok (results, after) ∧ after.desired.nanos = drawn turns ∧
        results.length = turns.length ∧
        ∀ k turn result, turns[k]? = some turn → results[k]? = some result →
          Meets (turn.now - start) (drawn (turns.take (k + 1))) result
    else (new start).run turns = .error .durationOverflow := by
  have hzero : (new start).desired.nanos = 0 := rfl
  have hrun := run_followed (new start) turns
  simp only [hzero, Nat.zero_add] at hrun
  split
  · rename_i hfits
    rw [if_pos hfits] at hrun
    obtain ⟨results, after, hok, -, hdesired, hlength, hmeets⟩ := hrun
    rw [Nat.zero_add] at hdesired
    simp only [Nat.zero_add] at hmeets
    exact ⟨results, after, hok, hdesired, hlength, hmeets⟩
  · rename_i hover
    rwa [if_neg hover] at hrun

end Timer

end StSpy
