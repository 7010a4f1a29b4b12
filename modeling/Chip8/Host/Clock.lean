import Chip8.Host.Session

/-!
# Clocks

Two clocks beat from a common start, one for the timers and one for cycles.  The first
beat of a clock comes one period after the start.  Of two beats at the same time the
timers come first, because their clock is started first.
-/

namespace Chip8

/-- The times of the next beats in nanoseconds since the start. -/
structure Clock where
  cyclePeriod : Nat
  nextCycle : Nat
  nextTick : Nat

namespace Clock

/-- The nanoseconds between two ticks of the timers. -/
def tickPeriod : Nat := Rate.period Session.timerFrequency

def ofRate (rate : UInt32) : Clock :=
  { cyclePeriod := Rate.period rate
    nextCycle := Rate.period rate
    nextTick := tickPeriod }

def beat (clock : Clock) : Input × Nat :=
  if clock.nextTick ≤ clock.nextCycle then (.timerTick, clock.nextTick)
  else (.cycle, clock.nextCycle)

def advance (clock : Clock) : Clock :=
  if clock.nextTick ≤ clock.nextCycle then
    { clock with nextTick := clock.nextTick + tickPeriod }
  else { clock with nextCycle := clock.nextCycle + clock.cyclePeriod }

end Clock

namespace Run

/-- Feeds the beats of the clocks to a run until it ends, at most a number of them. -/
def followClock (settings : Settings) (run : Run) (clock : Clock) : Nat → Run
  | 0 => run
  | beats + 1 =>
      match run.ending with
      | some _ => run
      | none =>
          (run.feed settings clock.beat.1).followClock settings clock.advance beats

end Run
end Chip8
