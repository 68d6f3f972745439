/-
# Deadlines

A conversion may be given a number of seconds.  Between its steps it reads a clock, and once a
reading has reached the deadline it gives up.  Moments are whole nanoseconds; a clock is the
sequence of its readings, so that a run under a deadline is a function of the readings it takes.
-/
import ScreenForge.Number.Style

namespace ScreenForge

/-- A number of seconds, whole or not, as it was given. -/
inductive Seconds where
  | whole (n : Int)
  | real (x : Binary64)
  deriving DecidableEq, Repr

namespace Seconds

/-- The number as it was given. -/
def text : Seconds → String
  | .whole n => toString n
  | .real x => FloatStyle.plain.render x

/-- Nanoseconds, rounded up; `none` for a number that bounds nothing. -/
def nanoseconds? : Seconds → Option Int
  | .whole n => some (n * 1000000000)
  | .real (.finite s m e) =>
    let (num, den) := Binary64.ratio s m e
    some (-((-(num * 1000000000)).fdiv den))
  | .real (.infinite true) => some 0
  | .real _ => none

end Seconds

/-- The successive readings of a clock, in nanoseconds. -/
abbrev Clock := Nat → Int

namespace Clock

/-- A clock that moves by a fixed step between readings. -/
def steady (step : Int) : Clock := fun n => (n + 1) * step

end Clock

/-- A moment by which a run has to be over, and the seconds it was given. -/
structure Deadline where
  seconds : Seconds
  start : Int := 0

namespace Deadline

/-- Whether a reading has reached the deadline. -/
def expired (deadline : Deadline) (reading : Int) : Bool :=
  match deadline.seconds.nanoseconds? with
  | some n => deadline.start + n ≤ reading
  | none => false

/-- Whether time is left at a reading.  A number that is none leaves none. -/
def timeLeft (deadline : Deadline) (reading : Int) : Bool :=
  match deadline.seconds with
  | .real .nan => false
  | _ => !deadline.expired reading

end Deadline

/-- The parts of a conversion that watch the deadline. -/
inductive Stage where
  | layoutParsing
  | layoutGeneration
  | blockParsing
  | blockCompilation
  /-- A stage with a name of its own. -/
  | other (name : String)
  deriving DecidableEq, Repr

/-- The name of a stage in messages. -/
def Stage.name : Stage → String
  | .layoutParsing => "layout parsing"
  | .layoutGeneration => "layout generation"
  | .blockParsing => "block parsing"
  | .blockCompilation => "block compilation"
  | .other name => name

/-- The deadline of a run, if it has one, and the clock it reads. -/
structure Timer where
  deadline : Option Deadline := none
  clock : Clock := fun _ => 0

namespace Timer

/-- No deadline. -/
def unlimited : Timer := {}

/-- Whether the deadline has passed at the clock's reading of an index. -/
def expiredAt (timer : Timer) (index : Nat) : Bool :=
  match timer.deadline with
  | some d => d.expired (timer.clock index)
  | none => false

end Timer
end ScreenForge
