/-
# Journals

Each stage of a conversion has a result and a journal.  The journal says in order what the stage
does beyond computing: it looks at the clock, notes a defect, or stops for good.  Results never
depend on the clock; a deadline can only cut a journal short (`settle`).

`Fault` lists what stops a conversion.
-/
import ScreenForge.Block.Error
import ScreenForge.Deadline
import ScreenForge.Diagnostic
import ScreenForge.Layout.Descriptor

namespace ScreenForge

/-- What stops a conversion. -/
inductive Fault where
  /-- The deadline passed during a stage. -/
  | timeout (stage : Stage) (seconds : Seconds)
  | malformedLayout (cause : Layout.Error)
  | malformedBlocks (cause : Block.Error)
  /-- A property that asks for a whole number holds one beyond the range. -/
  | unboundedNumber
  /-- An operator block has a negative number of operands. -/
  | missingOperands
  /-- An argument slot is numbered with more digits than a number may have. -/
  | longSlotNumber
  deriving DecidableEq, Repr

/-- The cause in words. -/
def Fault.message : Fault → String
  | .timeout stage seconds => s!"{stage.name} exceeded deadline of {seconds.text}s"
  | .malformedLayout cause => cause.message
  | .malformedBlocks cause => cause.message
  | .unboundedNumber => "cannot convert float infinity to integer"
  | .missingOperands => "list index out of range"
  | .longSlotNumber => "Exceeds the limit (4300 digits) for integer string conversion"

namespace Journal

/-- One step of a stage that can be seen from outside. -/
inductive Entry where
  /-- Looks at the clock. -/
  | look (stage : Stage)
  /-- Notes a defect. -/
  | note (diagnostic : Diagnostic)
  /-- Stops for good. -/
  | stop (cause : Fault)
  deriving DecidableEq, Repr

/-- The defects that a journal notes, in order. -/
def notes : List Entry → List Diagnostic
  | [] => []
  | .note d :: rest => d :: notes rest
  | _ :: rest => notes rest

/-- How often a journal looks at the clock. -/
def looks (journal : List Entry) : Nat :=
  journal.countP fun e => match e with
    | .look _ => true
    | _ => false

/-- What stops a journal under a timer, with the index of the clock's next reading. -/
def stopped? (timer : Timer) : Nat → List Entry → Option Fault
  | _, [] => none
  | index, .look stage :: rest =>
    match timer.deadline with
    | none => stopped? timer index rest
    | some d =>
      if d.expired (timer.clock index) then some (.timeout stage d.seconds)
      else stopped? timer (index + 1) rest
  | index, .note _ :: rest => stopped? timer index rest
  | _, .stop cause :: _ => some cause

/-- The defects of a journal that comes to its end under a timer, or what stops it. -/
def settle (timer : Timer) (journal : List Entry) : Except Fault (List Diagnostic) :=
  match stopped? timer 0 journal with
  | some cause => .error cause
  | none => .ok (notes journal)

@[simp] theorem notes_append (a b : List Entry) : notes (a ++ b) = notes a ++ notes b := by
  induction a with
  | nil => rfl
  | cons e rest ih => cases e <;> simp [notes, ih]

/-- **A deadline only cuts.**  A journal either ends as it does without a deadline, or in a
timeout. -/
theorem stopped?_eq_or_timeout (timer : Timer) (index : Nat) (journal : List Entry) :
    stopped? timer index journal = stopped? Timer.unlimited 0 journal
      ∨ ∃ stage seconds, stopped? timer index journal = some (.timeout stage seconds) := by
  induction journal generalizing index with
  | nil => exact .inl rfl
  | cons e rest ih =>
    cases e with
    | note d => simpa [stopped?] using ih index
    | stop cause => exact .inl rfl
    | look stage =>
      cases hd : timer.deadline with
      | none => simpa [stopped?, hd, Timer.unlimited] using ih index
      | some d =>
        by_cases hx : d.expired (timer.clock index) = true
        · exact .inr ⟨stage, d.seconds, by simp [stopped?, hd, hx]⟩
        · simpa [stopped?, hd, hx, Timer.unlimited] using ih (index + 1)

end Journal
end ScreenForge
