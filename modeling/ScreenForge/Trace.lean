/-
# Traces

An operation may be traced: it opens a span when it starts and logs an event when it ends, however
it ends.  Operations nest, and a span knows the one around it; all spans below one outermost span
share a trace.  The trace and the span that are open now are the context of a run: a span sets it
when it opens, and sets it back when it ends.  An error leaves the operation that it arises in, and
is caught outside it unless the operation lets it pass to the one around.

| tag | taken by | what comes of it |
| --- | --- | --- |
| `operation` | every operation | the operation does not start |
| `name`, `self` | every span | the span does not open |
| `event`; `error` after an error | every event | the event is not logged |

A tag that is taken is an error that nobody catches.

`Operation` is what happens; `runAll` says which spans open and which events follow.
-/
import ScreenForge.Assoc
import ScreenForge.Deadline

namespace ScreenForge
namespace Trace

/-- A traced operation: what runs inside it, then the error that it ends in, if any. -/
structure Operation where
  name : String
  tags : List (String × String) := []
  inner : List Operation := []
  error : Option String := none
  /-- Whether an error passes on to the operation around. -/
  propagate : Bool := false

/-- Who logs, and the seconds beyond which an operation counts as slow. -/
structure Tracer where
  service : String
  slow : Seconds := .whole 1

/-- The number of a trace or a span, in the order in which they are drawn. -/
abbrev Id := Nat

/-- What ends an operation early. -/
inductive Error where
  | raised (message : String)
  /-- A tag has a name that is taken. -/
  | taken (tag : String)
  deriving DecidableEq, Repr

/-- The error in words. -/
def Error.message : Error → String
  | .raised message => message
  | .taken tag => "got multiple values for argument '" ++ tag ++ "'"

/-- How an operation ended. -/
inductive Level where
  | completed
  | slow
  | failed (error : Error)
  deriving DecidableEq, Repr

/-- The name of the level at which an event is logged. -/
def Level.name : Level → String
  | .completed => "debug"
  | .slow => "warning"
  | .failed _ => "error"

/-- The name of an event. -/
def Level.event : Level → String
  | .completed => "span_completed"
  | .slow => "span_completed_slow"
  | .failed _ => "span_completed_with_error"

/-- The value of a field. -/
inductive Value where
  | id (n : Id)
  | text (s : String)
  deriving DecidableEq, Repr

/-- The field that tells an error. -/
def Level.errorField : Level → List (String × Value)
  | .failed e => [("error", .text e.message)]
  | _ => []

/-- What is logged when a span ends. -/
structure Event where
  level : Level
  fields : List (String × Value)
  deriving DecidableEq, Repr

/-- The trace and the span that are open now. -/
structure Context where
  trace : Option Id := none
  span : Option Id := none
  deriving DecidableEq, Repr

/-- A span that is open. -/
structure Span where
  trace : Id
  id : Id
  parent : Option Id
  operation : String
  tags : List (String × String)
  /-- The index of the clock's reading at its start. -/
  start : Nat
  /-- The context before the span, to be set back behind it. -/
  before : Context

/-- What has happened so far. -/
structure Run where
  /-- The next number to be drawn. -/
  next : Id := 0
  /-- The index of the clock's next reading. -/
  reading : Nat := 0
  context : Context := {}
  /-- Operations in opening order, and whether each has a span. -/
  opened : List (String × Bool) := []
  /-- Events in the order of completion. -/
  events : List Event := []
  /-- The error on its way out. -/
  raised : Option Error := none

/-- Whether a duration is beyond a number of seconds. -/
def isSlow (limit : Seconds) (nanoseconds : Int) : Bool :=
  match limit with
  | .whole n => nanoseconds > n * 1000000000
  | .real (.finite s m e) =>
    let (num, den) := Binary64.ratio s m e
    nanoseconds * den > num * 1000000000
  | .real (.infinite negative) => negative
  | .real .nan => false

/-- How a span ends that took a time. -/
def levelOf (tracer : Tracer) (error : Option Error) (nanoseconds : Int) : Level :=
  match error with
  | some e => .failed e
  | none => if isSlow tracer.slow nanoseconds then .slow else .completed

/-- The error after an operation, given the one that leaves it. -/
def passOn (propagate : Bool) : Option Error → Option Error
  | some (.taken tag) => some (.taken tag)
  | error => if propagate then error else none

/-- The first tag whose name is among some. -/
def tagAmong? (names : List String) (tags : List (String × String)) : Option String :=
  (tags.find? fun tag => names.contains tag.1).map Prod.fst

/-- The tag that keeps an operation from starting, or its span from opening. -/
def refusedTag? (tracer : Option Tracer) (tags : List (String × String)) : Option String :=
  match tagAmong? ["operation"] tags with
  | some tag => some tag
  | none => if tracer.isSome then tagAmong? ["name", "self"] tags else none

/-- The tag that keeps an event from being logged. -/
def unloggedTag? (level : Level) (tags : List (String × String)) : Option String :=
  match level with
  | .failed _ => tagAmong? ["event", "error"] tags
  | _ => tagAmong? ["event"] tags

/-- The span of an operation that opens now.  An outermost span draws a trace first. -/
def Run.span (run : Run) (name : String) (tags : List (String × String)) : Span where
  trace := run.context.trace.getD run.next
  id := if run.context.trace.isSome then run.next else run.next + 1
  parent := run.context.span
  operation := name
  tags := tags
  start := run.reading
  before := run.context

/-- The run after a span has opened. -/
def Run.enter (run : Run) (span : Span) : Run :=
  { run with
    next := span.id + 1
    reading := run.reading + 1
    context := ⟨some span.trace, some span.id⟩
    opened := run.opened ++ [(span.operation, true)] }

/-- The fields of a span's event; a later one stands in place of an earlier one of its name. -/
def Span.fields (span : Span) (service : String) (level : Level) : List (String × Value) :=
  Assoc.ofList ([("trace_id", .id span.trace), ("span_id", .id span.id),
      ("operation", .text span.operation), ("service", .text service)]
    ++ span.tags.map (fun tag => (tag.1, .text tag.2))
    ++ (span.parent.map fun id => ("parent_id", Value.id id)).toList
    ++ level.errorField)

/-- The run after a span has ended that an error leaves, or none. -/
def Run.leave (run : Run) (tracer : Tracer) (clock : Clock) (span : Span) (leaving : Option Error)
    (propagate : Bool) : Run :=
  let level := levelOf tracer leaving (clock run.reading - clock span.start)
  let ended := { run with reading := run.reading + 1, context := span.before }
  match unloggedTag? level span.tags with
  | some tag => { ended with raised := some (.taken tag) }
  | none =>
    { ended with
      events := run.events ++ [⟨level, span.fields tracer.service level⟩]
      raised := passOn propagate leaving }

mutual

/-- Runs an operation. -/
def runOne (tracer : Option Tracer) (clock : Clock) (start : Run) (op : Operation) : Run :=
  match op with
  | ⟨name, tags, inner, error, propagate⟩ =>
    match refusedTag? tracer tags with
    | some tag => { start with raised := some (.taken tag) }
    | none =>
      match tracer with
      | none =>
        let run := runAll none clock { start with opened := start.opened ++ [(name, false)] } inner
        { run with raised := passOn propagate (run.raised <|> error.map .raised) }
      | some t =>
        let span := start.span name tags
        let run := runAll (some t) clock (start.enter span) inner
        run.leave t clock span (run.raised <|> error.map .raised) propagate

/-- Runs operations in order until an error leaves one. -/
def runAll (tracer : Option Tracer) (clock : Clock) (run : Run) : List Operation → Run
  | [] => run
  | op :: rest =>
    let after := runOne tracer clock run op
    match after.raised with
    | some _ => after
    | none => runAll tracer clock after rest

end

/-- Runs outermost operations. -/
def run (tracer : Option Tracer) (clock : Clock) (operations : List Operation) : Run :=
  runAll tracer clock {} operations

end Trace
end ScreenForge
