/-
# Metrics

A service counts what it does: conversions and screens by how they ended, diagnostics by code,
errors by type and component.  A counter shows once it has been used.  The durations of conversions
go into a histogram, whose buckets count all durations up to a bound (`Histogram.cumulative`) and
which always shows.
-/
import ScreenForge.Assoc
import ScreenForge.Number.Style
import ScreenForge.Text.Split

namespace ScreenForge

/-- A counter for each value of a label. -/
abbrev Tally (κ : Type) := List (κ × Nat)

namespace Tally

variable {κ : Type} [DecidableEq κ]

/-- Counts one more of a value. -/
def add (key : κ) : Tally κ → Tally κ
  | [] => [(key, 1)]
  | (k, n) :: rest => if k = key then (k, n + 1) :: rest else (k, n) :: add key rest

/-- The count of a value. -/
def count (key : κ) : Tally κ → Nat
  | [] => 0
  | (k, n) :: rest => if k = key then n else count key rest

/-- All that was counted. -/
def total (tally : Tally κ) : Nat := tally.foldr (fun e n => e.2 + n) 0

theorem count_add (key other : κ) (tally : Tally κ) :
    count other (add key tally) = count other tally + if key = other then 1 else 0 := by
  induction tally with
  | nil => by_cases h : key = other <;> simp [add, count, h]
  | cons e rest ih =>
    by_cases h : e.1 = key <;> by_cases h' : e.1 = other <;> simp_all [add, count]
    all_goals grind

theorem total_add (key : κ) (tally : Tally κ) : total (add key tally) = total tally + 1 := by
  induction tally with
  | nil => rfl
  | cons e rest ih =>
    by_cases h : e.1 = key <;> simp_all [add, total] <;> omega

end Tally

/-- Durations by bucket, each in the first bucket whose bound it does not pass. -/
structure Histogram where
  /-- How many durations each bucket holds, the last one without a bound. -/
  placed : List Nat
  deriving DecidableEq, Repr

namespace Histogram

/-- The bounds of the buckets in seconds, all but the last. -/
def bounds : List Binary64 := [
  .ofDecimal false 1 (-2), .ofDecimal false 5 (-2), .ofDecimal false 1 (-1),
  .ofDecimal false 5 (-1), .ofDecimal false 1 0, .ofDecimal false 25 (-1), .ofDecimal false 5 0,
  .ofDecimal false 10 0, .ofDecimal false 30 0]

/-- The bounds as they are shown. -/
def boundNames : List String := bounds.map FloatStyle.plain.render ++ ["+Inf"]

/-- No durations. -/
def empty : Histogram := ⟨List.replicate 10 0⟩

/-- Counts a duration in the first bucket that takes it; one that is no number is in none. -/
def place (x : Binary64) : List Binary64 → List Nat → List Nat
  | _, [] => []
  | [], n :: rest => (if x = .nan then n else n + 1) :: rest
  | b :: bs, n :: rest => if x.le b then (n + 1) :: rest else n :: place x bs rest

/-- Counts a duration. -/
def observe (x : Binary64) (h : Histogram) : Histogram := ⟨place x bounds h.placed⟩

/-- Running sums. -/
def sums : Nat → List Nat → List Nat
  | _, [] => []
  | acc, n :: rest => (acc + n) :: sums (acc + n) rest

/-- How many durations are up to each bound. -/
def cumulative (h : Histogram) : List Nat := sums 0 h.placed

/-- How many durations there are. -/
def count (h : Histogram) : Nat := h.placed.foldr (· + ·) 0

end Histogram

/-- The counters of a service. -/
structure Metrics where
  conversions : Tally String := []
  screens : Tally String := []
  diagnostics : Tally String := []
  /-- By type and component. -/
  errors : Tally (String × String) := []
  durations : Histogram := .empty
  deriving DecidableEq, Repr

namespace Metrics

/-- Counts a conversion and its duration. -/
def addConversion (status : String) (seconds : Binary64) (m : Metrics) : Metrics :=
  { m with conversions := m.conversions.add status, durations := m.durations.observe seconds }

/-- Counts a screen. -/
def addScreen (status : String) (m : Metrics) : Metrics :=
  { m with screens := m.screens.add status }

/-- Counts a diagnostic. -/
def addDiagnostic (code : String) (m : Metrics) : Metrics :=
  { m with diagnostics := m.diagnostics.add code }

/-- Counts an error. -/
def addError (type component : String) (m : Metrics) : Metrics :=
  { m with errors := m.errors.add (type, component) }

/-- A character of a label's value. -/
def escape (c : Char) : List Char :=
  if c = '\\' then ['\\', '\\']
  else if c = '"' then ['\\', '"']
  else if c = '\n' then ['\\', 'n']
  else [c]

/-- A label with its value. -/
def label (name value : String) : String :=
  name ++ "=\"" ++ String.ofList (value.toList.flatMap escape) ++ "\""

/-- One line: a name, labels and a count. -/
def line (name : String) (labels : List (String × String)) (n : Nat) : String :=
  let shown := if labels.isEmpty then "" else
    "\x7b" ++ Text.join "," (labels.map fun l => label l.1 l.2) ++ "\x7d"
  name ++ shown ++ " " ++ toString n ++ ".0"

/-- The lines of the histogram's buckets. -/
def bucketLines (m : Metrics) : List String :=
  (Histogram.boundNames.zip m.durations.cumulative).map fun (bound, n) =>
    line "aia_conversion_duration_seconds_bucket" [("le", bound)] n

/-- All other lines. -/
def counterLines (m : Metrics) : List String :=
  (m.conversions.map fun (s, n) => line "aia_conversions_total" [("status", s)] n)
    ++ (m.screens.map fun (s, n) => line "aia_screens_total" [("status", s)] n)
    ++ (m.diagnostics.map fun (c, n) => line "aia_diagnostics_total" [("code", c)] n)
    ++ (m.errors.map fun ((t, c), n) =>
      line "aia_errors_total" [("component", c), ("error_type", t)] n)
    ++ [line "aia_conversion_duration_seconds_count" [] m.durations.count]

/-- The lines of a report in code point order, with the buckets or without. -/
def lines (buckets : Bool) (m : Metrics) : List String :=
  (m.counterLines ++ if buckets then m.bucketLines else []).mergeSort fun a b => a ≤ b

example : Histogram.boundNames =
    ["0.01", "0.05", "0.1", "0.5", "1.0", "2.5", "5.0", "10.0", "30.0", "+Inf"] := by
  decide +kernel

end Metrics
end ScreenForge
