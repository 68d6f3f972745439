/-
# Complaints about given values

Requests and settings are given by others and may not be what they should be.  A complaint says
what is wrong with the value of one field; a refusal lists them in the order of the fields.
-/

namespace ScreenForge

/-- What is wrong with a value. -/
inductive Complaint where
  | missing
  | notObject
  | notText
  | tooShort
  | tooLong
  | unsuitable
  | noInteger
  | badIntegerText
  | longIntegerText
  | fraction
  | notFinite
  | noFloat
  | badFloatText
  | noSwitch
  | badSwitch
  | notGreater
  | notAtMost
  deriving DecidableEq, Repr

/-- The name of a complaint in answers. -/
def Complaint.name : Complaint → String
  | .missing => "missing"
  | .notObject => "model_type"
  | .notText => "string_type"
  | .tooShort => "string_too_short"
  | .tooLong => "string_too_long"
  | .unsuitable => "value_error"
  | .noInteger => "int_type"
  | .badIntegerText => "int_parsing"
  | .longIntegerText => "int_parsing_size"
  | .fraction => "int_from_float"
  | .notFinite => "finite_number"
  | .noFloat => "float_type"
  | .badFloatText => "float_parsing"
  | .noSwitch => "bool_type"
  | .badSwitch => "bool_parsing"
  | .notGreater => "greater_than"
  | .notAtMost => "less_than_equal"

/-- Complaints by the field they are about, empty for the value as a whole. -/
abbrev Refusal := List (String × Complaint)

/-- The complaint about a field, if there is one. -/
def complaintOf {α : Type} (field : String) : Except Complaint α → Refusal
  | .error c => [(field, c)]
  | .ok _ => []

/-- A refusal in words. -/
def Refusal.message (r : Refusal) : String :=
  String.intercalate "; " (r.map fun c => c.1 ++ ": " ++ c.2.name)

end ScreenForge
