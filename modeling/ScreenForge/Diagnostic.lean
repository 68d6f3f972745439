/-
# Diagnostics

A defect that a conversion survives is reported, never swallowed: what was skipped or replaced,
about which subject, and how grave it is.  A report is the list of such diagnostics in the order
in which the conversion met the defects.
-/

namespace ScreenForge

namespace Diagnostic

/-- What kind of defect was met. -/
inductive Code where
  | unmappedComponentType
  | malformedComponent
  | invalidProperty
  | unresolvedReference
  | opaqueBlock
  | missingValue
  | unsupportedEvent
  | unmappedMember
  | orphanBlock
  | disabledBlock
  | duplicateDeclaration
  | repairedDescriptor
  deriving DecidableEq, Repr

/-- The name of a code in reports. -/
def Code.name : Code → String
  | .unmappedComponentType => "unmapped_component_type"
  | .malformedComponent => "malformed_component"
  | .invalidProperty => "invalid_property"
  | .unresolvedReference => "unresolved_reference"
  | .opaqueBlock => "opaque_block"
  | .missingValue => "missing_value"
  | .unsupportedEvent => "unsupported_event"
  | .unmappedMember => "unmapped_member"
  | .orphanBlock => "orphan_block"
  | .disabledBlock => "disabled_block"
  | .duplicateDeclaration => "duplicate_declaration"
  | .repairedDescriptor => "repaired_descriptor"

/-- All codes. -/
def Code.all : List Code :=
  [.unmappedComponentType, .malformedComponent, .invalidProperty, .unresolvedReference,
    .opaqueBlock, .missingValue, .unsupportedEvent, .unmappedMember, .orphanBlock, .disabledBlock,
    .duplicateDeclaration, .repairedDescriptor]

/-- The code of a name. -/
def Code.ofName? (name : String) : Option Code := Code.all.find? fun c => c.name == name

theorem Code.ofName?_name (c : Code) : Code.ofName? c.name = some c := by cases c <;> decide

/-- How grave a defect is. -/
inductive Severity where
  | warning
  | error
  deriving DecidableEq, Repr

/-- The name of a severity in reports. -/
def Severity.name : Severity → String
  | .warning => "warning"
  | .error => "error"

/-- The severity of a name. -/
def Severity.ofName? (name : String) : Option Severity :=
  if name = "warning" then some .warning
  else if name = "error" then some .error
  else none

end Diagnostic

/-- One defect that was met. -/
structure Diagnostic where
  code : Diagnostic.Code
  message : String
  subject : Option String := none
  severity : Diagnostic.Severity := .warning
  deriving DecidableEq, Repr

namespace Diagnostic

/-- A defect that leaves the result usable. -/
def warning (code : Code) (message : String) (subject : Option String) : Diagnostic :=
  ⟨code, message, subject, .warning⟩

/-- A defect that leaves a placeholder in the result. -/
def error (code : Code) (message : String) (subject : Option String) : Diagnostic :=
  ⟨code, message, subject, .error⟩

/-- How many diagnostics of a report have a code. -/
def count (code : Code) (report : List Diagnostic) : Nat := report.countP fun d => d.code == code

end Diagnostic
end ScreenForge
