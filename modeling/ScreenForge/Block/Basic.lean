/-
# Blocks and programs

A block has a type and a kind, fields, a mutation with named arguments, value slots that hold a
block or nothing, and statement slots that hold a sequence of blocks.  Fields, mutation entries and
slots are in order with distinct names.

A program is what a screen does: handlers of events, global variables and procedures.
-/
import ScreenForge.Block.Kind

namespace ScreenForge

/-- A block and those in its slots. -/
structure Block where
  kind : Block.Kind
  type : String
  id : Option String := none
  fields : List (String × String) := []
  mutation : List (String × String) := []
  args : List String := []
  values : List (String × Option Block) := []
  statements : List (String × List Block) := []

namespace Block

/-- The event of a component and what it does. -/
structure Handler where
  component : String
  componentType : String
  event : String
  id : Option String := none
  body : List Block := []

/-- A global variable and its initial value. -/
structure Global where
  name : String
  value : Option Block := none

/-- A procedure; one that returns a value may have an expression for it. -/
structure Procedure where
  name : String
  params : List String := []
  body : List Block := []
  result : Option Block := none
  returnsValue : Bool := false

/-- What a screen does, in source order. -/
structure Program where
  handlers : List Handler := []
  globals : List Global := []
  procedures : List Procedure := []

end Block
end ScreenForge
