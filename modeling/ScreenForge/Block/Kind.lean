/-
# Kinds of blocks

Blocks come in many types; a kind is what a type means to the compiler.  Types outside the
vocabulary are of the kind `unknown`.  Setting and getting a property is one type, and the block's
mutation tells them apart.
-/

namespace ScreenForge
namespace Block

/-- What a block means. -/
inductive Kind where
  | branch
  | loop
  | forRange
  | forEach
  | leave
  | number
  | text
  | boolean
  | arithmetic
  | negate
  | compare
  | logic
  | not
  | choose
  | textJoin
  | listCreate
  | propertyGet
  | propertySet
  | methodCall
  | componentRef
  | variableGet
  | variableSet
  | localDeclaration
  | procedureCall
  | unknown
  deriving DecidableEq, Repr

/-- The name of a kind. -/
def Kind.name : Kind → String
  | .branch => "if"
  | .loop => "while"
  | .forRange => "for_range"
  | .forEach => "for_each"
  | .leave => "break"
  | .number => "number"
  | .text => "text"
  | .boolean => "boolean"
  | .arithmetic => "arithmetic"
  | .negate => "negate"
  | .compare => "compare"
  | .logic => "logic"
  | .not => "not"
  | .choose => "choose"
  | .textJoin => "text_join"
  | .listCreate => "list_create"
  | .propertyGet => "property_get"
  | .propertySet => "property_set"
  | .methodCall => "method_call"
  | .componentRef => "component_ref"
  | .variableGet => "variable_get"
  | .variableSet => "variable_set"
  | .localDeclaration => "local_declaration"
  | .procedureCall => "procedure_call"
  | .unknown => "opaque"

/-- The vocabulary: the kind of each known type. -/
def vocabulary : List (String × Kind) := [
  ("controls_if", .branch), ("controls_while", .loop), ("controls_whileUntil", .loop),
  ("controls_forRange", .forRange), ("controls_forEach", .forEach), ("controls_break", .leave),
  ("controls_choose", .choose), ("math_number", .number), ("text", .text),
  ("logic_boolean", .boolean), ("logic_false", .boolean), ("math_add", .arithmetic),
  ("math_subtract", .arithmetic), ("math_multiply", .arithmetic), ("math_division", .arithmetic),
  ("math_power", .arithmetic), ("math_neg", .negate), ("math_compare", .compare),
  ("logic_compare", .compare), ("text_compare", .compare), ("logic_operation", .logic),
  ("logic_negate", .not), ("text_join", .textJoin), ("lists_create_with", .listCreate),
  ("component_set_get", .propertyGet), ("component_method", .methodCall),
  ("component_component_block", .componentRef), ("lexical_variable_get", .variableGet),
  ("lexical_variable_set", .variableSet), ("local_declaration_statement", .localDeclaration),
  ("procedures_callnoreturn", .procedureCall), ("procedures_callreturn", .procedureCall)
]

/-- The kind of a block from its type and mutation. -/
def kindOf (type : String) (mutation : List (String × String)) : Kind :=
  match (vocabulary.lookup type).getD .unknown with
  | .propertyGet => if mutation.lookup "set_or_get" = some "set" then .propertySet else .propertyGet
  | kind => kind

end Block
end ScreenForge
