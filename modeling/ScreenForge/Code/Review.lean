/-
# Reviewing code

Writing code has a journal: every expression and statement looks at the clock, and what cannot be
written as meant is noted where it stands.  `uses` lists the components that code refers to in the
order in which it does; that order decides the names of their fields.
-/
import ScreenForge.Kotlin.Statement

namespace ScreenForge
namespace Code

open Journal (Entry)
open Kotlin (Env Scope)

/-- The journal entry of looking at the clock. -/
def tick : Entry := .look .blockCompilation

/-- The note of a reference that stands for nothing. -/
def unresolved (what name : String) : Entry :=
  .note (.error .unresolvedReference s!"Unresolved {what} reference '{name}'" (some name))

/-- The note of a block outside the vocabulary. -/
def unknownBlock (type : String) : Entry :=
  .note (.warning .opaqueBlock s!"Unsupported block type '{type}'; replaced by a placeholder"
    (some type))

/-- The note of a slot without a block. -/
def missingValue (slot owner : String) : Entry :=
  .note (.error .missingValue s!"Empty value slot {slot} in {owner}" (some owner))

/-- The note of a property without an accessor. -/
def accessorNotes (ref : Layout.Ref) (property : String) : List Entry :=
  if (ref.rule.accessors.lookup property).isSome then []
  else
    let used := Kotlin.accessor ref property
    [.note (.warning .unmappedMember
      s!"No Kotlin accessor for {ref.type}.{property}; using '{used}'"
      (some (ref.name ++ "." ++ property)))]

/-- The note of a method without a mapping. -/
def methodNotes (ref : Layout.Ref) (method : String) : List Entry :=
  if (ref.rule.methods.lookup method).isSome then []
  else
    let used := Kotlin.methodName ref method
    [.note (.warning .unmappedMember
      s!"No Kotlin mapping for method {ref.type}.{method}; using '{used}'"
      (some (ref.name ++ "." ++ method)))]

/-- What is noted of a component: what a reader of its entry says, or that it stands for nothing. -/
def componentNotes (env : Env) (name : String) (notes : Layout.Ref → List Entry) : List Entry :=
  match env.components.lookup name with
  | some ref => notes ref
  | none => [unresolved "component" name]

/-- What is noted of a variable. -/
def variableNotes (env : Env) (scope : Scope) (name : String) : List Entry :=
  if (env.binding? scope name).isSome then [] else [unresolved "variable" name]

/-- Looking at the clock for an expression; a missing one is not looked at. -/
def Expr.look : Expr → List Entry
  | .missing _ _ => []
  | _ => [tick]

mutual

/-- The journal of an expression behind the look at the clock for itself. -/
def Expr.inside (env : Env) (scope : Scope) : Expr → List Entry
  | .missing slot owner => [missingValue slot owner]
  | .number entered type =>
    if (Kotlin.numberLiteral? entered).isSome then []
    else [.note (.warning .missingValue s!"Invalid number literal '{entered}'" (some type))]
  | .text _ => []
  | .truth _ => []
  | .chain _ operands => Expr.insideAll env scope operands
  | .emptyChain => [.stop .missingOperands]
  | .binary _ left right =>
    left.look ++ Expr.inside env scope left ++ right.look ++ Expr.inside env scope right
  | .unknownOperator _ type _ left right =>
    left.look ++ Expr.inside env scope left ++ right.look ++ Expr.inside env scope right
      ++ [unknownBlock type]
  | .negate operand => operand.look ++ Expr.inside env scope operand
  | .not operand => operand.look ++ Expr.inside env scope operand
  | .choose test yes no =>
    test.look ++ Expr.inside env scope test ++ yes.look ++ Expr.inside env scope yes
      ++ no.look ++ Expr.inside env scope no
  | .join items => Expr.insideAll env scope items
  | .list items => Expr.insideAll env scope items
  | .property name prop => componentNotes env name fun ref => accessorNotes ref prop
  | .method name called args =>
    Expr.insideAll env scope args ++ componentNotes env name fun ref => methodNotes ref called
  | .longSlots => [.stop .longSlotNumber]
  | .component name => componentNotes env name fun _ => []
  | .variable name => variableNotes env scope name
  | .procedure name args =>
    Expr.insideAll env scope args
      ++ if (env.procedure? scope name).isSome then [] else [unresolved "procedure" name]
  | .unsupported type => [unknownBlock type]
  | .misplaced type =>
    [.note (.error .opaqueBlock s!"Statement block {type} used as a value" (some type))]

/-- The journal of expressions in order. -/
def Expr.insideAll (env : Env) (scope : Scope) : List Expr → List Entry
  | [] => []
  | e :: rest => e.look ++ Expr.inside env scope e ++ Expr.insideAll env scope rest

end

/-- The journal of an expression. -/
def Expr.review (env : Env) (scope : Scope) (e : Expr) : List Entry :=
  e.look ++ e.inside env scope

mutual

/-- The components that an expression refers to, in order. -/
def Expr.uses : Expr → List String
  | .chain _ operands => Expr.usesAll operands
  | .binary _ left right => Expr.uses left ++ Expr.uses right
  | .unknownOperator _ _ _ left right => Expr.uses left ++ Expr.uses right
  | .negate operand => Expr.uses operand
  | .not operand => Expr.uses operand
  | .choose test yes no => Expr.uses test ++ Expr.uses yes ++ Expr.uses no
  | .join items => Expr.usesAll items
  | .list items => Expr.usesAll items
  | .property name _ => [name]
  | .method name _ args => Expr.usesAll args ++ [name]
  | .component name => [name]
  | .procedure _ args => Expr.usesAll args
  | _ => []

/-- The components that expressions refer to, in order. -/
def Expr.usesAll : List Expr → List String
  | [] => []
  | e :: rest => Expr.uses e ++ Expr.usesAll rest

end

mutual

/-- The journal of a statement in a scope. -/
def Stmt.review (env : Env) (scope : Scope) : Stmt → List Entry
  | .branch arms otherwise =>
    tick :: (Stmt.reviewArms env scope arms ++ Stmt.reviewOtherwise env scope otherwise)
  | .loop _ condition body =>
    tick :: (condition.review env scope ++ Stmt.reviewAll env scope body)
  | .forRange name first last step body =>
    tick :: (first.review env scope ++ last.review env scope ++ step.review env scope
      ++ Stmt.reviewAll env (name :: scope) body)
  | .forEach name items body =>
    tick :: (items.review env scope ++ Stmt.reviewAll env (name :: scope) body)
  | .leave => [tick]
  | .setProperty name prop given =>
    tick :: (given.review env scope
      ++ componentNotes env name fun ref => accessorNotes ref prop)
  | .setVariable name given =>
    tick :: (given.review env scope ++ variableNotes env scope name)
  | .locals names body =>
    tick :: (names.flatMap (fun d => d.2.review env scope)
      ++ Stmt.reviewAll env (Kotlin.localScope scope names) body)
  | .call e => tick :: e.inside env scope
  | .value e => tick :: e.review env scope
  | .unsupported type _ => [tick, unknownBlock type]

/-- The journal of conditions and what to do. -/
def Stmt.reviewArms (env : Env) (scope : Scope) : List (Expr × List Stmt) → List Entry
  | [] => []
  | (condition, body) :: rest =>
    condition.review env scope ++ Stmt.reviewAll env scope body ++ Stmt.reviewArms env scope rest

/-- The journal of what to do otherwise. -/
def Stmt.reviewOtherwise (env : Env) (scope : Scope) : Option (List Stmt) → List Entry
  | none => []
  | some body => Stmt.reviewAll env scope body

/-- The journal of statements in order. -/
def Stmt.reviewAll (env : Env) (scope : Scope) : List Stmt → List Entry
  | [] => []
  | s :: rest => Stmt.review env scope s ++ Stmt.reviewAll env scope rest

end

mutual

/-- The components that a statement refers to, in order. -/
def Stmt.uses : Stmt → List String
  | .branch arms otherwise => Stmt.usesArms arms ++ Stmt.usesOtherwise otherwise
  | .loop _ condition body => condition.uses ++ Stmt.usesAll body
  | .forRange _ first last step body => first.uses ++ last.uses ++ step.uses ++ Stmt.usesAll body
  | .forEach _ items body => items.uses ++ Stmt.usesAll body
  | .leave => []
  | .setProperty name _ given => given.uses ++ [name]
  | .setVariable _ given => given.uses
  | .locals names body => names.flatMap (fun d => d.2.uses) ++ Stmt.usesAll body
  | .call e => e.uses
  | .value e => e.uses
  | .unsupported _ _ => []

/-- The components that conditions and what to do refer to, in order. -/
def Stmt.usesArms : List (Expr × List Stmt) → List String
  | [] => []
  | (condition, body) :: rest => condition.uses ++ Stmt.usesAll body ++ Stmt.usesArms rest

/-- The components that what to do otherwise refers to, in order. -/
def Stmt.usesOtherwise : Option (List Stmt) → List String
  | none => []
  | some body => Stmt.usesAll body

/-- The components that statements refer to, in order. -/
def Stmt.usesAll : List Stmt → List String
  | [] => []
  | s :: rest => Stmt.uses s ++ Stmt.usesAll rest

end

end Code
end ScreenForge
