/-
# Statements in Kotlin

A statement is a list of lines.  Bodies are indented and see the variables that their statement
introduces; what introduces them does not.  A text property takes only texts, so any other value is
converted.  What cannot be written is a comment.
-/
import ScreenForge.Kotlin.Expression

namespace ScreenForge
namespace Kotlin

open Code (Expr Stmt)

/-- A line that opens a body. -/
def openingLine (head : String) : String := head ++ " \x7b"

/-- The line that closes a body. -/
def closingLine : String := "\x7d"

/-- Lines around an indented body. -/
def bracedLines (head : String) (body : List String) : List String :=
  openingLine head :: (indent body ++ [closingLine])

/-- The condition of a loop that runs until it holds. -/
def negatedText (condition : String) : String :=
  if condition.toList.head? = some '(' then "!" ++ condition else "!(" ++ condition ++ ")"

/-- Whether a value has to be converted into text: it is there and is no text already. -/
def needsText : Expr → Bool
  | .missing _ _ => false
  | .text _ => false
  | .join _ => false
  | _ => true

/-- A property set to a value. -/
def setPropertyLine (env : Env) (scope : Scope) (name property : String) (value : Expr) : String :=
  let text := exprText env scope value
  match env.component? scope name with
  | some (target, ref) =>
    let member := accessor ref property
    let text := if member = "text" && needsText value then receiver text ++ ".toString()" else text
    target ++ "." ++ member ++ " = " ++ text
  | none => "// unresolved component: " ++ name ++ "." ++ property ++ " = " ++ text

/-- A variable set to a value. -/
def setVariableLine (env : Env) (scope : Scope) (name : String) (value : Expr) : String :=
  let text := exprText env scope value
  match env.binding? scope name with
  | some target => target ++ " = " ++ text
  | none => "// unresolved variable '" ++ name ++ "' = " ++ text

/-- A block of an unknown type with its fields. -/
def unsupportedLabel (type : String) (fields : List (String × String)) : String :=
  if fields.isEmpty then type
  else type ++ " (" ++ Text.join ", " (fields.map fun f => f.1 ++ "=" ++ f.2) ++ ")"

/-- The lines that declare local variables; their values are of the scope around. -/
def localLines (env : Env) (scope : Scope) (names : List (String × Expr)) : List String :=
  names.map fun d => "var " ++ identifier d.1 ++ " = " ++ exprText env scope d.2

/-- The scope of a body behind declarations. -/
def localScope (scope : Scope) (names : List (String × Expr)) : Scope :=
  (names.map Prod.fst).reverse ++ scope

mutual

/-- The lines of a statement in a scope. -/
def stmtLines (env : Env) (scope : Scope) : Stmt → List String
  | .branch arms otherwise =>
    armLines env scope "if" arms ++ otherwiseLines env scope otherwise ++ [closingLine]
  | .loop untilHolds condition body =>
    let text := exprText env scope condition
    bracedLines ("while (" ++ (if untilHolds then negatedText text else text) ++ ")")
      (stmtsLines env scope body)
  | .forRange name first last step body =>
    bracedLines ("for (" ++ identifier name ++ " in " ++ exprText env scope first ++ ".."
        ++ exprText env scope last ++ " step " ++ exprText env scope step ++ ")")
      (stmtsLines env (name :: scope) body)
  | .forEach name items body =>
    bracedLines ("for (" ++ identifier name ++ " in " ++ exprText env scope items ++ ")")
      (stmtsLines env (name :: scope) body)
  | .leave => ["break"]
  | .setProperty name property value => [setPropertyLine env scope name property value]
  | .setVariable name value => [setVariableLine env scope name value]
  | .locals names body =>
    bracedLines "run"
      (localLines env scope names ++ stmtsLines env (localScope scope names) body)
  | .call e => [exprText env scope e]
  | .value e => [exprText env scope e]
  | .unsupported type fields => ["// unsupported block: " ++ unsupportedLabel type fields]

/-- The lines of conditions and what to do, the first under a keyword. -/
def armLines (env : Env) (scope : Scope) (keyword : String) :
    List (Expr × List Stmt) → List String
  | [] => []
  | (condition, body) :: rest =>
    openingLine (keyword ++ " (" ++ exprText env scope condition ++ ")")
      :: (indent (stmtsLines env scope body) ++ armLines env scope "\x7d else if" rest)

/-- The lines of what to do otherwise. -/
def otherwiseLines (env : Env) (scope : Scope) : Option (List Stmt) → List String
  | none => []
  | some body => openingLine "\x7d else" :: indent (stmtsLines env scope body)

/-- The lines of statements in order. -/
def stmtsLines (env : Env) (scope : Scope) : List Stmt → List String
  | [] => []
  | s :: rest => stmtLines env scope s ++ stmtsLines env scope rest

end

theorem stmtsLines_eq_flatMap (env : Env) (scope : Scope) (ss : List Stmt) :
    stmtsLines env scope ss = ss.flatMap (stmtLines env scope) := by
  induction ss with
  | nil => simp [stmtsLines]
  | cons s ss ih => simp [stmtsLines, ih]

end Kotlin
end ScreenForge
