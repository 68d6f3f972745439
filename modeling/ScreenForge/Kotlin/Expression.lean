/-
# Expressions in Kotlin

Every operator is bracketed, so that an expression can stand wherever an operand is asked for.
Division is never whole-number division and powers are of floating point numbers, so operands are
converted; an operand that starts with a minus is bracketed before a member call.

Where the blocks do not say enough, the text is a call of `error` with the reason.
-/
import ScreenForge.Code.Basic
import ScreenForge.Kotlin.Scope

namespace ScreenForge
namespace Kotlin

open Code (Expr)

/-- A call of `error` with a reason that stands as it is. -/
def errorCall (reason : String) : String := "error(\"" ++ reason ++ "\")"

/-- The placeholder of a reference that stands for nothing. -/
def unresolvedCall (what name : String) : String :=
  "error(" ++ stringLiteral ("unresolved " ++ what ++ ": " ++ name) ++ ")"

/-- The sign of an operator on any number of operands. -/
def chainSign : Code.ChainOp → String
  | .add => "+"
  | .multiply => "*"

/-- The value of an operator without operands. -/
def chainUnit : Code.ChainOp → String
  | .add => "0"
  | .multiply => "1"

/-- The sign of a comparison. -/
def comparisonSign : Code.Comparison → String
  | .equal => "=="
  | .notEqual => "!="
  | .less => "<"
  | .lessEqual => "<="
  | .greater => ">"
  | .greaterEqual => ">="

/-- The sign of a connective. -/
def connectiveSign : Code.Connective → String
  | .and => "&&"
  | .or => "||"

/-- Two operands with a sign between them, bracketed. -/
def infixText (sign left right : String) : String := "(" ++ left ++ " " ++ sign ++ " " ++ right ++ ")"

/-- An operator on two operands. -/
def binaryText (op : Code.BinaryOp) (left right : String) : String :=
  match op with
  | .subtract => infixText "-" left right
  | .divide => infixText "/" (receiver left ++ ".toDouble()") right
  | .power => "Math.pow(" ++ receiver left ++ ".toDouble(), " ++ receiver right ++ ".toDouble())"
  | .compare op => infixText (comparisonSign op) left right
  | .logic op => infixText (connectiveSign op) left right

/-- An operator on any number of operands, from the left. -/
def chainText (op : Code.ChainOp) : List String → String
  | [] => chainUnit op
  | first :: rest => rest.foldl (fun left right => infixText (chainSign op) left right) first

/-- A sign in front of an operand; an operand that starts with the sign is bracketed. -/
def signText (sign : Char) (operand : String) : String :=
  if operand.toList.head? = some sign then
    "(" ++ String.singleton sign ++ "(" ++ operand ++ "))"
  else "(" ++ String.singleton sign ++ operand ++ ")"

mutual

/-- The text of an expression in a scope. -/
def exprText (env : Env) (scope : Scope) : Expr → String
  | .missing slot _ => errorCall ("missing value: " ++ slot)
  | .number entered _ => (numberLiteral? entered).getD (errorCall "invalid number")
  | .text value => stringLiteral value
  | .truth value => if value then "true" else "false"
  | .chain op operands => chainText op (exprTexts env scope operands)
  | .emptyChain => ""
  | .binary op left right => binaryText op (exprText env scope left) (exprText env scope right)
  | .unknownOperator what _ op _ _ => errorCall ("unsupported " ++ what ++ ": " ++ op)
  | .negate operand => signText '-' (exprText env scope operand)
  | .not operand => signText '!' (exprText env scope operand)
  | .choose test yes no =>
    "(if (" ++ exprText env scope test ++ ") " ++ exprText env scope yes ++ " else "
      ++ exprText env scope no ++ ")"
  | .join items =>
    if items.isEmpty then "\"\""
    else "listOf(" ++ Text.join ", " (exprTexts env scope items) ++ ").joinToString(\"\")"
  | .list items => "mutableListOf(" ++ Text.join ", " (exprTexts env scope items) ++ ")"
  | .property name property =>
    match env.component? scope name with
    | some (target, ref) => target ++ "." ++ accessor ref property
    | none => unresolvedCall "component" name
  | .method name method args =>
    match env.component? scope name with
    | some (target, ref) =>
      target ++ "." ++ methodName ref method
        ++ "(" ++ Text.join ", " (exprTexts env scope args) ++ ")"
    | none => unresolvedCall "component" name
  | .longSlots => ""
  | .component name =>
    match env.component? scope name with
    | some (target, _) => target
    | none => unresolvedCall "component" name
  | .variable name => (env.binding? scope name).getD (unresolvedCall "variable" name)
  | .procedure name args =>
    match env.procedure? scope name with
    | some target => target ++ "(" ++ Text.join ", " (exprTexts env scope args) ++ ")"
    | none => unresolvedCall "procedure" name
  | .unsupported type => "error(" ++ stringLiteral ("unsupported block: " ++ type) ++ ")"
  | .misplaced type => errorCall ("statement used as value: " ++ type)

/-- The texts of expressions in a scope. -/
def exprTexts (env : Env) (scope : Scope) : List Expr → List String
  | [] => []
  | e :: rest => exprText env scope e :: exprTexts env scope rest

end

theorem exprTexts_eq_map (env : Env) (scope : Scope) (es : List Expr) :
    exprTexts env scope es = es.map (exprText env scope) := by
  induction es with
  | nil => simp [exprTexts]
  | cons e es ih => simp [exprTexts, ih]

end Kotlin
end ScreenForge
