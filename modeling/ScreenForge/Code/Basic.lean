/-
# Expressions and statements

What blocks say, freed from slots and mutations: expressions compute, statements act.  Where a
block does not say enough, the tree holds what is known (a slot without a block, an operator
outside the vocabulary, a statement in place of a value), so that the defect can be reported and a
placeholder written.
-/

namespace ScreenForge
namespace Code

/-- Operators that take any number of operands. -/
inductive ChainOp where
  | add
  | multiply
  deriving DecidableEq, Repr

/-- Comparisons. -/
inductive Comparison where
  | equal
  | notEqual
  | less
  | lessEqual
  | greater
  | greaterEqual
  deriving DecidableEq, Repr

/-- Connectives. -/
inductive Connective where
  | and
  | or
  deriving DecidableEq, Repr

/-- Operators that take two operands. -/
inductive BinaryOp where
  | subtract
  | divide
  | power
  | compare (op : Comparison)
  | logic (op : Connective)
  deriving DecidableEq, Repr

/-- An expression. -/
inductive Expr where
  /-- A slot without a block. -/
  | missing (slot owner : String)
  /-- A number as it was entered, in a block of a type. -/
  | number (entered type : String)
  | text (value : String)
  | truth (value : Bool)
  | chain (op : ChainOp) (operands : List Expr)
  /-- A chain of a negative number of operands. -/
  | emptyChain
  | binary (op : BinaryOp) (left right : Expr)
  /-- An operator that nobody knows: a comparison or a connective, in a block of a type. -/
  | unknownOperator (what type op : String) (left right : Expr)
  | negate (operand : Expr)
  | not (operand : Expr)
  | choose (test yes no : Expr)
  | join (items : List Expr)
  | list (items : List Expr)
  /-- A property of a component. -/
  | property (component property : String)
  /-- A method of a component. -/
  | method (component method : String) (args : List Expr)
  /-- A method call whose slots have numbers beyond reading. -/
  | longSlots
  /-- A component itself. -/
  | component (name : String)
  | variable (name : String)
  | procedure (name : String) (args : List Expr)
  /-- A block of a type outside the vocabulary. -/
  | unsupported (type : String)
  /-- A statement block in place of a value. -/
  | misplaced (type : String)

/-- A statement. -/
inductive Stmt where
  /-- Conditions with what to do, and what to do otherwise. -/
  | branch (arms : List (Expr × List Stmt)) (otherwise : Option (List Stmt))
  /-- Repeats while a condition holds, or until it does. -/
  | loop (untilHolds : Bool) (condition : Expr) (body : List Stmt)
  | forRange (name : String) (first last step : Expr) (body : List Stmt)
  | forEach (name : String) (items : Expr) (body : List Stmt)
  /-- Leaves the loop. -/
  | leave
  | setProperty (component property : String) (value : Expr)
  | setVariable (name : String) (value : Expr)
  /-- Local variables with their first values, and what to do with them. -/
  | locals (names : List (String × Expr)) (body : List Stmt)
  /-- A call whose value is not used. -/
  | call (e : Expr)
  /-- A value in place of a statement. -/
  | value (e : Expr)
  /-- A block of a type outside the vocabulary, with its fields. -/
  | unsupported (type : String) (fields : List (String × String))

end Code
end ScreenForge
