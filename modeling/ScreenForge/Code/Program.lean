/-
# Programs as code

A program with its blocks read as code.  Only the first global variable and the first procedure of
a name count (`firsts`); each later one is a duplicate.
-/
import ScreenForge.Code.OfBlock

namespace ScreenForge
namespace Code

/-- The event of a component and what it does. -/
structure Handler where
  component : String
  componentType : String
  event : String
  body : List Stmt

/-- A global variable and its initial value. -/
structure Global where
  name : String
  value : Option Expr

/-- A procedure; the expression of its value, if it returns one. -/
structure Procedure where
  name : String
  params : List String
  body : List Stmt
  result : Option Expr

/-- What a screen does. -/
structure Program where
  handlers : List Handler
  globals : List Global
  procedures : List Procedure

/-- The handler of a block handler. -/
def Handler.ofBlock (h : Block.Handler) : Handler :=
  ⟨h.component, h.componentType, h.event, stmtsOf h.body⟩

/-- The global variable of a block declaration. -/
def Global.ofBlock (g : Block.Global) : Global := ⟨g.name, g.value.map exprOf⟩

/-- The procedure of a block definition. -/
def Procedure.ofBlock (p : Block.Procedure) : Procedure :=
  ⟨p.name, p.params, stmtsOf p.body,
    if p.returnsValue then some (heldExpr p.name "RETURN" p.result) else none⟩

/-- The program of blocks. -/
def Program.ofBlocks (p : Block.Program) : Program :=
  ⟨p.handlers.map Handler.ofBlock, p.globals.map Global.ofBlock,
    p.procedures.map Procedure.ofBlock⟩

/-- The items whose names no item before them has, after names seen before. -/
def firstsAfter {α : Type} (name : α → String) : List String → List α → List α
  | _, [] => []
  | seen, a :: rest =>
    if seen.contains (name a) then firstsAfter name seen rest
    else a :: firstsAfter name (name a :: seen) rest

/-- The items whose names no item before them has. -/
def firsts {α : Type} (name : α → String) (items : List α) : List α := firstsAfter name [] items

/-- The names that an item before already has, after names seen before. -/
def repeatsAfter : List String → List String → List String
  | _, [] => []
  | seen, n :: rest =>
    if seen.contains n then n :: repeatsAfter seen rest else repeatsAfter (n :: seen) rest

/-- The names that an item before already has, in order. -/
def repeats (names : List String) : List String := repeatsAfter [] names

end Code
end ScreenForge
