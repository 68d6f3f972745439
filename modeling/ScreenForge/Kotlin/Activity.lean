/-
# Activities

The activity of a screen is a class.  Its members are a field for every component that the code
uses, the global variables, the method that sets the screen up, and the procedures.  Handlers of
events are listeners that this method sets, or part of it; a handler that cannot be bound is kept
as a comment.

Names are given in a fixed order: the activity itself, global variables, procedures, and then
component fields as the code first uses them.  `naming` does that, `review` is the journal and
`source` the text.
-/
import ScreenForge.Code.Program
import ScreenForge.Code.Review

namespace ScreenForge
namespace Kotlin

open Code (Expr Stmt)
open Journal (Entry)

/-- What an activity is written for. -/
structure Target where
  package : String
  activity : String := "MainActivity"
  layoutName : String := "activity_main"
  /-- The components of the layout by name. -/
  components : List (String × Layout.Ref) := []
  /-- The rules of component types, for events of components that the layout lacks. -/
  table : Option Component.Table := none

/-- The rule of a handler's component: its own, or that of the type it should have. -/
def Target.ruleOf (t : Target) (h : Code.Handler) : Option Component.Rule :=
  match t.components.lookup h.component with
  | some ref => some ref.rule
  | none => t.table.bind fun table => table.lookup h.componentType

/-- The event that a handler is for, if there is a rule for it. -/
def Target.eventOf (t : Target) (h : Code.Handler) : Option Component.Event :=
  (t.ruleOf h).bind fun rule => rule.events.lookup h.event

/-- The scope of a handler's body: the parameters of the event. -/
def Target.scopeOf (t : Target) (h : Code.Handler) : Scope :=
  ((t.eventOf h).map Component.Event.params).getD []

/-- Whether a handler becomes a listener of a component. -/
def Target.isListener (t : Target) (h : Code.Handler) : Bool :=
  Assoc.has h.component t.components && (t.eventOf h).any fun e => !e.inline

/-- The components that a handler refers to, in order. -/
def Target.usesOf (t : Target) (h : Code.Handler) : List String :=
  (if t.isListener h then [h.component] else []) ++ Stmt.usesAll h.body

/-- The components that a procedure refers to, in order. -/
def procedureUses (p : Code.Procedure) : List String :=
  Stmt.usesAll p.body ++ (p.result.map Expr.uses).getD []

/-- The components that a program refers to, in order. -/
def Target.uses (t : Target) (p : Code.Program) : List String :=
  (Code.firsts Code.Global.name p.globals).flatMap (fun g => (g.value.map Expr.uses).getD [])
    ++ p.handlers.flatMap t.usesOf
    ++ (Code.firsts Code.Procedure.name p.procedures).flatMap procedureUses

/-- Gives each name an identifier that is new; an empty name takes a word instead. -/
def assign (word : String) : Allocator → List String → List (String × String) × Allocator
  | a, [] => ([], a)
  | a, name :: rest =>
    let (id, a) := a.unique (identifier (orWord name word))
    let (others, a) := assign word a rest
    ((name, id) :: others, a)

/-- The names of a program in its activity. -/
def Target.naming (t : Target) (p : Code.Program) : Env :=
  let a := Allocator.empty.add t.activity
  let (globals, a) := assign "global" a (p.globals.map Code.Global.name).eraseDups
  let (procedures, a) := assign "procedure" a (p.procedures.map Code.Procedure.name).eraseDups
  let used := ((t.uses p).filter fun name => Assoc.has name t.components).eraseDups
  let (fields, _) := assign "" a used
  { activity := t.activity, components := t.components, globals, procedures, fields }

/-- The note of a declaration whose name is taken. -/
def duplicateNote (what name : String) : Entry :=
  .note (.warning .duplicateDeclaration s!"{what} '{name}' declared twice; first declaration wins"
    (some name))

/-- The name of an event of a component. -/
def eventLabel (h : Code.Handler) : String := h.component ++ "." ++ h.event

/-- What is noted of a handler that cannot be bound. -/
def Target.bindingNotes (t : Target) (h : Code.Handler) : List Entry :=
  match t.components.lookup h.component with
  | none => [Code.unresolved "component" h.component]
  | some ref =>
    if (t.eventOf h).isSome then []
    else [.note (.warning .unsupportedEvent s!"No listener mapping for {ref.type}.{h.event}"
      (some (eventLabel h)))]

/-- The journal of a handler. -/
def Target.reviewHandler (t : Target) (env : Env) (h : Code.Handler) : List Entry :=
  Code.tick :: (Stmt.reviewAll env (t.scopeOf h) h.body ++ t.bindingNotes h)

/-- The journal of a procedure. -/
def reviewProcedure (env : Env) (p : Code.Procedure) : List Entry :=
  Code.tick :: (Stmt.reviewAll env p.params p.body
    ++ (p.result.map fun e => e.review env p.params).getD [])

/-- The journal of writing a program. -/
def Target.review (t : Target) (p : Code.Program) : List Entry :=
  let env := t.naming p
  (Code.repeats (p.globals.map Code.Global.name)).map (duplicateNote "Global variable")
    ++ (Code.repeats (p.procedures.map Code.Procedure.name)).map (duplicateNote "Procedure")
    ++ (Code.firsts Code.Global.name p.globals).flatMap
      (fun g => (g.value.map fun e => e.review env []).getD [])
    ++ p.handlers.flatMap (t.reviewHandler env)
    ++ (Code.firsts Code.Procedure.name p.procedures).flatMap (reviewProcedure env)

/-- The line of a global variable. -/
def globalLine (env : Env) (g : Code.Global) : String :=
  let name := (env.globals.lookup g.name).getD ""
  match g.value with
  | none => "private var " ++ name ++ ": Any? = null"
  | some e => "private var " ++ name ++ " = " ++ exprText env [] e

/-- The lines of a procedure. -/
def procedureLines (env : Env) (p : Code.Procedure) : List String :=
  let name := (env.procedures.lookup p.name).getD ""
  let params := Text.join ", " (p.params.map fun n => identifier n ++ ": Any?")
  let head := "private fun " ++ name ++ "(" ++ params ++ ")"
  let body := stmtsLines env p.params p.body
  match p.result with
  | none => bracedLines head body
  | some e => bracedLines (head ++ ": Any?") (body ++ ["return " ++ exprText env p.params e])

/-- A body as comments under a reason. -/
def commented (reason : String) (body : List String) : List String :=
  ("// " ++ reason) :: body.map fun line => "// " ++ line

/-- The line that opens a listener. -/
def listenerLine (field : String) (e : Component.Event) : String :=
  let args := if e.lambdaArgs.isEmpty then "" else " " ++ Text.join ", " e.lambdaArgs ++ " ->"
  field ++ "." ++ e.listener.getD "None" ++ " \x7b" ++ args

/-- Where the lines of a handler go. -/
inductive Place where
  /-- Among what runs when the screen is set up. -/
  | setup
  /-- Among the listeners. -/
  | listeners
  deriving DecidableEq, Repr

/-- The lines of a handler and where they go. -/
def Target.handlerLines (t : Target) (env : Env) (h : Code.Handler) : Place × List String :=
  let body := stmtsLines env (t.scopeOf h) h.body
  match t.components.lookup h.component, t.eventOf h with
  | none, _ =>
    (.listeners, commented ("unresolved component '" ++ h.component ++ "': " ++ eventLabel h
      ++ " not bound") body)
  | some _, none => (.listeners, commented ("unsupported event " ++ eventLabel h) body)
  | some _, some e =>
    if e.inline then (.setup, ("// " ++ eventLabel h) :: body)
    else
      (.listeners, listenerLine ((env.fields.lookup h.component).getD "") e
        :: (indent (body ++ e.result.toList) ++ [closingLine]))

/-- Groups of lines with an empty line between neighbours. -/
def spaced : List (List String) → List String
  | [] => []
  | [group] => group
  | group :: rest => group ++ "" :: spaced rest

/-- The components with fields, with their entries. -/
def Target.bound (t : Target) (env : Env) : List (String × Layout.Ref) :=
  env.fields.filterMap fun f => (t.components.lookup f.1).map fun ref => (f.2, ref)

/-- Groups of lines that are not empty, each behind an empty line. -/
def sections (groups : List (List String)) : List String :=
  groups.flatMap fun g => if g.isEmpty then [] else "" :: g

/-- The lines of the method that sets the screen up. -/
def Target.onCreateLines (t : Target) (env : Env) (handlers : List (Place × List String)) :
    List String :=
  let linesAt := fun place => spaced ((handlers.filter fun h => h.1 == place).map Prod.snd)
  let bindings := (t.bound env).map fun b => b.1 ++ " = findViewById(R.id." ++ b.2.viewId ++ ")"
  bracedLines "override fun onCreate(savedInstanceState: Bundle?)"
    ("super.onCreate(savedInstanceState)" :: ("setContentView(R.layout." ++ t.layoutName ++ ")")
      :: sections [bindings, linesAt .setup, linesAt .listeners])

/-- The lines of the members of an activity. -/
def Target.memberLines (t : Target) (env : Env) (p : Code.Program) : List String :=
  let fields := (t.bound env).map fun b =>
    "private lateinit var " ++ b.1 ++ ": " ++ b.2.rule.className
  let globals := (Code.firsts Code.Global.name p.globals).map (globalLine env)
  let leading := fun lines : List String => if lines.isEmpty then [] else lines ++ [""]
  leading fields ++ leading globals
    ++ t.onCreateLines env (p.handlers.map (t.handlerLines env))
    ++ (Code.firsts Code.Procedure.name p.procedures).flatMap fun q => "" :: procedureLines env q

/-- The classes that an activity imports, sorted. -/
def Target.imports (t : Target) (env : Env) : List String :=
  Text.sorted ("android.os.Bundle" :: "androidx.appcompat.app.AppCompatActivity"
    :: (t.bound env).map fun b => b.2.rule.qualifiedClass)

/-- The lines of an activity. -/
def Target.lines (t : Target) (p : Code.Program) : List String :=
  let env := t.naming p
  ["package " ++ t.package, ""] ++ (t.imports env).map (fun name => "import " ++ name)
    ++ ["", "class " ++ t.activity ++ " : AppCompatActivity() \x7b", ""]
    ++ indent (t.memberLines env p) ++ [closingLine]

/-- The source of an activity. -/
def Target.source (t : Target) (p : Code.Program) : String := Text.join "\n" (t.lines p) ++ "\n"

end Kotlin
end ScreenForge
