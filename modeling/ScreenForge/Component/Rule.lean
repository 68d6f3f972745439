/-
# Mapping rules

A rule says what a component type becomes: the element of the layout and the stem of its ids,
which properties become which attributes and in which format, and how blocks reach it in code:
its class, accessors, methods and events.  A table gives component types their rules, in order.
-/
import ScreenForge.Component.Format

namespace ScreenForge
namespace Component

/-- How an event of a component becomes a callback. -/
structure Event where
  /-- The method that sets the listener. -/
  listener : Option String := none
  /-- Whether the body runs when the screen is created, without a listener. -/
  inline : Bool := false
  /-- The parameters of the listener's lambda. -/
  lambdaArgs : List String := []
  /-- The event's parameters, visible to the body. -/
  params : List String := []
  /-- The value that the lambda ends with. -/
  result : Option String := none
  deriving DecidableEq, Repr

/-- What a component type becomes. -/
structure Rule where
  /-- The element of the layout. -/
  tag : String
  /-- The stem of view ids. -/
  idStem : String
  /-- Values of properties that a component leaves out. -/
  defaults : List (String × Scalar) := []
  /-- The attribute of each mapped property, in the order of the attributes. -/
  attributeOf : List (String × String) := []
  /-- Formats other than plain text. -/
  formats : List (String × Format) := []
  /-- The class of the view, if the element does not name it. -/
  viewClass : Option String := none
  /-- The accessors of properties. -/
  accessors : List (String × String) := []
  /-- The methods. -/
  methods : List (String × String) := []
  /-- The events. -/
  events : List (String × Event) := []
  deriving Repr

namespace Rule

/-- The qualified class of the view: given, or the element's own, or a standard widget. -/
def qualifiedClass (rule : Rule) : String :=
  match rule.viewClass with
  | some name => if name = "" then fromTag else name
  | none => fromTag
where
  /-- The class that an element stands for. -/
  fromTag : String :=
    if rule.tag.toList.contains '.' then rule.tag else "android.widget." ++ rule.tag

/-- The class of the view without its package. -/
def className (rule : Rule) : String :=
  String.ofList (Text.afterLast '.' rule.qualifiedClass.toList)

/-- A component's own values over the defaults. -/
def merged (rule : Rule) (properties : List (String × Scalar)) : List (String × Scalar) :=
  properties.foldl (fun values p => Assoc.put p.1 p.2 values) rule.defaults

/-- The format of a property. -/
def formatOf (rule : Rule) (property : String) : Format :=
  (rule.formats.lookup property).getD .text

/-- The attribute of a mapped property with a value; `none` inside for one beyond the range. -/
def mapped? (rule : Rule) (values : List (String × Scalar)) (entry : String × String) :
    Option (Option (String × String)) :=
  (values.lookup entry.1).map fun v =>
    ((rule.formatOf entry.1).render? v).map fun s => (entry.2, s)

/-- The attributes of given values, in the rule's order; `none` if one has no text. -/
def attributes? (rule : Rule) (values : List (String × Scalar)) :
    Option (List (String × String)) :=
  (rule.attributeOf.filterMap (rule.mapped? values)).mapM id

end Rule

/-- Component types and their rules, in order. -/
abbrev Table := List (String × Rule)

end Component
end ScreenForge
