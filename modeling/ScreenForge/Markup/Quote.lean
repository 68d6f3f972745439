/-
# Attribute values in markup

An attribute value stands between double quotes.  The characters that markup gives a meaning are
written as entities, and line breaks and tabs as character references, because a reader would turn
them into blanks.
-/

namespace ScreenForge
namespace Markup

/-- A character inside an attribute value. -/
def quoteChar (c : Char) : List Char :=
  if c = '&' then "&amp;".toList
  else if c = '<' then "&lt;".toList
  else if c = '>' then "&gt;".toList
  else if c = '"' then "&quot;".toList
  else if c = '\n' then "&#10;".toList
  else if c = '\r' then "&#13;".toList
  else if c = '\t' then "&#9;".toList
  else [c]

/-- The characters of an attribute value, without the quotes around it. -/
def quote (s : String) : String := String.ofList (s.toList.flatMap quoteChar)

/-- An attribute as it is written. -/
def assignment (name value : String) : String := name ++ "=\"" ++ quote value ++ "\""

end Markup
end ScreenForge
