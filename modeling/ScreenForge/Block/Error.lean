/-
# Refused block descriptors

A block descriptor is markup of bounded size with an `xml` element at its root and blocks nested to
a bounded depth.
-/

namespace ScreenForge
namespace Block

/-- Why a block descriptor is refused as a whole. -/
inductive Error where
  | tooLarge (size limit : Int)
  /-- The text is no markup. -/
  | notWellFormed (detail : String)
  /-- The root is another element. -/
  | wrongRoot (name : String)
  | tooDeep (limit : Int)
  deriving DecidableEq, Repr

/-- The cause in words. -/
def Error.message : Error → String
  | .tooLarge size limit => s!"block descriptor size {size} bytes exceeds maximum {limit} bytes"
  | .notWellFormed detail => "Block descriptor is not well-formed XML: " ++ detail
  | .wrongRoot name => s!"Expected <xml> root, found <{name}>"
  | .tooDeep limit => s!"Block nesting exceeds maximum depth {limit}"

end Block
end ScreenForge
