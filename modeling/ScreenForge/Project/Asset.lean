/-
# Assets

Media files of a project become resources: images are drawables and all else is raw.  A resource
goes by a name of its own and keeps the extension in lower case.
-/
import ScreenForge.Component.Format

namespace ScreenForge
namespace Project

/-- A media file. -/
structure Asset where
  name : String
  data : ByteArray

/-- The extensions of images. -/
def imageExtensions : List String := ["png", "jpg", "jpeg", "gif", "webp", "bmp"]

/-- What stands behind the last point of a name, in lower case. -/
def extensionOf (name : String) : String :=
  if name.toList.contains '.' then
    Text.lower (String.ofList (Text.afterLast '.' name.toList))
  else ""

/-- The directory of a resource. -/
def resourceDirectory (extension : String) : String :=
  if imageExtensions.contains extension then "drawable" else "raw"

/-- The path of an asset. -/
def assetPath (name : String) : String :=
  let extension := extensionOf name
  "app/src/main/res/" ++ resourceDirectory extension ++ "/" ++ Component.resourceName name
    ++ (if extension = "" then "" else "." ++ extension)

end Project
end ScreenForge
