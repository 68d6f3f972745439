/-
# Settings

What an installation decides: where the service listens, which screen of a project is converted and
under which names, and the limits of a run.
-/
import ScreenForge.Deadline
import ScreenForge.Layout.Descriptor

namespace ScreenForge

/-- The settings of an installation. -/
structure Settings where
  httpHost : String := "0.0.0.0"
  httpPort : Int := 8000
  /-- The most octets of an archive. -/
  maxUploadBytes : Int := 52428800
  /-- The file of a mapping table, in place of the packaged one. -/
  mappingPath : Option String := none
  /-- The screen that is converted. -/
  screenName : String := "Screen1"
  packagePrefix : String := "com.example"
  defaultProjectName : String := "ConvertedApp"
  /-- The seconds that a conversion may take: thirty. -/
  conversionTimeout : Binary64 := .finite false 8444249301319680 (-48)
  /-- The most octets of a descriptor. -/
  maxDescriptorSize : Int := 4194304
  /-- The most levels of components or blocks. -/
  maxNestingDepth : Int := 64
  /-- Whether damaged layout descriptors are repaired. -/
  repairDescriptors : Bool := false
  logLevel : String := "INFO"
  jsonLogs : Bool := false
  deriving Repr

namespace Settings

/-- The limits on descriptors. -/
def limits (s : Settings) : Limits := ⟨s.maxDescriptorSize, s.maxNestingDepth⟩

/-- The timer of a conversion that reads a clock. -/
def timer (s : Settings) (clock : Clock) : Timer :=
  { deadline := some { seconds := .real s.conversionTimeout }, clock }

example : FloatStyle.plain.render ({} : Settings).conversionTimeout = "30.0" := by decide +kernel

end Settings
end ScreenForge
