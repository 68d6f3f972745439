/-
# Diagnostics survive to the report

What the stages of a conversion note goes three ways: the converted project and the report among its
files have the list, and the answer of the service tells how many there are.  The report is a JSON
text, and messages quote whatever a descriptor holds.
-/
import ScreenForge.Proofs.Conversion.Stages
import ScreenForge.Proofs.Json.Readback
import ScreenForge.Proofs.Project.Files
import ScreenForge.Proofs.Service.Answer

namespace ScreenForge

open List

namespace Project

open Diagnostic (Code Severity)

/-! ### Reading a report -/

/-- What a report says. -/
structure Reported where
  project : String
  package : String
  screen : String
  diagnostics : List Diagnostic
  deriving DecidableEq, Repr

/-- A text or nothing. -/
def subjectOf? : Json → Option (Option String)
  | .null => some none
  | .str s => some (some s)
  | _ => none

/-- The text of a member. -/
def textOf? (name : String) (v : Json) : Option String := (v.get? name).bind Json.str?

/-- A diagnostic from its object in a report. -/
def diagnosticOf? (v : Json) : Option Diagnostic := do
  let code ← (textOf? "code" v).bind Code.ofName?
  let message ← textOf? "message" v
  let subject ← (v.get? "subject").bind subjectOf?
  let severity ← (textOf? "severity" v).bind Severity.ofName?
  return ⟨code, message, subject, severity⟩

/-- The items of a member that is a list. -/
def itemsOf? (name : String) (v : Json) : Option (List Json) :=
  match v.get? name with
  | some (.arr items) => some items
  | _ => none

/-- What a value says as a report. -/
def reportedOf? (v : Json) : Option Reported := do
  let project ← textOf? "project" v
  let package ← textOf? "package" v
  let screen ← textOf? "screen" v
  let diagnostics ← (itemsOf? "diagnostics" v).bind fun items => items.mapM diagnosticOf?
  return ⟨project, package, screen, diagnostics⟩

/-- What the octets of a report say. -/
def Reported.ofOctets? (octets : List UInt8) : Option Reported :=
  (Json.ofOctets octets).toOption.bind reportedOf?

/-- The value of a diagnostic gives it back. -/
theorem diagnosticOf?_diagnosticJson (d : Diagnostic) :
    diagnosticOf? (diagnosticJson d) = some d := by
  have hcode : textOf? "code" (diagnosticJson d) = some d.code.name := rfl
  have hmessage : textOf? "message" (diagnosticJson d) = some d.message := rfl
  have hseverity : textOf? "severity" (diagnosticJson d) = some d.severity.name := rfl
  have hsubject : ((diagnosticJson d).get? "subject").bind subjectOf? = some d.subject := by
    obtain ⟨code, message, subject, severity⟩ := d
    cases subject with
    | none => rfl
    | some s => rfl
  have hname : Severity.ofName? d.severity.name = some d.severity := by
    cases d.severity with
    | warning => rfl
    | error => rfl
  rw [diagnosticOf?, hcode, hmessage, hsubject, hseverity, Option.bind_some, Option.bind_some,
    Code.ofName?_name, hname]
  rfl

variable {name package screen : String} {diagnostics : List Diagnostic}

/-- **A report says what it was made of.** -/
theorem reportedOf?_report :
    reportedOf? (report name package screen diagnostics)
      = some ⟨name, package, screen, diagnostics⟩ := by
  have hproject : textOf? "project" (report name package screen diagnostics) = some name := rfl
  have hpackage : textOf? "package" (report name package screen diagnostics) = some package := rfl
  have hscreen : textOf? "screen" (report name package screen diagnostics) = some screen := rfl
  have hitems : itemsOf? "diagnostics" (report name package screen diagnostics)
      = some (diagnostics.map diagnosticJson) := rfl
  rw [reportedOf?, hproject, hpackage, hscreen, hitems, Option.bind_some,
    mapM_map_eq_some fun d _ => diagnosticOf?_diagnosticJson d]
  rfl

/-- A report is made of texts, nothing, and objects with distinct names. -/
theorem throughout_report {P : Json → Prop} (hnull : P .null) (hstr : ∀ s, P (.str s))
    (harr : ∀ items, P (.arr items))
    (hobj : ∀ members : List (String × Json), (Assoc.keys members).Nodup → P (.obj members)) :
    (report name package screen diagnostics).Throughout P := by
  have hsubject : ∀ subject : Option String,
      ((subject.map Json.str).getD .null).Throughout P := by
    intro subject
    cases subject with
    | none => exact hnull
    | some s => exact hstr s
  have hdiagnostic : ∀ d : Diagnostic, (diagnosticJson d).Throughout P := by
    intro d
    have hnames : ["code", "message", "subject", "severity"].Nodup := by decide
    rw [diagnosticJson, Json.throughout_obj]
    refine ⟨hobj _ hnames, ?_⟩
    simp only [forall_mem_cons, not_mem_nil, false_imp_iff, implies_true, and_true]
    exact ⟨hstr _, hstr _, hsubject _, hstr _⟩
  have hnames : ["project", "package", "screen", "diagnostics"].Nodup := by decide
  rw [report, Json.throughout_obj]
  refine ⟨hobj _ hnames, ?_⟩
  simp only [forall_mem_cons, not_mem_nil, false_imp_iff, implies_true, and_true]
  refine ⟨hstr _, hstr _, hstr _, (Json.throughout_arr _).2 ⟨harr _, fun v hv => ?_⟩⟩
  obtain ⟨d, -, rfl⟩ := mem_map.1 hv
  exact hdiagnostic d

/-- **A report is read back from its octets.** -/
theorem ofOctets_report :
    Reported.ofOctets?
        (Json.render Json.indented (report name package screen diagnostics)).toUTF8.toList
      = some ⟨name, package, screen, diagnostics⟩ := by
  have hplain : (report name package screen diagnostics).Throughout Json.IsPlain :=
    throughout_report trivial (fun _ => trivial) (fun _ => trivial) fun _ h => h
  have hshort : (report name package screen diagnostics).Throughout Json.IsShort :=
    throughout_report trivial (fun _ => trivial) (fun _ => trivial) fun _ _ => trivial
  rw [Reported.ofOctets?, Json.ofOctets_render Json.isReadable_indented hplain hshort]
  exact reportedOf?_report

/-! ### The file of the report -/

/-- The text of the report. -/
def reportText (name package : String) (parts : Parts) : String :=
  Json.render Json.indented (report name package parts.screen parts.diagnostics)

/-- The report is generated last. -/
theorem generatedFiles_eq_put (parts : Parts) :
    generatedFiles name package parts = Assoc.put reportPath (.text (reportText name package parts))
      (Assoc.ofList (parts.artifacts ++ (frameFiles name package parts).dropLast)) := by
  have hlast : parts.artifacts ++ frameFiles name package parts
      = (parts.artifacts ++ (frameFiles name package parts).dropLast)
        ++ [(reportPath, .text (reportText name package parts))] := by
    rw [append_assoc]
    rfl
  rw [generatedFiles, hlast, Assoc.ofList_append_singleton]

/-- **The report is the only file at its path.** -/
theorem mem_assemble_report_iff {parts : Parts} {assets : List Asset} {content : Content} :
    (name ++ "/" ++ reportPath, content) ∈ assemble name package parts assets
      ↔ content = .text (reportText name package parts) := by
  have hiff : ∀ content, (reportPath, content) ∈ generatedFiles name package parts
      ↔ content = .text (reportText name package parts) := by
    intro content
    rw [generatedFiles_eq_put]
    exact Assoc.mem_put_iff (Assoc.nodup_keys_ofList _)
  rw [mem_assemble_iff (Assoc.mem_keys ((hiff _).2 rfl))]
  exact hiff content

end Project

namespace Conversion

open Project (Reported bundle? reportPath)
open Service (Carries handle post)

/-- **Diagnostics survive to the report.**  A converted project has the diagnostics of its four
stages, each run by itself on the same descriptors, one after the other.  The one file at the path
of the report says the names of the project, its package and its screen and this list, and nothing
else.  And the service tells how long the list is wherever it answers with the project. -/
theorem diagnostics_reach_report {table : Component.Table} {settings : Settings} {clock : Clock}
    {source : Project.Source} {given : Option String} {project : Converted}
    (hconverted : convertProject table settings clock source given = .ok (.converted project)) :
    (∃ stages : Stages table settings (screenSource source) (packageOf settings given),
      project.diagnostics = stages.notes)
    ∧ (∃ file : Project.Content,
      (∀ content, (project.name ++ "/" ++ reportPath, content) ∈ project.files ↔ content = file)
      ∧ Reported.ofOctets? file.bytes.toList = some
        ⟨projectNameOf settings given, packageOf settings given, source.screenName,
          project.diagnostics⟩)
    ∧ ∀ (u : Project.Unpacker) (elapsed : Nat) (metrics : Metrics) (body : ByteArray)
      (request : Request) (data archive : ByteArray), Carries settings body request data →
      Project.read data settings.screenName (archiveLimits settings) u = .ok source →
      given = some request.projectName → bundle? project.files = some archive →
      (handle clock elapsed ⟨settings, table, metrics, u⟩ (post body)).1
        = ⟨200, .project project.name project.diagnostics.length archive⟩ := by
  refine ⟨?_, ?_, ?_⟩
  · obtain ⟨screen, hscreen, rfl⟩ := exists_screen_of_converted hconverted
    exact exists_stages_of_converted hscreen
  · obtain ⟨screen, hscreen, rfl⟩ := exists_screen_of_converted hconverted
    obtain ⟨hname, -⟩ := noted_of_converted hscreen
    refine ⟨_, fun content => Project.mem_assemble_report_iff, ?_⟩
    rw [show source.screenName = screen.name from hname.symm]
    exact Project.ofOctets_report
  · intro u elapsed metrics body request data archive hcarries hread hgiven hbundle
    have harchive : convertArchive u table settings clock data request.projectName
        = .ok (.converted project) := by
      rw [convertArchive, hread]
      dsimp only
      rw [← hgiven, hconverted]
    rw [Service.handle_of_carries hcarries, harchive]
    simp only [Service.answerOf, Service.outcomeResponse, hbundle]

/-- The archive of a screen whose type is unknown and has a quote, a line break and a control
character in it. -/
def quotingArchive : ByteArray := Archive.write
  [("Screen1.scm", "\x7b\"Properties\":\x7b\"$Type\":\"\\\"\\n\\u0001\"\x7d\x7d".toUTF8)]

/-- What is noted about the screen is in the report, and the service counts it. -/
theorem quoted_note_reaches_report :
    ∃ source project file archive,
      Project.read quotingArchive "Screen1" (archiveLimits {}) = .ok source
      ∧ convertProject .packaged {} (fun _ => 0) source (some "App") = .ok (.converted project)
      ∧ project.diagnostics.map Diagnostic.subject = [some "\"\n\x01", some "\"\n\x01"]
      ∧ (project.name ++ "/" ++ reportPath, file) ∈ project.files
      ∧ Reported.ofOctets? file.bytes.toList = some
        ⟨"App", packageOf {} (some "App"), source.screenName, project.diagnostics⟩
      ∧ (handle (fun _ => 0) 0 {} (post (Service.upload quotingArchive "App"))).1
        = ⟨200, .project project.name 2 archive⟩ := by
  have hany : (Project.read quotingArchive "Screen1" (archiveLimits {})).toOption.any fun source =>
      (converted? (convertProject .packaged {} (fun _ => 0) source (some "App"))).any
        fun project => project.diagnostics.map Diagnostic.subject
            == [some "\"\n\x01", some "\"\n\x01"]
          && (bundle? project.files).isSome := by decide +kernel
  cases hread : Project.read quotingArchive "Screen1" (archiveLimits {}) with
  | error e =>
    rw [hread] at hany
    cases hany
  | ok source =>
    rw [hread] at hany
    obtain ⟨found, hfound, hany⟩ := (Option.any_eq_true _ _).1 hany
    obtain rfl : source = found := Option.some.inj hfound
    obtain ⟨project, hproject, htold⟩ := (Option.any_eq_true _ _).1 hany
    replace hproject := eq_of_converted? hproject
    obtain ⟨hnoted, hsome⟩ := Bool.and_eq_true_iff.1 htold
    replace hnoted := beq_iff_eq.1 hnoted
    obtain ⟨archive, hbundle⟩ := Option.isSome_iff_exists.1 hsome
    have hcount : project.diagnostics.length = 2 := by
      rw [← length_map Diagnostic.subject, hnoted]
      rfl
    have hcarries : Carries {} (Service.upload quotingArchive "App") _ quotingArchive :=
      Service.carries_of_uploads (by decide +kernel) (by decide +kernel) (by decide +kernel) rfl
        (Service.uploads_upload quotingArchive "App")
    obtain ⟨-, ⟨file, honly, hreport⟩, hsent⟩ := diagnostics_reach_report hproject
    have hanswer := hsent .standard 0 {} _ _ _ _ hcarries hread rfl hbundle
    rw [hcount] at hanswer
    exact ⟨source, project, file, archive, rfl, hproject, hnoted, (honly file).2 rfl, hreport,
      hanswer⟩

end Conversion
end ScreenForge
