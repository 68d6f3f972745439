/-
# The command and the service agree

| conversion | command | service |
| --- | --- | --- |
| refuses the archive | exit 2 | 400, the same message |
| fails on the screen | exit 1 | 422, the same screen and reason |
| breaks off | no report | 500 |
| gives a project that cannot be packed | no report | 500, without an answer |
| gives a project | exit 0 and an archive, if there is a place for it | 200, the same archive |

One result is told twice, and each result fits one row of the table (`Alike`).  What may show is
which entry of an archive fails first.  Two runs need not read at one pace, and if two entries fail,
one run may refuse the archive where the other breaks off.
-/
import ScreenForge.Proofs.Conversion.Deadline
import ScreenForge.Proofs.Project.Files
import ScreenForge.Proofs.Project.Order
import ScreenForge.Proofs.Service.Answer
import ScreenForge.Service.CommandLine

namespace ScreenForge

namespace Conversion

variable {u : Project.Unpacker} {table : Component.Table} {settings : Settings} {clock : Clock}
  {data : ByteArray} {name : String}

/-- The clock does not reach the deadline under settings. -/
def InTime (settings : Settings) (clock : Clock) : Prop :=
  ∀ n, (settings.timer clock).expiredAt n = false

/-- A clock that does not reach the deadline does not show in a conversion. -/
theorem convertScreen_of_inTime (h : InTime settings clock) (source : ScreenSource)
    (package : String) :
    convertScreen table settings (settings.timer clock) source package
      = convertScreen table settings .unlimited source package :=
  convertScreen_of_early fun n _ => h n

/-- **Clocks that do not reach the deadline do not show.** -/
theorem convertArchive_of_inTime {clock' : Clock} (h : InTime settings clock)
    (h' : InTime settings clock') (data : ByteArray) (name : String) :
    convertArchive u table settings clock data name
      = convertArchive u table settings clock' data name := by
  simp only [convertArchive, convertProject, convertScreen_of_inTime h, convertScreen_of_inTime h']

/-- What stops a conversion in time is no timeout. -/
theorem ne_timeout_of_inTime (h : InTime settings clock) {fault : Fault}
    (hfault : convertArchive u table settings clock data name = .error (.conversion fault))
    (stage : Stage) (seconds : Seconds) : fault ≠ .timeout stage seconds := by
  rintro rfl
  unfold convertArchive at hfault
  split at hfault
  · cases hfault
  split at hfault
  · next source _ _ hproject =>
    cases hfault
    rw [convertProject, convertScreen_of_inTime h] at hproject
    split at hproject
    · next hscreen =>
      cases hproject
      exact not_timesOut_unlimited ⟨stage, seconds, hscreen⟩
    · cases hproject
    · cases hproject
  · cases hfault

theorem name_of_convertArchive {project : Converted} (hname : name ≠ "")
    (h : convertArchive u table settings clock data name = .ok (.converted project)) :
    project.name = name := by
  unfold convertArchive at h
  split at h
  · cases h
  split at h
  · cases h
  next source _ outcome hproject =>
  cases h
  obtain ⟨screen, -, rfl⟩ := exists_screen_of_converted hproject
  exact projectNameOf_some hname settings

/-- **Without a race the pace does not show**, but in what is told of an unexpected fault. -/
theorem convertArchive_alike {unpack : ByteArray → Except Archive.Fault (List Project.Entry)}
    (h : ¬ Project.Races unpack settings.screenName (archiveLimits settings) data)
    (pace pace' : Project.Entry → Nat) :
    convertArchive ⟨unpack, pace⟩ table settings clock data name
        = convertArchive ⟨unpack, pace'⟩ table settings clock data name
      ∨ ∃ a b, convertArchive ⟨unpack, pace⟩ table settings clock data name = .error (.archive a)
        ∧ convertArchive ⟨unpack, pace'⟩ table settings clock data name = .error (.archive b)
        ∧ a.told? = b.told? := by
  obtain hsame | ⟨a, b, ha, hb, htold⟩ := Project.read_alike h pace pace'
  · exact .inl (by rw [convertArchive, convertArchive, hsame])
  · exact .inr ⟨a, b, by rw [convertArchive, ha], by rw [convertArchive, hb], htold⟩

end Conversion

namespace Service

open Conversion (Converted Outcome Stop InTime convertArchive)

/-! ### Ends -/

/-- The exit code of a run that ends with a report. -/
def Ending.exit? : Ending → Option Nat
  | .done report => some report.exit
  | _ => none

/-- The files that a run writes. -/
def Ending.written : Ending → List (String × ByteArray)
  | .done report => report.written
  | _ => []

/-- Whether a file can be written at a path: it is no directory, and stands in one. -/
def World.canWrite (w : World) (path : String) : Bool :=
  !w.isDirectory path && w.isDirectory (parentOf path)

/-- The end of a command and the answer of the service that tell the same result, for a project of a
name that goes to a path. -/
inductive Alike (name path : String) (writable : Bool) : Ending → HttpResponse → Prop where
  | refused (message : String) : Alike name path writable (failed 2 message) (failure 400 message)
  | screenFailed (screen reason : String) : Alike name path writable
      (failed 1 s!"screen {screen} could not be converted: {reason}")
      (failure 422 s!"Screen {screen} could not be converted: {reason}")
  | stopped (stop : Stop) (message : String) :
      Alike name path writable (.stopped stop) (failure 500 message)
  | overlong : Alike name path writable .overlongPath ⟨500, .crash⟩
  | written (report : Report) (count : Nat) (archive : ByteArray) (hwritable : writable = true)
      (hexit : report.exit = 0) (hwritten : report.written = [(path, archive)]) :
      Alike name path writable (.done report) ⟨200, .project name count archive⟩
  | isDirectory (count : Nat) (archive : ByteArray) (hwritable : writable = false) :
      Alike name path writable .isDirectory ⟨200, .project name count archive⟩
  | noSuchFile (count : Nat) (archive : ByteArray) (hwritable : writable = false) :
      Alike name path writable .noSuchFile ⟨200, .project name count archive⟩

/-- A project is packed for both, or for neither. -/
theorem alike_writeProject (w : World) (output : Option String) (project : Converted)
    {path : String} (hpath : path = shownPath (output.getD (project.name ++ ".zip"))) :
    Alike project.name path (w.canWrite path) (writeProject w output project)
      (outcomeResponse (.converted project)) := by
  rw [outcomeResponse, writeProject, ← hpath]
  cases Project.bundle? project.files with
  | none => exact .overlong
  | some archive =>
    dsimp only
    split
    · next hhere =>
      exact .isDirectory _ archive (by rw [World.canWrite, hhere]; rfl)
    next hhere =>
    rw [Bool.not_eq_true] at hhere
    split
    · next hparent =>
      rw [Bool.not_eq_true'] at hparent
      exact .noSuchFile _ archive (by rw [World.canWrite, hhere, hparent]; rfl)
    · next hparent =>
      rw [Bool.not_eq_true, Bool.not_eq_false'] at hparent
      exact .written _ _ archive (by rw [World.canWrite, hhere, hparent]; rfl) rfl rfl

/-- The command tells the message of a refused archive, or breaks off. -/
theorem endingOf_archive (w : World) (output : Option String) (e : Project.ArchiveError) :
    endingOf w output (.error (.archive e))
      = e.told?.elim (.stopped (.archive e)) fun message => failed 2 message := by
  cases e <;> rfl

/-- So does the service. -/
theorem answerOf_archive (e : Project.ArchiveError) :
    answerOf (.error (.archive e))
      = e.told?.elim (failure 500 ("Internal server error: " ++ e.message)) (failure 400) := by
  cases e <;> rfl

/-- Refusals of an archive end alike if the same is told of them. -/
theorem alike_of_told {a b : Project.ArchiveError} (h : a.told? = b.told?) (w : World)
    (output : Option String) (name path : String) (writable : Bool) :
    Alike name path writable (endingOf w output (.error (.archive a)))
      (answerOf (.error (.archive b))) := by
  rw [endingOf_archive, answerOf_archive, h]
  cases b.told? with
  | none => exact .stopped _ _
  | some message => exact .refused message

/-- **A conversion in time ends alike for the command and for the service.** -/
theorem alike_endingOf (w : World) (output : Option String) (u : Project.Unpacker) {clock : Clock}
    {settings : Settings} (htime : InTime settings clock) (table : Component.Table)
    (data : ByteArray) {name : String} (hname : name ≠ "") :
    let path := shownPath (output.getD (name ++ ".zip"))
    let result := convertArchive u table settings clock data name
    Alike name path (w.canWrite path) (endingOf w output result) (answerOf result) := by
  intro path result
  cases hresult : result with
  | error stop =>
    cases stop with
    | archive e => exact alike_of_told rfl w output name path _
    | conversion fault =>
      have hintime := Conversion.ne_timeout_of_inTime htime hresult
      cases fault with
      | timeout stage seconds => exact absurd rfl (hintime stage seconds)
      | _ => exact .stopped _ _
  | ok outcome =>
    cases outcome with
    | failed f => exact .screenFailed f.screen f.reason
    | converted project =>
      obtain rfl := Conversion.name_of_convertArchive hname hresult
      exact alike_writeProject w output project rfl

/-- **What it means that a command and the service agree**, on a project of a name that goes to a
path.  The command succeeds exactly if the service does and the project has a place to go to, and it
writes the archive that the service sends.  It fails on a screen exactly if the service does, on the
same screen for the same reason.  It refuses an archive exactly if the service does, with the same
message.  And it breaks off exactly if the service has an error of its own. -/
structure Agrees (name path : String) (writable : Bool) (ending : Ending) (answer : HttpResponse) :
    Prop where
  succeeds : ending.exit? = some 0 ↔ writable = true ∧ answer.status = 200
  archive : answer.status = 200 → ∃ count archive, answer = ⟨200, .project name count archive⟩
    ∧ (writable = true → ending.written = [(path, archive)])
  fails : ending.exit? = some 1 ↔ answer.status = 422
  reason : answer.status = 422 → ∃ screen reason : String,
    ending = failed 1 s!"screen {screen} could not be converted: {reason}"
    ∧ answer = failure 422 s!"Screen {screen} could not be converted: {reason}"
  refuses : ending.exit? = some 2 ↔ answer.status = 400
  message : answer.status = 400 →
    ∃ message, ending = failed 2 message ∧ answer = failure 400 message
  breaks : (∃ stop, ending = .stopped stop) ∨ ending = .overlongPath ↔ answer.status = 500

/-- Results that are told alike agree in all that they tell. -/
theorem Alike.agrees {name path : String} {writable : Bool} {ending : Ending}
    {answer : HttpResponse} (h : Alike name path writable ending answer) :
    Agrees name path writable ending answer where
  succeeds := by cases h <;> simp_all [failed, failure, Ending.exit?]
  archive hstatus := by
    cases h with
    | written report count archive hwritable hexit hwritten =>
      exact ⟨count, archive, rfl, fun _ => hwritten⟩
    | isDirectory count archive hwritable | noSuchFile count archive hwritable =>
      exact ⟨count, archive, rfl, fun h => absurd (hwritable.symm.trans h) Bool.false_ne_true⟩
    | _ => simp [failure] at hstatus
  fails := by cases h <;> simp_all [failed, failure, Ending.exit?]
  reason hstatus := by
    cases h with
    | screenFailed screen reason => exact ⟨screen, reason, rfl, rfl⟩
    | _ => simp [failure] at hstatus
  refuses := by cases h <;> simp_all [failed, failure, Ending.exit?]
  message hstatus := by
    cases h with
    | refused message => exact ⟨message, rfl, rfl⟩
    | _ => simp [failure] at hstatus
  breaks := by cases h <;> simp_all [failed, failure]

theorem failure_inj {status : Nat} {a b : String} (h : failure status a = failure status b) :
    a = b := by
  simpa [failure] using h

theorem failed_inj {exit : Nat} {a b : String} (h : failed exit a = failed exit b) : a = b := by
  simp only [failed, Ending.done.injEq, Report.mk.injEq, ← String.toList_inj,
    String.toList_append] at h
  exact String.toList_inj.1 (List.append_cancel_left (List.append_cancel_right h.2.2.1))

/-- Refusals of an archive that agree are told alike. -/
theorem told_eq_of_agrees {a b : Project.ArchiveError} {w : World} {output : Option String}
    {name path : String} {writable : Bool} (h : Agrees name path writable
      (endingOf w output (.error (.archive a))) (answerOf (.error (.archive b)))) :
    a.told? = b.told? := by
  rw [endingOf_archive, answerOf_archive] at h
  cases ha : a.told? with
  | none =>
    cases hb : b.told? with
    | none => rfl
    | some other =>
      rw [ha, hb] at h
      cases h.refuses.2 rfl
  | some message =>
    rw [ha] at h
    cases hb : b.told? with
    | none =>
      rw [hb] at h
      cases h.refuses.1 rfl
    | some other =>
      rw [hb] at h
      obtain ⟨found, hending, hanswer⟩ := h.message rfl
      rw [failed_inj hending, failure_inj hanswer]

/-- **The command and the service agree unless readings race**, on an archive that is not empty and
within the limits, under a project name, the same settings, the same way to unpack and clocks that
do not reach the deadline.  They agree if the entries are read at the same pace on both sides.  They
agree whatever the paces are exactly if no two entries that are needed fail with different words. -/
theorem agreement_iff_no_race (w : World) (output : Option String) (metrics : Metrics)
    (elapsed : Nat) (table : Component.Table) (settings : Settings) (clock clock' : Clock)
    (unpack : ByteArray → Except Archive.Fault (List Project.Entry)) (data body : ByteArray)
    (given name : String) (hfull : data.size ≠ 0)
    (hsize : (data.size : Int) ≤ settings.maxUploadBytes)
    (htext : (Text.Base64.encode data.toList).length ≤ Request.maxFileLength)
    (hname : Request.projectNameOf given = .ok name) (hbody : Uploads body data given)
    (htime : InTime settings clock) (htime' : InTime settings clock') :
    let path := shownPath (output.getD (name ++ ".zip"))
    let ending := fun pace => convertFile { w with unpacker := ⟨unpack, pace⟩ } clock settings table
      data output name
    let answer := fun pace =>
      (handle clock' elapsed ⟨settings, table, metrics, ⟨unpack, pace⟩⟩ (post body)).1
    (∀ pace, Agrees name path (w.canWrite path) (ending pace) (answer pace))
    ∧ ((∀ pace pace', Agrees name path (w.canWrite path) (ending pace) (answer pace'))
      ↔ ¬ Project.Races unpack settings.screenName (Conversion.archiveLimits settings) data) := by
  intro path ending answer
  have hfilled : name ≠ "" := by
    rintro rfl
    exact Bool.false_ne_true (Request.isProjectName_of_projectNameOf hname)
  let result := fun pace => convertArchive ⟨unpack, pace⟩ table settings clock data name
  have hending : ∀ pace, ending pace = endingOf w output (result pace) := fun pace => rfl
  have hanswer : ∀ pace, answer pace = answerOf (result pace) := by
    intro pace
    have hcarries : Carries (⟨settings, table, metrics, ⟨unpack, pace⟩⟩ : App).settings body _ data :=
      carries_of_uploads hfull hsize htext hname hbody
    rw [show result pace = _ from Conversion.convertArchive_of_inTime htime htime' data name]
    exact handle_of_carries hcarries clock' elapsed
  have halike : ∀ pace, Alike name path (w.canWrite path) (endingOf w output (result pace))
      (answerOf (result pace)) := fun pace =>
    alike_endingOf w output ⟨unpack, pace⟩ htime table data hfilled
  refine ⟨fun pace => ?_, fun hagree hraces => ?_, fun hcalm pace pace' => ?_⟩
  · rw [hending, hanswer]
    exact (halike pace).agrees
  · obtain ⟨pace, pace', a, b, ha, hb, htold⟩ := Project.exists_paces_of_races hraces
    have hboth := hagree pace pace'
    have hfirst : result pace = .error (.archive a) := by
      simp only [result, convertArchive, ha]
    have hother : result pace' = .error (.archive b) := by
      simp only [result, convertArchive, hb]
    rw [hending, hanswer, hfirst, hother] at hboth
    exact htold (told_eq_of_agrees hboth)
  · rw [hending, hanswer]
    obtain hsame | ⟨a, b, ha, hb, htold⟩ := Conversion.convertArchive_alike hcalm pace pace'
    · rw [← show result pace = result pace' from hsame]
      exact (halike pace).agrees
    · rw [show result pace = _ from ha, show result pace' = _ from hb]
      exact (alike_of_told htold w output name path _).agrees

/-- An archive with a bare screen. -/
def bareArchive : ByteArray :=
  Archive.write [("Screen1.scm", "\x7b\"Properties\":\x7b\"$Type\":\"F\"\x7d\x7d".toUTF8)]

/-- The command at the start of its time writes what the service sends a second later. -/
theorem bare_archive_written_as_sent :
    (convertFile {} (fun _ => 0) {} Component.Table.packaged bareArchive none "App").exit? = some 0
    ∧ ∃ count archive,
      (handle (fun _ => 1000000000) 0 {} (post (upload bareArchive "App"))).1
        = ⟨200, .project "App" count archive⟩
      ∧ (convertFile {} (fun _ => 0) {} Component.Table.packaged bareArchive none "App").written
        = [("App.zip", archive)] := by
  have hexit : (convertFile {} (fun _ => 0) {} Component.Table.packaged bareArchive none
      "App").exit? = some 0 := by decide +kernel
  have hstart : (({} : Settings).timer fun _ => 0).expiredAt 0 = false := by decide +kernel
  have hlater : (({} : Settings).timer fun _ => 1000000000).expiredAt 0 = false := by
    decide +kernel
  have hpath : shownPath ((none : Option String).getD ("App" ++ ".zip")) = "App.zip" := by
    decide +kernel
  have hagrees := (agreement_iff_no_race {} none {} 0 Component.Table.packaged {} (fun _ => 0)
    (fun _ => 1000000000) Project.Unpacker.standard.entries bareArchive (upload bareArchive "App")
    "App" "App" (by decide +kernel) (by decide +kernel) (by decide +kernel) rfl
    (uploads_upload bareArchive "App") (fun _ => hstart) (fun _ => hlater)).1
      Project.Unpacker.standard.pace
  obtain ⟨hwritable, hstatus⟩ := hagrees.succeeds.1 hexit
  obtain ⟨count, archive, hanswer, hwritten⟩ := hagrees.archive hstatus
  exact ⟨hexit, count, archive, hanswer, hpath ▸ hwritten hwritable⟩

/-- A layout that does not fit its checksum. -/
def damagedLayout : Project.Entry := ⟨"Screen1.scm", 1, .error Archive.wrongChecksum⟩

/-- A media file whose way of compression is unknown. -/
def strangeMedia : Project.Entry := ⟨"assets/a", 1, .error Archive.unknownMethod⟩

/-- The archive of both. -/
def racingArchive : ByteArray :=
  let sound := Archive.write [("Screen1.scm", "x".toUTF8), ("assets/a", "y".toUTF8)]
  ⟨(sound.data.setIfInBounds 107 0).setIfInBounds 158 99⟩

/-- This archive is refused if its layout fails first, and breaks the reading off otherwise. -/
theorem read_racingArchive (pace : Project.Entry → Nat) :
    Project.read racingArchive "Screen1" (Conversion.archiveLimits {})
        ⟨Project.Unpacker.standard.entries, pace⟩
      = .error (if pace damagedLayout ≤ pace strangeMedia
        then .damagedEntry Archive.wrongChecksum.message else .unexpected Archive.unknownMethod) := by
  have hunpack : Project.Unpacker.standard.entries racingArchive
      = .ok [damagedLayout, strangeMedia] := by decide +kernel
  have hsorted : Project.byName [damagedLayout, strangeMedia] = [damagedLayout, strangeMedia] := by
    rw [Project.byName_eq (by decide), List.mergeSort_of_pairwise (by decide)]
  have hplan : Project.planOf "Screen1" (Conversion.archiveLimits {})
      [damagedLayout, strangeMedia] = .ok ⟨damagedLayout, none, [strangeMedia]⟩ := by
    rw [Project.planOf, hsorted]
    rfl
  have hfiles : Project.filesOf [damagedLayout, strangeMedia] = [damagedLayout, strangeMedia] := by
    decide
  have hfirst : Project.firstFailure? pace [damagedLayout, strangeMedia]
      = some (if pace damagedLayout ≤ pace strangeMedia
        then .damagedEntry Archive.wrongChecksum.message else .unexpected Archive.unknownMethod) := by
    show (minOn pace damagedLayout strangeMedia).failure? = _
    rw [minOn_eq_if]
    split <;> rfl
  simp only [Project.read, hunpack, hfiles, Project.select, hplan]
  rw [show Project.Plan.wanted _ = [damagedLayout, strangeMedia] from rfl, hfirst]

/-- The command refuses this archive, and a service that reads its media file first breaks off. -/
theorem racing_archive_told_twice :
    (convertFile {} (fun _ => 0) {} Component.Table.packaged racingArchive none "App").exit? = some 2
    ∧ (handle (fun _ => 0) 0
        { unpacker := ⟨Project.Unpacker.standard.entries, fun e => e.name.length⟩ }
        (post (upload racingArchive "App"))).1.status = 500 := by
  constructor
  · rw [convertFile, convertArchive, show Project.read racingArchive _ _ _ = _ from
      read_racingArchive Project.Unpacker.standard.pace]
    decide
  · have hcarries : Carries {} (upload racingArchive "App") _ racingArchive :=
      carries_of_uploads (by decide +kernel) (by decide +kernel) (by decide +kernel) rfl
        (uploads_upload racingArchive "App")
    rw [handle_of_carries hcarries, convertArchive, show Project.read racingArchive _ _ _ = _ from
      read_racingArchive _]
    decide

end Service
end ScreenForge
