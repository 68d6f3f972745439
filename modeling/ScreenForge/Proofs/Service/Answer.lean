/-
# Every request has an answer

A body may be empty, have broken text in a string, or carry no request; the request that it carries
may have an archive that is refused, a screen that fails, no time left, or a project that cannot be
packed.  `Carries` says what a valid request is, without regard to the order in which the handler
looks at it.
-/
import ScreenForge.Proofs.Json.Readback
import ScreenForge.Proofs.Request
import ScreenForge.Service.Http

namespace ScreenForge

open List

namespace Archive

/-- An archive cannot be written if a path is too long. -/
theorem write?_eq_none_iff {files : List (String × ByteArray)} :
    write? files = none ↔ ∃ f ∈ files, maxNameLength < (writtenName f.1).2.length := by
  have hnone : write? files = none ↔ (files.all fun f => nameFits f.1) = false := by
    unfold write?
    split
    · next hall =>
      rw [hall]
      exact iff_of_false (Option.some_ne_none _) Bool.noConfusion
    · next hall => exact iff_of_true rfl (Bool.eq_false_iff.2 hall)
  rw [hnone, all_eq_false]
  refine exists_congr fun f => and_congr_right fun _ => ?_
  rw [nameFits, decide_eq_true_eq, Nat.not_le]

end Archive

namespace Project

/-- **A project is packed unless one of its paths is too long.** -/
theorem bundle?_eq_none_iff {files : Files} :
    bundle? files = none
      ↔ ∃ f ∈ files, Archive.maxNameLength < (Archive.writtenName f.1).2.length := by
  rw [bundle?, Archive.write?_eq_none_iff]
  constructor
  · rintro ⟨g, hg, hlong⟩
    obtain ⟨f, hf, rfl⟩ := mem_map.1 hg
    exact ⟨f, hf, hlong⟩
  · rintro ⟨f, hf, hlong⟩
    exact ⟨_, mem_map_of_mem hf, hlong⟩

end Project

namespace Service

open Conversion (Converted Outcome Stop archiveLimits convertArchive)

/-- A request for a conversion. -/
def post (body : ByteArray) : HttpRequest := ⟨"POST", "/convert", body⟩

/-- The route of a conversion is found. -/
theorem handle_post (clock : Clock) (elapsed : Nat) (app : App) (body : ByteArray) :
    handle clock elapsed app (post body) = convert clock elapsed app body := by
  have hroute : route? "/convert" = some .convert := by decide
  rw [handle, post, hroute]
  rfl

/-! ### Valid requests -/

/-- A body carries a request for data: it is the JSON text of a request, whose archive is the base64
text of data within the limit. -/
structure Carries (settings : Settings) (body : ByteArray) (request : Request) (data : ByteArray) :
    Prop where
  read : ∃ value, Json.ofOctets body.toList = .ok value ∧ Request.ofJson value = .ok request
  decoded : request.archiveBytes? = some data.toList
  fits : (data.size : Int) ≤ settings.maxUploadBytes

/-- A body holds a string with octets that belong to no character. -/
def HasBrokenText (body : ByteArray) : Prop := Json.ofOctets body.toList = .error .undecodable

variable {settings : Settings} {body data : ByteArray} {request : Request} {answer : HttpResponse}
  {app : App}

theorem not_isEmpty_of_ofOctets {value : Json} (h : Json.ofOctets body.toList = .ok value) :
    body.isEmpty = false := by
  refine Bool.eq_false_iff.2 fun hempty => ?_
  rw [ByteArray.size_eq_zero_iff.1 (beq_iff_eq.1 hempty), ByteArray.toList_empty] at h
  cases h

theorem length_toList (data : ByteArray) : data.toList.length = data.size := by
  rw [Text.toList_bytes]
  rfl

/-- **The handler accepts exactly the bodies that carry a request.** -/
theorem readConvert_eq_ok_iff :
    readConvert settings body = .ok (request, data) ↔ Carries settings body request data := by
  constructor
  · intro h
    unfold readConvert at h
    split at h
    · cases h
    split at h
    · cases h
    · cases h
    next value hvalue =>
    split at h
    · cases h
    next request' hrequest =>
    split at h
    · cases h
    next octets hoctets =>
    split at h
    · cases h
    next hfits =>
    cases h
    refine ⟨⟨value, hvalue, hrequest⟩, ?_, ?_⟩
    · rw [Text.toList_bytes]
      exact hoctets
    · exact Int.not_lt.1 hfits
  · rintro ⟨⟨value, hvalue, hrequest⟩, hdecoded, hfits⟩
    have hroom : ¬ (data.toList.length : Int) > settings.maxUploadBytes := by
      rw [length_toList]
      exact Int.not_lt.2 hfits
    simp only [readConvert, not_isEmpty_of_ofOctets hvalue, Bool.false_eq_true, if_false, hvalue,
      hrequest, hdecoded, if_neg hroom]
    rw [Text.toList_bytes]

/-- **A body without a request is refused**: with 405 if it is empty, not at all if its text is
broken, and with 400 otherwise. -/
theorem readConvert_eq_error (h : readConvert settings body = .error answer) :
    (body.isEmpty ∧ ∃ message, answer = failure 405 message)
      ∨ (HasBrokenText body ∧ answer = ⟨500, .crash⟩)
      ∨ (body.isEmpty = false ∧ ¬ HasBrokenText body
        ∧ ∃ message, answer = failure 400 message) := by
  unfold readConvert at h
  split at h
  · next hempty =>
    cases h
    exact .inl ⟨hempty, _, rfl⟩
  next hempty =>
  have hfull := Bool.eq_false_iff.2 hempty
  split at h
  · next hread =>
    cases h
    refine .inr (.inr ⟨hfull, ?_, _, rfl⟩)
    rw [HasBrokenText, hread]
    exact fun hbroken => by cases hbroken
  · next hread =>
    cases h
    exact .inr (.inl ⟨hread, rfl⟩)
  next value hread =>
  have hsound : ¬ HasBrokenText body := by
    rw [HasBrokenText, hread]
    exact fun hbroken => by cases hbroken
  split at h
  · cases h
    exact .inr (.inr ⟨hfull, hsound, _, rfl⟩)
  split at h
  · cases h
    exact .inr (.inr ⟨hfull, hsound, _, rfl⟩)
  split at h
  · cases h
    exact .inr (.inr ⟨hfull, hsound, _, rfl⟩)
  · cases h

/-! ### Uploads -/

/-- A body is a JSON object with the base64 text of data and a name. -/
def Uploads (body data : ByteArray) (given : String) : Prop :=
  ∃ members, Json.ofOctets body.toList = .ok (.obj members)
    ∧ members.lookup "file" = some (.str (String.ofList (Text.Base64.encode data.toList)))
    ∧ members.lookup (Request.nameKey members) = some (.str given)

/-- **An upload within the limits is a request for its data.** -/
theorem carries_of_uploads {settings : Settings} {body data : ByteArray} {given name : String}
    (hfull : data.size ≠ 0) (hsize : (data.size : Int) ≤ settings.maxUploadBytes)
    (htext : (Text.Base64.encode data.toList).length ≤ Request.maxFileLength)
    (hname : Request.projectNameOf given = .ok name) (h : Uploads body data given) :
    Carries settings body ⟨String.ofList (Text.Base64.encode data.toList), name⟩ data := by
  obtain ⟨members, hread, hfile, hgiven⟩ := h
  have hdata : data.toList ≠ [] := by
    rw [ne_eq, ← length_eq_zero_iff, length_toList]
    exact hfull
  have hencoded := Request.ne_empty_of_spaced hdata (Request.spaced_self _)
    (.inl (String.toList_ofList (l := Text.Base64.encode data.toList)))
  have hfits : (String.ofList (Text.Base64.encode data.toList)).length ≤ Request.maxFileLength := by
    rwa [String.length_ofList]
  exact ⟨⟨_, hread, Request.ofJson_of_lookup hfile hencoded hfits hgiven hname⟩,
    Request.archiveBytes?_of_spaced (Request.spaced_self _) (.inl String.toList_ofList) name, hsize⟩

/-- The upload of data under a name. -/
def upload (data : ByteArray) (given : String) : ByteArray :=
  (Json.render Json.compact (.obj
    [("file", .str (String.ofList (Text.Base64.encode data.toList))),
      ("projectName", .str given)])).toUTF8

theorem uploads_upload (data : ByteArray) (given : String) :
    Uploads (upload data given) data given := by
  have hnames : ["file", "projectName"].Nodup := by decide
  have hmembers : ∀ {P : Json → Prop}, (∀ s, P (.str s)) →
      (∀ members : List (String × Json), (Assoc.keys members).Nodup → P (.obj members)) →
      (Json.obj [("file", .str (String.ofList (Text.Base64.encode data.toList))),
        ("projectName", .str given)]).Throughout P := by
    intro P hstr hobj
    rw [Json.throughout_obj]
    refine ⟨hobj _ hnames, ?_⟩
    simp only [forall_mem_cons, not_mem_nil, false_imp_iff, implies_true, and_true]
    exact ⟨hstr _, hstr _⟩
  refine ⟨_, Json.ofOctets_render Json.isReadable_compact
    (hmembers (fun _ => trivial) fun _ h => h) (hmembers (fun _ => trivial) fun _ _ => trivial),
    rfl, rfl⟩

/-! ### Answers -/

/-- The answer to the end of a conversion. -/
def answerOf : Except Stop (Outcome Converted) → HttpResponse
  | .error stop => stopResponse stop
  | .ok outcome => outcomeResponse outcome

/-- A request is answered by the end of its conversion. -/
theorem handle_of_carries (h : Carries app.settings body request data) (clock : Clock)
    (elapsed : Nat) :
    (handle clock elapsed app (post body)).1
      = answerOf
        (convertArchive app.unpacker app.table app.settings clock data request.projectName) := by
  rw [handle_post, convert, readConvert_eq_ok_iff.2 h]
  dsimp only
  split
  · next hstop => rw [hstop]; rfl
  · next houtcome => rw [houtcome]; rfl

/-- What is refused is answered with the refusal. -/
theorem handle_of_refused (h : readConvert app.settings body = .error answer) (clock : Clock)
    (elapsed : Nat) : (handle clock elapsed app (post body)).1 = answer := by
  rw [handle_post, convert, h]

theorem Carries.not_hasBrokenText (h : Carries settings body request data) :
    ¬ HasBrokenText body := by
  obtain ⟨value, hvalue, -⟩ := h.read
  rw [HasBrokenText, hvalue]
  exact fun hbroken => by cases hbroken

/-- A body carries one request. -/
theorem Carries.unique {other : Request} {octets : ByteArray}
    (h : Carries settings body request data) (hother : Carries settings body other octets) :
    request = other ∧ data = octets := by
  have := (readConvert_eq_ok_iff.2 h).symm.trans (readConvert_eq_ok_iff.2 hother)
  exact Prod.mk.inj (Except.ok.inj this)

theorem not_hasBrokenText_of_isEmpty (h : body.isEmpty) : ¬ HasBrokenText body := by
  rw [HasBrokenText, ByteArray.size_eq_zero_iff.1 (beq_iff_eq.1 h), ByteArray.toList_empty]
  exact fun hbroken => by cases hbroken

/-- An answer: the archive of a project, or an error text under one of five statuses. -/
def IsAnswer (answer : HttpResponse) : Prop :=
  (∃ name count archive, answer = ⟨200, .project name count archive⟩)
    ∨ ∃ status ∈ [400, 405, 422, 500, 504], ∃ message, answer = failure status message

theorem isAnswer_failure {status : Nat} (h : status ∈ [400, 405, 422, 500, 504])
    (message : String) : IsAnswer (failure status message) :=
  .inr ⟨status, h, message, rfl⟩

theorem IsAnswer.ne_crash (h : IsAnswer answer) : answer ≠ ⟨500, .crash⟩ := by
  obtain ⟨name, count, archive, rfl⟩ | ⟨status, -, message, rfl⟩ := h
  · intro hcrash
    cases congrArg HttpResponse.body hcrash
  · intro hcrash
    cases congrArg HttpResponse.body hcrash

/-- A conversion ends in a project that cannot be packed. -/
def EndsUnpacked (result : Except Stop (Outcome Converted)) : Prop :=
  ∃ project, result = .ok (.converted project)
    ∧ ∃ f ∈ project.files, Archive.maxNameLength < (Archive.writtenName f.1).2.length

theorem isAnswer_stopResponse (stop : Stop) : IsAnswer (stopResponse stop) := by
  unfold stopResponse
  split
  · exact isAnswer_failure (by decide) _
  · exact isAnswer_failure (by decide) _
  · exact isAnswer_failure (by decide) _
  · exact isAnswer_failure (by decide) _

/-- **Every end of a conversion has an answer**, but for a project that cannot be packed. -/
theorem answerOf_cases (result : Except Stop (Outcome Converted)) :
    (EndsUnpacked result ∧ answerOf result = ⟨500, .crash⟩)
      ∨ (¬ EndsUnpacked result ∧ IsAnswer (answerOf result)) := by
  cases result with
  | error stop =>
    refine .inr ⟨?_, isAnswer_stopResponse stop⟩
    rintro ⟨project, hproject, -⟩
    cases hproject
  | ok outcome =>
    cases outcome with
    | failed failure =>
      refine .inr ⟨?_, isAnswer_failure (by decide) _⟩
      rintro ⟨project, hproject, -⟩
      cases hproject
    | converted project =>
      cases hbundle : Project.bundle? project.files with
      | none =>
        refine .inl ⟨⟨project, rfl, Project.bundle?_eq_none_iff.1 hbundle⟩, ?_⟩
        simp only [answerOf, outcomeResponse, hbundle]
      | some archive =>
        refine .inr ⟨?_, .inl ⟨project.name, project.diagnostics.length, archive, ?_⟩⟩
        · rintro ⟨other, hother, hlong⟩
          cases hother
          rw [Project.bundle?_eq_none_iff.2 hlong] at hbundle
          cases hbundle
        · simp only [answerOf, outcomeResponse, hbundle]

/-- What no answer is for: broken text in a body, or a project that cannot be packed. -/
def Unanswerable (clock : Clock) (app : App) (body : ByteArray) : Prop :=
  HasBrokenText body ∨ ∃ request data, Carries app.settings body request data
    ∧ EndsUnpacked
      (convertArchive app.unpacker app.table app.settings clock data request.projectName)

/-- A request has no answer if its project cannot be packed. -/
theorem Carries.unanswerable_iff (h : Carries app.settings body request data) (clock : Clock) :
    Unanswerable clock app body ↔ EndsUnpacked
      (convertArchive app.unpacker app.table app.settings clock data request.projectName) := by
  constructor
  · rintro (hbroken | ⟨other, octets, hother, hends⟩)
    · exact absurd hbroken h.not_hasBrokenText
    · obtain ⟨rfl, rfl⟩ := h.unique hother
      exact hends
  · exact fun hends => .inr ⟨request, data, h, hends⟩

/-- The handler crashes on what no answer is for, and answers everything else. -/
theorem handle_post_cases (clock : Clock) (elapsed : Nat) (app : App) (body : ByteArray) :
    (Unanswerable clock app body ∧ (handle clock elapsed app (post body)).1 = ⟨500, .crash⟩)
      ∨ (¬ Unanswerable clock app body ∧ IsAnswer (handle clock elapsed app (post body)).1) := by
  cases hread : readConvert app.settings body with
  | error answer =>
    have hnone : ∀ request data, ¬ Carries app.settings body request data := by
      intro request data hcarries
      rw [readConvert_eq_ok_iff.2 hcarries] at hread
      cases hread
    have hcalm : ¬ HasBrokenText body → ¬ Unanswerable clock app body := by
      rintro hsound (hbroken | ⟨request, data, hcarries, -⟩)
      · exact hsound hbroken
      · exact hnone request data hcarries
    rw [handle_of_refused hread]
    obtain ⟨hempty, message, rfl⟩ | ⟨hbroken, rfl⟩ | ⟨-, hsound, message, rfl⟩ :=
      readConvert_eq_error hread
    · exact .inr ⟨hcalm (not_hasBrokenText_of_isEmpty hempty), isAnswer_failure (by decide) _⟩
    · exact .inl ⟨.inl hbroken, rfl⟩
    · exact .inr ⟨hcalm hsound, isAnswer_failure (by decide) _⟩
  | ok carried =>
    have hcarries := readConvert_eq_ok_iff.1 hread
    rw [handle_of_carries hcarries, hcarries.unanswerable_iff]
    exact answerOf_cases _

/-- The layout of an archive has to be repaired, and repairs are wanted. -/
def IsRepaired (app : App) (data : ByteArray) : Prop :=
  app.settings.repairDescriptors = true ∧ ∃ source,
    Project.read data app.settings.screenName (archiveLimits app.settings) app.unpacker
      = .ok source
    ∧ ∀ found, Descriptor.extract source.layout ≠ .ok found

/-- **A body has an answer unless its text is broken or its project cannot be packed**, for every
way to unpack archives.  Broken text crashes the handler.  Where no layout is repaired, nothing else
does but a project that cannot be packed.  If it does not crash, it answers with the archive of a
project or with an error text under one of five statuses: 405 if the body is empty, and 400 if it
carries no request. -/
theorem body_unanswered_iff (clock : Clock) (elapsed : Nat) (app : App) (body : ByteArray) :
    (HasBrokenText body → (handle clock elapsed app (post body)).1 = ⟨500, .crash⟩)
    ∧ ((∀ request data, Carries app.settings body request data → ¬ IsRepaired app data) →
      ((handle clock elapsed app (post body)).1 = ⟨500, .crash⟩
        ↔ HasBrokenText body ∨ ∃ request data, Carries app.settings body request data
          ∧ EndsUnpacked (convertArchive app.unpacker app.table app.settings clock data
            request.projectName)))
    ∧ ((handle clock elapsed app (post body)).1 ≠ ⟨500, .crash⟩ →
      (∃ name count archive,
        (handle clock elapsed app (post body)).1 = ⟨200, .project name count archive⟩)
      ∨ ∃ status ∈ [400, 405, 422, 500, 504], ∃ message,
        (handle clock elapsed app (post body)).1 = failure status message)
    ∧ (body.isEmpty = true →
      ∃ message, (handle clock elapsed app (post body)).1 = failure 405 message)
    ∧ (body.isEmpty = false → ¬ HasBrokenText body →
      (∀ request data, ¬ Carries app.settings body request data) →
      ∃ message, (handle clock elapsed app (post body)).1 = failure 400 message) := by
  have hcases := handle_post_cases clock elapsed app body
  refine ⟨fun hbroken => ?_, fun _ => ?_, ?_, ?_, ?_⟩
  · obtain ⟨-, hcrash⟩ | ⟨hcalm, -⟩ := hcases
    · exact hcrash
    · exact absurd (.inl hbroken) hcalm
  · obtain ⟨hexcept, hcrash⟩ | ⟨hcalm, hanswer⟩ := hcases
    · exact iff_of_true hcrash hexcept
    · exact iff_of_false hanswer.ne_crash hcalm
  · intro hanswered
    obtain ⟨-, hcrash⟩ | ⟨-, hanswer⟩ := hcases
    · exact absurd hcrash hanswered
    · exact hanswer
  · intro hempty
    have hread : readConvert app.settings body
        = .error (failure 405 "Method not allowed or missing request body.") := by
      rw [readConvert, if_pos hempty]
    exact ⟨_, handle_of_refused hread clock elapsed⟩
  · intro hfull hsound hnone
    cases hread : readConvert app.settings body with
    | ok carried => exact absurd (readConvert_eq_ok_iff.1 hread) (hnone carried.1 carried.2)
    | error answer =>
      rw [handle_of_refused hread]
      obtain ⟨hempty, -⟩ | ⟨hbroken, -⟩ | ⟨-, -, hrefused⟩ := readConvert_eq_error hread
      · exact absurd (hempty.symm.trans hfull) Bool.noConfusion
      · exact absurd hbroken hsound
      · exact hrefused

/-- A body whose only string is an octet that belongs to no character. -/
def brokenBody : ByteArray := ⟨#[0x22, 0xFF, 0x22]⟩

/-- Broken text crashes the handler. -/
theorem broken_text_unanswered :
    (handle (fun _ => 0) 0 {} (post brokenBody)).1 = ⟨500, .crash⟩ := by
  have hbroken : Json.ofOctets brokenBody.toList = .error .undecodable := by
    rw [Text.toList_bytes]
    rfl
  have hfull : brokenBody.isEmpty = false := rfl
  refine handle_of_refused ?_ (fun _ => 0) 0
  simp only [readConvert, hfull, hbroken, Bool.false_eq_true, if_false]

end Service
end ScreenForge
