/-
# Which requests are accepted

The archive text of octets carries them, whatever blanks are put into it and behind the head of a
data address.
-/
import ScreenForge.Proofs.Text.Base64
import ScreenForge.Request

namespace ScreenForge
namespace Request

open List

/-- A name that is accepted is a project name in the strict sense. -/
theorem isProjectName_of_projectNameOf {s name : String} (h : projectNameOf s = .ok name) :
    isProjectName name.toList := by
  unfold projectNameOf at h
  split at h
  · cases h
  · dsimp only at h
    split at h
    · next hname =>
      cases h
      rwa [String.toList_ofList]
    · cases h

/-- **The name of an accepted request is a project name.** -/
theorem isProjectName_of_ofJson {value : Json} {request : Request}
    (h : ofJson value = .ok request) : isProjectName request.projectName.toList := by
  unfold ofJson at h
  split at h
  · next members =>
    dsimp only at h
    split at h
    · next f n hfile hname =>
      cases h
      split at hname
      · unfold readName at hname
        split at hname
        · exact isProjectName_of_projectNameOf hname
        · cases hname
      · cases hname
        exact (by decide : isProjectName "ConvertedApp".toList = true)
    · cases h
  · cases h

variable {text : List Char} {file : String}

/-- **A value with a fitting archive text and a project name is a request.** -/
theorem ofJson_of_lookup {members : List (String × Json)} {given name : String}
    (hfile : members.lookup "file" = some (.str file)) (hfull : file ≠ "")
    (hfits : file.length ≤ maxFileLength)
    (hgiven : members.lookup (nameKey members) = some (.str given))
    (hname : projectNameOf given = .ok name) : ofJson (.obj members) = .ok ⟨file, name⟩ := by
  have hread : readFile (some (.str file)) = .ok file := by
    rw [readFile, if_neg hfull, if_neg (Nat.not_lt.2 hfits)]
  simp only [ofJson, hfile, hread, hgiven, readName, hname]

/-! ### Archive texts -/

/-- `IsFileOf text file`: a file is a text as it stands, or behind the head of a data address. -/
def IsFileOf (text file : List Char) : Prop :=
  file = text ∨ ∃ head, ',' ∉ head ∧ file = "data:".toList ++ head ++ ',' :: text

/-- A text with blanks put in anywhere. -/
inductive Spaced : List Char → List Char → Prop
  | nil : Spaced [] []
  | char (c) {s text} (h : Spaced s text) : Spaced (c :: s) (c :: text)
  | blank {c s text} (hc : Text.isBlank c = true) (h : Spaced s text) : Spaced s (c :: text)

theorem spaced_self (s : List Char) : Spaced s s := by
  induction s with
  | nil => exact .nil
  | cons c s ih => exact .char c ih

/-- Blanks in an archive text do not count. -/
theorem Spaced.squeeze {s : List Char} (h : Spaced s text) :
    Text.squeeze text = Text.squeeze s := by
  induction h with
  | nil => rfl
  | char c _ ih =>
    rw [Text.squeeze, filter_cons, ← Text.squeeze, ih, Text.squeeze, Text.squeeze, filter_cons]
  | blank hc _ ih => rw [Text.squeeze, filter_cons_of_neg (by simp [hc]), ← Text.squeeze, ih]

theorem Spaced.mem {s : List Char} (h : Spaced s text) {c : Char} (hc : c ∈ text) :
    c ∈ s ∨ Text.isBlank c := by
  induction h with
  | nil => exact absurd hc not_mem_nil
  | char d _ ih =>
    obtain rfl | hc := mem_cons.1 hc
    · exact .inl mem_cons_self
    · exact (ih hc).imp_left (mem_cons_of_mem d)
  | blank hd _ ih =>
    obtain rfl | hc := mem_cons.1 hc
    · exact .inr hd
    · exact ih hc

/-- Nor does the head of a data address. -/
theorem payload_of_head {head : List Char} (hhead : ',' ∉ head) (text : List Char) (name : String) :
    payload ⟨String.ofList ("data:".toList ++ head ++ ',' :: text), name⟩ = Text.squeeze text := by
  have hcomma : ∀ c ∈ "data:".toList ++ head, (c != ',') := by
    refine Text.bne_of_not_mem fun hmem => ?_
    exact (mem_append.1 hmem).elim (by decide) hhead
  have hstart : Text.startsWith ("data:".toList ++ head ++ ',' :: text) "data:".toList := by
    rw [Text.startsWith, List.isPrefixOf_iff_prefix, append_assoc]
    exact prefix_append ..
  have hcontains : ("data:".toList ++ head ++ ',' :: text).contains ',' :=
    contains_iff_mem.2 (by simp)
  rw [payload]
  simp only [String.toList_ofList, hstart, hcontains, Bool.and_self, if_true,
    dropWhile_append_of_pos hcomma]
  rfl

theorem payload_of_not_mem (h : ',' ∉ file.toList) (name : String) :
    payload ⟨file, name⟩ = Text.squeeze file.toList := by
  have hcontains : file.toList.contains ',' = false :=
    Bool.eq_false_iff.2 fun hmem => h (contains_iff_mem.1 hmem)
  simp only [payload, hcontains, Bool.and_false, Bool.false_eq_true, if_false]

/-- **What is cut off a file is the head of a data address.** -/
theorem exists_isFileOf (file name : String) :
    ∃ text, IsFileOf text file.toList ∧ payload ⟨file, name⟩ = Text.squeeze text := by
  by_cases hcut : (Text.startsWith file.toList "data:".toList && file.toList.contains ',') = true
  · obtain ⟨hstart, hcomma⟩ := Bool.and_eq_true_iff.1 hcut
    obtain ⟨rest, hrest⟩ := List.isPrefixOf_iff_prefix.1 hstart
    rw [← hrest, contains_iff_mem, mem_append] at hcomma
    obtain ⟨head, text, rfl, hhead⟩ :=
      eq_append_cons_of_mem (hcomma.resolve_left (by decide))
    rw [← append_assoc] at hrest
    have hpayload := payload_of_head hhead text name
    rw [hrest, String.ofList_toList] at hpayload
    exact ⟨text, .inr ⟨head, hhead, hrest.symm⟩, hpayload⟩
  · exact ⟨file.toList, .inl rfl, by rw [payload]; simp only [if_neg hcut]⟩

/-- **The base64 text of an archive carries the archive**, whatever blanks are in it and with or
without a head. -/
theorem archiveBytes?_of_spaced {data : List UInt8} (htext : Spaced (Text.Base64.encode data) text)
    (hfile : IsFileOf text file.toList) (name : String) :
    archiveBytes? ⟨file, name⟩ = some data := by
  have hsolid : Text.squeeze (Text.Base64.encode data) = Text.Base64.encode data :=
    filter_eq_self.2 (Text.Base64.forall_mem_encode (by decide) (by decide) data)
  have hcomma : ',' ∉ text := by
    intro hmem
    obtain hmem | hblank := htext.mem hmem
    · exact Text.Base64.forall_mem_encode (P := (· ≠ ',')) (by decide) (by decide) data _ hmem rfl
    · exact absurd hblank (by decide)
  have hpayload : payload ⟨file, name⟩ = Text.squeeze text := by
    obtain hplain | ⟨head, hhead, haddress⟩ := hfile
    · rw [← hplain] at hcomma ⊢
      exact payload_of_not_mem hcomma name
    · rw [← payload_of_head hhead text name, ← haddress, String.ofList_toList]
  rw [archiveBytes?, hpayload, htext.squeeze, hsolid, Text.Base64.decode?_encode]

theorem ne_empty_of_spaced {data : List UInt8} (hdata : data ≠ [])
    (htext : Spaced (Text.Base64.encode data) text) (hfile : IsFileOf text file.toList) :
    file ≠ "" := by
  rintro rfl
  have hback := archiveBytes?_of_spaced htext hfile ""
  exact hdata (Option.some.inj hback).symm

/-- **Uploads survive transport.**  Octets come out of a file with their base64 text, whatever blanks
are put into it and with or without the head of a data address; a request takes such a file unless
it is too long.  The text of a file that octets come out of resembles their base64 text: it differs
at most in its padding and in the bits that its last letter has to spare. -/
theorem upload_survives_transport (file name : String) (data : List UInt8) :
    (data ≠ [] → ∀ text, Spaced (Text.Base64.encode data) text → IsFileOf text file.toList →
        archiveBytes? ⟨file, name⟩ = some data
          ∧ (readFile (some (.str file)) = .ok file ↔ file.length ≤ maxFileLength))
      ∧ (archiveBytes? ⟨file, name⟩ = some data → ∃ text, IsFileOf text file.toList
        ∧ Text.Base64.Resembles (Text.squeeze text) (Text.Base64.encode data)) := by
  refine ⟨fun hdata text htext hfile => ⟨archiveBytes?_of_spaced htext hfile name, ?_⟩, fun h => ?_⟩
  · rw [readFile, if_neg (ne_empty_of_spaced hdata htext hfile)]
    split
    · next hlong => exact iff_of_false (fun h => by cases h) (Nat.not_le.2 hlong)
    · next hfits => exact iff_of_true rfl (Nat.not_lt.1 hfits)
  · obtain ⟨text, hfile, hpayload⟩ := exists_isFileOf file name
    rw [archiveBytes?, hpayload] at h
    exact ⟨text, hfile, Text.Base64.resembles_of_decode? h⟩

/-- One octet, with a blank in front of its padding and behind an empty head. -/
theorem blank_in_address_survives :
    archiveBytes? ⟨"data:,aA ==", "App"⟩ = some [104] ∧ ∃ text, IsFileOf text "data:,aA ==".toList
      ∧ Text.Base64.Resembles (Text.squeeze text) (Text.Base64.encode [104]) := by
  have htext : Spaced (Text.Base64.encode [104]) "aA ==".toList :=
    .char _ (.char _ (.blank (by decide) (.char _ (.char _ .nil))))
  have hbytes := ((upload_survives_transport "data:,aA ==" "App" [104]).1 (by decide) _ htext
    (.inr ⟨[], by decide, by decide⟩)).1
  exact ⟨hbytes, (upload_survives_transport _ _ _).2 hbytes⟩

end Request
end ScreenForge
