/-
# Objects in frames

A descriptor holds an object bare or in a frame, with blanks of any kind around every part:

    blanks  #|  blanks  $JSON  blanks  {...}  blanks  |#  blanks

The object may itself hold anything, the marks of a frame too: a frame is opened at the start of the
text and closed by the last closing mark, and the object is cut out from its first brace to its
last.
-/
import ScreenForge.Descriptor
import ScreenForge.Proofs.Json.Values

namespace ScreenForge

open List

namespace Text

/-! ### The last occurrence of a pattern -/

theorem lastIndexOf?_eq_none {pattern s : List Char} (h : s.length < pattern.length) :
    lastIndexOf? pattern s = none := by
  induction s with
  | nil => rfl
  | cons c rest ih =>
    rw [length_cons] at h
    have hstart : startsWith (c :: rest) pattern = false := by
      rw [Bool.eq_false_iff, startsWith, ne_eq, List.isPrefixOf_iff_prefix]
      intro hprefix
      have hlength := hprefix.length_le
      rw [length_cons] at hlength
      omega
    rw [lastIndexOf?, ih (by omega), hstart]
    rfl

/-- **A pattern at the end of a text is its last occurrence.** -/
theorem lastIndexOf?_append {pattern : List Char} (hpattern : pattern ≠ []) (s : List Char) :
    lastIndexOf? pattern (s ++ pattern) = some s.length := by
  induction s with
  | nil =>
    obtain ⟨c, rest, rfl⟩ := exists_cons_of_ne_nil hpattern
    have hstart : startsWith (c :: rest) (c :: rest) :=
      List.isPrefixOf_iff_prefix.2 (prefix_refl _)
    rw [nil_append, lastIndexOf?, lastIndexOf?_eq_none (by simp), hstart]
    rfl
  | cons c rest ih => rw [cons_append, lastIndexOf?, ih, length_cons]

end Text

namespace Descriptor

open Text (Blank isBlank)

/-- A text that starts and ends with braces. -/
structure IsObject (object : List Char) : Prop where
  first : object.head? = some '\x7b'
  last : object.getLast? = some '\x7d'

/-- **The texts that hold an object**: blanks and the object, or a frame around it. -/
inductive Holds (object : List Char) : List Char → Prop where
  | bare {before after : List Char} (hbefore : Blank before) (hafter : Blank after) :
    Holds object (before ++ (object ++ after))
  | framed {before inside behind below after : List Char} (hbefore : Blank before)
    (hinside : Blank inside) (hbehind : Blank behind) (hbelow : Blank below)
    (hafter : Blank after) :
    Holds object (before ++ (frameOpen ++ (inside ++ (marker ++ (behind ++ (object ++ below))))
      ++ frameClose ++ after))

theorem blank_nil : Blank [] := fun _ hc => absurd hc not_mem_nil

theorem holds_self (object : String) : Holds object.toList object.toList := by
  have h : Holds object.toList ([] ++ (object.toList ++ [])) := .bare blank_nil blank_nil
  rwa [nil_append, append_nil] at h

/-- An object in a frame, one part a line. -/
def framed (object : String) : String := "#|\n$JSON\n" ++ object ++ "\n|#"

theorem holds_framed (object : String) : Holds object.toList (framed object).toList := by
  have hbreak : Blank ['\n'] := fun c hc => by rw [mem_singleton.1 hc]; rfl
  have hparts : (framed object).toList = [] ++ (frameOpen ++ (['\n'] ++ (marker ++ (['\n']
      ++ (object.toList ++ ['\n'])))) ++ frameClose ++ []) := by
    rw [framed, String.toList_append, String.toList_append]
    simp [frameOpen, marker, frameClose]
  rw [hparts]
  exact .framed blank_nil hbreak hbreak hbreak blank_nil

variable {object : List Char}

theorem IsObject.stripChars (h : IsObject object) {before after : List Char}
    (hbefore : Blank before) (hafter : Blank after) :
    Text.stripChars (before ++ (object ++ after)) = object :=
  Text.stripChars_append hbefore hafter h.first h.last rfl rfl

theorem unframe?_bare (h : IsObject object) : unframe? object = some object := by
  have hstart : Text.startsWith object frameOpen = false := by
    cases object with
    | nil => rfl
    | cons c rest =>
      obtain rfl : c = '\x7b' := Option.some.inj h.first
      rfl
  rw [unframe?, hstart]
  rfl

theorem unframe?_frame (body : List Char) :
    unframe? (frameOpen ++ body ++ frameClose)
      = some (if Text.startsWith (Text.stripChars body) marker
        then Text.stripChars ((Text.stripChars body).drop marker.length)
        else Text.stripChars body) := by
  have hopen : Text.startsWith (frameOpen ++ body ++ frameClose) frameOpen := by
    rw [append_assoc]
    exact List.isPrefixOf_iff_prefix.2 (prefix_append _ _)
  have hclose : Text.lastIndexOf? frameClose (frameOpen ++ body ++ frameClose)
      = some (frameOpen ++ body).length := Text.lastIndexOf?_append (by decide) _
  simp only [unframe?, hopen, hclose, take_left, drop_left, if_true]

/-- An object in a frame is taken out of it. -/
theorem unframe?_framed (h : IsObject object) {inside behind below : List Char}
    (hinside : Blank inside) (hbehind : Blank behind) (hbelow : Blank below) :
    unframe? (frameOpen ++ (inside ++ (marker ++ (behind ++ (object ++ below)))) ++ frameClose)
      = some object := by
  have hlast : (marker ++ (behind ++ object)).getLast? = some '\x7d' := by
    rw [List.getLast?_append, List.getLast?_append, h.last]
    rfl
  have hinner : Text.stripChars (inside ++ (marker ++ (behind ++ (object ++ below))))
      = marker ++ (behind ++ object) := by
    rw [← append_assoc behind, ← append_assoc marker]
    exact Text.stripChars_append hinside hbelow rfl hlast rfl rfl
  have hmark : Text.startsWith (marker ++ (behind ++ object)) marker :=
    List.isPrefixOf_iff_prefix.2 (prefix_append _ _)
  have hobject : Text.stripChars (behind ++ object) = object := by
    have hstrip := h.stripChars hbehind blank_nil
    rwa [append_nil] at hstrip
  rw [unframe?_frame, hinner, hmark, if_pos rfl, drop_left, hobject]

/-- What is taken out is cut from its first brace to its last. -/
theorem boundaries?_of_unframe? (h : IsObject object) {text : List Char}
    (htext : unframe? text = some object) :
    boundaries? text = some (object, 0, object.length) := by
  have hfirst : Text.indexOf? ['\x7b'] object = some 0 := by
    cases object with
    | nil => cases h.first
    | cons c rest =>
      obtain rfl : c = '\x7b' := Option.some.inj h.first
      rfl
  obtain ⟨front, hfront⟩ := List.getLast?_eq_some_iff.1 h.last
  have hlast : Text.lastIndexOf? ['\x7d'] object = some front.length := by
    rw [hfront]
    exact Text.lastIndexOf?_append (by decide) front
  have hlength : object.length = front.length + 1 := by
    rw [hfront, length_append]
    rfl
  simp only [boundaries?, htext, hfirst, hlast, hlength, Nat.not_lt_zero, if_false]

/-- **An object is all that is cut out of a text that holds it**, once the blanks around the text
are gone. -/
theorem boundaries?_of_holds (h : IsObject object) {text : List Char} (htext : Holds object text) :
    boundaries? (Text.stripChars text) = some (object, 0, object.length) := by
  refine boundaries?_of_unframe? h ?_
  cases htext with
  | bare hbefore hafter =>
    rw [h.stripChars hbefore hafter]
    exact unframe?_bare h
  | framed hbefore hinside hbehind hbelow hafter =>
    have hend : ∀ s : List Char, (s ++ frameClose).getLast? = some '#' := fun s => by
      rw [List.getLast?_append]
      rfl
    rw [Text.stripChars_append hbefore hafter rfl (hend _) rfl rfl]
    exact unframe?_framed h hinside hbehind hbelow

/-- **An object is found in every text that holds it.** -/
theorem objectText?_of_holds (h : IsObject object) {text : String}
    (htext : Holds object text.toList) : objectText? text = some object := by
  rw [objectText?, boundaries?_of_holds h htext]
  show some ((object.take object.length).drop 0) = some object
  rw [take_length, drop_zero]

/-! ### Reading what is found -/

variable {text : String} {repair : Bool}

/-- What can be read as it stands is not repaired. -/
theorem extract_of_ok {members : List (String × Json)} (h : objectText? text = some object)
    (hread : Json.readWith Json.strict (object.map some) = .ok (.obj members)) :
    extract text repair = .ok ⟨members, none⟩ := by
  simp only [extract, h, hread]
  rfl

/-- **A repaired copy is told apart** from a text that could be read. -/
theorem repaired_of_error {e : Json.ReadError} {found : Extract} (h : objectText? text = some object)
    (hread : Json.readWith Json.strict (object.map some) = .error e)
    (hfound : extract text repair = .ok found) : found.repaired ≠ none := by
  simp only [extract, h, hread] at hfound
  split at hfound
  · unfold membersOf at hfound
    split at hfound
    · obtain rfl := Except.ok.inj hfound
      exact nofun
    · cases hfound
  · cases hfound

/-- **What is read without repair is read alike with it.** -/
theorem extract_repair_of_ok {found : Extract} (h : extract text false = .ok found) :
    extract text true = .ok found ∧ found.repaired = none := by
  unfold extract at h ⊢
  cases hobject : objectText? text with
  | none =>
    rw [hobject] at h
    cases h
  | some body =>
    rw [hobject] at h
    cases hread : Json.readWith Json.strict (body.map some) with
    | error e =>
      simp only [hread] at h
      cases h
    | ok v =>
      simp only [hread] at h ⊢
      refine ⟨h, ?_⟩
      unfold membersOf at h
      split at h
      · rw [← Except.ok.inj h]
      · cases h

/-- **A frame is transparent.**  Whatever starts and ends with its braces, the marks of a frame and
other braces among it, is all that is cut out of a frame around it, as it is where it stands bare;
so the frame does not change what is read.  And a reader that would repair a damaged text reads
one that is not damaged as a reader that would not, and reports no repair. -/
theorem frame_transparent (h : IsObject object) {before inside behind below after : List Char}
    (hbefore : Blank before) (hinside : Blank inside) (hbehind : Blank behind)
    (hbelow : Blank below) (hafter : Blank after) :
    let framed := before ++ frameOpen ++ inside ++ marker ++ behind ++ object ++ below
      ++ frameClose ++ after
    boundaries? (Text.stripChars framed) = some (object, 0, object.length)
      ∧ boundaries? object = some (object, 0, object.length)
      ∧ objectText? (String.ofList framed) = some object
      ∧ (∀ repair, extract (String.ofList framed) repair = extract (String.ofList object) repair)
      ∧ ∀ text found, extract text false = .ok found →
        extract text true = .ok found ∧ found.repaired = none := by
  intro framed
  have hframed : Holds object framed := by
    have hholds : Holds object (before ++ (frameOpen ++ (inside ++ (marker ++ (behind
        ++ (object ++ below)))) ++ frameClose ++ after)) :=
      .framed hbefore hinside hbehind hbelow hafter
    simpa only [framed, append_assoc] using hholds
  have hbare := holds_self (String.ofList object)
  rw [String.toList_ofList] at hbare
  have hfound : ∀ text, Holds object text → objectText? (String.ofList text) = some object := by
    intro text htext
    rw [← String.toList_ofList (l := text)] at htext
    exact objectText?_of_holds h htext
  refine ⟨boundaries?_of_holds h hframed, boundaries?_of_unframe? h (unframe?_bare h),
    hfound _ hframed, ?_, ?_⟩
  · intro repair
    rw [extract, extract, hfound _ hframed, hfound _ hbare]
  · exact fun text found => extract_repair_of_ok

/-- An object with both marks of a frame, the marker and braces in its one text. -/
def tangledObject : List Char :=
  ['\x7b', '"', 'a', '"', ':', '"', '|', '#', '\x7d', '#', '|', '$', 'J', 'S', 'O', 'N', '\x7b',
    '"', '\x7d']

/-- **The object is found behind blanks of many kinds**, next to the marks of its frame, and read. -/
theorem tangled_object_found :
    IsObject tangledObject
      ∧ boundaries? (Text.stripChars (['\t', ' '] ++ frameOpen ++ ['\n'] ++ marker ++ ['\u2003']
        ++ tangledObject ++ [] ++ frameClose ++ ['\u00a0']))
        = some (tangledObject, 0, tangledObject.length)
      ∧ extract (String.ofList (['\t', ' '] ++ frameOpen ++ ['\n'] ++ marker ++ ['\u2003']
        ++ tangledObject ++ [] ++ frameClose ++ ['\u00a0'])) true
        = extract (String.ofList tangledObject) true := by
  have hobject : IsObject tangledObject := ⟨rfl, rfl⟩
  have hblank : ∀ s : List Char, s.all isBlank → Blank s := fun s => all_eq_true.1
  obtain ⟨hfound, -, -, hread, -⟩ := frame_transparent hobject (hblank ['\t', ' '] rfl)
    (hblank ['\n'] rfl) (hblank ['\u2003'] rfl) blank_nil (hblank ['\u00a0'] rfl)
  exact ⟨hobject, hfound, hread true⟩

/-! ### Limits -/

theorem checkSize_eq_ok_iff {text name : String} {limit : Int} :
    checkSize text limit name = .ok () ↔ (text.utf8ByteSize : Int) ≤ limit := by
  unfold checkSize
  split
  · next h => exact ⟨fun hok => (nomatch hok), fun hle => absurd hle (by omega)⟩
  · next h => exact ⟨fun _ => by omega, fun _ => rfl⟩

theorem checkDepth_eq_ok_iff {v : Json} {limit depth : Int} :
    checkDepth v limit depth = .ok () ↔ depth + v.height ≤ limit := by
  rw [← Json.tooDeep?_eq_none_iff]
  unfold checkDepth
  cases v.tooDeep? limit depth with
  | none => exact ⟨fun _ => rfl, fun _ => rfl⟩
  | some d => exact ⟨fun hok => (nomatch hok), fun h => (nomatch h)⟩

end Descriptor
end ScreenForge
