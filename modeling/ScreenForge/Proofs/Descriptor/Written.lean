/-
# Objects written and extracted

| indentation | whole numbers | style |
| --- | --- | --- |
| none | all within 64 bits | `compact` |
| none | some beyond | `ascii` |
| two | all within 64 bits | `indented` |

The table is for objects that nest no deeper than a data file may.  Whatever the style, the text
starts and ends with the braces of the object, so all of it is cut out.
-/
import ScreenForge.Proofs.Descriptor.Frame
import ScreenForge.Proofs.Json.Readback

namespace ScreenForge

open List

namespace Json

/-! ### What a data file can hold -/

mutual

/-- How many containers stand inside one another. -/
def nesting : Json → Nat
  | .arr items => nestingItems items + 1
  | .obj members => nestingMembers members + 1
  | _ => 0

/-- The greatest `nesting` of the items of a list. -/
def nestingItems : List Json → Nat
  | [] => 0
  | v :: rest => max (nesting v) (nestingItems rest)

/-- The greatest `nesting` of the members of an object. -/
def nestingMembers : List (String × Json) → Nat
  | [] => 0
  | (_, v) :: rest => max (nesting v) (nestingMembers rest)

end

/-- A whole number is within 64 bits, with or without a sign; other values are. -/
def IsData : Json → Prop
  | .int n => -0x8000000000000000 ≤ n ∧ n ≤ 0xFFFFFFFFFFFFFFFF
  | _ => True

variable {room : Nat}

theorem nestingItems_le_iff (items : List Json) :
    nestingItems items ≤ room ↔ ∀ v ∈ items, v.nesting ≤ room := by
  induction items with
  | nil => simp [nestingItems]
  | cons v rest ih => rw [nestingItems, Nat.max_le, ih, forall_mem_cons]

theorem nestingMembers_eq (members : List (String × Json)) :
    nestingMembers members = nestingItems (members.map Prod.snd) := by
  induction members with
  | nil => rfl
  | cons m rest ih => rw [nestingMembers, map_cons, nestingItems, ih]

theorem itemsFitIn_iff (items : List Json) :
    itemsFitIn room items ↔ ∀ v ∈ items, fitsIn room v := by
  induction items with
  | nil => simp [itemsFitIn]
  | cons v rest ih => rw [itemsFitIn, Bool.and_eq_true, ih, forall_mem_cons]

theorem membersFitIn_eq (members : List (String × Json)) :
    membersFitIn room members = itemsFitIn room (members.map Prod.snd) := by
  induction members with
  | nil => rfl
  | cons m rest ih => rw [membersFitIn, map_cons, itemsFitIn, ih]

/-- A container fits if there is room for it, and for its parts in what it leaves. -/
theorem partsFitIn_iff {items : List Json}
    (h : ∀ v ∈ items, fitsIn (room - 1) v ↔ v.nesting ≤ room - 1 ∧ v.Throughout IsData) :
    (room != 0 && itemsFitIn (room - 1) items)
      ↔ nestingItems items + 1 ≤ room ∧ ∀ v ∈ items, v.Throughout IsData := by
  rw [Bool.and_eq_true, bne_iff_ne, itemsFitIn_iff, forall₂_congr h]
  constructor
  · rintro ⟨hroom, hitems⟩
    have hnesting := (nestingItems_le_iff items).2 fun v hv => (hitems v hv).1
    exact ⟨by omega, fun v hv => (hitems v hv).2⟩
  · rintro ⟨hnesting, hitems⟩
    have hparts := (nestingItems_le_iff items).1 (show nestingItems items ≤ room - 1 by omega)
    exact ⟨by omega, fun v hv => ⟨hparts v hv, hitems v hv⟩⟩

/-- **A value fits a data file exactly if it nests no deeper than there is room, and all its whole
numbers are within 64 bits.** -/
theorem fitsIn_iff (room : Nat) (v : Json) :
    fitsIn room v ↔ v.nesting ≤ room ∧ v.Throughout IsData := by
  induction v using inductParts generalizing room with
  | h v inside =>
    cases v with
    | arr items =>
      rw [fitsIn, nesting, throughout_arr, and_iff_right (show IsData (.arr items) from trivial)]
      exact partsFitIn_iff fun u hu => inside u hu _
    | obj members =>
      rw [fitsIn, nesting, membersFitIn_eq, nestingMembers_eq, throughout_obj,
        and_iff_right (show IsData (.obj members) from trivial),
        ← forall_mem_map (f := Prod.snd)]
      exact partsFitIn_iff fun u hu => inside u hu _
    | int n =>
      rw [fitsIn, isDataInt, Bool.and_eq_true, decide_eq_true_eq, decide_eq_true_eq]
      show _ ↔ 0 ≤ room ∧ -0x8000000000000000 ≤ n ∧ n ≤ 0xFFFFFFFFFFFFFFFF
      omega
    | null | bool | float | str => simp [fitsIn, nesting, Throughout, IsData]

/-- A whole number within 64 bits has at most twenty digits. -/
theorem isShort_of_isData {v : Json} (h : IsData v) : IsShort v := by
  cases v with
  | int n =>
    obtain ⟨hlow, hhigh⟩ := h
    have hdigits : (Nat.toDigits 10 n.natAbs).length ≤ 20 := by
      rw [Nat.length_toDigits_le_iff (by decide) (by decide)]
      show n.natAbs < 100000000000000000000
      omega
    have hlength : (intChars n).length ≤ 21 := by
      unfold intChars
      split
      · rw [length_cons]
        omega
      · omega
    exact Nat.le_trans hlength (by decide)
  | null | bool | float | str | arr | obj => trivial

/-- A negative number with as many digits as a number may have characters is too long. -/
theorem not_isShort_neg {n : Nat} (h : (Nat.toDigits 10 n).length = maxNumeral) :
    ¬ IsShort (.int (-n)) := by
  have hn : 0 < n := by
    rcases Nat.eq_zero_or_pos n with rfl | hn
    · exact absurd h (by decide)
    · exact hn
  intro hshort
  have hlength : (intChars (-(n : Int))).length ≤ maxNumeral := hshort
  rw [intChars, if_pos (by omega), length_cons, Int.natAbs_neg, Int.natAbs_natCast, h] at hlength
  omega

/-! ### The style of a text -/

variable {v : Json}

theorem dump?_zero (v : Json) :
    dump? 0 v = some (render (if fitsData v then compact else ascii none) v) := by
  unfold dump?
  cases fitsData v with
  | true => rfl
  | false => rfl

theorem dump?_two (v : Json) :
    dump? 2 v = if fitsData v then some (render indented v) else none := by
  unfold dump?
  rw [if_neg (fun h => absurd h.1 (by decide)), if_pos rfl]

/-- Whatever is written is written in a readable style. -/
theorem exists_style_of_dump? {text : String} (h : dump? 0 v = some text) :
    ∃ style : Style, style.IsReadable ∧ text.toList = write style 0 v := by
  rw [dump?_zero] at h
  obtain rfl := Option.some.inj h
  refine ⟨_, ?_, by rw [render, String.toList_ofList]⟩
  split
  · exact isReadable_compact
  · exact isReadable_ascii none

end Json

namespace Descriptor

open Json (Style write dump? render compact indented ascii IsPlain IsShort IsData)

/-! ### Extracting what was written -/

variable {members : List (String × Json)} {style : Style}

theorem isObject_write (style : Style) (depth : Nat) (members : List (String × Json)) :
    IsObject (write style depth (.obj members)) := by
  cases members with
  | nil => exact ⟨rfl, rfl⟩
  | cons m rest =>
    refine ⟨rfl, ?_⟩
    obtain ⟨name, v⟩ := m
    rw [write, ← cons_append, List.getLast?_append]
    rfl

/-- **What is extracted from the text of a plain object**: the object if its whole numbers are
short, and otherwise nothing or a repaired copy. -/
theorem extract_written (hstyle : style.IsReadable) (hplain : (Json.obj members).Throughout IsPlain)
    {text : String} (htext : Holds (write style 0 (.obj members)) text.toList) (repair : Bool) :
    ((Json.obj members).Throughout IsShort → extract text repair = .ok ⟨members, none⟩)
      ∧ (¬ (Json.obj members).Throughout IsShort →
        ∀ found, extract text repair = .ok found → found.repaired ≠ none) := by
  have hfound := objectText?_of_holds (isObject_write style 0 members) htext
  refine ⟨fun hshort => extract_of_ok hfound ((Json.readWith_write_iff hstyle hplain).2 ⟨hshort, rfl⟩),
    fun hlong found hgiven => ?_⟩
  cases hread : Json.readWith Json.strict ((write style 0 (.obj members)).map some) with
  | error e => exact repaired_of_error hfound hread hgiven
  | ok w => exact absurd ((Json.readWith_write_iff hstyle hplain).1 hread).1 hlong

/-- It is read back if the texts of its whole numbers are short enough. -/
theorem extract_render_iff (hstyle : style.IsReadable)
    (hplain : (Json.obj members).Throughout IsPlain) (repair : Bool) :
    extract (render style (.obj members)) repair = .ok ⟨members, none⟩
      ↔ (Json.obj members).Throughout IsShort := by
  have hchars : (render style (.obj members)).toList = write style 0 (.obj members) := by
    rw [render, String.toList_ofList]
  have htext : Holds (write style 0 (.obj members)) (render style (.obj members)).toList := by
    rw [← hchars]
    exact holds_self _
  obtain ⟨hshort, hlong⟩ := extract_written hstyle hplain htext repair
  refine ⟨fun h => ?_, hshort⟩
  by_contra hnot
  exact hlong hnot _ h rfl

/-- **An object is extracted from its text as it was written**, with its members in order, exactly
if the texts of its whole numbers are short enough.  Without indentation the text is compact if the
whole numbers are within 64 bits and escaped otherwise; with an indentation of two they have to be
within 64 bits, and then they are short. -/
theorem object_extracted_iff_short (hplain : (Json.obj members).Throughout IsPlain)
    (hnesting : (Json.obj members).nesting ≤ Json.maxNesting) (repair : Bool) :
    (∃ text, dump? 0 (.obj members) = some text
        ∧ ((Json.obj members).Throughout IsData → text = render compact (.obj members))
        ∧ (¬ (Json.obj members).Throughout IsData → text = render (ascii none) (.obj members))
        ∧ (extract text repair = .ok ⟨members, none⟩ ↔ (Json.obj members).Throughout IsShort))
      ∧ ((Json.obj members).Throughout IsData →
        ∃ text, dump? 2 (.obj members) = some text ∧ text = render indented (.obj members)
          ∧ extract text repair = .ok ⟨members, none⟩) := by
  have hfits : Json.fitsData (.obj members) ↔ (Json.obj members).Throughout IsData :=
    (Json.fitsIn_iff _ _).trans (and_iff_right hnesting)
  constructor
  · refine ⟨_, Json.dump?_zero _, fun hdata => ?_, fun hdata => ?_, ?_⟩
    · rw [if_pos (hfits.2 hdata)]
    · rw [if_neg fun h => hdata (hfits.1 h)]
    · split
      · exact extract_render_iff Json.isReadable_compact hplain repair
      · exact extract_render_iff (Json.isReadable_ascii none) hplain repair
  · intro hdata
    refine ⟨_, ?_, rfl, ?_⟩
    · rw [Json.dump?_two, if_pos (hfits.2 hdata)]
    · exact (extract_render_iff Json.isReadable_indented hplain repair).2
        (hdata.imp fun _ => Json.isShort_of_isData)

/-- An object with a whole number in a list, and a name and a text that have to be escaped. -/
def mixedMembers (n : Int) : List (String × Json) :=
  [("z", .arr [.null, .bool true, .int n]), ("\"\\\n", .obj [("", .str "\x01é😀")])]

theorem plain_mixedMembers (n : Int) : (Json.obj (mixedMembers n)).Throughout IsPlain := by
  simp [Json.Throughout, Json.ThroughoutItems, Json.ThroughoutMembers, IsPlain, Assoc.keys,
    mixedMembers]

/-- **The object is extracted with a number beyond 64 bits**, from the escaped text, **and with one
within them**, from the indented text. -/
theorem mixed_members_extracted :
    (Json.obj (mixedMembers 0x10000000000000000)).Throughout IsPlain
      ∧ (Json.obj (mixedMembers 0x10000000000000000)).nesting ≤ Json.maxNesting
      ∧ extract (render (ascii none) (.obj (mixedMembers 0x10000000000000000)))
        = .ok ⟨mixedMembers 0x10000000000000000, none⟩
      ∧ extract (render indented (.obj (mixedMembers (-1)))) = .ok ⟨mixedMembers (-1), none⟩ := by
  have hdata : ∀ n, (Json.obj (mixedMembers n)).Throughout IsData ↔ IsData (.int n) := by
    simp [Json.Throughout, Json.ThroughoutItems, Json.ThroughoutMembers, IsData, mixedMembers]
  have hshort : ∀ n, (Json.obj (mixedMembers n)).Throughout IsShort ↔ IsShort (.int n) := by
    simp [Json.Throughout, Json.ThroughoutItems, Json.ThroughoutMembers, IsShort, mixedMembers]
  have hnesting : ∀ n, (Json.obj (mixedMembers n)).nesting ≤ Json.maxNesting := fun n => by
    show 2 ≤ 254
    decide
  obtain ⟨⟨text, -, -, hescaped, hextract⟩, -⟩ :=
    object_extracted_iff_short (plain_mixedMembers 0x10000000000000000) (hnesting _) false
  obtain ⟨-, hindented⟩ := object_extracted_iff_short (plain_mixedMembers (-1)) (hnesting _) false
  obtain ⟨other, -, rfl, hother⟩ := hindented ((hdata _).2 ⟨by decide, by decide⟩)
  obtain rfl := hescaped fun h => absurd ((hdata _).1 h).2 (by decide)
  refine ⟨plain_mixedMembers _, hnesting _, hextract.2 ((hshort _).2 ?_), hother⟩
  show (Json.intChars 0x10000000000000000).length ≤ Json.maxNumeral
  decide

/-- An object with a whole number as its only member. -/
def numberMembers (n : Int) : List (String × Json) := [("n", .int n)]

theorem plain_numberMembers (n : Int) : (Json.obj (numberMembers n)).Throughout IsPlain :=
  ⟨nodup_cons.2 ⟨not_mem_nil, nodup_nil⟩, trivial, trivial⟩

/-- The sign counts: a negative number may have one digit less than the others. -/
theorem not_extracted_of_digits {n : Nat} (h : (Nat.toDigits 10 n).length = Json.maxNumeral) :
    ∃ text, dump? 0 (.obj (numberMembers (-n))) = some text
      ∧ ∀ repair, extract text repair ≠ .ok ⟨numberMembers (-n), none⟩ := by
  have hplain := plain_numberMembers (-n)
  have hlong : ¬ (Json.obj (numberMembers (-n))).Throughout IsShort :=
    fun hshort => Json.not_isShort_neg h hshort.2.1
  refine ⟨_, Json.dump?_zero _, fun repair hextract => hlong ?_⟩
  split at hextract
  · exact (extract_render_iff Json.isReadable_compact hplain repair).1 hextract
  · exact (extract_render_iff (Json.isReadable_ascii none) hplain repair).1 hextract

/-- The least number with so many digits. -/
def leastNumber (digits : Nat) : Nat := Nat.pow 10 (digits - 1)

theorem length_leastNumber {digits : Nat} (h : 1 < digits) :
    (Nat.toDigits 10 (leastNumber digits)).length = digits := by
  rw [leastNumber, Json.length_toDigits_pow (by omega)]
  omega

/-- **A negative number of 4300 digits is not extracted again**: its text has one character more
than a number may have. -/
theorem long_negative_number_not_extracted :
    (Json.obj (numberMembers (-leastNumber 4300))).Throughout IsPlain
      ∧ (Json.obj (numberMembers (-leastNumber 4300))).nesting ≤ Json.maxNesting
      ∧ (Nat.toDigits 10 (leastNumber 4300)).length = 4300
      ∧ ∃ text, dump? 0 (.obj (numberMembers (-leastNumber 4300))) = some text
        ∧ ∀ repair, extract text repair ≠ .ok ⟨numberMembers (-leastNumber 4300), none⟩ := by
  have hdigits : (Nat.toDigits 10 (leastNumber 4300)).length = 4300 :=
    length_leastNumber (by decide)
  refine ⟨plain_numberMembers _, ?_, hdigits, not_extracted_of_digits hdigits⟩
  show 1 ≤ 254
  decide

end Descriptor
end ScreenForge
