/-
# Skipped entries leave no trace but their defects

To delete the entry at an address is to take it out of the list that holds it (`without`); all other
members of all entries around stay as they are (`mapListed`).  A deletion changes one list at each
level on the way down, and there one entry, which goes or gives way to one that is changed further
inside.
-/
import ScreenForge.Proofs.Layout.Survey

namespace ScreenForge
namespace Layout

open List
open Component (Node Scalar)
open Journal (Entry notes settle)

/-! ### Deleting an entry -/

/-- A value with the items of its list changed, if it is a list. -/
def mapItems (f : List Json → List Json) : Json → Json
  | .arr items => .arr (f items)
  | v => v

/-- An entry with the list of those inside it changed, if there is one. -/
def mapListed (f : List Json → List Json) : List (String × Json) → List (String × Json)
  | [] => []
  | m :: rest =>
    if m.1 = childrenKey then (m.1, mapItems f m.2) :: rest else m :: mapListed f rest

/-- An entry without the one at an address inside it. -/
def without : List Nat → Json → Json
  | [i], .obj members => .obj (mapListed (fun items => items.eraseIdx i) members)
  | i :: j :: address, .obj members =>
    .obj (mapListed (fun items => items.modify i (without (j :: address))) members)
  | _, v => v

section Edited

variable (f : List Json → List Json) (members : List (String × Json))

/-- The first list of entries is changed in its place, if there is one. -/
theorem mapListed_cases :
    (members.lookup childrenKey = none ∧ mapListed f members = members)
      ∨ ∃ front v back, members = front ++ (childrenKey, v) :: back
        ∧ front.lookup childrenKey = none
        ∧ mapListed f members = front ++ (childrenKey, mapItems f v) :: back := by
  induction members with
  | nil => exact .inl ⟨rfl, rfl⟩
  | cons m rest ih =>
    obtain ⟨key, v⟩ := m
    rw [mapListed]
    split
    · next hkey =>
      obtain rfl : key = childrenKey := hkey
      exact .inr ⟨[], v, rest, rfl, rfl, rfl⟩
    · next hkey =>
      have hother : ∀ rest : List (String × Json),
          ((key, v) :: rest).lookup childrenKey = rest.lookup childrenKey := fun rest => by
        rw [lookup_cons, beq_false_of_ne (Ne.symm hkey)]
      rcases ih with ⟨hnone, heq⟩ | ⟨front, u, back, rfl, hnone, heq⟩
      · exact .inl ⟨(hother rest).trans hnone, by rw [heq]⟩
      · exact .inr ⟨(key, v) :: front, u, back, rfl, (hother front).trans hnone, by rw [heq]; rfl⟩

theorem lookup_mapListed_of_ne {key : String} (h : key ≠ childrenKey) :
    (mapListed f members).lookup key = members.lookup key := by
  rcases mapListed_cases f members with ⟨-, heq⟩ | ⟨front, v, back, rfl, -, heq⟩
  · rw [heq]
  · rw [heq, lookup_append, lookup_append, lookup_cons, lookup_cons, beq_false_of_ne h]

theorem lookup_mapListed :
    (mapListed f members).lookup childrenKey
      = (members.lookup childrenKey).map (mapItems f) := by
  rcases mapListed_cases f members with ⟨hnone, heq⟩ | ⟨front, v, back, rfl, hnone, heq⟩
  · rw [heq, hnone, Option.map_none]
  · rw [heq, lookup_append, lookup_append, hnone, lookup_cons_self, lookup_cons_self]
    rfl

/-- What is picked among the members that do not describe the tree stays. -/
theorem filter_mapListed {p : String × Json → Bool}
    (h : ∀ m : String × Json, m.1 = childrenKey → p m = false) :
    (mapListed f members).filter p = members.filter p := by
  rcases mapListed_cases f members with ⟨-, heq⟩ | ⟨front, v, back, rfl, -, heq⟩
  · rw [heq]
  · rw [heq, filter_append, filter_append, filter_cons, filter_cons, h _ rfl, h _ rfl]
    rfl

variable {f}

theorem listed_mapListed (hf : f [] = []) : listed (mapListed f members) = f (listed members) := by
  rw [listed, listed, lookup_mapListed]
  cases members.lookup childrenKey with
  | none => exact hf.symm
  | some v =>
    cases v with
    | arr items => rfl
    | _ => exact hf.symm

variable (f)

theorem isStray_mapListed : isStray (mapListed f members) = isStray members := by
  rw [isStray, isStray, lookup_mapListed]
  cases members.lookup childrenKey with
  | none => rfl
  | some v => cases v <;> rfl

theorem nameOf_mapListed : nameOf (mapListed f members) = nameOf members := by
  rw [nameOf, nameOf, givenName?, givenName?, lookup_mapListed_of_ne f members (by decide)]

theorem propertiesOf_mapListed : propertiesOf (mapListed f members) = propertiesOf members := by
  refine (eq_propertiesOf_iff.1 ?_).symm
  rw [toJson_propertiesOf, proper, proper, filter_mapListed]
  intro m hm
  rw [hm]
  rfl

theorem misfits_mapListed : misfits (mapListed f members) = misfits members := by
  rw [misfits, misfits, filter_mapListed]
  intro m hm
  rw [hm]
  rfl

/-- What is said of a component does not depend on what it lists. -/
theorem remarks_mapListed (type : String) :
    remarks type (mapListed f members) = remarks type members := by
  rw [remarks, remarks, nameOf_mapListed, misfits_mapListed, isStray_mapListed]

end Edited

variable {members : List (String × Json)} {p : Place}

/-- A component that lists nothing higher is not higher. -/
theorem heightMembers_mapListed_le {f : List Json → List Json}
    (h : Json.heightItems (f (listed members)) ≤ Json.heightItems (listed members)) :
    Json.heightMembers (mapListed f members) ≤ Json.heightMembers members := by
  rcases mapListed_cases f members with ⟨-, heq⟩ | ⟨front, v, back, rfl, hnone, heq⟩
  · exact Nat.le_of_eq (by rw [heq])
  · rw [listed, lookup_append, hnone, lookup_cons_self] at h
    have hle : (mapItems f v).height ≤ v.height := by
      cases v with
      | arr items => exact h
      | _ => exact Nat.le_refl _
    simp only [heq, Json.heightMembers_eq, map_append, map_cons, Json.heightItems_append,
      Json.heightItems]
    omega

/-- What is said about listed entries and those inside them, in order. -/
def notesAll (owner : String) (items : List Json) : List Diagnostic :=
  items.flatMap fun v => notes (Place.reading ⟨some owner, v⟩)

/-- The report of a component is what is said of it, and then of what it lists. -/
theorem notes_reading_obj {type : String} (h : IsTyped members type) (owner : Option String) :
    notes (Place.reading ⟨owner, .obj members⟩)
      = remarks type members ++ notesAll (label type (nameOf members)) (listed members) := by
  rw [notes_reading_eq]
  simp only [Place.report, Place.inside, typeOf?_eq_some_iff.2 h, flatMap_map, notesAll]

/-- What stands inside an entry is listed by a component. -/
theorem exists_listed_of_inside {c : Place} {i : Nat} (h : p.inside[i]? = some c) :
    ∃ members type v, p.entry = .obj members ∧ IsTyped members type
      ∧ (listed members)[i]? = some v ∧ c = ⟨some (label type (nameOf members)), v⟩ := by
  rw [Place.inside] at h
  split at h
  · next members hentry =>
    split at h
    · next type htype =>
      rw [List.getElem?_map, Option.map_eq_some_iff] at h
      obtain ⟨v, hv, rfl⟩ := h
      exact ⟨members, type, v, hentry, typeOf?_eq_some_iff.1 htype, hv, rfl⟩
    · cases h
  · cases h

theorem exists_cut {items : List Json} {i : Nat} {v : Json} (h : items[i]? = some v) :
    ∃ front back, items = front ++ v :: back ∧ front.length = i := by
  obtain ⟨hlt, rfl⟩ := List.getElem?_eq_some_iff.1 h
  refine ⟨items.take i, items.drop (i + 1), ?_, length_take_of_le (Nat.le_of_lt hlt)⟩
  rw [getElem_cons_drop, take_append_drop]

theorem eraseIdx_cut (front : List Json) (v : Json) (back : List Json) :
    (front ++ v :: back).eraseIdx front.length = front ++ [] ++ back := by
  rw [eraseIdx_append_of_length_le (Nat.le_refl _), Nat.sub_self, append_nil]
  rfl

theorem modify_cut (front : List Json) (v : Json) (back : List Json) (g : Json → Json) :
    (front ++ v :: back).modify front.length g = front ++ [g v] ++ back := by
  induction front with
  | nil => rfl
  | cons u front ih => exact congrArg (u :: ·) ih

/-- **One step of a deletion.**  If one of the entries that a component lists gives way to others,
none or one, that hold the same components and say the same but for some part, then the whole
component holds the same components and says the same but for that part. -/
theorem reading_splice {type : String} (htype : IsTyped members type) (owner : Option String)
    {front middle back : List Json} {v : Json} (hlisted : listed members = front ++ v :: back)
    {f : List Json → List Json} (hf : f [] = [])
    (hmiddle : f (front ++ v :: back) = front ++ middle ++ back)
    (hnodes : nodesOf middle = nodesOf [v]) (hheight : Json.heightItems middle ≤ v.height + 1)
    {before said after : List Diagnostic}
    (hsaid : notesAll (label type (nameOf members)) [v] = before ++ said ++ after)
    (hleft : notesAll (label type (nameOf members)) middle = before ++ after) :
    nodeOf? (.obj (mapListed f members)) = nodeOf? (.obj members)
      ∧ (Json.obj (mapListed f members)).height ≤ (Json.obj members).height
      ∧ ∃ before after, notes (Place.reading ⟨owner, .obj members⟩) = before ++ said ++ after
        ∧ notes (Place.reading ⟨owner, .obj (mapListed f members)⟩) = before ++ after := by
  have htype' : IsTyped (mapListed f members) type := by
    rwa [← typeOf?_eq_some_iff, typeOf?, lookup_mapListed_of_ne f members (by decide), ← typeOf?,
      typeOf?_eq_some_iff]
  have hcut : front ++ v :: back = front ++ [v] ++ back := by simp
  refine ⟨?_, ?_, remarks type members ++ notesAll (label type (nameOf members)) front ++ before,
    after ++ notesAll (label type (nameOf members)) back, ?_, ?_⟩
  · rw [nodesOf_eq_filterMap, nodesOf_eq_filterMap] at hnodes
    rw [nodeOf?_obj htype', nodeOf?_obj htype, nameOf_mapListed, propertiesOf_mapListed,
      listed_mapListed _ hf, hlisted, hmiddle, hcut]
    simp only [nodesOf_eq_filterMap, filterMap_append, hnodes]
  · refine heightMembers_mapListed_le ?_
    rw [hlisted, hmiddle]
    simp only [Json.heightItems_append, Json.heightItems]
    omega
  · rw [notes_reading_obj htype, hlisted, hcut]
    rw [notesAll] at hsaid
    simp only [notesAll, flatMap_append, hsaid, append_assoc]
  · rw [notes_reading_obj htype', remarks_mapListed, nameOf_mapListed, listed_mapListed _ hf,
      hlisted, hmiddle]
    rw [notesAll] at hleft
    simp only [notesAll, flatMap_append, hleft, append_assoc]

/-- About a skipped entry there is one defect to say, and nothing is listed. -/
theorem report_of_skipped (h : ¬ IsComponent p.entry) :
    p.inside = [] ∧ ∃ d, p.report = [d] ∧ d.code = .malformedComponent := by
  rw [Place.inside, Place.report]
  split
  · next members hentry =>
    split
    · next type htype => exact absurd (hentry ▸ isComponent_obj_iff.2 ⟨type, htype⟩) h
    · exact ⟨rfl, _, rfl, rfl⟩
  · exact ⟨rfl, _, rfl, rfl⟩

/-- **Deleting a skipped entry** somewhere inside another leaves the component of that one as it is,
makes it no higher, and takes what was said about the skipped entry out of the report. -/
theorem reading_without {q : Place} {address : List Nat} (h : Stands p address q)
    (hq : ¬ IsComponent q.entry) (hne : address ≠ []) :
    nodeOf? (without address p.entry) = nodeOf? p.entry
      ∧ (without address p.entry).height ≤ p.entry.height
      ∧ ∃ before after, notes p.reading = before ++ q.report ++ after
        ∧ notes (Place.reading ⟨p.owner, without address p.entry⟩) = before ++ after := by
  induction h with
  | here => exact absurd rfl hne
  | @inside p c q i address hi h ih =>
    obtain ⟨members, type, v, hentry, htype, hv, rfl⟩ := exists_listed_of_inside hi
    obtain ⟨front, back, hlisted, rfl⟩ := exists_cut hv
    obtain ⟨owner, entry⟩ := p
    obtain rfl : entry = .obj members := hentry
    have hone : ∀ u, notesAll (label type (nameOf members)) [u]
        = notes (Place.reading ⟨some (label type (nameOf members)), u⟩) :=
      fun u => flatMap_singleton _ _
    -- the entry listed here is deleted itself, or one inside it
    cases address with
    | nil =>
      cases h
      have hsaid : notesAll (label type (nameOf members)) [v]
          = [] ++ Place.report ⟨some (label type (nameOf members)), v⟩ ++ [] := by
        rw [hone, notes_reading_eq, (report_of_skipped hq).1, flatMap_nil, append_nil,
          append_nil, nil_append]
      exact reading_splice htype owner hlisted rfl (eraseIdx_cut front v back)
        (nodesOf_cons_of_skipped hq []).symm (Nat.zero_le _) hsaid rfl
    | cons j address =>
      obtain ⟨hnode, hheight, before, after, hsaid, hleft⟩ := ih hq (cons_ne_nil _ _)
      have hnodes : nodesOf [without (j :: address) v] = nodesOf [v] :=
        congrArg (fun node => node.toList ++ nodesOf []) hnode
      exact reading_splice htype owner hlisted (modify_nil _ _)
        (modify_cut front v back (without (j :: address))) hnodes
        (by simpa [Json.heightItems] using hheight) ((hone v).trans hsaid) ((hone _).trans hleft)

/-! ### Forms -/

/-- The note that a repaired copy of a text was read. -/
def repairNote (screen : Option String) (detail : String) : Diagnostic :=
  .warning .repairedDescriptor
    s!"Layout descriptor is not valid JSON ({detail}); parsed a repaired copy" screen

/-- The place of a form. -/
def Form.place (form : Form) : Place := ⟨none, .obj form.members⟩

theorem settle_journalOf (screen : Option String) (form : Form) :
    settle .unlimited (journalOf screen form)
      = .ok (form.repaired.toList.map (repairNote screen) ++ notes form.place.reading) := by
  refine Journal.settle_unlimited_eq_ok_iff.2 ⟨stops_journalOf screen form, ?_⟩
  rw [journalOf, Journal.notes_append]
  cases form.repaired <;> rfl

theorem nodeOf?_screen {form : Form} {type : String} (h : IsTyped form.members type) :
    nodeOf? (.obj form.members) = some (screenOf form) := by
  rw [screenOf, nodeOf?_obj h, Option.getD_some]

theorem exists_without (address : List Nat) (members : List (String × Json)) :
    ∃ fewer, without address (.obj members) = .obj fewer := by
  cases address with
  | nil => exact ⟨members, rfl⟩
  | cons i address => cases address <;> exact ⟨_, rfl⟩

/-- **Malformed entries stay apart from the others.**  The tree of a typed form is what is kept of
its entries.  The report, behind the note of a repair, goes through all entries that stand somewhere
in the form, in pre-order, and says about each what the entry alone gives rise to.  Without a
skipped entry the form is no higher, the tree is the same, and the report is the same but for the one
defect of that entry. -/
theorem malformed_entries_stay_apart {form : Form} {type : String}
    (htype : IsTyped form.members type) (screen : Option String) :
    (∀ nodes, Keeps [.obj form.members] nodes ↔ nodes = [screenOf form])
      ∧ settle .unlimited (journalOf screen form)
        = .ok (form.repaired.toList.map (repairNote screen)
          ++ (survey form.place).flatMap fun s => s.2.report)
      ∧ (∀ address p, (address, p) ∈ survey form.place ↔ Stands form.place address p)
      ∧ (survey form.place).Pairwise (fun a b => a.1 < b.1)
      ∧ ∀ address p, Stands form.place address p → ¬ IsComponent p.entry →
        ∃ fewer before d after, without address (.obj form.members) = .obj fewer
          ∧ (Json.obj fewer).height ≤ (Json.obj form.members).height
          ∧ screenOf ⟨fewer, form.repaired⟩ = screenOf form
          ∧ p.report = [d] ∧ d.code = .malformedComponent
          ∧ settle .unlimited (journalOf screen form) = .ok (before ++ d :: after)
          ∧ settle .unlimited (journalOf screen ⟨fewer, form.repaired⟩) = .ok (before ++ after) := by
  refine ⟨fun nodes => ?_, ?_, fun _ _ => mem_survey_iff, pairwise_survey _, ?_⟩
  · rw [keeps_iff, nodesOf, nodeOf?_screen htype, Option.toList_some, nodesOf, append_nil, eq_comm]
  · rw [settle_journalOf, notes_reading]
  · intro address p hstands hskipped
    have hne : address ≠ [] := by
      rintro rfl
      cases hstands
      exact hskipped ⟨form.members, type, rfl, htype⟩
    obtain ⟨hnode, hheight, before, after, hsaid, hleft⟩ := reading_without hstands hskipped hne
    obtain ⟨fewer, hfewer⟩ := exists_without address form.members
    obtain ⟨-, d, hd, hcode⟩ := report_of_skipped hskipped
    have hentry : without address form.place.entry = .obj fewer := hfewer
    rw [hentry] at hnode hheight hleft
    refine ⟨fewer, form.repaired.toList.map (repairNote screen) ++ before, d, after, hfewer, hheight,
      ?_, hd, hcode, ?_, ?_⟩
    · have hscreen : nodeOf? (.obj fewer) = some (screenOf form) :=
        hnode.trans (nodeOf?_screen htype)
      rw [screenOf, hscreen, Option.getD_some]
    · rw [settle_journalOf, hsaid, hd, append_assoc, append_assoc, singleton_append]
    · have hnotes : notes (Form.place ⟨fewer, form.repaired⟩).reading = before ++ after := hleft
      rw [settle_journalOf, hnotes, append_assoc]

/-- A form that lists nothing, an object without a type, and a button with a misfit whose children
are no list. -/
def untidyForm : Form where
  members := [("$Type", .str "Form"), ("$Components", .arr [.null, .obj [("$Name", .str "x")],
    .obj [("$Type", .str "Button"), ("Text", .null), ("$Components", .int 3)]])]
  repaired := none

/-- Without the second entry of the untidy form the tree is the same, and one defect less is
reported. -/
theorem untidyForm_stays :
    IsTyped untidyForm.members "Form"
      ∧ Stands untidyForm.place [1] ⟨some "Form", .obj [("$Name", .str "x")]⟩
      ∧ ∃ fewer before d after, without [1] (.obj untidyForm.members) = .obj fewer
        ∧ screenOf ⟨fewer, none⟩ = screenOf untidyForm
        ∧ Place.report ⟨some "Form", .obj [("$Name", .str "x")]⟩ = [d]
        ∧ settle .unlimited (journalOf none untidyForm) = .ok (before ++ d :: after)
        ∧ settle .unlimited (journalOf none ⟨fewer, none⟩) = .ok (before ++ after) := by
  have htype : IsTyped untidyForm.members "Form" := ⟨rfl, by decide⟩
  have hstands : Stands untidyForm.place [1] ⟨some "Form", .obj [("$Name", .str "x")]⟩ :=
    .inside rfl (.here _)
  have hskipped : ¬ IsComponent (.obj [("$Name", .str "x")]) := by
    rw [isComponent_obj_iff]
    rintro ⟨type, h⟩
    cases h
  obtain ⟨-, -, -, -, hdelete⟩ := malformed_entries_stay_apart htype none
  obtain ⟨fewer, before, d, after, hfewer, -, hscreen, hd, -, hsaid, hleft⟩ :=
    hdelete _ _ hstands hskipped
  exact ⟨htype, hstands, fewer, before, d, after, hfewer, hscreen, hd, hsaid, hleft⟩

end Layout
end ScreenForge
