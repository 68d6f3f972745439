/-
# What becomes of the entries of a layout

The entries of a layout are found by going down from the screen: a component lists entries, and some
of them are components again (`Stands`).  What becomes of an entry depends on the entry alone: an
object with a type is a component, and its missing name, its misfits and children that are no list
are reported; anything else is skipped and reported as one defect.
-/
import Mathlib.Data.List.Basic
import ScreenForge.Layout.Reading
import ScreenForge.Proofs.Journal
import ScreenForge.Proofs.Json.Values

namespace ScreenForge
namespace Layout

open List
open Component (Node Scalar)
open Journal (Entry notes stops)

variable (p : Place)

/-! ### Entries -/

/-- Whether a value can be that of a property. -/
def isScalar : Json → Bool
  | .str _ => true
  | .int _ => true
  | .float _ => true
  | .bool _ => true
  | _ => false

/-- The members of an entry that are properties. -/
def proper (members : List (String × Json)) : List (String × Json) :=
  members.filter fun m => !isStructural m.1 && isScalar m.2

/-- The members of an entry that should be properties and cannot be. -/
def misfits (members : List (String × Json)) : List (String × Json) :=
  members.filter fun m => !isStructural m.1 && !isScalar m.2

/-- The members of an entry give it a type. -/
def IsTyped (members : List (String × Json)) (type : String) : Prop :=
  members.lookup "$Type" = some (.str type) ∧ type ≠ ""

/-- An entry is a component: an object with a type. -/
def IsComponent (entry : Json) : Prop :=
  ∃ members type, entry = .obj members ∧ IsTyped members type

/-- The entries that an entry lists. -/
def listed (members : List (String × Json)) : List Json :=
  match members.lookup childrenKey with
  | some (.arr items) => items
  | _ => []

/-- Whether an entry has children that are no list. -/
def isStray (members : List (String × Json)) : Bool :=
  match members.lookup childrenKey with
  | none => false
  | some .null => false
  | some (.arr _) => false
  | some _ => true

section Entries

variable {members : List (String × Json)} {type : String}

theorem typeOf?_eq_some_iff : typeOf? members = some type ↔ IsTyped members type := by
  rw [typeOf?, IsTyped]
  split
  · next s hs =>
    rw [hs, Option.some.injEq, Json.str.injEq]
    split
    · next hempty => simpa using fun heq : s = type => heq ▸ hempty
    · next hne =>
      rw [Option.some.injEq]
      exact ⟨fun heq => ⟨heq, heq ▸ hne⟩, fun h => h.1⟩
  · next hno => simpa using fun h => absurd h (hno type)

theorem isComponent_obj_iff : IsComponent (.obj members) ↔ ∃ type, typeOf? members = some type := by
  constructor
  · rintro ⟨_, type, heq, htype⟩
    cases heq
    exact ⟨type, typeOf?_eq_some_iff.2 htype⟩
  · rintro ⟨type, htype⟩
    exact ⟨members, type, rfl, typeOf?_eq_some_iff.1 htype⟩

theorem isSome_ofJson? (v : Json) : (Scalar.ofJson? v).isSome = isScalar v := by cases v <;> rfl

theorem toJson_of_ofJson? {v : Json} {s : Scalar} (h : Scalar.ofJson? v = some s) :
    s.toJson = v := by
  cases v <;> cases h <;> rfl

theorem toJson_injective : Function.Injective Scalar.toJson := by
  intro s t heq
  have hread := congrArg Scalar.ofJson? heq
  rw [Scalar.ofJson?_toJson, Scalar.ofJson?_toJson] at hread
  exact Option.some.inj hread

/-- **The properties of an entry are its proper members**, in order and with their values. -/
theorem toJson_propertiesOf (members : List (String × Json)) :
    (propertiesOf members).map (fun p => (p.1, p.2.toJson)) = proper members := by
  induction members with
  | nil => rfl
  | cons m rest ih =>
    rw [propertiesOf] at ih ⊢
    rw [proper] at ih ⊢
    rw [filterMap_cons, filter_cons, ← ih, ← isSome_ofJson?]
    cases isStructural m.1 with
    | true => rfl
    | false =>
      cases hv : Scalar.ofJson? m.2 with
      | none => rfl
      | some s =>
        simp only [Bool.false_eq_true, if_false, Option.map_some, map_cons, toJson_of_ofJson? hv]
        rfl

/-- The properties of an entry are known by the members that they are. -/
theorem eq_propertiesOf_iff {properties : List (String × Scalar)} :
    properties.map (fun p => (p.1, p.2.toJson)) = proper members
      ↔ properties = propertiesOf members := by
  have hinj : Function.Injective fun p : String × Scalar => (p.1, p.2.toJson) := by
    intro p q heq
    obtain ⟨hkey, hvalue⟩ := Prod.mk.inj heq
    exact Prod.ext hkey (toJson_injective hvalue)
  rw [← toJson_propertiesOf]
  exact (map_injective_iff.2 hinj).eq_iff

theorem invalidProperties_eq (members : List (String × Json)) :
    invalidProperties members = (misfits members).map Prod.fst := by
  induction members with
  | nil => rfl
  | cons m rest ih =>
    rw [invalidProperties] at ih ⊢
    rw [misfits] at ih ⊢
    rw [filterMap_cons, filter_cons, ih, isSome_ofJson?]
    cases isStructural m.1 with
    | true => rfl
    | false => cases isScalar m.2 <;> rfl

/-- What depends on the first list of entries alone. -/
theorem eq_elim_lookup {β : Type} {g : List (String × Json) → β} {f : Json → β} {d : β}
    (hnil : g [] = d) (hcons : ∀ key v rest, g ((key, v) :: rest)
      = if key = childrenKey then f v else g rest) (members : List (String × Json)) :
    g members = (members.lookup childrenKey).elim d f := by
  induction members with
  | nil => exact hnil
  | cons m rest ih =>
    obtain ⟨key, v⟩ := m
    rw [hcons, lookup_cons]
    by_cases hkey : key = childrenKey
    · rw [if_pos hkey, hkey, beq_self_eq_true]
      rfl
    · rw [if_neg hkey, beq_false_of_ne (Ne.symm hkey), ih]

theorem childrenIn_eq (members : List (String × Json)) :
    childrenIn members = nodesOf (listed members) := by
  rw [eq_elim_lookup childrenIn.eq_1 childrenIn.eq_2, listed]
  cases members.lookup childrenKey with
  | none => rfl
  | some v => cases v <;> rfl

theorem readingIn_eq (owner : String) (members : List (String × Json)) :
    readingIn owner members
      = (if isStray members then
          [malformed "$Components is not a list; children dropped" (some owner)] else [])
        ++ readingAll owner (listed members) := by
  rw [eq_elim_lookup (readingIn.eq_1 owner) (readingIn.eq_2 owner), isStray, listed]
  cases members.lookup childrenKey with
  | none => rfl
  | some v => cases v <;> rfl

theorem sizeOf_listed_le (members : List (String × Json)) :
    sizeOf (listed members) ≤ sizeOf members := by
  rw [listed]
  split
  · next items hitems =>
    have hlt := sizeOf_lt_of_mem (Assoc.mem_of_lookup hitems)
    simp only [Prod.mk.sizeOf_spec, Json.arr.sizeOf_spec] at hlt
    omega
  · cases members <;> simp +arith

end Entries

/-! ### The tree -/

/-- **What a tree keeps of entries.**  Of a list the components stay, in order, and the rest is
skipped.  A component has the type and the name of its entry, the proper members as properties, and
inside it what is kept of the entries it lists. -/
inductive Keeps : List Json → List Node → Prop where
  | nil : Keeps [] []
  | component {members : List (String × Json)} {rest : List Json} {node : Node} {nodes : List Node}
    (htype : IsTyped members node.type) (hname : node.name = nameOf members)
    (hproperties : node.properties.map (fun p => (p.1, p.2.toJson)) = proper members)
    (inside : Keeps (listed members) node.children) (others : Keeps rest nodes) :
    Keeps (.obj members :: rest) (node :: nodes)
  | skipped {entry : Json} {rest : List Json} {nodes : List Node} (hentry : ¬ IsComponent entry)
    (others : Keeps rest nodes) : Keeps (entry :: rest) nodes

/-- An object with a type is a component. -/
theorem nodeOf?_obj {members : List (String × Json)} {type : String} (h : IsTyped members type) :
    nodeOf? (.obj members)
      = some ⟨type, nameOf members, propertiesOf members, nodesOf (listed members)⟩ := by
  rw [nodeOf?, typeOf?_eq_some_iff.2 h, childrenIn_eq, Option.map_some]

/-- Any other entry is left out. -/
theorem nodeOf?_eq_none_iff {entry : Json} : nodeOf? entry = none ↔ ¬ IsComponent entry := by
  cases entry with
  | obj members =>
    rw [nodeOf?, Option.map_eq_none_iff, isComponent_obj_iff, ← Option.isSome_iff_exists,
      Option.not_isSome_iff_eq_none]
  | null | bool | int | float | str | arr => simp [nodeOf?, IsComponent]

theorem nodesOf_cons_of_skipped {entry : Json} (h : ¬ IsComponent entry) (rest : List Json) :
    nodesOf (entry :: rest) = nodesOf rest := by
  rw [nodesOf, nodeOf?_eq_none_iff.2 h]
  rfl

/-- The tree keeps the components of each list in order. -/
theorem nodesOf_eq_filterMap (items : List Json) : nodesOf items = items.filterMap nodeOf? := by
  induction items with
  | nil => rfl
  | cons v rest ih =>
    rw [nodesOf, ih, filterMap_cons]
    cases nodeOf? v <;> rfl

/-- **Induction over lists of entries**: the first entry with the list inside it, and the others. -/
theorem inductListed {P : List Json → Prop} (nil : P [])
    (cons : ∀ entry rest, (∀ members, entry = .obj members → P (listed members)) → P rest →
      P (entry :: rest)) : (items : List Json) → P items
  | [] => nil
  | entry :: rest =>
    cons entry rest (fun members _ => inductListed nil cons (listed members))
      (inductListed nil cons rest)
termination_by items => sizeOf items
decreasing_by
  · have hle := sizeOf_listed_le members
    subst entry
    simp only [List.cons.sizeOf_spec, Json.obj.sizeOf_spec]
    omega
  · simp +arith

/-- **A tree keeps of entries what reading finds in them**, and nothing else. -/
theorem keeps_iff {items : List Json} {nodes : List Node} :
    Keeps items nodes ↔ nodesOf items = nodes := by
  constructor
  · intro h
    induction h with
    | nil => rfl
    | @component members rest node nodes htype hname hproperties _ _ inside others =>
      rw [nodesOf, nodeOf?_obj htype, inside, others, ← eq_propertiesOf_iff.1 hproperties, ← hname]
      cases node
      rfl
    | skipped hentry _ others => rw [nodesOf_cons_of_skipped hentry, others]
  · rintro rfl
    induction items using inductListed with
    | nil => exact .nil
    | cons entry rest inside others =>
      by_cases hentry : IsComponent entry
      · obtain ⟨members, type, rfl, htype⟩ := hentry
        rw [nodesOf, nodeOf?_obj htype]
        exact .component htype rfl (toJson_propertiesOf members) (inside members rfl) others
      · rw [nodesOf_cons_of_skipped hentry]
        exact .skipped hentry others

/-! ### Places -/

/-- An entry, and what the component that lists it goes by. -/
structure Place where
  owner : Option String := none
  entry : Json

/-- What there is to say about a component: it has no name, it has misfits, its children are no
list. -/
def remarks (type : String) (members : List (String × Json)) : List Diagnostic :=
  (if nameOf members = "" then
    [.warning .malformedComponent (type ++ " component has no $Name; blocks cannot refer to it")
      (some type)]
  else [])
  ++ (if misfits members = [] then [] else
    [.warning .invalidProperty
      ("Dropped non-scalar properties " ++ Text.join ", " ((misfits members).map Prod.fst))
      (some (label type (nameOf members)))])
  ++ (if isStray members then
    [.warning .malformedComponent "$Components is not a list; children dropped"
      (some (label type (nameOf members)))]
  else [])

namespace Place

/-- What there is to say about the entry at a place. -/
def report (p : Place) : List Diagnostic :=
  match p.entry with
  | .obj members =>
    match typeOf? members with
    | some type => remarks type members
    | none => [.warning .malformedComponent "Component without $Type skipped" (givenName? members)]
  | v => [.warning .malformedComponent s!"Child entry of type {v.kindName} skipped" p.owner]

/-- The places of the entries that the entry at a place lists, if it is a component. -/
def inside (p : Place) : List Place :=
  match p.entry with
  | .obj members =>
    match typeOf? members with
    | some type => (listed members).map (Place.mk (some (label type (nameOf members))))
    | none => []
  | _ => []

/-- The journal of reading the entry at a place. -/
def reading (p : Place) : List Entry :=
  match p.entry with
  | .obj members => readingOf (.obj members)
  | v => [malformed s!"Child entry of type {v.kindName} skipped" p.owner]

theorem sizeOf_lt_of_mem_inside {p q : Place} (h : q ∈ p.inside) :
    sizeOf q.entry < sizeOf p.entry := by
  rw [inside] at h
  split at h
  · next members hentry =>
    rw [hentry, Json.obj.sizeOf_spec]
    split at h
    · obtain ⟨v, hv, rfl⟩ := mem_map.1 h
      have hlt := sizeOf_lt_of_mem hv
      have hle := sizeOf_listed_le members
      show sizeOf v < _
      omega
    · cases h
  · cases h

/-- **Induction over places**: by what is inside them. -/
theorem inductInside {P : Place → Prop} (h : ∀ p : Place, (∀ q ∈ p.inside, P q) → P p)
    (p : Place) : P p :=
  h p fun q _ => inductInside h q
termination_by sizeOf p.entry
decreasing_by exact sizeOf_lt_of_mem_inside ‹_›

end Place

/-- **What stands where.**  An address says at each level which of the entries listed to take. -/
inductive Stands : Place → List Nat → Place → Prop where
  | here (p : Place) : Stands p [] p
  | inside {p q r : Place} {i : Nat} {address : List Nat} (hi : p.inside[i]? = some q)
    (h : Stands q address r) : Stands p (i :: address) r

/-- All that stands at a place and inside it, in pre-order. -/
def survey (p : Place) : List (List Nat × Place) :=
  ([], p) :: p.inside.zipIdx.attach.flatMap fun q =>
    (survey q.1.1).map fun s => (q.1.2 :: s.1, s.2)
termination_by sizeOf p.entry
decreasing_by exact Place.sizeOf_lt_of_mem_inside (fst_mem_of_mem_zipIdx q.2)

theorem survey_eq : survey p = ([], p) :: p.inside.zipIdx.flatMap fun q =>
      (survey q.1).map fun s => (q.2 :: s.1, s.2) := by
  rw [survey]
  congr 1
  exact (flatMap_subtype (g := fun q : Place × Nat =>
    (survey q.1).map fun s => (q.2 :: s.1, s.2)) fun _ _ => rfl).trans
      (by rw [unattach_attach])

/-- **A survey lists what stands somewhere, with its address.** -/
theorem mem_survey_iff {p q : Place} {address : List Nat} :
    (address, q) ∈ survey p ↔ Stands p address q := by
  induction p using Place.inductInside generalizing address q with
  | h p ih =>
    rw [survey_eq, mem_cons, mem_flatMap]
    constructor
    · rintro (heq | ⟨⟨c, i⟩, hc, hmem⟩)
      · cases heq
        exact .here p
      · obtain ⟨⟨a, r⟩, hr, heq⟩ := mem_map.1 hmem
        cases heq
        exact .inside (mem_zipIdx_iff_getElem?.1 hc)
          ((ih c (fst_mem_of_mem_zipIdx hc)).1 hr)
    · intro h
      cases h with
      | here => exact .inl rfl
      | @inside _ c _ i address hi h =>
        refine .inr ⟨(c, i), mem_zipIdx_iff_getElem?.2 hi, mem_map.2 ⟨(address, q), ?_, rfl⟩⟩
        exact (ih c (mem_of_getElem? hi)).2 h

/-- **A survey is in pre-order**: by addresses, of which a longer one comes behind its start. -/
theorem pairwise_survey : (survey p).Pairwise fun a b => a.1 < b.1 := by
  induction p using Place.inductInside with
  | h p ih =>
    rw [survey_eq, pairwise_cons, pairwise_flatMap]
    refine ⟨?_, ?_, ?_⟩
    · intro s hs
      obtain ⟨q, -, hs⟩ := mem_flatMap.1 hs
      obtain ⟨t, -, rfl⟩ := mem_map.1 hs
      exact nil_lt_cons _ _
    · intro q hq
      rw [pairwise_map]
      exact (ih q.1 (fst_mem_of_mem_zipIdx hq)).imp fun hlt => cons_lt_cons_self.2 hlt
    · have hindices : p.inside.zipIdx.Pairwise fun a b => a.2 < b.2 := by
        rw [← pairwise_map, zipIdx_map_snd]
        exact pairwise_lt_range'
      refine hindices.imp ?_
      intro a b hlt s hs t ht
      obtain ⟨s, -, rfl⟩ := mem_map.1 hs
      obtain ⟨t, -, rfl⟩ := mem_map.1 ht
      exact List.Lex.rel hlt

/-! ### The report -/

theorem notes_map_note (report : List Diagnostic) : notes (report.map Entry.note) = report := by
  rw [Journal.notes_eq_filterMap, filterMap_map]
  exact filterMap_some

theorem stops_map_note (report : List Diagnostic) : stops (report.map Entry.note) = [] := by
  rw [stops, filterMap_map]
  exact filterMap_eq_nil_iff.2 fun _ _ => rfl

theorem readingAll_eq (owner : String) (items : List Json) :
    readingAll owner items = (items.map (Place.mk (some owner))).flatMap Place.reading := by
  induction items with
  | nil => rfl
  | cons v rest ih =>
    cases v with
    | obj members =>
      rw [readingAll, ih]
      rfl
    | null | bool | int | float | str | arr => exact congrArg (_ :: ·) ih

theorem ownDefects_append_stray (type : String) (members : List (String × Json)) :
    ownDefects type members
        ++ (if isStray members then
          [malformed "$Components is not a list; children dropped"
            (some (label type (nameOf members)))] else [])
      = (remarks type members).map Entry.note := by
  rw [remarks, map_append, map_append, ownDefects, invalidProperties_eq]
  congr 1
  · congr 1
    · split <;> rfl
    · cases misfits members <;> rfl
  · split <;> rfl

/-- The looks at the clock that an entry takes: one if it is an object. -/
def Place.looks (p : Place) : List Entry :=
  match p.entry with
  | .obj _ => [.look .layoutParsing]
  | _ => []

/-- **Reading an entry**: a look at the clock, what there is to say about it, and the entries that
it lists. -/
theorem reading_eq :
    p.reading = p.looks ++ p.report.map Entry.note ++ p.inside.flatMap Place.reading := by
  obtain ⟨owner, entry⟩ := p
  cases entry with
  | obj members =>
    cases htype : typeOf? members with
    | none =>
      simp only [Place.reading, Place.looks, Place.report, Place.inside, readingOf, htype]
      rfl
    | some type =>
      simp only [Place.reading, Place.looks, Place.report, Place.inside, readingOf, htype]
      rw [readingIn_eq, ← append_assoc, ownDefects_append_stray, readingAll_eq]
      rfl
  | null | bool | int | float | str | arr => rfl

/-- The report tells an entry before those it lists. -/
theorem notes_reading_eq :
    notes p.reading = p.report ++ p.inside.flatMap fun q => notes q.reading := by
  have hlooks : notes p.looks = [] := by
    rw [Place.looks]
    split <;> rfl
  rw [reading_eq, Journal.notes_append, Journal.notes_append, hlooks, notes_map_note,
    Journal.notes_flatMap, nil_append]

/-- **The report of reading an entry is what there is to say about the entries of the survey.** -/
theorem notes_reading : notes p.reading = (survey p).flatMap fun s => s.2.report := by
  induction p using Place.inductInside with
  | h p ih =>
    have hinside : (p.inside.zipIdx.flatMap fun q =>
          (survey q.1).map fun s => (q.2 :: s.1, s.2)).flatMap (fun s => s.2.report)
        = p.inside.flatMap fun q => notes q.reading := by
      calc _ = p.inside.zipIdx.flatMap fun q => (survey q.1).flatMap fun s => s.2.report := by
            simp only [flatMap_assoc, flatMap_map]
        _ = (p.inside.zipIdx.map Prod.fst).flatMap
              fun q => (survey q).flatMap fun s => s.2.report := by
            rw [flatMap_map]
        _ = p.inside.flatMap fun q => notes q.reading := by
            rw [zipIdx_map_fst]
            exact (flatMap_congr ih).symm
    rw [notes_reading_eq, survey_eq, flatMap_cons, hinside]

/-- No entry stops the reading. -/
theorem stops_reading : stops p.reading = [] := by
  induction p using Place.inductInside with
  | h p ih =>
    have hlooks : stops p.looks = [] := by
      rw [Place.looks]
      split <;> rfl
    rw [reading_eq, Journal.stops_append, Journal.stops_append, hlooks, stops_map_note,
      Journal.stops_flatMap, nil_append, nil_append]
    exact flatMap_eq_nil_iff.2 ih

/-- **Reading a form never stops.** -/
theorem stops_journalOf (screen : Option String) (form : Form) :
    stops (journalOf screen form) = [] := by
  have hform := stops_reading ⟨none, .obj form.members⟩
  rw [Place.reading] at hform
  rw [journalOf, Journal.stops_append, hform]
  cases form.repaired <;> rfl

end Layout
end ScreenForge
