/-
# Layout descriptors written and read back

A screen is written as the object

    {"Properties": {"$Name": ..., "$Type": ..., properties, "$Components": [...]}}

where each component inside is an entry of the same form (`entryOf`, `documentOf`).  A tree can be
written so if its components have types and names, and properties with distinct names that describe
no part of the tree and with values other than floating point numbers (`IsRegular`).  A level of
components is two levels of JSON, an object in a list.
-/
import ScreenForge.Proofs.Descriptor.Written
import ScreenForge.Proofs.Layout.Emitted
import ScreenForge.Proofs.Layout.Survey

namespace ScreenForge
namespace Layout

open List
open Component (Node Scalar)
open Descriptor (Holds)
open Journal (Entry settle stops notes)

/-! ### Writing -/

mutual

/-- The entry of a component. -/
def entryOf : Node → Json
  | ⟨type, name, properties, children⟩ =>
    .obj (("$Name", .str name) :: ("$Type", .str type)
      :: (properties.map fun p => (p.1, p.2.toJson))
        ++ [(childrenKey, .arr (entriesOf children))])

/-- The entries of components, in order. -/
def entriesOf : List Node → List Json
  | [] => []
  | node :: rest => entryOf node :: entriesOf rest

end

/-- The descriptor of a screen. -/
def documentOf (screen : Node) : Json := .obj [("Properties", entryOf screen)]

/-- A component that an entry can describe. -/
structure IsRegular (node : Node) : Prop where
  type : node.type ≠ ""
  name : node.name ≠ ""
  /-- Properties have distinct names. -/
  nodup : (Assoc.keys node.properties).Nodup
  /-- Properties are told from the members that describe the tree. -/
  plain : ∀ p ∈ node.properties, isStructural p.1 = false
  /-- Values are texts, whole numbers and truth values. -/
  exact : ∀ p ∈ node.properties, ∀ x, p.2 ≠ .real x

/-- The members that tell name and type, and those that are properties. -/
def frontOf (node : Node) : List (String × Json) :=
  ("$Name", .str node.name) :: ("$Type", .str node.type)
    :: node.properties.map fun p => (p.1, p.2.toJson)

theorem entryOf_eq (node : Node) :
    entryOf node = .obj (frontOf node ++ [(childrenKey, .arr (entriesOf node.children))]) := by
  obtain ⟨type, name, properties, children⟩ := node
  rw [entryOf]
  rfl

/-! ### Reading an entry -/

variable {node : Node} {tail : List (String × Json)} {screen : Node}

theorem isTyped_front (h : node.type ≠ "") : IsTyped (frontOf node ++ tail) node.type := ⟨rfl, h⟩

theorem nameOf_front : nameOf (frontOf node ++ tail) = node.name := rfl

theorem isStructural_name : isStructural "$Name" := rfl

theorem isStructural_type : isStructural "$Type" := rfl

theorem isStructural_childrenKey : isStructural childrenKey := rfl

theorem keys_front : Assoc.keys (frontOf node) = "$Name" :: "$Type" :: Assoc.keys node.properties := by
  simp only [frontOf, Assoc.keys, map_cons, map_map]
  rfl

theorem not_mem_keys_properties (h : IsRegular node) {key : String} (hkey : isStructural key) :
    key ∉ Assoc.keys node.properties := by
  intro hmem
  obtain ⟨p, hp, rfl⟩ := mem_map.1 hmem
  rw [h.plain p hp] at hkey
  cases hkey

theorem not_mem_keys_front (h : IsRegular node) : childrenKey ∉ Assoc.keys (frontOf node) := by
  rw [keys_front, mem_cons, mem_cons, not_or, not_or]
  exact ⟨by decide, by decide, not_mem_keys_properties h rfl⟩

theorem propertiesOf_entry (h : IsRegular node) (v : Json) :
    propertiesOf (frontOf node ++ [(childrenKey, v)]) = node.properties := by
  have hproperties : propertiesOf (node.properties.map fun p => (p.1, p.2.toJson))
      = node.properties := by
    rw [propertiesOf, filterMap_map]
    refine Eq.trans (filterMap_congr fun p hp => ?_) filterMap_some
    simp only [Function.comp_apply, h.plain p hp, Scalar.ofJson?_toJson, Bool.false_eq_true,
      if_false, Option.map_some]
  rw [propertiesOf] at hproperties
  simp only [propertiesOf, frontOf, cons_append, filterMap_cons, filterMap_append,
    isStructural_name, isStructural_type, isStructural_childrenKey, if_true, hproperties,
    filterMap_nil, append_nil]

theorem misfits_entry (v : Json) : misfits (frontOf node ++ [(childrenKey, v)]) = [] := by
  have hproperties : misfits (node.properties.map fun p => (p.1, p.2.toJson)) = [] := by
    rw [misfits, filter_eq_nil_iff, forall_mem_map]
    intro p _
    simp [← isSome_ofJson?, Scalar.ofJson?_toJson]
  rw [misfits] at hproperties
  simp [misfits, frontOf, filter_append, isStructural_name, isStructural_type,
    isStructural_childrenKey, hproperties]

theorem lookup_entry (h : IsRegular node) (v : Json) :
    (frontOf node ++ [(childrenKey, v)]).lookup childrenKey = some v := by
  have hfront : (frontOf node).lookup childrenKey = none := by
    refine lookup_eq_none_iff.2 fun m hm => bne_iff_ne.2 fun heq => ?_
    exact not_mem_keys_front h (mem_map.2 ⟨m, hm, heq.symm⟩)
  rw [lookup_append, hfront, Option.none_or, lookup_cons_self]

theorem listed_entry (h : IsRegular node) (items : List Json) :
    listed (frontOf node ++ [(childrenKey, .arr items)]) = items := by
  rw [listed, lookup_entry h]

/-- A component is read back from its entry if those inside are. -/
theorem nodeOf?_entryOf (h : IsRegular node)
    (hchildren : nodesOf (entriesOf node.children) = node.children) :
    nodeOf? (entryOf node) = some node := by
  rw [entryOf_eq, nodeOf?_obj (isTyped_front h.type), nameOf_front, propertiesOf_entry h,
    listed_entry h, hchildren]
  cases node
  rfl

/-- There is nothing to say about the entry of a component but what there is inside it. -/
theorem notes_reading_entryOf (h : IsRegular node) (owner : Option String) :
    notes (Place.mk owner (entryOf node)).reading
      = ((entriesOf node.children).map (Place.mk (some (label node.type node.name)))).flatMap
          fun p => notes p.reading := by
  have htype : typeOf? (frontOf node ++ [(childrenKey, .arr (entriesOf node.children))])
      = some node.type := typeOf?_eq_some_iff.2 (isTyped_front h.type)
  have hremarks : remarks node.type
      (frontOf node ++ [(childrenKey, .arr (entriesOf node.children))]) = [] := by
    rw [remarks, nameOf_front, if_neg h.name, misfits_entry, isStray, lookup_entry h]
    rfl
  rw [notes_reading_eq]
  simp only [Place.report, Place.inside, entryOf_eq, htype, hremarks, nameOf_front,
    listed_entry h, nil_append]

/-- **The entries of components read as the components, and nothing is noted about them.** -/
theorem read_entriesOf {nodes : List Node} (h : ∀ n ∈ Node.walkAll nodes, IsRegular n) :
    nodesOf (entriesOf nodes) = nodes ∧ ∀ owner : Option String,
      ((entriesOf nodes).map (Place.mk owner)).flatMap (fun p => notes p.reading) = [] := by
  induction nodes using Node.inductAll with
  | nil => exact ⟨rfl, fun _ => rfl⟩
  | cons node rest inside others =>
    rw [Node.walkAll, Node.walk_eq, cons_append, forall_mem_cons, forall_mem_append] at h
    obtain ⟨hnode, hinside, hothers⟩ := h
    obtain ⟨hnodes, hnotes⟩ := others hothers
    constructor
    · rw [entriesOf, nodesOf, nodeOf?_entryOf hnode (inside hinside).1, hnodes,
        Option.toList_some, singleton_append]
    · intro owner
      rw [entriesOf, map_cons, flatMap_cons, notes_reading_entryOf hnode,
        (inside hinside).2, hnotes]
      rfl

/-! ### What is asked of the JSON -/

/-- A scalar whose text can be read back. -/
def IsShort (v : Scalar) : Prop := Json.IsShort v.toJson

theorem nodup_keys_entry (h : IsRegular node) (v : Json) :
    (Assoc.keys (frontOf node ++ [(childrenKey, v)])).Nodup := by
  have hfront : (Assoc.keys (frontOf node)).Nodup := by
    rw [keys_front, nodup_cons, nodup_cons, mem_cons, not_or]
    exact ⟨⟨by decide, not_mem_keys_properties h rfl⟩, not_mem_keys_properties h rfl, h.nodup⟩
  rw [Assoc.keys, map_append, nodup_append]
  refine ⟨hfront, by simp, fun key hkey other hlast heq => ?_⟩
  obtain rfl : key = childrenKey := heq.trans (mem_singleton.1 hlast)
  exact not_mem_keys_front h hkey

section

variable {P : Json → Prop}

theorem throughout_scalar (v : Scalar) : v.toJson.Throughout P ↔ P v.toJson := by
  cases v <;> exact Iff.rfl

theorem throughout_entryOf (hstr : ∀ s, P (.str s)) (harr : ∀ items, P (.arr items))
    (node : Node) :
    (entryOf node).Throughout P
      ↔ (P (entryOf node) ∧ ∀ p ∈ node.properties, P p.2.toJson)
        ∧ ∀ v ∈ entriesOf node.children, v.Throughout P := by
  have hfront : (∀ m ∈ frontOf node, m.2.Throughout P) ↔ ∀ p ∈ node.properties, P p.2.toJson := by
    rw [frontOf, forall_mem_cons, forall_mem_cons, forall_mem_map]
    constructor
    · rintro ⟨-, -, hproperties⟩ p hp
      exact (throughout_scalar p.2).1 (hproperties p hp)
    · exact fun h => ⟨hstr _, hstr _, fun p hp => (throughout_scalar p.2).2 (h p hp)⟩
  rw [entryOf_eq, Json.throughout_obj, forall_mem_append, forall_mem_singleton,
    Json.throughout_arr, and_iff_right (harr _), hfront, and_assoc]

/-- What holds throughout the entries of components: one condition on each component. -/
theorem throughout_entriesOf (hstr : ∀ s, P (.str s)) (harr : ∀ items, P (.arr items))
    (nodes : List Node) :
    (∀ v ∈ entriesOf nodes, v.Throughout P)
      ↔ ∀ n ∈ Node.walkAll nodes, P (entryOf n) ∧ ∀ p ∈ n.properties, P p.2.toJson := by
  induction nodes using Node.inductAll with
  | nil => exact ⟨fun _ _ h => absurd h not_mem_nil, fun _ _ h => absurd h not_mem_nil⟩
  | cons node rest inside others =>
    rw [entriesOf, forall_mem_cons, throughout_entryOf hstr harr, inside, others,
      Node.walkAll, Node.walk_eq, cons_append, forall_mem_cons, forall_mem_append,
      and_assoc]

end

/-! ### Heights -/

/-- An entry is one level higher than the list of the entries inside it. -/
theorem height_entryOf (node : Node) :
    (entryOf node).height = Json.heightItems (entriesOf node.children) + 1 := by
  have hfront : (0 : Int) + Json.heightItems ((frontOf node).map Prod.snd) ≤ 1 := by
    rw [Json.heightItems_le_iff]
    refine ⟨by decide, fun v hv => ?_⟩
    have hflat : v.height = 0 := by
      simp only [frontOf, map_cons, map_map, mem_cons, mem_map] at hv
      rcases hv with rfl | rfl | ⟨p, -, rfl⟩
      · rfl
      · rfl
      · obtain ⟨name, v⟩ := p
        cases v <;> rfl
    omega
  have hlast : Json.heightItems [Json.arr (entriesOf node.children)]
      = Json.heightItems (entriesOf node.children) + 1 := by
    simp [Json.heightItems, Json.height]
  rw [entryOf_eq, Json.height, Json.heightMembers_eq, map_append, Json.heightItems_append]
  simp only [map_cons, map_nil]
  omega

theorem height_eq (node : Node) : node.height = Node.heightAll node.children := by
  cases node
  rfl

theorem heightItems_entriesOf (nodes : List Node) :
    Json.heightItems (entriesOf nodes) = 2 * Node.heightAll nodes := by
  induction nodes using Node.inductAll with
  | nil => rfl
  | cons node rest inside others =>
    rw [entriesOf, Json.heightItems, height_entryOf, inside, others, Node.heightAll, height_eq]
    omega

/-- A level of components is two levels of JSON. -/
theorem height_documentOf (screen : Node) : (documentOf screen).height = 2 * screen.height + 2 := by
  rw [documentOf, Json.height, Json.heightMembers, Json.heightMembers, height_entryOf,
    heightItems_entriesOf, height_eq]
  omega

/-! ### The whole descriptor -/

theorem throughout_documentOf {P : Json → Prop} (hstr : ∀ s, P (.str s))
    (harr : ∀ items, P (.arr items)) (screen : Node) :
    (documentOf screen).Throughout P
      ↔ P (documentOf screen)
        ∧ ∀ n ∈ screen.walk, P (entryOf n) ∧ ∀ p ∈ n.properties, P p.2.toJson := by
  have hentry := throughout_entriesOf hstr harr [screen]
  rw [entriesOf, entriesOf, forall_mem_singleton, Node.walkAll, Node.walkAll, append_nil] at hentry
  rw [documentOf, Json.throughout_obj, forall_mem_singleton, hentry]

theorem plain_documentOf (h : ∀ n ∈ screen.walk, IsRegular n) :
    (documentOf screen).Throughout Json.IsPlain := by
  refine (throughout_documentOf (fun _ => trivial) (fun _ => trivial) screen).2
    ⟨nodup_cons.2 ⟨not_mem_nil, nodup_nil⟩, fun n hn => ⟨?_, fun p hp => ?_⟩⟩
  · rw [entryOf_eq]
    exact nodup_keys_entry (h n hn) _
  · cases hv : p.2 with
    | text s | whole k | truth b => trivial
    | real x => exact absurd hv ((h n hn).exact p hp x)

/-- Whether the whole numbers of a tree can be read back. -/
def HasShortNumbers (screen : Node) : Prop :=
  ∀ n ∈ screen.walk, ∀ p ∈ n.properties, IsShort p.2

/-- The numbers of a text are those of the tree. -/
theorem short_documentOf (screen : Node) :
    (documentOf screen).Throughout Json.IsShort
      ↔ HasShortNumbers screen := by
  have hentry : ∀ n : Node, Json.IsShort (entryOf n) := fun n => by
    rw [entryOf_eq]
    trivial
  rw [throughout_documentOf (fun _ => trivial) (fun _ => trivial),
    and_iff_right (show Json.IsShort (documentOf screen) from trivial)]
  exact forall₂_congr fun n _ => and_iff_right (hentry n)

/-- **When a layout descriptor has a form**, and which. -/
theorem form_eq_ok_iff {text : String} {limits : Limits} {repair : Bool} {f : Form} :
    form text limits repair = .ok f
      ↔ (text.utf8ByteSize : Int) ≤ limits.maxSize
        ∧ ∃ found, Descriptor.extract text repair = .ok found
          ∧ ((Json.obj found.members).height : Int) ≤ jsonDepth limits.maxDepth
          ∧ found.members.lookup "Properties" = some (.obj f.members)
          ∧ (typeOf? f.members).isSome ∧ f.repaired = found.repaired := by
  constructor
  · intro h
    unfold form at h
    split at h
    · cases h
    · next hsize =>
      refine ⟨Descriptor.checkSize_eq_ok_iff.1 hsize, ?_⟩
      split at h
      · cases h
      · next found hfound =>
        split at h
        · cases h
        · next hdepth =>
          have hheight := Descriptor.checkDepth_eq_ok_iff.1 hdepth
          split at h
          · next members hmembers =>
            split at h
            · next type htype =>
              obtain rfl := Except.ok.inj h
              exact ⟨found, hfound, by omega, hmembers, by rw [htype]; rfl, rfl⟩
            · cases h
          · cases h
  · rintro ⟨hsize, found, hfound, hheight, hmembers, htype, hrepaired⟩
    obtain ⟨type, htype⟩ := Option.isSome_iff_exists.1 htype
    have hdepth : Descriptor.checkDepth (.obj found.members) (jsonDepth limits.maxDepth) = .ok () :=
      Descriptor.checkDepth_eq_ok_iff.2 (by omega)
    simp only [form, Descriptor.checkSize_eq_ok_iff.2 hsize, hfound, hdepth, hmembers, htype,
      ← hrepaired]

theorem noted_of_repaired {f : Form} (h : f.repaired ≠ none) (name : Option String) :
    notes (journalOf name f) ≠ [] := by
  obtain ⟨detail, hdetail⟩ := Option.ne_none_iff_exists.1 h
  rw [journalOf, ← hdetail]
  exact cons_ne_nil _ _

/-- The form of a screen, read from a text that needed no repair. -/
def formOf (screen : Node) : Form :=
  ⟨frontOf screen ++ [(childrenKey, .arr (entriesOf screen.children))], none⟩

theorem screenOf_formOf (h : ∀ n ∈ screen.walk, IsRegular n) :
    screenOf (formOf screen) = screen := by
  rw [Node.walk_eq, forall_mem_cons] at h
  rw [screenOf, formOf, ← entryOf_eq, nodeOf?_entryOf h.1 (read_entriesOf h.2).1, Option.getD_some]

/-- Nothing is noted about what was written. -/
theorem settle_formOf (h : ∀ n ∈ screen.walk, IsRegular n) (name : Option String) :
    settle .unlimited (journalOf name (formOf screen)) = .ok [] := by
  rw [Node.walk_eq, forall_mem_cons] at h
  have hquiet := notes_reading_entryOf h.1 none
  rw [(read_entriesOf h.2).2, entryOf_eq, Place.reading] at hquiet
  rw [Journal.settle_unlimited_eq_ok_iff]
  exact ⟨stops_journalOf name _, hquiet.symm⟩

/-- A text reads as a screen, and nothing is noted. -/
def ReadsAs (text : String) (limits : Limits) (repair : Bool) (name : Option String)
    (screen : Node) : Prop :=
  ∃ f, form text limits repair = .ok f ∧ screenOf f = screen
    ∧ settle .unlimited (journalOf name f) = .ok []

section

variable {screen : Node} (hscreen : ∀ n ∈ screen.walk, IsRegular n) {object text : String}
  (hobject : Json.dump? 0 (documentOf screen) = some object)
  (htext : Holds object.toList text.toList) {limits : Limits} {repair : Bool}
  {name : Option String}

include hscreen hobject htext

/-- **What is extracted from a written descriptor**: the descriptor if its numbers are short, and
otherwise nothing or a repaired copy. -/
theorem extract_written (repair : Bool) :
    (HasShortNumbers screen →
      Descriptor.extract text repair = .ok ⟨[("Properties", entryOf screen)], none⟩)
    ∧ (¬ HasShortNumbers screen →
      ∀ found, Descriptor.extract text repair = .ok found → found.repaired ≠ none) := by
  obtain ⟨style, hstyle, hwritten⟩ := Json.exists_style_of_dump? hobject
  have hfound := Descriptor.extract_written hstyle (plain_documentOf hscreen) (hwritten ▸ htext)
    repair
  rwa [← documentOf, short_documentOf] at hfound

/-- What is read back is within the limits. -/
theorem bounds_of_readsAs (h : ReadsAs text limits repair name screen) :
    (text.utf8ByteSize : Int) ≤ limits.maxSize
      ∧ (screen.height : Int) ≤ limits.maxDepth + 1 ∧ HasShortNumbers screen := by
  obtain ⟨hread, hcopy⟩ := extract_written hscreen hobject htext repair
  obtain ⟨f, hform, -, hsettle⟩ := h
  obtain ⟨hsize, found, hfound, hdepth, -, -, hrepaired⟩ := form_eq_ok_iff.1 hform
  by_cases hshort : HasShortNumbers screen
  · obtain rfl := Except.ok.inj (hfound.symm.trans (hread hshort))
    have hheight := height_documentOf screen
    rw [documentOf] at hheight
    rw [hheight, jsonDepth] at hdepth
    exact ⟨hsize, by omega, hshort⟩
  · -- a repaired copy is noted
    have hnotes := (Journal.settle_unlimited_eq_ok_iff.1 hsettle).2
    exact absurd hnotes.symm (noted_of_repaired (hrepaired ▸ hcopy hshort found hfound) name)

/-- What is within the limits is read back. -/
theorem readsAs_of_bounds (hsize : (text.utf8ByteSize : Int) ≤ limits.maxSize)
    (hdepth : (screen.height : Int) ≤ limits.maxDepth + 1) (hshort : HasShortNumbers screen) :
    ReadsAs text limits repair name screen := by
  have hread := (extract_written hscreen hobject htext repair).1 hshort
  have hroot := hscreen screen (by rw [Node.walk_eq]; exact mem_cons_self)
  have hheight := height_documentOf screen
  rw [documentOf] at hheight
  have hform : form text limits repair = .ok (formOf screen) := by
    refine form_eq_ok_iff.2 ⟨hsize, _, hread, ?_, ?_, ?_, rfl⟩
    · rw [hheight, jsonDepth]
      omega
    · rw [lookup_cons_self, entryOf_eq]
      rfl
    · exact Option.isSome_of_eq_some (typeOf?_eq_some_iff.2 (isTyped_front hroot.type))
  exact ⟨formOf screen, hform, screenOf_formOf hscreen, settle_formOf hscreen name⟩

end

/-- **A layout descriptor reads as what it was written from**, and nothing is noted, exactly if its
text is small enough, the tree is at most one level higher than the limit, and the texts of its
whole numbers are short enough.  The object may stand in a frame or bare, and a reader that would
repair a damaged text reads it as one that would not. -/
theorem layout_reads_back_iff {screen : Node} (hscreen : ∀ n ∈ screen.walk, IsRegular n)
    {object : String} (hobject : Json.dump? 0 (documentOf screen) = some object) {text : String}
    (htext : Holds object.toList text.toList) (limits : Limits) (repair : Bool)
    (name : Option String) :
    ReadsAs text limits repair name screen
      ↔ (text.utf8ByteSize : Int) ≤ limits.maxSize
        ∧ (screen.height : Int) ≤ limits.maxDepth + 1 ∧ HasShortNumbers screen := by
  constructor
  · exact bounds_of_readsAs hscreen hobject htext
  · rintro ⟨hsize, hdepth, hshort⟩
    exact readsAs_of_bounds hscreen hobject htext hsize hdepth hshort

/-- A screen with a title in quotes over two lines, and a button inside. -/
def titledScreen : Node :=
  ⟨"Form", "Screen1", [("Title", .text "\"a\"\n😀"), ("Width", .whole (-2))],
    [⟨"Button", "Button1", [("Enabled", .truth true)], []⟩]⟩

theorem regular_titledScreen : ∀ n ∈ titledScreen.walk, IsRegular n := by
  intro n hn
  simp only [titledScreen, Node.walk, Node.walkAll, mem_cons, append_nil,
    not_mem_nil, or_false] at hn
  rcases hn with rfl | rfl <;>
  · refine ⟨by decide, by decide, by decide, ?_, by simp⟩
    simp
    decide

/-- A title with quotes, a line break and a character beyond 16 bits is read back from a frame, at
the greatest height that the limit allows. -/
theorem titledScreen_reads_back :
    ReadsAs (Descriptor.framed (Json.render Json.compact (documentOf titledScreen)))
      ⟨4194304, 0⟩ true none titledScreen := by
  have hobject : Json.dump? 0 (documentOf titledScreen)
      = some (Json.render Json.compact (documentOf titledScreen)) := rfl
  refine (layout_reads_back_iff regular_titledScreen hobject (Descriptor.holds_framed _) _ _ _).2
    ⟨by decide +kernel, by decide, ?_⟩
  intro n hn p hp
  simp only [titledScreen, Node.walk, Node.walkAll, mem_cons, append_nil,
    not_mem_nil, or_false] at hn
  rcases hn with rfl | rfl
  · simp only [mem_cons, not_mem_nil, or_false] at hp
    rcases hp with rfl | rfl
    · trivial
    · show (Json.intChars (-2)).length ≤ Json.maxNumeral
      decide
  · rw [mem_singleton.1 hp]
    trivial

/-- A screen with a whole number as its only property. -/
def numberScreen (n : Int) : Node := ⟨"Form", "Screen1", [("Width", .whole n)], []⟩

theorem walk_numberScreen (n : Int) : (numberScreen n).walk = [numberScreen n] := rfl

theorem regular_numberScreen (n : Int) : ∀ m ∈ (numberScreen n).walk, IsRegular m := by
  rw [walk_numberScreen, forall_mem_singleton]
  exact ⟨show "Form" ≠ "" by decide, show "Screen1" ≠ "" by decide,
    nodup_cons.2 ⟨not_mem_nil, nodup_nil⟩,
    forall_mem_singleton.2 (show isStructural "Width" = false by decide),
    forall_mem_singleton.2 fun _ => nofun⟩

theorem refused_of_digits {n : Nat} (h : (Nat.toDigits 10 n).length = Json.maxNumeral) :
    ∃ object, Json.dump? 0 (documentOf (numberScreen (-n))) = some object
      ∧ ∀ limits repair name, ¬ ReadsAs object limits repair name (numberScreen (-n)) := by
  have hobject := Json.dump?_zero (documentOf (numberScreen (-n)))
  refine ⟨_, hobject, fun limits repair name hread => ?_⟩
  obtain ⟨-, -, hshort⟩ := bounds_of_readsAs (regular_numberScreen _) hobject
    (Descriptor.holds_self _) hread
  rw [HasShortNumbers, walk_numberScreen, forall_mem_singleton] at hshort
  exact Json.not_isShort_neg h (hshort _ mem_cons_self)

/-- The least number with so many digits behind its first. -/
def powerOfTen (k : Nat) : Nat := Nat.pow 10 k

theorem length_powerOfTen {k : Nat} (hk : 0 < k) :
    (Nat.toDigits 10 (powerOfTen k)).length = k + 1 :=
  Json.length_toDigits_pow hk

/-- **A negative number of 4300 digits is not read back**, whatever the limits: its text has one
character more than a number may have. -/
theorem long_negative_number_refused :
    (∀ m ∈ (numberScreen (-powerOfTen 4299)).walk, IsRegular m)
    ∧ (Nat.toDigits 10 (powerOfTen 4299)).length = 4300
    ∧ ∃ object, Json.dump? 0 (documentOf (numberScreen (-powerOfTen 4299))) = some object
      ∧ ∀ limits repair name,
        ¬ ReadsAs object limits repair name (numberScreen (-powerOfTen 4299)) :=
  have hdigits : (Nat.toDigits 10 (powerOfTen 4299)).length = 4300 := length_powerOfTen (by decide)
  ⟨regular_numberScreen _, hdigits, refused_of_digits hdigits⟩

end Layout
end ScreenForge
