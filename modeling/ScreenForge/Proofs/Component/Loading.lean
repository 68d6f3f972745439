/-
# Tables that are loaded

A file is a table if it is one JSON object whose values are rules.  What a rule is is said beside
its reader, member by member: every member holds a value of its kind, or its default if it is absent
(`Holds`), and no other name stands in the object (`Rule.Describes`).  A reader takes exactly the
values that have a meaning (`Reads`), and this passes from the values of a member to the member, to
the event, to the rule and to the table.
-/
import ScreenForge.Component.Table
import ScreenForge.Proofs.Json.Grammar

namespace ScreenForge

namespace Component

open List (Forall₂)

/-! ### Values -/

/-- `Reads reader P`: a reader takes exactly the values that a relation gives a meaning. -/
def Reads {α : Type} (reader : Json → Option α) (P : Json → α → Prop) : Prop :=
  ∀ value x, reader value = some x ↔ P value x

/-- A value is a text. -/
def IsText (value : Json) (s : String) : Prop := value = .str s

/-- A value is a text, or says that there is none. -/
def IsOptionalText (value : Json) (s : Option String) : Prop := value = s.elim .null .str

/-- A value switches something on or off: a truth value, one or zero, or a word in any letter
case. -/
def IsSwitch (value : Json) (b : Bool) : Prop :=
  value = .bool b ∨ value = .int b.toInt
    ∨ (∃ x : Binary64, value = .float x ∧ x.isInteger = true ∧ x.truncate? = some b.toInt)
    ∨ ∃ s : String, value = .str s
      ∧ String.ofList (s.toList.map Char.toLower) ∈ if b then onWords else offWords

/-- A value is a list of texts. -/
def IsTexts (value : Json) (texts : List String) : Prop := value = .arr (texts.map .str)

/-- A value is an object that gives each name a value in a relation. -/
def Maps {α : Type} (P : Json → α → Prop) (value : Json) (entries : List (String × α)) : Prop :=
  ∃ members, value = .obj members ∧ Forall₂ (fun m e => m.1 = e.1 ∧ P m.2 e.2) members entries

/-- A member that may be absent: it has a value in a relation, or the default. -/
def Holds {α : Type} (given : Option Json) (default : Option α) (P : Json → α → Prop) (x : α) :
    Prop :=
  (given = none ∧ default = some x) ∨ ∃ value, given = some value ∧ P value x

section

variable {α : Type} {reader : Json → Option α} {P : Json → α → Prop}

theorem reads_str? : Reads Json.str? IsText := by
  intro value s
  cases value <;> simp [Json.str?, IsText]

theorem reads_optionalText? : Reads optionalText? IsOptionalText := by
  intro value s
  cases value <;> cases s <;> simp [optionalText?, IsOptionalText]

theorem reads_switch? : Reads switch? IsSwitch := by
  intro value b
  cases value with
  | str s =>
    have hdisjoint : ∀ w ∈ onWords, w ∉ offWords := by decide
    simp only [switch?, switchOfWord?, IsSwitch]
    cases b <;> grind
  | float x =>
    simp only [switch?, IsSwitch]
    cases b <;> grind
  | int n =>
    simp only [switch?, IsSwitch]
    cases b <;> grind
  | _ => simp [switch?, IsSwitch]

theorem reads_scalar : Reads Scalar.ofJson? fun value x => value = x.toJson := by
  intro value x
  cases value <;> cases x <;> simp [Scalar.ofJson?, Scalar.toJson]

theorem reads_nonemptyText? : Reads nonemptyText? fun value s => value = .str s ∧ s ≠ "" := by
  intro value s
  cases value with
  | str t =>
    simp only [nonemptyText?, Json.str.injEq]
    grind
  | _ => simp [nonemptyText?]

theorem reads_idStem? : Reads idStem? fun value s => value = .str s ∧ isIdStem s := by
  intro value s
  cases value with
  | str t =>
    simp only [idStem?, Json.str.injEq]
    grind
  | _ => simp [idStem?]

theorem reads_format? : Reads format? fun value f => value = .str f.name := by
  intro value f
  cases value with
  | str s =>
    simp only [format?, Json.str.injEq]
    constructor
    · intro h
      rw [Format.ofName?] at h
      have hname := List.find?_some h
      exact (beq_iff_eq.1 hname).symm
    · rintro rfl
      exact Format.ofName?_name f
  | _ => simp [format?]

theorem reads_texts? : Reads texts? IsTexts := by
  intro value texts
  cases value with
  | arr items =>
    simp only [texts?, IsTexts, mapM_iff_forall₂, reads_str? _ _, IsText, Json.arr.injEq]
    rw [← List.forall₂_map_right_iff (R := (· = ·)), List.forall₂_eq_eq_eq]
  | _ => simp [texts?, IsTexts]

/-- A mapping is read if all its values are. -/
theorem Reads.mapping? (h : Reads reader P) : Reads (mapping? reader) (Maps P) := by
  intro value entries
  cases value with
  | obj members =>
    have hentry : (fun (m : String × Json) e => (reader m.2).map (fun v => (m.1, v)) = some e)
        = fun m e => m.1 = e.1 ∧ P m.2 e.2 := by
      funext m e
      simp only [Option.map_eq_some_iff, h m.2, Prod.ext_iff, eq_iff_iff]
      grind
    simp only [Component.mapping?, Maps, mapM_iff_forall₂, hentry, Json.obj.injEq, exists_eq_left']
  | _ => simp [Component.mapping?, Maps]

/-- A member of an object is read as it holds a value. -/
theorem Reads.memberOr (h : Reads reader P) (members : List (String × Json)) (name : String)
    (default x : α) :
    memberOr members name default reader = some x
      ↔ Holds (members.lookup name) (some default) P x := by
  rw [Component.memberOr, Holds]
  cases members.lookup name with
  | none => simp
  | some value => simp [h value x]

/-- The value that an object gives a member of a rule. -/
def Field.value? (field : Field) (members : List (String × Json)) : Option Json :=
  (field.used? members).bind fun name => members.lookup name

/-- A member is read if its value is, or from its default. -/
theorem Reads.field (h : Reads reader P) (field : Field) (members : List (String × Json))
    (default : Option α) (x : α) :
    field.read members default reader = .ok x ↔ Holds (field.value? members) default P x := by
  rw [Field.read, Holds, Field.value?]
  cases hused : field.used? members with
  | none => cases default <;> simp
  | some name =>
    obtain ⟨value, hvalue⟩ : ∃ value, members.lookup name = some value := by
      have hhas := List.find?_some (p := fun n => Assoc.has n members) hused
      rwa [← Assoc.isSome_lookup_eq_has, Option.isSome_iff_exists] at hhas
    have hread := h value x
    simp only [hvalue, Option.bind_eq_bind, Option.bind_some]
    cases hreader : reader value <;> simp_all

end

/-! ### Rules -/

/-- An object describes an event; members that it does not know are ignored. -/
structure Event.Describes (members : List (String × Json)) (event : Event) : Prop where
  listener : Holds (members.lookup "listener") (some none) IsOptionalText event.listener
  inline : Holds (members.lookup "inline") (some false) IsSwitch event.inline
  lambdaArgs : Holds (members.lookup "lambda_args") (some []) IsTexts event.lambdaArgs
  params : Holds (members.lookup "params") (some []) IsTexts event.params
  result : Holds (members.lookup "result") (some none) IsOptionalText event.result

/-- A value is an event. -/
def IsEvent (value : Json) (event : Event) : Prop :=
  ∃ members, value = .obj members ∧ event.Describes members

theorem reads_event? : Reads event? IsEvent := by
  intro value event
  cases value with
  | obj members =>
    constructor
    · intro h
      simp only [event?, Option.bind_eq_bind, Option.bind_eq_some_iff] at h
      obtain ⟨listener, hlistener, inline, hinline, args, hargs, params, hparams, result, hresult,
        heq⟩ := h
      cases heq
      exact ⟨members, rfl, ⟨(reads_optionalText?.memberOr ..).1 hlistener,
        (reads_switch?.memberOr ..).1 hinline, (reads_texts?.memberOr ..).1 hargs,
        (reads_texts?.memberOr ..).1 hparams, (reads_optionalText?.memberOr ..).1 hresult⟩⟩
    · rintro ⟨_, ⟨⟩, h⟩
      rw [event?, (reads_optionalText?.memberOr ..).2 h.listener,
        (reads_switch?.memberOr ..).2 h.inline, (reads_texts?.memberOr ..).2 h.lambdaArgs,
        (reads_texts?.memberOr ..).2 h.params, (reads_optionalText?.memberOr ..).2 h.result]
      rfl
  | _ => simp [event?, IsEvent]

/-- An object describes a rule: every name in it is that of a member, the element is a text that is
not empty, the stem is one of view ids, formats are known, and the other members have values of
their kinds. -/
structure Rule.Describes (members : List (String × Json)) (rule : Rule) : Prop where
  known : ∀ name ∈ Assoc.keys members, ∃ field ∈ Field.all, field.used? members = some name
  tag : Holds (Field.tag.value? members) none (fun v s => v = .str s ∧ s ≠ "") rule.tag
  stem : Holds (Field.idStem.value? members) none (fun v s => v = .str s ∧ isIdStem s = true)
    rule.idStem
  defaults : Holds (Field.defaults.value? members) (some []) (Maps fun v x => v = x.toJson)
    rule.defaults
  attributes : Holds (Field.attributes.value? members) (some []) (Maps IsText) rule.attributeOf
  formats : Holds (Field.formats.value? members) (some []) (Maps fun v f => v = .str f.name)
    rule.formats
  viewClass : Holds (Field.viewClass.value? members) (some none) IsOptionalText rule.viewClass
  accessors : Holds (Field.accessors.value? members) (some []) (Maps IsText) rule.accessors
  methods : Holds (Field.methods.value? members) (some []) (Maps IsText) rule.methods
  events : Holds (Field.events.value? members) (some []) (Maps IsEvent) rule.events

/-- A value is a rule. -/
def IsRule (value : Json) (rule : Rule) : Prop :=
  ∃ members, value = .obj members ∧ rule.Describes members

/-- No name is left over if each is that of a field. -/
theorem extraNames_eq_nil_iff {members : List (String × Json)} :
    extraNames members = []
      ↔ ∀ name ∈ Assoc.keys members, ∃ field ∈ Field.all, field.used? members = some name := by
  simp [extraNames, List.filter_eq_nil_iff]

/-- **A value is read as a rule exactly if it is an object that describes it.** -/
theorem ofJson_eq_ok_iff {value : Json} {rule : Rule} :
    Rule.ofJson value = .ok rule ↔ IsRule value rule := by
  cases value with
  | obj members =>
    constructor
    · intro h
      rw [Rule.ofJson] at h
      split at h
      · next t s d a f v acc m e hextra htag hstem hdefaults hattributes hformats hview haccessors
          hmethods hevents =>
        cases h
        exact ⟨members, rfl, extraNames_eq_nil_iff.1 hextra, (reads_nonemptyText?.field ..).1 htag,
          (reads_idStem?.field ..).1 hstem, (reads_scalar.mapping?.field ..).1 hdefaults,
          (reads_str?.mapping?.field ..).1 hattributes,
          (reads_format?.mapping?.field ..).1 hformats, (reads_optionalText?.field ..).1 hview,
          (reads_str?.mapping?.field ..).1 haccessors, (reads_str?.mapping?.field ..).1 hmethods,
          (reads_event?.mapping?.field ..).1 hevents⟩
      · cases h
    · rintro ⟨_, ⟨⟩, h⟩
      simp only [Rule.ofJson, extraNames_eq_nil_iff.2 h.known,
        (reads_nonemptyText?.field ..).2 h.tag, (reads_idStem?.field ..).2 h.stem,
        (reads_scalar.mapping?.field ..).2 h.defaults,
        (reads_str?.mapping?.field ..).2 h.attributes,
        (reads_format?.mapping?.field ..).2 h.formats,
        (reads_optionalText?.field ..).2 h.viewClass,
        (reads_str?.mapping?.field ..).2 h.accessors,
        (reads_str?.mapping?.field ..).2 h.methods, (reads_event?.mapping?.field ..).2 h.events]
  | _ => simp [Rule.ofJson, IsRule]

/-! ### Tables -/

namespace Table

variable {source : String} {octets : List UInt8} {members pairs : List (String × Json)}
  {table : Table}

/-- A table is read if every value is a rule. -/
theorem ofMembers_eq_ok_iff :
    ofMembers members = .ok table
      ↔ Forall₂ (fun m e => m.1 = e.1 ∧ IsRule m.2 e.2) members table := by
  induction members generalizing table with
  | nil => cases table <;> simp [ofMembers]
  | cons m members ih =>
    rw [ofMembers]
    constructor
    · intro h
      split at h
      · cases h
      next rule hrule =>
      split at h
      · cases h
      next rest hrest =>
      cases h
      exact .cons ⟨rfl, ofJson_eq_ok_iff.1 hrule⟩ (ih.1 hrest)
    · rintro (_ | ⟨⟨hname, hrule⟩, hrest⟩)
      simp only [ofJson_eq_ok_iff.2 hrule, ih.2 hrest, hname]

/-- A file is a table if it is one object that is a table. -/
theorem ofOctets_eq_ok_iff :
    ofOctets source octets = .ok table
      ↔ ∃ members, Json.ofOctets octets = .ok (.obj members) ∧ ofMembers members = .ok table := by
  rw [ofOctets]
  grind

/-- The members of a file are a table if the last value of each type is a rule. -/
theorem exists_ofMembers_iff :
    (∃ table, ofMembers (Assoc.ofList pairs) = .ok table)
      ↔ ∀ type value, pairs.reverse.lookup type = some value → ∃ rule, IsRule value rule := by
  have hall : ∀ members : List (String × Json), (∃ table, ofMembers members = .ok table)
      ↔ ∀ m ∈ members, ∃ rule, IsRule m.2 rule := by
    intro members
    simp only [ofMembers_eq_ok_iff]
    induction members with
    | nil => exact ⟨fun _ m hm => absurd hm List.not_mem_nil, fun _ => ⟨[], .nil⟩⟩
    | cons m members ih =>
      rw [List.forall_mem_cons, ← ih]
      constructor
      · rintro ⟨_, _ | ⟨⟨-, hrule⟩, hrest⟩⟩
        exact ⟨⟨_, hrule⟩, _, hrest⟩
      · rintro ⟨⟨rule, hrule⟩, table, hrest⟩
        exact ⟨(m.1, rule) :: table, .cons ⟨rfl, hrule⟩ hrest⟩
  simp only [hall, ← Assoc.lookup_ofList]
  constructor
  · exact fun h type value hvalue => h _ (Assoc.mem_of_lookup hvalue)
  · exact fun h m hm => h m.1 m.2 (Assoc.lookup_of_mem (Assoc.nodup_keys_ofList pairs) hm)

/-- A type has the rule that its member is. -/
theorem lookup_eq_some_iff (h : ofMembers members = .ok table) {type : String} {rule : Rule} :
    table.lookup type = some rule
      ↔ ∃ value, members.lookup type = some value ∧ IsRule value rule := by
  rw [ofMembers_eq_ok_iff] at h
  induction h with
  | nil => simp
  | @cons m e members table hentry _ ih =>
    obtain ⟨hname, hrule⟩ := hentry
    rw [List.lookup_cons, List.lookup_cons, hname]
    cases type == e.1 with
    | false => exact ih
    | true =>
      simp only [Option.some.injEq, exists_eq_left']
      constructor
      · rintro rfl
        exact hrule
      · intro hother
        have hsame := (ofJson_eq_ok_iff.2 hrule).symm.trans (ofJson_eq_ok_iff.2 hother)
        exact Except.ok.inj hsame

/-- Whether a refusal is one that a loader declares. -/
def Error.isDeclared : Error → Bool
  | .undecodable => false
  | _ => true

theorem isDeclared_of_ofMembers {error : Error} (h : ofMembers members = .error error) :
    error.isDeclared := by
  induction members with
  | nil => cases h
  | cons m members ih =>
    rw [ofMembers] at h
    split at h
    · cases h
      rfl
    · split at h
      · next hrest =>
        cases h
        exact ih hrest
      · cases h

/-- The only error that is not declared is a complete string that is not UTF-8. -/
theorem isDeclared_eq_false_iff {error : Error} (h : ofOctets source octets = .error error) :
    error.isDeclared = false ↔ Json.ofOctets octets = .error .undecodable := by
  rw [ofOctets] at h
  split at h
  · next hread =>
    cases h
    exact iff_of_true rfl hread
  · next hne hread =>
    cases h
    exact iff_of_false Bool.noConfusion fun hbroken =>
      hne (Except.error.inj (hread.symm.trans hbroken))
  · next hread =>
    refine iff_of_false ?_ fun hbroken => by cases hread.symm.trans hbroken
    rw [isDeclared_of_ofMembers h]
    exact Bool.noConfusion
  · next hread =>
    cases h
    exact iff_of_false Bool.noConfusion fun hbroken => by cases hread.symm.trans hbroken

/-- **A table is loaded exactly from an object whose values are rules**, where the last value of a
type counts.  It has the types of the file, each at its first place, and no others, and for each of
them the rule that its last value is.  Any other file is refused, with a declared error unless a
string in it is not UTF-8. -/
theorem table_loaded_iff (source : String) (octets : List UInt8) :
    ((∃ table, ofOctets source octets = .ok table) ↔ ∃ pairs, Json.IsObject octets pairs
        ∧ ∀ type value, pairs.reverse.lookup type = some value → ∃ rule, IsRule value rule)
      ∧ (∀ table pairs, ofOctets source octets = .ok table → Json.IsObject octets pairs →
        table.types = (Assoc.keys pairs).eraseDups
          ∧ ∀ type, ((table.lookup type).isSome = true ↔ type ∈ table.types)
            ∧ ∀ rule, table.lookup type = some rule
              ↔ ∃ value, pairs.reverse.lookup type = some value ∧ IsRule value rule)
      ∧ ∀ error, ofOctets source octets = .error error →
        (error.isDeclared = false ↔ Json.ofOctets octets = .error .undecodable)
          ∧ (error.isDeclared = false → ∀ s : String, octets ≠ s.toUTF8.toList) := by
  refine ⟨?_, fun table pairs htable hpairs => ?_, fun error herror => ?_⟩
  · simp only [ofOctets_eq_ok_iff, Json.ofOctets_obj_iff, ← exists_ofMembers_iff]
    grind
  · have hread := Json.ofOctets_obj_iff.2 ⟨pairs, hpairs, rfl⟩
    obtain ⟨members, hmembers, htable⟩ := ofOctets_eq_ok_iff.1 htable
    rw [hread] at hmembers
    cases hmembers
    refine ⟨?_, fun type => ⟨Assoc.isSome_lookup, fun rule => ?_⟩⟩
    · rw [types_ofMembers htable, Assoc.keys_ofList]
    · rw [lookup_eq_some_iff htable, Assoc.lookup_ofList]
  · have hbroken := isDeclared_eq_false_iff herror
    refine ⟨hbroken, fun h s hs => ?_⟩
    exact Json.ofOctets_toUTF8_ne s (hs ▸ hbroken.1 h)

example : (ofOctets "map.json"
    ("\x7b\"A\": 1, \"B\": \x7b\"xml_tag\": \"b\", \"id_prefix\": \"b\"\x7d, "
      ++ "\"A\": \x7b\"target_tag\": \"a\", \"id_prefix\": \"a\"\x7d\x7d"
    ).toUTF8.data.toList).toOption.map types = some ["A", "B"] := by
  decide +kernel

/-- A name with an octet that belongs to no character ends the reading. -/
theorem broken_name_escapes :
    ofOctets "map.json" [0x7B, 0x22, 0x41, 0xFF, 0x22, 0x3A, 0x20, 0x31, 0x7D] = .error .undecodable
      ∧ Error.isDeclared .undecodable = false :=
  ⟨rfl, rfl⟩

end Table
end Component
end ScreenForge
