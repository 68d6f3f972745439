/-
# Which layouts come to an end

Placing a component stops for good where an attribute has no text.  Of all formats only sizes and
whole numbers lack one, and only for a value that reads as a number beyond the binary64 range, like
`1e999` or `inf`: a text that is no number is kept as it stands.
-/
import ScreenForge.Component.Packaged
import ScreenForge.Layout.Reading
import ScreenForge.Proofs.Collect
import ScreenForge.Proofs.Journal
import ScreenForge.Proofs.Layout.Emitted

namespace ScreenForge

open List

namespace Component

theorem cut_eq_unbounded_iff {s : String} :
    cut s = .unbounded ↔ ∃ negative, Numeral.decimal? s = some (.infinite negative) := by
  unfold cut
  split
  · next h => simp [h]
  · next negative h => simp [h]
  · next x hx h =>
    have hne : ∀ negative, x ≠ .infinite negative := fun negative he => hx negative (he ▸ rfl)
    split <;> simp [h, hne]

/-- **Only sizes and whole numbers lack a text, and only beyond the range.** -/
theorem Format.render?_eq_none_iff {format : Format} {value : Scalar} :
    format.render? value = none ↔ (format = .dimension ∨ format = .integer) ∧
      ∃ negative, Numeral.decimal? value.asText = some (.infinite negative) := by
  rw [← cut_eq_unbounded_iff]
  cases format with
  | dimension | integer => cases h : cut value.asText <;> simp [render?, h]
  | _ => simp [render?]

/-- Whether a rule asks for a whole number of a value beyond the range. -/
def Rule.Unbounded (rule : Rule) (properties : List (String × Scalar)) : Prop :=
  ∃ entry ∈ rule.attributeOf,
    (rule.formatOf entry.1 = .dimension ∨ rule.formatOf entry.1 = .integer) ∧
    ∃ value, (rule.merged properties).lookup entry.1 = some value ∧
      ∃ negative, Numeral.decimal? value.asText = some (.infinite negative)

/-- A rule has no attributes for properties with an unbounded number. -/
theorem Rule.attributes?_eq_none_iff {rule : Rule} {properties : List (String × Scalar)} :
    rule.attributes? (rule.merged properties) = none ↔ rule.Unbounded properties := by
  rw [attributes?, mapM_eq_none_iff]
  simp only [mem_filterMap, id, exists_eq_right, mapped?, Option.map_eq_some_iff,
    Option.map_eq_none_iff, Format.render?_eq_none_iff, Unbounded]
  constructor
  · rintro ⟨entry, hentry, value, hvalue, hformat, hinf⟩
    exact ⟨entry, hentry, hformat, value, hvalue, hinf⟩
  · rintro ⟨entry, hentry, hformat, value, hvalue, hinf⟩
    exact ⟨entry, hentry, value, hvalue, hformat, hinf⟩

end Component

namespace Layout

open Component (Node Rule Table)
open Journal (settle stops)

/-- The fault of a component that becomes a view. -/
def faultOf (e : Rule × Node) : List Fault :=
  if (e.1.attributes? (e.1.merged e.2.properties)).isNone then [.unboundedNumber] else []

theorem stops_placingHere (rule : Rule) (seen : List String) (node : Node) :
    stops (placingHere rule seen node.name node.properties) = faultOf (rule, node) := by
  unfold placingHere faultOf
  rw [Journal.stops_look, Journal.stops_append]
  split <;> split <;> rfl

theorem placing_eq (table : Table) (seen : List String) (rule : Rule) (node : Node) :
    placing table seen rule node =
      let inside := placingAll table (seeName seen node.name) node.children
      (placingHere rule seen node.name node.properties ++ inside.1, inside.2) := by
  obtain ⟨type, name, properties, children⟩ := node
  rw [placing]

theorem stops_placing {table : Table} {node : Node}
    (h : ∀ seen, stops (placingAll table seen node.children).1
      = (mapped table (Node.walkAll node.children)).flatMap faultOf) (seen : List String)
    (rule : Rule) : stops (placing table seen rule node).1
      = faultOf (rule, node) ++ (mapped table (Node.walkAll node.children)).flatMap faultOf := by
  rw [placing_eq, Journal.stops_append, stops_placingHere, h]

/-- Placing holds one fault for every component with an unbounded number that becomes a view. -/
theorem stops_placingAll (table : Table) (seen : List String) (nodes : List Node) :
    stops (placingAll table seen nodes).1
      = (mapped table (Node.walkAll nodes)).flatMap faultOf := by
  induction nodes using Node.inductAll generalizing seen with
  | nil => simp [placingAll, mapped, Node.walkAll]
  | cons node rest inside others =>
    rw [mapped_walkAll_cons, flatMap_append, flatMap_append]
    obtain ⟨type, name, properties, children⟩ := node
    rw [placingAll]
    cases h : table.lookup type with
    | none =>
      rw [Journal.stops_append, others]
      exact congrArg (· ++ _) (inside seen)
    | some rule =>
      rw [Journal.stops_append, others, stops_placing inside]
      simp

/-- **A layout stops at the components that ask for a whole number beyond the range.** -/
theorem stops_placingScreen (table : Table) (screen : Node) :
    stops (placingScreen table screen) = (emitted table screen).flatMap faultOf := by
  have hunmapped : stops (if (table.lookup screen.type).isNone
      then [unmapped screen.type screen.name] else []) = [] := by
    split <;> rfl
  rw [placingScreen, Journal.stops_append, hunmapped,
    stops_placing fun seen => stops_placingAll table seen screen.children]
  rfl

theorem faultOf_eq_nil_iff {e : Rule × Node} : faultOf e = [] ↔ ¬ e.1.Unbounded e.2.properties := by
  rw [← Rule.attributes?_eq_none_iff, faultOf]
  cases e.1.attributes? (e.1.merged e.2.properties) <;> simp

/-- A screen is placed to its end if no component has one. -/
theorem stops_placingScreen_eq_nil_iff {table : Table} {screen : Node} :
    stops (placingScreen table screen) = []
      ↔ ∀ e ∈ emitted table screen, ¬ e.1.Unbounded e.2.properties := by
  rw [stops_placingScreen, flatMap_eq_nil_iff]
  exact forall₂_congr fun e _ => faultOf_eq_nil_iff

theorem eq_unboundedNumber_of_mem_stops {table : Table} {screen : Node} {fault : Fault}
    (h : fault ∈ stops (placingScreen table screen)) : fault = .unboundedNumber := by
  rw [stops_placingScreen] at h
  obtain ⟨e, -, he⟩ := mem_flatMap.1 h
  unfold faultOf at he
  split at he
  · exact mem_singleton.1 he
  · exact absurd he not_mem_nil

theorem attributes?_eq_some_of_bounded {e : Rule × Node} (h : ¬ e.1.Unbounded e.2.properties) :
    e.1.attributes? (e.1.merged e.2.properties) = some (attributesOf e.1 e.2.properties) := by
  rw [← Rule.attributes?_eq_none_iff] at h
  obtain ⟨attributes, hattributes⟩ := Option.ne_none_iff_exists'.1 h
  rw [attributesOf, hattributes, Option.getD_some]

/-- **A layout comes to its end exactly if no component asks for a whole number beyond the range.**
Otherwise that is the fault it stops with.  A layout that comes to its end has a view for every
component with a rule, and every view has all the attributes that its rule gives it. -/
theorem layout_complete_iff_bounded (table : Table) (a : Allocator) (screen : Node) :
    ((∃ report, settle .unlimited (placingScreen table screen) = .ok report) ↔
      ∀ e ∈ emitted table screen, ¬ e.1.Unbounded e.2.properties) ∧
    (∀ fault, settle .unlimited (placingScreen table screen) = .error fault →
      fault = .unboundedNumber) ∧
    ∀ report, settle .unlimited (placingScreen table screen) = .ok report →
      (ofScreen table a screen).walk.map (fun v => (v.rule, v.type, v.name, some v.attributes))
        = (emitted table screen).map fun e =>
          (e.1, e.2.type, e.2.name, e.1.attributes? (e.1.merged e.2.properties)) := by
  have hok : ∀ report, settle .unlimited (placingScreen table screen) = .ok report →
      ∀ e ∈ emitted table screen, ¬ e.1.Unbounded e.2.properties := fun report h =>
    stops_placingScreen_eq_nil_iff.1 (Journal.settle_unlimited_eq_ok_iff.1 h).1
  refine ⟨⟨?_, ?_⟩, ?_, ?_⟩
  · rintro ⟨report, h⟩
    exact hok report h
  · intro h
    exact ⟨_, Journal.settle_unlimited_eq_ok_iff.2 ⟨stops_placingScreen_eq_nil_iff.2 h, rfl⟩⟩
  · intro fault h
    have hhead := Journal.settle_unlimited_eq_error_iff.1 h
    exact eq_unboundedNumber_of_mem_stops (mem_of_mem_head? (Option.mem_def.2 hhead))
  · intro report h
    have horigin := congrArg (List.map fun o => (o.1, o.2.1, o.2.2.1, some o.2.2.2))
      (map_origin_walk table a screen)
    rw [map_map, map_map] at horigin
    refine horigin.trans (map_congr_left fun e he => ?_)
    rw [attributes?_eq_some_of_bounded (hok report h e he)]
    rfl

/-- A screen with a button whose width is a number beyond the range. -/
def wideButton : String :=
  "\x7b\"Properties\":\x7b\"$Name\":\"Screen1\",\"$Type\":\"Form\",\"$Components\":["
    ++ "\x7b\"$Name\":\"Button1\",\"$Type\":\"Button\",\"Width\":\"1e999\"\x7d]\x7d\x7d"

/-- The width of one button stops the whole layout. -/
theorem layout_stops_at_wide_button : ∃ form, Layout.form wideButton {} false = .ok form ∧
    settle .unlimited (placingScreen .packaged (screenOf form)) = .error .unboundedNumber := by
  have h : (match Layout.form wideButton {} false with
      | .ok form => (stops (placingScreen .packaged (screenOf form))).head?
      | .error _ => none) = some .unboundedNumber := by decide +kernel
  cases hform : Layout.form wideButton {} false with
  | error e =>
    rw [hform] at h
    cases h
  | ok form =>
    rw [hform] at h
    exact ⟨form, rfl, Journal.settle_unlimited_eq_error_iff.2 h⟩

end Layout
end ScreenForge
