/-
# The values inside a value

A list holds its items and an object the values of its members (`parts`); other values hold nothing.
To ask something of a value `Throughout` is to ask it of the value, of its parts, of theirs, and so
on.
-/
import ScreenForge.Json.Basic

namespace ScreenForge
namespace Json

open List

variable (items : List Json) (members : List (String × Json))

/-- The values that a value holds, in order. -/
def parts : Json → List Json
  | .arr items => items
  | .obj members => members.map Prod.snd
  | _ => []

theorem sizeOf_lt_of_mem_parts {v u : Json} (h : u ∈ v.parts) : sizeOf u < sizeOf v := by
  cases v with
  | arr items =>
    have hsize := sizeOf_lt_of_mem (show u ∈ items from h)
    simp only [Json.arr.sizeOf_spec]
    omega
  | obj members =>
    obtain ⟨⟨name, w⟩, hw, rfl⟩ := mem_map.1 (show u ∈ members.map Prod.snd from h)
    have hsize := sizeOf_lt_of_mem hw
    simp only [Json.obj.sizeOf_spec, Prod.mk.sizeOf_spec] at hsize ⊢
    omega
  | null | bool | int | float | str => exact absurd h not_mem_nil

/-- **Induction over values.** -/
theorem inductParts {P : Json → Prop} (h : ∀ v : Json, (∀ u ∈ v.parts, P u) → P v) (v : Json) :
    P v :=
  h v fun u _ => inductParts h u
termination_by sizeOf v
decreasing_by exact sizeOf_lt_of_mem_parts ‹_›

mutual

/-- A property holds of a value and of all that is inside it. -/
def Throughout (P : Json → Prop) : Json → Prop
  | .arr items => P (.arr items) ∧ ThroughoutItems P items
  | .obj members => P (.obj members) ∧ ThroughoutMembers P members
  | v => P v

/-- `Throughout` for the items of a list. -/
def ThroughoutItems (P : Json → Prop) : List Json → Prop
  | [] => True
  | v :: rest => Throughout P v ∧ ThroughoutItems P rest

/-- `Throughout` for the members of an object. -/
def ThroughoutMembers (P : Json → Prop) : List (String × Json) → Prop
  | [] => True
  | (_, v) :: rest => Throughout P v ∧ ThroughoutMembers P rest

end

variable {P : Json → Prop} (v : Json)

theorem throughoutItems_iff : ThroughoutItems P items ↔ ∀ v ∈ items, Throughout P v := by
  induction items with
  | nil => simp [ThroughoutItems]
  | cons v rest ih => simp [ThroughoutItems, ih]

theorem throughoutMembers_iff : ThroughoutMembers P members ↔ ∀ m ∈ members, Throughout P m.2 := by
  induction members with
  | nil => simp [ThroughoutMembers]
  | cons m rest ih => simp [ThroughoutMembers, ih]

/-- What holds throughout a value holds of it and throughout its parts. -/
theorem throughout_iff : v.Throughout P ↔ P v ∧ ∀ u ∈ v.parts, u.Throughout P := by
  cases v with
  | arr items => rw [Throughout, throughoutItems_iff, parts]
  | obj members => rw [Throughout, throughoutMembers_iff, parts, forall_mem_map]
  | null | bool | int | float | str => simp [Throughout, parts]

theorem throughout_arr :
    Throughout P (.arr items) ↔ P (.arr items) ∧ ∀ v ∈ items, Throughout P v :=
  throughout_iff _

theorem throughout_obj :
    Throughout P (.obj members) ↔ P (.obj members) ∧ ∀ m ∈ members, Throughout P m.2 := by
  rw [Throughout, throughoutMembers_iff]

theorem Throughout.here {v : Json} (h : v.Throughout P) : P v := ((throughout_iff v).1 h).1

theorem Throughout.imp {Q : Json → Prop} (himp : ∀ v, P v → Q v) {v : Json}
    (h : v.Throughout P) : v.Throughout Q := by
  induction v using inductParts with
  | h v inside =>
    rw [throughout_iff] at h ⊢
    exact ⟨himp v h.1, fun u hu => inside u hu (h.2 u hu)⟩

/-! ### Depth -/

variable {limit depth : Int}

theorem heightItems_le_iff : depth + heightItems items ≤ limit
      ↔ depth ≤ limit ∧ ∀ v ∈ items, depth + 1 + v.height ≤ limit := by
  induction items with
  | nil => simp [heightItems]
  | cons v rest ih =>
    have hmax : depth + heightItems (v :: rest) ≤ limit
        ↔ depth + 1 + v.height ≤ limit ∧ depth + heightItems rest ≤ limit := by
      rw [heightItems]
      omega
    rw [hmax, ih, forall_mem_cons]
    exact and_left_comm

theorem heightItems_append (items others : List Json) :
    heightItems (items ++ others) = max (heightItems items) (heightItems others) := by
  induction items with
  | nil => simp [heightItems]
  | cons v rest ih => rw [cons_append, heightItems, heightItems, ih, Nat.max_assoc]

theorem heightMembers_eq : heightMembers members = heightItems (members.map Prod.snd) := by
  induction members with
  | nil => rfl
  | cons m rest ih => rw [heightMembers, map_cons, heightItems, ih]

/-- A value is within a limit if its parts are, one level down. -/
theorem height_le_iff :
    depth + v.height ≤ limit ↔ depth ≤ limit ∧ ∀ u ∈ v.parts, depth + 1 + u.height ≤ limit := by
  cases v with
  | arr items => rw [height, heightItems_le_iff, parts]
  | obj members => rw [height, heightMembers_eq, heightItems_le_iff, parts]
  | null | bool | int | float | str => simp [height, parts]

theorem tooDeepItems?_eq_none_iff :
    tooDeepItems? limit depth items = none ↔ ∀ v ∈ items, tooDeep? limit depth v = none := by
  induction items with
  | nil => simp [tooDeepItems?]
  | cons v rest ih =>
    rw [tooDeepItems?, forall_mem_cons, ← ih]
    cases tooDeep? limit depth v <;> simp

theorem tooDeepMembers?_eq :
    tooDeepMembers? limit depth members = tooDeepItems? limit depth (members.map Prod.snd) := by
  induction members with
  | nil => rfl
  | cons m rest ih =>
    rw [tooDeepMembers?, map_cons, tooDeepItems?, ih]

theorem tooDeep?_eq_none_parts :
    tooDeep? limit depth v = none
      ↔ depth ≤ limit ∧ ∀ u ∈ v.parts, tooDeep? limit (depth + 1) u = none := by
  cases v with
  | arr items =>
    rw [tooDeep?, parts, ← tooDeepItems?_eq_none_iff]
    by_cases h : depth > limit
    · simp [h, Int.not_le.2 h]
    · simp [h, Int.not_lt.1 h]
  | obj members =>
    rw [tooDeep?, parts, ← tooDeepItems?_eq_none_iff, tooDeepMembers?_eq]
    by_cases h : depth > limit
    · simp [h, Int.not_le.2 h]
    · simp [h, Int.not_lt.1 h]
  | null | bool | int | float | str => simp [tooDeep?, parts]

/-- **What is too deep.**  A value met at a depth stays within a limit exactly if its height does
not take it beyond. -/
theorem tooDeep?_eq_none_iff : tooDeep? limit depth v = none ↔ depth + v.height ≤ limit := by
  induction v using inductParts generalizing depth with
  | h v inside =>
    rw [tooDeep?_eq_none_parts, height_le_iff]
    exact and_congr_right fun _ => forall₂_congr fun u hu => inside u hu

end Json
end ScreenForge
