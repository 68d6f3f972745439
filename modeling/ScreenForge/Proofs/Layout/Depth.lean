/-
# How deep a layout may be

The depth of a descriptor is checked on its JSON, before there is a tree.  A component is an object
in a list, so a tree takes two levels of JSON for each of its own, and what the check lets through
is a tree within the limit.
-/
import ScreenForge.Proofs.Layout.RoundTrip

namespace ScreenForge

namespace Json

/-- So many steps below a value, each from a list or an object to an item of it, stands another. -/
inductive Beneath : Json → Nat → Json → Prop where
  | here (v : Json) : Beneath v 0 v
  | step {v u w : Json} {n : Nat} (hu : u ∈ v.parts) (h : Beneath u n w) : Beneath v (n + 1) w

theorem lt_height_iff {v : Json} {n : Nat} : n < v.height ↔ ∃ u ∈ v.parts, n ≤ u.height := by
  rw [show n < v.height ↔ ¬ (0 : Int) + v.height ≤ n by omega, height_le_iff]
  constructor
  · intro hno
    by_contra hall
    refine hno ⟨by omega, fun u hu => ?_⟩
    by_contra hlow
    exact hall ⟨u, hu, by omega⟩
  · rintro ⟨u, hu, hle⟩ ⟨-, hall⟩
    have hlow := hall u hu
    omega

/-- **The height of a value is the length of the longest chain below it.** -/
theorem beneath_iff {v : Json} {n : Nat} : (∃ w, Beneath v n w) ↔ n ≤ v.height := by
  induction n generalizing v with
  | zero => exact ⟨fun _ => Nat.zero_le _, fun _ => ⟨v, .here v⟩⟩
  | succ n ih =>
    rw [Nat.succ_le_iff, lt_height_iff]
    constructor
    · rintro ⟨w, h⟩
      cases h with
      | step hu h => exact ⟨_, hu, ih.1 ⟨w, h⟩⟩
    · rintro ⟨u, hu, hle⟩
      obtain ⟨w, h⟩ := ih.2 hle
      exact ⟨w, .step hu h⟩

end Json

namespace Descriptor

/-- The check fails exactly beyond the height. -/
theorem checkDepth_eq_error_iff {v : Json} {limit depth : Int} :
    (∃ d, checkDepth v limit depth = .error (.tooDeep d limit)) ↔ limit < depth + v.height := by
  rw [← Int.not_le, ← Json.tooDeep?_eq_none_iff]
  unfold checkDepth
  cases v.tooDeep? limit depth with
  | none => simp
  | some d => simp

theorem extract_ne_tooDeep (text : String) (repair : Bool) (d limit : Int) :
    extract text repair ≠ .error (.tooDeep d limit) := by
  have hmembers : ∀ fault v, membersOf fault v ≠ .error (.tooDeep d limit) := by
    intro fault v
    cases v <;> simp [membersOf]
  unfold extract
  split
  · simp
  · split
    · exact hmembers _ _
    · split
      · exact hmembers _ _
      · simp

end Descriptor

namespace Layout

open Component (Node)

variable {members : List (String × Json)} {type : String}

theorem heightItems_listed_lt (h : IsTyped members type) :
    Json.heightItems (listed members) < (Json.obj members).height := by
  rw [Json.lt_height_iff, Json.parts, listed]
  split
  · next items hitems =>
    exact ⟨.arr items, List.mem_map_of_mem (Assoc.mem_of_lookup hitems), Nat.le_refl _⟩
  · exact ⟨.str type, List.mem_map_of_mem (Assoc.mem_of_lookup h.1), Nat.le_refl _⟩

/-- **A level of the tree takes two levels of JSON**: an object, and the list in it. -/
theorem heightAll_nodesOf_le (items : List Json) :
    2 * Node.heightAll (nodesOf items) ≤ Json.heightItems items := by
  induction items using inductListed with
  | nil => exact Nat.le_refl _
  | cons entry rest inside others =>
    rw [Json.heightItems]
    by_cases hentry : IsComponent entry
    · obtain ⟨members, type, rfl, htype⟩ := hentry
      have hlist := inside members rfl
      have hobject := heightItems_listed_lt htype
      rw [nodesOf, nodeOf?_obj htype, Option.toList_some, List.singleton_append, Node.heightAll,
        Node.height]
      omega
    · rw [nodesOf_cons_of_skipped hentry]
      omega

/-- What the check lets through is a tree within the limit. -/
theorem height_screenOf_le {text : String} {limits : Limits} {repair : Bool} {f : Form}
    (h : form text limits repair = .ok f) : ((screenOf f).height : Int) ≤ limits.maxDepth + 1 := by
  obtain ⟨-, found, -, hdepth, hmembers, htype, -⟩ := form_eq_ok_iff.1 h
  obtain ⟨type, htype⟩ := Option.isSome_iff_exists.1 htype
  have hform : (Json.obj f.members).height < (Json.obj found.members).height :=
    Json.lt_height_iff.2
      ⟨.obj f.members, List.mem_map_of_mem (Assoc.mem_of_lookup hmembers), Nat.le_refl _⟩
  have hlist := heightItems_listed_lt (typeOf?_eq_some_iff.1 htype)
  have htree := heightAll_nodesOf_le (listed f.members)
  rw [screenOf, nodeOf?_obj (typeOf?_eq_some_iff.1 htype), Option.getD_some, Node.height]
  rw [jsonDepth] at hdepth
  omega

/-- A text is too deep if what it holds is. -/
theorem form_tooDeep_iff {text : String} {limits : Limits} {repair : Bool} :
    (∃ d limit, form text limits repair = .error (.descriptor (.tooDeep d limit)))
      ↔ (text.utf8ByteSize : Int) ≤ limits.maxSize
        ∧ ∃ found, Descriptor.extract text repair = .ok found
          ∧ jsonDepth limits.maxDepth < (Json.obj found.members).height := by
  by_cases hsize : (text.utf8ByteSize : Int) ≤ limits.maxSize
  · rw [and_iff_right hsize]
    simp only [form, Descriptor.checkSize_eq_ok_iff.2 hsize]
    cases hfound : Descriptor.extract text repair with
    | error e =>
      have hother := Descriptor.extract_ne_tooDeep text repair
      rw [hfound] at hother
      simpa using hother
    | ok found =>
      simp only [Except.ok.injEq, exists_eq_left']
      by_cases hdepth : jsonDepth limits.maxDepth < (Json.obj found.members).height
      · obtain ⟨d, hd⟩ := Descriptor.checkDepth_eq_error_iff.2 (by rwa [Int.zero_add])
        exact ⟨fun _ => hdepth, fun _ => ⟨d, _, by rw [hd]⟩⟩
      · have hok : Descriptor.checkDepth (.obj found.members) (jsonDepth limits.maxDepth) = .ok () :=
          Descriptor.checkDepth_eq_ok_iff.2 (by omega)
        simp only [hok]
        refine ⟨?_, fun h => absurd h hdepth⟩
        rintro ⟨d, limit, h⟩
        split at h
        · split at h <;> cases h
        · cases h
  · have hlarge : Descriptor.checkSize text limits.maxSize "layout descriptor"
        = .error (.tooLarge "layout descriptor" text.utf8ByteSize limits.maxSize) :=
      if_pos (by omega)
    simp [form, hlarge, hsize]

/-- **The limit on the depth is exact.**  The check of a value that is met at a depth fails exactly
if the longest chain below the value leads beyond the limit.  So a descriptor is refused for its
depth exactly if its JSON is higher than twice the limit and four, and the tree of one that is
accepted is at most one level higher than the limit. -/
theorem layout_depth_limit_exact (text : String) (limits : Limits) (repair : Bool) :
    (∀ (v : Json) (limit depth : Int),
      ((∃ d, Descriptor.checkDepth v limit depth = .error (.tooDeep d limit))
          ↔ limit < depth + v.height)
        ∧ (Descriptor.checkDepth v limit depth = .ok () ↔ depth + v.height ≤ limit)
        ∧ ∀ n, n ≤ v.height ↔ ∃ w, Json.Beneath v n w)
    ∧ (∀ f, form text limits repair = .ok f → ((screenOf f).height : Int) ≤ limits.maxDepth + 1)
    ∧ ((∃ d limit, form text limits repair = .error (.descriptor (.tooDeep d limit)))
      ↔ (text.utf8ByteSize : Int) ≤ limits.maxSize
        ∧ ∃ found, Descriptor.extract text repair = .ok found
          ∧ 2 * limits.maxDepth + 4 < (Json.obj found.members).height) := by
  refine ⟨fun v limit depth => ?_, fun f => height_screenOf_le, ?_⟩
  · exact ⟨Descriptor.checkDepth_eq_error_iff, Descriptor.checkDepth_eq_ok_iff,
      fun n => Json.beneath_iff.symm⟩
  · rw [form_tooDeep_iff, jsonDepth, Int.mul_comm]

end Layout
end ScreenForge
