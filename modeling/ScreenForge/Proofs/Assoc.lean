/-
# Records

A record is built by putting pairs one after the other, so what each `put` keeps holds of the whole
record (`ofList_induct`).
-/
import Mathlib.Data.List.Induction
import ScreenForge.Assoc

namespace ScreenForge
namespace Assoc

open List

variable {β γ : Type} {entries : List (String × β)} {e : String × β} {name : String}
  (pairs : List (String × β))

theorem mem_keys (h : e ∈ entries) : e.1 ∈ keys entries :=
  mem_map_of_mem h

theorem has_iff : has name entries ↔ name ∈ keys entries := by
  rw [← isSome_lookup_eq_has, isSome_lookup]

/-- A look-up finds every entry of a record with distinct names. -/
theorem lookup_of_mem (h : (keys entries).Nodup) (he : e ∈ entries) :
    entries.lookup e.1 = some e.2 := by
  obtain ⟨front, back, rfl⟩ := append_of_mem he
  refine lookup_eq_some_iff.2 ⟨front, back, rfl, fun d hd => ?_⟩
  have hfront := not_mem_keys_front h
  exact bne_iff_ne.2 fun heq => hfront (heq ▸ mem_keys hd)

/-! ### One pair is put -/

/-- Putting commutes with a change of the values. -/
theorem put_map (f : β → γ) (name : String) (value : β) (entries : List (String × β)) :
    put name (f value) (entries.map fun e => (e.1, f e.2))
      = (put name value entries).map fun e => (e.1, f e.2) := by
  induction entries with
  | nil => rfl
  | cons e rest ih =>
    rw [map_cons, put, put, ih]
    split <;> rfl

/-- `put` adds nothing but its pair. -/
theorem mem_of_mem_put {value : β} (h : e ∈ put name value entries) :
    e = (name, value) ∨ e ∈ entries := by
  induction entries with
  | nil => exact .inl (mem_singleton.1 h)
  | cons first rest ih =>
    rw [put] at h
    split at h
    · exact (mem_cons.1 h).imp_right (mem_cons_of_mem _)
    · obtain rfl | h := mem_cons.1 h
      · exact .inr mem_cons_self
      · exact (ih h).imp_right (mem_cons_of_mem _)

/-- **A name that is put has the value it was put with**, and no other. -/
theorem mem_put_iff {value other : β} (hnodup : (keys entries).Nodup) :
    (name, other) ∈ put name value entries ↔ other = value := by
  induction entries with
  | nil => rw [put, mem_singleton, Prod.mk.injEq, and_iff_right rfl]
  | cons first rest ih =>
    obtain ⟨hfirst, hrest⟩ := nodup_cons.1 hnodup
    rw [put]
    split
    · next heq =>
      have hrest : (name, other) ∉ rest := fun hmem => hfirst (heq ▸ mem_keys hmem)
      rw [mem_cons, or_iff_left hrest, Prod.mk.injEq, and_iff_right rfl]
    · next hne =>
      have hfirst : (name, other) ≠ first := fun heq => hne (congrArg Prod.fst heq).symm
      rw [mem_cons, or_iff_right hfirst]
      exact ih hrest

/-! ### All pairs are put -/

theorem ofList_append_singleton (p : String × β) :
    ofList (pairs ++ [p]) = put p.1 p.2 (ofList pairs) := by
  rw [ofList, foldl_append]
  rfl

/-- **What holds of the empty record and is kept by putting each pair holds of their record.** -/
theorem ofList_induct {P : List (String × β) → Prop} (hnil : P [])
    (hput : ∀ p ∈ pairs, ∀ entries, P entries → P (put p.1 p.2 entries)) : P (ofList pairs) := by
  have hfold : ∀ entries, P entries →
      P (pairs.foldl (fun entries p => put p.1 p.2 entries) entries) := by
    induction pairs with
    | nil => exact fun _ h => h
    | cons p rest ih =>
      rw [forall_mem_cons] at hput
      exact fun entries h => ih hput.2 _ (hput.1 entries h)
  exact hfold [] hnil

/-- A record has each name once. -/
theorem nodup_keys_ofList : (keys (ofList pairs)).Nodup :=
  ofList_induct (P := fun entries => (keys entries).Nodup) pairs nodup_nil
    fun _ _ _ h => nodup_keys_put h

/-- A record holds only what was put into it. -/
theorem mem_of_mem_ofList {pairs : List (String × β)} (h : e ∈ ofList pairs) : e ∈ pairs := by
  have hall : ∀ d ∈ ofList pairs, d ∈ pairs := by
    refine ofList_induct (P := (∀ d ∈ ·, d ∈ pairs)) pairs
      (fun d hd => absurd hd not_mem_nil) ?_
    intro p hp entries hentries d hd
    obtain rfl | hd := mem_of_mem_put hd
    · exact hp
    · exact hentries d hd
  exact hall e h

/-- **A look-up finds the value that was put last.** -/
theorem lookup_ofList (key : String) : (ofList pairs).lookup key = pairs.reverse.lookup key := by
  induction pairs using List.reverseRecOn with
  | nil => rfl
  | append_singleton pairs p ih =>
    rw [ofList_append_singleton, lookup_put, ih, reverse_concat, lookup_cons]
    by_cases h : key = p.1
    · simp [h]
    · simp [h, beq_eq_false_iff_ne.2 h]

/-- A record has each name once, at the place where it was first put. -/
theorem keys_ofList : keys (ofList pairs) = (keys pairs).eraseDups := by
  induction pairs using List.reverseRecOn with
  | nil => rfl
  | append_singleton pairs p ih =>
    have hkeys : keys (pairs ++ [p]) = keys pairs ++ [p.1] := map_append
    rw [ofList_append_singleton, keys_put, ih, hkeys, eraseDups_append]
    by_cases h : p.1 ∈ keys pairs <;> simp [h, List.removeAll, eraseDups_cons]

/-- A record of images is the image of the record. -/
theorem ofList_map (f : β → γ) (pairs : List (String × β)) :
    ofList (pairs.map fun p => (p.1, f p.2)) = (ofList pairs).map fun e => (e.1, f e.2) := by
  induction pairs using List.reverseRecOn with
  | nil => rfl
  | append_singleton pairs p ih =>
    rw [map_append, map_singleton, ofList_append_singleton, ofList_append_singleton, ih]
    exact put_map f p.1 p.2 _

end Assoc
end ScreenForge
