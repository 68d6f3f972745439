/-
# Reading all items

A list is read as a whole if each of its items is read.
-/
import Mathlib.Data.List.Forall2

namespace ScreenForge

open List

variable {α β : Type} {f : α → Option β} {l : List α} {r : List β}

/-- **A list is read as the readings of its items.** -/
theorem mapM_eq_some_iff : l.mapM f = some r ↔ l.map f = r.map some := by
  induction l generalizing r with
  | nil => cases r <;> simp
  | cons a l ih => cases r <;> simp [mapM_cons, Option.bind_eq_some_iff, ih]

/-- A list is read as a whole if each of its items is read. -/
theorem mapM_iff_forall₂ : l.mapM f = some r ↔ l.Forall₂ (fun a b => f a = some b) r := by
  rw [mapM_eq_some_iff, ← forall₂_eq_eq_eq, forall₂_map_left_iff, forall₂_map_right_iff]

theorem mapM_id_eq_some_iff {l : List (Option β)} : l.mapM id = some r ↔ l = r.map some := by
  rw [mapM_eq_some_iff, map_id]

/-- A list is read if its items are. -/
theorem mapM_map_eq_some {γ : Type} {g : β → γ} {f : γ → Option β} (h : ∀ b ∈ r, f (g b) = some b) :
    (r.map g).mapM f = some r := by
  rw [mapM_eq_some_iff, map_map]
  exact map_congr_left h

/-- **A list is not read if one of its items is not.** -/
theorem mapM_eq_none_iff : l.mapM f = none ↔ ∃ a ∈ l, f a = none := by
  induction l with
  | nil => simp
  | cons a l ih =>
    rw [mapM_cons]
    cases hfirst : f a with
    | none => simp [hfirst]
    | some b => cases hrest : l.mapM f <;> simp_all

end ScreenForge
