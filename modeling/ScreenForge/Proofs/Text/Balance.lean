/-
# Brackets that match

Brackets match in a text if, read from its start, no more of them have been closed than opened, and
in the end as many have been closed as opened (`Balanced`).
-/
import ScreenForge.Text.Split

namespace ScreenForge
namespace Text

open List

/-- The brackets of a kind match. -/
structure Balanced (opening closing : Char) (s : List Char) : Prop where
  /-- Nothing is closed that has not been opened. -/
  opened : ∀ front, front <+: s → front.count closing ≤ front.count opening
  /-- Nothing is left open. -/
  closed : s.count closing = s.count opening

variable {opening closing : Char} {s u : List Char}

/-- Texts without brackets are balanced. -/
theorem balanced_of_not_mem (hopening : opening ∉ s) (hclosing : closing ∉ s) :
    Balanced opening closing s := by
  refine ⟨fun front hfront => ?_, ?_⟩
  · have hnone : closing ∉ front := fun h => hclosing (hfront.subset h)
    rw [count_eq_zero_of_not_mem hnone]
    exact Nat.zero_le _
  · rw [count_eq_zero_of_not_mem hclosing, count_eq_zero_of_not_mem hopening]

theorem balanced_nil : Balanced opening closing [] :=
  balanced_of_not_mem not_mem_nil not_mem_nil

/-- **Balanced texts behind each other are balanced.** -/
theorem Balanced.append (hs : Balanced opening closing s) (hu : Balanced opening closing u) :
    Balanced opening closing (s ++ u) := by
  have hclosed := hs.closed
  refine ⟨?_, ?_⟩
  · rintro front ⟨back, hsplit⟩
    rcases append_eq_append_iff.1 hsplit with ⟨rest, hrest, -⟩ | ⟨rest, rfl, hrest⟩
    · exact hs.opened front ⟨rest, hrest.symm⟩
    · have hopened := hu.opened rest ⟨back, hrest.symm⟩
      simp only [count_append]
      omega
  · simp only [count_append, hclosed, hu.closed]

/-- **A balanced text in brackets is balanced.** -/
theorem Balanced.enclose (hne : opening ≠ closing) (hs : Balanced opening closing s) :
    Balanced opening closing (opening :: (s ++ [closing])) := by
  have hclosed := hs.closed
  have hcount : ∀ rest : List Char,
      (opening :: rest).count closing = rest.count closing ∧
        (opening :: rest).count opening = rest.count opening + 1 :=
    fun rest => ⟨count_cons_of_ne hne, count_cons_self⟩
  refine ⟨?_, ?_⟩
  · rintro front ⟨back, hsplit⟩
    cases front with
    | nil => exact Nat.le_refl _
    | cons c rest =>
      obtain ⟨rfl, htail⟩ := List.cons.inj hsplit
      obtain ⟨hclosing, hopening⟩ := hcount rest
      -- the closing bracket is either behind the part that is read or the last of it
      rcases append_eq_append_iff.1 htail with ⟨mid, hmid, -⟩ | ⟨mid, rfl, hmid⟩
      · have hopened := hs.opened rest ⟨mid, hmid.symm⟩
        omega
      · have hlength : mid.count closing ≤ 1 := by
          have hle : mid.length ≤ 1 := by
            have := congrArg List.length hmid
            simp only [length_singleton, length_append] at this
            omega
          exact Nat.le_trans count_le_length hle
        simp only [count_append] at hclosing hopening
        omega
  · obtain ⟨hclosing, hopening⟩ := hcount (s ++ [closing])
    have hother : [closing].count opening = 0 := by
      rw [count_eq_zero, mem_singleton]
      exact hne
    have hown : [closing].count closing = 1 := count_singleton_self
    simp only [count_append] at hclosing hopening
    omega

end Text
end ScreenForge
