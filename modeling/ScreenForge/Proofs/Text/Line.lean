/-
# The lines of a text

A text that was put together from lines is cut into these lines again, except that a line which
holds a line break itself falls apart.
-/
import ScreenForge.Text.Split

namespace ScreenForge
namespace Text

open List

/-- The lines of a text. -/
def linesOf (s : String) : List String := (s.toList.splitOn '\n').map String.ofList

/-- Whether no line break is in a text. -/
def isUnbroken (s : String) : Bool := !s.toList.contains '\n'

theorem isUnbroken_append {s u : String} (hs : isUnbroken s) (hu : isUnbroken u) :
    isUnbroken (s ++ u) := by
  have hparts : isUnbroken (s ++ u) = (isUnbroken s && isUnbroken u) := by
    simp [isUnbroken, String.toList_append]
  rw [hparts, hs, hu]
  rfl

/-- A text without a line break is one line. -/
theorem linesOf_eq_singleton {s : String} (h : isUnbroken s) : linesOf s = [s] := by
  have hnone : ∀ c ∈ s.toList, (c == '\n') = false := by
    intro c hc
    rw [beq_eq_false_iff_ne]
    rintro rfl
    simp [isUnbroken, hc] at h
  have hcut : s.toList.splitOn '\n' = [s.toList] := splitOnP_eq_singleton hnone
  rw [linesOf, hcut, map_singleton, String.ofList_toList]

/-- A line break ends a line. -/
theorem linesOf_append_break (s u : String) :
    linesOf (s ++ "\n" ++ u) = linesOf s ++ linesOf u := by
  have hchars : (s ++ "\n" ++ u).toList = s.toList ++ '\n' :: u.toList := by simp
  have hcut : (s.toList ++ '\n' :: u.toList).splitOn '\n'
      = s.toList.splitOn '\n' ++ u.toList.splitOn '\n' :=
    splitOnP_append_cons _ _ (beq_self_eq_true '\n')
  rw [linesOf, hchars, hcut, map_append]
  rfl

/-- A text starts with its first line. -/
theorem exists_first (s : String) :
    ∃ first rest others, s.toList = first.toList ++ rest ∧ linesOf s = first :: others := by
  by_cases h : '\n' ∈ s.toList
  · obtain ⟨as, bs, hchars, hfirst⟩ := eq_append_cons_of_mem h
    have hs : s = String.ofList as ++ "\n" ++ String.ofList bs := by
      rw [← String.toList_inj, hchars]
      simp
    have hunbroken : isUnbroken (String.ofList as) := by simpa [isUnbroken] using hfirst
    refine ⟨String.ofList as, '\n' :: bs, linesOf (String.ofList bs), ?_, ?_⟩
    · rw [hchars, String.toList_ofList]
    · rw [hs, linesOf_append_break, linesOf_eq_singleton hunbroken]
      rfl
  · exact ⟨s, [], [], by simp, linesOf_eq_singleton (by simpa [isUnbroken] using h)⟩

/-- **Lines that are put together are cut into lines again.** -/
theorem linesOf_join (lines : List String) (hne : lines ≠ []) :
    linesOf (join "\n" lines ++ "\n") = lines.flatMap linesOf ++ [""] := by
  induction lines with
  | nil => exact absurd rfl hne
  | cons line rest ih =>
    cases rest with
    | nil =>
      have hcut := linesOf_append_break line ""
      rw [String.append_empty] at hcut
      rw [join, hcut, flatMap_singleton]
      rfl
    | cons second rest =>
      have hjoin : join "\n" (line :: second :: rest) ++ "\n"
          = line ++ "\n" ++ (join "\n" (second :: rest) ++ "\n") := by
        rw [join]
        · simp [String.append_assoc]
        · exact cons_ne_nil _ _
      rw [hjoin, linesOf_append_break, ih (cons_ne_nil _ _), ← append_assoc]
      rfl

/-- Unbroken lines stay as they are. -/
theorem flatMap_linesOf {lines : List String} (h : ∀ line ∈ lines, isUnbroken line) :
    lines.flatMap linesOf = lines := by
  induction lines with
  | nil => rfl
  | cons line rest ih =>
    rw [flatMap_cons, linesOf_eq_singleton (h line mem_cons_self),
      ih fun l hl => h l (mem_cons_of_mem _ hl)]
    rfl

end Text
end ScreenForge
