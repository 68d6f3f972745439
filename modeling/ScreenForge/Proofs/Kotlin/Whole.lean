/-
# Operands that stay whole

Whether an operand is bracketed is decided by its first character.  That is enough, because the text
of an expression has no blank outside its brackets, and one that starts with `(` is one pair of
brackets, one that starts with `-` a numeral, and none starts with `!` (`Whole`).
-/
import ScreenForge.Proofs.Kotlin.Closed

namespace ScreenForge
namespace Kotlin

open List
open Text (Balanced)

variable {s u : String} {cs : List (List Char)} {ls ms : List Lexeme}

/-- Every blank of the code stands in brackets. -/
def IsCompact (ls : List Lexeme) : Prop :=
  ∀ front back, ls = front ++ .code ' ' :: back →
    (codeIn front).count ')' < (codeIn front).count '('

theorem isCompact_of_not_mem (h : .code ' ' ∉ ls) : IsCompact ls := by
  rintro front back rfl
  exact absurd (mem_append_right _ mem_cons_self) h

/-- **Compact lexemes behind each other are compact.** -/
theorem IsCompact.append (hls : IsCompact ls) (hbalanced : Balanced '(' ')' (codeIn ls))
    (hms : IsCompact ms) : IsCompact (ls ++ ms) := by
  intro front back hsplit
  rcases append_eq_append_iff.1 hsplit with ⟨rest, rfl, hrest⟩ | ⟨rest, rfl, hrest⟩
  · have hinner := hms rest back hrest
    have hclosed := hbalanced.closed
    simp only [codeIn_append, count_append]
    omega
  · cases rest with
    | nil => exact absurd (hms [] back hrest.symm) (Nat.lt_irrefl 0)
    | cons l rest =>
      obtain ⟨rfl, -⟩ := List.cons.inj hrest
      exact hls front rest rfl

/-- **What stands in brackets is compact.** -/
theorem isCompact_group (hbalanced : Balanced '(' ')' (codeIn ls)) :
    IsCompact (.code '(' :: (ls ++ [.code ')'])) := by
  intro front back hsplit
  cases front with
  | nil => cases hsplit
  | cons l front =>
    obtain ⟨rfl, htail⟩ := List.cons.inj hsplit
    show (codeIn front).count ')' < ('(' :: codeIn front).count '('
    rw [count_cons_self]
    rcases append_eq_append_iff.1 htail with ⟨rest, rfl, hrest⟩ | ⟨rest, rfl, -⟩
    · rcases rest with _ | ⟨l, _ | ⟨m, rest⟩⟩ <;> cases hrest
    · rw [codeIn_append] at hbalanced
      exact Nat.lt_succ_of_le (hbalanced.opened _ (prefix_append _ _))

/-- A closed text without a blank outside its brackets. -/
def Compact (s : String) : Prop := ∃ ls cs, Lexes s.toList ls ∧ Sealed ls cs ∧ IsCompact ls

theorem Compact.append (hs : Compact s) (hu : Compact u) (happart : Apart s.toList u.toList) :
    Compact (s ++ u) := by
  obtain ⟨ls, cs, hls, hsls, hcompact⟩ := hs
  obtain ⟨ms, ds, hms, hsms, hcompact'⟩ := hu
  refine ⟨ls ++ ms, cs ++ ds, ?_, hsls.append hsms, hcompact.append hsls.balanced hcompact'⟩
  rw [String.toList_append]
  exact hls.append hms happart

theorem compact_signs (h : ∀ c ∈ s.toList, isSign c ∧ c ≠ ' ') : Compact s := by
  have hsigns : isSigns s := isSigns_of_all fun c hc => (h c hc).1
  refine ⟨_, _, lexes_code (Bool.and_eq_true_iff.1 hsigns).1, sealed_signs hsigns,
    isCompact_of_not_mem fun hmem => ?_⟩
  obtain ⟨c, hc, hblank⟩ := mem_map.1 hmem
  exact (h c hc).2 (Lexeme.code.inj hblank)

/-- A closed text in brackets has no blank outside them. -/
theorem Closed.compact_group (h : Closed s cs) : Compact ("(" ++ s ++ ")") := by
  obtain ⟨ls, hls, hsealed⟩ := h
  exact ⟨_, cs, lexes_group hls, hsealed.group, isCompact_group hsealed.balanced⟩

/-- A text that no operator in front or behind breaks up. -/
structure Whole (s : String) : Prop where
  compact : Compact s
  bracketed : s.toList.head? = some '(' →
    ∃ inner, Lexes s.toList (.code '(' :: (inner ++ [.code ')'])) ∧ Balanced '(' ')' (codeIn inner)
  negative : s.toList.head? = some '-' → IsNumeral s.toList
  unnegated : s.toList.head? ≠ some '!'

/-- A compact text that starts like a word or a literal is whole. -/
theorem Compact.whole (h : Compact s)
    (hhead : ∀ c ∈ s.toList.head?, c ≠ '(' ∧ c ≠ '-' ∧ c ≠ '!') : Whole s :=
  ⟨h, fun h => absurd rfl (hhead _ h).1, fun h => absurd rfl (hhead _ h).2.1,
    fun h => absurd rfl (hhead _ h).2.2⟩

/-- **A closed text in brackets is whole.** -/
theorem Closed.whole_group (h : Closed s cs) : Whole ("(" ++ s ++ ")") := by
  refine ⟨h.compact_group, fun _ => ?_, by simp, by simp⟩
  obtain ⟨ls, hls, hsealed⟩ := h
  exact ⟨ls, lexes_group hls, hsealed.balanced⟩

/-- Whether a text is made of names, with what joins them to what they are members of. -/
def isPath (s : String) : Bool := s.toList.all fun c => isNameChar c || c == '.' || c == '@'

/-- A property of the characters of paths. -/
theorem forall_isPath {P : Char → Prop} (hname : ∀ c, isNameChar c → P c) (hdot : P '.') (hat : P '@')
    (h : isPath s) : ∀ c ∈ s.toList, P c := by
  intro c hc
  have := all_eq_true.1 h c hc
  rw [Bool.or_eq_true, Bool.or_eq_true, beq_iff_eq, beq_iff_eq] at this
  rcases this with (hc | rfl) | rfl
  · exact hname c hc
  · exact hdot
  · exact hat

theorem isSigns_of_isPath (h : isPath s) : isSigns s :=
  isSigns_of_all (forall_isPath (fun _ => isSign_of_isNameChar) (by decide) (by decide) h)

theorem isLexicon_isPath : IsLexicon fun s => isPath s = true where
  own := by decide
  append hs hu := by
    rw [isPath, String.toList_append, all_append, Bool.and_eq_true]
    exact ⟨hs, hu⟩

theorem compact_path (h : isPath s) : Compact s :=
  compact_signs (forall_isPath (fun c hc => forall_isNameChar
    (P := fun c => isSign c = true ∧ c ≠ ' ') (by decide) hc) (by decide) (by decide) h)

theorem head_path (h : isPath s) : ∀ c ∈ s.toList, c ≠ '(' ∧ c ≠ '-' ∧ c ≠ '!' :=
  forall_isPath (fun c hc => forall_isNameChar
    (P := fun c => c ≠ '(' ∧ c ≠ '-' ∧ c ≠ '!') (by decide) hc) (by decide) (by decide) h

section

variable (hform : Form (fun s => isPath s = true) true s cs)
  (hcontents : ∀ content ∈ cs, isContent content)
include hform hcontents

/-- **Texts of all forms are whole.** -/
theorem Form.whole : Whole s := by
  cases hform with
  | number h =>
    have hne : ∀ c ∈ s.toList, isSign c ∧ c ≠ ' ' ∧ c ≠ '(' ∧ c ≠ '!' := by
      intro c hc
      have hnumber := h.isNumberChar c hc
      refine ⟨isSign_of_isNumberChar hnumber, ?_, ?_, ?_⟩ <;>
      · rintro rfl
        exact absurd hnumber (by decide)
    exact ⟨compact_signs fun c hc => ⟨(hne c hc).1, (hne c hc).2.1⟩,
      fun hs => absurd rfl (hne _ (mem_of_head? hs)).2.2.1, fun _ => h,
      fun hs => absurd rfl (hne _ (mem_of_head? hs)).2.2.2⟩
  | word h => exact (compact_path h).whole fun c hc => head_path h c (mem_of_head? hc)
  | @literal _ content hs =>
    have hcompact : IsCompact [.literal content] := isCompact_of_not_mem (by simp)
    have hcontent := hcontents content (mem_singleton.2 rfl)
    refine Compact.whole ⟨_, _, hs ▸ lexes_literal hcontent, sealed_literal _, hcompact⟩ ?_
    simp [hs]
  | @call w s cs hw h =>
    have hclosed := h.closed isSigns_of_isPath hcontents
    have hspelt : w ++ ("(" ++ s ++ ")") = w ++ "(" ++ s ++ ")" := String.toList_inj.1 (by simp)
    rw [← hspelt]
    by_cases hempty : w = ""
    · rw [hempty, String.empty_append]
      exact hclosed.whole_group
    · refine ((compact_path hw).append hclosed.compact_group (apart_of_head _ (by simp))).whole
        fun c hc => head_path hw c ?_
      cases hchars : w.toList with
      | nil => exact absurd (String.toList_eq_nil_iff.1 hchars) hempty
      | cons d rest => simp_all
  | @joined s cs h =>
    have hclosed := h.closed isSigns_of_isPath (forall_mem_append.1 hcontents).1
    have hempty : Closed "\"\"" [[]] := closed_literal (by decide) rfl
    have hlist := (compact_path (s := "listOf") (by decide)).append hclosed.compact_group
      (apart_of_head _ (by simp))
    have hjoin := (compact_path (s := ".joinToString") (by decide)).append hempty.compact_group
      (apart_of_head _ (by decide))
    have hall := hlist.append hjoin (apart_of_head _ (by simp))
    have hspelt : "listOf" ++ ("(" ++ s ++ ")") ++ (".joinToString" ++ ("(" ++ "\"\"" ++ ")"))
        = "listOf(" ++ s ++ ").joinToString(\"\")" := String.toList_inj.1 (by simp)
    exact (hspelt ▸ hall).whole (by simp)

/-- What operators make of an operand: each of them applies to the whole of it. -/
structure Stands (s : String) : Prop where
  whole : Whole s
  /-- Behind the sign that negates a condition. -/
  negated : ∃ x, negatedText s = "!" ++ x ∧ Whole x ∧ x.toList.head? = some '('
  /-- Behind a sign in brackets. -/
  signed : ∀ sign, sign = '-' ∨ sign = '!' →
    ∃ x, signText sign s = "(" ++ String.singleton sign ++ x ++ ")" ∧ Whole x ∧
      x.toList.head? ≠ some sign
  /-- In front of the call of a member. -/
  received : Whole (receiver s) ∧ (receiver s).toList.head? ≠ some '-'
  /-- At the start of a range. -/
  ranged : ∀ u, Whole u → Compact (s ++ ".." ++ u)

/-- **An operator applies to the whole of a text that has a form.** -/
theorem Form.stands : Stands s := by
  have hwhole := hform.whole hcontents
  have hgroup : Whole ("(" ++ s ++ ")") :=
    (hform.closed isSigns_of_isPath hcontents).whole_group
  refine ⟨hwhole, ?_, ?_, ?_, ?_⟩
  · unfold negatedText
    split
    · next hhead => exact ⟨s, rfl, hwhole, hhead⟩
    · exact ⟨_, String.toList_inj.1 (by simp), hgroup, by simp⟩
  · intro sign hsign
    unfold signText
    split
    · refine ⟨_, String.toList_inj.1 (by simp), hgroup, ?_⟩
      rcases hsign with rfl | rfl <;> simp
    · next hhead => exact ⟨s, rfl, hwhole, hhead⟩
  · unfold receiver
    split
    · exact ⟨hgroup, by simp⟩
    · next hhead => exact ⟨hwhole, hhead⟩
  · intro u hu
    have hdots := hwhole.compact.append (compact_path (s := "..") (by decide))
      (apart_of_head _ (by decide))
    exact hdots.append hu.compact (apart_of_last (by simp) _)

end

end Kotlin
end ScreenForge
