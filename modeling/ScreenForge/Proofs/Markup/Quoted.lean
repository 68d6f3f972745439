/-
# Attribute values are read as they were meant

Seven characters of an attribute value are written as references, because markup gives them a
meaning or a reader would turn them into blanks.  A reader takes a written value apart into one
piece for each character.
-/
import ScreenForge.Markup.Quote
import ScreenForge.Markup.Reference

namespace ScreenForge
namespace Markup

open List

variable {e : Char × List Char × Reference} (entities : Entities)
  (expand : List Char → Option (List Char)) (value : List Char) (c : Char)

/-- The characters of a value as they are written. -/
def quoted (value : List Char) : List Char := value.flatMap quoteChar

/-- The piece that a reader makes of a character as it is written. -/
def pieceOf (c : Char) : Piece :=
  if c = '&' then .reference (.entity "amp")
  else if c = '<' then .reference (.entity "lt")
  else if c = '>' then .reference (.entity "gt")
  else if c = '"' then .reference (.entity "quot")
  else if c = '\n' then .reference (.char '\n')
  else if c = '\r' then .reference (.char '\r')
  else if c = '\t' then .reference (.char '\t')
  else .plain c

/-- The characters that are written as references, with these. -/
def escapes : List (Char × List Char × Reference) := [
  ('&', "amp;".toList, .entity "amp"), ('<', "lt;".toList, .entity "lt"),
  ('>', "gt;".toList, .entity "gt"), ('"', "quot;".toList, .entity "quot"),
  ('\n', "#10;".toList, .char '\n'), ('\r', "#13;".toList, .char '\r'),
  ('\t', "#9;".toList, .char '\t')
]

/-- A reference is read as the character it was written for. -/
theorem reference?_escape (h : e ∈ escapes) (rest : List Char) :
    reference? (e.2.1 ++ rest) = some (e.2.2, rest) := by
  simp only [escapes, mem_cons, not_mem_nil, or_false] at h
  rcases h with rfl | rfl | rfl | rfl | rfl | rfl | rfl <;> rfl

/-- A character is written as a reference, or it is none of those with a meaning. -/
theorem quoteChar_cases :
    (∃ e ∈ escapes, c = e.1 ∧ quoteChar c = '&' :: e.2.1 ∧ pieceOf c = .reference e.2.2) ∨
      quoteChar c = [c] ∧ pieceOf c = .plain c ∧ c ≠ '&' ∧ c ≠ '<' ∧ c ≠ '"' ∧
        (isSpace c → c = ' ') := by
  by_cases h : c ∈ escapes.map Prod.fst
  · left
    obtain ⟨e, he, rfl⟩ := mem_map.1 h
    refine ⟨e, he, rfl, ?_⟩
    simp only [escapes, mem_cons, not_mem_nil, or_false] at he
    rcases he with rfl | rfl | rfl | rfl | rfl | rfl | rfl <;> exact ⟨rfl, rfl⟩
  · right
    simp only [escapes, map_cons, map_nil, mem_cons, not_mem_nil, or_false, not_or] at h
    obtain ⟨hamp, hlt, hgt, hquot, hfeed, hreturn, htab⟩ := h
    simp [quoteChar, pieceOf, hamp, hlt, hgt, hquot, hfeed, hreturn, htab, isSpace]

/-- What is written as a reference is legal. -/
theorem isLegal_of_mem_escapes (h : e ∈ escapes) : isLegal e.1 := by
  have hall : escapes.all fun e => isLegal e.1 := by decide
  exact all_eq_true.1 hall e h

/-- **A character is read as one piece, if it is legal.** -/
theorem piecesFrom_quoteChar (fuel : Nat) (c : Char) (rest : List Char) :
    piecesFrom (fuel + 1) (quoteChar c ++ rest)
      = if isLegal c then (piecesFrom fuel rest).map (pieceOf c :: ·) else none := by
  rcases quoteChar_cases c with ⟨e, he, rfl, hquote, hpiece⟩ | ⟨hquote, hpiece, hamp, hlt, -, -⟩
  · rw [hquote, hpiece, cons_append, piecesFrom, if_pos rfl, reference?_escape he,
      if_pos (isLegal_of_mem_escapes he)]
  · rw [hquote, hpiece, singleton_append, piecesFrom, if_neg hamp]
    cases isLegal c <;> simp [hlt]

theorem quoteChar_ne_nil : quoteChar c ≠ [] := by
  rcases quoteChar_cases c with ⟨e, -, -, hquote, -⟩ | ⟨hquote, -⟩ <;> rw [hquote] <;> simp

/-- **A written value is read as one piece for each character**, if all of them are legal. -/
theorem piecesFrom_quoted (fuel : Nat) (h : (quoted value).length ≤ fuel) :
    piecesFrom fuel (quoted value)
      = if value.all isLegal then some (value.map pieceOf) else none := by
  induction value generalizing fuel with
  | nil => cases fuel <;> rfl
  | cons c value ih =>
    have hsplit : quoted (c :: value) = quoteChar c ++ quoted value := flatMap_cons
    rw [hsplit, length_append] at h
    have hpos := length_pos_iff.2 (quoteChar_ne_nil c)
    obtain ⟨fuel, rfl⟩ : ∃ n, fuel = n + 1 := ⟨fuel - 1, by omega⟩
    rw [hsplit, piecesFrom_quoteChar, ih fuel (by omega), all_cons]
    cases isLegal c
    · rfl
    · cases value.all isLegal <;> rfl

theorem pieceValue_pieceOf : pieceValue entities expand (pieceOf c) = some [c] := by
  rcases quoteChar_cases c with ⟨e, he, rfl, -, hpiece⟩ | ⟨-, hpiece, -, -, -, hspace⟩
  · rw [hpiece]
    simp only [escapes, mem_cons, not_mem_nil, or_false] at he
    rcases he with rfl | rfl | rfl | rfl | rfl | rfl | rfl <;> rfl
  · rw [hpiece, pieceValue, attributeChar]
    split
    · next h => rw [hspace h]
    · rfl

/-- The pieces of a value stand for the value. -/
theorem gather_pieces : gather (pieceValue entities expand) (value.map pieceOf) = some value := by
  induction value with
  | nil => rfl
  | cons c value ih =>
    rw [map_cons, gather, pieceValue_pieceOf, ih]
    rfl

/-- A written value is read back if all its characters are legal, and refused otherwise. -/
theorem valueIn_quoted (depth : Nat) (value : List Char) :
    valueIn entities depth (quoted value) = if value.all isLegal then some value else none := by
  have hpieces : pieces? (quoted value)
      = if value.all isLegal then some (value.map pieceOf) else none :=
    piecesFrom_quoted value _ (Nat.le_refl _)
  cases depth with
  | zero | succ depth =>
    rw [valueIn, hpieces]
    split
    · exact gather_pieces ..
    · rfl

/-- **A written value is read as it was meant, if all its characters are legal**, and is refused
otherwise. -/
theorem attributeValue?_quoted :
    attributeValue? entities (quoted value) = if value.all isLegal then some value else none :=
  valueIn_quoted ..

/-- **A written value holds no quote, opening bracket or return.** -/
theorem not_mem_quoted : '"' ∉ quoted value ∧ '<' ∉ quoted value ∧ '\r' ∉ quoted value := by
  have hchar : ∀ c d, d ∈ ['"', '<', '\r'] → d ∉ quoteChar c := by
    intro c d hd
    rcases quoteChar_cases c with ⟨e, he, -, hquote, -⟩ | ⟨hquote, -, -, hlt, hquot, hspace⟩
    · have hall : escapes.all fun e => ['"', '<', '\r'].all fun d => !('&' :: e.2.1).contains d := by
        decide
      simpa [hquote] using all_eq_true.1 (all_eq_true.1 hall e he) d hd
    · rw [hquote, mem_singleton]
      rintro rfl
      simp only [mem_cons, not_mem_nil, or_false] at hd
      rcases hd with rfl | rfl | rfl
      · exact hquot rfl
      · exact hlt rfl
      · exact absurd (hspace rfl) (by decide)
  simp only [quoted, mem_flatMap, not_exists, not_and]
  exact ⟨fun c _ => hchar c _ (by simp), fun c _ => hchar c _ (by simp),
    fun c _ => hchar c _ (by simp)⟩

end Markup
end ScreenForge
