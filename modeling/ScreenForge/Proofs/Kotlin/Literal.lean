/-
# String literals are read back

| character | in a literal |
| --- | --- |
| backslash, quote, dollar sign | itself behind a backslash |
| line feed, carriage return, tab | a letter behind a backslash |
| any other | itself |
-/
import ScreenForge.Kotlin.Literal
import ScreenForge.Proofs.Text.Escape

namespace ScreenForge
namespace Kotlin

open List

/-- The replacements that escape a text, in turn. -/
def escapeSteps : List (Char × List Char) :=
  [('\\', ['\\', '\\']), ('"', ['\\', '"']), ('$', ['\\', '$']), ('\n', ['\\', 'n']),
    ('\r', ['\\', 'r']), ('\t', ['\\', 't'])]

/-- Whether a character stands for itself in a literal. -/
def isPlain (c : Char) : Bool := (escapeLetter? c).isNone

theorem lookup_escapeSteps (c : Char) :
    escapeSteps.lookup c = (escapeLetter? c).map fun e => ['\\', e] := by
  simp only [escapeSteps, lookup_cons, lookup_nil, escapeLetter?]
  grind

theorem escapeChar_eq (c : Char) : escapeChar c = (escapeSteps.lookup c).getD [c] := by
  rw [lookup_escapeSteps, escapeChar]
  cases escapeLetter? c <;> rfl

/-- **The escaped text is what the replacements in turn give.** -/
theorem escaped_eq_replaceAll (s : List Char) :
    s.flatMap escapeChar = Text.replaceAll escapeSteps s := by
  rw [Text.replaceAll_eq_flatMap (by decide)]
  exact flatMap_congr fun c _ => escapeChar_eq c

/-- An escaped text has only plain characters and pairs. -/
theorem paired_escaped (s : List Char) : Text.Paired isPlain (s.flatMap escapeChar) := by
  induction s with
  | nil => exact .nil
  | cons c s ih =>
    rw [flatMap_cons, escapeChar]
    split
    · next e _ => exact .pair e ih
    · next hc => exact .char (by rw [isPlain, hc]; rfl) ih

/-- **Escapes are read back**, up to the closing quote. -/
theorem unescape?_escaped (s : List Char) : unescape? (s.flatMap escapeChar ++ ['"']) = some s := by
  induction s with
  | nil => rfl
  | cons c s ih =>
    rw [flatMap_cons, append_assoc, escapeChar]
    split
    · next e he =>
      rw [cons_append, cons_append, nil_append, unescape?, unescapeLetter?_of_escapeLetter? he, ih]
    · next hc =>
      have hplain : ¬ (c = '"' ∨ c = '\\' ∨ c = '$' ∨ c = '\n' ∨ c = '\r') := by
        rintro (rfl | rfl | rfl | rfl | rfl) <;> cases hc
      rw [cons_append, nil_append, unescape?, if_neg hplain, ih, Option.map_some]
      · rintro rfl
        exact absurd (.inl rfl) hplain
      · rintro e rest rfl
        exact absurd (.inr (.inl rfl)) hplain

theorem not_mem_escaped {c : Char} (hletter : c ∉ ['\\', '"', '$', 'n', 'r', 't'])
    (hc : isPlain c = false) (s : List Char) : c ∉ s.flatMap escapeChar := by
  rw [mem_flatMap]
  rintro ⟨d, -, hmem⟩
  rw [escapeChar] at hmem
  split at hmem
  · next e he =>
    obtain rfl | hmem := mem_cons.1 hmem
    · exact hletter (by decide)
    · rw [mem_singleton.1 hmem] at hletter
      exact hletter (mem_letters_of_escapeLetter? he)
  · next hd =>
    rw [mem_singleton.1 hmem, isPlain, hd] at hc
    cases hc

/-- **String literals are read back.**  A literal is a quote, a content and a quote.  The content is
what the replacements in turn give; it has no line break, every quote and dollar sign in it is
escaped, and it ends outside any escape, so that the last quote is the closing one.  The escapes
give the text back, and no other text has the literal. -/
theorem literal_reads_back (s : String) :
    ∃ content, (stringLiteral s).toList = '"' :: (content ++ ['"'])
      ∧ content = Text.replaceAll escapeSteps s.toList
      ∧ '\n' ∉ content ∧ '\r' ∉ content
      ∧ Text.Escaped '"' content ∧ Text.Escaped '$' content ∧ Text.slashes content % 2 = 0
      ∧ textOfLiteral? (stringLiteral s) = some s
      ∧ ∀ t, stringLiteral t = stringLiteral s ↔ t = s := by
  have hread : ∀ t, textOfLiteral? (stringLiteral t) = some t := by
    intro t
    rw [textOfLiteral?, stringLiteral, String.toList_ofList]
    simp only [unescape?_escaped, Option.map_some, String.ofList_toList]
  have hpaired := paired_escaped s.toList
  refine ⟨s.toList.flatMap escapeChar, String.toList_ofList, escaped_eq_replaceAll _,
    not_mem_escaped (by decide) (by decide) _, not_mem_escaped (by decide) (by decide) _,
    hpaired.escaped (by decide) (by decide) (by decide),
    hpaired.escaped (by decide) (by decide) (by decide),
    hpaired.slashes_append (by decide) [] rfl, hread s, fun t => ⟨fun h => ?_, ?_⟩⟩
  · exact Option.some.inj ((hread t).symm.trans (h ▸ hread s))
  · rintro rfl
    rfl

end Kotlin
end ScreenForge
