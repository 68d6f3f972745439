/-
# Where the characters of a source come from

What an activity writes of its own is printable: letters, digits, signs and blanks.  Any other
character of its lines is foreign, the line breaks among them, and it was taken over from a text
that was given: from one that is quoted, or one that a comment takes over.
-/
import ScreenForge.Proofs.Kotlin.Fields
import ScreenForge.Proofs.Scope.Written

namespace ScreenForge
namespace Kotlin

open List
open Code (Expr Piece Stmt)
open Text (Has Spread has_append has_join has_printable isPrintable isPrintableText spread_append
  spread_cons spread_flatMap spread_map spread_nil spread_singleton)

variable {scope : Scope} {name : String} {target : String × Layout.Ref} {env : Env}

variable {c : Char} (hc : isPrintable c = false) {entries : List (String × String)} (s : String)

include hc

/-! ### Names and literals -/

omit hc in
theorem isPrintable_of_isNameChar {d : Char} (h : isNameChar d) : isPrintable d :=
  forall_isNameChar (P := fun c => isPrintable c = true) (by decide) h

omit hc in
theorem isPrintable_of_isNumberChar {d : Char} (h : isNumberChar d) : isPrintable d := by
  rw [isNumberChar, Bool.or_eq_true, contains_iff_mem] at h
  rcases h with h | h
  · exact isPrintable_of_isNameChar (by simp [isNameChar, Char.isAlphanum, h])
  · exact all_eq_true.1 (by decide : ['.', 'e', '+', '-'].all isPrintable = true) d h

omit hc in
theorem isPrintableText_of_isSmall {s : String} (h : isSmall s) : isPrintableText s :=
  all_eq_true.2 fun _ hd => isPrintable_of_isNameChar (isNameChar_of_isSmall h _ hd)

/-- An identifier has no foreign character. -/
theorem has_identifier (name : String) : Has c (identifier name) ↔ False :=
  has_printable hc (isPrintableText_of_isSmall (isSmall_identifier name))

omit hc in
theorem isPrintable_of_escapeLetter? {d e : Char} (h : escapeLetter? d = some e) : isPrintable e :=
  all_eq_true.1 (by decide : ['\\', '"', '$', 'n', 'r', 't'].all isPrintable = true) e
    (mem_letters_of_escapeLetter? h)

/-- **A string literal shows no foreign character but those of its text.** -/
theorem has_of_mem_escaped {text : String} (h : c ∈ text.toList.flatMap escapeChar) :
    Has c text := by
  obtain ⟨d, hd, h⟩ := mem_flatMap.1 h
  unfold escapeChar at h
  split at h
  · next e hletter =>
    have hprintable : isPrintable c := by
      rcases mem_cons.1 h with rfl | h
      · decide
      · rw [mem_singleton.1 h]
        exact isPrintable_of_escapeLetter? hletter
    rw [hc] at hprintable
    cases hprintable
  · rw [mem_singleton.1 h]
    exact hd

/-! ### Operators -/

theorem has_receiver : Has c (receiver s) ↔ Has c s := by
  unfold receiver
  split
  · simp (disch := decide) [has_printable hc]
  · exact Iff.rfl

theorem has_negatedText : Has c (negatedText s) ↔ Has c s := by
  unfold negatedText
  split <;> simp (disch := decide) [has_printable hc]

/-- A character stands in none of the texts that the members of an activity are written with. -/
abbrev Env.Lacks (env : Env) (c : Char) : Prop := env.Forall fun s => ¬ Has c s

/-! ### Expressions -/

/-- **A foreign character of a text stands in one of its literals.** -/
theorem Form.has_iff {Q : String → Prop} (hQ : ∀ {s : String}, Q s → ¬ Has c s) {single : Bool}
    {s : String} {cs : List (List Char)} (h : Form Q single s cs) :
    Has c s ↔ ∃ content ∈ cs, c ∈ content := by
  induction h with
  | number h =>
    have hprintable := all_eq_true.2 fun d hd =>
      isPrintable_of_isNumberChar (h.isNumberChar d hd)
    simp [has_printable hc hprintable]
  | word h => simp [hQ h]
  | literal hs =>
    have hquote : c ≠ '"' := by
      rintro rfl
      exact absurd hc (by decide)
    simp [Has, hs, hquote]
  | call hw _ ih => simp (disch := decide) [has_printable hc, hQ hw, ih]
  | joined _ ih => simp (disch := decide) [has_printable hc, ih]
  | operand _ ih => exact ih
  | between _ hm _ ihs ihu =>
    simp only [isMark, Bool.and_eq_true] at hm
    simp [has_printable hc hm.1.1.2, ihs, ihu, or_and_right, exists_or]

theorem isLexicon_lacks : IsLexicon fun s => ¬ Has c s where
  own s hs := (has_printable hc (all_eq_true.1
    (by decide : ownWords.all isPrintableText = true) s hs)).1
  append hs hu := by
    rw [has_append]
    exact not_or.2 ⟨hs, hu⟩

/-- **A foreign character of an expression stands in one of its literals.** -/
theorem exists_quotation (henv : env.Lacks c) {e : Expr} (h : Has c (exprText env scope e)) :
    ∃ q ∈ quotations env scope e, c ∈ q.content := by
  have hform := form_exprText (henv.writes (isLexicon_lacks hc) scope) e
  obtain ⟨content, hcontent, hmem⟩ := (hform.has_iff hc id).1 h
  obtain ⟨q, hq, rfl⟩ := mem_map.1 hcontent
  exact ⟨q, hq, hmem⟩

/-! ### Statements -/

omit hc in
theorem isPrintableText_tab (level : Int) : isPrintableText (tab level) := by
  rw [isPrintableText, tab, String.toList_ofList]
  exact all_eq_true.2 fun d hd => by rw [(mem_replicate.1 hd).2]; decide

theorem spread_indent (lines : List String) (level : Int) :
    Spread c (indent lines level) ↔ Spread c lines := by
  have hline : ∀ line, Has c (if line = "" then line else tab level ++ line) ↔ Has c line := by
    intro line
    split
    · exact Iff.rfl
    · rw [has_append, has_printable hc (isPrintableText_tab level), false_or]
  simp only [indent, spread_map, hline]
  rfl

theorem spread_bracedLines (head : String) (body : List String) :
    Spread c (bracedLines head body) ↔ Has c head ∨ Spread c body := by
  simp (disch := decide) [bracedLines, openingLine, spread_indent hc, has_printable hc]

/-- One in a branch stands in a condition or in a body. -/
theorem spread_armLines (env : Env) (scope : Scope) {keyword : String}
    (hkeyword : isPrintableText keyword) (arms : List (Expr × List Stmt)) :
    Spread c (armLines env scope keyword arms) ↔
      ∃ arm ∈ arms, Has c (exprText env scope arm.1) ∨ Spread c (stmtsLines env scope arm.2) := by
  induction arms generalizing keyword with
  | nil => simp [armLines, spread_nil]
  | cons first rest ih =>
    obtain ⟨condition, body⟩ := first
    have hrest : Spread c (armLines env scope "\x7d else if" rest) ↔ _ := ih (by decide)
    simp (disch := decide) [armLines, openingLine, spread_indent hc, has_printable hc,
      has_printable hc hkeyword, hrest, or_assoc]

/-- The texts that a statement may take over, apart from its pieces. -/
def stmtGiven : Stmt → List String
  | .setProperty name property _ => [name, property]
  | .setVariable name _ => [name]
  | .unsupported type fields => type :: fields.flatMap fun f => [f.1, f.2]
  | _ => []

/-- One in the label of an unsupported block stands in its type or in its fields. -/
theorem has_unsupportedLabel (type : String)
    (fields : List (String × String)) : Has c (unsupportedLabel type fields) ↔
      Spread c (type :: fields.flatMap fun f => [f.1, f.2]) := by
  have hcomma : ¬ Has c ", " := (has_printable hc (by decide)).1
  unfold unsupportedLabel
  cases fields with
  | nil => simp [spread_cons, spread_nil]
  | cons first rest =>
    simp (disch := decide) only [isEmpty_cons, Bool.false_eq_true, if_false, has_append,
      has_printable hc, has_join hcomma, spread_map, spread_flatMap, spread_cons, spread_nil,
      or_false]

/-- One in the setting of a property stands in its value or in a name. -/
theorem has_setPropertyLine (henv : env.Lacks c) {property : String} {e : Expr}
    (h : Has c (setPropertyLine env scope name property e)) :
    Spread c [name, property] ∨ Has c (exprText env scope e) := by
  rw [setPropertyLine] at h
  cases htarget : env.component? scope name with
  | none =>
    simp (disch := decide) [htarget, has_printable hc] at h
    simpa [or_assoc] using h
  | some target =>
    have htext : ∀ convert : Prop, ∀ [Decidable convert], Has c (if convert then
        receiver (exprText env scope e) ++ ".toString()" else exprText env scope e)
          ↔ Has c (exprText env scope e) := by
      intro convert _
      split
      · simp (disch := decide) [has_printable hc, has_receiver hc]
      · exact Iff.rfl
    simp (disch := decide) [htarget, has_printable hc, htext, henv.component? htarget,
      henv.accessor htarget] at h
    exact Or.inr h

/-- **A foreign character of a statement is in a text that it takes over, in one of its pieces, or in
the expression that it is.** -/
theorem spread_stmtLines (henv : env.Lacks c) {s : Stmt}
    (h : Spread c (stmtLines env scope s)) :
    Spread c (stmtGiven s) ∨ (∃ piece ∈ s.pieces, Spread c (pieceLines env scope piece)) ∨
      ∃ e, (s = .call e ∨ s = .value e) ∧ Has c (exprText env scope e) := by
  cases s with
  | branch arms otherwise =>
    refine Or.inr (Or.inl (Iff.mp ?_ h))
    have hotherwise : Spread c (otherwiseLines env scope otherwise) ↔
        Spread c ((otherwise.map (Piece.body [])).toList.flatMap (pieceLines env scope)) := by
      cases otherwise with
      | none => simp [otherwiseLines]
      | some body =>
        simp (disch := decide) [otherwiseLines, openingLine, spread_indent hc, has_printable hc,
          pieceLines]
    rw [← spread_flatMap]
    simp (disch := decide) [stmtLines, spread_armLines hc, has_printable hc, hotherwise,
      Stmt.pieces, flatMap_assoc, pieceLines]
  | loop untilHolds condition body =>
    refine Or.inr (Or.inl (Iff.mp ?_ h))
    have htest : Has c (if untilHolds then negatedText (exprText env scope condition)
        else exprText env scope condition) ↔ Has c (exprText env scope condition) := by
      cases untilHolds with
      | true => exact has_negatedText hc _
      | false => exact Iff.rfl
    simp (disch := decide) [stmtLines, spread_bracedLines hc, has_printable hc, htest, Stmt.pieces,
      pieceLines]
  | forRange name first last step body | forEach name items body =>
    refine Or.inr (Or.inl (Iff.mp ?_ h))
    simp (disch := decide) [stmtLines, spread_bracedLines hc, has_printable hc, has_identifier hc,
      Stmt.pieces, pieceLines, or_assoc]
  | leave =>
    refine Or.inr (Or.inl (Iff.mp ?_ h))
    simp (disch := decide) [stmtLines, has_printable hc, Stmt.pieces]
  | setProperty name property e =>
    rw [stmtLines, spread_singleton] at h
    simpa [stmtGiven, Stmt.pieces, pieceLines] using has_setPropertyLine hc henv h
  | setVariable name e =>
    rw [stmtLines, setVariableLine, spread_singleton] at h
    cases htarget : env.binding? scope name with
    | none =>
      simp (disch := decide) [htarget, has_printable hc] at h
      simpa [stmtGiven, Stmt.pieces, pieceLines] using h
    | some target =>
      simp (disch := decide) [htarget, has_printable hc, henv.binding? htarget] at h
      simp [Stmt.pieces, pieceLines, h]
  | locals names body =>
    refine Or.inr (Or.inl (Iff.mp ?_ h))
    rw [← spread_flatMap]
    simp (disch := decide) only [stmtLines, spread_bracedLines hc, spread_append, localLines,
      localScope, spread_map, has_append, has_printable hc, has_identifier hc, false_or, or_false,
      Stmt.pieces, flatMap_append, flatMap_map, spread_flatMap, flatMap_cons,
      flatMap_nil, pieceLines, spread_cons, spread_nil]
  | call e | value e =>
    rw [stmtLines, spread_singleton] at h
    exact Or.inr (Or.inr ⟨e, by simp, h⟩)
  | unsupported type fields =>
    refine Or.inl ?_
    simpa (disch := decide) [stmtLines, has_printable hc, has_unsupportedLabel hc, stmtGiven]
      using h

end Kotlin
end ScreenForge
