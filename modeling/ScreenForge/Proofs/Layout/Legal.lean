/-
# Which layouts are legal

Markup may hold every character but some: most control characters, and two at the end of the first
plane.  Seven characters of a value are written as references, and all others as they are, so an
illegal character of a value is one of the markup, and the markup has no others.
-/
import ScreenForge.Proofs.Layout.Readback

namespace ScreenForge

open List

/-! ### Characters of tags -/

namespace Markup

theorem lt_sum_of_inStretches {lengths : List Nat} {n : Nat}
    (h : Text.inStretches lengths n) : n < lengths.foldr (· + ·) 0 := by
  fun_induction Text.inStretches lengths n with
  | case1 outside inside rest n ih =>
    simp only [Bool.and_eq_true, Bool.or_eq_true, decide_eq_true_eq] at h
    rw [foldr_cons, foldr_cons]
    rcases h.2 with hlt | hrest
    · omega
    · have hsum := ih hrest
      omega
  | case2 => cases h

theorem isLegal_of_isNameStart {c : Char} (h : isNameStart c) : isLegal c := by
  have hsum : nameStartStretches.foldr (· + ·) 0 ≤ 0xFFFE := by decide +kernel
  rw [isNameStart, Bool.or_eq_true, Bool.or_eq_true, Bool.and_eq_true, decide_eq_true_eq,
    beq_iff_eq] at h
  rcases h with (halpha | rfl) | ⟨hlow, hin⟩
  · exact isLegal_of_word (by simp [Kotlin.isNameChar, Char.isAlphanum, halpha])
  · decide
  · have hhigh := lt_sum_of_inStretches hin
    rw [isLegal_iff]
    omega

theorem isLegal_of_isNameChar {c : Char} (h : isNameChar c) : isLegal c := by
  have hsum : nameContinueStretches.foldr (· + ·) 0 ≤ 0xFFFE := by decide +kernel
  simp only [isNameChar, Bool.or_eq_true, Bool.and_eq_true, decide_eq_true_eq, beq_iff_eq] at h
  rcases h with (((hstart | hdigit) | rfl) | rfl) | ⟨hlow, hin⟩
  · exact isLegal_of_isNameStart hstart
  · exact isLegal_of_word (by simp [Kotlin.isNameChar, Char.isAlphanum, hdigit])
  · decide
  · decide
  · have hhigh := lt_sum_of_inStretches hin
    rw [isLegal_iff]
    omega

/-- **A value is legal exactly if it is as it is written.** -/
theorem all_isLegal_quoted (value : List Char) :
    (quoted value).all isLegal = value.all isLegal := by
  have hchar : ∀ c, (quoteChar c).all isLegal = isLegal c := by
    intro c
    rcases quoteChar_cases c with ⟨e, he, rfl, hquote, -⟩ | ⟨hquote, -⟩
    · have hescapes : escapes.all fun e => ('&' :: e.2.1).all isLegal := by decide
      rw [hquote, isLegal_of_mem_escapes he]
      exact all_eq_true.1 hescapes e he
    · rw [hquote, all_cons, all_nil, Bool.and_true]
  rw [quoted, all_flatMap]
  exact congrArg value.all (funext hchar)

end Markup

/-! ### Characters of markup -/

namespace Layout

open Component (Node Rule Scalar Table)
open Journal (settle)
open Markup (allLegal isLegal isLegalText)

/-- **The markup of a layout is legal exactly if its values are.** -/
theorem View.IsSpelled.isLegalText_render {activity : String} {view : View}
    (h : view.IsSpelled activity) :
    isLegalText (view.render activity) = view.isLegal activity := by
  have hadmits : Admits Markup.isLegal isLegalText :=
    ⟨by decide, fun _ => Markup.isLegal_of_isNameChar, fun s => Markup.all_isLegal_quoted s.toList⟩
  rw [isLegalText, render_eq, hadmits.all_markup h.readable (by decide), View.isLegal,
    View.elements, all_filterMap]
  exact congrArg (List.all _) (funext fun mark => by cases mark <;> rfl)

/-! ### Values of properties -/

/-- **The texts of the values of properties that their formats keep are legal.** -/
def KeepsLegal (rule : Rule) (properties : List (String × Scalar)) : Prop :=
  ∀ entry ∈ rule.attributeOf, ∀ value, (rule.merged properties).lookup entry.1 = some value →
    (rule.formatOf entry.1).keeps value = true → isLegalText value.asText = true

/-- Values are legal if the texts are that their formats keep. -/
theorem allLegal_attributes_iff {rule : Rule} {properties : List (String × Scalar)}
    {attributes : List (String × String)}
    (h : rule.attributes? (rule.merged properties) = some attributes) :
    allLegal attributes ↔ KeepsLegal rule properties := by
  have hmapped := mapM_id_eq_some_iff.1 h
  rw [allLegal, all_eq_true]
  constructor
  · intro hlegal entry hentry value hvalue hkeeps
    have hmem : rule.mapped? (rule.merged properties) entry
        = some (((rule.formatOf entry.1).render? value).map fun s => (entry.2, s)) := by
      rw [Component.Rule.mapped?, hvalue, Option.map_some]
    have hfound := mem_filterMap.2 ⟨entry, hentry, hmem⟩
    rw [hmapped, mem_map] at hfound
    obtain ⟨a, ha, heq⟩ := hfound
    obtain ⟨text, htext, rfl⟩ := Option.map_eq_some_iff.1 heq.symm
    have htextLegal : isLegalText text := hlegal _ ha
    rwa [Component.Format.legal_render? htext, hkeeps] at htextLegal
  · intro hkeeps a ha
    have hmem : some a ∈ rule.attributeOf.filterMap (rule.mapped? (rule.merged properties)) := by
      rw [hmapped]
      exact mem_map_of_mem ha
    obtain ⟨entry, hentry, hfound⟩ := mem_filterMap.1 hmem
    obtain ⟨value, hvalue, hrendered⟩ := Option.map_eq_some_iff.1 hfound
    obtain ⟨text, htext, rfl⟩ := Option.map_eq_some_iff.1 hrendered
    show isLegalText text = true
    rw [Component.Format.legal_render? htext]
    cases hkept : (rule.formatOf entry.1).keeps value with
    | false => rfl
    | true => exact hkeeps entry hentry value hvalue hkept

/-- A layout is legal if the values of all its views are. -/
theorem isLegal_ofScreen_iff {table : Table} (h : ∀ entry ∈ table, wellNamed entry.2)
    {screen : Node}
    (hbounded : ∀ p ∈ staying table screen, ¬ (screenRule table p.2).Unbounded p.2.properties)
    (a : Allocator) (activity : String) :
    (ofScreen table a screen).isLegal activity ↔ isLegalText activity ∧
      ∀ p ∈ staying table screen, KeepsLegal (screenRule table p.2) p.2.properties := by
  rw [isLegal_ofScreen h, Bool.and_eq_true, all_eq_true]
  refine and_congr_right fun _ => forall₂_congr fun p hp => ?_
  have hsome := attributes?_eq_some_of_bounded (e := (screenRule table p.2, p.2)) (hbounded p hp)
  exact allLegal_attributes_iff hsome

/-- **The markup of a layout holds only legal characters exactly if the name of the activity does
and all texts of properties that their formats keep.**  Nothing else in a descriptor can make it
illegal, and nothing that a format keeps is mended: an illegal character in it is one of the markup,
and then no reader takes the document. -/
theorem markup_legal_iff {screen : Node}
    (hsettles : ∃ report, settle .unlimited (placingScreen .packaged screen) = .ok report)
    (a : Allocator) (activity : String) :
    let markup := (ofScreen .packaged a screen).render activity
    let kept := isLegalText activity = true ∧
      ∀ p ∈ staying .packaged screen, KeepsLegal (screenRule .packaged p.2) p.2.properties
    ((∀ c ∈ markup.toList, isLegal c = true) ↔ kept) ∧
      ((Markup.read? markup).isSome = true ↔ kept) := by
  have hrules := all_eq_true.1 wellNamed_packaged
  have hspelled := isSpelled_ofScreen hrules a activity screen
  have hkept := isLegal_ofScreen_iff hrules (settles_iff_bounded.1 hsettles) a activity
  refine ⟨?_, ?_⟩
  · rw [← hkept, ← hspelled.isLegalText_render, isLegalText, all_eq_true]
  · rw [← hkept, hspelled.read?]
    split
    · next hlegal => simp [hlegal]
    · next hlegal => simp [hlegal]

/-- A screen with a button whose width has a control character before the number. -/
def paddedScreen : Node := ⟨"Form", "Screen1", [],
  [⟨"Button", "Go", [("Text", .text "a < b\n"), ("Width", .text "\x0b5")], []⟩]⟩

/-- A control character beside a number does not reach the markup. -/
theorem paddedScreen_legal :
    (∃ report, settle .unlimited (placingScreen .packaged paddedScreen) = .ok report) ∧
    ∀ c ∈ ((ofScreen .packaged .empty paddedScreen).render "Main").toList, isLegal c = true := by
  have hsettles : ∃ report,
      settle .unlimited (placingScreen .packaged paddedScreen) = .ok report :=
    ⟨_, Journal.settle_unlimited_eq_ok_iff.2 ⟨by decide +kernel, rfl⟩⟩
  have hrules := all_eq_true.1 wellNamed_packaged
  have hlegal : (ofScreen .packaged .empty paddedScreen).isLegal "Main" := by
    rw [isLegal_ofScreen hrules]
    decide +kernel
  have hkept :=
    (isLegal_ofScreen_iff hrules (settles_iff_bounded.1 hsettles) .empty "Main").1 hlegal
  exact ⟨hsettles, (markup_legal_iff hsettles .empty "Main").1.2 hkept⟩

/-- A screen with a button whose text is a control character. -/
def controlButton : String :=
  "\x7b\"Properties\":\x7b\"$Name\":\"Screen1\",\"$Type\":\"Form\",\"$Components\":["
    ++ "\x7b\"$Name\":\"Button1\",\"$Type\":\"Button\",\"Text\":\"\\u0001\"\x7d]\x7d\x7d"

/-- Whether a descriptor has a layout, and an illegal value in it. -/
def hasIllegalValue (activity text : String) : Bool :=
  match Layout.form text {} false with
  | .ok form => (Journal.stops (placingScreen .packaged (screenOf form))).isEmpty
    && !(isLegalText activity && (staying .packaged (screenOf form)).all fun p =>
      allLegal (attributesOf (screenRule .packaged p.2) p.2.properties))
  | .error _ => false

/-- The text of one button makes the whole markup illegal. -/
theorem control_character_reaches_markup : ∃ form, Layout.form controlButton {} false = .ok form ∧
    (∃ report, settle .unlimited (placingScreen .packaged (screenOf form)) = .ok report) ∧
    (∃ c ∈ ((ofScreen .packaged .empty (screenOf form)).render "MainActivity").toList,
      isLegal c = false) ∧
    Markup.read? ((ofScreen .packaged .empty (screenOf form)).render "MainActivity") = none := by
  have hcheck : hasIllegalValue "MainActivity" controlButton := by decide +kernel
  unfold hasIllegalValue at hcheck
  cases hform : Layout.form controlButton {} false with
  | error e =>
    rw [hform] at hcheck
    cases hcheck
  | ok form =>
    rw [hform] at hcheck
    rw [Bool.and_eq_true, List.isEmpty_iff, Bool.not_eq_true'] at hcheck
    obtain ⟨hstops, hvalues⟩ := hcheck
    have hrules := all_eq_true.1 wellNamed_packaged
    have hspelled := isSpelled_ofScreen hrules .empty "MainActivity" (screenOf form)
    have hillegal : (ofScreen .packaged .empty (screenOf form)).isLegal "MainActivity" = false := by
      rw [isLegal_ofScreen hrules]
      exact hvalues
    refine ⟨form, rfl, ⟨_, Journal.settle_unlimited_eq_ok_iff.2 ⟨hstops, rfl⟩⟩, ?_, ?_⟩
    · rw [← hspelled.isLegalText_render, isLegalText, all_eq_false] at hillegal
      obtain ⟨c, hc, hnot⟩ := hillegal
      exact ⟨c, hc, Bool.not_eq_true _ ▸ hnot⟩
    · rw [hspelled.read?, hillegal]
      rfl

end Layout
end ScreenForge
