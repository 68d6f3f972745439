/-
# How expressions start

Whether a line declares or binds a field is told at its beginning, so the texts of expressions have
to be known only there: an expression never starts with a blank or with the letter `R`, what follows
its first word is no blank, and that is no call whose argument starts with `R` (`Tame`). This holds
of all expressions, because the names of variables and members start with a small letter or an
underscore.
-/
import ScreenForge.Proofs.Kotlin.Form
import ScreenForge.Proofs.Kotlin.Quiet

namespace ScreenForge
namespace Kotlin

open List
open Code (Expr Stmt)

variable {s text name : String} {rest : List Char} {texts : List String} {scope : Scope}
  {cs : List Char}

/-! ### How expressions start -/

/-- What may stand behind the first word of an expression: no word, no blank, and no argument that
starts with the letter `R`. -/
structure Cut (rest : List Char) : Prop where
  endsWord : EndsWord rest
  closed : rest.head? ≠ some ' '
  plain : ¬ ['(', 'R'] <+: rest

/-- How expressions start. -/
structure Tame (cs : List Char) : Prop where
  solid : cs.head? ≠ some ' '
  small : cs.head? ≠ some 'R'
  cut : Cut (behind cs)

theorem Tame.ne_call {w : List Char} (h : Tame cs) (hw : ∀ c ∈ w, isNameChar c) :
    cs ≠ w ++ '(' :: 'R' :: rest := by
  intro he
  have hbehind : behind cs = '(' :: 'R' :: rest := by
    rw [he]
    exact behind_word hw (by simp [EndsWord, isNameChar])
  exact h.cut.plain ⟨rest, hbehind.symm⟩

theorem cut_nil : Cut [] := ⟨by simp [EndsWord], by simp, by simp⟩

theorem cut_cons {c : Char} (hc : isNameChar c = false) (hblank : c ≠ ' ')
    (hplain : c = '(' → rest.head? ≠ some 'R') : Cut (c :: rest) := by
  refine ⟨?_, by simpa using hblank, ?_⟩
  · intro d hd
    rw [← Option.some.inj hd]
    exact hc
  · intro hprefix
    obtain ⟨hopen, hR⟩ := cons_prefix_cons.1 hprefix
    obtain ⟨after, rfl⟩ := hR
    exact hplain hopen.symm rfl

theorem cut_dot (rest : List Char) : Cut ('.' :: rest) :=
  cut_cons (by decide) (by decide) fun h => absurd h (by decide)

theorem tame_word {w : List Char} (hw : ∀ c ∈ w, isNameChar c) (hR : w.head? ≠ some 'R')
    (hrest : Cut rest) : Tame (w ++ rest) := by
  have hcut : Cut (behind (w ++ rest)) := by
    rw [behind_word hw hrest.endsWord]
    exact hrest
  cases w with
  | nil =>
    refine ⟨hrest.closed, fun h => ?_, hcut⟩
    exact absurd (hrest.endsWord 'R' h) (by decide)
  | cons c w => exact ⟨head_ne_blank hw (cons_ne_nil _ _), hR, hcut⟩

theorem tame_of_isSmall (h : isSmall s) (hrest : Cut rest) : Tame (s.toList ++ rest) :=
  tame_word (isNameChar_of_isSmall h) (head_ne_of_isSmall h) hrest

/-- Whether every text with a beginning starts tamely. -/
def opens (start : String) : Bool :=
  let rest := behind start.toList
  start.toList.head? != some ' ' && start.toList.head? != some 'R' && !rest.isEmpty
    && rest.head? != some ' ' && !agrees rest ['(', 'R']

/-- **A text with a tame beginning starts tamely.** -/
theorem tame_start (start : String) (h : opens start) (rest : List Char) :
    Tame (start.toList ++ rest) := by
  simp only [opens, Bool.and_eq_true, bne_iff_ne, Bool.not_eq_true'] at h
  obtain ⟨⟨⟨⟨hsolid, hsmall⟩, hne⟩, hclosed⟩, hplain⟩ := h
  have hbehind : behind (start.toList ++ rest) = behind start.toList ++ rest := by
    rw [behind, dropWhile_append, ← behind, if_neg (by simpa using hne)]
  have hstart : start.toList ≠ [] := by
    intro hnil
    simp [hnil, behind] at hne
  have hhead : ∀ {cs : List Char}, cs ≠ [] → (cs ++ rest).head? = cs.head? := by
    intro cs hcs
    rw [List.head?_append, Option.or_eq_left_of_isSome (by simpa using hcs)]
  rw [← hhead hstart] at hsolid hsmall
  refine ⟨hsolid, hsmall, hbehind ▸ ⟨?_, ?_, not_prefix_of_agrees hplain rest⟩⟩
  · rw [← hbehind]
    exact endsWord_behind _
  · rw [hhead (by simpa using hne)]
    exact hclosed

/-- A text without blanks, brackets and the letter `R`. -/
theorem tame_of_chars (h : ∀ c ∈ cs, c ≠ ' ' ∧ c ≠ '(' ∧ c ≠ 'R') : Tame cs := by
  have hhead : ∀ {ds : List Char} {c : Char}, ds <:+ cs → ds.head? = some c →
      c ≠ ' ' ∧ c ≠ '(' ∧ c ≠ 'R' :=
    fun hds hc => h _ (hds.subset (mem_of_head? hc))
  have hbehind : behind cs <:+ cs := dropWhile_suffix _
  refine ⟨fun hc => (hhead suffix_rfl hc).1 rfl, fun hc => (hhead suffix_rfl hc).2.2 rfl,
    ⟨endsWord_behind cs, fun hc => (hhead hbehind hc).1 rfl, ?_⟩⟩
  rintro ⟨after, hafter⟩
  exact (hhead hbehind (c := '(') (by rw [← hafter]; rfl)).2.1 rfl

theorem head_append (hcs : cs.head? ≠ some 'R') (hrest : rest.head? ≠ some 'R') :
    (cs ++ rest).head? ≠ some 'R' := by
  cases cs with
  | nil => exact hrest
  | cons c cs => exact hcs

theorem tame_member (env : Env) (scope : Scope) (h : isSmall name) (hrest : Cut rest) :
    Tame ((env.member scope name).toList ++ rest) := by
  unfold Env.member
  split
  · simp only [String.toList_append, append_assoc]
    exact tame_start _ (by decide) _
  · exact tame_of_isSmall h hrest

variable {env : Env}

theorem tame_binding (henv : env.Small) (h : env.binding? scope name = some text)
    (hrest : Cut rest) : Tame (text.toList ++ rest) := by
  rcases binding?_eq_some_iff.1 h with ⟨x, word, -, hword, rfl⟩ | ⟨-, -, rfl⟩
  · exact tame_member env scope (henv.globals (x, word) (Assoc.mem_of_lookup hword)) hrest
  · exact tame_of_isSmall (isSmall_identifier name) hrest

theorem tame_component (henv : env.Small) {target : String} {ref : Layout.Ref}
    (h : env.component? scope name = some (target, ref)) (hrest : Cut rest) :
    Tame (target.toList ++ rest) := by
  obtain ⟨found, -, heq⟩ := Option.map_eq_some_iff.1 h
  rw [← (Prod.mk.inj heq).1]
  exact tame_member env scope (isSmall_getD_lookup henv.fields name) hrest

/-- A text that starts tamely, whatever it is followed by. -/
def Leads (s : String) : Prop := ∀ {rest : List Char}, Cut rest → Tame (s.toList ++ rest)

theorem Leads.dotted (h : Leads s) (word : String) : Leads (s ++ "." ++ word) := by
  intro rest _
  rw [String.toList_append, String.toList_append, append_assoc, append_assoc]
  exact h (cut_dot _)

/-- **The words of expressions start tamely.** -/
theorem Env.Small.writes (henv : env.Small) (scope : Scope) : env.Writes scope Leads where
  own s hs := by
    intro rest hrest
    have hall : ∀ s ∈ ownWords, isSmall s = true ∨ opens s = true := by decide
    rcases hall s hs with h | h
    · exact tame_of_isSmall h hrest
    · exact tame_start s h rest
  component h := tame_component henv h
  property h _ := Leads.dotted (tame_component henv h) _
  method h _ := Leads.dotted (tame_component henv h) _
  binding h := tame_binding henv h
  procedure h := by
    obtain ⟨word, hword, rfl⟩ := Option.map_eq_some_iff.1 h
    exact tame_member env scope (henv.procedures (_, word) (Assoc.mem_of_lookup hword))

/-- **Texts of all forms start tamely**, and no brackets start with the letter `R`. -/
theorem Form.tame {single : Bool} {cs : List (List Char)} (h : Form Leads single s cs) :
    s.toList.head? ≠ some 'R' ∧ (single = true → Tame s.toList) := by
  have htame : ∀ {s : String}, Tame s.toList →
      s.toList.head? ≠ some 'R' ∧ (true = true → Tame s.toList) := fun h => ⟨h.small, fun _ => h⟩
  have hcall : ∀ {w s : String} (rest : String), Leads w → s.toList.head? ≠ some 'R' →
      rest.toList.head? ≠ some 'R' → Tame (w ++ "(" ++ s ++ rest).toList := by
    intro w s rest hw hs hrest
    have hchars : (w ++ "(" ++ s ++ rest).toList = w.toList ++ '(' :: (s.toList ++ rest.toList) := by
      simp
    rw [hchars]
    exact hw (cut_cons (by decide) (by decide) fun _ => head_append hs hrest)
  induction h with
  | number h =>
    refine htame (tame_of_chars fun c hc => ?_)
    have hnumber := h.isNumberChar c hc
    refine ⟨?_, ?_, ?_⟩ <;>
    · rintro rfl
      exact absurd hnumber (by decide)
  | word h => exact htame (by simpa using h cut_nil)
  | literal hs => exact htame (hs ▸ tame_start "\"" (by decide) _)
  | call hw _ ih => exact htame (hcall ")" hw ih.1 (by decide))
  | joined _ ih =>
    exact htame (hcall (w := "listOf") _ (tame_of_isSmall (by decide)) ih.1 (by decide))
  | operand _ ih => exact ⟨ih.1, nofun⟩
  | between _ hm _ ihs ihu =>
    rw [isMark, Bool.and_eq_true, bne_iff_ne] at hm
    rw [String.toList_append, String.toList_append]
    exact ⟨head_append (head_append ihs.1 hm.2) ihu.1, nofun⟩

/-- **Expressions start tamely.** -/
theorem tame_exprText (henv : env.Small) (scope : Scope) (e : Expr) :
    Tame (exprText env scope e).toList :=
  (form_exprText (henv.writes scope) e).tame.2 rfl

/-! ### Statements -/

/-- A line that starts like an expression is quiet. -/
theorem isQuiet_of_tame {line : String} (h : Tame line.toList) : isQuiet line :=
  isQuiet_of_behind (unindented_eq h.solid) h.cut.closed

/-- An assignment of an expression is no binding. -/
theorem isQuiet_assignment {w : String} (hw : isSmall w) (h : Tame text.toList) :
    isQuiet (w ++ " = " ++ text) := by
  by_cases hne : w = ""
  · rw [hne, String.empty_append]
    exact isQuiet_of_start " = " (by decide) text
  have hchars : (w ++ " = " ++ text).toList = w.toList ++ ' ' :: '=' :: ' ' :: text.toList := by
    simp
  have hname := isNameChar_of_isSmall hw
  refine isQuiet_of_split (unindented_of_word hchars hne hname) hname (endsWord_blank _) ?_ ?_
  · rintro - ⟨after, hafter⟩
    have hmark : bindingMark = " = ".toList ++ ("findViewById".toList ++ "(R.id.".toList) := by
      decide
    rw [hmark, append_assoc, append_assoc] at hafter
    have hcall : "findViewById".toList ++ '(' :: 'R' :: (".id.".toList ++ after) = text.toList :=
      (append_right_inj " = ".toList).1 hafter
    exact h.ne_call (all_eq_true.1 (by decide)) hcall.symm
  · rintro - hmark
    exact absurd (cons_prefix_cons.1 (cons_prefix_cons.1 hmark).2).1 (by decide)

/-- An assignment has no call on its right that could bind a field. -/
theorem isQuiet_setBinding (henv : env.Small) {target : String}
    (h : env.binding? scope name = some target) (htext : Tame text.toList) :
    isQuiet (target ++ " = " ++ text) := by
  rcases binding?_eq_some_iff.1 h with ⟨x, word, -, hword, rfl⟩ | ⟨-, -, rfl⟩
  · unfold Env.member
    split
    -- a hidden member has its owner in front, and no blank behind the first word
    · simp only [String.append_assoc]
      exact isQuiet_of_start "this@" (by decide) _
    · exact isQuiet_assignment (henv.globals (x, word) (Assoc.mem_of_lookup hword)) htext
  · exact isQuiet_assignment (isSmall_identifier name) htext

theorem loud_armLines {arms : List (Expr × List Stmt)} {keyword : String}
    (h : settles (keyword ++ " ("))
    (hbody : ∀ arm ∈ arms, loud (stmtsLines env scope arm.2) = []) :
    loud (armLines env scope keyword arms) = [] := by
  induction arms generalizing keyword with
  | nil => simp [armLines]
  | cons arm arms ih =>
    obtain ⟨hfirst, hrest⟩ := forall_mem_cons.1 hbody
    rw [armLines, loud_cons, loud_append, loud_indent, hfirst]
    · exact ih (by decide) hrest
    · have := isQuiet_of_start _ h (exprText env scope arm.1 ++ ")" ++ " \x7b")
      simpa only [openingLine, String.append_assoc] using this

/-- **No statement declares or binds a field.** -/
theorem loud_stmtLines (henv : env.Small) (s : Stmt) :
    ∀ scope, loud (stmtLines env scope s) = [] := by
  induction s using Stmt.inductBodies with
  | h s ih =>
  intro scope
  have hbody : ∀ {ss}, (∃ names, .body names ss ∈ s.pieces) →
      ∀ scope, loud (stmtsLines env scope ss) = [] := by
    rintro ss ⟨names, hpiece⟩ scope
    rw [stmtsLines_eq_flatMap, loud, filter_flatMap, flatMap_eq_nil_iff]
    exact fun c hc => ih _ hpiece c hc scope
  have htame : ∀ e, Tame (exprText env scope e).toList := tame_exprText henv scope
  have hcomment : ∀ start rest, settles start → loud [start ++ rest] = [] :=
    fun start rest h => loud_cons (isQuiet_of_start start h rest) []
  cases s with
  | branch arms otherwise =>
    rw [stmtLines, loud_append, loud_append, loud_closing, loud_armLines (by decide)]
    · cases otherwise with
      | none => simp [otherwiseLines]
      | some body =>
        rw [otherwiseLines, loud_cons (by decide), loud_indent, hbody (by simp [Stmt.pieces])]
        rfl
    · intro arm harm
      refine hbody ⟨[], mem_append_left _ (mem_flatMap.2 ⟨arm, harm, ?_⟩)⟩ scope
      exact mem_cons_of_mem _ (mem_singleton.2 rfl)
  | loop untilHolds condition body =>
    rw [stmtLines, loud_bracedLines, hbody (by simp [Stmt.pieces])]
    · rfl
    · simp only [openingLine, String.append_assoc]
      exact isQuiet_of_start "while (" (by decide) _
  | forRange name first last step body | forEach name items body =>
    rw [stmtLines, loud_bracedLines, hbody (by simp [Stmt.pieces])]
    · rfl
    · simp only [openingLine, String.append_assoc]
      exact isQuiet_of_start "for (" (by decide) _
  | leave =>
    rw [stmtLines]
    decide
  | setProperty name property value =>
    simp only [stmtLines, setPropertyLine]
    split
    · next target ref h =>
      refine loud_cons (isQuiet_of_tame ?_) []
      simp only [String.append_assoc]
      rw [String.toList_append]
      exact tame_component henv h (by rw [String.toList_append]; exact cut_dot _)
    · simp only [String.append_assoc]
      exact hcomment _ _ (by decide)
  | setVariable name value =>
    simp only [stmtLines, setVariableLine]
    split
    · next target h => exact loud_cons (isQuiet_setBinding henv h (htame value)) []
    · simp only [String.append_assoc]
      exact hcomment _ _ (by decide)
  | locals declared body =>
    have hlocal : loud (localLines env scope declared) = [] := by
      refine loud_eq_nil_iff.2 (forall_mem_map.2 fun d _ => ?_)
      simp only [String.append_assoc]
      exact isQuiet_of_start "var " (by decide) _
    rw [stmtLines, loud_bracedLines (by decide), loud_append, hlocal, hbody (by simp [Stmt.pieces])]
    rfl
  | call e | value e =>
    simp only [stmtLines]
    exact loud_cons (isQuiet_of_tame (htame e)) []
  | unsupported type fields =>
    simp only [stmtLines]
    exact hcomment _ _ (by decide)

/-- The lines of all statements are quiet. -/
theorem loud_stmtsLines (henv : env.Small) (scope : Scope) (ss : List Stmt) :
    loud (stmtsLines env scope ss) = [] := by
  rw [stmtsLines_eq_flatMap, loud, filter_flatMap, flatMap_eq_nil_iff]
  exact fun s _ => loud_stmtLines henv s scope

end Kotlin
end ScreenForge
