/-
# Members that code mentions

An expression or a statement refers to at most one member of its activity itself (`mention?`), and
its text opens with that member.  Behind the member its word is over (`Opens`), so a text that opens
with the member alone does not open with the member behind `this@Activity.`, nor the other way
round.
-/
import ScreenForge.Proofs.Kotlin.Binding
import ScreenForge.Proofs.Kotlin.Member

namespace ScreenForge

open List

namespace Code

/-- A member of the activity, by the name of what it stands for. -/
inductive Mention where
  | field (component : String)
  | global (name : String)
  | procedure (name : String)
  deriving DecidableEq, Repr

/-- The member that an expression refers to itself. -/
def Expr.mention? : Expr → Option Mention
  | .property name _ => some (.field name)
  | .method name _ _ => some (.field name)
  | .component name => some (.field name)
  | .variable name => (Kotlin.globalName? name).map .global
  | .procedure name _ => some (.procedure name)
  | _ => none

/-- The member that a statement refers to itself. -/
def Stmt.mention? : Stmt → Option Mention
  | .setProperty name _ _ => some (.field name)
  | .setVariable name _ => (Kotlin.globalName? name).map .global
  | .call e => e.mention?
  | .value e => e.mention?
  | _ => none

end Code

namespace Kotlin

open Code (Expr Mention Stmt)

/-- The identifier of a member; components that the layout lacks have none. -/
def Env.word? (env : Env) : Mention → Option String
  | .field name => (env.components.lookup name).bind fun _ => env.fields.lookup name
  | .global name => env.globals.lookup name
  | .procedure name => env.procedures.lookup name

/-- A text starts with a form, and the form's last word is over behind it. -/
def Opens (form text : String) : Prop := ∃ rest, text = form ++ rest ∧ Ends rest.toList

theorem opens_self (form : String) : Opens form form :=
  ⟨"", String.append_empty.symm, by simp [Ends]⟩

theorem opens_append (form : String) {rest : String} {c : Char} {cs : List Char}
    (hrest : rest.toList = c :: cs) (hc : isWordChar c = false) : Opens form (form ++ rest) := by
  refine ⟨rest, rfl, fun d hd => ?_⟩
  rw [hrest] at hd
  obtain rfl : c = d := Option.some.inj hd
  exact hc

/-- The first word of a text that opens with a name is the name. -/
theorem takeWhile_of_opens {word text : String} (hword : isName word)
    (h : Opens word text) : text.toList.takeWhile isWordChar = word.toList := by
  obtain ⟨rest, rfl, hrest⟩ := h
  have hends : rest.toList.takeWhile isWordChar = [] := by
    cases hlist : rest.toList with
    | nil => rfl
    | cons c cs =>
      have hc : isWordChar c = false := hrest c (by rw [hlist]; rfl)
      simp [hc]
  rw [String.toList_append, takeWhile_append_of_pos (isWordChar_of_isName hword), hends, append_nil]

/-- **A name is not read as a qualified one**: no text opens with both. -/
theorem not_opens_of_opens_qualified {word text activity : String} (hword : isName word)
    (h : Opens ("this@" ++ activity ++ "." ++ word) text) : ¬ Opens word text := by
  intro hbare
  have hfirst := takeWhile_of_opens hword hbare
  obtain ⟨rest, rfl, -⟩ := h
  have hmark : "this@".toList.all isWordChar := by decide
  have hmem : '@' ∈ word.toList := by
    rw [← hfirst, String.append_assoc, String.append_assoc, String.append_assoc,
      String.toList_append, takeWhile_append_of_pos (all_eq_true.1 hmark)]
    exact mem_append_left _ (by decide)
  obtain ⟨⟨c, cs, hlist, hc, -, hcs⟩, -⟩ := isName_iff.1 hword
  rw [hlist] at hmem
  have hname : isNameChar '@' := by
    rcases mem_cons.1 hmem with rfl | hmem
    · exact hc
    · exact hcs _ hmem
  exact absurd hname (by decide)

variable {env : Env} {m : Mention} {word : String}

theorem component?_of_word {name : String} (h : env.word? (.field name) = some word)
    (scope : Scope) : ∃ ref, env.component? scope name = some (env.member scope word, ref) := by
  obtain ⟨ref, href, hfield⟩ := Option.bind_eq_some_iff.1 h
  refine ⟨ref, ?_⟩
  simp only [Env.component?, href, Option.map_some, hfield, Option.getD_some]

theorem binding?_of_word {name x : String} (hg : globalName? name = some x)
    (h : env.word? (.global x) = some word) (scope : Scope) :
    env.binding? scope name = some (env.member scope word) :=
  binding?_eq_some_iff.2 (.inl ⟨x, word, hg, h, rfl⟩)

/-- **The text of an expression that refers to a member opens with the member.** -/
theorem opens_exprText {e : Expr} (h : e.mention? = some m) (hw : env.word? m = some word)
    (scope : Scope) : Opens (env.member scope word) (exprText env scope e) := by
  cases e with
  | property name property | method name called given =>
    obtain rfl := Option.some.inj h
    obtain ⟨ref, href⟩ := component?_of_word hw scope
    simp only [exprText, href, String.append_assoc]
    exact opens_append _ (String.toList_append) (by decide)
  | component name =>
    obtain rfl := Option.some.inj h
    obtain ⟨ref, href⟩ := component?_of_word hw scope
    simp only [exprText, href]
    exact opens_self _
  | «variable» name =>
    obtain ⟨x, hg, rfl⟩ := Option.map_eq_some_iff.1 h
    rw [exprText, binding?_of_word hg hw]
    exact opens_self _
  | procedure name given =>
    obtain rfl := Option.some.inj h
    have hprocedure : env.procedure? scope name = some (env.member scope word) :=
      congrArg (Option.map (env.member scope)) hw
    simp only [exprText, hprocedure, String.append_assoc]
    exact opens_append _ (String.toList_append) (by decide)
  | _ => cases h

/-- **A statement that refers to a member is one line, which opens with the member.** -/
theorem opens_stmtLines {s : Stmt} (h : s.mention? = some m) (hw : env.word? m = some word)
    (scope : Scope) :
    ∃ line, stmtLines env scope s = [line] ∧ Opens (env.member scope word) line := by
  cases s with
  | setProperty name property e =>
    obtain rfl := Option.some.inj h
    obtain ⟨ref, href⟩ := component?_of_word hw scope
    refine ⟨_, by rw [stmtLines], ?_⟩
    simp only [setPropertyLine, href, String.append_assoc]
    exact opens_append _ (String.toList_append) (by decide)
  | setVariable name e =>
    obtain ⟨x, hg, rfl⟩ := Option.map_eq_some_iff.1 h
    refine ⟨_, by rw [stmtLines], ?_⟩
    simp only [setVariableLine, binding?_of_word hg hw, String.append_assoc]
    exact opens_append _ (String.toList_append) (by decide)
  | call e | value e =>
    exact ⟨_, by rw [stmtLines], opens_exprText h hw scope⟩
  | _ => cases h

end Kotlin
end ScreenForge
