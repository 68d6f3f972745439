/-
# Forms of expressions

However an expression is made, its text has one of the forms below, and in its brackets stand
operands of these forms with marks between them (`Form`).

| form | example |
| --- | --- |
| a number | `-5` |
| a word | `true`, `this@MainActivity.label.text` |
| a literal | `"…"` |
| brackets, perhaps behind a word | `(a + b)`, `error("…")` |
| joined items | `listOf(a, b).joinToString("")` |

Every literal of an expression is one of its `quotations`.  Most of them are escaped.  Where a
placeholder tells a slot, an operator or a type of block, its word stands there as it is.
-/
import ScreenForge.Proofs.Code.Parts
import ScreenForge.Proofs.Kotlin.Binding
import ScreenForge.Proofs.Kotlin.Lexeme
import ScreenForge.Proofs.Kotlin.Number
import ScreenForge.Proofs.Text.Within

namespace ScreenForge
namespace Kotlin

open List
open Code (Expr)
open Text (isPrintableText)

variable {s u name : String} {target : String × Layout.Ref}

/-! ### Small names -/

/-- A text of name characters that does not start with the letter `R`. -/
def isSmall (s : String) : Bool := s.toList.head? != some 'R' && s.toList.all isNameChar

theorem isNameChar_of_isSmall (h : isSmall s) : ∀ c ∈ s.toList, isNameChar c :=
  all_eq_true.1 (Bool.and_eq_true_iff.1 h).2

theorem head_ne_of_isSmall (h : isSmall s) : s.toList.head? ≠ some 'R' :=
  bne_iff_ne.1 (Bool.and_eq_true_iff.1 h).1

theorem isSmall_identifier (name : String) : isSmall (identifier name) := by
  obtain ⟨c, cs, hs, hc, hcs⟩ := identifier_eq_cons name .lower
  rw [isSmall, hs]
  refine Bool.and_eq_true_iff.2 ⟨bne_iff_ne.2 ?_, all_eq_true.2 hcs⟩
  rintro ⟨⟩
  exact absurd hc (by decide)

theorem isSmall_append_toString (h : isName s) (hs : isSmall s) (n : Nat) :
    isSmall (s ++ toString n) := by
  refine Bool.and_eq_true_iff.2 ⟨bne_iff_ne.2 ?_,
    all_eq_true.2 (isNameChar_of_isName (isName_append_toString h n))⟩
  obtain ⟨⟨c, cs, hchars, -⟩, -⟩ := isName_iff.1 h
  have := head_ne_of_isSmall hs
  rw [hchars] at this
  rw [String.toList_append, hchars]
  exact this

/-- Assigned words begin with a small letter or an underscore. -/
theorem isSmall_of_mem_assign {word : String} {a : Allocator} {names : List String}
    {e : String × String} (h : e ∈ (assign word a names).1) : isSmall e.2 :=
  forall_assign (P := fun s => isSmall s = true) (fun name => ⟨isSmall_identifier name,
    isSmall_append_toString (isName_identifier name _) (isSmall_identifier name)⟩) h

/-- An environment whose members all have small names. -/
structure Env.Small (env : Env) : Prop where
  globals : ∀ e ∈ env.globals, isSmall e.2 = true
  procedures : ∀ e ∈ env.procedures, isSmall e.2 = true
  fields : ∀ e ∈ env.fields, isSmall e.2 = true

/-- **The names that a program gives its members are small.** -/
theorem small_naming (t : Target) (p : Code.Program) : (t.naming p).Small :=
  ⟨fun _ h => isSmall_of_mem_assign h, fun _ h => isSmall_of_mem_assign h,
    fun _ h => isSmall_of_mem_assign h⟩

theorem isSmall_getD_lookup {entries : List (String × String)}
    (h : ∀ e ∈ entries, isSmall e.2) (name : String) :
    isSmall ((entries.lookup name).getD "") := by
  cases hl : entries.lookup name with
  | none => decide
  | some word => exact h (name, word) (Assoc.mem_of_lookup hl)

/-! ### Words -/

/-- The words of expressions that are no names. -/
def ownWords : List String :=
  ["", ".", "true", "false", "0", "1", "error", "mutableListOf", "Math.pow"]

/-- What holds of all words that the expressions of a scope are written with: their own, and the
names of members. -/
structure Env.Writes (env : Env) (scope : Scope) (Q : String → Prop) : Prop where
  own : ∀ s ∈ ownWords, Q s
  component : ∀ {name target}, env.component? scope name = some target → Q target.1
  property : ∀ {name target}, env.component? scope name = some target →
    ∀ property, Q (target.1 ++ "." ++ accessor target.2 property)
  method : ∀ {name target}, env.component? scope name = some target →
    ∀ method, Q (target.1 ++ "." ++ methodName target.2 method)
  binding : ∀ {name word}, env.binding? scope name = some word → Q word
  procedure : ∀ {name word}, env.procedure? scope name = some word → Q word

/-- What holds of words and of what is put together from them. -/
structure IsLexicon (Q : String → Prop) : Prop where
  own : ∀ s ∈ ownWords, Q s
  append : ∀ {s u : String}, Q s → Q u → Q (s ++ u)

/-- What holds of all texts that members of an activity are written with: of small names, of names
behind that of the activity, and of the words of rules. -/
structure Env.Forall (env : Env) (Q : String → Prop) : Prop extends env.Small where
  ofSmall : ∀ {s : String}, isSmall s = true → Q s
  qualified : ∀ {s : String}, Q s → Q ("this@" ++ env.activity ++ "." ++ s)
  accessors : ∀ e ∈ env.components, ∀ a ∈ e.2.rule.accessors, Q a.2
  methods : ∀ e ∈ env.components, ∀ m ∈ e.2.rule.methods, Q m.2

namespace Env.Forall

variable {env : Env} {Q : String → Prop} {scope : Scope} {word : String}
  {entries : List (String × String)} (henv : env.Forall Q)

include henv

theorem named (h : ∀ e ∈ entries, isSmall e.2) (name : String) :
    Q ((entries.lookup name).getD "") :=
  henv.ofSmall (isSmall_getD_lookup h name)

theorem worded (h : ∀ e ∈ entries, Q e.2) (name own : String) :
    Q ((entries.lookup name).getD (identifier own)) := by
  cases hl : entries.lookup name with
  | none =>
    rw [Option.getD_none]
    exact henv.ofSmall (isSmall_identifier own)
  | some text => exact h _ (Assoc.mem_of_lookup hl)

theorem member (h : isSmall word) : Q (env.member scope word) := by
  unfold Env.member
  split
  · exact henv.qualified (henv.ofSmall h)
  · exact henv.ofSmall h

theorem component? (h : env.component? scope name = some target) : Q target.1 := by
  obtain ⟨ref, -, rfl⟩ := Option.map_eq_some_iff.1 h
  exact henv.member (isSmall_getD_lookup henv.fields name)

theorem accessor (h : env.component? scope name = some target) (property : String) :
    Q (accessor target.2 property) := by
  obtain ⟨ref, href, rfl⟩ := Option.map_eq_some_iff.1 h
  exact henv.worded (henv.accessors _ (Assoc.mem_of_lookup href)) _ _

theorem methodName (h : env.component? scope name = some target) (method : String) :
    Q (methodName target.2 method) := by
  obtain ⟨ref, href, rfl⟩ := Option.map_eq_some_iff.1 h
  exact henv.worded (henv.methods _ (Assoc.mem_of_lookup href)) _ _

theorem binding? (h : env.binding? scope name = some word) : Q word := by
  rcases binding?_eq_some_iff.1 h with ⟨x, member, -, hmember, rfl⟩ | ⟨-, -, rfl⟩
  · exact henv.member (henv.globals (x, member) (Assoc.mem_of_lookup hmember))
  · exact henv.ofSmall (isSmall_identifier name)

theorem procedure? (h : env.procedure? scope name = some word) : Q word := by
  obtain ⟨member, hmember, rfl⟩ := Option.map_eq_some_iff.1 h
  exact henv.member (henv.procedures (name, member) (Assoc.mem_of_lookup hmember))

/-- What holds of the words of an environment holds of all that it writes. -/
theorem writes (hQ : IsLexicon Q) (scope : Scope) : env.Writes scope Q where
  own := hQ.own
  component := henv.component?
  property h property :=
    hQ.append (hQ.append (henv.component? h) (hQ.own _ (by decide))) (henv.accessor h property)
  method h method :=
    hQ.append (hQ.append (henv.component? h) (hQ.own _ (by decide))) (henv.methodName h method)
  binding := henv.binding?
  procedure := henv.procedure?

end Env.Forall

/-! ### Forms -/

/-- Whether a text is plain code without brackets and braces. -/
def isSigns (s : String) : Bool :=
  isPlainCode s.toList && s.toList.all fun c => !(['(', ')', '\x7b', '\x7d'].contains c)

/-- Whether a text can stand between operands. -/
def isMark (s : String) : Bool :=
  isSigns s && isPrintableText s && s != ""
  && s.toList.head? != some 'R'

/-- How the texts of expressions are made, with the contents of their literals.  A single operand, or
operands with marks between them, which stand in brackets. -/
inductive Form (Q : String → Prop) : (single : Bool) → String → List (List Char) → Prop where
  | number {s : String} (h : IsNumeral s.toList) : Form Q true s []
  | word {s : String} (h : Q s) : Form Q true s []
  | literal {s : String} {content : List Char} (hs : s.toList = '"' :: (content ++ ['"'])) :
      Form Q true s [content]
  /-- Brackets, perhaps with a word in front. -/
  | call {w s : String} {cs : List (List Char)} (hw : Q w) (h : Form Q false s cs) :
      Form Q true (w ++ "(" ++ s ++ ")") cs
  | joined {s : String} {cs : List (List Char)} (h : Form Q false s cs) :
      Form Q true ("listOf(" ++ s ++ ").joinToString(\"\")") (cs ++ [[]])
  | operand {s : String} {cs : List (List Char)} (h : Form Q true s cs) : Form Q false s cs
  | between {s m u : String} {cs ds : List (List Char)} (hs : Form Q false s cs)
      (hm : isMark m = true) (hu : Form Q false u ds) : Form Q false (s ++ m ++ u) (cs ++ ds)

section

variable {Q : String → Prop} {single : Bool} {cs ds : List (List Char)}

/-- A text may be put together in another way. -/
theorem Form.respelt (hs : Form Q single s cs) (h : s.toList = u.toList) : Form Q single u cs :=
  String.toList_inj.1 h ▸ hs

theorem form_stringLiteral (s : String) :
    Form Q true (stringLiteral s) [s.toList.flatMap escapeChar] :=
  .literal String.toList_ofList

variable (hQ : ∀ s ∈ ownWords, Q s)
include hQ

theorem form_empty : Form Q false "" [] := .operand (.word (hQ _ (by decide)))

theorem form_group (h : Form Q false s cs) : Form Q true ("(" ++ s ++ ")") cs :=
  (Form.call (w := "") (hQ _ (by decide)) h).respelt (by simp)

/-- A mark may stand in front. -/
theorem form_marked {m : String} (hm : isMark m) (h : Form Q false s cs) :
    Form Q false (m ++ s) cs :=
  ((form_empty hQ).between hm h).respelt (by simp)

theorem form_errorCall (reason : String) : Form Q true (errorCall reason) [reason.toList] :=
  (Form.call (w := "error") (hQ _ (by decide))
    (.operand (.literal (s := "\"" ++ reason ++ "\"") (by simp)))).respelt (by simp [errorCall])

theorem form_errorLiteral (reason : String) :
    Form Q true ("error(" ++ stringLiteral reason ++ ")") [reason.toList.flatMap escapeChar] :=
  (Form.call (w := "error") (hQ _ (by decide)) (.operand (form_stringLiteral reason))).respelt
    (by simp)

/-- Two operands with a sign between them are in brackets. -/
theorem form_infixText {sign : String} (hsign : isMark (" " ++ sign ++ " "))
    (hs : Form Q false s cs) (hu : Form Q false u ds) :
    Form Q true (infixText sign s u) (cs ++ ds) :=
  (form_group hQ (hs.between hsign hu)).respelt (by simp [infixText])

theorem form_toDouble (hs : Form Q true s cs) : Form Q false (receiver s ++ ".toDouble()") cs := by
  have hreceiver : Form Q true (receiver s) cs := by
    unfold receiver
    split
    · exact form_group hQ hs.operand
    · exact hs
  have hall := hreceiver.operand.between (m := ".toDouble") (by decide)
    (form_group hQ (form_empty hQ)).operand
  rw [append_nil] at hall
  exact hall.respelt (by simp)

theorem form_binaryText (op : Code.BinaryOp) (hs : Form Q true s cs) (hu : Form Q true u ds) :
    Form Q true (binaryText op s u) (cs ++ ds) := by
  cases op with
  | subtract => exact form_infixText hQ (by decide) hs.operand hu.operand
  | divide => exact form_infixText hQ (by decide) (form_toDouble hQ hs) hu.operand
  | power =>
    have hargs := (form_toDouble hQ hs).between (m := ", ") (by decide) (form_toDouble hQ hu)
    exact (Form.call (w := "Math.pow") (hQ _ (by decide)) hargs).respelt (by simp [binaryText])
  | compare op | logic op =>
    exact form_infixText hQ (by cases op <;> decide) hs.operand hu.operand

theorem form_signText {sign : Char} (hsign : isMark (String.singleton sign))
    (hs : Form Q true s cs) : Form Q true (signText sign s) cs := by
  unfold signText
  split
  · exact (form_group hQ (form_marked hQ hsign (form_group hQ hs.operand).operand)).respelt
      (by simp)
  · exact (form_group hQ (form_marked hQ hsign hs.operand)).respelt (by simp)

/-- A choice of three operands is in brackets. -/
theorem form_choose {v : String} {es : List (List Char)} (hs : Form Q false s cs)
    (hu : Form Q false u ds) (hv : Form Q false v es) :
    Form Q true ("(if (" ++ s ++ ") " ++ u ++ " else " ++ v ++ ")") (cs ++ ds ++ es) := by
  have hif := form_marked hQ (m := "if ") (by decide) (form_group hQ hs).operand
  have hboth := hif.between (m := " ") (by decide) hu
  exact (form_group hQ (hboth.between (m := " else ") (by decide) hv)).respelt (by simp)

variable {α : Type} {text : α → String} {contents : α → List (List Char)} {items : List α}
  (h : ∀ a ∈ items, Form Q true (text a) (contents a))
include h

theorem form_join : Form Q false (Text.join ", " (items.map text)) (items.flatMap contents) := by
  induction items with
  | nil => exact form_empty hQ
  | cons first rest ih =>
    have hfirst := (h first mem_cons_self).operand
    have hrest := ih fun a ha => h a (mem_cons_of_mem _ ha)
    cases rest with
    | nil =>
      rw [flatMap_cons, flatMap_nil, append_nil]
      exact hfirst
    | cons second rest => exact hfirst.between (m := ", ") (by decide) hrest

/-- **An operator between texts has a form**, the form of the only one if there is one. -/
theorem form_chainText (op : Code.ChainOp) :
    Form Q true (chainText op (items.map text)) (items.flatMap contents) := by
  have hsign : isMark (" " ++ chainSign op ++ " ") := by cases op <;> decide
  -- the operands to the left make one text, and each further one goes behind it
  have hfold : ∀ (rest : List α) {left : String} {cs : List (List Char)}, Form Q true left cs →
      (∀ a ∈ rest, Form Q true (text a) (contents a)) →
      Form Q true ((rest.map text).foldl (fun l r => infixText (chainSign op) l r) left)
        (cs ++ rest.flatMap contents) := by
    intro rest
    induction rest with
    | nil =>
      intro left cs hleft _
      rw [flatMap_nil, append_nil]
      exact hleft
    | cons a rest ih =>
      intro left cs hleft hrest
      obtain ⟨ha, hrest⟩ := forall_mem_cons.1 hrest
      have hall := ih (form_infixText hQ hsign hleft.operand ha.operand) hrest
      rwa [append_assoc] at hall
  cases items with
  | nil => exact .word (s := chainUnit op) (hQ _ (by cases op <;> decide))
  | cons first rest =>
    exact hfold rest (h first mem_cons_self) fun a ha => h a (mem_cons_of_mem _ ha)

theorem form_joined : Form Q true (if items.isEmpty then "\"\""
      else "listOf(" ++ Text.join ", " (items.map text) ++ ").joinToString(\"\")")
      (items.flatMap contents ++ [[]]) := by
  cases items with
  | nil => exact .literal (s := "\"\"") rfl
  | cons first rest => exact .joined (form_join hQ h)

end

/-! ### Expressions -/

/-- What stands between the quotes of a literal. -/
inductive Quotation where
  /-- A text, escaped. -/
  | escaped (text : String)
  /-- A word behind others, as it is. -/
  | plain (lead word : String)
  deriving DecidableEq, Repr

/-- The content of a literal. -/
def Quotation.content : Quotation → List Char
  | .escaped text => text.toList.flatMap escapeChar
  | .plain lead word => (lead ++ word).toList

/-- The quotation of a reference that stands for nothing. -/
def unresolvedQuotation (what name : String) : Quotation :=
  .escaped ("unresolved " ++ what ++ ": " ++ name)

mutual

/-- The literals in the text of an expression, in order. -/
def quotations (env : Env) (scope : Scope) : Expr → List Quotation
  | .missing slot _ => [.plain "missing value: " slot]
  | .number entered _ =>
    if (numberLiteral? entered).isSome then [] else [.plain "invalid number" ""]
  | .text value => [.escaped value]
  | .truth _ => []
  | .chain _ operands => quotationsAll env scope operands
  | .emptyChain => []
  | .binary _ left right => quotations env scope left ++ quotations env scope right
  | .unknownOperator what _ op _ _ => [.plain ("unsupported " ++ what ++ ": ") op]
  | .negate operand => quotations env scope operand
  | .not operand => quotations env scope operand
  | .choose test yes no =>
    quotations env scope test ++ quotations env scope yes ++ quotations env scope no
  | .join items => quotationsAll env scope items ++ [.plain "" ""]
  | .list items => quotationsAll env scope items
  | .property name _ =>
    if (env.component? scope name).isSome then [] else [unresolvedQuotation "component" name]
  | .method name _ args =>
    if (env.component? scope name).isSome then quotationsAll env scope args
    else [unresolvedQuotation "component" name]
  | .longSlots => []
  | .component name =>
    if (env.component? scope name).isSome then [] else [unresolvedQuotation "component" name]
  | .variable name =>
    if (env.binding? scope name).isSome then [] else [unresolvedQuotation "variable" name]
  | .procedure name args =>
    if (env.procedure? scope name).isSome then quotationsAll env scope args
    else [unresolvedQuotation "procedure" name]
  | .unsupported type => [.escaped ("unsupported block: " ++ type)]
  | .misplaced type => [.plain "statement used as value: " type]

/-- The literals in the texts of expressions, in order. -/
def quotationsAll (env : Env) (scope : Scope) : List Expr → List Quotation
  | [] => []
  | e :: rest => quotations env scope e ++ quotationsAll env scope rest

end

theorem quotationsAll_eq_flatMap (env : Env) (scope : Scope) (es : List Expr) :
    quotationsAll env scope es = es.flatMap (quotations env scope) := by
  induction es with
  | nil => simp [quotationsAll]
  | cons e es ih => simp [quotationsAll, ih]

/-- The contents of the literals of an expression. -/
def literals (env : Env) (scope : Scope) (e : Expr) : List (List Char) :=
  (quotations env scope e).map Quotation.content

/-- The contents of quotations are the literals. -/
theorem map_content_quotationsAll (env : Env) (scope : Scope) (es : List Expr) :
    (quotationsAll env scope es).map Quotation.content = es.flatMap (literals env scope) := by
  rw [quotationsAll_eq_flatMap, map_flatMap]
  rfl

/-- **Every expression has a form.** -/
theorem form_exprText {Q : String → Prop} {env : Env} {scope : Scope} (henv : env.Writes scope Q)
    (e : Expr) : Form Q true (exprText env scope e) (literals env scope e) := by
  induction e using Expr.inductOperands with
  | h e ih =>
  have hQ := henv.own
  have hunresolved : ∀ what name : String, Form Q true (unresolvedCall what name)
      [(unresolvedQuotation what name).content] := fun _ _ => form_errorLiteral hQ _
  cases e with
  | missing slot owner | unknownOperator what type op left right | misplaced type =>
    exact form_errorCall hQ _
  | number entered type =>
    unfold literals quotations
    rw [exprText]
    cases hn : numberLiteral? entered with
    | none => exact form_errorCall hQ _
    | some text => exact .number (isNumeral_numberLiteral? hn)
  | text value => exact form_stringLiteral value
  | truth value =>
    rw [exprText]
    exact .word (hQ _ (by cases value <;> decide))
  | emptyChain | longSlots => exact .word (s := "") (hQ _ (by decide))
  | chain op operands =>
    rw [exprText, exprTexts_eq_map, literals, quotations, map_content_quotationsAll]
    exact form_chainText hQ ih op
  | binary op left right =>
    simp only [Expr.operands, forall_mem_cons] at ih
    rw [exprText, literals, quotations, map_append]
    exact form_binaryText hQ op ih.1 ih.2.1
  | negate operand | not operand =>
    rw [exprText]
    exact form_signText hQ (by decide) (ih operand (mem_singleton.2 rfl))
  | choose test yes no =>
    simp only [Expr.operands, forall_mem_cons] at ih
    obtain ⟨htest, hyes, hno, -⟩ := ih
    rw [exprText, literals, quotations, map_append, map_append]
    exact form_choose hQ htest.operand hyes.operand hno.operand
  | join items =>
    rw [exprText, exprTexts_eq_map, literals, quotations, map_append, map_content_quotationsAll]
    exact form_joined hQ ih
  | list items =>
    rw [exprText, exprTexts_eq_map, literals, quotations, map_content_quotationsAll]
    exact .call (w := "mutableListOf") (hQ _ (by decide)) (form_join hQ ih)
  | property name property =>
    unfold literals quotations
    rw [exprText]
    cases htarget : env.component? scope name with
    | none => exact hunresolved "component" name
    | some target => exact .word (henv.property htarget property)
  | method name method args =>
    rw [exprText, literals, quotations]
    cases htarget : env.component? scope name with
    | none => exact hunresolved "component" name
    | some target =>
      rw [exprTexts_eq_map, Option.isSome_some, if_pos rfl, map_content_quotationsAll]
      exact .call (henv.method htarget method) (form_join hQ ih)
  | component name =>
    unfold literals quotations
    rw [exprText]
    cases htarget : env.component? scope name with
    | none => exact hunresolved "component" name
    | some target => exact .word (henv.component htarget)
  | «variable» name =>
    unfold literals quotations
    rw [exprText]
    cases htarget : env.binding? scope name with
    | none => exact hunresolved "variable" name
    | some target => exact .word (henv.binding htarget)
  | procedure name args =>
    rw [exprText, literals, quotations]
    cases htarget : env.procedure? scope name with
    | none => exact hunresolved "procedure" name
    | some target =>
      rw [exprTexts_eq_map, Option.isSome_some, if_pos rfl, map_content_quotationsAll]
      exact .call (henv.procedure htarget) (form_join hQ ih)
  | unsupported type => exact form_errorLiteral hQ _

/-- The literal that an expression may write itself, apart from its operands. -/
def quoted? : Expr → Option Quotation
  | .missing slot _ => some (.plain "missing value: " slot)
  | .number _ _ => some (.plain "invalid number" "")
  | .text value => some (.escaped value)
  | .unknownOperator what _ op _ _ => some (.plain ("unsupported " ++ what ++ ": ") op)
  | .join _ => some (.plain "" "")
  | .property name _ => some (unresolvedQuotation "component" name)
  | .method name _ _ => some (unresolvedQuotation "component" name)
  | .component name => some (unresolvedQuotation "component" name)
  | .variable name => some (unresolvedQuotation "variable" name)
  | .procedure name _ => some (unresolvedQuotation "procedure" name)
  | .unsupported type => some (.escaped ("unsupported block: " ++ type))
  | .misplaced type => some (.plain "statement used as value: " type)
  | _ => none

/-- A literal of an expression is its own or one of its operands. -/
theorem mem_quotations {env : Env} {scope : Scope} {e : Expr} {q : Quotation}
    (h : q ∈ quotations env scope e) :
    quoted? e = some q ∨ ∃ o ∈ e.operands, q ∈ quotations env scope o := by
  have hown : ∀ {own}, q ∈ [own] → some own = some q :=
    fun h => congrArg some (mem_singleton.1 h).symm
  cases e with
  | join items =>
    rw [quotations, quotationsAll_eq_flatMap] at h
    exact (mem_append.1 h).symm.imp hown mem_flatMap.1
  | chain op operands | list operands =>
    rw [quotations, quotationsAll_eq_flatMap] at h
    exact Or.inr (mem_flatMap.1 h)
  | method name method args | procedure name args =>
    rw [quotations, quotationsAll_eq_flatMap] at h
    split at h
    · exact Or.inr (mem_flatMap.1 h)
    · exact Or.inl (hown h)
  | number entered type | property name property | component name | «variable» name =>
    rw [quotations] at h
    split at h
    · exact absurd h not_mem_nil
    · exact Or.inl (hown h)
  | binary op left right | choose test yes no | negate operand | not operand =>
    refine Or.inr ?_
    simpa [quotations, Expr.operands, or_assoc] using h
  | truth value | emptyChain | longSlots => exact absurd h not_mem_nil
  | _ => exact Or.inl (hown h)

end Kotlin
end ScreenForge
