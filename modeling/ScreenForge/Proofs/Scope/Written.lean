/-
# What blocks leave in the text

The text of an operand stands in the text of its expression, and the lines of a piece stand in the
lines of its statement.  The exceptions are expressions that are replaced as a whole: a comparison
or a connective that nobody knows, and the call of a method or a procedure that is not there.
-/
import ScreenForge.Proofs.Kotlin.Binding
import ScreenForge.Proofs.Kotlin.Source
import ScreenForge.Proofs.Scope.Site

namespace ScreenForge

open List

namespace Kotlin

open Code (Expr Stmt exprOf fieldOr stmtOf)
open Text (Shows Within)

theorem within_infixText_left (sign l r : String) : Within l (infixText sign l r) :=
  ⟨"(", " " ++ sign ++ " " ++ r ++ ")", by simp [infixText, String.append_assoc]⟩

theorem within_infixText_right (sign l r : String) : Within r (infixText sign l r) :=
  ⟨"(" ++ l ++ " " ++ sign ++ " ", ")", by simp [infixText, String.append_assoc]⟩

theorem within_receiver (s : String) : Within s (receiver s) := by
  unfold receiver
  split
  · exact ⟨"(", ")", rfl⟩
  · exact Within.refl s

theorem within_binaryText_left (op : Code.BinaryOp) (l r : String) :
    Within l (binaryText op l r) := by
  cases op with
  | divide => exact ((within_receiver l).inLeft _).trans (within_infixText_left _ _ _)
  | power =>
    refine (within_receiver l).trans
      ⟨"Math.pow(", ".toDouble(), " ++ receiver r ++ ".toDouble())", ?_⟩
    simp [binaryText, String.append_assoc]
  | _ => exact within_infixText_left _ _ _

theorem within_binaryText_right (op : Code.BinaryOp) (l r : String) :
    Within r (binaryText op l r) := by
  cases op with
  | power =>
    refine (within_receiver r).trans
      ⟨"Math.pow(" ++ receiver l ++ ".toDouble(), ", ".toDouble())", ?_⟩
    simp [binaryText, String.append_assoc]
  | _ => exact within_infixText_right _ _ _

theorem within_chainText {op : Code.ChainOp} {s : String} {texts : List String} (h : s ∈ texts) :
    Within s (chainText op texts) := by
  have hfold : ∀ (rest : List String) (first : String), Within s first ∨ s ∈ rest →
      Within s (rest.foldl (fun l r => infixText (chainSign op) l r) first) := by
    intro rest
    induction rest with
    | nil => exact fun first h => h.resolve_right not_mem_nil
    | cons next rest ih =>
      rintro first (hs | hs)
      · exact ih _ (Or.inl (hs.trans (within_infixText_left _ _ _)))
      · rcases mem_cons.1 hs with rfl | hs
        · exact ih _ (Or.inl (within_infixText_right _ _ _))
        · exact ih _ (Or.inr hs)
  cases texts with
  | nil => exact absurd h not_mem_nil
  | cons first rest =>
    rcases mem_cons.1 h with rfl | h
    · exact hfold rest s (Or.inl (Within.refl s))
    · exact hfold rest first (Or.inr h)

theorem within_signText (sign : Char) (s : String) : Within s (signText sign s) := by
  unfold signText
  split
  · exact ⟨"(" ++ String.singleton sign ++ "(", "))", rfl⟩
  · exact ⟨"(" ++ String.singleton sign, ")", rfl⟩

/-- Whether an expression is replaced as a whole. -/
def Replaced (env : Env) : Expr → Prop
  | .unknownOperator _ _ _ _ _ => True
  | .method name _ _ => env.components.lookup name = none
  | .procedure name _ => env.procedures.lookup name = none
  | _ => False

/-- **The text of an operand stands in the text of its expression.** -/
theorem within_operand {env : Env} (scope : Scope) {e o : Expr} (h : ¬ Replaced env e)
    (ho : o ∈ e.operands) : Within (exprText env scope o) (exprText env scope e) := by
  have hmem : ∀ {es : List Expr}, o ∈ es → exprText env scope o ∈ exprTexts env scope es := by
    intro es hes
    rw [exprTexts_eq_map]
    exact mem_map_of_mem hes
  cases e with
  | chain op operands =>
    rw [exprText]
    exact within_chainText (hmem ho)
  | binary op l r =>
    rw [exprText]
    rcases mem_cons.1 ho with rfl | ho
    · exact within_binaryText_left _ _ _
    · rw [mem_singleton.1 ho]
      exact within_binaryText_right _ _ _
  | unknownOperator => exact absurd trivial h
  | negate operand | not operand =>
    rw [mem_singleton.1 ho, exprText]
    exact within_signText _ _
  | choose test yes no =>
    rw [exprText]
    rcases mem_cons.1 ho with rfl | ho
    · exact ⟨"(if (", ") " ++ exprText env scope yes ++ " else " ++ exprText env scope no ++ ")",
        by simp [String.append_assoc]⟩
    rcases mem_cons.1 ho with rfl | ho
    · exact ⟨"(if (" ++ exprText env scope test ++ ") ", " else " ++ exprText env scope no ++ ")",
        by simp [String.append_assoc]⟩
    · rw [mem_singleton.1 ho]
      exact ⟨"(if (" ++ exprText env scope test ++ ") " ++ exprText env scope yes ++ " else ", ")",
        by simp [String.append_assoc]⟩
  | join items =>
    have hne : items.isEmpty = false :=
      isEmpty_eq_false_iff.2 (ne_nil_of_mem (show o ∈ items from ho))
    rw [exprText, hne]
    exact ((Text.within_join (hmem ho)).inRight _).inLeft _
  | list items =>
    rw [exprText]
    exact ((Text.within_join (hmem ho)).inRight _).inLeft _
  | method name called args =>
    have hne : env.components.lookup name ≠ none := h
    obtain ⟨ref, href⟩ := Option.ne_none_iff_exists'.1 hne
    simp only [exprText, Env.component?, href, Option.map_some]
    exact ((Text.within_join (hmem ho)).inRight _).inLeft _
  | procedure name args =>
    obtain ⟨word, hword⟩ :=
      Option.ne_none_iff_exists'.1 (show env.procedures.lookup name ≠ none from h)
    simp only [exprText, Env.procedure?, hword, Option.map_some]
    exact ((Text.within_join (hmem ho)).inRight _).inLeft _
  | _ => exact absurd ho not_mem_nil

/-! ### Statements -/

theorem within_negatedText (s : String) : Within s (negatedText s) := by
  unfold negatedText
  split
  · exact (Within.refl s).inRight _
  · exact ⟨"!(", ")", rfl⟩

/-- The lines of a piece of a statement. -/
def pieceLines (env : Env) (scope : Scope) : Code.Piece → List String
  | .value e => [exprText env scope e]
  | .body names ss => stmtsLines env (names ++ scope) ss

/-- The condition and the body of an arm stand in the lines of its branch. -/
theorem shows_armLines (env : Env) (scope : Scope) {arms : List (Expr × List Stmt)}
    {arm : Expr × List Stmt} (harm : arm ∈ arms) (keyword : String) :
    Shows (armLines env scope keyword arms) (exprText env scope arm.1) ∧
      ∀ line ∈ stmtsLines env scope arm.2, Shows (armLines env scope keyword arms) line := by
  induction arms generalizing keyword with
  | nil => exact absurd harm not_mem_nil
  | cons first rest ih =>
    obtain ⟨condition, body⟩ := first
    rw [armLines]
    rcases mem_cons.1 harm with rfl | harm
    · refine ⟨⟨_, mem_cons_self, ?_⟩, fun line hline => ?_⟩
      · exact ⟨keyword ++ " (", ")" ++ " \x7b", by simp [openingLine, String.append_assoc]⟩
      · exact (shows_indent 1 hline).mono fun _ hl =>
          mem_cons_of_mem _ (mem_append_left _ hl)
    · obtain ⟨hcondition, hbody⟩ := ih harm "\x7d else if"
      have hsub : armLines env scope "\x7d else if" rest
          ⊆ openingLine (keyword ++ " (" ++ exprText env scope condition ++ ")")
            :: (indent (stmtsLines env scope body) ++ armLines env scope "\x7d else if" rest) :=
        fun _ hl => mem_cons_of_mem _ (mem_append_right _ hl)
      exact ⟨hcondition.mono hsub, fun line hline => (hbody line hline).mono hsub⟩

/-- Whether a statement is a mere expression that is replaced. -/
def ReplacedStmt (env : Env) : Stmt → Prop
  | .call e => Replaced env e
  | .value e => Replaced env e
  | _ => False

theorem shows_value {lines : List String} {s : String} (h : Shows lines s) :
    ∀ line ∈ [s], Shows lines line := by
  intro line hline
  rw [mem_singleton.1 hline]
  exact h

theorem within_setPropertyLine (env : Env) (scope : Scope) (name property : String) (e : Expr) :
    Within (exprText env scope e) (setPropertyLine env scope name property e) := by
  unfold setPropertyLine
  dsimp only
  split
  · split
    · exact ((within_receiver _).inLeft _).inRight _
    · exact (Within.refl _).inRight _
  · exact (Within.refl _).inRight _

theorem shows_branch {env : Env} {scope : Scope} {arms : List (Expr × List Stmt)}
    {otherwise : Option (List Stmt)} {piece : Code.Piece}
    (h : piece ∈ (Stmt.branch arms otherwise).pieces) :
    ∀ line ∈ pieceLines env scope piece,
      Shows (stmtLines env scope (.branch arms otherwise)) line := by
  rw [stmtLines]
  rcases mem_append.1 h with h | h
  · obtain ⟨arm, harm, hpiece⟩ := mem_flatMap.1 h
    obtain ⟨hcondition, hbody⟩ := shows_armLines env scope harm "if"
    have hsub : armLines env scope "if" arms
        ⊆ armLines env scope "if" arms ++ otherwiseLines env scope otherwise ++ [closingLine] :=
      fun _ hl => mem_append_left _ (mem_append_left _ hl)
    rcases mem_cons.1 hpiece with rfl | hpiece
    · exact shows_value (hcondition.mono hsub)
    · rw [mem_singleton.1 hpiece]
      exact fun line hline => (hbody line hline).mono hsub
  · cases otherwise with
    | none => exact absurd h not_mem_nil
    | some body =>
      rw [mem_singleton.1 (show piece ∈ [Code.Piece.body [] body] from h), otherwiseLines]
      intro line hline
      exact (shows_indent 1 hline).mono fun _ hl => mem_append_left _
        (mem_append_right _ (mem_cons_of_mem _ hl))

/-- **The lines of a piece stand in the lines of its statement.** -/
theorem shows_piece {env : Env} {scope : Scope} {s : Stmt} (hs : ¬ ReplacedStmt env s)
    {piece : Code.Piece} (h : piece ∈ s.pieces) :
    ∀ line ∈ pieceLines env scope piece, Shows (stmtLines env scope s) line := by
  cases s with
  | branch arms otherwise => exact shows_branch h
  | loop untilHolds condition body =>
    rw [stmtLines]
    rcases mem_cons.1 h with rfl | h
    · refine shows_value (shows_bracedLines_head _ (((?_ : Within _ _).inRight _).inLeft _))
      cases untilHolds with
      | true => exact within_negatedText _
      | false => exact Within.refl _
    · rw [mem_singleton.1 h]
      exact fun line hline => shows_bracedLines_body _ hline
  | forRange name first last step body =>
    rw [stmtLines]
    rcases mem_cons.1 h with rfl | h
    · refine shows_value (shows_bracedLines_head _
        ⟨"for (" ++ identifier name ++ " in ", ".." ++ exprText env scope last ++ " step "
          ++ exprText env scope step ++ ")", ?_⟩)
      simp [String.append_assoc]
    rcases mem_cons.1 h with rfl | h
    · refine shows_value (shows_bracedLines_head _
        ⟨"for (" ++ identifier name ++ " in " ++ exprText env scope first ++ "..",
          " step " ++ exprText env scope step ++ ")", ?_⟩)
      simp [String.append_assoc]
    rcases mem_cons.1 h with rfl | h
    · exact shows_value (shows_bracedLines_head _ (((Within.refl _).inRight _).inLeft _))
    · rw [mem_singleton.1 h]
      exact fun line hline => shows_bracedLines_body _ hline
  | forEach name items body =>
    rw [stmtLines]
    rcases mem_cons.1 h with rfl | h
    · exact shows_value (shows_bracedLines_head _ (((Within.refl _).inRight _).inLeft _))
    · rw [mem_singleton.1 h]
      exact fun line hline => shows_bracedLines_body _ hline
  | leave => exact absurd h not_mem_nil
  | setProperty name property e =>
    rw [mem_singleton.1 h, stmtLines]
    exact shows_value ⟨_, mem_singleton.2 rfl, within_setPropertyLine _ _ _ _ _⟩
  | setVariable name e =>
    rw [mem_singleton.1 h, stmtLines]
    refine shows_value ⟨_, mem_singleton.2 rfl, ?_⟩
    unfold setVariableLine
    dsimp only
    split <;> exact (Within.refl _).inRight _
  | locals names body =>
    rw [stmtLines]
    rcases mem_append.1 h with h | h
    · obtain ⟨d, hd, rfl⟩ := mem_map.1 h
      have hline : "var " ++ identifier d.1 ++ " = " ++ exprText env scope d.2
          ∈ localLines env scope names := mem_map_of_mem hd
      obtain ⟨line, hmem, hwithin⟩ := shows_bracedLines_body "run"
        (mem_append_left (stmtsLines env (localScope scope names) body) hline)
      exact shows_value ⟨line, hmem, ((Within.refl _).inRight _).trans hwithin⟩
    · rw [mem_singleton.1 h]
      exact fun line hline => shows_bracedLines_body "run" (mem_append_right _ hline)
  | call e | value e =>
    obtain ⟨o, ho, rfl⟩ := mem_map.1 h
    rw [stmtLines]
    exact shows_value ⟨_, mem_singleton.2 rfl, within_operand scope hs ho⟩
  | unsupported type fields => exact absurd h not_mem_nil

end Kotlin

namespace Block

open Code (exprOf fieldOr firstGiven stmtOf)
open Kotlin (Env Scope Target)

/-- Whether a block is replaced as a whole: nobody knows its operator, the layout lacks its
component, or its procedure is not declared. -/
def Replaced (t : Target) (p : Block.Program) (b : Block) : Prop :=
  match b.kind with
  | .compare => Code.comparison? (fieldOr b.fields "OP" "EQ") = none
  | .logic => Code.connective? (fieldOr b.fields "OP" "AND") = none
  | .methodCall => t.components.lookup (componentOf b.mutation b.fields) = none
  | .procedureCall => ∀ q ∈ p.procedures,
      q.name ≠ firstGiven (b.fields.lookup "PROCNAME") ((b.mutation.lookup "name").getD "")
  | _ => False

/-- An expression is replaced only if its block is. -/
theorem replaced_of_exprOf {t : Target} {p : Block.Program} {b : Block}
    (h : Kotlin.Replaced (t.naming (.ofBlocks p)) (exprOf b)) : b.Replaced t p := by
  obtain ⟨kind, type, id, fields, mutation, args, values⟩ := b
  cases kind with
  | compare =>
    cases hop : Code.comparison? (fieldOr fields "OP" "EQ") with
    | none => exact hop
    | some op => simp [exprOf, hop, Kotlin.Replaced] at h
  | logic =>
    cases hop : Code.connective? (fieldOr fields "OP" "AND") with
    | none => exact hop
    | some op => simp [exprOf, hop, Kotlin.Replaced] at h
  | methodCall =>
    cases hslots : Code.argSlots? (values.map Prod.fst) with
    | none => simp [exprOf, hslots, Kotlin.Replaced] at h
    | some slots =>
      simp only [exprOf, hslots, Kotlin.Replaced] at h
      exact h
  | procedureCall =>
    simp only [exprOf, Kotlin.Replaced] at h
    intro q hq hname
    have hsome := (Kotlin.isSome_lookup_procedures t (.ofBlocks p) _).2
      ⟨_, mem_map_of_mem hq, hname⟩
    rw [h] at hsome
    exact absurd hsome (by decide)
  | arithmetic =>
    simp only [exprOf] at h
    split at h
    · split at h <;> exact h.elim
    · exact h.elim
  | _ => simp [exprOf, Kotlin.Replaced] at h

theorem replaced_of_stmtOf {t : Target} {p : Block.Program} {b : Block}
    (h : Kotlin.ReplacedStmt (t.naming (.ofBlocks p)) (stmtOf b)) : b.Replaced t p := by
  refine replaced_of_exprOf ?_
  obtain ⟨kind⟩ := b
  cases kind with
  | branch | loop | forRange | forEach | leave | propertySet | variableSet | localDeclaration
  | unknown => exact h.elim
  | _ => exact h

end Block

namespace Site

open Block (Part)
open Code (Expr Stmt exprOf stmtOf)
open Kotlin (Env Scope Target exprText stmtLines stmtsLines)
open Text (Shows Within)

variable {t : Target} {p : Block.Program} {s : Site} {root : Root} {role : Role} {b : Block}

/-- The lines of a block in a role. -/
def linesIn (env : Env) (scope : Scope) : Role → Block → List String
  | .value, b => [exprText env scope (exprOf b)]
  | .act, b => stmtLines env scope (stmtOf b)

/-- **The lines of a site.** -/
def lines (t : Target) (p : Block.Program) (s : Site) : List String :=
  linesIn (t.naming (.ofBlocks p)) (s.scope t) s.role s.block

theorem linesIn_subset_pieceLines (env : Env) (scope : Scope) {c : Block} {part : Part}
    (hc : c ∈ b.inPart part) :
    linesIn env (b.newNames part ++ scope) part.role c
      ⊆ Kotlin.pieceLines env scope (b.piece part) := by
  cases part with
  | slot name =>
    have hvalue : (b.values.lookup name).join = some c := Option.mem_toList.1 hc
    rw [Block.piece, Code.slotExpr_eq, hvalue]
    exact fun _ h => h
  | body name =>
    have hbody : c ∈ (b.statements.lookup name).getD [] := hc
    rw [Block.piece, Kotlin.pieceLines, Kotlin.stmtsLines_eq_flatMap, Code.bodyIn_eq]
    exact fun line h => mem_flatMap.2 ⟨_, mem_map_of_mem hbody, h⟩

/-- **The lines of a block in a part of another stand in its lines.** -/
theorem shows_part (scope : Scope) {c : Block} {part : Part} (hb : ¬ b.Replaced t p)
    (hpart : part ∈ b.partsIn role) (hc : c ∈ b.inPart part) :
    ∀ line ∈ linesIn (t.naming (.ofBlocks p)) (b.newNames part ++ scope) part.role c,
      Shows (linesIn (t.naming (.ofBlocks p)) scope role b) line := by
  intro line hline
  have hpiece := linesIn_subset_pieceLines _ scope hc hline
  cases role with
  | value =>
    obtain ⟨slot, hslot, rfl⟩ := mem_map.1 hpart
    rw [mem_singleton.1 hpiece]
    refine ⟨_, mem_singleton.2 rfl, ?_⟩
    refine Kotlin.within_operand scope (fun hr => hb (Block.replaced_of_exprOf hr)) ?_
    rw [Code.operands_exprOf]
    exact mem_map_of_mem hslot
  | act =>
    refine Kotlin.shows_piece (fun hr => hb (Block.replaced_of_stmtOf hr)) ?_ line hpiece
    rw [Code.pieces_stmtOf]
    exact mem_map_of_mem hpart

theorem levels_suffix {levels : List Level} (h : s ∈ sitesIn root levels role b) :
    levels <:+ s.levels := by
  induction b using Block.inductParts generalizing levels role with
  | h b ih =>
    obtain rfl | ⟨part, -, c, hc, h⟩ := mem_sitesIn.1 h
    · exact suffix_rfl
    · exact (suffix_cons _ _).trans (ih part c hc h)

/-- Whether no block around a site is replaced. -/
def Kept (t : Target) (p : Block.Program) (s : Site) : Prop :=
  ∀ l ∈ s.levels, ¬ l.owner.Replaced t p

/-- **The lines of a site stand in those of each block around it.** -/
theorem shows_sitesIn {levels : List Level} (h : s ∈ sitesIn root levels role b) (hs : s.Kept t p) :
    ∀ line ∈ s.lines t p,
      Shows (linesIn (t.naming (.ofBlocks p)) (scopeIn t root levels) role b) line := by
  induction b using Block.inductParts generalizing levels role with
  | h b ih =>
    obtain rfl | ⟨part, hpart, c, hc, h⟩ := mem_sitesIn.1 h
    · exact fun line hline => Text.shows_of_mem hline
    · -- the block itself is one of those around the site, so it is not replaced
      have hlevel : (⟨b, part⟩ : Level) ∈ s.levels := (levels_suffix h).subset mem_cons_self
      intro line hline
      refine (ih part c hc h line hline).trans fun inner hinner => ?_
      rw [scopeIn_cons] at hinner
      exact shows_part _ (hs _ hlevel) hpart hc inner hinner

/-- The lines of a site stand in those of the body around it. -/
theorem shows_act_blocks {blocks : List Block} (h : s ∈ blocks.flatMap (sitesIn root [] .act))
    (hs : s.Kept t p) :
    ∀ line ∈ s.lines t p, Shows (stmtsLines (t.naming (.ofBlocks p)) (root.names t)
      (Code.stmtsOf blocks)) line := by
  obtain ⟨b, hb, h⟩ := mem_flatMap.1 h
  intro line hline
  refine (shows_sitesIn h hs line hline).mono ?_
  rw [Kotlin.stmtsLines_eq_flatMap, Code.stmtsOf_eq_map]
  exact fun l hl => mem_flatMap.2 ⟨_, mem_map_of_mem hb, hl⟩

/-- The lines of a site stand in the text of the value around it. -/
theorem shows_held {held : Option Block} (h : s ∈ held.toList.flatMap (sitesIn root [] .value))
    (hs : s.Kept t p) : ∃ b, held = some b ∧ ∀ line ∈ s.lines t p,
      Within line (exprText (t.naming (.ofBlocks p)) (root.names t) (exprOf b)) := by
  obtain ⟨b, hb, h⟩ := mem_flatMap.1 h
  refine ⟨b, Option.mem_toList.1 hb, fun line hline => ?_⟩
  obtain ⟨text, htext, hwithin⟩ := shows_sitesIn h hs line hline
  rw [mem_singleton.1 htext] at hwithin
  exact hwithin

/-- **The lines of a site stand in the source, unless a block around it is replaced.** -/
theorem within_source (h : s ∈ p.sites) (hs : s.Kept t p) :
    ∀ line ∈ s.lines t p, Within line (t.source (.ofBlocks p)) := by
  intro line hline
  refine Kotlin.within_source ?_
  obtain ⟨root, hroot, h⟩ := mem_flatMap.1 h
  rcases mem_append.1 hroot with hroot | hroot
  rcases mem_append.1 hroot with hroot | hroot
  · obtain ⟨g, hg, rfl⟩ := mem_map.1 hroot
    obtain ⟨b, hb, hwithin⟩ := shows_held h hs
    have hfirst : Code.Global.ofBlock g
        ∈ Code.firsts Code.Global.name (Code.Program.ofBlocks p).globals := by
      rw [firsts_globals]
      exact mem_map_of_mem hg
    have hvalue : (Code.Global.ofBlock g).value = some (exprOf b) := by
      simp [Code.Global.ofBlock, hb]
    obtain ⟨outer, houter, hin⟩ := Kotlin.shows_global (t := t) hfirst
    exact ⟨outer, houter,
      ((hwithin line hline).trans (Kotlin.within_globalLine _ hvalue)).trans hin⟩
  · obtain ⟨g, hg, rfl⟩ := mem_map.1 hroot
    refine (shows_act_blocks h hs line hline).trans fun inner hinner => ?_
    exact (Kotlin.shows_handlerLines t _ hinner).trans fun l hl =>
      Kotlin.shows_handler (mem_map_of_mem hg) hl
  · obtain ⟨q, hq, rfl⟩ := mem_map.1 hroot
    have hprocedure : ∀ l ∈ Kotlin.procedureLines (t.naming (.ofBlocks p)) (.ofBlock q),
        Shows (t.lines (.ofBlocks p)) l := by
      refine fun l hl => Kotlin.shows_procedure ?_ hl
      rw [firsts_procedures]
      exact mem_map_of_mem hq
    rcases mem_append.1 h with h | h
    · refine (shows_act_blocks h hs line hline).trans fun inner hinner => ?_
      exact (Kotlin.shows_procedureLines_body _ hinner).trans hprocedure
    · split at h
      · next hreturns =>
        obtain ⟨b, hb, hwithin⟩ := shows_held h hs
        have hresult : (Code.Procedure.ofBlock q).result = some (exprOf b) := by
          simp [Code.Procedure.ofBlock, hreturns, hb, Code.heldExpr]
        obtain ⟨outer, houter, hin⟩ :=
          (Kotlin.shows_procedureLines_result _ hresult).trans hprocedure
        exact ⟨outer, houter, (hwithin line hline).trans hin⟩
      · exact absurd h not_mem_nil

end Site
end ScreenForge
