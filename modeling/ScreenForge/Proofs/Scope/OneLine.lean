/-
# Lines that stay lines

A character that is not printable comes into the lines of a program only from its texts: the types
of its blocks, their fields, mutations, arguments and slots, and what its handlers are for
(`Program.texts`).
-/
import ScreenForge.Proofs.Kotlin.Given
import ScreenForge.Proofs.Scope.Quotation

namespace ScreenForge

open List

namespace Block

open Code (Stmt exprOf fieldOr firstGiven stmtOf)
open Kotlin (Env Quotation Scope exprText stmtLines stmtsLines)
open Text (Has Spread has_printable isPrintable spread_append spread_cons spread_flatMap spread_nil
  spread_singleton)

variable {b : Block} {c : Char} {slot : String} {env : Env} {scope : Scope}

/-! ### What the code of a block carries -/

theorem expr_of_stmtOf {e : Code.Expr} (h : stmtOf b = .call e ∨ stmtOf b = .value e) :
    e = exprOf b := by
  obtain ⟨kind⟩ := b
  cases kind <;> simp only [stmtOf, Stmt.call.injEq, Stmt.value.injEq, reduceCtorEq, or_false,
    false_or] at h <;> exact h.symm

variable (hc : isPrintable c = false)
include hc

/-- What a block quotes stands in its texts. -/
theorem Quotes.spread {q : Quotation} (h : b.Quotes q) (hmem : c ∈ q.content) :
    Spread c b.texts := by
  cases h with
  | escaped h => exact h c hc (Kotlin.has_of_mem_escaped hc hmem)
  | plain _ hlead h => exact h.tells.holds.behind hlead c hc hmem

/-- The texts that a block takes over when it acts are its own. -/
theorem spread_stmtGiven (h : Spread c (Kotlin.stmtGiven (stmtOf b))) : Spread c b.texts := by
  have hcomponent : b.Tells (componentOf b.mutation b.fields) := tells_component
  have hproperty : b.Tells (firstGiven (b.mutation.lookup "property_name")
      (fieldOr b.fields "PROP" "")) :=
    tells_firstGiven mutation_subset_texts (tells_field (by decide))
  have hvariable : b.Tells (fieldOr b.fields "VAR" "") := tells_field (by decide)
  have hlabel : b.type :: pairTexts b.fields ⊆ b.texts :=
    cons_subset.2 ⟨mem_texts_iff.2 (.inl rfl), fields_subset_texts⟩
  obtain ⟨kind⟩ := b
  cases kind with
  | propertySet =>
    rw [stmtOf, Kotlin.stmtGiven, spread_cons, spread_singleton] at h
    exact h.elim (hcomponent.holds c hc) (hproperty.holds c hc)
  | variableSet => exact hvariable.holds c hc (spread_singleton.1 h)
  | unknown => exact h.mono hlabel
  | _ => exact absurd h spread_nil.1

variable (henv : env.Lacks c)
include henv

/-- **A foreign character of the value of a block is in its texts.** -/
theorem spread_exprOf (h : Has c (exprText env scope (exprOf b))) : Spread c b.texts := by
  obtain ⟨q, hq, hmem⟩ := Kotlin.exists_quotation hc henv h
  refine quotes_induct (P := fun b q => c ∈ q.content → Spread c b.texts) ?_ ?_ ?_ hq hmem
  · exact fun b q h => h.spread hc
  · exact fun b slot h => (asks_operandSlots h).tells.holds.behind (by decide) c hc
  · exact fun b d slot q _ hd h hmem => (h hmem).mono (texts_subset_of_value? hd)

theorem spread_heldExpr {owner : String} {held : Option Block}
    (h : Has c (exprText env scope (Code.heldExpr owner slot held))) :
    Has c slot ∨ Spread c (heldTexts held) := by
  cases held with
  | none =>
    rw [Code.heldExpr, exprText, Kotlin.errorCall] at h
    simpa (disch := decide) [has_printable hc, heldTexts] using h
  | some d =>
    rw [Code.heldExpr] at h
    rw [heldTexts]
    exact Or.inr (spread_exprOf hc henv h)

/-- **A foreign character of a block that acts is in its texts.** -/
theorem spread_stmtOf (h : Spread c (stmtLines env scope (stmtOf b))) : Spread c b.texts := by
  induction b using Block.inductParts generalizing scope with
  | h b ih =>
    rcases Kotlin.spread_stmtLines hc henv h with h | ⟨piece, hpiece, h⟩ | ⟨e, he, h⟩
    · exact spread_stmtGiven hc h
    · cases piece with
      | value e =>
        obtain ⟨slot, hslot, rfl⟩ := Code.value_mem_pieces hpiece
        rw [Kotlin.pieceLines, spread_singleton, Code.slotExpr_eq] at h
        exact (spread_heldExpr hc henv h).elim ((asks_parts hslot).tells.holds c hc)
          fun h => h.mono (heldTexts_subset b slot)
      | body names ss =>
        obtain ⟨slot, -, rfl, rfl⟩ := Code.body_mem_pieces hpiece
        rw [Kotlin.pieceLines, Kotlin.stmtsLines_eq_flatMap, spread_flatMap] at h
        obtain ⟨inner, hinner, h⟩ := h
        obtain ⟨d, hd, rfl⟩ := mem_map.1 hinner
        exact (ih (.body slot) d hd h).mono (texts_subset_of_mem_body hd)
    · rw [expr_of_stmtOf he] at h
      exact spread_exprOf hc henv h

/-! ### Lines of programs -/

/-- The texts of a program, other than ids and the names of what it declares. -/
def Program.texts (p : Program) : List String :=
  (p.handlers.flatMap fun h => h.component :: h.event :: bodyTexts h.body)
    ++ (p.globals.flatMap fun g => heldTexts g.value)
    ++ p.procedures.flatMap fun q => bodyTexts q.body ++ heldTexts q.result

/-- A foreign character of a body stands in the texts of its blocks. -/
theorem spread_stmtsOf {blocks : List Block}
    (h : Spread c (stmtsLines env scope (Code.stmtsOf blocks))) : Spread c (bodyTexts blocks) := by
  rw [Kotlin.stmtsLines_eq_flatMap, Code.stmtsOf_eq_map, flatMap_map, spread_flatMap] at h
  obtain ⟨b, hb, h⟩ := h
  rw [bodyTexts_eq_flatMap, spread_flatMap]
  exact ⟨b, hb, spread_stmtOf hc henv h⟩

omit henv

variable {t : Kotlin.Target} {p : Program}

/-- **A foreign character of a handler is in its texts.** -/
theorem spread_of_handlerLines (ht : ¬ Spread c t.texts)
    {h : Code.Handler} (hh : h ∈ (Code.Program.ofBlocks p).handlers)
    (hlines : Spread c (t.handlerLines (t.naming (.ofBlocks p)) h).2) : Spread c p.texts := by
  obtain ⟨g, hg, rfl⟩ := mem_map.1 hh
  have hspread : Spread c (g.component :: g.event :: bodyTexts g.body) := by
    rcases (Kotlin.spread_handlerLines_iff hc ht _ _).1 hlines with hown | hbody
    · rw [Kotlin.Target.verbatim] at hown
      split at hown
      · exact absurd hown spread_nil.1
      · exact hown.mono fun s hs => mem_append_left (bodyTexts g.body) hs
    · rw [spread_cons, spread_cons]
      exact Or.inr (Or.inr (spread_stmtsOf hc (Kotlin.lacks_naming hc ht _) hbody))
  rw [Program.texts, spread_append, spread_append, spread_flatMap]
  exact Or.inl (Or.inl ⟨g, hg, hspread⟩)

/-- **A foreign character of a procedure is in its texts.** -/
theorem spread_of_procedureLines (ht : ¬ Spread c t.texts)
    {q : Code.Procedure} (hq : q ∈ (Code.Program.ofBlocks p).procedures)
    (hlines : Spread c (Kotlin.procedureLines (t.naming (.ofBlocks p)) q)) : Spread c p.texts := by
  obtain ⟨r, hr, rfl⟩ := mem_map.1 hq
  have hspread : Spread c (bodyTexts r.body ++ heldTexts r.result) := by
    rw [spread_append]
    have henv := Kotlin.lacks_naming hc ht (.ofBlocks p)
    rcases (Kotlin.spread_procedureLines_iff hc ht _ _).1 hlines with hbody | ⟨e, he, hhas⟩
    · exact Or.inl (spread_stmtsOf hc henv hbody)
    · rw [Code.Procedure.ofBlock] at he
      split at he
      · obtain rfl := Option.some.inj he
        exact (spread_heldExpr hc henv hhas).imp_left fun hslot =>
          ((has_printable hc (by decide)).1 hslot).elim
      · cases he
  rw [Program.texts, spread_append, spread_flatMap]
  exact Or.inr ⟨r, hr, hspread⟩

omit hc in
theorem firstsAfter_subset {α : Type} (name : α → String) (seen : List String) (items : List α) :
    Code.firstsAfter name seen items ⊆ items := by
  induction items generalizing seen with
  | nil => exact fun _ h => h
  | cons a rest ih =>
    rw [Code.firstsAfter]
    split
    · exact fun _ h => mem_cons_of_mem _ (ih _ h)
    · exact cons_subset_cons _ (ih _)

/-- **A foreign character of an activity is in the texts of its program.** -/
theorem spread_of_lines (ht : ¬ Spread c t.texts)
    (hpackage : ¬ Has c t.package) (hlayout : ¬ Has c t.layoutName)
    (hlines : Spread c (t.lines (.ofBlocks p))) : Spread c p.texts := by
  rcases (Kotlin.spread_lines_iff hc ht hpackage hlayout _).1 hlines with
    ⟨g, hg, e, he, hhas⟩ | ⟨h, hh, hspread⟩ | ⟨q, hq, hspread⟩
  · obtain ⟨d, hd, rfl⟩ := mem_map.1 (firstsAfter_subset _ _ _ hg)
    obtain ⟨b, hb, rfl⟩ := Option.map_eq_some_iff.1 he
    have hvalue : Spread c (heldTexts d.value) := by
      rw [hb, heldTexts]
      exact spread_exprOf hc (Kotlin.lacks_naming hc ht _) hhas
    rw [Program.texts, spread_append, spread_append]
    exact Or.inl (Or.inr (spread_flatMap.2 ⟨d, hd, hvalue⟩))
  · exact spread_of_handlerLines hc ht hh hspread
  · exact spread_of_procedureLines hc ht (firstsAfter_subset _ _ _ hq) hspread

end Block

namespace Text

/-- Whether a character breaks lines. -/
def isLineBreak (c : Char) : Bool :=
  ['\n', '\r', '\x0b', '\x0c', '\x1c', '\x1d', '\x1e', '\u0085', '\u2028', '\u2029'].contains c

/-- Whether a text has no line break. -/
def isOneLine (s : String) : Bool := s.toList.all fun c => !isLineBreak c

theorem isPrintable_of_isLineBreak {c : Char} (h : isLineBreak c) : isPrintable c = false := by
  have hall : ['\n', '\r', '\x0b', '\x0c', '\x1c', '\x1d', '\x1e', '\u0085', '\u2028',
      '\u2029'].all fun d => !isPrintable d := by decide
  exact Bool.not_eq_true' _ ▸ all_eq_true.1 hall c (contains_iff_mem.1 h)

theorem not_has_of_isOneLine {s : String} (h : isOneLine s) {c : Char}
    (hc : isLineBreak c) : ¬ Has c s := by
  intro hhas
  have hone := all_eq_true.1 h c hhas
  rw [hc] at hone
  cases hone

/-- Texts have no line breaks if and only if no line break stands in any of them. -/
theorem forall_isOneLine_iff {texts : List String} :
    (∀ s ∈ texts, isOneLine s) ↔ ∀ c, isLineBreak c → ¬ Spread c texts := by
  constructor
  · rintro h c hc ⟨s, hs, hhas⟩
    exact not_has_of_isOneLine (h s hs) hc hhas
  · intro h s hs
    refine all_eq_true.2 fun c hhas => ?_
    cases hc : isLineBreak c with
    | false => rfl
    | true => exact absurd ⟨s, hs, hhas⟩ (h c hc)

theorem isUnbroken_of_isOneLine {s : String} (h : isOneLine s) : isUnbroken s := by
  cases hbreak : s.toList.contains '\n' with
  | false => rw [isUnbroken, hbreak, Bool.not_false]
  | true =>
    exact absurd (contains_iff_mem.1 hbreak) (not_has_of_isOneLine h (by decide))

end Text

namespace Kotlin

open Code (stmtOf)
open Text (forall_isOneLine_iff isOneLine isPrintable_of_isLineBreak linesOf not_has_of_isOneLine)

/-- If no line has a line break, the lines of the source are those that were written. -/
theorem linesOf_source_of_isOneLine {t : Target} {p : Code.Program}
    (h : ∀ line ∈ t.lines p, isOneLine line) :
    linesOf (t.source p) = t.lines p ++ [""] := by
  have hunbroken : ∀ line ∈ t.lines p, Text.isUnbroken line :=
    fun line hline => Text.isUnbroken_of_isOneLine (h line hline)
  rw [linesOf_source, Text.flatMap_linesOf hunbroken]

/-- **Lines stay lines.**  If the texts of a program, of the components and of their rules have no
line breaks, then neither has any line of a statement, a handler or a procedure.  If the names of
the package and the layout have none either, then the lines of the source are those of the activity,
and each line of a handler or of a procedure is one of them, indented: what is written behind `//`
stays behind it. -/
theorem lines_stay_lines {t : Target} {p : Block.Program}
    (ht : ∀ s ∈ t.texts, isOneLine s = true) (hp : ∀ s ∈ p.texts, isOneLine s = true) :
    (∀ b : Block, (∀ s ∈ b.texts, isOneLine s = true) → ∀ scope,
      ∀ line ∈ stmtLines (t.naming (.ofBlocks p)) scope (stmtOf b), isOneLine line = true) ∧
    (∀ h ∈ (Code.Program.ofBlocks p).handlers,
      ∀ line ∈ (t.handlerLines (t.naming (.ofBlocks p)) h).2, isOneLine line = true) ∧
    (∀ q ∈ (Code.Program.ofBlocks p).procedures,
      ∀ line ∈ procedureLines (t.naming (.ofBlocks p)) q, isOneLine line = true) ∧
    (isOneLine t.package = true → isOneLine t.layoutName = true →
      linesOf (t.source (.ofBlocks p)) = t.lines (.ofBlocks p) ++ [""] ∧
      (∀ h ∈ (Code.Program.ofBlocks p).handlers,
        ∀ line ∈ (t.handlerLines (t.naming (.ofBlocks p)) h).2,
          Indented (linesOf (t.source (.ofBlocks p))) line) ∧
      ∀ q ∈ Code.firsts Code.Procedure.name (Code.Program.ofBlocks p).procedures,
        ∀ line ∈ procedureLines (t.naming (.ofBlocks p)) q,
          Indented (linesOf (t.source (.ofBlocks p))) line) := by
  rw [forall_isOneLine_iff] at ht hp
  refine ⟨fun b hb scope => ?_, fun h hh => ?_, fun q hq => ?_, fun hpackage hlayout => ?_⟩
  · rw [forall_isOneLine_iff] at hb ⊢
    intro c hc hspread
    have hforeign := isPrintable_of_isLineBreak hc
    exact hb c hc
      (Block.spread_stmtOf hforeign (lacks_naming hforeign (ht c hc) _) hspread)
  · rw [forall_isOneLine_iff]
    intro c hc hspread
    have hforeign := isPrintable_of_isLineBreak hc
    exact hp c hc (Block.spread_of_handlerLines hforeign (ht c hc) hh hspread)
  · rw [forall_isOneLine_iff]
    intro c hc hspread
    have hforeign := isPrintable_of_isLineBreak hc
    exact hp c hc (Block.spread_of_procedureLines hforeign (ht c hc) hq hspread)
  · have hlines : ∀ line ∈ t.lines (.ofBlocks p), isOneLine line := by
      rw [forall_isOneLine_iff]
      intro c hc hspread
      have hforeign := isPrintable_of_isLineBreak hc
      exact hp c hc (Block.spread_of_lines hforeign (ht c hc) (not_has_of_isOneLine hpackage hc)
        (not_has_of_isOneLine hlayout hc) hspread)
    have hsource := linesOf_source_of_isOneLine hlines
    have hstands : ∀ {line}, Indented (t.lines (.ofBlocks p)) line →
        Indented (linesOf (t.source (.ofBlocks p))) line := by
      intro line h
      rw [hsource]
      exact h.mono (subset_append_left _ _)
    exact ⟨hsource, fun h hh line hline => hstands (indented_handler hh hline),
      fun q hq line hline => hstands (indented_procedure hq hline)⟩

/-- An activity with a button. -/
def buttonTarget : Target where
  package := "app"
  components := [("Go", ⟨"Go", "Button", "button1", { tag := "Button", idStem := "button" }⟩)]

/-- A handler for a component that is not there, with a block that is not supported. -/
def soundProgram : Block.Program where
  handlers := [{
    component := "Ghost"
    componentType := "Button"
    event := "Click"
    body := [{ kind := .unknown, type := "sound_play", fields := [("FILE", "a.mp3")] }] }]

/-- The comment of the block is one line of the source, within the comment of the handler. -/
theorem sound_comment_stays_line :
    (∀ s ∈ buttonTarget.texts, isOneLine s = true) ∧
    (∀ s ∈ soundProgram.texts, isOneLine s = true) ∧
    Indented (linesOf (buttonTarget.source (.ofBlocks soundProgram)))
      "// // unsupported block: sound_play (FILE=a.mp3)" := by
  have ht : buttonTarget.texts.all isOneLine := by decide
  have hp : soundProgram.texts.all isOneLine := by decide
  have hhandlers : (Code.Program.ofBlocks soundProgram).handlers.any (fun h =>
      (buttonTarget.handlerLines (buttonTarget.naming (.ofBlocks soundProgram)) h).2.contains
        "// // unsupported block: sound_play (FILE=a.mp3)") := by decide +kernel
  rw [all_eq_true] at ht hp
  obtain ⟨h, hh, hline⟩ := any_eq_true.1 hhandlers
  obtain ⟨-, -, -, hsource⟩ := lines_stay_lines ht hp
  obtain ⟨-, hstands, -⟩ := hsource (by decide) (by decide)
  exact ⟨ht, hp, hstands h hh _ (contains_iff_mem.1 hline)⟩

end Kotlin
end ScreenForge
