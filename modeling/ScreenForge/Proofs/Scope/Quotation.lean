/-
# Words in placeholders

What a block is made of are its `texts`: its type, its fields, its mutation, its arguments, the
names of its slots, and the texts of the blocks in them.  A placeholder tells what a block lacks or
has too much of.  The words that it takes over as they are come from the block: the name of a slot,
an operator, a type.
-/
import ScreenForge.Proofs.Code.Argument
import ScreenForge.Proofs.Kotlin.Closed

namespace ScreenForge
namespace Block

open List
open Code (argSlot? argSlots? exprOf fieldOr firstGiven slotNames)
open Kotlin (Closes Env IsWord Quotation Scope Target closed_exprText exprText isContent
  isContent_append isContent_of_all isWord_toString lexemes? literals mem_quotations quotations
  quoted?)
open Text (Has Spread has_append has_printable isPrintable isPrintableText)

variable {slot name lead word : String} {pairs : List (String × String)} {q : Quotation}

/-- The texts of names and their values. -/
def pairTexts (pairs : List (String × String)) : List String := pairs.flatMap fun e => [e.1, e.2]

mutual

/-- The texts of a block and of the blocks in its slots, other than ids. -/
def texts (b : Block) : List String :=
  match b with
  | ⟨_, type, _, fields, mutation, args, values, statements⟩ =>
    type :: (pairTexts fields ++ pairTexts mutation ++ args ++ valueTexts values
      ++ statementTexts statements)

/-- The texts of value slots. -/
def valueTexts : List (String × Option Block) → List String
  | [] => []
  | (name, value) :: rest => name :: (heldTexts value ++ valueTexts rest)

/-- The texts of what a value slot holds. -/
def heldTexts : Option Block → List String
  | none => []
  | some b => texts b

/-- The texts of statement slots. -/
def statementTexts : List (String × List Block) → List String
  | [] => []
  | (name, blocks) :: rest => name :: (bodyTexts blocks ++ statementTexts rest)

/-- The texts of a sequence of blocks. -/
def bodyTexts : List Block → List String
  | [] => []
  | b :: rest => texts b ++ bodyTexts rest

end

theorem mem_texts_iff {b : Block} {s : String} :
    s ∈ b.texts ↔ s = b.type ∨ s ∈ pairTexts b.fields ∨ s ∈ pairTexts b.mutation ∨ s ∈ b.args
      ∨ s ∈ valueTexts b.values ∨ s ∈ statementTexts b.statements := by
  obtain ⟨kind⟩ := b
  simp only [texts, mem_cons, mem_append, or_assoc]

theorem bodyTexts_eq_flatMap (blocks : List Block) : bodyTexts blocks = blocks.flatMap texts := by
  induction blocks with
  | nil => simp [bodyTexts]
  | cons b rest ih => simp [bodyTexts, ih]

theorem valueTexts_eq_flatMap (values : List (String × Option Block)) :
    valueTexts values = values.flatMap fun e => e.1 :: heldTexts e.2 := by
  induction values with
  | nil => simp [valueTexts]
  | cons _ rest ih => simp [valueTexts, ih]

theorem statementTexts_eq_flatMap (statements : List (String × List Block)) :
    statementTexts statements = statements.flatMap fun e => e.1 :: bodyTexts e.2 := by
  induction statements with
  | nil => simp [statementTexts]
  | cons _ rest ih => simp [statementTexts, ih]

variable {b d : Block} {c : Char} {scope : Scope} {env : Env}

/-- **The texts of a block in a slot are texts of the block around.** -/
theorem texts_subset_of_value? (h : b.value? slot = some d) : d.texts ⊆ b.texts := by
  have hentry : (slot, some d) ∈ b.values := Assoc.mem_of_lookup (Option.join_eq_some_iff.1 h)
  intro s hs
  have hvalue : s ∈ valueTexts b.values := by
    rw [valueTexts_eq_flatMap]
    exact mem_flatMap.2 ⟨_, hentry, mem_cons_of_mem _ (by rw [heldTexts]; exact hs)⟩
  exact mem_texts_iff.2 (.inr (.inr (.inr (.inr (.inl hvalue)))))

theorem heldTexts_subset (b : Block) (slot : String) :
    heldTexts (b.values.lookup slot).join ⊆ b.texts := by
  cases hheld : (b.values.lookup slot).join with
  | none =>
    rw [heldTexts]
    exact nil_subset _
  | some d =>
    rw [heldTexts]
    exact texts_subset_of_value? hheld

theorem texts_subset_of_mem_body (h : d ∈ b.body slot) : d.texts ⊆ b.texts := by
  unfold Block.body at h
  cases hl : b.statements.lookup slot with
  | none => simp [hl] at h
  | some blocks =>
    rw [hl, Option.getD_some] at h
    intro s hs
    have hstatement : s ∈ statementTexts b.statements := by
      rw [statementTexts_eq_flatMap]
      refine mem_flatMap.2 ⟨_, Assoc.mem_of_lookup hl, mem_cons_of_mem _ ?_⟩
      rw [bodyTexts_eq_flatMap]
      exact mem_flatMap.2 ⟨d, h, hs⟩
    exact mem_texts_iff.2 (.inr (.inr (.inr (.inr (.inr hstatement)))))

/-! ### The names of slots -/

/-- The name of a slot that a block asks for: a word, or the name of an argument slot that it
has. -/
def Asks (b : Block) (slot : String) : Prop :=
  IsWord slot ∨ slot ∈ (b.values.map Prod.fst).filter fun name => (argSlot? name).isSome

theorem asks_of_mem {slots : List String} (hslots : slots.all fun s => decide (IsWord s))
    (h : slot ∈ slots) : b.Asks slot :=
  Or.inl (of_decide_eq_true (all_eq_true.1 hslots slot h))

theorem asks_numbered {stem : String} (hstem : IsWord stem) (n : Nat) :
    b.Asks (stem ++ toString n) :=
  Or.inl (hstem.append (isWord_toString n))

theorem asks_of_mem_slotNames {stem : String} {count : Int} (hstem : IsWord stem)
    (h : slot ∈ slotNames stem count) : b.Asks slot := by
  obtain ⟨n, -, rfl⟩ := mem_map.1 h
  exact asks_numbered hstem n

/-- The operand slots of a block are words or argument slots that it has. -/
theorem asks_operandSlots (h : slot ∈ b.operandSlots) : b.Asks slot := by
  unfold operandSlots at h
  split at h
  · split at h
    · exact asks_of_mem_slotNames (by decide) h
    · exact asks_of_mem (by decide) h
  · exact asks_of_mem (by decide) h
  · exact asks_of_mem (by decide) h
  · exact asks_of_mem (by decide) h
  · exact asks_of_mem (by decide) h
  · exact asks_of_mem (by decide) h
  · exact asks_of_mem_slotNames (by decide) h
  · exact asks_of_mem_slotNames (by decide) h
  · cases hslots : argSlots? (b.values.map Prod.fst) with
    | none => simp [hslots] at h
    | some slots =>
      rw [hslots] at h
      exact Or.inr ((Code.argSlots?_perm hslots).mem_iff.1 h)
  · exact asks_of_mem_slotNames (by decide) h
  · exact absurd h not_mem_nil

/-- Whether a part is a body or a slot whose name is a word. -/
def Part.isWorded : Part → Bool
  | .slot name => decide (IsWord name)
  | .body _ => true

theorem asks_of_mem_parts {parts : List Part} (hparts : parts.all Part.isWorded)
    (h : Part.slot slot ∈ parts) : b.Asks slot :=
  Or.inl (of_decide_eq_true (all_eq_true.1 hparts _ h))

theorem isWorded_branchParts (b : Block) : b.branchParts.all Part.isWorded := by
  rw [branchParts, all_append, Bool.and_eq_true, all_flatMap, all_eq_true]
  refine ⟨fun i _ => ?_, ?_⟩
  · have hname : IsWord ("IF" ++ toString i) := IsWord.append (by decide) (isWord_toString i)
    simp only [all_cons, all_nil, Part.isWorded, hname, decide_true, Bool.and_self]
  · split <;> rfl

/-- So are the value slots among its parts. -/
theorem asks_parts (h : Part.slot slot ∈ b.parts) : b.Asks slot := by
  unfold parts at h
  split at h
  · exact asks_of_mem_parts (isWorded_branchParts b) h
  · split at h <;> exact asks_of_mem_parts rfl h
  · exact asks_of_mem_parts rfl h
  · exact asks_of_mem_parts rfl h
  · exact asks_of_mem_parts rfl h
  · exact asks_of_mem_parts rfl h
  · rcases mem_append.1 h with h | h
    · obtain ⟨i, -, hi⟩ := mem_map.1 h
      rw [← Part.slot.inj hi]
      exact asks_numbered (by decide) i
    · exact asks_of_mem_parts rfl h
  · obtain ⟨name, hname, hslot⟩ := mem_map.1 h
    rw [← Part.slot.inj hslot]
    exact asks_operandSlots hname

theorem mem_texts_of_mem_values (h : slot ∈ b.values.map Prod.fst) : slot ∈ b.texts := by
  obtain ⟨entry, hentry, rfl⟩ := mem_map.1 h
  have hname : entry.1 ∈ valueTexts b.values := by
    rw [valueTexts_eq_flatMap]
    exact mem_flatMap.2 ⟨entry, hentry, mem_cons_self⟩
  exact mem_texts_iff.2 (.inr (.inr (.inr (.inr (.inl hname)))))

theorem isContent_of_isWord {s : String} (h : IsWord s) : isContent s.toList :=
  isContent_of_all (all_eq_true.2 fun c hc => Kotlin.forall_isNameChar
    (P := fun c => (c != '\\' && c != '"' && c != '$' && !Kotlin.endsLine c) = true)
    (by decide) (h c hc))

/-- The name of an argument slot on one line is a content. -/
theorem isContent_argSlot {name : String} (h : (argSlot? name).isSome)
    (hline : ∀ c ∈ name.toList, Kotlin.endsLine c = false) : isContent name.toList := by
  obtain ⟨slot, hslot⟩ := Option.isSome_iff_exists.1 h
  obtain ⟨digits, tail, hname, htail, hdigits, -⟩ := Code.exists_digits_of_argSlot? hslot
  have hnone : tail = [] := eq_nil_iff_forall_not_mem.2 fun c hc => by
    have hbreak := mem_singleton.1 (htail hc)
    exact absurd (hline c (by simp [hname, hc])) (by simp [hbreak, Kotlin.endsLine])
  rw [hname, hnone, append_nil]
  refine isContent_of_all (all_eq_true.2 ?_)
  simp only [forall_mem_cons]
  refine ⟨by decide, by decide, by decide, fun c hc => ?_⟩
  have hplain : ∀ d, (Text.digitValue? d).isSome = false → c ≠ d := by
    rintro d hd rfl
    rw [hdigits c hc] at hd
    cases hd
  simp [Kotlin.endsLine, hplain '\\' (by decide), hplain '"' (by decide), hplain '$' (by decide),
    hplain '\n' (by decide), hplain '\r' (by decide)]

/-! ### What a block tells -/

/-- A text that a block takes over: a word, or one of its texts. -/
def Tells (b : Block) (text : String) : Prop := IsWord text ∨ text ∈ b.texts

theorem Asks.tells (h : b.Asks slot) : b.Tells slot :=
  h.imp_right fun h => mem_texts_of_mem_values (mem_filter.1 h).1

theorem Tells.of_value? (hd : b.value? slot = some d) (h : d.Tells word) : b.Tells word :=
  h.imp_right fun h => texts_subset_of_value? hd h

theorem tells_type : b.Tells b.type := Or.inr (mem_texts_iff.2 (.inl rfl))

theorem fields_subset_texts : pairTexts b.fields ⊆ b.texts :=
  fun _ hs => mem_texts_iff.2 (.inr (.inl hs))

theorem mutation_subset_texts : pairTexts b.mutation ⊆ b.texts :=
  fun _ hs => mem_texts_iff.2 (.inr (.inr (.inl hs)))

theorem tells_lookup {value : String} (hpairs : pairTexts pairs ⊆ b.texts)
    (h : pairs.lookup name = some value) : b.Tells value :=
  Or.inr (hpairs (mem_flatMap.2 ⟨_, Assoc.mem_of_lookup h, by simp⟩))

theorem tells_getD {default : String} (hpairs : pairTexts pairs ⊆ b.texts)
    (hdefault : IsWord default) : b.Tells ((pairs.lookup name).getD default) := by
  cases hl : pairs.lookup name with
  | none => exact Or.inl hdefault
  | some value => exact tells_lookup hpairs hl

theorem tells_field {default : String} (hdefault : IsWord default) :
    b.Tells (fieldOr b.fields name default) :=
  tells_getD fields_subset_texts hdefault

theorem tells_firstGiven {other : String} (hpairs : pairTexts pairs ⊆ b.texts)
    (hother : b.Tells other) : b.Tells (firstGiven (pairs.lookup name) other) := by
  unfold firstGiven
  cases hl : pairs.lookup name with
  | none => exact hother
  | some value =>
    rw [Option.bind_some, nonempty?]
    split
    · exact hother
    · exact tells_lookup hpairs hl

theorem tells_component : b.Tells (componentOf b.mutation b.fields) := by
  have hfirst : componentOf b.mutation b.fields = firstGiven (b.mutation.lookup "instance_name")
      (fieldOr b.fields "COMPONENT_SELECTOR" "") := by
    rw [componentOf, firstGiven]
    cases (b.mutation.lookup "instance_name").bind nonempty? <;> rfl
  rw [hfirst]
  exact tells_firstGiven mutation_subset_texts (tells_field (by decide))

theorem tells_procedure : b.Tells (firstGiven (b.fields.lookup "PROCNAME")
    ((b.mutation.lookup "name").getD "")) :=
  tells_firstGiven fields_subset_texts (tells_getD mutation_subset_texts (by decide))

/-- A text whose foreign characters are all in the texts of a block. -/
def Holds (b : Block) (text : String) : Prop :=
  ∀ c, isPrintable c = false → Has c text → Spread c b.texts

theorem Tells.holds (h : b.Tells word) : b.Holds word := by
  intro c hc hhas
  rcases h with h | h
  · have hprintable := Kotlin.forall_isNameChar (P := fun c => isPrintable c = true) (by decide)
      (h c hhas)
    rw [hc] at hprintable
    cases hprintable
  · exact ⟨word, h, hhas⟩

theorem Holds.behind (h : b.Holds word) (hlead : isPrintableText lead) :
    b.Holds (lead ++ word) := by
  intro c hc hhas
  rw [has_append, has_printable hc hlead, false_or] at hhas
  exact h c hc hhas

/-! ### What a block quotes -/

/-- The words that the value of a block puts into a literal as they are, apart from its operands:
an operator that is none, or the type of a block without a value. -/
inductive Splices (b : Block) : String → Prop where
  | nothing : Splices b ""
  | comparison (hkind : b.kind = .compare)
      (h : Code.comparison? (fieldOr b.fields "OP" "EQ") = none) :
      Splices b (fieldOr b.fields "OP" "EQ")
  | connective (hkind : b.kind = .logic)
      (h : Code.connective? (fieldOr b.fields "OP" "AND") = none) :
      Splices b (fieldOr b.fields "OP" "AND")
  | type (h : exprOf b = .misplaced b.type) : Splices b b.type

theorem Splices.tells (h : b.Splices word) : b.Tells word := by
  cases h with
  | nothing => exact Or.inl (by decide)
  | comparison | connective => exact tells_field (by decide)
  | type => exact tells_type

/-- What stands in the literals of a value, apart from its operands. -/
inductive Quotes (b : Block) : Quotation → Prop where
  | escaped {text : String} (h : b.Holds text) : Quotes b (.escaped text)
  | plain {lead word : String} (hcontent : isContent lead.toList = true)
      (hlead : isPrintableText lead = true) (h : b.Splices word) : Quotes b (.plain lead word)

/-- What a value quotes by itself comes from its block. -/
theorem quotes_exprOf (h : quoted? (exprOf b) = some q) : b.Quotes q := by
  have hescaped : ∀ {text : String}, b.Holds text → some (Quotation.escaped text) = some q →
      b.Quotes q := by
    rintro text htext ⟨⟩
    exact .escaped htext
  have hplain : ∀ {lead word : String}, isContent lead.toList ∧ isPrintableText lead →
      b.Splices word → some (Quotation.plain lead word) = some q → b.Quotes q := by
    rintro lead word hlead hword ⟨⟩
    exact .plain hlead.1 hlead.2 hword
  have htype : b.Tells b.type := tells_type
  have hfield : ∀ name, b.Tells (fieldOr b.fields name "") := fun _ => tells_field (by decide)
  have hcomponent : b.Tells (componentOf b.mutation b.fields) := tells_component
  have hprocedure := tells_procedure (b := b)
  obtain ⟨kind⟩ := b
  cases kind with
  | number | textJoin => exact hplain (by decide) .nothing h
  | text => exact hescaped (hfield "TEXT").holds h
  | compare =>
    simp only [exprOf] at h
    split at h
    · cases h
    · next hnone => exact hplain (by decide) (.comparison rfl hnone) h
  | logic =>
    simp only [exprOf] at h
    split at h
    · cases h
    · next hnone => exact hplain (by decide) (.connective rfl hnone) h
  | arithmetic =>
    simp only [exprOf] at h
    split at h
    · split at h <;> cases h
    · cases h
  | methodCall =>
    simp only [exprOf] at h
    split at h
    · exact hescaped (hcomponent.holds.behind (by decide)) h
    · cases h
  | propertyGet | componentRef => exact hescaped (hcomponent.holds.behind (by decide)) h
  | variableGet => exact hescaped ((hfield "VAR").holds.behind (by decide)) h
  | procedureCall => exact hescaped (hprocedure.holds.behind (by decide)) h
  | unknown => exact hescaped (htype.holds.behind (by decide)) h
  | boolean | negate | not | choose | listCreate => cases h
  | _ => exact hplain (by decide) (.type rfl) h

/-- **The literals of a value**: its block quotes them, or asks for a slot that holds nothing, or
they are those of a block that a slot holds. -/
theorem quotes_induct {P : Block → Quotation → Prop} (hown : ∀ b q, b.Quotes q → P b q)
    (hslot : ∀ b slot, slot ∈ b.operandSlots → P b (.plain "missing value: " slot))
    (hvalue : ∀ (b d : Block) slot q, slot ∈ b.operandSlots → b.value? slot = some d →
      P d q → P b q)
    (h : q ∈ quotations env scope (exprOf b)) : P b q := by
  induction b using Block.induct with
  | h b ih _ =>
    rcases mem_quotations h with hquoted | ⟨o, ho, h⟩
    · exact hown b q (quotes_exprOf hquoted)
    · rw [Code.operands_exprOf] at ho
      obtain ⟨slot, hasked, rfl⟩ := mem_map.1 ho
      rw [Code.slotExpr_eq] at h
      cases hheld : (b.values.lookup slot).join with
      | none =>
        rw [hheld, Code.heldExpr] at h
        rw [mem_singleton.1 h]
        exact hslot b slot hasked
      | some d =>
        rw [hheld, Code.heldExpr] at h
        exact hvalue b d slot q hasked hheld (ih slot d hheld h)

/-- **The words in the placeholders of a value**: its block splices them, or asks for a slot of this
name, or they are in the placeholders of a block that a slot holds. -/
theorem plain_induct {P : Block → String → Prop} (hown : ∀ b word, b.Splices word → P b word)
    (hslot : ∀ b slot, slot ∈ b.operandSlots → P b slot)
    (hvalue : ∀ (b d : Block) slot word, slot ∈ b.operandSlots → b.value? slot = some d →
      P d word → P b word)
    (h : .plain lead word ∈ quotations env scope (exprOf b)) :
    isContent lead.toList ∧ P b word := by
  refine quotes_induct (P := fun b q => ∀ lead word, q = .plain lead word →
    isContent lead.toList = true ∧ P b word) ?_ ?_ ?_ h lead word rfl
  · rintro b _ (h | ⟨hcontent, -, h⟩) lead word heq
    · cases heq
    · obtain ⟨rfl, rfl⟩ := Quotation.plain.inj heq
      exact ⟨hcontent, hown b _ h⟩
  · intro b slot hasked lead word heq
    obtain ⟨rfl, rfl⟩ := Quotation.plain.inj heq
    exact ⟨by decide, hslot b _ hasked⟩
  · intro b d slot q hasked hd h lead word heq
    exact (h lead word heq).imp_right (hvalue b d slot word hasked hd)

/-- **The words in the placeholders of a value are told by its block**, behind words that can stand
in a literal. -/
theorem plain_of_mem_quotations (h : .plain lead word ∈ quotations env scope (exprOf b)) :
    isContent lead.toList ∧ b.Tells word :=
  plain_induct (fun _ _ => Splices.tells) (fun _ _ hslot => (asks_operandSlots hslot).tells)
    (fun _ _ _ _ _ hd hword => hword.of_value? hd) h

/-- The literals of a value have contents if the words in its placeholders could. -/
theorem isContent_literals
    (h : ∀ lead word, .plain lead word ∈ quotations env scope (exprOf b) →
      isContent word.toList = true) :
    ∀ content ∈ literals env scope (exprOf b), isContent content := by
  intro content hcontent
  obtain ⟨q, hq, rfl⟩ := mem_map.1 hcontent
  cases q with
  | escaped text => exact Kotlin.isContent_escaped text.toList
  | plain lead word =>
    rw [Quotation.content, String.toList_append, isContent_append (plain_of_mem_quotations hq).1]
    exact h lead word hq

/-- **The value of a block is closed if and only if every word that a placeholder takes over can
stand in a literal.** -/
theorem closed_value_iff {t : Target} (ht : t.Plain) (p : Code.Program) (scope : Scope)
    (b : Block) :
    Closes (exprText (t.naming p) scope (exprOf b)) (literals (t.naming p) scope (exprOf b)) ↔
      ∀ lead word, .plain lead word ∈ quotations (t.naming p) scope (exprOf b) →
        isContent word.toList = true := by
  constructor
  · intro hcloses lead word hplain
    have hcontent := hcloses.isContent _ (mem_map.2 ⟨_, hplain, rfl⟩)
    have hlead := (plain_of_mem_quotations hplain).1
    rwa [Quotation.content, String.toList_append, isContent_append hlead] at hcontent
  · intro hwords
    exact (closed_exprText (ht.naming p) scope (exprOf b) (isContent_literals hwords)).closes

/-- A comparison of nothing by an operator. -/
def comparisonBy (op : String) : Block :=
  { kind := .compare, type := "math_compare", fields := [("OP", op)] }

/-- A quote and a dollar sign joined with a comparison. -/
def joinedComparison (op : String) : Block :=
  { kind := .textJoin, type := "text_join"
    values := [("ADD0", some { kind := .text, type := "text", fields := [("TEXT", "\"$")] }),
      ("ADD1", some (comparisonBy op))] }

/-- A comparison whose operator can stand in a literal is closed. -/
theorem joined_comparison_closed :
    Target.Plain { package := "app" } ∧
      Closes (exprText (Target.naming { package := "app" } ⟨[], [], []⟩) []
          (exprOf (joinedComparison "IS")))
        ["\\\"\\$".toList, "unsupported comparison: IS".toList, []] := by
  have ht : Target.Plain { package := "app" } := ⟨by decide, by decide, by decide⟩
  have hquotations : quotations (Target.naming { package := "app" } ⟨[], [], []⟩) []
      (exprOf (joinedComparison "IS"))
      = [.escaped "\"$", .plain "unsupported comparison: " "IS", .plain "" ""] := by
    decide
  refine ⟨ht, (closed_value_iff ht ⟨[], [], []⟩ [] (joinedComparison "IS")).2 ?_⟩
  intro lead word h
  rw [hquotations] at h
  simp only [mem_cons, not_mem_nil, or_false, reduceCtorEq, false_or, Quotation.plain.injEq] at h
  rcases h with ⟨-, rfl⟩ | ⟨-, rfl⟩ <;> decide

/-- A quote as an operator ends the literal that tells it, and the quote behind it opens one that
never ends. -/
theorem quote_operator_ends_literal :
    Target.Plain { package := "app" } ∧
      ∀ contents, ¬ Closes (exprText (Target.naming { package := "app" } ⟨[], [], []⟩) []
        (exprOf (comparisonBy "\""))) contents := by
  refine ⟨⟨by decide, by decide, by decide⟩, ?_⟩
  rintro contents ⟨ls, hls, -⟩
  have hnone : lexemes? (exprText (Target.naming { package := "app" } ⟨[], [], []⟩) []
      (exprOf (comparisonBy "\""))) = none := by
    decide
  rw [hnone] at hls
  cases hls

end Block
end ScreenForge
