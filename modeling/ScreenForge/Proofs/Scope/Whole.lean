/-
# Values that stay whole

The value of a block is an operand that nothing in front or behind breaks up (`Kotlin.Stands`), if
its operators are known and no name of a slot has a line break.
-/
import ScreenForge.Proofs.Kotlin.Whole
import ScreenForge.Proofs.Scope.Quotation

namespace ScreenForge
namespace Block

open Code (argSlot? comparison? connective? exprOf fieldOr)
open Kotlin (Env IsWord Scope endsLine isContent isContent_of_all quotations)

variable {b : Block}

/-- A block with known operators and slots on one line, and so are the blocks in its value slots.  A
block without a value is of the kind that its type has, as every block that is read
(`kind_of_mem_levels`). -/
inductive Legible : Block → Prop where
  | intro {b : Block}
      (comparison : b.kind = .compare → (comparison? (fieldOr b.fields "OP" "EQ")).isSome)
      (connective : b.kind = .logic → (connective? (fieldOr b.fields "OP" "AND")).isSome)
      (slots : ∀ v ∈ b.values, ∀ c ∈ v.1.toList, endsLine c = false)
      (placed : b.kind = kindOf b.type b.mutation ∨ ∀ type, exprOf b ≠ .misplaced type)
      (values : ∀ slot d, b.value? slot = some d → Legible d) : Legible b

/-- The types of blocks without a value are words. -/
theorem isWord_of_misplaced (hkind : b.kind = kindOf b.type b.mutation)
    (h : exprOf b = .misplaced b.type) : IsWord b.type := by
  have hall : vocabulary.all fun e => decide (IsWord e.1) := by decide
  cases hlookup : vocabulary.lookup b.type with
  | some kind =>
    exact of_decide_eq_true (List.all_eq_true.1 hall _ (Assoc.mem_of_lookup hlookup))
  | none =>
    have hunknown : b.kind = .unknown := by rw [hkind, kindOf, hlookup]; rfl
    obtain ⟨kind⟩ := b
    obtain rfl : kind = .unknown := hunknown
    cases h

/-- **The words in the placeholders of a legible block can stand in literals.** -/
theorem Legible.isContent (hb : Legible b) {env : Env} {scope : Scope} {lead word : String}
    (h : .plain lead word ∈ quotations env scope (exprOf b)) : isContent word.toList := by
  refine (plain_induct (P := fun b word => Legible b → Kotlin.isContent word.toList = true)
    ?_ ?_ ?_ h).2 hb
  · rintro b word hword ⟨hcomparison, hconnective, -, hplaced, -⟩
    cases hword with
    | nothing => rfl
    | comparison hkind hnone => rw [hnone] at hcomparison; cases hcomparison hkind
    | connective hkind hnone => rw [hnone] at hconnective; cases hconnective hkind
    | type hvalue =>
      rcases hplaced with hkind | hplaced
      · exact isContent_of_isWord (isWord_of_misplaced hkind hvalue)
      · exact absurd hvalue (hplaced b.type)
  · rintro b slot hslot ⟨-, -, hslots, -, -⟩
    rcases asks_operandSlots hslot with hword | harg
    · exact isContent_of_isWord hword
    · obtain ⟨hmem, hsome⟩ := List.mem_filter.1 harg
      obtain ⟨v, hv, rfl⟩ := List.mem_map.1 hmem
      exact isContent_argSlot hsome (hslots v hv)
  · rintro b d slot word - hd hword ⟨-, -, -, -, hvalues⟩
    exact hword (hvalues slot d hd)

end Block

namespace Kotlin

open Block (Legible)
open Code (exprOf)

/-- A target whose activity and members have names. -/
structure Target.Named (t : Target) : Prop where
  activity : isName t.activity = true
  accessors : ∀ e ∈ t.components, ∀ a ∈ e.2.rule.accessors, isName a.2 = true
  methods : ∀ e ∈ t.components, ∀ m ∈ e.2.rule.methods, isName m.2 = true

theorem isPath_of_isWord {s : String} (h : IsWord s) : isPath s :=
  List.all_eq_true.2 fun c hc => by rw [h c hc]; rfl

/-- **What a program is written with are paths if the names of its target are.** -/
theorem Target.Named.naming {t : Target} (ht : t.Named) (p : Code.Program) :
    (t.naming p).Forall fun s => isPath s = true :=
  have hname : ∀ {s : String}, isName s → isPath s := fun h =>
    isPath_of_isWord (isNameChar_of_isName h)
  { small_naming t p with
    ofSmall := fun h => isPath_of_isWord (isNameChar_of_isSmall h)
    qualified := isLexicon_isPath.append (isLexicon_isPath.append
      (isLexicon_isPath.append (by decide) (hname ht.activity)) (by decide))
    accessors := fun e he a ha => hname (ht.accessors e he a ha)
    methods := fun e he m hm => hname (ht.methods e he m hm) }

/-- **The value of a legible block stays whole**, in every scope of a program. -/
theorem value_stays_whole {t : Target} (ht : t.Named) (p : Code.Program) (scope : Scope) {b : Block}
    (hb : Legible b) : Stands (exprText (t.naming p) scope (exprOf b)) :=
  (form_exprText ((ht.naming p).writes isLexicon_isPath scope) (exprOf b)).stands
    (Block.isContent_literals fun _ _ h => hb.isContent h)

/-- A negative number under a minus. -/
def doubleMinus : Block :=
  { kind := .negate, type := "math_neg"
    values := [("NUM", some { kind := .number, type := "math_number", fields := [("NUM", "-5")] })] }

theorem legible_doubleMinus : Legible doubleMinus := by
  refine .intro (by decide) (by decide) (by simp [doubleMinus, Kotlin.endsLine]) (Or.inl rfl)
    fun slot d hd => ?_
  have hmem : (slot, some d) ∈ doubleMinus.values :=
    Assoc.mem_of_lookup (Option.join_eq_some_iff.1 hd)
  obtain ⟨-, rfl⟩ : _ ∧ _ := by simpa [doubleMinus] using hmem
  exact .intro (by decide) (by decide) (by decide) (Or.inl rfl) fun _ _ h => by cases h

/-- The negation of a negative number stays whole. -/
theorem double_minus_stays_whole :
    exprText (Target.naming { package := "app" } ⟨[], [], []⟩) [] (exprOf doubleMinus) = "(-(-5))" ∧
      Stands (exprText (Target.naming { package := "app" } ⟨[], [], []⟩) [] (exprOf doubleMinus)) :=
  ⟨by decide, value_stays_whole ⟨by decide, by decide, by decide⟩ ⟨[], [], []⟩ []
    legible_doubleMinus⟩

end Kotlin
end ScreenForge
