/-
# What blocks hold, slot by slot

`exprOf` and `stmtOf` walk down lists of slots so that their recursion is plain.  What they find
there is what a look-up finds.
-/
import ScreenForge.Code.OfBlock

namespace ScreenForge

/-- The block that gets a variable. -/
def Block.ofVariable (name : String) : Block :=
  { kind := .variableGet, type := "lexical_variable_get", fields := [("VAR", name)] }

/-- The block in a value slot. -/
def Block.value? (b : Block) (slot : String) : Option Block := (b.values.lookup slot).join

/-- The blocks in a statement slot. -/
def Block.body (b : Block) (slot : String) : List Block := (b.statements.lookup slot).getD []

theorem Block.sizeOf_lt_of_value? {b c : Block} {slot : String} (h : b.value? slot = some c) :
    sizeOf c < sizeOf b := by
  have hmem : (slot, some c) ∈ b.values := Assoc.mem_of_lookup (Option.join_eq_some_iff.1 h)
  have hlt := List.sizeOf_lt_of_mem hmem
  obtain ⟨kind⟩ := b
  simp only [Block.mk.sizeOf_spec, Prod.mk.sizeOf_spec, Option.some.sizeOf_spec] at *
  omega

theorem Block.sizeOf_lt_of_mem_body {b c : Block} {slot : String} (h : c ∈ b.body slot) :
    sizeOf c < sizeOf b := by
  unfold Block.body at h
  cases hl : b.statements.lookup slot with
  | none => simp [hl] at h
  | some blocks =>
    rw [hl, Option.getD_some] at h
    have hmem := List.sizeOf_lt_of_mem (Assoc.mem_of_lookup hl)
    have hlt := List.sizeOf_lt_of_mem h
    obtain ⟨kind⟩ := b
    simp only [Block.mk.sizeOf_spec, Prod.mk.sizeOf_spec] at *
    omega

/-- **Induction over blocks.** -/
theorem Block.induct {P : Block → Prop}
    (h : ∀ b : Block, (∀ slot c, b.value? slot = some c → P c) →
      (∀ slot, ∀ c ∈ b.body slot, P c) → P b) (b : Block) : P b :=
  h b (fun _ c _ => Block.induct h c) (fun _ c _ => Block.induct h c)
termination_by sizeOf b
decreasing_by
  · exact Block.sizeOf_lt_of_value? ‹_›
  · exact Block.sizeOf_lt_of_mem_body ‹_›

namespace Code

/-- The value of a slot is what a look-up finds. -/
theorem slotExpr_eq (owner slot : String) (values : List (String × Option Block)) :
    slotExpr owner slot values = heldExpr owner slot (values.lookup slot).join := by
  induction values with
  | nil => simp [slotExpr, heldExpr]
  | cons entry rest ih =>
    obtain ⟨name, value⟩ := entry
    by_cases h : name = slot
    · simp [slotExpr, h]
    · have h' : (slot == name) = false := by simpa using fun e => h e.symm
      simp [slotExpr, h, List.lookup_cons, h', ih]

/-- A sequence of blocks is a sequence of statements. -/
theorem stmtsOf_eq_map (blocks : List Block) : stmtsOf blocks = blocks.map stmtOf := by
  induction blocks with
  | nil => simp [stmtsOf]
  | cons block rest ih => simp [stmtsOf, ih]

/-- The body of a slot is what a look-up finds. -/
theorem bodyIn_eq (slot : String) (statements : List (String × List Block)) :
    bodyIn slot statements = ((statements.lookup slot).getD []).map stmtOf := by
  induction statements with
  | nil => simp [bodyIn]
  | cons entry rest ih =>
    obtain ⟨name, blocks⟩ := entry
    by_cases h : name = slot
    · simp [bodyIn, h, stmtsOf_eq_map]
    · have h' : (slot == name) = false := by simpa using fun e => h e.symm
      simp [bodyIn, h, List.lookup_cons, h', ih]

end Code
end ScreenForge
