/-
# Expressions and statements by their parts

An expression has operands, in the order in which they are written, and a statement has pieces:
values, and bodies with the names that are new in them.  `operands_exprOf` and `pieces_stmtOf` say
which slots of a block its parts come from, one case for each kind of block, and nothing else has to
look at kinds again.
-/
import ScreenForge.Proofs.Code.Slot

namespace ScreenForge

open List

namespace Code

/-- The operands of an expression. -/
def Expr.operands : Expr → List Expr
  | .chain _ operands => operands
  | .binary _ left right => [left, right]
  | .unknownOperator _ _ _ left right => [left, right]
  | .negate operand => [operand]
  | .not operand => [operand]
  | .choose test yes no => [test, yes, no]
  | .join items => items
  | .list items => items
  | .method _ _ args => args
  | .procedure _ args => args
  | _ => []

/-- The variable that an expression gets. -/
def Expr.about? : Expr → Option String
  | .variable name => some name
  | _ => none

/-- A piece of a statement: a value, or a body with the names that are new in it. -/
inductive Piece where
  | value (e : Expr)
  | body (names : List String) (ss : List Stmt)

/-- The pieces of a statement; those of a mere expression are its operands. -/
def Stmt.pieces : Stmt → List Piece
  | .branch arms otherwise =>
    (arms.flatMap fun arm => [.value arm.1, .body [] arm.2])
      ++ (otherwise.map fun ss => Piece.body [] ss).toList
  | .loop _ condition body => [.value condition, .body [] body]
  | .forRange name first last step body =>
    [.value first, .value last, .value step, .body [name] body]
  | .forEach name items body => [.value items, .body [name] body]
  | .setProperty _ _ e => [.value e]
  | .setVariable _ e => [.value e]
  | .locals names body =>
    (names.map fun d => .value d.2) ++ [.body (names.map Prod.fst).reverse body]
  | .call e => e.operands.map .value
  | .value e => e.operands.map .value
  | _ => []

theorem Expr.sizeOf_lt_of_mem_operands {e o : Expr} (h : o ∈ e.operands) : sizeOf o < sizeOf e := by
  cases e with
  | chain op operands | join operands | list operands | method name called operands
  | procedure name operands =>
    have := sizeOf_lt_of_mem (show o ∈ operands from h)
    simp only [Expr.chain.sizeOf_spec, Expr.join.sizeOf_spec, Expr.list.sizeOf_spec,
      Expr.method.sizeOf_spec, Expr.procedure.sizeOf_spec]
    omega
  | binary op l r | unknownOperator what type op l r | negate operand | not operand
  | choose test yes no =>
    have := mem_map_of_mem (f := sizeOf) h
    simp [Expr.operands] at this ⊢
    omega
  | _ => exact absurd h not_mem_nil

/-- **Induction over expressions, operand by operand.** -/
theorem Expr.inductOperands {P : Expr → Prop}
    (h : ∀ e : Expr, (∀ o ∈ e.operands, P o) → P e) (e : Expr) : P e :=
  h e fun o _ => Expr.inductOperands h o
termination_by sizeOf e
decreasing_by exact Expr.sizeOf_lt_of_mem_operands ‹_›

/-- The statements in a piece. -/
def Piece.stmts : Piece → List Stmt
  | .value _ => []
  | .body _ ss => ss

theorem Stmt.sizeOf_lt_of_mem_pieces {s c : Stmt} {piece : Piece} (hpiece : piece ∈ s.pieces)
    (h : c ∈ piece.stmts) : sizeOf c < sizeOf s := by
  cases piece with
  | value e => exact absurd h not_mem_nil
  | body names ss =>
    have hlt := sizeOf_lt_of_mem (show c ∈ ss from h)
    cases s with
    | branch arms otherwise =>
      simp only [Stmt.branch.sizeOf_spec]
      rcases mem_append.1 hpiece with hpiece | hpiece
      · obtain ⟨arm, harm, hpiece⟩ := mem_flatMap.1 hpiece
        have harm := sizeOf_lt_of_mem harm
        obtain ⟨condition, body⟩ := arm
        simp only [mem_cons, not_mem_nil, or_false, reduceCtorEq, false_or,
          Piece.body.injEq] at hpiece
        obtain ⟨-, rfl⟩ := hpiece
        simp only [Prod.mk.sizeOf_spec] at harm
        omega
      · cases otherwise with
        | none => exact absurd hpiece not_mem_nil
        | some body =>
          simp only [Option.map_some, Option.toList_some, mem_singleton, Piece.body.injEq] at hpiece
          obtain ⟨-, rfl⟩ := hpiece
          simp only [Option.some.sizeOf_spec]
          omega
    | locals declared body =>
      simp only [Stmt.locals.sizeOf_spec]
      rcases mem_append.1 hpiece with hpiece | hpiece
      · obtain ⟨d, -, hd⟩ := mem_map.1 hpiece
        cases hd
      · obtain ⟨-, rfl⟩ := Piece.body.inj (mem_singleton.1 hpiece)
        omega
    | call e | value e =>
      obtain ⟨o, -, ho⟩ := mem_map.1 hpiece
      cases ho
    | loop untilHolds condition body | forRange name first last step body
    | forEach name items body =>
      simp [Stmt.pieces] at hpiece ⊢
      obtain ⟨-, rfl⟩ := hpiece
      omega
    | _ => simp [Stmt.pieces] at hpiece

/-- **Induction over statements, body by body.** -/
theorem Stmt.inductBodies {P : Stmt → Prop}
    (h : ∀ s : Stmt, (∀ piece ∈ s.pieces, ∀ c ∈ piece.stmts, P c) → P s) (s : Stmt) : P s :=
  h s fun _ _ c _ => Stmt.inductBodies h c
termination_by sizeOf s
decreasing_by exact Stmt.sizeOf_lt_of_mem_pieces ‹_› ‹_›

/-- The variable that a statement sets, or gets if it is a mere expression. -/
def Stmt.about? : Stmt → Option String
  | .setVariable name _ => some name
  | .call e => e.about?
  | .value e => e.about?
  | _ => none

end Code

namespace Block

open Code (argSlots? fieldOr itemCount localNames loopSlot numberOr slotNames)

/-- The slots that a block takes values from to have a value itself. -/
def operandSlots (b : Block) : List String :=
  match b.kind with
  | .arithmetic =>
    if b.type = "math_add" || b.type = "math_multiply" then slotNames "NUM" (itemCount b.mutation)
    else ["A", "B"]
  | .negate => ["NUM"]
  | .compare => ["A", "B"]
  | .logic => ["A", "B"]
  | .not => ["BOOL"]
  | .choose => ["TEST", "THENRETURN", "ELSERETURN"]
  | .textJoin => slotNames "ADD" (itemCount b.mutation)
  | .listCreate => slotNames "ADD" (itemCount b.mutation)
  | .methodCall => (argSlots? (b.values.map Prod.fst)).getD []
  | .procedureCall => slotNames "ARG" b.args.length
  | _ => []

/-- A part of a block that holds blocks. -/
inductive Part where
  | slot (name : String)
  | body (name : String)
  deriving DecidableEq, Repr

/-- The parts of a branch: a condition and a body for each arm, and perhaps a last body. -/
def branchParts (b : Block) : List Part :=
  ((List.range (numberOr b.mutation "elseif" 0 + 1).toNat).flatMap fun i =>
    [.slot ("IF" ++ toString i), .body ("DO" ++ toString i)])
  ++ if (b.mutation.lookup "else").getD "0" ∈ ["0", ""] then [] else [.body "ELSE"]

/-- The parts of a block that is told to act, in order. -/
def parts (b : Block) : List Part :=
  match b.kind with
  | .branch => b.branchParts
  | .loop =>
    if b.type = "controls_while" then [.slot "TEST", .body (loopSlot b.statements "STATEMENT")]
    else [.slot "BOOL", .body (loopSlot b.statements "DO")]
  | .forRange =>
    [.slot "START", .slot "END", .slot "STEP", .body (loopSlot b.statements "STATEMENT")]
  | .forEach => [.slot "LIST", .body (loopSlot b.statements "STATEMENT")]
  | .propertySet => [.slot "VALUE"]
  | .variableSet => [.slot "VALUE"]
  | .localDeclaration =>
    ((List.range b.args.length).map fun i => .slot ("DECL" ++ toString i)) ++ [.body "STACK"]
  | _ => b.operandSlots.map .slot

/-- The names that are new in a part: the variable of a loop, or the names declared. -/
def newNames (b : Block) : Part → List String
  | .slot _ => []
  | .body _ =>
    match b.kind with
    | .forRange => [fieldOr b.fields "VAR" "number"]
    | .forEach => [fieldOr b.fields "VAR" "item"]
    | .localDeclaration => (localNames b.fields b.args).reverse
    | _ => []

/-- The piece of a statement that a part becomes. -/
def piece (b : Block) : Part → Code.Piece
  | .slot name => .value (Code.slotExpr b.type name b.values)
  | .body name => .body (b.newNames (.body name)) (Code.bodyIn name b.statements)

end Block

namespace Code

variable (b : Block)

/-- The operands of a block come from its operand slots. -/
theorem operands_exprOf :
    (exprOf b).operands = b.operandSlots.map fun slot => slotExpr b.type slot b.values := by
  obtain ⟨kind, type, id, fields, mutation, args, values⟩ := b
  cases kind with
  | arithmetic =>
    by_cases htype : (type = "math_add" || type = "math_multiply") = true
    · by_cases hcount : itemCount mutation < 0
      · have hnone : slotNames "NUM" (itemCount mutation) = [] := by
          simp [slotNames, Int.toNat_of_nonpos (Int.le_of_lt hcount)]
        simp only [exprOf, htype, hcount, if_true, Block.operandSlots, hnone]
        rfl
      · simp only [exprOf, htype, hcount, if_true, if_false, Block.operandSlots, Expr.operands]
    · simp [exprOf, htype, Block.operandSlots, Expr.operands]
  | compare | logic =>
    simp only [exprOf, Block.operandSlots]
    split <;> rfl
  | methodCall =>
    simp only [exprOf, Block.operandSlots]
    cases argSlots? (values.map Prod.fst) <;> rfl
  | _ => simp [exprOf, Block.operandSlots, Expr.operands]

/-- A block is about a variable in value position if it gets one. -/
theorem about?_exprOf : (exprOf b).about? =
    if b.kind = .variableGet then some (fieldOr b.fields "VAR" "") else none := by
  obtain ⟨kind⟩ := b
  cases kind with
  | arithmetic =>
    simp only [exprOf]
    split
    · split <;> rfl
    · rfl
  | compare | logic | methodCall =>
    simp only [exprOf]
    split <;> rfl
  | _ => simp [exprOf, Expr.about?]

/-- **The pieces of a statement are the parts of its block.** -/
theorem pieces_stmtOf : (stmtOf b).pieces = b.parts.map b.piece := by
  have hoperands := operands_exprOf b
  obtain ⟨kind, type, id, fields, mutation, args, values⟩ := b
  cases kind with
  | branch =>
    simp only [stmtOf, Stmt.pieces, Block.parts, Block.branchParts, map_append,
      map_flatMap, flatMap_map]
    congr 1
    by_cases h : (mutation.lookup "else").getD "0" ∈ ["0", ""]
    · have h' : ((mutation.lookup "else").getD "0" = "0"
          ∨ (mutation.lookup "else").getD "0" = "") := by
        simpa using h
      simp [h']
    · have h' : ¬ ((mutation.lookup "else").getD "0" = "0"
          ∨ (mutation.lookup "else").getD "0" = "") := by
        simpa using h
      simp [h', Block.piece, Block.newNames]
  | loop =>
    by_cases h : type = "controls_while" <;>
      simp [stmtOf, Stmt.pieces, Block.parts, Block.piece, Block.newNames, h]
  | localDeclaration =>
    have hlength : (localNames fields args).length = args.length := by simp [localNames]
    have hindices := zipIdx_map_snd 0 (localNames fields args)
    rw [hlength, ← range_eq_range'] at hindices
    simp only [stmtOf, Stmt.pieces, Block.parts, map_append, map_map, ← hindices]
    have hnames : (localNames fields args).zipIdx.map
        (Prod.fst ∘ fun d => (d.1, slotExpr type s!"DECL{d.2}" values)) = localNames fields args :=
      zipIdx_map_fst 0 (localNames fields args)
    rw [hnames]
    rfl
  | forRange | forEach => simp [stmtOf, Stmt.pieces, Block.parts, Block.piece, Block.newNames]
  | leave => simp [stmtOf, Stmt.pieces, Block.parts, Block.operandSlots]
  | propertySet | variableSet => simp [stmtOf, Stmt.pieces, Block.parts, Block.piece]
  | unknown => simp [stmtOf, Stmt.pieces, Block.parts, Block.operandSlots]
  | _ =>
    simp only [stmtOf, Stmt.pieces, Block.parts, hoperands, map_map]
    rfl

/-- A value of a statement comes from a slot of its block. -/
theorem value_mem_pieces {b : Block} {e : Expr} (h : .value e ∈ (stmtOf b).pieces) :
    ∃ slot, .slot slot ∈ b.parts ∧ e = slotExpr b.type slot b.values := by
  rw [pieces_stmtOf] at h
  obtain ⟨part, hpart, hpiece⟩ := mem_map.1 h
  cases part with
  | slot name => exact ⟨name, hpart, (Piece.value.inj hpiece).symm⟩
  | body name => cases hpiece

/-- A body of a statement comes from a slot of its block. -/
theorem body_mem_pieces {b : Block} {names : List String} {ss : List Stmt}
    (h : .body names ss ∈ (stmtOf b).pieces) :
    ∃ slot, .body slot ∈ b.parts ∧ names = b.newNames (.body slot)
      ∧ ss = (b.body slot).map stmtOf := by
  rw [pieces_stmtOf] at h
  obtain ⟨part, hpart, hpiece⟩ := mem_map.1 h
  cases part with
  | slot name => cases hpiece
  | body name =>
    obtain ⟨rfl, rfl⟩ := Piece.body.inj hpiece
    exact ⟨name, hpart, rfl, bodyIn_eq name b.statements⟩

/-- A block is about a variable in statement position if it gets or sets one. -/
theorem about?_stmtOf : (stmtOf b).about? =
    if b.kind = .variableGet ∨ b.kind = .variableSet then some (fieldOr b.fields "VAR" "")
    else none := by
  have hexpr := about?_exprOf b
  obtain ⟨kind⟩ := b
  cases kind <;> simp_all [stmtOf, Stmt.about?]

end Code
end ScreenForge
