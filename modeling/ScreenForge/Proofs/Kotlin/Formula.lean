/-
# Formulas keep their meaning

A `Tree` is what a formula of blocks means: whole numbers, truth values and variables under
operators.  `Spells b e` says that the block `b` means the tree `e`, one rule for each kind of block
and all slots filled.  A sum or a product of any number of items groups to the left.  The text of
such a block is an operand, so the grammar reads it in one way: as `Tree.phrase`, where a division
is one of floating point numbers and a power a call.
-/
import ScreenForge.Proofs.Code.Slot
import ScreenForge.Proofs.Kotlin.Binding

namespace ScreenForge
namespace Kotlin

open List
open Code (exprOf fieldOr itemCount truthOf)

variable {scope : Scope} {p : Code.Program} {t : Target}

/-- The meaning of a formula, with variables of some kind. -/
inductive Tree (α : Type) where
  | number (value : Nat)
  | truth (value : Bool)
  | var (name : α)
  | signed (sign : Sign) (operand : Tree α)
  | binary (o : Operator) (left right : Tree α)
  | divide (left right : Tree α)
  | power (left right : Tree α)
  | choose (test yes no : Tree α)
  deriving DecidableEq, Repr

namespace Tree

/-- A whole number: a minus stands before the digits of a negative one. -/
def ofInt {α : Type} : Int → Tree α
  | .ofNat n => .number n
  | .negSucc n => .signed .minus (.number (n + 1))

/-- Operands `0` to `k` under an operator that groups to the left. -/
def chain {α : Type} (o : Operator) (item : Nat → Tree α) : Nat → Tree α
  | 0 => item 0
  | k + 1 => .binary o (chain o item k) (item (k + 1))

/-- Renames variables. -/
def map {α β : Type} (f : α → β) : Tree α → Tree β
  | .number n => .number n
  | .truth b => .truth b
  | .var x => .var (f x)
  | .signed s e => .signed s (e.map f)
  | .binary o l r => .binary o (l.map f) (r.map f)
  | .divide l r => .divide (l.map f) (r.map f)
  | .power l r => .power (l.map f) (r.map f)
  | .choose t y n => .choose (t.map f) (y.map f) (n.map f)

/-- Whether all variables of a tree have a property. -/
def All {α : Type} (P : α → Prop) : Tree α → Prop
  | .number _ => True
  | .truth _ => True
  | .var x => P x
  | .signed _ e => e.All P
  | .binary _ l r => l.All P ∧ r.All P
  | .divide l r => l.All P ∧ r.All P
  | .power l r => l.All P ∧ r.All P
  | .choose t y n => t.All P ∧ y.All P ∧ n.All P

/-- A tree as a phrase: division divides floating point numbers, and a power is a call. -/
def phrase : Tree Phrase → Phrase
  | .number n => .number n
  | .truth b => .truth b
  | .var a => a
  | .signed s e => .signed s e.phrase
  | .binary o l r => .binary o l.phrase r.phrase
  | .divide l r => .binary .over l.phrase.double r.phrase
  | .power l r => .call (.member (.name "Math") "pow") [l.phrase.double, r.phrase.double]
  | .choose t y n => .choose t.phrase y.phrase n.phrase

end Tree

/-- The operator of a comparison's word. -/
def comparisonOf? (word : String) : Option Operator :=
  [("EQ", Operator.equal), ("EQUAL", .equal), ("NEQ", .notEqual), ("LT", .less),
    ("LTE", .lessEqual), ("GT", .greater), ("GTE", .greaterEqual)].lookup word

/-- The operator of a connective's word. -/
def connectiveOf? (word : String) : Option Operator :=
  [("AND", Operator.and), ("OR", .or)].lookup word

/-- The operator of a block with any number of items. -/
def chaining? (b : Block) : Option Operator :=
  if b.kind = .arithmetic then
    [("math_add", Operator.plus), ("math_multiply", .times)].lookup b.type
  else none

/-- What a block with two operands makes of them. -/
def pairing? (b : Block) : Option (Tree String → Tree String → Tree String) :=
  match b.kind with
  | .arithmetic =>
    [("math_subtract", Tree.binary .minus), ("math_division", .divide),
      ("math_power", .power)].lookup b.type
  | .compare => (comparisonOf? (fieldOr b.fields "OP" "EQ")).map .binary
  | .logic => (connectiveOf? (fieldOr b.fields "OP" "AND")).map .binary
  | _ => none

/-- The sign of a block with one operand, and the slot of the operand. -/
def signing? (b : Block) : Option (Sign × String) :=
  match b.kind with
  | .negate => some (.minus, "NUM")
  | .not => some (.bang, "BOOL")
  | _ => none

/-- `Spells visible b e`: the block `b`, with visible variables only, means the tree `e`. -/
inductive Spells (visible : String → Prop) : Block → Tree String → Prop where
  | integer {b : Block} {n : Int} (hk : b.kind = .number)
      (hn : Numeral.integerChars? (Text.stripChars (fieldOr b.fields "NUM" "").toList) = some n) :
      Spells visible b (.ofInt n)
  | truth {b : Block} (hk : b.kind = .boolean) :
      Spells visible b (.truth (truthOf b.type b.fields))
  | var {b : Block} (hk : b.kind = .variableGet) (hv : visible (fieldOr b.fields "VAR" "")) :
      Spells visible b (.var (fieldOr b.fields "VAR" ""))
  | chain {b : Block} {o : Operator} {k : Nat} {c : Nat → Block} {e : Nat → Tree String}
      (ho : chaining? b = some o) (hk : itemCount b.mutation = k + 1)
      (hc : ∀ i ≤ k, b.value? ("NUM" ++ toString i) = some (c i))
      (he : ∀ i ≤ k, Spells visible (c i) (e i)) : Spells visible b (.chain o e k)
  | pair {b l r : Block} {f : Tree String → Tree String → Tree String} {x y : Tree String}
      (hf : pairing? b = some f) (hl : b.value? "A" = some l) (hr : b.value? "B" = some r)
      (hx : Spells visible l x) (hy : Spells visible r y) : Spells visible b (f x y)
  | signed {b c : Block} {s : Sign} {slot : String} {x : Tree String}
      (hs : signing? b = some (s, slot)) (hc : b.value? slot = some c)
      (hx : Spells visible c x) : Spells visible b (.signed s x)
  | choose {b t y n : Block} {u v w : Tree String} (hk : b.kind = .choose)
      (ht : b.value? "TEST" = some t) (hy : b.value? "THENRETURN" = some y)
      (hn : b.value? "ELSERETURN" = some n) (hu : Spells visible t u) (hv : Spells visible y v)
      (hw : Spells visible n w) : Spells visible b (.choose u v w)

/-! ### Blocks as expressions -/

/-- The operator of a comparison. -/
def Operator.ofComparison : Code.Comparison → Operator
  | .equal => .equal
  | .notEqual => .notEqual
  | .less => .less
  | .lessEqual => .lessEqual
  | .greater => .greater
  | .greaterEqual => .greaterEqual

/-- The operator of a connective. -/
def Operator.ofConnective : Code.Connective → Operator
  | .and => .and
  | .or => .or

/-- The operator of a chain. -/
def Operator.ofChain : Code.ChainOp → Operator
  | .add => .plus
  | .multiply => .times

theorem sign_ofComparison (op : Code.Comparison) :
    (Operator.ofComparison op).sign = comparisonSign op := by cases op <;> rfl

theorem sign_ofConnective (op : Code.Connective) :
    (Operator.ofConnective op).sign = connectiveSign op := by cases op <;> rfl

theorem sign_ofChain (op : Code.ChainOp) : (Operator.ofChain op).sign = chainSign op := by
  cases op <;> rfl

/-- What an operator on two operands makes of them. -/
def Tree.combine {α : Type} : Code.BinaryOp → Tree α → Tree α → Tree α
  | .subtract => .binary .minus
  | .divide => .divide
  | .power => .power
  | .compare op => .binary (.ofComparison op)
  | .logic op => .binary (.ofConnective op)

theorem comparisonOf?_eq (word : String) :
    comparisonOf? word = (Code.comparison? word).map Operator.ofComparison := by
  unfold comparisonOf? Code.comparison?
  simp only [lookup_cons, lookup_nil]
  repeat' split
  all_goals rfl

theorem connectiveOf?_eq (word : String) :
    connectiveOf? word = (Code.connective? word).map Operator.ofConnective := by
  unfold connectiveOf? Code.connective?
  simp only [lookup_cons, lookup_nil]
  repeat' split
  all_goals rfl

variable {b : Block} {x : Tree Phrase} {α β : Type} {visible : String → Prop} {e : Tree String}

theorem slotExpr_of_value? {c : Block} {owner slot : String} (h : b.value? slot = some c) :
    Code.slotExpr owner slot b.values = exprOf c := by
  unfold Block.value? at h
  rw [Code.slotExpr_eq, h, Code.heldExpr]

/-- A sum or a product is the chain of its items. -/
theorem exprOf_chain {o : Operator} {k : Nat} {c : Nat → Block} (ho : chaining? b = some o)
    (hk : itemCount b.mutation = k + 1)
    (hc : ∀ i ≤ k, b.value? ("NUM" ++ toString i) = some (c i)) :
    ∃ op, o = .ofChain op ∧
      exprOf b = .chain op ((List.range (k + 1)).map fun i => exprOf (c i)) := by
  have hslots : (Code.slotNames "NUM" (itemCount b.mutation)).map
      (fun slot => Code.slotExpr b.type slot b.values)
        = (List.range (k + 1)).map fun i => exprOf (c i) := by
    rw [Code.slotNames, hk, map_map]
    refine map_congr_left fun i hi => ?_
    exact slotExpr_of_value? (hc i (Nat.le_of_lt_succ (mem_range.1 hi)))
  have hcount : ¬ itemCount b.mutation < 0 := by omega
  unfold chaining? at ho
  split at ho
  · next hkind =>
    obtain ⟨kind⟩ := b
    obtain rfl : kind = .arithmetic := hkind
    rcases mem_cons.1 (Assoc.mem_of_lookup ho) with he | he
    · obtain ⟨rfl, rfl⟩ := Prod.mk.inj he
      exact ⟨.add, rfl, by simp only [exprOf]; simpa [hcount] using hslots⟩
    · obtain ⟨rfl, rfl⟩ := Prod.mk.inj (mem_singleton.1 he)
      exact ⟨.multiply, rfl, by simp only [exprOf]; simpa [hcount] using hslots⟩
  · cases ho

/-- A block of two operands is their combination. -/
theorem exprOf_pair {l r : Block} {f : Tree String → Tree String → Tree String}
    (hf : pairing? b = some f) (hl : b.value? "A" = some l) (hr : b.value? "B" = some r) :
    ∃ op, f = Tree.combine op ∧ exprOf b = .binary op (exprOf l) (exprOf r) := by
  have hleft : Code.slotExpr b.type "A" b.values = exprOf l := slotExpr_of_value? hl
  have hright : Code.slotExpr b.type "B" b.values = exprOf r := slotExpr_of_value? hr
  unfold pairing? at hf
  obtain ⟨kind⟩ := b
  cases kind with
  | arithmetic =>
    rcases mem_cons.1 (Assoc.mem_of_lookup hf) with he | he
    · obtain ⟨rfl, rfl⟩ := Prod.mk.inj he
      exact ⟨.subtract, rfl, by simp [exprOf, hleft, hright]⟩
    rcases mem_cons.1 he with he | he
    · obtain ⟨rfl, rfl⟩ := Prod.mk.inj he
      exact ⟨.divide, rfl, by simp [exprOf, hleft, hright]⟩
    · obtain ⟨rfl, rfl⟩ := Prod.mk.inj (mem_singleton.1 he)
      exact ⟨.power, rfl, by simp [exprOf, hleft, hright]⟩
  | compare =>
    rw [comparisonOf?_eq, Option.map_map] at hf
    obtain ⟨op, hop, rfl⟩ := Option.map_eq_some_iff.1 hf
    exact ⟨.compare op, rfl, by simp [exprOf, hop, hleft, hright]⟩
  | logic =>
    rw [connectiveOf?_eq, Option.map_map] at hf
    obtain ⟨op, hop, rfl⟩ := Option.map_eq_some_iff.1 hf
    exact ⟨.logic op, rfl, by simp [exprOf, hop, hleft, hright]⟩
  | _ => cases hf

/-! ### The text of a formula -/

/-- The text of two operands is an atom. -/
theorem Operand.binaryText {l r : String} {y : Tree Phrase} (op : Code.BinaryOp)
    (hl : Operand l x.phrase) (hr : Operand r y.phrase) :
    Atom (binaryText op l r) (Tree.combine op x y).phrase := by
  cases op with
  | subtract => exact hl.infixText .minus hr
  | divide => exact Operand.infixText .over (Or.inl hl.receiver.toDouble) hr
  | power =>
    have h := atom_pow hl.receiver.toDouble hr.receiver.toDouble
    simpa [Kotlin.binaryText, Tree.combine, Tree.phrase, String.append_assoc] using h
  | compare op =>
    rw [Kotlin.binaryText, ← sign_ofComparison]
    exact hl.infixText (.ofComparison op) hr
  | logic op =>
    rw [Kotlin.binaryText, ← sign_ofConnective]
    exact hl.infixText (.ofConnective op) hr

theorem Tree.map_combine (f : α → β) (op : Code.BinaryOp) (x y : Tree α) :
    (Tree.combine op x y).map f = Tree.combine op (x.map f) (y.map f) := by
  cases op <;> rfl

theorem chainText_succ (op : Code.ChainOp) (text : Nat → String) (k : Nat) :
    chainText op ((List.range (k + 2)).map text)
      = infixText (chainSign op) (chainText op ((List.range (k + 1)).map text)) (text (k + 1)) := by
  have hne : (List.range (k + 1)).map text ≠ [] := by simp
  rw [range_succ, map_append]
  generalize (List.range (k + 1)).map text = texts at hne
  cases texts with
  | nil => exact absurd rfl hne
  | cons first rest => simp [chainText]

/-- **A chain of operands is an operand that groups to the left.** -/
theorem operand_chain {op : Code.ChainOp} {text : Nat → String} {item : Nat → Tree Phrase} {k : Nat}
    (h : ∀ i ≤ k, Operand (text i) (item i).phrase) :
    Operand (chainText op ((List.range (k + 1)).map text))
      (Tree.chain (.ofChain op) item k).phrase := by
  induction k with
  | zero => exact h 0 (Nat.le_refl 0)
  | succ k ih =>
    have hinit := ih fun i hi => h i (Nat.le_succ_of_le hi)
    have hlast := h (k + 1) (Nat.le_refl _)
    rw [chainText_succ, ← sign_ofChain]
    exact Or.inl (hinit.infixText (.ofChain op) hlast)

theorem Tree.map_chain (f : α → β) (o : Operator) (item : Nat → Tree α) (k : Nat) :
    (Tree.chain o item k).map f = Tree.chain o (fun i => (item i).map f) k := by
  induction k with
  | zero => rfl
  | succ k ih => rw [Tree.chain, Tree.map, ih, Tree.chain]

theorem Tree.phrase_ofInt (f : String → Phrase) (n : Int) :
    ((Tree.ofInt n).map f).phrase = .ofInt n := by
  cases n <;> rfl

/-- **The text of a formula is an operand, and its phrase is the meaning.** -/
theorem Spells.operand (hact : isName t.activity) (h : Spells (Bound p scope) b e) :
    Operand (exprText (t.naming p) scope (exprOf b))
      (e.map (variablePhrase (t.naming p) scope)).phrase := by
  induction h with
  | @integer b n hk hn =>
    have htext : exprText (t.naming p) scope (exprOf b) = toString n := by
      obtain ⟨kind⟩ := b
      obtain rfl : kind = .number := hk
      simp [exprOf, exprText, numberLiteral?, hn]
    rw [htext, Tree.phrase_ofInt]
    exact operand_int n
  | @truth b hk =>
    have htext : exprText (t.naming p) scope (exprOf b)
        = if truthOf b.type b.fields then "true" else "false" := by
      obtain ⟨kind⟩ := b
      obtain rfl : kind = .boolean := hk
      simp only [exprOf, exprText]
    rw [htext]
    exact Or.inl (atom_truth _)
  | @var b hk hv =>
    obtain ⟨text, hbind⟩ := Option.isSome_iff_exists.1 (isSome_binding? (t := t).2 hv)
    have htext : exprText (t.naming p) scope (exprOf b) = text := by
      obtain ⟨kind⟩ := b
      obtain rfl : kind = .variableGet := hk
      simp [exprOf, exprText, hbind]
    rw [htext]
    exact Or.inl (atom_binding? hact hbind)
  | @chain b o k c e ho hk hc _ ih =>
    obtain ⟨op, rfl, hexpr⟩ := exprOf_chain ho hk hc
    rw [hexpr, exprText, exprTexts_eq_map, map_map, Tree.map_chain]
    exact operand_chain ih
  | @pair b l r f x y hf hl hr _ _ ihx ihy =>
    obtain ⟨op, rfl, hexpr⟩ := exprOf_pair hf hl hr
    rw [hexpr, exprText, Tree.map_combine]
    exact Or.inl (ihx.binaryText op ihy)
  | @signed b c s slot x hs hc _ ih =>
    have htext : exprText (t.naming p) scope (exprOf b)
        = signText s.char (exprText (t.naming p) scope (exprOf c)) := by
      have hslot : Code.slotExpr b.type slot b.values = exprOf c := slotExpr_of_value? hc
      obtain ⟨kind⟩ := b
      cases kind with
      | negate | not => cases hs; simp [exprOf, hslot, exprText, Sign.char]
      | _ => cases hs
    rw [htext]
    exact Or.inl (ih.signText s)
  | @choose b t' y n u v w hk ht hy hn _ _ _ ihu ihv ihw =>
    have htest : Code.slotExpr b.type "TEST" b.values = exprOf t' := slotExpr_of_value? ht
    have hyes : Code.slotExpr b.type "THENRETURN" b.values = exprOf y := slotExpr_of_value? hy
    have hno : Code.slotExpr b.type "ELSERETURN" b.values = exprOf n := slotExpr_of_value? hn
    have hexpr : exprOf b = .choose (exprOf t') (exprOf y) (exprOf n) := by
      obtain ⟨kind⟩ := b
      obtain rfl : kind = .choose := hk
      simp [exprOf, htest, hyes, hno]
    rw [hexpr, exprText]
    exact Or.inl (atom_choose ihu ihv ihw)

/-! ### Formulas with one text -/

/-- Phrases that variables are written as. -/
def Phrase.IsVariable : Phrase → Prop
  | .name _ => True
  | .member (.self _) _ => True
  | _ => False

theorem isVariable_variablePhrase (env : Env) (scope : Scope) (name : String) :
    (variablePhrase env scope name).IsVariable := by
  unfold variablePhrase memberPhrase
  split
  · split <;> trivial
  · trivial

/-- No tree is read as a conversion to floating point. -/
theorem Tree.phrase_ne_double (hx : x.All Phrase.IsVariable) (a : Phrase) :
    x.phrase ≠ a.double := by
  intro h
  cases x with
  | var b =>
    have hb : b = a.double := h
    rw [hb] at hx
    exact hx
  | power l r => simp [Tree.phrase, Phrase.double] at h
  | _ => cases h

/-- A phrase that is a variable is only that. -/
theorem Tree.eq_var_of_phrase {a : Phrase} (ha : a.IsVariable) (h : x.phrase = a) : x = .var a := by
  cases x with
  | var b => exact congrArg Tree.var h
  | _ => subst h; exact ha.elim

theorem Phrase.double_inj {a b : Phrase} (h : a.double = b.double) : a = b :=
  (Phrase.member.inj (Phrase.call.inj h).1).1

/-- **A phrase is the phrase of one tree.** -/
theorem Tree.eq_of_phrase_eq {y : Tree Phrase} (hx : x.All Phrase.IsVariable)
    (hy : y.All Phrase.IsVariable) (h : x.phrase = y.phrase) : x = y := by
  induction x generalizing y with
  | var a => exact (Tree.eq_var_of_phrase hx h.symm).symm
  | number n | truth b =>
    cases y with
    | var a => exact Tree.eq_var_of_phrase hy h
    | _ => cases h <;> rfl
  | signed s x ih =>
    cases y with
    | signed s' y =>
      obtain ⟨rfl, hxy⟩ := Phrase.signed.inj h
      rw [ih hx (y := y) hy hxy]
    | var a => exact Tree.eq_var_of_phrase hy h
    | _ => cases h
  | binary o l r ihl ihr =>
    cases y with
    | binary o' l' r' =>
      obtain ⟨rfl, hl, hr⟩ := Phrase.binary.inj h
      rw [ihl hx.1 hy.1 hl, ihr hx.2 hy.2 hr]
    -- only a division has a conversion on the left
    | divide l' r' => exact absurd (Phrase.binary.inj h).2.1 (Tree.phrase_ne_double hx.1 _)
    | var a => exact Tree.eq_var_of_phrase hy h
    | _ => cases h
  | divide l r ihl ihr =>
    cases y with
    | divide l' r' =>
      obtain ⟨-, hl, hr⟩ := Phrase.binary.inj h
      rw [ihl hx.1 hy.1 (Phrase.double_inj hl), ihr hx.2 hy.2 hr]
    | binary o' l' r' =>
      exact absurd (Phrase.binary.inj h).2.1.symm (Tree.phrase_ne_double hy.1 _)
    | var a => exact Tree.eq_var_of_phrase hy h
    | _ => cases h
  | power l r ihl ihr =>
    cases y with
    | power l' r' =>
      obtain ⟨hl, hrest⟩ := List.cons.inj (Phrase.call.inj h).2
      rw [ihl hx.1 hy.1 (Phrase.double_inj hl),
        ihr hx.2 hy.2 (Phrase.double_inj (List.cons.inj hrest).1)]
    | var a => exact Tree.eq_var_of_phrase hy h
    | _ => cases h
  | choose t u v iht ihu ihv =>
    cases y with
    | choose t' u' v' =>
      obtain ⟨ht, hu, hv⟩ := Phrase.choose.inj h
      rw [iht hx.1 hy.1 ht, ihu hx.2.1 hy.2.1 hu, ihv hx.2.2 hy.2.2 hv]
    | var a => exact Tree.eq_var_of_phrase hy h
    | _ => cases h

theorem Tree.all_map {f : α → β} {P : β → Prop} {x : Tree α} :
    (x.map f).All P ↔ x.All fun a => P (f a) := by
  induction x <;> simp_all [Tree.map, Tree.All]

theorem Tree.all_of_forall {P : α → Prop} (h : ∀ a, P a) (x : Tree α) : x.All P := by
  induction x <;> simp_all [Tree.All]

/-- Renaming that keeps variables apart keeps trees apart. -/
theorem Tree.eq_of_map_eq [Inhabited α] {f : α → β} {P : α → Prop}
    (hf : ∀ a b, P a → P b → f a = f b → a = b) {x y : Tree α} (hx : x.All P) (hy : y.All P)
    (h : x.map f = y.map f) : x = y := by
  classical
  -- the renaming can be undone
  let undo : β → α := fun b => if hb : ∃ a, P a ∧ f a = b then hb.choose else default
  have hundo : ∀ a, P a → undo (f a) = a := by
    intro a ha
    have hex : ∃ c, P c ∧ f c = f a := ⟨a, ha, rfl⟩
    rw [show undo (f a) = hex.choose from dif_pos hex]
    exact hf _ _ hex.choose_spec.1 ha hex.choose_spec.2
  have hback : ∀ {x : Tree α}, x.All P → (x.map f).map undo = x := by
    intro x hx
    induction x <;> simp_all [Tree.map, Tree.All]
  rw [← hback hx, h, hback hy]

theorem Tree.all_chain {P : α → Prop} {o : Operator} {item : Nat → Tree α} {k : Nat}
    (h : ∀ i ≤ k, (item i).All P) : (Tree.chain o item k).All P := by
  induction k with
  | zero => exact h 0 (Nat.le_refl 0)
  | succ k ih => exact ⟨ih fun i hi => h i (Nat.le_succ_of_le hi), h (k + 1) (Nat.le_refl _)⟩

/-- A formula has only visible variables. -/
theorem Spells.all (h : Spells visible b e) : e.All visible := by
  induction h with
  | @integer b n _ _ => cases n <;> trivial
  | truth => trivial
  | var _ hv => exact hv
  | chain _ _ _ _ ih => exact Tree.all_chain ih
  | pair hf hl hr _ _ ihx ihy =>
    obtain ⟨op, rfl, -⟩ := exprOf_pair hf hl hr
    cases op <;> exact ⟨ihx, ihy⟩
  | signed _ _ _ ih => exact ih
  | choose _ _ _ _ _ _ _ ihu ihv ihw => exact ⟨ihu, ihv, ihw⟩

/-- **Formulas with one text have the same operators on the same operands, up to names of
variables that are written the same way.** -/
theorem Spells.map_eq_of_exprText_eq (hact : isName t.activity) {b' : Block} {e' : Tree String}
    (h : Spells (Bound p scope) b e) (h' : Spells (Bound p scope) b' e')
    (htext : exprText (t.naming p) scope (exprOf b) = exprText (t.naming p) scope (exprOf b')) :
    e.map (variablePhrase (t.naming p) scope) = e'.map (variablePhrase (t.naming p) scope) := by
  have hvars : ∀ x : Tree String,
      (x.map (variablePhrase (t.naming p) scope)).All Phrase.IsVariable := fun x =>
    Tree.all_map.2 ((Tree.all_of_forall fun a => isVariable_variablePhrase _ _ a) x)
  refine Tree.eq_of_phrase_eq (hvars e) (hvars e') ?_
  exact ((h'.operand hact).reads_iff _).1 (htext ▸ ((h.operand hact).reads_iff _).2 rfl)

/-- Whether formulas in a scope are told apart by their texts. -/
def TellsApart (t : Target) (p : Code.Program) (scope : Scope) : Prop :=
  ∀ b b' e e', Spells (Bound p scope) b e → Spells (Bound p scope) b' e' →
    exprText (t.naming p) scope (exprOf b) = exprText (t.naming p) scope (exprOf b') → e = e'

/-- Whether the local variables of a scope have identifiers of their own. -/
def KeepsApart (scope : Scope) : Prop :=
  ∀ m ∈ scope, ∀ n ∈ scope, globalName? m = none → globalName? n = none → Alike m n → m = n

/-- The block of a difference. -/
def differenceBlock (left right : Block) : Block :=
  { kind := .arithmetic, type := "math_subtract", values := [("A", some left), ("B", some right)] }

theorem spells_ofVariable (name : String) (h : visible name) :
    Spells visible (Block.ofVariable name) (.var name) :=
  .var rfl h

theorem spells_differenceBlock {l r : Block} {x y : Tree String} (hx : Spells visible l x)
    (hy : Spells visible r y) : Spells visible (differenceBlock l r) (.binary .minus x y) :=
  .pair rfl rfl rfl hx hy

/-- **A difference of local variables that are alike is written like the difference the other way
round.** -/
theorem exprText_differenceBlock_comm {env : Env} {m n : String} (hm : m ∈ scope) (hn : n ∈ scope)
    (hgm : globalName? m = none) (hgn : globalName? n = none) (h : Alike m n) :
    exprText env scope (exprOf (differenceBlock (.ofVariable m) (.ofVariable n)))
      = exprText env scope (exprOf (differenceBlock (.ofVariable n) (.ofVariable m))) := by
  have htext : ∀ {x}, x ∈ scope → globalName? x = none →
      exprText env scope (exprOf (.ofVariable x)) = identifier x := by
    intro x hx hgx
    simp [Block.ofVariable, exprOf, exprText, fieldOr, Env.binding?, hgx, hx]
  have hdifference : ∀ l r, exprText env scope (exprOf (differenceBlock l r))
      = infixText "-" (exprText env scope (exprOf l)) (exprText env scope (exprOf r)) := by
    intro l r
    simp [differenceBlock, exprOf, Code.slotExpr, Code.heldExpr, exprText, binaryText]
  rw [hdifference, hdifference, htext hm hgm, htext hn hgn, identifier_eq_iff.2 h]

/-- **The texts of formulas in a scope tell them apart exactly if the local variables have
identifiers of their own.** -/
theorem tellsApart_iff (hact : isName t.activity) : TellsApart t p scope ↔ KeepsApart scope := by
  constructor
  · intro h m hm n hn hgm hgn halike
    have hbm : Bound p scope m := by simpa [Bound, hgm] using hm
    have hbn : Bound p scope n := by simpa [Bound, hgn] using hn
    have hsm := spells_ofVariable m hbm
    have hsn := spells_ofVariable n hbn
    have heq := h _ _ _ _ (spells_differenceBlock hsm hsn) (spells_differenceBlock hsn hsm)
      (exprText_differenceBlock_comm hm hn hgm hgn halike)
    exact Tree.var.inj (Tree.binary.inj heq).2.1
  · intro h b b' e e' hb hb' htext
    refine Tree.eq_of_map_eq ?_ hb.all hb'.all (hb.map_eq_of_exprText_eq hact hb' htext)
    intro m n hm hn heq
    rcases eq_or_alike_of_variablePhrase hm hn heq with rfl | ⟨hgm, hgn, halike⟩
    · rfl
    · have hms : m ∈ scope := by simpa [Bound, hgm] using hm
      have hns : n ∈ scope := by simpa [Bound, hgn] using hn
      exact h m hms n hns hgm hgn halike

/-- **Formulas are read as what they mean.**  The grammar has one reading for the text of a formula,
and it is the phrase of its meaning.  Formulas with one text have the same operators on the same
operands in the same order, but for variables that are written alike; they are the same formula in
exactly those scopes whose local variables have identifiers of their own. -/
theorem formula_reads_as_meaning (t : Target) (p : Code.Program) (scope : Scope)
    (hact : isName t.activity = true) :
    (∀ b e, Spells (Bound p scope) b e → ∀ a,
      Reads (exprText (t.naming p) scope (exprOf b)) a ↔
        a = (e.map (variablePhrase (t.naming p) scope)).phrase) ∧
    (∀ b b' e e', Spells (Bound p scope) b e → Spells (Bound p scope) b' e' →
      exprText (t.naming p) scope (exprOf b) = exprText (t.naming p) scope (exprOf b') →
        e.map (variablePhrase (t.naming p) scope) = e'.map (variablePhrase (t.naming p) scope)) ∧
    (TellsApart t p scope ↔ KeepsApart scope) := by
  refine ⟨fun b e h a => (h.operand hact).reads_iff a, ?_, tellsApart_iff hact⟩
  exact fun b b' e e' h h' htext => h.map_eq_of_exprText_eq hact h' htext

/-- A global variable under a local one of the same name is told from it. -/
theorem hidden_global_reads_as_member :
    isName "MainActivity" = true ∧ ∀ a,
      Reads (exprText (Target.naming { package := "app" } ⟨[], [⟨"x", none⟩], []⟩) ["x"]
        (exprOf (differenceBlock (Block.ofVariable "global x") (Block.ofVariable "x")))) a ↔
      a = .binary .minus (.member (.self "MainActivity") "x") (.name "x") := by
  have hact : isName "MainActivity" := by decide
  have hword : (Target.naming { package := "app" } ⟨[], [⟨"x", none⟩], []⟩).globals.lookup "x"
      = some "x" := by decide
  have hglobal : globalName? "global x" = some "x" := by decide
  have hlocal : globalName? "x" = none := by decide
  have hid : identifier "x" = "x" := by decide
  have h := (formula_reads_as_meaning { package := "app" } ⟨[], [⟨"x", none⟩], []⟩ ["x"] hact).1 _ _
    (spells_differenceBlock (spells_ofVariable "global x" (by decide))
      (spells_ofVariable "x" (by decide)))
  simp only [Tree.map, Tree.phrase, variablePhrase_of_global hglobal hword,
    variablePhrase_of_local hlocal, hid] at h
  exact ⟨hact, h⟩

/-- Two local variables that differ in the case of a letter, and two formulas with one text. -/
theorem not_tellsApart_letter_case : ¬ TellsApart { package := "app" } ⟨[], [], []⟩ ["A", "a"] := by
  rw [tellsApart_iff (by decide)]
  intro h
  have heq : "A" = "a" :=
    h "A" (by decide) "a" (by decide) (by decide) (by decide) (by decide)
  exact absurd heq (by decide)

end Kotlin
end ScreenForge
