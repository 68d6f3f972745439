/-
# What the first values of local variables see

A declaration of local variables gives all of them their first values in the scope around it.  It is
written one line a variable, and a later line sees the variables of the lines before, so a value may
denote a sibling where it means something around.

A `Reference` is what an expression refers to, a local variable or a member of the activity.  It is
bare unless it is qualified, and a bare word denotes the innermost declaration of it.  `Captures`
says of the names when a sibling captures it.
-/
import ScreenForge.Proofs.Scope.Capture

namespace ScreenForge

open List

namespace Kotlin

open Code (Expr)

/-- What an expression refers to by name. -/
inductive Reference where
  /-- A local variable. -/
  | own (name : String)
  /-- A member of the activity. -/
  | member (word : String)
  deriving DecidableEq, Repr

namespace Reference

/-- How a reference is written. -/
def text (env : Env) (scope : Scope) : Reference → String
  | .own name => identifier name
  | .member word => env.member scope word

/-- The word of a reference that is not qualified. -/
def bare? (scope : Scope) : Reference → Option String
  | .own name => some (identifier name)
  | .member word => if word ∈ scope.map identifier then none else some word

/-- The name of what is referred to, without a qualifier. -/
def word : Reference → String
  | .own name => identifier name
  | .member word => word

/-- **A reference is written as its bare word, or qualified by the activity.** -/
theorem text_eq (env : Env) (scope : Scope) (r : Reference) :
    r.text env scope = (r.bare? scope).getD ("this@" ++ env.activity ++ "." ++ r.word) := by
  cases r with
  | own name => rw [text, bare?, Option.getD_some]
  | member word =>
    rw [text, bare?, Env.member]
    by_cases hw : word ∈ scope.map identifier
    · rw [if_pos (contains_iff_mem.2 hw), if_pos hw, Option.getD_none, Reference.word]
    · rw [if_neg (by simpa using hw), if_neg hw, Option.getD_some]

end Reference

/-- The reference to a component. -/
def Env.componentReference? (env : Env) (name : String) : Option Reference :=
  (env.components.lookup name).map fun _ => .member ((env.fields.lookup name).getD "")

/-- What an expression refers to itself. -/
def Env.reference? (env : Env) (scope : Scope) : Expr → Option Reference
  | .variable name =>
    match globalName? name with
    | some x => (env.globals.lookup x).map .member
    | none => if name ∈ scope then some (.own name) else none
  | .property name _ => env.componentReference? name
  | .method name _ _ => env.componentReference? name
  | .component name => env.componentReference? name
  | .procedure name _ => (env.procedures.lookup name).map .member
  | _ => none

theorem component?_of_reference {env : Env} (scope : Scope) {name : String} {r : Reference}
    (h : env.componentReference? name = some r) :
    ∃ ref, env.component? scope name = some (r.text env scope, ref) := by
  obtain ⟨ref, href, rfl⟩ := Option.map_eq_some_iff.1 h
  exact ⟨ref, by rw [Env.component?, href]; rfl⟩

/-- **The text of an expression starts with what it refers to.** -/
theorem exprText_of_reference {env : Env} {scope : Scope} {e : Expr} {r : Reference}
    (h : env.reference? scope e = some r) :
    ∃ rest, exprText env scope e = r.text env scope ++ rest := by
  cases e with
  | «variable» name =>
    simp only [Env.reference?] at h
    refine ⟨"", ?_⟩
    rw [exprText, Env.binding?, String.append_empty]
    cases hg : globalName? name with
    | some x =>
      rw [hg] at h
      obtain ⟨word, hword, rfl⟩ := Option.map_eq_some_iff.1 h
      simp [hword, Reference.text]
    | none =>
      rw [hg] at h
      by_cases hs : name ∈ scope
      · simp only [if_pos hs, Option.some.injEq] at h
        subst h
        simp [hs, Reference.text]
      · simp [hs] at h
  | property name prop =>
    obtain ⟨ref, href⟩ := component?_of_reference scope h
    exact ⟨_, by rw [exprText, href]; exact String.append_assoc ..⟩
  | method name called args =>
    obtain ⟨ref, href⟩ := component?_of_reference scope h
    exact ⟨_, by rw [exprText, href]; simp only [String.append_assoc]; rfl⟩
  | component name =>
    obtain ⟨ref, href⟩ := component?_of_reference scope h
    exact ⟨"", by rw [exprText, href, String.append_empty]⟩
  | procedure name args =>
    obtain ⟨word, hword, rfl⟩ := Option.map_eq_some_iff.1 h
    refine ⟨"(" ++ Text.join ", " (exprTexts env scope args) ++ ")", ?_⟩
    simp only [exprText, Env.procedure?, hword, Option.map_some, String.append_assoc]
    rfl
  | _ => cases h

/-- **When the declaration of a name takes a reference for itself.**  A local variable is taken by a
name that is alike, a member by a name with its word as identifier that no variable around has. -/
def Captures (scope : Scope) (name : String) : Reference → Prop
  | .own m => Alike m name
  | .member word => word = identifier name ∧ ∀ m ∈ scope, ¬ Alike m name

/-- A name captures a reference that is bare and has its identifier. -/
theorem captures_iff {scope : Scope} {name : String} {r : Reference} :
    Captures scope name r ↔ r.bare? scope = some (identifier name) := by
  cases r with
  | own m => rw [Captures, Reference.bare?, Option.some.injEq, identifier_eq_iff]
  | member word =>
    have hhidden : identifier name ∈ scope.map identifier ↔ ∃ m ∈ scope, Alike m name := by
      simp only [mem_map, identifier_eq_iff]
    rw [Captures, Reference.bare?]
    constructor
    · rintro ⟨hword, hscope⟩
      have hw : identifier name ∉ scope.map identifier := by
        rw [hhidden]
        exact fun ⟨m, hm, halike⟩ => hscope m hm halike
      rw [hword, if_neg hw]
    · intro h
      split at h
      · cases h
      · next hw =>
        have hword : word = identifier name := Option.some.inj h
        rw [hword, hhidden] at hw
        exact ⟨hword, fun m hm halike => hw ⟨m, hm, halike⟩⟩

end Kotlin

namespace Site

open Code (exprOf localNames)
open Kotlin (Captures Reference Scope Target identifier)
open Text (Within)

variable {p : Block.Program} {t : Target} {j : Nat} {d : Site}

/-- A declaration that a first value can see: around all of them, or one of its siblings. -/
inductive Declaration where
  | around (i : Nat)
  | sibling (i : Nat)
  deriving DecidableEq, Repr

/-- The declarations around, innermost first. -/
def aroundDeclarations (scope : Scope) : List (String × Declaration) :=
  scope.zipIdx.map fun d => (identifier d.1, .around d.2)

/-- The declarations of the siblings before the first value `j`, innermost first. -/
def siblingDeclarations (names : List String) (j : Nat) : List (String × Declaration) :=
  ((names.take j).zipIdx.map fun d => (identifier d.1, Declaration.sibling d.2)).reverse

/-- What a reference denotes among declarations; a qualified one and one that is declared nowhere
denote members. -/
def denotes (declarations : List (String × Declaration)) (scope : Scope) (r : Reference) :
    Option Declaration :=
  (r.bare? scope).bind fun word => declarations.lookup word

theorem lookup_siblings_eq_none_iff {names : List String} {word : String} :
    (siblingDeclarations names j).lookup word = none ↔
      ∀ n ∈ names.take j, word ≠ identifier n := by
  have hfst := zipIdx_map_fst 0 (names.take j)
  simp only [siblingDeclarations, lookup_eq_none_iff, mem_reverse, bne_iff_ne]
  conv_rhs => rw [← hfst, forall_mem_map]
  exact forall_mem_map

/-- **A reference denotes the same behind its siblings exactly if none of them captures it.** -/
theorem denotes_eq_iff {names : List String} {scope : Scope} {r : Reference} :
    denotes (siblingDeclarations names j ++ aroundDeclarations scope) scope r
        = denotes (aroundDeclarations scope) scope r ↔
      ∀ n ∈ names.take j, ¬ Captures scope n r := by
  simp only [Kotlin.captures_iff, denotes]
  cases hbare : r.bare? scope with
  | none => simp
  | some word =>
    rw [Option.bind_some, Option.bind_some, lookup_append]
    have hword : (∀ n ∈ names.take j, some word ≠ some (identifier n)) ↔
        (siblingDeclarations names j).lookup word = none := by
      rw [lookup_siblings_eq_none_iff]
      simp only [ne_eq, Option.some.injEq]
    refine Iff.trans ?_ hword.symm
    cases hsibling : (siblingDeclarations names j).lookup word with
    | none => simp
    | some d =>
      -- a sibling is none of the declarations around
      have hd : ∃ i, d = .sibling i := by
        have hmem := mem_reverse.1 (Assoc.mem_of_lookup hsibling)
        obtain ⟨e, -, he⟩ := mem_map.1 hmem
        exact ⟨e.2, (Prod.mk.inj he).2.symm⟩
      obtain ⟨i, rfl⟩ := hd
      have haround : (aroundDeclarations scope).lookup word ≠ some (.sibling i) := by
        intro h
        obtain ⟨e, -, he⟩ := mem_map.1 (Assoc.mem_of_lookup h)
        cases (Prod.mk.inj he).2
      simpa using haround.symm

/-! ### Declarations of local variables -/

/-- The slot of a first value. -/
def initialSlot (j : Nat) : Block.Part := .slot ("DECL" ++ toString j)

/-- The sites in a first value of a declaration. -/
def initialSites (s : Site) (j : Nat) : List Site :=
  (s.block.inPart (initialSlot j)).flatMap
    (sitesIn s.root (⟨s.block, initialSlot j⟩ :: s.levels) .value)

/-- The names that a declaration gives. -/
def localsOf (s : Site) : List String := localNames s.block.fields s.block.args

/-- The text of a first value of a declaration. -/
def initialText (t : Target) (p : Block.Program) (s : Site) (j : Nat) : String :=
  Kotlin.exprText (t.naming (.ofBlocks p)) (s.scope t)
    (Code.slotExpr s.block.type ("DECL" ++ toString j) s.block.values)

/-- What a site refers to itself. -/
def reference? (t : Target) (p : Block.Program) (s : Site) : Option Reference :=
  (t.naming (.ofBlocks p)).reference? (s.scope t) (exprOf s.block)

/-- The first values of variables see what is around their declaration. -/
theorem scope_of_mem_initialSites {s : Site} (h : s ∈ d.initialSites j) :
    s.scope t = d.scope t ∧ s.role = .value := by
  obtain ⟨c, -, h⟩ := mem_flatMap.1 h
  obtain ⟨hscope, hrole⟩ := scope_of_mem_sitesIn_value (t := t) h
  rw [scopeIn_cons] at hscope
  exact ⟨hscope, hrole⟩

/-- **What a site in a first value refers to stands in the text of the value.** -/
theorem within_initialText {s : Site} {r : Reference} (h : s ∈ d.initialSites j) (hs : s.Kept t p)
    (hr : s.reference? t p = some r) :
    Within (r.text (t.naming (.ofBlocks p)) (d.scope t)) (d.initialText t p j) := by
  obtain ⟨hscope, hrole⟩ := scope_of_mem_initialSites (t := t) h
  obtain ⟨rest, hrest⟩ := Kotlin.exprText_of_reference hr
  rw [hscope] at hrest
  have hline : Kotlin.exprText (t.naming (.ofBlocks p)) (d.scope t) (exprOf s.block)
      ∈ s.lines t p := by
    rw [lines, hscope, hrole]
    exact mem_singleton.2 rfl
  obtain ⟨c, hc, h⟩ := mem_flatMap.1 h
  obtain ⟨text, htext, hwithin⟩ := shows_sitesIn h hs _ hline
  rw [mem_singleton.1 htext, scopeIn_cons, hrest] at hwithin
  have hvalue : (d.block.values.lookup ("DECL" ++ toString j)).join = some c :=
    Option.mem_toList.1 hc
  rw [initialText, Code.slotExpr_eq, hvalue]
  exact ((Within.refl _).inLeft rest).trans hwithin

/-- **A declaration of local variables is written one line a variable.** -/
theorem lines_of_locals (h : d.block.kind = .localDeclaration) (hrole : d.role = .act) :
    d.lines t p = Kotlin.bracedLines "run"
      ((d.localsOf.zipIdx.map fun v => "var " ++ identifier v.1 ++ " = " ++ d.initialText t p v.2)
        ++ Kotlin.stmtsLines (t.naming (.ofBlocks p)) (d.localsOf.reverse ++ d.scope t)
          (Code.bodyIn "STACK" d.block.statements)) := by
  unfold lines initialText localsOf
  generalize d.scope t = scope
  obtain ⟨root, levels, role, ⟨kind, type, id, fields, mutation, args, values⟩⟩ := d
  obtain rfl : kind = .localDeclaration := h
  obtain rfl : role = .act := hrole
  have hnames : (localNames fields args).zipIdx.map
      (Prod.fst ∘ fun v => (v.1, Code.slotExpr type s!"DECL{v.2}" values))
        = localNames fields args :=
    zipIdx_map_fst 0 (localNames fields args)
  simp only [linesIn, Code.stmtOf, Kotlin.stmtLines, Kotlin.localLines, Kotlin.localScope,
    map_map, hnames]
  rfl

/-- Whether a property holds of every reference that is written in a first value of a declaration,
with the number of the value. -/
def AllReferences (t : Target) (p : Block.Program) (d : Site) (P : Nat → Reference → Prop) : Prop :=
  ∀ j < d.localsOf.length, ∀ s ∈ d.initialSites j, s.Kept t p → ∀ r ∈ s.reference? t p, P j r

theorem allReferences_congr {P Q : Nat → Reference → Prop} (h : ∀ j r, P j r ↔ Q j r) :
    AllReferences t p d P ↔ AllReferences t p d Q := by
  unfold AllReferences
  simp only [h]

/-- Whether the first values of a declaration see what is around it and not each other: what is
referred to in one is the same behind the siblings before it as around them. -/
def SeesAround (t : Target) (p : Block.Program) (d : Site) : Prop :=
  AllReferences t p d fun j r =>
    denotes (siblingDeclarations d.localsOf j ++ aroundDeclarations (d.scope t)) (d.scope t) r
      = denotes (aroundDeclarations (d.scope t)) (d.scope t) r

/-- **First values see what is around exactly if no sibling before them captures a reference.**  A
declaration is written one line a variable, and what its first values refer to stands in these
lines, bare or qualified by the activity.  They see what is around exactly if no reference is the
bare identifier of a sibling before it, that is, if no sibling has a name that is alike to a local
variable referred to, or the word of a member that nothing around hides. -/
theorem initial_values_see_around_iff (t : Target) (p : Block.Program) (d : Site)
    (hkind : d.block.kind = .localDeclaration) (hrole : d.role = .act) :
    d.lines t p = Kotlin.bracedLines "run"
      ((d.localsOf.zipIdx.map fun v => "var " ++ identifier v.1 ++ " = " ++ d.initialText t p v.2)
        ++ Kotlin.stmtsLines (t.naming (.ofBlocks p)) (d.localsOf.reverse ++ d.scope t)
          (Code.bodyIn "STACK" d.block.statements)) ∧
    (AllReferences t p d fun j r =>
      Within ((r.bare? (d.scope t)).getD ("this@" ++ t.activity ++ "." ++ r.word))
        (d.initialText t p j)) ∧
    (SeesAround t p d ↔ AllReferences t p d fun j r =>
      ∀ n ∈ d.localsOf.take j, r.bare? (d.scope t) ≠ some (identifier n)) ∧
    (SeesAround t p d ↔ AllReferences t p d fun j r =>
      ∀ n ∈ d.localsOf.take j, ¬ Captures (d.scope t) n r) := by
  refine ⟨lines_of_locals hkind hrole, ?_, ?_, allReferences_congr fun j r => denotes_eq_iff⟩
  · intro j _ s hs hkept r hr
    have h := within_initialText hs hkept hr
    rwa [Reference.text_eq] at h
  · refine allReferences_congr fun j r => ?_
    rw [denotes_eq_iff]
    simp only [Kotlin.captures_iff, ne_eq]

/-- A declaration of `x` and `y`, where `y` is first the value of a block. -/
def twoLocals (value : Block) : Block :=
  { kind := .localDeclaration, type := "local_declaration_statement", args := ["x", "y"],
    values := [("DECL0", some { kind := .number, type := "math_number", fields := [("NUM", "1")] }),
      ("DECL1", some value)] }

/-- A program with a global variable `x` and a procedure of one block. -/
def besideGlobal (b : Block) : Block.Program :=
  ⟨[], [⟨"x", none⟩], [{ name := "f", body := [b] }]⟩

/-- A sibling takes a global variable of its name for itself. -/
theorem sibling_captures_global :
    ∃ d ∈ (besideGlobal (twoLocals (.ofVariable "global x"))).sites,
      d.block.kind = .localDeclaration ∧ d.role = .act ∧
        ¬ SeesAround { package := "app" } (besideGlobal (twoLocals (.ofVariable "global x"))) d := by
  let b := twoLocals (.ofVariable "global x")
  let q : Block.Procedure := { name := "f", body := [b] }
  let d : Site := ⟨.procedure q, [], .act, b⟩
  have hd : d ∈ (besideGlobal b).sites := by
    have hroot : Root.procedure q ∈ roots (besideGlobal b) :=
      mem_cons_of_mem _ (mem_singleton.2 rfl)
    refine mem_flatMap.2 ⟨_, hroot, mem_append_left _ ?_⟩
    exact mem_flatMap.2 ⟨_, mem_singleton.2 rfl, mem_sitesIn.2 (.inl rfl)⟩
  have hsite : (⟨.procedure q, [⟨d.block, initialSlot 1⟩], .value, .ofVariable "global x"⟩ : Site)
      ∈ d.initialSites 1 :=
    mem_flatMap.2 ⟨_, mem_singleton.2 rfl, mem_sitesIn.2 (.inl rfl)⟩
  refine ⟨d, hd, rfl, rfl, fun h => ?_⟩
  have hfree := (initial_values_see_around_iff _ _ d rfl rfl).2.2.2.1 h
  refine hfree 1 (by decide) _ hsite ?_ (.member "x") (by decide) "x" (by decide) ⟨by decide, ?_⟩
  · intro l hl
    rw [mem_singleton.1 hl]
    exact id
  · exact fun m hm => absurd hm not_mem_nil

end Site
end ScreenForge
