/-
# Hidden members are qualified

A member of the activity is hidden where a parameter, the variable of a loop or a local variable
around has its identifier.  Such a reference is written `this@Activity.member`, and every other one
as the member alone.

The names around a site hang together in a chain: those that the innermost block shows, and so on to
the parameters of the event or the procedure.  A name that is declared again further in is found
further in only; but its identifier depends on the name alone.
-/
import ScreenForge.Proofs.Scope.Field

namespace ScreenForge
namespace Site

open List
open Block (Part)
open Code (Mention localNames stmtOf)
open Kotlin (Env Opens Scope Target identifier isName stmtLines)
open Text (Shows Within)

variable {t : Target} {s : Site} {word : String} (env : Env) (scope : Scope)

/-! ### What is given around a site -/

/-- **Whether a construct around a site was given an identifier**: it is that of a parameter, or of
a name that is new in a body around the site. -/
def Given (t : Target) (s : Site) (word : String) : Prop :=
  (∃ name ∈ s.root.names t, identifier name = word) ∨
    ∃ l ∈ s.levels, ∃ name ∈ l.owner.newNames l.part, identifier name = word

/-- The identifiers in scope are those that were given. -/
theorem mem_map_scope_iff : word ∈ (s.scope t).map identifier ↔ s.Given t word := by
  simp only [mem_map, mem_scope_iff, Given]
  constructor
  · rintro ⟨name, hname | ⟨l, hl, hname⟩, rfl⟩
    · exact .inl ⟨name, hname, rfl⟩
    · exact .inr ⟨l, hl, name, hname, rfl⟩
  · rintro (⟨name, hname, rfl⟩ | ⟨l, hl, name, hname, rfl⟩)
    · exact ⟨name, .inl hname, rfl⟩
    · exact ⟨name, .inr ⟨l, hl, hname⟩, rfl⟩

instance (t : Target) (s : Site) (word : String) : Decidable (s.Given t word) :=
  decidable_of_iff _ mem_map_scope_iff

/-- Names with the identifiers that they are given. -/
def givenMap (names : List String) : List (String × String) :=
  names.map fun name => (name, identifier name)

/-- The chain of maps around a site, innermost first. -/
def chain (t : Target) (s : Site) : List (List (String × String)) :=
  (s.levels.map fun l => givenMap (l.owner.newNames l.part)) ++ [givenMap (s.root.names t)]

theorem flatten_chain (t : Target) (s : Site) : (s.chain t).flatten = givenMap (s.scope t) := by
  rw [chain, flatten_append, flatten_singleton, ← flatMap_def]
  simp only [scope, scopeIn, givenMap, map_append, map_flatMap]

/-- What is found for a name is its identifier, whichever map it is found in. -/
theorem lookup_givenMap (names : List String) (name : String) :
    (givenMap names).lookup name = if name ∈ names then some (identifier name) else none := by
  induction names with
  | nil => rfl
  | cons n rest ih =>
    rw [givenMap, map_cons, lookup_cons, ← givenMap, ih]
    by_cases h : name = n
    · simp [h]
    · simp [h, beq_eq_false_iff_ne.2 h]

/-- **The identifiers that are found in the chain are all that were given**, those of names that are
declared again further in among them. -/
theorem found_iff_given :
    (∃ name, (s.chain t).flatten.lookup name = some word) ↔ s.Given t word := by
  rw [← mem_map_scope_iff, mem_map, flatten_chain]
  simp only [lookup_givenMap, Option.ite_none_right_eq_some, Option.some.injEq]

/-! ### Who gave it -/

/-- Lines in which a loop variable or a local variable is declared. -/
def Declares (lines : List String) (word : String) : Prop :=
  Shows lines ("for (" ++ word ++ " in ") ∨ Shows lines ("var " ++ word ++ " = ")

theorem declares_forRange (name : String) (first last step : Code.Expr) (body : List Code.Stmt) :
    Declares (stmtLines env scope (.forRange name first last step body)) (identifier name) := by
  rw [stmtLines]
  refine .inl (Kotlin.shows_bracedLines_head _ ?_)
  refine ⟨"", Kotlin.exprText env scope first ++ ".." ++ Kotlin.exprText env scope last
    ++ " step " ++ Kotlin.exprText env scope step ++ ")", ?_⟩
  simp only [String.empty_append, String.append_assoc]

theorem declares_locals {names : List (String × Code.Expr)} {d : String × Code.Expr}
    (hd : d ∈ names) (body : List Code.Stmt) :
    Declares (stmtLines env scope (.locals names body)) (identifier d.1) := by
  rw [stmtLines]
  obtain ⟨line, hline, hin⟩ := Kotlin.shows_bracedLines_body "run"
    (mem_append_left (Kotlin.stmtsLines env (Kotlin.localScope scope names) body)
      (mem_map_of_mem hd))
  exact .inr ⟨line, hline, ((Within.refl _).inLeft _).trans hin⟩

/-- **A block declares the names that are new in its parts.** -/
theorem declares_linesIn {role : Role} {b : Block} {part : Part} (hpart : part ∈ b.partsIn role)
    {name : String} (hname : name ∈ b.newNames part) :
    Declares (linesIn env scope role b) (identifier name) := by
  cases part with
  | slot slot => exact absurd hname not_mem_nil
  | body slot =>
    cases role with
    | value =>
      obtain ⟨_, -, hslot⟩ := mem_map.1 hpart
      cases hslot
    | act =>
      obtain ⟨kind, type, id, fields, mutation, args⟩ := b
      cases kind with
      | forRange =>
        obtain rfl := mem_singleton.1 hname
        simp only [linesIn, stmtOf]
        exact declares_forRange ..
      | forEach =>
        obtain rfl := mem_singleton.1 hname
        simp only [linesIn, stmtOf]
        rw [stmtLines]
        exact .inl (Kotlin.shows_bracedLines_head _ (((Within.refl _).inLeft _).inLeft _))
      | localDeclaration =>
        have hlocal : name ∈ (localNames fields args).zipIdx.map Prod.fst := by
          rw [zipIdx_map_fst]
          exact mem_reverse.1 hname
        obtain ⟨d, hd, rfl⟩ := mem_map.1 hlocal
        simp only [linesIn, stmtOf]
        exact declares_locals env scope (mem_map_of_mem hd) _
      | _ => exact absurd hname not_mem_nil

/-- **What is new in a body around a site is declared by the block that the body is of.** -/
theorem exists_site_declares {p : Block.Program} (hs : s ∈ p.sites) {l : Level} (hl : l ∈ s.levels)
    {name : String} (hname : name ∈ l.owner.newNames l.part) :
    ∃ o ∈ p.sites, o.Around s ∧ o.block = l.owner ∧ Declares (o.lines t p) (identifier name) := by
  obtain ⟨inner, outer, hlevels⟩ := append_of_mem hl
  have hsuffix : (l :: outer) <:+ s.levels := ⟨inner, hlevels.symm⟩
  obtain ⟨o, ho, haround, hblock, -, hpart⟩ := exists_site_around hs hsuffix
  rw [← hblock] at hpart hname
  exact ⟨o, ho, haround, hblock, declares_linesIn _ _ hpart hname⟩

/-! ### What a site refers to -/

/-- Whether there is such a member: the layout has the component, or the program the declaration. -/
def Declared (t : Target) (p : Block.Program) : Mention → Prop
  | .field name => name ∈ Assoc.keys t.components
  | .global name => ∃ g ∈ p.globals, g.name = name
  | .procedure name => ∃ q ∈ p.procedures, q.name = name

/-- **A member that is declared has an identifier.** -/
theorem exists_word {p : Block.Program} (hs : s ∈ p.sites) {m : Mention} (hm : s.mention? = some m)
    (hd : Declared t p m) : ∃ word, (t.naming (.ofBlocks p)).word? m = some word := by
  cases m with
  | field name =>
    obtain ⟨ref, href⟩ := Option.isSome_iff_exists.1 (Assoc.isSome_lookup.2 hd)
    obtain ⟨field, hfield⟩ :=
      exists_field (mem_walkUses_of_site hs (mention?_eq_field_iff.1 hm)) href
    exact ⟨field, Option.bind_eq_some_iff.2 ⟨ref, href, hfield⟩⟩
  | global name =>
    obtain ⟨g, hg, hname⟩ := hd
    refine Option.isSome_iff_exists.1 ((Kotlin.isSome_lookup_globals t (.ofBlocks p) name).2 ?_)
    exact ⟨.ofBlock g, mem_map_of_mem hg, hname⟩
  | procedure name =>
    obtain ⟨q, hq, hname⟩ := hd
    refine Option.isSome_iff_exists.1 ((Kotlin.isSome_lookup_procedures t (.ofBlocks p) name).2 ?_)
    exact ⟨.ofBlock q, mem_map_of_mem hq, hname⟩

theorem isName_of_word {p : Code.Program} {m : Mention} (h : (t.naming p).word? m = some word) :
    isName word := by
  refine Kotlin.isName_of_mem_members (t := t) (p := p) ?_
  unfold Env.members
  cases m with
  | field name =>
    obtain ⟨ref, -, hfield⟩ := Option.bind_eq_some_iff.1 h
    exact mem_map_of_mem (mem_append_right _ (Assoc.mem_of_lookup hfield))
  | global name =>
    exact mem_map_of_mem
      (mem_append_left _ (mem_append_left _ (Assoc.mem_of_lookup h)))
  | procedure name =>
    exact mem_map_of_mem
      (mem_append_left _ (mem_append_right _ (Assoc.mem_of_lookup h)))

/-- **How a member is written at a site.** -/
theorem member_scope (t : Target) (p : Block.Program) (s : Site) (word : String) :
    (t.naming (.ofBlocks p)).member (s.scope t) word
      = if s.Given t word then "this@" ++ t.activity ++ "." ++ word else word := by
  have hactivity : (t.naming (.ofBlocks p)).activity = t.activity := rfl
  unfold Env.member
  rw [hactivity]
  exact if_congr (by simpa using mem_map_scope_iff) rfl rfl

/-- **A reference is qualified exactly if its member is hidden.**  A site that refers to a component
of the layout, or to a global variable or procedure that is declared, is one line, which opens with
`this@Activity.member` if a construct around the site was given the identifier of the member, and
with the member alone otherwise; and the line stands in the source unless a block around it is
replaced.  The identifiers given are those that are found in the chain around the site, and what is
given in a body is declared by the block that the body is of. -/
theorem members_qualified_iff_hidden (t : Target) (p : Block.Program) :
    ∀ s ∈ p.sites,
      (∀ m, s.mention? = some m → Declared t p m →
        ∃ word line, (t.naming (.ofBlocks p)).word? m = some word ∧ s.lines t p = [line] ∧
          (Opens ("this@" ++ t.activity ++ "." ++ word) line ↔ s.Given t word) ∧
          (Opens word line ↔ ¬ s.Given t word) ∧
          (s.Kept t p → Within line (t.source (.ofBlocks p)))) ∧
      (∀ word, s.Given t word ↔ ∃ name, (s.chain t).flatten.lookup name = some word) ∧
      ∀ l ∈ s.levels, ∀ name ∈ l.owner.newNames l.part, ∃ o ∈ p.sites,
        o.Around s ∧ o.block = l.owner ∧ Declares (o.lines t p) (identifier name) := by
  intro s hs
  refine ⟨fun m hm hd => ?_, fun word => found_iff_given.symm,
    fun l hl name hname => exists_site_declares hs hl hname⟩
  obtain ⟨word, hw⟩ := exists_word hs hm hd
  obtain ⟨line, hlines, hopens⟩ := opens_lines hm hw
  have hword := isName_of_word hw
  have hsource : s.Kept t p → Within line (t.source (.ofBlocks p)) := fun hkept =>
    within_source hs hkept line (hlines ▸ mem_singleton.2 rfl)
  rw [member_scope] at hopens
  refine ⟨word, line, hw, hlines, ?_, ?_, hsource⟩
  · refine ⟨fun hq => ?_, fun hgiven => by rwa [if_pos hgiven] at hopens⟩
    by_contra hgiven
    rw [if_neg hgiven] at hopens
    exact Kotlin.not_opens_of_opens_qualified hword hq hopens
  · refine ⟨fun hbare hgiven => ?_, fun hgiven => by rwa [if_neg hgiven] at hopens⟩
    rw [if_pos hgiven] at hopens
    exact Kotlin.not_opens_of_opens_qualified hword hopens hbare

/-- A loop over a list that sets a variable. -/
def settingLoop (each name : String) : Block :=
  { kind := .forEach, type := "controls_forEach", fields := [("VAR", each)],
    statements := [("DO", [assignmentBlock name])] }

/-- A procedure that sets a variable in a loop. -/
def settingProcedure (param each name : String) : Block.Procedure :=
  { name := "f", params := [param], body := [settingLoop each name] }

/-- The variable of the loop hides the global variable, and a parameter of its own name. -/
theorem settingProcedure_qualified : ∃ s ∈ Block.Program.sites
      ⟨[], [{ name := "x" }], [settingProcedure "X" "X" "global x"]⟩,
    s.mention? = some (.global "x") ∧
    ∃ line, s.lines { package := "app" }
        ⟨[], [{ name := "x" }], [settingProcedure "X" "X" "global x"]⟩ = [line] ∧
      Opens ("this@" ++ Target.activity { package := "app" } ++ "." ++ "x") line ∧
      ¬ Opens "x" line := by
  have hs : (⟨.procedure (settingProcedure "X" "X" "global x"),
      [⟨settingLoop "X" "global x", .body "DO"⟩], .act, assignmentBlock "global x"⟩ : Site)
      ∈ Block.Program.sites ⟨[], [{ name := "x" }], [settingProcedure "X" "X" "global x"]⟩ := by
    have hroots : roots ⟨[], [{ name := "x" }], [settingProcedure "X" "X" "global x"]⟩
        = [.initial { name := "x" }, .procedure (settingProcedure "X" "X" "global x")] := rfl
    rw [Block.Program.sites, hroots]
    refine mem_flatMap.2 ⟨_, mem_cons_of_mem _ mem_cons_self, ?_⟩
    refine mem_append_left _ (mem_flatMap.2 ⟨_, mem_cons_self, ?_⟩)
    exact mem_sitesIn.2 (.inr ⟨.body "DO", mem_cons_of_mem _ mem_cons_self,
      _, mem_cons_self, mem_sitesIn.2 (.inl rfl)⟩)
  obtain ⟨hrefs, -, -⟩ := members_qualified_iff_hidden { package := "app" }
    ⟨[], [{ name := "x" }], [settingProcedure "X" "X" "global x"]⟩ _ hs
  obtain ⟨word, line, hw, hlines, hqualified, hbare, -⟩ :=
    hrefs (.global "x") (by decide) ⟨_, mem_cons_self, rfl⟩
  obtain rfl : "x" = word := Option.some.inj (Eq.trans (by decide) hw)
  exact ⟨_, hs, by decide, line, hlines, hqualified.2 (by decide), fun h => hbare.1 h (by decide)⟩

end Site
end ScreenForge
