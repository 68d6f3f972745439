/-
# Variables that are taken for others

Local variables are written as identifiers, and an identifier denotes the innermost declaration of
it.  So two visible variables with one identifier cannot be told apart, and the one further out is
taken for the one further in.  `Alike` says of the names which these are: `A` and `a`, `my x` and
`my_x`, `in` and `in_`.
-/
import Mathlib.Data.List.TakeWhile
import ScreenForge.Proofs.Scope.Variable

namespace ScreenForge
namespace Site

open List
open Kotlin (Alike Scope Target globalName? identifier identifier_eq_iff)
open Text (Within)

variable {t : Target} {p : Block.Program} {name : String}

/-- The declarations of a scope by name, innermost first, each with its position. -/
def declared (scope : Scope) : List (String × Nat) := scope.zipIdx

/-- The declarations of a scope as they are written. -/
def written (scope : Scope) : List (String × Nat) :=
  (declared scope).map fun d => (identifier d.1, d.2)

/-- **An identifier denotes the declaration of its own variable exactly if nothing further in is
alike.** -/
theorem lookup_written_eq_iff {scope : Scope} (h : name ∈ scope) :
    (written scope).lookup (identifier name) = (declared scope).lookup name ↔
      ∀ m ∈ scope.takeWhile (· ≠ name), ¬ Alike m name := by
  unfold written declared
  suffices hk : ∀ k, ((scope.zipIdx k).map fun d => (identifier d.1, d.2)).lookup (identifier name)
      = (scope.zipIdx k).lookup name ↔ ∀ m ∈ scope.takeWhile (· ≠ name), ¬ Alike m name from hk 0
  induction scope with
  | nil => exact absurd h not_mem_nil
  | cons c rest ih =>
    intro k
    by_cases hc : c = name
    · subst hc
      simp [zipIdx_cons]
    · have hrest : name ∈ rest := (mem_cons.1 h).resolve_left fun he => hc he.symm
      have hne : (name == c) = false := by simpa using fun he => hc he.symm
      by_cases halike : Alike c name
      · have hid : identifier name = identifier c := (identifier_eq_iff.2 halike).symm
        have hfound : ∃ i, (rest.zipIdx (k + 1)).lookup name = some i := by
          refine Option.isSome_iff_exists.1 (Assoc.isSome_lookup.2 ?_)
          rw [Assoc.keys, zipIdx_map_fst]
          exact hrest
        obtain ⟨i, hi⟩ := hfound
        -- the variable is declared further out, so its position is a later one
        have hlt := mk_mem_zipIdx_iff_le_and_getElem?_sub.1 (Assoc.mem_of_lookup hi)
        have hki : k ≠ i := by omega
        simp [zipIdx_cons, lookup_cons, hid, hne, hi, hc, halike, hki]
      · have hid : (identifier name == identifier c) = false := by
          rw [beq_eq_false_iff_ne]
          exact fun he => halike (identifier_eq_iff.1 he.symm)
        simp [zipIdx_cons, lookup_cons, hid, hne, hc, halike, ih hrest]

/-- The scopes of a site's parts. -/
def innerScopes (t : Target) (s : Site) : List Scope :=
  (s.block.partsIn s.role).map fun part => s.block.newNames part ++ s.scope t

/-- **The scopes that arise in a program**: those of its declarations, and those of the parts of its
blocks. -/
def scopes (t : Target) (p : Block.Program) : List Scope :=
  (roots p).map (Root.names t) ++ p.sites.flatMap (innerScopes t)

/-- What a site in a block sees is what the block sees, or what a part of a block in it does. -/
theorem scope_of_mem_sitesIn {root : Root} {levels : List Level} {role : Role} {b : Block}
    {s : Site} (h : s ∈ sitesIn root levels role b) :
    s.scope t = scopeIn t root levels ∨
      ∃ s' ∈ sitesIn root levels role b, s.scope t ∈ innerScopes t s' := by
  induction b using Block.inductParts generalizing levels role with
  | h b ih =>
    obtain rfl | ⟨part, hpart, c, hc, h⟩ := mem_sitesIn.1 h
    · exact .inl rfl
    · rcases ih part c hc h with he | ⟨s', hs', hin⟩
      · refine .inr ⟨_, mem_sitesIn.2 (.inl rfl), ?_⟩
        rw [he, scopeIn_cons]
        exact mem_map_of_mem hpart
      · exact .inr ⟨s', mem_sitesIn.2 (.inr ⟨part, hpart, c, hc, hs'⟩), hin⟩

/-- **What a site sees is one of the scopes that arise.** -/
theorem scope_mem_scopes {s : Site} (h : s ∈ p.sites) : s.scope t ∈ scopes t p := by
  obtain ⟨root, hroot, b, hb, hs⟩ := mem_sites.1 h
  rcases scope_of_mem_sitesIn (t := t) hs with he | ⟨s', hs', hin⟩
  · rw [he]
    exact mem_append_left _ (mem_map_of_mem hroot)
  · exact mem_append_right _ (mem_flatMap.2
      ⟨s', mem_sites.2 ⟨root, hroot, b, hb, hs'⟩, hin⟩)

/-- Whether no variable of a program is taken for another: in no scope that arises do two different
variables have one identifier, the identifier of each local variable denotes its own declaration,
and the parameters of each procedure have different identifiers. -/
def CaptureFree (t : Target) (p : Block.Program) : Prop :=
  (∀ scope ∈ scopes t p, ∀ m ∈ scope, ∀ n ∈ scope, identifier m = identifier n → m = n) ∧
  (∀ s ∈ p.sites, ∀ name ∈ variableOf? s.role s.block, globalName? name = none →
    name ∈ s.scope t →
      (written (s.scope t)).lookup (identifier name) = (declared (s.scope t)).lookup name) ∧
  (∀ q, Root.procedure q ∈ roots p → (q.params.map identifier).Nodup)

/-- **A program is free of captures exactly if visible names are not alike.** -/
theorem captureFree_iff :
    CaptureFree t p ↔
      (∀ scope ∈ scopes t p, ∀ m ∈ scope, ∀ n ∈ scope, Alike m n → m = n) ∧
      ∀ q, Root.procedure q ∈ roots p → q.params.Pairwise fun m n => ¬ Alike m n := by
  have hparams : ∀ names : List String,
      (names.map identifier).Nodup ↔ names.Pairwise fun m n => ¬ Alike m n := by
    intro names
    rw [List.Nodup, pairwise_map]
    exact List.Pairwise.iff fun m n => not_congr identifier_eq_iff
  unfold CaptureFree
  simp only [identifier_eq_iff, hparams]
  constructor
  · rintro ⟨hscopes, -, hq⟩
    exact ⟨hscopes, hq⟩
  · rintro ⟨hscopes, hq⟩
    refine ⟨hscopes, fun s hs name _ _ hname => (lookup_written_eq_iff hname).2 ?_, hq⟩
    intro m hm halike
    have hmem : m ∈ s.scope t := (takeWhile_sublist _).subset hm
    have heq := hscopes _ (scope_mem_scopes hs) m hmem name hname halike
    exact absurd heq (by simpa using mem_takeWhile_imp hm)

/-- The line of a local variable starts with its identifier. -/
theorem lines_of_local {s : Site} (h : name ∈ variableOf? s.role s.block)
    (hg : globalName? name = none) (hname : name ∈ s.scope t) :
    ∃ rest, s.lines t p = [identifier name ++ rest] := by
  have hbound : s.Bound t p name := by
    rw [Bound, hg]
    exact mem_scope_iff.1 hname
  have htext : variableText t p (s.scope t) name = identifier name := by
    simp only [variableText, hg]
  unfold variableOf? at h
  split at h
  · next hkind =>
    obtain rfl : variableName s.block = name := Option.some.inj h
    rcases hkind with hget | ⟨hrole, hset⟩
    · exact ⟨"", by rw [lines_of_variableGet hget, if_pos hbound, htext, String.append_empty]⟩
    · refine ⟨" = " ++ s.assignedText t p, ?_⟩
      rw [lines_of_variableSet hset hrole, if_pos hbound, htext, String.append_assoc]
  · cases h

theorem within_source_params {q : Block.Procedure} (h : Root.procedure q ∈ roots p) :
    Within ("(" ++ Text.join ", " (q.params.map fun n => identifier n ++ ": Any?") ++ ")")
      (t.source (.ofBlocks p)) := by
  have hq : Code.Procedure.ofBlock q
      ∈ Code.firsts Code.Procedure.name (Code.Program.ofBlocks p).procedures := by
    rw [firsts_procedures]
    refine mem_map_of_mem ?_
    simpa [roots] using h
  exact Kotlin.within_source ((Kotlin.shows_procedureLines_params _ (.ofBlock q)).trans
    fun line hline => Kotlin.shows_procedure hq hline)

/-- **Variables with names that are alike are taken for each other.**  A program is free of captures
exactly if no two visible variables, and no two parameters of a procedure, have names that are
alike.  The identifier written for a local variable denotes its declaration exactly if no name
further in is alike; the identifiers of parameters stand in the source as they are. -/
theorem capture_iff_alike (t : Target) (p : Block.Program) :
    (CaptureFree t p ↔
      (∀ scope ∈ scopes t p, ∀ m ∈ scope, ∀ n ∈ scope, Alike m n → m = n) ∧
      ∀ q, Root.procedure q ∈ roots p → q.params.Pairwise fun m n => ¬ Alike m n) ∧
    (∀ s ∈ p.sites, ∀ name ∈ variableOf? s.role s.block, globalName? name = none →
      name ∈ s.scope t → (∃ rest, s.lines t p = [identifier name ++ rest]) ∧
        ((written (s.scope t)).lookup (identifier name) = (declared (s.scope t)).lookup name ↔
          ∀ m ∈ (s.scope t).takeWhile (· ≠ name), ¬ Alike m name)) ∧
    ∀ q, Root.procedure q ∈ roots p →
      Within ("(" ++ Text.join ", " (q.params.map fun n => identifier n ++ ": Any?") ++ ")")
        (t.source (.ofBlocks p)) := by
  refine ⟨captureFree_iff, fun s _ name h hg hname => ⟨lines_of_local h hg hname, ?_⟩,
    fun q hq => within_source_params hq⟩
  exact lookup_written_eq_iff hname

/-- Two parameters that differ in the case of a letter. -/
theorem not_captureFree_letter_case :
    ¬ CaptureFree { package := "app" } ⟨[], [], [{ name := "f", params := ["A", "a"] }]⟩ := by
  rw [captureFree_iff]
  rintro ⟨-, hq⟩
  have h := hq { name := "f", params := ["A", "a"] } (mem_singleton.2 rfl)
  exact (pairwise_cons.1 h).1 "a" (mem_singleton.2 rfl) (by decide)

end Site
end ScreenForge
