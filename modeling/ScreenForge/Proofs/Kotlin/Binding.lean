/-
# What variables are written as

| variable | bound if | written as |
| --- | --- | --- |
| `global x` | a global variable `x` is declared | its member, or `this@Activity.member` if hidden |
| any other | it is a name of the scope | the identifier of its name |
-/
import ScreenForge.Proofs.Kotlin.Operand

namespace ScreenForge
namespace Kotlin

variable {name word : String} {env : Env}

/-- **A global variable has the mark in front of its name.** -/
theorem eq_of_globalName? {x : String} (h : globalName? name = some x) : name = "global " ++ x := by
  unfold globalName? Text.startsWith at h
  split at h
  · next hprefix =>
    obtain ⟨rest, hrest⟩ := List.isPrefixOf_iff_prefix.1 hprefix
    rw [← hrest, List.drop_left, Option.some.injEq] at h
    rw [← String.toList_inj, String.toList_append, ← hrest, ← h]
    exact congrArg (globalMark ++ ·) String.toList_ofList.symm
  · cases h

/-- Whether a variable stands for something in a scope of a program. -/
def Bound (p : Code.Program) (scope : Scope) (name : String) : Prop :=
  match globalName? name with
  | some x => ∃ g ∈ p.globals, g.name = x
  | none => name ∈ scope

instance (p : Code.Program) (scope : Scope) (name : String) : Decidable (Bound p scope name) :=
  match h : globalName? name with
  | some x => decidable_of_iff (∃ g ∈ p.globals, g.name = x) (by simp [Bound, h])
  | none => decidable_of_iff (name ∈ scope) (by simp [Bound, h])

variable {t : Target} {p : Code.Program} {scope : Scope}

/-- **A variable is written exactly if it is bound.** -/
theorem isSome_binding? : ((t.naming p).binding? scope name).isSome ↔ Bound p scope name := by
  unfold Env.binding? Bound
  cases globalName? name with
  | some x => exact (by rw [Option.isSome_map]; exact isSome_lookup_globals t p x)
  | none => by_cases h : name ∈ scope <;> simp [h]

/-- A member as a phrase: qualified if a local variable hides it. -/
def memberPhrase (activity : String) (scope : Scope) (word : String) : Phrase :=
  if word ∈ scope.map identifier then .member (.self activity) word else .name word

/-- A variable as a phrase. -/
def variablePhrase (env : Env) (scope : Scope) (name : String) : Phrase :=
  match globalName? name with
  | some x => memberPhrase env.activity scope ((env.globals.lookup x).getD "")
  | none => .name (identifier name)

theorem atom_env_member (env : Env) (hact : isName env.activity) (hw : isName word)
    (scope : Scope) : Atom (env.member scope word) (memberPhrase env.activity scope word) := by
  unfold Env.member memberPhrase
  by_cases h : word ∈ scope.map identifier
  · rw [if_pos (by simpa using h), if_pos h]
    exact atom_member hact hw
  · rw [if_neg (by simpa using h), if_neg h]
    exact atom_name hw

theorem variablePhrase_of_global {x : String} (hg : globalName? name = some x)
    (hw : env.globals.lookup x = some word) :
    variablePhrase env scope name = memberPhrase env.activity scope word := by
  simp only [variablePhrase, hg, hw, Option.getD_some]

theorem variablePhrase_of_local (hg : globalName? name = none) :
    variablePhrase env scope name = .name (identifier name) := by
  simp only [variablePhrase, hg]

/-- The two ways in which a variable is written. -/
theorem binding?_eq_some_iff {text : String} :
    env.binding? scope name = some text ↔
      (∃ x word, globalName? name = some x ∧ env.globals.lookup x = some word ∧
        text = env.member scope word) ∨
      (globalName? name = none ∧ name ∈ scope ∧ text = identifier name) := by
  unfold Env.binding?
  cases hg : globalName? name with
  | some x => simp [eq_comm (a := text)]
  | none => by_cases hs : name ∈ scope <;> simp [hs, eq_comm]

/-- **A bound variable is an atom.** -/
theorem atom_binding? (hact : isName t.activity) {text : String}
    (h : (t.naming p).binding? scope name = some text) :
    Atom text (variablePhrase (t.naming p) scope name) := by
  rcases binding?_eq_some_iff.1 h with ⟨x, word, hg, hw, rfl⟩ | ⟨hg, -, rfl⟩
  · rw [variablePhrase_of_global hg hw]
    exact atom_env_member _ hact (isName_of_lookup_globals hw) scope
  · rw [variablePhrase_of_local hg]
    exact atom_name (isName_identifier name .lower)

/-- Members with different names are written differently. -/
theorem memberPhrase_inj {activity v w : String}
    (h : memberPhrase activity scope v = memberPhrase activity scope w) : v = w := by
  unfold memberPhrase at h
  split at h <;> split at h
  · exact (Phrase.member.inj h).2
  · cases h
  · cases h
  · exact Phrase.name.inj h

/-- A member is never written like a local variable. -/
theorem memberPhrase_ne_name {activity : String} (h : name ∈ scope) :
    memberPhrase activity scope word ≠ .name (identifier name) := by
  intro he
  unfold memberPhrase at he
  split at he
  · cases he
  · next hw => exact hw (Phrase.name.inj he ▸ List.mem_map_of_mem h)

/-- A bound variable is a global one or a name of the scope. -/
theorem Bound.cases (t : Target) (h : Bound p scope name) :
    (∃ x word, globalName? name = some x ∧ (t.naming p).globals.lookup x = some word) ∨
      (globalName? name = none ∧ name ∈ scope) := by
  obtain ⟨text, htext⟩ := Option.isSome_iff_exists.1 (isSome_binding? (t := t).2 h)
  rcases binding?_eq_some_iff.1 htext with ⟨x, word, hg, hw, -⟩ | ⟨hg, hs, -⟩
  · exact Or.inl ⟨x, word, hg, hw⟩
  · exact Or.inr ⟨hg, hs⟩

/-- **Two bound variables that are written the same way are the same, or are local variables with
names that are alike.** -/
theorem eq_or_alike_of_variablePhrase {m n : String} (hm : Bound p scope m) (hn : Bound p scope n)
    (h : variablePhrase (t.naming p) scope m = variablePhrase (t.naming p) scope n) :
    m = n ∨ (globalName? m = none ∧ globalName? n = none ∧ Alike m n) := by
  rcases hm.cases t with ⟨x, v, hgm, hv⟩ | ⟨hgm, hm⟩ <;>
    rcases hn.cases t with ⟨y, w, hgn, hw⟩ | ⟨hgn, hn⟩
  · rw [variablePhrase_of_global hgm hv, variablePhrase_of_global hgn hw] at h
    obtain rfl := memberPhrase_inj h
    obtain rfl := eq_of_lookup_globals hv hw
    exact Or.inl ((eq_of_globalName? hgm).trans (eq_of_globalName? hgn).symm)
  · rw [variablePhrase_of_global hgm hv, variablePhrase_of_local hgn] at h
    exact absurd h (memberPhrase_ne_name hn)
  · rw [variablePhrase_of_local hgm, variablePhrase_of_global hgn hw] at h
    exact absurd h.symm (memberPhrase_ne_name hm)
  · rw [variablePhrase_of_local hgm, variablePhrase_of_local hgn] at h
    exact Or.inr ⟨hgm, hgn, identifier_eq_iff.1 (Phrase.name.inj h)⟩

end Kotlin
end ScreenForge
