/-
# The names of members

All members of an activity are named by one allocator: first the global variables, then the
procedures, and then the component fields.

`naming` gives out the fields at once, but says that they are given out as the code first uses them.
`Desk` is that way of doing it, and comes to the same fields (`askAll_eq`).
-/
import ScreenForge.Proofs.Kotlin.Name

namespace ScreenForge
namespace Kotlin

open List
open Allocator (Issues)

variable {name : String} (t : Target) (p : Code.Program)

/-! ### All names are new -/

/-- The allocator behind the global variables of a program. -/
def Target.afterGlobals (t : Target) (p : Code.Program) : Allocator :=
  (assign "global" (Allocator.empty.add t.activity) (p.globals.map Code.Global.name).eraseDups).2

/-- The allocator behind the procedures of a program. -/
def Target.afterProcedures (t : Target) (p : Code.Program) : Allocator :=
  (assign "procedure" (t.afterGlobals p) (p.procedures.map Code.Procedure.name).eraseDups).2

/-- The components of the layout that a program uses, in the order of first use. -/
def Target.usedComponents (t : Target) (p : Code.Program) : List String :=
  ((t.uses p).filter fun name => Assoc.has name t.components).eraseDups

theorem fields_naming :
    (t.naming p).fields = (assign "" (t.afterProcedures p) (t.usedComponents p)).1 := rfl

theorem keys_fields : Assoc.keys (t.naming p).fields = t.usedComponents p := by
  rw [fields_naming, keys_assign]

/-- The names of all members: global variables, procedures and component fields. -/
def Env.members (env : Env) : List String :=
  (env.globals ++ env.procedures ++ env.fields).map Prod.snd

/-- **The names of members are new and differ.** -/
theorem issues_members : ∃ b, (Allocator.empty.add t.activity).Issues (t.naming p).members b := by
  have hglobals : (Allocator.empty.add t.activity).Issues
      ((t.naming p).globals.map Prod.snd) (t.afterGlobals p) := issues_assign _ _ _
  have hprocedures : (t.afterGlobals p).Issues
      ((t.naming p).procedures.map Prod.snd) (t.afterProcedures p) := issues_assign _ _ _
  have hfields := issues_assign "" (t.afterProcedures p) (t.usedComponents p)
  rw [← fields_naming] at hfields
  have hmembers := (hglobals.trans hprocedures).trans hfields
  rw [← map_append, ← map_append] at hmembers
  exact ⟨_, hmembers⟩

/-- No two members have the same name. -/
theorem nodup_members : (t.naming p).members.Nodup := by
  obtain ⟨b, h⟩ := issues_members t p
  exact h.nodup

/-- No member has the name of the activity. -/
theorem ne_activity_of_mem_members {t : Target} {p : Code.Program} (h : name ∈ (t.naming p).members) :
    name ≠ t.activity := by
  obtain ⟨b, hissues⟩ := issues_members t p
  have hnew := hissues.fresh name h
  rintro rfl
  exact hnew mem_cons_self

/-- All members have names of the language. -/
theorem isName_of_mem_members {t : Target} {p : Code.Program} (h : name ∈ (t.naming p).members) :
    isName name := by
  obtain ⟨e, he, rfl⟩ := mem_map.1 h
  rcases mem_append.1 he with he | he
  rcases mem_append.1 he with he | he
  all_goals exact isName_of_mem_assign he

/-! ### Fields on demand -/

/-- Where components ask for fields: those given out, in order, and the names that are taken. -/
structure Desk where
  fields : List (String × String) := []
  names : Allocator

namespace Desk

variable {known : List (String × Layout.Ref)}

/-- A request for the field of a component: the field that it has, or a new one if the component is
known. -/
def ask (known : List (String × Layout.Ref)) (d : Desk) (name : String) : Option String × Desk :=
  match d.fields.lookup name with
  | some field => (some field, d)
  | none =>
    if Assoc.has name known then
      let (field, names) := d.names.unique (identifier name)
      (some field, ⟨d.fields ++ [(name, field)], names⟩)
    else (none, d)

/-- Requests in order, with the answers. -/
def askAll (known : List (String × Layout.Ref)) (d : Desk) :
    List String → List (Option String) × Desk
  | [] => ([], d)
  | name :: rest =>
    let (answer, d) := d.ask known name
    let (answers, d) := askAll known d rest
    (answer :: answers, d)

/-- The components among names that have no field yet, in the order of their first request. -/
def newcomers (known : List (String × Layout.Ref)) (d : Desk) (names : List String) :
    List String :=
  (names.filter fun name => Assoc.has name known && !Assoc.has name d.fields).eraseDups

/-- What the desk has given out, if those that ask are assigned their fields at once. -/
def served (known : List (String × Layout.Ref)) (d : Desk) (names : List String) :
    List (String × String) :=
  d.fields ++ (assign "" d.names (newcomers known d names)).1

theorem newcomers_cons_of_neg {d : Desk} (rest : List String)
    (h : ¬ (Assoc.has name known && !Assoc.has name d.fields)) :
    newcomers known d (name :: rest) = newcomers known d rest := by
  rw [newcomers, filter_cons, if_neg h, newcomers]

theorem newcomers_of_new {d : Desk} (rest : List String) (hknown : Assoc.has name known)
    (h : Assoc.has name d.fields = false) (field : String) (names : Allocator) :
    newcomers known d (name :: rest)
      = name :: newcomers known ⟨d.fields ++ [(name, field)], names⟩ rest := by
  rw [newcomers, filter_cons_of_pos (by simp [h, hknown]), eraseDups_cons, filter_filter, newcomers]
  refine congrArg (name :: ·) (congrArg List.eraseDups (filter_congr fun other _ => ?_))
  have hother : Assoc.has other (d.fields ++ [(name, field)])
      = (Assoc.has other d.fields || name == other) := by
    simp [Assoc.has]
  rw [hother, Bool.beq_comm (a := other)]
  cases name == other <;> cases Assoc.has other d.fields <;> simp

theorem has_known_of_mem_newcomers {d : Desk} {names : List String}
    (h : name ∈ newcomers known d names) : Assoc.has name known := by
  rw [newcomers, mem_eraseDups, mem_filter, Bool.and_eq_true] at h
  exact h.2.1

theorem orWord_empty (s : String) : orWord s "" = s := by
  unfold orWord
  split
  · next h => exact h.symm
  · rfl

/-- **One request changes neither what is given out in the end nor what it is answered with.** -/
theorem ask_eq (known : List (String × Layout.Ref)) (d : Desk) (name : String)
    (rest : List String) :
    (d.ask known name).1 = (served known d (name :: rest)).lookup name ∧
      served known (d.ask known name).2 rest = served known d (name :: rest) := by
  unfold ask
  cases hl : d.fields.lookup name with
  | some field =>
    have hgiven : Assoc.has name d.fields := by
      rw [← Assoc.isSome_lookup_eq_has, hl]
      rfl
    refine ⟨?_, ?_⟩
    · rw [served, lookup_append, hl]
      rfl
    · rw [served, served, newcomers_cons_of_neg rest (by simp [hgiven])]
  | none =>
    have hgiven : Assoc.has name d.fields = false := by
      rw [← Assoc.isSome_lookup_eq_has, hl]
      rfl
    by_cases hknown : Assoc.has name known = true
    · have hserved : served known d (name :: rest)
          = served known ⟨d.fields ++ [(name, (d.names.unique (identifier name)).1)],
            (d.names.unique (identifier name)).2⟩ rest := by
        rw [served, newcomers_of_new rest hknown hgiven (d.names.unique (identifier name)).1
          (d.names.unique (identifier name)).2, assign, orWord_empty, served, append_assoc]
        rfl
      simp only [hknown, if_true]
      refine ⟨?_, hserved.symm⟩
      rw [hserved, served, append_assoc, lookup_append, hl]
      simp
    · have hunknown : Assoc.has name known = false := by simpa using hknown
      simp only [hunknown]
      refine ⟨?_, ?_⟩
      · have hnew :
            (assign "" d.names (newcomers known d (name :: rest))).1.lookup name = none := by
          rw [← Option.not_isSome_iff_eq_none, Assoc.isSome_lookup, keys_assign]
          exact fun hmem => hknown (has_known_of_mem_newcomers hmem)
        rw [served, lookup_append, hl, hnew]
        rfl
      · simp only [Bool.false_eq_true, if_false]
        rw [served, served, newcomers_cons_of_neg rest (by simp [hunknown])]

/-- **Every request is answered with the field that the component has in the end**, and the fields
are those that are assigned at once. -/
theorem askAll_eq (known : List (String × Layout.Ref)) (d : Desk) (names : List String) :
    (d.askAll known names).1 = names.map (fun name => (served known d names).lookup name) ∧
      (d.askAll known names).2.fields = served known d names := by
  induction names generalizing d with
  | nil => exact ⟨rfl, by simp [askAll, served, newcomers, assign]⟩
  | cons name rest ih =>
    obtain ⟨hanswer, hserved⟩ := ask_eq known d name rest
    obtain ⟨hanswers, hfields⟩ := ih (d.ask known name).2
    rw [hserved] at hanswers hfields
    refine ⟨?_, hfields⟩
    rw [map_cons, ← hanswer, ← hanswers]
    rfl

end Desk

/-- The desk behind the declarations of a program: no field is given out yet. -/
def Target.desk (t : Target) (p : Code.Program) : Desk := ⟨[], t.afterProcedures p⟩

/-- **The fields of a program are those that its uses ask for, one by one.** -/
theorem served_desk : Desk.served t.components (t.desk p) (t.uses p) = (t.naming p).fields := by
  have hnewcomers : Desk.newcomers t.components (t.desk p) (t.uses p) = t.usedComponents p := by
    simp [Desk.newcomers, Target.desk, Target.usedComponents, Assoc.has]
  rw [Desk.served, hnewcomers, fields_naming]
  rfl

end Kotlin
end ScreenForge
