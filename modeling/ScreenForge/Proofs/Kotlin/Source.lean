/-
# Where declarations stand in the source

The lines of a declaration are indented on their way into the source (`Indented`), and those of a
body may be made comments before, but they are never cut: each of them stands in a line of the
activity.
-/
import ScreenForge.Proofs.Text.Within
import ScreenForge.Kotlin.Activity

namespace ScreenForge
namespace Kotlin

open List
open Text (Shows Within)

variable {lines : List String} {line : String} {q : Code.Procedure}

theorem shows_indent (level : Int) (h : line ∈ lines) : Shows (indent lines level) line := by
  refine ⟨_, mem_map_of_mem h, ?_⟩
  split
  · exact Within.refl line
  · exact (Within.refl line).inRight _

theorem tab_add_one (level : Nat) : tab 1 ++ tab level = tab (level + 1 : Nat) := by
  rw [← String.toList_inj, String.toList_append, tab, tab, tab]
  simp only [String.toList_ofList, replicate_append_replicate, Int.toNat_natCast]
  congr 1
  show 4 * 1 + 4 * level = 4 * (level + 1)
  omega

/-- A line stands among lines, perhaps indented. -/
def Indented (lines : List String) (line : String) : Prop :=
  ∃ level : Nat, tab level ++ line ∈ lines

theorem indented_of_mem (h : line ∈ lines) : Indented lines line := by
  have hnone : tab (0 : Nat) = "" := by decide
  refine ⟨0, ?_⟩
  rw [hnone, String.empty_append]
  exact h

theorem Indented.mono {lines' : List String} (h : Indented lines line) (hsub : lines ⊆ lines') :
    Indented lines' line := by
  obtain ⟨level, hlevel⟩ := h
  exact ⟨level, hsub hlevel⟩

theorem Indented.indent (h : Indented lines line) : Indented (indent lines) line := by
  obtain ⟨level, hlevel⟩ := h
  have hmem := mem_map_of_mem (f := fun l => if l = "" then l else tab 1 ++ l) hlevel
  split at hmem
  · exact ⟨level, hmem⟩
  · rw [← String.append_assoc, tab_add_one] at hmem
    exact ⟨level + 1, hmem⟩

theorem Indented.bracedLines (head : String) {body : List String} (h : Indented body line) :
    Indented (bracedLines head body) line :=
  h.indent.mono fun _ hl => mem_cons_of_mem _ (mem_append_left _ hl)

theorem Indented.shows (h : Indented lines line) : Shows lines line := by
  obtain ⟨level, hlevel⟩ := h
  exact ⟨_, hlevel, (Within.refl line).inRight _⟩

theorem shows_bracedLines_head {head s : String} (body : List String) (h : Within s head) :
    Shows (bracedLines head body) s :=
  ⟨_, mem_cons_self, h.inLeft _⟩

theorem shows_bracedLines_body (head : String) {body : List String} (h : line ∈ body) :
    Shows (bracedLines head body) line :=
  ((indented_of_mem h).bracedLines head).shows

/-! ### Empty lines -/

/-- The lines that are not empty. -/
def solid (lines : List String) : List String := lines.filter (· != "")

@[simp] theorem solid_blank (rest : List String) : solid ("" :: rest) = solid rest := rfl

@[simp] theorem solid_append (lines others : List String) :
    solid (lines ++ others) = solid lines ++ solid others :=
  filter_append _ _

/-- A test that blank lines fail does not see them. -/
theorem filter_solid {P : String → Bool} (h : P "" = false) (lines : List String) :
    (solid lines).filter P = lines.filter P := by
  rw [solid, filter_filter]
  refine filter_congr fun line _ => ?_
  by_cases hline : line = ""
  · rw [hline, h, Bool.false_and]
  · rw [bne_iff_ne.2 hline, Bool.and_true]

/-- **Empty lines between groups of lines are all that stands between them.** -/
theorem solid_spaced (groups : List (List String)) :
    solid (spaced groups) = solid groups.flatten := by
  fun_induction spaced groups with
  | case1 => rfl
  | case2 group => rw [flatten_singleton]
  | case3 group rest hrest ih => simp [ih]

theorem solid_leading (lines : List String) :
    solid (if lines.isEmpty then [] else lines ++ [""]) = solid lines := by
  cases lines with
  | nil => rfl
  | cons first rest => exact (solid_append _ _).trans (append_nil _)

theorem solid_sections (groups : List (List String)) :
    solid (sections groups) = solid groups.flatten := by
  induction groups with
  | nil => rfl
  | cons group rest ih =>
    rw [sections, flatMap_cons, solid_append, ← sections, ih, flatten_cons, solid_append]
    cases group <;> rfl

theorem mem_spaced {groups : List (List String)} {group : List String} (hg : group ∈ groups)
    (h : line ∈ group) : line ∈ spaced groups := by
  induction groups with
  | nil => exact absurd hg not_mem_nil
  | cons first rest ih =>
    cases rest with
    | nil =>
      rw [spaced, ← mem_singleton.1 hg]
      exact h
    | cons second rest =>
      rw [spaced]
      · rcases mem_cons.1 hg with rfl | hg
        · exact mem_append_left _ h
        · exact mem_append_right _ (mem_cons_of_mem _ (ih hg))
      · exact cons_ne_nil _ _

theorem mem_sections {groups : List (List String)} {group : List String} (hg : group ∈ groups)
    (h : line ∈ group) : line ∈ sections groups := by
  refine mem_flatMap.2 ⟨group, hg, ?_⟩
  rw [isEmpty_eq_false_iff.2 (ne_nil_of_mem h)]
  exact mem_cons_of_mem _ h

variable {t : Target} {env : Env} {p : Code.Program} {h : Code.Handler}

/-- **The body of a handler stands in its lines.** -/
theorem shows_handlerLines (t : Target) (env : Env)
    (hline : line ∈ stmtsLines env (t.scopeOf h) h.body) : Shows (t.handlerLines env h).2 line := by
  have hcommented : ∀ reason, Shows (commented reason (stmtsLines env (t.scopeOf h) h.body)) line :=
    fun reason => ⟨_, mem_cons_of_mem _ (mem_map_of_mem hline),
      (Within.refl line).inRight _⟩
  unfold Target.handlerLines
  dsimp only
  split
  · exact hcommented _
  · exact hcommented _
  · split
    · exact Text.shows_of_mem (mem_cons_of_mem _ hline)
    · exact (shows_indent 1 (mem_append_left _ hline)).mono fun _ hl =>
        mem_cons_of_mem _ (mem_append_left _ hl)

/-- The value of a global variable stands in its line. -/
theorem within_globalLine (env : Env) {g : Code.Global} {e : Code.Expr} (h : g.value = some e) :
    Within (exprText env [] e) (globalLine env g) := by
  simp only [globalLine, h]
  exact (Within.refl _).inRight _

theorem shows_procedureLines_params (env : Env) (q : Code.Procedure) :
    Shows (procedureLines env q)
      ("(" ++ Text.join ", " (q.params.map fun n => identifier n ++ ": Any?") ++ ")") := by
  have hhead : Within
      ("(" ++ Text.join ", " (q.params.map fun n => identifier n ++ ": Any?") ++ ")")
      ("private fun " ++ (env.procedures.lookup q.name).getD "" ++ "("
        ++ Text.join ", " (q.params.map fun n => identifier n ++ ": Any?") ++ ")") :=
    ⟨"private fun " ++ (env.procedures.lookup q.name).getD "", "", by simp [String.append_assoc]⟩
  unfold procedureLines
  dsimp only
  split
  · exact shows_bracedLines_head _ hhead
  · exact shows_bracedLines_head _ (hhead.inLeft _)

theorem shows_procedureLines_body (env : Env) (h : line ∈ stmtsLines env q.params q.body) :
    Shows (procedureLines env q) line := by
  unfold procedureLines
  dsimp only
  split
  · exact shows_bracedLines_body _ h
  · exact shows_bracedLines_body _ (mem_append_left _ h)

theorem shows_procedureLines_result (env : Env) {e : Code.Expr} (h : q.result = some e) :
    Shows (procedureLines env q) (exprText env q.params e) := by
  unfold procedureLines
  simp only [h]
  obtain ⟨line, hline, hin⟩ := shows_bracedLines_body
    ("private fun " ++ (env.procedures.lookup q.name).getD "" ++ "("
      ++ Text.join ", " (q.params.map fun n => identifier n ++ ": Any?") ++ ")" ++ ": Any?")
    (mem_append_right (stmtsLines env q.params q.body)
      (mem_singleton.2 (rfl : "return " ++ exprText env q.params e = _)))
  exact ⟨line, hline, ((Within.refl _).inRight _).trans hin⟩

theorem indented_onCreateLines {handlers : List (Place × List String)} {h : Place × List String}
    (hh : h ∈ handlers) (hline : line ∈ h.2) : Indented (t.onCreateLines env handlers) line := by
  have hplace : line ∈ spaced ((handlers.filter fun g => g.1 == h.1).map Prod.snd) :=
    mem_spaced (mem_map_of_mem (mem_filter.2 ⟨hh, beq_self_eq_true _⟩)) hline
  refine (indented_of_mem (mem_cons_of_mem _ (mem_cons_of_mem _ ?_))).bracedLines _
  rcases h with ⟨place, lines⟩
  cases place with
  | setup => exact mem_sections (mem_cons_of_mem _ mem_cons_self) hplace
  | listeners =>
    exact mem_sections (mem_cons_of_mem _ (mem_cons_of_mem _ mem_cons_self)) hplace

theorem indented_lines (h : Indented (t.memberLines (t.naming p) p) line) :
    Indented (t.lines p) line :=
  h.indent.mono fun _ hl => mem_append_left _ (mem_append_right _ hl)

/-- **A line of a handler is a line of the activity.** -/
theorem indented_handler (hh : h ∈ p.handlers) (hline : line ∈ (t.handlerLines (t.naming p) h).2) :
    Indented (t.lines p) line := by
  have hcreate : Indented
      (t.onCreateLines (t.naming p) (p.handlers.map (t.handlerLines (t.naming p)))) line :=
    indented_onCreateLines (mem_map_of_mem hh) hline
  exact indented_lines (hcreate.mono fun _ hl =>
    mem_append_left _ (mem_append_right _ hl))

/-- **A line of a procedure is a line of the activity.** -/
theorem indented_procedure (hq : q ∈ Code.firsts Code.Procedure.name p.procedures)
    (hline : line ∈ procedureLines (t.naming p) q) : Indented (t.lines p) line :=
  indented_lines (indented_of_mem (mem_append_right _
    (mem_flatMap.2 ⟨q, hq, mem_cons_of_mem _ hline⟩)))

/-- **What a line of the activity shows stands in the source.** -/
theorem within_source {s : String} (h : Shows (t.lines p) s) : Within s (t.source p) := by
  obtain ⟨line, hline, hs⟩ := h
  exact (hs.trans (Text.within_join hline)).inLeft _

/-- The line of a global variable stands in the source. -/
theorem shows_global {g : Code.Global} (hg : g ∈ Code.firsts Code.Global.name p.globals) :
    Shows (t.lines p) (globalLine (t.naming p) g) := by
  have hmem : globalLine (t.naming p) g
      ∈ (Code.firsts Code.Global.name p.globals).map (globalLine (t.naming p)) :=
    mem_map_of_mem hg
  refine (indented_lines (indented_of_mem ?_)).shows
  refine mem_append_left _ (mem_append_left _ (mem_append_right _ ?_))
  dsimp only
  rw [isEmpty_eq_false_iff.2 (ne_nil_of_mem hmem)]
  exact mem_append_left _ hmem

/-- The lines of a handler stand in the source. -/
theorem shows_handler (hh : h ∈ p.handlers) (hline : line ∈ (t.handlerLines (t.naming p) h).2) :
    Shows (t.lines p) line :=
  (indented_handler hh hline).shows

/-- The lines of a procedure stand in the source. -/
theorem shows_procedure (hq : q ∈ Code.firsts Code.Procedure.name p.procedures)
    (hline : line ∈ procedureLines (t.naming p) q) : Shows (t.lines p) line :=
  (indented_procedure hq hline).shows

end Kotlin
end ScreenForge
