/-
# Foreign characters in activities

An activity is put together from lines: those of its handlers, of its procedures, and its own.  Its
own are written with texts that it is given, the names and ids in a layout and the texts of rules
(`Target.texts`).  A handler that is no listener takes over the names of its component and its event
(`Target.verbatim`).
-/
import ScreenForge.Proofs.Kotlin.Foreign

namespace ScreenForge

open List

namespace Kotlin

open Code (Expr Stmt)
open Text (Has Spread has_append has_join has_printable isPrintable isPrintableText spread_append
  spread_cons spread_flatMap spread_map spread_nil)

variable {c : Char} {e : Component.Event} {ref : Layout.Ref} {p : Code.Program}
  {entry : String × Layout.Ref} {b : String × Layout.Ref}

/-! ### Handlers and procedures -/

/-- The texts of an event that a listener is written with. -/
def eventTexts (e : Component.Event) : List String :=
  e.listener.toList ++ e.lambdaArgs ++ e.result.toList

/-- The texts of a rule that an activity is written with. -/
def ruleTexts (rule : Component.Rule) : List String :=
  rule.tag :: (rule.viewClass.toList ++ rule.accessors.map Prod.snd ++ rule.methods.map Prod.snd
    ++ rule.events.flatMap fun e => eventTexts e.2)

/-- The texts that members of an activity are written with besides its program: its own name, the
ids of views and the texts of rules. -/
def Target.texts (t : Target) : List String :=
  t.activity :: t.components.flatMap fun e => e.2.viewId :: ruleTexts e.2.rule

/-- The texts that a handler takes over, apart from its body. -/
def Target.verbatim (t : Target) (h : Code.Handler) : List String :=
  if t.isListener h then [] else [h.component, h.event]

/-! #### What holds of all texts of a target -/

section

variable {Q : String → Prop} {t : Target} (ht : ∀ s ∈ t.texts, Q s)
include ht

theorem Target.forall_ref (h : entry ∈ t.components) :
    ∀ s ∈ entry.2.viewId :: ruleTexts entry.2.rule, Q s :=
  fun s hs => ht s (mem_cons_of_mem _ (mem_flatMap.2 ⟨entry, h, hs⟩))

theorem Target.forall_words (h : entry ∈ t.components) {a : String × String}
    (ha : a ∈ entry.2.rule.accessors ++ entry.2.rule.methods) : Q a.2 := by
  refine t.forall_ref ht h _ ?_
  rcases mem_append.1 ha with ha | ha <;>
    simp [ruleTexts, mem_map_of_mem (f := Prod.snd) ha, -mem_map]

theorem Target.forall_event {h : Code.Handler}
    (hcomponent : t.components.lookup h.component = some ref) (he : t.eventOf h = some e) :
    ∀ s ∈ eventTexts e, Q s := by
  have hrule : t.ruleOf h = some ref.rule := by rw [Target.ruleOf, hcomponent]
  have hevent : ref.rule.events.lookup h.event = some e := by
    rw [Target.eventOf, hrule] at he
    exact he
  intro s hs
  refine t.forall_ref ht (Assoc.mem_of_lookup hcomponent) s ?_
  simp only [ruleTexts, mem_cons, mem_append, mem_flatMap]
  exact Or.inr (Or.inr (Or.inr ⟨_, Assoc.mem_of_lookup hevent, hs⟩))

theorem Target.forall_bound (h : b ∈ t.bound (t.naming p)) :
    ∀ s ∈ b.2.viewId :: ruleTexts b.2.rule, Q s := by
  obtain ⟨name, -, href⟩ := exists_of_mem_bound h
  have htexts := t.forall_ref ht (Assoc.mem_of_lookup href)
  exact htexts

omit ht in
theorem of_qualifiedClass {rule : Component.Rule} (h : ∀ s ∈ ruleTexts rule, Q s)
    (hwidget : ∀ s, Q s → Q ("android.widget." ++ s)) : Q rule.qualifiedClass := by
  have htag : Q (Component.Rule.qualifiedClass.fromTag rule) := by
    unfold Component.Rule.qualifiedClass.fromTag
    split
    · exact h _ mem_cons_self
    · exact hwidget _ (h _ mem_cons_self)
  unfold Component.Rule.qualifiedClass
  split
  · next name hname =>
    split
    · exact htag
    · exact h _ (by simp [ruleTexts, hname])
  · exact htag

theorem Target.forall_imports (hbundle : Q "android.os.Bundle")
    (hactivity : Q "androidx.appcompat.app.AppCompatActivity")
    (hwidget : ∀ s, Q s → Q ("android.widget." ++ s)) :
    ∀ name ∈ t.imports (t.naming p), Q name := by
  intro name hname
  rw [mem_imports_iff, Target.importedClasses] at hname
  rcases mem_cons.1 hname with rfl | hname
  · exact hbundle
  rcases mem_cons.1 hname with rfl | hname
  · exact hactivity
  · obtain ⟨b, hb, rfl⟩ := mem_map.1 hname
    exact of_qualifiedClass (forall_mem_cons.1 (t.forall_bound ht hb)).2 hwidget

end

theorem not_has_of_mem {lines : List String} (h : ¬ Spread c lines) {line : String}
    (hline : line ∈ lines) : ¬ Has c line :=
  fun hhas => h ⟨line, hline, hhas⟩

theorem spread_commented (hc : isPrintable c = false) (reason : String) (body : List String) :
    Spread c (commented reason body) ↔ Has c reason ∨ Spread c body := by
  simp (disch := decide) only [commented, spread_cons, spread_map, has_append, has_printable hc,
    false_or]
  rfl

section

variable {t : Target} (hc : isPrintable c = false) (ht : ¬ Spread c t.texts)

include ht in
theorem not_has_texts : ∀ s ∈ t.texts, ¬ Has c s :=
  fun _ => not_has_of_mem ht

include hc ht

/-- The members of an activity have no foreign character that it is not given. -/
theorem lacks_naming (p : Code.Program) : (t.naming p).Lacks c :=
  { small_naming t p with
    ofSmall := fun h => (has_printable hc (isPrintableText_of_isSmall h)).1
    qualified := fun h => by
      have hactivity : ¬ Has c (t.naming p).activity := not_has_of_mem ht mem_cons_self
      simp (disch := decide) [has_printable hc, hactivity, h]
    accessors := fun _ he _ ha => t.forall_words (not_has_texts ht) he (mem_append_left _ ha)
    methods := fun _ he _ hm => t.forall_words (not_has_texts ht) he (mem_append_right _ hm) }

omit hc in
theorem not_spread_event {h : Code.Handler}
    (hcomponent : t.components.lookup h.component = some ref) (he : t.eventOf h = some e) :
    ¬ Spread c (eventTexts e) := by
  rintro ⟨s, hs, hhas⟩
  exact t.forall_event (not_has_texts ht) hcomponent he s hs hhas

theorem not_has_listenerLine {h : Code.Handler}
    (hcomponent : t.components.lookup h.component = some ref) (he : t.eventOf h = some e)
    {field : String} (hfield : ¬ Has c field) : ¬ Has c (listenerLine field e) := by
  have hevent := not_spread_event ht hcomponent he
  have hcomma : ¬ Has c ", " := (has_printable hc (by decide)).1
  have hargs : ¬ Spread c e.lambdaArgs :=
    fun h => hevent (h.mono fun s hs => by simp [eventTexts, hs])
  have hlistener : ¬ Has c (e.listener.getD "None") := by
    cases hl : e.listener with
    | none => exact (has_printable hc (by decide)).1
    | some s => exact not_has_of_mem hevent (by simp [eventTexts, hl])
  unfold listenerLine
  dsimp only
  split <;>
    simp (disch := decide) [has_printable hc, has_join hcomma, hfield, hlistener, hargs]

/-- **A foreign character stands in a handler if and only if its names or its body have it.** -/
theorem spread_handlerLines_iff (p : Code.Program) (h : Code.Handler) :
    Spread c (t.handlerLines (t.naming p) h).2 ↔ Spread c (t.verbatim h) ∨
      Spread c (stmtsLines (t.naming p) (t.scopeOf h) h.body) := by
  have henv := lacks_naming hc ht p
  have hlistens : t.isListener h = ((t.components.lookup h.component).isSome
      && (t.eventOf h).any fun e => !e.inline) := by
    rw [Target.isListener, Assoc.isSome_lookup_eq_has]
  rw [Target.verbatim, hlistens, Target.handlerLines]
  cases hcomponent : t.components.lookup h.component with
  | none =>
    simp (disch := decide) [spread_commented hc, eventLabel, has_printable hc]
  | some ref =>
    cases hevent : t.eventOf h with
    | none =>
      simp (disch := decide) [spread_commented hc, eventLabel, has_printable hc]
    | some e =>
      cases hinline : e.inline with
      | true =>
        simp (disch := decide) [eventLabel, has_printable hc, hinline]
      | false =>
        have hfield : ¬ Has c (((t.naming p).fields.lookup h.component).getD "") :=
          henv.named henv.fields _
        have hresult : ¬ Spread c e.result.toList := fun h =>
          not_spread_event ht hcomponent hevent (h.mono (subset_append_right _ _))
        simp (disch := decide) [hinline, spread_indent hc, has_printable hc, hresult,
          not_has_listenerLine hc ht hcomponent hevent hfield]

omit ht in
theorem not_spread_params (params : List String) :
    ¬ Spread c (params.map fun n => identifier n ++ ": Any?") := by
  rw [spread_map]
  rintro ⟨n, -, hhas⟩
  rw [has_append, has_identifier hc, has_printable hc (by decide)] at hhas
  exact hhas.elim id id

/-- **A foreign character stands in a procedure if and only if its body or its result has it.** -/
theorem spread_procedureLines_iff (p : Code.Program) (q : Code.Procedure) :
    Spread c (procedureLines (t.naming p) q) ↔
      Spread c (stmtsLines (t.naming p) q.params q.body) ∨
        ∃ e ∈ q.result, Has c (exprText (t.naming p) q.params e) := by
  have henv := lacks_naming hc ht p
  have hcomma : ¬ Has c ", " := (has_printable hc (by decide)).1
  have hname : ¬ Has c (((t.naming p).procedures.lookup q.name).getD "") :=
    henv.named henv.procedures _
  rw [procedureLines]
  cases hresult : q.result with
  | none =>
    simp (disch := decide) only [spread_bracedLines hc, has_append, has_printable hc, hname,
      has_join hcomma, not_spread_params hc, false_or, or_self]
    simp
  | some e =>
    simp (disch := decide) [spread_bracedLines hc, has_printable hc, hname, has_join hcomma,
      not_spread_params hc]

/-! ### Activities -/

omit hc ht in
theorem spread_congr {lines others : List String} (h : solid lines = solid others) :
    Spread c lines ↔ Spread c others := by
  have hsolid : ∀ lines, Spread c (solid lines) ↔ Spread c lines := by
    refine fun lines => ⟨fun h => h.mono (filter_subset_self _), fun ⟨line, hline, hhas⟩ => ?_⟩
    refine ⟨line, mem_filter.2 ⟨hline, bne_iff_ne.2 ?_⟩, hhas⟩
    rintro rfl
    exact absurd hhas (by simp [Has])
  rw [← hsolid, h, hsolid]

omit ht in
theorem not_has_widget {s : String} (h : ¬ Has c s) : ¬ Has c ("android.widget." ++ s) := by
  rwa [has_append, has_printable hc (by decide), false_or]

theorem not_has_of_mem_bound (h : b ∈ t.bound (t.naming p)) :
    ¬ Has c b.1 ∧ ¬ Has c b.2.viewId ∧ ¬ Has c b.2.rule.className := by
  have htexts := forall_mem_cons.1 (t.forall_bound (not_has_texts ht) h)
  refine ⟨(lacks_naming hc ht p).ofSmall (isSmall_of_mem_bound h), htexts.1, fun hhas => ?_⟩
  rw [Component.Rule.className, Has, String.toList_ofList] at hhas
  exact of_qualifiedClass htexts.2 (fun s => not_has_widget hc)
    ((Text.afterLast_suffix _ _).subset hhas)

theorem not_spread_bindings (p : Code.Program) : ¬ Spread c ((t.bound (t.naming p)).map fun b =>
    b.1 ++ " = findViewById(R.id." ++ b.2.viewId ++ ")") := by
  rw [spread_map]
  rintro ⟨b, hb, hhas⟩
  simp (disch := decide) [has_printable hc, not_has_of_mem_bound hc ht hb] at hhas

theorem not_spread_fields (p : Code.Program) : ¬ Spread c ((t.bound (t.naming p)).map fun b =>
    "private lateinit var " ++ b.1 ++ ": " ++ b.2.rule.className) := by
  rw [spread_map]
  rintro ⟨b, hb, hhas⟩
  simp (disch := decide) [has_printable hc, not_has_of_mem_bound hc ht hb] at hhas

theorem not_spread_imports (p : Code.Program) :
    ¬ Spread c ((t.imports (t.naming p)).map fun name => "import " ++ name) := by
  rw [spread_map]
  rintro ⟨name, hname, hhas⟩
  rw [has_append, has_printable hc (by decide), false_or] at hhas
  exact t.forall_imports (not_has_texts ht) (has_printable hc (by decide)).1
    (has_printable hc (by decide)).1 (fun s => not_has_widget hc) name hname hhas

/-- A foreign character in the setting up comes from a handler. -/
theorem spread_onCreateLines (hlayout : ¬ Has c t.layoutName) (p : Code.Program)
    (handlers : List (Place × List String)) :
    Spread c (t.onCreateLines (t.naming p) handlers) ↔ Spread c (handlers.flatMap Prod.snd) := by
  have hplaces : ∀ place, Spread c (spaced ((handlers.filter fun h => h.1 == place).map Prod.snd))
      ↔ ∃ h ∈ handlers, h.1 = place ∧ Spread c h.2 := by
    intro place
    rw [spread_congr (solid_spaced _), ← flatMap_def, spread_flatMap]
    simp [mem_filter, and_assoc]
  simp (disch := decide) only [Target.onCreateLines, spread_bracedLines hc, spread_cons,
    spread_congr (solid_sections _), flatten_cons, flatten_nil, spread_append, spread_nil,
    has_append, has_printable hc, hlayout, false_or, or_self, or_false, not_spread_bindings hc ht,
    hplaces, spread_flatMap]
  constructor
  · rintro (⟨h, hh, -, hspread⟩ | ⟨h, hh, -, hspread⟩) <;> exact ⟨h, hh, hspread⟩
  · rintro ⟨⟨place, lines⟩, hh, hspread⟩
    cases place with
    | setup => exact Or.inl ⟨_, hh, rfl, hspread⟩
    | listeners => exact Or.inr ⟨_, hh, rfl, hspread⟩

/-- One in the line of a global variable comes from its value. -/
theorem has_globalLine (p : Code.Program) (g : Code.Global) :
    Has c (globalLine (t.naming p) g) ↔ ∃ e ∈ g.value, Has c (exprText (t.naming p) [] e) := by
  have henv := lacks_naming hc ht p
  have hname : ¬ Has c (((t.naming p).globals.lookup g.name).getD "") :=
    henv.named henv.globals _
  unfold globalLine
  cases g.value with
  | none => simp (disch := decide) [has_append, has_printable hc, hname]
  | some e => simp (disch := decide) [has_printable hc, hname]

/-- **A foreign character stands in an activity if and only if one of its declarations has it.** -/
theorem spread_lines_iff (hpackage : ¬ Has c t.package) (hlayout : ¬ Has c t.layoutName)
    (p : Code.Program) : Spread c (t.lines p) ↔
    (∃ g ∈ Code.firsts Code.Global.name p.globals,
      ∃ e ∈ g.value, Has c (exprText (t.naming p) [] e)) ∨
    (∃ h ∈ p.handlers, Spread c (t.handlerLines (t.naming p) h).2) ∨
    ∃ q ∈ Code.firsts Code.Procedure.name p.procedures,
      Spread c (procedureLines (t.naming p) q) := by
  have hactivity : ¬ Has c t.activity := not_has_of_mem ht mem_cons_self
  simp (disch := decide) only [Target.lines, Target.memberLines, spread_append, spread_cons,
    spread_nil, spread_indent hc, spread_congr (solid_leading _), has_append, has_printable hc, hpackage,
    hactivity, not_spread_imports hc ht, not_spread_fields hc ht,
    spread_onCreateLines hc ht hlayout, flatMap_map, spread_flatMap, or_self, false_or,
    or_false, or_assoc]
  simp [has_globalLine hc ht]

end

end Kotlin

end ScreenForge
