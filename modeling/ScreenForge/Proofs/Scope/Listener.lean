/-
# One listener for an event of a component

A handler whose component is in the layout and whose event sets a listener is written as a group of
lines in the method that sets the screen up.  The first line of the group registers the listener,
and no other line of the section starts like it: bodies are indented, handlers that cannot be bound
are comments.

A second registration with one setter on one field replaces the first.  Repeated declarations are
reported of global variables and procedures alone.
-/
import ScreenForge.Component.Packaged
import ScreenForge.Proofs.Scope.Field

namespace ScreenForge

open List

namespace Kotlin

open Component (Event)

/-! ### What a handler registers -/

/-- The event for which a handler registers a listener: its component is in the layout, and the
event is not part of setting the screen up. -/
def Target.listens? (t : Target) (h : Code.Handler) : Option Event :=
  if Assoc.has h.component t.components then (t.eventOf h).filter fun e => !e.inline else none

theorem Target.isSome_listens? (t : Target) (h : Code.Handler) :
    (t.listens? h).isSome = t.isListener h := by
  rw [Target.listens?, Target.isListener]
  cases Assoc.has h.component t.components with
  | false => rfl
  | true => simp [Option.isSome_filter]

/-- A listener as it is registered: on a field, for an event. -/
structure Registration where
  field : String
  event : Event
  deriving DecidableEq, Repr

/-- The line that registers a listener. -/
def Registration.line (r : Registration) : String := listenerLine r.field r.event

/-- What a registration sets: the field, and the method that sets the listener. -/
def Registration.setter (r : Registration) : String × String :=
  (r.field, r.event.listener.getD "None")

/-- The listener that a handler registers. -/
def Target.registration? (t : Target) (env : Env) (h : Code.Handler) : Option Registration :=
  (t.listens? h).map fun e => ⟨(env.fields.lookup h.component).getD "", e⟩

/-- **The listeners that a program registers**, in the order of its handlers. -/
def Target.registrations (t : Target) (p : Code.Program) : List Registration :=
  p.handlers.filterMap (t.registration? (t.naming p))

/-! ### The lines that register -/

/-- The lines of the handlers that become listeners or comments. -/
def Target.listenerLines (t : Target) (p : Code.Program) : List String :=
  spaced (((p.handlers.map (t.handlerLines (t.naming p))).filter fun h => h.1 == .listeners).map
    Prod.snd)

/-- Whether a line opens a group of code: it is not indented, closes nothing and is no comment. -/
def opensGroup (line : String) : Bool := line.toList.head?.any fun c => !" /\x7d".toList.contains c

theorem opensGroup_empty : opensGroup "" = false := by decide

theorem filter_opens_spaced (groups : List (List String)) :
    (spaced groups).filter opensGroup = groups.flatMap (List.filter opensGroup) := by
  rw [← filter_solid opensGroup_empty, solid_spaced, filter_solid opensGroup_empty,
    filter_flatten, flatMap_def]

theorem filter_opens_commented (reason : String) (body : List String) :
    (commented reason body).filter opensGroup = [] := by
  have hcomment : ∀ text : String, opensGroup ("// " ++ text) = false := by
    intro text
    rw [opensGroup, String.toList_append]
    rfl
  rw [commented, filter_eq_nil_iff]
  refine forall_mem_cons.2 ⟨?_, forall_mem_map.2 fun line _ => ?_⟩
  all_goals
    rw [hcomment]
    exact Bool.false_ne_true

/-- No line that is indented registers a listener. -/
theorem filter_opens_indent (lines : List String) : (indent lines).filter opensGroup = [] := by
  rw [indent, filter_eq_nil_iff]
  refine forall_mem_map.2 fun line _ => ?_
  split
  · next h => rw [h, opensGroup_empty]; exact Bool.false_ne_true
  · rw [opensGroup, String.toList_append]
    exact Bool.false_ne_true

theorem opensGroup_listenerLine {field : String} (h : isName field) (e : Event) :
    opensGroup (listenerLine field e) := by
  obtain ⟨⟨c, cs, hs, hc, -⟩, -⟩ := isName_iff.1 h
  have hother : " /\x7d".toList.all fun d => !isNameChar d := by decide
  have hopens : " /\x7d".toList.contains c = false := Bool.eq_false_iff.2 fun hmem => by
    have hnot := all_eq_true.1 hother c (contains_iff_mem.1 hmem)
    rw [hc] at hnot
    cases hnot
  rw [opensGroup, listenerLine]
  simp only [String.toList_append, hs, cons_append, List.head?_cons, Option.any_some, hopens,
    Bool.not_false]

section
variable {t : Target} {p : Code.Program}

/-- **A handler that registers a listener has the field of its component.** -/
theorem exists_field_of_listens {h : Code.Handler} (hh : h ∈ p.handlers) {e : Event}
    (he : t.listens? h = some e) :
    ∃ field, (t.naming p).fields.lookup h.component = some field ∧ isName field := by
  have hlistener : t.isListener h := by rw [← t.isSome_listens?, he]; rfl
  have huse : h.component ∈ t.uses p := by
    refine mem_append_left _ (mem_append_right _ (mem_flatMap.2 ⟨h, hh, ?_⟩))
    rw [Target.usesOf, if_pos hlistener]
    exact mem_append_left _ (mem_singleton.2 rfl)
  have hkey : h.component ∈ Assoc.keys (t.naming p).fields := by
    rw [keys_fields, Target.usedComponents, mem_eraseDups, mem_filter]
    exact ⟨huse, (Bool.and_eq_true_iff.1 hlistener).1⟩
  obtain ⟨field, hfield⟩ := Option.isSome_iff_exists.1 (Assoc.isSome_lookup.2 hkey)
  have hname := isName_of_mem_assign (e := (h.component, field)) (Assoc.mem_of_lookup hfield)
  exact ⟨field, hfield, hname⟩

/-- **Of the lines of a handler only the registration opens a group.** -/
theorem filter_opens_handlerLines {h : Code.Handler} (hh : h ∈ p.handlers) :
    (if (t.handlerLines (t.naming p) h).1 == .listeners
      then (t.handlerLines (t.naming p) h).2.filter opensGroup else [])
      = (t.registration? (t.naming p) h).toList.map Registration.line := by
  have hlistens : t.listens? h = if (t.components.lookup h.component).isSome
      then (t.eventOf h).filter fun e => !e.inline else none := by
    rw [Assoc.isSome_lookup_eq_has, Target.listens?]
  cases hcomponent : t.components.lookup h.component with
  | none =>
    rw [hcomponent] at hlistens
    rw [Target.registration?, hlistens, Target.handlerLines, hcomponent]
    exact filter_opens_commented _ _
  | some ref =>
    cases hevent : t.eventOf h with
    | none =>
      rw [hcomponent, hevent] at hlistens
      rw [Target.registration?, hlistens, Target.handlerLines, hcomponent, hevent]
      exact filter_opens_commented _ _
    | some e =>
      rw [hcomponent, hevent, Option.filter_some] at hlistens
      cases hinline : e.inline with
      | true =>
        rw [hinline] at hlistens
        rw [Target.registration?, hlistens, Target.handlerLines, hcomponent, hevent]
        simp only [hinline]
        rfl
      | false =>
        rw [hinline] at hlistens
        obtain ⟨field, hfield, hname⟩ := exists_field_of_listens hh hlistens
        have hclosing : opensGroup closingLine = false := by decide
        rw [Target.registration?, hlistens, Target.handlerLines, hcomponent, hevent, hfield]
        have hbody : ∀ body : List String,
            (listenerLine field e :: (indent body ++ [closingLine])).filter opensGroup
              = [listenerLine field e] := by
          intro body
          rw [filter_cons_of_pos (opensGroup_listenerLine hname e), filter_append,
            filter_opens_indent, filter_singleton, hclosing]
          rfl
        simp only [hinline, Option.getD_some]
        exact hbody _

/-- **The lines that open a group among the listeners are the registrations**, in the order of the
handlers. -/
theorem filter_opens_listenerLines (t : Target) (p : Code.Program) :
    (t.listenerLines p).filter opensGroup = (t.registrations p).map Registration.line := by
  have hflat : ∀ groups : List (Place × List String),
      ((groups.filter fun g => g.1 == .listeners).map Prod.snd).flatMap (List.filter opensGroup)
        = groups.flatMap fun g => if g.1 == .listeners then g.2.filter opensGroup else [] := by
    intro groups
    induction groups with
    | nil => rfl
    | cons g rest ih =>
      rw [flatMap_cons, ← ih, filter_cons]
      split <;> rfl
  rw [Target.listenerLines, filter_opens_spaced, hflat, flatMap_map, Target.registrations,
    filterMap_eq_flatMap_toList, map_flatMap]
  exact flatMap_congr fun h hh => filter_opens_handlerLines hh

theorem infix_sections {groups : List (List String)} {group : List String} (h : group ∈ groups) :
    group <:+: sections groups := by
  obtain ⟨before, after, rfl⟩ := append_of_mem h
  rw [sections, flatMap_append, flatMap_cons]
  refine List.IsInfix.trans ?_ (infix_append' _ _ _)
  cases group with
  | nil => exact nil_infix
  | cons first rest => exact (suffix_cons _ _).isInfix

/-- **The listeners stand together in the activity**, two steps in. -/
theorem listenerLines_infix (t : Target) (p : Code.Program) :
    indent (indent (t.listenerLines p)) <:+: t.lines p := by
  have hcreate : indent (t.listenerLines p)
      <:+: t.onCreateLines (t.naming p) (p.handlers.map (t.handlerLines (t.naming p))) := by
    rw [Target.onCreateLines, bracedLines]
    refine infix_cons (List.IsInfix.trans ?_ (prefix_append _ _).isInfix)
    refine List.IsInfix.map _ (infix_cons (infix_cons (infix_sections ?_)))
    exact mem_cons_of_mem _ (mem_cons_of_mem _ mem_cons_self)
  have hmembers : indent (t.listenerLines p) <:+: t.memberLines (t.naming p) p :=
    hcreate.trans (infix_append _ _ _)
  exact (hmembers.map _).trans (infix_append _ _ _)

/-! ### Which registrations are alike -/

/-- Two handlers that set one listener: they name one component and events of one setter. -/
def Target.Clash (t : Target) (h k : Code.Handler) : Prop :=
  ∃ e ∈ t.listens? h, ∃ f ∈ t.listens? k,
    h.component = k.component ∧ e.listener.getD "None" = f.listener.getD "None"

/-- **Registrations set the same exactly for handlers that clash.** -/
theorem nodup_setters_iff (t : Target) (p : Code.Program) :
    ((t.registrations p).map Registration.setter).Nodup
      ↔ p.handlers.Pairwise fun h k => ¬ t.Clash h k := by
  rw [List.Nodup, pairwise_map, Target.registrations, pairwise_filterMap]
  refine List.Pairwise.iff_of_mem fun {h k} hh hk => ?_
  constructor
  · rintro hne ⟨e, he, f, hf, hcomponent, hsetter⟩
    have hr : t.registration? (t.naming p) h
        = some ⟨((t.naming p).fields.lookup h.component).getD "", e⟩ := by
      rw [Target.registration?, he, Option.map_some]
    have hs : t.registration? (t.naming p) k
        = some ⟨((t.naming p).fields.lookup k.component).getD "", f⟩ := by
      rw [Target.registration?, hf, Option.map_some]
    refine hne _ hr _ hs (Prod.ext ?_ hsetter)
    rw [Registration.setter, Registration.setter, hcomponent]
  · intro hclash r hr s hs heq
    obtain ⟨e, he, rfl⟩ := Option.map_eq_some_iff.1 hr
    obtain ⟨f, hf, rfl⟩ := Option.map_eq_some_iff.1 hs
    obtain ⟨field, hfield, -⟩ := exists_field_of_listens hh he
    obtain ⟨field', hfield', -⟩ := exists_field_of_listens hk hf
    obtain ⟨hfields, hsetter⟩ := Prod.mk.inj heq
    simp only [hfield, hfield', Option.getD_some] at hfields
    subst hfields
    have hcomponent : h.component = k.component :=
      eq_of_mem_assign (Assoc.mem_of_lookup hfield) (Assoc.mem_of_lookup hfield')
    exact hclash ⟨e, he, f, hf, hcomponent, hsetter⟩

end

end Kotlin

namespace Site

open Journal (notes settle)
open Kotlin (Registration Target indent opensGroup)

/-! ### What is reported of declarations -/

/-- No defect is a repeated declaration. -/
theorem filter_reports (defects : List Defect) :
    (defects.map Defect.report).filter (fun d => d.code = .duplicateDeclaration) = [] := by
  rw [filter_eq_nil_iff]
  exact forall_mem_map.2 fun d _ h => by cases d <;> cases of_decide_eq_true h

theorem filter_duplicateReports (p : Block.Program) :
    (duplicateReports p).filter (fun d => d.code = .duplicateDeclaration) = duplicateReports p := by
  have hnotes : ∀ (what : String) (names : List String),
      ∀ d ∈ notes (names.map (Kotlin.duplicateNote what)), d.code = .duplicateDeclaration := by
    intro what names
    induction names with
    | nil => exact fun d hd => absurd hd not_mem_nil
    | cons name rest ih => exact forall_mem_cons.2 ⟨rfl, ih⟩
  rw [filter_eq_self]
  intro d hd
  rw [duplicateReports, duplicateNotes, Journal.notes_append, mem_append] at hd
  exact decide_eq_true (hd.elim (hnotes _ _ d) (hnotes _ _ d))

/-- **Repeated declarations are reported of global variables and procedures alone.** -/
theorem filter_duplicates {t : Target} {p : Block.Program} {report : List Diagnostic}
    (h : settle .unlimited (t.review (.ofBlocks p)) = .ok report) :
    (report.filter fun d => d.code = .duplicateDeclaration) = duplicateReports p := by
  obtain ⟨hstops, rfl⟩ := Journal.settle_unlimited_eq_ok_iff.1 h
  rw [stops_program_eq, filterMap_eq_nil_iff] at hstops
  have hperm := notes_review (t := t) hstops
  have hsplit : notes (t.review (.ofBlocks p)) = duplicateReports p
      ++ notes ((roots p).flatMap (Root.review t (t.naming (.ofBlocks p)))) := by
    rw [review_ofBlocks, Journal.notes_append, duplicateReports]
  rw [hsplit] at hperm ⊢
  have hrest := (((perm_append_left_iff _).1 hperm).filter
    fun d => decide (d.code = .duplicateDeclaration))
  rw [filter_reports] at hrest
  rw [filter_append, filter_duplicateReports, hrest.eq_nil, append_nil]

/-- **Every handler that can be bound registers a listener, and what clashes is not reported.**  The
lines of the listeners stand together in the activity, and the registrations among them are those of
the handlers whose component is in the layout and whose event has a listener, one for each and in
their order.  They set different things exactly if no two handlers clash.  The repeated declarations
that are reported are those of global variables and procedures, so a clash goes unreported. -/
theorem listeners_in_order_and_distinct_iff (t : Target) (p : Block.Program) :
    indent (indent (t.listenerLines (.ofBlocks p))) <:+: t.lines (.ofBlocks p)
    ∧ (t.listenerLines (.ofBlocks p)).filter opensGroup
      = (t.registrations (.ofBlocks p)).map Registration.line
    ∧ (∀ h : Block.Handler,
        (t.registration? (t.naming (.ofBlocks p)) (.ofBlock h)).isSome = true
          ↔ Assoc.has h.component t.components = true
            ∧ ∃ e, t.eventOf (.ofBlock h) = some e ∧ e.inline = false)
    ∧ (((t.registrations (.ofBlocks p)).map Registration.setter).Nodup
      ↔ p.handlers.Pairwise fun h k => ¬ t.Clash (.ofBlock h) (.ofBlock k))
    ∧ ∀ report, settle .unlimited (t.review (.ofBlocks p)) = .ok report →
        (report.filter fun d => d.code = .duplicateDeclaration) = duplicateReports p := by
  have hhandlers : (Code.Program.ofBlocks p).handlers = p.handlers.map Code.Handler.ofBlock := rfl
  refine ⟨Kotlin.listenerLines_infix t _, Kotlin.filter_opens_listenerLines t _, ?_, ?_,
    fun report h => filter_duplicates h⟩
  · intro h
    rw [Target.registration?, Option.isSome_map, t.isSome_listens?, Target.isListener,
      Bool.and_eq_true, Option.any_eq_true]
    simp only [Bool.not_eq_true']
    rfl
  · rw [Kotlin.nodup_setters_iff, hhandlers, pairwise_map]

/-- A layout with one button. -/
def pressedTarget : Target where
  package := "app"
  components := [("Go", ⟨"Go", "Button", "button1",
    { tag := "Button", idStem := "button",
      events := [("Click", { listener := some "setOnClickListener" }),
        ("LongClick", { listener := some "setOnLongClickListener", result := some "true" })] }⟩)]

/-- A button that listens to two events, beside a variable that is declared twice. -/
def pressedTwoWays : Block.Program where
  handlers := [⟨"Go", "Button", "Click", none, []⟩, ⟨"Go", "Button", "LongClick", none, []⟩]
  globals := [⟨"x", none⟩, ⟨"x", none⟩]

/-- Two events are two listeners; what is declared twice is the variable. -/
theorem two_events_two_listeners :
    ∃ d, settle .unlimited (pressedTarget.review (.ofBlocks pressedTwoWays)) = .ok [d]
      ∧ d.code = .duplicateDeclaration ∧ d.subject = some "x"
      ∧ duplicateReports pressedTwoWays = [d]
      ∧ ((pressedTarget.registrations (.ofBlocks pressedTwoWays)).map Registration.setter).Nodup
      := by
  let d : Diagnostic := .warning .duplicateDeclaration
    "Global variable 'x' declared twice; first declaration wins" (some "x")
  have hreport : settle .unlimited (pressedTarget.review (.ofBlocks pressedTwoWays)) = .ok [d] :=
    Journal.settle_unlimited_eq_ok_iff.2 ⟨by decide +kernel, by decide +kernel⟩
  obtain ⟨-, -, -, -, hduplicates⟩ :=
    listeners_in_order_and_distinct_iff pressedTarget pressedTwoWays
  exact ⟨d, hreport, rfl, rfl, (hduplicates [d] hreport).symm, by decide +kernel⟩

/-- A button with two handlers of one event. -/
def pressedTwice : Block.Program where
  handlers := [⟨"Go", "Button", "Click", none, []⟩, ⟨"Go", "Button", "Click", none, []⟩]

/-- The second listener of an event replaces the first, and nothing is reported. -/
theorem clashing_handlers_unreported :
    settle .unlimited (pressedTarget.review (.ofBlocks pressedTwice)) = .ok []
      ∧ (pressedTarget.registrations (.ofBlocks pressedTwice)).map Registration.line
        = ["go.setOnClickListener \x7b", "go.setOnClickListener \x7b"]
      ∧ ¬ ((pressedTarget.registrations (.ofBlocks pressedTwice)).map Registration.setter).Nodup :=
  ⟨Journal.settle_unlimited_eq_ok_iff.2 ⟨by decide +kernel, by decide +kernel⟩,
    by decide +kernel, by decide +kernel⟩

end Site
end ScreenForge
