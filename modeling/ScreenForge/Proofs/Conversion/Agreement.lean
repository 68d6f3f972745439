/-
# The two files of a screen agree

| in the activity | in the layout |
| --- | --- |
| a field is bound to an id | one element has that id |
| the field is that of a name | the element is that of the first component of that name |
| the field is declared with a class, which is imported | the class is that of its rule |

A line of the activity can also come from a text that is taken over as it is.  A line break in the
field of an unknown block ends the comment that it stands in, and what follows is code: with it a
line can bind a field that nobody declared to a view that is not there.
-/
import ScreenForge.Component.Packaged
import ScreenForge.Conversion.Screen
import ScreenForge.Proofs.Kotlin.Fields
import ScreenForge.Proofs.Layout.Numbering

namespace ScreenForge
namespace Conversion

open List
open Component (Node Rule Table)
open Kotlin (Target bindingText declares fieldText isName tab unindented)
open Layout (Opening View emitted idText)
open Text (linesOf)

variable {table : Table} {form : Layout.Form}

/-! ### What a conversion makes of its descriptors -/

/-- The layout of a screen. -/
def viewOf (table : Table) (form : Layout.Form) : View :=
  Layout.ofScreen table .empty (Layout.screenOf form)

/-- What the activity of a screen is written for. -/
def targetOf (table : Table) (package : String) (form : Layout.Form) : Target :=
  { package, activity := activityName, layoutName, components := (viewOf table form).index, table }

/-- The program of a screen. -/
def codeOf (root : Option Markup.Element) : Code.Program := .ofBlocks (programOf root)

/-- The names of a screen's members. -/
def namesOf (table : Table) (package : String) (form : Layout.Form) (root : Option Markup.Element) :
    Kotlin.Env :=
  (targetOf table package form).naming (codeOf root)

/-- The source of a screen's activity. -/
def sourceOf (table : Table) (package : String) (form : Layout.Form)
    (root : Option Markup.Element) : String :=
  (targetOf table package form).source (codeOf root)

theorem endOf_ne_converted (name : String) (fault : Fault) (screen : Screen) :
    endOf name fault ≠ .ok (.converted screen) := by
  unfold endOf
  split <;> simp

section
variable {table : Table} {settings : Settings} {timer : Timer} {source : ScreenSource}
  {package : String} {screen : Screen}

theorem result_of_converted
    (h : convertScreen table settings timer source package = .ok (.converted screen)) :
    (draft table settings.limits settings.repairDescriptors source package).result
      = .ok screen := by
  unfold convertScreen Draft.settle at h
  split at h
  · exact absurd h (endOf_ne_converted _ _ _)
  · split at h
    · exact absurd h (endOf_ne_converted _ _ _)
    · next s hresult =>
      injection h with h
      injection h with h
      rw [hresult, h]

/-- **A conversion has two files**, the markup of the layout and the source of the activity. -/
theorem artifacts_of_converted
    (h : convertScreen table settings timer source package = .ok (.converted screen)) :
    ∃ form root,
      Layout.form source.layout settings.limits settings.repairDescriptors = .ok form ∧
      Block.rootOf source.blocks settings.limits = .ok root ∧
      screen.artifacts = [(layoutPath, (viewOf table form).render activityName),
        (activityPath package, sourceOf table package form root)] := by
  have hresult := result_of_converted h
  unfold draft at hresult
  split at hresult
  · cases hresult
  · next form hform =>
    simp only at hresult
    split at hresult
    · cases hresult
    · next root hroot =>
      injection hresult with hresult
      exact ⟨form, root, hform, hroot, by rw [← hresult]; rfl⟩

end

/-! ### Which element an id belongs to -/

/-- **An id stands for a component**: the component is the first of its name that becomes a view,
the element in its place has its tag and the id, and no other element has the id. -/
def StandsFor (table : Table) (form : Layout.Form) (id name : String) (e : Rule × Node) : Prop :=
  ∃ before after, emitted table (Layout.screenOf form) = before ++ e :: after ∧
    e.2.name = name ∧ (∀ other ∈ before, other.2.name ≠ name) ∧
    ∃ above element below,
      (viewOf table form).elements activityName = above ++ element :: below ∧
      above.length = before.length ∧ element.1 = e.1.tag ∧ element.ids = [idText id] ∧
      ∀ other ∈ above ++ below, idText id ∉ other.ids

theorem emitted_split {before after : List View} {view : View}
    (h : (viewOf table form).walk = before ++ view :: after) :
    ∃ first e rest, emitted table (Layout.screenOf form) = first ++ e :: rest ∧
      first.map (fun e => e.2.name) = before.map View.name ∧ e.1 = view.rule ∧
      e.2.name = view.name := by
  have horigin := Layout.map_origin_walk table .empty (Layout.screenOf form)
  rw [show Layout.ofScreen table .empty (Layout.screenOf form) = viewOf table form from rfl, h,
    map_append, map_cons] at horigin
  obtain ⟨first, others, hsplit, hfirst, hothers⟩ := map_eq_append_iff.1 horigin.symm
  obtain ⟨e, rest, rfl, he, -⟩ := map_eq_cons_iff.1 hothers
  refine ⟨first, e, rest, hsplit, ?_, congrArg (fun o => o.1) he, congrArg (fun o => o.2.2.1) he⟩
  have hnames := congrArg (List.map fun o => o.2.2.1) hfirst
  rw [map_map, map_map] at hnames
  exact hnames

/-- The elements before and behind that of a view are those of the views before and behind it. -/
theorem elements_split (hids : Layout.KeepsIds table) {before after : List View} {view : View}
    (h : (viewOf table form).walk = before ++ view :: after) :
    ∃ above element below,
      (viewOf table form).elements activityName = above ++ element :: below ∧
      above.length = before.length ∧ element.1 = view.rule.tag ∧ element.ids = [idText view.id] ∧
      ∀ other ∈ above ++ below, idText view.id ∉ other.ids := by
  have hmap := Layout.map_ids_elements hids .empty (Layout.screenOf form) activityName
  have hnodup : ((viewOf table form).walk.map View.id).Nodup := by
    obtain ⟨b, hissues⟩ := Layout.issues_ofScreen table .empty (Layout.screenOf form)
    exact hissues.nodup
  rw [show Layout.ofScreen table .empty (Layout.screenOf form) = viewOf table form from rfl, h,
    map_append, map_cons] at hmap
  obtain ⟨above, others, hsplit, habove, hothers⟩ := map_eq_append_iff.1 hmap
  obtain ⟨element, below, rfl, helement, hbelow⟩ := map_eq_cons_iff.1 hothers
  refine ⟨above, element, below, hsplit, ?_, congrArg Prod.fst helement,
    congrArg Prod.snd helement, ?_⟩
  · have := congrArg List.length habove
    rw [length_map, length_map] at this
    exact this
  · -- every other element has the id of another view
    intro other hother hid
    have hmem : (other.1, other.ids) ∈ (before ++ after).map
        fun view => (view.rule.tag, [idText view.id]) := by
      rw [map_append, ← habove, ← hbelow, ← map_append]
      exact mem_map_of_mem (f := fun opened => (opened.1, opened.ids)) hother
    obtain ⟨view', hview', heq⟩ := mem_map.1 hmem
    rw [← (Prod.mk.inj heq).2] at hid
    have hsame := (String.append_right_inj "@+id/").1 (mem_singleton.1 hid)
    rw [h, map_append, map_cons, perm_middle.nodup_iff, nodup_cons, ← map_append] at hnodup
    exact hnodup.1 (hsame ▸ mem_map_of_mem hview')

/-- **The id of a view stands for the component whose name the index finds it under.** -/
theorem standsFor_of_lookup (hids : Layout.KeepsIds table) {name : String} {ref : Layout.Ref}
    (h : (viewOf table form).index.lookup name = some ref) :
    ∃ e, StandsFor table form ref.viewId name e ∧ e.1 = ref.rule := by
  have hne : name ≠ "" := by
    rintro rfl
    have hnone := Layout.lookup_foldl_index (viewOf table form).walk [] ""
    rw [if_pos rfl] at hnone
    have : (viewOf table form).index.lookup "" = none := hnone
    rw [this] at h
    cases h
  rw [Layout.lookup_index _ hne, Option.map_eq_some_iff] at h
  obtain ⟨view, hfind, rfl⟩ := h
  obtain ⟨hname, before, after, hwalk, hbefore⟩ := List.find?_eq_some_iff_append.1 hfind
  obtain ⟨first, e, rest, hemitted, hfirst, hrule, hename⟩ := emitted_split hwalk
  obtain ⟨above, element, below, helements, hlength, htag, hid, hothers⟩ :=
    elements_split hids hwalk
  have hcount : first.length = before.length := by
    have := congrArg List.length hfirst
    rw [length_map, length_map] at this
    exact this
  refine ⟨e, ⟨first, rest, hemitted, ?_, ?_, above, element, below, helements, ?_, ?_, hid,
    hothers⟩, hrule⟩
  · rw [hename]
    exact beq_iff_eq.1 hname
  · intro other hother
    have hmem := mem_map_of_mem (f := fun e => e.2.name) hother
    rw [hfirst] at hmem
    obtain ⟨view', hview', hname'⟩ := mem_map.1 hmem
    have := hbefore view' hview'
    intro heq
    rw [hname', heq] at this
    simp at this
  · rw [hlength, hcount]
  · rw [htag, hrule]

/-- A field that is bound stands for the first component of its name. -/
theorem standsFor_of_mem_bound (hids : Layout.KeepsIds table) {package : String}
    {root : Option Markup.Element} {b : String × Layout.Ref}
    (h : b ∈ (targetOf table package form).bound (namesOf table package form root)) :
    ∃ name e, (name, b.1) ∈ (namesOf table package form root).fields ∧
      StandsFor table form b.2.viewId name e ∧ e.1 = b.2.rule := by
  obtain ⟨⟨name, f⟩, hfield, heq⟩ := mem_filterMap.1 h
  obtain ⟨ref, hlookup, rfl⟩ := Option.map_eq_some_iff.1 heq
  obtain ⟨e, hstands, hrule⟩ := standsFor_of_lookup hids hlookup
  exact ⟨name, e, hfield, hstands, hrule⟩

/-! ### Agreement -/

/-- **The files of a converted screen agree.**  The layout is the markup of its elements.  Every
component that has a field stands in it, under the id that the field is bound to.  And if no text
that is taken over reads as a declaration or a binding, then every line of the activity that binds
a field binds that of a component, to the id of the first one of its name; the field is declared
once, with the class of the component's rule, and that class is imported. -/
theorem converted_files_agree {table : Table} {settings : Settings} {timer : Timer}
    {source : ScreenSource} {package : String} {screen : Screen}
    (hconverted : convertScreen table settings timer source package = .ok (.converted screen))
    (hids : Layout.KeepsIds table) :
    ∃ form root,
      Layout.form source.layout settings.limits settings.repairDescriptors = .ok form ∧
      Block.rootOf source.blocks settings.limits = .ok root ∧
      screen.artifacts = [
        (layoutPath, Layout.markup ((viewOf table form).screenMarks activityName)),
        (activityPath package, sourceOf table package form root)] ∧
      (∀ b ∈ (targetOf table package form).bound (namesOf table package form root),
        ∃ name e, (name, b.1) ∈ (namesOf table package form root).fields ∧
          StandsFor table form b.2.viewId name e ∧ e.1 = b.2.rule) ∧
      ((targetOf table package form).Unforged (codeOf root) →
        ∀ line ∈ linesOf (sourceOf table package form root), ∀ f id, isName f = true →
          unindented line = (bindingText f id).toList →
          ∃ name e, (name, f) ∈ (namesOf table package form root).fields ∧
            StandsFor table form id name e ∧
            (linesOf (sourceOf table package form root)).filter (declares f)
              = [tab 1 ++ fieldText f e.1.className] ∧
            "import " ++ e.1.qualifiedClass ∈ linesOf (sourceOf table package form root)) := by
  obtain ⟨form, root, hform, hroot, hartifacts⟩ := artifacts_of_converted hconverted
  rw [Layout.render_eq] at hartifacts
  refine ⟨form, root, hform, hroot, hartifacts, fun b hb => standsFor_of_mem_bound hids hb, ?_⟩
  intro hunforged line hline f id hf hreads
  obtain ⟨b, hb, rfl, rfl⟩ := Kotlin.exists_bound_of_binding hunforged hline hf hreads
  obtain ⟨name, e, hfield, hstands, hrule⟩ := standsFor_of_mem_bound hids hb
  refine ⟨name, e, hfield, hstands, ?_, ?_⟩
  · rw [hrule]
    exact Kotlin.filter_declares hunforged hb
  · rw [hrule]
    exact Kotlin.mem_linesOf_import hunforged hb

/-- A screen with a button and a handler of its clicks. -/
def clickScreen : ScreenSource where
  name := "Screen1"
  layout := "\x7b\"Properties\":\x7b\"$Name\":\"Screen1\",\"$Type\":\"Form\",\"$Components\":["
    ++ "\x7b\"$Name\":\"Go\",\"$Type\":\"Button\"\x7d]\x7d\x7d"
  blocks := "<xml><block type=\"component_event\"><mutation component_type=\"Button\""
    ++ " instance_name=\"Go\" event_name=\"Click\"></mutation></block></xml>"

theorem keepsIds_packaged : Layout.KeepsIds .packaged := by
  have hall : Table.packaged.all fun entry =>
      entry.2.attributeOf.all fun a => a.2 != "android:id" := by decide +kernel
  intro entry hentry a ha
  exact bne_iff_ne.1 (all_eq_true.1 (all_eq_true.1 hall entry hentry) a ha)

/-- What a conversion with the packaged table reads, if it comes to its end. -/
def readings? (source : ScreenSource) : Option (Layout.Form × Option Markup.Element) :=
  match convertScreen .packaged {} .unlimited source "app" with
  | .ok (.converted _) =>
    match Layout.form source.layout {} false, Block.rootOf source.blocks {} with
    | .ok form, .ok root => some (form, root)
    | _, _ => none
  | _ => none

theorem converted_of_readings? {source : ScreenSource} {root : Option Markup.Element}
    (h : readings? source = some (form, root)) :
    (∃ screen, convertScreen .packaged {} .unlimited source "app" = .ok (.converted screen)) ∧
      Layout.form source.layout {} false = .ok form ∧ Block.rootOf source.blocks {} = .ok root := by
  unfold readings? at h
  split at h
  · next screen hscreen =>
    split at h
    · next form' root' hform hroot =>
      cases h
      exact ⟨⟨screen, hscreen⟩, hform, hroot⟩
    · cases h
  · cases h

/-- The field of the button is bound to the button. -/
theorem click_files_agree :
    ∃ form root,
      Layout.form clickScreen.layout {} false = .ok form ∧
      Block.rootOf clickScreen.blocks {} = .ok root ∧
      tab 2 ++ bindingText "go" "button1" ∈ linesOf (sourceOf .packaged "app" form root) ∧
      ∃ name e, (name, "go") ∈ (namesOf .packaged "app" form root).fields ∧
        StandsFor .packaged form "button1" name e ∧
        (linesOf (sourceOf .packaged "app" form root)).filter (declares "go")
          = [tab 1 ++ fieldText "go" e.1.className] ∧
        "import " ++ e.1.qualifiedClass ∈ linesOf (sourceOf .packaged "app" form root) := by
  have hchecked : (readings? clickScreen).any (fun r =>
      decide ((targetOf .packaged "app" r.1).Unforged (codeOf r.2))
        && ((targetOf .packaged "app" r.1).bound (namesOf .packaged "app" r.1 r.2)).any
          fun b => b.1 == "go" && b.2.viewId == "button1") := by decide +kernel
  obtain ⟨r, hreadings, hchecked⟩ := (Option.any_eq_true _ _).1 hchecked
  obtain ⟨hunforged, hbound⟩ := Bool.and_eq_true_iff.1 hchecked
  replace hunforged := of_decide_eq_true hunforged
  obtain ⟨⟨screen, hscreen⟩, hform', hroot'⟩ := converted_of_readings? hreadings
  obtain ⟨form, root, hform, hroot, -, -, hagree⟩ :=
    converted_files_agree hscreen keepsIds_packaged
  obtain rfl : r.1 = form := Except.ok.inj (hform'.symm.trans hform)
  obtain rfl : r.2 = root := Except.ok.inj (hroot'.symm.trans hroot)
  obtain ⟨⟨field, ref⟩, hb, hbinding⟩ := any_eq_true.1 hbound
  obtain ⟨hfield, hid⟩ := Bool.and_eq_true_iff.1 hbinding
  obtain rfl : field = "go" := beq_iff_eq.1 hfield
  have hline := Kotlin.mem_linesOf_binding hunforged hb
  rw [Kotlin.bindingLine, beq_iff_eq.1 hid] at hline
  have hname : isName "go" := by decide
  refine ⟨r.1, r.2, hform, hroot, hline, hagree hunforged _ hline "go" "button1" hname ?_⟩
  rw [Kotlin.unindented_tab, Kotlin.unindented_bindingText hname, Kotlin.toList_bindingText]

/-- A screen whose only block has a line break in a field. -/
def forgingScreen : ScreenSource where
  name := "Screen1"
  layout := "\x7b\"Properties\":\x7b\"$Name\":\"Screen1\",\"$Type\":\"Form\"\x7d\x7d"
  blocks := "<xml><block type=\"procedures_defnoreturn\"><field name=\"NAME\">f</field>"
    ++ "<statement name=\"STACK\"><block type=\"sound_play\"><field name=\"FILE\">a\n"
    ++ "ghost = findViewById(R.id.ghost)\n</field></block></statement></block></xml>"

/-- A line break in a field ends its comment, and what follows binds a field to a view that is not
there. -/
theorem comment_binds_missing_view :
    ∃ screen marks text,
      convertScreen .packaged {} .unlimited forgingScreen "app" = .ok (.converted screen) ∧
      screen.artifacts = [(layoutPath, Layout.markup marks), (activityPath "app", text)] ∧
      bindingText "ghost" "ghost" ∈ linesOf text ∧
      ∀ element ∈ marks.filterMap Layout.Mark.opened?, idText "ghost" ∉ element.ids := by
  have hchecked : (readings? forgingScreen).any (fun r =>
      (((targetOf .packaged "app" r.1).linesWith (codeOf r.2)
          ((targetOf .packaged "app" r.1).importedClasses (namesOf .packaged "app" r.1 r.2))).any
        fun entry => (linesOf entry).contains (bindingText "ghost" "ghost"))
      && ((viewOf .packaged r.1).elements activityName).all
        fun element => !element.ids.contains (idText "ghost")) := by decide +kernel
  obtain ⟨r, hreadings, hchecked⟩ := (Option.any_eq_true _ _).1 hchecked
  obtain ⟨hghost, hids⟩ := Bool.and_eq_true_iff.1 hchecked
  obtain ⟨⟨screen, hscreen⟩, hform', hroot'⟩ := converted_of_readings? hreadings
  obtain ⟨form, root, hform, hroot, hartifacts⟩ := artifacts_of_converted hscreen
  obtain rfl : r.1 = form := Except.ok.inj (hform'.symm.trans hform)
  obtain rfl : r.2 = root := Except.ok.inj (hroot'.symm.trans hroot)
  rw [Layout.render_eq] at hartifacts
  refine ⟨screen, _, _, hscreen, hartifacts, ?_, fun element helement hid => ?_⟩
  · obtain ⟨entry, hentry, hline⟩ := any_eq_true.1 hghost
    exact Kotlin.mem_linesOf_source (Kotlin.mem_lines_iff.2 hentry) (contains_iff_mem.1 hline)
  · have := all_eq_true.1 hids element helement
    rw [contains_iff_mem.2 hid] at this
    cases this

end Conversion
end ScreenForge
