/-
# The lines that declare and bind fields

Some texts are written as they are: the fields of a block of an unknown type, names in comments, the
classes and the results in a table of rules.  Such a text can hold a line break, and then a line of
the source is not one that the activity was given as a line.  If none of these lines reads as a
declaration or a binding (`Target.Unforged`), then the source binds and declares exactly the fields
of the components.
-/
import Mathlib.Data.List.Basic
import ScreenForge.Proofs.Kotlin.Member
import ScreenForge.Proofs.Kotlin.Tame
import ScreenForge.Proofs.Text.Line

namespace ScreenForge
namespace Kotlin

open List
open Code (Expr Stmt)
open Text (isUnbroken isUnbroken_append linesOf)

variable {t : Target} {p : Code.Program} {b : String × Layout.Ref}

/-! ### The lines of members -/

variable {env : Env}

theorem isQuiet_globalLine (env : Env) (g : Code.Global) : isQuiet (globalLine env g) := by
  unfold globalLine
  cases g.value with
  | none | some e =>
    simp only [String.append_assoc]
    exact isQuiet_of_start "private var " (by decide) _

/-- No line of a procedure declares or binds a field. -/
theorem loud_procedureLines (henv : env.Small) (p : Code.Procedure) :
    loud (procedureLines env p) = [] := by
  have hbraced : ∀ rest body, loud body = [] →
      loud (bracedLines ("private fun " ++ rest) body) = [] := by
    intro rest body hbody
    rw [loud_bracedLines, hbody]
    · rfl
    · rw [openingLine, String.append_assoc]
      exact isQuiet_of_start _ (by decide) _
  have hbody := loud_stmtsLines henv p.params p.body
  simp only [procedureLines, String.append_assoc]
  cases p.result with
  | none => exact hbraced _ _ hbody
  | some e =>
    refine hbraced _ _ ?_
    rw [loud_append, hbody, loud_cons (isQuiet_of_start "return " (by decide) _)]
    rfl

theorem loud_commented (reason : String) (body : List String) :
    loud (commented reason body) = [] := by
  have hcomment : ∀ rest, isQuiet ("// " ++ rest) :=
    isQuiet_of_start "// " (by decide)
  rw [commented, loud_cons (hcomment _), loud_eq_nil_iff]
  exact forall_mem_map.2 fun line _ => hcomment line

theorem isQuiet_listenerLine {field : String} (h : isSmall field) (e : Component.Event) :
    isQuiet (listenerLine field e) := by
  refine isQuiet_of_tame ?_
  simp only [listenerLine, String.append_assoc]
  rw [String.toList_append]
  exact tame_of_isSmall h (by rw [String.toList_append]; exact cut_dot _)

/-- No line of a handler does, if none of the results that listeners return does. -/
theorem loud_handlerLines (t : Target) (henv : env.Small) {h : Code.Handler}
    (hresult : t.isListener h → ∀ e ∈ t.eventOf h, ∀ r ∈ e.result, isQuiet r) :
    loud (t.handlerLines env h).2 = [] := by
  have hbody := loud_stmtsLines henv (t.scopeOf h) h.body
  unfold Target.handlerLines
  split
  · exact loud_commented _ _
  · exact loud_commented _ _
  · next ref e hcomponent hevent =>
    split
    · exact (loud_cons (isQuiet_of_start "// " (by decide) _) _).trans hbody
    · next hinline =>
      have hlistener : t.isListener h := by
        rw [Target.isListener, ← Assoc.isSome_lookup_eq_has, hcomponent, hevent]
        simpa using hinline
      have hresult : loud e.result.toList = [] := loud_eq_nil_iff.2 fun r hr =>
        hresult hlistener e hevent r (Option.mem_toList.1 hr)
      rw [loud_cons (isQuiet_listenerLine (isSmall_getD_lookup henv.fields _) e), loud_append,
        loud_indent, loud_append, hbody, hresult, loud_closing]
      rfl

/-! ### The lines of an activity -/

/-- The classes that an activity imports, before they are sorted. -/
def Target.importedClasses (t : Target) (env : Env) : List String :=
  "android.os.Bundle" :: "androidx.appcompat.app.AppCompatActivity"
    :: (t.bound env).map fun b => b.2.rule.qualifiedClass

theorem mem_imports_iff {name : String} : name ∈ t.imports env ↔ name ∈ t.importedClasses env := by
  rw [Target.imports, Text.sorted, mem_eraseDups, mem_mergeSort]
  rfl

/-- The texts that a program takes over as lines: what is imported, and the results of the events
that it listens to. -/
def Target.given (t : Target) (p : Code.Program) : List String :=
  (t.importedClasses (t.naming p)).map (fun name => "import " ++ name)
    ++ (p.handlers.filter t.isListener).filterMap fun h => (t.eventOf h).bind Component.Event.result

/-- The declaration of a component's field in an activity. -/
def fieldLine (b : String × Layout.Ref) : String := tab 1 ++ fieldText b.1 b.2.rule.className

/-- The binding of a component's field in an activity. -/
def bindingLine (b : String × Layout.Ref) : String := tab 2 ++ bindingText b.1 b.2.viewId

theorem indent_append (lines others : List String) :
    indent (lines ++ others) = indent lines ++ indent others :=
  map_append

theorem indent_map_of_ne {α : Type} {f : α → String} (h : ∀ a, f a ≠ "") (as : List α) :
    indent (as.map f) = as.map fun a => tab 1 ++ f a := by
  rw [indent, map_map]
  exact map_congr_left fun a _ => if_neg (h a)

theorem bindingText_ne (field id : String) : bindingText field id ≠ "" := by
  intro h
  have hbracket := (String.append_eq_empty_iff.1 h).2
  exact absurd hbracket (by decide)

theorem fieldText_ne (field type : String) : fieldText field type ≠ "" := by
  intro h
  have hcolon := (String.append_eq_empty_iff.1 (String.append_eq_empty_iff.1 h).1).2
  exact absurd hcolon (by decide)

theorem loud_map {α : Type} {as : List α} {f : α → String}
    (h : ∀ a ∈ as, readsBinding (f a) ∨ readsField (f a)) : loud (as.map f) = as.map f := by
  refine filter_eq_self.2 (forall_mem_map.2 fun a ha => ?_)
  rcases h a ha with hreads | hreads <;> simp [isQuiet, hreads]

/-- The setting up binds every field, and nothing else. -/
theorem loud_onCreateLines {env : Env} (hbound : ∀ b ∈ t.bound env, isName b.1)
    {handlers : List (Place × List String)} (h : ∀ handler ∈ handlers, loud handler.2 = []) :
    loud (t.onCreateLines env handlers)
      = indent ((t.bound env).map fun b => bindingText b.1 b.2.viewId) := by
  have hlinesAt : ∀ place,
      loud (spaced ((handlers.filter fun h => h.1 == place).map Prod.snd)) = [] := by
    intro place
    rw [loud_congr (solid_spaced _), loud, filter_flatten, map_map, flatten_eq_nil_iff]
    exact forall_mem_map.2 fun handler hh => h handler (mem_filter.1 hh).1
  have hcontent : isQuiet ("setContentView(R.layout." ++ t.layoutName ++ ")") := by
    rw [String.append_assoc]
    exact isQuiet_of_start _ (by decide) _
  unfold Target.onCreateLines
  dsimp only
  rw [loud_bracedLines (by decide), loud_cons (by decide), loud_cons hcontent,
    loud_congr (solid_sections _)]
  simp only [flatten_cons, flatten_nil, loud_append, hlinesAt, append_nil]
  exact congrArg indent (loud_map fun b hb => .inl (reads_bindingText (hbound b hb) _).1)

theorem loud_memberLines (henv : env.Small) (hbound : ∀ b ∈ t.bound env, isName b.1)
    (hhandlers : ∀ h ∈ p.handlers, loud (t.handlerLines env h).2 = []) :
    loud (t.memberLines env p) = ((t.bound env).map fun b => fieldText b.1 b.2.rule.className)
      ++ indent ((t.bound env).map fun b => bindingText b.1 b.2.viewId) := by
  have hglobals : loud ((Code.firsts Code.Global.name p.globals).map (globalLine env)) = [] :=
    loud_eq_nil_iff.2 (forall_mem_map.2 fun g _ => isQuiet_globalLine env g)
  have hprocedures : loud ((Code.firsts Code.Procedure.name p.procedures).flatMap fun q =>
      "" :: procedureLines env q) = [] := by
    rw [loud, filter_flatMap, flatMap_eq_nil_iff]
    exact fun q _ => (loud_blank _).trans (loud_procedureLines henv q)
  unfold Target.memberLines
  dsimp only
  rw [loud_append, loud_append, loud_append, loud_congr (solid_leading _),
    loud_congr (solid_leading _), hglobals, hprocedures,
    loud_onCreateLines hbound (forall_mem_map.2 hhandlers), append_nil, append_nil]
  exact congrArg (· ++ _) (loud_map fun b _ => .inr (reads_fieldText _ _).2)

theorem exists_of_mem_bound {env : Env} (h : b ∈ t.bound env) :
    ∃ name, (name, b.1) ∈ env.fields ∧ t.components.lookup name = some b.2 := by
  obtain ⟨e, he, heq⟩ := mem_filterMap.1 h
  obtain ⟨ref, href, rfl⟩ := Option.map_eq_some_iff.1 heq
  exact ⟨e.1, he, href⟩

/-- Every field that is bound has a name. -/
theorem isName_of_mem_bound (h : b ∈ t.bound (t.naming p)) : isName b.1 := by
  obtain ⟨name, hfield, -⟩ := exists_of_mem_bound h
  exact isName_of_mem_assign hfield

theorem isSmall_of_mem_bound (h : b ∈ t.bound (t.naming p)) : isSmall b.1 := by
  obtain ⟨name, hfield, -⟩ := exists_of_mem_bound h
  exact isSmall_of_mem_assign (e := (name, b.1)) hfield

/-- **Among its own lines an activity declares its fields, and later binds them.** -/
theorem loud_lines (t : Target) (p : Code.Program)
    (hgiven : ∀ line ∈ t.given p, isQuiet line) :
    loud (t.lines p) = (t.bound (t.naming p)).map fieldLine
      ++ (t.bound (t.naming p)).map bindingLine := by
  have henv := small_naming t p
  replace hgiven := forall_mem_append.1 hgiven
  have hmembers := loud_memberLines henv (fun b => isName_of_mem_bound) (p := p) fun h hh =>
    loud_handlerLines t henv fun hlistener e he r hr => hgiven.2 r
      (mem_filterMap.2 ⟨h, mem_filter.2 ⟨hh, hlistener⟩, by rw [he]; exact hr⟩)
  have hclass : isQuiet ("class " ++ t.activity ++ " : AppCompatActivity() \x7b") := by
    rw [String.append_assoc]
    exact isQuiet_of_start _ (by decide) _
  have himports : loud ((t.imports (t.naming p)).map fun name => "import " ++ name) = [] :=
    loud_eq_nil_iff.2 (forall_mem_map.2 fun name hname =>
      forall_mem_map.1 hgiven.1 name (mem_imports_iff.1 hname))
  have htwice : ∀ b : String × Layout.Ref,
      tab 1 ++ (tab 1 ++ bindingText b.1 b.2.viewId) = bindingLine b := by
    intro b
    rw [bindingLine, ← String.append_assoc]
    rfl
  unfold Target.lines
  dsimp only
  simp only [loud_append, himports, loud_cons hclass, loud_indent, hmembers, loud_closing,
    loud_cons (isQuiet_of_start "package " (by decide) _), loud_blank, loud_nil, append_nil,
    nil_append, indent_append, indent_map_of_ne fun b => fieldText_ne _ _,
    indent_map_of_ne fun b => bindingText_ne _ _,
    indent_map_of_ne fun b h => bindingText_ne _ _ (String.append_eq_empty_iff.1 h).2, htwice]
  rfl

/-! ### The lines of the source -/

/-- **The lines of the source are those of the activity, each cut at its line breaks.** -/
theorem linesOf_source (t : Target) (p : Code.Program) :
    linesOf (t.source p) = (t.lines p).flatMap linesOf ++ [""] :=
  Text.linesOf_join _ (cons_ne_nil _ _)

theorem mem_linesOf_source {entry line : String} (hentry : entry ∈ t.lines p)
    (hline : line ∈ linesOf entry) : line ∈ linesOf (t.source p) := by
  rw [linesOf_source]
  exact mem_append_left _ (mem_flatMap.2 ⟨entry, hentry, hline⟩)

/-- **No text that is taken over makes a line that declares or binds a field**: not as a line of its
own, nor by a line break in it, and ids and classes have no line breaks. -/
structure Target.Unforged (t : Target) (p : Code.Program) : Prop where
  given : ∀ line ∈ t.given p, isQuiet line = true
  broken : ∀ entry ∈ t.lines p, ∀ line ∈ (linesOf entry).tail, isQuiet line = true
  ids : ∀ b ∈ t.bound (t.naming p), isUnbroken b.2.viewId = true
  classes : ∀ b ∈ t.bound (t.naming p), isUnbroken b.2.rule.qualifiedClass = true

/-- The lines of an activity with its imports in some order. -/
def Target.linesWith (t : Target) (p : Code.Program) (imports : List String) : List String :=
  ["package " ++ t.package, ""] ++ imports.map (fun name => "import " ++ name)
    ++ ["", "class " ++ t.activity ++ " : AppCompatActivity() \x7b", ""]
    ++ indent (t.memberLines (t.naming p) p) ++ [closingLine]

theorem mem_lines_iff {line : String} :
    line ∈ t.lines p ↔ line ∈ t.linesWith p (t.importedClasses (t.naming p)) := by
  have himports : line ∈ (t.imports (t.naming p)).map (fun name => "import " ++ name)
      ↔ line ∈ (t.importedClasses (t.naming p)).map (fun name => "import " ++ name) := by
    simp only [mem_map, mem_imports_iff]
  simp only [Target.lines, Target.linesWith, mem_append, himports]

theorem Target.unforged_iff :
    t.Unforged p ↔ (∀ line ∈ t.given p, isQuiet line) ∧
      (∀ entry ∈ t.linesWith p (t.importedClasses (t.naming p)),
        ∀ line ∈ (linesOf entry).tail, isQuiet line) ∧
      (∀ b ∈ t.bound (t.naming p), isUnbroken b.2.viewId) ∧
      ∀ b ∈ t.bound (t.naming p), isUnbroken b.2.rule.qualifiedClass := by
  constructor
  · intro h
    exact ⟨h.given, fun entry hentry => h.broken entry (mem_lines_iff.2 hentry), h.ids, h.classes⟩
  · intro h
    exact ⟨h.1, fun entry hentry => h.2.1 entry (mem_lines_iff.1 hentry), h.2.2.1, h.2.2.2⟩

instance (t : Target) (p : Code.Program) : Decidable (t.Unforged p) :=
  decidable_of_iff' _ Target.unforged_iff

theorem quiet_linesOf {entry : String} (h : isQuiet entry)
    (htail : ∀ line ∈ (linesOf entry).tail, isQuiet line) :
    ∀ line ∈ linesOf entry, isQuiet line := by
  obtain ⟨first, rest, others, hchars, hlines⟩ := Text.exists_first entry
  rw [hlines] at htail ⊢
  exact forall_mem_cons.2 ⟨isQuiet_of_beginning hchars h, htail⟩

theorem filter_loud {P : String → Bool} (hP : ∀ line, P line → isQuiet line = false)
    (lines : List String) : (loud lines).filter P = lines.filter P := by
  rw [loud, filter_filter]
  refine filter_congr fun line _ => ?_
  cases hline : P line with
  | false => rfl
  | true => rw [hP line hline]; rfl

/-! ### Declarations and bindings -/

theorem isUnbroken_of_isName {f : String} (h : isName f) : isUnbroken f := by
  have hname := isNameChar_of_isName h
  rw [isUnbroken, Bool.not_eq_true']
  refine Bool.eq_false_iff.2 fun hbreak => ?_
  exact absurd (hname '\n' (contains_iff_mem.1 hbreak)) (by decide)

theorem isUnbroken_className {rule : Component.Rule} (h : isUnbroken rule.qualifiedClass) :
    isUnbroken rule.className := by
  rw [isUnbroken, Bool.not_eq_true'] at h ⊢
  rw [Component.Rule.className, String.toList_ofList]
  exact Bool.eq_false_iff.2 fun hbreak => Bool.eq_false_iff.1 h
    (contains_iff_mem.2 ((Text.afterLast_suffix _ _).subset (contains_iff_mem.1 hbreak)))

theorem isUnbroken_tab (level : Int) : isUnbroken (tab level) := by
  simp [isUnbroken, tab]

section
variable {t : Target} {p : Code.Program} (h : t.Unforged p)
include h

theorem isUnbroken_fieldLine (hb : b ∈ t.bound (t.naming p)) : isUnbroken (fieldLine b) := by
  have hf := isUnbroken_of_isName (isName_of_mem_bound hb)
  have htype := isUnbroken_className (h.classes b hb)
  exact isUnbroken_append (isUnbroken_tab 1)
    (isUnbroken_append (isUnbroken_append (isUnbroken_append (by decide) hf) (by decide)) htype)

theorem isUnbroken_bindingLine (hb : b ∈ t.bound (t.naming p)) : isUnbroken (bindingLine b) := by
  have hf := isUnbroken_of_isName (isName_of_mem_bound hb)
  exact isUnbroken_append (isUnbroken_tab 2)
    (isUnbroken_append (isUnbroken_append (isUnbroken_append hf (by decide)) (h.ids b hb))
      (by decide))

/-- What is broken off a line of the activity is quiet. -/
theorem loud_linesOf {entry : String} (hentry : entry ∈ t.lines p) :
    loud (linesOf entry) = loud [entry] := by
  cases hquiet : isQuiet entry with
  | true =>
    rw [loud_cons hquiet]
    exact loud_eq_nil_iff.2 (quiet_linesOf hquiet (h.broken entry hentry))
  | false =>
    have hloud : entry ∈ loud (t.lines p) := mem_filter.2 ⟨hentry, by rw [hquiet]; rfl⟩
    rw [loud_lines t p h.given] at hloud
    rw [Text.linesOf_eq_singleton]
    rcases mem_append.1 hloud with hloud | hloud
    · obtain ⟨b, hb, rfl⟩ := mem_map.1 hloud
      exact isUnbroken_fieldLine h hb
    · obtain ⟨b, hb, rfl⟩ := mem_map.1 hloud
      exact isUnbroken_bindingLine h hb

/-- **The lines of the source declare the fields of the components, and later bind them, and do
nothing of this kind besides.** -/
theorem loud_source : loud (linesOf (t.source p))
    = (t.bound (t.naming p)).map fieldLine ++ (t.bound (t.naming p)).map bindingLine := by
  have hlines : loud ((t.lines p).flatMap linesOf) = loud (t.lines p) :=
    calc loud ((t.lines p).flatMap linesOf)
      _ = (t.lines p).flatMap fun entry => loud (linesOf entry) := filter_flatMap
      _ = (t.lines p).flatMap fun entry => loud [entry] :=
        flatMap_congr fun entry hentry => loud_linesOf h hentry
      _ = loud (t.lines p) := by
        nth_rewrite 2 [← flatMap_singleton' (t.lines p)]
        exact filter_flatMap.symm
  rw [linesOf_source, loud_append, hlines, loud_lines t p h.given, loud_blank, loud_nil, append_nil]

theorem mem_linesOf_binding (hb : b ∈ t.bound (t.naming p)) :
    bindingLine b ∈ linesOf (t.source p) := by
  have hmem := mem_append_right ((t.bound (t.naming p)).map fieldLine)
    (mem_map_of_mem (f := bindingLine) hb)
  rw [← loud_source h] at hmem
  exact (mem_filter.1 hmem).1

/-- **A line that reads as a binding is that of a component's field.** -/
theorem exists_bound_of_binding {line f id : String} (hline : line ∈ linesOf (t.source p))
    (hf : isName f) (hreads : unindented line = (bindingText f id).toList) :
    ∃ b ∈ t.bound (t.naming p), b.1 = f ∧ b.2.viewId = id := by
  have hbinding : readsBinding line := by
    have := (reads_bindingText hf id).1
    rw [readsBinding, unindented_bindingText hf, ← toList_bindingText, ← hreads] at this
    exact this
  have hloud : line ∈ loud (linesOf (t.source p)) :=
    mem_filter.2 ⟨hline, by simp [isQuiet, hbinding]⟩
  rw [loud_source h] at hloud
  rcases mem_append.1 hloud with hmem | hmem <;> obtain ⟨b, hb, rfl⟩ := mem_map.1 hmem
  · rw [fieldLine, (reads_tab _ _).1, (reads_fieldText _ _).1] at hbinding
    cases hbinding
  · have hname := isName_of_mem_bound hb
    rw [bindingLine, unindented_tab, unindented_bindingText hname, ← toList_bindingText] at hreads
    exact ⟨b, hb, bindingText_inj hname hf (String.toList_inj.1 hreads)⟩

theorem mem_linesOf_import (hb : b ∈ t.bound (t.naming p)) :
    "import " ++ b.2.rule.qualifiedClass ∈ linesOf (t.source p) := by
  have hentry : "import " ++ b.2.rule.qualifiedClass ∈ t.lines p := by
    have hclass : b.2.rule.qualifiedClass ∈ t.imports (t.naming p) :=
      mem_imports_iff.2 (mem_cons_of_mem _ (mem_cons_of_mem _
        (mem_map_of_mem (f := fun b => b.2.rule.qualifiedClass) hb)))
    have himport := mem_map_of_mem (f := fun name => "import " ++ name) hclass
    simp only [Target.lines, mem_append]
    exact Or.inl (Or.inl (Or.inl (Or.inr himport)))
  refine mem_linesOf_source hentry ?_
  rw [Text.linesOf_eq_singleton (isUnbroken_append (by decide) (h.classes b hb))]
  exact mem_singleton.2 rfl

end

/-- Whether a line declares a field. -/
def declares (f line : String) : Bool :=
  (fieldMark ++ (f.toList ++ [':'])).isPrefixOf (unindented line)

theorem declares_fieldLine_iff {f : String} (hf : isName f) (hb : isName b.1) :
    declares f (fieldLine b) ↔ b.1 = f := by
  have hname := isNameChar_of_isName hf
  have hname' := isNameChar_of_isName hb
  have hcolon : ∀ rest, EndsWord (':' :: rest) := by simp [EndsWord, isNameChar]
  have hline : unindented (fieldLine b)
      = fieldMark ++ (b.1.toList ++ ':' :: (" " ++ b.2.rule.className).toList) := by
    have hword : ∀ c ∈ "private".toList, isNameChar c := all_eq_true.1 (by decide)
    have hrest : (b.1 ++ ": " ++ b.2.rule.className).toList
        = b.1.toList ++ ':' :: (" " ++ b.2.rule.className).toList := by
      simp [String.toList_append]
    rw [fieldLine, unindented_tab, unindented_of_word (toList_fieldText _ _) (by decide) hword,
      hrest, fieldMark_eq, append_assoc]
  rw [declares, hline, List.isPrefixOf_iff_prefix, prefix_append_right_inj]
  constructor
  · rintro ⟨after, hafter⟩
    rw [append_assoc, singleton_append] at hafter
    have hleading := congrArg leading hafter
    rw [leading_word hname (hcolon _), leading_word hname' (hcolon _)] at hleading
    exact (String.toList_inj.1 hleading).symm
  · rintro rfl
    exact ⟨_, append_assoc _ _ _⟩

theorem bound_sublist (t : Target) (env : Env) :
    ((t.bound env).map Prod.fst).Sublist (env.fields.map Prod.snd) := by
  unfold Target.bound
  induction env.fields with
  | nil => exact .slnil
  | cons field fields ih =>
    rw [filterMap_cons]
    cases t.components.lookup field.1 with
    | none => exact ih.cons _
    | some ref => exact ih.cons_cons _

/-- No field is bound twice. -/
theorem nodup_bound (t : Target) (p : Code.Program) :
    ((t.bound (t.naming p)).map Prod.fst).Nodup := by
  have hmembers := nodup_members t p
  rw [Env.members, map_append] at hmembers
  exact (nodup_append.1 hmembers).2.1.sublist (bound_sublist t _)

theorem filter_fst_eq_singleton {α : Type} {entries : List (String × α)}
    (h : (entries.map Prod.fst).Nodup) {b : String × α} (hb : b ∈ entries) :
    entries.filter (fun e => e.1 == b.1) = [b] := by
  induction entries with
  | nil => exact absurd hb not_mem_nil
  | cons e entries ih =>
    obtain ⟨hnew, hrest⟩ := nodup_cons.1 h
    rcases mem_cons.1 hb with rfl | hb
    · rw [filter_cons_of_pos (by simp), filter_eq_nil_iff.2]
      intro e he heq
      exact hnew ((beq_iff_eq.1 heq) ▸ mem_map_of_mem he)
    · have hne : e.1 ≠ b.1 := fun heq => hnew (heq ▸ mem_map_of_mem hb)
      rw [filter_cons_of_neg (by simpa using hne)]
      exact ih hrest hb

/-- **A component's field is declared once.** -/
theorem filter_declares (h : t.Unforged p) (hb : b ∈ t.bound (t.naming p)) :
    (linesOf (t.source p)).filter (declares b.1) = [fieldLine b] := by
  have hreads : ∀ line, declares b.1 line → readsField line := by
    intro line hline
    rw [readsField, List.isPrefixOf_iff_prefix]
    exact (prefix_append _ _).trans (List.isPrefixOf_iff_prefix.1 hline)
  have hkeys : (t.bound (t.naming p)).filter (declares b.1 ∘ fieldLine)
      = (t.bound (t.naming p)).filter (fun e => e.1 == b.1) := by
    refine filter_congr fun e he => ?_
    rw [Bool.eq_iff_iff, beq_iff_eq]
    exact declares_fieldLine_iff (isName_of_mem_bound hb) (isName_of_mem_bound he)
  have hbindings : ((t.bound (t.naming p)).map bindingLine).filter (declares b.1) = [] := by
    refine filter_eq_nil_iff.2 (forall_mem_map.2 fun e he hline => ?_)
    have hfield := hreads _ hline
    rw [bindingLine, (reads_tab _ _).2, (reads_bindingText (isName_of_mem_bound he) _).2] at hfield
    cases hfield
  rw [← filter_loud fun line hline => by simp [isQuiet, hreads line hline], loud_source h,
    filter_append, hbindings, append_nil, filter_map, hkeys,
    filter_fst_eq_singleton (nodup_bound t p) hb, map_singleton]

end Kotlin
end ScreenForge
