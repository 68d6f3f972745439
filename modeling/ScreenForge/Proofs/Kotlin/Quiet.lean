/-
# Lines that neither declare nor bind a field

| line | reads as |
| --- | --- |
| `private lateinit var f: C` | the declaration of a field |
| `f = findViewById(R.id.v)` | the binding of a field |

Any other line is quiet.  Which it is depends on the first word of the line and on what stands right
behind it, so the start of a line may settle that it is quiet.  Of many lines only those that are
not quiet count (`loud`).
-/
import ScreenForge.Proofs.Kotlin.Name
import ScreenForge.Proofs.Kotlin.Source

namespace ScreenForge
namespace Kotlin

open List

variable {line : String} {w rest : List Char} {cs : List Char} (level : Int) (f : String)

/-! ### Words and what stands behind them -/

/-- A line without the blanks in front. -/
def unindented (line : String) : List Char := line.toList.dropWhile (· == ' ')

/-- The word that a text starts with. -/
def leading (cs : List Char) : List Char := cs.takeWhile isNameChar

/-- What stands behind the word that a text starts with. -/
def behind (cs : List Char) : List Char := cs.dropWhile isNameChar

/-- The binding of a field. -/
def bindingText (field id : String) : String := field ++ " = findViewById(R.id." ++ id ++ ")"

/-- The declaration of a field. -/
def fieldText (field type : String) : String := "private lateinit var " ++ field ++ ": " ++ type

/-- What a binding has behind the name of its field. -/
def bindingMark : List Char := " = findViewById(R.id.".toList

/-- What the declaration of a field starts with. -/
def fieldMark : List Char := "private lateinit var ".toList

theorem fieldMark_eq : fieldMark = "private".toList ++ " lateinit var ".toList := rfl

/-- Whether a line reads as the binding of a field. -/
def readsBinding (line : String) : Bool :=
  isName (String.ofList (leading (unindented line)))
    && bindingMark.isPrefixOf (behind (unindented line))

/-- Whether a line reads as the declaration of a field. -/
def readsField (line : String) : Bool := fieldMark.isPrefixOf (unindented line)

/-- Whether a line reads as neither. -/
def isQuiet (line : String) : Bool := !readsBinding line && !readsField line

theorem unindented_tab (line : String) : unindented (tab level ++ line) = unindented line := by
  rw [unindented, String.toList_append, tab, String.toList_ofList,
    dropWhile_append_of_pos (by simp)]
  rfl

theorem reads_tab (line : String) :
    readsBinding (tab level ++ line) = readsBinding line ∧
      readsField (tab level ++ line) = readsField line := by
  rw [readsBinding, readsField, unindented_tab]
  exact ⟨rfl, rfl⟩

/-- However far a line is indented, it is as quiet. -/
theorem isQuiet_tab (line : String) : isQuiet (tab level ++ line) = isQuiet line := by
  rw [isQuiet, (reads_tab level line).1, (reads_tab level line).2]
  rfl

theorem unindented_eq (h : line.toList.head? ≠ some ' ') : unindented line = line.toList := by
  rw [unindented]
  cases hline : line.toList with
  | nil => rfl
  | cons c rest =>
    rw [hline] at h
    rw [dropWhile_cons_of_neg (by simpa using h)]

/-- A text that does not go on with a word. -/
def EndsWord (rest : List Char) : Prop := ∀ c ∈ rest.head?, isNameChar c = false

theorem leading_word (hw : ∀ c ∈ w, isNameChar c) (hrest : EndsWord rest) :
    leading (w ++ rest) = w := by
  rw [leading, takeWhile_append_of_pos hw, (Text.takeWhile_of_head hrest).1, append_nil]

theorem behind_word (hw : ∀ c ∈ w, isNameChar c) (hrest : EndsWord rest) :
    behind (w ++ rest) = rest := by
  rw [behind, dropWhile_append_of_pos hw, (Text.takeWhile_of_head hrest).2]

theorem endsWord_behind (cs : List Char) : EndsWord (behind cs) := by
  intro c hc
  have := List.head?_dropWhile_not isNameChar cs
  rw [show cs.dropWhile isNameChar = behind cs from rfl, Option.mem_def.1 hc] at this
  simpa using this

theorem leading_append_behind (cs : List Char) : leading cs ++ behind cs = cs :=
  takeWhile_append_dropWhile

theorem isNameChar_leading : ∀ c ∈ leading cs, isNameChar c :=
  all_eq_true.1 all_takeWhile

theorem endsWord_blank (rest : List Char) : EndsWord (' ' :: rest) := by
  rintro c hc
  rw [← Option.some.inj hc]
  decide

theorem head_ne_blank (hw : ∀ c ∈ w, isNameChar c) (hne : w ≠ []) :
    (w ++ rest).head? ≠ some ' ' := by
  cases w with
  | nil => exact absurd rfl hne
  | cons c w =>
    intro h
    have hc := hw c mem_cons_self
    rw [Option.some.inj h] at hc
    exact absurd hc (by decide)

theorem unindented_of_word {w : String} (h : line.toList = w.toList ++ rest) (hne : w ≠ "")
    (hw : ∀ c ∈ w.toList, isNameChar c) : unindented line = w.toList ++ rest := by
  rw [unindented_eq, h]
  rw [h]
  exact head_ne_blank hw fun he => hne (String.toList_eq_nil_iff.1 he)

/-! ### Which lines are quiet -/

/-- **A line is told by its first word and what stands behind it**: whether it is a binding … -/
theorem readsBinding_eq (h : unindented line = w ++ rest) (hw : ∀ c ∈ w, isNameChar c)
    (hrest : EndsWord rest) :
    readsBinding line = (isName (String.ofList w) && bindingMark.isPrefixOf rest) := by
  rw [readsBinding, h, leading_word hw hrest, behind_word hw hrest]

/-- … and whether it is a declaration. -/
theorem readsField_iff (h : unindented line = w ++ rest) (hw : ∀ c ∈ w, isNameChar c)
    (hrest : EndsWord rest) :
    readsField line ↔ w = "private".toList ∧ " lateinit var ".toList <+: rest := by
  rw [readsField, List.isPrefixOf_iff_prefix, h]
  constructor
  · rintro ⟨after, hafter⟩
    have hword : ∀ c ∈ "private".toList, isNameChar c := all_eq_true.1 (by decide)
    have hblank : EndsWord (" lateinit var ".toList ++ after) := endsWord_blank _
    rw [fieldMark_eq, append_assoc] at hafter
    -- a text has one first word
    have hleading := (leading_word hword hblank).symm.trans
      ((congrArg leading hafter).trans (leading_word hw hrest))
    have hbehind := (behind_word hword hblank).symm.trans
      ((congrArg behind hafter).trans (behind_word hw hrest))
    exact ⟨hleading.symm, after, hbehind⟩
  · rintro ⟨rfl, after, rfl⟩
    exact ⟨after, by rw [fieldMark_eq, append_assoc]⟩

/-- A line is quiet if no mark stands behind its first word. -/
theorem isQuiet_of_split (h : unindented line = w ++ rest) (hw : ∀ c ∈ w, isNameChar c)
    (hrest : EndsWord rest) (hbinding : isName (String.ofList w) → ¬ bindingMark <+: rest)
    (hfield : w = "private".toList → ¬ " lateinit var ".toList <+: rest) : isQuiet line := by
  rw [isQuiet, Bool.and_eq_true_iff, Bool.not_eq_true', Bool.not_eq_true']
  refine ⟨Bool.eq_false_iff.2 fun hreads => ?_, Bool.eq_false_iff.2 fun hreads => ?_⟩
  · rw [readsBinding_eq h hw hrest, Bool.and_eq_true_iff] at hreads
    exact hbinding hreads.1 (List.isPrefixOf_iff_prefix.1 hreads.2)
  · obtain ⟨hword, hmark⟩ := (readsField_iff h hw hrest).1 hreads
    exact hfield hword hmark

/-- A line with no blank behind its first word is quiet. -/
theorem isQuiet_of_behind (h : unindented line = cs) (hcs : (behind cs).head? ≠ some ' ') :
    isQuiet line := by
  have hsplit : unindented line = leading cs ++ behind cs := by
    rw [h, leading_append_behind]
  refine isQuiet_of_split hsplit isNameChar_leading (endsWord_behind cs) ?_ ?_
  all_goals
    rintro - ⟨rest, hrest⟩
    exact hcs (by rw [← hrest]; rfl)

/-- **The beginning of a quiet line is quiet.** -/
theorem isQuiet_of_beginning {first : String} (h : line.toList = first.toList ++ rest)
    (hquiet : isQuiet line) : isQuiet first := by
  by_cases hfirst : unindented first = []
  · rw [isQuiet, readsBinding, readsField, hfirst]
    decide
  have hline : unindented line = unindented first ++ rest := by
    rw [unindented, h, dropWhile_append, if_neg (by simpa [unindented] using hfirst)]
    rfl
  have hbinding : readsBinding first → readsBinding line := by
    intro hreads
    obtain ⟨hname, hmark⟩ := Bool.and_eq_true_iff.1 hreads
    obtain ⟨after, hafter⟩ := List.isPrefixOf_iff_prefix.1 hmark
    have hends : EndsWord (behind (unindented first) ++ rest) := by
      rw [← hafter]
      exact endsWord_blank _
    rw [readsBinding, hline, ← leading_append_behind (unindented first), append_assoc,
      leading_word isNameChar_leading hends, behind_word isNameChar_leading hends, hname, ← hafter,
      append_assoc]
    simp
  have hfield : readsField first → readsField line := by
    intro hreads
    obtain ⟨after, hafter⟩ := List.isPrefixOf_iff_prefix.1 hreads
    rw [readsField, hline, ← hafter, append_assoc]
    simp
  rw [isQuiet, Bool.and_eq_true_iff, Bool.not_eq_true', Bool.not_eq_true'] at *
  exact ⟨Bool.eq_false_iff.2 fun hr => absurd (hbinding hr) (by simp [hquiet.1]),
    Bool.eq_false_iff.2 fun hr => absurd (hfield hr) (by simp [hquiet.2])⟩

/-- Whether two texts agree as far as both go. -/
def agrees (cs ds : List Char) : Bool := cs.isPrefixOf ds || ds.isPrefixOf cs

theorem not_prefix_of_agrees {ds : List Char} (h : agrees cs ds = false) (rest : List Char) :
    ¬ ds <+: cs ++ rest := by
  refine fun hds => Bool.eq_false_iff.1 h ?_
  rw [agrees, Bool.or_eq_true, List.isPrefixOf_iff_prefix, List.isPrefixOf_iff_prefix]
  exact prefix_or_prefix_of_prefix (prefix_append cs rest) hds

/-- Whether a beginning makes a line quiet, whatever follows: its first word has come to an end, and
what there is starts neither a declaration nor a binding. -/
def settles (start : String) : Bool :=
  let cs := unindented start
  !(behind cs).isEmpty && !agrees cs fieldMark
    && !(isName (String.ofList (leading cs)) && agrees (behind cs) bindingMark)

/-- **A line with a beginning that settles it is quiet.** -/
theorem isQuiet_of_start (start : String) (h : settles start) (rest : String) :
    isQuiet (start ++ rest) := by
  simp only [settles, Bool.and_eq_true, Bool.not_eq_true'] at h
  obtain ⟨⟨hbehind, hfield⟩, hbinding⟩ := h
  generalize hcs : unindented start = cs at hbehind hfield hbinding
  have hsplit := leading_append_behind cs
  have hends : EndsWord (behind cs ++ rest.toList) := by
    intro c hc
    refine endsWord_behind cs c ?_
    cases hrest : behind cs with
    | nil => simp [hrest] at hbehind
    | cons d ds => rwa [hrest] at hc
  have hline : unindented (start ++ rest) = cs ++ rest.toList := by
    rw [unindented, String.toList_append, dropWhile_append, ← unindented, hcs, if_neg]
    intro hempty
    simp [List.isEmpty_iff.1 hempty, behind] at hbehind
  rw [isQuiet, Bool.and_eq_true_iff, Bool.not_eq_true', Bool.not_eq_true']
  constructor
  · rw [← hsplit, append_assoc] at hline
    rw [readsBinding_eq hline isNameChar_leading hends]
    refine Bool.eq_false_iff.2 fun hreads => ?_
    obtain ⟨hname, hmark⟩ := Bool.and_eq_true_iff.1 hreads
    rw [hname, Bool.true_and] at hbinding
    exact not_prefix_of_agrees hbinding _ (List.isPrefixOf_iff_prefix.1 hmark)
  · refine Bool.eq_false_iff.2 fun hreads => not_prefix_of_agrees hfield rest.toList ?_
    rw [readsField, hline, List.isPrefixOf_iff_prefix] at hreads
    exact hreads

/-! ### Lists of lines -/

/-- The lines that declare or bind a field. -/
def loud (lines : List String) : List String := lines.filter fun line => !isQuiet line

theorem loud_eq_nil_iff {lines : List String} : loud lines = [] ↔ ∀ line ∈ lines, isQuiet line := by
  simp [loud]

@[simp] theorem loud_nil : loud [] = [] := rfl

@[simp] theorem loud_append (lines others : List String) :
    loud (lines ++ others) = loud lines ++ loud others :=
  filter_append _ _

theorem loud_cons (h : isQuiet line) (rest : List String) : loud (line :: rest) = loud rest := by
  simp [loud, h]

@[simp] theorem loud_blank (rest : List String) : loud ("" :: rest) = loud rest :=
  loud_cons (by decide) rest

@[simp] theorem loud_closing : loud [closingLine] = [] := loud_cons (by decide) []

theorem loud_indent (lines : List String) : loud (indent lines) = indent (loud lines) := by
  rw [loud, indent, filter_map]
  refine congrArg (List.map _) (filter_congr fun line _ => ?_)
  rw [Function.comp_apply]
  split
  · rfl
  · rw [isQuiet_tab]

theorem loud_bracedLines {head : String} (h : isQuiet (openingLine head))
    (body : List String) : loud (bracedLines head body) = indent (loud body) := by
  rw [bracedLines, loud_cons h, loud_append, loud_indent, loud_closing, append_nil]

theorem loud_congr {lines others : List String} (h : solid lines = solid others) :
    loud lines = loud others := by
  have hblank : (!isQuiet "") = false := by decide
  rw [loud, ← filter_solid hblank, h, filter_solid hblank]
  rfl

/-! ### Declarations and bindings -/

theorem ne_empty_of_isName {f : String} (h : isName f) : f ≠ "" := by
  rintro rfl
  exact absurd h (by decide)

theorem toList_bindingText (id : String) :
    (bindingText f id).toList = f.toList ++ (bindingMark ++ (id ++ ")").toList) := by
  rw [bindingText, String.append_assoc, String.append_assoc, String.toList_append,
    String.toList_append]
  rfl

theorem toList_fieldText (type : String) : (fieldText f type).toList
    = "private".toList ++ (" lateinit var ".toList ++ (f ++ ": " ++ type).toList) := by
  have hparts : ∀ a b c d : String,
      (a ++ b ++ c ++ d).toList = a.toList ++ (b ++ c ++ d).toList := by
    simp [String.toList_append]
  rw [← append_assoc, ← fieldMark_eq]
  exact hparts _ _ _ _

theorem endsWord_bindingMark (rest : List Char) : EndsWord (bindingMark ++ rest) := endsWord_blank _

section
variable {f : String} (hf : isName f)
include hf

theorem unindented_bindingText (id : String) : unindented (bindingText f id)
    = f.toList ++ (bindingMark ++ (id ++ ")").toList) :=
  unindented_of_word (toList_bindingText f id) (ne_empty_of_isName hf)
    (isNameChar_of_isName hf)

/-- A binding says which field is bound to which view. -/
theorem bindingText_inj {f' id id' : String} (hf' : isName f')
    (h : bindingText f id = bindingText f' id') : f = f' ∧ id = id' := by
  have hname := isNameChar_of_isName hf
  have hname' := isNameChar_of_isName hf'
  have hchars := congrArg String.toList h
  rw [toList_bindingText, toList_bindingText] at hchars
  have hleading := congrArg leading hchars
  have hbehind := congrArg behind hchars
  rw [leading_word hname (endsWord_bindingMark _), leading_word hname' (endsWord_bindingMark _)]
    at hleading
  rw [behind_word hname (endsWord_bindingMark _), behind_word hname' (endsWord_bindingMark _)]
    at hbehind
  refine ⟨String.toList_inj.1 hleading, ?_⟩
  exact (String.append_left_inj ")").1 (String.toList_inj.1 (append_cancel_left hbehind))

/-- The binding of a field reads as one. -/
theorem reads_bindingText (id : String) :
    readsBinding (bindingText f id) ∧ readsField (bindingText f id) = false := by
  have hname := isNameChar_of_isName hf
  have hline := unindented_bindingText hf id
  refine ⟨?_, Bool.eq_false_iff.2 fun hreads => ?_⟩
  · rw [readsBinding_eq hline hname (endsWord_blank _), String.ofList_toList, hf]
    simp
  · obtain ⟨-, hmark⟩ := (readsField_iff hline hname (endsWord_blank _)).1 hreads
    have hsecond := (cons_prefix_cons.1 (cons_prefix_cons.1 hmark).2).1
    exact absurd hsecond (by decide)

end

/-- The declaration of a field reads as one. -/
theorem reads_fieldText (type : String) :
    readsBinding (fieldText f type) = false ∧ readsField (fieldText f type) := by
  have hname : ∀ c ∈ "private".toList, isNameChar c := all_eq_true.1 (by decide)
  have hline := unindented_of_word (toList_fieldText f type) (by decide) hname
  refine ⟨?_, (readsField_iff hline hname (endsWord_blank _)).2 ⟨rfl, prefix_append _ _⟩⟩
  rw [readsBinding_eq hline hname (endsWord_blank _)]
  refine Bool.eq_false_iff.2 fun hreads => ?_
  have hmark := List.isPrefixOf_iff_prefix.1 (Bool.and_eq_true_iff.1 hreads).2
  have hsecond := (cons_prefix_cons.1 (cons_prefix_cons.1 hmark).2).1
  exact absurd hsecond (by decide)

end Kotlin
end ScreenForge
