/-
# The markup of a layout as a document

The markup is put together from lines, and read as characters.  Between two marks stands a line
break and the blanks that indent the second one (`gap`), so the markup is a declaration and then
tags with gaps behind them.
-/
import ScreenForge.Proofs.Layout.Element
import ScreenForge.Proofs.Markup.Frame

namespace ScreenForge

open List

namespace Markup

/-- What a reader makes of a document before it builds elements: the document type and the tokens
behind what stands before the root element, with references replaced. -/
def content? (text : String) : Option (Doctype × List Token) := do
  let (standalone, body) ← start? (dropMark (Text.normalizeLines text.toList))
  let (d, content) ← prolog? (body.length + 1) none standalone body
  let tokens ← scan? content
  let resolved ← resolve? d.entities tokens
  return (d, resolved)

theorem read?_eq (text : String) :
    read? text = content? text >>= fun (d, tokens) => root? d tokens := by
  simp only [read?, content?, Option.bind_eq_bind, Option.bind_assoc]
  rfl

end Markup

namespace Text

/-- Lines without a return need no mending. -/
theorem normalizeLines_eq_self {s : List Char} (h : '\r' ∉ s) : normalizeLines s = s := by
  induction s with
  | nil => rfl
  | cons c s ih =>
    rw [mem_cons, not_or] at h
    rw [normalizeLines, ih h.2]
    · exact fun _ heq => absurd heq.symm h.1
    · exact fun heq => absurd heq.symm h.1

/-- Lines that are put together are written one after another, each with its line break. -/
theorem toList_join (lines : List String) (hne : lines ≠ []) :
    (join "\n" lines ++ "\n").toList = lines.flatMap fun line => line.toList ++ ['\n'] := by
  induction lines with
  | nil => exact absurd rfl hne
  | cons line rest ih =>
    cases rest with
    | nil => simp [join]
    | cons second rest =>
      have htail := ih (cons_ne_nil _ _)
      rw [String.toList_append] at htail
      rw [join, String.toList_append, String.toList_append, String.toList_append, append_assoc,
        htail, flatMap_cons]
      · rfl
      · exact cons_ne_nil _ _

end Text

namespace Layout

open Markup (startTagText endTagText attributeText tagEnd given isSpace Scans Token)

variable {mark : Mark} (marks : List Mark)

/-! ### From lines to characters -/

/-- A line break and the blanks of a depth. -/
def lineBlank (depth : Nat) : List Char := '\n' :: List.replicate (4 * depth) ' '

theorem toList_tab (depth : Nat) : (Kotlin.tab depth).toList = List.replicate (4 * depth) ' ' := by
  simp [Kotlin.tab]

/-- The depth of a mark. -/
def Mark.depth : Mark → Nat
  | .empty depth _ => depth
  | .opens depth _ => depth
  | .closes depth _ => depth

/-- The tag of a mark as it is written, without the blanks before it. -/
def Mark.tagText : Mark → List Char
  | .empty depth opened => startTagText (lineBlank (depth + 1)) opened.1 opened.2 true
  | .opens depth opened => startTagText (lineBlank (depth + 1)) opened.1 opened.2 false
  | .closes _ tag => endTagText tag

theorem flatMap_withTail (tail first : String) (rest : List String) :
    (withTail tail (first :: rest)).flatMap (fun line => line.toList ++ ['\n'])
      = first.toList ++ (rest.flatMap (fun line => '\n' :: line.toList) ++ (tail.toList ++ ['\n']))
      := by
  induction rest generalizing first with
  | nil => simp [withTail]
  | cons second rest ih =>
    rw [withTail, flatMap_cons, ih]
    · simp
    · exact cons_ne_nil _ _

theorem flatMap_opening (tail : String) (depth : Nat) (opened : Opening) :
    (withTail tail (opening depth opened.1 opened.2)).flatMap (fun line => line.toList ++ ['\n'])
      = List.replicate (4 * depth) ' ' ++ ('<' :: (opened.1.toList
        ++ (opened.2.flatMap (attributeText (lineBlank (depth + 1)))
          ++ (tail.toList ++ ['\n'])))) := by
  have hattributes : (opened.2.map fun a =>
        Kotlin.tab (depth + 1) ++ Markup.assignment a.1 a.2).flatMap
          (fun line => '\n' :: line.toList)
      = opened.2.flatMap (attributeText (lineBlank (depth + 1))) := by
    have hline : (fun a : String × String =>
          '\n' :: (Kotlin.tab (depth + 1) ++ Markup.assignment a.1 a.2).toList)
        = attributeText (lineBlank (depth + 1)) := by
      funext a
      have htab : (Kotlin.tab (depth + 1)).toList = List.replicate (4 * (depth + 1)) ' ' :=
        toList_tab (depth + 1)
      rw [String.toList_append, htab]
      rfl
    rw [flatMap_map, hline]
  rw [opening, flatMap_withTail, hattributes, String.toList_append, String.toList_append,
    toList_tab]
  simp

/-- **The lines of a mark are its tag behind the blanks of its depth.** -/
theorem Mark.flatMap_lines (mark : Mark) :
    mark.lines.flatMap (fun line => line.toList ++ ['\n'])
      = List.replicate (4 * mark.depth) ' ' ++ (mark.tagText ++ ['\n']) := by
  cases mark with
  | empty depth opened | opens depth opened =>
    rw [lines, flatMap_opening]
    simp [tagText, startTagText, tagEnd, Mark.depth]
  | closes depth tag =>
    simp [lines, tagText, endTagText, toList_tab, Mark.depth]

/-- What stands before marks: a line break, and the blanks of the first one. -/
def gap : List Mark → List Char
  | [] => ['\n']
  | mark :: _ => lineBlank mark.depth

/-- The characters of marks from the first tag on. -/
def tagsText : List Mark → List Char
  | [] => []
  | mark :: rest => mark.tagText ++ (gap rest ++ tagsText rest)

/-- The lines of marks are their tags, each behind its gap. -/
theorem flatMap_marks :
    '\n' :: (marks.flatMap Mark.lines).flatMap (fun line => line.toList ++ ['\n'])
      = gap marks ++ tagsText marks := by
  induction marks with
  | nil => rfl
  | cons mark rest ih =>
    rw [flatMap_cons, flatMap_append, Mark.flatMap_lines, gap, tagsText, ← ih, lineBlank]
    simp

/-- **The markup is a declaration and then tags with gaps behind them.** -/
theorem toList_markup :
    (markup marks).toList = declaration.toList ++ (gap marks ++ tagsText marks) := by
  rw [markup, Text.toList_join _ (cons_ne_nil _ _), flatMap_cons, append_assoc, ← flatMap_marks]
  rfl

/-! ### From characters to tokens -/

/-- The token of a mark. -/
def Mark.token : Mark → Token
  | .empty _ opened => .opening opened.1 (given opened.2) true
  | .opens _ opened => .opening opened.1 (given opened.2) false
  | .closes _ tag => .closing tag

/-- The tokens of marks: each with the blanks behind it. -/
def tokensOf : List Mark → List Token
  | [] => []
  | mark :: rest => mark.token :: .text (gap rest) :: tokensOf rest

/-- The name in the tag of a mark. -/
def Mark.tag : Mark → String
  | .empty _ opened => opened.1
  | .opens _ opened => opened.1
  | .closes _ tag => tag

/-- The attributes in the tag of a mark. -/
def Mark.attributes : Mark → List (String × String)
  | .empty _ opened => opened.2
  | .opens _ opened => opened.2
  | .closes _ _ => []

/-- Whether the names in the tag of a mark can be read. -/
structure Mark.Readable (mark : Mark) : Prop where
  tag : Markup.isPlainName mark.tag.toList = true
  attributes : ∀ a ∈ mark.attributes, Markup.IsQualified a.1

theorem all_isSpace_lineBlank (depth : Nat) : (lineBlank depth).all isSpace := by
  rw [lineBlank, all_cons, Bool.and_eq_true, all_eq_true]
  refine ⟨rfl, fun c hc => ?_⟩
  rw [(mem_replicate.1 hc).2]
  rfl

theorem gap_ne_nil : gap marks ≠ [] := by
  cases marks <;> exact cons_ne_nil _ _

theorem all_isSpace_gap : (gap marks).all isSpace := by
  cases marks with
  | nil => rfl
  | cons mark rest => exact all_isSpace_lineBlank mark.depth

/-- The tag of a mark is read as its token. -/
theorem Mark.token?_tagText (h : mark.Readable) (left : List Char) :
    Markup.token? (mark.tagText ++ left) = some (some mark.token, left) := by
  have hne : ∀ depth, lineBlank depth ≠ [] := fun _ => cons_ne_nil _ _
  cases mark with
  | empty depth opened =>
    exact Markup.token?_startTag (hne _) (all_isSpace_lineBlank _) h.tag h.attributes true left
  | opens depth opened =>
    exact Markup.token?_startTag (hne _) (all_isSpace_lineBlank _) h.tag h.attributes false left
  | closes depth tag => exact Markup.token?_endTag h.tag left

theorem Mark.tagText_eq_cons (mark : Mark) : ∃ rest, mark.tagText = '<' :: rest := by
  cases mark with
  | empty depth opened | opens depth opened | closes depth tag => exact ⟨_, rfl⟩

theorem head?_tagsText : ∀ c ∈ (tagsText marks).head?, Markup.isTextChar c = false := by
  intro c hc
  cases marks with
  | nil => cases hc
  | cons mark rest =>
    obtain ⟨others, htag⟩ := mark.tagText_eq_cons
    rw [tagsText, htag, cons_append, List.head?_cons, Option.mem_some_iff] at hc
    rw [← hc]
    rfl

/-- **A reader cuts the tags into the tokens of the marks**, with a blank text behind each. -/
theorem scans_tagsText {marks : List Mark} (h : ∀ mark ∈ marks, mark.Readable) :
    Scans (tagsText marks) (tokensOf marks) := by
  induction marks with
  | nil => exact .nil
  | cons mark rest ih =>
    obtain ⟨hmark, hrest⟩ := forall_mem_cons.1 h
    obtain ⟨others, htag⟩ := mark.tagText_eq_cons
    have hgap := length_pos_iff.2 (gap_ne_nil rest)
    refine .cons (Mark.token?_tagText hmark _) ?_ (.cons
      (Markup.token?_blank (gap_ne_nil rest) (all_isSpace_gap rest) (head?_tagsText rest)) ?_
      (ih hrest))
    · simp only [tagsText, htag, length_append, length_cons]
      omega
    · rw [length_append]
      omega

/-! ### Characters of markup -/

/-- What holds of the characters of markup apart from its values, and what it comes to for a value:
`Q s` says whether it holds of all characters that `s` is written with. -/
structure Admits (P : Char → Bool) (Q : String → Bool) : Prop where
  signs : P '<' ∧ P '>' ∧ P '/' ∧ P '=' ∧ P '"' ∧ P ':' ∧ P ' ' ∧ P '\n'
  name : ∀ c, Markup.isNameChar c → P c
  value : ∀ s : String, (Markup.quoted s.toList).all P = Q s

namespace Admits

variable {P : Char → Bool} {Q : String → Bool} (h : Admits P Q)

include h

theorem all_plainName {name : List Char} (hname : Markup.isPlainName name) : name.all P :=
  all_eq_true.2 fun c hc => h.name c (Markup.isNameChar_of_isPlainName hname c hc)

theorem all_lineBlank (depth : Nat) : (lineBlank depth).all P := by
  simp [lineBlank, h.signs]

theorem all_startTagText {depth : Nat} {tag : String} (htag : Markup.isPlainName tag.toList)
    {attributes : List (String × String)} (hnames : ∀ a ∈ attributes, Markup.IsQualified a.1)
    (empty : Bool) : (startTagText (lineBlank depth) tag attributes empty).all P
      = attributes.all fun a => Q a.2 := by
  have hattributes : (attributes.flatMap (attributeText (lineBlank depth))).all P
      = attributes.all fun a => Q a.2 := by
    rw [all_flatMap, Bool.eq_iff_iff, all_eq_true, all_eq_true]
    refine forall₂_congr fun a ha => ?_
    obtain ⟨shorthand, own, hname⟩ := hnames a ha
    rw [Markup.attributeText_eq, hname.toList_eq]
    simp [h.all_lineBlank, h.all_plainName hname.isPlainShorthand,
      h.all_plainName hname.isPlainOwn, h.value, h.signs]
  cases empty <;> simp [startTagText, tagEnd, h.all_plainName htag, hattributes, h.signs]

theorem all_tagText (hmark : mark.Readable) :
    mark.tagText.all P = mark.attributes.all fun a => Q a.2 := by
  cases mark with
  | empty depth opened | opens depth opened =>
    exact h.all_startTagText hmark.tag hmark.attributes _
  | closes depth tag =>
    have hname : tag.toList.all P := h.all_plainName hmark.tag
    simp [Mark.tagText, endTagText, Mark.attributes, hname, h.signs]

theorem all_gap : (gap marks).all P := by
  cases marks with
  | nil => simp [gap, h.signs]
  | cons mark rest => exact h.all_lineBlank mark.depth

/-- What tags are made of is decided by the values of attributes. -/
theorem all_tagsText {marks : List Mark} (hmarks : ∀ mark ∈ marks, mark.Readable) :
    (tagsText marks).all P = marks.all fun mark => mark.attributes.all fun a => Q a.2 := by
  induction marks with
  | nil => rfl
  | cons mark rest ih =>
    obtain ⟨hmark, hrest⟩ := forall_mem_cons.1 hmarks
    rw [tagsText, all_append, all_append, h.all_tagText hmark, h.all_gap, ih hrest,
      all_cons, Bool.true_and]

/-- **What holds of all characters of a markup is a question about its values.** -/
theorem all_markup {marks : List Mark} (hmarks : ∀ mark ∈ marks, mark.Readable)
    (hdeclaration : declaration.toList.all P) : (markup marks).toList.all P
      = marks.all fun mark => mark.attributes.all fun a => Q a.2 := by
  rw [toList_markup, all_append, all_append, hdeclaration, h.all_gap,
    h.all_tagsText hmarks, Bool.true_and, Bool.true_and]

end Admits

/-- No markup holds a return. -/
theorem return_not_mem_markup {marks : List Mark} (h : ∀ mark ∈ marks, mark.Readable) :
    '\r' ∉ (markup marks).toList := by
  have hadmits : Admits (· != '\r') fun _ => true := by
    refine ⟨by decide, fun c hc => bne_iff_ne.2 fun heq => ?_, fun s => all_eq_true.2 ?_⟩
    · exact absurd (heq ▸ hc) (by decide)
    · exact Text.bne_of_not_mem (Markup.not_mem_quoted s.toList).2.2
  have hall := hadmits.all_markup h (by decide)
  rw [all_eq_true.2 fun mark _ => all_eq_true.2 fun a _ => rfl] at hall
  exact fun hmem => absurd (all_eq_true.1 hall _ hmem) (by decide)

/-! ### Before the root element -/

/-- **A reader passes over the declaration.** -/
theorem start?_declaration (rest : List Char) :
    Markup.start? (declaration.toList ++ '\n' :: rest) = some (false, '\n' :: rest) := by
  rfl

theorem prolog?_bracket {s : List Char} {c : Char} {rest : List Char}
    (hskip : Markup.skipSpace s = '<' :: c :: rest) (hc : Markup.isNameStart c)
    (fuel : Nat) : Markup.prolog? (fuel + 1) none false s = some ({}, '<' :: c :: rest) := by
  obtain ⟨-, -, hmark, hquestion⟩ := Markup.ne_of_isNameStart hc
  rw [Markup.prolog?, hskip]
  split
  · next heq => exact absurd (List.cons.inj (List.cons.inj heq).2).1 hmark
  · next heq => exact absurd (List.cons.inj (List.cons.inj heq).2).1 hquestion
  · next heq => exact absurd (List.cons.inj (List.cons.inj heq).2).1 hmark
  · rfl

/-- Whether a mark opens an element. -/
def Mark.isOpening (mark : Mark) : Bool := mark.opened?.isSome

theorem Mark.tagText_of_isOpening (h : mark.isOpening) :
    ∃ rest, mark.tagText = '<' :: (mark.tag.toList ++ rest) := by
  cases mark with
  | empty depth opened | opens depth opened => exact ⟨_, rfl⟩
  | closes depth tag => exact absurd h Bool.false_ne_true

/-- In front of the first tag stands no prolog. -/
theorem prolog?_markup (hopening : mark.isOpening) (h : mark.Readable) (rest : List Mark)
    (fuel : Nat) :
    Markup.prolog? (fuel + 1) none false (gap (mark :: rest) ++ tagsText (mark :: rest))
      = some ({}, tagsText (mark :: rest)) := by
  obtain ⟨others, htag⟩ := Mark.tagText_of_isOpening hopening
  obtain ⟨first, name, hname, hstart⟩ := Markup.exists_first_of_isPlainName h.tag
  have htext : tagsText (mark :: rest)
      = '<' :: first :: (name ++ others ++ (gap rest ++ tagsText rest)) := by
    rw [tagsText, htag, hname]
    simp
  rw [htext]
  refine prolog?_bracket (Markup.skipSpace_append (all_isSpace_gap _) fun c hc => ?_) hstart fuel
  rw [List.head?_cons, Option.mem_some_iff] at hc
  rw [← hc]
  rfl

/-- Tokens without references stay as they are. -/
theorem gather_eq_self {entities : Markup.Entities} {expand : List Char → Option (List Token)}
    {tokens : List Token} (h : ∀ t ∈ tokens, ∀ name, t ≠ .reference name) :
    Markup.gather (Markup.tokenValue entities expand) tokens = some tokens := by
  induction tokens with
  | nil => rfl
  | cons t tokens ih =>
    obtain ⟨ht, hrest⟩ := forall_mem_cons.1 h
    have hvalue : Markup.tokenValue entities expand t = some [t] := by
      cases t with
      | reference name => exact absurd rfl (ht name)
      | _ => rfl
    rw [Markup.gather, hvalue, ih hrest]
    rfl

/-- A token of marks is a tag or blank. -/
theorem mem_tokensOf {marks : List Mark} {t : Token} (h : t ∈ tokensOf marks) :
    (∃ mark ∈ marks, t = mark.token) ∨ ∃ blank, t = .text blank ∧ blank.all isSpace := by
  induction marks with
  | nil => exact absurd h not_mem_nil
  | cons mark rest ih =>
    rw [tokensOf, mem_cons, mem_cons] at h
    rcases h with rfl | rfl | h
    · exact Or.inl ⟨mark, mem_cons_self, rfl⟩
    · exact Or.inr ⟨gap rest, rfl, all_isSpace_gap rest⟩
    · rcases ih h with ⟨other, hother, rfl⟩ | hblank
      · exact Or.inl ⟨other, mem_cons_of_mem _ hother, rfl⟩
      · exact Or.inr hblank

/-- **The markup of readable marks is read as their tokens**, and declares no document type. -/
theorem content?_markup {rest : List Mark} (hopening : mark.isOpening)
    (h : ∀ other ∈ mark :: rest, other.Readable) :
    Markup.content? (markup (mark :: rest)) = some ({}, tokensOf (mark :: rest)) := by
  have hmark : Markup.dropMark (Text.normalizeLines (markup (mark :: rest)).toList)
      = declaration.toList ++ (gap (mark :: rest) ++ tagsText (mark :: rest)) := by
    rw [Text.normalizeLines_eq_self (return_not_mem_markup h), toList_markup]
    rfl
  have hprolog := fun fuel => prolog?_markup hopening (h mark mem_cons_self) rest fuel
  have hresolve : Markup.resolve? {} (tokensOf (mark :: rest))
      = some (tokensOf (mark :: rest)) := by
    refine gather_eq_self fun t ht name => ?_
    rcases mem_tokensOf ht with ⟨other, -, rfl⟩ | ⟨blank, rfl, -⟩
    · cases other <;> exact fun heq => by cases heq
    · exact fun heq => by cases heq
  have hstart := start?_declaration
    (List.replicate (4 * mark.depth) ' ' ++ tagsText (mark :: rest))
  have hstart' : Markup.start?
      (declaration.toList ++ (gap (mark :: rest) ++ tagsText (mark :: rest)))
      = some (false, gap (mark :: rest) ++ tagsText (mark :: rest)) := hstart
  unfold Markup.content?
  rw [hmark, hstart']
  simp only [Option.bind_eq_bind, Option.bind_some, hprolog, (scans_tagsText h).scan?_eq, hresolve]
  rfl

end Layout
end ScreenForge
