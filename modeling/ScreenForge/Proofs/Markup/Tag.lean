/-
# Tags are read as they are written

A tag is a name and attributes, each behind blanks.  Where a tag has been read, the reading goes on
behind it.  `Scans` says that a text is cut into given tokens; it is built from the end, one token
at a time, so that the bound on the number of tokens never matters.
-/
import ScreenForge.Markup.Reader
import ScreenForge.Proofs.Markup.Quoted

namespace ScreenForge
namespace Markup

open List

variable {c : Char} {name rest blank : List Char} {attributes : List (String × String)}
  {tag : String}

/-! ### Names -/

/-- Whether characters are a plain name. -/
def isPlainName : List Char → Bool
  | [] => false
  | c :: rest => isNameStart c && rest.all isNameChar

/-- No name goes on with a text. -/
def EndsName (s : List Char) : Prop := ∀ c ∈ s.head?, isNameChar c = false ∧ c ≠ ':'

theorem isNameChar_of_isPlainName (h : isPlainName name) : ∀ c ∈ name, isNameChar c := by
  cases name with
  | nil => exact fun c hc => absurd hc not_mem_nil
  | cons first rest =>
    rw [isPlainName, Bool.and_eq_true, all_eq_true] at h
    exact forall_mem_cons.2 ⟨by simp [isNameChar, h.1], h.2⟩

theorem exists_first_of_isPlainName (h : isPlainName name) :
    ∃ first rest, name = first :: rest ∧ isNameStart first := by
  cases name with
  | nil => exact absurd h Bool.false_ne_true
  | cons first rest =>
    rw [isPlainName, Bool.and_eq_true] at h
    exact ⟨first, rest, rfl, h.1⟩

/-- A plain name ends where a character follows that cannot stand in one. -/
theorem plainName?_append (h : isPlainName name)
    (hrest : ∀ c ∈ rest.head?, isNameChar c = false) :
    plainName? (name ++ rest) = some (name, rest) := by
  obtain ⟨htake, hdrop⟩ := Text.takeWhile_of_head hrest
  cases name with
  | nil => exact absurd h Bool.false_ne_true
  | cons first name =>
    rw [isPlainName, Bool.and_eq_true, all_eq_true] at h
    rw [cons_append, plainName?, if_pos h.1, takeWhile_append_of_pos h.2,
      dropWhile_append_of_pos h.2, htake, hdrop, append_nil]

theorem qualifiedName?_plain (h : isPlainName name) (hrest : EndsName rest) :
    qualifiedName? (name ++ rest) = some (name, rest) := by
  have hname := plainName?_append h fun c hc => (hrest c hc).1
  unfold qualifiedName?
  rw [hname]
  cases rest with
  | nil => rfl
  | cons c rest =>
    have hc : c ≠ ':' := (hrest c rfl).2
    split
    · next heq =>
      simp only [Option.some.injEq, Prod.mk.injEq, List.cons.injEq] at heq
      exact absurd heq.2.1 hc
    · rfl

/-- A name that starts with a shorthand. -/
structure HasShorthand (name : String) (shorthand own : String) : Prop where
  isPlainShorthand : isPlainName shorthand.toList = true
  isPlainOwn : isPlainName own.toList = true
  eq : name = shorthand ++ ":" ++ own

theorem HasShorthand.toList_eq {name shorthand own : String} (h : HasShorthand name shorthand own) :
    name.toList = shorthand.toList ++ ':' :: own.toList := by
  simp [h.eq]

/-- A name with a shorthand is read as a whole. -/
theorem HasShorthand.qualifiedName? {name shorthand own : String}
    (h : HasShorthand name shorthand own) (hrest : EndsName rest) :
    qualifiedName? (name.toList ++ rest) = some (name.toList, rest) := by
  have hfirst : plainName? (shorthand.toList ++ ':' :: (own.toList ++ rest))
      = some (shorthand.toList, ':' :: (own.toList ++ rest)) :=
    plainName?_append h.isPlainShorthand fun c hc => by
      rw [List.head?_cons, Option.mem_some_iff] at hc
      rw [← hc]
      decide
  have hsecond := plainName?_append h.isPlainOwn fun c hc => (hrest c hc).1
  rw [h.toList_eq, append_assoc, cons_append]
  unfold Markup.qualifiedName?
  rw [hfirst]
  simp only [hsecond]
  cases rest with
  | nil => rfl
  | cons c rest =>
    have hc : c ≠ ':' := (hrest c rfl).2
    split
    · next heq =>
      simp only [Option.some.injEq, Prod.mk.injEq, List.cons.injEq] at heq
      exact absurd heq.2.1 hc
    · next heq =>
      simp only [Option.some.injEq, Prod.mk.injEq] at heq
      rw [← heq.1, ← heq.2]
    · next heq => cases heq

/-! ### Blanks and quotes -/

theorem skipSpace_append (h : blank.all isSpace)
    (hrest : ∀ c ∈ rest.head?, isSpace c = false) : skipSpace (blank ++ rest) = rest := by
  rw [skipSpace, dropWhile_append_of_pos (all_eq_true.1 h), (Text.takeWhile_of_head hrest).2]

/-- What holds of the four blanks holds of every blank. -/
theorem of_isSpace {p : Char → Bool} (h : [' ', '\t', '\n', '\r'].all p) (hc : isSpace c) : p c :=
  all_eq_true.1 h c (by simpa [isSpace, or_assoc] using hc)

theorem isSpace_of_isNameStart (h : isNameStart c) : isSpace c = false := by
  rw [Bool.eq_false_iff]
  intro hspace
  have hnot := of_isSpace (p := fun c => !isNameStart c) (by decide) hspace
  simp [h] at hnot

/-- A text is cut at the first mark. -/
theorem upTo?_append {mark : Char} {inside : List Char} (h : mark ∉ inside) (left : List Char) :
    upTo? [mark] (inside ++ mark :: left) = some (inside, left) := by
  induction inside with
  | nil => simp [upTo?, Text.startsWith]
  | cons c inside ih =>
    rw [mem_cons, not_or] at h
    rw [cons_append, upTo?, ih h.2]
    simp [Text.startsWith, h.1]

/-! ### Attributes and tags -/

/-- An attribute as it is written behind blanks. -/
def attributeText (blank : List Char) (a : String × String) : List Char :=
  blank ++ (assignment a.1 a.2).toList

theorem attributeText_eq (blank : List Char) (a : String × String) :
    attributeText blank a
      = blank ++ (a.1.toList ++ '=' :: '"' :: (quoted a.2.toList ++ ['"'])) := by
  simp [attributeText, assignment, quote, quoted]

/-- Whether a name has a shorthand. -/
def IsQualified (name : String) : Prop := ∃ shorthand own, HasShorthand name shorthand own

theorem ne_of_isNameStart (h : isNameStart c) : c ≠ '>' ∧ c ≠ '/' ∧ c ≠ '!' ∧ c ≠ '?' := by
  refine ⟨?_, ?_, ?_, ?_⟩ <;>
    (rintro rfl; revert h; decide)

/-- The attributes of a tag as a reader takes them: names, and values as they are written. -/
def given (attributes : List (String × String)) : List (String × List Char) :=
  attributes.map fun a => (a.1, quoted a.2.toList)

/-- One attribute is read as its name and its value as written. -/
theorem tagRest?_attribute (hne : blank ≠ []) (hblank : blank.all isSpace)
    {a : String × String} (ha : IsQualified a.1) (left : List Char) (fuel : Nat)
    (acc : List (String × List Char)) :
    tagRest? (fuel + 1) (attributeText blank a ++ left) acc
      = tagRest? fuel left ((a.1, quoted a.2.toList) :: acc) := by
  obtain ⟨shorthand, own, hname⟩ := ha
  obtain ⟨first, others, hfirst, hstart⟩ := exists_first_of_isPlainName hname.isPlainShorthand
  have htext : attributeText blank a ++ left
      = blank ++ (a.1.toList ++ '=' :: '"' :: (quoted a.2.toList ++ '"' :: left)) := by
    simp [attributeText_eq]
  have hhead : a.1.toList = first :: (others ++ ':' :: own.toList) := by
    rw [hname.toList_eq, hfirst]
    rfl
  have hskip : skipSpace (attributeText blank a ++ left)
      = a.1.toList ++ '=' :: '"' :: (quoted a.2.toList ++ '"' :: left) := by
    rw [htext]
    refine skipSpace_append hblank fun c hc => ?_
    rw [hhead, cons_append, List.head?_cons, Option.mem_some_iff] at hc
    exact hc ▸ isSpace_of_isNameStart hstart
  have hneed : ∃ r, needSpace? (attributeText blank a ++ left) = some r := by
    rw [htext]
    cases blank with
    | nil => exact absurd rfl hne
    | cons b blank =>
      rw [all_cons, Bool.and_eq_true] at hblank
      exact ⟨_, by rw [cons_append, needSpace?, if_pos hblank.1]⟩
  obtain ⟨r, hneed⟩ := hneed
  have hends : EndsName ('=' :: '"' :: (quoted a.2.toList ++ '"' :: left)) := by
    intro c hc
    rw [List.head?_cons, Option.mem_some_iff] at hc
    rw [← hc]
    decide
  have hread := hname.qualifiedName? hends
  have hquoted : quoted? ('"' :: (quoted a.2.toList ++ '"' :: left))
      = some (quoted a.2.toList, left) := upTo?_append (not_mem_quoted _).1 left
  have hbracket : (quoted a.2.toList).contains '<' = false := by
    simpa using (not_mem_quoted a.2.toList).2.1
  rw [tagRest?, hskip]
  split
  · next heq =>
    rw [hhead, cons_append, List.cons.injEq] at heq
    exact absurd heq.1 (ne_of_isNameStart hstart).1
  · next heq =>
    rw [hhead, cons_append, List.cons.injEq] at heq
    exact absurd heq.1 (ne_of_isNameStart hstart).2.1
  · simp only [hneed, hread]
    have hequals : skipSpace ('=' :: '"' :: (quoted a.2.toList ++ '"' :: left))
        = '=' :: '"' :: (quoted a.2.toList ++ '"' :: left) := rfl
    have hquote : skipSpace ('"' :: (quoted a.2.toList ++ '"' :: left))
        = '"' :: (quoted a.2.toList ++ '"' :: left) := rfl
    simp only [hequals, hquote, hquoted, hbracket, String.ofList_toList]
    rfl

/-- The end of a start tag. -/
def tagEnd (empty : Bool) : List Char := if empty then [' ', '/', '>'] else ['>']

/-- The end of a tag is read with its slash. -/
theorem tagRest?_end (empty : Bool) (left : List Char) (fuel : Nat)
    (acc : List (String × List Char)) :
    tagRest? (fuel + 1) (tagEnd empty ++ left) acc = some (acc.reverse, empty, left) := by
  cases empty <;> rfl

/-- **The attributes of a tag are read one by one**, up to its end. -/
theorem tagRest?_written (hne : blank ≠ []) (hblank : blank.all isSpace)
    (h : ∀ a ∈ attributes, IsQualified a.1) (empty : Bool) (left : List Char) (fuel : Nat)
    (hfuel : attributes.length < fuel) (acc : List (String × List Char)) :
    tagRest? fuel (attributes.flatMap (attributeText blank) ++ (tagEnd empty ++ left)) acc
      = some (acc.reverse ++ given attributes, empty, left) := by
  induction attributes generalizing fuel acc with
  | nil =>
    obtain ⟨fuel, rfl⟩ : ∃ n, fuel = n + 1 := ⟨fuel - 1, by simp at hfuel; omega⟩
    rw [flatMap_nil, nil_append, tagRest?_end]
    simp [given]
  | cons a attributes ih =>
    rw [length_cons] at hfuel
    obtain ⟨fuel, rfl⟩ : ∃ n, fuel = n + 1 := ⟨fuel - 1, by omega⟩
    obtain ⟨ha, hrest⟩ := forall_mem_cons.1 h
    rw [flatMap_cons, append_assoc, tagRest?_attribute hne hblank ha, ih hrest fuel (by omega)]
    simp [given]

theorem length_le_flatMap_attributeText (hne : blank ≠ []) (attributes : List (String × String)) :
    attributes.length ≤ (attributes.flatMap (attributeText blank)).length := by
  induction attributes with
  | nil => exact Nat.le_refl _
  | cons a attributes ih =>
    have hpos := length_pos_iff.2 hne
    rw [length_cons, flatMap_cons, length_append, attributeText, length_append]
    omega

theorem endsName_of_isSpace (h : isSpace c) (rest : List Char) : EndsName (c :: rest) := by
  intro d hd
  rw [List.head?_cons, Option.mem_some_iff] at hd
  simpa [hd] using of_isSpace (p := fun c => !isNameChar c && c != ':') (by decide) h

theorem endsName_tagEnd (empty : Bool) (left : List Char) : EndsName (tagEnd empty ++ left) := by
  intro c hc
  cases empty with
  | false =>
    obtain rfl : '>' = c := Option.some.inj hc
    decide
  | true =>
    obtain rfl : ' ' = c := Option.some.inj hc
    decide

/-- A start tag as it is written, with blanks before each attribute. -/
def startTagText (blank : List Char) (tag : String) (attributes : List (String × String))
    (empty : Bool) : List Char :=
  '<' :: (tag.toList ++ (attributes.flatMap (attributeText blank) ++ tagEnd empty))

/-- An end tag as it is written. -/
def endTagText (tag : String) : List Char := '<' :: '/' :: (tag.toList ++ ['>'])

/-- **A start tag is read as it is written**, whatever follows. -/
theorem startTag?_written (hne : blank ≠ []) (hblank : blank.all isSpace)
    (htag : isPlainName tag.toList) (h : ∀ a ∈ attributes, IsQualified a.1) (empty : Bool)
    (left : List Char) :
    startTag? (tag.toList ++ (attributes.flatMap (attributeText blank) ++ (tagEnd empty ++ left)))
      = some (.opening tag (given attributes) empty, left) := by
  have hends : EndsName (attributes.flatMap (attributeText blank) ++ (tagEnd empty ++ left)) := by
    cases attributes with
    | nil => exact endsName_tagEnd empty left
    | cons a attributes =>
      obtain ⟨b, bs, rfl⟩ := exists_cons_of_ne_nil hne
      rw [all_cons, Bool.and_eq_true] at hblank
      exact endsName_of_isSpace hblank.1 _
  have hlength := length_le_flatMap_attributeText hne attributes
  have hrest := tagRest?_written hne hblank h empty left
    ((attributes.flatMap (attributeText blank) ++ (tagEnd empty ++ left)).length + 1)
    (by rw [length_append]; omega) []
  rw [startTag?, qualifiedName?_plain htag hends]
  simp only [hrest, String.ofList_toList]
  rfl

/-- An end tag is read as its name. -/
theorem endTag?_written (htag : isPlainName tag.toList) (left : List Char) :
    endTag? (tag.toList ++ '>' :: left) = some (.closing tag, left) := by
  have hends : EndsName ('>' :: left) := endsName_tagEnd false left
  rw [endTag?, qualifiedName?_plain htag hends]
  simp only [String.ofList_toList]
  rfl

/-! ### Tokens -/

theorem need?_sectionMark (h : c ≠ '!') (rest : List Char) :
    need? sectionMark ('<' :: c :: rest) = none := by
  obtain ⟨others, hmark⟩ : ∃ others, sectionMark = '<' :: '!' :: others := ⟨_, rfl⟩
  rw [hmark, need?, if_pos rfl, need?, if_neg h.symm]

/-- A bracket before a letter starts a tag. -/
theorem token?_bracket (h : isNameStart c) (rest : List Char) :
    token? ('<' :: c :: rest) = (startTag? (c :: rest)).map fun (t, left) => (some t, left) := by
  obtain ⟨-, hslash, hmark, hquestion⟩ := ne_of_isNameStart h
  rw [token?, need?_sectionMark hmark]
  · simp [hslash]
  · simp [hmark]
  · simp [hquestion]

/-- A start tag is one token, whatever follows it. -/
theorem token?_startTag (hne : blank ≠ []) (hblank : blank.all isSpace)
    (htag : isPlainName tag.toList) (h : ∀ a ∈ attributes, IsQualified a.1) (empty : Bool)
    (left : List Char) :
    token? (startTagText blank tag attributes empty ++ left)
      = some (some (.opening tag (given attributes) empty), left) := by
  obtain ⟨first, others, hfirst, hstart⟩ := exists_first_of_isPlainName htag
  have htext : startTagText blank tag attributes empty ++ left
      = '<' :: first :: (others
        ++ (attributes.flatMap (attributeText blank) ++ (tagEnd empty ++ left))) := by
    simp [startTagText, hfirst]
  have hread := startTag?_written hne hblank htag h empty left
  rw [hfirst, cons_append] at hread
  rw [htext, token?_bracket hstart, hread]
  rfl

/-- An end tag is one token, whatever follows it. -/
theorem token?_endTag (htag : isPlainName tag.toList) (left : List Char) :
    token? (endTagText tag ++ left) = some (some (.closing tag), left) := by
  have htext : endTagText tag ++ left = '<' :: '/' :: (tag.toList ++ '>' :: left) := by
    simp [endTagText]
  rw [htext, token?, endTag?_written htag]
  rfl

theorem isPlain_blank (h : blank.all isSpace) : isPlain blank := by
  rw [isPlain, Bool.and_eq_true]
  induction blank with
  | nil => exact ⟨rfl, rfl⟩
  | cons c blank ih =>
    rw [all_cons, Bool.and_eq_true] at h
    obtain ⟨hlegal, hindex⟩ := ih h.2
    have hspace : isLegal c ∧ ']' ≠ c := by
      simpa using of_isSpace (p := fun c => isLegal c && ']' != c) (by decide) h.1
    refine ⟨by rw [all_cons, hspace.1, hlegal]; rfl, ?_⟩
    rw [Option.isNone_iff_eq_none] at hindex ⊢
    simp [Text.indexOf?, Text.startsWith, hspace.2, hindex]

/-- **Blanks up to a tag or to the end are a text of their own.** -/
theorem token?_blank (hne : blank ≠ []) (h : blank.all isSpace) {left : List Char}
    (hleft : ∀ c ∈ left.head?, isTextChar c = false) :
    token? (blank ++ left) = some (some (.text blank), left) := by
  have htext : ∀ c ∈ blank, isTextChar c := fun c hc =>
    of_isSpace (by decide) (all_eq_true.1 h c hc)
  obtain ⟨htake, hdrop⟩ := Text.takeWhile_of_head hleft
  have hrun : (blank ++ left).takeWhile isTextChar = blank := by
    rw [takeWhile_append_of_pos htext, htake, append_nil]
  have hbehind : (blank ++ left).dropWhile isTextChar = left := by
    rw [dropWhile_append_of_pos htext, hdrop]
  obtain ⟨c, rest, rfl⟩ := exists_cons_of_ne_nil hne
  have hc := htext c mem_cons_self
  rw [isTextChar, Bool.and_eq_true, bne_iff_ne, bne_iff_ne] at hc
  rw [cons_append] at hrun hbehind ⊢
  rw [token?]
  · simp only [hrun, hbehind, isPlain_blank h, if_true]
  · exact fun _ heq => absurd heq hc.1
  · exact fun _ heq => absurd heq hc.1
  · exact fun _ heq => absurd heq hc.1
  · exact hc.1
  · exact hc.2

/-! ### Cutting a text into tokens -/

/-- A text is cut into tokens, however many it may be at most. -/
def Scans (s : List Char) (tokens : List Token) : Prop :=
  ∀ fuel, s.length ≤ fuel → scanFrom fuel s = some tokens

theorem Scans.nil : Scans [] [] := by
  intro fuel _
  cases fuel <;> rfl

/-- **One token, then the others.** -/
theorem Scans.cons {s left : List Char} {token : Token} {tokens : List Token}
    (htoken : token? s = some (some token, left)) (hlength : left.length < s.length)
    (h : Scans left tokens) : Scans s (token :: tokens) := by
  intro fuel hfuel
  obtain ⟨fuel, rfl⟩ : ∃ n, fuel = n + 1 := ⟨fuel - 1, by omega⟩
  obtain ⟨c, rest, rfl⟩ : ∃ c rest, s = c :: rest :=
    exists_cons_of_ne_nil (length_pos_iff.1 (by omega))
  rw [scanFrom, htoken]
  simp only [h fuel (by omega)]
  · rfl
  · exact fun heq => absurd heq (cons_ne_nil _ _)

/-- A text that is cut into tokens is scanned as these. -/
theorem Scans.scan?_eq {s : List Char} {tokens : List Token} (h : Scans s tokens) :
    scan? s = some tokens := h s.length (Nat.le_refl _)

end Markup
end ScreenForge
