/-
# Lexemes of lines

A line of Kotlin is cut into the characters of its code, its string literals and, at its end,
perhaps a comment.  In a literal a backslash takes the next character with it, and a dollar sign
opens a template, which is refused.  So are ends of lines, and what would open something else in
code: `/*`, a character literal, a name in backticks, and the second of two literals that touch.

`Lexes s ls` says that the characters `s` are the lexemes `ls` whatever follows, as long as no two
quotes meet.  What can stand between the quotes of a literal is told by `isContent`.
-/
import ScreenForge.Proofs.Kotlin.Name

namespace ScreenForge
namespace Kotlin

open List

variable {s u : List Char} {ls : List Lexeme}

/-- A part of a line. -/
inductive Lexeme where
  /-- A character of code. -/
  | code (c : Char)
  /-- A string literal, with what stands between its quotes. -/
  | literal (content : List Char)
  /-- A comment, with what stands behind its mark. -/
  | comment (text : List Char)
  deriving DecidableEq, Repr

/-- Whether a character ends a line. -/
def endsLine (c : Char) : Bool := c == '\n' || c == '\r'

/-- Whether a character can stand in code and open nothing there, apart from a comment. -/
def isCode (c : Char) : Bool := !(['"', '\x27', '\x60', '\\', '\n', '\r'].contains c)

/-- Where the cutting of a line stands. -/
inductive Mode where
  | code
  /-- In a literal, with its content so far. -/
  | literal (content : List Char)
  /-- Behind a backslash in a literal. -/
  | escape (content : List Char)

/-- The lexemes of the rest of a line. -/
def lexFrom : Mode → List Char → Option (List Lexeme)
  | .code, [] => some []
  | .code, c :: cs =>
    if c = '"' then lexFrom (.literal []) cs
    else if c = '/' ∧ cs.head? = some '/' then
      if cs.any endsLine then none else some [.comment (cs.drop 1)]
    else if c = '/' ∧ cs.head? = some '*' then none
    else if isCode c then (lexFrom .code cs).map (.code c :: ·) else none
  | .literal content, c :: cs =>
    if c = '"' then
      if cs.head? = some '"' then none else (lexFrom .code cs).map (.literal content :: ·)
    else if c = '\\' then lexFrom (.escape content) cs
    else if c = '$' ∨ endsLine c = true then none
    else lexFrom (.literal (content ++ [c])) cs
  | .escape content, c :: cs =>
    if endsLine c then none else lexFrom (.literal (content ++ ['\\', c])) cs
  | _, [] => none

/-- The lexemes of a line. -/
def lexemes? (line : String) : Option (List Lexeme) := lexFrom .code line.toList

/-- The characters of code, in order. -/
def codeIn (ls : List Lexeme) : List Char :=
  ls.filterMap fun l => match l with
    | .code c => some c
    | _ => none

/-- The contents of literals, in order. -/
def contentsIn (ls : List Lexeme) : List (List Char) :=
  ls.filterMap fun l => match l with
    | .literal content => some content
    | _ => none

/-- Whether a lexeme is a comment. -/
def Lexeme.isComment : Lexeme → Bool
  | .comment _ => true
  | _ => false

theorem codeIn_append (ls ms : List Lexeme) : codeIn (ls ++ ms) = codeIn ls ++ codeIn ms :=
  filterMap_append

theorem contentsIn_append (ls ms : List Lexeme) :
    contentsIn (ls ++ ms) = contentsIn ls ++ contentsIn ms :=
  filterMap_append

theorem codeIn_map_code (s : List Char) : codeIn (s.map .code) = s := by
  induction s with
  | nil => rfl
  | cons c s ih => exact congrArg (c :: ·) ih

theorem contentsIn_map_code (s : List Char) : contentsIn (s.map .code) = [] := by
  induction s with
  | nil => rfl
  | cons c s ih => exact ih

/-! ### Contents of literals -/

/-- Whether the rest of a content is one, perhaps behind a backslash. -/
def contentFrom : Bool → List Char → Bool
  | escaped, [] => !escaped
  | true, c :: cs => !endsLine c && contentFrom false cs
  | false, c :: cs =>
    if c = '\\' then contentFrom true cs
    else c != '"' && c != '$' && !endsLine c && contentFrom false cs

/-- Whether characters can stand between the quotes of a literal: no quote, dollar sign or end of a
line, unless escaped, and nothing is left to escape. -/
def isContent (s : List Char) : Bool := contentFrom false s

theorem contentFrom_append {escaped : Bool} (hs : contentFrom escaped s) (u : List Char) :
    contentFrom escaped (s ++ u) = isContent u := by
  induction s generalizing escaped with
  | nil =>
    cases escaped with
    | false => rfl
    | true => exact absurd hs (by decide)
  | cons c s ih =>
    cases escaped with
    | true =>
      rw [contentFrom, Bool.and_eq_true] at hs
      rw [cons_append, contentFrom, hs.1, Bool.true_and]
      exact ih hs.2
    | false =>
      by_cases hc : c = '\\'
      · rw [contentFrom, if_pos hc] at hs
        rw [cons_append, contentFrom, if_pos hc]
        exact ih hs
      · rw [contentFrom, if_neg hc, Bool.and_eq_true] at hs
        rw [cons_append, contentFrom, if_neg hc, hs.1, Bool.true_and]
        exact ih hs.2

/-- **A content goes on with a content.** -/
theorem isContent_append (hs : isContent s) (u : List Char) : isContent (s ++ u) = isContent u :=
  contentFrom_append hs u

/-- Characters that need no escape are a content. -/
theorem isContent_of_all
    (h : s.all fun c => c != '\\' && c != '"' && c != '$' && !endsLine c) :
    isContent s := by
  rw [isContent]
  induction s with
  | nil => rfl
  | cons c s ih =>
    simp only [all_cons, Bool.and_eq_true, bne_iff_ne] at h
    obtain ⟨⟨⟨⟨hslash, hquote⟩, hdollar⟩, hline⟩, hs⟩ := h
    rw [contentFrom, if_neg hslash, ih hs]
    simp [hquote, hdollar, hline]

/-- An escaped character can stand in a literal. -/
theorem isContent_escapeChar (c : Char) : isContent (escapeChar c) := by
  unfold escapeChar
  split
  · next e he =>
    have hall : ['\\', '"', '$', 'n', 'r', 't'].all fun e => isContent ['\\', e] := by
      decide
    exact all_eq_true.1 hall e (mem_letters_of_escapeLetter? he)
  · next hc =>
    refine isContent_of_all ?_
    unfold escapeLetter? at hc
    simp only [all_cons, all_nil, Bool.and_true, Bool.and_eq_true, bne_iff_ne, endsLine,
      Bool.not_eq_true', Bool.or_eq_false_iff, beq_eq_false_iff_ne]
    grind

/-- **An escaped text is a content**, whatever the text. -/
theorem isContent_escaped (s : List Char) : isContent (s.flatMap escapeChar) := by
  induction s with
  | nil => rfl
  | cons c s ih =>
    rw [flatMap_cons, isContent_append (isContent_escapeChar c)]
    exact ih

/-! ### Cutting piece by piece -/

/-- No two quotes meet where a text goes on with another. -/
def Apart (s u : List Char) : Prop := s.getLast? = some '"' → u.head? ≠ some '"'

/-- `Lexes s ls`: the characters `s` are the lexemes `ls`, whatever follows. -/
def Lexes (s : List Char) (ls : List Lexeme) : Prop :=
  ∀ rest, Apart s rest → lexFrom .code (s ++ rest) = (lexFrom .code rest).map (ls ++ ·)

theorem apart_of_last (h : s.getLast? ≠ some '"') (u : List Char) : Apart s u :=
  fun hs => absurd hs h

theorem apart_of_head (s : List Char) (h : u.head? ≠ some '"') : Apart s u :=
  fun _ => h

/-- Texts can be written behind each other if no two quotes meet. -/
theorem Lexes.append {ms : List Lexeme} (hs : Lexes s ls) (hu : Lexes u ms) (happart : Apart s u) :
    Lexes (s ++ u) (ls ++ ms) := by
  cases u with
  | nil =>
    have hms : ms = [] := by
      have := hu [] (apart_of_last (by simp) _)
      simpa [lexFrom] using this
    rw [append_nil, hms, append_nil]
    exact hs
  | cons c u =>
    intro rest hrest
    have hlast : Apart (c :: u) rest := by
      intro h
      refine hrest ?_
      rw [List.getLast?_append, h]
      rfl
    have hfirst : Apart s (c :: u ++ rest) := happart
    rw [append_assoc, hs _ hfirst, hu rest hlast, Option.map_map]
    exact congrArg (Option.map · _) (funext fun _ => (append_assoc ..).symm)

/-- A text that lexes is a line of its own. -/
theorem Lexes.lexemes? {s : String} (h : Lexes s.toList ls) : lexemes? s = some ls := by
  have := h [] (apart_of_head _ (by simp))
  simpa [Kotlin.lexemes?, lexFrom] using this

/-- Whether characters are code and a slash stands only in front of a blank. -/
def isPlainCode : List Char → Bool
  | [] => true
  | c :: cs => isCode c && (c != '/' || cs.head? == some ' ') && isPlainCode cs

theorem isCode_ne {c : Char} (h : isCode c) : c ≠ '"' := by
  rintro rfl
  exact absurd h (by decide)

/-- **Plain code is cut into its characters.** -/
theorem lexes_code (h : isPlainCode s) : Lexes s (s.map .code) := by
  rintro rest -
  induction s with
  | nil => simp
  | cons c s ih =>
    rw [isPlainCode, Bool.and_eq_true, Bool.and_eq_true] at h
    obtain ⟨⟨hc, hslash⟩, hs⟩ := h
    have hnot : ∀ d, d ≠ ' ' → ¬ (c = '/' ∧ (s ++ rest).head? = some d) := by
      rintro d hd ⟨rfl, hhead⟩
      have hblank : s.head? = some ' ' := by simpa using hslash
      rw [List.head?_append, hblank] at hhead
      exact hd (Option.some.inj hhead).symm
    rw [cons_append, lexFrom, if_neg (isCode_ne hc), if_neg (hnot '/' (by decide)),
      if_neg (hnot '*' (by decide)), if_pos hc, ih hs, Option.map_map]
    rfl

/-- A content goes to its closing quote. -/
theorem lexFrom_content (acc rest : List Char) (hrest : rest.head? ≠ some '"') :
    (isContent u → lexFrom (.literal acc) (u ++ '"' :: rest)
      = (lexFrom .code rest).map (.literal (acc ++ u) :: ·)) ∧
    (contentFrom true u → lexFrom (.escape acc) (u ++ '"' :: rest)
      = (lexFrom .code rest).map (.literal (acc ++ '\\' :: u) :: ·)) := by
  induction u generalizing acc with
  | nil =>
    refine ⟨fun _ => ?_, fun h => absurd h (by decide)⟩
    rw [nil_append, lexFrom, if_pos rfl, if_neg hrest, append_nil]
  | cons c u ih =>
    constructor
    · intro h
      by_cases hc : c = '\\'
      · rw [isContent, contentFrom, if_pos hc] at h
        subst hc
        rw [cons_append, lexFrom, if_neg (by decide), if_pos rfl]
        exact (ih acc).2 h
      · simp only [isContent, contentFrom, if_neg hc, Bool.and_eq_true, bne_iff_ne,
          Bool.not_eq_true'] at h
        obtain ⟨⟨⟨hquote, hdollar⟩, hline⟩, hu⟩ := h
        have hplain : ¬ (c = '$' ∨ endsLine c) := by simp [hdollar, hline]
        rw [cons_append, lexFrom, if_neg hquote, if_neg hc, if_neg hplain,
          (ih (acc ++ [c])).1 hu, append_assoc, singleton_append]
    · intro h
      rw [contentFrom, Bool.and_eq_true, Bool.not_eq_true'] at h
      rw [cons_append, lexFrom, h.1, if_neg (by decide), (ih (acc ++ ['\\', c])).1 h.2,
        append_assoc]
      rfl

/-- **A content between quotes is one literal.** -/
theorem lexes_literal (h : isContent u) : Lexes ('"' :: (u ++ ['"'])) [.literal u] := by
  intro rest hrest
  have hhead : rest.head? ≠ some '"' := hrest (by
    rw [← cons_append]
    exact List.getLast?_concat)
  have hcut := (lexFrom_content [] rest hhead).1 h
  rw [cons_append, lexFrom, if_pos rfl, append_assoc, singleton_append, hcut]
  rfl

/-- What is being read of a literal is the front of a content. -/
def Mode.IsSound : Mode → Prop
  | .code => True
  | .literal content => isContent content = true
  | .escape content => isContent content = true

theorem mem_contentsIn_cons {l : Lexeme} {content : List Char}
    (h : content ∈ contentsIn (l :: ls)) : l = .literal content ∨ content ∈ contentsIn ls := by
  obtain ⟨m, hm, hmc⟩ := mem_filterMap.1 h
  rcases mem_cons.1 hm with rfl | hm
  · cases m with
    | literal found => exact .inl (congrArg Lexeme.literal (Option.some.inj hmc))
    | code c => cases hmc
    | comment text => cases hmc
  · exact .inr (mem_filterMap.2 ⟨m, hm, hmc⟩)

/-- **Every literal that is found has a content.** -/
theorem isContent_of_mem_contents {mode : Mode} (hmode : mode.IsSound) {cs : List Char}
    (h : lexFrom mode cs = some ls) {content : List Char} (hcontent : content ∈ contentsIn ls) :
    isContent content := by
  fun_induction lexFrom mode cs generalizing ls with
  | case1 | case4 => cases h; cases hcontent
  | case2 cs ih => exact ih rfl h hcontent
  | case3 | case5 | case7 | case8 | case11 | case13 | case15 => cases h
  | case6 c cs hquote hline hblock hcode ih =>
    obtain ⟨ms, hms, rfl⟩ := Option.map_eq_some_iff.1 h
    rcases mem_contentsIn_cons hcontent with hl | hin
    · cases hl
    · exact ih trivial hms hin
  | case9 found cs hapart ih =>
    obtain ⟨ms, hms, rfl⟩ := Option.map_eq_some_iff.1 h
    rcases mem_contentsIn_cons hcontent with hl | hin
    · cases hl
      exact hmode
    · exact ih trivial hms hin
  | case10 found cs hquote ih => exact ih hmode h hcontent
  | case12 found c cs hquote hslash hplain ih =>
    have hc : isContent [c] := by
      refine isContent_of_all ?_
      rw [not_or] at hplain
      simp [hquote, hslash, hplain.1, hplain.2]
    refine ih ?_ h hcontent
    show isContent (found ++ [c]) = true
    rw [isContent_append hmode, hc]
  | case14 found c cs hline ih =>
    have hc : isContent ['\\', c] := by
      simp [isContent, contentFrom, hline]
    refine ih ?_ h hcontent
    show isContent (found ++ ['\\', c]) = true
    rw [isContent_append hmode, hc]

end Kotlin
end ScreenForge
