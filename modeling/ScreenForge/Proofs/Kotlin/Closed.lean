/-
# Closed texts

A text is closed if its literals are told (`Sealed`): they have the contents that are given, the
round brackets of the code between them pair up, and there is neither a comment nor a brace.  Such a
text can be put in brackets, called with, and joined with others, as long as something stands
between them.
-/
import ScreenForge.Proofs.Kotlin.Form
import ScreenForge.Proofs.Text.Balance

namespace ScreenForge
namespace Kotlin

open List
open Code (Expr)
open Text (Balanced)

variable {s u name : String} {cs : List (List Char)} {target : String × Layout.Ref}
  {ds : List (List Char)} {ls : List Lexeme}

/-- Lexemes with literals of these contents, paired brackets, and neither comments nor braces. -/
structure Sealed (ls : List Lexeme) (contents : List (List Char)) : Prop where
  contents : contentsIn ls = contents
  uncommented : ∀ l ∈ ls, l.isComment = false
  balanced : Balanced '(' ')' (codeIn ls)
  flat : ∀ c ∈ codeIn ls, c ≠ '\x7b' ∧ c ≠ '\x7d'

/-- A line that is cut into sealed lexemes. -/
def Closes (line : String) (contents : List (List Char)) : Prop :=
  ∃ ls, lexemes? line = some ls ∧ Sealed ls contents

/-- A text that is cut into sealed lexemes, whatever follows. -/
def Closed (s : String) (contents : List (List Char)) : Prop :=
  ∃ ls, Lexes s.toList ls ∧ Sealed ls contents

theorem Closed.closes {contents : List (List Char)} (h : Closed s contents) :
    Closes s contents := by
  obtain ⟨ls, hls, hsealed⟩ := h
  exact ⟨ls, hls.lexemes?, hsealed⟩

/-- **The literals of a closed line have contents.** -/
theorem Closes.isContent {line : String} {contents : List (List Char)} (h : Closes line contents) :
    ∀ content ∈ contents, isContent content := by
  obtain ⟨ls, hls, hsealed⟩ := h
  intro content hcontent
  rw [← hsealed.contents] at hcontent
  exact isContent_of_mem_contents (show Mode.code.IsSound from trivial) hls hcontent

theorem Sealed.append {ms : List Lexeme} (hls : Sealed ls cs) (hms : Sealed ms ds) :
    Sealed (ls ++ ms) (cs ++ ds) where
  contents := by rw [contentsIn_append, hls.contents, hms.contents]
  uncommented l hl := (mem_append.1 hl).elim (hls.uncommented l) (hms.uncommented l)
  balanced := by
    rw [codeIn_append]
    exact hls.balanced.append hms.balanced
  flat c hc := by
    rw [codeIn_append] at hc
    exact (mem_append.1 hc).elim (hls.flat c) (hms.flat c)

theorem sealed_signs (h : isSigns s) : Sealed (s.toList.map .code) [] := by
  have hne : ∀ c ∈ s.toList, c ≠ '(' ∧ c ≠ ')' ∧ c ≠ '\x7b' ∧ c ≠ '\x7d' := by
    intro c hc
    have := all_eq_true.1 (Bool.and_eq_true_iff.1 h).2 c hc
    simpa using this
  refine ⟨contentsIn_map_code _, ?_, ?_, ?_⟩
  · intro l hl
    obtain ⟨c, -, rfl⟩ := mem_map.1 hl
    rfl
  · rw [codeIn_map_code]
    exact Text.balanced_of_not_mem (fun hc => (hne _ hc).1 rfl) (fun hc => (hne _ hc).2.1 rfl)
  · rw [codeIn_map_code]
    exact fun c hc => (hne c hc).2.2

theorem closed_signs (h : isSigns s) : Closed s [] :=
  ⟨_, lexes_code (Bool.and_eq_true_iff.1 h).1, sealed_signs h⟩

theorem isPlainCode_isCode {s : List Char} (h : isPlainCode s) : ∀ c ∈ s, isCode c := by
  induction s with
  | nil => exact forall_mem_nil _
  | cons d s ih =>
    rw [isPlainCode, Bool.and_eq_true, Bool.and_eq_true] at h
    exact forall_mem_cons.2 ⟨h.1.1, ih h.2⟩

theorem quote_not_mem_of_isSigns (h : isSigns s) : '"' ∉ s.toList :=
  fun hc => isCode_ne (isPlainCode_isCode (Bool.and_eq_true_iff.1 h).1 _ hc) rfl

/-- Closed texts can be written behind each other if no two quotes meet. -/
theorem Closed.append (hs : Closed s cs) (hu : Closed u ds) (happart : Apart s.toList u.toList) :
    Closed (s ++ u) (cs ++ ds) := by
  obtain ⟨ls, hls, hsls⟩ := hs
  obtain ⟨ms, hms, hsms⟩ := hu
  refine ⟨ls ++ ms, ?_, hsls.append hsms⟩
  rw [String.toList_append]
  exact hls.append hms happart

/-- Signs may stand in front of a closed text. -/
theorem Closed.signs_append (hs : isSigns s) (hu : Closed u cs) : Closed (s ++ u) cs :=
  (closed_signs hs).append hu (apart_of_last
    (fun hlast => quote_not_mem_of_isSigns hs (mem_of_getLast? hlast)) _)

/-- Signs may stand behind a closed text. -/
theorem Closed.append_signs (hs : Closed s cs) (hu : isSigns u) : Closed (s ++ u) cs := by
  have hall := hs.append (closed_signs hu)
    (apart_of_head _ fun hhead => quote_not_mem_of_isSigns hu (mem_of_head? hhead))
  rwa [append_nil] at hall

/-- **Closed texts may stand behind each other with signs between them.** -/
theorem Closed.between {m : String} (hs : Closed s cs) (hm : isSigns m) (hne : m ≠ "")
    (hu : Closed u ds) : Closed (s ++ m ++ u) (cs ++ ds) := by
  refine (hs.append_signs hm).append hu (apart_of_last ?_ _)
  rw [String.toList_append, List.getLast?_append]
  intro hlast
  cases hl : m.toList.getLast? with
  | none => exact hne (String.toList_eq_nil_iff.1 (List.getLast?_eq_none_iff.1 hl))
  | some c =>
    rw [hl] at hlast
    obtain rfl := Option.some.inj hlast
    exact quote_not_mem_of_isSigns hm (mem_of_getLast? hl)

theorem lexes_group (h : Lexes s.toList ls) :
    Lexes ("(" ++ s ++ ")").toList (.code '(' :: (ls ++ [.code ')'])) := by
  have hopen : Lexes ['('] [.code '('] := lexes_code (by decide)
  have hclose : Lexes [')'] [.code ')'] := lexes_code (by decide)
  have hall := hopen.append (h.append hclose (apart_of_head _ (by decide)))
    (apart_of_last (by decide) _)
  simpa [String.toList_append] using hall

theorem Sealed.group (h : Sealed ls cs) :
    Sealed (.code '(' :: (ls ++ [.code ')'])) cs where
  contents := by
    show contentsIn (ls ++ [.code ')']) = cs
    rw [contentsIn_append, h.contents]
    exact append_nil cs
  uncommented := by
    rw [forall_mem_cons, forall_mem_append, forall_mem_singleton]
    exact ⟨rfl, h.uncommented, rfl⟩
  balanced := by
    show Balanced '(' ')' ('(' :: codeIn (ls ++ [.code ')']))
    rw [codeIn_append]
    exact h.balanced.enclose (by decide)
  flat := by
    show ∀ c ∈ '(' :: codeIn (ls ++ [.code ')']), c ≠ '\x7b' ∧ c ≠ '\x7d'
    rw [codeIn_append, forall_mem_cons, forall_mem_append]
    exact ⟨by decide, h.flat, forall_mem_singleton.2 (by decide)⟩

/-- **A closed text in brackets is closed.** -/
theorem Closed.group (hs : Closed s cs) : Closed ("(" ++ s ++ ")") cs := by
  obtain ⟨ls, hls, hsealed⟩ := hs
  exact ⟨_, lexes_group hls, hsealed.group⟩

/-- A closed text may be put together in another way. -/
theorem Closed.respelt (hs : Closed s cs) (h : s.toList = u.toList) : Closed u cs :=
  String.toList_inj.1 h ▸ hs

/-- **A call with a closed argument is closed.** -/
theorem Closed.call {w : String} (hw : isSigns w) (hs : Closed s cs) :
    Closed (w ++ "(" ++ s ++ ")") cs :=
  (hs.group.signs_append hw).respelt (by simp)

theorem sealed_literal (content : List Char) : Sealed [.literal content] [content] where
  contents := rfl
  uncommented l hl := by
    rw [mem_singleton.1 hl]
    rfl
  balanced := Text.balanced_nil
  flat c hc := absurd hc not_mem_nil

/-- A content in quotes is closed. -/
theorem closed_literal {content : List Char} (h : isContent content)
    (hs : s.toList = '"' :: (content ++ ['"'])) : Closed s [content] :=
  ⟨_, hs ▸ lexes_literal h, sealed_literal _⟩

/-! ### Words, members and numbers -/

/-- Whether a character of code neither opens nor closes anything. -/
def isSign (c : Char) : Bool :=
  isCode c && c != '/' && !(['(', ')', '\x7b', '\x7d'].contains c)

theorem isSigns_of_all (h : ∀ c ∈ s.toList, isSign c) : isSigns s := by
  have hsign : ∀ c ∈ s.toList, (isCode c ∧ (c != '/')) ∧
      (!(['(', ')', '\x7b', '\x7d'].contains c)) := by
    intro c hc
    have := h c hc
    rwa [isSign, Bool.and_eq_true, Bool.and_eq_true] at this
  refine Bool.and_eq_true_iff.2 ⟨?_, all_eq_true.2 fun c hc => (hsign c hc).2⟩
  clear h
  generalize s.toList = cs at hsign
  induction cs with
  | nil => rfl
  | cons c cs ih =>
    obtain ⟨⟨hcode, hslash⟩, -⟩ := hsign c mem_cons_self
    rw [isPlainCode, hcode, hslash, ih fun d hd => hsign d (mem_cons_of_mem _ hd)]
    rfl

theorem isPlainCode_append {s u : List Char} (hs : isPlainCode s)
    (hu : isPlainCode u) : isPlainCode (s ++ u) := by
  induction s with
  | nil => exact hu
  | cons c s ih =>
    rw [isPlainCode, Bool.and_eq_true, Bool.and_eq_true] at hs
    obtain ⟨⟨hcode, hslash⟩, hs⟩ := hs
    have hnext : c != '/' || (s ++ u).head? == some ' ' := by
      rcases Bool.or_eq_true_iff.1 hslash with hslash | hblank
      · rw [hslash, Bool.true_or]
      · rw [List.head?_append, beq_iff_eq.1 hblank]
        exact Bool.or_true _
    rw [cons_append, isPlainCode, hcode, hnext, ih hs]
    rfl

theorem isSigns_append (hs : isSigns s) (hu : isSigns u) : isSigns (s ++ u) := by
  obtain ⟨hscode, hsflat⟩ := Bool.and_eq_true_iff.1 hs
  obtain ⟨hucode, huflat⟩ := Bool.and_eq_true_iff.1 hu
  rw [isSigns, String.toList_append, isPlainCode_append hscode hucode, all_append, hsflat, huflat]
  rfl

theorem isSign_of_isNameChar {c : Char} (h : isNameChar c) : isSign c :=
  forall_isNameChar (P := fun c => isSign c = true) (by decide) h

theorem isSign_of_isNumberChar {c : Char} (h : isNumberChar c) : isSign c := by
  rw [isNumberChar, Bool.or_eq_true] at h
  rcases h with h | h
  · refine isSign_of_isNameChar ?_
    simp [isNameChar, Char.isAlphanum, h]
  · have hall : ['.', 'e', '+', '-'].all isSign := by decide
    exact all_eq_true.1 hall c (contains_iff_mem.1 h)

theorem IsWord.isSigns (h : IsWord s) : isSigns s :=
  isSigns_of_all fun c hc => isSign_of_isNameChar (h c hc)

/-- An environment whose names are signs. -/
abbrev Env.Plain (env : Env) : Prop := env.Forall fun s => isSigns s = true

theorem isSigns_identifier (name : String) : isSigns (identifier name) :=
  IsWord.isSigns (isNameChar_of_isSmall (isSmall_identifier name))

theorem Env.Plain.writes {env : Env} (henv : env.Plain) (scope : Scope) :
    env.Writes scope fun s => isSigns s = true :=
  Env.Forall.writes henv ⟨by decide, isSigns_append⟩ scope

/-! ### Forms and expressions -/

/-- **Texts of all forms are closed if their literals have contents.** -/
theorem Form.closed {Q : String → Prop} (hQ : ∀ {s : String}, Q s → isSigns s) {single : Bool}
    (h : Form Q single s cs) : (∀ content ∈ cs, isContent content) → Closed s cs := by
  induction h with
  | number h =>
    exact fun _ =>
      closed_signs (isSigns_of_all fun c hc => isSign_of_isNumberChar (h.isNumberChar c hc))
  | word h => exact fun _ => closed_signs (hQ h)
  | literal hs => exact fun h => closed_literal (h _ (mem_singleton.2 rfl)) hs
  | call hw _ ih => exact fun h => (ih h).call (hQ hw)
  | joined _ ih =>
    intro h
    have hlist := (ih fun content hc => h content (mem_append_left _ hc)).call
      (w := "listOf") (by decide)
    have hempty : Closed "\"\"" [[]] := closed_literal (by decide) rfl
    exact (hlist.between (m := ".joinToString") (by decide) (by decide) hempty.group).respelt
      (by simp)
  | operand _ ih => exact ih
  | between _ hm _ ihs ihu =>
    intro h
    obtain ⟨hs, hu⟩ := forall_mem_append.1 h
    simp only [isMark, Bool.and_eq_true, bne_iff_ne] at hm
    exact (ihs hs).between hm.1.1.1 hm.1.2 (ihu hu)

/-- **An expression is closed if its literals have contents.** -/
theorem closed_exprText {env : Env} (henv : env.Plain) (scope : Scope) (e : Expr)
    (h : ∀ content ∈ literals env scope e, isContent content) :
    Closed (exprText env scope e) (literals env scope e) :=
  (form_exprText (henv.writes scope) e).closed id h

/-! ### Targets -/

/-- A target with signs for the names of its activity and of the members of its components. -/
structure Target.Plain (t : Target) : Prop where
  activity : isSigns t.activity = true
  accessors : ∀ e ∈ t.components, ∀ a ∈ e.2.rule.accessors, isSigns a.2 = true
  methods : ∀ e ∈ t.components, ∀ m ∈ e.2.rule.methods, isSigns m.2 = true

/-- **What a program is written with is plain if its target is.** -/
theorem Target.Plain.naming {t : Target} (ht : t.Plain) (p : Code.Program) : (t.naming p).Plain :=
  { small_naming t p with
    ofSmall := fun h => IsWord.isSigns (isNameChar_of_isSmall h)
    qualified := isSigns_append
      (isSigns_append (isSigns_append (by decide) ht.activity) (by decide))
    accessors := ht.accessors
    methods := ht.methods }

end Kotlin
end ScreenForge
