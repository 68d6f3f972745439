/-
# Braces of statements

The braces of a line are those in its code: none in literals and none in comments (`lineBraces?`).
The braces of lines behind each other are one word (`braces?`).  `Braced lines P` says how they
match: they do if and only if `P` holds, and otherwise some are closed that nobody opened.  It is
put together like the lines themselves.  The only lines that do not match are those of a branch
without arms, which go on with `}` behind no `if`.
-/
import ScreenForge.Proofs.Kotlin.Closed

namespace ScreenForge
namespace Kotlin

open List
open Code (Expr Piece Stmt)
open Text (Balanced)

variable {line : String} {u : List Char} {cs : List (List Char)} {arms : List (Expr × List Stmt)}
  {otherwise : Option (List Stmt)} {v : List Char} {n : Nat} {s : String}

/-! ### Braces of lines -/

/-- Whether a character is a brace. -/
def isBrace (c : Char) : Bool := c == '\x7b' || c == '\x7d'

/-- The braces in the code of a line, if it can be cut. -/
def lineBraces? (line : String) : Option (List Char) :=
  (lexemes? line).map fun ls => (codeIn ls).filter isBrace

/-- The braces in the code of lines. -/
def braces? : List String → Option (List Char)
  | [] => some []
  | line :: rest => (lineBraces? line).bind fun own => (braces? rest).map (own ++ ·)

theorem braces?_cons {rest : List String} (hline : lineBraces? line = some u)
    (hrest : braces? rest = some v) : braces? (line :: rest) = some (u ++ v) := by
  rw [braces?, hline, hrest]
  rfl

theorem braces?_append {lines rest : List String} (hlines : braces? lines = some u)
    (hrest : braces? rest = some v) : braces? (lines ++ rest) = some (u ++ v) := by
  induction lines generalizing u with
  | nil =>
    obtain rfl := Option.some.inj hlines
    exact hrest
  | cons line lines ih =>
    rw [braces?] at hlines
    obtain ⟨own, hown, hmap⟩ := Option.bind_eq_some_iff.1 hlines
    obtain ⟨others, hothers, rfl⟩ := Option.map_eq_some_iff.1 hmap
    rw [cons_append, append_assoc]
    exact braces?_cons hown (ih hothers)

theorem lineBraces?_of_lexes {ls : List Lexeme} (h : Lexes line.toList ls) :
    lineBraces? line = some ((codeIn ls).filter isBrace) := by
  rw [lineBraces?, h.lexemes?]
  rfl

theorem Sealed.filter_isBrace {ls : List Lexeme} (h : Sealed ls cs) :
    (codeIn ls).filter isBrace = [] := by
  refine filter_eq_nil_iff.2 fun c hc => ?_
  obtain ⟨hopening, hclosing⟩ := h.flat c hc
  simp [isBrace, hopening, hclosing]

/-- **A closed text has no braces.** -/
theorem Closed.lineBraces? (h : Closed s cs) : lineBraces? s = some [] := by
  obtain ⟨ls, hls, hsealed⟩ := h
  rw [lineBraces?_of_lexes hls, hsealed.filter_isBrace]

/-- Plain code around a closed text keeps the braces that stand in it. -/
theorem Closed.lineBraces?_between {u v : String} (h : Closed s cs) (hu : isPlainCode u.toList)
    (hv : isPlainCode v.toList) :
    Kotlin.lineBraces? (u ++ s ++ v)
      = some (u.toList.filter isBrace ++ v.toList.filter isBrace) := by
  obtain ⟨ls, hls, hsealed⟩ := h
  have hquote : ∀ {w : List Char}, isPlainCode w → '"' ∉ w :=
    fun hw hc => isCode_ne (isPlainCode_isCode hw _ hc) rfl
  have hbehind := hls.append (lexes_code hv)
    (apart_of_head _ fun hhead => hquote hv (mem_of_head? hhead))
  have hall := (lexes_code hu).append hbehind
    (apart_of_last (fun hlast => hquote hu (mem_of_getLast? hlast)) _)
  rw [← append_assoc, ← String.toList_append, ← String.toList_append] at hall
  rw [lineBraces?_of_lexes hall, codeIn_append, codeIn_append, codeIn_map_code, codeIn_map_code,
    filter_append, filter_append, hsealed.filter_isBrace, nil_append]

/-- A line that opens a body. -/
theorem Closed.lineBraces?_opening {head : String} (h : Closed head cs) :
    Kotlin.lineBraces? (openingLine head) = some ['\x7b'] := by
  have hline := h.lineBraces?_between (u := "") (v := " \x7b") (by decide) (by decide)
  rwa [String.empty_append] at hline

/-- A line that closes a body and opens the next. -/
theorem Closed.lineBraces?_reopening {head : String} (h : Closed head cs) :
    Kotlin.lineBraces? (openingLine ("\x7d " ++ head)) = some ['\x7d', '\x7b'] :=
  h.lineBraces?_between (u := "\x7d ") (v := " \x7b") (by decide) (by decide)

theorem lineBraces?_closingLine : lineBraces? closingLine = some ['\x7d'] := by decide

/-- Whether a text has no end of a line. -/
def isLine (s : String) : Bool := s.toList.all fun c => !endsLine c

/-- **A comment has no braces.** -/
theorem lineBraces?_comment {text : List Char} (hline : line.toList = '/' :: '/' :: text)
    (h : isLine line) : lineBraces? line = some [] := by
  have hends : ('/' :: text).any endsLine = false := by
    rw [isLine, hline, all_cons, Bool.and_eq_true, all_eq_true] at h
    refine any_eq_false.2 fun c hc => ?_
    simpa using h.2 c hc
  rw [lineBraces?, lexemes?, hline, lexFrom, if_neg (by decide), if_pos ⟨rfl, rfl⟩, hends]
  rfl

theorem filter_isBrace_of_isSigns (h : isSigns s) : s.toList.filter isBrace = [] := by
  refine filter_eq_nil_iff.2 fun c hc => ?_
  have hflat := all_eq_true.1 (Bool.and_eq_true_iff.1 h).2 c hc
  simp at hflat
  simp [isBrace, hflat]

/-- Signs in front of a line change none of its braces. -/
theorem lineBraces?_signs_append {u : String} (hu : isSigns u) (line : String) :
    lineBraces? (u ++ line) = lineBraces? line := by
  have hcode := (Bool.and_eq_true_iff.1 hu).1
  have hlast : u.toList.getLast? ≠ some '"' :=
    fun hlast => quote_not_mem_of_isSigns hu (mem_of_getLast? hlast)
  rw [lineBraces?, lineBraces?, lexemes?, lexemes?, String.toList_append,
    lexes_code hcode line.toList (apart_of_last hlast _), Option.map_map]
  refine congrArg (Option.map · _) (funext fun ls => ?_)
  show (codeIn (u.toList.map .code ++ ls)).filter isBrace = (codeIn ls).filter isBrace
  rw [codeIn_append, codeIn_map_code, filter_append, filter_isBrace_of_isSigns hu, nil_append]

theorem isSigns_tab (level : Int) : isSigns (tab level) := by
  refine isSigns_of_all fun c hc => ?_
  rw [tab, String.toList_ofList] at hc
  rw [(mem_replicate.1 hc).2]
  decide

/-- **Indenting changes no braces.** -/
theorem braces?_indent (lines : List String) : braces? (indent lines) = braces? lines := by
  induction lines with
  | nil => rfl
  | cons line rest ih =>
    have hline : lineBraces? (if line = "" then line else tab 1 ++ line) = lineBraces? line := by
      split
      · rfl
      · exact lineBraces?_signs_append (isSigns_tab 1) line
    rw [indent, map_cons, braces?, braces?, hline]
    exact congrArg _ (funext fun own => congrArg (Option.map (own ++ ·)) ih)

/-! ### Lines whose braces match -/

/-- Braces of which `n` too many are closed.  If none is, they match. -/
structure Surplus (word : List Char) (n : Nat) : Prop where
  count : word.count '\x7d' = word.count '\x7b' + n
  balanced : n = 0 → Balanced '\x7b' '\x7d' word

/-- A word matches if nothing is closed that nobody opened. -/
theorem Surplus.balanced_iff {word : List Char} (h : Surplus word n) :
    Balanced '\x7b' '\x7d' word ↔ n = 0 := by
  refine ⟨fun hbalanced => ?_, h.balanced⟩
  have hcount := h.count
  have hclosed := hbalanced.closed
  omega

theorem surplus_nil : Surplus [] 0 := ⟨rfl, fun _ => Text.balanced_nil⟩

theorem Surplus.append {m : Nat} (hu : Surplus u m) (hv : Surplus v n) :
    Surplus (u ++ v) (m + n) := by
  have hcountu := hu.count
  have hcountv := hv.count
  refine ⟨?_, fun hzero => ?_⟩
  · simp only [count_append]
    omega
  · have hm : m = 0 := by omega
    have hn : n = 0 := by omega
    exact (hu.balanced hm).append (hv.balanced hn)

/-- Braces around a word leave its surplus as it is. -/
theorem Surplus.enclose (hu : Surplus u n) : Surplus ('\x7b' :: (u ++ ['\x7d'])) n := by
  have hcount := hu.count
  refine ⟨?_, fun hzero => (hu.balanced hzero).enclose (by decide)⟩
  simp [count_append]
  omega

theorem Surplus.close (hu : Surplus u n) : Surplus ('\x7d' :: u) (n + 1) := by
  have hcount := hu.count
  refine ⟨?_, fun hzero => absurd hzero (Nat.succ_ne_zero n)⟩
  simp
  omega

/-- Lines with some braces first; those behind them match if and only if something holds. -/
def BracedBehind (before : List Char) (lines : List String) (P : Prop) : Prop :=
  ∃ word n, braces? lines = some (before ++ word) ∧ Surplus word n ∧ (n = 0 ↔ P)

/-- Lines whose braces match if and only if something holds. -/
abbrev Braced := BracedBehind []

/-- Lines that close a brace first; the braces behind it match if and only if something holds. -/
abbrev Reclosed := BracedBehind ['\x7d']

variable {lines rest : List String} {P Q : Prop}

/-- **Braced lines have braces that match if and only if the condition holds.** -/
theorem BracedBehind.exists_balanced_iff (h : Braced lines P) :
    ∃ word, braces? lines = some word ∧ (Balanced '\x7b' '\x7d' word ↔ P) := by
  obtain ⟨word, n, hword, hsurplus, hzero⟩ := h
  exact ⟨word, hword, hsurplus.balanced_iff.trans hzero⟩

theorem BracedBehind.congr {before : List Char} (h : BracedBehind before lines P) (hPQ : P ↔ Q) :
    BracedBehind before lines Q := by
  obtain ⟨word, n, hword, hsurplus, hzero⟩ := h
  exact ⟨word, n, hword, hsurplus, hzero.trans hPQ⟩

/-- Lines behind each other match if both groups do. -/
theorem Braced.append (hlines : Braced lines P) (hrest : Braced rest Q) :
    Braced (lines ++ rest) (P ∧ Q) := by
  obtain ⟨u, m, hu, hsu, hm⟩ := hlines
  obtain ⟨v, n, hv, hsv, hn⟩ := hrest
  refine ⟨u ++ v, m + n, braces?_append (u := u) hu hv, hsu.append hsv, ?_⟩
  rw [← hm, ← hn]
  omega

/-- Indenting changes no brace. -/
theorem Braced.indent (h : Braced lines P) : Braced (indent lines) P := by
  obtain ⟨word, n, hword, hsurplus, hzero⟩ := h
  exact ⟨word, n, (braces?_indent lines).trans hword, hsurplus, hzero⟩

/-- Lines without braces. -/
theorem braces?_plain (h : ∀ line ∈ lines, lineBraces? line = some []) :
    braces? lines = some [] := by
  induction lines with
  | nil => rfl
  | cons line rest ih =>
    exact braces?_cons (h line mem_cons_self) (ih fun l hl => h l (mem_cons_of_mem _ hl))

theorem braced_plain (h : ∀ line ∈ lines, lineBraces? line = some []) : Braced lines True :=
  ⟨[], 0, braces?_plain h, surplus_nil, by simp⟩

/-- A line without braces in front changes nothing. -/
theorem Braced.cons (hline : lineBraces? line = some []) (h : Braced lines P) :
    Braced (line :: lines) P := by
  obtain ⟨word, n, hword, hsurplus, hzero⟩ := h
  exact ⟨word, n, braces?_cons hline hword, hsurplus, hzero⟩

theorem braced_flatMap {α : Type} {items : List α} {f : α → List String} {P : α → Prop}
    (h : ∀ a ∈ items, Braced (f a) (P a)) : Braced (items.flatMap f) (∀ a ∈ items, P a) := by
  induction items with
  | nil => exact (braced_plain (by simp)).congr (by simp)
  | cons a rest ih =>
    have hfirst := h a mem_cons_self
    have hrest := ih fun d hd => h d (mem_cons_of_mem _ hd)
    exact (hfirst.append hrest).congr (by simp)

theorem reclosed_closingLine : Reclosed [closingLine] True :=
  ⟨[], 0, braces?_cons lineBraces?_closingLine rfl, surplus_nil, by simp⟩

/-- **Lines that close what nobody opened never match.** -/
theorem Reclosed.braced_false (h : Reclosed lines P) : Braced lines False := by
  obtain ⟨word, n, hword, hsurplus, -⟩ := h
  exact ⟨_, n + 1, hword, hsurplus.close, by simp⟩

variable {head : String} {body : List String}

/-- A body between a line that opens it and lines that close it.  The line may close another one
before. -/
theorem Reclosed.opened (before : List Char)
    (hhead : lineBraces? head = some (before ++ ['\x7b'])) (hbody : Braced body P)
    (hrest : Reclosed rest Q) :
    BracedBehind before (head :: (Kotlin.indent body ++ rest)) (P ∧ Q) := by
  obtain ⟨u, m, hu, hsu, hm⟩ := hbody.indent
  obtain ⟨v, n, hv, hsv, hn⟩ := hrest
  refine ⟨('\x7b' :: (u ++ ['\x7d'])) ++ v, m + n, ?_, hsu.enclose.append hsv, ?_⟩
  · rw [braces?_cons hhead (braces?_append hu hv)]
    simp
  · rw [← hm, ← hn]
    omega

/-- **A body in braces matches if it does itself.** -/
theorem Braced.braced (hbody : Braced body P) (hhead : Closed head cs) :
    Braced (bracedLines head body) P :=
  (reclosed_closingLine.opened [] hhead.lineBraces?_opening hbody).congr (Iff.of_eq (and_true P))

/-! ### Heads of bodies -/

section

variable {s u v : String} {cs ds es : List (List Char)}

/-- A keyword in front of a closed text in brackets. -/
theorem Closed.headed {w : String} (hw : isSigns w) (hs : Closed s cs) :
    Closed (w ++ " (" ++ s ++ ")") cs :=
  (hs.call (w := w ++ " ") (isSigns_append hw (by decide))).respelt (by simp)

theorem Closed.negatedText (hs : Closed s cs) : Closed (negatedText s) cs := by
  unfold Kotlin.negatedText
  split
  · exact hs.signs_append (by decide)
  · exact (hs.call (w := "!") (by decide)).respelt (by simp)

theorem Closed.each (name : String) (hs : Closed s cs) :
    Closed ("for (" ++ identifier name ++ " in " ++ s ++ ")") cs := by
  have hin : isSigns (identifier name ++ " in ") :=
    isSigns_append (isSigns_identifier name) (by decide)
  exact ((hs.signs_append hin).headed (w := "for") (by decide)).respelt (by simp)

theorem Closed.range (name : String) (hs : Closed s cs) (hu : Closed u ds) (hv : Closed v es) :
    Closed ("for (" ++ identifier name ++ " in " ++ s ++ ".." ++ u ++ " step " ++ v ++ ")")
      (cs ++ ds ++ es) := by
  have hboth := hs.between (m := "..") (by decide) (by decide) hu
  exact ((hboth.between (m := " step ") (by decide) (by decide) hv).each name).respelt (by simp)

/-- A value behind signs and an equals sign. -/
theorem Closed.assigned {w : String} (hw : isSigns w) (hs : Closed s cs) :
    Closed (w ++ " = " ++ s) cs :=
  hs.signs_append (isSigns_append hw (by decide))

theorem Closed.toText (hs : Closed s cs) : Closed (Kotlin.receiver s ++ ".toString()") cs := by
  have hcall : Closed "" [] := closed_signs (by decide)
  have hreceiver : Closed (receiver s) cs := by
    unfold receiver
    split
    · exact hs.group
    · exact hs
  have hall := hreceiver.between (m := ".toString") (by decide) (by decide) hcall.group
  rw [append_nil] at hall
  exact hall.respelt (by simp)

end

/-! ### Statements -/

/-- Every branch within a statement has an arm. -/
@[mk_iff]
inductive Armed : Stmt → Prop where
  | intro {s : Stmt} (own : ∀ otherwise, s ≠ .branch [] otherwise)
      (inner : ∀ ss, (∃ names, .body names ss ∈ s.pieces) → ∀ c ∈ ss, Armed c) : Armed s

/-- A branch is armed if it has an arm and its bodies are armed. -/
theorem armed_branch_iff :
    Armed (.branch arms otherwise) ↔ arms ≠ [] ∧ (∀ arm ∈ arms, ∀ c ∈ arm.2, Armed c) ∧
      ∀ body ∈ otherwise, ∀ c ∈ body, Armed c := by
  rw [armed_iff]
  simp [Stmt.pieces, exists_or, or_imp, forall_and]
  exact fun _ _ => forall_comm

section

variable {env : Env} {scope : Scope}

/-- The lines behind the first body of a branch. -/
theorem reclosed_arms {A : List Stmt → Prop}
    (hcondition : ∀ arm ∈ arms, ∃ cs, Closed (exprText env scope arm.1) cs)
    (hbody : ∀ arm ∈ arms, Braced (stmtsLines env scope arm.2) (A arm.2))
    (hotherwise : ∀ body ∈ otherwise, Braced (stmtsLines env scope body) (A body)) :
    Reclosed (armLines env scope "\x7d else if" arms ++ otherwiseLines env scope otherwise
      ++ [closingLine]) ((∀ arm ∈ arms, A arm.2) ∧ ∀ body ∈ otherwise, A body) := by
  induction arms with
  | nil =>
    cases otherwise with
    | none =>
      rw [armLines, otherwiseLines]
      exact reclosed_closingLine.congr (by simp)
    | some body =>
      have helse : Closed "else" [] := closed_signs (by decide)
      have hbody := hotherwise body rfl
      rw [armLines, otherwiseLines]
      exact (reclosed_closingLine.opened ['\x7d'] helse.lineBraces?_reopening hbody).congr (by simp)
  | cons arm arms ih =>
    obtain ⟨condition, body⟩ := arm
    obtain ⟨⟨cs, hclosed⟩, hconditions⟩ := forall_mem_cons.1 hcondition
    obtain ⟨hfirst, hbodies⟩ := forall_mem_cons.1 hbody
    have hhead : lineBraces? (openingLine ("\x7d else if" ++ " (" ++ exprText env scope condition
        ++ ")")) = some ['\x7d', '\x7b'] := by
      rw [← (hclosed.headed (w := "else if") (by decide)).lineBraces?_reopening]
      exact congrArg _ (String.toList_inj.1 (by simp [openingLine]))
    have hall := (ih hconditions hbodies).opened ['\x7d'] hhead hfirst
    rw [armLines, cons_append, cons_append, append_assoc, append_assoc,
      ← append_assoc (armLines _ _ _ _)]
    exact hall.congr (by simp [and_assoc])

theorem lineBraces?_setPropertyLine (henv : env.Plain) {name property : String} {e : Expr}
    (hclosed : ∃ cs, Closed (exprText env scope e) cs)
    (hline : isLine (setPropertyLine env scope name property e)) :
    lineBraces? (setPropertyLine env scope name property e) = some [] := by
  obtain ⟨cs, hclosed⟩ := hclosed
  unfold setPropertyLine at hline ⊢
  dsimp only at hline ⊢
  cases htarget : env.component? scope name with
  | none =>
    rw [htarget] at hline
    exact lineBraces?_comment (by simp only [String.toList_append]; rfl) hline
  | some target =>
    have hmember := (henv.writes scope).property htarget property
    dsimp only
    split
    · exact (hclosed.toText.assigned hmember).lineBraces?
    · exact (hclosed.assigned hmember).lineBraces?

theorem lineBraces?_setVariableLine (henv : env.Plain) {name : String} {e : Expr}
    (hclosed : ∃ cs, Closed (exprText env scope e) cs)
    (hline : isLine (setVariableLine env scope name e)) :
    lineBraces? (setVariableLine env scope name e) = some [] := by
  obtain ⟨cs, hclosed⟩ := hclosed
  unfold setVariableLine at hline ⊢
  dsimp only at hline ⊢
  cases htarget : env.binding? scope name with
  | none =>
    rw [htarget] at hline
    exact lineBraces?_comment (by simp only [String.toList_append]; rfl) hline
  | some target => exact (hclosed.assigned (henv.binding? htarget)).lineBraces?

theorem braced_localLines {names : List (String × Expr)}
    (hclosed : ∀ d ∈ names, ∃ cs, Closed (exprText env scope d.2) cs) :
    Braced (localLines env scope names) True := by
  refine braced_plain fun line hline => ?_
  obtain ⟨d, hd, rfl⟩ := mem_map.1 hline
  obtain ⟨cs, hclosed⟩ := hclosed d hd
  have hvar : isSigns ("var " ++ identifier d.1) :=
    isSigns_append (by decide) (isSigns_identifier d.1)
  exact (hclosed.assigned hvar).lineBraces?

/-- **The braces of a branch match if it has an arm and they do in all its bodies.** -/
theorem braced_branch (hcondition : ∀ arm ∈ arms, ∃ cs, Closed (exprText env scope arm.1) cs)
    (hbody : ∀ arm ∈ arms, Braced (stmtsLines env scope arm.2) (∀ c ∈ arm.2, Armed c))
    (hotherwise : ∀ body ∈ otherwise, Braced (stmtsLines env scope body) (∀ c ∈ body, Armed c)) :
    Braced (stmtLines env scope (.branch arms otherwise)) (Armed (.branch arms otherwise)) := by
  rw [stmtLines]
  cases arms with
  | nil =>
    have hreclosed := reclosed_arms (forall_mem_nil _) (forall_mem_nil _) hotherwise
    exact hreclosed.braced_false.congr (by simp [armed_branch_iff])
  | cons arm rest =>
    obtain ⟨condition, body⟩ := arm
    obtain ⟨⟨cs, hclosed⟩, hconditions⟩ := forall_mem_cons.1 hcondition
    obtain ⟨hfirst, hbodies⟩ := forall_mem_cons.1 hbody
    have hhead := (hclosed.headed (w := "if") (by decide)).lineBraces?_opening
    have hall := (reclosed_arms hconditions hbodies hotherwise).opened [] hhead hfirst
    rw [armLines, cons_append, cons_append, append_assoc, append_assoc,
      ← append_assoc (armLines _ _ _ _)]
    exact hall.congr (by simp [armed_branch_iff, and_assoc])

/-- **The braces of a statement match if and only if every branch within it has an arm**, given the
same of its bodies. -/
theorem braced_stmtLines (henv : env.Plain) {s : Stmt}
    (hline : ∀ line ∈ stmtLines env scope s, isLine line)
    (hexpr : ∀ e, s = .call e ∨ s = .value e → ∃ cs, Closed (exprText env scope e) cs)
    (hvalue : ∀ e, .value e ∈ s.pieces → ∃ cs, Closed (exprText env scope e) cs)
    (hbody : ∀ names ss, .body names ss ∈ s.pieces →
      Braced (stmtsLines env (names ++ scope) ss) (∀ c ∈ ss, Armed c)) :
    Braced (stmtLines env scope s) (Armed s) := by
  -- a statement of one line without braces
  have hleaf : ∀ {line : String}, Armed s → lineBraces? line = some [] →
      Braced [line] (Armed s) := by
    intro line harmed hplain
    exact (braced_plain (by simpa using hplain)).congr (iff_of_true trivial harmed)
  -- a statement with one body
  have hblock : ∀ names : List String, ∀ {ss : List Stmt} {head : String} {cs : List (List Char)},
      .body names ss ∈ s.pieces → ((∀ c ∈ ss, Armed c) ↔ Armed s) → Closed head cs →
      Braced (bracedLines head (stmtsLines env (names ++ scope) ss)) (Armed s) :=
    fun names ss _ _ hpiece harmed hhead => ((hbody names ss hpiece).braced hhead).congr harmed
  cases s with
  | branch arms otherwise =>
    refine braced_branch (fun arm harm => hvalue arm.1 ?_) (fun arm harm => hbody [] arm.2 ?_)
      fun body hb => hbody [] body ?_
    · simp only [Stmt.pieces, mem_append, mem_flatMap]
      exact Or.inl ⟨arm, harm, mem_cons_self⟩
    · simp only [Stmt.pieces, mem_append, mem_flatMap]
      exact Or.inl ⟨arm, harm, mem_cons_of_mem _ mem_cons_self⟩
    · simp [Stmt.pieces, Option.mem_def.1 hb]
  | loop untilHolds condition body =>
    obtain ⟨cs, hclosed⟩ := hvalue condition (by simp [Stmt.pieces])
    have hcondition : Closed (if untilHolds then negatedText (exprText env scope condition)
        else exprText env scope condition) cs := by
      split
      · exact hclosed.negatedText
      · exact hclosed
    rw [stmtLines]
    exact hblock [] (by simp [Stmt.pieces]) (by rw [armed_iff]; simp [Stmt.pieces])
      (hcondition.headed (w := "while") (by decide))
  | forRange name first last step body =>
    obtain ⟨cs, hfirst⟩ := hvalue first (by simp [Stmt.pieces])
    obtain ⟨ds, hlast⟩ := hvalue last (by simp [Stmt.pieces])
    obtain ⟨es, hstep⟩ := hvalue step (by simp [Stmt.pieces])
    rw [stmtLines]
    exact hblock [name] (by simp [Stmt.pieces]) (by rw [armed_iff]; simp [Stmt.pieces])
      (hfirst.range name hlast hstep)
  | forEach name items body =>
    obtain ⟨cs, hitems⟩ := hvalue items (by simp [Stmt.pieces])
    rw [stmtLines]
    exact hblock [name] (by simp [Stmt.pieces]) (by rw [armed_iff]; simp [Stmt.pieces])
      (hitems.each name)
  | leave =>
    rw [stmtLines]
    exact hleaf (by rw [armed_iff]; simp [Stmt.pieces]) (by decide)
  | setProperty name property e =>
    rw [stmtLines] at hline ⊢
    refine hleaf (by rw [armed_iff]; simp [Stmt.pieces]) ?_
    exact lineBraces?_setPropertyLine henv (hvalue e (by simp [Stmt.pieces]))
      (hline _ (mem_singleton.2 rfl))
  | setVariable name e =>
    rw [stmtLines] at hline ⊢
    refine hleaf (by rw [armed_iff]; simp [Stmt.pieces]) ?_
    exact lineBraces?_setVariableLine henv (hvalue e (by simp [Stmt.pieces]))
      (hline _ (mem_singleton.2 rfl))
  | locals names body =>
    have hinner := hbody (names.map Prod.fst).reverse body (by simp [Stmt.pieces])
    have hlocals : Braced (localLines env scope names) True := by
      refine braced_localLines fun d hd => hvalue d.2 ?_
      exact mem_append_left _ (mem_map.2 ⟨d, hd, rfl⟩)
    have hrun : Closed "run" [] := closed_signs (by decide)
    rw [stmtLines]
    refine ((hlocals.append hinner).braced hrun).congr ?_
    rw [armed_iff]
    simp [Stmt.pieces]
  | call e | value e =>
    obtain ⟨cs, hclosed⟩ := hexpr e (by simp)
    rw [stmtLines]
    exact hleaf (by rw [armed_iff]; simp [Stmt.pieces]) hclosed.lineBraces?
  | unsupported type fields =>
    rw [stmtLines] at hline ⊢
    refine hleaf (by rw [armed_iff]; simp [Stmt.pieces]) ?_
    exact lineBraces?_comment (by simp only [String.toList_append]; rfl)
      (hline _ (mem_singleton.2 rfl))

end

end Kotlin
end ScreenForge
