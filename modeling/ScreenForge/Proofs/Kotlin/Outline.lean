/-
# The outline of a class

The lines of an activity are a heading without braces, a line that opens the class, its members, and
a line that closes it.  Its own lines are written with texts that it is given.  If these are signs
(`Target.Signed`), every brace of a member is one that opens or closes a listener, a method, or a
body of its statements.
-/
import ScreenForge.Proofs.Kotlin.Brace
import ScreenForge.Proofs.Kotlin.Given

namespace ScreenForge
namespace Kotlin

open List
open Code (Expr Stmt)
open Text (Balanced)

variable {b : String × Layout.Ref} {lines : List String}

/-- The first brace is opened by some line, and closed by the last line and none before. -/
def ClosesLast (lines : List String) : Prop :=
  ∃ heading opening body closing word, lines = heading ++ opening :: (body ++ [closing]) ∧
    braces? heading = some [] ∧ lineBraces? opening = some ['\x7b'] ∧
    braces? body = some word ∧ Balanced '\x7b' '\x7d' word ∧ lineBraces? closing = some ['\x7d']

/-- **A body in braces behind a heading is closed by the last line if and only if its own braces
match.** -/
theorem closesLast_iff {heading body : List String} {head : String} {cs : List (List Char)}
    {P : Prop} (hheading : ∀ line ∈ heading, lineBraces? line = some []) (hhead : Closed head cs)
    (hbody : Braced body P) : ClosesLast (heading ++ bracedLines head body) ↔ P := by
  obtain ⟨u, n, hu, hsurplus, hzero⟩ := hbody.indent
  have hlast : braces? [closingLine] = some ['\x7d'] := braces?_cons lineBraces?_closingLine rfl
  have hopen := hhead.lineBraces?_opening
  have hplain := braces?_plain hheading
  constructor
  · rintro ⟨before, opening, inner, closing, v, hlines, hbefore, hopening, hinner, hv, hclosing⟩
    have hcut : braces? [closing] = some ['\x7d'] := braces?_cons hclosing rfl
    have hleft := braces?_append hplain (braces?_cons hopen (braces?_append hu hlast))
    have hright := braces?_append hbefore (braces?_cons hopening (braces?_append hinner hcut))
    rw [← hlines] at hright
    have hwords : '\x7b' :: (u ++ ['\x7d']) = '\x7b' :: (v ++ ['\x7d']) :=
      Option.some.inj (hleft.symm.trans hright)
    obtain rfl : u = v := append_cancel_right (List.cons.inj hwords).2
    exact hzero.1 (hsurplus.balanced_iff.1 hv)
  · intro hP
    exact ⟨heading, openingLine head, Kotlin.indent body, closingLine, u, rfl, hplain, hopen, hu,
      hsurplus.balanced (hzero.2 hP), lineBraces?_closingLine⟩

/-! ### Given texts -/

/-- A target that is given signs only. -/
structure Target.Signed (t : Target) : Prop where
  texts : ∀ s ∈ t.texts, isSigns s = true
  package : isSigns t.package = true
  layoutName : isSigns t.layoutName = true

theorem Target.Signed.plain {t : Target} (ht : t.Signed) : t.Plain where
  activity := ht.texts _ mem_cons_self
  accessors _ hentry _ ha := t.forall_words ht.texts hentry (mem_append_left _ ha)
  methods _ hentry _ hm := t.forall_words ht.texts hentry (mem_append_right _ hm)

theorem isPlainCode_of_append {s u : List Char} (h : isPlainCode (s ++ u)) : isPlainCode u := by
  induction s with
  | nil => exact h
  | cons c s ih =>
    rw [cons_append, isPlainCode, Bool.and_eq_true] at h
    exact ih h.2

theorem isSigns_widget {s : String} (h : isSigns s) : isSigns ("android.widget." ++ s) :=
  isSigns_append (by decide) h

theorem isSigns_className {rule : Component.Rule} (h : ∀ s ∈ ruleTexts rule, isSigns s) :
    isSigns rule.className := by
  obtain ⟨hcode, hflat⟩ := Bool.and_eq_true_iff.1 (of_qualifiedClass h fun s => isSigns_widget)
  -- the class is the end of its qualified name
  obtain ⟨front, hfront⟩ := Text.afterLast_suffix '.' rule.qualifiedClass.toList
  rw [← hfront] at hcode hflat
  rw [all_append, Bool.and_eq_true] at hflat
  rw [isSigns, Component.Rule.className, String.toList_ofList, isPlainCode_of_append hcode, hflat.2]
  rfl

theorem isSigns_join {texts : List String} (h : ∀ s ∈ texts, isSigns s) :
    isSigns (Text.join ", " texts) := by
  induction texts with
  | nil => rfl
  | cons first rest ih =>
    have hfirst := h first mem_cons_self
    have hrest := ih fun s hs => h s (mem_cons_of_mem _ hs)
    cases rest with
    | nil => exact hfirst
    | cons second rest => exact isSigns_append (isSigns_append hfirst (by decide)) hrest

/-! ### Handlers and procedures -/

/-- Whether a handler is bound: its component is there, and has the event. -/
def Target.binds (t : Target) (h : Code.Handler) : Bool :=
  (t.components.lookup h.component).isSome && (t.eventOf h).isSome

/-- The braces of comments do not count. -/
theorem braced_comments (hcomment : ∀ line ∈ lines, ∃ text, line.toList = '/' :: '/' :: text)
    (hline : ∀ line ∈ lines, isLine line) : Braced lines True := by
  refine braced_plain fun line hmem => ?_
  obtain ⟨text, htext⟩ := hcomment line hmem
  exact lineBraces?_comment htext (hline line hmem)

theorem comment_of_mem_commented {reason line : String} {body : List String}
    (h : line ∈ commented reason body) : ∃ text, line.toList = '/' :: '/' :: text := by
  have hall : ∀ s : String, ("// " ++ s).toList = '/' :: '/' :: ' ' :: s.toList := by
    intro s
    rw [String.toList_append]
    rfl
  rcases mem_cons.1 h with rfl | h
  · exact ⟨_, hall reason⟩
  · obtain ⟨inner, -, rfl⟩ := mem_map.1 h
    exact ⟨_, hall inner⟩

section

variable {t : Target} (ht : t.Signed) {p : Code.Program}
include ht

omit ht in
theorem lineBraces?_listenerLine {field : String} {e : Component.Event}
    (hfield : isSigns field) (he : ∀ s ∈ eventTexts e, isSigns s) :
    lineBraces? (listenerLine field e) = some ['\x7b'] := by
  have hlistener : isSigns (e.listener.getD "None") := by
    cases hl : e.listener with
    | none => decide
    | some s => exact he s (by simp [eventTexts, hl])
  have hhead : Closed (field ++ "." ++ e.listener.getD "None") [] :=
    closed_signs (isSigns_append (isSigns_append hfield (by decide)) hlistener)
  have hjoin : isSigns (Text.join ", " e.lambdaArgs) :=
    isSigns_join fun s hs => he s (by simp [eventTexts, hs])
  have hargs : isSigns (if e.lambdaArgs.isEmpty then ""
      else " " ++ Text.join ", " e.lambdaArgs ++ " ->") := by
    split
    · decide
    · exact isSigns_append (isSigns_append (by decide) hjoin) (by decide)
  unfold listenerLine
  dsimp only
  generalize (if e.lambdaArgs.isEmpty then "" else " " ++ Text.join ", " e.lambdaArgs ++ " ->")
    = args at hargs
  have hcode : isPlainCode (" \x7b" ++ args).toList := by
    rw [String.toList_append]
    exact isPlainCode_append (by decide) (Bool.and_eq_true_iff.1 hargs).1
  have hline := hhead.lineBraces?_between (u := "") (by decide) hcode
  rw [String.empty_append, ← String.append_assoc, String.toList_append (s := " \x7b"),
    filter_append, filter_isBrace_of_isSigns hargs] at hline
  exact hline

/-- **The braces of a handler match if it is a comment, or if they do in its body.** -/
theorem braced_handlerLines {h : Code.Handler}
    (hline : ∀ line ∈ (t.handlerLines (t.naming p) h).2, isLine line)
    (hbody : Braced (stmtsLines (t.naming p) (t.scopeOf h) h.body) (∀ c ∈ h.body, Armed c)) :
    Braced (t.handlerLines (t.naming p) h).2 (t.binds h → ∀ c ∈ h.body, Armed c) := by
  have henv := ht.plain.naming p
  unfold Target.handlerLines Target.binds at *
  dsimp only at hline ⊢
  cases hcomponent : t.components.lookup h.component with
  | none =>
    rw [hcomponent] at hline
    refine (braced_comments (fun line hl => comment_of_mem_commented hl) hline).congr ?_
    simp
  | some ref =>
    rw [hcomponent] at hline
    cases hevent : t.eventOf h with
    | none =>
      rw [hevent] at hline
      refine (braced_comments (fun line hl => comment_of_mem_commented hl) hline).congr ?_
      simp
    | some e =>
      rw [hevent] at hline
      dsimp only at hline ⊢
      split at hline
      · next hinline =>
        rw [if_pos hinline]
        have hlabel : lineBraces? ("// " ++ eventLabel h) = some [] :=
          lineBraces?_comment (by rw [String.toList_append]; rfl) (hline _ mem_cons_self)
        exact (hbody.cons hlabel).congr (by simp)
      · next hinline =>
        rw [if_neg hinline]
        have hfield : isSigns (((t.naming p).fields.lookup h.component).getD "") :=
          henv.named henv.fields _
        have htexts := t.forall_event ht.texts hcomponent hevent
        have hresult : Braced e.result.toList True := by
          refine braced_plain fun line hl => (closed_signs (htexts line ?_)).lineBraces?
          exact mem_append_right _ hl
        have hinner := hbody.append hresult
        have hall := reclosed_closingLine.opened [] (lineBraces?_listenerLine hfield htexts) hinner
        exact hall.congr (by simp)

/-- **The braces of a procedure match if they do in its body.** -/
theorem braced_procedureLines {q : Code.Procedure}
    (hbody : Braced (stmtsLines (t.naming p) q.params q.body) (∀ c ∈ q.body, Armed c))
    (hresult : ∀ e ∈ q.result, ∃ cs, Closed (exprText (t.naming p) q.params e) cs) :
    Braced (procedureLines (t.naming p) q) (∀ c ∈ q.body, Armed c) := by
  have henv := ht.plain.naming p
  have hname : isSigns ("private fun " ++ ((t.naming p).procedures.lookup q.name).getD "") :=
    isSigns_append (by decide) (henv.named henv.procedures _)
  have hparams : isSigns (Text.join ", " (q.params.map fun n => identifier n ++ ": Any?")) := by
    refine isSigns_join fun s hs => ?_
    obtain ⟨n, -, rfl⟩ := mem_map.1 hs
    exact isSigns_append (isSigns_identifier n) (by decide)
  have hhead := (closed_signs hparams).call hname
  unfold procedureLines
  dsimp only
  cases hq : q.result with
  | none => exact hbody.braced hhead
  | some e =>
    obtain ⟨cs, hclosed⟩ := hresult e hq
    have hreturn := (hclosed.signs_append (s := "return ") (by decide)).lineBraces?
    have hlines : Braced ["return " ++ exprText (t.naming p) q.params e] True :=
      braced_plain (by simpa using hreturn)
    refine ((hbody.append hlines).braced (hhead.append_signs (by decide))).congr ?_
    simp

/-! ### Members -/

omit ht in
theorem braces?_solid (lines : List String) : braces? (solid lines) = braces? lines := by
  have hblank : lineBraces? "" = some [] := rfl
  induction lines with
  | nil => rfl
  | cons line rest ih =>
    by_cases hline : line = ""
    · rw [hline, solid_blank, ih, braces?, hblank]
      cases braces? rest <;> rfl
    · have hsolid : solid (line :: rest) = line :: solid rest :=
        filter_cons_of_pos (bne_iff_ne.2 hline)
      rw [hsolid, braces?, braces?, ih]

omit ht in
/-- Empty lines have no braces. -/
theorem BracedBehind.respaced {others : List String} {P : Prop} (h : Braced lines P)
    (heq : solid others = solid lines) : Braced others P := by
  obtain ⟨word, n, hword, hrest⟩ := h
  exact ⟨word, n, by rw [← braces?_solid, heq, braces?_solid, hword], hrest⟩

theorem isSigns_of_mem_bound (h : b ∈ t.bound (t.naming p)) : isSigns b.1 :=
  (ht.plain.naming p).ofSmall (isSmall_of_mem_bound h)

theorem lineBraces?_binding (h : b ∈ t.bound (t.naming p)) :
    lineBraces? (b.1 ++ " = findViewById(R.id." ++ b.2.viewId ++ ")") = some [] := by
  have hid : isSigns ("R.id." ++ b.2.viewId) :=
    isSigns_append (by decide) (t.forall_bound ht.texts h _ mem_cons_self)
  have hcall := (closed_signs hid).call (w := b.1 ++ " = findViewById")
    (isSigns_append (isSigns_of_mem_bound ht h) (by decide))
  exact (hcall.respelt (by simp)).lineBraces?

theorem lineBraces?_field (h : b ∈ t.bound (t.naming p)) :
    lineBraces? ("private lateinit var " ++ b.1 ++ ": " ++ b.2.rule.className) = some [] := by
  have hclass := isSigns_className (forall_mem_cons.1 (t.forall_bound ht.texts h)).2
  have hvar : isSigns ("private lateinit var " ++ b.1 ++ ": ") :=
    isSigns_append (isSigns_append (by decide) (isSigns_of_mem_bound ht h)) (by decide)
  exact (closed_signs (isSigns_append hvar hclass)).lineBraces?

theorem lineBraces?_globalLine {g : Code.Global}
    (hvalue : ∀ e ∈ g.value, ∃ cs, Closed (exprText (t.naming p) [] e) cs) :
    lineBraces? (globalLine (t.naming p) g) = some [] := by
  have henv := ht.plain.naming p
  have hname : isSigns ("private var " ++ ((t.naming p).globals.lookup g.name).getD "") :=
    isSigns_append (by decide) (henv.named henv.globals _)
  unfold globalLine
  dsimp only
  cases hg : g.value with
  | none => exact (closed_signs (isSigns_append hname (by decide))).lineBraces?
  | some e =>
    obtain ⟨cs, hclosed⟩ := hvalue e hg
    exact (hclosed.assigned hname).lineBraces?

theorem lineBraces?_import {name : String} (h : name ∈ t.imports (t.naming p)) :
    lineBraces? ("import " ++ name) = some [] := by
  have hname := t.forall_imports ht.texts (by decide) (by decide) (fun s => isSigns_widget) name h
  exact (closed_signs (isSigns_append (by decide) hname)).lineBraces?

/-- **The braces of the method that sets the screen up match if those of all handlers do.** -/
theorem braced_onCreateLines {P : Code.Handler → Prop}
    (hhandlers : ∀ h ∈ p.handlers, Braced (t.handlerLines (t.naming p) h).2 (P h)) :
    Braced (t.onCreateLines (t.naming p) (p.handlers.map (t.handlerLines (t.naming p))))
      (∀ h ∈ p.handlers, P h) := by
  have hplace : ∀ place, Braced (spaced (((p.handlers.map (t.handlerLines (t.naming p))).filter
      fun h => h.1 == place).map Prod.snd))
      (∀ h ∈ p.handlers, (t.handlerLines (t.naming p) h).1 = place → P h) := by
    intro place
    rw [filter_map, map_map]
    refine ((braced_flatMap (P := P) fun h hh => ?_).congr ?_).respaced (solid_spaced _)
    · exact hhandlers h (mem_filter.1 hh).1
    · simp [mem_filter]
  have hbindings : Braced ((t.bound (t.naming p)).map fun b =>
      b.1 ++ " = findViewById(R.id." ++ b.2.viewId ++ ")") True :=
    braced_plain (forall_mem_map.2 fun b hb => lineBraces?_binding ht hb)
  have hsuper : lineBraces? "super.onCreate(savedInstanceState)" = some [] := by decide
  have hcontent : lineBraces? ("setContentView(R.layout." ++ t.layoutName ++ ")") = some [] := by
    have hcall := (closed_signs (isSigns_append (s := "R.layout.") (by decide) ht.layoutName)).call
      (w := "setContentView") (by decide)
    exact (hcall.respelt (by simp)).lineBraces?
  have hhead : Closed "override fun onCreate(savedInstanceState: Bundle?)" [] := by
    have hcall := (closed_signs (s := "savedInstanceState: Bundle?") (by decide)).call
      (w := "override fun onCreate") (by decide)
    exact hcall.respelt (by simp)
  have hnone : Braced [] True := braced_plain (by simp)
  have hsections := (hbindings.append ((hplace .setup).append
    ((hplace .listeners).append hnone))).respaced (solid_sections [_, _, _])
  unfold Target.onCreateLines
  dsimp only
  refine (((hsections.cons hcontent).cons hsuper).braced hhead).congr ?_
  -- every handler is written in one of the two places
  simp only [true_and, and_true]
  constructor
  · rintro ⟨hsetup, hlisteners⟩ h hh
    cases hp : (t.handlerLines (t.naming p) h).1 with
    | setup => exact hsetup h hh hp
    | listeners => exact hlisteners h hh hp
  · intro hall
    exact ⟨fun h hh _ => hall h hh, fun h hh _ => hall h hh⟩

/-- What stands before the class of an activity. -/
def Target.heading (t : Target) (p : Code.Program) : List String :=
  ["package " ++ t.package, ""] ++ (t.imports (t.naming p)).map (fun name => "import " ++ name)
    ++ [""]

/-- The heading has no braces. -/
theorem lineBraces?_heading : ∀ line ∈ t.heading p, lineBraces? line = some [] := by
  have hblank : lineBraces? "" = some [] := rfl
  intro line hline
  simp only [Target.heading, mem_append, mem_cons, not_mem_nil, or_false, mem_map] at hline
  rcases hline with ((rfl | rfl) | ⟨name, hname, rfl⟩) | rfl
  · exact (closed_signs (isSigns_append (by decide) ht.package)).lineBraces?
  · exact hblank
  · exact lineBraces?_import ht hname
  · exact hblank

omit ht in
/-- **An activity is a heading and a class around its members.** -/
theorem lines_eq_heading_append : t.lines p = t.heading p
    ++ bracedLines ("class " ++ t.activity ++ " : AppCompatActivity()")
      ("" :: t.memberLines (t.naming p) p) := by
  have hopen : openingLine ("class " ++ t.activity ++ " : AppCompatActivity()")
      = "class " ++ t.activity ++ " : AppCompatActivity() \x7b" :=
    String.toList_inj.1 (by simp [openingLine, String.toList_append])
  have hindent : indent ("" :: t.memberLines (t.naming p) p)
      = "" :: indent (t.memberLines (t.naming p) p) := rfl
  rw [bracedLines, hopen, hindent]
  simp [Target.lines, Target.heading]

section

variable {P : Code.Handler → Prop} {Q : Code.Procedure → Prop}
  (hglobals : ∀ g ∈ Code.firsts Code.Global.name p.globals, ∀ e ∈ g.value,
    ∃ cs, Closed (exprText (t.naming p) [] e) cs)
  (hhandlers : ∀ h ∈ p.handlers, Braced (t.handlerLines (t.naming p) h).2 (P h))
  (hprocedures : ∀ q ∈ Code.firsts Code.Procedure.name p.procedures,
    Braced (procedureLines (t.naming p) q) (Q q))
include hglobals hhandlers hprocedures

/-- The members match if handlers and procedures do. -/
theorem braced_memberLines :
    Braced (t.memberLines (t.naming p) p) ((∀ h ∈ p.handlers, P h) ∧
      ∀ q ∈ Code.firsts Code.Procedure.name p.procedures, Q q) := by
  have hfields : Braced ((t.bound (t.naming p)).map fun b =>
      "private lateinit var " ++ b.1 ++ ": " ++ b.2.rule.className) True :=
    braced_plain (forall_mem_map.2 fun b hb => lineBraces?_field ht hb)
  have hvalues : Braced ((Code.firsts Code.Global.name p.globals).map (globalLine (t.naming p)))
      True :=
    braced_plain (forall_mem_map.2 fun g hg => lineBraces?_globalLine ht (hglobals g hg))
  have hblank : lineBraces? "" = some [] := rfl
  have hall := (((hfields.respaced (solid_leading _)).append
    (hvalues.respaced (solid_leading _))).append
    (braced_onCreateLines ht hhandlers)).append
    (braced_flatMap fun q hq => (hprocedures q hq).cons hblank)
  exact hall.congr (by simp)

/-- **The class of an activity is closed by its last line if and only if the braces of its handlers
and procedures match.** -/
theorem closesLast_lines_iff :
    ClosesLast (t.lines p) ↔ (∀ h ∈ p.handlers, P h) ∧
      ∀ q ∈ Code.firsts Code.Procedure.name p.procedures, Q q := by
  have hname : isSigns ("class " ++ t.activity ++ " : AppCompatActivity") :=
    isSigns_append (isSigns_append (by decide) ht.plain.activity) (by decide)
  have hhead : Closed ("class " ++ t.activity ++ " : AppCompatActivity()") [] :=
    ((closed_signs (s := "") (by decide)).call hname).respelt (by simp)
  have hmembers := braced_memberLines ht hglobals hhandlers hprocedures
  rw [lines_eq_heading_append]
  exact closesLast_iff (lineBraces?_heading ht) hhead (hmembers.cons rfl)

end

end

end Kotlin
end ScreenForge
