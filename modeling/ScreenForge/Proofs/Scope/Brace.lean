/-
# Which programs have braces that match

A branch has one condition more than its block announces, so it has none if the block announces a
negative number of further ones.  Nothing is opened then, and its closing line closes what stands
around it.  `HasArm` is what a block has to keep to.  A handler that is not bound does not count: it
is a comment.
-/
import ScreenForge.Proofs.Kotlin.Outline
import ScreenForge.Proofs.Scope.Entries
import ScreenForge.Proofs.Scope.OneLine

namespace ScreenForge

open List

namespace Block

open Code (Stmt exprOf numberOr slotExpr stmtOf)
open Kotlin (Armed Braced Closed Env Quotation Scope Target armed_iff braced_flatMap
  braced_stmtLines closed_exprText endsLine exprText isContent isContent_append isLine isSigns
  literals quotations stmtLines)
open Text (Has Spread isPrintable)

variable {b : Block} {env : Env}

/-! ### Words that can stand in literals -/

/-- Every word that a block splices at one of some sites can stand in a literal. -/
def Sayable (sites : List Site) : Prop :=
  ∀ s ∈ sites, ∀ word, s.block.Splices word → isContent word.toList = true

section

variable {root : Site.Root} {levels : List Site.Level} {role : Site.Role}

/-- What can be said of a block can be said of the blocks inside it. -/
theorem Sayable.inPart (h : Sayable (Site.sitesIn root levels role b)) (part : Part) {d : Block}
    (hpart : part ∈ b.partsIn role) (hd : d ∈ b.inPart part) :
    Sayable (Site.sitesIn root (⟨b, part⟩ :: levels) part.role d) :=
  fun s hs => h s (Site.mem_sitesIn.2 (.inr ⟨part, hpart, d, hd, hs⟩))

/-- The name of a slot on one line can stand in a literal. -/
theorem isContent_of_asks (hline : ∀ s ∈ b.texts, isLine s) {slot : String} (h : b.Asks slot) :
    isContent slot.toList := by
  rcases h with hword | harg
  · exact isContent_of_isWord hword
  · obtain ⟨hmem, hsome⟩ := mem_filter.1 harg
    have hslot := all_eq_true.1 (hline slot (mem_texts_of_mem_values hmem))
    exact isContent_argSlot hsome fun c hc => by simpa using hslot c hc

/-- **The value of a block is closed** if its words can stand in literals. -/
theorem closed_value (henv : env.Plain) (scope : Scope) (hline : ∀ s ∈ b.texts, isLine s)
    (hsay : Sayable (Site.sitesIn root levels .value b)) :
    ∃ cs, Closed (exprText env scope (exprOf b)) cs := by
  refine ⟨_, closed_exprText henv scope _ (isContent_literals fun _ word h => ?_)⟩
  refine (plain_induct (P := fun b word => ∀ levels, (∀ s ∈ b.texts, isLine s) →
    Sayable (Site.sitesIn root levels .value b) → isContent word.toList = true)
    ?_ ?_ ?_ h).2 levels hline hsay
  · exact fun b word hword levels _ hsay => hsay _ (Site.mem_sitesIn.2 (.inl rfl)) word hword
  · exact fun b slot hslot _ hline _ => isContent_of_asks hline (asks_operandSlots hslot)
  · intro b d slot word hslot hd ih levels hline hsay
    refine ih _ (fun s hs => hline s (texts_subset_of_value? hd hs))
      (hsay.inPart (.slot slot) (mem_map_of_mem hslot) (Option.mem_toList.2 hd))

/-- The value of a slot is closed. -/
theorem closed_held (henv : env.Plain) (scope : Scope) {owner slot : String}
    (hslot : isContent slot.toList) {held : Option Block}
    (hline : ∀ s ∈ heldTexts held, isLine s)
    (hsay : ∀ d ∈ held, Sayable (Site.sitesIn root levels .value d)) :
    ∃ cs, Closed (exprText env scope (Code.heldExpr owner slot held)) cs := by
  cases held with
  | none =>
    refine ⟨_, closed_exprText henv scope (.missing slot owner) fun content hcontent => ?_⟩
    rw [mem_singleton.1 hcontent, Quotation.content, String.toList_append,
      isContent_append (by decide)]
    exact hslot
  | some d =>
    rw [heldTexts] at hline
    exact closed_value henv scope hline (hsay d rfl)

theorem closed_slot (henv : env.Plain) (scope : Scope) (hline : ∀ s ∈ b.texts, isLine s)
    (hsay : Sayable (Site.sitesIn root levels .act b)) {slot : String}
    (hslot : Part.slot slot ∈ b.parts) :
    ∃ cs, Closed (exprText env scope (slotExpr b.type slot b.values)) cs := by
  rw [Code.slotExpr_eq]
  exact closed_held henv scope (isContent_of_asks hline (asks_parts hslot))
    (fun s hs => hline s (heldTexts_subset b slot hs))
    fun d hd => hsay.inPart (.slot slot) hslot (Option.mem_toList.2 hd)

/-- A block that acts by its value has the parts of the value. -/
theorem parts_of_expr {e : Code.Expr} (h : stmtOf b = .call e ∨ stmtOf b = .value e) :
    b.parts = b.partsIn .value := by
  obtain ⟨kind⟩ := b
  cases kind <;> first | rfl | simp [stmtOf] at h

theorem Sayable.of_expr {e : Code.Expr} (h : stmtOf b = .call e ∨ stmtOf b = .value e)
    (hsay : Sayable (Site.sitesIn root levels .act b)) :
    Sayable (Site.sitesIn root levels .value b) := by
  intro s hs
  obtain rfl | ⟨part, hpart, d, hd, hs⟩ := Site.mem_sitesIn.1 hs
  · exact hsay ⟨root, levels, .act, b⟩ (Site.mem_sitesIn.2 (.inl rfl))
  · have hact : part ∈ b.partsIn .act := by
      rw [Block.partsIn, parts_of_expr h]
      exact hpart
    exact hsay.inPart _ hact hd s hs

end

/-- Texts on one line have no ends of lines. -/
theorem not_spread_of_isLine {texts : List String} (h : ∀ s ∈ texts, isLine s) {c : Char}
    (hc : endsLine c) : ¬ Spread c texts := by
  rintro ⟨s, hs, hhas⟩
  have hline := all_eq_true.1 (h s hs) c hhas
  rw [hc] at hline
  cases hline

/-- Signs are lines. -/
theorem not_has_of_isSigns {s : String} (h : isSigns s) {c : Char}
    (hc : endsLine c) : ¬ Has c s := by
  intro hhas
  have hcode := Kotlin.isPlainCode_isCode (Bool.and_eq_true_iff.1 h).1 c hhas
  rw [endsLine, Bool.or_eq_true, beq_iff_eq, beq_iff_eq] at hc
  rcases hc with rfl | rfl <;> exact absurd hcode (by decide)

theorem isPrintable_of_endsLine {c : Char} (hc : endsLine c) : isPrintable c = false := by
  rw [endsLine, Bool.or_eq_true, beq_iff_eq, beq_iff_eq] at hc
  rcases hc with rfl | rfl <;> decide

theorem forall_isLine {lines : List String}
    (h : ∀ c, endsLine c → ¬ Spread c lines) : ∀ line ∈ lines, isLine line := by
  intro line hline
  refine all_eq_true.2 fun c hc => ?_
  cases hends : endsLine c with
  | false => rfl
  | true => exact absurd ⟨line, hline, hc⟩ (h c hends)

/-! ### Statements -/

section

variable {t : Target} (ht : t.Signed) {p : Code.Program}
include ht

theorem not_spread_texts {c : Char} (hc : endsLine c) : ¬ Spread c t.texts := by
  rintro ⟨s, hs, hhas⟩
  exact not_has_of_isSigns (ht.texts s hs) hc hhas

/-- **The braces of a block that acts match if and only if every branch within it has an arm.** -/
theorem braced_stmtOf (scope : Scope) {root : Site.Root} {levels : List Site.Level}
    (hb : ∀ s ∈ b.texts, isLine s) (hsay : Sayable (Site.sitesIn root levels .act b)) :
    Braced (stmtLines (t.naming p) scope (stmtOf b)) (Armed (stmtOf b)) := by
  have henv := ht.plain.naming p
  induction b using Block.inductParts generalizing scope levels with
  | h b ih =>
    refine braced_stmtLines henv (forall_isLine fun c hc hspread => ?_) ?_ ?_ ?_
    · have hforeign := isPrintable_of_endsLine hc
      have hlacks := Kotlin.lacks_naming hforeign (not_spread_texts ht hc) p
      exact not_spread_of_isLine hb hc (spread_stmtOf hforeign hlacks hspread)
    · intro e he
      rw [expr_of_stmtOf he]
      exact closed_value henv scope hb (hsay.of_expr he)
    · intro e he
      obtain ⟨slot, hslot, rfl⟩ := Code.value_mem_pieces he
      exact closed_slot henv scope hb hsay hslot
    · intro names ss hss
      obtain ⟨slot, hslot, rfl, rfl⟩ := Code.body_mem_pieces hss
      rw [Kotlin.stmtsLines_eq_flatMap]
      refine braced_flatMap fun c hc => ?_
      obtain ⟨d, hd, rfl⟩ := mem_map.1 hc
      exact ih (.body slot) d hd _ (fun s hs => hb s (texts_subset_of_mem_body hd hs))
        (hsay.inPart (.body slot) hslot hd)

theorem braced_stmtsOf (scope : Scope) {root : Site.Root} {blocks : List Block}
    (hblocks : ∀ s ∈ bodyTexts blocks, isLine s)
    (hsay : ∀ b ∈ blocks, Sayable (Site.sitesIn root [] .act b)) :
    Braced (Kotlin.stmtsLines (t.naming p) scope (Code.stmtsOf blocks))
      (∀ c ∈ Code.stmtsOf blocks, Armed c) := by
  rw [Kotlin.stmtsLines_eq_flatMap, Code.stmtsOf_eq_map]
  refine braced_flatMap fun c hc => ?_
  obtain ⟨d, hd, rfl⟩ := mem_map.1 hc
  refine braced_stmtOf ht scope (fun s hs => hblocks s ?_) (hsay d hd)
  rw [bodyTexts_eq_flatMap]
  exact mem_flatMap.2 ⟨d, hd, hs⟩

end

/-! ### Arms -/

/-- A branch announces no negative number of further conditions. -/
def HasArm (b : Block) : Prop := b.kind = .branch → 0 ≤ numberOr b.mutation "elseif" 0

/-- A block has an arm if it is written as no branch without one. -/
theorem hasArm_iff : b.HasArm ↔ ∀ otherwise, stmtOf b ≠ .branch [] otherwise := by
  obtain ⟨kind, type, id, fields, mutation⟩ := b
  unfold HasArm
  cases kind with
  | branch =>
    have harms : (numberOr mutation "elseif" 0 + 1).toNat = 0
        ↔ numberOr mutation "elseif" 0 < 0 := by
      omega
    simp only [stmtOf, ne_eq, Stmt.branch.injEq, map_eq_nil_iff, range_eq_nil, harms,
      true_implies, not_and]
    constructor
    · intro hcount otherwise hnegative
      omega
    · intro hnever
      exact Int.not_lt.1 fun hnegative => hnever _ hnegative rfl
  | _ => simp [stmtOf]

end Block

namespace Site

open Block (HasArm Part Sayable)
open Code (stmtOf)
open Kotlin (Armed Braced Closed ClosesLast Scope Target armed_iff braced_handlerLines
  braced_procedureLines braces? closesLast_lines_iff exprText isContent isLine procedureLines
  stmtLines)
open Text (Balanced)

/-- Nothing that acts stands in a value. -/
theorem not_acts_of_mem_value {root : Root} {levels : List Level} {b : Block} {s : Site}
    (h : s ∈ sitesIn root levels .value b) : s.role ≠ .act := by
  rw [(scope_of_mem_sitesIn_value (t := { package := "" }) h).2]
  exact Role.noConfusion

/-- **A block is armed if and only if every block that acts within it has an arm.** -/
theorem armed_stmtOf_iff (root : Root) (levels : List Level) (b : Block) :
    Armed (stmtOf b) ↔ ∀ s ∈ sitesIn root levels .act b, s.role = .act → s.block.HasArm := by
  induction b using Block.inductParts generalizing levels with
  | h b ih =>
    rw [armed_iff, ← Block.hasArm_iff]
    constructor
    · rintro ⟨hown, hinner⟩ s hs hrole
      obtain rfl | ⟨part, hpart, d, hd, hs⟩ := mem_sitesIn.1 hs
      · exact hown
      · cases part with
        | slot name => exact absurd hrole (not_acts_of_mem_value hs)
        | body name =>
          refine (ih (.body name) d hd _).1 ?_ s hs hrole
          have hpiece : b.piece (.body name) ∈ (stmtOf b).pieces := by
            rw [Code.pieces_stmtOf]
            exact mem_map_of_mem hpart
          refine hinner _ ⟨_, hpiece⟩ _ ?_
          rw [Code.bodyIn_eq]
          exact mem_map_of_mem hd
    · intro hall
      refine ⟨hall _ (mem_sitesIn.2 (.inl rfl)) rfl, fun ss hss c hc => ?_⟩
      obtain ⟨slot, hslot, -, rfl⟩ := Code.body_mem_pieces hss.choose_spec
      obtain ⟨d, hd, rfl⟩ := mem_map.1 hc
      refine (ih (.body slot) d hd (⟨b, .body slot⟩ :: levels)).2 fun s hs hrole => ?_
      exact hall s (mem_sitesIn.2 (.inr ⟨.body slot, hslot, d, hd, hs⟩)) hrole

/-- Whether the blocks of a declaration are written as code, and not as comments. -/
def Root.isWritten (t : Target) : Root → Bool
  | .handler h => t.binds (Code.Handler.ofBlock h)
  | _ => true

/-- **The blocks of a declaration that act have arms if and only if its body does**, for one that is
written. -/
theorem Root.forall_sites_iff (t : Target) (root : Root) :
    (∀ s ∈ root.sites, s.role = .act → s.root.isWritten t → s.block.HasArm) ↔
      (root.isWritten t → ∀ b ∈ root.blocks, b.1 = .act → Armed (stmtOf b.2)) := by
  rw [Root.sites_eq]
  constructor
  · rintro hall hwritten ⟨role, b⟩ hb rfl
    refine (armed_stmtOf_iff root [] b).2 fun s hs hrole => ?_
    refine hall s (mem_flatMap.2 ⟨_, hb, hs⟩) hrole ?_
    rwa [root_of_mem_sitesIn hs]
  · intro hall s hs hrole hwritten
    obtain ⟨⟨role, b⟩, hb, hs⟩ := mem_flatMap.1 hs
    rw [root_of_mem_sitesIn hs] at hwritten
    cases role with
    | value => exact absurd hrole (not_acts_of_mem_value hs)
    | act => exact (armed_stmtOf_iff root [] b).1 (hall hwritten _ hb rfl) s hs hrole

/-- **The blocks of a program that act have arms if and only if those of its handlers and of its
procedures do.** -/
theorem forall_sites_iff {t : Target} {p : Block.Program} :
    (∀ s ∈ p.sites, s.role = .act → s.root.isWritten t → s.block.HasArm) ↔
      (∀ h ∈ (Code.Program.ofBlocks p).handlers, t.binds h → ∀ c ∈ h.body, Armed c) ∧
      ∀ q ∈ Code.firsts Code.Procedure.name (Code.Program.ofBlocks p).procedures,
        ∀ c ∈ q.body, Armed c := by
  have hacts : ∀ (blocks : List Block) (others : List Block),
      (∀ b ∈ (blocks.map fun b => (Role.act, b)) ++ others.map fun b => (Role.value, b),
          b.1 = .act → Armed (stmtOf b.2))
        ↔ ∀ c ∈ Code.stmtsOf blocks, Armed c := by
    intro blocks others
    simp [Code.stmtsOf_eq_map, or_imp, forall_and]
  have hall : (∀ s ∈ p.sites, s.role = .act → s.root.isWritten t → s.block.HasArm) ↔
      ∀ root ∈ roots p, root.isWritten t → ∀ b ∈ root.blocks, b.1 = .act →
        Armed (stmtOf b.2) := by
    simp only [Block.Program.sites, ← Root.forall_sites_iff, forall_mem_flatMap]
  have hhandlers : (Code.Program.ofBlocks p).handlers = p.handlers.map Code.Handler.ofBlock := rfl
  rw [hall, firsts_procedures, hhandlers, roots, forall_mem_append, forall_mem_append]
  simp only [forall_mem_map]
  refine and_congr ((and_iff_right fun g _ _ => ?_).trans ?_) ?_
  · simp [Root.blocks]
  · refine forall₂_congr fun h _ => imp_congr_right fun _ => ?_
    have hbody := hacts h.body []
    rwa [map_nil, append_nil] at hbody
  · refine forall₂_congr fun q _ => ?_
    have hbody := hacts q.body (if q.returnsValue then q.result.toList else [])
    rw [Root.blocks, ← map_nil (f := fun b => (Role.value, b)), ← apply_ite]
    simp only [Root.isWritten, true_implies]
    exact hbody

section

variable {t : Target} (ht : t.Signed) {p : Block.Program} (hp : ∀ s ∈ p.texts, isLine s)
  (hsay : Sayable p.sites)

include hsay

/-- The words of the blocks of a declaration are among those of the program. -/
theorem sayable_root {root : Root} (hroot : root ∈ roots p) {role : Role} {b : Block}
    (hb : (role, b) ∈ root.blocks) : Sayable (sitesIn root [] role b) :=
  fun s hs => hsay s (mem_sites.2 ⟨root, hroot, (role, b), hb, hs⟩)

include ht hp

/-- The values of global variables are closed. -/
theorem closed_globals :
    ∀ g ∈ Code.firsts Code.Global.name (Code.Program.ofBlocks p).globals, ∀ e ∈ g.value,
      ∃ cs, Closed (exprText (t.naming (.ofBlocks p)) [] e) cs := by
  intro g hg e he
  rw [firsts_globals] at hg
  obtain ⟨d, hd, rfl⟩ := mem_map.1 hg
  obtain ⟨b, hb, rfl⟩ := Option.map_eq_some_iff.1 he
  have hroot : Root.initial d ∈ roots p :=
    mem_append_left _ (mem_append_left _ (mem_map_of_mem hd))
  have hblock : (Role.value, b) ∈ (Root.initial d).blocks :=
    mem_map_of_mem (Option.mem_toList.2 hb)
  refine Block.closed_value (ht.plain.naming _) [] (fun s hs => hp s ?_)
    (sayable_root hsay hroot hblock)
  have hvalue : s ∈ Block.heldTexts d.value := by
    rw [hb, Block.heldTexts]
    exact hs
  refine mem_append_left _ (mem_append_right _ ?_)
  exact mem_flatMap.2 ⟨d, Block.firstsAfter_subset _ _ _ hd, hvalue⟩

/-- The braces of a handler match if it is no comment and its branches have arms. -/
theorem braced_handlers : ∀ h ∈ (Code.Program.ofBlocks p).handlers,
    Braced (t.handlerLines (t.naming (.ofBlocks p)) h).2
      (t.binds h → ∀ c ∈ h.body, Armed c) := by
  intro h hh
  have hline : ∀ line ∈ (t.handlerLines (t.naming (.ofBlocks p)) h).2, isLine line := by
    refine Block.forall_isLine fun c hc hspread => ?_
    exact Block.not_spread_of_isLine hp hc (Block.spread_of_handlerLines
      (Block.isPrintable_of_endsLine hc) (Block.not_spread_texts ht hc) hh hspread)
  refine braced_handlerLines ht hline ?_
  obtain ⟨g, hg, rfl⟩ := mem_map.1 hh
  have hroot : Root.handler g ∈ roots p :=
    mem_append_left _ (mem_append_right _ (mem_map_of_mem hg))
  refine Block.braced_stmtsOf ht _ (fun s hs => hp s ?_)
    fun b hb => sayable_root hsay hroot (mem_map_of_mem hb)
  refine mem_append_left _ (mem_append_left _ (mem_flatMap.2 ⟨g, hg, ?_⟩))
  exact mem_cons_of_mem _ (mem_cons_of_mem _ hs)

/-- The braces of a procedure match if its branches have arms. -/
theorem braced_procedures :
    ∀ q ∈ Code.firsts Code.Procedure.name (Code.Program.ofBlocks p).procedures,
      Braced (procedureLines (t.naming (.ofBlocks p)) q) (∀ c ∈ q.body, Armed c) := by
  intro q hq
  rw [firsts_procedures] at hq
  obtain ⟨r, hr, rfl⟩ := mem_map.1 hq
  have hroot : Root.procedure r ∈ roots p := mem_append_right _ (mem_map_of_mem hr)
  have htexts : ∀ s ∈ Block.bodyTexts r.body ++ Block.heldTexts r.result, isLine s := fun s hs =>
    hp s (mem_append_right _ (mem_flatMap.2 ⟨r, Block.firstsAfter_subset _ _ _ hr, hs⟩))
  refine braced_procedureLines ht
    (Block.braced_stmtsOf ht _ (fun s hs => htexts s (mem_append_left _ hs)) fun b hb =>
      sayable_root hsay hroot (mem_append_left _ (mem_map_of_mem hb))) ?_
  intro e he
  rw [Code.Procedure.ofBlock] at he
  split at he
  · next hreturns =>
    obtain rfl := Option.some.inj he
    refine Block.closed_held (ht.plain.naming _) _ (by decide)
      (fun s hs => htexts s (mem_append_right _ hs)) fun d hd => sayable_root hsay hroot ?_
    rw [Root.blocks, if_pos hreturns]
    exact mem_append_right _ (mem_map_of_mem (Option.mem_toList.2 hd))
  · cases he

end

/-- **Braces match if and only if branches have arms.**  Where texts are on one line and the words
that blocks splice can stand in literals, and what the target gives are signs, the braces of a block
that acts match if and only if every block that acts within it has an arm, and the class is closed
by its last line and not before if and only if every block of the program that acts has one. -/
theorem braces_match_iff {t : Target} (ht : t.Signed) {p : Block.Program}
    (hp : ∀ s ∈ p.texts, isLine s = true) (hsay : Sayable p.sites) :
    (∀ b : Block, (∀ s ∈ b.texts, isLine s = true) → ∀ scope root,
      Sayable (sitesIn root [] .act b) → ∃ word,
      braces? (stmtLines (t.naming (.ofBlocks p)) scope (stmtOf b)) = some word ∧
        (Balanced '\x7b' '\x7d' word ↔
          ∀ s ∈ sitesIn root [] .act b, s.role = .act → s.block.HasArm)) ∧
    (ClosesLast (t.lines (.ofBlocks p)) ↔
      ∀ s ∈ p.sites, s.role = .act → s.root.isWritten t = true → s.block.HasArm) := by
  constructor
  · intro b hb scope root hwords
    have hbraced := Block.braced_stmtOf (p := .ofBlocks p) ht scope hb hwords
    exact (hbraced.congr (armed_stmtOf_iff root [] b)).exists_balanced_iff
  · rw [forall_sites_iff]
    exact closesLast_lines_iff ht (closed_globals ht hp hsay) (braced_handlers ht hp hsay)
      (braced_procedures ht hp hsay)

/-- A branch that announces a number of further conditions. -/
def branchAnnouncing (further : String) : Block :=
  { kind := .branch, type := "controls_if", mutation := [("elseif", further)] }

/-- A procedure with nothing but a branch. -/
def branchProgram (further : String) : Block.Program where
  procedures := [{ name := "f", body := [branchAnnouncing further] }]

/-- A branch with a further condition has braces that match. -/
theorem further_condition_braces_match :
    Target.Signed { package := "app" } ∧
      (∀ s ∈ (branchProgram "1").texts, isLine s = true) ∧ Sayable (branchProgram "1").sites ∧
      ClosesLast (Target.lines { package := "app" } (.ofBlocks (branchProgram "1"))) := by
  have ht : Target.Signed { package := "app" } := ⟨by decide, by decide, by decide⟩
  have hp : ∀ s ∈ (branchProgram "1").texts, isLine s := by decide
  have hnone : ∀ part, (branchAnnouncing "1").inPart part = [] := by
    rintro (name | name) <;> rfl
  have honly : ∀ s ∈ (branchProgram "1").sites, s.block = branchAnnouncing "1" := by
    intro s hs
    simp only [branchProgram, Block.Program.sites, roots, Code.firsts, Code.firstsAfter,
      map_nil, contains_nil, Bool.false_eq_true, if_false, map_cons,
      nil_append, flatMap_cons, flatMap_nil, append_nil, Root.sites, sitesIn_eq,
      hnone] at hs
    rcases mem_append.1 hs with hs | hs
    · obtain ⟨part, -, hs⟩ := mem_flatMap.1 hs
      exact absurd hs not_mem_nil
    · rw [mem_singleton.1 hs]
  have hsay : Sayable (branchProgram "1").sites := by
    intro s hs word hword
    rw [honly s hs] at hword
    cases hword with
    | nothing | type => decide
    | comparison hkind | connective hkind => cases hkind
  refine ⟨ht, hp, hsay, (braces_match_iff ht hp hsay).2.2 fun s hs _ _ => ?_⟩
  rw [honly s hs]
  exact fun _ => by decide

/-- A branch that announces a negative number of further conditions closes what it never opened. -/
theorem negative_branch_closes_unopened :
    Target.Signed { package := "app" } ∧
      (∀ s ∈ (branchAnnouncing "-1").texts, isLine s = true) ∧
      braces? (stmtLines (Target.naming { package := "app" } (.ofBlocks {})) []
        (stmtOf (branchAnnouncing "-1"))) = some ['\x7d'] ∧
      ¬ Balanced '\x7b' '\x7d' ['\x7d'] := by
  refine ⟨⟨by decide, by decide, by decide⟩, by decide, by decide, fun h => ?_⟩
  exact absurd h.closed (by decide)

end Site
end ScreenForge
