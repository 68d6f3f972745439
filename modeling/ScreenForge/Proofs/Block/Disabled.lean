/-
# Disabled blocks

A disabled block should not be part of the program, and should be reported wherever it is met.  At
the top and in a sequence this is so.  In a value slot the attribute is not looked at.
-/
import ScreenForge.Proofs.Block.Walk
import ScreenForge.Proofs.Text.Lower

namespace ScreenForge
namespace Block

open List
open Journal (notes settle)
open Markup (Element)

/-- The word of disabled blocks, in any letter case. -/
theorem isDisabled_iff {attributes : List (String × String)} :
    isDisabled attributes ↔ ∃ word, attributes.lookup "disabled" = some word
      ∧ word.toList.map Char.toLower = "true".toList := by
  rw [isDisabled, beq_iff_eq, Text.lower_eq_iff (by decide +kernel)]
  cases attributes.lookup "disabled" with
  | none => simp
  | some word => simp

/-! ### What is reported -/

/-- The report of a disabled element. -/
def Met.report (m : Met) : Diagnostic :=
  .warning .disabledBlock
    (if m.route = .top then "Disabled top-level block skipped" else "Disabled block skipped")
    (some (m.element.get "type"))

/-- What is reported of disabled blocks. -/
def disabledReports (report : List Diagnostic) : List Diagnostic :=
  report.filter fun d => d.code == .disabledBlock

/-- An element at the top that is not disabled may be left out, but for another reason. -/
theorem code_ne_of_skipped {e : Element} (h : isDisabled e.attributes = false)
    {reason : Diagnostic} (htop : topOf e = .skipped reason) : reason.code ≠ .disabledBlock := by
  have hgives := gives_topOf e
  rw [htop] at hgives
  cases hgives with
  | disabled hdisabled => exact absurd (h.symm.trans hdisabled) Bool.false_ne_true
  | unsupported _ _ _ hcode | orphan _ _ hcode => rw [hcode]; exact Diagnostic.Code.noConfusion

/-- A disabled block at the top gives a report. -/
theorem topOf_of_isDisabled {e : Element} (h : isDisabled e.attributes) :
    topOf e = .skipped (Met.report ⟨.top, 0, e⟩) := by
  rw [topOf, if_pos h]
  rfl

/-- **An element is reported as disabled exactly if it is left out.** -/
theorem disabledReports_entries (limit : Int) (m : Met) :
    disabledReports (notes (m.entries limit)) = if m.isSkipped then [m.report] else [] := by
  by_cases hroute : m.route = .top
  · obtain ⟨_, depth, e⟩ := m
    obtain rfl : _ = Route.top := hroute
    have hskipped : Met.isSkipped ⟨.top, depth, e⟩ = isDisabled e.attributes := rfl
    rw [Met.entries, hskipped]
    cases hd : isDisabled e.attributes with
    | true =>
      rw [topOf_of_isDisabled hd]
      rfl
    | false =>
      cases htop : topOf e with
      | skipped reason =>
        have hcode := code_ne_of_skipped hd htop
        exact filter_cons_of_neg (by simpa using hcode)
      | handler _ | global _ | procedure _ => rfl
  · rw [Met.entries_of_ne_top hroute, Met.report, if_neg hroute]
    cases m.isSkipped with
    | true => rfl
    | false =>
      rw [if_neg Bool.false_ne_true, notes_visitingHere]
      rfl

/-- Going over what is selected is going over all and passing the others by. -/
theorem flatMap_filter {α β : Type} (p : α → Bool) (f : α → List β) (items : List α) :
    (items.filter p).flatMap f = items.flatMap fun a => if p a then f a else [] := by
  induction items with
  | nil => rfl
  | cons a rest ih =>
    rw [filter_cons, flatMap_cons, ← ih]
    split <;> rfl

/-- The reports of disabled blocks are those of the elements that are left out. -/
theorem disabledReports_visitingRoot (limit : Int) (root : Element) :
    disabledReports (notes (visitingRoot limit root))
      = ((met root).filter Met.isSkipped).map Met.report := by
  rw [visitingRoot_eq, Journal.notes_flatMap, disabledReports, filter_flatMap,
    map_eq_flatMap, flatMap_filter]
  exact flatMap_congr fun m _ => disabledReports_entries limit m

/-! ### What is left out -/

/-- Nothing in the program stems from a disabled element, and each disabled element that is met is
reported. -/
structure LeavesOutDisabled (root : Element) (report : List Diagnostic) : Prop where
  program : ∀ m ∈ kept root, m.isDisabled = false
  report : disabledReports report = ((met root).filter Met.isDisabled).map Met.report

/-- **What stays in the program although it is disabled stands in a value slot.** -/
theorem route_of_mem_kept {root : Element} {m : Met} (hm : m ∈ kept root)
    (hd : m.isDisabled) : m.route = .value := by
  by_contra hroute
  have hskipped := (mem_met_of_kept hm).2
  rw [Met.isSkipped, bne_iff_ne.2 hroute, Bool.true_and, hd] at hskipped
  cases hskipped

theorem filter_isSkipped (elements : List Met) : elements.filter Met.isSkipped
    = (elements.filter Met.isDisabled).filter fun m => m.route != .value :=
  filter_filter.symm

/-- **Disabled blocks are left out exactly if none that is met in a value slot is disabled.**
The declarations of the program stem from elements at the top, and its blocks from the elements
that are `kept`, one for each.  Whatever the descriptor, only value slots let disabled elements
through, and the reports are those of the disabled elements that are left out. -/
theorem disabled_left_out_iff {timer : Timer} {limit : Int} {root : Element}
    {report : List Diagnostic} (h : settle timer (visitingRoot limit root) = .ok report) :
    (∀ m : Met, m.isDisabled = true ↔ ∃ word, m.element.get? "disabled" = some word
        ∧ word.toList.map Char.toLower = "true".toList)
      ∧ programOf root = programOf { root with children := declaring root }
      ∧ (programOf root).levels.Perm ((keptBlocks root).map fun m => (m.depth, blockOf m.element))
      ∧ kept root ⊆ met root
      ∧ (∀ m ∈ kept root, m.isDisabled = true → m.route = .value)
      ∧ disabledReports report = ((met root).filter Met.isSkipped).map Met.report
      ∧ (LeavesOutDisabled root report
        ↔ ∀ m ∈ met root, m.route = .value → m.isDisabled = false) := by
  obtain rfl := Journal.eq_notes_of_settle h
  have hreports := disabledReports_visitingRoot limit root
  refine ⟨fun m => isDisabled_iff, programOf_declaring root, levels_programOf_perm root,
    fun m hm => (mem_met_of_kept hm).1, fun m => route_of_mem_kept, hreports, ?_, ?_⟩
  · intro hout m hm hvalue
    -- as many elements are left out as are disabled, so they are the same ones
    have hlength : (((met root).filter Met.isDisabled).filter fun m => m.route != .value).length
        = ((met root).filter Met.isDisabled).length := by
      have hmaps := congrArg List.length (hreports.symm.trans hout.report)
      rwa [length_map, length_map, filter_isSkipped] at hmaps
    have hsame := filter_sublist.eq_of_length hlength
    by_contra hdisabled
    have hmem : m ∈ (met root).filter Met.isDisabled :=
      mem_filter.2 ⟨hm, Bool.not_eq_false _ ▸ hdisabled⟩
    have hroute := (mem_filter.1 (hsame ▸ hmem)).2
    exact bne_iff_ne.1 hroute hvalue
  · intro hvalues
    constructor
    · intro m hm
      by_contra hdisabled
      have hd : m.isDisabled := Bool.not_eq_false _ ▸ hdisabled
      exact hdisabled (hvalues m (mem_met_of_kept hm).1 (route_of_mem_kept hm hd))
    · have hall : ∀ m ∈ (met root).filter Met.isDisabled, (m.route != .value) := by
        intro m hm
        obtain ⟨hmet, hd⟩ := mem_filter.1 hm
        rw [bne_iff_ne]
        intro hvalue
        rw [hvalues m hmet hvalue] at hd
        cases hd
      rw [hreports, filter_isSkipped, filter_eq_self.2 hall]

/-- An element without a namespace. -/
def plainElement (tag : String) (attributes : List (String × String)) (children : List Element) :
    Element :=
  { name := tag, attributes, children }

/-- A block that leaves a loop. -/
def leaveElement : Element := plainElement "block" [("type", "controls_break")] []

/-- A disabled block before another. -/
def pausedElement : Element :=
  plainElement "block" [("type", "controls_break"), ("disabled", "true")]
    [plainElement "next" [] [leaveElement]]

/-- A slot with the two. -/
def pausedSlot : Element := plainElement "statement" [("name", "STACK")] [pausedElement]

/-- A procedure that does the two. -/
def pausedProcedure : Element :=
  plainElement "block" [("type", "procedures_defnoreturn")] [pausedSlot]

/-- A disabled global variable. -/
def pausedGlobal : Element :=
  plainElement "block" [("type", "global_declaration"), ("disabled", "TRUE")] []

/-- A descriptor with a disabled block at the top, and one at the front of a sequence. -/
def pausedRoot : Element := plainElement "xml" [] [pausedGlobal, pausedProcedure]

/-- The reports of the two disabled blocks. -/
def pausedReports : List Diagnostic := [
  .warning .disabledBlock "Disabled top-level block skipped" (some "global_declaration"),
  .warning .disabledBlock "Disabled block skipped" (some "controls_break")]

theorem metInTop_pausedProcedure :
    metInTop pausedProcedure = [⟨.sequence, 1, pausedElement⟩, ⟨.sequence, 1, leaveElement⟩] := by
  have hsequence : sequenceIn pausedSlot = [pausedElement, leaveElement] := by
    have hfirst : sequenceIn pausedSlot = sequenceFrom pausedElement := rfl
    have hsecond : next? pausedElement = some leaveElement := rfl
    have hlast : next? leaveElement = none := rfl
    rw [hfirst, sequenceFrom_eq, hsecond, Option.elim_some, sequenceFrom_eq, hlast,
      Option.elim_none]
  have hslot : metInTop pausedProcedure
      = (sequenceIn pausedSlot).map (Met.mk .sequence 1) ++ [] := rfl
  rw [hslot, hsequence]
  rfl

theorem route_ne_value_paused : ∀ m ∈ met pausedRoot, m.route ≠ .value := by
  have hpaused : metIn ⟨.sequence, 1, pausedElement⟩ = [⟨.sequence, 1, pausedElement⟩] := by
    rw [metIn_eq, if_pos (by decide +kernel)]
  have hleave : metIn ⟨.sequence, 1, leaveElement⟩ = [⟨.sequence, 1, leaveElement⟩] := by
    rw [metIn_eq]
    rfl
  have hglobal : metInTop pausedGlobal = [] := by
    rw [metInTop, topOf_of_isDisabled (by decide +kernel)]
  have hmet : met pausedRoot = [⟨.top, 0, pausedGlobal⟩, ⟨.top, 0, pausedProcedure⟩,
      ⟨.sequence, 1, pausedElement⟩, ⟨.sequence, 1, leaveElement⟩] := by
    have htops : topElements pausedRoot = [pausedGlobal, pausedProcedure] := rfl
    rw [met, htops, flatMap_cons, flatMap_singleton, hglobal, metInTop_pausedProcedure,
      flatMap_cons, flatMap_singleton, hpaused, hleave]
    rfl
  rw [hmet]
  simp

/-- **Both disabled blocks of the descriptor are left out.** -/
theorem paused_blocks_left_out :
    settle .unlimited (visitingRoot 64 pausedRoot) = .ok pausedReports
      ∧ LeavesOutDisabled pausedRoot pausedReports := by
  have hsettle : settle .unlimited (visitingRoot 64 pausedRoot) = .ok pausedReports := by
    rw [Journal.settle_unlimited_eq_ok_iff]
    decide +kernel
  obtain ⟨-, -, -, -, -, -, hiff⟩ := disabled_left_out_iff hsettle
  exact ⟨hsettle, hiff.2 fun m hm hvalue => absurd hvalue (route_ne_value_paused m hm)⟩

/-- A disabled number in a value slot. -/
def mutedElement : Element :=
  plainElement "block" [("type", "math_number"), ("disabled", "true")] []

/-- A descriptor with a global variable that has the number as its value. -/
def mutedRoot : Element :=
  plainElement "xml" [] [
    plainElement "block" [("type", "global_declaration")]
      [plainElement "value" [("name", "VALUE")] [mutedElement]]]

/-- The text of the descriptor, cut into short pieces. -/
def mutedPieces : List String := [
  "<xml>", "<block type=\"global_declaration\">", "<value name=\"VALUE\">",
  "<block type=\"math_number\" disabled=\"true\"/>", "</value></block>", "</xml>"]

/-- The text of the descriptor. -/
def mutedText : String := String.ofList (mutedPieces.flatMap String.toList)

theorem read?_mutedText : Markup.read? mutedText = some mutedRoot := by
  have hchars : mutedText.toList = mutedPieces.flatMap String.toList := String.toList_ofList
  unfold Markup.read?
  rw [hchars]
  decide +kernel

/-- **A disabled number becomes the value of a global variable, and nothing is reported.** -/
theorem disabled_value_reaches_program :
    Markup.read? mutedText = some mutedRoot
      ∧ settle .unlimited (visitingRoot 64 mutedRoot) = .ok []
      ∧ isDisabled mutedElement.attributes = true
      ∧ (programOf mutedRoot).globals = [{ name := "", value := some (blockOf mutedElement) }]
      ∧ ¬ LeavesOutDisabled mutedRoot [] := by
  have hdisabled : isDisabled mutedElement.attributes := by decide +kernel
  refine ⟨read?_mutedText, rfl, hdisabled, rfl, fun h => ?_⟩
  have hmem : (⟨.value, 1, mutedElement⟩ : Met) ∈ keptBlocks mutedRoot := by
    refine mem_flatMap.2 ⟨_, mem_singleton_self _, mem_flatMap.2
      ⟨_, mem_filter.2 ⟨mem_singleton_self (⟨.value, 1, mutedElement⟩ : Met), rfl⟩, ?_⟩⟩
    rw [keptIn_eq]
    exact mem_cons_self
  exact Bool.false_ne_true ((h.program _ (mem_append_right _ hmem)).symm.trans hdisabled)

end Block
end ScreenForge
