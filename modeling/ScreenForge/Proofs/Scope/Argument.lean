/-
# The places of arguments

A method call is written with the arguments of the slots that it has.  A slot that is there and
holds nothing has a placeholder at its place and is reported; a slot that is not there has neither,
so each argument behind it moves forward by one place, and nobody reports that.
-/
import ScreenForge.Proofs.Scope.Unread

namespace ScreenForge

open List
open Code (argName argNumber? argSlot? argSlots? exprOf)
open Journal (notes settle)
open Kotlin (Target exprText)

namespace Block

variable {slot : String} {i : Nat}

/-- Whether a slot holds the argument of a number. -/
def HoldsArgument (b : Block) (slot : String) (i : Nat) : Prop :=
  argNumber? slot = some (i : Int) ∧ (b.value? slot).isSome = true

/-- **Arguments are in place**: each is at the place of its number, and each place before it is
that of another argument or of a slot that holds nothing. -/
def ArgumentsInPlace (b : Block) : Prop :=
  ∀ slot i, b.HoldsArgument slot i → b.operandSlots[i]? = some slot ∧
    ∀ j < i, (∀ other, ¬ b.HoldsArgument other j) →
      ∃ gap, b.operandSlots[j]? = some gap ∧ b.value? gap = none

/-- How many slots of a block come before a slot. -/
def rank (b : Block) (slot : String) : Nat :=
  (Assoc.keys b.values).countP fun other => Code.precedes other slot

/-- Whether the argument slots of a block are spelled as usual. -/
def HasUsualSlots (b : Block) : Prop :=
  ∀ slot ∈ Assoc.keys b.values, (argSlot? slot).isSome = true → ∃ i, slot = argName i

theorem mem_keys_of_value? {b : Block} (h : (b.value? slot).isSome) :
    slot ∈ Assoc.keys b.values := by
  obtain ⟨c, hc⟩ := Option.isSome_iff_exists.1 h
  exact Assoc.mem_keys (Assoc.mem_of_lookup (Option.join_eq_some_iff.1 hc))

section Call

variable {b : Block} (hkind : b.kind = .methodCall) (hfault : b.fault? = none)

include hkind hfault

/-- A call without a fault has the argument slots among its slots as operands. -/
theorem argSlots?_values : argSlots? (Assoc.keys b.values) = some b.operandSlots := by
  rw [Site.fault?_methodCall hkind] at hfault
  cases hslots : argSlots? (b.values.map Prod.fst) with
  | none =>
    rw [if_pos hslots] at hfault
    cases hfault
  | some slots =>
    rw [operandSlots, hkind]
    simp only [hslots, Option.getD_some]
    exact hslots

theorem mem_operandSlots_iff :
    slot ∈ b.operandSlots ↔ slot ∈ Assoc.keys b.values ∧ (argSlot? slot).isSome := by
  rw [(Code.argSlots?_perm (argSlots?_values hkind hfault)).mem_iff, mem_filter]

/-- **Every argument slot has a number.** -/
theorem exists_argNumber? (h : slot ∈ b.operandSlots) :
    ∃ i : Nat, argNumber? slot = some (i : Int) := by
  obtain ⟨numbered, hsorted, -, hslots⟩ :=
    Code.exists_numbered (argSlots?_values hkind hfault)
  rw [hsorted] at h
  obtain ⟨entry, hentry, rfl⟩ := mem_map.1 h
  have hnumber := Code.argNumber?_eq_some_iff.2 (hslots entry (mem_mergeSort.1 hentry))
  obtain ⟨i, hi⟩ := Int.eq_ofNat_of_zero_le (Code.argNumber?_nonneg hnumber)
  exact ⟨i, hnumber.trans (congrArg some hi)⟩

theorem mem_operandSlots_of_holdsArgument (h : b.HoldsArgument slot i) : slot ∈ b.operandSlots := by
  refine (mem_operandSlots_iff hkind hfault).2 ⟨mem_keys_of_value? h.2, ?_⟩
  rw [Code.argNumber?_eq_some_iff.1 h.1]
  rfl

variable (hdistinct : b.HasDistinctSlots)

include hdistinct

/-- **The place of a slot is how many slots come before it.** -/
theorem getElem?_rank (h : slot ∈ b.operandSlots) : b.operandSlots[b.rank slot]? = some slot :=
  Code.getElem?_argSlots? (argSlots?_values hkind hfault) hdistinct.values h

/-- A slot stands where as many come before it. -/
theorem eq_rank_of_getElem? (h : b.operandSlots[i]? = some slot) : i = b.rank slot := by
  have hslot : slot ∈ b.operandSlots := mem_of_getElem? h
  exact (List.getElem?_inj (List.getElem?_eq_some_iff.1 h).1 (nodup_operandSlots hdistinct)).1
    (h.trans (getElem?_rank hkind hfault hdistinct hslot).symm)

/-- **Arguments are in place if and only if each has as many slots before it as its number
says.** -/
theorem argumentsInPlace_iff_rank :
    b.ArgumentsInPlace ↔ ∀ slot i, b.HoldsArgument slot i → b.rank slot = i := by
  constructor
  · intro hplace slot i hslot
    exact (eq_rank_of_getElem? hkind hfault hdistinct (hplace slot i hslot).1).symm
  · intro hrank slot i hslot
    have hmem := mem_operandSlots_of_holdsArgument hkind hfault hslot
    have hat := getElem?_rank hkind hfault hdistinct hmem
    rw [hrank slot i hslot] at hat
    refine ⟨hat, fun j hj hfree => ?_⟩
    have hlength : j < b.operandSlots.length :=
      Nat.lt_trans hj (List.getElem?_eq_some_iff.1 hat).1
    have hgap := List.getElem?_eq_getElem hlength
    refine ⟨_, hgap, ?_⟩
    -- a block there would be the argument of another number, and so stand at another place
    cases hvalue : b.value? b.operandSlots[j] with
    | none => rfl
    | some c =>
      obtain ⟨k, hk⟩ := exists_argNumber? hkind hfault (getElem_mem hlength)
      have hheld : (b.value? b.operandSlots[j]).isSome := by rw [hvalue]; rfl
      have hkj : k = j := (hrank _ k ⟨hk, hheld⟩).symm.trans
        (eq_rank_of_getElem? hkind hfault hdistinct hgap).symm
      rw [hkj] at hk
      exact absurd ⟨hk, hheld⟩ (hfree _)

omit hdistinct in
theorem argNumber?_argName (h : argName i ∈ Assoc.keys b.values) :
    argNumber? (argName i) = some (i : Int) := by
  rcases Code.argSlot?_argName i with hnumbered | hlong
  · exact Code.argNumber?_eq_some_iff.2 hnumbered
  · have hnone := Site.argSlots?_eq_none_iff.2 ⟨argName i, h, hlong⟩
    rw [argSlots?_values hkind hfault] at hnone
    cases hnone

/-- **The slots before a slot that is spelled as usual are those of smaller numbers.** -/
theorem rank_argName (husual : b.HasUsualSlots) (h : argName i ∈ Assoc.keys b.values) :
    b.rank (argName i)
      = (List.range i).countP fun j => decide (argName j ∈ Assoc.keys b.values) := by
  have hi := argNumber?_argName hkind hfault h
  have hinj : ∀ m n, argName m = argName n → m = n := fun _ _ => Allocator.append_toString_inj
  have hperm : ((Assoc.keys b.values).filter fun other => Code.precedes other (argName i)).Perm
      (((List.range i).filter fun j => decide (argName j ∈ Assoc.keys b.values)).map argName) := by
    refine (perm_ext_iff_of_nodup (hdistinct.values.filter _)
      ((nodup_range.filter _).map hinj)).2 fun other => ?_
    rw [mem_filter, mem_map]
    constructor
    · rintro ⟨hother, hprecedes⟩
      obtain ⟨m, n, hm, hn, horder⟩ := Code.precedes_iff.1 hprecedes
      obtain rfl := Option.some.inj (hn.symm.trans hi)
      obtain ⟨j, rfl⟩ := husual other hother (by rw [Code.argNumber?_eq_some_iff.1 hm]; rfl)
      obtain rfl := Option.some.inj (hm.symm.trans (argNumber?_argName hkind hfault hother))
      refine ⟨j, mem_filter.2 ⟨mem_range.2 ?_, decide_eq_true hother⟩, rfl⟩
      rcases horder with hlt | ⟨heq, hlt⟩
      · exact Int.ofNat_lt.1 hlt
      · exact absurd hlt (Int.ofNat_inj.1 heq ▸ String.lt_irrefl _)
    · rintro ⟨j, hj, rfl⟩
      obtain ⟨hrange, hmem⟩ := mem_filter.1 hj
      have hother := of_decide_eq_true hmem
      exact ⟨hother, Code.precedes_iff.2 ⟨j, i, argNumber?_argName hkind hfault hother, hi,
        Or.inl (Int.ofNat_lt.2 (mem_range.1 hrange))⟩⟩
  rw [rank, countP_eq_length_filter, hperm.length_eq, length_map, ← countP_eq_length_filter]

/-- **With slots that are spelled as usual arguments are in place if and only if no slot before one
is absent.** -/
theorem argumentsInPlace_iff_present (husual : b.HasUsualSlots) :
    b.ArgumentsInPlace ↔ ∀ i, (b.value? (argName i)).isSome →
      ∀ j < i, argName j ∈ Assoc.keys b.values := by
  have hpresent : ∀ {i}, argName i ∈ Assoc.keys b.values →
      (b.rank (argName i) = i ↔ ∀ j < i, argName j ∈ Assoc.keys b.values) := by
    intro i h
    rw [rank_argName hkind hfault hdistinct husual h]
    nth_rewrite 2 [← length_range (n := i)]
    rw [countP_eq_length]
    simp only [mem_range, decide_eq_true_eq]
  rw [argumentsInPlace_iff_rank hkind hfault hdistinct]
  constructor
  · intro hrank i hvalue
    exact (hpresent (mem_keys_of_value? hvalue)).1
      (hrank _ i ⟨argNumber?_argName hkind hfault (mem_keys_of_value? hvalue), hvalue⟩)
  · rintro hall slot i ⟨hnumber, hvalue⟩
    obtain ⟨k, rfl⟩ := husual slot (mem_keys_of_value? hvalue)
      (by rw [Code.argNumber?_eq_some_iff.1 hnumber]; rfl)
    have hk := argNumber?_argName hkind hfault (mem_keys_of_value? hvalue)
    obtain rfl := Int.ofNat_inj.1 (Option.some.inj (hnumber.symm.trans hk))
    exact (hpresent (mem_keys_of_value? hvalue)).2 (hall _ hvalue)

end Call

end Block

namespace Site

/-- The text of an argument of a call: that of the block in its slot, or a placeholder. -/
def argumentText (t : Target) (p : Block.Program) (s : Site) (slot : String) : String :=
  match s.block.value? slot with
  | some c => exprText (t.naming (.ofBlocks p)) (s.scope t) (exprOf c)
  | none => (Defect.gap slot s.block.type).placeholder

/-- An argument is the value of its slot or a placeholder. -/
theorem exprText_slotExpr (t : Target) (p : Block.Program) (s : Site) (slot : String) :
    exprText (t.naming (.ofBlocks p)) (s.scope t)
      (Code.slotExpr s.block.type slot s.block.values) = s.argumentText t p slot := by
  have hvalue : s.block.value? slot = (s.block.values.lookup slot).join := rfl
  rw [Code.slotExpr_eq, ← hvalue, argumentText]
  cases s.block.value? slot with
  | some c => rw [Code.heldExpr]
  | none =>
    rw [Code.heldExpr, exprText]
    rfl

/-- The gaps of a site are reported. -/
theorem report_mem_notes {t : Target} {p : Block.Program} {s : Site}
    (hfault : s.block.fault? = none) (hs : s ∈ p.sites) {d : Defect} (hd : d ∈ s.gaps) :
    d.report ∈ notes (t.review (.ofBlocks p)) := by
  refine (notes_program t p).mem_iff.2 (mem_append_right _ (mem_append_right _ ?_))
  refine mem_flatMap.2 ⟨s, hs, ?_⟩
  rw [notes_remarks hfault]
  exact mem_map_of_mem (mem_append_left _ hd)

section Call

variable {s : Site} (hkind : s.block.kind = .methodCall)

include hkind

theorem partsIn_methodCall : s.block.partsIn s.role = s.block.operandSlots.map .slot := by
  cases s.role with
  | value => rfl
  | act =>
    rw [Block.partsIn, Block.parts, hkind]

/-- **The gaps of a call are its argument slots that hold nothing.** -/
theorem gaps_methodCall : s.gaps
    = (s.block.operandSlots.filter fun slot => (s.block.value? slot).isNone).map
      (Defect.gap · s.block.type) := by
  rw [gaps, partsIn_methodCall hkind, flatMap_map]
  induction s.block.operandSlots with
  | nil => rfl
  | cons slot rest ih =>
    rw [flatMap_cons, ih, gapsIn]
    by_cases h : (s.block.value? slot).isNone = true
    · rw [if_pos h, filter_cons, if_pos h]
      rfl
    · rw [if_neg h, filter_cons, if_neg h]
      rfl

theorem lines_methodCall (t : Target) (p : Block.Program) :
    s.lines t p = [exprText (t.naming (.ofBlocks p)) (s.scope t) (exprOf s.block)] := by
  obtain ⟨root, levels, role, ⟨kind⟩⟩ := s
  obtain rfl : kind = .methodCall := hkind
  cases role with
  | value => rfl
  | act =>
    rw [lines, linesIn]
    simp only [Code.stmtOf, Kotlin.stmtLines]

variable (hfault : s.block.fault? = none)

include hfault

/-- **A call of a component's method is written with the arguments of its slots.** -/
theorem lines_call {t : Target} {p : Block.Program} {target : String} {ref : Layout.Ref}
    (htarget : (t.naming (.ofBlocks p)).component? (s.scope t) s.block.componentName
      = some (target, ref)) :
    s.lines t p = [target ++ "." ++ Kotlin.methodName ref s.block.methodName ++ "("
      ++ Text.join ", " (s.block.operandSlots.map (s.argumentText t p)) ++ ")"] := by
  obtain ⟨given, hexpr⟩ := exprOf_methodCall hkind hfault
  have hgiven : given = s.block.operandSlots.map fun slot =>
      Code.slotExpr s.block.type slot s.block.values := by
    rw [← Code.operands_exprOf, hexpr]
    rfl
  rw [lines_methodCall hkind, hexpr, exprText, htarget, Kotlin.exprTexts_eq_map, hgiven, map_map]
  simp only [Function.comp_def, exprText_slotExpr]

end Call

/-- **Arguments keep their places if and only if no slot before them is absent.**  A call on a
component of the layout stops the program if the number of a slot cannot be read.  Otherwise it is
written with one argument for each argument slot that is there: the argument of a slot stands behind
those of the slots that come before it, and slots that hold nothing have placeholders and are
reported.  So the arguments are at the places of their numbers, and each place before one that no
argument has is a reported gap, if and only if each argument has as many slots before it as its
number says.  Where slots are spelled as usual an argument moves forward by one place for each
smaller number whose slot is absent. -/
theorem arguments_in_place_iff_none_absent {t : Target} {p : Block.Program} {s : Site}
    {ref : Layout.Ref} (hs : s ∈ p.sites) (hkind : s.block.kind = .methodCall)
    (hdistinct : s.block.HasDistinctSlots)
    (href : t.components.lookup s.block.componentName = some ref) :
    (s.block.fault? ≠ none → ∀ report, settle .unlimited (t.review (.ofBlocks p)) ≠ .ok report) ∧
    (s.block.fault? = none →
      (∃ target, (t.naming (.ofBlocks p)).component? (s.scope t) s.block.componentName
          = some (target, ref) ∧
        s.lines t p = [target ++ "." ++ Kotlin.methodName ref s.block.methodName ++ "("
          ++ Text.join ", " (s.block.operandSlots.map (s.argumentText t p)) ++ ")"]) ∧
      (∀ slot i, s.block.HoldsArgument slot i →
        s.block.operandSlots[s.block.rank slot]? = some slot) ∧
      (s.gaps = (s.block.operandSlots.filter fun slot => (s.block.value? slot).isNone).map
          (Defect.gap · s.block.type) ∧
        ∀ d ∈ s.gaps, d.report ∈ notes (t.review (.ofBlocks p))) ∧
      (s.block.ArgumentsInPlace ↔
        ∀ slot i, s.block.HoldsArgument slot i → s.block.rank slot = i) ∧
      (s.block.HasUsualSlots →
        (∀ i, (s.block.value? (argName i)).isSome = true → s.block.rank (argName i)
          = (List.range i).countP fun j => decide (argName j ∈ Assoc.keys s.block.values)) ∧
        (s.block.ArgumentsInPlace ↔ ∀ i, (s.block.value? (argName i)).isSome = true →
          ∀ j < i, argName j ∈ Assoc.keys s.block.values))) := by
  refine ⟨fun hfault report hreport => hfault ?_, fun hfault => ⟨?_, ?_, ?_, ?_, ?_⟩⟩
  · have hstops := (Journal.settle_unlimited_eq_ok_iff.1 hreport).1
    rw [stops_program_eq, filterMap_eq_nil_iff] at hstops
    exact hstops s hs
  · have htarget := component?_naming t (.ofBlocks p) (s.scope t) s.block.componentName
    rw [href] at htarget
    exact ⟨_, htarget, lines_call hkind hfault htarget⟩
  · intro slot i hslot
    exact Block.getElem?_rank hkind hfault hdistinct
      (Block.mem_operandSlots_of_holdsArgument hkind hfault hslot)
  · exact ⟨gaps_methodCall hkind, fun d hd => report_mem_notes hfault hs hd⟩
  · exact Block.argumentsInPlace_iff_rank hkind hfault hdistinct
  · intro husual
    refine ⟨fun i hvalue => ?_, Block.argumentsInPlace_iff_present hkind hfault hdistinct husual⟩
    exact Block.rank_argName hkind hfault hdistinct husual (Block.mem_keys_of_value? hvalue)

/-- A call of a button's method with some slots. -/
def movingCall (values : List (String × Option Block)) : Block :=
  { kind := .methodCall, type := "component_method",
    mutation := [("instance_name", "Button1"), ("method_name", "Move")], values := values }

/-- A procedure that calls it. -/
def movingProcedure (values : List (String × Option Block)) : Block.Procedure :=
  { name := "f", body := [movingCall values] }

/-- A layout with one button. -/
def buttonTarget : Target :=
  { package := "app",
    components := [("Button1", ⟨"Button1", "Button", "button1",
      { tag := "Button", idStem := "button" }⟩)] }

/-- The number seven. -/
def seven : Block := { kind := .number, type := "math_number", fields := [("NUM", "7")] }

theorem movingCall_mem_sites (values : List (String × Option Block)) :
    (⟨.procedure (movingProcedure values), [], .act, movingCall values⟩ : Site)
      ∈ Block.Program.sites ⟨[], [], [movingProcedure values]⟩ := by
  have hroots : roots ⟨[], [], [movingProcedure values]⟩
      = [.procedure (movingProcedure values)] := rfl
  rw [Block.Program.sites, hroots]
  refine mem_flatMap.2 ⟨_, mem_cons_self, ?_⟩
  refine mem_append_left _ (mem_flatMap.2 ⟨_, mem_cons_self, ?_⟩)
  exact mem_sitesIn.2 (.inl rfl)

/-- An empty slot that is there keeps the place of its argument, wherever it is written. -/
theorem empty_slot_keeps_place :
    (movingCall [("ARG1", some seven), ("ARG0", none)]).operandSlots[1]? = some "ARG1" ∧
    (∃ gap, (movingCall [("ARG1", some seven), ("ARG0", none)]).operandSlots[0]? = some gap ∧
      (movingCall [("ARG1", some seven), ("ARG0", none)]).value? gap = none) ∧
    (Defect.gap "ARG0" "component_method").report ∈ notes (buttonTarget.review
      (.ofBlocks ⟨[], [], [movingProcedure [("ARG1", some seven), ("ARG0", none)]]⟩)) := by
  have hfault : (movingCall [("ARG1", some seven), ("ARG0", none)]).fault? = none := by
    decide +kernel
  have hone : argNumber? "ARG1" = some 1 := by decide +kernel
  have husual : (movingCall [("ARG1", some seven), ("ARG0", none)]).HasUsualSlots := by
    intro slot hslot _
    rcases mem_cons.1 hslot with rfl | hslot
    · exact ⟨1, by decide +kernel⟩
    · exact ⟨0, (mem_singleton.1 hslot).trans (by decide +kernel)⟩
  have hheld : ∀ slot, ((movingCall [("ARG1", some seven), ("ARG0", none)]).value? slot).isSome →
      slot = "ARG1" := by
    intro slot hslot
    rcases mem_cons.1 (Block.mem_keys_of_value? hslot) with rfl | hmem
    · rfl
    · rw [mem_singleton.1 hmem] at hslot
      cases hslot
  obtain ⟨-, hwritten⟩ := arguments_in_place_iff_none_absent (t := buttonTarget)
    (movingCall_mem_sites [("ARG1", some seven), ("ARG0", none)]) rfl (by decide +kernel) rfl
  obtain ⟨-, -, ⟨hgaps, hreports⟩, -, hplain⟩ := hwritten hfault
  have hplace := (hplain husual).2.2 (by
    intro i hi j hj
    have hi' : argName i = argName 1 := (hheld _ hi).trans (by decide +kernel)
    obtain rfl := Allocator.append_toString_inj hi'
    obtain rfl : j = 0 := by omega
    decide +kernel)
  obtain ⟨hat, hbefore⟩ := hplace "ARG1" 1 ⟨hone, rfl⟩
  refine ⟨hat, hbefore 0 (by decide) ?_, hreports _ ?_⟩
  · rintro other ⟨hzero, hvalue⟩
    rw [hheld other hvalue, hone] at hzero
    cases hzero
  · rw [hgaps]
    refine mem_map.2 ⟨"ARG0", mem_filter.2 ⟨?_, rfl⟩, rfl⟩
    exact (Block.mem_operandSlots_iff rfl hfault).2 ⟨by decide +kernel, by decide +kernel⟩

/-- **An absent slot moves the argument behind it**, and nobody reports that. -/
theorem absent_slot_moves_argument :
    ¬ (movingCall [("ARG1", some seven)]).ArgumentsInPlace ∧
    lines buttonTarget ⟨[], [], [movingProcedure [("ARG1", some seven)]]⟩
      ⟨.procedure (movingProcedure [("ARG1", some seven)]), [], .act,
        movingCall [("ARG1", some seven)]⟩ = ["button1.move(7)"] ∧
    ∀ d ∈ notes (buttonTarget.review
      (.ofBlocks ⟨[], [], [movingProcedure [("ARG1", some seven)]]⟩)), d.code ≠ .missingValue := by
  refine ⟨fun hplace => ?_, by decide +kernel, by decide +kernel⟩
  have hone : (movingCall [("ARG1", some seven)]).HoldsArgument "ARG1" 1 :=
    ⟨by decide +kernel, rfl⟩
  have hslots : (movingCall [("ARG1", some seven)]).operandSlots[1]? = none := by decide +kernel
  rw [(hplace "ARG1" 1 hone).1] at hslots
  cases hslots

end Site
end ScreenForge
