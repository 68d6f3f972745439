/-
# Metrics agree with the conversions

| end | conversions and screens | durations | diagnostics |
| --- | --- | --- | --- |
| converted | `success` | one | those of the project |
| the screen failed | `failed` | one | none |
| timeout | `timeout` | one | none |
| any other fault | nothing | nothing | nothing |
-/
import ScreenForge.Conversion.Project

namespace ScreenForge

open List

namespace Binary64

theorem ofRatio_ne_nan (negative : Bool) (num den : Nat) : ofRatio negative num den ≠ .nan := by
  unfold ofRatio
  dsimp only
  split
  · exact Binary64.noConfusion
  · split <;> split <;> exact Binary64.noConfusion

end Binary64

namespace Histogram

/-! ### Buckets -/

variable {h : Histogram}

theorem length_place (x : Binary64) (bs : List Binary64) (ns : List Nat) :
    (place x bs ns).length = ns.length := by
  fun_induction place x bs ns with
  | case1 => rfl
  | case2 => rfl
  | case3 => rfl
  | case4 _ _ _ _ _ ih => simp only [length_cons, ih]

/-- A number is placed once if there is a bucket behind the last bound. -/
theorem sum_place {x : Binary64} (hx : x ≠ .nan) {bs : List Binary64} {ns : List Nat}
    (h : bs.length < ns.length) :
    (place x bs ns).foldr (· + ·) 0 = ns.foldr (· + ·) 0 + 1 := by
  fun_induction place x bs ns with
  | case1 => exact absurd h (Nat.not_lt_zero _)
  | case2 n rest =>
    rw [if_neg hx, foldr_cons, foldr_cons]
    omega
  | case3 b bs n rest _ =>
    rw [foldr_cons, foldr_cons]
    omega
  | case4 b bs n rest _ ih =>
    rw [foldr_cons, foldr_cons, ih (Nat.lt_of_succ_lt_succ h)]
    omega

/-- Whether there is a bucket for each bound and one behind the last. -/
def Complete (h : Histogram) : Prop := h.placed.length = bounds.length + 1

theorem Complete.observe (hc : h.Complete) (x : Binary64) : (h.observe x).Complete :=
  (length_place x bounds h.placed).trans hc

/-- An observation is counted once. -/
theorem Complete.count_observe (hc : h.Complete) {x : Binary64} (hx : x ≠ .nan) :
    (h.observe x).count = h.count + 1 := by
  refine sum_place hx ?_
  rw [hc]
  exact Nat.lt_succ_self _

theorem le_of_mem_sums {acc n : Nat} {ns : List Nat} (h : n ∈ sums acc ns) : acc ≤ n := by
  induction ns generalizing acc with
  | nil => exact absurd h not_mem_nil
  | cons k rest ih =>
    rcases mem_cons.1 h with rfl | h
    · exact Nat.le_add_right acc k
    · exact Nat.le_trans (Nat.le_add_right acc k) (ih h)

/-- Cumulative counts do not fall. -/
theorem pairwise_sums (acc : Nat) (ns : List Nat) : (sums acc ns).Pairwise (· ≤ ·) := by
  induction ns generalizing acc with
  | nil => exact List.Pairwise.nil
  | cons k rest ih => exact pairwise_cons.2 ⟨fun n hn => le_of_mem_sums hn, ih _⟩

theorem length_sums (acc : Nat) (ns : List Nat) : (sums acc ns).length = ns.length := by
  induction ns generalizing acc with
  | nil => rfl
  | cons k rest ih => rw [sums, length_cons, ih, length_cons]

theorem getLast?_sums (acc : Nat) (k : Nat) (ns : List Nat) :
    (sums acc (k :: ns)).getLast? = some (acc + (k :: ns).foldr (· + ·) 0) := by
  induction ns generalizing acc k with
  | nil => rfl
  | cons n rest ih =>
    rw [sums, sums, List.getLast?_cons_cons, ← sums, ih]
    simp only [foldr_cons, Nat.add_assoc]

/-- **The last bucket counts all.** -/
theorem Complete.getLast?_cumulative (hc : h.Complete) : h.cumulative.getLast? = some h.count := by
  obtain ⟨placed⟩ := h
  cases placed with
  | nil => cases hc
  | cons n rest => exact (getLast?_sums 0 n rest).trans (by rw [Nat.zero_add, count])

theorem Complete.length_cumulative (hc : h.Complete) : h.cumulative.length = boundNames.length := by
  rw [cumulative, length_sums, hc, boundNames, length_append, length_map]
  rfl

end Histogram

namespace Tally

/-- What a label counts after one more of each of some. -/
theorem count_foldl_add {ι : Type} (label : ι → String) (items : List ι) (tally : Tally String)
    (key : String) : count key (items.foldl (fun t i => t.add (label i)) tally)
      = count key tally + items.countP fun i => label i == key := by
  induction items generalizing tally with
  | nil => rfl
  | cons i rest ih =>
    rw [foldl_cons, ih, count_add, countP_cons]
    simp only [beq_iff_eq]
    omega

end Tally

namespace Conversion

variable (calls : List Call)

/-! ### Calls -/

/-- A conversion that was asked for, and the nanoseconds that it took. -/
structure Call where
  table : Component.Table
  settings : Settings
  clock : Clock
  source : Project.Source
  name : Option String
  elapsed : Nat

/-- How a call ended. -/
def Call.result (c : Call) : Except Fault (Outcome Converted) :=
  convertProject c.table c.settings c.clock c.source c.name

/-- The project that a call returned. -/
def Call.project? (c : Call) : Option Converted :=
  match c.result with
  | .ok (.converted project) => some project
  | _ => none

/-- **The metrics after calls in order**, from metrics that are new. -/
def recorded (calls : List Call) : Metrics :=
  calls.foldl (fun m c => record c.result c.elapsed m) {}

/-- The diagnostics of all projects that were returned. -/
def returned (calls : List Call) : List Diagnostic :=
  (calls.filterMap Call.project?).flatMap Converted.diagnostics

/-- How many calls ended in a status. -/
def ended (status : String) (calls : List Call) : Nat :=
  calls.countP fun c => statusOf c.result == some status

/-- The statuses in which a conversion ends. -/
def statuses : List String := ["success", "failed", "timeout"]

/-- Every status is one of the three that are counted. -/
theorem mem_statuses {α : Type} {result : Except Fault (Outcome α)} {status : String}
    (h : statusOf result = some status) : status ∈ statuses := by
  unfold statusOf at h
  split at h
  · exact Option.some.inj h ▸ by decide
  · exact Option.some.inj h ▸ by decide
  · exact Option.some.inj h ▸ by decide
  · cases h

theorem diagnosticsOf_result (c : Call) :
    diagnosticsOf c.result = (c.project?.map Converted.diagnostics).getD [] := by
  rw [Call.project?]
  rcases c.result with fault | (project | failure) <;> rfl

theorem returned_append_singleton (c : Call) :
    returned (calls ++ [c]) = returned calls ++ diagnosticsOf c.result := by
  rw [returned, filterMap_append, flatMap_append, ← returned, diagnosticsOf_result]
  cases h : c.project? <;> simp [h]

theorem ended_append_singleton (status : String) (calls : List Call) (c : Call) :
    ended status (calls ++ [c])
      = ended status calls + if statusOf c.result = some status then 1 else 0 := by
  rw [ended, countP_append, ← ended]
  simp [countP_cons]

/-! ### What one record changes -/

/-- Only the counter of diagnostics is touched by diagnostics. -/
theorem foldl_addDiagnostic (ds : List Diagnostic) (m : Metrics) :
    ds.foldl (fun m d => m.addDiagnostic d.code.name) m
      = { m with diagnostics := ds.foldl (fun t d => t.add d.code.name) m.diagnostics } := by
  induction ds generalizing m with
  | nil => rfl
  | cons d rest ih => exact ih _

/-! ### Agreement -/

/-- **Whether metrics are what the ends of calls say.** -/
structure Agrees (m : Metrics) (calls : List Call) : Prop where
  /-- Conversions and screens are counted alike, status by status. -/
  screens : m.screens = m.conversions
  conversions : ∀ status, m.conversions.count status = ended status calls
  total : m.conversions.total = calls.countP fun c => (statusOf c.result).isSome
  complete : m.durations.Complete
  /-- Every conversion that is counted has a duration. -/
  durations : m.durations.count = m.conversions.total
  diagnostics : ∀ code : Diagnostic.Code,
    m.diagnostics.count code.name = Diagnostic.count code (returned calls)

theorem code_name_beq (d : Diagnostic) (code : Diagnostic.Code) :
    (d.code.name == code.name) = (d.code == code) := by
  rw [Bool.eq_iff_iff, beq_iff_eq, beq_iff_eq]
  constructor
  · intro h
    have hcode := Diagnostic.Code.ofName?_name d.code
    rw [h, Diagnostic.Code.ofName?_name] at hcode
    exact (Option.some.inj hcode).symm
  · exact congrArg Diagnostic.Code.name

/-- **Recording a call keeps the agreement.** -/
theorem Agrees.record {m : Metrics} {calls : List Call} (h : Agrees m calls) (c : Call) :
    Agrees (record c.result c.elapsed m) (calls ++ [c]) := by
  unfold Conversion.record
  cases hstatus : statusOf c.result with
  | none =>
    have hproject : diagnosticsOf c.result = [] := by
      unfold diagnosticsOf
      split
      · next project heq =>
        rw [heq] at hstatus
        cases hstatus
      · rfl
    refine { h with conversions := fun status => ?_, total := ?_, diagnostics := fun code => ?_ }
    · rw [ended_append_singleton, hstatus, if_neg (Option.some_ne_none status).symm]
      exact h.conversions status
    · rw [countP_append, h.total]
      simp [hstatus]
    · rw [returned_append_singleton, hproject, append_nil]
      exact h.diagnostics code
  | some status =>
    simp only [foldl_addDiagnostic, Metrics.addScreen, Metrics.addConversion]
    constructor
    case screens => exact congrArg (Tally.add status) h.screens
    case conversions =>
      intro other
      rw [Tally.count_add, h.conversions, ended_append_singleton, hstatus]
      simp only [Option.some.injEq]
    case total =>
      rw [Tally.total_add, h.total, countP_append]
      simp [hstatus]
    case complete => exact h.complete.observe _
    case durations =>
      have hcount := h.complete.count_observe
        (Binary64.ofRatio_ne_nan false c.elapsed 1000000000)
      rw [hcount, h.durations, Tally.total_add]
    case diagnostics =>
      intro code
      rw [Tally.count_foldl_add, h.diagnostics, returned_append_singleton]
      simp only [Diagnostic.count, countP_append, code_name_beq]

/-- **The metrics after any calls are what the ends of the calls say.** -/
theorem agrees_recorded : Agrees (recorded calls) calls := by
  -- the calls that are recorded already are a front of the list
  have hrun : ∀ (rest done : List Call) (m : Metrics), Agrees m done →
      Agrees (rest.foldl (fun m c => Conversion.record c.result c.elapsed m) m) (done ++ rest) := by
    intro rest
    induction rest with
    | nil => exact fun done m h => (append_nil done).symm ▸ h
    | cons c rest ih =>
      intro done m h
      rw [foldl_cons, append_cons]
      exact ih _ _ (h.record c)
  exact hrun calls [] {} ⟨rfl, fun _ => rfl, rfl, rfl, rfl, fun _ => rfl⟩

/-- The calls that ended in a status, status by status. -/
theorem sum_ended : (statuses.map fun status => ended status calls).foldr (· + ·) 0
      = calls.countP fun c => (statusOf c.result).isSome := by
  induction calls with
  | nil => rfl
  | cons c rest ih =>
    simp only [statuses, map_cons, map_nil, foldr_cons, foldr_nil, ended, countP_cons] at ih ⊢
    rw [← ih]
    cases h : statusOf c.result with
    | none => simp
    | some status =>
      have hmem := mem_statuses h
      simp only [statuses, mem_cons, not_mem_nil, or_false] at hmem
      rcases hmem with rfl | rfl | rfl <;> simp <;> omega

/-- **Metrics stay consistent.**  After any calls, whatever their ends, conversions and screens are
counted alike in every status, each as often as calls ended in it.  The durations are as many as the
conversions of all statuses; the buckets never decrease, there is one for every bound that is shown,
and the last one counts all.  The diagnostics of each code are those of the projects returned. -/
theorem metrics_agree_with_calls (calls : List Call) :
    (∀ status, (recorded calls).conversions.count status = ended status calls ∧
      (recorded calls).screens.count status = (recorded calls).conversions.count status) ∧
    (recorded calls).durations.count = (recorded calls).conversions.total ∧
    (recorded calls).durations.count = (statuses.map fun status =>
      (recorded calls).conversions.count status).foldr (· + ·) 0 ∧
    (recorded calls).durations.cumulative.Pairwise (· ≤ ·) ∧
    (recorded calls).durations.cumulative.length = Histogram.boundNames.length ∧
    (recorded calls).durations.cumulative.getLast? = some (recorded calls).durations.count ∧
    ∀ code : Diagnostic.Code, (recorded calls).diagnostics.count code.name
      = Diagnostic.count code (returned calls) := by
  have h := agrees_recorded calls
  refine ⟨fun status => ⟨h.conversions status, by rw [h.screens]⟩, h.durations, ?_,
    Histogram.pairwise_sums _ _, h.complete.length_cumulative, h.complete.getLast?_cumulative,
    h.diagnostics⟩
  rw [h.durations, h.total, ← sum_ended]
  simp only [h.conversions]

end Conversion
end ScreenForge
