/-
# Journals without a deadline

Without a deadline a journal cannot time out, so what a stage survives is a question about the
faults in its journal (`stops`).
-/
import ScreenForge.Journal

namespace ScreenForge
namespace Journal

variable {journal : List Entry} {report : List Diagnostic} {timer : Timer}

/-- The fault that an entry stops at. -/
def Entry.fault? : Entry → Option Fault
  | .stop cause => some cause
  | _ => none

/-- The faults in a journal, in order. -/
def stops (journal : List Entry) : List Fault := journal.filterMap Entry.fault?

@[simp] theorem stops_nil : stops [] = [] := rfl

@[simp] theorem stops_look (stage : Stage) (journal : List Entry) :
    stops (.look stage :: journal) = stops journal := rfl

@[simp] theorem stops_note (d : Diagnostic) (journal : List Entry) :
    stops (.note d :: journal) = stops journal := rfl

@[simp] theorem stops_stop (cause : Fault) (journal : List Entry) :
    stops (.stop cause :: journal) = cause :: stops journal := rfl

@[simp] theorem stops_append (j k : List Entry) : stops (j ++ k) = stops j ++ stops k :=
  List.filterMap_append

/-- What an entry notes. -/
def Entry.noted? : Entry → Option Diagnostic
  | .note d => some d
  | _ => none

theorem notes_eq_filterMap (journal : List Entry) :
    notes journal = journal.filterMap Entry.noted? := by
  induction journal with
  | nil => rfl
  | cons e rest ih =>
    cases e with
    | look stage => exact ih
    | note d => exact congrArg (d :: ·) ih
    | stop cause => exact ih

theorem stops_flatMap {α : Type} (items : List α) (f : α → List Entry) :
    stops (items.flatMap f) = items.flatMap fun a => stops (f a) := by
  simp only [stops, List.filterMap_flatMap]

theorem notes_flatMap {α : Type} (items : List α) (f : α → List Entry) :
    notes (items.flatMap f) = items.flatMap fun a => notes (f a) := by
  simp only [notes_eq_filterMap, List.filterMap_flatMap]

/-- **A journal that comes to its end reports its notes**, whatever the timer. -/
theorem eq_notes_of_settle (h : settle timer journal = .ok report) : report = notes journal := by
  unfold settle at h
  split at h
  · cases h
  · exact (Except.ok.inj h).symm

/-- Without a deadline a journal ends in the first fault that it holds. -/
theorem stopped?_unlimited (index : Nat) (journal : List Entry) :
    stopped? .unlimited index journal = (stops journal).head? := by
  induction journal generalizing index with
  | nil => rfl
  | cons e rest ih =>
    cases e with
    | look stage | note d => exact ih index
    | stop cause => rfl

/-- **Without a deadline a journal comes to its end exactly if it holds no fault.** -/
theorem settle_unlimited_eq_ok_iff :
    settle .unlimited journal = .ok report ↔ stops journal = [] ∧ report = notes journal := by
  rw [settle, stopped?_unlimited]
  cases stops journal with
  | nil => simp [eq_comm]
  | cons fault rest => simp

/-- **Otherwise it ends in the first one.** -/
theorem settle_unlimited_eq_error_iff {fault : Fault} :
    settle .unlimited journal = .error fault ↔ (stops journal).head? = some fault := by
  rw [settle, stopped?_unlimited]
  cases stops journal with
  | nil => simp
  | cons first rest => simp

/-! ### Under any timer -/

/-- A journal that comes to its end under some timer holds no fault. -/
theorem stops_eq_nil_of_stopped? (h : stopped? timer 0 journal = none) : stops journal = [] := by
  obtain heq | ⟨stage, seconds, htimeout⟩ := stopped?_eq_or_timeout timer 0 journal
  · rw [h, stopped?_unlimited] at heq
    exact List.head?_eq_none_iff.1 heq.symm
  · rw [h] at htimeout
    cases htimeout

/-- A journal that comes to its end holds no fault. -/
theorem stops_eq_nil_of_settle (h : settle timer journal = .ok report) : stops journal = [] := by
  rw [settle] at h
  split at h
  · cases h
  · next hstopped => exact stops_eq_nil_of_stopped? hstopped

/-- **A timer changes nothing but for a timeout.** -/
theorem settle_eq_or_timeout (timer : Timer) (journal : List Entry) :
    settle timer journal = settle .unlimited journal
      ∨ ∃ stage seconds, settle timer journal = .error (.timeout stage seconds) := by
  obtain heq | ⟨stage, seconds, htimeout⟩ := stopped?_eq_or_timeout timer 0 journal
  · exact .inl (by rw [settle, heq, settle])
  · exact .inr ⟨stage, seconds, by rw [settle, htimeout]⟩

end Journal
end ScreenForge
