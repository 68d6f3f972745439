/-
# Readings at once

The entries that a project needs are read at once, and the first failure in time is told.  Which one
that is, the pace of the readings decides.  A refused archive is told with a message, an unexpected
fault with none (`told?`), so the pace shows exactly if two entries fail with different words
(`Races`).
-/
import Mathlib.Tactic.ByContra
import ScreenForge.Project.Archive

namespace ScreenForge
namespace Project

open List

variable {entries : List Entry} {e : Entry}

/-- An entry can be read exactly if it has a content. -/
theorem failure?_eq_none_iff : e.failure? = none ↔ ∃ data, e.content = .ok data := by
  cases hcontent : e.content with
  | ok data => simp [Entry.failure?, hcontent]
  | error cause => cases cause <;> simp [Entry.failure?, hcontent]

/-- **What stops the readings**: a failure of an entry that fails no later than any other. -/
theorem exists_of_firstFailure? {pace : Entry → Nat} {error : ArchiveError}
    (h : firstFailure? pace entries = some error) :
    ∃ e ∈ entries, e.failure? = some error
      ∧ ∀ f ∈ entries, f.failure? ≠ none → pace e ≤ pace f := by
  obtain ⟨e, hleast, herror⟩ := Option.bind_eq_some_iff.1 h
  refine ⟨e, (mem_filter.1 (List.minOn?_mem hleast)).1, herror, fun f hf hfails => ?_⟩
  have hmem : f ∈ entries.filter fun e => e.failure?.isSome :=
    mem_filter.2 ⟨hf, Option.isSome_iff_ne_none.2 hfails⟩
  simpa only [hleast, Option.get_some] using List.apply_get_minOn?_le_of_mem (f := pace) hmem

/-- No failure is told if no entry fails. -/
theorem firstFailure?_eq_none_iff {pace : Entry → Nat} :
    firstFailure? pace entries = none ↔ ∀ e ∈ entries, e.failure? = none := by
  constructor
  · intro h e he
    by_contra hfails
    have hmem : e ∈ entries.filter fun e => e.failure?.isSome :=
      mem_filter.2 ⟨he, Option.isSome_iff_ne_none.2 hfails⟩
    obtain ⟨first, hfirst⟩ := Option.isSome_iff_exists.1 (List.isSome_minOn?_of_mem (f := pace) hmem)
    have hnone : first.failure? = none := Option.bind_eq_none_iff.1 h first hfirst
    exact absurd hnone (Option.isSome_iff_ne_none.1 (mem_filter.1 (List.minOn?_mem hfirst)).2)
  · intro h
    refine Option.eq_none_iff_forall_ne_some.2 fun error herror => ?_
    obtain ⟨e, he, hfails, -⟩ := exists_of_firstFailure? herror
    exact Option.some_ne_none _ (hfails.symm.trans (h e he))

/-- **Each failure can be the first.** -/
theorem exists_pace {error : ArchiveError} (he : e ∈ entries) (herror : e.failure? = some error) :
    ∃ pace, firstFailure? pace entries = some error := by
  let pace : Entry → Nat := fun f => if f.failure? = some error then 0 else 1
  refine ⟨pace, ?_⟩
  cases hfirst : firstFailure? pace entries with
  | none => exact absurd (firstFailure?_eq_none_iff.1 hfirst e he) (by simp [herror])
  | some other =>
    obtain ⟨f, -, hother, hleast⟩ := exists_of_firstFailure? hfirst
    have hle : pace f ≤ pace e := hleast e he (by simp [herror])
    have hsame : f.failure? = some error := by
      by_contra hne
      simp [pace, hne, herror] at hle
    exact hother.symm.trans hsame

/-! ### Races -/

/-- The message of a refused archive; none if its reading breaks off. -/
def ArchiveError.told? : ArchiveError → Option String
  | .unexpected _ => none
  | e => some e.message

/-- **The readings of an archive race**: two entries that are needed fail with different words. -/
def Races (unpack : ByteArray → Except Archive.Fault (List Entry)) (screen : String)
    (limits : ArchiveLimits) (data : ByteArray) : Prop :=
  ∃ entries p, unpack data = .ok entries ∧ planOf screen limits (filesOf entries) = .ok p
    ∧ ∃ e ∈ p.wanted, ∃ f ∈ p.wanted, ∃ a b, e.failure? = some a ∧ f.failure? = some b
      ∧ a.told? ≠ b.told?

variable {unpack : ByteArray → Except Archive.Fault (List Entry)} {screen : String}
  {limits : ArchiveLimits} {data : ByteArray}

/-- **Without a race the pace is not told.** -/
theorem read_alike (h : ¬ Races unpack screen limits data) (pace pace' : Entry → Nat) :
    read data screen limits ⟨unpack, pace⟩ = read data screen limits ⟨unpack, pace'⟩
      ∨ ∃ a b, read data screen limits ⟨unpack, pace⟩ = .error a
        ∧ read data screen limits ⟨unpack, pace'⟩ = .error b ∧ a.told? = b.told? := by
  cases hunpack : unpack data with
  | error fault =>
    simp only [read, hunpack]
    cases fault <;> exact .inl rfl
  | ok entries =>
    cases hplan : planOf screen limits (filesOf entries) with
    | error error => exact .inl (by simp only [read, hunpack, select, hplan])
    | ok p =>
      simp only [read, hunpack, select, hplan]
      cases hfirst : firstFailure? pace p.wanted with
      | none =>
        have hnone : firstFailure? pace' p.wanted = none :=
          firstFailure?_eq_none_iff.2 (firstFailure?_eq_none_iff.1 hfirst)
        exact .inl (by rw [hnone])
      | some a =>
        obtain ⟨e, he, hea, -⟩ := exists_of_firstFailure? hfirst
        cases hother : firstFailure? pace' p.wanted with
        | none =>
          have hnone := firstFailure?_eq_none_iff.1 hother e he
          exact absurd (hea.symm.trans hnone) (Option.some_ne_none a)
        | some b =>
          obtain ⟨f, hf, hfb, -⟩ := exists_of_firstFailure? hother
          refine .inr ⟨a, b, rfl, rfl, ?_⟩
          by_contra htold
          exact h ⟨entries, p, hunpack, hplan, e, he, f, hf, a, b, hea, hfb, htold⟩

/-- **A race is told in two ways.** -/
theorem exists_paces_of_races (h : Races unpack screen limits data) :
    ∃ pace pace' a b, read data screen limits ⟨unpack, pace⟩ = .error a
      ∧ read data screen limits ⟨unpack, pace'⟩ = .error b ∧ a.told? ≠ b.told? := by
  obtain ⟨entries, p, hunpack, hplan, e, he, f, hf, a, b, hea, hfb, htold⟩ := h
  obtain ⟨pace, hfirst⟩ := exists_pace he hea
  obtain ⟨pace', hother⟩ := exists_pace hf hfb
  refine ⟨pace, pace', a, b, ?_, ?_, htold⟩
  · simp only [read, hunpack, select, hplan, hfirst]
  · simp only [read, hunpack, select, hplan, hother]

end Project
end ScreenForge
