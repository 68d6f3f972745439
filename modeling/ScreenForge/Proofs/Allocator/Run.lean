/-
# What an allocator answers

Calls come one after another, in any mixture.  What the answers to a whole sequence obey is derived
from what one call does.

A search may start behind the counter of its stem: other stems and exact names may take numbers of
this stem, before and behind the counter, but no name is ever given back, so nothing below a counter
becomes free again.
-/
import ScreenForge.Proofs.Allocator

namespace ScreenForge
namespace Allocator

open List

variable {given : List String} {a : Allocator} {name : String}

/-! ### The search for a number -/

/-- `Search given stem k n`: to count up from `k` until a number makes a new name ends at `n`. -/
inductive Search (given : List String) (stem : String) : Nat → Nat → Prop where
  | found {k : Nat} (h : stem ++ toString k ∉ given) : Search given stem k k
  | skip {k n : Nat} (h : stem ++ toString k ∈ given) (rest : Search given stem (k + 1) n) :
    Search given stem k n

/-- A search that ends at a free number has met no free one before. -/
theorem search_firstFree {issued : List String} (hsame : ∀ name, name ∈ issued ↔ name ∈ given)
    {stem : String} {fuel k : Nat} (h : stem ++ toString (firstFree issued stem fuel k) ∉ issued) :
    Search given stem k (firstFree issued stem fuel k) := by
  induction fuel generalizing k with
  | zero => exact .found fun hmem => h ((hsame _).2 hmem)
  | succ fuel ih =>
    unfold firstFree at h ⊢
    by_cases htaken : issued.contains (stem ++ toString k) = true
    · rw [if_pos htaken] at h ⊢
      exact .skip ((hsame _).1 (contains_iff_mem.1 htaken)) (ih h)
    · rw [if_neg htaken] at h ⊢
      exact .found fun hmem => h ((hsame _).2 hmem)

/-- The least positive number that makes a new name of a stem. -/
structure IsLeastFree (given : List String) (stem : String) (k : Nat) : Prop where
  pos : 0 < k
  free : stem ++ toString k ∉ given
  least : ∀ j, 0 < j → stem ++ toString j ∉ given → k ≤ j

theorem le_firstFree (issued : List String) (stem : String) (fuel k : Nat) :
    k ≤ firstFree issued stem fuel k := by
  induction fuel generalizing k with
  | zero => exact Nat.le_refl k
  | succ fuel ih =>
    unfold firstFree
    split
    · exact Nat.le_of_succ_le (ih (k + 1))
    · exact Nat.le_refl k

/-- **The next number of a stem lies behind its counter.** -/
theorem counter_lt_number (a : Allocator) (stem : String) : a.counter stem < a.number stem :=
  le_firstFree _ _ _ _

/-! ### One call -/

/-- A name that is taken is not given, and nothing changes. -/
theorem claim_of_mem (h : name ∈ a.issued) :
    a.claim name = (.error ⟨name⟩, a) := if_pos (has_iff.2 h)

/-- A name that is free is given. -/
theorem claim_of_not_mem (h : name ∉ a.issued) :
    a.claim name = (.ok name, a.add name) := if_neg fun hhas => h (has_iff.1 hhas)

theorem draw_eq (a : Allocator) (stem : String) :
    a.draw stem = (.ok (a.next stem).1, (a.next stem).2) :=
  claim_of_not_mem (a.not_mem_next stem)

/-- `next` always gives a name. -/
theorem serve_next (a : Allocator) (stem : String) :
    a.serve (.next stem) = (.ok (a.next stem).1, (a.next stem).2) := a.draw_eq stem

/-- `unique` always gives a name. -/
theorem serve_unique (a : Allocator) (stem : String) :
    a.serve (.unique stem) = (.ok (a.unique stem).1, (a.unique stem).2) := by
  rw [unique]
  by_cases h : a.has stem = true
  · rw [if_pos h, ← draw_eq]
    exact if_pos h
  · rw [if_neg h]
    exact (if_neg h).trans (claim_of_not_mem fun hmem => h (has_iff.2 hmem))

/-- The names among answers. -/
def names (answers : List (Except Collision String)) : List String :=
  answers.filterMap Except.toOption

theorem names_map_ok {α : Type} (f : α → String) (items : List α) :
    names (items.map fun i => .ok (f i)) = items.map f := by
  rw [names, filterMap_map]
  exact congrFun filterMap_eq_map items

/-- **A call gives at most one name, and that name is new.** -/
theorem issues_serve (a : Allocator) (call : Call) :
    a.Issues (names [(a.serve call).1]) (a.serve call).2 := by
  cases call with
  | next stem =>
    rw [serve_next]
    exact .single rfl (a.not_mem_next stem)
  | unique stem =>
    rw [serve_unique]
    exact a.issues_unique stem
  | claim name =>
    by_cases h : name ∈ a.issued
    · rw [serve, claim_of_mem h]
      exact .nil a
    · rw [serve, claim_of_not_mem h]
      exact .single rfl h

/-- Up to the counter of a stem every number makes a name that has been given. -/
def Reached (a : Allocator) : Prop :=
  ∀ stem k, 0 < k → k ≤ a.counter stem → stem ++ toString k ∈ a.issued

theorem reached_empty : empty.Reached :=
  fun _ _ hpos hle => absurd (Nat.lt_of_lt_of_le hpos hle) (Nat.lt_irrefl 0)

/-- **No free number is passed over.**  Up to the counter numbers are taken because they were
reached, and behind it because the search met them. -/
theorem Reached.mem_of_lt_number (h : a.Reached) {stem : String} {j : Nat} (hpos : 0 < j)
    (hlt : j < a.number stem) : stem ++ toString j ∈ a.issued := by
  by_cases hle : j ≤ a.counter stem
  · exact h stem j hpos hle
  · exact contains_iff_mem.1 (contains_of_lt_firstFree (by omega) hlt)

theorem Reached.add (h : a.Reached) (name : String) : (a.add name).Reached :=
  fun stem k hpos hle => mem_cons_of_mem _ (h stem k hpos hle)

/-- A search for a number keeps every number up to a counter taken. -/
theorem Reached.next (h : a.Reached) (stem : String) : (a.next stem).2.Reached := by
  intro other k hpos hle
  change k ≤ (a.advance stem (a.number stem)).counter other at hle
  rw [counter_advance] at hle
  split at hle
  · next heq =>
    subst heq
    rcases Nat.eq_or_lt_of_le hle with rfl | hlt
    · exact mem_cons_self
    · exact mem_cons_of_mem _ (h.mem_of_lt_number hpos hlt)
  · exact mem_cons_of_mem _ (h other k hpos hle)

/-- **A call keeps every number up to a counter taken.** -/
theorem Reached.serve (h : a.Reached) (call : Call) : (a.serve call).2.Reached := by
  cases call with
  | next stem =>
    rw [serve_next]
    exact h.next stem
  | unique stem =>
    rw [serve_unique, unique]
    split
    · exact h.next stem
    · exact h.add stem
  | claim name =>
    rw [Allocator.serve, claim]
    split
    · exact h
    · exact h.add name

/-! ### A sequence of calls -/

theorem serveAll_cons (a : Allocator) (call : Call) (rest : List Call) :
    a.serveAll (call :: rest) = ((a.serve call).1 :: ((a.serve call).2.serveAll rest).1,
      ((a.serve call).2.serveAll rest).2) := rfl

theorem serveAll_append (a : Allocator) (calls others : List Call) :
    a.serveAll (calls ++ others)
      = ((a.serveAll calls).1 ++ ((a.serveAll calls).2.serveAll others).1,
        ((a.serveAll calls).2.serveAll others).2) := by
  induction calls generalizing a with
  | nil => rfl
  | cons call calls ih =>
    rw [cons_append, serveAll_cons, serveAll_cons, ih]
    rfl

theorem length_serveAll (a : Allocator) (calls : List Call) :
    (a.serveAll calls).1.length = calls.length := by
  induction calls generalizing a with
  | nil => rfl
  | cons call calls ih => exact congrArg (· + 1) (ih _)

/-- **Calls give names that are new and differ.** -/
theorem issues_serveAll (a : Allocator) (calls : List Call) :
    a.Issues (names (a.serveAll calls).1) (a.serveAll calls).2 := by
  induction calls generalizing a with
  | nil => exact .nil a
  | cons call calls ih =>
    have hsplit : names (a.serveAll (call :: calls)).1
        = names [(a.serve call).1] ++ names ((a.serve call).2.serveAll calls).1 :=
      filterMap_append (l := [(a.serve call).1])
    rw [hsplit, serveAll_cons]
    exact (a.issues_serve call).trans (ih _)

/-- A run of calls keeps every number up to a counter taken. -/
theorem Reached.serveAll (h : a.Reached) (calls : List Call) : (a.serveAll calls).2.Reached := by
  induction calls generalizing a with
  | nil => exact h
  | cons call calls ih => exact ih (h.serve call)

/-! ### Numbers rise -/

/-- No counter goes back. -/
theorem counter_le_counter_next (a : Allocator) (stem other : String) :
    a.counter other ≤ (a.next stem).2.counter other := by
  change _ ≤ (a.advance stem (a.number stem)).counter other
  rw [counter_advance]
  split
  · next h => exact h ▸ Nat.le_of_lt (a.counter_lt_number other)
  · exact Nat.le_refl _

theorem counter_next_self (a : Allocator) (stem : String) :
    (a.next stem).2.counter stem = a.number stem := by
  change (a.advance stem (a.number stem)).counter stem = _
  rw [counter_advance, if_pos rfl]

/-- **Along a run the numbers that one stem is given rise**, whatever stems come between. -/
theorem exists_rising (a : Allocator) (stems : List String) :
    ∃ drawn : List (String × Nat), drawn.map Prod.fst = stems ∧
      (a.serveAll (stems.map .next)).1 = drawn.map (fun e => .ok (e.1 ++ toString e.2)) ∧
      (∀ e ∈ drawn, a.counter e.1 < e.2) ∧ drawn.Pairwise fun e f => e.1 = f.1 → e.2 < f.2 := by
  induction stems generalizing a with
  | nil => exact ⟨[], rfl, rfl, by simp, .nil⟩
  | cons stem rest ih =>
    obtain ⟨drawn, hstems, hanswers, habove, hrising⟩ := ih (a.next stem).2
    refine ⟨(stem, a.number stem) :: drawn, congrArg (stem :: ·) hstems, ?_, ?_, ?_⟩
    · rw [map_cons, serveAll_cons, serve_next, hanswers]
      rfl
    · refine forall_mem_cons.2 ⟨a.counter_lt_number stem, fun e he => ?_⟩
      exact Nat.lt_of_le_of_lt (a.counter_le_counter_next stem e.1) (habove e he)
    · refine pairwise_cons.2 ⟨fun e he heq => ?_, hrising⟩
      -- every later number of the stem lies above the counter, which is this number now
      have h := habove e he
      rwa [← heq, counter_next_self] at h

/-! ### The law -/

/-- The answers that a run gives to calls. -/
def answersTo (calls : List Call) : List (Except Collision String) := (empty.serveAll calls).1

/-- The allocator after calls. -/
def after (calls : List Call) : Allocator := (empty.serveAll calls).2

/-- **An allocator holds the names that it answered.** -/
theorem mem_issued_after {calls : List Call} :
    name ∈ (after calls).issued ↔ name ∈ names (answersTo calls) := by
  rw [after, (issues_serveAll empty calls).issued]
  simp [answersTo, empty]

/-- The answer is a stem with the least number that makes a new name, and the search for it, from
the counter on, ends there. -/
def AnswersNumbered (given : List String) (a : Allocator) (stem : String)
    (answer : Except Collision String) : Prop :=
  ∃ k, answer = .ok (stem ++ toString k) ∧ Search given stem (a.counter stem + 1) k ∧
    IsLeastFree given stem k

/-- What a call is answered after some names were given, and what becomes of the allocator. -/
def Answers (given : List String) (a : Allocator) (answer : Except Collision String)
    (b : Allocator) : Call → Prop
  | .next stem => AnswersNumbered given a stem answer
  | .unique stem =>
    (stem ∉ given → answer = .ok stem) ∧
      (stem ∈ given → AnswersNumbered given a stem answer ∧ (answer, b) = a.serve (.next stem))
  | .claim name =>
    (answer = .error ⟨name⟩ ↔ name ∈ given) ∧ (answer = .ok name ↔ name ∉ given) ∧
      (name ∈ given → b = a)

/-- `next` answers with the least number that makes a new name. -/
theorem answersNumbered_next (h : a.Reached) (hsame : ∀ name, name ∈ a.issued ↔ name ∈ given)
    (stem : String) : AnswersNumbered given a stem (.ok (a.next stem).1) := by
  have hfree : stem ++ toString (a.number stem) ∉ a.issued := a.not_mem_next stem
  refine ⟨a.number stem, rfl, search_firstFree hsame hfree,
    Nat.lt_of_le_of_lt (Nat.zero_le _) (a.counter_lt_number stem), fun hmem => ?_, ?_⟩
  · exact hfree ((hsame _).2 hmem)
  · intro j hpos hj
    refine Nat.le_of_not_lt fun hlt => hj ?_
    exact (hsame _).1 (h.mem_of_lt_number hpos hlt)

/-- **One call is answered as it should be**, if no number below a counter is free. -/
theorem answers_serve (h : a.Reached) (hsame : ∀ name, name ∈ a.issued ↔ name ∈ given)
    (call : Call) : Answers given a (a.serve call).1 (a.serve call).2 call := by
  cases call with
  | next stem =>
    rw [serve_next]
    exact answersNumbered_next h hsame stem
  | unique stem =>
    refine ⟨fun hnew => ?_, fun hgiven => ?_⟩
    · have hhas : ¬ a.has stem := fun hhas => hnew ((hsame _).1 (has_iff.1 hhas))
      rw [serve_unique, unique, if_neg hhas]
    · have hserve : a.serve (.unique stem) = a.serve (.next stem) :=
        if_pos (has_iff.2 ((hsame _).2 hgiven))
      rw [hserve]
      refine ⟨?_, rfl⟩
      rw [serve_next]
      exact answersNumbered_next h hsame stem
  | claim name =>
    by_cases hmem : name ∈ a.issued
    · have hgiven := (hsame _).1 hmem
      rw [serve, claim_of_mem hmem]
      exact ⟨iff_of_true rfl hgiven, iff_of_false (by simp) (not_not_intro hgiven), fun _ => rfl⟩
    · have hnew : name ∉ given := fun hgiven => hmem ((hsame _).2 hgiven)
      rw [serve, claim_of_not_mem hmem]
      exact ⟨iff_of_false (by simp) hnew, iff_of_true rfl hnew, fun hgiven => absurd hgiven hnew⟩

/-- **The law of names.**  In every sequence of calls the names that are given differ, and every
call among them is answered, with regard to the names given before it: `next` by the stem with the
least positive number that makes a new name, `unique` by the stem itself if it is new and as `next`
otherwise, `claim` by a collision exactly if the name is not new, which then changes nothing. -/
theorem names_given_once_and_least (before : List Call) (call : Call) (behind : List Call) :
    (names (answersTo (before ++ call :: behind))).Nodup ∧
      ∃ answer, (answersTo (before ++ call :: behind))[before.length]? = some answer ∧
        Answers (names (answersTo before)) (after before) answer (after (before ++ [call]))
          call := by
  refine ⟨(issues_serveAll empty _).nodup, ((after before).serve call).1, ?_, ?_⟩
  · rw [answersTo, serveAll_append, List.getElem?_append_right (Nat.le_of_eq (length_serveAll _ _)),
      length_serveAll, Nat.sub_self]
    rfl
  · have hafter : after (before ++ [call]) = ((after before).serve call).2 := by
      rw [after, serveAll_append]
      rfl
    rw [hafter]
    exact answers_serve (reached_empty.serveAll before) (fun _ => mem_issued_after) call

/-- A number of another stem, and an exact name, are both skipped. -/
example : names (answersTo
      [.next "a1", .claim "a2", .next "a", .next "a", .claim "a2", .unique "a"])
    = ["a11", "a2", "a1", "a3", "a"] := by decide

end Allocator
end ScreenForge
