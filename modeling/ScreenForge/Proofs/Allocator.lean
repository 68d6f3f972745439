/-
# A name is given once

`next` looks for a free number and stops after as many tries as there are names given.  If it used
them up, every try met a name that is taken, and those are all the names there are; the number
behind them is free.
-/
import ScreenForge.Identifier

namespace ScreenForge
namespace Allocator

open List

variable (issued : List String) (a : Allocator) (stem : String)

/-- A stem with a number tells the number. -/
theorem append_toString_inj {stem : String} {m n : Nat}
    (h : stem ++ toString m = stem ++ toString n) : m = n := by
  rw [String.append_right_inj, Nat.toString_eq_ofList_toDigits, Nat.toString_eq_ofList_toDigits,
    String.ofList_inj] at h
  rw [← Nat.ofDigitChars_ten_toDigits (n := m), h, Nat.ofDigitChars_ten_toDigits]

/-- The search stops at a free number, or after all its tries. -/
theorem firstFree_cases (fuel k : Nat) : stem ++ toString (firstFree issued stem fuel k) ∉ issued ∨
      firstFree issued stem fuel k = k + fuel := by
  induction fuel generalizing k with
  | zero => exact Or.inr rfl
  | succ fuel ih =>
    unfold firstFree
    split
    · rcases ih (k + 1) with h | h
      · exact Or.inl h
      · exact Or.inr (by omega)
    · next h => exact Or.inl (by simpa using h)

/-- **The search stops at a free number.** -/
theorem not_mem_firstFree (k : Nat) :
    stem ++ toString (firstFree issued stem issued.length k) ∉ issued := by
  rcases firstFree_cases issued stem issued.length k with h | h
  · exact h
  -- all tries failed: the names from the first try to the last are one more than those given
  · intro hmem
    let numbered := (List.range (issued.length + 1)).map fun i => stem ++ toString (k + i)
    have hsub : numbered ⊆ issued := by
      intro name hname
      obtain ⟨i, hi, rfl⟩ := mem_map.1 hname
      have hle : i ≤ issued.length := Nat.le_of_lt_succ (mem_range.1 hi)
      rcases Nat.eq_or_lt_of_le hle with rfl | hlt
      · exact h ▸ hmem
      · have hj : k + i < firstFree issued stem issued.length k := by omega
        simpa using contains_of_lt_firstFree (by omega) hj
    have hnodup : numbered.Nodup := by
      refine pairwise_map.2 (nodup_range.imp fun hne he => hne ?_)
      have := append_toString_inj he
      omega
    have := hnodup.length_le_of_subset hsub
    simp only [numbered, length_map, length_range] at this
    omega

/-- **The numbered name is new.** -/
theorem not_mem_next : (a.next stem).1 ∉ a.issued :=
  not_mem_firstFree a.issued stem _

/-- **A name that is asked for is new, and is the only one added.** -/
theorem not_mem_unique : (a.unique stem).1 ∉ a.issued := by
  unfold unique
  split
  · exact a.not_mem_next stem
  · next h => simpa [has] using h

/-- `Issues a names b`: on the way from `a` to `b` exactly these names are given, and each of them
is new. -/
structure Issues (a : Allocator) (names : List String) (b : Allocator) : Prop where
  issued : b.issued = names.reverse ++ a.issued
  nodup : names.Nodup
  fresh : ∀ name ∈ names, name ∉ a.issued

theorem Issues.nil : Issues a [] a :=
  ⟨rfl, nodup_nil, fun _ h => absurd h not_mem_nil⟩

/-- **Runs of requests are put one behind another.** -/
theorem Issues.trans {a b c : Allocator} {names others : List String} (h : Issues a names b)
    (h' : Issues b others c) : Issues a (names ++ others) c := by
  have hfresh : ∀ name ∈ others, name ∉ names ∧ name ∉ a.issued := by
    intro name hname
    have := h'.fresh name hname
    rw [h.issued, mem_append, mem_reverse, not_or] at this
    exact this
  refine ⟨?_, ?_, ?_⟩
  · rw [h'.issued, h.issued, reverse_append, append_assoc]
  · refine nodup_append.2 ⟨h.nodup, h'.nodup, fun name hname other hother he => ?_⟩
    exact (hfresh other hother).1 (he ▸ hname)
  · intro name hname
    rcases mem_append.1 hname with hname | hname
    · exact h.fresh name hname
    · exact (hfresh name hname).2

/-- A single name that is new. -/
theorem Issues.single {a b : Allocator} {name : String} (h : b.issued = name :: a.issued)
    (hnew : name ∉ a.issued) : Issues a [name] b := by
  refine ⟨h, by simp, fun other hother => ?_⟩
  rw [mem_singleton.1 hother]
  exact hnew

/-- `unique` gives out one new name. -/
theorem issues_unique : Issues a [(a.unique stem).1] (a.unique stem).2 :=
  .single (by unfold unique; split <;> rfl) (a.not_mem_unique stem)

end Allocator
end ScreenForge
