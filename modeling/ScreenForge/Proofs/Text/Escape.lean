/-
# Escapes

A character is escaped if it stands behind an odd number of backslashes (`Escaped`).  A text of
plain characters and pairs of a backslash and what it escapes (`Paired`) has every other character
escaped, and ends outside any escape.
-/
import Mathlib.Data.List.Basic

namespace ScreenForge
namespace Text

open List

variable {s front : List Char} {c : Char} {plain : Char → Bool}

/-! ### Escaped characters -/

/-- How many backslashes a text ends with. -/
def slashes (s : List Char) : Nat := (s.reverse.takeWhile (· == '\\')).length

/-- A character stands in a text only behind an odd number of backslashes. -/
def Escaped (c : Char) (s : List Char) : Prop :=
  ∀ before after, s = before ++ c :: after → slashes before % 2 = 1

/-- Plain characters, and pairs of a backslash and the character that it escapes. -/
inductive Paired (plain : Char → Bool) : List Char → Prop
  | nil : Paired plain []
  | char {c rest} (hc : plain c = true) (hrest : Paired plain rest) : Paired plain (c :: rest)
  | pair (e) {rest} (hrest : Paired plain rest) : Paired plain ('\\' :: e :: rest)

theorem slashes_concat (s : List Char) (c : Char) :
    slashes (s ++ [c]) = if c = '\\' then slashes s + 1 else 0 := by
  by_cases hc : c = '\\' <;> simp [slashes, hc]

theorem slashes_char (hc : plain c) (hslash : plain '\\' = false) (front : List Char) :
    slashes (front ++ [c]) = 0 := by
  have hne : c ≠ '\\' := by
    rintro rfl
    rw [hslash] at hc
    cases hc
  rw [slashes_concat, if_neg hne]

/-- A pair ends outside any escape. -/
theorem slashes_pair (h : slashes front % 2 = 0) (e : Char) :
    slashes (front ++ ['\\'] ++ [e]) % 2 = 0 := by
  rw [slashes_concat, slashes_concat, if_pos rfl]
  split
  · omega
  · rfl

theorem paired_of_all (h : ∀ c ∈ s, plain c) : Paired plain s := by
  induction s with
  | nil => exact .nil
  | cons c s ih =>
    obtain ⟨hc, hs⟩ := forall_mem_cons.1 h
    exact .char hc (ih hs)

theorem Paired.append {u : List Char} (hs : Paired plain s) (hu : Paired plain u) :
    Paired plain (s ++ u) := by
  induction hs with
  | nil => exact hu
  | char hc _ ih => exact .char hc ih
  | pair e _ ih => exact .pair e ih

/-- **Pairs end outside any escape**, also behind a text that does. -/
theorem Paired.slashes_append (hs : Paired plain s) (hslash : plain '\\' = false)
    (front : List Char) (hfront : slashes front % 2 = 0) : slashes (front ++ s) % 2 = 0 := by
  induction hs generalizing front with
  | nil => rwa [append_nil]
  | char hc _ ih =>
    rw [append_cons]
    exact ih _ (by rw [slashes_char hc hslash])
  | pair e _ ih =>
    rw [append_cons, append_cons]
    exact ih _ (slashes_pair hfront e)

/-- **What is not plain is escaped.** -/
theorem Paired.escaped (hs : Paired plain s) (hslash : plain '\\' = false) (hc : plain c = false)
    (hne : c ≠ '\\') : Escaped c s := by
  -- what stands in front is part of the count, and pairs keep it even
  have hbehind : ∀ front before after, slashes front % 2 = 0 → s = before ++ c :: after →
      slashes (front ++ before) % 2 = 1 := by
    induction hs with
    | nil => exact fun _ before after _ h => absurd h (by simp)
    | char hd _ ih =>
      intro front before after hfront h
      obtain ⟨-, hfirst⟩ | ⟨before, rfl, hrest⟩ := cons_eq_append_iff.1 h
      · rw [(List.cons.inj hfirst).1, hd] at hc
        cases hc
      · rw [append_cons]
        exact ih _ before after (by rw [slashes_char hd hslash]) hrest
    | pair e _ ih =>
      intro front before after hfront h
      obtain ⟨-, hfirst⟩ | ⟨before, rfl, hpair⟩ := cons_eq_append_iff.1 h
      · exact absurd (List.cons.inj hfirst).1 hne
      obtain ⟨rfl, -⟩ | ⟨before, rfl, hrest⟩ := cons_eq_append_iff.1 hpair
      · rw [slashes_concat, if_pos rfl]
        omega
      · rw [append_cons, append_cons]
        exact ih _ before after (slashes_pair hfront e) hrest
  exact fun before after h => hbehind [] before after rfl h

/-! ### Replacements -/

/-- A text with every occurrence of a character replaced. -/
def replace (c : Char) (new s : List Char) : List Char :=
  s.flatMap fun d => if d = c then new else [d]

/-- Replacements one after the other, each in the whole text. -/
def replaceAll (steps : List (Char × List Char)) (s : List Char) : List Char :=
  steps.foldl (fun s step => replace step.1 step.2 s) s

/-- **Replacements one after the other are one pass** if none brings in what a later one replaces. -/
theorem replaceAll_eq_flatMap {steps : List (Char × List Char)}
    (h : steps.Pairwise fun step later => later.1 ∉ step.2) (s : List Char) :
    replaceAll steps s = s.flatMap fun c => (steps.lookup c).getD [c] := by
  induction steps generalizing s with
  | nil => exact (flatMap_singleton' s).symm
  | cons step steps ih =>
    obtain ⟨hstep, hsteps⟩ := pairwise_cons.1 h
    -- what the first step brings in is left alone by the others
    have hnew : step.2.flatMap (fun d => (steps.lookup d).getD [d]) = step.2 := by
      refine (flatMap_congr fun d hd => ?_).trans (flatMap_singleton' step.2)
      have hnone : steps.lookup d = none := by
        refine lookup_eq_none_iff.2 fun later hlater => ?_
        exact bne_iff_ne.2 fun heq => hstep later hlater (heq ▸ hd)
      rw [hnone, Option.getD_none]
    rw [replaceAll, foldl_cons]
    refine (ih hsteps _).trans ?_
    rw [replace, flatMap_assoc]
    refine flatMap_congr fun c _ => ?_
    by_cases hc : c = step.1
    · rw [if_pos hc, hnew, hc, lookup_cons, beq_self_eq_true]
      rfl
    · rw [if_neg hc, flatMap_singleton, lookup_cons, beq_eq_false_iff_ne.2 hc]

end Text
end ScreenForge
