/-
# Words in any letter case

A text is compared with a word by its lower case.  Letters outside ASCII have lower cases too, and
one of them may be a letter of ASCII: the Kelvin sign becomes `k`.  A letter that no letter outside
ASCII becomes is `isOwn`.
-/
import ScreenForge.Text.LetterCase

namespace ScreenForge
namespace Text

open List

variable {x c : Char} {before s : List Char}

/-! ### Characters -/

/-- The image of a character outside ASCII: an expansion, a letter at an offset, or itself. -/
theorem mapCase_cases (expansions : List (Nat × List Nat)) (runs : List CaseRun) (c : Char) :
    (∃ e ∈ expansions, e.1 = c.toNat ∧ mapCase expansions runs c = e.2.map Char.ofNat)
      ∨ (∃ r ∈ runs, r.contains c.toNat
        ∧ mapCase expansions runs c = [Char.ofNat ((c.toNat : Int) + r.offset).toNat])
      ∨ mapCase expansions runs c = [c] := by
  rw [mapCase]
  split
  · next e he =>
    exact .inl ⟨e, mem_of_find?_eq_some he, by simpa using List.find?_some he, rfl⟩
  · split
    · next r hr =>
      have hon := List.find?_some (p := fun r : CaseRun => r.contains c.toNat) hr
      exact .inr (.inl ⟨r, mem_of_find?_eq_some hr, hon, rfl⟩)
    · exact .inr (.inr rfl)

/-- A character whose small letter is in ASCII is in ASCII. -/
theorem ascii_of_toLower (h : c.toLower.toNat < 128) : c.toNat < 128 := by
  delta Char.toLower at h
  split at h
  · next hupper =>
    have : c.toNat ≤ 90 := hupper.2
    omega
  · exact h

/-- Whether a character of ASCII stands in the lower case of no character outside. -/
def isOwn (x : Char) : Bool :=
  decide (0 < x.toNat ∧ x.toNat < 128)
    && lowerExpansions.all (fun e => !(e.2.map Char.ofNat).contains x)
    && lowerRuns.all fun r => !r.contains ((x.toNat : Int) - r.offset).toNat

theorem isOwn_iff : isOwn x ↔ (0 < x.toNat ∧ x.toNat < 128)
    ∧ (∀ e ∈ lowerExpansions, x ∉ e.2.map Char.ofNat)
    ∧ ∀ r ∈ lowerRuns, r.contains ((x.toNat : Int) - r.offset).toNat = false := by
  simp only [isOwn, Bool.and_eq_true, decide_eq_true_eq, all_eq_true, Bool.not_eq_true',
    ← Bool.not_eq_true, contains_iff_mem, and_assoc]

theorem toNat_of_ofNat_eq {n : Nat} (hpos : 0 < x.toNat) (h : Char.ofNat n = x) : n = x.toNat := by
  subst h
  by_cases hn : n.isValidChar
  · rw [Char.ofNat, dif_pos hn]
    rfl
  · rw [Char.ofNat, dif_neg hn] at hpos
    exact absurd hpos (by decide)

/-- Outside ASCII no character has an own character in its lower case. -/
theorem not_mem_mapCase (hx : isOwn x) (hc : 128 ≤ c.toNat) :
    x ∉ mapCase lowerExpansions lowerRuns c := by
  obtain ⟨⟨hpos, hascii⟩, hexpansions, hruns⟩ := isOwn_iff.1 hx
  rcases mapCase_cases lowerExpansions lowerRuns c with ⟨e, he, -, heq⟩ | ⟨r, hr, hon, heq⟩ | heq
  · exact heq ▸ hexpansions e he
  · intro hmem
    rw [heq, mem_singleton] at hmem
    have hcode := toNat_of_ofNat_eq hpos hmem.symm
    -- the character would stand on the run where the offset leads back to
    have hback : c.toNat = ((x.toNat : Int) - r.offset).toNat := by omega
    rw [hback, hruns r hr] at hon
    cases hon
  · intro hmem
    rw [heq, mem_singleton] at hmem
    rw [hmem] at hascii
    omega

/-! ### Texts -/

/-- The lower case of a character between what precedes it, nearest first, and what follows it. -/
def lowerBetween (before : List Char) (c : Char) (after : List Char) : List Char :=
  if c = 'Σ' then [smallSigma before after] else lowerChar c

theorem lowerAfter_cons (before : List Char) (c : Char) (rest : List Char) :
    lowerAfter before (c :: rest) = lowerBetween before c rest ++ lowerAfter (c :: before) rest :=
  rfl

/-- The lower case of a letter of ASCII depends on no other letter. -/
theorem lowerBetween_of_ascii (hc : c.toNat < 128) (before after : List Char) :
    lowerBetween before c after = [c.toLower] := by
  have hsigma : c ≠ 'Σ' := by
    rintro rfl
    exact absurd hc (by decide)
  rw [lowerBetween, if_neg hsigma, lowerChar_ascii hc]

/-- No letter outside ASCII becomes a letter that is `isOwn`. -/
theorem not_mem_lowerBetween (hx : isOwn x) (hc : 128 ≤ c.toNat) (before after : List Char) :
    x ∉ lowerBetween before c after := by
  rw [lowerBetween]
  split
  · -- neither form of the small sigma is in ASCII
    have hascii := (isOwn_iff.1 hx).1.2
    rw [mem_singleton, smallSigma]
    split <;>
    · rintro rfl
      exact absurd hascii (by decide)
  · rw [lowerChar, if_neg (Nat.not_lt.2 hc)]
    exact not_mem_mapCase hx hc

theorem lowerBetween_ne_nil (before : List Char) (c : Char) (after : List Char) :
    lowerBetween before c after ≠ [] := by
  have hsome : lowerExpansions.all (fun e => !e.2.isEmpty) := by decide
  rw [lowerBetween, lowerChar]
  split
  · exact cons_ne_nil _ _
  split
  · exact cons_ne_nil _ _
  rcases mapCase_cases lowerExpansions lowerRuns c with ⟨e, he, -, heq⟩ | ⟨r, -, -, heq⟩ | heq
  · simpa [heq] using all_eq_true.1 hsome e he
  · simp [heq]
  · simp [heq]

/-- The lower case of a text of ASCII is that of its letters. -/
theorem lower_of_ascii (h : ∀ c ∈ s, c.toNat < 128) :
    lower (String.ofList s) = String.ofList (s.map Char.toLower) := by
  have hafter : ∀ before, lowerAfter before s = s.map Char.toLower := by
    induction s with
    | nil => exact fun _ => rfl
    | cons c rest ih =>
      intro before
      rw [lowerAfter_cons, lowerBetween_of_ascii (h c mem_cons_self),
        ih fun d hd => h d (mem_cons_of_mem c hd)]
      rfl
  rw [lower, lowerChars, String.toList_ofList, hafter]

/-- **Only a letter of ASCII has an own letter as its lower case**, and has it alone. -/
theorem lowerBetween_append_eq_cons_iff (hx : isOwn x) (before after : List Char) (c : Char)
    {rest xs : List Char} :
    lowerBetween before c after ++ rest = x :: xs ↔ c.toLower = x ∧ rest = xs := by
  by_cases hc : c.toNat < 128
  · rw [lowerBetween_of_ascii hc, singleton_append, List.cons.injEq]
  · refine iff_of_false (fun h => ?_) ?_
    · obtain ⟨y, ys, hys⟩ := exists_cons_of_ne_nil (lowerBetween_ne_nil before c after)
      have hmem := not_mem_lowerBetween hx (Nat.le_of_not_lt hc) before after
      rw [hys] at h hmem
      exact hmem ((List.cons.inj h).1 ▸ mem_cons_self)
    · rintro ⟨rfl, -⟩
      exact hc (ascii_of_toLower (isOwn_iff.1 hx).1.2)

/-- **A text has a word of own letters as its lower case exactly if it is the word up to case.** -/
theorem lowerAfter_eq_iff {word : List Char} (hword : ∀ x ∈ word, isOwn x) (before s : List Char) :
    lowerAfter before s = word ↔ s.map Char.toLower = word := by
  induction s generalizing before word with
  | nil => exact Iff.rfl
  | cons c rest ih =>
    rw [lowerAfter_cons, map_cons]
    cases word with
    | nil =>
      exact ⟨fun h => absurd (append_eq_nil_iff.1 h).1 (lowerBetween_ne_nil before c rest),
        fun h => absurd h (cons_ne_nil _ _)⟩
    | cons x xs =>
      rw [lowerBetween_append_eq_cons_iff (hword x mem_cons_self),
        ih fun y hy => hword y (mem_cons_of_mem x hy), List.cons.injEq]

/-- **Comparing by lower case is comparing up to case**, for words of own letters. -/
theorem lower_eq_iff {word : String} (hword : word.toList.all isOwn) {s : String} :
    lower s = word ↔ s.toList.map Char.toLower = word.toList := by
  rw [← lowerAfter_eq_iff (all_eq_true.1 hword) [], ← String.toList_inj, lower,
    String.toList_ofList, lowerChars]

/-- **What stands in a lower case has been there before, up to case**, if it is an own character. -/
theorem exists_of_mem_lowerAfter (hx : isOwn x) (h : x ∈ lowerAfter before s) :
    ∃ c ∈ s, c.toLower = x := by
  induction s generalizing before with
  | nil => cases h
  | cons c rest ih =>
    rw [lowerAfter_cons, mem_append] at h
    obtain h | h := h
    · refine ⟨c, mem_cons_self, ?_⟩
      by_cases hc : c.toNat < 128
      · rw [lowerBetween_of_ascii hc] at h
        exact (mem_singleton.1 h).symm
      · exact absurd h (not_mem_lowerBetween hx (Nat.le_of_not_lt hc) before rest)
    · obtain ⟨d, hd, hlower⟩ := ih h
      exact ⟨d, mem_cons_of_mem c hd, hlower⟩

/-! ### Signs -/

/-- Whether a character is an own one and no letter. -/
def isSign (x : Char) : Bool := isOwn x && !x.isAlpha

/-- A sign is its own lower case, and that of no other character. -/
theorem toLower_eq_iff (hx : isSign x) : c.toLower = x ↔ c = x := by
  obtain ⟨hown, halpha⟩ := Bool.and_eq_true_iff.1 hx
  have hascii := (isOwn_iff.1 hown).1.2
  have hall : ∀ n < 128, (Char.ofNat n).toLower = Char.ofNat n
      ∨ (Char.ofNat n).isAlpha ∧ (Char.ofNat n).toLower.isAlpha := by decide
  constructor
  · rintro rfl
    have hc := hall c.toNat (ascii_of_toLower hascii)
    rw [Char.ofNat_toNat] at hc
    exact (hc.resolve_right fun h => by simp [h.2] at halpha).symm
  · rintro rfl
    have hc := hall c.toNat hascii
    rw [Char.ofNat_toNat] at hc
    exact hc.resolve_right fun h => by simp [h.1] at halpha

theorem mem_lowerAfter_of_mem (hx : isSign x) (h : x ∈ s) : x ∈ lowerAfter before s := by
  induction s generalizing before with
  | nil => cases h
  | cons c rest ih =>
    rw [lowerAfter_cons, mem_append]
    obtain rfl | h := mem_cons.1 h
    · have hascii := (isOwn_iff.1 (Bool.and_eq_true_iff.1 hx).1).1.2
      rw [lowerBetween_of_ascii hascii, (toLower_eq_iff hx).2 rfl]
      exact .inl mem_cons_self
    · exact .inr (ih h)

/-- **A sign stands in a lower case exactly if it stands in the text.** -/
theorem mem_lower_iff (hx : isSign x) {s : String} : x ∈ (lower s).toList ↔ x ∈ s.toList := by
  rw [lower, lowerChars, String.toList_ofList]
  refine ⟨fun h => ?_, mem_lowerAfter_of_mem hx⟩
  obtain ⟨c, hc, hlower⟩ := exists_of_mem_lowerAfter (Bool.and_eq_true_iff.1 hx).1 h
  exact (toLower_eq_iff hx).1 hlower ▸ hc

end Text
end ScreenForge
