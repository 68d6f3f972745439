/-
# Which attribute values are legal

An attribute value is made of the text of a property by the format of the property.  A format either
keeps the text, apart from its letter case and from what it puts around it, or it writes something
of its own (`Format.keeps`), which is legal.
-/
import ScreenForge.Proofs.Kotlin.Name
import ScreenForge.Proofs.Text.Lower

namespace ScreenForge

open List

/-! ### Legal characters -/

namespace Markup

theorem isLegal_iff {c : Char} : isLegal c ↔ c.toNat = 0x09 ∨ c.toNat = 0x0A ∨
    c.toNat = 0x0D ∨ (0x20 ≤ c.toNat ∧ c.toNat ≤ 0xFFFD) ∨ 0x10000 ≤ c.toNat := by
  simp [isLegal, or_assoc]

theorem isLegal_of_word {c : Char} (h : Kotlin.isNameChar c) : isLegal c :=
  Kotlin.forall_isNameChar (P := fun c => isLegal c = true) (by decide) h

/-- The texts that are made of legal characters. -/
def isLegalText (s : String) : Bool := s.toList.all isLegal

theorem isLegalText_append (s t : String) :
    isLegalText (s ++ t) = (isLegalText s && isLegalText t) := by
  rw [isLegalText, String.toList_append, all_append]
  rfl

theorem isLegalText_toString_nat (n : Nat) : isLegalText (toString n) :=
  all_eq_true.2 fun c hc => isLegal_of_word (Kotlin.isWord_toString n c hc)

theorem isLegalText_toString_int (n : Int) : isLegalText (toString n) := by
  cases n with
  | ofNat m => exact isLegalText_toString_nat m
  | negSucc m =>
    have hneg : toString (Int.negSucc m) = "-" ++ toString (m + 1) := rfl
    rw [hneg, isLegalText_append, isLegalText_toString_nat]
    decide

end Markup

/-! ### Letter case -/

namespace Text

open Markup (isLegal isLegal_iff)

/-- Whether codes from `first` to `last` are those of legal characters from the letters on, without
a gap. -/
def inBlock (first last : Nat) : Bool :=
  (0x41 ≤ first && last ≤ 0xD7FF) || (0xE000 ≤ first && last ≤ 0xFFFD)
    || (0x10000 ≤ first && last ≤ 0x10FFFF)

/-- The characters of a block are legal, and no reference begins with one. -/
theorem isLegal_ofNat {first last n : Nat} (h : inBlock first last) (hfirst : first ≤ n)
    (hlast : n ≤ last) : isLegal (Char.ofNat n) ∧ Char.ofNat n ≠ '&' := by
  simp only [inBlock, Bool.or_eq_true, Bool.and_eq_true, decide_eq_true_eq] at h
  have hvalid : n.isValidChar := by
    unfold Nat.isValidChar
    omega
  have hcode : (Char.ofNat n).toNat = n := by
    delta Char.ofNat
    rw [dif_pos hvalid]
    rfl
  refine ⟨?_, fun heq => ?_⟩
  · rw [isLegal_iff, hcode]
    omega
  · have hand : n = 0x26 := by rw [← hcode, heq]; rfl
    omega

theorem isLegal_of_inBlock {first last : Nat} (h : inBlock first last) {c : Char}
    (hfirst : first ≤ c.toNat) (hlast : c.toNat ≤ last) : isLegal c := by
  have hlegal := (isLegal_ofNat h hfirst hlast).1
  rwa [Char.ofNat_toNat] at hlegal

/-- Whether an expansion leads from a letter to letters. -/
def isLettered (e : Nat × List Nat) : Bool :=
  inBlock e.1 e.1 && !e.2.isEmpty && e.2.all fun n => inBlock n n

/-- Whether a run leads from letters to letters. -/
def CaseRun.isLettered (run : CaseRun) : Bool :=
  inBlock run.first run.last && 0 ≤ run.first + run.offset
    && inBlock (run.first + run.offset).toNat (run.last + run.offset).toNat

/-- **A character in upper case is itself, or letters of a letter.** -/
theorem upperChar_cases (c : Char) : upperChar c = [c] ∨
    isLegal c ∧ upperChar c ≠ [] ∧ ∀ d ∈ upperChar c, isLegal d ∧ d ≠ '&' := by
  unfold upperChar
  split
  · next hascii =>
    have hall : ∀ n < 128, [(Char.ofNat n).toUpper] = [Char.ofNat n] ∨
        isLegal (Char.ofNat n) ∧ isLegal (Char.ofNat n).toUpper ∧
          (Char.ofNat n).toUpper ≠ '&' := by
      decide
    have hc := hall c.toNat hascii
    rw [Char.ofNat_toNat] at hc
    rcases hc with hc | ⟨hlegal, hupper⟩
    · exact Or.inl hc
    · exact Or.inr ⟨hlegal, cons_ne_nil _ _, forall_mem_singleton.2 hupper⟩
  · have hexpansions : upperExpansions.all isLettered := by decide +kernel
    have hruns : upperRuns.all CaseRun.isLettered := by decide +kernel
    rcases mapCase_cases upperExpansions upperRuns c with
      ⟨e, he, hcode, heq⟩ | ⟨run, hrun, hon, heq⟩ | heq
    · have hletters := all_eq_true.1 hexpansions e he
      rw [isLettered, Bool.and_eq_true, Bool.and_eq_true, all_eq_true] at hletters
      obtain ⟨⟨hfrom, hne⟩, hto⟩ := hletters
      rw [heq, forall_mem_map]
      refine Or.inr ⟨isLegal_of_inBlock hfrom (by omega) (by omega), by simpa using hne, ?_⟩
      exact fun n hn => isLegal_ofNat (hto n hn) (Nat.le_refl n) (Nat.le_refl n)
    · have hletters := all_eq_true.1 hruns run hrun
      simp only [CaseRun.contains, Bool.and_eq_true, decide_eq_true_eq] at hon
      rw [CaseRun.isLettered, Bool.and_eq_true, Bool.and_eq_true, decide_eq_true_eq] at hletters
      obtain ⟨⟨hfrom, hoffset⟩, hto⟩ := hletters
      rw [heq, forall_mem_singleton]
      exact Or.inr ⟨isLegal_of_inBlock hfrom hon.1.1 hon.1.2, cons_ne_nil _ _,
        isLegal_ofNat hto (by omega) (by omega)⟩
    · exact Or.inl heq

/-- **No character becomes legal or illegal in upper case.** -/
theorem all_isLegal_upperChar (c : Char) : (upperChar c).all isLegal = isLegal c := by
  rcases upperChar_cases c with hself | ⟨hlegal, -, hletters⟩
  · rw [hself, all_cons, all_nil, Bool.and_true]
  · rw [hlegal, all_eq_true]
    exact fun d hd => (hletters d hd).1

/-- No character becomes legal or illegal by changing its letter case. -/
theorem all_isLegal_upperChars (s : List Char) : (upperChars s).all isLegal = s.all isLegal := by
  rw [upperChars, all_flatMap]
  exact congrArg s.all (funext all_isLegal_upperChar)

/-- A text that starts with the mark of a colour has a legal character in each place of the mark. -/
theorem exists_of_startsWith_upperChars {s : List Char}
    (h : startsWith (upperChars s) ['&', 'H']) :
    ∃ c d rest, s = c :: d :: rest ∧ isLegal c ∧ isLegal d := by
  have hlegal : isLegal '&' ∧ isLegal 'H' := by decide
  obtain ⟨others, hothers⟩ := List.isPrefixOf_iff_prefix.1 h
  cases s with
  | nil => cases hothers
  | cons c s =>
    rw [upperChars, flatMap_cons] at hothers
    rcases upperChar_cases c with hself | ⟨-, hne, hletters⟩
    · rw [hself, singleton_append, cons_append, List.cons.injEq] at hothers
      obtain ⟨rfl, hothers⟩ := hothers
      cases s with
      | nil => cases hothers
      | cons d s =>
        rw [flatMap_cons] at hothers
        refine ⟨'&', d, s, rfl, hlegal.1, ?_⟩
        rcases upperChar_cases d with hself | ⟨hd, -⟩
        · rw [hself, singleton_append, cons_append, List.cons.injEq] at hothers
          rw [← hothers.1]
          exact hlegal.2
        · exact hd
    · obtain ⟨first, rest, hupper⟩ := exists_cons_of_ne_nil hne
      have hfirst : first ∈ upperChar c := hupper ▸ mem_cons_self
      rw [hupper] at hothers
      exact absurd (List.cons.inj hothers).1.symm (hletters first hfirst).2

end Text

/-! ### Formats -/

namespace Component

open Markup (isLegal isLegalText isLegalText_append)

theorem isLegalText_colorText (s : String) : isLegalText (colorText s) = isLegalText s := by
  unfold colorText
  split
  · next h =>
    obtain ⟨c, d, rest, hs, hc, hd⟩ := Text.exists_of_startsWith_upperChars h
    have hmark : isLegalText "#" := by decide
    rw [isLegalText_append, hmark, Bool.true_and, Text.upper, isLegalText, String.toList_ofList,
      Text.all_isLegal_upperChars, String.toList_ofList, isLegalText, hs, all_cons,
      all_cons, hc, hd]
    rfl
  · rfl

theorem isLegalText_literalText (s : String) : isLegalText (literalText s) = isLegalText s := by
  have hmark : isLegalText "\\" := by decide
  unfold literalText
  split
  · split
    · rw [isLegalText_append, hmark, Bool.true_and]
    · rfl
  · rfl

theorem isLegalText_sizeText (n : Int) : isLegalText (sizeText n) := by
  have hunit : isLegalText "dp" := by decide
  unfold sizeText
  split
  · decide
  split
  · decide
  · rw [isLegalText_append, Markup.isLegalText_toString_int, hunit]
    rfl

/-- **A resource name is a letter and more letters, digits and underscores.** -/
theorem toList_resourceName (file : String) :
    ∃ c rest, (resourceName file).toList = c :: rest ∧ ('a' ≤ c && c ≤ 'z')
      ∧ ∀ d ∈ c :: rest, isResourceChar d := by
  have hshape : ∀ s : List Char, (∀ d ∈ s, isResourceChar d) →
      ∃ c rest, resourceShape s = c :: rest ∧ ('a' ≤ c && c ≤ 'z')
        ∧ ∀ d ∈ c :: rest, isResourceChar d := by
    intro s hs
    cases s with
    | nil => exact ⟨'a', "sset".toList, rfl, by decide, all_eq_true.1 (by decide)⟩
    | cons c rest =>
      rw [resourceShape]
      split
      · next hc => exact ⟨c, rest, rfl, hc, hs⟩
      · refine ⟨'r', "es_".toList ++ c :: rest, rfl, by decide, ?_⟩
        intro d hd
        have hfront : "res_".toList.all isResourceChar := by decide
        obtain hd | hd := mem_append.1 (show d ∈ "res_".toList ++ c :: rest from hd)
        · exact all_eq_true.1 hfront d hd
        · exact hs d hd
  rw [resourceName, String.toList_ofList]
  refine hshape _ fun d hd => ?_
  obtain ⟨c, -, rfl⟩ := mem_map.1 hd
  split
  · assumption
  · decide

theorem isLegalText_resourceName (file : String) : isLegalText (resourceName file) := by
  obtain ⟨c, rest, hname, -, hchars⟩ := toList_resourceName file
  rw [isLegalText, hname, all_eq_true]
  exact fun d hd => Markup.isLegal_of_word (Kotlin.isNameChar_of_small (hchars d hd))

/-- **Whether a format keeps the text of a value**, apart from its letter case and from what is put
around it. -/
def Format.keeps (format : Format) (value : Scalar) : Bool :=
  match format with
  | .text | .color | .sp => true
  | .dimension | .integer => cut value.asText == .noNumber
  | .boolean | .visibility | .drawable => false

/-- A number is legal, and a text that is none is kept. -/
theorem legal_of_cut {value : Scalar} {s : String} {write : Int → String}
    (hwrite : ∀ n, isLegalText (write n))
    (h : (match cut value.asText with
      | .number n => some (write n)
      | .noNumber => some value.asText
      | .unbounded => none) = some s) :
    isLegalText s = (!cut value.asText == .noNumber || isLegalText value.asText) := by
  cases hcut : cut value.asText with
  | number n =>
    rw [hcut] at h
    rw [← Option.some.inj h, hwrite]
    rfl
  | noNumber =>
    rw [hcut] at h
    rw [← Option.some.inj h]
    rfl
  | unbounded =>
    rw [hcut] at h
    cases h

/-- **An attribute value is legal exactly if its format does not keep the text or the text is
legal.** -/
theorem Format.legal_render? {format : Format} {value : Scalar} {s : String}
    (h : format.render? value = some s) :
    isLegalText s = (!format.keeps value || isLegalText value.asText) := by
  cases format with
  | dimension => exact legal_of_cut isLegalText_sizeText h
  | integer => exact legal_of_cut Markup.isLegalText_toString_int h
  | text =>
    obtain rfl := Option.some.inj h
    exact isLegalText_literalText _
  | color =>
    obtain rfl := Option.some.inj h
    exact isLegalText_colorText _
  | sp =>
    obtain rfl := Option.some.inj h
    have hunit : isLegalText "sp" := by decide
    rw [isLegalText_append, hunit, Bool.and_true]
    rfl
  | boolean =>
    obtain rfl := Option.some.inj h
    show isLegalText (if isTrue value.asText then "true" else "false") = true
    split <;> decide
  | visibility =>
    obtain rfl := Option.some.inj h
    show isLegalText (if isTrue value.asText then "visible" else "gone") = true
    split <;> decide
  | drawable =>
    obtain rfl := Option.some.inj h
    have hmark : isLegalText "@drawable/" := by decide
    show isLegalText (if value.asText = "" then value.asText
      else "@drawable/" ++ resourceName value.asText) = true
    split
    · next hempty =>
      rw [hempty]
      rfl
    · rw [isLegalText_append, hmark, isLegalText_resourceName]
      rfl

end Component
end ScreenForge
