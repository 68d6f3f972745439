/-
# Spellings of a whole number

One number has many spellings: blanks around it, a sign, zeros in front, digits of any script and
single underscores between them (`Spells`).  A literal is the one among them that has nothing to
spare (`IsCanonical`).
-/
import Mathlib.Data.List.Induction
import ScreenForge.Kotlin.Literal
import ScreenForge.Proofs.Number.Numeral

namespace ScreenForge

open List

namespace Numeral

open Text (Blank)

variable {c before : Char} {must : Bool} {s cs ds : List Char} {n : Int}

/-- Digits with single underscores between them, and the digits alone.  Where `must` is set, a digit
comes first. -/
inductive Grouped : Bool → List Char → List Char → Prop where
  | done : Grouped false [] []
  | digit {must : Bool} {c : Char} {cs ds : List Char} (hc : isDigit c = true)
      (h : Grouped false cs ds) : Grouped must (c :: cs) (c :: ds)
  | gap {cs ds : List Char} (h : Grouped true cs ds) : Grouped false ('_' :: cs) ds

/-- A text spells a whole number: with blanks around it, a sign or none, and digits of any script in
groups. -/
inductive Spells : List Char → Int → Prop where
  | intro {before numeral after sign body ds : List Char} (hbefore : Blank before)
      (hafter : Blank after) (hnumeral : numeral.map toAscii = sign ++ body)
      (hsign : sign = [] ∨ sign = ['+'] ∨ sign = ['-']) (hbody : Grouped true body ds)
      (hlength : ds.length ≤ maxDigits) :
      Spells (before ++ (numeral ++ after))
        (if sign = ['-'] then -(digitsValue ds : Int) else digitsValue ds)

/-- A numeral with nothing to spare: a minus at most in front, and no zero but the number zero. -/
inductive IsCanonical : List Char → Prop where
  | zero : IsCanonical ['0']
  | positive {d : Char} {ds : List Char} (hd : d ≠ '0') (h : ∀ c ∈ d :: ds, isDigit c) :
      IsCanonical (d :: ds)
  | negative {d : Char} {ds : List Char} (hd : d ≠ '0') (h : ∀ c ∈ d :: ds, isDigit c) :
      IsCanonical ('-' :: d :: ds)

/-! ### Digits in groups -/

theorem Grouped.isDigit (h : Grouped must cs ds) : ∀ d ∈ ds, isDigit d := by
  induction h with
  | done => simp
  | digit hc h ih => exact forall_mem_cons.2 ⟨hc, ih⟩
  | gap h ih => exact ih

theorem Grouped.length_pos (h : Grouped true cs ds) : 0 < ds.length := by
  cases h
  exact Nat.succ_pos _

/-- The underscores of a group are dropped. -/
theorem Grouped.dropUnderscores? (h : Grouped must cs ds)
    (hbefore : must = false → Numeral.isDigit before) : dropUnderscores? before cs = some ds := by
  have hne : ∀ {c}, Numeral.isDigit c → c ≠ '_' := forall_isDigit (P := (· ≠ '_')) (by decide)
  induction h generalizing before with
  | done => exact if_neg (hne (hbefore rfl))
  | digit hc h ih =>
    rw [Numeral.dropUnderscores?, if_neg (hne hc), if_neg (by simp [hc]), ih fun _ => hc]
    rfl
  | gap h ih => rw [Numeral.dropUnderscores?, if_pos rfl, if_pos (hbefore rfl), ih Bool.noConfusion]

/-- Digits are left of groups only. -/
theorem grouped_of_dropUnderscores? (h : dropUnderscores? before cs = some ds)
    (hds : ∀ d ∈ ds, isDigit d) (hstart : ds = [] → isDigit before ∨ before = '_') :
    Grouped (!isDigit before) cs ds := by
  induction cs generalizing before ds with
  | nil =>
    rw [dropUnderscores?] at h
    split at h
    · cases h
    · next hne =>
      obtain rfl := Option.some.inj h
      rw [(hstart rfl).resolve_right hne]
      exact .done
  | cons c cs ih =>
    rw [dropUnderscores?] at h
    split at h
    · next hc =>
      subst hc
      split at h
      · next hbefore =>
        rw [hbefore]
        exact .gap (ih h hds fun _ => .inr rfl)
      · cases h
    · split at h
      · cases h
      · obtain ⟨rest, hrest, rfl⟩ := Option.map_eq_some_iff.1 h
        obtain ⟨hc, hdigits⟩ := forall_mem_cons.1 hds
        have hgroup := ih hrest hdigits fun _ => .inl hc
        rw [hc] at hgroup
        exact .digit hc hgroup

/-! ### Values -/

theorem digitsValue_lt (h : ∀ d ∈ ds, isDigit d) : digitsValue ds < Nat.pow 10 ds.length := by
  induction ds using List.reverseRecOn with
  | nil => exact Nat.one_pos
  | append_singleton ds d ih =>
    obtain ⟨hfront, hd⟩ := forall_mem_append.1 h
    have hd := forall_isDigit (P := fun d => d.toNat - 0x30 < 10) (by decide)
      (hd d (mem_singleton.2 rfl))
    have hfront := ih hfront
    rw [digitsValue, foldl_append, length_append]
    change digitsValue ds * 10 + (d.toNat - 0x30) < Nat.pow 10 ds.length * 10
    omega

/-- **A number has no more digits than a spelling of it.** -/
theorem Spells.length_le (h : Spells s n) : (Nat.toDigits 10 n.natAbs).length ≤ maxDigits := by
  obtain ⟨-, -, -, -, hbody, hlength⟩ := h
  refine Nat.le_trans ?_ hlength
  have hshort := (Nat.length_toDigits_le_iff (by decide) hbody.length_pos).2
    (digitsValue_lt hbody.isDigit)
  split
  · rwa [Int.natAbs_neg]
  · exact hshort

/-! ### Reading -/

theorem Grouped.isBlank (h : Grouped must cs ds) : ∀ c ∈ cs, Text.isBlank c = false := by
  have hdigit : ∀ {c}, Numeral.isDigit c → Text.isBlank c = false :=
    forall_isDigit (P := fun c => Text.isBlank c = false) (by decide)
  induction h with
  | done => simp
  | digit hc h ih => exact forall_mem_cons.2 ⟨hdigit hc, ih⟩
  | gap h ih => exact forall_mem_cons.2 ⟨by decide, ih⟩

/-- **The reader takes groups of digits behind a sign**, and nothing else. -/
theorem integerChars?_iff : integerChars? s = some n ↔
    ∃ ds, Grouped true (takeSign (clean s)).2 ds ∧ ds.length ≤ maxDigits ∧
      n = if (takeSign (clean s)).1 then -(digitsValue ds : Int) else digitsValue ds := by
  simp only [integerChars?]
  generalize takeSign (clean s) = signed
  obtain ⟨negative, body⟩ := signed
  constructor
  · intro hn
    split at hn
    · next hdrop =>
      split at hn
      · next hshort =>
        rw [Bool.and_eq_true, decide_eq_true_eq] at hshort
        exact ⟨_, grouped_of_dropUnderscores? hdrop (all_eq_true.1 hshort.1) (by simp),
          hshort.2, (Option.some.inj hn).symm⟩
      · cases hn
    · cases hn
  · rintro ⟨ds, hds, hlength, rfl⟩
    have hall := all_eq_true.2 hds.isDigit
    rw [hds.dropUnderscores? Bool.noConfusion]
    cases hds with
    | digit hc h => simp only [hall, hlength, decide_true, Bool.and_self, if_true]

theorem exists_sign (s : List Char) : ∃ sign, (sign = [] ∨ sign = ['+'] ∨ sign = ['-']) ∧
    s = sign ++ (takeSign s).2 ∧ (takeSign s).1 = decide (sign = ['-']) := by
  unfold takeSign
  split
  · exact ⟨['+'], by simp, rfl, rfl⟩
  · exact ⟨['-'], by simp, rfl, rfl⟩
  · exact ⟨[], by simp, rfl, rfl⟩

theorem Grouped.takeSign {sign : List Char} (hsign : sign = [] ∨ sign = ['+'] ∨ sign = ['-'])
    (h : Grouped true cs ds) : takeSign (sign ++ cs) = (decide (sign = ['-']), cs) := by
  rcases hsign with rfl | rfl | rfl
  · cases h with
    | digit hc h => exact takeSign_of_isDigit (by simpa using hc)
  · rfl
  · rfl

/-- **The reader takes exactly the spellings of a number.** -/
theorem integerChars?_stripChars_iff : integerChars? (Text.stripChars s) = some n ↔ Spells s n := by
  rw [integerChars?_iff]
  constructor
  · rintro ⟨ds, hds, hlength, rfl⟩
    obtain ⟨before, after, hbefore, hafter, hs⟩ := Text.exists_trim Text.isBlank s
    obtain ⟨inner, outer, hinner, houter, ht⟩ := Text.exists_trim isPadding (Text.stripChars s)
    have hpadding : ∀ c, isPadding c → Text.isBlank c := fun c hc => (Bool.and_eq_true_iff.1 hc).1
    obtain ⟨sign, hsign, hnumeral, hnegative⟩ := exists_sign (clean (Text.stripChars s))
    have hspells := Spells.intro
      (forall_mem_append.2 ⟨hbefore, fun c hc => hpadding c (hinner c hc)⟩)
      (forall_mem_append.2 ⟨fun c hc => hpadding c (houter c hc), hafter⟩)
      hnumeral hsign hds hlength
    rw [← Text.stripChars, ht] at hs
    simp only [append_assoc] at hspells hs
    simpa only [hnegative, decide_eq_true_eq, ← hs] using hspells
  · rintro @⟨before, numeral, after, sign, _, ds, hbefore, hafter, hnumeral, hsign, hbody, hlength⟩
    have hplain : ∀ c ∈ sign, Text.isBlank c = false := by
      rcases hsign with rfl | rfl | rfl <;> simp [Text.isBlank]
    have hascii := forall_mem_append.2 ⟨hplain, hbody.isBlank⟩
    rw [← hnumeral, forall_mem_map] at hascii
    have hblank : ∀ c ∈ numeral, Text.isBlank c = false := fun c hc =>
      isBlank_of_toAscii (hascii c hc)
    have hstrip : Text.stripChars (before ++ (numeral ++ after)) = numeral :=
      Text.trim_append hbefore hafter (fun c hc => hblank c (mem_of_head? hc))
        fun c hc => hblank c (mem_of_getLast? hc)
    rw [hstrip, clean_eq_map hascii, hnumeral, hbody.takeSign hsign]
    exact ⟨ds, hbody, hlength, by simp only [decide_eq_true_eq]⟩

/-! ### Numerals -/

/-- **The numeral of a number is canonical.** -/
theorem isCanonical_intChars (n : Int) : IsCanonical (Json.intChars n) := by
  by_cases hn : n = 0
  · subst hn
    exact .zero
  · have hhead := Json.head?_toDigits_ne (n := n.natAbs) (by omega)
    have hdigits := Json.isDigit_toDigits n.natAbs
    unfold Json.intChars
    cases hchars : Nat.toDigits 10 n.natAbs with
    | nil => exact absurd hchars Nat.toDigits_ne_nil
    | cons d ds =>
      rw [hchars] at hhead hdigits
      have hd : d ≠ '0' := fun hd => hhead (congrArg some hd)
      split
      · exact .negative hd hdigits
      · exact .positive hd hdigits

/-- **The numeral of a short number is a spelling of it.** -/
theorem spells_toString (h : (Nat.toDigits 10 n.natAbs).length ≤ maxDigits) :
    Spells (toString n).toList n := by
  have hblank := forall_intChars (P := fun c => Text.isBlank c = false) (by decide) (by decide) n
  rw [← integerChars?_stripChars_iff, toList_toString, Text.stripChars_eq_self hblank,
    integerChars?_intChars, if_pos h]

end Numeral

namespace Kotlin

open Numeral (IsCanonical integer?)

/-- Every spelling is written as the literal of its number. -/
theorem numberLiteral?_of_spells {s : String} {n : Int} (h : Numeral.Spells s.toList n) :
    numberLiteral? s = some (toString n) := by
  simp only [numberLiteral?, Numeral.integerChars?_stripChars_iff.2 h]

/-- **The literal of a whole number is canonical.**  A text reads as a number exactly if it is a
spelling of it.  The literal of every spelling is the canonical numeral of the number, which reads
as the same number and is its own literal. -/
theorem integer_literal_canonical (s : String) (n : Int) :
    (integer? (Text.strip s) = some n ↔ Numeral.Spells s.toList n) ∧
      (Numeral.Spells s.toList n → numberLiteral? s = some (toString n) ∧
        IsCanonical (toString n).toList ∧ integer? (toString n) = some n ∧
        numberLiteral? (toString n) = some (toString n)) := by
  refine ⟨?_, fun h => ⟨numberLiteral?_of_spells h, ?_, ?_, ?_⟩⟩
  · rw [integer?, Text.strip, String.toList_ofList, Numeral.integerChars?_stripChars_iff]
  · rw [Numeral.toList_toString]
    exact Numeral.isCanonical_intChars n
  · rw [integer?, Numeral.toList_toString, Numeral.integerChars?_intChars, if_pos h.length_le]
  · exact numberLiteral?_of_spells (Numeral.spells_toString h.length_le)

/-- Thirty with a sign, a zero in front, a digit of another script, underscores and blanks. -/
theorem thirty_literal_canonical : Numeral.Spells "\u2003+0_\u0663_0\n".toList 30 ∧
    numberLiteral? "\u2003+0_\u0663_0\n" = some "30" ∧ numberLiteral? "30" = some "30" := by
  obtain ⟨hread, hliteral⟩ := integer_literal_canonical "\u2003+0_\u0663_0\n" 30
  have hspells := hread.1 (by decide)
  exact ⟨hspells, (hliteral hspells).1, (hliteral hspells).2.2.2⟩

end Kotlin
end ScreenForge
