/-
# Reading the numerals of whole numbers

The numeral of a whole number needs no cleaning, so it is read as the number it spells: exactly by
the reader of whole numbers, unless the digits are too many, and as the nearest floating point
number by the other one.
-/
import ScreenForge.Json.Writer
import ScreenForge.Proofs.Json.Scalar

namespace ScreenForge
namespace Numeral

open List

variable {c : Char} {s : List Char} (n : Int)

/-! ### Digits -/

/-- What holds of the ten digits holds of every digit. -/
theorem forall_isDigit {P : Char → Prop} (hall : ∀ v < 10, P (Text.asciiDigit v))
    (h : isDigit c) : P c := by
  rw [isDigit, Bool.and_eq_true, decide_eq_true_eq, decide_eq_true_eq] at h
  obtain ⟨hfirst, hlast⟩ : 0x30 ≤ c.toNat ∧ c.toNat ≤ 0x39 := h
  have hc := hall (c.toNat - 0x30) (by omega)
  rwa [Text.asciiDigit, Nat.add_sub_cancel' hfirst, Char.ofNat_toNat] at hc

/-- A digit of some script stands in the row of its zero. -/
theorem exists_zero {v : Nat} (h : Text.digitValue? c = some v) :
    v < 10 ∧ ∃ z ∈ Text.zeros, c.toNat = z + v := by
  obtain ⟨z, hz, rfl⟩ := Option.map_eq_some_iff.1 h
  have hrow := List.find?_some hz
  rw [Bool.and_eq_true, decide_eq_true_eq, decide_eq_true_eq] at hrow
  exact ⟨by omega, z, mem_of_find?_eq_some hz, by omega⟩

/-- **A digit of some script becomes the ASCII digit of its value.** -/
theorem toAscii_of_digitValue? {v : Nat} (h : Text.digitValue? c = some v) :
    v < 10 ∧ toAscii c = Text.asciiDigit v := by
  obtain ⟨hv, z, hz, hc⟩ := exists_zero h
  refine ⟨hv, ?_⟩
  unfold toAscii
  split
  · have hascii : ∀ z ∈ Text.zeros, z < 127 → z = 0x30 := by decide
    have hzero := hascii z hz (by omega)
    rw [Text.asciiDigit, ← hzero, ← hc, Char.ofNat_toNat]
  · rw [h]

/-- No digit of any script is blank. -/
theorem isBlank_of_toAscii (h : Text.isBlank (toAscii c) = false) : Text.isBlank c = false := by
  have hall : Text.zeros.all fun z =>
      (List.range 10).all fun v => !Text.isBlank (Char.ofNat (z + v)) := by decide +kernel
  cases hvalue : Text.digitValue? c with
  | none => simpa [toAscii, hvalue] using h
  | some v =>
    obtain ⟨hv, z, hz, hc⟩ := exists_zero hvalue
    have hrow := all_eq_true.1 (all_eq_true.1 hall z hz) v (mem_range.2 hv)
    rwa [← hc, Char.ofNat_toNat, Bool.not_eq_true'] at hrow

/-! ### Numerals without a sign -/

/-- A numeral without blanks around it. -/
theorem clean_eq_map (h : ∀ c ∈ s, Text.isBlank (toAscii c) = false) :
    clean s = s.map toAscii := by
  have hplain : ∀ c ∈ s, isPadding c = false := fun c hc => by
    rw [isPadding, isBlank_of_toAscii (h c hc), Bool.false_and]
  have hnone : ∀ c ∈ ([] : List Char), isPadding c := by simp
  have htrim := Text.trim_append hnone hnone (fun c hc => hplain c (mem_of_head? hc))
    fun c hc => hplain c (mem_of_getLast? hc)
  rw [append_nil, nil_append] at htrim
  rw [clean, htrim]

theorem takeSign_of_isDigit (h : ∀ c ∈ s.head?, isDigit c) : takeSign s = (false, s) := by
  unfold takeSign
  split
  · exact absurd (h '+' rfl) (by decide)
  · exact absurd (h '-' rfl) (by decide)
  · rfl

/-- **Digits spell no negative number.** -/
theorem integerChars?_nonneg (h : ∀ c ∈ s, (Text.digitValue? c).isSome) {n : Int}
    (hn : integerChars? s = some n) : 0 ≤ n := by
  have hdigit : ∀ v < 10, isDigit (Text.asciiDigit v) ∧ Text.isBlank (Text.asciiDigit v) = false :=
    by decide
  have hdigits : ∀ c ∈ s, isDigit (toAscii c) ∧ Text.isBlank (toAscii c) = false := by
    intro c hc
    obtain ⟨v, hv⟩ := Option.isSome_iff_exists.1 (h c hc)
    obtain ⟨hbelow, hvalue⟩ := toAscii_of_digitValue? hv
    exact hvalue ▸ hdigit v hbelow
  have hsign : takeSign (clean s) = (false, s.map toAscii) := by
    have hmapped : ∀ d ∈ s.map toAscii, isDigit d :=
      forall_mem_map.2 fun c hc => (hdigits c hc).1
    rw [clean_eq_map fun c hc => (hdigits c hc).2]
    exact takeSign_of_isDigit fun d hd => hmapped d (mem_of_head? hd)
  simp only [integerChars?, hsign] at hn
  split at hn
  · split at hn
    · rw [← Option.some.inj hn]
      exact Int.natCast_nonneg _
    · cases hn
  · cases hn

theorem dropUnderscores?_of_isDigit {before : Char} (hbefore : before ≠ '_')
    (h : ∀ c ∈ s, isDigit c) : dropUnderscores? before s = some s := by
  induction s generalizing before with
  | nil => rw [dropUnderscores?, if_neg hbefore]
  | cons c rest ih =>
    have hc := forall_isDigit (P := (· ≠ '_')) (by decide) (h c mem_cons_self)
    rw [dropUnderscores?, if_neg hc, if_neg (by simp [hbefore]),
      ih hc fun d hd => h d (mem_cons_of_mem _ hd)]
    rfl

/-! ### Numerals with a sign -/

theorem toList_toString : (toString n).toList = Json.intChars n := by
  unfold Json.intChars
  cases n with
  | ofNat m =>
    rw [if_neg (by simp)]
    show (toString m).toList = _
    rw [Nat.toString_eq_ofList_toDigits, String.toList_ofList]
    rfl
  | negSucc m =>
    rw [if_pos (Int.negSucc_lt_zero m)]
    show ("-" ++ toString (m + 1)).toList = _
    rw [String.toList_append, Nat.toString_eq_ofList_toDigits]
    exact congrArg ('-' :: ·) String.toList_ofList

theorem forall_intChars {P : Char → Prop} (hminus : P '-')
    (hdigit : ∀ v < 10, P (Text.asciiDigit v)) (n : Int) : ∀ c ∈ Json.intChars n, P c := by
  have hdigits := fun c hc => forall_isDigit hdigit (Json.isDigit_toDigits n.natAbs c hc)
  unfold Json.intChars
  split
  · exact forall_mem_cons.2 ⟨hminus, hdigits⟩
  · exact hdigits

/-- A numeral has no blanks around it, and its digits are ASCII. -/
theorem clean_intChars : clean (Json.intChars n) = Json.intChars n := by
  have hplain := forall_intChars (P := fun c => Text.isBlank (toAscii c) = false ∧ toAscii c = c)
    (by decide) (by decide) n
  rw [clean_eq_map fun c hc => (hplain c hc).1]
  exact (map_congr_left fun c hc => (hplain c hc).2).trans (map_id _)

theorem takeSign_intChars :
    takeSign (Json.intChars n) = (decide (n < 0), Nat.toDigits 10 n.natAbs) := by
  unfold Json.intChars
  split
  · next h => simp [takeSign, h]
  · next h =>
    rw [takeSign_of_isDigit fun c hc => Json.isDigit_toDigits _ c (mem_of_head? hc),
      decide_eq_false h]

/-- No underscores stand in a numeral. -/
theorem dropUnderscores?_intChars :
    dropUnderscores? ' ' (Json.intChars n) = some (Json.intChars n) := by
  have hdigits := Json.isDigit_toDigits n.natAbs
  unfold Json.intChars
  split
  · rw [dropUnderscores?, if_neg (by decide), if_neg (by decide),
      dropUnderscores?_of_isDigit (by decide) hdigits]
    rfl
  · exact dropUnderscores?_of_isDigit (by decide) hdigits

theorem unsigned?_of_isDigit (negative : Bool) (hne : s ≠ []) (h : ∀ c ∈ s, isDigit c) :
    unsigned? negative s = some (Binary64.ofDecimal negative (digitsValue s) 0) := by
  have hwhole : s.takeWhile isDigit = s := takeWhile_eq_self_iff.2 h
  have hrest : s.dropWhile isDigit = [] := dropWhile_eq_nil_iff.2 h
  simp [unsigned?, hwhole, hrest, exponent?, hne]

/-- **The numeral of a whole number spells it**, unless it has too many digits. -/
theorem integerChars?_intChars : integerChars? (Json.intChars n)
    = if (Nat.toDigits 10 n.natAbs).length ≤ maxDigits then some n else none := by
  have hdigits := Json.isDigit_toDigits n.natAbs
  have hvalue := Json.digitsValue_toDigits n.natAbs
  have hsigned : (if n < 0 then -(n.natAbs : Int) else n.natAbs) = n := by omega
  simp only [integerChars?, clean_intChars, takeSign_intChars,
    dropUnderscores?_of_isDigit (by decide : ' ' ≠ '_') hdigits]
  cases hn : Nat.toDigits 10 n.natAbs with
  | nil => exact absurd hn Nat.toDigits_ne_nil
  | cons d ds =>
    rw [hn] at hdigits hvalue
    simp only [all_eq_true.2 hdigits, hvalue, Bool.true_and, decide_eq_true_eq, hsigned]

/-- **A whole number is read as the nearest one.** -/
theorem decimal?_toString :
    decimal? (toString n) = some (Binary64.ofDecimal (decide (n < 0)) n.natAbs 0) := by
  have hdigits := Json.isDigit_toDigits n.natAbs
  have hword : ∀ w : String, (w.toList.head? = some 'i' ∨ w.toList.head? = some 'n') →
      String.ofList ((Nat.toDigits 10 n.natAbs).map Char.toLower) ≠ w := by
    rintro w hw rfl
    rw [String.toList_ofList, List.head?_map] at hw
    cases hn : Nat.toDigits 10 n.natAbs with
    | nil => exact absurd hn Nat.toDigits_ne_nil
    | cons d ds =>
      have hd := forall_isDigit (P := fun d => d.toLower ≠ 'i' ∧ d.toLower ≠ 'n') (by decide)
        (hdigits d (hn ▸ mem_cons_self))
      rw [hn] at hw
      exact hw.elim (fun h => hd.1 (Option.some.inj h)) fun h => hd.2 (Option.some.inj h)
  simp only [decimal?, decimalChars?, toList_toString, clean_intChars, dropUnderscores?_intChars,
    takeSign_intChars, hword "inf" (Or.inl rfl), hword "infinity" (Or.inl rfl),
    hword "nan" (Or.inr rfl), decide_false, Bool.or_false, Bool.false_eq_true, if_false,
    unsigned?_of_isDigit _ Nat.toDigits_ne_nil hdigits, Json.digitsValue_toDigits]

end Numeral
end ScreenForge
