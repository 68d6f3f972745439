/-
# Rounding of whole numbers

A floating point number has a significand of 53 binary digits.  A whole number that has more loses
the `spare` ones: `rounded` is what is left.

A number of the format lies on the grid of the last digit of the rounded one, or below all numbers
that have this last digit (`Representable.grid`); on the grid a quotient is rounded to the nearest.
-/
import ScreenForge.Number.Binary64

namespace ScreenForge
namespace Binary64

variable {n k : Nat} (negative : Bool)

/-- Whether a whole number is one of the format: a significand of 53 bits with zeros behind it. -/
def Representable (n : Int) : Prop := ∃ m k, m < Nat.pow 2 53 ∧ n.natAbs = m * Nat.pow 2 k

/-- How many binary digits of a number a significand has no room for. -/
def spare (n : Nat) : Nat := n.log2 - 52

/-- A number with its spare digits rounded away. -/
def rounded (n : Nat) : Nat := roundQuotient n (Nat.pow 2 (spare n)) * Nat.pow 2 (spare n)

/-- A quotient is rounded down or up, to the nearer. -/
theorem roundQuotient_cases (num den : Nat) :
    (roundQuotient num den = num / den ∧ 2 * (num % den) ≤ den) ∨
      (roundQuotient num den = num / den + 1 ∧ den ≤ 2 * (num % den)) := by
  unfold roundQuotient
  dsimp only
  split
  · next h =>
    rw [Bool.or_eq_true, Bool.and_eq_true, decide_eq_true_eq, beq_iff_eq] at h
    exact Or.inr ⟨rfl, by omega⟩
  · next h =>
    rw [Bool.or_eq_true, Bool.and_eq_true, decide_eq_true_eq, beq_iff_eq] at h
    exact Or.inl ⟨rfl, by omega⟩

/-- **No multiple is nearer than the rounded one.** -/
theorem roundQuotient_nearest {num den : Nat} (hden : 0 < den) (j : Nat) :
    ((roundQuotient num den * den : Nat) - num : Int).natAbs
      ≤ ((j * den : Nat) - num : Int).natAbs := by
  have hsplit := Nat.div_add_mod num den
  have hrest := Nat.mod_lt num hden
  rw [Nat.mul_comm] at hsplit
  -- a multiple is at most the one below, or at least the one above
  have hside : j * den ≤ num / den * den ∨ num / den * den + den ≤ j * den := by
    rcases Nat.lt_or_ge (num / den) j with h | h
    · exact Or.inr (Nat.succ_mul _ den ▸ Nat.mul_le_mul_right den h)
    · exact Or.inl (Nat.mul_le_mul_right den h)
  rcases roundQuotient_cases num den with ⟨hq, hle⟩ | ⟨hq, hle⟩
  · rw [hq]
    omega
  · rw [hq, Nat.succ_mul]
    omega

theorem pow_add_mul (a b : Nat) : Nat.pow 2 (a + b) = Nat.pow 2 b * Nat.pow 2 a := by
  rw [Nat.mul_comm]
  exact Nat.pow_add 2 a b

/-- In units of its last digit a number has 53 digits, zeros behind a short one. -/
theorem scaled_bounds (hn : n ≠ 0) :
    Nat.pow 2 52 * Nat.pow 2 (spare n) ≤ n * Nat.pow 2 (52 - n.log2) ∧
      n * Nat.pow 2 (52 - n.log2) < Nat.pow 2 53 * Nat.pow 2 (spare n) := by
  have hlow : Nat.pow 2 n.log2 ≤ n := Nat.log2_self_le hn
  have hhigh : n < Nat.pow 2 (n.log2 + 1) := Nat.lt_log2_self
  have hsum : spare n + 52 = 52 - n.log2 + n.log2 := by
    unfold spare
    omega
  constructor
  · rw [← pow_add_mul, hsum, pow_add_mul]
    exact Nat.mul_le_mul_right _ hlow
  · rw [← pow_add_mul, show spare n + 53 = 52 - n.log2 + (n.log2 + 1) by omega, pow_add_mul]
    exact Nat.mul_lt_mul_of_pos_right hhigh (Nat.two_pow_pos _)

/-- A number of the format is a multiple of a power of two, or below the numbers whose last digit
it is. -/
theorem Representable.grid (hk : Representable k) (g : Nat) :
    (∃ j, k = j * Nat.pow 2 g) ∨ 0 < g ∧ k < Nat.pow 2 52 * Nat.pow 2 g := by
  obtain ⟨m, e, hm, he⟩ := hk
  rw [Int.natAbs_natCast] at he
  rcases Nat.lt_or_ge e g with h | h
  · refine Or.inr ⟨by omega, ?_⟩
    calc k = m * Nat.pow 2 e := he
      _ < Nat.pow 2 53 * Nat.pow 2 e := Nat.mul_lt_mul_of_pos_right hm (Nat.two_pow_pos e)
      _ = Nat.pow 2 (e + 53) := (pow_add_mul e 53).symm
      _ ≤ Nat.pow 2 (g + 52) := Nat.pow_le_pow_right (by decide) (by omega)
      _ = Nat.pow 2 52 * Nat.pow 2 g := pow_add_mul g 52
  · refine Or.inl ⟨m * Nat.pow 2 (e - g), ?_⟩
    rw [he, Nat.mul_assoc, ← pow_add_mul, Nat.add_sub_cancel' h]

/-- **No number of the format is nearer than the rounded one.** -/
theorem rounded_nearest (hk : Representable k) :
    ((rounded n : Int) - n).natAbs ≤ ((k : Int) - n).natAbs := by
  have hden : 0 < Nat.pow 2 (spare n) := Nat.two_pow_pos _
  rcases hk.grid (spare n) with ⟨j, rfl⟩ | ⟨hpos, hlt⟩
  · exact roundQuotient_nearest hden j
  · have hn : n ≠ 0 := by
      rintro rfl
      exact absurd hpos (by decide)
    -- the least number with this last digit lies between the other one and this one
    have hshort : 52 - n.log2 = 0 := by
      unfold spare at hpos
      omega
    have hle := (scaled_bounds hn).1
    rw [hshort, show n * Nat.pow 2 0 = n from Nat.mul_one n] at hle
    have hnear := @roundQuotient_nearest n _ hden (Nat.pow 2 52)
    unfold rounded
    omega

/-- A rounded number is one of the format. -/
theorem representable_rounded (n : Nat) : Representable (rounded n) := by
  by_cases hn : n = 0
  · subst hn
    exact ⟨0, 0, by decide, by decide⟩
  have hden : 0 < Nat.pow 2 (spare n) := Nat.two_pow_pos _
  have hq : n / Nat.pow 2 (spare n) < Nat.pow 2 53 := by
    rw [Nat.div_lt_iff_lt_mul hden]
    exact Nat.lt_of_le_of_lt (Nat.le_mul_of_pos_right n (Nat.two_pow_pos _)) (scaled_bounds hn).2
  have hle : roundQuotient n (Nat.pow 2 (spare n)) ≤ Nat.pow 2 53 := by
    rcases roundQuotient_cases n (Nat.pow 2 (spare n)) with ⟨h, -⟩ | ⟨h, -⟩
    · exact h ▸ Nat.le_of_lt hq
    · exact h ▸ hq
  rcases Nat.lt_or_eq_of_le hle with hlt | heq
  · exact ⟨_, _, hlt, rfl⟩
  · refine ⟨Nat.pow 2 52, spare n + 1, by decide, ?_⟩
    rw [rounded, heq, Int.natAbs_natCast, ← pow_add_mul, ← pow_add_mul]

/-! ### The number that is cut -/

/-- A whole number and the unit of its last digit, both in units of that digit if it is a fraction. -/
theorem scaled_whole (n : Nat) : scaled n 1 ((n.log2 : Int) - 52)
    = (n * Nat.pow 2 (52 - n.log2), Nat.pow 2 (spare n)) := by
  unfold scaled spare
  split
  · next h =>
    have hfraction : 52 - n.log2 = 0 := by omega
    have hunit : ((n.log2 : Int) - 52).toNat = n.log2 - 52 := by omega
    rw [hfraction, hunit, Nat.one_mul]
    exact congrArg (·, _) (Nat.mul_one n).symm
  · next h =>
    have hfraction : (-((n.log2 : Int) - 52)).toNat = 52 - n.log2 := by omega
    have hunit : n.log2 - 52 = 0 := by omega
    rw [hfraction, hunit]

theorem exponentFor_whole (hn : n ≠ 0) : exponentFor n 1 = (n.log2 : Int) - 52 := by
  have hden : 0 < Nat.pow 2 (spare n) := Nat.two_pow_pos _
  have hfull : ¬ n * Nat.pow 2 (52 - n.log2) / Nat.pow 2 (spare n) < Nat.pow 2 52 := by
    rw [Nat.not_lt, Nat.le_div_iff_mul_le hden]
    exact (scaled_bounds hn).1
  have hone : Nat.log2 1 = 0 := rfl
  unfold exponentFor
  simp only [hone, Int.natCast_zero, Int.sub_zero, scaled_whole, if_neg hfull]
  unfold leastExponent
  omega

/-- A number with a sign. -/
def signed (negative : Bool) (n : Nat) : Int := if negative then -n else n

theorem truncate?_of_nonneg (m k : Nat) :
    truncate? (.finite negative m k) = some (signed negative (m * Nat.pow 2 k)) := by
  have hexp : (k : Int) ≥ 0 := Int.natCast_nonneg k
  simp only [truncate?, ratio, if_pos hexp, Int.toNat_natCast]
  cases negative <;> simp [signed]

theorem truncate?_of_fraction (n k : Nat) :
    truncate? (.finite negative (n * Nat.pow 2 k) (-k)) = some (signed negative n) := by
  cases k with
  | zero => simpa using truncate?_of_nonneg negative n 0
  | succ k =>
    have hexp : ¬ (-((k + 1 : Nat) : Int) ≥ 0) := by omega
    have hpow : (Nat.pow 2 (k + 1) : Int) ≠ 0 := by
      have : 0 < Nat.pow 2 (k + 1) := Nat.two_pow_pos _
      omega
    simp only [truncate?, ratio, if_neg hexp, Int.neg_neg, Int.toNat_natCast]
    rw [Int.natCast_mul, ← Int.mul_assoc, Int.mul_tdiv_cancel _ hpow]
    cases negative <;> simp [signed]

theorem truncate?_zero : truncate? (zero negative) = some 0 := by
  cases negative <;> decide +kernel

theorem roundQuotient_one (n : Nat) : roundQuotient n 1 = n := by
  simp [roundQuotient, Nat.mod_one]

/-- **A whole number is cut to the rounded one.** -/
theorem truncate?_ofRatio (h : n.log2 ≤ 1000) :
    (ofRatio negative n 1).truncate? = some (signed negative (rounded n)) := by
  unfold ofRatio
  by_cases hn : n = 0
  · subst hn
    rw [if_pos rfl, truncate?_zero]
    cases negative <;> rfl
  simp only [if_neg hn, exponentFor_whole hn, scaled_whole]
  by_cases hlog : n.log2 ≤ 52
  · -- there is room for all digits, and the significand has zeros behind them
    have hspare : spare n = 0 := Nat.sub_eq_zero_of_le hlog
    have hbound := (scaled_bounds hn).2
    rw [hspare] at hbound
    have hexp : (n.log2 : Int) - 52 = -((52 - n.log2 : Nat) : Int) := by omega
    have hone : Nat.pow 2 0 = 1 := rfl
    rw [hone, Nat.mul_one] at hbound
    rw [rounded, hspare, hone, roundQuotient_one, roundQuotient_one, Nat.mul_one,
      if_neg (Nat.ne_of_lt hbound), hexp]
    dsimp only
    rw [if_neg (by unfold greatestExponent; omega)]
    exact truncate?_of_fraction negative n _
  · have hshort : 52 - n.log2 = 0 := by omega
    have hexp : (n.log2 : Int) - 52 = (spare n : Int) := by unfold spare; omega
    have hone : n * Nat.pow 2 0 = n := Nat.mul_one n
    rw [hshort, hone, hexp]
    have hmax : ¬ ((spare n : Int) + 1 > greatestExponent) := by
      unfold greatestExponent
      omega
    by_cases hcarry : roundQuotient n (Nat.pow 2 (spare n)) = Nat.pow 2 53
    · simp only [if_pos hcarry, if_neg hmax]
      have hcut := truncate?_of_nonneg negative (Nat.pow 2 52) (spare n + 1)
      rw [← pow_add_mul] at hcut
      rw [rounded, hcarry, ← pow_add_mul]
      exact hcut
    · have hfits : ¬ ((spare n : Int) > greatestExponent) := by omega
      simp only [if_neg hcarry, if_neg hfits]
      exact truncate?_of_nonneg negative _ _

/-! ### The nearest number -/

section

variable {n m k : Int}

/-- The nearest number of the format. -/
structure IsNearest (n m : Int) : Prop where
  representable : Representable m
  least : ∀ k, Representable k → (m - n).natAbs ≤ (k - n).natAbs

/-- A rounded number is the nearest of the format, whatever the sign. -/
theorem isNearest_signed (negative : Bool) (n : Nat) :
    IsNearest (signed negative n) (signed negative (rounded n)) := by
  have habs : ∀ n : Nat, (signed negative n).natAbs = n := by
    intro n
    cases negative <;> simp [signed]
  constructor
  · obtain ⟨m, k, hm, h⟩ := representable_rounded n
    exact ⟨m, k, hm, by rwa [habs]⟩
  · intro k hk
    have hnear := rounded_nearest (n := n) (k := k.natAbs) hk
    cases negative <;> simp only [signed, Bool.false_eq_true, if_false, if_true] <;> omega

/-- The nearest number of the format is the number itself exactly if that is one. -/
theorem IsNearest.eq_iff (h : IsNearest n m) : m = n ↔ Representable n := by
  constructor
  · rintro rfl
    exact h.representable
  · intro hn
    have := h.least n hn
    omega

/-- **The nearest number stays on its side of the numbers of the format.** -/
theorem IsNearest.le_iff (h : IsNearest n m) (hk : Representable k) (hnext : Representable (k + 1)) :
    m ≤ k ↔ n ≤ k := by
  have hbelow := h.least k hk
  have habove := h.least (k + 1) hnext
  omega

theorem representable_of_lt (h : n.natAbs < Nat.pow 2 53) : Representable n :=
  ⟨n.natAbs, 0, h, (Nat.mul_one _).symm⟩

/-- Three decimal digits are fewer than ten binary ones. -/
theorem log2_le_of_digitCount {n : Nat} (j : Nat) (hj : 0 < j) (h : digitCount n ≤ 3 * j) :
    n.log2 ≤ 10 * j := by
  by_cases hn : n = 0
  · rw [hn]
    exact Nat.zero_le _
  have hpow : n < 10 ^ (3 * j) :=
    (Nat.length_toDigits_le_iff (by decide) (Nat.mul_pos (by decide) hj)).1 h
  have hten : 10 ^ (3 * j) ≤ 2 ^ (10 * j) := by
    rw [Nat.pow_mul, Nat.pow_mul]
    exact Nat.pow_le_pow_left (by decide) j
  exact Nat.le_of_lt ((Nat.log2_lt hn).2 (Nat.lt_of_lt_of_le hpow hten))

/-- A whole number that is read and cut is the nearest of the format. -/
theorem truncate?_ofDecimal (n : Int) (h : digitCount n.natAbs ≤ 300) :
    ∃ m, IsNearest n m ∧ (ofDecimal (decide (n < 0)) n.natAbs 0).truncate? = some m := by
  have hsigned : signed (decide (n < 0)) n.natAbs = n := by
    simp only [signed, decide_eq_true_eq]
    omega
  have hnear := isNearest_signed (decide (n < 0)) n.natAbs
  rw [hsigned] at hnear
  refine ⟨_, hnear, ?_⟩
  rw [← truncate?_ofRatio _ (log2_le_of_digitCount 100 (by decide) h)]
  by_cases hzero : n.natAbs = 0
  · simp [ofDecimal, ofRatio, hzero]
  · have hmany : ¬ ((digitCount n.natAbs : Int) + 0 > 310) := by omega
    have hfew : ¬ ((digitCount n.natAbs : Int) + 0 < -330) := by omega
    have hone : n.natAbs * Nat.pow 10 (0 : Int).toNat = n.natAbs := Nat.mul_one _
    simp only [ofDecimal, if_neg hzero, if_neg hmany, if_neg hfew, hone]
    rfl

end

end Binary64
end ScreenForge
