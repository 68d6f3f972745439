/-
# Number literals

A number block is written as a numeral of Kotlin (`IsNumeral`): perhaps a minus, digits, perhaps a
point with digits behind it, perhaps an exponent with its sign.
-/
import ScreenForge.Kotlin.Literal
import ScreenForge.Proofs.Number.Numeral

namespace ScreenForge
namespace Kotlin

open List

/-- Digits, at least one. -/
def IsDigits (ds : List Char) : Prop := ds ≠ [] ∧ ∀ c ∈ ds, c.isDigit = true

/-- Digits, perhaps with a point among them. -/
inductive IsFixed : List Char → Prop where
  | whole {ds : List Char} (h : IsDigits ds) : IsFixed ds
  | point {ds fs : List Char} (hwhole : IsDigits ds) (h : IsDigits fs) : IsFixed (ds ++ '.' :: fs)

/-- A number without a sign, perhaps with an exponent. -/
inductive IsUnsigned : List Char → Prop where
  | fixed {cs : List Char} (h : IsFixed cs) : IsUnsigned cs
  | scaled {cs ds : List Char} {sign : Char} (h : IsFixed cs) (hsign : sign = '+' ∨ sign = '-')
      (hds : IsDigits ds) : IsUnsigned (cs ++ 'e' :: sign :: ds)

/-- A number as it stands in code. -/
inductive IsNumeral : List Char → Prop where
  | unsigned {cs : List Char} (h : IsUnsigned cs) : IsNumeral cs
  | negative {cs : List Char} (h : IsUnsigned cs) : IsNumeral ('-' :: cs)

theorem isDigits_toDigits (n : Nat) : IsDigits (Nat.toDigits 10 n) :=
  ⟨Nat.toDigits_ne_nil, fun _ hc => Nat.isDigit_of_mem_toDigits (by decide) (by decide) hc⟩

theorem isDigits_singleton {d : Char} (hd : d.isDigit) : IsDigits [d] := by
  simpa [IsDigits] using hd

variable {ds : List Char}

theorem IsDigits.append {fs : List Char} (hds : ∀ c ∈ ds, c.isDigit) (h : IsDigits fs) :
    IsDigits (ds ++ fs) :=
  ⟨fun he => h.1 (append_eq_nil_iff.1 he).2, forall_mem_append.2 ⟨hds, h.2⟩⟩

theorem isDigit_replicate (n : Nat) : ∀ c ∈ List.replicate n '0', c.isDigit := by
  intro c hc
  rw [(mem_replicate.1 hc).2]
  decide

theorem isFixed_cons {d : Char} {fs : List Char} (hd : d.isDigit) (h : IsDigits fs) :
    IsFixed (d :: '.' :: fs) :=
  IsFixed.point (isDigits_singleton hd) h

/-- A floating point number in plain notation has digits on both sides of a point. -/
theorem isFixed_positional (h : IsDigits ds) (place : Int) :
    IsFixed (FloatStyle.positional ds place) := by
  unfold FloatStyle.positional
  split
  · exact isFixed_cons (by decide) (.append (isDigit_replicate _) h)
  · have hpadded := forall_mem_append.2
      ⟨h.2, isDigit_replicate (place.toNat + 1 - ds.length)⟩
    refine .point ⟨?_, fun c hc => hpadded c (mem_of_mem_take hc)⟩ ?_
    · simp [h.1]
    · split
      · exact isDigits_singleton (by decide)
      · next hne => exact ⟨by simpa using hne, fun c hc => hpadded c (mem_of_mem_drop hc)⟩

/-- One with an exponent is a numeral. -/
theorem isUnsigned_scientific (h : IsDigits ds) (width : Nat) (place : Int) :
    IsUnsigned (FloatStyle.scientific width ds place) := by
  refine .scaled ?_ (by split <;> simp) (.append (isDigit_replicate _) (isDigits_toDigits _))
  split
  · exact absurd rfl h.1
  · exact .whole h
  · next d rest hrest =>
    have hdigits := forall_mem_cons.1 h.2
    exact isFixed_cons hdigits.1 ⟨hrest, hdigits.2⟩

/-- **A number literal is a numeral.** -/
theorem isNumeral_numberLiteral? {s text : String} (h : numberLiteral? s = some text) :
    IsNumeral text.toList := by
  unfold numberLiteral? at h
  dsimp only at h
  split at h
  · next n _ =>
    obtain rfl := Option.some.inj h
    have hdigits : IsUnsigned (Nat.toDigits 10 n.natAbs) := .fixed (.whole (isDigits_toDigits _))
    rw [Numeral.toList_toString, Json.intChars]
    split
    · exact .negative hdigits
    · exact .unsigned hdigits
  · split at h
    · next negative m e _ =>
      obtain rfl := Option.some.inj h
      have hbody : IsUnsigned (if m = 0 then ['0', '.', '0']
          else FloatStyle.decimal .plain (Binary64.shortest m e)) := by
        split
        · exact .fixed (isFixed_cons (by decide) (isDigits_singleton (by decide)))
        · unfold FloatStyle.decimal
          dsimp only
          split
          · exact .fixed (isFixed_positional (isDigits_toDigits _) _)
          · exact isUnsigned_scientific (isDigits_toDigits _) _ _
      rw [FloatStyle.render, String.toList_ofList]
      split
      · exact .negative hbody
      · exact .unsigned hbody
    · cases h

/-- Whether a character may stand in a number. -/
def isNumberChar (c : Char) : Bool := c.isDigit || ['.', 'e', '+', '-'].contains c

theorem IsDigits.isNumberChar (h : IsDigits ds) : ∀ c ∈ ds, isNumberChar c :=
  fun c hc => by rw [Kotlin.isNumberChar, h.2 c hc, Bool.true_or]

theorem IsFixed.isNumberChar {cs : List Char} (h : IsFixed cs) : ∀ c ∈ cs, isNumberChar c := by
  cases h with
  | whole h => exact h.isNumberChar
  | point hwhole h =>
    exact forall_mem_append.2 ⟨hwhole.isNumberChar,
      forall_mem_cons.2 ⟨by decide, h.isNumberChar⟩⟩

/-- **A numeral is made of digits, a point, signs and the exponent's letter.** -/
theorem IsNumeral.isNumberChar {cs : List Char} (h : IsNumeral cs) : ∀ c ∈ cs, isNumberChar c := by
  have hunsigned : ∀ {cs}, IsUnsigned cs → ∀ c ∈ cs, Kotlin.isNumberChar c := by
    intro cs h
    cases h with
    | fixed h => exact h.isNumberChar
    | scaled h hsign hds =>
      simp only [forall_mem_append, forall_mem_cons]
      exact ⟨h.isNumberChar, by decide, by rcases hsign with rfl | rfl <;> decide, hds.isNumberChar⟩
  cases h with
  | unsigned h => exact hunsigned h
  | negative h => exact forall_mem_cons.2 ⟨by decide, hunsigned h⟩

end Kotlin
end ScreenForge
