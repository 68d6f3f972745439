/-
# What attribute values keep

A text gets a backslash if it would be read as a reference, and a backslash that is there already
stays as it is.  A whole number is read as a floating point number and written as the nearest one of
the format.
-/
import ScreenForge.Component.Format
import ScreenForge.Proofs.Number.Numeral
import ScreenForge.Proofs.Number.Rounding

namespace ScreenForge
namespace Component

open Binary64

/-! ### Texts -/

/-- Whether a text would be read as a reference. -/
def isReference (s : String) : Bool := s.toList.head? == some '@' || s.toList.head? == some '?'

/-- A text without the backslash that keeps it from being read as a reference. -/
def unescaped (s : String) : String :=
  match s.toList with
  | '\\' :: rest => if isReference (String.ofList rest) then String.ofList rest else s
  | _ => s

variable {s t : String}

theorem isReference_backslash (s : String) : isReference ("\\" ++ s) = false := by
  simp [isReference]

theorem literalText_eq (s : String) :
    literalText s = if isReference s then "\\" ++ s else s := by
  unfold literalText isReference
  split
  · next c hc => simp [hc]
  · next hc => simp [hc]

/-- No text is written as a reference. -/
theorem isReference_literalText (s : String) : isReference (literalText s) = false := by
  rw [literalText_eq]
  split
  · exact isReference_backslash s
  · next h => simpa using h

theorem unescaped_backslash (h : isReference s) : unescaped ("\\" ++ s) = s := by
  simp [unescaped, h]

theorem unescaped_eq_self (h : ¬ ∃ r, isReference r ∧ s = "\\" ++ r) : unescaped s = s := by
  unfold unescaped
  split
  · next rest hs =>
    refine if_neg fun hrest => h ⟨_, hrest, ?_⟩
    rw [← String.toList_inj, hs]
    simp
  · rfl

/-- **Dropping the backslash gives a text back exactly if the text is no escaped reference.** -/
theorem unescaped_literalText_iff :
    unescaped (literalText s) = s ↔ ¬ ∃ r, isReference r ∧ s = "\\" ++ r := by
  rw [literalText_eq]
  constructor
  · rintro h ⟨r, hr, rfl⟩
    rw [isReference_backslash, if_neg (by decide), unescaped_backslash hr] at h
    have := congrArg String.length h
    rw [String.length_append] at this
    exact absurd this (by simp)
  · intro h
    split
    · next hs => exact unescaped_backslash hs
    · exact unescaped_eq_self h

/-- Only a reference and its escaped form are written alike. -/
theorem literalText_eq_iff : literalText s = literalText t ↔
    s = t ∨ (isReference s ∧ t = "\\" ++ s) ∨ (isReference t ∧ s = "\\" ++ t) := by
  have hne : ∀ {a b : String}, isReference a → a ≠ "\\" ++ b := by
    rintro a b ha rfl
    rw [isReference_backslash] at ha
    cases ha
  have hdiff : isReference s ≠ isReference t → s ≠ t := mt (congrArg isReference)
  rw [literalText_eq, literalText_eq]
  cases hs : isReference s <;> cases ht : isReference t
  · simp
  · simp [hdiff (by simp [hs, ht])]
  · simp [hdiff (by simp [hs, ht]), eq_comm]
  · simp [hne hs, hne ht]

/-- **Two texts are written alike exactly if one is the other escaped**, and only an escaped
reference is not given back when the backslash is dropped. -/
theorem text_format_collision_iff (s t : String) :
    isReference (literalText s) = false ∧
      (Format.text.render? (.text s) = Format.text.render? (.text t) ↔
        s = t ∨ (isReference s ∧ t = "\\" ++ s) ∨ (isReference t ∧ s = "\\" ++ t)) ∧
      ((Format.text.render? (.text s)).map unescaped = some s ↔
        ¬ ∃ r, isReference r ∧ s = "\\" ++ r) := by
  refine ⟨isReference_literalText s, ?_, ?_⟩
  · exact Option.some_inj.trans literalText_eq_iff
  · exact Option.some_inj.trans unescaped_literalText_iff

/-- A reference and its escaped form are written alike. -/
theorem text_format_collision_home :
    Format.text.render? (.text "@home") = some "\\@home" ∧
      Format.text.render? (.text "\\@home") = some "\\@home" := by decide

/-! ### Whole numbers -/

theorem cut_of_truncate? {s : String} {x : Binary64} {m : Int} (hx : Numeral.decimal? s = some x)
    (hm : x.truncate? = some m) : cut s = .number m := by
  cases x with
  | finite negative significand exponent => simp only [cut, hx, hm]
  | infinite negative | nan => cases hm

/-- A whole number is cut to the nearest of the format. -/
theorem cut_toString {n : Int} (h : digitCount n.natAbs ≤ 300) :
    ∃ m, IsNearest n m ∧ cut (toString n) = .number m := by
  obtain ⟨m, hm, htrunc⟩ := truncate?_ofDecimal n h
  exact ⟨m, hm, cut_of_truncate? (Numeral.decimal?_toString n) htrunc⟩

/-- The codes of sizes are small enough to be kept. -/
theorem sizeText_of_isNearest {n m : Int} (h : IsNearest n m) : sizeText m
    = if n = -1 then "wrap_content" else if n = -2 ∨ n ≤ -1000 then "match_parent"
      else toString m ++ "dp" := by
  have hside : ∀ k : Int, -1000 ≤ k → k < 0 → (m ≤ k ↔ n ≤ k) := fun k hlow hhigh =>
    h.le_iff (representable_of_lt (Nat.lt_of_le_of_lt (m := 1000) (by omega) (by decide)))
      (representable_of_lt (Nat.lt_of_le_of_lt (m := 1000) (by omega) (by decide)))
  have h1 := hside (-1) (by decide) (by decide)
  have h2 := hside (-2) (by decide) (by decide)
  have h3 := hside (-3) (by decide) (by decide)
  have h1000 := hside (-1000) (by decide) (by decide)
  have hwrap : m = -1 ↔ n = -1 := by omega
  have hmatch : (m = -2 ∨ m ≤ -1000) ↔ (n = -2 ∨ n ≤ -1000) := by omega
  simp only [sizeText, hwrap, hmatch]

/-- **A whole number is written as the nearest one of the format**, as a number or as a size; and
that is the number itself exactly if the format has it. -/
theorem whole_number_nearest {n : Int} (hn : digitCount n.natAbs ≤ 300) {v : Scalar}
    (hv : v = .whole n ∨ v = .text (toString n)) :
    ∃ m, IsNearest n m ∧ (m = n ↔ Representable n) ∧
      Format.integer.render? v = some (toString m) ∧
      Format.dimension.render? v = some (if n = -1 then "wrap_content"
        else if n = -2 ∨ n ≤ -1000 then "match_parent" else toString m ++ "dp") := by
  obtain ⟨m, hm, hcut⟩ := cut_toString hn
  have htext : v.asText = toString n := by rcases hv with rfl | rfl <;> rfl
  refine ⟨m, hm, hm.eq_iff, ?_, ?_⟩
  · simp only [Format.render?, htext, hcut]
  · simp only [Format.render?, htext, hcut, sizeText_of_isNearest hm]

/-- A number that the format does not have is written as another one. -/
theorem whole_number_nearest_beyond : ∃ m, IsNearest 9007199254740993 m ∧
    ¬ Representable 9007199254740993 ∧
    Format.integer.render? (.whole 9007199254740993) = some (toString m) ∧
    Format.dimension.render? (.whole 9007199254740993) = some (toString m ++ "dp") := by
  have hwritten : Format.integer.render? (.whole 9007199254740993) = some "9007199254740992" := by
    decide +kernel
  obtain ⟨m, hm, hself, hinteger, hsize⟩ :=
    whole_number_nearest (n := 9007199254740993) (by decide) (Or.inl rfl)
  refine ⟨m, hm, fun hrepresentable => ?_, hinteger, hsize⟩
  obtain rfl := hself.2 hrepresentable
  exact absurd (hwritten.symm.trans hinteger) (by decide)

/-- One more than the significands can count. -/
theorem whole_number_rounded :
    Format.integer.render? (.whole 9007199254740993) = some "9007199254740992" ∧
      Format.dimension.render? (.text "9007199254740993") = some "9007199254740992dp" := by
  decide +kernel

end Component
end ScreenForge
