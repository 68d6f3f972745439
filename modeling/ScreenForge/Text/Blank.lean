/-
# Blank characters

Descriptors, numbers and uploads are all trimmed by the same rule: a character is blank when
Unicode 14 calls it a space, a line or paragraph separator, or one of the control characters that
divide text (tab to carriage return, the four information separators, next line).

`strip` cuts blanks off both ends, `squeeze` drops every blank.  `trim_append` says what is cut off.
-/

namespace ScreenForge
namespace Text

/-- Blank characters of Unicode 14. -/
def isBlank (c : Char) : Bool :=
  let n := c.toNat
  (0x09 ≤ n && n ≤ 0x0D) || (0x1C ≤ n && n ≤ 0x20) || n == 0x85 || n == 0xA0 || n == 0x1680
    || (0x2000 ≤ n && n ≤ 0x200A) || n == 0x2028 || n == 0x2029 || n == 0x202F || n == 0x205F
    || n == 0x3000

/-- Drops the longest run of characters of a class at the end. -/
def dropEndWhile (p : Char → Bool) (s : List Char) : List Char :=
  (s.reverse.dropWhile p).reverse

/-- Drops blanks at both ends. -/
def stripChars (s : List Char) : List Char :=
  dropEndWhile isBlank (s.dropWhile isBlank)

/-- Drops blanks at both ends. -/
def strip (s : String) : String := String.ofList (stripChars s.toList)

/-- Drops every blank. -/
def squeeze (s : List Char) : List Char := s.filter fun c => !isBlank c

/-- Only blanks. -/
def Blank (s : List Char) : Prop := ∀ c ∈ s, isBlank c = true

section

variable {p : Char → Bool} {before s after : List Char}

/-- **Dropping a class of characters takes those around a text and no more**, if the text neither
starts nor ends with one. -/
theorem trim_append (hbefore : ∀ c ∈ before, p c) (hafter : ∀ c ∈ after, p c)
    (hfirst : ∀ c ∈ s.head?, p c = false) (hlast : ∀ c ∈ s.getLast?, p c = false) :
    dropEndWhile p ((before ++ (s ++ after)).dropWhile p) = s := by
  have hend : ∀ c ∈ after.reverse, p c := fun c hc => hafter c (List.mem_reverse.1 hc)
  rw [List.dropWhile_append_of_pos hbefore]
  cases s with
  | nil =>
    rw [List.nil_append, ← List.append_nil after, List.dropWhile_append_of_pos hafter]
    rfl
  | cons a rest =>
    rw [List.cons_append, List.dropWhile_cons_of_neg (by simp [hfirst a rfl]), ← List.cons_append,
      dropEndWhile, List.reverse_append, List.dropWhile_append_of_pos hend]
    cases hback : (a :: rest).reverse with
    | nil => cases List.reverse_eq_nil_iff.1 hback
    | cons b front =>
      have hb : p b = false := hlast b (by rw [← List.head?_reverse, hback]; rfl)
      rw [List.dropWhile_cons_of_neg (by simp [hb]), ← hback, List.reverse_reverse]

/-- A text without blanks is its own stripped form. -/
theorem stripChars_eq_self (h : ∀ c ∈ s, isBlank c = false) : stripChars s = s := by
  have hnone : ∀ c ∈ ([] : List Char), isBlank c := by simp
  simpa [stripChars] using trim_append hnone hnone (fun c hc => h c (List.mem_of_head? hc))
    fun c hc => h c (List.mem_of_getLast? hc)

/-- What is dropped around a text is of the class. -/
theorem exists_trim (p : Char → Bool) (s : List Char) : ∃ before after, (∀ c ∈ before, p c) ∧
    (∀ c ∈ after, p c) ∧ s = before ++ (dropEndWhile p (s.dropWhile p) ++ after) := by
  refine ⟨s.takeWhile p, ((s.dropWhile p).reverse.takeWhile p).reverse,
    List.all_eq_true.1 List.all_takeWhile,
    fun c hc => List.all_eq_true.1 List.all_takeWhile c (List.mem_reverse.1 hc), ?_⟩
  rw [dropEndWhile, ← List.reverse_append, List.takeWhile_append_dropWhile, List.reverse_reverse,
    List.takeWhile_append_dropWhile]

/-- **Stripping takes the blanks around a text and no more.** -/
theorem stripChars_append {a b : Char} (hbefore : Blank before) (hafter : Blank after)
    (hfirst : s.head? = some a) (hlast : s.getLast? = some b) (ha : isBlank a = false)
    (hb : isBlank b = false) : stripChars (before ++ (s ++ after)) = s :=
  trim_append hbefore hafter (fun c hc => by rwa [← Option.some.inj (hfirst.symm.trans hc)])
    fun c hc => by rwa [← Option.some.inj (hlast.symm.trans hc)]

end

end Text
end ScreenForge
