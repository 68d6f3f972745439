/-
# Cutting and joining texts

Names of files and classes are cut at their last separator: `afterLast` is what stands behind the
last occurrence of a character (the whole text without one), `beforeLast` what stands before it.
The two and the separator put the text together again (`beforeLast_append_afterLast`).
-/

namespace ScreenForge
namespace Text

/-- What stands behind the last occurrence of a character, or the whole text. -/
def afterLast (sep : Char) (s : List Char) : List Char :=
  (s.reverse.takeWhile (· != sep)).reverse

/-- What stands before the last occurrence of a character, or the whole text. -/
def beforeLast (sep : Char) (s : List Char) : List Char :=
  match s.reverse.dropWhile (· != sep) with
  | [] => s
  | _ :: r => r.reverse

/-- A text that holds a separator is what precedes the last one, the separator, and the rest. -/
theorem beforeLast_append_afterLast {sep : Char} {s : List Char} (h : sep ∈ s) :
    beforeLast sep s ++ sep :: afterLast sep s = s := by
  have hcut := List.takeWhile_append_dropWhile (p := (· != sep)) (l := s.reverse)
  unfold beforeLast afterLast
  cases hd : s.reverse.dropWhile (· != sep) with
  | nil =>
    have hmem : sep ∈ s.reverse.takeWhile (· != sep) := by
      rw [hd, List.append_nil] at hcut
      rw [hcut]
      exact List.mem_reverse.2 h
    have hall : (s.reverse.takeWhile (· != sep)).all (· != sep) := List.all_takeWhile
    have := List.all_eq_true.1 hall sep hmem
    simp at this
  | cons x r =>
    have hx : x = sep := by
      have := List.head?_dropWhile_not (· != sep) s.reverse
      rw [hd] at this
      simpa using this
    subst hx
    have := congrArg List.reverse hcut
    rw [hd] at this
    simpa using this

theorem bne_of_not_mem {sep : Char} {s : List Char} (h : sep ∉ s) : ∀ c ∈ s, (c != sep) :=
  fun _ hc => bne_iff_ne.2 fun heq => h (heq ▸ hc)

/-- What holds no separator is kept with what stands behind the last one. -/
theorem afterLast_append_of_not_mem {sep : Char} {back : List Char} (h : sep ∉ back)
    (front : List Char) : afterLast sep (front ++ back) = afterLast sep front ++ back := by
  have hrun := bne_of_not_mem (mt List.mem_reverse.1 h)
  rw [afterLast, List.reverse_append, List.takeWhile_append_of_pos hrun, List.reverse_append,
    List.reverse_reverse]
  rfl

/-- A text without a separator stands behind it as a whole. -/
theorem afterLast_eq_self {sep : Char} {s : List Char} (h : sep ∉ s) : afterLast sep s = s :=
  afterLast_append_of_not_mem h []

/-- A text without a separator stands before it as a whole. -/
theorem beforeLast_eq_self {sep : Char} {s : List Char} (h : sep ∉ s) : beforeLast sep s = s := by
  have hrun := bne_of_not_mem (mt List.mem_reverse.1 h)
  have hdrop : (s.reverse ++ []).dropWhile (· != sep) = [] :=
    List.dropWhile_append_of_pos hrun
  rw [List.append_nil] at hdrop
  rw [beforeLast, hdrop]

theorem afterLast_suffix (sep : Char) (s : List Char) : afterLast sep s <:+ s := by
  rw [afterLast, ← List.reverse_prefix, List.reverse_reverse]
  exact List.takeWhile_prefix _

theorem not_mem_afterLast (sep : Char) (s : List Char) : sep ∉ afterLast sep s := by
  intro hmem
  have hall : (s.reverse.takeWhile (· != sep)).all (· != sep) := List.all_takeWhile
  have := List.all_eq_true.1 hall sep (List.mem_reverse.1 hmem)
  simp at this

/-- What stands before a separator does not count. -/
theorem afterLast_append_cons (sep : Char) (front s : List Char) :
    afterLast sep (front ++ sep :: s) = afterLast sep s := by
  rw [afterLast, afterLast, List.reverse_append, List.reverse_cons, List.append_assoc,
    List.takeWhile_append]
  split
  · next hlength =>
    rw [(List.takeWhile_prefix _).eq_of_length hlength]
    simp
  · rfl

theorem afterLast_append {sep : Char} {s : List Char} (h : sep ∉ s) (front : List Char) :
    afterLast sep (front ++ sep :: s) = s :=
  (afterLast_append_cons sep front s).trans (afterLast_eq_self h)

theorem takeWhile_of_head {α : Type} {p : α → Bool} {s : List α} (h : ∀ c ∈ s.head?, p c = false) :
    s.takeWhile p = [] ∧ s.dropWhile p = s := by
  cases s with
  | nil => exact ⟨rfl, rfl⟩
  | cons c rest =>
    have hc := h c rfl
    exact ⟨by rw [List.takeWhile_cons, hc]; rfl, by rw [List.dropWhile_cons, hc]; rfl⟩

/-- Whether a text starts with another, as texts. -/
def startsWith (s p : List Char) : Bool := p.isPrefixOf s

/-- The position of the first occurrence of a nonempty pattern. -/
def indexOf? (pattern : List Char) : List Char → Option Nat
  | [] => none
  | c :: rest =>
    if startsWith (c :: rest) pattern then some 0 else (indexOf? pattern rest).map (· + 1)

/-- The position of the last occurrence of a nonempty pattern. -/
def lastIndexOf? (pattern : List Char) : List Char → Option Nat
  | [] => none
  | c :: rest =>
    match lastIndexOf? pattern rest with
    | some n => some (n + 1)
    | none => if startsWith (c :: rest) pattern then some 0 else none

/-- Line ends as single line feeds. -/
def normalizeLines : List Char → List Char
  | [] => []
  | '\r' :: '\n' :: rest => '\n' :: normalizeLines rest
  | '\r' :: rest => '\n' :: normalizeLines rest
  | c :: rest => c :: normalizeLines rest

/-- Joins texts with a separator between neighbours. -/
def join (sep : String) : List String → String
  | [] => ""
  | [s] => s
  | s :: rest => s ++ sep ++ join sep rest

/-- Distinct texts in code point order. -/
def sorted (texts : List String) : List String := (texts.mergeSort fun a b => a ≤ b).eraseDups

end Text
end ScreenForge
