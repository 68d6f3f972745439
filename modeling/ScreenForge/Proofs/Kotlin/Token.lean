/-
# Tokens of expressions

The text of an expression is cut into tokens before its structure is read.  Letters, digits and
underscores that touch are one word, a sign of two characters is preferred to one of a single
character, and blanks only divide. `this@Label` is one word as well.

`Cuts s ts` holds of texts that end in a sign or a blank, in front of anything; `Splits s ts` of
texts that may end in a word, in front of what does not go on with the word.
-/
import ScreenForge.Proofs.Kotlin.Name

namespace ScreenForge
namespace Kotlin

open List

variable {u s : List Char} {ts : List Token}

/-- Operators between two operands. -/
inductive Operator where
  | or
  | and
  | equal
  | notEqual
  | less
  | lessEqual
  | greater
  | greaterEqual
  | plus
  | minus
  | times
  | over
  deriving DecidableEq, Repr

/-- How an operator is written. -/
def Operator.sign : Operator → String
  | .or => "||"
  | .and => "&&"
  | .equal => "=="
  | .notEqual => "!="
  | .less => "<"
  | .lessEqual => "<="
  | .greater => ">"
  | .greaterEqual => ">="
  | .plus => "+"
  | .minus => "-"
  | .times => "*"
  | .over => "/"

/-- How tightly an operator binds. -/
def Operator.level : Operator → Nat
  | .or => 1
  | .and => 2
  | .equal => 3
  | .notEqual => 3
  | .less => 4
  | .lessEqual => 4
  | .greater => 4
  | .greaterEqual => 4
  | .plus => 5
  | .minus => 5
  | .times => 6
  | .over => 6

/-- A token of an expression. -/
inductive Token where
  | number (value : Nat)
  | truth (value : Bool)
  | word (name : String)
  /-- `this@Label` -/
  | self (label : String)
  | operator (o : Operator)
  | bang
  | dot
  | comma
  | opening
  | closing
  /-- `if` -/
  | choice
  /-- `else` -/
  | otherwise
  deriving DecidableEq, Repr

/-- The label behind `this@`. -/
def labelOf? : List Char → Option String
  | 't' :: 'h' :: 'i' :: 's' :: '@' :: label =>
    if isName (String.ofList label) then some (String.ofList label) else none
  | _ => none

/-- The token of a word. -/
def wordToken? (word : List Char) : Option Token :=
  if word.all Char.isDigit then some (.number (Nat.ofDigitChars 10 word 0))
  else if word = ['i', 'f'] then some .choice
  else if word = ['e', 'l', 's', 'e'] then some .otherwise
  else if word = ['t', 'r', 'u', 'e'] then some (.truth true)
  else if word = ['f', 'a', 'l', 's', 'e'] then some (.truth false)
  else if isName (String.ofList word) then some (.word (String.ofList word))
  else (labelOf? word).map .self

/-- Whether a character can stand in a word. -/
def isWordChar (c : Char) : Bool := isNameChar c || c == '@'

/-- The operator that two characters write. -/
def pairSign? : Char → Option Char → Option Operator
  | '=', some '=' => some .equal
  | '!', some '=' => some .notEqual
  | '<', some '=' => some .lessEqual
  | '>', some '=' => some .greaterEqual
  | '&', some '&' => some .and
  | '|', some '|' => some .or
  | _, _ => none

/-- The token that a single character writes. -/
def sign? : Char → Option Token
  | '+' => some (.operator .plus)
  | '-' => some (.operator .minus)
  | '*' => some (.operator .times)
  | '/' => some (.operator .over)
  | '<' => some (.operator .less)
  | '>' => some (.operator .greater)
  | '!' => some .bang
  | '.' => some .dot
  | ',' => some .comma
  | '(' => some .opening
  | ')' => some .closing
  | _ => none

/-- Tokens behind a word that has come to its end; no word is no token. -/
def endWord (word : List Char) (ts : List Token) : Option (List Token) :=
  if word = [] then some ts else (wordToken? word).map (· :: ts)

/-- The tokens of a text behind the part of a word that has been read. -/
def scan (word : List Char) : List Char → Option (List Token)
  | [] => endWord word []
  | c :: cs =>
    if isWordChar c then scan (word ++ [c]) cs
    else if c = ' ' then (scan [] cs).bind (endWord word)
    else
      match pairSign? c cs.head? with
      | some o => (match cs with
        | [] => none
        | _ :: rest => scan [] rest).bind fun ts => endWord word (.operator o :: ts)
      | none => (sign? c).bind fun t => (scan [] cs).bind fun ts => endWord word (t :: ts)

/-- The tokens of a text. -/
def tokens? (s : String) : Option (List Token) := scan [] s.toList

theorem scan_wordChar {c : Char} (h : isWordChar c) (word cs : List Char) :
    scan word (c :: cs) = scan (word ++ [c]) cs := by
  rw [scan.eq_def]
  exact if_pos h

/-- Letters that touch are one word. -/
theorem scan_append_word (hu : ∀ c ∈ u, isWordChar c) (word rest : List Char) :
    scan word (u ++ rest) = scan (word ++ u) rest := by
  induction u generalizing word with
  | nil => simp
  | cons c u ih =>
    rw [cons_append, scan_wordChar (hu c mem_cons_self),
      ih (fun d hd => hu d (mem_cons_of_mem _ hd)), append_assoc, singleton_append]

/-- Whether a text does not go on with a word. -/
def Ends (rest : List Char) : Prop := ∀ c ∈ rest.head?, isWordChar c = false

theorem endWord_nil (ts : List Token) : endWord [] ts = some ts := rfl

/-- **A word is over where the text does not go on with it.** -/
theorem scan_of_ends {rest : List Char} (h : Ends rest) (word : List Char) :
    scan word rest = (scan [] rest).bind (endWord word) := by
  cases rest with
  | nil => rfl
  | cons c cs =>
    have hc : isWordChar c = false := h c rfl
    rw [scan.eq_def, scan.eq_def []]
    simp only [hc, Bool.false_eq_true, if_false]
    split
    · simp [Option.bind_assoc, endWord_nil]
    · split <;> simp [Option.bind_assoc, endWord_nil]

/-- `Cuts s ts`: in front of anything, the characters `s` are the tokens `ts`. -/
def Cuts (s : List Char) (ts : List Token) : Prop :=
  ∀ rest, scan [] (s ++ rest) = (scan [] rest).map (ts ++ ·)

/-- `Splits s ts`: the characters `s` are the tokens `ts` in front of anything that does not go on
with a word. -/
def Splits (s : List Char) (ts : List Token) : Prop :=
  ∀ rest, Ends rest → scan [] (s ++ rest) = (scan [] rest).map (ts ++ ·)

theorem Cuts.splits (h : Cuts s ts) : Splits s ts :=
  fun rest _ => h rest

theorem map_append_append {α : Type} (us vs : List α) (found : Option (List α)) :
    (found.map (vs ++ ·)).map (us ++ ·) = found.map (us ++ vs ++ ·) := by
  cases found <;> simp

variable {us : List Token} {t : Token}

theorem Cuts.append (hs : Cuts s ts) (hu : Cuts u us) : Cuts (s ++ u) (ts ++ us) := by
  intro rest
  rw [append_assoc, hs, hu, map_append_append]

theorem Cuts.append_splits (hs : Cuts s ts) (hu : Splits u us) : Splits (s ++ u) (ts ++ us) := by
  intro rest hrest
  rw [append_assoc, hs, hu rest hrest, map_append_append]

/-- A text that may end in a word can stand in front of a sign. -/
theorem Splits.append_cuts (hs : Splits s ts) (hu : Cuts u us)
    (hend : u.head?.any fun c => !isWordChar c) : Cuts (s ++ u) (ts ++ us) := by
  intro rest
  have hrest : Ends (u ++ rest) := by
    cases u with
    | nil => cases hend
    | cons c cs => simpa [Ends] using hend
  rw [append_assoc, hs _ hrest, hu, map_append_append]

/-- **A word is its token.** -/
theorem splits_word (hne : u ≠ []) (hu : ∀ c ∈ u, isWordChar c) (ht : wordToken? u = some t) :
    Splits u [t] := by
  intro rest hrest
  have hend : endWord u = fun ts => some (t :: ts) := by
    funext ts
    simp [endWord, hne, ht]
  rw [scan_append_word hu, nil_append, scan_of_ends hrest, hend]
  cases scan [] rest <;> rfl

/-- A word that is spelled out. -/
theorem splits_spelled (hne : u ≠ []) (hu : u.all isWordChar) (ht : wordToken? u = some t) :
    Splits u [t] :=
  splits_word hne (all_eq_true.1 hu) ht

/-! ### Signs and blanks -/

theorem scan_blank (rest : List Char) : scan [] (' ' :: rest) = scan [] rest := by
  have hw : isWordChar ' ' = false := by decide
  have hend : endWord [] = some := funext endWord_nil
  rw [scan.eq_def]
  simp [hw, hend]

theorem scan_sign {c : Char} (hw : isWordChar c = false) (hb : c ≠ ' ') (ht : sign? c = some t)
    {r : List Char} (hp : pairSign? c r.head? = none) :
    scan [] (c :: r) = (scan [] r).map (t :: ·) := by
  rw [scan.eq_def]
  simp only [hw, Bool.false_eq_true, if_false, hb, hp, ht, Option.bind_some]
  cases scan [] r <;> rfl

theorem scan_pair {c d : Char} {o : Operator} (hw : isWordChar c = false) (hb : c ≠ ' ')
    (hp : pairSign? c (some d) = some o) (rest : List Char) :
    scan [] (c :: d :: rest) = (scan [] rest).map (.operator o :: ·) := by
  rw [scan.eq_def]
  simp only [hw, Bool.false_eq_true, if_false, hb, List.head?_cons, hp]
  cases scan [] rest <;> rfl

theorem cuts_blank : Cuts [' '] [] := by
  intro rest
  rw [singleton_append, scan_blank]
  cases scan [] rest <;> rfl

theorem cuts_opening : Cuts ['('] [.opening] :=
  fun _ => scan_sign (by decide) (by decide) rfl rfl

theorem cuts_closing : Cuts [')'] [.closing] :=
  fun _ => scan_sign (by decide) (by decide) rfl rfl

theorem cuts_dot : Cuts ['.'] [.dot] :=
  fun _ => scan_sign (by decide) (by decide) rfl rfl

theorem cuts_comma : Cuts [','] [.comma] :=
  fun _ => scan_sign (by decide) (by decide) rfl rfl

theorem cuts_minus : Cuts ['-'] [.operator .minus] :=
  fun _ => scan_sign (by decide) (by decide) rfl rfl

/-- An operator has one character that starts no longer sign, or two that are its own. -/
theorem Operator.sign_spec (o : Operator) :
    ∃ c cs, o.sign.toList = c :: cs ∧ isWordChar c = false ∧ c ≠ ' ' ∧
      ((cs = [] ∧ sign? c = some (.operator o) ∧ pairSign? c (some ' ') = none) ∨
        (cs.length = 1 ∧ pairSign? c cs.head? = some o)) := by
  cases o <;> exact ⟨_, _, rfl, by decide⟩

/-- The sign of an operator between blanks. -/
theorem cuts_operator (o : Operator) : Cuts (' ' :: (o.sign.toList ++ [' '])) [.operator o] := by
  intro rest
  obtain ⟨c, cs, hs, hw, hb, ⟨rfl, ht, hp⟩ | ⟨hlen, hp⟩⟩ := o.sign_spec
  · have hscan := scan_sign (r := ' ' :: rest) hw hb ht hp
    rw [cons_append, scan_blank, hs, append_assoc, singleton_append,
      singleton_append, hscan, scan_blank]
    rfl
  · obtain ⟨d, rfl⟩ := length_eq_one_iff.1 hlen
    rw [cons_append, scan_blank, hs, append_assoc, cons_append,
      singleton_append, scan_pair hw hb hp, singleton_append, scan_blank]
    rfl

/-- A text reads as its tokens when nothing stands behind it. -/
theorem Splits.tokens?_eq {s : String} (h : Splits s.toList ts) : tokens? s = some ts := by
  have := h [] (by simp [Ends])
  simpa [tokens?, scan, endWord_nil] using this

end Kotlin
end ScreenForge
