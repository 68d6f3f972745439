/-
# Texts that can stand as operands

Whether a text is bracketed is decided by its first character, so what can be said of operands has
to be said with it.  An `Atom` is a text that the grammar takes as a numeral, a word, a bracket or a
member call, and that starts with no sign.  An `Operand` is an atom or a negative numeral.  A sign
in front of a negative numeral is the one place where an operand that is no atom could be misread:
`--5` has another meaning, and `!-5` has not.
-/
import ScreenForge.Proofs.Kotlin.Grammar

namespace ScreenForge
namespace Kotlin

open List

variable {a : Phrase} {w s : String} {ts : List Token} {b : Phrase}

/-- **A phrase of a level is one of every level that binds less tightly.** -/
theorem Derives.mono {j k : Nat} (h : Derives k ts a) (hjk : j ≤ k) : Derives j ts a := by
  obtain ⟨d, rfl⟩ := Nat.exists_eq_add_of_le hjk
  induction d with
  | zero => exact h
  | succ d ih => exact ih h.tighter (Nat.le_add_right j d)

/-- A text that starts with no sign and that the grammar takes at its tightest level. -/
def Atom (s : String) (a : Phrase) : Prop :=
  (∃ c, s.toList.head? = some c ∧ c ≠ '-' ∧ c ≠ '!' ∧ c ≠ '=') ∧
    ∃ ts, Splits s.toList ts ∧ Derives 8 ts a

/-- An atom or a negative numeral. -/
def Operand (s : String) (a : Phrase) : Prop :=
  Atom s a ∨ ∃ n : Nat, s = "-" ++ toString n ∧ a = .signed .minus (.number n)

/-! ### Words and numerals -/

theorem splits_number (n : Nat) : Splits (toString n).toList [.number n] := by
  have hdigit : ∀ c ∈ (toString n).toList, c.isDigit := fun c => isDigit_of_mem_toString
  refine splits_word ?_ (fun c hc => ?_) ?_
  · rw [Nat.toString_eq_ofList_toDigits, String.toList_ofList]
    exact Nat.toDigits_ne_nil
  · simp [isWordChar, isNameChar, Char.isAlphanum, hdigit c hc]
  · rw [wordToken?, if_pos (all_eq_true.2 hdigit), Nat.toString_eq_ofList_toDigits,
      String.toList_ofList, Nat.ofDigitChars_ten_toDigits]

theorem atom_number (n : Nat) : Atom (toString n) (.number n) := by
  refine ⟨?_, _, splits_number n, .number n⟩
  have hdigit : ∀ c ∈ (toString n).toList, c.isDigit := fun c => isDigit_of_mem_toString
  cases hs : (toString n).toList with
  | nil =>
    rw [Nat.toString_eq_ofList_toDigits, String.toList_ofList] at hs
    exact absurd hs Nat.toDigits_ne_nil
  | cons c cs =>
    have hc : c.isDigit := hdigit c (hs ▸ mem_cons_self)
    refine ⟨c, rfl, ?_, ?_, ?_⟩ <;> (rintro rfl; exact absurd hc (by decide))

/-- The phrase of a whole number: numerals have no sign, so a minus stands before a negative one. -/
def Phrase.ofInt : Int → Phrase
  | .ofNat n => .number n
  | .negSucc n => .signed .minus (.number (n + 1))

/-- **A whole number is an operand.** -/
theorem operand_int (n : Int) : Operand (toString n) (.ofInt n) := by
  cases n with
  | ofNat m => exact Or.inl (atom_number m)
  | negSucc m => exact Or.inr ⟨m + 1, rfl, rfl⟩

/-- A name is no numeral and none of the words that the grammar knows. -/
theorem wordToken?_of_isName (h : isName w) : wordToken? w.toList = some (.word w) := by
  obtain ⟨⟨c, cs, hw, -, hd, -⟩, hk⟩ := isName_iff.1 h
  have hne : ∀ u, String.ofList u ∈ keywords → w.toList ≠ u := by
    rintro u hmem rfl
    rw [String.ofList_toList] at hmem
    exact hk hmem
  have hdigits : w.toList.all Char.isDigit = false := by simp [hw, hd]
  rw [wordToken?, if_neg (by simp [hdigits]), if_neg (hne _ (by decide)),
    if_neg (hne _ (by decide)), if_neg (hne _ (by decide)), if_neg (hne _ (by decide)),
    String.ofList_toList, if_pos h]

theorem isWordChar_of_isName (h : isName w) : ∀ c ∈ w.toList, isWordChar c := by
  intro c hc
  simp [isWordChar, isNameChar_of_isName h c hc]

theorem toList_ne_nil_of_isName (h : isName w) : w.toList ≠ [] := by
  obtain ⟨⟨c, cs, hw, -⟩, -⟩ := isName_iff.1 h
  simp [hw]

theorem splits_name (h : isName w) : Splits w.toList [.word w] :=
  splits_word (toList_ne_nil_of_isName h) (isWordChar_of_isName h) (wordToken?_of_isName h)

theorem atom_name (h : isName w) : Atom w (.name w) := by
  refine ⟨?_, _, splits_name h, .name w⟩
  obtain ⟨⟨c, cs, hw, hc, -⟩, -⟩ := isName_iff.1 h
  refine ⟨c, by simp [hw], ?_, ?_, ?_⟩ <;> (rintro rfl; exact absurd hc (by decide))

theorem atom_truth (b : Bool) : Atom (if b then "true" else "false") (.truth b) := by
  cases b with
  | true =>
    exact ⟨⟨'t', rfl, by decide⟩, _, splits_spelled (by decide) (by decide) rfl, .truth true⟩
  | false =>
    exact ⟨⟨'f', rfl, by decide⟩, _, splits_spelled (by decide) (by decide) rfl, .truth false⟩

theorem splits_self {label : String} (h : isName label) :
    Splits ("this@" ++ label).toList [.self label] := by
  have hlist : ("this@" ++ label).toList = 't' :: 'h' :: 'i' :: 's' :: '@' :: label.toList := by
    rw [String.toList_append]
    rfl
  have hname : isName (String.ofList ("this@" ++ label).toList) = false := by
    unfold isName
    rw [String.ofList_toList, hlist]
    have : isNameChar '@' = false := by decide
    simp [this]
  refine splits_word (by simp [hlist]) ?_ ?_
  · rw [hlist]
    intro c hc
    have hthis : ∀ c ∈ ['t', 'h', 'i', 's', '@'], isWordChar c :=
      all_eq_true.1 (by decide)
    rcases mem_append.1 (show c ∈ ['t', 'h', 'i', 's', '@'] ++ label.toList from hc)
      with hc | hc
    · exact hthis c hc
    · exact isWordChar_of_isName h c hc
  · have hlabel : labelOf? ("this@" ++ label).toList = some label := by
      rw [hlist, labelOf?, String.ofList_toList, if_pos h]
    rw [wordToken?, hname, hlabel, hlist]
    simp

/-- **A member of the activity is an atom.** -/
theorem atom_member {label : String} (hl : isName label) (hw : isName w) :
    Atom ("this@" ++ label ++ "." ++ w) (.member (.self label) w) := by
  have hdot := (splits_self hl).append_cuts cuts_dot (by decide)
  refine ⟨⟨'t', ?_, by decide⟩, _, ?_, (Derives.self label).member w⟩
  · simp only [String.toList_append]
    rfl
  · simpa [String.toList_append] using hdot.append_splits (splits_name hw)

/-! ### Texts from operands -/

/-- The tokens of an operand are read at the level of prefix signs. -/
theorem Operand.splits (h : Operand s a) : ∃ ts, Splits s.toList ts ∧ Derives 7 ts a := by
  rcases h with ⟨-, ts, hs, hd⟩ | ⟨n, rfl, rfl⟩
  · exact ⟨ts, hs, hd.tighter⟩
  · refine ⟨_, ?_, .signed .minus (Derives.number n).tighter⟩
    rw [String.toList_append]
    exact cuts_minus.append_splits (splits_number n)

/-- **A bracket is an atom.** -/
theorem atom_group {u : List Char} (hs : s.toList = '(' :: (u ++ [')'])) (hu : Splits u ts)
    (hd : Derives 0 ts a) : Atom s a := by
  refine ⟨⟨'(', by simp [hs], by decide⟩, _, ?_, hd.group⟩
  have hclose := hu.append_cuts cuts_closing (by decide)
  rw [hs]
  exact (cuts_opening.append hclose).splits

/-- **Two operands with a sign between them are an atom.** -/
theorem Operand.infixText {l r : String} (o : Operator) (hl : Operand l a) (hr : Operand r b) :
    Atom (infixText o.sign l r) (.binary o a b) := by
  obtain ⟨ls, hls, hla⟩ := hl.splits
  obtain ⟨rs, hrs, hrb⟩ := hr.splits
  have hlt := o.level_lt
  have hleft := hls.append_cuts (cuts_operator o) rfl
  refine atom_group ?_ (hleft.append_splits hrs) (Derives.mono ?_ (Nat.zero_le o.level))
  · simp [Kotlin.infixText, String.toList_append]
  · rw [append_assoc]
    exact .binary o (hla.mono (by omega)) (hrb.mono (by omega))

/-- How a sign is written. -/
def Sign.char : Sign → Char
  | .minus => '-'
  | .bang => '!'

theorem Splits.sign {u : List Char} (s : Sign) (hu : Splits u ts)
    (hhead : ∃ c, u.head? = some c ∧ c ≠ '=') : Splits (s.char :: u) (s.token :: ts) := by
  cases s with
  | minus => exact cuts_minus.append_splits hu
  | bang =>
    intro rest hrest
    obtain ⟨c, hc, hne⟩ := hhead
    have hpair : pairSign? '!' (u ++ rest).head? = none := by
      rw [List.head?_append, hc]
      unfold pairSign?
      split <;> simp_all
    have hbang : scan [] ('!' :: (u ++ rest)) = (scan [] (u ++ rest)).map (.bang :: ·) :=
      scan_sign (by decide) (by decide) rfl hpair
    rw [Sign.char, cons_append, hbang, hu rest hrest, Option.map_map]
    rfl

theorem Operand.head (h : Operand s a) : ∃ c, s.toList.head? = some c ∧ c ≠ '=' := by
  rcases h with ⟨⟨c, hc, -, -, hne⟩, -⟩ | ⟨n, rfl, -⟩
  · exact ⟨c, hc, hne⟩
  · exact ⟨'-', by simp, by decide⟩

/-- **A sign in front of an operand is an atom.** -/
theorem Operand.signText (g : Sign) (h : Operand s a) : Atom (signText g.char s) (.signed g a) := by
  obtain ⟨ts, hs, hd⟩ := h.splits
  unfold Kotlin.signText
  split
  · have hgroup : Atom ("(" ++ s ++ ")") a := atom_group (by simp) hs (hd.mono (Nat.zero_le 7))
    obtain ⟨⟨c, hc, -, -, hne⟩, us, hu, ha⟩ := hgroup
    exact atom_group (by simp) (hu.sign g ⟨c, hc, hne⟩)
      ((Derives.signed g ha.tighter).mono (Nat.zero_le 7))
  · exact atom_group (by simp) (hs.sign g h.head) ((Derives.signed g hd).mono (Nat.zero_le 7))

/-- **A receiver is an atom.** -/
theorem Operand.receiver (h : Operand s a) : Atom (receiver s) a := by
  unfold Kotlin.receiver
  split
  · obtain ⟨ts, hs, hd⟩ := h.splits
    exact atom_group (by simp) hs (hd.mono (Nat.zero_le 7))
  · next hhead =>
    rcases h with h | ⟨n, rfl, -⟩
    · exact h
    · exact absurd (by simp) hhead

/-- A number as a floating point number. -/
def Phrase.double (a : Phrase) : Phrase := .call (.member a "toDouble") []

theorem Atom.toDouble (h : Atom s a) : Atom (s ++ ".toDouble()") a.double := by
  obtain ⟨⟨c, hc, hne⟩, ts, hs, hd⟩ := h
  have hword : Splits "toDouble".toList [.word "toDouble"] := splits_name (by decide)
  have hdot := hs.append_cuts cuts_dot (by decide)
  have hcall := (hdot.append_splits hword).append_cuts (cuts_opening.append cuts_closing) (by decide)
  have hnone : ∀ arg ∈ ([] : List (List Token × Phrase)), Derives 0 arg.1 arg.2 := by simp
  refine ⟨⟨c, by simp [hc], hne⟩, _, ?_, (hd.member "toDouble").call hnone⟩
  simpa [String.toList_append, commas] using hcall.splits

/-- **A power is an atom.** -/
theorem atom_pow {l r : String} (hl : Atom l a) (hr : Atom r b) :
    Atom ("Math.pow(" ++ l ++ ", " ++ r ++ ")") (.call (.member (.name "Math") "pow") [a, b]) := by
  obtain ⟨-, ls, hls, hla⟩ := hl
  obtain ⟨-, rs, hrs, hrb⟩ := hr
  have hmath : Splits "Math".toList [.word "Math"] := splits_name (by decide)
  have hpow : Splits "pow".toList [.word "pow"] := splits_name (by decide)
  have hcallee := ((hmath.append_cuts cuts_dot (by decide)).append_splits hpow).append_cuts
    cuts_opening (by decide)
  have hargs := (hls.append_cuts (cuts_comma.append cuts_blank) (by decide)).append_splits hrs
  have hall := (hcallee.append_splits hargs).append_cuts cuts_closing (by decide)
  have hboth : ∀ arg ∈ [(ls, a), (rs, b)], Derives 0 arg.1 arg.2 := by
    intro arg harg
    rcases mem_cons.1 harg with rfl | harg
    · exact hla.mono (Nat.zero_le 8)
    · rw [mem_singleton.1 harg]
      exact hrb.mono (Nat.zero_le 8)
  refine ⟨⟨'M', by simp, by decide⟩, _, ?_, ((Derives.name "Math").member "pow").call hboth⟩
  simpa [String.toList_append, commas] using hall.splits

/-- **A choice is an atom.** -/
theorem atom_choose {t y n : String} {c : Phrase} (ht : Operand t a) (hy : Operand y b)
    (hn : Operand n c) :
    Atom ("(if (" ++ t ++ ") " ++ y ++ " else " ++ n ++ ")") (.choose a b c) := by
  obtain ⟨ts, hts, hta⟩ := ht.splits
  obtain ⟨ys, hys, hyb⟩ := hy.splits
  obtain ⟨ns, hns, hnc⟩ := hn.splits
  have hif : Splits ['i', 'f'] [.choice] := splits_spelled (by decide) (by decide) rfl
  have helse : Splits ['e', 'l', 's', 'e'] [.otherwise] :=
    splits_spelled (by decide) (by decide) rfl
  have htest := ((hif.append_cuts (cuts_blank.append cuts_opening) (by decide)).append_splits
    hts).append_cuts (cuts_closing.append cuts_blank) (by decide)
  have hbranch := (htest.append_splits hys).append_cuts
    (cuts_blank.append (helse.append_cuts cuts_blank (by decide))) (by decide)
  refine atom_group ?_ (hbranch.append_splits hns) ?_
  · simp [String.toList_append]
  · simpa using Derives.choose (hta.mono (Nat.zero_le 7)) (hyb.mono (Nat.zero_le 7))
      (hnc.mono (Nat.zero_le 7))

/-- **An operand has one reading.** -/
theorem Operand.reads_iff (h : Operand s a) (b : Phrase) : Reads s b ↔ b = a := by
  obtain ⟨ts, hs, hd⟩ := h.splits
  have hreads : Reads s a := ⟨ts, hs.tokens?_eq, hd.mono (Nat.zero_le 7)⟩
  constructor
  · exact fun hb => hb.unique hreads
  · rintro rfl
    exact hreads

end Kotlin
end ScreenForge
