/-
# Strings and whole numbers in JSON

A style is readable if each character of a string is read as itself, however it is escaped, and if
only blanks stand around the signs between items (`Style.IsReadable`).  All three styles are.  A
whole number is read if its text has at most `maxNumeral` characters.
-/
import Mathlib.Data.List.TakeWhile
import ScreenForge.Json.Reader
import ScreenForge.Json.Writer
import ScreenForge.Proofs.Collect

namespace ScreenForge
namespace Json

open List
open Text (Symbol)

variable {c : Char} {high : Option Nat} {state next : StringState} (dialect : Dialect) (n : Nat)
  {acc out : List Symbol}

/-! ### Strings -/

/-- Some characters are read as one. -/
def Spells (written : List Char) (c : Char) : Prop :=
  ∀ (rest acc : List Symbol),
    stringFrom .plain (written.map some ++ rest) acc = stringFrom .plain rest (some c :: acc)

theorem stringFrom_step {rest : List Symbol} (hstep : stringStep state (some c) = some (next, out))
    (hclose : state = .plain → c ≠ '"') :
    stringFrom state (some c :: rest) acc = stringFrom next rest (out.reverse ++ acc) := by
  rw [stringFrom, if_neg, hstep]
  rintro ⟨hplain, hc⟩
  exact hclose hplain (Option.some.inj hc)

/-- A character as it stands is read as itself unless JSON gives it a meaning. -/
theorem spells_self (hquote : c ≠ '"') (hslash : c ≠ '\\') (hc : 0x20 ≤ c.toNat) :
    Spells [c] c := by
  intro rest acc
  have hstep : stringStep .plain (some c) = some (.plain, [some c]) := by
    rw [stringStep, if_neg hslash, if_neg (by omega)]
  exact stringFrom_step hstep fun _ => hquote

theorem simpleEscape?_shortEscape? {c e : Char} (h : shortEscape? c = some e) :
    simpleEscape? e = some c ∧ e ≠ 'u' := by
  unfold shortEscape? at h
  repeat' split at h
  all_goals cases h
  all_goals subst_vars; decide

/-- A one-letter escape is read by the table that inverts the writer's. -/
theorem spells_shortEscape {c e : Char} (h : shortEscape? c = some e) : Spells ['\\', e] c := by
  intro rest acc
  obtain ⟨hsimple, hu⟩ := simpleEscape?_shortEscape? h
  have hopen : stringStep .plain (some '\\') = some (.escaped none, []) := rfl
  have hletter : stringStep (.escaped none) (some e) = some (.plain, [some c]) := by
    simp only [stringStep, if_neg hu, hsimple]
  show stringFrom .plain (some '\\' :: some e :: rest) acc = _
  rw [stringFrom_step hopen (fun _ => by decide), stringFrom_step hletter (fun h => nomatch h)]
  rfl

theorem hexValue?_hexDigit : ∀ v < 16, hexValue? (hexDigit v) = some v := by decide

theorem stringFrom_digit {left value v : Nat} {rest : List Symbol} (hv : v < 16) (hleft : 1 < left) :
    stringFrom (.hex left value high) (some (hexDigit v) :: rest) acc
      = stringFrom (.hex (left - 1) (value * 16 + v) high) rest acc := by
  have hstep : stringStep (.hex left value high) (some (hexDigit v))
      = some (.hex (left - 1) (value * 16 + v) high, []) := by
    simp only [stringStep, hexValue?_hexDigit v hv]
    rw [if_neg (by omega)]
  exact stringFrom_step hstep fun h => nomatch h

theorem stringFrom_lastDigit {value v : Nat} {next : StringState} {rest : List Symbol} (hv : v < 16)
    (hfinish : finishUnit (value * 16 + v) high = some (next, out)) :
    stringFrom (.hex 1 value high) (some (hexDigit v) :: rest) acc
      = stringFrom next rest (out.reverse ++ acc) := by
  have hstep : stringStep (.hex 1 value high) (some (hexDigit v)) = some (next, out) := by
    simp only [stringStep, hexValue?_hexDigit v hv]
    exact hfinish
  exact stringFrom_step hstep fun h => nomatch h

theorem stringFrom_unitEscape {unit : Nat} {rest : List Symbol} (hunit : unit < 0x10000)
    (hopen : stringStep state (some '\\') = some (.escaped high, []))
    (hfinish : finishUnit unit high = some (next, out)) :
    stringFrom state ((unitEscape unit).map some ++ rest) acc
      = stringFrom next rest (out.reverse ++ acc) := by
  have hu : stringStep (.escaped high) (some 'u') = some (.hex 4 0 high, []) := rfl
  have hvalue : (((0 * 16 + unit / 4096 % 16) * 16 + unit / 256 % 16) * 16 + unit / 16 % 16) * 16
      + unit % 16 = unit := by omega
  show stringFrom state (some '\\' :: some 'u' :: some (hexDigit (unit / 4096 % 16))
    :: some (hexDigit (unit / 256 % 16)) :: some (hexDigit (unit / 16 % 16))
    :: some (hexDigit (unit % 16)) :: rest) acc = _
  rw [stringFrom_step hopen (fun _ => by decide), stringFrom_step hu (fun h => nomatch h),
    stringFrom_digit (by omega) (by decide), stringFrom_digit (by omega) (by decide),
    stringFrom_digit (by omega) (by decide), stringFrom_lastDigit (by omega)]
  · rfl
  · rw [hvalue]
    exact hfinish

theorem char_not_surrogate (c : Char) : c.toNat < 0xD800 ∨ 0xDFFF < c.toNat := by
  rcases c.valid with h | h
  · exact Or.inl h
  · exact Or.inr h.1

/-- Four hexadecimal digits are read as the code unit they spell. -/
theorem spells_unitEscape (hc : c.toNat < 0x10000) : Spells (unitEscape c.toNat) c := by
  intro rest acc
  have hside := char_not_surrogate c
  have hhigh : isHigh c.toNat = false := by
    simp only [isHigh, Bool.and_eq_false_iff, decide_eq_false_iff_not]
    omega
  have hlow : isLow c.toNat = false := by
    simp only [isLow, Bool.and_eq_false_iff, decide_eq_false_iff_not]
    omega
  have hfinish : finishUnit c.toNat none = some (.plain, [some c]) := by
    simp only [finishUnit, hhigh, hlow, Char.ofNat_toNat, Bool.false_eq_true, if_false]
  exact stringFrom_unitEscape hc rfl hfinish

/-- Two such escapes in a row are read as the character of the surrogate pair. -/
theorem spells_pairEscape (hc : 0x10000 ≤ c.toNat) :
    Spells (unitEscape (0xD800 + (c.toNat - 0x10000) / 0x400)
      ++ unitEscape (0xDC00 + (c.toNat - 0x10000) % 0x400)) c := by
  intro rest acc
  have hmax : c.toNat < 0x110000 := by
    rcases c.valid with h | h
    · exact Nat.lt_trans h (by decide)
    · exact h.2
  have hhigh : isHigh (0xD800 + (c.toNat - 0x10000) / 0x400) := by
    simp only [isHigh, Bool.and_eq_true, decide_eq_true_eq]
    omega
  have hlow : isLow (0xDC00 + (c.toNat - 0x10000) % 0x400) := by
    simp only [isLow, Bool.and_eq_true, decide_eq_true_eq]
    omega
  have hpair : pairChar (0xD800 + (c.toNat - 0x10000) / 0x400)
      (0xDC00 + (c.toNat - 0x10000) % 0x400) = c := by
    have hcode : 0x10000 + (0xD800 + (c.toNat - 0x10000) / 0x400 - 0xD800) * 0x400
        + (0xDC00 + (c.toNat - 0x10000) % 0x400 - 0xDC00) = c.toNat := by omega
    rw [pairChar, hcode, Char.ofNat_toNat]
  have hfirst : finishUnit (0xD800 + (c.toNat - 0x10000) / 0x400) none
      = some (.paired (0xD800 + (c.toNat - 0x10000) / 0x400), []) := by
    rw [finishUnit, if_pos hhigh]
  have hsecond : finishUnit (0xDC00 + (c.toNat - 0x10000) % 0x400)
      (some (0xD800 + (c.toNat - 0x10000) / 0x400)) = some (.plain, [some c]) := by
    rw [finishUnit, if_pos hlow, hpair]
  rw [map_append, append_assoc, stringFrom_unitEscape (by omega) rfl hfirst,
    stringFrom_unitEscape (by omega) rfl hsecond]
  rfl

theorem spells_escapeData (c : Char) : Spells (escapeData c) c := by
  unfold escapeData
  split
  · next h => exact spells_shortEscape h
  · next h =>
    split
    · exact spells_unitEscape (by omega)
    · exact spells_self (by rintro rfl; cases h) (by rintro rfl; cases h) (by omega)

theorem spells_escapeAscii (c : Char) : Spells (escapeAscii c) c := by
  unfold escapeAscii
  split
  · next h => exact spells_shortEscape h
  · next h =>
    dsimp only
    split
    · next hplain =>
      simp only [Bool.and_eq_true, decide_eq_true_eq] at hplain
      exact spells_self (by rintro rfl; cases h) (by rintro rfl; cases h) hplain.1
    · split
      · next hshort => exact spells_unitEscape hshort
      · next hlong => exact spells_pairEscape (by omega)

/-! ### Whole numbers -/

theorem isDigit_toDigits : ∀ c ∈ Nat.toDigits 10 n, Numeral.isDigit c :=
  fun _ hc => Nat.isDigit_of_mem_toDigits (by decide) (by decide) hc

/-- **The numeral of a positive number has no leading zero.** -/
theorem head?_toDigits_ne {n : Nat} (h : 0 < n) : (Nat.toDigits 10 n).head? ≠ some '0' := by
  induction n using Nat.strongRecOn with
  | ind n ih =>
    by_cases hn : n < 10
    · rw [Nat.toDigits_of_lt_base hn]
      have hfirst : ∀ k < 10, 0 < k → [Nat.digitChar k].head? ≠ some '0' := by decide
      exact hfirst n hn h
    · -- the first digit is that of a tenth of the number, which is not zero
      have htenth := ih (n / 10) (by omega) (by omega)
      rw [Nat.toDigits_of_base_le (by decide) (by omega)]
      cases hfront : Nat.toDigits 10 (n / 10) with
      | nil => exact absurd hfront Nat.toDigits_ne_nil
      | cons d ds =>
        rw [hfront] at htenth
        exact htenth

theorem isWholePart_toDigits : isWholePart (Nat.toDigits 10 n) := by
  by_cases hn : n < 10
  · rw [Nat.toDigits_of_lt_base hn]
    rfl
  · have hhead := head?_toDigits_ne (n := n) (by omega)
    cases hdigits : Nat.toDigits 10 n with
    | nil => exact absurd hdigits Nat.toDigits_ne_nil
    | cons d ds =>
      rw [hdigits] at hhead
      cases ds with
      | nil => rfl
      | cons e es => simpa [isWholePart] using hhead

theorem digitsValue_toDigits : Numeral.digitsValue (Nat.toDigits 10 n) = n := by
  have hfold : Numeral.digitsValue (Nat.toDigits 10 n)
      = Nat.ofDigitChars 10 (Nat.toDigits 10 n) 0 := by
    unfold Numeral.digitsValue Nat.ofDigitChars
    congr 1
    funext value d
    rw [Nat.mul_comm]
    rfl
  rw [hfold, Nat.ofDigitChars_toDigits (by decide) (by decide)]

theorem takeWhile_toDigits : (Nat.toDigits 10 n).takeWhile Numeral.isDigit = Nat.toDigits 10 n :=
  takeWhile_eq_self_iff.2 (isDigit_toDigits n)

theorem dropWhile_toDigits : (Nat.toDigits 10 n).dropWhile Numeral.isDigit = [] :=
  dropWhile_eq_nil_iff.2 (isDigit_toDigits n)

theorem number?_digits : number? dialect (Nat.toDigits 10 n)
      = if (Nat.toDigits 10 n).length > maxNumeral then none else some (.int n) := by
  unfold number?
  split
  · next negative body hsign =>
    split at hsign
    · next r heq =>
      have hminus := isDigit_toDigits n '-' (by rw [heq]; exact mem_cons_self)
      cases hminus
    · obtain ⟨rfl, rfl⟩ := Prod.mk.inj hsign
      simp only [takeWhile_toDigits, dropWhile_toDigits, isWholePart_toDigits,
        digitsValue_toDigits, Bool.not_true, Bool.false_eq_true, if_false]

theorem number?_minus : number? dialect ('-' :: Nat.toDigits 10 n)
      = if ('-' :: Nat.toDigits 10 n).length > maxNumeral then none else some (.int (-n)) := by
  simp only [number?, takeWhile_toDigits, dropWhile_toDigits, isWholePart_toDigits,
    digitsValue_toDigits, Bool.not_true, Bool.false_eq_true, if_false, if_true]

/-- **A whole number is read back exactly if its text is short enough.** -/
theorem number?_intChars (n : Int) : number? dialect (intChars n)
      = if (intChars n).length > maxNumeral then none else some (.int n) := by
  by_cases hn : n < 0
  · have hvalue : -((n.natAbs : Nat) : Int) = n := by omega
    simp only [intChars, if_pos hn, number?_minus, hvalue]
  · have hvalue : ((n.natAbs : Nat) : Int) = n := by omega
    simp only [intChars, if_neg hn, number?_digits, hvalue]

/-- A power of ten has one digit more than its exponent. -/
theorem length_toDigits_pow {k : Nat} (hk : 0 < k) :
    (Nat.toDigits 10 (Nat.pow 10 k)).length = k + 1 := by
  have hle : (Nat.toDigits 10 (Nat.pow 10 k)).length ≤ k + 1 := by
    rw [Nat.length_toDigits_le_iff (by decide) (Nat.succ_pos k)]
    exact Nat.pow_lt_pow_right (by decide) (Nat.lt_succ_self k)
  have hlt : ¬ (Nat.toDigits 10 (Nat.pow 10 k)).length ≤ k := by
    rw [Nat.length_toDigits_le_iff (by decide) hk]
    exact Nat.lt_irrefl _
  omega

theorem isNumberSymbol_of_isDigit (h : Numeral.isDigit c) : isNumberSymbol (some c) := by
  simp only [isNumberSymbol, h, Bool.true_or]

/-- The text of a whole number is one lexeme. -/
theorem isNumberSymbol_intChars (n : Int) : ∀ c ∈ intChars n, isNumberSymbol (some c) := by
  intro c hc
  unfold intChars at hc
  split at hc
  · rcases mem_cons.1 hc with rfl | hc
    · rfl
    · exact isNumberSymbol_of_isDigit (isDigit_toDigits _ c hc)
  · exact isNumberSymbol_of_isDigit (isDigit_toDigits _ c hc)

theorem intChars_ne_nil (n : Int) : intChars n ≠ [] := by
  unfold intChars
  split
  · exact cons_ne_nil _ _
  · exact Nat.toDigits_ne_nil

/-! ### Words -/

theorem find?_words_eq_none {rest : List Symbol} (hn : c ≠ 'n') (ht : c ≠ 't') (hf : c ≠ 'f') :
    ((words strict).find? fun w => w.1.isPrefixOf (some c :: rest)) = none := by
  refine List.find?_eq_none.2 fun w hw => ?_
  have hwords : words strict = [([some 'n', some 'u', some 'l', some 'l'], .null),
      ([some 't', some 'r', some 'u', some 'e'], .bool true),
      ([some 'f', some 'a', some 'l', some 's', some 'e'], .bool false)] := rfl
  rw [hwords] at hw
  simp only [mem_cons, not_mem_nil, or_false] at hw
  rcases hw with rfl | rfl | rfl
  · simp [Ne.symm hn]
  · simp [Ne.symm ht]
  · simp [Ne.symm hf]

/-! ### Styles -/

/-- Only blanks. -/
def IsGap (gap : List Char) : Prop := ∀ c ∈ gap, isSpace (some c) = true

theorem IsGap.append {gap more : List Char} (hgap : IsGap gap) (hmore : IsGap more) :
    IsGap (gap ++ more) := fun c hc => (mem_append.1 hc).elim (hgap c) (hmore c)

theorem dropWhile_gap {gap : List Char} (hgap : IsGap gap) (rest : List Symbol) :
    (gap.map some ++ rest).dropWhile isSpace = rest.dropWhile isSpace := by
  refine dropWhile_append_of_pos fun s hs => ?_
  obtain ⟨c, hc, rfl⟩ := mem_map.1 hs
  exact hgap c hc

/-- What a style has to do to be read back. -/
structure Style.IsReadable (style : Style) : Prop where
  /-- Each character of a string is read as itself. -/
  escape : ∀ c, Spells (style.escape c) c
  /-- Names end with a colon. -/
  colon : ∃ gap, style.colon = ':' :: gap ∧ IsGap gap
  /-- Items are divided by commas. -/
  comma : ∃ gap, style.comma = ',' :: gap ∧ IsGap gap

theorem isGap_nil : IsGap [] := fun _ h => absurd h not_mem_nil

theorem isGap_blank : IsGap [' '] := fun c h => by rw [mem_singleton.1 h]; rfl

theorem isReadable_compact : compact.IsReadable :=
  ⟨spells_escapeData, ⟨[], rfl, isGap_nil⟩, ⟨[], rfl, isGap_nil⟩⟩

theorem isReadable_indented : indented.IsReadable :=
  ⟨spells_escapeData, ⟨[' '], rfl, isGap_blank⟩, ⟨[], rfl, isGap_nil⟩⟩

theorem isReadable_ascii (indent : Option Nat) : (ascii indent).IsReadable := by
  refine ⟨spells_escapeAscii, ⟨[' '], rfl, isGap_blank⟩, ?_⟩
  cases indent with
  | none => exact ⟨[' '], rfl, isGap_blank⟩
  | some n => exact ⟨[], rfl, isGap_nil⟩

theorem isGap_lineBreak (style : Style) (depth : Nat) : IsGap (lineBreak style depth) := by
  intro c hc
  unfold lineBreak at hc
  split at hc
  · rcases mem_cons.1 hc with rfl | hc
    · rfl
    · rw [eq_of_mem_replicate hc]
      rfl
  · exact absurd hc not_mem_nil

variable {style : Style} {rest : List Symbol}

/-- The content of a written string is read as its characters. -/
theorem stringFrom_content (hstyle : style.IsReadable) (cs : List Char) (acc : List Symbol) :
    stringFrom .plain ((cs.flatMap style.escape).map some ++ some '"' :: rest) acc
      = .ok (acc.reverse ++ cs.map some, rest) := by
  induction cs generalizing acc with
  | nil =>
    rw [map_nil, append_nil]
    exact if_pos ⟨rfl, rfl⟩
  | cons c cs ih =>
    rw [flatMap_cons, map_append, append_assoc, hstyle.escape c, ih, reverse_cons, append_assoc]
    rfl

/-- **A string is read back.** -/
theorem readString_quoted (hstyle : style.IsReadable) (s : String) (rest : List Symbol) :
    ∃ body, (quoted style s).map some ++ rest = some '"' :: body
      ∧ readString body = .ok (s, rest) := by
  refine ⟨(s.toList.flatMap style.escape).map some ++ some '"' :: rest, ?_, ?_⟩
  · simp [quoted]
  · simp only [readString, stringFrom_content hstyle, reverse_nil, nil_append,
      mapM_id_eq_some_iff.2 rfl, String.ofList_toList]

end Json
end ScreenForge
