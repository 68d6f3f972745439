/-
# Texts survive as octets

A character is one octet, or a lead and up to three tails of six bits each.  The lead tells how many
tails follow, so each character is read back from its octets, whatever comes behind them.
-/
import ScreenForge.Text.Utf8

namespace ScreenForge
namespace Text

open List

/-! ### Octets of a text -/

theorem toList_loop (data : ByteArray) (pos : Nat) (read : List UInt8) :
    ByteArray.toList.loop data pos read = read.reverse ++ data.data.toList.drop pos := by
  fun_induction ByteArray.toList.loop data pos read with
  | case1 pos read hpos ih =>
    have hlength : pos < data.data.toList.length := hpos
    have hget : data.get! pos = data.data.toList[pos] := by
      obtain ⟨octets⟩ := data
      exact getElem!_pos octets pos hpos
    rw [ih, reverse_cons, append_assoc, drop_eq_getElem_cons hlength, hget]
    rfl
  | case2 pos read hpos =>
    rw [drop_eq_nil_of_le (Nat.le_of_not_lt hpos), append_nil]

/-- The octets of an array, one by one. -/
theorem toList_bytes (data : ByteArray) : data.toList = data.data.toList := by
  rw [ByteArray.toList, toList_loop]
  rfl

/-- The octets of a text are those of its characters. -/
theorem toList_toUTF8 (s : String) : s.toUTF8.toList = s.toList.flatMap String.utf8EncodeChar := by
  rw [String.toUTF8, ← String.utf8Encode_toList, List.utf8Encode, toList_bytes,
    toList_data_toByteArray]

/-! ### Reading a character -/

theorem toNat_octet {n : Nat} (h : n < 256) : (UInt8.ofNat n).toNat = n :=
  UInt8.toNat_ofNat_of_lt' h

/-- A tail gives its six bits. -/
theorem tail_octet (n : Nat) :
    isTail (UInt8.ofNat (n % 64 + 128))
      ∧ (UInt8.ofNat (n % 64 + 128)).toNat - 0x80 = n % 64 := by
  have h := toNat_octet (n := n % 64 + 128) (by omega)
  rw [isTail, h]
  simp only [Bool.and_eq_true, decide_eq_true_eq]
  omega

/-- A lead and its tails are the character whose code they spell, if they are as few as it takes. -/
theorem wide?_eq_some {lead : Nat} {tails : List UInt8} {c : Char}
    (htails : tails.all isTail)
    (hcode : tails.foldl (fun n b => n * 64 + (b.toNat - 0x80)) lead = c.toNat)
    (hleast : tails.length = 1 ∧ 0x80 ≤ c.toNat ∨ tails.length = 2 ∧ 0x800 ≤ c.toNat
      ∨ tails.length = 3 ∧ 0x10000 ≤ c.toNat) : wide? lead tails = some c := by
  have hvalid : (c.toNat < 0xD800 ∨ 0xDFFF < c.toNat) ∧ c.toNat ≤ 0x10FFFF := by
    have := c.valid
    unfold UInt32.isValidChar Nat.isValidChar at this
    have : c.toNat = c.val.toNat := rfl
    omega
  unfold wide?
  simp only [hcode, htails]
  rw [if_pos, Char.ofNat_toNat]
  simp only [Bool.and_eq_true, Bool.or_eq_true, decide_eq_true_eq, true_and]
  refine ⟨⟨?_, hvalid.1⟩, hvalid.2⟩
  obtain ⟨hlength, h⟩ | ⟨hlength, h⟩ | ⟨hlength, h⟩ := hleast
  · rw [hlength]
    exact h
  · rw [hlength]
    exact h
  · rw [hlength]
    exact h

section
variable {a b₁ b₂ b₃ : UInt8} {c : Char} {rest : List UInt8}

theorem take?_one (h : a.toNat < 0x80) : take? (a :: rest) = some (Char.ofNat a.toNat, rest) := by
  unfold take?
  exact if_pos h

theorem take?_two (hfrom : 0xC0 ≤ a.toNat) (hto : a.toNat < 0xE0)
    (h : wide? (a.toNat - 0xC0) [b₁] = some c) : take? (a :: b₁ :: rest) = some (c, rest) := by
  have hone : ¬ a.toNat < 0x80 := by omega
  simp only [take?, hone, hfrom, hto, h, if_false, if_true, decide_true, Bool.and_self,
    Option.map_some]

theorem take?_three (hfrom : 0xE0 ≤ a.toNat) (hto : a.toNat < 0xF0)
    (h : wide? (a.toNat - 0xE0) [b₁, b₂] = some c) :
    take? (a :: b₁ :: b₂ :: rest) = some (c, rest) := by
  have hone : ¬ a.toNat < 0x80 := by omega
  have htwo : ¬ a.toNat < 0xE0 := by omega
  simp only [take?, hone, htwo, hfrom, hto, h, if_false, if_true, decide_true, decide_false,
    Bool.and_self, Bool.and_false, Bool.false_eq_true, Option.map_some]

theorem take?_four (hfrom : 0xF0 ≤ a.toNat) (hto : a.toNat < 0xF8)
    (h : wide? (a.toNat - 0xF0) [b₁, b₂, b₃] = some c) :
    take? (a :: b₁ :: b₂ :: b₃ :: rest) = some (c, rest) := by
  have hone : ¬ a.toNat < 0x80 := by omega
  have htwo : ¬ a.toNat < 0xE0 := by omega
  have hthree : ¬ a.toNat < 0xF0 := by omega
  simp only [take?, hone, htwo, hthree, hfrom, hto, h, if_false, if_true, decide_true,
    decide_false, Bool.and_self, Bool.and_false, Bool.false_eq_true, Option.map_some]

end

/-- **A character is read back from its octets.** -/
theorem take?_utf8EncodeChar (c : Char) (rest : List UInt8) :
    take? (String.utf8EncodeChar c ++ rest) = some (c, rest) := by
  have hcode : c.val.toNat = c.toNat := rfl
  have hbound : c.toNat < 0x110000 := by
    have := c.valid
    unfold UInt32.isValidChar Nat.isValidChar at this
    omega
  obtain ⟨hlow, hlow'⟩ := tail_octet c.toNat
  obtain ⟨hmid, hmid'⟩ := tail_octet (c.toNat / 64)
  obtain ⟨hhigh, hhigh'⟩ := tail_octet (c.toNat / 4096)
  rw [String.utf8EncodeChar]
  simp only [hcode]
  split
  · have hlead := toNat_octet (n := c.toNat) (by omega)
    rw [singleton_append, take?_one (by omega), hlead, Char.ofNat_toNat]
  split
  · have hlead := toNat_octet (n := c.toNat / 64 % 32 + 192) (by omega)
    refine take?_two (by omega) (by omega) (wide?_eq_some ?_ ?_ (.inl ⟨rfl, by omega⟩))
    · simp only [all_cons, all_nil, hlow, Bool.and_self]
    · simp only [foldl_cons, foldl_nil, hlead, hlow']
      omega
  split
  · have hlead := toNat_octet (n := c.toNat / 4096 % 16 + 224) (by omega)
    refine take?_three (by omega) (by omega)
      (wide?_eq_some ?_ ?_ (.inr (.inl ⟨rfl, by omega⟩)))
    · simp only [all_cons, all_nil, hlow, hmid, Bool.and_self]
    · simp only [foldl_cons, foldl_nil, hlead, hlow', hmid']
      omega
  · have hlead := toNat_octet (n := c.toNat / 262144 % 8 + 240) (by omega)
    refine take?_four (by omega) (by omega)
      (wide?_eq_some ?_ ?_ (.inr (.inr ⟨rfl, by omega⟩)))
    · simp only [all_cons, all_nil, hlow, hmid, hhigh, Bool.and_self]
    · simp only [foldl_cons, foldl_nil, hlead, hlow', hmid', hhigh']
      omega

/-! ### Reading a text -/

/-- The octets of characters are read as these. -/
theorem symbolsFrom_flatMap {fuel : Nat} {chars : List Char}
    (h : (chars.flatMap String.utf8EncodeChar).length ≤ fuel) (read : List Symbol) :
    symbolsFrom fuel (chars.flatMap String.utf8EncodeChar) read
      = read.reverse ++ chars.map some := by
  induction chars generalizing fuel read with
  | nil =>
    rw [map_nil, append_nil, flatMap_nil]
    cases fuel with
    | zero => rfl
    | succ fuel => rfl
  | cons c chars ih =>
    have htake := take?_utf8EncodeChar c (chars.flatMap String.utf8EncodeChar)
    rw [flatMap_cons] at h ⊢
    obtain ⟨a, octets, hoctets⟩ := exists_cons_of_ne_nil (@String.utf8EncodeChar_ne_nil c)
    rw [hoctets, cons_append] at h htake ⊢
    obtain _ | fuel := fuel
    · exact absurd h (Nat.not_succ_le_zero _)
    have hfuel : (chars.flatMap String.utf8EncodeChar).length ≤ fuel := by
      rw [length_cons, length_append] at h
      omega
    simp only [symbolsFrom, htake]
    rw [ih hfuel, reverse_cons, append_assoc]
    rfl

/-- **The octets of a text are read as its characters.** -/
theorem symbols_toUTF8 (s : String) : symbols s.toUTF8.toList = symbolsOf s := by
  rw [symbols, toList_toUTF8, symbolsFrom_flatMap (Nat.le_refl _)]
  rfl

end Text
end ScreenForge
