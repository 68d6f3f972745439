/-
# Base64 is read back

| octets left | six-bit values | padding |
| --- | --- | --- |
| three or more | four, and those of the rest | that of the rest |
| two | three | one mark |
| one | two | two marks |
| none | none | none |

The letters hold no mark, so a reader finds where they end.
-/
import ScreenForge.Proofs.Collect
import ScreenForge.Proofs.Text.Utf8
import ScreenForge.Text.Base64

namespace ScreenForge
open List

namespace Text
variable (data : List UInt8)

namespace Base64

/-- The six-bit values of octets. -/
def sextets : List UInt8 → List Nat
  | [] => []
  | [a] => [a.toNat * 16 / 64, a.toNat * 16 % 64]
  | [a, b] =>
    let n := (a.toNat * 256 + b.toNat) * 4
    [n / 4096, n / 64 % 64, n % 64]
  | a :: b :: c :: rest =>
    let n := (a.toNat * 256 + b.toNat) * 256 + c.toNat
    n / 262144 :: n / 4096 % 64 :: n / 64 % 64 :: n % 64 :: sextets rest

/-- How many marks fill up the last group. -/
def padding : List UInt8 → Nat
  | [] => 0
  | [_] => 2
  | [_, _] => 1
  | _ :: _ :: _ :: rest => padding rest

/-- The text of octets is the letters of their six-bit values and then the padding. -/
theorem encode_eq :
    encode data = (sextets data).map letter ++ List.replicate (padding data) '=' := by
  fun_induction encode data with
  | case1 => rfl
  | case2 a => rfl
  | case3 a b => rfl
  | case4 a b c rest n ih => rw [sextets, padding, ih]; rfl

theorem sextets_lt : ∀ v ∈ sextets data, v < 64 := by
  fun_induction sextets data with
  | case1 => exact fun v hv => absurd hv not_mem_nil
  | case2 a =>
    have := a.toNat_lt
    simp only [forall_mem_cons, not_mem_nil, false_imp_iff, implies_true, and_true]
    omega
  | case3 a b n =>
    have := a.toNat_lt
    have := b.toNat_lt
    simp only [forall_mem_cons, not_mem_nil, false_imp_iff, implies_true, and_true]
    omega
  | case4 a b c rest n ih =>
    have := a.toNat_lt
    have := b.toNat_lt
    have := c.toNat_lt
    simp only [forall_mem_cons]
    exact ⟨by omega, by omega, by omega, by omega, ih⟩

theorem ofNat_of_eq {n : Nat} {a : UInt8} (h : n = a.toNat) : UInt8.ofNat n = a := by
  rw [h, UInt8.ofNat_toNat]

/-- **The six-bit values of octets give the octets back.** -/
theorem octets_sextets : octets (sextets data) = data := by
  fun_induction sextets data with
  | case1 => rfl
  | case2 a =>
    have := a.toNat_lt
    rw [octets, ofNat_of_eq (a := a) (by omega)]
  | case3 a b n =>
    have := a.toNat_lt
    have := b.toNat_lt
    rw [octets, ofNat_of_eq (a := a) (by omega), ofNat_of_eq (a := b) (by omega)]
  | case4 a b c rest n ih =>
    have := a.toNat_lt
    have := b.toNat_lt
    have := c.toNat_lt
    rw [octets, ofNat_of_eq (a := a) (by omega), ofNat_of_eq (a := b) (by omega),
      ofNat_of_eq (a := c) (by omega), ih]

theorem length_sextets : (sextets data).length % 4 = (4 - padding data) % 4 ∧ padding data ≤ 2 := by
  fun_induction sextets data with
  | case1 => exact ⟨rfl, Nat.zero_le 2⟩
  | case2 a => exact ⟨rfl, Nat.le_refl 2⟩
  | case3 a b n => exact ⟨rfl, Nat.le_succ 1⟩
  | case4 a b c rest n ih =>
    simp only [length_cons, padding]
    omega

theorem paddingFits_sextets : paddingFits (sextets data).length (padding data) := by
  obtain ⟨hlength, hpadding⟩ := length_sextets data
  obtain h | h | h : padding data = 0 ∨ padding data = 1 ∨ padding data = 2 := by omega
  all_goals
    rw [h] at hlength ⊢
    simp only [paddingFits, hlength]
    rfl

theorem letter_ne_mark : ∀ v < 64, (letter v != '=') := by decide

/-- **What is written in base64 is read back.** -/
theorem decode?_encode : decode? (encode data) = some data := by
  have hletters : ∀ c ∈ (sextets data).map letter, (c != '=') := by
    intro c hc
    obtain ⟨v, hv, rfl⟩ := mem_map.mp hc
    exact letter_ne_mark v (sextets_lt data v hv)
  have hmarks : ∀ n, (List.replicate n '=').takeWhile (· != '=') = []
      ∧ (List.replicate n '=').dropWhile (· != '=') = List.replicate n '=' := by
    intro n
    cases n <;> exact ⟨rfl, rfl⟩
  rw [decode?, encode_eq, takeWhile_append_of_pos hletters, (hmarks _).1, append_nil,
    dropWhile_append_of_pos hletters, (hmarks _).2, all_replicate, length_map,
    length_replicate, paddingFits_sextets,
    mapM_map_eq_some fun v hv => value?_letter v (sextets_lt data v hv), Option.map_some,
    octets_sextets]
  simp

/-- What holds of every letter and of the mark holds of what is written. -/
theorem forall_mem_encode {P : Char → Prop} (hletter : ∀ v < 64, P (letter v)) (hmark : P '=')
    (data : List UInt8) : ∀ c ∈ encode data, P c := by
  intro c hc
  rw [encode_eq, mem_append] at hc
  obtain hc | hc := hc
  · obtain ⟨v, hv, rfl⟩ := mem_map.mp hc
    exact hletter v (sextets_lt data v hv)
  · rw [eq_of_mem_replicate hc]
    exact hmark

/-! ### Texts that are read -/

/-- The place value of the lowest bit that counts in the last of a number of letters. -/
def lastPlace (letters : Nat) : Nat :=
  if letters % 4 = 2 then 16 else if letters % 4 = 3 then 4 else 1

/-- **The octets of six-bit values give the values back**, but for the bits that the last one has to
spare. -/
theorem sextets_octets {values : List Nat} (h : ∀ v ∈ values, v < 64)
    (hlength : values.length % 4 ≠ 1) :
    sextets (octets values) = values
      ∨ ∃ front v w, values = front ++ [v] ∧ sextets (octets values) = front ++ [w] ∧ w < 64
        ∧ v / lastPlace values.length = w / lastPlace values.length := by
  fun_induction octets values with
  | case1 a b c d rest n ih =>
    simp only [forall_mem_cons] at h
    obtain ⟨ha, hb, hc, hd, hrest⟩ := h
    have hgroup : sextets (UInt8.ofNat (n / 65536) :: UInt8.ofNat (n / 256 % 256)
        :: UInt8.ofNat (n % 256) :: octets rest) = a :: b :: c :: d :: sextets (octets rest) := by
      rw [sextets, toNat_octet (by omega), toNat_octet (by omega), toNat_octet (by omega)]
      simp only [List.cons.injEq, and_true]
      omega
    simp only [length_cons] at hlength
    rw [hgroup]
    obtain hsame | ⟨front, v, w, hvalues, hoctets, hw, hplace⟩ := ih hrest (by omega)
    · exact .inl (by rw [hsame])
    · refine .inr ⟨a :: b :: c :: d :: front, v, w, by rw [hvalues]; rfl, by rw [hoctets]; rfl, hw, ?_⟩
      have hfour : lastPlace (rest.length + 4) = lastPlace rest.length := by
        rw [lastPlace, lastPlace, Nat.add_mod_right]
      exact hfour ▸ hplace
  | case2 a b c n =>
    simp only [forall_mem_cons] at h
    obtain ⟨ha, hb, hc, -⟩ := h
    refine .inr ⟨[a, b], c, c / 4 * 4, rfl, ?_, by omega, ?_⟩
    · rw [sextets, toNat_octet (by omega), toNat_octet (by omega)]
      simp only [cons_append, nil_append, List.cons.injEq, and_true]
      omega
    · exact (Nat.mul_div_cancel _ (by decide)).symm
  | case3 a b =>
    simp only [forall_mem_cons] at h
    obtain ⟨ha, hb, -⟩ := h
    refine .inr ⟨[a], b, b / 16 * 16, rfl, ?_, by omega, ?_⟩
    · rw [sextets, toNat_octet (by omega)]
      simp only [cons_append, nil_append, List.cons.injEq, and_true]
      omega
    · exact (Nat.mul_div_cancel _ (by decide)).symm
  | case4 values hfour hthree htwo =>
    rcases values with - | ⟨a, - | ⟨b, - | ⟨c, - | ⟨d, rest⟩⟩⟩⟩
    · exact .inl rfl
    · exact absurd rfl hlength
    · exact absurd rfl (htwo a b)
    · exact absurd rfl (hthree a b c)
    · exact absurd rfl (hfour a b c d rest)

/-- A character of the alphabet is the letter of its value. -/
theorem letter_of_value? {c : Char} {v : Nat} (h : value? c = some v) : v < 64 ∧ letter v = c := by
  have hback : ∀ n k, c.toNat = n + k → Char.ofNat (n + k) = c := by
    intro n k hc
    rw [← hc, Char.ofNat_toNat]
  unfold value? at h
  simp only [Char.le_def, UInt32.le_iff_toNat_le] at h
  change (if 65 ≤ c.toNat ∧ c.toNat ≤ 90 then _ else if 97 ≤ c.toNat ∧ c.toNat ≤ 122 then _
    else if 48 ≤ c.toNat ∧ c.toNat ≤ 57 then _ else _) = _ at h
  unfold letter
  split at h
  · next hc =>
    obtain rfl := Option.some.inj h
    rw [if_pos (by omega)]
    exact ⟨by omega, hback _ _ (by omega)⟩
  split at h
  · next hc =>
    obtain rfl := Option.some.inj h
    rw [if_neg (by omega), if_pos (by omega)]
    exact ⟨by omega, hback _ _ (by omega)⟩
  split at h
  · next hc =>
    obtain rfl := Option.some.inj h
    rw [if_neg (by omega), if_neg (by omega), if_pos (by omega)]
    exact ⟨by omega, hback _ _ (by omega)⟩
  split at h
  · next hc =>
    cases h
    exact ⟨by decide, hc.symm⟩
  split at h
  · next hc =>
    cases h
    exact ⟨by decide, hc.symm⟩
  · cases h

/-- Letters that are read are those of their values. -/
theorem eq_map_letter_of_mapM {letters : List Char} {values : List Nat}
    (h : letters.mapM value? = some values) :
    letters = values.map letter ∧ ∀ v ∈ values, v < 64 := by
  rw [mapM_iff_forall₂] at h
  induction h with
  | nil => exact ⟨rfl, forall_mem_nil _⟩
  | cons hv hrest ih =>
    obtain ⟨hlt, hletter⟩ := letter_of_value? hv
    obtain ⟨hletters, hall⟩ := ih
    rw [map_cons, hletter, ← hletters]
    exact ⟨rfl, forall_mem_cons.2 ⟨hlt, hall⟩⟩

/-- Two rows of letters are the same, but for the bits that the last letter has to spare. -/
def SameBits (s t : List Char) : Prop :=
  s = t ∨ ∃ front c d v w, s = front ++ [c] ∧ t = front ++ [d]
    ∧ value? c = some v ∧ value? d = some w ∧ v / lastPlace s.length = w / lastPlace s.length

/-- Two texts are the same, but for padding and spare bits. -/
def Resembles (s t : List Char) : Prop :=
  ∃ letters letters' m n, s = letters ++ List.replicate m '=' ∧ t = letters' ++ List.replicate n '='
    ∧ SameBits letters letters'

/-- **What is read resembles what is written** of its octets. -/
theorem resembles_of_decode? {s : List Char} {data : List UInt8} (h : decode? s = some data) :
    Resembles s (encode data) := by
  rw [decode?] at h
  split at h
  · next hfits =>
    obtain ⟨hmarks, hfits⟩ := Bool.and_eq_true_iff.1 hfits
    obtain ⟨values, hvalues, rfl⟩ := Option.map_eq_some_iff.1 h
    obtain ⟨hletters, hlt⟩ := eq_map_letter_of_mapM hvalues
    have hlength : values.length % 4 ≠ 1 := by
      intro hone
      rw [hletters, length_map, paddingFits, hone] at hfits
      cases hfits
    have hpadding : s = values.map letter
        ++ List.replicate (s.dropWhile (· != '=')).length '=' := by
      rw [← hletters, ← eq_replicate_of_mem fun c hc =>
        beq_iff_eq.1 (all_eq_true.1 hmarks c hc), takeWhile_append_dropWhile]
    refine ⟨_, (sextets (octets values)).map letter, _, _, hpadding, encode_eq _, ?_⟩
    obtain hsame | ⟨front, v, w, hfront, hback, hw, hplace⟩ := sextets_octets hlt hlength
    · exact .inl (by rw [hsame])
    · have hv : v < 64 := hlt v (by rw [hfront]; simp)
      refine .inr ⟨front.map letter, letter v, letter w, v, w, by rw [hfront, map_append]; rfl,
        by rw [hback, map_append]; rfl, value?_letter v hv, value?_letter w hw, ?_⟩
      rwa [length_map]
  · cases h

end Base64
end Text
end ScreenForge
