/-
# Which texts are names, and which names are written alike

A name of Kotlin (`isName`) is a letter or an underscore with letters, digits and underscores behind
it, and no keyword.  `identifier` makes a name of every text, and forgets more than it has to: two
texts become the same name exactly when they are `Alike`.
-/
import Mathlib.Data.List.Nodup
import ScreenForge.Kotlin.Activity
import ScreenForge.Proofs.Allocator

namespace ScreenForge
namespace Kotlin

open List

variable {c : Char} {w : List Char} {word : String} {names : List String} {a : Allocator}
  (name : String) (initial : Initial) {s m n : String}

/-- Whether a text is a name. -/
def isName (s : String) : Bool :=
  match s.toList with
  | [] => false
  | c :: cs => isNameChar c && !c.isDigit && cs.all isNameChar && !keywords.contains s

theorem isName_iff :
    isName s ↔ (∃ c cs, s.toList = c :: cs ∧ isNameChar c ∧ c.isDigit = false ∧
      ∀ d ∈ cs, isNameChar d) ∧ s ∉ keywords := by
  unfold isName
  split
  · next h => simp [h]
  · next c cs h => simp [h, and_assoc]

/-- A property of the characters of names, checked one by one. -/
theorem forall_isNameChar {P : Char → Prop}
    (h : ∀ n < 128, isNameChar (Char.ofNat n) → P (Char.ofNat n))
    (hc : isNameChar c) : P c := by
  have hlt : c.toNat < 128 := by
    unfold isNameChar at hc
    delta Char.isAlphanum Char.isAlpha Char.isUpper Char.isLower Char.isDigit at hc
    simp only [Bool.or_eq_true, Bool.and_eq_true, decide_eq_true_eq, beq_iff_eq,
      UInt32.le_iff_toNat_le, ge_iff_le] at hc
    unfold Char.toNat
    rcases hc with ((⟨-, h⟩ | ⟨-, h⟩) | ⟨-, h⟩) | rfl
    any_goals exact Nat.lt_of_le_of_lt h (by decide)
    decide
  have := h c.toNat hlt
  rw [Char.ofNat_toNat] at this
  exact this hc

/-- A text of name characters only. -/
def IsWord (s : String) : Prop := ∀ c ∈ s.toList, isNameChar c = true

instance (s : String) : Decidable (IsWord s) :=
  decidable_of_iff (s.toList.all isNameChar = true) all_eq_true

theorem IsWord.append {u : String} (hs : IsWord s) (hu : IsWord u) : IsWord (s ++ u) := by
  intro c hc
  rw [String.toList_append] at hc
  exact (mem_append.1 hc).elim (hs c) (hu c)

theorem isNameChar_of_small (h : c.isLower || c.isDigit || c == '_') : isNameChar c := by
  unfold isNameChar
  delta Char.isAlphanum Char.isAlpha
  simp only [Bool.or_eq_true] at h ⊢
  rcases h with (hlower | hdigit) | hline
  · exact Or.inl (Or.inl (Or.inr hlower))
  · exact Or.inl (Or.inr hdigit)
  · exact Or.inr hline

theorem isNameChar_toLower (h : isNameChar c) : isNameChar c.toLower :=
  forall_isNameChar (P := fun c => isNameChar c.toLower = true) (by decide) h

theorem isDigit_toLower (h : isNameChar c) : c.toLower.isDigit = c.isDigit :=
  forall_isNameChar (P := fun c => c.toLower.isDigit = c.isDigit) (by decide) h

/-- Whether a letter is in the case of an initial. -/
def Initial.accepts : Initial → Char → Bool
  | .lower => Char.isLower
  | .upper => Char.isUpper

/-- A letter takes the case asked for, and the underscore stays. -/
theorem Initial.accepts_apply (h : isNameChar c) (hd : c.isDigit = false) :
    isNameChar (initial.apply c) ∧
      (initial.apply c = '_' ∨ initial.accepts (initial.apply c)) := by
  have hall : ∀ n < 128, isNameChar (Char.ofNat n) → (Char.ofNat n).isDigit = false →
      isNameChar (initial.apply (Char.ofNat n)) ∧ (initial.apply (Char.ofNat n) = '_' ∨
        initial.accepts (initial.apply (Char.ofNat n))) := by
    cases initial <;> decide
  exact forall_isNameChar (P := fun c => c.isDigit = false → isNameChar (initial.apply c) ∧
    (initial.apply c = '_' ∨ initial.accepts (initial.apply c))) hall h hd

/-- **What starts a name has its case already.** -/
theorem Initial.apply_eq_self (h : isNameChar c) (hc : c = '_' ∨ initial.accepts c) :
    c.isDigit = false ∧ initial.apply c = c := by
  have hall : ∀ n < 128, isNameChar (Char.ofNat n) →
      Char.ofNat n = '_' ∨ initial.accepts (Char.ofNat n) →
      (Char.ofNat n).isDigit = false ∧ initial.apply (Char.ofNat n) = Char.ofNat n := by
    cases initial <;> decide
  exact forall_isNameChar (P := fun c => c = '_' ∨ initial.accepts c →
    c.isDigit = false ∧ initial.apply c = c) hall h hc

theorem isNameChar_nameChar (c : Char) : isNameChar (nameChar c) := by
  unfold nameChar
  split
  · next h => exact h
  · decide

theorem isNameChar_stripped : ∀ c ∈ (Text.stripChars name.toList).map nameChar, isNameChar c :=
  forall_mem_map.2 fun c _ => isNameChar_nameChar c

/-- A word is taken as it is. -/
theorem map_nameChar_stripChars (h : ∀ c ∈ w, isNameChar c) :
    (Text.stripChars w).map nameChar = w := by
  have hblank : ∀ d ∈ w, Text.isBlank d = false := fun d hd =>
    forall_isNameChar (P := fun c => Text.isBlank c = false) (by decide) (h d hd)
  have hstrip := Text.stripChars_eq_self hblank
  rw [hstrip]
  exact (map_congr_left fun d hd => if_pos (h d hd)).trans (map_id w)

theorem shape_eq_cons (h : ∀ c ∈ w, isNameChar c) :
    ∃ c cs, shape initial w = c :: cs ∧ (c = '_' ∨ initial.accepts c) ∧
      ∀ d ∈ c :: cs, isNameChar d := by
  cases w with
  | nil => exact ⟨'_', [], rfl, Or.inl rfl, by simp [isNameChar]⟩
  | cons c cs =>
    obtain ⟨hc, hcs⟩ := forall_mem_cons.1 h
    by_cases hd : c.isDigit = true
    · exact ⟨'_', c :: cs, by simp [shape, hd], Or.inl rfl, forall_mem_cons.2 ⟨by decide, h⟩⟩
    · obtain ⟨hname, hstart⟩ := initial.accepts_apply hc (by simpa using hd)
      exact ⟨initial.apply c, cs, by simp [shape, hd], hstart, forall_mem_cons.2 ⟨hname, hcs⟩⟩

/-- No keyword ends in an underscore or a digit. -/
theorem append_not_mem_keywords {u : String} (hu : u.toList.getLast? = some c)
    (hc : c = '_' ∨ c.isDigit) : s ++ u ∉ keywords := by
  intro hk
  have hall : keywords.all fun k =>
      k.toList.getLast?.all fun d => d != '_' && !d.isDigit := by decide
  have hlast : (s ++ u).toList.getLast? = some c := by simp [List.getLast?_append, hu]
  have h := all_eq_true.1 hall _ hk
  rw [hlast, Option.all_some, Bool.and_eq_true] at h
  obtain ⟨h₁, h₂⟩ := h
  rcases hc with rfl | hc
  · exact absurd h₁ (by decide)
  · simp [hc] at h₂

theorem identifier_not_mem_keywords : identifier name initial ∉ keywords := by
  unfold identifier avoidKeyword
  split
  · exact append_not_mem_keywords (c := '_') (by decide) (Or.inl rfl)
  · next hk => simpa using hk

/-- How identifiers start, and what they consist of. -/
theorem identifier_eq_cons : ∃ c cs, (identifier name initial).toList = c :: cs ∧
    (c = '_' ∨ initial.accepts c) ∧ ∀ d ∈ c :: cs, isNameChar d := by
  obtain ⟨c, cs, hw, hc, hcs⟩ := shape_eq_cons initial (isNameChar_stripped name)
  unfold identifier avoidKeyword
  rw [hw]
  split
  · exact ⟨c, cs ++ ['_'], by simp, hc, forall_mem_append.2
      ⟨hcs, forall_mem_singleton.2 (by decide)⟩⟩
  · exact ⟨c, cs, by simp, hc, hcs⟩

/-- **Every text becomes a name.** -/
theorem isName_identifier : isName (identifier name initial) := by
  obtain ⟨c, cs, hs, hc, hcs⟩ := identifier_eq_cons name initial
  obtain ⟨hname, hrest⟩ := forall_mem_cons.1 hcs
  exact isName_iff.2 ⟨⟨c, cs, hs, hname, (initial.apply_eq_self hname hc).1, hrest⟩,
    identifier_not_mem_keywords name initial⟩

theorem isNameChar_of_isName (h : isName s) : ∀ c ∈ s.toList, isNameChar c := by
  obtain ⟨⟨c, cs, hs, hc, -, hcs⟩, -⟩ := isName_iff.1 h
  rw [hs]
  exact forall_mem_cons.2 ⟨hc, hcs⟩

/-- **A name that starts in the case asked for is its own identifier.** -/
theorem identifier_eq_self {cs : List Char} (h : isName s) (hs : s.toList = c :: cs)
    (hc : c = '_' ∨ initial.accepts c) : identifier s initial = s := by
  have hall := isNameChar_of_isName h
  obtain ⟨hd, hcase⟩ := initial.apply_eq_self (hall c (by simp [hs])) hc
  have hshape : shape initial s.toList = s.toList := by simp [hs, shape, hd, hcase]
  rw [identifier, map_nameChar_stripChars hall, hshape, String.ofList_toList, avoidKeyword, if_neg]
  simpa using (isName_iff.1 h).2

/-- **Every text becomes a name that starts in the case asked for, and such a name stays as it
is.** -/
theorem identifier_idempotent : isName (identifier name initial) ∧
    (∃ c cs, (identifier name initial).toList = c :: cs ∧ (c = '_' ∨ initial.accepts c)) ∧
    identifier (identifier name initial) initial = identifier name initial := by
  obtain ⟨c, cs, hs, hc, -⟩ := identifier_eq_cons name initial
  have hname := isName_identifier name initial
  exact ⟨hname, ⟨c, cs, hs, hc⟩, identifier_eq_self initial hname hs hc⟩

theorem isDigit_of_mem_toString {n : Nat} (h : c ∈ (toString n).toList) : c.isDigit := by
  rw [Nat.toString_eq_ofList_toDigits, String.toList_ofList] at h
  exact Nat.isDigit_of_mem_toDigits (by decide) (by decide) h

/-- A number behind a name leaves it one. -/
theorem isWord_toString (n : Nat) : IsWord (toString n) := by
  intro c hc
  simp [isNameChar, Char.isAlphanum, isDigit_of_mem_toString hc]

/-- **A number behind a name leaves it a name.** -/
theorem isName_append_toString (h : isName s) (n : Nat) : isName (s ++ toString n) := by
  obtain ⟨⟨c, cs, hs, hc, hd, hcs⟩, -⟩ := isName_iff.1 h
  refine isName_iff.2 ⟨⟨c, cs ++ (toString n).toList, by simp [hs], hc, hd, ?_⟩, ?_⟩
  · exact forall_mem_append.2 ⟨hcs, isWord_toString n⟩
  · obtain ⟨d, hlast⟩ : ∃ d, (toString n).toList.getLast? = some d := by
      rw [Nat.toString_eq_ofList_toDigits, String.toList_ofList]
      exact ⟨_, List.getLast?_eq_some_getLast Nat.toDigits_ne_nil⟩
    exact append_not_mem_keywords hlast
      (Or.inr (isDigit_of_mem_toString (mem_of_getLast? hlast)))

/-! ### Names that are given out -/

theorem keys_assign (word : String) (a : Allocator) (names : List String) :
    Assoc.keys (assign word a names).1 = names := by
  induction names generalizing a with
  | nil => rfl
  | cons name rest ih => exact congrArg (name :: ·) (ih _)

theorem of_unique {P : String → Prop} (a : Allocator) {stem : String} (h : P stem)
    (hn : ∀ n : Nat, P (stem ++ toString n)) : P (a.unique stem).1 := by
  unfold Allocator.unique
  split
  · exact hn _
  · exact h

/-- What holds of identifiers, with or without a number behind them, holds of what is assigned. -/
theorem forall_assign {P : String → Prop}
    (h : ∀ name, P (identifier name) ∧ ∀ n : Nat, P (identifier name ++ toString n))
    {e : String × String} (he : e ∈ (assign word a names).1) : P e.2 := by
  induction names generalizing a with
  | nil => exact absurd he not_mem_nil
  | cons name rest ih =>
    rcases mem_cons.1 he with rfl | he
    · exact of_unique a (h _).1 (h _).2
    · exact ih he

/-- Assigned words are names. -/
theorem isName_of_mem_assign {e : String × String} (h : e ∈ (assign word a names).1) : isName e.2 :=
  forall_assign (P := fun s => isName s = true)
    (fun name => ⟨isName_identifier name _, isName_append_toString (isName_identifier name _)⟩) h

/-- **What is assigned is new.** -/
theorem issues_assign (word : String) (a : Allocator) (names : List String) :
    a.Issues ((assign word a names).1.map Prod.snd) (assign word a names).2 := by
  induction names generalizing a with
  | nil => exact .nil a
  | cons name rest ih =>
    exact (a.issues_unique (identifier (orWord name word))).trans (ih _)

/-- **No identifier is given to two names.** -/
theorem eq_of_mem_assign {id : String} (hm : (m, id) ∈ (assign word a names).1)
    (hn : (n, id) ∈ (assign word a names).1) : m = n :=
  congrArg Prod.fst (inj_on_of_nodup_map (issues_assign word a names).nodup hm hn rfl)

/-- Every item is assigned a word. -/
theorem isSome_lookup_assign {α : Type} (a : Allocator) (f : α → String) (items : List α)
    (name : String) : ((assign word a (items.map f).eraseDups).1.lookup name).isSome
      ↔ ∃ item ∈ items, f item = name := by
  rw [Assoc.isSome_lookup, keys_assign, mem_eraseDups, mem_map]

/-- **A global variable has a name exactly if it is declared.** -/
theorem isSome_lookup_globals (t : Target) (p : Code.Program) (name : String) :
    ((t.naming p).globals.lookup name).isSome ↔ ∃ g ∈ p.globals, g.name = name :=
  isSome_lookup_assign ..

/-- **A procedure has a name exactly if it is declared.** -/
theorem isSome_lookup_procedures (t : Target) (p : Code.Program) (name : String) :
    ((t.naming p).procedures.lookup name).isSome ↔ ∃ q ∈ p.procedures, q.name = name :=
  isSome_lookup_assign ..

/-- Every member has a name. -/
theorem isName_of_lookup_globals {t : Target} {p : Code.Program} {name : String}
    (h : (t.naming p).globals.lookup name = some word) : isName word :=
  isName_of_mem_assign (e := (name, word)) (Assoc.mem_of_lookup h)

/-- No two members share a name. -/
theorem eq_of_lookup_globals {t : Target} {p : Code.Program}
    (hm : (t.naming p).globals.lookup m = some word)
    (hn : (t.naming p).globals.lookup n = some word) : m = n :=
  eq_of_mem_assign (Assoc.mem_of_lookup hm) (Assoc.mem_of_lookup hn)

/-! ### Texts that become the same name -/

/-- A text without blanks at its ends, in the characters of names, with a small first letter. -/
def lettering (name : String) : List Char :=
  match (Text.stripChars name.toList).map nameChar with
  | [] => []
  | c :: cs => c.toLower :: cs

/-- Whether no name starts like this: there is nothing, or a digit comes first. -/
def isHeadless : List Char → Bool
  | [] => true
  | c :: _ => c.isDigit

/-- `Mends v w`: the characters `v` are no name for want of an underscore, and `w` has it. -/
def Mends (v w : List Char) : Prop :=
  (isHeadless v = true ∧ w = '_' :: v) ∨ (String.ofList v ∈ keywords ∧ w = v ++ ['_'])

/-- Texts that differ only in what a name does not keep. -/
def Alike (m n : String) : Prop :=
  lettering m = lettering n ∨ Mends (lettering m) (lettering n) ∨ Mends (lettering n) (lettering m)

instance (v w : List Char) : Decidable (Mends v w) := inferInstanceAs (Decidable (_ ∨ _))

instance (m n : String) : Decidable (Alike m n) := inferInstanceAs (Decidable (_ ∨ _))

/-- The characters of a name from the lettering of a text. -/
def mended (w : List Char) : List Char :=
  if isHeadless w then '_' :: w
  else if keywords.contains (String.ofList w) then w ++ ['_'] else w

theorem head_ne_underscore (h : String.ofList w ∈ keywords) : w.head? ≠ some '_' := by
  have hall : ∀ k ∈ keywords, k.toList.head? ≠ some '_' := by decide
  simpa using hall _ h

/-- A text that starts like no name gets an underscore in front. -/
theorem mended_of_isHeadless (h : isHeadless w) : mended w = '_' :: w := by
  simp [mended, h]

theorem not_isHeadless_of_mem_keywords (h : String.ofList w ∈ keywords) : isHeadless w = false := by
  have hall : ∀ k ∈ keywords, isHeadless k.toList = false := by decide
  simpa using hall _ h

/-- A keyword gets an underscore behind it. -/
theorem mended_of_mem_keywords (h : String.ofList w ∈ keywords) : mended w = w ++ ['_'] := by
  simp [mended, not_isHeadless_of_mem_keywords h, h]

/-- Any other text stays as it is. -/
theorem mended_eq_self (h : isHeadless w = false) (hk : String.ofList w ∉ keywords) :
    mended w = w := by
  simp [mended, h, hk]

/-- **Mending once is enough.** -/
theorem Mends.mended_eq {v : List Char} (h : Mends v w) : mended v = w ∧ mended w = w := by
  rcases h with ⟨hv, rfl⟩ | ⟨hv, rfl⟩
  · exact ⟨mended_of_isHeadless hv, mended_eq_self (by simp [isHeadless]) fun hk =>
      head_ne_underscore hk rfl⟩
  · refine ⟨mended_of_mem_keywords hv, mended_eq_self ?_ ?_⟩
    · have := not_isHeadless_of_mem_keywords hv
      cases v with
      | nil => simp [isHeadless] at this
      | cons c cs => exact this
    · rw [String.ofList_append]
      exact append_not_mem_keywords (c := '_') (by simp) (Or.inl rfl)

/-- The three ways in which characters are mended. -/
theorem mended_cases (w : List Char) :
    (isHeadless w ∧ mended w = '_' :: w) ∨
      (String.ofList w ∈ keywords ∧ mended w = w ++ ['_']) ∨
      (isHeadless w = false ∧ String.ofList w ∉ keywords ∧ mended w = w) := by
  by_cases h : isHeadless w = true
  · exact Or.inl ⟨h, mended_of_isHeadless h⟩
  · rw [Bool.not_eq_true] at h
    by_cases hk : String.ofList w ∈ keywords
    · exact Or.inr (Or.inl ⟨hk, mended_of_mem_keywords hk⟩)
    · exact Or.inr (Or.inr ⟨h, hk, mended_eq_self h hk⟩)

/-- Texts are mended alike if they are equal or one is what the other is mended to. -/
theorem mended_eq_iff {v : List Char} : mended v = mended w ↔ v = w ∨ Mends v w ∨ Mends w v := by
  have hstart : ∀ {u x : List Char}, String.ofList u ∈ keywords → '_' :: x ≠ u ++ ['_'] := by
    intro u x hu he
    cases u with
    | nil => exact absurd hu (by decide)
    | cons c cs => exact head_ne_underscore hu (by rw [← (List.cons.inj he).1]; rfl)
  constructor
  · intro h
    rcases mended_cases v with ⟨hv, ev⟩ | ⟨hv, ev⟩ | ⟨-, -, ev⟩ <;>
      rcases mended_cases w with ⟨hw, ew⟩ | ⟨hw, ew⟩ | ⟨-, -, ew⟩ <;> rw [ev, ew] at h
    · exact Or.inl (List.cons.inj h).2
    · exact absurd h (hstart hw)
    · exact Or.inr (Or.inl (Or.inl ⟨hv, h.symm⟩))
    · exact absurd h.symm (hstart hv)
    · exact Or.inl (append_cancel_right h)
    · exact Or.inr (Or.inl (Or.inr ⟨hv, h.symm⟩))
    · exact Or.inr (Or.inr (Or.inl ⟨hw, h⟩))
    · exact Or.inr (Or.inr (Or.inr ⟨hw, h⟩))
    · exact Or.inl h
  · rintro (rfl | h | h)
    · rfl
    · rw [h.mended_eq.1, h.mended_eq.2]
    · rw [h.mended_eq.1, h.mended_eq.2]

theorem toLower_of_isDigit (h : isNameChar c) (hd : c.isDigit) : c.toLower = c :=
  forall_isNameChar (P := fun c => c.isDigit = true → c.toLower = c) (by decide) h hd

theorem avoidKeyword_ofList (w : List Char) : avoidKeyword (String.ofList w)
    = String.ofList (if keywords.contains (String.ofList w) then w ++ ['_'] else w) := by
  unfold avoidKeyword
  split
  · exact String.ofList_append.symm
  · rfl

theorem identifier_eq_mended : identifier name = String.ofList (mended (lettering name)) := by
  have hall := isNameChar_stripped name
  unfold identifier lettering
  rw [avoidKeyword_ofList]
  generalize (Text.stripChars name.toList).map nameChar = w at hall
  cases w with
  | nil => decide
  | cons c cs =>
    have hc : isNameChar c := hall c mem_cons_self
    by_cases hd : c.isDigit = true
    · have hs : shape .lower (c :: cs) = '_' :: c :: cs := by simp [shape, hd]
      have hk : keywords.contains (String.ofList ('_' :: c :: cs)) = false := by
        rw [contains_eq_mem, decide_eq_false_iff_not]
        exact fun hk => head_ne_underscore hk rfl
      rw [hs, hk]
      dsimp only
      rw [toLower_of_isDigit hc hd, mended_of_isHeadless (w := c :: cs) hd]
      rfl
    · have hs : shape .lower (c :: cs) = c.toLower :: cs := by simp [shape, Initial.apply, hd]
      have hl : isHeadless (c.toLower :: cs) = false := by
        rw [isHeadless, isDigit_toLower hc]
        simpa using hd
      rw [hs, mended, hl]
      rfl

/-- **Two texts become the same name exactly if they are alike.** -/
theorem identifier_eq_iff : identifier m = identifier n ↔ Alike m n := by
  rw [identifier_eq_mended, identifier_eq_mended, String.ofList_inj, mended_eq_iff, Alike]

end Kotlin
end ScreenForge
