/-
# Numbered arguments

A method call takes its arguments from the slots whose names number one, in the order of the
numbers, and of the names where two names spell one number (`ARG1`, `ARG01`).  The order in which
the slots are written does not count.
-/
import ScreenForge.Proofs.Code.Slot
import ScreenForge.Proofs.Number.Numeral

namespace ScreenForge
namespace Code

open List

variable {names slots : List String} {name : String}

/-- The number of an argument slot that can be read. -/
def ArgSlot.number? : ArgSlot → Option Int
  | .numbered n => some n
  | .long => none

/-- The number of the argument that a slot is for. -/
def argNumber? (name : String) : Option Int := (argSlot? name).bind ArgSlot.number?

theorem argNumber?_eq_some_iff {n : Int} :
    argNumber? name = some n ↔ argSlot? name = some (.numbered n) := by
  rw [argNumber?, Option.bind_eq_some_iff]
  constructor
  · rintro ⟨slot, hslot, hn⟩
    cases slot with
    | numbered m => rw [hslot, Option.some.inj hn]
    | long => cases hn
  · exact fun h => ⟨_, h, rfl⟩

/-- The name of an argument slot has digits behind its stem, and perhaps a line break. -/
theorem exists_digits_of_argSlot? {slot : ArgSlot} (h : argSlot? name = some slot) :
    ∃ digits tail, name.toList = 'A' :: 'R' :: 'G' :: (digits ++ tail) ∧ tail ⊆ ['\n'] ∧
      (∀ c ∈ digits, (Text.digitValue? c).isSome) ∧
      ((Numeral.integerChars? digits).map ArgSlot.numbered).getD .long = slot := by
  unfold argSlot? at h
  split at h
  · next rest hname =>
    obtain ⟨digits, tail, hdigits, hrest, htail⟩ : ∃ digits tail,
        (if rest.getLast? = some '\n' then rest.dropLast else rest) = digits ∧
          rest = digits ++ tail ∧ tail ⊆ ['\n'] := by
      split
      · next hlast =>
        obtain ⟨front, rfl⟩ := List.getLast?_eq_some_iff.1 hlast
        exact ⟨front, ['\n'], by simp, rfl, by simp⟩
      · exact ⟨_, [], rfl, (append_nil rest).symm, by simp⟩
    dsimp only at h
    rw [hdigits] at h
    split at h
    · cases h
    · next hall =>
      rw [Bool.or_eq_true, not_or, Bool.not_eq_true', Bool.not_eq_false, all_eq_true] at hall
      exact ⟨digits, tail, hrest ▸ hname, htail, hall.2, Option.some.inj h⟩
  · cases h

theorem argNumber?_nonneg {n : Int} (h : argNumber? name = some n) : 0 ≤ n := by
  obtain ⟨digits, -, -, -, hdigits, hslot⟩ :=
    exists_digits_of_argSlot? (argNumber?_eq_some_iff.1 h)
  cases hread : Numeral.integerChars? digits with
  | none => simp [hread] at hslot
  | some m =>
    rw [hread] at hslot
    exact ArgSlot.numbered.inj hslot ▸ Numeral.integerChars?_nonneg hdigits hread

/-- The slot of an argument as it is usually spelled. -/
def argName (i : Nat) : String := "ARG" ++ toString i

/-- **The usual name of a slot has its number**, unless it has too many digits. -/
theorem argSlot?_argName (i : Nat) :
    argSlot? (argName i) = some (.numbered i) ∨ argSlot? (argName i) = some .long := by
  have hdigits := Json.isDigit_toDigits i
  have htoString : (toString i).toList = Nat.toDigits 10 i := by
    rw [Nat.toString_eq_ofList_toDigits, String.toList_ofList]
  have hchars : (argName i).toList = 'A' :: 'R' :: 'G' :: Nat.toDigits 10 i := by
    rw [argName, String.toList_append, htoString]
    rfl
  have hlast : (Nat.toDigits 10 i).getLast? ≠ some '\n' := fun h =>
    absurd (hdigits _ (mem_of_getLast? h)) (by decide)
  have hall : (Nat.toDigits 10 i).all (fun c => (Text.digitValue? c).isSome) :=
    all_eq_true.2 fun c hc => Numeral.forall_isDigit
      (P := fun c => (Text.digitValue? c).isSome) (by decide) (hdigits c hc)
  have hread : Numeral.integerChars? (Nat.toDigits 10 i) = _ := Numeral.integerChars?_intChars i
  have hne : (Nat.toDigits 10 i).isEmpty = false :=
    isEmpty_eq_false_iff.2 Nat.toDigits_ne_nil
  simp only [argSlot?, hchars, if_neg hlast, hall, hne, hread, Bool.not_true, Bool.or_false,
    Bool.false_eq_true, if_false]
  split
  · exact Or.inl rfl
  · exact Or.inr rfl

/-- Whether numbered names are in order: by number, then by name. -/
def slotLe (a b : Int × String) : Bool := a.1 < b.1 || (a.1 == b.1 && a.2 ≤ b.2)

theorem slotLe_iff {a b : Int × String} : slotLe a b ↔ a.1 < b.1 ∨ (a.1 = b.1 ∧ a.2 ≤ b.2) := by
  simp [slotLe]

theorem slotLe_trans (a b c : Int × String) (hab : slotLe a b) (hbc : slotLe b c) : slotLe a c := by
  rw [slotLe_iff] at hab hbc ⊢
  rcases hab with hab | ⟨hab, hnames⟩
  · rcases hbc with hbc | ⟨hbc, -⟩
    · exact Or.inl (Int.lt_trans hab hbc)
    · exact Or.inl (hbc ▸ hab)
  · rcases hbc with hbc | ⟨hbc, hnames'⟩
    · exact Or.inl (hab ▸ hbc)
    · exact Or.inr ⟨hab.trans hbc, String.le_trans hnames hnames'⟩

theorem slotLe_total (a b : Int × String) : slotLe a b || slotLe b a := by
  rw [Bool.or_eq_true, slotLe_iff, slotLe_iff]
  rcases Int.lt_trichotomy a.1 b.1 with h | h | h
  · exact Or.inl (Or.inl h)
  · rcases String.le_total a.2 b.2 with hnames | hnames
    · exact Or.inl (Or.inr ⟨h, hnames⟩)
    · exact Or.inr (Or.inr ⟨h.symm, hnames⟩)
  · exact Or.inr (Or.inl h)

/-- **The argument slots of a call**: those whose names number an argument, sorted. -/
theorem exists_numbered (h : argSlots? names = some slots) :
    ∃ numbered : List (Int × String), slots = sortSlots numbered ∧
      numbered.map Prod.snd = names.filter (fun name => (argSlot? name).isSome) ∧
      ∀ e ∈ numbered, argSlot? e.2 = some (.numbered e.1) := by
  obtain ⟨numbered, hnumbered, rfl⟩ := Option.map_eq_some_iff.1 h
  refine ⟨numbered, rfl, ?_⟩
  clear h
  induction names generalizing numbered with
  | nil =>
    obtain rfl : numbered = [] := by simpa using hnumbered.symm
    exact ⟨rfl, fun e he => absurd he not_mem_nil⟩
  | cons name rest ih =>
    cases hname : argSlot? name with
    | none =>
      simp only [filterMap_cons, hname, Option.map_none] at hnumbered
      rw [filter_cons_of_neg (by simp [hname])]
      exact ih numbered hnumbered
    | some slot =>
      cases slot with
      | long => simp [hname] at hnumbered
      | numbered n =>
        simp only [filterMap_cons, hname, Option.map_some, mapM_cons] at hnumbered
        obtain ⟨first, hfirst, hbind⟩ := Option.bind_eq_some_iff.1 hnumbered
        obtain ⟨others, hothers, heq⟩ := Option.bind_eq_some_iff.1 hbind
        obtain rfl := Option.some.inj hfirst
        obtain rfl := Option.some.inj heq
        obtain ⟨hnames, hslots⟩ := ih others hothers
        rw [filter_cons_of_pos (by simp [hname]), map_cons, hnames]
        exact ⟨rfl, forall_mem_cons.2 ⟨hname, hslots⟩⟩

/-- **The argument slots of a call are all slots whose names number an argument.** -/
theorem argSlots?_perm (h : argSlots? names = some slots) :
    slots.Perm (names.filter fun name => (argSlot? name).isSome) := by
  obtain ⟨numbered, rfl, hnames, -⟩ := exists_numbered h
  exact ((mergeSort_perm _ _).map Prod.snd).trans (.of_eq hnames)

/-! ### The order of arguments -/

/-- Whether a slot comes before another: it has a smaller number, or the same and a smaller name. -/
def precedes (other slot : String) : Bool :=
  match argNumber? other, argNumber? slot with
  | some m, some n => m < n || (m == n && decide (other < slot))
  | _, _ => false

/-- One slot comes before another by its number, then by its name. -/
theorem precedes_iff {other slot : String} : precedes other slot ↔
    ∃ m n, argNumber? other = some m ∧ argNumber? slot = some n ∧
      (m < n ∨ (m = n ∧ other < slot)) := by
  unfold precedes
  split
  · next m n hm hn => simp [hm, hn]
  · next hnone =>
    refine iff_of_false Bool.false_ne_true ?_
    rintro ⟨m, n, hm, hn, -⟩
    exact hnone m n hm hn

theorem precedes_asymm {a b : String} (h : precedes a b) : precedes b a = false := by
  obtain ⟨m, n, hm, hn, horder⟩ := precedes_iff.1 h
  rw [Bool.eq_false_iff]
  intro hback
  obtain ⟨n', m', hn', hm', horder'⟩ := precedes_iff.1 hback
  obtain rfl := Option.some.inj (hm.symm.trans hm')
  obtain rfl := Option.some.inj (hn.symm.trans hn')
  rcases horder with hlt | ⟨heq, hnames⟩
  · rcases horder' with hlt' | ⟨heq', -⟩
    · exact absurd (Int.lt_trans hlt hlt') (Int.lt_irrefl m)
    · exact absurd hlt (heq' ▸ Int.lt_irrefl _)
  · rcases horder' with hlt' | ⟨-, hnames'⟩
    · exact absurd hlt' (heq ▸ Int.lt_irrefl _)
    · exact absurd (String.lt_trans hnames hnames') (String.lt_irrefl a)

/-- **Arguments are in order**, if no slot is there twice. -/
theorem pairwise_argSlots? (h : argSlots? names = some slots) (hnodup : names.Nodup) :
    slots.Pairwise fun a b => precedes a b := by
  have hdistinct : slots.Nodup := (argSlots?_perm h).nodup_iff.2 (hnodup.filter _)
  obtain ⟨numbered, rfl, -, hslots⟩ := exists_numbered h
  have hsorted : (numbered.mergeSort slotLe).Pairwise fun a b => slotLe a b :=
    pairwise_mergeSort slotLe_trans slotLe_total numbered
  have hnames : (numbered.mergeSort slotLe).Pairwise fun a b => a.2 ≠ b.2 :=
    pairwise_map.1 hdistinct
  refine pairwise_map.2 ((hsorted.and hnames).imp_of_mem ?_)
  rintro a b ha hb ⟨hle, hne⟩
  have hnumber : ∀ e ∈ numbered.mergeSort slotLe, argNumber? e.2 = some e.1 :=
    fun e he => argNumber?_eq_some_iff.2 (hslots e (mem_mergeSort.1 he))
  refine precedes_iff.2 ⟨a.1, b.1, hnumber a ha, hnumber b hb, ?_⟩
  rcases slotLe_iff.1 hle with hlt | ⟨heq, hle⟩
  · exact Or.inl hlt
  · exact Or.inr ⟨heq, String.not_le.1 fun hback => hne (String.le_antisymm hle hback)⟩

/-- In a list that is in order the place of an element is how many come before it. -/
theorem getElem?_countP {α : Type} {before : α → α → Bool} {l : List α}
    (h : l.Pairwise fun a b => before a b)
    (hasymm : ∀ a b, before a b → before b a = false) {a : α} (ha : a ∈ l) :
    l[l.countP fun b => before b a]? = some a := by
  obtain ⟨front, back, rfl⟩ := append_of_mem ha
  obtain ⟨-, hback, hacross⟩ := pairwise_append.1 h
  have hself : before a a = false := by
    cases hself : before a a with
    | false => rfl
    | true => rw [← hself, hasymm a a hself]
  have hfront : front.countP (fun b => before b a) = front.length :=
    countP_eq_length.2 fun b hb => hacross b hb a mem_cons_self
  have hnone : (a :: back).countP (fun b => before b a) = 0 := by
    refine countP_eq_zero.2 (forall_mem_cons.2 ⟨by simp [hself], fun b hb => ?_⟩)
    rw [hasymm a b ((pairwise_cons.1 hback).1 b hb)]
    exact Bool.false_ne_true
  rw [countP_append, hfront, hnone, Nat.add_zero, List.getElem?_append_right (Nat.le_refl _),
    Nat.sub_self]
  rfl

/-- **The place of an argument is how many slots come before its own.** -/
theorem getElem?_argSlots? (h : argSlots? names = some slots) (hnodup : names.Nodup)
    {slot : String} (hslot : slot ∈ slots) :
    slots[names.countP fun other => precedes other slot]? = some slot := by
  have hplace := getElem?_countP (pairwise_argSlots? h hnodup) (fun _ _ => precedes_asymm) hslot
  have hcount : slots.countP (fun other => precedes other slot)
      = names.countP fun other => precedes other slot := by
    rw [(argSlots?_perm h).countP_eq, countP_filter]
    refine countP_congr fun other _ => ?_
    rw [Bool.and_eq_true]
    refine ⟨fun hboth => hboth.1, fun hp => ⟨hp, ?_⟩⟩
    obtain ⟨m, n, hm, -, -⟩ := precedes_iff.1 hp
    rw [argNumber?_eq_some_iff.1 hm]
    rfl
  rwa [hcount] at hplace

end Code
end ScreenForge
