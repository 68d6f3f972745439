/-
# Reading what was written

A value is plain if it holds no floating point number and its objects have distinct names.  One
statement, by induction over the value, says both when its text is read and when it is refused: the
grammar finds in the text the value and nothing else (`Stands`), unless a whole number in it is too
long.
-/
import ScreenForge.Proofs.Json.Grammar
import ScreenForge.Proofs.Json.Values

namespace ScreenForge
namespace Json

open List
open Text (Symbol)

variable {c d : Char} {gap : List Char} {style : Style} {input rest left : List Symbol} {v : Json}

/-! ### What stands in a text -/

/-- A phrase stands in the input under a condition, with this behind it, and no other does. -/
def Stands {α : Type} (P : Phrase α) (input : List Symbol) (good : Prop) (a : α)
    (rest : List Symbol) : Prop :=
  ∀ b left, P input b left ↔ good ∧ b = a ∧ left = rest

/-- Nothing that could belong to a number follows. -/
def Ends (rest : List Symbol) : Prop := ∀ s ∈ rest.head?, isNumberSymbol s = false

theorem ends_nil : Ends [] := fun _ h => nomatch h

theorem ends_cons (h : isNumberSymbol (some c) = false) : Ends (some c :: rest) := by
  intro s hs
  obtain rfl : some c = s := Option.some.inj hs
  exact h

theorem isNumberSymbol_of_isSpace (h : isSpace (some c)) : isNumberSymbol (some c) = false := by
  simp only [isSpace, Bool.or_eq_true, beq_iff_eq] at h
  rcases h with ((rfl | rfl) | rfl) | rfl <;> rfl

theorem ends_gap (hgap : IsGap gap) (h : Ends rest) : Ends (gap.map some ++ rest) := by
  cases gap with
  | nil => exact h
  | cons c cs => exact ends_cons (isNumberSymbol_of_isSpace (hgap c mem_cons_self))

theorem opens_cons_iff (hc : isSpace (some c) = false) :
    Opens (some c :: rest) d left ↔ d = c ∧ left = rest := by
  rw [Opens, dropWhile_cons_of_neg (by simp [hc])]
  simp [eq_comm]

theorem opens_gap_iff (hgap : IsGap gap) :
    Opens (gap.map some ++ input) d left ↔ Opens input d left := by
  rw [Opens, Opens, dropWhile_gap hgap]

/-- Blanks in front of a value do not count. -/
theorem value_gap (hgap : IsGap gap) (v : Json) (left : List Symbol) :
    Value (gap.map some ++ input) v left ↔ Value input v left := by
  rw [value_iff, value_iff, dropWhile_gap hgap]

/-- A whole number's text is short enough to be read; other values are. -/
def IsShort : Json → Prop
  | .int n => (intChars n).length ≤ maxNumeral
  | _ => True

/-- Neither a floating point number nor an object with a name twice. -/
def IsPlain : Json → Prop
  | .float _ => False
  | .obj members => (Assoc.keys members).Nodup
  | _ => True

/-- A value's text in a style is read back, or refused if one of its numbers is too long. -/
def Reads (style : Style) (v : Json) : Prop :=
  ∀ depth rest, Ends rest →
    Stands Value ((write style depth v).map some ++ rest) (v.Throughout IsShort) v rest

/-! ### Scalars -/

theorem ne_of_isNumberSymbol {d : Char} (hc : isNumberSymbol (some c))
    (hd : isNumberSymbol (some d) = false) : c ≠ d := by
  rintro rfl
  rw [hc] at hd
  cases hd

theorem isSpace_of_isNumberSymbol (h : isNumberSymbol (some c)) : isSpace (some c) = false := by
  rw [Bool.eq_false_iff]
  intro hspace
  rw [isNumberSymbol_of_isSpace hspace] at h
  cases h

theorem value_scalar_iff (hspace : isSpace (some c) = false) (hbrace : c ≠ '\x7b')
    (hbracket : c ≠ '[') (hquote : c ≠ '"') {left : List Symbol} :
    Value (some c :: rest) v left ↔ readScalar strict (some c :: rest) = .ok (v, left) := by
  rw [value_iff, dropWhile_cons_of_neg (by simp [hspace])]
  unfold Opened
  split
  · next h => exact absurd (Option.some.inj (List.cons.inj h).1) hquote
  · next h => exact absurd (Option.some.inj (List.cons.inj h).1) hbracket
  · next h => exact absurd (Option.some.inj (List.cons.inj h).1) hbrace
  · rfl

theorem reads_word {cs : List Char} (hwrite : ∀ depth, write style depth v = c :: cs)
    (hshort : v.Throughout IsShort) (hspace : isSpace (some c) = false) (hbrace : c ≠ '\x7b')
    (hbracket : c ≠ '[') (hquote : c ≠ '"')
    (hread : ∀ rest, readScalar strict ((c :: cs).map some ++ rest) = .ok (v, rest)) :
    Reads style v := by
  intro depth rest _ w left
  rw [hwrite, map_cons, cons_append, value_scalar_iff hspace hbrace hbracket hquote]
  refine (Eq.congr_left (hread rest)).trans ?_
  simp [hshort, eq_comm]

theorem reads_null : Reads style .null :=
  reads_word (fun _ => rfl) trivial rfl (by decide) (by decide) (by decide) fun _ => rfl

theorem reads_bool (b : Bool) : Reads style (.bool b) := by
  cases b with
  | true | false =>
    exact reads_word (fun _ => rfl) trivial rfl (by decide) (by decide) (by decide) fun _ => rfl

/-- A whole number is read if its text is short enough. -/
theorem readScalar_int (h : Ends rest) (n : Int) :
    readScalar strict ((intChars n).map some ++ rest)
      = if (intChars n).length > maxNumeral
        then .error (.unexpected ((intChars n).map some ++ rest).length)
        else .ok (.int n, rest) := by
  have hall : ∀ s ∈ (intChars n).map some, isNumberSymbol s := by
    intro s hs
    obtain ⟨c, hc, rfl⟩ := mem_map.1 hs
    exact isNumberSymbol_intChars n c hc
  obtain ⟨htake, hdrop⟩ := Text.takeWhile_of_head h
  have hnone : ((words strict).find? fun w => w.1.isPrefixOf ((intChars n).map some ++ rest))
      = none := by
    obtain ⟨c, cs, hn⟩ := exists_cons_of_ne_nil (intChars_ne_nil n)
    have hc := isNumberSymbol_intChars n c (by rw [hn]; exact mem_cons_self)
    rw [hn]
    exact find?_words_eq_none (ne_of_isNumberSymbol hc rfl) (ne_of_isNumberSymbol hc rfl)
      (ne_of_isNumberSymbol hc rfl)
  simp only [readScalar, hnone, takeWhile_append_of_pos hall,
    dropWhile_append_of_pos hall, htake, hdrop, append_nil, filterMap_map]
  have hsame : List.filterMap (id ∘ some) (intChars n) = intChars n := filterMap_some
  rw [hsame, number?_intChars]
  by_cases hlong : (intChars n).length > maxNumeral
  · simp only [if_pos hlong]
  · simp only [if_neg hlong]

theorem reads_int (n : Int) : Reads style (.int n) := by
  intro depth rest hrest w left
  obtain ⟨c, cs, hn⟩ := exists_cons_of_ne_nil (intChars_ne_nil n)
  have hc := isNumberSymbol_intChars n c (by rw [hn]; exact mem_cons_self)
  have hscalar : Value ((write style depth (.int n)).map some ++ rest) w left
      ↔ readScalar strict ((intChars n).map some ++ rest) = .ok (w, left) := by
    rw [write, hn]
    exact value_scalar_iff (isSpace_of_isNumberSymbol hc) (ne_of_isNumberSymbol hc rfl)
      (ne_of_isNumberSymbol hc rfl) (ne_of_isNumberSymbol hc rfl)
  have hshort : (int n).Throughout IsShort ↔ ¬ (intChars n).length > maxNumeral := Nat.not_lt.symm
  rw [hscalar, readScalar_int hrest, hshort]
  by_cases hlong : (intChars n).length > maxNumeral <;> simp [hlong, eq_comm]

theorem reads_str (hstyle : style.IsReadable) (s : String) : Reads style (.str s) := by
  intro depth rest _ w left
  obtain ⟨body, hbody, hread⟩ := readString_quoted hstyle s rest
  rw [write, hbody, value_iff]
  change (∃ t, readString body = .ok (t, left) ∧ w = .str t) ↔ _
  rw [hread]
  simp [Throughout, IsShort, eq_comm, and_comm]

/-! ### Containers -/

section

variable {α : Type} {Entry : Phrase α} {closing : Char} {good : α → Prop} {text : α → List Char}
  {a : α} {entries : List α}

/-- A series is its first entry and what follows it. -/
theorem series_iff {good : Prop} {tail : List Symbol} (h : Stands Entry input good a tail) :
    Series Entry closing input entries rest ↔ good ∧ (Opens tail closing rest ∧ entries = [a]
      ∨ ∃ next, Opens tail ',' next ∧ ∃ others, Series Entry closing next others rest
        ∧ entries = a :: others) := by
  constructor
  · rintro (⟨entry, close⟩ | ⟨entry, comma, others⟩)
    · obtain ⟨hgood, rfl, rfl⟩ := (h _ _).1 entry
      exact ⟨hgood, .inl ⟨close, rfl⟩⟩
    · obtain ⟨hgood, rfl, rfl⟩ := (h _ _).1 entry
      exact ⟨hgood, .inr ⟨_, comma, _, others, rfl⟩⟩
  · rintro ⟨hgood, ⟨close, rfl⟩ | ⟨next, comma, others, series, rfl⟩⟩
    · exact .last ((h _ _).2 ⟨hgood, rfl, rfl⟩) close
    · exact .more ((h _ _).2 ⟨hgood, rfl, rfl⟩) comma series

/-- An entry's text is read back, wherever it stands. -/
def ReadsEntry (Entry : Phrase α) (good : α → Prop) (text : α → List Char) (a : α) : Prop :=
  ∀ {gap rest}, IsGap gap → Ends rest →
    Stands Entry (gap.map some ++ ((text a).map some ++ rest)) (good a) a rest

/-- Entries, each behind a separator. -/
def further (style : Style) (depth : Nat) (text : α → List Char) (entries : List α) : List Char :=
  entries.flatMap fun a => style.comma ++ (lineBreak style depth ++ text a)

/-- **Entries are read back one by one**, up to the first that is refused. -/
theorem stands_series (hstyle : style.IsReadable) (depth : Nat) {close : List Char}
    (hclose : IsGap close) (hsolid : isSpace (some closing) = false)
    (hends : isNumberSymbol (some closing) = false) (hcomma : closing ≠ ',')
    (h : ∀ b ∈ a :: entries, ReadsEntry Entry good text b) (hgap : IsGap gap)
    (rest : List Symbol) : Stands (Series Entry closing) (gap.map some ++ ((text a).map some
        ++ ((further style depth text entries ++ close).map some ++ some closing :: rest)))
      (∀ b ∈ a :: entries, good b) (a :: entries) rest := by
  obtain ⟨between, hbetween, hblank⟩ := hstyle.comma
  induction entries generalizing a gap with
  | nil =>
    intro found left
    rw [further, flatMap_nil, nil_append,
      series_iff (h a mem_cons_self hgap (ends_gap hclose (ends_cons hends)))]
    simp only [opens_gap_iff hclose, opens_cons_iff hsolid]
    simp [hcomma.symm, and_comm]
  | cons b entries ih =>
    intro found left
    have htail : (further style depth text (b :: entries) ++ close).map some
        ++ some closing :: rest = some ',' :: ((between ++ lineBreak style depth).map some
          ++ ((text b).map some ++ ((further style depth text entries ++ close).map some
            ++ some closing :: rest))) := by
      simp [further, hbetween]
    have hothers := ih (fun b hb => h b (mem_cons_of_mem a hb))
      (hblank.append (isGap_lineBreak style depth))
    rw [htail, series_iff (h a mem_cons_self hgap (ends_cons rfl))]
    simp only [opens_cons_iff (c := ',') rfl, hcomma, false_and, false_or, true_and,
      exists_eq_left, hothers _ _, forall_mem_cons]
    grind

/-- **A container is read back** if its entries are. -/
theorem stands_entries (hstyle : style.IsReadable) (depth : Nat)
    (hsolid : isSpace (some closing) = false) (hends : isNumberSymbol (some closing) = false)
    (hcomma : closing ≠ ',')
    (hhead : ∃ c cs, text a = c :: cs ∧ isSpace (some c) = false ∧ c ≠ closing)
    (h : ∀ b ∈ a :: entries, ReadsEntry Entry good text b) (rest : List Symbol) :
    Stands (Entries Entry closing) ((lineBreak style (depth + 1) ++ text a
        ++ further style (depth + 1) text entries ++ lineBreak style depth ++ [closing]).map some
          ++ rest) (∀ b ∈ a :: entries, good b) (a :: entries) rest := by
  intro found left
  have hgap := isGap_lineBreak style (depth + 1)
  have hseries := stands_series hstyle (depth + 1) (isGap_lineBreak style depth) hsolid hends hcomma
    h hgap rest found left
  simp only [map_append, append_assoc, map_cons, map_nil, cons_append, nil_append] at hseries ⊢
  rw [← hseries]
  refine ⟨fun hfound => ?_, .series⟩
  rcases hfound with close | series
  · obtain ⟨c, cs, htext, hc, hne⟩ := hhead
    rw [opens_gap_iff hgap, htext, map_cons, cons_append, opens_cons_iff hc] at close
    exact absurd close.1.symm hne
  · exact series

theorem stands_no_entries (Entry : Phrase α) (hsolid : isSpace (some closing) = false)
    (hopen : ∀ {input a rest left}, Entry input a rest → ¬ Opens input closing left)
    (rest : List Symbol) : Stands (Entries Entry closing) (some closing :: rest) True [] rest := by
  intro found left
  constructor
  · rintro (close | entry | entry)
    · exact ⟨trivial, rfl, ((opens_cons_iff hsolid).1 close).2⟩
    · exact (hopen entry ((opens_cons_iff hsolid).2 ⟨rfl, rfl⟩)).elim
    · exact (hopen entry ((opens_cons_iff hsolid).2 ⟨rfl, rfl⟩)).elim
  · rintro ⟨-, rfl, rfl⟩
    exact .none ((opens_cons_iff hsolid).2 ⟨rfl, rfl⟩)

theorem Stands.exists_iff {β : Type} {P : Phrase α} {good : Prop} (h : Stands P input good a rest)
    (f : α → β) {b : β} : (∃ a, P input a left ∧ b = f a) ↔ good ∧ b = f a ∧ left = rest := by
  simp only [h _ _]
  grind

end

theorem readsEntry_value (depth : Nat) (h : Reads style v) :
    ReadsEntry Value (·.Throughout IsShort) (write style depth) v := by
  intro gap rest hgap hrest w left
  rw [value_gap hgap]
  exact h depth rest hrest w left

/-- The text of a member. -/
def memberText (style : Style) (depth : Nat) (m : String × Json) : List Char :=
  quoted style m.1 ++ style.colon ++ write style depth m.2

theorem readsEntry_member (hstyle : style.IsReadable) (depth : Nat) {m : String × Json}
    (h : Reads style m.2) :
    ReadsEntry Member (·.2.Throughout IsShort) (memberText style depth) m := by
  intro gap rest hgap hrest n left
  obtain ⟨behind, hcolon, hbehind⟩ := hstyle.colon
  obtain ⟨body, hbody, hread⟩ := readString_quoted hstyle m.1
    (style.colon.map some ++ ((write style depth m.2).map some ++ rest))
  rw [memberText, map_append, map_append, append_assoc, append_assoc, hbody]
  constructor
  · rintro ⟨quote, text, colon, hv⟩
    rw [opens_gap_iff hgap, opens_cons_iff rfl] at quote
    obtain ⟨-, rfl⟩ := quote
    cases hread.symm.trans text
    rw [hcolon, map_cons, cons_append, opens_cons_iff rfl] at colon
    obtain ⟨-, rfl⟩ := colon
    rw [value_gap hbehind] at hv
    obtain ⟨hgood, rfl, rfl⟩ := (h depth rest hrest _ _).1 hv
    exact ⟨hgood, rfl, rfl⟩
  · rintro ⟨hgood, rfl, rfl⟩
    refine ⟨(opens_gap_iff hgap).2 ((opens_cons_iff rfl).2 ⟨rfl, rfl⟩), hread, ?_,
      (value_gap hbehind _ _).2 ((h depth _ hrest _ _).2 ⟨hgood, rfl, rfl⟩)⟩
    rw [hcolon]
    exact (opens_cons_iff rfl).2 ⟨rfl, rfl⟩

theorem writeItems_eq_further (style : Style) (depth : Nat) (items : List Json) :
    writeItems style depth items = further style depth (write style depth) items := by
  induction items with
  | nil => rw [writeItems, further, flatMap_nil]
  | cons v items ih =>
    rw [writeItems, ih]
    simp [further]

theorem writeMembers_eq_further (style : Style) (depth : Nat) (members : List (String × Json)) :
    writeMembers style depth members = further style depth (memberText style depth) members := by
  induction members with
  | nil => rw [writeMembers, further, flatMap_nil]
  | cons m members ih =>
    rw [writeMembers, ih]
    simp [further, memberText]

theorem exists_head_write (hv : IsPlain v) (style : Style) (depth : Nat) :
    ∃ c cs, write style depth v = c :: cs ∧ isSpace (some c) = false ∧ c ≠ ']' := by
  cases v with
  | null => exact ⟨_, _, rfl, rfl, by decide⟩
  | bool b => cases b <;> exact ⟨_, _, rfl, rfl, by decide⟩
  | int n =>
    obtain ⟨c, cs, hn⟩ := exists_cons_of_ne_nil (intChars_ne_nil n)
    have hc := isNumberSymbol_intChars n c (by rw [hn]; exact mem_cons_self)
    exact ⟨c, cs, by rw [write, hn], isSpace_of_isNumberSymbol hc, ne_of_isNumberSymbol hc rfl⟩
  | float x => exact absurd hv (fun h => h)
  | str s => exact ⟨_, _, rfl, rfl, by decide⟩
  | arr items =>
    cases items with
    | nil | cons u items => exact ⟨_, _, rfl, rfl, by decide⟩
  | obj members =>
    cases members with
    | nil | cons m members => exact ⟨_, _, rfl, rfl, by decide⟩

variable (hstyle : style.IsReadable)
include hstyle

/-- A list is read if its items are. -/
theorem reads_arr {items : List Json}
    (hplain : ∀ u ∈ items, IsPlain u) (hitems : ∀ u ∈ items, Reads style u) :
    Reads style (.arr items) := by
  intro depth rest _ w left
  cases items with
  | nil =>
    have hnone := stands_no_entries Value rfl Value.not_closing rest
    refine value_iff.trans ((hnone.exists_iff arr).trans ?_)
    simp [throughout_arr, IsShort]
  | cons v items =>
    have hentries := stands_entries hstyle depth rfl rfl (by decide)
      (exists_head_write (hplain v mem_cons_self) style (depth + 1))
      (fun u hu => readsEntry_value (depth + 1) (hitems u hu)) rest
    rw [write, writeItems_eq_further]
    refine value_iff.trans ((hentries.exists_iff arr).trans ?_)
    simp [throughout_arr, IsShort]

/-- An object with distinct names is read if its members are. -/
theorem reads_obj {members : List (String × Json)}
    (hnodup : (Assoc.keys members).Nodup) (hmembers : ∀ m ∈ members, Reads style m.2) :
    Reads style (.obj members) := by
  intro depth rest _ w left
  cases members with
  | nil =>
    have hnone := stands_no_entries Member rfl Member.not_closing rest
    refine value_iff.trans ((hnone.exists_iff fun pairs => obj (Assoc.ofList pairs)).trans ?_)
    simp [throughout_obj, IsShort, Assoc.ofList]
  | cons m members =>
    have hhead : ∃ c cs, memberText style (depth + 1) m = c :: cs ∧ isSpace (some c) = false
        ∧ c ≠ '\x7d' := ⟨'"', _, rfl, rfl, by decide⟩
    have hentries := stands_entries hstyle depth rfl rfl (by decide) hhead
      (fun n hn => readsEntry_member hstyle (depth + 1) (hmembers n hn)) rest
    rw [memberText, ← append_assoc, ← append_assoc] at hentries
    rw [write, writeMembers_eq_further]
    refine value_iff.trans ((hentries.exists_iff fun pairs => obj (Assoc.ofList pairs)).trans ?_)
    rw [Assoc.ofList_eq_self hnodup]
    simp [throughout_obj, IsShort]

/-- **Every plain value is read back** from its text in a readable style. -/
theorem reads_of_plain (v : Json) (hv : v.Throughout IsPlain) : Reads style v := by
  induction v using inductParts with
  | h v inside =>
    cases v with
    | null => exact reads_null
    | bool b => exact reads_bool b
    | int n => exact reads_int n
    | float x => exact absurd hv (fun h => h)
    | str s => exact reads_str hstyle s
    | arr items =>
      obtain ⟨-, hitems⟩ := (throughout_arr items).1 hv
      exact reads_arr hstyle (fun u hu => (hitems u hu).here)
        fun u hu => inside u hu (hitems u hu)
    | obj members =>
      obtain ⟨hnodup, hmembers⟩ := (throughout_obj members).1 hv
      exact reads_obj hstyle hnodup
        fun m hm => inside m.2 (mem_map_of_mem hm) (hmembers m hm)

/-- **Reading what was written.**  The text of a plain value is read back as the value if all its
whole numbers are short enough, and refused otherwise. -/
theorem readWith_write_iff (hv : v.Throughout IsPlain) {w : Json} :
    readWith strict ((write style 0 v).map some) = .ok w ↔ v.Throughout IsShort ∧ w = v := by
  have hread := reads_of_plain hstyle v hv 0 [] ends_nil
  rw [append_nil] at hread
  rw [readWith_eq_ok_iff]
  constructor
  · rintro ⟨rest, hvalue, -⟩
    obtain ⟨hshort, rfl, -⟩ := (hread _ _).1 hvalue
    exact ⟨hshort, rfl⟩
  · rintro ⟨hshort, rfl⟩
    exact ⟨[], (hread _ _).2 ⟨hshort, rfl, rfl⟩, rfl⟩

/-- **A value survives as octets**: those of its text are read as the value. -/
theorem ofOctets_render (hplain : v.Throughout IsPlain) (hshort : v.Throughout IsShort) :
    ofOctets (render style v).toUTF8.toList = .ok v := by
  rw [ofOctets, Text.symbols_toUTF8, Text.symbolsOf, render, String.toList_ofList]
  exact (readWith_write_iff hstyle hplain).2 ⟨hshort, rfl⟩

end Json
end ScreenForge
