/-
# The grammar of JSON

The reader counts its steps and gathers entries from the front, so what it accepts is said here a
second time, without steps and with all that is written.  `Value input v rest` says that the input
begins with a value, behind blanks, and what is left behind it.

A level of nesting and an entry take a symbol each, so as many steps as there are symbols are
enough.
-/
import ScreenForge.Proofs.Assoc
import ScreenForge.Proofs.Json.Scalar
import ScreenForge.Proofs.Text.Utf8

namespace ScreenForge
namespace Json

open List
open Text (Symbol)

variable {input rest : List Symbol} {value : Json} {members : List (String × Json)} {c : Char}
  {left : List Symbol}

/-! ### Grammar -/

/-- Behind blanks stands a character. -/
def Opens (input : List Symbol) (c : Char) (rest : List Symbol) : Prop :=
  input.dropWhile isSpace = some c :: rest

/-- What an input begins with, and what is behind it. -/
abbrev Phrase (α : Type) := List Symbol → α → List Symbol → Prop

/-- Entries with commas between them, up to a closing character. -/
inductive Series {α : Type} (Entry : Phrase α) (closing : Char) : Phrase (List α)
  | last {input left rest : List Symbol} {a : α} (entry : Entry input a left)
      (close : Opens left closing rest) : Series Entry closing input [a] rest
  | more {input left next rest : List Symbol} {a : α} {entries : List α}
      (entry : Entry input a left) (comma : Opens left ',' next)
      (others : Series Entry closing next entries rest) :
      Series Entry closing input (a :: entries) rest

/-- The entries behind an opening bracket: none, or a series of them. -/
inductive Entries {α : Type} (Entry : Phrase α) (closing : Char) : Phrase (List α)
  | none {input rest : List Symbol} (close : Opens input closing rest) :
      Entries Entry closing input [] rest
  | series {input rest : List Symbol} {entries : List α}
      (h : Series Entry closing input entries rest) : Entries Entry closing input entries rest

mutual

/-- `Value input v rest`: the input begins with the value `v`, and `rest` stands behind it.  Of
the members of an object with one name the last counts, at the place of the first. -/
inductive Value : Phrase Json
  | scalar {input rest : List Symbol} {v : Json}
      (h : readScalar strict (input.dropWhile isSpace) = .ok (v, rest)) : Value input v rest
  | str {input body rest : List Symbol} {s : String} (quote : Opens input '"' body)
      (text : readString body = .ok (s, rest)) : Value input (.str s) rest
  | items {input body rest : List Symbol} {items : List Json} (opening : Opens input '[' body)
      (entries : Entries Value ']' body items rest) : Value input (.arr items) rest
  | members {input body rest : List Symbol} {pairs : List (String × Json)}
      (opening : Opens input '\x7b' body) (entries : Entries Member '\x7d' body pairs rest) :
      Value input (.obj (Assoc.ofList pairs)) rest

/-- A name, a colon and a value. -/
inductive Member : Phrase (String × Json)
  | mk {input body behind next rest : List Symbol} {name : String} {v : Json}
      (quote : Opens input '"' body) (text : readString body = .ok (name, behind))
      (colon : Opens behind ':' next) (value : Value next v rest) : Member input (name, v) rest

end

theorem Opens.eq (h : Opens input c rest) : input.dropWhile isSpace = some c :: rest := h

/-- No number and no word begins with a bracket or a quote. -/
theorem readScalar_ne_ok (hc : c ∈ ['\x7b', '\x7d', '[', ']', '"']) :
    readScalar strict (some c :: left) ≠ .ok (value, rest) := by
  intro h
  have hall : ['\x7b', '\x7d', '[', ']', '"'].all fun c =>
      c != 'n' && c != 't' && c != 'f' && !isNumberSymbol (some c) := by decide
  have hother := all_eq_true.1 hall c hc
  simp only [Bool.and_eq_true, bne_iff_ne, Bool.not_eq_true'] at hother
  obtain ⟨⟨⟨hn, ht⟩, hf⟩, hnumber⟩ := hother
  rw [readScalar, find?_words_eq_none hn ht hf, takeWhile_cons_of_neg (by simp [hnumber])] at h
  cases h

/-- What a value is, by the character that opens it. -/
def Opened (value : Json) (rest : List Symbol) : List Symbol → Prop
  | some '"' :: body => ∃ s, readString body = .ok (s, rest) ∧ value = .str s
  | some '[' :: body => ∃ items, Entries Value ']' body items rest ∧ value = .arr items
  | some '\x7b' :: body =>
    ∃ pairs, Entries Member '\x7d' body pairs rest ∧ value = .obj (Assoc.ofList pairs)
  | solid => readScalar strict solid = .ok (value, rest)

/-- A value is told by the first symbol behind the blanks. -/
theorem value_iff : Value input value rest ↔ Opened value rest (input.dropWhile isSpace) := by
  constructor
  · intro h
    cases h with
    | scalar h =>
      unfold Opened
      split
      · next hopen => exact (readScalar_ne_ok (by decide) (hopen ▸ h)).elim
      · next hopen => exact (readScalar_ne_ok (by decide) (hopen ▸ h)).elim
      · next hopen => exact (readScalar_ne_ok (by decide) (hopen ▸ h)).elim
      · exact h
    | str quote text => rw [quote.eq]; exact ⟨_, text, rfl⟩
    | items opening entries => rw [opening.eq]; exact ⟨_, entries, rfl⟩
    | members opening entries => rw [opening.eq]; exact ⟨_, entries, rfl⟩
  · intro h
    unfold Opened at h
    split at h
    · next quote =>
      obtain ⟨s, text, rfl⟩ := h
      exact .str quote text
    · next opening =>
      obtain ⟨items, entries, rfl⟩ := h
      exact .items opening entries
    · next opening =>
      obtain ⟨pairs, entries, rfl⟩ := h
      exact .members opening entries
    · exact .scalar h

/-! ### Readers -/

/-- What a reader leaves is a part of its input, and it finds broken text only where there is
some. -/
structure Sound {α : Type} (input : List Symbol) (result : Except ReadError (α × List Symbol)) :
    Prop where
  left : ∀ {a rest}, result = .ok (a, rest) → rest <:+ input
  broken : result = .error .undecodable → none ∈ input

section

variable {α β : Type} {a : α} {result : Except ReadError (α × List Symbol)} {left : List Symbol}

theorem sound_unexpected (n : Nat) :
    Sound input (.error (.unexpected n) : Except ReadError (α × List Symbol)) :=
  ⟨fun h => (by cases h), fun h => by cases h⟩

theorem sound_ok (h : rest <:+ input) : Sound input (.ok (a, rest)) :=
  ⟨fun heq => (by cases heq; exact h), fun heq => by cases heq⟩

theorem Sound.mono (h : Sound left result) (hleft : left <:+ input) : Sound input result :=
  ⟨fun heq => (h.left heq).trans hleft, fun heq => hleft.subset (h.broken heq)⟩

/-- A fault is passed on. -/
theorem Sound.error {e : ReadError} (h : Sound input result) (heq : result = .error e) :
    Sound input (.error e : Except ReadError (β × List Symbol)) :=
  ⟨fun h => (by cases h), fun hbroken => by cases hbroken; exact h.broken heq⟩

theorem Sound.map {f : α × List Symbol → β} (h : Sound input result) :
    Sound input (result.map fun found => (f found, found.2)) := by
  cases hresult : result with
  | error e => exact h.error hresult
  | ok found => exact sound_ok (h.left hresult)

end

theorem Opens.suffix (h : Opens input c rest) : rest <:+ input :=
  (suffix_cons (some c) rest).trans (h ▸ dropWhile_suffix _)

theorem Opens.length_lt (h : Opens input c rest) : rest.length < input.length := by
  have hle := (dropWhile_suffix isSpace (l := input)).length_le
  rw [h.eq, length_cons] at hle
  exact hle

/-- Broken text comes only from broken text. -/
theorem none_of_stringStep {state next : StringState} {c : Symbol} {out : List Symbol}
    (h : stringStep state c = some (next, out)) (hout : none ∈ out) : c = none := by
  unfold stringStep finishUnit at h
  grind

/-- What is left behind a string is the end of the input, and broken text in it was there. -/
theorem stringFrom_left {state : StringState} {acc content : List Symbol}
    (h : stringFrom state input acc = .ok (content, rest)) :
    rest <:+ input ∧ (none ∈ content → none ∈ acc ∨ none ∈ input) := by
  fun_induction stringFrom state input acc with
  | case1 state acc => cases h
  | case2 state acc c left _ =>
    cases h
    exact ⟨suffix_cons .., fun hmem => .inl (mem_reverse.1 hmem)⟩
  | case3 state acc c left _ next out hstep ih =>
    obtain ⟨hsuffix, hnone⟩ := ih h
    refine ⟨hsuffix.trans (suffix_cons ..), fun hmem => ?_⟩
    obtain hacc | hrest := hnone hmem
    · obtain hout | hacc := mem_append.1 hacc
      · rw [none_of_stringStep hstep (mem_reverse.1 hout)]
        exact .inr mem_cons_self
      · exact .inl hacc
    · exact .inr (mem_cons_of_mem _ hrest)
  | case4 => cases h

theorem stringFrom_ne_undecodable (state : StringState) (input acc : List Symbol) :
    stringFrom state input acc ≠ .error .undecodable := by
  fun_induction stringFrom state input acc <;> simp_all

/-- Reading a text leaves the end of its input, and finds broken text only where there is some. -/
theorem sound_readString (input : List Symbol) : Sound input (readString input) := by
  rw [readString]
  split
  · next e he =>
    refine ⟨fun h => (by cases h), fun h => ?_⟩
    cases h
    exact (stringFrom_ne_undecodable _ _ _ he).elim
  next hread =>
  obtain ⟨hleft, hnone⟩ := stringFrom_left hread
  split
  · exact sound_ok hleft
  · next hbroken =>
    obtain ⟨_, hmem, rfl⟩ := mapM_eq_none_iff.1 hbroken
    exact ⟨fun h => (by cases h), fun _ => (hnone hmem).resolve_left not_mem_nil⟩

theorem sound_readScalar (input : List Symbol) : Sound input (readScalar strict input) := by
  rw [readScalar]
  split
  · exact sound_ok (drop_suffix ..)
  · split
    · exact sound_ok (dropWhile_suffix _)
    · exact sound_unexpected _

section

variable {α : Type} {read : List Symbol → Except ReadError (α × List Symbol)}
  (h : ∀ input, Sound input (read input))
include h

theorem sound_readMember (input : List Symbol) : Sound input (readMember read input) := by
  rw [readMember]
  split
  · next body quote =>
    have hstring := (sound_readString body).mono (Opens.suffix quote)
    split
    · next he => exact hstring.error he
    next name behind hname =>
    split
    · next next colon =>
      have hread := (h next).mono ((Opens.suffix colon).trans (hstring.left hname))
      split
      · next he => exact hread.error he
      · next hv => exact sound_ok (hread.left hv)
    · exact sound_unexpected _
  · exact sound_unexpected _

/-- So does reading a series. -/
theorem sound_readSeries (closing : Char) (fuel : Nat) (input : List Symbol) (acc : List α) :
    Sound input (readSeries read closing fuel input acc) := by
  induction fuel generalizing input acc with
  | zero => exact sound_unexpected _
  | succ fuel ih =>
    rw [readSeries]
    split
    · next he => exact (h input).error he
    next a left hread =>
    have hleft := (h input).left hread
    split
    · next c next hopen =>
      have hnext := (Opens.suffix hopen).trans hleft
      split
      · exact (ih next _).mono hnext
      · split
        · exact sound_ok hnext
        · exact sound_unexpected _
    · exact sound_unexpected _

theorem sound_readEntries (closing : Char) (fuel : Nat) (input : List Symbol) :
    Sound input (readEntries read closing fuel input) := by
  have hseries := sound_readSeries h closing fuel input []
  rw [readEntries]
  split
  · next hopen =>
    split
    · exact sound_ok (Opens.suffix hopen)
    · exact hseries
  · exact hseries

end

/-- **Readers are sound**, whatever bounds their steps. -/
theorem sound_readValue (fuel : Nat) (input : List Symbol) :
    Sound input (readValue strict fuel input) := by
  induction fuel generalizing input with
  | zero => exact sound_unexpected _
  | succ fuel ih =>
    rw [readValue]
    split
    · next body opening =>
      exact ((sound_readEntries (sound_readMember ih) _ _ body).mono (Opens.suffix opening)).map
    · next body opening =>
      exact ((sound_readEntries ih _ _ body).mono (Opens.suffix opening)).map
    · next body quote => exact ((sound_readString body).mono (Opens.suffix quote)).map
    · exact (sound_readScalar _).mono (dropWhile_suffix _)

/-! ### What is read -/

/-- A reader gives what the grammar says, of inputs below a length. -/
def Exact {α : Type} (n : Nat) (read : List Symbol → Except ReadError (α × List Symbol))
    (Entry : Phrase α) : Prop :=
  ∀ {input}, input.length < n → ∀ {a rest}, read input = .ok (a, rest) ↔ Entry input a rest

/-- Members are read exactly if values are. -/
theorem exact_readMember {n : Nat} {read : List Symbol → Except ReadError (Json × List Symbol)}
    (h : Exact n read Value) : Exact n (readMember read) Member := by
  intro input hn m rest
  have hlt : ∀ {body name behind next}, Opens input '"' body →
      readString body = .ok (name, behind) → Opens behind ':' next → next.length < n := by
    intro body name behind next quote text colon
    have hle := ((sound_readString body).left text).length_le
    have := quote.length_lt
    have := colon.length_lt
    omega
  constructor
  · intro hok
    rw [readMember] at hok
    split at hok
    · next quote =>
      split at hok
      · cases hok
      next text =>
      split at hok
      · next colon =>
        split at hok
        · cases hok
        · next hv =>
          cases hok
          exact ⟨quote, text, colon, (h (hlt quote text colon)).1 hv⟩
      · cases hok
    · cases hok
  · rintro ⟨quote, text, colon, hv⟩
    rw [readMember, quote.eq]
    simp only [text, colon.eq, (h (hlt quote text colon)).2 hv]

section

variable {α : Type} {n : Nat} {read : List Symbol → Except ReadError (α × List Symbol)}
  {Entry : Phrase α} {closing : Char} (h : Exact n read Entry)
  (hsound : ∀ input, Sound input (read input)) (hclosing : closing ≠ ',')
include h hsound hclosing

/-- A series is read exactly if it is one. -/
theorem readSeries_eq_ok_iff {fuel : Nat} (hfuel : input.length < fuel) (hn : input.length < n)
    {acc found : List α} : readSeries read closing fuel input acc = .ok (found, rest)
      ↔ ∃ entries, Series Entry closing input entries rest ∧ found = acc.reverse ++ entries := by
  induction fuel generalizing input acc with
  | zero => omega
  | succ fuel ih =>
    have hnext : ∀ {a left next c}, read input = .ok (a, left) → Opens left c next →
        next.length < fuel ∧ next.length < n := by
      intro a left next c hread hopen
      have hle := ((hsound input).left hread).length_le
      have := hopen.length_lt
      omega
    rw [readSeries]
    constructor
    · intro hok
      split at hok
      · cases hok
      next a left hread =>
      have entry := (h hn).1 hread
      split at hok
      · next c next hopen =>
        split at hok
        · next hc =>
          subst hc
          obtain ⟨hfuel, hn⟩ := hnext hread hopen
          obtain ⟨others, series, rfl⟩ := (ih hfuel hn).1 hok
          exact ⟨a :: others, .more entry hopen series, by simp⟩
        · split at hok
          · next hc =>
            subst hc
            cases hok
            exact ⟨[a], .last entry hopen, by simp⟩
          · cases hok
      · cases hok
    · rintro ⟨entries, ⟨entry, close⟩ | ⟨entry, comma, others⟩, rfl⟩
      · simp [(h hn).2 entry, close.eq, hclosing]
      · obtain ⟨hfuel, hn'⟩ := hnext ((h hn).2 entry) comma
        simp only [(h hn).2 entry, comma.eq, if_true]
        exact (ih hfuel hn').2 ⟨_, others, by simp⟩

/-- Entries are read exactly, if none begins with the closing sign. -/
theorem exact_readEntries
    (hopen : ∀ {input a rest left}, Entry input a rest → ¬ Opens input closing left) :
    Exact n (readEntries read closing n) (Entries Entry closing) := by
  intro input hn found rest
  have hseries : readSeries read closing n input [] = .ok (found, rest)
      ↔ Series Entry closing input found rest := by
    rw [readSeries_eq_ok_iff h hsound hclosing hn hn]
    simp
  rw [readEntries]
  constructor
  · intro hok
    split at hok
    · next hopens =>
      split at hok
      · next hc =>
        subst hc
        cases hok
        exact .none hopens
      · exact .series (hseries.1 hok)
    · exact .series (hseries.1 hok)
  · rintro (close | series)
    · simp [close.eq]
    · have hok := hseries.2 series
      split
      · next hopens =>
        split
        · next hc =>
          subst hc
          rcases series with ⟨entry, _⟩ | ⟨entry, _, _⟩
          · exact (hopen entry hopens).elim
          · exact (hopen entry hopens).elim
        · exact hok
      · exact hok

end

theorem Value.not_closing (h : Value input value rest) : ¬ Opens input ']' left := by
  intro hclose
  rw [value_iff, hclose.eq] at h
  exact readScalar_ne_ok (by decide) h

theorem Member.not_closing {m : String × Json} (h : Member input m rest) :
    ¬ Opens input '\x7d' left := by
  obtain ⟨quote⟩ := h
  intro hclose
  cases quote.eq.symm.trans hclose

theorem map_eq_ok_iff {α β : Type} {result : Except ReadError (α × List Symbol)} {f : α → β}
    {b : β} : (result.map fun found => (f found.1, found.2)) = .ok (b, rest)
      ↔ ∃ a, result = .ok (a, rest) ∧ b = f a := by
  cases result with
  | error e => simp [Except.map]
  | ok found => simp [Except.map, Prod.ext_iff, eq_comm, and_comm]

/-- **The reader gives exactly what the grammar says**, if its steps are enough for the input. -/
theorem exact_readValue (fuel : Nat) : Exact fuel (readValue strict fuel) Value := by
  induction fuel with
  | zero => exact fun h => absurd h (Nat.not_lt_zero _)
  | succ fuel ih =>
    intro input hfuel v rest
    have hlt : ∀ {c body}, Opens input c body → body.length < fuel :=
      fun hopen => hopen.length_lt.trans_le (Nat.lt_succ_iff.1 hfuel)
    have hsound := sound_readValue fuel
    rw [value_iff, readValue]
    split
    · next body opening =>
      rw [opening, map_eq_ok_iff (f := fun pairs => obj (Assoc.ofList pairs))]
      exact exists_congr fun _ => and_congr_left' (exact_readEntries (exact_readMember ih)
        (sound_readMember hsound) (by decide) Member.not_closing (hlt opening))
    · next body opening =>
      rw [opening, map_eq_ok_iff]
      exact exists_congr fun _ => and_congr_left' (exact_readEntries ih hsound (by decide)
        Value.not_closing (hlt opening))
    · next body quote =>
      rw [quote, map_eq_ok_iff]
      rfl
    · next hbrace hbracket hquote =>
      unfold Opened
      split
      · next h => exact (hquote _ h).elim
      · next h => exact (hbracket _ h).elim
      · next h => exact (hbrace _ h).elim
      · rfl

/-- **A document is read as the value that stands in it**, and any other is refused. -/
theorem readWith_eq_ok_iff : readWith strict input = .ok value
    ↔ ∃ rest, Value input value rest ∧ rest.dropWhile isSpace = [] := by
  simp only [← exact_readValue _ (Nat.lt_succ_self input.length)]
  rw [readWith]
  grind

/-! ### Documents of octets -/

/-- Octets are one object, with these members in the order of writing and with every repetition. -/
def IsObject (octets : List UInt8) (pairs : List (String × Json)) : Prop :=
  ∃ body rest, Opens (Text.symbols octets) '\x7b' body ∧ Entries Member '\x7d' body pairs rest
    ∧ rest.dropWhile isSpace = []

theorem number?_ne_obj {lexeme : List Char} (h : number? strict lexeme = some (.obj members)) :
    False := by
  unfold number? number?.finite at h
  grind

theorem readScalar_ne_obj (h : readScalar strict input = .ok (.obj members, rest)) : False := by
  rw [readScalar] at h
  split at h
  · next hfind =>
    cases h
    have hmem := mem_of_find?_eq_some hfind
    simp [words] at hmem
  · split at h
    · next hnumber =>
      cases h
      exact number?_ne_obj hnumber
    · cases h

/-- An object is the record of the members that are written. -/
theorem ofOctets_obj_iff {octets : List UInt8} : ofOctets octets = .ok (.obj members)
    ↔ ∃ pairs, IsObject octets pairs ∧ members = Assoc.ofList pairs := by
  rw [ofOctets, readWith_eq_ok_iff]
  constructor
  · rintro ⟨rest, hvalue, hend⟩
    cases hvalue with
    | scalar hread => exact (readScalar_ne_obj hread).elim
    | members opening entries => exact ⟨_, ⟨_, rest, opening, entries, hend⟩, rfl⟩
  · rintro ⟨pairs, ⟨body, rest, opening, entries, hend⟩, rfl⟩
    exact ⟨rest, .members opening entries, hend⟩

/-- **A text has no broken text**: octets in which the reader finds some are no UTF-8. -/
theorem ofOctets_toUTF8_ne (s : String) : ofOctets s.toUTF8.toList ≠ .error .undecodable := by
  intro h
  rw [ofOctets, readWith] at h
  have hnone : none ∈ Text.symbols s.toUTF8.toList := by
    split at h
    · next he =>
      cases h
      exact (sound_readValue _ _).broken he
    · split at h <;> cases h
  rw [Text.symbols_toUTF8, Text.symbolsOf, mem_map] at hnone
  obtain ⟨c, -, hc⟩ := hnone
  cases hc

end Json
end ScreenForge
