/-
# Texts within texts

Texts are put together by writing one behind another and by joining, so a text is within what it was
put into.
-/
import ScreenForge.Text.Split

namespace ScreenForge
namespace Text

open List

/-- The first text stands somewhere in the second. -/
def Within (s u : String) : Prop := ∃ before after, u = before ++ s ++ after

theorem Within.refl (s : String) : Within s s := ⟨"", "", by simp⟩

variable {s u : String} {lines lines' : List String}

theorem Within.inLeft (v : String) (h : Within s u) : Within s (u ++ v) := by
  obtain ⟨before, after, rfl⟩ := h
  exact ⟨before, after ++ v, by simp [String.append_assoc]⟩

theorem Within.inRight {v : String} (u : String) (h : Within s v) : Within s (u ++ v) := by
  obtain ⟨before, after, rfl⟩ := h
  exact ⟨u ++ before, after, by simp [String.append_assoc]⟩

theorem Within.trans {v : String} (h : Within s u) (h' : Within u v) : Within s v := by
  obtain ⟨before, after, rfl⟩ := h'
  exact (h.inRight before).inLeft after

/-- A text is within what it is joined into. -/
theorem within_join {sep : String} {texts : List String} (h : s ∈ texts) :
    Within s (join sep texts) := by
  induction texts with
  | nil => exact absurd h not_mem_nil
  | cons first rest ih =>
    cases rest with
    | nil =>
      rw [mem_singleton.1 h, join]
      exact Within.refl first
    | cons second rest =>
      rw [join]
      · rcases mem_cons.1 h with rfl | h
        · exact ((Within.refl s).inLeft _).inLeft _
        · exact (ih h).inRight _
      · exact cons_ne_nil _ _

/-- A text stands in one of the lines. -/
def Shows (lines : List String) (s : String) : Prop := ∃ line ∈ lines, Within s line

theorem shows_of_mem (h : s ∈ lines) : Shows lines s :=
  ⟨s, h, Within.refl s⟩

theorem Shows.mono (h : Shows lines s) (hsub : lines ⊆ lines') : Shows lines' s := by
  obtain ⟨line, hline, hs⟩ := h
  exact ⟨line, hsub hline, hs⟩

/-- What stands in a line that is shown is shown. -/
theorem Shows.trans (h : Shows lines s) (hall : ∀ line ∈ lines, Shows lines' line) :
    Shows lines' s := by
  obtain ⟨line, hline, hs⟩ := h
  obtain ⟨line', hline', hl⟩ := hall line hline
  exact ⟨line', hline', hs.trans hl⟩

/-! ### Characters -/

/-- Whether a character is a printable one of ASCII. -/
def isPrintable (c : Char) : Bool := 32 ≤ c.toNat && c.toNat < 127

/-- Whether all characters of a text are printable. -/
def isPrintableText (s : String) : Bool := s.toList.all isPrintable

/-- A character stands in a text. -/
def Has (c : Char) (s : String) : Prop := c ∈ s.toList

/-- A character stands in one of the lines. -/
def Spread (c : Char) (lines : List String) : Prop := ∃ line ∈ lines, Has c line

variable {c : Char}

@[simp] theorem has_append : Has c (s ++ u) ↔ Has c s ∨ Has c u := by
  rw [Has, String.toList_append, mem_append]
  rfl

/-- A character that is not printable is in no printable text. -/
theorem has_printable (hc : isPrintable c = false) (h : isPrintableText s) : Has c s ↔ False := by
  refine iff_of_false (fun hs => ?_) not_false
  have hprintable := all_eq_true.1 h c hs
  rw [hc] at hprintable
  cases hprintable

theorem Spread.mono (h : Spread c lines) (hsub : lines ⊆ lines') : Spread c lines' := by
  obtain ⟨line, hline, hhas⟩ := h
  exact ⟨line, hsub hline, hhas⟩

@[simp] theorem spread_nil : Spread c [] ↔ False := by simp [Spread]

@[simp] theorem spread_cons {line : String} :
    Spread c (line :: lines) ↔ Has c line ∨ Spread c lines := by simp [Spread]

theorem spread_singleton : Spread c [s] ↔ Has c s := by simp

@[simp] theorem spread_append {others : List String} :
    Spread c (lines ++ others) ↔ Spread c lines ∨ Spread c others := by
  simp [Spread, or_and_right, exists_or]

@[simp] theorem spread_map {α : Type} {f : α → String} {as : List α} :
    Spread c (as.map f) ↔ ∃ a ∈ as, Has c (f a) := by
  constructor
  · rintro ⟨line, hline, h⟩
    obtain ⟨a, ha, rfl⟩ := mem_map.1 hline
    exact ⟨a, ha, h⟩
  · rintro ⟨a, ha, h⟩
    exact ⟨f a, mem_map_of_mem ha, h⟩

@[simp] theorem spread_flatMap {α : Type} {f : α → List String} {as : List α} :
    Spread c (as.flatMap f) ↔ ∃ a ∈ as, Spread c (f a) := by
  simp only [Spread, mem_flatMap]
  constructor
  · rintro ⟨line, ⟨a, ha, hline⟩, h⟩
    exact ⟨a, ha, line, hline, h⟩
  · rintro ⟨a, ha, line, hline, h⟩
    exact ⟨line, ⟨a, ha, hline⟩, h⟩

/-- A character that the separator lacks comes from the texts. -/
theorem has_join {sep : String} (hsep : ¬ Has c sep) (texts : List String) :
    Has c (join sep texts) ↔ Spread c texts := by
  fun_induction join sep texts with
  | case1 => exact iff_of_false (by simp [Has]) spread_nil.1
  | case2 s => exact spread_singleton.symm
  | case3 s rest hrest ih => simp only [has_append, ih, hsep, or_false, spread_cons]

end Text
end ScreenForge
