/-
# Texts of the app are read back

| character | in a text of the app | escape |
| --- | --- | --- |
| `&`, `<`, `>` | `&amp;`, `&lt;`, `&gt;` | of the markup |
| backslash, apostrophe, quote | itself behind a backslash | of the resource |
| `@` or `?` in front | itself behind a backslash | of the resource |
| any other | itself | none |

Two readers undo the two levels: the markup's expands the references (`expand`), and what it finds
has one level of backslashes left, which the resource's removes (`unslash`).
-/
import ScreenForge.Project.Template
import ScreenForge.Proofs.Text.Escape

namespace ScreenForge
namespace Project

open List

/-- The three references of the markup, expanded. -/
def expand : List Char → List Char
  | '&' :: 'a' :: 'm' :: 'p' :: ';' :: rest => '&' :: expand rest
  | '&' :: 'l' :: 't' :: ';' :: rest => '<' :: expand rest
  | '&' :: 'g' :: 't' :: ';' :: rest => '>' :: expand rest
  | c :: rest => c :: expand rest
  | [] => []

/-- A text without one level of backslashes. -/
def unslash : List Char → List Char
  | '\\' :: c :: rest => c :: unslash rest
  | c :: rest => c :: unslash rest
  | [] => []

/-- The references of the markup, behind the sign that opens them, and what they stand for. -/
def references : List (String × Char) := [("amp;", '&'), ("lt;", '<'), ("gt;", '>')]

/-- Whether a character needs no backslash. -/
def isUnslashed (c : Char) : Bool := !(['\\', '\'', '"'].contains c)

/-- Whether a character has no meaning in markup. -/
def isUnmarked (c : Char) : Bool := !(['&', '<', '>'].contains c)

/-! ### Spelling -/

/-- `Spells text s`: a text says `s`, character by character. -/
inductive Spells : List Char → List Char → Prop
  | nil : Spells [] []
  | plain {c text s} (hslash : isUnslashed c = true) (hmark : isUnmarked c = true)
      (h : Spells text s) : Spells (c :: text) (c :: s)
  | slash {c text s} (hmark : isUnmarked c = true) (h : Spells text s) :
      Spells ('\\' :: c :: text) (c :: s)
  | reference {r text s} (hr : r ∈ references) (h : Spells text s) :
      Spells ('&' :: (r.1.toList ++ text)) (r.2 :: s)

variable {text s front rest after : List Char} {c : Char} {r : String × Char}

theorem plain_of_mem_reference (hr : r ∈ references) (hc : c ∈ r.1.toList) :
    isUnslashed c ∧ isUnmarked c := by
  have hall : references.all fun r => r.1.toList.all fun c => isUnslashed c && isUnmarked c := by
    decide
  exact Bool.and_eq_true_iff.1 (all_eq_true.1 (all_eq_true.1 hall r hr) c hc)

theorem ne_of_isUnmarked {d : Char} (hc : isUnmarked c) (hd : isUnmarked d = false) : d ≠ c := by
  rintro rfl
  exact absurd (hc.symm.trans hd) (by decide)

theorem suffix_of_suffix_append (front : List Char) (hc : c ∉ front)
    (h : c :: after <:+ front ++ rest) : c :: after <:+ rest := by
  induction front with
  | nil => exact h
  | cons d front ih =>
    obtain ⟨hd, hfront⟩ := not_or.1 fun hmem => hc (mem_cons.2 hmem)
    obtain h | h := suffix_cons_iff.1 h
    · exact absurd (List.cons.inj h).1 hd
    · exact ih hfront h

/-- A spelled text has only plain characters and pairs. -/
theorem Spells.paired (h : Spells text s) : Text.Paired isUnslashed text := by
  induction h with
  | nil => exact .nil
  | plain hslash _ _ ih => exact .char hslash ih
  | slash _ _ ih => exact .pair _ ih
  | reference hr _ ih =>
    have hname := Text.paired_of_all fun c hc => (plain_of_mem_reference hr hc).1
    exact .char (by decide) (hname.append ih)

/-- **What has a meaning in markup opens a reference.** -/
theorem Spells.opens (h : Spells text s) (hc : isUnmarked c = false) (hafter : c :: after <:+ text) :
    c = '&' ∧ ∃ r ∈ references, r.1.toList <+: after := by
  induction h with
  | nil => cases suffix_nil.1 hafter
  | @plain d _ _ _ hmark _ ih =>
    refine ih (suffix_of_suffix_append [d] ?_ hafter)
    simpa using ne_of_isUnmarked hmark hc
  | @slash d _ _ hmark _ ih =>
    have hslash : c ≠ '\\' := ne_of_isUnmarked (by decide) hc
    refine ih (suffix_of_suffix_append ['\\', d] ?_ hafter)
    simpa using ⟨hslash, ne_of_isUnmarked hmark hc⟩
  | @reference r _ _ hr _ ih =>
    obtain h | h := suffix_cons_iff.1 hafter
    · obtain ⟨rfl, rfl⟩ := List.cons.inj h
      exact ⟨rfl, r, hr, prefix_append ..⟩
    · exact ih (suffix_of_suffix_append _
        (fun hmem => ne_of_isUnmarked (plain_of_mem_reference hr hmem).2 hc rfl) h)

theorem Spells.not_mem (h : Spells text s) (hc : isUnmarked c = false) (hne : c ≠ '&') :
    c ∉ text := by
  intro hmem
  obtain ⟨before, after, rfl⟩ := append_of_mem hmem
  exact hne (h.opens hc (suffix_append ..)).1

theorem expand_cons (hmark : isUnmarked c) (rest : List Char) :
    expand (c :: rest) = c :: expand rest := by
  rw [expand]
  all_goals
    rintro tail rfl
    exact absurd hmark (by decide)

theorem unslash_cons (hslash : isUnslashed c) (rest : List Char) :
    unslash (c :: rest) = c :: unslash rest := by
  rw [unslash]
  rintro d tail rfl
  exact absurd hslash (by decide)

theorem expand_reference (hr : r ∈ references) (rest : List Char) :
    expand ('&' :: (r.1.toList ++ rest)) = r.2 :: expand rest ∧ isUnslashed r.2 := by
  simp only [references, mem_cons, not_mem_nil, or_false] at hr
  obtain rfl | rfl | rfl := hr <;> exact ⟨rfl, by decide⟩

/-- **The two readers find what a text says.** -/
theorem Spells.read (h : Spells text s) : unslash (expand text) = s := by
  induction h with
  | nil => rfl
  | plain hslash hmark _ ih => rw [expand_cons hmark, unslash_cons hslash, ih]
  | slash hmark _ ih => rw [expand_cons (by decide), expand_cons hmark, unslash, ih]
  | reference hr _ ih =>
    obtain ⟨hexpand, hslash⟩ := expand_reference hr _
    rw [hexpand, unslash_cons hslash, ih]

/-! ### Texts of the app -/

/-- The replacements that escape a text, in turn. -/
def resourceSteps : List (Char × List Char) :=
  [('&', "&amp;".toList), ('<', "&lt;".toList), ('>', "&gt;".toList), ('\\', ['\\', '\\']),
    ('\'', ['\\', '\'']), ('"', ['\\', '"'])]

theorem resourceChar_eq (c : Char) : resourceChar c = (resourceSteps.lookup c).getD [c] := by
  simp only [resourceSteps, lookup_cons, lookup_nil, resourceChar]
  grind

/-- **The body of a text is what the replacements in turn give.** -/
theorem body_eq_replaceAll (s : List Char) :
    s.flatMap resourceChar = Text.replaceAll resourceSteps s := by
  rw [Text.replaceAll_eq_flatMap (by decide)]
  exact flatMap_congr fun c _ => resourceChar_eq c

theorem spells_resourceChar (c : Char) (h : Spells text s) :
    Spells (resourceChar c ++ text) (c :: s) := by
  unfold resourceChar
  split
  · next hc => exact hc ▸ .reference (r := ("amp;", '&')) (by decide) h
  split
  · next hc => exact hc ▸ .reference (r := ("lt;", '<')) (by decide) h
  split
  · next hc => exact hc ▸ .reference (r := ("gt;", '>')) (by decide) h
  split
  · next hc => subst hc; exact .slash (by decide) h
  split
  · next hc => subst hc; exact .slash (by decide) h
  split
  · next hc => subst hc; exact .slash (by decide) h
  · refine .plain ?_ ?_ h <;> simp_all [isUnslashed, isUnmarked]

/-- Every text is spelled by its escaped characters. -/
theorem spells_body (s : List Char) : Spells (s.flatMap resourceChar) s := by
  induction s with
  | nil => exact .nil
  | cons c s ih => exact spells_resourceChar c ih

/-- A backslash in front of a marker does not change what is said. -/
theorem Spells.lead (h : Spells (c :: text) s) (hc : c = '@' ∨ c = '?') :
    Spells ('\\' :: c :: text) s := by
  cases h with
  | plain _ hmark h => exact .slash hmark h
  | slash | reference => exact absurd hc (by decide)

/-- **A text of the app is spelled out**: its body, behind a backslash if a marker is in front. -/
theorem spells_resourceText (s : String) :
    Spells (resourceText s).toList s.toList
      ∧ ((resourceText s).toList = s.toList.flatMap resourceChar
        ∨ (resourceText s).toList = '\\' :: s.toList.flatMap resourceChar)
      ∧ (resourceText s).toList.head? ≠ some '@' ∧ (resourceText s).toList.head? ≠ some '?' := by
  have hbody := spells_body s.toList
  simp only [resourceText, String.toList_ofList]
  cases hfirst : s.toList.flatMap resourceChar with
  | nil =>
    rw [hfirst] at hbody
    rw [if_neg (by simp)]
    exact ⟨hbody, .inl rfl, by simp, by simp⟩
  | cons c text =>
    rw [hfirst] at hbody
    by_cases hc : c = '@' ∨ c = '?'
    · rw [if_pos (by simpa using hc)]
      exact ⟨hbody.lead hc, .inr rfl, by simp, by simp⟩
    · rw [if_neg (by simpa using hc)]
      exact ⟨hbody, .inl rfl, by simpa using (not_or.1 hc).1, by simpa using (not_or.1 hc).2⟩

/-- **Texts of the app are read back.**  A text is what the replacements in turn give, with at most
a backslash in front.  It has neither `<` nor `>`, each `&` in it opens one of the three references,
each quote and apostrophe in it is escaped, and no marker is in front.  The markup's reader and then
the resource's give the text back. -/
theorem resource_text_reads_back (s : String) :
    ((resourceText s).toList = Text.replaceAll resourceSteps s.toList
        ∨ (resourceText s).toList = '\\' :: Text.replaceAll resourceSteps s.toList)
      ∧ '<' ∉ (resourceText s).toList ∧ '>' ∉ (resourceText s).toList
      ∧ (∀ after, '&' :: after <:+ (resourceText s).toList →
        ∃ r ∈ references, r.1.toList <+: after)
      ∧ Text.Escaped '"' (resourceText s).toList ∧ Text.Escaped '\'' (resourceText s).toList
      ∧ (resourceText s).toList.head? ≠ some '@' ∧ (resourceText s).toList.head? ≠ some '?'
      ∧ unslash (expand (resourceText s).toList) = s.toList := by
  obtain ⟨hspells, hbody, hat, hmark⟩ := spells_resourceText s
  rw [body_eq_replaceAll] at hbody
  exact ⟨hbody, hspells.not_mem (by decide) (by decide), hspells.not_mem (by decide) (by decide),
    fun after h => (hspells.opens (by decide) h).2,
    hspells.paired.escaped (by decide) (by decide) (by decide),
    hspells.paired.escaped (by decide) (by decide) (by decide), hat, hmark, hspells.read⟩

end Project
end ScreenForge
