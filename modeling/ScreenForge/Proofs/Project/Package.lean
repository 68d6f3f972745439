/-
# Packages

The last part of a package comes from the name of the project.  Two things are done to it.

| step | `MyApp` | `for` | `For` | `FOR` |
| --- | --- | --- | --- | --- |
| identifier: small first letter, underscore behind a keyword | `myApp` | `for_` | `for_` | `fOR` |
| lower case | `myapp` | `for_` | `for_` | `for` |

In the last column the keyword appears only after the look-out for keywords (`isShouted`).
-/
import ScreenForge.Conversion.Project
import ScreenForge.Proofs.Kotlin.Name
import ScreenForge.Proofs.Request
import ScreenForge.Proofs.Text.Lower

namespace ScreenForge

open List

namespace Kotlin

/-! ### Small letters -/

/-- A small letter, a digit or the underscore. -/
def isSmallChar (c : Char) : Bool := c.isLower || c.isDigit || c == '_'

/-- Whether a text is a word of small letters, digits and underscores without a digit in front. -/
def isSmallWord (s : String) : Bool :=
  s.toList.head?.any (fun c => c.isLower || c == '_') && s.toList.all isSmallChar

theorem ascii_of_isNameChar {c : Char} (h : isNameChar c) : c.toNat < 128 :=
  forall_isNameChar (P := fun c => c.toNat < 128) (by decide) h

/-- Keywords are in small letters. -/
theorem isUpper_of_mem_keywords {s : List Char} (h : String.ofList s ∈ keywords) :
    ∀ c ∈ s, c.isUpper = false := by
  have hall : keywords.all fun k => k.toList.all fun c => !c.isUpper := by decide
  have hs := all_eq_true.1 hall _ h
  rw [String.toList_ofList] at hs
  exact fun c hc => by simpa using all_eq_true.1 hs c hc

/-! ### Parts of a package -/

/-- The parts of a package between points. -/
def packageParts (package : String) : List String :=
  (package.toList.splitOn '.').map String.ofList

/-- Whether a package can be declared: each of its parts is a name. -/
def isPackage (package : String) : Bool := (packageParts package).all isName

theorem packageParts_of_not_mem {s : String} (h : '.' ∉ s.toList) : packageParts s = [s] := by
  rw [packageParts, splitOn_eq_singleton h, map_singleton, String.ofList_toList]

/-- The parts of a package are cut at its points. -/
theorem packageParts_append (front s : String) :
    packageParts (front ++ "." ++ s) = packageParts front ++ packageParts s := by
  have hpoint : ".".toList = ['.'] := by decide
  rw [packageParts, String.toList_append, String.toList_append, hpoint, append_assoc,
    singleton_append, splitOn_append_cons_self, map_append]
  rfl

end Kotlin

namespace Conversion

open Kotlin (avoidKeyword identifier isName isNameChar isPackage isSmallWord keywords packageParts)

/-- The part of a package that comes from the name of the project. -/
def segmentOf (name : String) : String := Text.lower (identifier name)

/-- Whether a name is a keyword with capitals behind its first letter. -/
def isShouted (name : String) : Bool :=
  keywords.contains (String.ofList (name.toList.map Char.toLower))
    && name.toList.tail.any Char.isUpper

/-- The characters of a project name. -/
theorem exists_of_isProjectName {name : List Char} (h : Request.isProjectName name) :
    ∃ c cs, name = c :: cs ∧ c.isDigit = false ∧ ∀ d ∈ c :: cs, isNameChar d := by
  unfold Request.isProjectName at h
  split at h
  · cases h
  · next c cs =>
    obtain ⟨hc, hcs⟩ := Bool.and_eq_true_iff.1 h
    have hname : isNameChar c := by simp [isNameChar, Char.isAlphanum, hc]
    have hdigit : c.isAlpha → c.isDigit = false :=
      Kotlin.forall_isNameChar (P := fun c => c.isAlpha = true → c.isDigit = false) (by decide)
        hname
    exact ⟨c, cs, rfl, hdigit hc, forall_mem_cons.2 ⟨hname, all_eq_true.1 hcs⟩⟩

/-- **The part of a package, character by character.** -/
theorem segmentOf_eq {name : String} {c : Char} {cs : List Char} (hname : name.toList = c :: cs)
    (hdigit : c.isDigit = false) (hword : ∀ d ∈ c :: cs, isNameChar d) :
    segmentOf name = String.ofList (name.toList.map Char.toLower
      ++ if String.ofList (c.toLower :: cs) ∈ keywords then ['_'] else []) := by
  have hc : isNameChar c := hword c mem_cons_self
  have hlowered : ∀ d ∈ c.toLower :: cs, isNameChar d :=
    forall_mem_cons.2 ⟨Kotlin.isNameChar_toLower hc,
      fun d hd => hword d (mem_cons_of_mem c hd)⟩
  have hmap : (c.toLower :: cs).map Char.toLower = name.toList.map Char.toLower := by
    rw [hname, map_cons, map_cons, Kotlin.forall_isNameChar
      (P := fun c => c.toLower.toLower = c.toLower) (by decide) hc]
  -- the identifier of a project name changes the first letter only, if it is no keyword
  have hid : identifier name = avoidKeyword (String.ofList (c.toLower :: cs)) := by
    rw [identifier, hname, Kotlin.map_nameChar_stripChars hword, Kotlin.shape,
      if_neg (by simp [hdigit])]
    rfl
  rw [segmentOf, hid, Kotlin.avoidKeyword_ofList]
  by_cases hk : String.ofList (c.toLower :: cs) ∈ keywords
  · rw [if_pos (contains_iff_mem.2 hk), if_pos hk, Text.lower_of_ascii, map_append, hmap]
    · rfl
    · intro d hd
      rcases mem_append.1 hd with hd | hd
      · exact Kotlin.ascii_of_isNameChar (hlowered d hd)
      · rw [mem_singleton.1 hd]
        decide
  · rw [if_neg fun h => hk (contains_iff_mem.1 h), if_neg hk, append_nil,
      Text.lower_of_ascii fun d hd => Kotlin.ascii_of_isNameChar (hlowered d hd), hmap]

section
variable {name : String} (h : Request.isProjectName name.toList)
include h

/-- **The part of a package is a word of small letters.** -/
theorem isSmallWord_segmentOf : isSmallWord (segmentOf name) := by
  obtain ⟨c, cs, hname, hdigit, hword⟩ := exists_of_isProjectName h
  have hc : isNameChar c := hword c mem_cons_self
  have hfirst : c.isDigit = false → (c.toLower.isLower || c.toLower == '_') :=
    Kotlin.forall_isNameChar
      (P := fun c => c.isDigit = false → (c.toLower.isLower || c.toLower == '_') = true)
      (by decide) hc
  have htail : (if String.ofList (c.toLower :: cs) ∈ keywords then ['_'] else []).all
      Kotlin.isSmallChar := by
    split
    · decide
    · rfl
  rw [segmentOf_eq hname hdigit hword, isSmallWord, String.toList_ofList, all_append, htail,
    Bool.and_true, all_map, Bool.and_eq_true_iff, all_eq_true, hname]
  exact ⟨hfirst hdigit, fun d hd => Kotlin.forall_isNameChar
    (P := fun c => Kotlin.isSmallChar c.toLower = true) (by decide) (hword d hd)⟩

/-- **The part of a package is a keyword exactly if the name shouts one.** -/
theorem mem_keywords_segmentOf_iff : segmentOf name ∈ keywords ↔ isShouted name := by
  obtain ⟨c, cs, hname, hdigit, hword⟩ := exists_of_isProjectName h
  have htail : name.toList.tail = cs := by rw [hname]; rfl
  rw [segmentOf_eq hname hdigit hword, isShouted, htail, Bool.and_eq_true_iff, contains_iff_mem]
  by_cases hk : String.ofList (c.toLower :: cs) ∈ keywords
  · -- found in time: an underscore stands behind it, and there was no capital
    rw [if_pos hk, String.ofList_append]
    refine iff_of_false (Kotlin.append_not_mem_keywords (c := '_') (by simp) (Or.inl rfl)) ?_
    rintro ⟨-, hupper⟩
    obtain ⟨d, hd, hup⟩ := any_eq_true.1 hupper
    have hsmall := Kotlin.isUpper_of_mem_keywords hk d (mem_cons_of_mem _ hd)
    rw [hup] at hsmall
    cases hsmall
  · rw [if_neg hk, append_nil]
    refine ⟨fun hlow => ⟨hlow, ?_⟩, fun hlow => hlow.1⟩
    -- without a capital behind the first letter the keyword would have been found
    refine Decidable.byContradiction fun hnone => hk ?_
    have hsame : cs.map Char.toLower = cs := by
      refine (map_congr_left fun d hd => ?_).trans (map_id _)
      refine (Kotlin.forall_isNameChar (P := fun c => c.toLower = c ↔ c.isUpper = false) (by decide)
        (hword d (mem_cons_of_mem c hd))).2 ?_
      rw [Bool.eq_false_iff]
      exact fun hup => hnone (any_eq_true.2 ⟨d, hd, hup⟩)
    rwa [hname, map_cons, hsame] at hlow

end

theorem isName_of_isSmallWord {s : String} (h : isSmallWord s) : isName s ↔ s ∉ keywords := by
  obtain ⟨hhead, hall⟩ := Bool.and_eq_true_iff.1 h
  rw [Kotlin.isName_iff]
  refine ⟨fun hname => hname.2, fun hk => ⟨?_, hk⟩⟩
  have hword : ∀ d ∈ s.toList, isNameChar d :=
    fun d hd => Kotlin.isNameChar_of_small (all_eq_true.1 hall d hd)
  cases hs : s.toList with
  | nil => simp [hs] at hhead
  | cons c cs =>
    rw [hs] at hhead hword
    have hc := hword c mem_cons_self
    have hdigit : (c.isLower || c == '_') → c.isDigit = false :=
      Kotlin.forall_isNameChar (P := fun c => (c.isLower || c == '_') = true → c.isDigit = false)
        (by decide) hc
    exact ⟨c, cs, rfl, hc, hdigit hhead, fun d hd => hword d (mem_cons_of_mem c hd)⟩

theorem not_mem_of_isSmallWord {s : String} (h : isSmallWord s) : '.' ∉ s.toList :=
  fun hmem => absurd (all_eq_true.1 (Bool.and_eq_true_iff.1 h).2 '.' hmem) (by decide)

/-- The parts of the package of a project: those of the stem, if there is one, and one more. -/
theorem packageParts_packageName {name : String} (h : Request.isProjectName name.toList)
    (stem : String) : packageParts (packageName stem name)
      = (if stem = "" then [] else packageParts stem) ++ [segmentOf name] := by
  have hlast : packageParts (segmentOf name) = [segmentOf name] :=
    Kotlin.packageParts_of_not_mem (not_mem_of_isSmallWord (isSmallWord_segmentOf h))
  have hname : packageName stem name
      = if stem = "" then segmentOf name else stem ++ "." ++ segmentOf name := rfl
  rw [hname]
  by_cases hstem : stem = ""
  · rw [if_pos hstem, if_pos hstem, hlast]
    rfl
  · rw [if_neg hstem, if_neg hstem, Kotlin.packageParts_append, hlast]

/-- **A project has a legal package unless its name shouts a keyword.**  Under every accepted name
and every stem the last part of the package is a word of small letters, digits and underscores
without a digit in front; it is a keyword exactly if the name is one with capitals behind its first
letter; and the package can be declared exactly if the stem can and the name shouts no keyword. -/
theorem package_legal_iff_not_shouted {value : Json} {request : Request}
    (hrequest : Request.ofJson value = .ok request) (stem : String) :
    ∃ segment, (packageParts (packageName stem request.projectName)).getLast? = some segment ∧
      isSmallWord segment = true ∧
      (segment ∈ keywords ↔ isShouted request.projectName = true) ∧
      (isPackage (packageName stem request.projectName) = true ↔
        (stem = "" ∨ isPackage stem = true) ∧ isShouted request.projectName = false) := by
  have hname := Request.isProjectName_of_ofJson hrequest
  have hsmall := isSmallWord_segmentOf hname
  have hkeyword := mem_keywords_segmentOf_iff hname
  have hlegal : isName (segmentOf request.projectName)
      ↔ isShouted request.projectName = false := by
    rw [isName_of_isSmallWord hsmall, hkeyword, Bool.not_eq_true]
  refine ⟨segmentOf request.projectName, ?_, hsmall, hkeyword, ?_⟩
  · rw [packageParts_packageName hname]
    exact List.getLast?_concat
  · rw [isPackage, packageParts_packageName hname, all_append, Bool.and_eq_true_iff,
      all_cons, all_nil, Bool.and_true, hlegal]
    refine and_congr_left' ?_
    by_cases hstem : stem = ""
    · rw [if_pos hstem]
      exact iff_of_true rfl (Or.inl hstem)
    · rw [if_neg hstem]
      exact (or_iff_right hstem).symm

/-- A request for a project of a name. -/
def requestFor (name : String) : Json := .obj [("file", .str "-"), ("projectName", .str name)]

/-- A keyword with a capital in front is found in time. -/
theorem package_for_capital : Request.ofJson (requestFor "For") = .ok ⟨"-", "For"⟩ ∧
    isPackage (packageName "com.example" "For") = true := by
  have hrequest : Request.ofJson (requestFor "For") = .ok ⟨"-", "For"⟩ := by rfl
  obtain ⟨-, -, -, -, hlegal⟩ := package_legal_iff_not_shouted hrequest "com.example"
  exact ⟨hrequest, hlegal.2 ⟨Or.inr (by decide), by decide⟩⟩

/-- A keyword in capitals is not: the package is `com.example.for`. -/
theorem package_for_shouted : Request.ofJson (requestFor "FOR") = .ok ⟨"-", "FOR"⟩ ∧
    packageName "com.example" "FOR" = "com.example.for" ∧
    (packageParts (packageName "com.example" "FOR")).getLast? = some "for" ∧ "for" ∈ keywords ∧
    isPackage (packageName "com.example" "FOR") = false :=
  ⟨by rfl, by decide +kernel, by decide +kernel, by decide, by decide +kernel⟩

end Conversion
end ScreenForge
