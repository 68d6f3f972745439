/-
# Resources

An asset becomes a resource: a file of one of two directories, under a name of its own.

| asset | resource name | extension | path below `app/src/main/res/` |
| --- | --- | --- | --- |
| `My Cat.JPG` | `my_cat` | `jpg` | `drawable/my_cat.jpg` |
| `sounds/click.mp3` | `click` | `mp3` | `raw/click.mp3` |
| `README` | `readme` | | `raw/readme` |
| `v1.0/notes` | `notes` | `0/notes` | `raw/notes.0/notes` |

The two cuts agree unless the last point of the name stands in a directory, as in the last row.
-/
import ScreenForge.Proofs.Project.Path

namespace ScreenForge
namespace Project

open List
open Component (fileStem isResourceChar resourceName resourceShape toList_resourceName)
open Text (afterLast beforeLast)

variable {name : String} {extension : String}

/-! ### The last part of a name -/

/-- What stands behind the last slash of a name. -/
def lastPart (name : String) : String := String.ofList (afterLast '/' name.toList)

theorem mem_of_mem_lastPart {c : Char} (h : c ∈ (lastPart name).toList) : c ∈ name.toList := by
  rw [lastPart, String.toList_ofList] at h
  exact (Text.afterLast_suffix _ _).subset h

/-! ### Extensions -/

theorem extensionOf_of_mem (h : '.' ∈ name.toList) :
    extensionOf name = Text.lower (String.ofList (afterLast '.' name.toList)) := by
  rw [extensionOf, if_pos (contains_iff_mem.2 h)]

theorem extensionOf_of_not_mem (h : '.' ∉ name.toList) : extensionOf name = "" := by
  rw [extensionOf, if_neg fun hmem => h (contains_iff_mem.1 hmem)]

/-- An extension holds a slash exactly if one stands behind the last point. -/
theorem slash_mem_extensionOf_iff (h : '.' ∈ name.toList) :
    '/' ∈ (extensionOf name).toList ↔ '/' ∈ afterLast '.' name.toList := by
  rw [extensionOf_of_mem h, Text.mem_lower_iff (by decide), String.toList_ofList]

/-- **A point in the last part of a name is where the extension begins.** -/
theorem extensionOf_lastPart (h : '.' ∈ name.toList → '.' ∈ (lastPart name).toList) :
    extensionOf (lastPart name) = extensionOf name := by
  by_cases hlast : '.' ∈ (lastPart name).toList
  · rw [extensionOf_of_mem hlast, extensionOf_of_mem (mem_of_mem_lastPart hlast)]
    rw [lastPart, String.toList_ofList] at hlast ⊢
    obtain ⟨front, hname⟩ := Text.afterLast_suffix '/' name.toList
    -- the last point of the last part is the last point of the name
    have hcut : afterLast '.' name.toList = afterLast '.' (afterLast '/' name.toList) := by
      calc afterLast '.' name.toList
          = afterLast '.' (front ++ afterLast '/' name.toList) := by rw [hname]
        _ = afterLast '.' ((front ++ beforeLast '.' (afterLast '/' name.toList))
              ++ '.' :: afterLast '.' (afterLast '/' name.toList)) := by
            rw [append_assoc, Text.beforeLast_append_afterLast hlast]
        _ = afterLast '.' (afterLast '/' name.toList) :=
            Text.afterLast_append (Text.not_mem_afterLast '.' _) _
    rw [hcut]
  · rw [extensionOf_of_not_mem hlast, extensionOf_of_not_mem fun hmem => hlast (h hmem)]

/-- **If the last point stands in a directory, the extension holds a slash.** -/
theorem slash_mem_extensionOf (hpoint : '.' ∈ name.toList) (hlast : '.' ∉ (lastPart name).toList) :
    '/' ∈ (extensionOf name).toList := by
  rw [slash_mem_extensionOf_iff hpoint]
  refine Decidable.byContradiction fun hslash => hlast ?_
  have hback : '/' ∉ '.' :: afterLast '.' name.toList := by
    rw [mem_cons, not_or]
    exact ⟨by decide, hslash⟩
  rw [lastPart, String.toList_ofList, ← Text.beforeLast_append_afterLast hpoint,
    Text.afterLast_append_of_not_mem hback]
  exact mem_append_right _ mem_cons_self

/-- The extension of a last part holds no slash. -/
theorem slash_not_mem_extensionOf_lastPart (name : String) :
    '/' ∉ (extensionOf (lastPart name)).toList := by
  by_cases h : '.' ∈ (lastPart name).toList
  · rw [slash_mem_extensionOf_iff h, lastPart, String.toList_ofList]
    exact fun hmem => Text.not_mem_afterLast '/' name.toList ((Text.afterLast_suffix _ _).subset hmem)
  · rw [extensionOf_of_not_mem h]
    exact not_mem_nil

/-! ### Paths of resources -/

/-- The directories of assets. -/
def mediaDirectories : List String := ["drawable", "raw"]

/-- An extension with its point, if there is one. -/
def suffixOf (extension : String) : String := if extension = "" then "" else "." ++ extension

/-- The path of a resource. -/
def resourcePath (directory resource extension : String) : String :=
  "app/src/main/res/" ++ directory ++ "/" ++ resource ++ suffixOf extension

theorem assetPath_eq (name : String) :
    assetPath name = resourcePath (resourceDirectory (extensionOf name)) (resourceName name)
      (extensionOf name) :=
  rfl

/-- A resource is a picture or raw. -/
theorem resourceDirectory_mem (extension : String) :
    resourceDirectory extension ∈ mediaDirectories := by
  rw [resourceDirectory]
  split
  · exact mem_cons_self
  · exact mem_cons_of_mem _ mem_cons_self

theorem suffixOf_inj {other : String} (h : suffixOf extension = suffixOf other) :
    extension = other := by
  have hpoint : ∀ s : String, "." ++ s ≠ "" := fun s heq => by
    have := congrArg String.toList heq
    rw [String.toList_append] at this
    exact cons_ne_nil '.' s.toList this
  unfold suffixOf at h
  split at h
  · next hnone =>
    split at h
    · next hnone' => rw [hnone, hnone']
    · exact absurd h.symm (hpoint other)
  · split at h
    · exact absurd h (hpoint extension)
    · exact String.append_right_inj "." |>.1 h

/-- An extension is nothing or begins with a point. -/
theorem head?_suffixOf (extension : String) :
    ∀ c ∈ (suffixOf extension).toList.head?, (c != '.') = false := by
  rw [suffixOf]
  split
  · exact fun c hc => absurd hc (Option.not_mem_none c)
  · intro c hc
    rw [String.toList_append] at hc
    rw [← Option.some.inj hc]
    decide

/-- A resource name and an extension can be read off the name of a file. -/
theorem append_suffixOf_inj {resource other : List Char} {extension' : String}
    (hresource : '.' ∉ resource) (hother : '.' ∉ other)
    (h : resource ++ (suffixOf extension).toList = other ++ (suffixOf extension').toList) :
    resource = other ∧ extension = extension' := by
  have hread : ∀ s : List Char, '.' ∉ s → ∀ e : String,
      (s ++ (suffixOf e).toList).takeWhile (· != '.') = s := by
    intro s hs e
    rw [takeWhile_append_of_pos (Text.bne_of_not_mem hs),
      (Text.takeWhile_of_head (head?_suffixOf e)).1, append_nil]
  have hsame : resource = other := by
    rw [← hread resource hresource extension, h, hread other hother extension']
  refine ⟨hsame, suffixOf_inj (String.toList_inj.1 ?_)⟩
  rw [hsame] at h
  exact append_cancel_left h

theorem toList_resourcePath (directory resource extension : String) :
    (resourcePath directory resource extension).toList = "app/src/main/res/".toList
      ++ (directory.toList ++ '/' :: (resource.toList ++ (suffixOf extension).toList)) := by
  have hslash : "/".toList = ['/'] := by decide
  have hpath := toList_path "app/src/main/res/" directory "/" resource (suffixOf extension)
  rw [hslash, singleton_append] at hpath
  exact hpath

/-- **A path says which resource it belongs to.** -/
theorem resourcePath_inj {directory directory' resource resource' extension' : String}
    (hdirectory : directory ∈ mediaDirectories) (hdirectory' : directory' ∈ mediaDirectories)
    (hresource : '.' ∉ resource.toList) (hresource' : '.' ∉ resource'.toList)
    (h : resourcePath directory resource extension = resourcePath directory' resource' extension') :
    directory = directory' ∧ resource = resource' ∧ extension = extension' := by
  have hlist := congrArg String.toList h
  rw [toList_resourcePath, toList_resourcePath] at hlist
  replace hlist := append_cancel_left hlist
  -- the directories differ in their first letters
  have hsame : directory = directory' := by
    have hheads : ∀ d ∈ mediaDirectories, ∀ e ∈ mediaDirectories,
        d.toList.head? = e.toList.head? → d = e := by decide
    have hfirst : ∀ d ∈ mediaDirectories, ∀ s, (d.toList ++ s).head? = d.toList.head? := by
      simp [mediaDirectories]
    exact hheads _ hdirectory _ hdirectory' ((hfirst _ hdirectory _).symm.trans
      ((congrArg List.head? hlist).trans (hfirst _ hdirectory' _)))
  rw [hsame] at hlist
  have hfile := (List.cons.inj (append_cancel_left hlist)).2
  obtain ⟨hname, hextension⟩ := append_suffixOf_inj hresource hresource' hfile
  exact ⟨hsame, String.toList_inj.1 hname, hextension⟩

/-! ### Resource names -/

/-- Whether a text is a small letter and then small letters, digits and underscores. -/
def isResourceName (s : String) : Bool :=
  s.toList.head?.any Char.isLower && s.toList.all Kotlin.isSmallChar

theorem not_mem_resourceName {c : Char} (h : isResourceChar c = false) (file : String) :
    c ∉ (resourceName file).toList := by
  obtain ⟨first, rest, hname, -, hchars⟩ := toList_resourceName file
  rw [hname]
  intro hmem
  rw [hchars c hmem] at h
  cases h

/-- Every asset has a resource name. -/
theorem isResourceName_resourceName (file : String) : isResourceName (resourceName file) := by
  obtain ⟨c, rest, hname, hletter, hchars⟩ := toList_resourceName file
  rw [isResourceName, hname, Bool.and_eq_true_iff, all_eq_true]
  exact ⟨hletter, hchars⟩

/-- The characters of resource names are in ASCII, and no capitals. -/
theorem toLower_of_isResourceChar {c : Char} (h : isResourceChar c) :
    c.toNat < 128 ∧ c.toLower = c := by
  have hname := Kotlin.isNameChar_of_small h
  have hsmall : isResourceChar c → c.toLower = c :=
    Kotlin.forall_isNameChar (P := fun c => isResourceChar c = true → c.toLower = c) (by decide)
      hname
  exact ⟨Kotlin.ascii_of_isNameChar hname, hsmall h⟩

/-- Resource names are in lower case. -/
theorem lowerChars_of_isResourceChar {s : List Char} (h : ∀ c ∈ s, isResourceChar c) :
    Text.lowerChars s = s := by
  have hlower := Text.lower_of_ascii fun c hc => (toLower_of_isResourceChar (h c hc)).1
  rw [Text.lower, String.toList_ofList, String.ofList_inj] at hlower
  rw [hlower, map_congr_left fun c hc => (toLower_of_isResourceChar (h c hc)).2, map_id']

/-- **A text of the form of a resource name is its own resource name.** -/
theorem resourceName_of_isResourceName {s : String} (h : isResourceName s) :
    resourceName s = s := by
  obtain ⟨hfirst, hsmall⟩ := Bool.and_eq_true_iff.1 h
  have hchars : ∀ c ∈ s.toList, isResourceChar c := all_eq_true.1 hsmall
  have hslash : '/' ∉ s.toList := fun hmem => absurd (hchars _ hmem) (by decide)
  have hpoint : '.' ∉ s.toList := fun hmem => absurd (hchars _ hmem) (by decide)
  have hstem : fileStem s.toList = s.toList := by
    rw [fileStem, Text.afterLast_eq_self hslash, Text.beforeLast_eq_self hpoint]
  have hkept : (s.toList.map fun c => if isResourceChar c then c else '_') = s.toList := by
    rw [map_congr_left fun c hc => if_pos (hchars c hc), map_id']
  rw [resourceName, hstem, lowerChars_of_isResourceChar hchars, hkept, ← String.toList_inj,
    String.toList_ofList]
  -- a letter in front is left as it is
  cases hs : s.toList with
  | nil => rw [hs] at hfirst; cases hfirst
  | cons c rest =>
    rw [hs] at hfirst
    exact if_pos hfirst

/-! ### Where an asset lands -/

/-- An asset lands directly in one of the directories: its path ends in one part that consists of
its resource name and the extension of the last part of its name. -/
structure LandsDirectly (name : String) : Prop where
  path : ∃ directory ∈ mediaDirectories,
    assetPath name = resourcePath directory (resourceName name) (extensionOf (lastPart name))
  resource : '/' ∉ (resourceName name).toList
  extension : '/' ∉ (extensionOf (lastPart name)).toList

/-- A path with a slash in its extension is one of the directory `raw`. -/
theorem resourceDirectory_of_slash (h : '/' ∈ extension.toList) :
    resourceDirectory extension = "raw" := by
  have hall : imageExtensions.all fun image => !image.toList.contains '/' := by decide
  refine if_neg fun himage => ?_
  have := all_eq_true.1 hall extension (contains_iff_mem.1 himage)
  rw [contains_iff_mem.2 h] at this
  cases this

/-- **An asset lands directly in a resource directory unless the last point of its name stands in a
directory.**  If a name has a point and its last part has none, what follows the point becomes the
extension, slashes included, and the asset lands in a directory of its own below `raw`. -/
theorem asset_lands_directly_iff (name : String) :
    (LandsDirectly name ↔ ('.' ∈ name.toList → '.' ∈ (lastPart name).toList))
      ∧ ('.' ∈ name.toList → '.' ∉ (lastPart name).toList →
        assetPath name = resourcePath "raw" (resourceName name) (extensionOf name)
          ∧ '/' ∈ (extensionOf name).toList) := by
  have hresource : ∀ c, isResourceChar c = false → c ∉ (resourceName name).toList :=
    fun c hc => not_mem_resourceName hc name
  refine ⟨⟨fun h hpoint => ?_, fun h => ⟨⟨_, resourceDirectory_mem (extensionOf name), ?_⟩,
    hresource '/' (by decide), slash_not_mem_extensionOf_lastPart name⟩⟩, fun hpoint hlast => ?_⟩
  · obtain ⟨directory, hdirectory, hpath⟩ := h.path
    rw [assetPath_eq] at hpath
    obtain ⟨-, -, hextension⟩ := resourcePath_inj (resourceDirectory_mem _) hdirectory
      (hresource '.' (by decide)) (hresource '.' (by decide)) hpath
    refine Decidable.byContradiction fun hlast => h.extension ?_
    rw [← hextension]
    exact slash_mem_extensionOf hpoint hlast
  · rw [extensionOf_lastPart h, ← assetPath_eq]
  · have hslash := slash_mem_extensionOf hpoint hlast
    rw [assetPath_eq, resourceDirectory_of_slash hslash]
    exact ⟨rfl, hslash⟩

/-- An asset in a directory with a point does not land directly in `raw`. -/
theorem beep_lands_below_raw :
    assetPath "sounds.d/beep" = "app/src/main/res/raw/beep.d/beep"
      ∧ ¬ LandsDirectly "sounds.d/beep" := by
  have hpath : assetPath "sounds.d/beep" = "app/src/main/res/raw/beep.d/beep" := by decide
  refine ⟨hpath, fun h => ?_⟩
  obtain ⟨directory, hdirectory, hlands⟩ := h.path
  have hall : mediaDirectories.all fun directory => resourcePath directory
      (resourceName "sounds.d/beep") (extensionOf (lastPart "sounds.d/beep"))
        != "app/src/main/res/raw/beep.d/beep" := by decide
  exact bne_iff_ne.1 (all_eq_true.1 hall directory hdirectory) (hlands.symm.trans hpath)

end Project
end ScreenForge
