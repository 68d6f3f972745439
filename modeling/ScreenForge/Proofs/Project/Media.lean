/-
# Media files of a project

Assets go to `app/src/main/res/drawable/` and `app/src/main/res/raw/`, where nothing else does.  A
reference like `@drawable/cat` goes by less than the path: it does not have the extension, so it
leads to several files if pictures differ in their extensions only (`Clash`).
-/
import Mathlib.Data.List.Nodup
import ScreenForge.Proofs.Project.Resource

namespace ScreenForge

open List

namespace Project

open Assoc (keys)
open Component (resourceName)

/-! ### The directories of assets -/

/-- What the paths in a directory of resources begin with. -/
def resourceFront (directory : String) : List Char :=
  "app/src/main/res/".toList ++ (directory.toList ++ ['/'])

/-- Whether a path lies in a directory of assets. -/
def isMediaPath (path : List Char) : Bool :=
  mediaDirectories.any fun directory => Text.startsWith path (resourceFront directory)

/-- Resources of assets stand in their own directories. -/
theorem isMediaPath_resourcePath {directory : String} (h : directory ∈ mediaDirectories)
    (resource extension : String) :
    isMediaPath (resourcePath directory resource extension).toList := by
  refine any_eq_true.2 ⟨directory, h, List.isPrefixOf_iff_prefix.2 ?_⟩
  have hfront : ∀ front middle back : List Char,
      front ++ (middle ++ ['/']) <+: front ++ (middle ++ '/' :: back) := by
    intro front middle back
    rw [prefix_append_right_inj, prefix_append_right_inj]
    exact prefix_append ['/'] back
  rw [toList_resourcePath]
  exact hfront _ _ _

/-- A path that begins differently lies in no directory of assets. -/
theorem isMediaPath_append {front : List Char} (h : mediaDirectories.all fun directory =>
      !front.isPrefixOf (resourceFront directory) && !(resourceFront directory).isPrefixOf front)
    (rest : List Char) : isMediaPath (front ++ rest) = false := by
  refine any_eq_false.2 fun directory hdirectory hstarts => ?_
  have hboth := all_eq_true.1 h directory hdirectory
  rw [Bool.and_eq_true_iff, Bool.not_eq_true', Bool.not_eq_true'] at hboth
  obtain hfront | hfront := prefix_or_prefix_of_prefix
    (prefix_append front rest) (List.isPrefixOf_iff_prefix.1 hstarts)
  · exact Bool.false_ne_true (hboth.1.symm.trans (List.isPrefixOf_iff_prefix.2 hfront))
  · exact Bool.false_ne_true (hboth.2.symm.trans (List.isPrefixOf_iff_prefix.2 hfront))

/-- The activity does not. -/
theorem isMediaPath_activityPath (package : String) :
    isMediaPath (Conversion.activityPath package).toList = false := by
  have hpath := toList_path "app/src/main/java/" (Conversion.packagePath package) "/"
    Conversion.activityName ".kt"
  exact (congrArg isMediaPath hpath).trans (isMediaPath_append (by decide) _)

/-! ### References to drawables -/

theorem toList_dotted (stem extension : String) :
    (stem ++ "." ++ extension).toList = stem.toList ++ '.' :: extension.toList := by
  rw [String.toList_append, String.toList_append, append_assoc]
  rfl

theorem point_mem_dotted (stem extension : String) : '.' ∈ (stem ++ "." ++ extension).toList := by
  rw [toList_dotted]
  exact mem_append_right _ mem_cons_self

/-- A name that ends in a point and an image extension, in any letter case, has that extension. -/
theorem extensionOf_image {extension image : String} (himage : image ∈ imageExtensions)
    (hextension : extension.toList.map Char.toLower = image.toList) (stem : String) :
    extensionOf (stem ++ "." ++ extension) = image := by
  have hall : imageExtensions.all fun image => image.toList.all
      fun c => decide (c.toNat < 128) && c != '.' := by decide
  have hletters : ∀ c ∈ extension.toList, c.toLower.toNat < 128 ∧ c.toLower ≠ '.' := by
    intro c hc
    have hmem : c.toLower ∈ image.toList := hextension ▸ mem_map_of_mem hc
    have hletter := all_eq_true.1 (all_eq_true.1 hall image himage) _ hmem
    rw [Bool.and_eq_true_iff, decide_eq_true_iff, bne_iff_ne] at hletter
    exact hletter
  have hpoint : '.' ∉ extension.toList := fun hmem => (hletters '.' hmem).2 (by decide)
  have hlower := Text.lower_of_ascii fun c hc => Text.ascii_of_toLower (hletters c hc).1
  rw [extensionOf_of_mem (point_mem_dotted stem extension), toList_dotted,
    Text.afterLast_append hpoint, hlower, hextension, String.ofList_toList]

/-- The path of an image. -/
theorem assetPath_image {extension image : String} (himage : image ∈ imageExtensions)
    (hextension : extension.toList.map Char.toLower = image.toList) (stem : String) :
    assetPath (stem ++ "." ++ extension) = "app/src/main/res/drawable/"
      ++ resourceName (stem ++ "." ++ extension) ++ "." ++ image := by
  have hdirectory : resourceDirectory image = "drawable" :=
    if_pos (contains_iff_mem.2 himage)
  have hsuffix : suffixOf image = "." ++ image := by
    refine if_neg fun hnone => ?_
    rw [hnone] at himage
    exact absurd himage (by decide)
  have hfront : "app/src/main/res/" ++ "drawable" ++ "/" = "app/src/main/res/drawable/" := by decide
  have htext : ∀ front directory slash whole resource suffix point : String,
      front ++ directory ++ slash = whole → suffix = point ++ image →
      front ++ directory ++ slash ++ resource ++ suffix = whole ++ resource ++ point ++ image := by
    rintro front directory slash whole resource suffix point rfl rfl
    exact (String.append_assoc ..).symm
  rw [assetPath_eq, extensionOf_image himage hextension stem, hdirectory]
  exact htext "app/src/main/res/" "drawable" "/" "app/src/main/res/drawable/" _ _ "." hfront hsuffix

/-- **References to drawables resolve.**  A resource name is a small letter and then small letters,
digits and underscores, and is its own resource name.  The reference to an asset that is an image
names a file of the project, also if another asset has taken its path. -/
theorem drawable_references_resolve (name package : String) (parts : Parts) (assets : List Asset) :
    (∀ file, isResourceName (resourceName file) = true
        ∧ resourceName (resourceName file) = resourceName file)
      ∧ ∀ asset ∈ assets, ∀ image ∈ imageExtensions, ∀ stem extension : String,
        asset.name = stem ++ "." ++ extension →
        extension.toList.map Char.toLower = image.toList →
        ∃ resource, Component.Format.drawable.render? (.text asset.name)
            = some ("@drawable/" ++ resource)
          ∧ name ++ "/" ++ ("app/src/main/res/drawable/" ++ resource ++ "." ++ image)
            ∈ keys (assemble name package parts assets) := by
  refine ⟨fun file => ⟨isResourceName_resourceName file,
    resourceName_of_isResourceName (isResourceName_resourceName file)⟩, ?_⟩
  intro asset hasset image himage stem extension hname hextension
  have hne : asset.name ≠ "" := by
    intro hempty
    have hpoint := point_mem_dotted stem extension
    rw [← hname, hempty] at hpoint
    exact not_mem_nil hpoint
  refine ⟨resourceName asset.name, congrArg some (if_neg hne), ?_⟩
  rw [hname, ← assetPath_image himage hextension, ← hname]
  exact mem_keys_assemble_iff.2 (.inr ⟨asset, hasset, rfl⟩)

/-- Two pictures that go to one path. -/
def twoCats : List Asset := [⟨"Cat.PNG", ⟨#[1]⟩⟩, ⟨"pets/cat.png", ⟨#[2]⟩⟩]

/-- The picture that is left out is found under its reference. -/
theorem second_cat_resolves :
    ∃ resource, Component.Format.drawable.render? (.text "pets/cat.png")
        = some ("@drawable/" ++ resource)
      ∧ "App" ++ "/" ++ ("app/src/main/res/drawable/" ++ resource ++ "." ++ "png")
        ∈ keys (assemble "App" "app" ⟨"Screen1", [], none, []⟩ twoCats) :=
  (drawable_references_resolve "App" "app" ⟨"Screen1", [], none, []⟩ twoCats).2
    ⟨"pets/cat.png", ⟨#[2]⟩⟩ (mem_cons_of_mem _ mem_cons_self) "png" (by decide)
    "pets/cat" "png" (by decide) (by decide)

end Project

namespace Conversion

open Assoc (keys)
open Project

variable {table : Component.Table} {settings : Settings} {timer : Timer} {source : ScreenSource}
  {own : String} {screen : Screen}

/-! ### Files of a converted screen -/

/-- **What is generated lies in no directory of assets.** -/
theorem isMediaPath_generatedFiles
    (hscreen : convertScreen table settings timer source own = .ok (.converted screen))
    {name package path : String}
    (h : path ∈ keys (generatedFiles name package (.ofScreen screen))) :
    isMediaPath path.toList = false := by
  have hall : ∀ path ∈ layoutPath :: activityPath own :: framePaths,
      isMediaPath path.toList = false :=
    forall_mem_cons.2 ⟨by decide, forall_mem_cons.2
      ⟨isMediaPath_activityPath own, by decide⟩⟩
  rw [generatedFiles, Assoc.keys_ofList, mem_eraseDups, keys_generated hscreen] at h
  exact hall path h

/-- Nothing that is generated has the path of an asset. -/
theorem assetPath_not_generated
    (hscreen : convertScreen table settings timer source own = .ok (.converted screen))
    (name package asset : String) :
    assetPath asset ∉ keys (generatedFiles name package (.ofScreen screen)) := by
  intro hmem
  have hmedia := isMediaPath_resourcePath (resourceDirectory_mem (extensionOf asset))
    (Component.resourceName asset) (extensionOf asset)
  exact Bool.false_ne_true ((isMediaPath_generatedFiles hscreen hmem).symm.trans hmedia)

/-- **Assets never disturb generated files.**  Whatever the assets are, the files of a project are
those that it has without assets, in their order, and the files of assets behind them.  Nothing
generated has the path of an asset.  Every path is there once, and the path of each asset holds the
first asset that goes there. -/
theorem assets_come_behind_generated_files
    (hscreen : convertScreen table settings timer source own = .ok (.converted screen))
    (name package : String) (assets : List Asset) :
    ∃ media : Files,
      assemble name package (.ofScreen screen) assets
          = assemble name package (.ofScreen screen) [] ++ media
        ∧ (∀ f ∈ assemble name package (.ofScreen screen) [], ∀ asset : String,
          f.1 ≠ name ++ "/" ++ assetPath asset)
        ∧ (∀ f ∈ media, ∃ asset ∈ assets, f.1 = name ++ "/" ++ assetPath asset.name)
        ∧ (keys (assemble name package (.ofScreen screen) assets)).Nodup
        ∧ ∀ asset ∈ assets, ∃ first,
          assets.find? (fun a => assetPath a.name == assetPath asset.name) = some first
            ∧ (name ++ "/" ++ assetPath asset.name, .data first.data) ∈ media := by
  obtain ⟨added, hadded, hmem⟩ :=
    exists_additions (nodup_keys_generatedFiles name package (.ofScreen screen)) assets
  refine ⟨added.map fun f => (name ++ "/" ++ f.1, f.2), ?_, ?_, ?_, nodup_keys_assemble .., ?_⟩
  · rw [assemble, hadded, map_append]
    rfl
  · intro f hf asset heq
    obtain ⟨g, hg, rfl⟩ := mem_map.1 hf
    refine assetPath_not_generated hscreen name package asset ?_
    rw [← below_inj heq]
    exact Assoc.mem_keys hg
  · intro f hf
    obtain ⟨g, hg, rfl⟩ := mem_map.1 hf
    obtain ⟨-, first, hfirst, -⟩ := (hmem g.1 g.2).1 hg
    obtain ⟨hasset, hpath⟩ := of_firstAt? hfirst
    exact ⟨first, hasset, by rw [hpath]⟩
  · intro asset hasset
    obtain ⟨first, hfirst⟩ : ∃ first, firstAt? (assetPath asset.name) assets = some first :=
      Option.isSome_iff_exists.1 (List.find?_isSome.2 ⟨asset, hasset, beq_self_eq_true _⟩)
    refine ⟨first, hfirst, mem_map.2 ⟨(assetPath asset.name, .data first.data), ?_, rfl⟩⟩
    exact (hmem _ _).2 ⟨assetPath_not_generated hscreen name package asset.name, first, hfirst, rfl⟩

/-- A screen without components. -/
def blankScreen : ScreenSource where
  name := "Screen1"
  layout := "\x7b\"Properties\":\x7b\"$Name\":\"Screen1\",\"$Type\":\"Form\"\x7d\x7d"

theorem exists_blankScreen : ∃ screen,
    convertScreen .packaged {} .unlimited blankScreen "app" = .ok (.converted screen) := by
  have hsome : (converted? (convertScreen .packaged {} .unlimited blankScreen "app")).isSome := by
    decide +kernel
  obtain ⟨screen, hscreen⟩ := Option.isSome_iff_exists.1 hsome
  exact ⟨screen, eq_of_converted? hscreen⟩

/-- Of two pictures that go to one path the first one is there, behind the generated files. -/
theorem first_cat_comes_behind :
    ∃ screen, convertScreen .packaged {} .unlimited blankScreen "app" = .ok (.converted screen)
      ∧ ∃ media : Files,
        assemble "App" "app" (.ofScreen screen) twoCats
            = assemble "App" "app" (.ofScreen screen) [] ++ media
          ∧ ("App" ++ "/" ++ resourcePath "drawable" "cat" "png", .data ⟨#[1]⟩) ∈ media := by
  obtain ⟨screen, hscreen⟩ := exists_blankScreen
  obtain ⟨media, hmedia, -, -, -, hfirst⟩ :=
    assets_come_behind_generated_files hscreen "App" "app" twoCats
  obtain ⟨first, hfind, hmem⟩ := hfirst ⟨"pets/cat.png", ⟨#[2]⟩⟩
    (mem_cons_of_mem _ mem_cons_self)
  have hpath : assetPath "pets/cat.png" = resourcePath "drawable" "cat" "png" := by decide
  have hsame : assetPath "Cat.PNG" == assetPath "pets/cat.png" := by decide
  rw [twoCats, List.find?_cons] at hfind
  dsimp only at hfind hmem
  rw [hsame] at hfind
  cases hfind
  rw [hpath] at hmem
  exact ⟨screen, hscreen, media, hmedia, hmem⟩

/-! ### Resources that clash -/

/-- Files of one directory of assets whose names agree up to the extension are one file. -/
def HasDistinctResources (name : String) (files : Files) : Prop :=
  ∀ directory ∈ mediaDirectories, ∀ resource : String, '.' ∉ resource.toList →
    ∀ extension extension' : String, ∀ f ∈ files, ∀ g ∈ files,
      f.1 = name ++ "/" ++ resourcePath directory resource extension →
      g.1 = name ++ "/" ++ resourcePath directory resource extension' → f = g

/-- Two assets are different files of one resource. -/
def Clash (a b : Asset) : Prop :=
  resourceDirectory (extensionOf a.name) = resourceDirectory (extensionOf b.name)
    ∧ Component.resourceName a.name = Component.resourceName b.name
    ∧ extensionOf a.name ≠ extensionOf b.name

instance (a b : Asset) : Decidable (Clash a b) := inferInstanceAs (Decidable (_ ∧ _ ∧ _))

/-- **A file in a directory of assets is that of an asset.** -/
theorem exists_asset_of_resourcePath
    (hscreen : convertScreen table settings timer source own = .ok (.converted screen))
    {name package : String} {assets : List Asset} {directory resource extension : String}
    (hdirectory : directory ∈ mediaDirectories) (hresource : '.' ∉ resource.toList)
    (h : name ++ "/" ++ resourcePath directory resource extension
      ∈ keys (assemble name package (.ofScreen screen) assets)) :
    ∃ asset ∈ assets, resourceDirectory (extensionOf asset.name) = directory
      ∧ Component.resourceName asset.name = resource ∧ extensionOf asset.name = extension := by
  obtain hgenerated | ⟨asset, hasset, hpath⟩ := mem_keys_assemble_iff.1 h
  · exact absurd (isMediaPath_resourcePath hdirectory resource extension)
      (ne_true_of_eq_false (isMediaPath_generatedFiles hscreen hgenerated))
  · exact ⟨asset, hasset, resourcePath_inj (resourceDirectory_mem _) hdirectory
      (not_mem_resourceName (by decide) asset.name) hresource hpath⟩

/-- **Resource names do not clash exactly if no two assets differ in their extensions only.** -/
theorem resources_distinct_iff
    (hscreen : convertScreen table settings timer source own = .ok (.converted screen))
    (name package : String) (assets : List Asset) :
    HasDistinctResources name (assemble name package (.ofScreen screen) assets)
      ↔ ∀ a ∈ assets, ∀ b ∈ assets, ¬ Clash a b := by
  constructor
  · rintro hdistinct a ha b hb ⟨hdirectory, hresource, hextension⟩
    obtain ⟨f, hf, hfpath⟩ := exists_file_of_asset name package (.ofScreen screen) ha
    obtain ⟨g, hg, hgpath⟩ := exists_file_of_asset name package (.ofScreen screen) hb
    have hpoint := fun asset => not_mem_resourceName (c := '.') (by decide) asset
    rw [assetPath_eq] at hfpath hgpath
    have hsame := hdistinct _ (resourceDirectory_mem _) _ (hpoint a.name) _ _ f hf g hg hfpath
      (by rw [hgpath, hdirectory, hresource])
    rw [hsame, hgpath] at hfpath
    exact hextension (resourcePath_inj (resourceDirectory_mem _) (resourceDirectory_mem _)
      (hpoint b.name) (hpoint a.name) (below_inj hfpath)).2.2.symm
  · intro hclash directory hdirectory resource hresource e e' f hf g hg hfpath hgpath
    obtain ⟨a, ha, hdir, hres, rfl⟩ := exists_asset_of_resourcePath hscreen hdirectory hresource
      (hfpath ▸ Assoc.mem_keys hf)
    obtain ⟨b, hb, hdir', hres', rfl⟩ := exists_asset_of_resourcePath hscreen hdirectory hresource
      (hgpath ▸ Assoc.mem_keys hg)
    have hextension : extensionOf a.name = extensionOf b.name := Decidable.byContradiction
      fun hne => hclash a ha b hb ⟨hdir.trans hdir'.symm, hres.trans hres'.symm, hne⟩
    refine inj_on_of_nodup_map (nodup_keys_assemble ..) hf hg ?_
    rw [hfpath, hgpath, hextension]

/-- Files of two kinds with one name, and one of them twice. -/
def sortedMedia : List Asset :=
  [⟨"cat.png", ⟨#[1]⟩⟩, ⟨"Cat.PNG", ⟨#[2]⟩⟩, ⟨"cat.mp3", ⟨#[3]⟩⟩]

/-- A sound and a picture of one name are resources of different directories. -/
theorem sorted_media_distinct :
    ∃ screen, convertScreen .packaged {} .unlimited blankScreen "app" = .ok (.converted screen)
      ∧ HasDistinctResources "App" (assemble "App" "app" (.ofScreen screen) sortedMedia) := by
  obtain ⟨screen, hscreen⟩ := exists_blankScreen
  have hall : sortedMedia.all fun a => sortedMedia.all fun b => decide (¬ Clash a b) := by
    decide +kernel
  refine ⟨screen, hscreen, (resources_distinct_iff hscreen "App" "app" sortedMedia).2 ?_⟩
  intro a ha b hb
  exact of_decide_eq_true (all_eq_true.1 (all_eq_true.1 hall a ha) b hb)

/-- Two pictures that differ in their extensions. -/
def catPictures : List Asset := [⟨"cat.png", ⟨#[1]⟩⟩, ⟨"cat.jpg", ⟨#[2]⟩⟩]

/-- Both pictures are files of one resource. -/
theorem cat_pictures_clash :
    ∃ screen, convertScreen .packaged {} .unlimited blankScreen "app" = .ok (.converted screen)
      ∧ (∃ f ∈ assemble "App" "app" (.ofScreen screen) catPictures,
        f.1 = "App" ++ "/" ++ resourcePath "drawable" "cat" "png")
      ∧ (∃ g ∈ assemble "App" "app" (.ofScreen screen) catPictures,
        g.1 = "App" ++ "/" ++ resourcePath "drawable" "cat" "jpg")
      ∧ ¬ HasDistinctResources "App" (assemble "App" "app" (.ofScreen screen) catPictures) := by
  obtain ⟨screen, hscreen⟩ := exists_blankScreen
  obtain ⟨f, hf, hfpath⟩ := exists_file_of_asset "App" "app" (.ofScreen screen)
    (mem_cons_self : ⟨"cat.png", ⟨#[1]⟩⟩ ∈ catPictures)
  obtain ⟨g, hg, hgpath⟩ := exists_file_of_asset "App" "app" (.ofScreen screen)
    (mem_cons_of_mem _ mem_cons_self : ⟨"cat.jpg", ⟨#[2]⟩⟩ ∈ catPictures)
  have hpng : assetPath "cat.png" = resourcePath "drawable" "cat" "png" := by decide
  have hjpg : assetPath "cat.jpg" = resourcePath "drawable" "cat" "jpg" := by decide
  rw [hpng] at hfpath
  rw [hjpg] at hgpath
  refine ⟨screen, hscreen, ⟨f, hf, hfpath⟩, ⟨g, hg, hgpath⟩, fun hdistinct => ?_⟩
  have hpoint : '.' ∉ "cat".toList := by decide
  have hsame := hdistinct "drawable" mem_cons_self "cat" hpoint "png" "jpg" f hf g hg hfpath
    hgpath
  rw [hsame, hgpath] at hfpath
  have hextension := (resourcePath_inj mem_cons_self mem_cons_self hpoint hpoint
    (below_inj hfpath)).2.2
  exact absurd hextension (by decide)

end Conversion
end ScreenForge
