/-
# The files of a project

The generated files are a record by path.  Assets are added to it one after the other, each at the
path of its resource unless that path is taken.
-/
import ScreenForge.Conversion.Project
import ScreenForge.Proofs.Assoc

namespace ScreenForge

open List

namespace Project

open Assoc (keys)

variable {assets : List Asset} {path : String} {files : Files}

variable {name package : String} {parts : Parts}

/-! ### Adding assets -/

/-- The first asset that goes to a path. -/
def firstAt? (path : String) (assets : List Asset) : Option Asset :=
  assets.find? fun asset => assetPath asset.name == path

theorem of_firstAt? {first : Asset} (h : firstAt? path assets = some first) :
    first ∈ assets ∧ assetPath first.name = path := by
  have hpath : assetPath first.name == path :=
    List.find?_some (p := fun asset : Asset => assetPath asset.name == path) h
  exact ⟨mem_of_find?_eq_some h, beq_iff_eq.1 hpath⟩

theorem prefix_addAsset (files : Files) (asset : Asset) : files <+: addAsset files asset := by
  unfold addAsset
  dsimp only
  split
  · exact prefix_rfl
  · exact prefix_append files _

theorem nodup_keys_addAsset (h : (keys files).Nodup) (asset : Asset) :
    (keys (addAsset files asset)).Nodup := by
  unfold addAsset
  dsimp only
  split
  · exact h
  · next hfree =>
    have hnew : assetPath asset.name ∉ keys files := fun hmem => hfree (Assoc.has_iff.2 hmem)
    rw [← Assoc.put_of_not_mem hnew]
    exact Assoc.nodup_keys_put h

/-- An asset is found at its path, unless something else has been there. -/
theorem lookup_addAsset (files : Files) (asset : Asset) (path : String) :
    (addAsset files asset).lookup path = (files.lookup path).or
      (if assetPath asset.name = path then some (.data asset.data) else none) := by
  unfold addAsset
  dsimp only
  by_cases hpath : assetPath asset.name = path
  · rw [if_pos hpath]
    split
    · next htaken =>
      rw [← Assoc.isSome_lookup_eq_has, hpath] at htaken
      exact (Option.or_of_isSome htaken).symm
    · rw [lookup_append, hpath, lookup_cons_self]
  · rw [if_neg hpath, Option.or_none]
    split
    · rfl
    · have hne : (path == assetPath asset.name) = false :=
        beq_eq_false_iff_ne.2 fun heq => hpath heq.symm
      rw [lookup_append, lookup_cons, hne, lookup_nil, Option.or_none]

/-! ### Adding all assets -/

/-- The files before the assets stay in front. -/
theorem prefix_foldl_addAsset (files : Files) (assets : List Asset) :
    files <+: assets.foldl addAsset files := by
  induction assets generalizing files with
  | nil => exact prefix_rfl
  | cons asset rest ih => exact (prefix_addAsset files asset).trans (ih (addAsset files asset))

/-- Paths stay distinct when assets are added. -/
theorem nodup_keys_foldl_addAsset (h : (keys files).Nodup) (assets : List Asset) :
    (keys (assets.foldl addAsset files)).Nodup := by
  induction assets generalizing files with
  | nil => exact h
  | cons asset rest ih => exact ih (nodup_keys_addAsset h asset)

/-- **A path that was free holds the first asset that goes there.** -/
theorem lookup_foldl_addAsset (files : Files) (assets : List Asset) (path : String) :
    (assets.foldl addAsset files).lookup path = (files.lookup path).or
      ((firstAt? path assets).map fun first => .data first.data) := by
  induction assets generalizing files with
  | nil => exact (Option.or_none ..).symm
  | cons asset rest ih =>
    rw [foldl_cons, ih, lookup_addAsset, Option.or_assoc, firstAt?, firstAt?, List.find?_cons]
    by_cases hpath : assetPath asset.name = path
    · rw [if_pos hpath, beq_iff_eq.2 hpath]
      rfl
    · rw [if_neg hpath, beq_eq_false_iff_ne.2 hpath]
      rfl

/-- The paths are those before and those of the assets. -/
theorem mem_keys_foldl_addAsset :
    path ∈ keys (assets.foldl addAsset files)
      ↔ path ∈ keys files ∨ ∃ asset ∈ assets, assetPath asset.name = path := by
  rw [← Assoc.isSome_lookup, lookup_foldl_addAsset, Option.isSome_or, Bool.or_eq_true,
    Assoc.isSome_lookup, Option.isSome_map, firstAt?, List.find?_isSome]
  simp only [beq_iff_eq]

/-- **Assets come behind the files that are there**, of each path that is free the first one. -/
theorem exists_additions (hnodup : (keys files).Nodup) (assets : List Asset) :
    ∃ added, assets.foldl addAsset files = files ++ added
      ∧ ∀ path content, (path, content) ∈ added ↔ path ∉ keys files
        ∧ ∃ first, firstAt? path assets = some first ∧ content = .data first.data := by
  obtain ⟨added, hadded⟩ := prefix_foldl_addAsset files assets
  have hall := nodup_keys_foldl_addAsset hnodup assets
  have hlookup := lookup_foldl_addAsset files assets
  rw [← hadded] at hall hlookup
  have hfirst? : ∀ path, path ∉ keys files → (files ++ added).lookup path
      = (firstAt? path assets).map fun first => .data first.data := by
    intro path hfree
    have habsent : files.lookup path = none :=
      Option.not_isSome_iff_eq_none.1 fun hsome => hfree (Assoc.isSome_lookup.1 hsome)
    rw [hlookup, habsent, Option.none_or]
  refine ⟨added, hadded.symm, fun path content => ⟨fun hmem => ?_, ?_⟩⟩
  · have hfree : path ∉ keys files := by
      rw [Assoc.keys, map_append] at hall
      exact fun hpath => (nodup_append.1 hall).2.2 _ hpath _ (Assoc.mem_keys hmem) rfl
    have hfound := Assoc.lookup_of_mem hall (mem_append_right files hmem)
    rw [hfirst? path hfree, Option.map_eq_some_iff] at hfound
    obtain ⟨first, hfirst, hcontent⟩ := hfound
    exact ⟨hfree, first, hfirst, hcontent.symm⟩
  · rintro ⟨hfree, first, hfirst, rfl⟩
    have hfound := hfirst? path hfree
    rw [hfirst] at hfound
    refine (mem_append.1 (Assoc.mem_of_lookup hfound)).resolve_left fun hmem => ?_
    exact hfree (Assoc.mem_keys hmem)

/-! ### Files around a screen -/

/-- The paths of the files around a screen. -/
def framePaths : List String :=
  ["app/src/main/AndroidManifest.xml", "app/src/main/res/values/strings.xml", "build.gradle",
    "settings.gradle", "app/build.gradle", reportPath]

/-! ### All files -/

theorem below_inj {name other : String} (h : name ++ "/" ++ path = name ++ "/" ++ other) :
    path = other :=
  String.append_right_inj (name ++ "/") |>.1 h

theorem keys_below (name : String) (files : Files) :
    keys (files.map fun f => (name ++ "/" ++ f.1, f.2))
      = (keys files).map fun path => name ++ "/" ++ path := by
  rw [Assoc.keys, Assoc.keys, map_map, map_map]
  rfl

theorem nodup_keys_generatedFiles (name package : String) (parts : Parts) :
    (keys (generatedFiles name package parts)).Nodup :=
  Assoc.nodup_keys_ofList _

/-- No two files of a project have one path. -/
theorem nodup_keys_assemble (name package : String) (parts : Parts) (assets : List Asset) :
    (keys (assemble name package parts assets)).Nodup := by
  have hinside := nodup_keys_foldl_addAsset (nodup_keys_generatedFiles name package parts) assets
  rw [assemble, keys_below]
  exact pairwise_map.2 (hinside.imp fun hne heq => hne (below_inj heq))

/-- The paths of a project are the generated ones and those of assets. -/
theorem mem_keys_assemble_iff :
    name ++ "/" ++ path ∈ keys (assemble name package parts assets)
      ↔ path ∈ keys (generatedFiles name package parts)
        ∨ ∃ asset ∈ assets, assetPath asset.name = path := by
  rw [← mem_keys_foldl_addAsset, assemble, keys_below, mem_map]
  constructor
  · rintro ⟨other, hother, heq⟩
    exact below_inj heq ▸ hother
  · exact fun hpath => ⟨path, hpath, rfl⟩

/-- **Every asset has a file at its path**, its own or another one. -/
theorem exists_file_of_asset (name package : String) (parts : Parts) {asset : Asset}
    (h : asset ∈ assets) :
    ∃ f ∈ assemble name package parts assets, f.1 = name ++ "/" ++ assetPath asset.name :=
  mem_map.1 (mem_keys_assemble_iff.2 (.inr ⟨asset, h, rfl⟩))

/-- **Every file of a project is an artifact, a file around it, or that of an asset.** -/
theorem mem_assemble {f : String × Content} (h : f ∈ assemble name package parts assets) :
    ∃ path, f.1 = name ++ "/" ++ path ∧
      (path ∈ keys (parts.artifacts ++ frameFiles name package parts)
        ∨ ∃ asset ∈ assets, path = assetPath asset.name) := by
  obtain ⟨g, hg, rfl⟩ := mem_map.1 h
  refine ⟨g.1, rfl, ?_⟩
  obtain hgenerated | ⟨asset, hasset, hpath⟩ := mem_keys_foldl_addAsset.1 (Assoc.mem_keys hg)
  · obtain ⟨e, he, hpath⟩ := mem_map.1 hgenerated
    exact .inl (hpath ▸ Assoc.mem_keys (Assoc.mem_of_mem_ofList he))
  · exact .inr ⟨asset, hasset, hpath.symm⟩

/-- **A path that is generated keeps its content**, whatever the assets are. -/
theorem mem_assemble_iff (hpath : path ∈ keys (generatedFiles name package parts))
    (assets : List Asset) (content : Content) :
    (name ++ "/" ++ path, content) ∈ assemble name package parts assets
      ↔ (path, content) ∈ generatedFiles name package parts := by
  obtain ⟨added, hadded, hmem⟩ := exists_additions (nodup_keys_generatedFiles ..) assets
  have hfree : (path, content) ∉ added := fun hin => ((hmem path content).1 hin).1 hpath
  rw [assemble, hadded, mem_map]
  constructor
  · rintro ⟨g, hg, heq⟩
    obtain ⟨hsame, rfl⟩ := Prod.mk.inj heq
    rw [← below_inj hsame] at hfree ⊢
    exact (mem_append.1 hg).resolve_right hfree
  · exact fun hin => ⟨_, mem_append_left added hin, rfl⟩

end Project

namespace Conversion

variable {table : Component.Table} {settings : Settings} {clock : Clock} {source : Project.Source}

/-- The package of a project that is converted under a given name. -/
def packageOf (settings : Settings) (given : Option String) : String :=
  packageName settings.packagePrefix (projectNameOf settings given)

/-- **A converted project is its converted screen with the files around it.** -/
theorem exists_screen_of_converted {given : Option String} {project : Converted}
    (h : convertProject table settings clock source given = .ok (.converted project)) :
    ∃ screen, convertScreen table settings (settings.timer clock) (screenSource source)
        (packageOf settings given) = .ok (.converted screen)
      ∧ project = assembled (projectNameOf settings given) (packageOf settings given)
        source.assets screen := by
  unfold convertProject at h
  dsimp only at h
  split at h
  · cases h
  · cases h
  · next screen hscreen =>
    cases h
    exact ⟨screen, hscreen, rfl⟩

theorem projectNameOf_some {name : String} (h : name ≠ "") (settings : Settings) :
    projectNameOf settings (some name) = name := by
  rw [projectNameOf, if_neg h]

/-- The result of a run that converts. -/
def converted? {α : Type} : Except Fault (Outcome α) → Option α
  | .ok (.converted result) => some result
  | _ => none

theorem eq_of_converted? {α : Type} {run : Except Fault (Outcome α)} {result : α}
    (h : converted? run = some result) : run = .ok (.converted result) := by
  unfold converted? at h
  split at h
  · rw [Option.some.inj h]
  · cases h

end Conversion
end ScreenForge
