/-
# Paths stay inside the project

A part of a path leads elsewhere only if it consists of points.  What a package or an extension
brings into a path holds no point at all, and the one point that is written, before an extension,
stands behind a resource name.  An extension may well hold slashes: a name is cut at its last point
and not at its last slash.
-/
import ScreenForge.Proofs.Component.Legal
import ScreenForge.Proofs.Conversion.Agreement
import ScreenForge.Proofs.Project.Files
import ScreenForge.Proofs.Project.Package

namespace ScreenForge

open List

namespace Project

/-! ### The parts of a path -/

/-- The parts of a path between slashes. -/
def segments (path : String) : List (List Char) := path.toList.splitOn '/'

/-- Whether no part of a path consists of points. -/
def staysBelow (path : List Char) : Bool :=
  (path.splitOn '/').all fun segment => segment.isEmpty || segment.any (· != '.')

/-- Characters before the first separator belong to the first part. -/
theorem splitOn_append {sep : Char} {front : List Char} (h : sep ∉ front) (rest : List Char) :
    (front ++ rest).splitOn sep = (rest.splitOn sep).modifyHead (front ++ ·) := by
  obtain ⟨first, others, hrest⟩ := exists_cons_of_ne_nil (splitOn_ne_nil sep rest)
  induction front with
  | nil => rw [nil_append, hrest, modifyHead_cons, nil_append]
  | cons c front ih =>
    have hne : (c == sep) ≠ true := fun heq => h (beq_iff_eq.1 heq ▸ mem_cons_self)
    rw [cons_append, splitOn_cons_eq_if_modifyHead, if_neg hne,
      ih fun hmem => h (mem_cons_of_mem c hmem), hrest]
    rfl

theorem mem_of_mem_splitOn {sep c : Char} {segment path : List Char}
    (hsegment : segment ∈ path.splitOn sep) (hc : c ∈ segment) : c ∈ path := by
  induction path generalizing segment with
  | nil => rwa [mem_singleton.1 hsegment] at hc
  | cons d path ih =>
    rw [splitOn_cons_eq_if_modifyHead] at hsegment
    split at hsegment
    · obtain rfl | hsegment := mem_cons.1 hsegment
      · cases hc
      · exact mem_cons_of_mem d (ih hsegment hc)
    · obtain ⟨first, others, hpath⟩ := exists_cons_of_ne_nil (splitOn_ne_nil sep path)
      rw [hpath] at ih hsegment
      obtain rfl | hsegment := mem_cons.1 hsegment
      · exact (mem_cons.1 hc).elim (fun heq => heq ▸ mem_cons_self)
          fun hc => mem_cons_of_mem d (ih mem_cons_self hc)
      · exact mem_cons_of_mem d (ih (mem_cons_of_mem first hsegment) hc)

theorem staysBelow_slash (front rest : List Char) :
    staysBelow (front ++ '/' :: rest) = (staysBelow front && staysBelow rest) := by
  rw [staysBelow, splitOn_append_cons_self, all_append]
  rfl

/-- A path without points stays below. -/
theorem staysBelow_of_not_mem {path : List Char} (h : '.' ∉ path) : staysBelow path := by
  refine all_eq_true.2 fun segment hsegment => ?_
  cases segment with
  | nil => rfl
  | cons c rest =>
    have hc : c ≠ '.' := fun heq => h (heq ▸ mem_of_mem_splitOn hsegment mem_cons_self)
    rw [any_cons, bne_iff_ne.2 hc, Bool.true_or, Bool.or_true]

/-- **A point behind something else in its part leads nowhere**, if no other point follows. -/
theorem staysBelow_append {front rest : List Char} {c : Char} (hslash : '/' ∉ front)
    (hmem : c ∈ front) (hc : c ≠ '.') (hrest : '.' ∉ rest) : staysBelow (front ++ rest) := by
  have hbelow := staysBelow_of_not_mem hrest
  obtain ⟨first, others, hsplit⟩ := exists_cons_of_ne_nil (splitOn_ne_nil '/' rest)
  rw [staysBelow, hsplit, all_cons, Bool.and_eq_true_iff] at hbelow
  rw [staysBelow, splitOn_append hslash, hsplit, modifyHead_cons, all_cons, hbelow.2, Bool.and_true]
  have hany : (front ++ first).any (· != '.') :=
    any_eq_true.2 ⟨c, mem_append_left first hmem, bne_iff_ne.2 hc⟩
  rw [hany, Bool.or_true]

/-- A path that stays below has no part that stands for its own directory or the one above. -/
theorem ne_points_of_staysBelow {path : String} (h : staysBelow path.toList)
    {segment : List Char} (hsegment : segment ∈ segments path) :
    segment ≠ ['.'] ∧ segment ≠ ['.', '.'] := by
  have hthis := all_eq_true.1 h segment hsegment
  constructor
  · rintro rfl
    exact absurd hthis (by decide)
  · rintro rfl
    exact absurd hthis (by decide)

/-! ### Generated paths -/

theorem toList_path (front directory slash file extension : String) :
    (front ++ directory ++ slash ++ file ++ extension).toList = front.toList
      ++ (directory.toList ++ (slash.toList ++ (file.toList ++ extension.toList))) := by
  simp only [String.toList_append, append_assoc]

theorem staysBelow_file {front directory file extension : String} {base : List Char}
    (hfront : front.toList = base ++ ['/']) (hbase : staysBelow base)
    (hdirectory : staysBelow directory.toList)
    (hfile : staysBelow (file.toList ++ extension.toList)) :
    staysBelow (front ++ directory ++ "/" ++ file ++ extension).toList := by
  have hslash : "/".toList = ['/'] := by decide
  have hsplit : (front ++ directory ++ "/" ++ file ++ extension).toList
      = base ++ '/' :: (directory.toList ++ '/' :: (file.toList ++ extension.toList)) := by
    simp only [toList_path, hfront, hslash, append_assoc, cons_append, nil_append]
  rw [hsplit, staysBelow_slash, staysBelow_slash, hbase, hdirectory, hfile]
  rfl

theorem not_mem_packagePath (package : String) : '.' ∉ (Conversion.packagePath package).toList := by
  rw [Conversion.packagePath, String.toList_ofList, mem_map]
  rintro ⟨c, -, hc⟩
  split at hc
  · exact absurd hc (by decide)
  · next hne => exact hne hc

/-- The path of an activity stays below, whatever the package. -/
theorem staysBelow_activityPath (package : String) :
    staysBelow (Conversion.activityPath package).toList := by
  have hjava : "app/src/main/java/".toList = "app/src/main/java".toList ++ ['/'] := by decide
  exact staysBelow_file hjava (by decide) (staysBelow_of_not_mem (not_mem_packagePath package))
    (by decide)

/-! ### Paths of assets -/

/-- **An extension holds no point.** -/
theorem not_mem_extensionOf (name : String) : '.' ∉ (extensionOf name).toList := by
  unfold extensionOf
  split
  · rw [Text.mem_lower_iff (by decide), String.toList_ofList]
    exact Text.not_mem_afterLast '.' name.toList
  · exact not_mem_nil

/-- The path of an asset stays below, whatever its name. -/
theorem staysBelow_assetPath (name : String) : staysBelow (assetPath name).toList := by
  obtain ⟨c, rest, hname, hletter, hchars⟩ := Component.toList_resourceName name
  have hslash : '/' ∉ c :: rest := fun hmem => absurd (hchars _ hmem) (by decide)
  have hc : c ≠ '.' := by
    rintro rfl
    exact absurd hletter (by decide)
  have hdirectory : staysBelow (resourceDirectory (extensionOf name)).toList := by
    rw [resourceDirectory]
    split
    · decide
    · decide
  have hresources : "app/src/main/res/".toList = "app/src/main/res".toList ++ ['/'] := by decide
  refine staysBelow_file hresources (by decide) hdirectory ?_
  rw [hname]
  split
  · exact staysBelow_append hslash mem_cons_self hc not_mem_nil
  · -- the point before the extension belongs to the part of the resource name
    have hpoint : c :: rest ++ ("." ++ extensionOf name).toList
        = (c :: rest ++ ['.']) ++ (extensionOf name).toList := by
      rw [String.toList_append, ← append_assoc]
      rfl
    have hslash : '/' ∉ c :: rest ++ ['.'] := by
      rw [mem_append, not_or]
      exact ⟨hslash, by decide⟩
    rw [hpoint]
    exact staysBelow_append hslash (mem_append_left ['.'] mem_cons_self) hc
      (not_mem_extensionOf name)

end Project

namespace Conversion

open Project (segments staysBelow)

/-! ### Paths of a converted project -/

/-- So does the name of a project. -/
theorem staysBelow_projectName {name : List Char} (h : Request.isProjectName name) :
    name ≠ [] ∧ staysBelow name := by
  obtain ⟨c, cs, rfl, -, hword⟩ := exists_of_isProjectName h
  exact ⟨cons_ne_nil c cs,
    Project.staysBelow_of_not_mem fun hmem => absurd (hword '.' hmem) (by decide)⟩

/-- The paths that are generated with a screen. -/
theorem keys_generated {table : Component.Table} {settings : Settings} {timer : Timer}
    {source : ScreenSource} {own : String} {screen : Screen}
    (h : convertScreen table settings timer source own = .ok (.converted screen))
    (name package : String) :
    Assoc.keys ((Project.Parts.ofScreen screen).artifacts
        ++ Project.frameFiles name package (.ofScreen screen))
      = layoutPath :: activityPath own :: Project.framePaths := by
  obtain ⟨form, root, -, -, hartifacts⟩ := artifacts_of_converted h
  rw [Project.Parts.ofScreen, hartifacts]
  rfl

/-- Every path inside a converted project stays below it. -/
theorem staysBelow_of_converted {table : Component.Table} {settings : Settings} {clock : Clock}
    {source : Project.Source} {given : Option String} {project : Converted}
    (h : convertProject table settings clock source given = .ok (.converted project))
    {f : String × Project.Content} (hf : f ∈ project.files) :
    ∃ path, f.1 = projectNameOf settings given ++ "/" ++ path
      ∧ staysBelow path.toList := by
  obtain ⟨screen, hscreen, rfl⟩ := exists_screen_of_converted h
  have hall : ∀ path ∈ layoutPath :: activityPath (packageOf settings given) :: Project.framePaths,
      staysBelow path.toList :=
    forall_mem_cons.2 ⟨by decide, forall_mem_cons.2
      ⟨Project.staysBelow_activityPath _, all_eq_true.1 (by decide)⟩⟩
  obtain ⟨path, hpath, hkind⟩ := Project.mem_assemble hf
  refine ⟨path, hpath, ?_⟩
  obtain hgenerated | ⟨asset, -, rfl⟩ := hkind
  · rw [keys_generated hscreen] at hgenerated
    exact hall path hgenerated
  · exact Project.staysBelow_assetPath asset.name

/-- **No path leaves the project.**  Whatever the assets are called and whatever stands before the
name in the package, under an accepted project name every path of a converted project starts with
that name and a slash, and no part of it stands for its own directory or the one above. -/
theorem project_paths_stay_inside {table : Component.Table} {settings : Settings} {clock : Clock}
    {source : Project.Source} {value : Json} {request : Request} {project : Converted}
    (hrequest : Request.ofJson value = .ok request)
    (hconverted : convertProject table settings clock source (some request.projectName)
      = .ok (.converted project)) :
    ∀ f ∈ project.files, (∃ path, f.1 = request.projectName ++ "/" ++ path)
      ∧ ∀ segment ∈ segments f.1, segment ≠ ['.'] ∧ segment ≠ ['.', '.'] := by
  intro f hf
  obtain ⟨hne, hname⟩ := staysBelow_projectName (Request.isProjectName_of_ofJson hrequest)
  have hgiven : request.projectName ≠ "" := by
    rintro heq
    exact hne (heq ▸ rfl)
  obtain ⟨path, hpath, hbelow⟩ := staysBelow_of_converted hconverted hf
  rw [projectNameOf_some hgiven] at hpath
  refine ⟨⟨path, hpath⟩, fun segment hsegment => Project.ne_points_of_staysBelow ?_ hsegment⟩
  have hslash : "/".toList = ['/'] := by decide
  rw [hpath, String.toList_append, String.toList_append, hslash, append_assoc,
    singleton_append, Project.staysBelow_slash, hname, hbelow]
  rfl

/-- A project with assets whose names try to lead elsewhere. -/
def strayingSource : Project.Source where
  screenName := "Screen1"
  layout := "\x7b\"Properties\":\x7b\"$Name\":\"Screen1\",\"$Type\":\"Form\"\x7d\x7d"
  blocks := ""
  assets := [⟨"..", .empty⟩, ⟨"../../passwd", .empty⟩, ⟨"a./../x", .empty⟩]

/-- Neither its assets nor a package of points leave the project. -/
theorem straying_paths_stay_inside :
    ∃ project, convertProject .packaged { packagePrefix := "../.." } (fun _ => 0) strayingSource
        (some "App") = .ok (.converted project)
      ∧ ∀ f ∈ project.files, (∃ path, f.1 = "App" ++ "/" ++ path)
        ∧ ∀ segment ∈ segments f.1, segment ≠ ['.'] ∧ segment ≠ ['.', '.'] := by
  have hrequest : Request.ofJson (.obj [("file", .str "-"), ("projectName", .str "App")])
      = .ok ⟨"-", "App"⟩ := by rfl
  have hsome : (converted? (convertProject .packaged { packagePrefix := "../.." } (fun _ => 0)
      strayingSource (some "App"))).isSome := by decide +kernel
  obtain ⟨project, hproject⟩ := Option.isSome_iff_exists.1 hsome
  replace hproject := eq_of_converted? hproject
  exact ⟨project, hproject, project_paths_stay_inside hrequest hproject⟩

end Conversion
end ScreenForge
