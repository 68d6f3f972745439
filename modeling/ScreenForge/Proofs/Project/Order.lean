/-
# The order of entries in an archive

| part of a project | entry |
| --- | --- |
| layout | the least path that is or ends in `S.scm`, for a screen `S` |
| blocks | the least path that is or ends in `S.bky`, or nothing |
| assets | the files below `assets/`, by name |

None of this speaks of an order of the entries (`Selects`).  Entries with distinct names are sorted
before anything is selected, and a list in strict order is determined by its members.  An entry may
have two of these roles.
-/
import Mathlib.Data.List.Nodup
import Mathlib.Data.List.Perm.Basic
import ScreenForge.Archive.Writer
import ScreenForge.Proofs.Assoc
import ScreenForge.Proofs.Project.Pace

namespace ScreenForge
namespace Project

open List

instance : DecidableEq (Except Archive.Fault ByteArray) :=
  letI : DecidableEq ByteArray := ByteArray.instDecidableEq
  inferInstance

deriving instance DecidableEq for Entry

/-! ### Entries by name -/

/-- Two lists in order with the same members are equal. -/
theorem eq_of_sorted {α : Type} {name : α → String} {l other : List α}
    (hl : l.Pairwise fun a b => name a < name b)
    (hother : other.Pairwise fun a b => name a < name b) (hmem : ∀ a, a ∈ l ↔ a ∈ other) :
    l = other := by
  have hnodup : ∀ {l : List α}, l.Pairwise (fun a b => name a < name b) → l.Nodup :=
    fun h => h.imp fun {a b} hlt (heq : a = b) => String.lt_irrefl _ (heq ▸ hlt)
  have hperm := (perm_ext_iff_of_nodup (hnodup hl) (hnodup hother)).2 hmem
  refine hperm.eq_of_pairwise ?_ hl hother
  intro a b _ _ hab hba
  exact absurd (String.lt_trans hab hba) (String.lt_irrefl _)

section ByName

variable {entries : List Entry} (hnames : (entries.map Entry.name).Nodup)

include hnames

theorem byName_eq : byName entries = entries.mergeSort fun a b => a.name ≤ b.name := by
  have hkeys : (Assoc.keys (entries.map fun e => (e.name, e))).Nodup := by
    rwa [Assoc.keys, map_map]
  rw [byName, Assoc.ofList_eq_self hkeys]
  rw [← map_mergeSort (r := fun a b : Entry => a.name ≤ b.name) fun _ _ _ _ => rfl, map_map]
  exact map_id _

theorem mem_byName_iff {e : Entry} : e ∈ byName entries ↔ e ∈ entries := by
  rw [byName_eq hnames, mem_mergeSort]

/-- **Entries by name are in order**, each name once. -/
theorem pairwise_byName : (byName entries).Pairwise fun a b => a.name < b.name := by
  have hdistinct : (byName entries).Pairwise fun a b => a.name ≠ b.name := by
    rw [byName_eq hnames]
    exact pairwise_map.1 (((mergeSort_perm _ _).map Entry.name).nodup_iff.2 hnames)
  have hsorted : (byName entries).Pairwise fun a b => a.name ≤ b.name := by
    rw [byName_eq hnames]
    refine (pairwise_mergeSort ?_ ?_ entries).imp of_decide_eq_true
    · intro a b c hab hbc
      exact decide_eq_true (String.le_trans (of_decide_eq_true hab) (of_decide_eq_true hbc))
    · intro a b
      rw [Bool.or_eq_true, decide_eq_true_eq, decide_eq_true_eq]
      exact String.le_total a.name b.name
  exact (hsorted.and hdistinct).imp fun h =>
    String.not_le.1 fun hback => h.2 (String.le_antisymm h.1 hback)

/-- **The order of entries does not matter** for the list by name. -/
theorem byName_congr {others : List Entry} (hperm : others.Perm entries) :
    byName others = byName entries := by
  have hothers := (hperm.map Entry.name).nodup_iff.2 hnames
  refine eq_of_sorted (pairwise_byName hothers) (pairwise_byName hnames) fun e => ?_
  rw [mem_byName_iff hothers, mem_byName_iff hnames, hperm.mem_iff]

end ByName

/-- **What counts for a file name**: of the entries that are or end in it, the one with the least
path. -/
structure IsEntryFor (entries : List Entry) (fileName : String) (e : Entry) : Prop where
  mem : e ∈ entries
  file : isFile fileName e.name = true
  least : ∀ f ∈ entries, isFile fileName f.name = true → e.name ≤ f.name

variable {entries : List Entry} {e : Entry}

/-- The entry that is found for a file is the least that is or ends in its name. -/
theorem entryFor_eq_some_iff (hnames : (entries.map Entry.name).Nodup) {fileName : String} :
    entryFor (byName entries) fileName = some e ↔ IsEntryFor entries fileName e := by
  have hfound : ∀ {f}, entryFor (byName entries) fileName = some f →
      IsEntryFor entries fileName f := by
    intro f hf
    obtain ⟨hfile, front, back, hsplit, hfront⟩ := List.find?_eq_some_iff_append.1 hf
    have hsorted := pairwise_byName hnames
    rw [hsplit, pairwise_append, pairwise_cons] at hsorted
    refine ⟨(mem_byName_iff hnames).1 (mem_of_find?_eq_some hf), hfile, fun g hg hgfile => ?_⟩
    rw [← mem_byName_iff hnames, hsplit, mem_append, mem_cons] at hg
    obtain hg | rfl | hg := hg
    · have hno := hfront g hg
      rw [hgfile] at hno
      cases hno
    · exact String.le_refl _
    · exact String.not_lt.1 (String.lt_asymm (hsorted.2.1.1 g hg))
  refine ⟨hfound, fun h => ?_⟩
  have hsome : (entryFor (byName entries) fileName).isSome :=
    List.find?_isSome.2 ⟨e, (mem_byName_iff hnames).2 h.mem, h.file⟩
  obtain ⟨f, hf⟩ := Option.isSome_iff_exists.1 hsome
  have hfirst := hfound hf
  have hname : f.name = e.name :=
    String.le_antisymm (hfirst.least e h.mem h.file) (h.least f hfirst.mem hfirst.file)
  rw [hf, inj_on_of_nodup_map hnames hfirst.mem h.mem hname]

/-! ### What is selected -/

/-- An entry is small enough for a descriptor, and a text. -/
structure Describes (limit : Int) (e : Entry) (text : String) : Prop where
  size : (e.size : Int) ≤ limit
  text : ∃ data, e.content = .ok data ∧ String.fromUTF8? (withoutMark data) = some text

/-- **What a project is read as**, from its files in any order: the texts of the two entries that
count for the screen, none for blocks that are not there, and the assets by name. -/
structure Selects (screen : String) (limits : ArchiveLimits) (files : List Entry)
    (source : Source) : Prop where
  name : source.screenName = screen
  layout : ∃ e, IsEntryFor files (screen ++ ".scm") e
    ∧ Describes limits.maxDescriptorSize e source.layout
  blocks : (∃ e, IsEntryFor files (screen ++ ".bky") e
      ∧ Describes limits.maxDescriptorSize e source.blocks)
    ∨ (∀ e ∈ files, isFile (screen ++ ".bky") e.name = false) ∧ source.blocks = ""
  total : ((assetEntries files).foldr (fun e n => e.size + n) 0 : Nat) ≤ limits.maxTotalSize
  sorted : source.assets.Pairwise fun a b => a.name < b.name
  assets : ∀ a, a ∈ source.assets
    ↔ ∃ e ∈ files, e.name = "assets/" ++ a.name ∧ e.content = .ok a.data

theorem bind_eq_ok_iff {α β : Type} {x : Except ArchiveError α} {f : α → Except ArchiveError β}
    {b : β} : x.bind f = .ok b ↔ ∃ a, x = .ok a ∧ f a = .ok b := by
  cases x with
  | error e => simp [Except.bind]
  | ok a => simp [Except.bind]

section Plans

variable {screen : String} {limits : ArchiveLimits} {p : Plan}

/-- The entries of a plan have their roles, and are within the bounds. -/
theorem planOf_eq_ok_iff :
    planOf screen limits entries = .ok p
      ↔ entryFor (byName entries) (screen ++ ".scm") = some p.layout
        ∧ entryFor (byName entries) (screen ++ ".bky") = p.blocks
        ∧ assetEntries (byName entries) = p.assets
        ∧ (∀ e ∈ p.layout :: p.blocks.toList, (e.size : Int) ≤ limits.maxDescriptorSize)
        ∧ (p.assets.foldr (fun e n => e.size + n) 0 : Nat) ≤ limits.maxTotalSize := by
  obtain ⟨layout, blocks, assets⟩ := p
  simp only [planOf]
  split
  · next hlayout => simp [hlayout]
  next e hlayout =>
  rw [hlayout]
  split
  · next f hlarge =>
    have hmem := mem_of_find?_eq_some hlarge
    have hsize := List.find?_some hlarge
    grind
  next hsmall =>
  simp only [List.find?_eq_none, decide_eq_true_eq, Int.not_lt] at hsmall
  split <;> grind

/-- The project of a plan, part by part. -/
theorem source_eq_ok_iff {source : Source} :
    p.source screen = .ok source
      ↔ source.screenName = screen ∧ textOf p.layout = .ok source.layout
        ∧ p.blocks.elim (source.blocks = "") (textOf · = .ok source.blocks)
        ∧ source.assets = p.assets.map Entry.asset := by
  obtain ⟨name, layout, blocks, assets⟩ := source
  cases hlayout : textOf p.layout with
  | error e => simp [Plan.source, hlayout, bind, Except.bind]
  | ok text =>
    cases hblocks : p.blocks with
    | none =>
      simp [Plan.source, hlayout, hblocks, bind, Except.bind, pure, Except.pure]
      grind
    | some e =>
      cases hother : textOf e with
      | error cause => simp [Plan.source, hlayout, hblocks, hother, bind, Except.bind]
      | ok other =>
        simp [Plan.source, hlayout, hblocks, hother, bind, Except.bind, pure, Except.pure]
        grind

theorem describes_iff {limit : Int} {text : String} (hread : ∃ data, e.content = .ok data) :
    Describes limit e text ↔ (e.size : Int) ≤ limit ∧ textOf e = .ok text := by
  obtain ⟨data, hdata⟩ := hread
  have htext : textOf e = .ok text ↔ String.fromUTF8? (withoutMark data) = some text := by
    rw [textOf, Entry.bytes, hdata]
    cases hutf : String.fromUTF8? (withoutMark data) with
    | none => simp [Except.toOption, hutf]
    | some s => simp [Except.toOption, hutf]
  rw [htext]
  constructor
  · rintro ⟨hsize, found, hfound, htext⟩
    obtain rfl := Except.ok.inj (hdata.symm.trans hfound)
    exact ⟨hsize, htext⟩
  · exact fun ⟨hsize, htext⟩ => ⟨hsize, data, hdata, htext⟩

/-- Only entries of the archive are needed. -/
theorem mem_of_mem_wanted (hplan : planOf screen limits entries = .ok p) (h : e ∈ p.wanted) :
    e ∈ byName entries := by
  obtain ⟨hlayout, hblocks, hassets, -⟩ := planOf_eq_ok_iff.1 hplan
  obtain rfl | h := mem_cons.1 h
  · exact mem_of_find?_eq_some hlayout
  obtain h | h := mem_append.1 h
  · exact mem_of_find?_eq_some (hblocks.trans (Option.mem_toList.1 h))
  · exact mem_of_mem_filter (hassets ▸ h)

/-- **The pace does not matter** if all entries can be read. -/
theorem select_eq_bind (hread : ∀ e ∈ byName entries, ∃ data, e.content = .ok data)
    (pace : Entry → Nat) :
    select pace screen limits entries = (planOf screen limits entries).bind (Plan.source screen) := by
  rw [select]
  cases hplan : planOf screen limits entries with
  | error e => rfl
  | ok p =>
    have hnone : firstFailure? pace p.wanted = none := firstFailure?_eq_none_iff.2 fun e he =>
      failure?_eq_none_iff.2 (hread e (mem_of_mem_wanted hplan he))
    simp only [hnone, Except.bind]

end Plans

theorem name_eq_of_mem_assetEntries (h : e ∈ assetEntries entries) :
    e.name = "assets/" ++ e.asset.name := by
  have hprefix : assetsDirectory <+: e.name.toList :=
    List.isPrefixOf_iff_prefix.1 (mem_filter.1 h).2
  rw [← String.toList_inj, String.toList_append]
  show _ = assetsDirectory ++ (String.ofList _).toList
  rw [String.toList_ofList]
  exact (prefix_iff_eq_append.1 hprefix).symm

theorem lt_of_append_lt {front s t : List Char} (h : front ++ s < front ++ t) : s < t := by
  induction front with
  | nil => exact h
  | cons c front ih => exact ih (cons_lt_cons_self.1 h)

section Selected

variable {entries : List Entry} (hnames : (entries.map Entry.name).Nodup)
  (hread : ∀ e ∈ entries, ∃ data, e.content = .ok data)

include hnames

theorem elim_entryFor_iff {fileName : String} {last : Prop} {P : Entry → Prop} :
    (entryFor (byName entries) fileName).elim last P
      ↔ (∃ e, IsEntryFor entries fileName e ∧ P e)
        ∨ (∀ e ∈ entries, isFile fileName e.name = false) ∧ last := by
  simp only [← entryFor_eq_some_iff hnames]
  cases hfound : entryFor (byName entries) fileName with
  | none =>
    have hno : ∀ e ∈ entries, isFile fileName e.name = false := fun e he =>
      Bool.eq_false_iff.2 (List.find?_eq_none.1 hfound e ((mem_byName_iff hnames).2 he))
    simpa using fun _ => hno
  | some e =>
    have he := (entryFor_eq_some_iff hnames).1 hfound
    have hsome : ¬ ∀ e ∈ entries, isFile fileName e.name = false := fun hno =>
      Bool.eq_false_iff.1 (hno e he.mem) he.file
    simp [hsome]

include hread

/-- The assets are the files below their directory, in strict order. -/
theorem assets_eq_iff {assets : List Asset} :
    assets = (assetEntries (byName entries)).map Entry.asset
      ↔ assets.Pairwise (fun a b => a.name < b.name) ∧ ∀ a, a ∈ assets
        ↔ ∃ e ∈ entries, e.name = "assets/" ++ a.name ∧ e.content = .ok a.data := by
  have hsorted : ((assetEntries (byName entries)).map Entry.asset).Pairwise
      fun a b => a.name < b.name := by
    refine pairwise_map.2 (((pairwise_byName hnames).filter _).imp_of_mem ?_)
    intro a b ha hb hlt
    have hchars : ("assets/" ++ a.asset.name).toList < ("assets/" ++ b.asset.name).toList := by
      rwa [← name_eq_of_mem_assetEntries ha, ← name_eq_of_mem_assetEntries hb]
    rw [String.toList_append, String.toList_append] at hchars
    exact lt_of_append_lt hchars
  have hmem : ∀ a, a ∈ (assetEntries (byName entries)).map Entry.asset
      ↔ ∃ e ∈ entries, e.name = "assets/" ++ a.name ∧ e.content = .ok a.data := by
    intro a
    rw [mem_map]
    constructor
    · rintro ⟨e, he, rfl⟩
      have hmem := (mem_byName_iff hnames).1 (mem_of_mem_filter he)
      obtain ⟨data, hdata⟩ := hread e hmem
      refine ⟨e, hmem, name_eq_of_mem_assetEntries he, ?_⟩
      rw [Entry.asset, Entry.bytes, hdata]
      rfl
    · rintro ⟨e, he, hname, hcontent⟩
      have hasset : e ∈ assetEntries (byName entries) := by
        refine mem_filter.2 ⟨(mem_byName_iff hnames).2 he, ?_⟩
        rw [hname, String.toList_append]
        exact List.isPrefixOf_iff_prefix.2 (prefix_append _ _)
      have hchars := congrArg String.toList (hname.symm.trans (name_eq_of_mem_assetEntries hasset))
      rw [String.toList_append, String.toList_append, append_cancel_left_eq,
        String.toList_inj] at hchars
      refine ⟨e, hasset, ?_⟩
      obtain ⟨name, data⟩ := a
      rw [Entry.asset, Asset.mk.injEq]
      exact ⟨hchars.symm, by rw [Entry.bytes, hcontent]; rfl⟩
  constructor
  · rintro rfl
    exact ⟨hsorted, hmem⟩
  · rintro ⟨hassets, hmembers⟩
    exact eq_of_sorted hassets hsorted fun a => (hmembers a).trans (hmem a).symm

/-- **What is selected from entries** does not depend on their order. -/
theorem select_eq_ok_iff_selects {pace : Entry → Nat} {screen : String} {limits : ArchiveLimits}
    {source : Source} :
    select pace screen limits entries = .ok source ↔ Selects screen limits entries source := by
  have hcontent : ∀ e ∈ byName entries, ∃ data, e.content = .ok data := fun e he =>
    hread e ((mem_byName_iff hnames).1 he)
  have htotal : (assetEntries (byName entries)).foldr (fun e n => e.size + n) 0
      = (assetEntries entries).foldr (fun e n => e.size + n) 0 := by
    rw [byName_eq hnames]
    refine ((mergeSort_perm _ _).filter _).foldr_eq' (fun e _ f _ n => ?_) 0
    exact Nat.add_left_comm f.size e.size n
  have hdescribes : ∀ {fileName text e}, entryFor (byName entries) fileName = some e →
      (Describes limits.maxDescriptorSize e text
        ↔ (e.size : Int) ≤ limits.maxDescriptorSize ∧ textOf e = .ok text) := fun he =>
    describes_iff (hcontent _ (mem_of_find?_eq_some he))
  have hblocks : ∀ {text}, (entryFor (byName entries) (screen ++ ".bky")).elim (text = "")
      (Describes limits.maxDescriptorSize · text)
      ↔ (∀ e ∈ entryFor (byName entries) (screen ++ ".bky"),
          (e.size : Int) ≤ limits.maxDescriptorSize)
        ∧ (entryFor (byName entries) (screen ++ ".bky")).elim (text = "") (textOf · = .ok text) := by
    intro text
    cases hfound : entryFor (byName entries) (screen ++ ".bky") with
    | none => simp
    | some e => simp [hdescribes hfound]
  rw [select_eq_bind hcontent]
  constructor
  · intro h
    obtain ⟨⟨layout, blocks, assets⟩, hplan, hsource⟩ := bind_eq_ok_iff.1 h
    obtain ⟨hlayout, rfl, rfl, hsizes, hbound⟩ := planOf_eq_ok_iff.1 hplan
    obtain ⟨hname, htext, hother, hassets⟩ := source_eq_ok_iff.1 hsource
    obtain ⟨hsize, hsizes⟩ := forall_mem_cons.1 hsizes
    obtain ⟨hsorted, hmem⟩ := (assets_eq_iff hnames hread).1 hassets
    refine ⟨hname, ⟨layout, (entryFor_eq_some_iff hnames).1 hlayout, (hdescribes hlayout).2 ⟨hsize, htext⟩⟩,
      (elim_entryFor_iff hnames).1 (hblocks.2 ⟨?_, hother⟩), htotal ▸ hbound, hsorted, hmem⟩
    exact fun e he => hsizes e (Option.mem_toList.2 he)
  · rintro ⟨hname, ⟨e, he, hlayout⟩, hother, hbound, hsorted, hmem⟩
    have hfound := (entryFor_eq_some_iff hnames).2 he
    obtain ⟨hsize, htext⟩ := (hdescribes hfound).1 hlayout
    obtain ⟨hsizes, hother⟩ := hblocks.1 ((elim_entryFor_iff hnames).2 hother)
    refine bind_eq_ok_iff.2 ⟨⟨e, _, _⟩, planOf_eq_ok_iff.2 ⟨hfound, rfl, rfl, ?_, htotal ▸ hbound⟩,
      source_eq_ok_iff.2 ⟨hname, htext, hother, (assets_eq_iff hnames hread).2 ⟨hsorted, hmem⟩⟩⟩
    exact forall_mem_cons.2 ⟨hsize, fun f hf => hsizes f (Option.mem_toList.1 hf)⟩

end Selected

/-! ### Archives -/

/-- **The order of the entries in an archive does not matter.**  If their names are distinct, an
archive with the same entries in another order is read as the same project or refused for the same
reason.  If all can be unpacked, it does not matter either in which order their readings end, and
which project it is, the entries say without an order. -/
theorem archive_order_irrelevant {u : Unpacker} {data other : ByteArray}
    {entries others : List Entry} (hdata : u.entries data = .ok entries)
    (hother : u.entries other = .ok others) (hperm : others.Perm entries)
    (hnames : (entries.map Entry.name).Nodup) (screen : String) (limits : ArchiveLimits) :
    read other screen limits u = read data screen limits u
    ∧ ((∀ e ∈ entries, ∃ content, e.content = .ok content) →
      (∀ pace, read other screen limits { u with pace } = read data screen limits u)
      ∧ ∀ source, read data screen limits u = .ok source
        ↔ Selects screen limits (filesOf entries) source) := by
  have hfiles : ((filesOf entries).map Entry.name).Nodup :=
    hnames.sublist (filter_sublist.map _)
  have hsame : byName (filesOf others) = byName (filesOf entries) :=
    byName_congr hfiles (hperm.filter _)
  have hplan : planOf screen limits (filesOf others) = planOf screen limits (filesOf entries) := by
    rw [planOf, planOf, hsame]
  simp only [read, hdata, hother]
  refine ⟨by rw [select, select, hplan], fun hread => ⟨fun pace => ?_, fun source => ?_⟩⟩
  · have hcontent : ∀ e ∈ byName (filesOf entries), ∃ data, e.content = .ok data := fun e he =>
      hread e (mem_of_mem_filter ((mem_byName_iff hfiles).1 he))
    rw [select_eq_bind hcontent, select_eq_bind (hsame ▸ hcontent), hplan]
  · exact select_eq_ok_iff_selects hfiles fun e he => hread e (mem_of_mem_filter he)

/-- The layout of a screen. -/
def layoutFile : String × ByteArray := ("p/Screen1.scm", "l".toUTF8)

/-- A media file. -/
def mediaFile : String × ByteArray := ("assets/a", "m".toUTF8)

/-- An archive with its media file in front is read as one with its layout in front. -/
theorem media_in_front_reads_alike :
    read (Archive.write [mediaFile, layoutFile]) "Screen1" {}
        = read (Archive.write [layoutFile, mediaFile]) "Screen1" {}
    ∧ read (Archive.write [layoutFile, mediaFile]) "Screen1" {}
        = .ok ⟨"Screen1", "l", "", [⟨"a", "m".toUTF8⟩]⟩ := by
  have hdata : Unpacker.standard.entries (Archive.write [layoutFile, mediaFile])
      = .ok [⟨"p/Screen1.scm", 1, .ok "l".toUTF8⟩, ⟨"assets/a", 1, .ok "m".toUTF8⟩] := by
    decide +kernel
  have hother : Unpacker.standard.entries (Archive.write [mediaFile, layoutFile])
      = .ok [⟨"assets/a", 1, .ok "m".toUTF8⟩, ⟨"p/Screen1.scm", 1, .ok "l".toUTF8⟩] := by
    decide +kernel
  obtain ⟨hsame, hread⟩ := archive_order_irrelevant hdata hother (.swap _ _ _) (by decide)
    "Screen1" {}
  refine ⟨hsame, ((hread (by simp)).2 _).2 ⟨rfl, ?_, .inr ⟨by decide, rfl⟩, by decide, by simp, fun a => ?_⟩⟩
  · refine ⟨_, ⟨mem_cons_self, by decide, ?_⟩, by decide, _, rfl, by decide +kernel⟩
    intro f hf hfile
    obtain rfl | hf := mem_cons.1 (mem_of_mem_filter hf)
    · exact String.le_refl _
    · obtain rfl := mem_singleton.1 hf
      exact absurd hfile (by decide)
  · obtain ⟨name, content⟩ := a
    rw [mem_singleton, Asset.mk.injEq]
    constructor
    · rintro ⟨rfl, rfl⟩
      exact ⟨_, mem_cons_of_mem _ mem_cons_self, rfl, rfl⟩
    · rintro ⟨e, he, hname, hcontent⟩
      have hchars := congrArg String.toList hname
      rw [String.toList_append] at hchars
      obtain rfl | he := mem_cons.1 (mem_of_mem_filter he)
      · cases hchars
      · obtain rfl := mem_singleton.1 he
        have hname : "assets/".toList ++ "a".toList = "assets/".toList ++ name.toList := hchars
        exact ⟨String.toList_inj.1 (append_cancel_left hname).symm,
          (Except.ok.inj hcontent).symm⟩

end Project
end ScreenForge
