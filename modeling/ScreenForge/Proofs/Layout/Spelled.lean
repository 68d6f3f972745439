/-
# The names in a layout

A layout names attributes in two namespaces, which its root declares (`layoutScope`).  A reader puts
the namespace in place of the shorthand: `android:text` is read as
`{http://schemas.android.com/apk/res/android}text`.  This is `resolved`, said without the reader.
-/
import ScreenForge.Proofs.Layout.Document

namespace ScreenForge

open List

namespace Markup

theorem need?_eq_some_iff {text s left : List Char} :
    need? text s = some left ↔ s = text ++ left := by
  induction text generalizing s with
  | nil => simp [need?, eq_comm]
  | cons c text ih =>
    cases s with
    | nil => simp [need?]
    | cons d s =>
      rw [need?, cons_append, List.cons.injEq]
      by_cases h : c = d
      · rw [if_pos h, ih, eq_comm (a := d)]
        simp [h]
      · simp [h, Ne.symm h]

end Markup

namespace Layout

open Markup (HasShorthand InScope WellNamed allLegal isPlainName named fullName)

variable {name : String} {opened : Opening}

/-! ### Names -/

/-- What stands for the namespaces of a layout inside it. -/
def layoutScope : Markup.Scope := [
  ("tools", "http://schemas.android.com/tools"),
  ("android", "http://schemas.android.com/apk/res/android"),
  ("xml", Markup.xmlNamespace)
]

/-- What stands behind the shorthand of a name in one of the two namespaces. -/
def ownPart? (name : String) : Option (List Char) :=
  (Markup.need? "android:".toList name.toList).or (Markup.need? "tools:".toList name.toList)

/-- Whether a name is a plain one in one of the two namespaces. -/
def isLayoutName (name : String) : Bool := (ownPart? name).any isPlainName

/-- The beginning of the names in a namespace. -/
def spaceMark (uri : String) : String := "\x7b" ++ uri ++ "\x7d"

/-- The namespace of the attributes that an element has on a device. -/
def androidMark : String := spaceMark "http://schemas.android.com/apk/res/android"

/-- The namespace of the attributes that only tools look at. -/
def toolsMark : String := spaceMark "http://schemas.android.com/tools"

/-- **A name with its namespace in place of the shorthand.** -/
def resolved (name : String) : String :=
  match Markup.need? "android:".toList name.toList, Markup.need? "tools:".toList name.toList with
  | some own, _ => androidMark ++ String.ofList own
  | none, some own => toolsMark ++ String.ofList own
  | none, none => name

example : resolved "android:id" = "\x7bhttp://schemas.android.com/apk/res/android\x7did" := by
  decide

/-- The namespaces of attributes, with their shorthands. -/
def spaces : Markup.Scope := layoutScope.take 2

/-- **A name is resolved by what its shorthand stands for.** -/
theorem exists_space (h : isLayoutName name) : ∃ space ∈ spaces, ∃ own,
    HasShorthand name space.1 own ∧ resolved name = spaceMark space.2 ++ own := by
  rw [isLayoutName, Option.any_eq_true] at h
  obtain ⟨own, hown, hplain⟩ := h
  have hname : ∀ shorthand : String, isPlainName shorthand.toList →
      name.toList = shorthand.toList ++ ':' :: own →
      HasShorthand name shorthand (String.ofList own) := by
    intro shorthand hshorthand heq
    refine ⟨hshorthand, by rwa [String.toList_ofList], ?_⟩
    rw [← String.toList_inj, heq]
    simp
  rcases Option.or_eq_some_iff.1 hown with hneed | ⟨hother, hneed⟩
  · refine ⟨("android", _), mem_cons_of_mem _ mem_cons_self, _,
      hname "android" (by decide) (by rw [Markup.need?_eq_some_iff.1 hneed]; rfl), ?_⟩
    simp only [resolved, hneed, androidMark]
  · refine ⟨("tools", _), mem_cons_self, _,
      hname "tools" (by decide) (by rw [Markup.need?_eq_some_iff.1 hneed]; rfl), ?_⟩
    simp only [resolved, hother, hneed, toolsMark]

theorem of_mem_spaces : ∀ space ∈ spaces, layoutScope.lookup space.1 = some space.2
    ∧ space.1 ≠ "xmlns" ∧ space.2 ≠ "" := by decide

/-- The names of a layout are in scope. -/
theorem inScope_of_isLayoutName (h : isLayoutName name) : InScope layoutScope name := by
  obtain ⟨space, hspace, own, hname, -⟩ := exists_space h
  obtain ⟨hlookup, hne, -⟩ := of_mem_spaces space hspace
  exact ⟨space.1, own, hname, hne, by rw [hlookup]; rfl⟩

/-- **The full name that a reader gives a name is the resolved one.** -/
theorem fullName_eq (h : isLayoutName name) : fullName layoutScope name = resolved name := by
  obtain ⟨space, hspace, own, hname, hresolved⟩ := exists_space h
  obtain ⟨hlookup, -, hne⟩ := of_mem_spaces space hspace
  rw [hresolved, fullName, hname.attributeName?, hlookup, Option.map_some, Option.getD_some,
    Markup.inNamespace, if_neg hne]
  rfl

/-- The two namespaces differ early enough. -/
theorem eq_of_take_spaceMark : ∀ space ∈ spaces, ∀ other ∈ spaces,
    30 ≤ (spaceMark space.2).toList.length ∧ ((spaceMark space.2).toList.take 30
      = (spaceMark other.2).toList.take 30 → space = other) := by decide

/-- **Names in the two namespaces stay apart when they are resolved.** -/
theorem resolved_inj {name' : String} (h : isLayoutName name)
    (h' : isLayoutName name') (heq : resolved name = resolved name') : name = name' := by
  obtain ⟨space, hspace, own, hname, hresolved⟩ := exists_space h
  obtain ⟨other, hother, own', hname', hresolved'⟩ := exists_space h'
  rw [hresolved, hresolved'] at heq
  obtain ⟨hlong, hsame⟩ := eq_of_take_spaceMark space hspace other hother
  have htake := congrArg (fun s => s.toList.take 30) heq
  simp only [String.toList_append] at htake
  rw [take_append_of_le_length hlong,
    take_append_of_le_length (eq_of_take_spaceMark other hother space hspace).1] at htake
  obtain rfl := hsame htake
  rw [hname.eq, hname'.eq, (String.append_right_inj _).1 heq]

/-- Attributes under their resolved names. -/
def resolvedAll (attributes : List (String × String)) : List (String × String) :=
  attributes.map fun a => (resolved a.1, a.2)

theorem named_eq {attributes : List (String × String)}
    (h : ∀ a ∈ attributes, isLayoutName a.1) :
    named layoutScope attributes = resolvedAll attributes :=
  map_congr_left fun a ha => by rw [fullName_eq (h a ha)]

/-! ### Tags -/

/-- A tag with a plain name and with attributes of the two namespaces, each with a name of its
own. -/
structure Spelled (opened : Opening) : Prop where
  tag : isPlainName opened.1.toList = true
  names : ∀ a ∈ opened.2, isLayoutName a.1 = true
  nodup : (Assoc.keys opened.2).Nodup

/-- Distinct names stay distinct when they are resolved. -/
theorem Spelled.nodup_resolved (h : Spelled opened) :
    (Assoc.keys (resolvedAll opened.2)).Nodup := by
  have hkeys : Assoc.keys (resolvedAll opened.2) = (Assoc.keys opened.2).map resolved := by
    rw [Assoc.keys, Assoc.keys, resolvedAll, map_map, map_map]
    rfl
  have hnames : ∀ name ∈ Assoc.keys opened.2, isLayoutName name :=
    forall_mem_map.2 h.names
  rw [hkeys, List.Nodup, pairwise_map]
  exact h.nodup.imp_of_mem fun hx hy hne heq => hne (resolved_inj (hnames _ hx) (hnames _ hy) heq)

/-- The frame of a tag. -/
def frameOf (opened : Opening) : Markup.Frame :=
  { tag := opened.1, name := opened.1, attributes := resolvedAll opened.2, scope := layoutScope }

/-- **A spelled tag, behind declarations that give the scope of a layout, is that of an element if
its values are legal.** -/
theorem Spelled.ofTag? (h : Spelled opened) (outer : Markup.Scope)
    (declarations : List (String × String))
    (hdeclares : Markup.scopeIn? outer declarations = some layoutScope)
    (hdeclared : ∀ a ∈ declarations, Markup.IsQualified a.1 ∧ (Markup.declared? a.1).isNone = false)
    (hlegal : allLegal declarations) (hnodup : (Assoc.keys declarations).Nodup) :
    Markup.Frame.ofTag? {} outer opened.1 (Markup.given (declarations ++ opened.2))
      = if allLegal opened.2 then some (frameOf opened) else none := by
  have hdistinct : (Assoc.keys (declarations ++ opened.2)).Nodup := by
    rw [Assoc.keys, map_append, nodup_append]
    refine ⟨hnodup, h.nodup, ?_⟩
    intro name hname other hother hsame
    obtain ⟨a, ha, rfl⟩ := mem_map.1 hname
    obtain ⟨b, hb, rfl⟩ := mem_map.1 hother
    have hnone := (inScope_of_isLayoutName (h.names b hb)).declared?
    rw [← hsame] at hnone
    have hsome := (hdeclared a ha).2
    rw [hnone] at hsome
    exact absurd hsome.symm Bool.false_ne_true
  have hwell : WellNamed outer layoutScope opened.1 declarations opened.2 :=
    ⟨h.tag, hdeclares, hdeclared, hlegal, rfl,
      fun a ha => inScope_of_isLayoutName (h.names a ha), hdistinct,
      by rw [named_eq h.names]; exact h.nodup_resolved⟩
  have htag := hwell.ofTag?
  rwa [named_eq h.names] at htag

theorem isDeclared_of_mem_namespaces {a : String × String} (h : a ∈ namespaces) :
    Markup.IsQualified a.1 ∧ (Markup.declared? a.1).isNone = false := by
  simp only [namespaces, mem_cons, not_mem_nil, or_false] at h
  rcases h with rfl | rfl
  · exact ⟨⟨"xmlns", "android", by decide, by decide, by decide⟩, by decide⟩
  · exact ⟨⟨"xmlns", "tools", by decide, by decide, by decide⟩, by decide⟩

end Layout
end ScreenForge
