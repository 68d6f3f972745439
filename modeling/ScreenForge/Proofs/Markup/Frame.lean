/-
# Elements from tags

The values of a tag's attributes are read, and its names are put into their namespaces.

| in the tag | in the element |
| --- | --- |
| a plain name of the tag | the same name, if there is no default namespace |
| `xmlns:a="uri"` | nothing; `a` stands for the namespace from here on |
| `a:name="value"` | the value under `{uri}name` |
-/
import Mathlib.Data.List.TakeDrop
import Mathlib.Data.List.TakeWhile
import ScreenForge.Proofs.Collect
import ScreenForge.Proofs.Markup.Tag

namespace ScreenForge
namespace Markup

open List

variable {name shorthand own : String} {scope : Scope} {attributes : List (String × String)}

/-! ### Values -/

/-- Whether all values of attributes are made of legal characters. -/
def allLegal (attributes : List (String × String)) : Bool :=
  attributes.all fun a => a.2.toList.all isLegal

theorem allLegal_append (attributes others : List (String × String)) :
    allLegal (attributes ++ others) = (allLegal attributes && allLegal others) :=
  all_append

/-- A written value is read if it is legal. -/
theorem valueOf?_quoted (entities : Entities) (value : List Char) :
    valueOf? entities true (quoted value) = if value.all isLegal then some value else none := by
  rw [valueOf?, attributeValue?_quoted]
  by_cases h : value.all isLegal = true
  · rw [if_pos h]
    rfl
  · rw [if_neg h]
    rfl

/-- The values of a tag are read if all are legal. -/
theorem mapM_values (entities : Entities) (attributes : List (String × String)) :
    (given attributes).mapM (fun g : String × List Char =>
        (valueOf? entities true g.2).map fun v => (g.1, String.ofList v))
      = if allLegal attributes then some attributes else none := by
  induction attributes with
  | nil => rfl
  | cons a attributes ih =>
    have hsplit : allLegal (a :: attributes) = (a.2.toList.all isLegal && allLegal attributes) :=
      all_cons
    rw [given, map_cons, mapM_cons, valueOf?_quoted, ← given, ih, hsplit]
    by_cases ha : a.2.toList.all isLegal = true
    · by_cases hrest : allLegal attributes = true
      · simp [ha, hrest]
      · simp [hrest]
    · simp [ha]

/-- **The values of a tag are read if they are legal.**  Without a document type nothing is
added. -/
theorem attributeValues?_given (tag : String) (attributes : List (String × String)) :
    attributeValues? {} tag (given attributes)
      = if allLegal attributes then some attributes else none := by
  have hread := mapM_values {} attributes
  unfold attributeValues?
  simp only [filter_nil, List.find?_nil, Option.all_none, filterMap_nil, hread]
  split
  · simp
  · rfl

/-! ### Names -/

theorem isPlainName_not_mem_colon {name : List Char} (h : isPlainName name) : ':' ∉ name := by
  intro hmem
  exact absurd (isNameChar_of_isPlainName h ':' hmem) (by decide)

theorem splitName_of_plain (h : isPlainName name.toList) : splitName name = ("", name) := by
  have hall : ∀ c ∈ name.toList, (c != ':') := by
    intro c hc
    rw [bne_iff_ne]
    rintro rfl
    exact isPlainName_not_mem_colon h hc
  rw [splitName, span_eq_takeWhile_dropWhile]
  rw [dropWhile_eq_nil_iff.2 hall]

/-- A name with a shorthand is split behind it. -/
theorem HasShorthand.splitName (h : HasShorthand name shorthand own) :
    splitName name = (shorthand, own) := by
  have hall : ∀ c ∈ shorthand.toList, (c != ':') := by
    intro c hc
    rw [bne_iff_ne]
    rintro rfl
    exact isPlainName_not_mem_colon h.isPlainShorthand hc
  have htake : (shorthand.toList ++ ':' :: own.toList).takeWhile (· != ':') = shorthand.toList := by
    rw [takeWhile_append_of_pos hall]
    simp
  have hdrop : (shorthand.toList ++ ':' :: own.toList).dropWhile (· != ':')
      = ':' :: own.toList := by
    rw [dropWhile_append_of_pos hall]
    simp
  rw [Markup.splitName, span_eq_takeWhile_dropWhile, h.toList_eq, htake, hdrop]
  simp

theorem HasShorthand.ne_empty (h : HasShorthand name shorthand own) : shorthand ≠ "" := by
  rintro rfl
  exact absurd h.isPlainShorthand Bool.false_ne_true

theorem HasShorthand.declared? (h : HasShorthand name shorthand own) (hne : shorthand ≠ "xmlns") :
    declared? name = none := by
  have hname : name ≠ "xmlns" := by
    rintro rfl
    have hcolon : ':' ∈ "xmlns".toList := by
      rw [h.toList_eq]
      simp
    exact absurd hcolon (by decide)
  rw [Markup.declared?, if_neg hname, h.splitName]
  split
  · next heq => exact absurd (Prod.mk.inj heq).1 hne
  · rfl

/-- A name with a shorthand is one in the namespace that it stands for. -/
theorem HasShorthand.attributeName? (h : HasShorthand name shorthand own) (scope : Scope) :
    attributeName? scope name = (scope.lookup shorthand).map fun uri => inNamespace uri own := by
  rw [Markup.attributeName?, h.splitName]
  split
  · next heq => exact absurd (Prod.mk.inj heq).1 h.ne_empty
  · next heq =>
    obtain ⟨rfl, rfl⟩ := Prod.mk.inj heq
    rfl

theorem elementName?_of_plain (h : isPlainName name.toList)
    (hscope : scope.lookup "" = none) : elementName? scope name = some name := by
  rw [elementName?, splitName_of_plain h]
  simp [hscope, inNamespace]

theorem distinct_iff {names : List String} : distinct names ↔ names.Nodup := by
  induction names with
  | nil => simp [distinct]
  | cons n names ih => simp [distinct, ih]

/-! ### The element of a tag -/

/-- The full name of an attribute in a scope. -/
def fullName (scope : Scope) (name : String) : String := (attributeName? scope name).getD name

/-- Attributes under their full names. -/
def named (scope : Scope) (attributes : List (String × String)) : List (String × String) :=
  attributes.map fun a => (fullName scope a.1, a.2)

/-- A name whose shorthand stands for a namespace in a scope. -/
def InScope (scope : Scope) (name : String) : Prop :=
  ∃ shorthand own, HasShorthand name shorthand own ∧ shorthand ≠ "xmlns" ∧
    (scope.lookup shorthand).isSome = true

theorem InScope.isQualified (h : InScope scope name) : IsQualified name := by
  obtain ⟨shorthand, own, hname, -⟩ := h
  exact ⟨shorthand, own, hname⟩

theorem InScope.declared? (h : InScope scope name) : declared? name = none := by
  obtain ⟨shorthand, own, hname, hne, -⟩ := h
  exact hname.declared? hne

/-- A name in scope is read as its full name. -/
theorem InScope.attributeName? (h : InScope scope name) :
    attributeName? scope name = some (fullName scope name) := by
  obtain ⟨shorthand, own, hname, -, hsome⟩ := h
  obtain ⟨uri, huri⟩ := Option.isSome_iff_exists.1 hsome
  rw [fullName, hname.attributeName?, huri]
  rfl

/-- A tag that declares nothing leaves the scope as it is. -/
theorem scopeIn?_own (h : ∀ a ∈ attributes, declared? a.1 = none) :
    scopeIn? scope attributes = some scope := by
  induction attributes with
  | nil => rfl
  | cons a attributes ih =>
    obtain ⟨ha, hrest⟩ := forall_mem_cons.1 h
    rw [scopeIn?, foldlM_cons, ha]
    exact ih hrest

/-- Attributes in scope are read under their full names. -/
theorem mapM_names (h : ∀ a ∈ attributes, InScope scope a.1) :
    attributes.mapM (fun a => (attributeName? scope a.1).map fun n => (n, a.2))
      = some (named scope attributes) := by
  rw [mapM_eq_some_iff, named, map_map]
  exact map_congr_left fun a ha => by rw [(h a ha).attributeName?]; rfl

/-- What a tag has to keep so that it is the tag of an element: a plain name, then attributes that
declare the namespaces of a scope, then attributes in that scope, all names distinct. -/
structure WellNamed (outer scope : Scope) (tag : String)
    (declarations attributes : List (String × String)) : Prop where
  tag : isPlainName tag.toList = true
  declares : scopeIn? outer declarations = some scope
  declared : ∀ a ∈ declarations, IsQualified a.1 ∧ (declared? a.1).isNone = false
  legal : allLegal declarations = true
  noDefault : scope.lookup "" = none
  inScope : ∀ a ∈ attributes, InScope scope a.1
  nodup : (Assoc.keys (declarations ++ attributes)).Nodup
  nodupFull : (Assoc.keys (named scope attributes)).Nodup

theorem guard_bind {α : Type} {p : Prop} [Decidable p] (hp : p) (f : Unit → Option α) :
    Option.bind (guard p) f = f () := by
  delta guard
  rw [if_pos hp]
  rfl

/-- **A tag is that of an element exactly if its values are legal.** -/
theorem WellNamed.ofTag? {outer : Scope} {tag : String} {declarations : List (String × String)}
    (h : WellNamed outer scope tag declarations attributes) :
    Frame.ofTag? {} outer tag (given (declarations ++ attributes))
      = if allLegal attributes
        then some { tag, name := tag, attributes := named scope attributes, scope } else none := by
  have hkeys : distinct (Assoc.keys (given (declarations ++ attributes))) := by
    have heq : Assoc.keys (given (declarations ++ attributes))
        = Assoc.keys (declarations ++ attributes) := by
      rw [Assoc.keys, given, map_map]
      rfl
    rw [heq, distinct_iff]
    exact h.nodup
  have hvalues := attributeValues?_given tag (declarations ++ attributes)
  rw [allLegal_append, h.legal, Bool.true_and] at hvalues
  have hscope : scopeIn? outer (declarations ++ attributes) = some scope := by
    rw [scopeIn?, foldlM_append, ← scopeIn?, h.declares]
    exact scopeIn?_own fun a ha => (h.inScope a ha).declared?
  have hfilter : (declarations ++ attributes).filter (fun a => (declared? a.1).isNone)
      = attributes := by
    rw [filter_append, filter_eq_nil_iff.2, nil_append, filter_eq_self]
    · exact fun a ha => by rw [(h.inScope a ha).declared?]; rfl
    · exact fun a ha => by simp [(h.declared a ha).2]
  unfold Frame.ofTag?
  rw [Option.bind_eq_bind, guard_bind hkeys, hvalues]
  by_cases hlegal : allLegal attributes = true
  · rw [if_pos hlegal, if_pos hlegal, Option.bind_eq_bind, Option.bind_some, hscope,
      Option.bind_eq_bind, Option.bind_some, elementName?_of_plain h.tag h.noDefault,
      Option.bind_some, hfilter, mapM_names h.inScope, Option.bind_some,
      guard_bind (distinct_iff.2 h.nodupFull)]
    rfl
  · rw [if_neg hlegal, if_neg hlegal]
    rfl

end Markup
end ScreenForge
