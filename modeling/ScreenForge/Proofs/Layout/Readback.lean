/-
# A layout is read back

The elements of a layout are built one tag at a time.  A tag that opens an element puts a frame
around what follows, and its end tag adds the element to the frame outside.  So marks whose elements
are known add them to whatever frame they stand in (`Builds`).  What a rule names decides whether
tags are spelled right (`wellNamed`), and the rest is legal if the values of properties are.
-/
import ScreenForge.Proofs.Component.Legal
import ScreenForge.Proofs.Layout.Hoisting
import ScreenForge.Proofs.Layout.Spelled

namespace ScreenForge

open List

/-! ### Building elements -/

namespace Markup

/-- A frame with elements added in order. -/
def Frame.addAll (f : Frame) (elements : List Element) : Frame :=
  { f with children := elements.reverse ++ f.children }

theorem Frame.addAll_singleton (f : Frame) (e : Element) : f.addAll [e] = f.addChild e := rfl

theorem Frame.addAll_append (f : Frame) (elements others : List Element) :
    (f.addAll elements).addAll others = f.addAll (elements ++ others) := by
  simp [addAll]

theorem Frame.addText_addChild (f : Frame) (e : Element) (s : List Char) :
    (f.addChild e).addText s = f.addChild e := rfl

mutual

/-- The elements of a tree at an address, each with its own, in the order in which they open. -/
def Element.places (place : Address) (e : Element) : List (Address × Element) :=
  match e with
  | ⟨name, attributes, text, children⟩ =>
    (place, ⟨name, attributes, text, children⟩) :: Element.placesAll place 0 children

/-- `places` over several trees inside an address, from a turn on. -/
def Element.placesAll (place : Address) (turn : Nat) : List Element → List (Address × Element)
  | [] => []
  | e :: rest => Element.places (place ++ [turn]) e ++ Element.placesAll place (turn + 1) rest

end

theorem Element.places_eq (place : Address) (e : Element) :
    e.places place = (place, e) :: placesAll place 0 e.children := by
  obtain ⟨name, attributes, text, children⟩ := e
  rw [places]

end Markup

namespace Layout

open Component (Node Rule Scalar Table)
open Journal (settle)
open Markup (Element Frame allLegal build? isLegalText isSpace)

variable {elements : List Element} {inside : List Mark} {opened : Opening} {view : View}
  {table : Table} (activity : String) {marks : List Mark}

/-- Whether the values in all tags of marks are legal. -/
def legalMarks (marks : List Mark) : Bool :=
  (marks.filterMap Mark.opened?).all fun opened => allLegal opened.2

theorem legalMarks_append (marks others : List Mark) :
    legalMarks (marks ++ others) = (legalMarks marks && legalMarks others) := by
  rw [legalMarks, filterMap_append, all_append]
  rfl

theorem legalMarks_enclose (depth : Nat) (opened : Opening) (inside : List Mark) :
    legalMarks (enclose depth opened inside) = (allLegal opened.2 && legalMarks inside) := by
  rw [legalMarks, opened_enclose, all_cons]
  rfl

/-- **Marks add elements to the frame they stand in**, whatever follows, if all values are legal. -/
def Builds (marks : List Mark) (elements : List Element) : Prop :=
  ∀ (f : Frame) (outer : List Frame) (others : List Mark), f.scope = layoutScope →
    build? {} f outer (tokensOf (marks ++ others))
      = if legalMarks marks then build? {} (f.addAll elements) outer (tokensOf others) else none

theorem Builds.nil : Builds [] [] := fun _ _ _ _ => rfl

/-- Marks behind each other add the elements of both. -/
theorem Builds.append {others : List Mark} {elements' : List Element} (h : Builds marks elements)
    (h' : Builds others elements') : Builds (marks ++ others) (elements ++ elements') := by
  intro f outer left hscope
  rw [append_assoc, h f outer _ hscope, h' (f.addAll elements) outer left hscope,
    Frame.addAll_append, legalMarks_append]
  cases legalMarks marks <;> rfl

/-- The blanks before the first element inside another one. -/
def innerText (inside : List Mark) : List Char := if inside.isEmpty then [] else gap inside

theorem gap_append (h : marks ≠ []) (others : List Mark) : gap (marks ++ others) = gap marks := by
  cases marks with
  | nil => exact absurd rfl h
  | cons mark rest => rfl

/-- The element of a tag around elements. -/
def elementOf (opened : Opening) (inside : List Mark) (elements : List Element) : Element :=
  ⟨opened.1, resolvedAll opened.2, String.ofList (innerText inside), elements⟩

theorem element_frameOf (opened : Opening) (hne : inside ≠ []) (elements : List Element) :
    (((frameOf opened).addText (gap inside)).addAll elements).element
      = elementOf opened inside elements := by
  have hisEmpty : inside.isEmpty = false := by simpa using hne
  simp [frameOf, Frame.addText, Frame.addAll, Frame.element, elementOf, innerText, hisEmpty]

/-- **An element around marks**, by whether there is something inside it. -/
theorem Builds.enclose (h : Builds inside elements) (hempty : inside = [] → elements = [])
    (hopened : Spelled opened) (depth : Nat) :
    Builds (enclose depth opened inside) [elementOf opened inside elements] := by
  intro f outer others hscope
  rw [legalMarks_enclose, Frame.addAll_singleton]
  have htag := hopened.ofTag? layoutScope [] rfl (forall_mem_nil _) rfl nodup_nil
  rw [nil_append] at htag
  unfold Layout.enclose
  split
  · next hnil =>
    have hinside := List.isEmpty_iff.1 hnil
    subst hinside
    rw [hempty rfl, singleton_append, tokensOf, Mark.token, build?, hscope, htag]
    cases allLegal opened.2 <;> rfl
  · next hne =>
    have hinside : inside ≠ [] := fun heq => hne (List.isEmpty_iff.2 heq)
    rw [cons_append, append_assoc, tokensOf, Mark.token, build?, hscope, htag]
    cases hlegal : allLegal opened.2 with
    | false => rfl
    | true =>
      have hbuild := h ((frameOf opened).addText (gap inside)) (f :: outer)
        ([.closes depth opened.1] ++ others) rfl
      have hclose : build? {} (((frameOf opened).addText (gap inside)).addAll elements) (f :: outer)
          (tokensOf ([.closes depth opened.1] ++ others))
            = build? {} (f.addChild (elementOf opened inside elements)) outer
              (tokensOf others) := by
        rw [singleton_append, tokensOf, Mark.token, build?, element_frameOf opened hinside,
          build?, Frame.addText_addChild]
        exact if_neg (by simp [frameOf, Frame.addText, Frame.addAll])
      rw [hclose] at hbuild
      rw [gap_append hinside]
      exact hbuild

/-- **A root element around marks.** -/
theorem Builds.root (h : Builds inside elements) (hempty : inside = [] → elements = [])
    (hopened : Spelled opened) :
    Markup.root? {} (tokensOf (Layout.enclose 0 (opened.1, namespaces ++ opened.2) inside))
      = if allLegal opened.2 && legalMarks inside then some (elementOf opened inside elements)
        else none := by
  have htag := hopened.ofTag? Markup.documentScope namespaces (by decide)
    (fun _ => isDeclared_of_mem_namespaces) (by decide) (by decide)
  unfold Layout.enclose
  split
  · next hnil =>
    have hinside := List.isEmpty_iff.1 hnil
    subst hinside
    rw [hempty rfl, tokensOf, Mark.token, Markup.root?, htag]
    cases allLegal opened.2 <;> rfl
  · next hne =>
    have hinside : inside ≠ [] := fun heq => hne (List.isEmpty_iff.2 heq)
    rw [tokensOf, Mark.token, Markup.root?, htag]
    cases hlegal : allLegal opened.2 with
    | false => rfl
    | true =>
      have hbuild := h ((frameOf opened).addText (gap inside)) [] [.closes 0 opened.1] rfl
      have hclose : build? {} (((frameOf opened).addText (gap inside)).addAll elements) []
          (tokensOf [.closes 0 opened.1]) = some (elementOf opened inside elements) := by
        rw [tokensOf, Mark.token, build?, element_frameOf opened hinside]
        exact if_neg (by simp [frameOf, Frame.addText, Frame.addAll])
      rw [hclose] at hbuild
      rw [gap_append hinside]
      exact hbuild

/-! ### The elements of views -/

mutual

/-- The element that the markup of a view is read as. -/
def View.shape (depth : Nat) (view : View) : Element :=
  match view with
  | ⟨type, name, id, rule, attributes, children⟩ =>
    elementOf (View.opened ⟨type, name, id, rule, attributes, children⟩)
      (View.marksAll (depth + 1) children) (View.shapes (depth + 1) children)

/-- The elements of several views. -/
def View.shapes (depth : Nat) : List View → List Element
  | [] => []
  | view :: rest => View.shape depth view :: View.shapes depth rest

end

theorem View.shape_eq (depth : Nat) (view : View) :
    view.shape depth
      = elementOf view.opened (marksAll (depth + 1) view.children)
        (shapes (depth + 1) view.children) := by
  obtain ⟨type, name, id, rule, attributes, children⟩ := view
  rw [shape]

/-- The tag of the view of a screen, without the namespaces that it declares. -/
def View.ownOpened (activity : String) (view : View) : Opening :=
  (view.rule.tag, idAttribute view.id :: view.attributes ++ [("tools:context", "." ++ activity)])

theorem View.screenMarks_eq (view : View) : view.screenMarks activity
      = enclose 0 ((view.ownOpened activity).1, namespaces ++ (view.ownOpened activity).2)
        (marksAll 1 view.children) := by
  rw [screenMarks, openedScreen, ownOpened, append_assoc]

/-- The root element that the markup of a screen is read as. -/
def View.shapeScreen (activity : String) (view : View) : Element :=
  elementOf (view.ownOpened activity) (marksAll 1 view.children) (shapes 1 view.children)

theorem View.shapes_eq_nil {views : List View} {depth depth' : Nat}
    (h : marksAll depth views = []) : shapes depth' views = [] := by
  rw [marksAll_eq_nil h, shapes]

theorem readable_enclose (htag : Markup.isPlainName opened.1.toList)
    (hattributes : ∀ a ∈ opened.2, Markup.IsQualified a.1) (h : ∀ mark ∈ inside, mark.Readable)
    (depth : Nat) : ∀ mark ∈ enclose depth opened inside, mark.Readable := by
  unfold enclose
  split
  · exact forall_mem_singleton.2 ⟨htag, hattributes⟩
  · rw [forall_mem_cons, forall_mem_append, forall_mem_singleton]
    exact ⟨⟨htag, hattributes⟩, h, htag, fun a ha => absurd ha not_mem_nil⟩

theorem Spelled.isQualified (h : Spelled opened) : ∀ a ∈ opened.2, Markup.IsQualified a.1 :=
  fun a ha => (inScope_of_isLayoutName (h.names a ha)).isQualified

/-- **The marks of views that are spelled right build their elements, and can be read.** -/
theorem builds_marksAll {views : List View} (h : ∀ view ∈ View.walkAll views, Spelled view.opened)
    (depth : Nat) : Builds (View.marksAll depth views) (View.shapes depth views) ∧
      ∀ mark ∈ View.marksAll depth views, mark.Readable := by
  induction views using View.inductAll generalizing depth with
  | nil =>
    rw [View.marksAll, View.shapes]
    exact ⟨.nil, forall_mem_nil _⟩
  | cons view rest inside others =>
    rw [View.walkAll, View.walk_eq, cons_append, forall_mem_cons, forall_mem_append] at h
    obtain ⟨hview, hinside, hothers⟩ := h
    obtain ⟨hbuilds, hreadable⟩ := inside hinside (depth + 1)
    rw [View.marksAll, View.shapes, View.marks_eq, View.shape_eq, forall_mem_append]
    exact ⟨(hbuilds.enclose View.shapes_eq_nil hview depth).append (others hothers depth).1,
      readable_enclose hview.tag hview.isQualified hreadable depth, (others hothers depth).2⟩

/-- What the tags of a layout have to keep so that a reader gives its tree back. -/
structure View.IsSpelled (activity : String) (view : View) : Prop where
  screen : Spelled (view.ownOpened activity)
  inside : ∀ inner ∈ walkAll view.children, Spelled inner.opened

theorem View.IsSpelled.readable {activity : String} (h : view.IsSpelled activity) :
    ∀ mark ∈ view.screenMarks activity, mark.Readable := by
  have hqualified : ∀ a ∈ namespaces ++ (view.ownOpened activity).2, Markup.IsQualified a.1 :=
    forall_mem_append.2
      ⟨fun _ ha => (isDeclared_of_mem_namespaces ha).1, h.screen.isQualified⟩
  rw [screenMarks_eq]
  refine readable_enclose ?_ hqualified (builds_marksAll h.inside 1).2 0
  exact h.screen.tag

/-- The markup of views that are spelled right is cut into their tags. -/
theorem View.IsSpelled.content? {activity : String} (h : view.IsSpelled activity) :
    Markup.content? (view.render activity) = some ({}, tokensOf (view.screenMarks activity)) := by
  have hopening :
      ∃ mark rest, view.screenMarks activity = mark :: rest ∧ mark.isOpening := by
    rw [screenMarks]
    unfold enclose
    split
    · exact ⟨_, _, rfl, rfl⟩
    · exact ⟨_, _, rfl, rfl⟩
  obtain ⟨mark, rest, hmarks, hmark⟩ := hopening
  have hreadable := h.readable
  rw [hmarks] at hreadable
  rw [render_eq, hmarks]
  exact content?_markup hmark hreadable

/-- Whether the values in all tags of a layout are legal. -/
def View.isLegal (activity : String) (view : View) : Bool :=
  (view.elements activity).all fun opened => allLegal opened.2

theorem View.isLegal_eq (view : View) : view.isLegal activity
      = (allLegal (view.ownOpened activity).2 && legalMarks (marksAll 1 view.children)) := by
  have hall : view.isLegal activity = legalMarks (view.screenMarks activity) := rfl
  have hnamespaces : allLegal namespaces := by decide
  rw [hall, screenMarks_eq, legalMarks_enclose, Markup.allLegal_append, hnamespaces, Bool.true_and]

/-- **The markup of a layout is read as the tree of its views if all values are legal, and not at
all otherwise.** -/
theorem View.IsSpelled.read? {activity : String} (h : view.IsSpelled activity) :
    Markup.read? (view.render activity)
      = if view.isLegal activity then some (view.shapeScreen activity) else none := by
  rw [Markup.read?_eq, h.content?, screenMarks_eq, isLegal_eq]
  exact (builds_marksAll h.inside 1).1.root View.shapes_eq_nil h.screen

/-! ### What rules name -/

/-- **Whether a rule names its element and its attributes so that they can be read**: a plain tag, a
legal stem, and distinct attributes of the two namespaces that are neither the id nor the
activity. -/
def wellNamed (rule : Rule) : Bool :=
  Markup.isPlainName rule.tag.toList && isLegalText rule.idStem
    && (rule.attributeOf.map Prod.snd).all (fun name =>
      isLayoutName name && name != "android:id" && name != "tools:context")
    && Markup.distinct (rule.attributeOf.map Prod.snd)

theorem wellNamed_iff {rule : Rule} : wellNamed rule ↔
    Markup.isPlainName rule.tag.toList ∧ isLegalText rule.idStem ∧
      (∀ name ∈ rule.attributeOf.map Prod.snd,
        isLayoutName name ∧ name ≠ "android:id" ∧ name ≠ "tools:context") ∧
      (rule.attributeOf.map Prod.snd).Nodup := by
  simp only [wellNamed, Bool.and_eq_true, all_eq_true, bne_iff_ne, Markup.distinct_iff, and_assoc]

/-- The rules that come with the program name well. -/
theorem wellNamed_packaged : Table.packaged.all fun entry => wellNamed entry.2 := by
  decide +kernel

/-- The attributes of values are named by the rule, in its order. -/
theorem keys_sublist {rule : Rule} {values : List (String × Scalar)}
    {attributes : List (String × String)} (h : rule.attributes? values = some attributes) :
    (Assoc.keys attributes).Sublist (rule.attributeOf.map Prod.snd) := by
  have hmapped := mapM_id_eq_some_iff.1 h
  clear h
  generalize rule.attributeOf = entries at hmapped
  induction entries generalizing attributes with
  | nil =>
    rw [filterMap_nil, eq_comm, map_eq_nil_iff] at hmapped
    rw [hmapped]
    exact nil_sublist _
  | cons entry entries ih =>
    cases hentry : rule.mapped? values entry with
    | none =>
      rw [filterMap_cons_none hentry] at hmapped
      exact (ih hmapped).cons _
    | some written =>
      rw [filterMap_cons_some hentry, eq_comm, map_eq_cons_iff] at hmapped
      obtain ⟨a, rest, rfl, hwritten, hrest⟩ := hmapped
      obtain ⟨value, -, hvalue⟩ := Option.map_eq_some_iff.1 hentry
      rw [← hwritten] at hvalue
      obtain ⟨text, -, rfl⟩ := Option.map_eq_some_iff.1 hvalue
      exact (ih hrest.symm).cons_cons _

/-- What a view keeps from a rule that names well. -/
structure View.NamesWell (view : View) : Prop where
  rule : wellNamed view.rule = true
  names : (Assoc.keys view.attributes).Sublist (view.rule.attributeOf.map Prod.snd)
  number : ∃ k : Nat, view.id = view.rule.idStem ++ toString k

/-- **The views of a layout name well if the rules of the table do.** -/
theorem namesWell_of_mem_walk (h : ∀ entry ∈ table, wellNamed entry.2) {a : Allocator}
    {screen : Node} (hview : view ∈ (ofScreen table a screen).walk) : view.NamesWell := by
  obtain ⟨e, he, hrule, hattributes⟩ := exists_origin_of_mem_walk hview
  refine ⟨?_, ?_, ?_⟩
  · rw [hrule]
    exact forall_rule_emitted (P := fun rule => wellNamed rule = true) h (by decide) e he
  · rw [hrule, hattributes, attributesOf]
    cases hsome : e.1.attributes? (e.1.merged e.2.properties) with
    | none => exact nil_sublist _
    | some attributes => exact keys_sublist hsome
  · exact ofScreen_induct
      (P := fun _ _ views _ => ∀ v ∈ views, ∃ k : Nat, v.id = v.rule.idStem ++ toString k)
      (fun _ => forall_mem_nil _) (fun h => forall_mem_cons.2 ⟨⟨_, rfl⟩, h⟩)
      (fun h h' => forall_mem_append.2 ⟨h, h'⟩) table screen a view hview

theorem View.NamesWell.spelled (h : view.NamesWell) : Spelled view.opened ∧
    "tools:context" ∉ Assoc.keys view.opened.2 := by
  obtain ⟨htag, -, hnames, hnodup⟩ := wellNamed_iff.1 h.rule
  have hname : ∀ name ∈ Assoc.keys view.attributes,
      isLayoutName name ∧ name ≠ "android:id" ∧ name ≠ "tools:context" :=
    fun name hmem => hnames name (h.names.subset hmem)
  have hid : isLayoutName "android:id" := by decide
  refine ⟨⟨htag, forall_mem_cons.2 ⟨hid, fun a ha => ?_⟩, nodup_cons.2
    ⟨fun hmem => (hname _ hmem).2.1 rfl, hnodup.sublist h.names⟩⟩, ?_⟩
  · exact (hname a.1 (mem_map_of_mem ha)).1
  · show "tools:context" ∉ "android:id" :: Assoc.keys view.attributes
    rw [mem_cons, not_or]
    exact ⟨by decide, fun hmem => (hname _ hmem).2.2 rfl⟩

/-- **The layout of a table that names well is spelled right.** -/
theorem isSpelled_ofScreen (h : ∀ entry ∈ table, wellNamed entry.2) (a : Allocator)
    (activity : String) (screen : Node) : (ofScreen table a screen).IsSpelled activity := by
  have hwell : ∀ view ∈ (ofScreen table a screen).walk, view.NamesWell :=
    fun view => namesWell_of_mem_walk h
  generalize ofScreen table a screen = root at hwell
  rw [View.walk_eq, forall_mem_cons] at hwell
  obtain ⟨hroot, hinside⟩ := hwell
  obtain ⟨hspelled, hcontext⟩ := hroot.spelled
  refine ⟨⟨hspelled.tag, ?_, ?_⟩, fun view hview => (hinside view hview).spelled.1⟩
  · have hname : isLayoutName "tools:context" := by decide
    exact forall_mem_append.2 ⟨hspelled.names, forall_mem_singleton.2 hname⟩
  · have hkeys : Assoc.keys (root.ownOpened activity).2
        = Assoc.keys root.opened.2 ++ ["tools:context"] := map_append
    rw [hkeys, nodup_append]
    refine ⟨hspelled.nodup, by simp, fun name hname other hother heq => hcontext ?_⟩
    rw [mem_singleton] at hother
    rwa [← hother, ← heq]

/-! ### Which values are legal -/

/-- The id of a view is legal, so the values of its tag are if its attributes are. -/
theorem View.NamesWell.allLegal_opened (h : view.NamesWell) :
    allLegal view.opened.2 = allLegal view.attributes := by
  obtain ⟨-, hstem, -⟩ := wellNamed_iff.1 h.rule
  obtain ⟨k, hid⟩ := h.number
  have hvalue : isLegalText ("@+id/" ++ view.id) := by
    rw [Markup.isLegalText_append, hid, Markup.isLegalText_append, hstem,
      Markup.isLegalText_toString_nat]
    decide
  show (isLegalText ("@+id/" ++ view.id) && allLegal view.attributes) = _
  rw [hvalue, Bool.true_and]

/-- The root has the name of the activity besides. -/
theorem View.NamesWell.allLegal_openedScreen (h : view.NamesWell) (activity : String) :
    allLegal (view.openedScreen activity).2
      = (allLegal view.attributes && isLegalText activity) := by
  have hnamespaces : allLegal namespaces := by decide
  have hcontext : allLegal [("tools:context", "." ++ activity)]
      = isLegalText activity := by
    have hdot : isLegalText "." := by decide
    show (isLegalText ("." ++ activity) && true) = _
    rw [Markup.isLegalText_append, hdot, Bool.true_and, Bool.and_true]
  have hopened : allLegal (idAttribute view.id :: view.attributes) = allLegal view.attributes :=
    h.allLegal_opened
  rw [View.openedScreen, Markup.allLegal_append, Markup.allLegal_append, hnamespaces, hopened,
    hcontext, Bool.true_and]

/-- **The values of a layout are legal if the name of the activity is and what the properties of the
kept components are given as.** -/
theorem isLegal_ofScreen (h : ∀ entry ∈ table, wellNamed entry.2) (a : Allocator)
    (activity : String) (screen : Node) :
    (ofScreen table a screen).isLegal activity
      = (isLegalText activity && (staying table screen).all fun p =>
        allLegal (attributesOf (screenRule table p.2) p.2.properties)) := by
  have hwell : ∀ view ∈ (ofScreen table a screen).walk, view.NamesWell :=
    fun view => namesWell_of_mem_walk h
  have hall : ((ofScreen table a screen).walk.all fun view => allLegal view.attributes)
      = (staying table screen).all fun p =>
        allLegal (attributesOf (screenRule table p.2) p.2.properties) := by
    have horigin := congrArg (List.all · fun o => allLegal o.2.2.2) (map_origin_walk table a screen)
    rw [emitted_eq_map] at horigin
    simpa [all_map, Function.comp_def, View.origin, originOf] using horigin
  rw [← hall]
  generalize ofScreen table a screen = root at hwell
  rw [View.walk_eq] at hwell ⊢
  obtain ⟨hroot, hinside⟩ := forall_mem_cons.1 hwell
  have hrest : ((View.walkAll root.children).map View.opened).all (fun opened => allLegal opened.2)
      = (View.walkAll root.children).all fun view => allLegal view.attributes := by
    rw [all_map, Bool.eq_iff_iff, all_eq_true, all_eq_true]
    refine forall₂_congr fun view hview => ?_
    rw [Function.comp, (hinside view hview).allLegal_opened]
  rw [View.isLegal, elements_eq, all_cons, all_cons, hroot.allLegal_openedScreen, hrest,
    Bool.and_comm (allLegal root.attributes), Bool.and_assoc]

/-! ### The tree that is read -/

/-- The elements are those of the views, at the same places. -/
theorem View.map_places_shapes (views : List View) (depth : Nat) (place : Address) (turn : Nat) :
    (Element.placesAll place turn (shapes depth views)).map
        (fun p => (p.1, p.2.name, p.2.attributes))
      = (placesAll place turn views).map fun p =>
        (p.1, p.2.opened.1, resolvedAll p.2.opened.2) := by
  induction views using View.inductAll generalizing depth place turn with
  | nil => simp [shapes, placesAll, Element.placesAll]
  | cons view rest inside others =>
    rw [shapes, placesAll, Element.placesAll, places_eq, Element.places_eq, shape_eq,
      map_append, map_append, others]
    exact congrArg (fun found => (_ :: found) ++ _) (inside ..)

theorem all_isSpace_elementOf (opened : Opening) (inside : List Mark) (elements : List Element) :
    (elementOf opened inside elements).text.toList.all isSpace := by
  rw [elementOf, String.toList_ofList]
  unfold innerText
  split
  · rfl
  · exact all_isSpace_gap inside

theorem View.blank_shapes (views : List View) (depth : Nat) (place : Address) (turn : Nat) :
    ∀ p ∈ Element.placesAll place turn (shapes depth views),
      p.2.text.toList.all isSpace := by
  induction views using View.inductAll generalizing depth place turn with
  | nil => simp [shapes, Element.placesAll]
  | cons view rest inside others =>
    rw [shapes, Element.placesAll, Element.places_eq, forall_mem_append, forall_mem_cons, shape_eq]
    exact ⟨⟨all_isSpace_elementOf _ _ _, inside _ _ _⟩, others _ _ _⟩

/-- What is read of the element of a component with an id: the tag, and the attributes. -/
def readElement (table : Table) (p : Address × Node) (id : String) : Opening :=
  ((screenRule table p.2).tag, (androidMark ++ "id", "@+id/" ++ id)
    :: resolvedAll (attributesOf (screenRule table p.2) p.2.properties))

/-- The root element names the activity besides. -/
def withActivity (activity : String) (reading : Opening) : Opening :=
  (reading.1, reading.2 ++ [(toolsMark ++ "context", "." ++ activity)])

theorem View.map_places_shapeScreen (view : View) :
    ((view.shapeScreen activity).places [0]).map (fun p => (p.1, p.2.name, p.2.attributes))
      = ([0], withActivity activity (view.opened.1, resolvedAll view.opened.2))
        :: (placesAll [0] 0 view.children).map fun p =>
          (p.1, p.2.opened.1, resolvedAll p.2.opened.2) := by
  have hcontext : resolved "tools:context" = toolsMark ++ "context" := by decide
  rw [Element.places_eq, map_cons]
  refine congrArg₂ List.cons ?_ (map_places_shapes ..)
  rw [shapeScreen, elementOf, withActivity, ownOpened, resolvedAll, map_append, ← hcontext]
  rfl

/-- The elements that are read stand where those of the markup do. -/
theorem View.places_shapeScreen (view : View) :
    ((view.shapeScreen activity).places [0]).map Prod.fst
      = (view.elementPlaces activity).map Prod.fst := by
  have hmap := congrArg (List.map Prod.fst) (view.map_places_shapeScreen activity)
  rw [map_map, map_cons, map_map] at hmap
  rw [elementPlaces_eq, map_cons, map_map]
  exact hmap

/-- **The elements that are read are the kept components, in the order of the walk.** -/
theorem readings_shapeScreen (table : Table) (a : Allocator) (activity : String) (screen : Node) :
    (((ofScreen table a screen).shapeScreen activity).places [0]).map
        (fun p => (p.2.name, p.2.attributes))
      = (List.zipWith (readElement table) (staying table screen)
          ((ofScreen table a screen).walk.map View.id)).modifyHead (withActivity activity) := by
  have hread : readElement table = fun p id => ((screenRule table p.2).tag,
      resolvedAll (idAttribute id :: attributesOf (screenRule table p.2) p.2.properties)) := by
    have hid : resolved "android:id" = androidMark ++ "id" := by decide
    funext p id
    rw [readElement, ← hid]
    rfl
  have hzip : List.zipWith (readElement table) (staying table screen)
      ((ofScreen table a screen).walk.map View.id)
        = (ofScreen table a screen).walk.map fun v => (v.opened.1, resolvedAll v.opened.2) := by
    rw [hread]
    exact (map_walk_eq table a screen fun origin id =>
      ((origin.1.tag, resolvedAll (idAttribute id :: origin.2.2.2)) : Opening)).symm
  have hmap := congrArg (List.map Prod.snd)
    ((ofScreen table a screen).map_places_shapeScreen activity)
  rw [map_map, map_cons, map_map] at hmap
  rw [hzip, View.walk_eq, map_cons, modifyHead_cons, ← View.map_snd_placesAll _ [0] 0, map_map]
  exact hmap

theorem all_isSpace_shapeScreen (view : View) :
    ∀ p ∈ (view.shapeScreen activity).places [0], p.2.text.toList.all isSpace := by
  rw [Element.places_eq, forall_mem_cons]
  exact ⟨all_isSpace_elementOf _ _ _, View.blank_shapes _ _ _ _⟩

/-- Whether a token is a tag or blank. -/
def isTagOrBlank : Markup.Token → Bool
  | .opening _ _ _ => true
  | .closing _ => true
  | .text s => s.all isSpace
  | _ => false

theorem isTagOrBlank_of_mem {t : Markup.Token} (h : t ∈ tokensOf marks) : isTagOrBlank t := by
  rcases mem_tokensOf h with ⟨mark, -, rfl⟩ | ⟨blank, rfl, hblank⟩
  · cases mark <;> rfl
  · exact hblank

/-- **The markup reads back as the tree that was meant.**

If all values that properties are given as are legal, the markup is there, and a reader finds one
root element in it.  The elements read are the kept components in the order of the walk, and stand
to each other as these do; each has the tag of the rule, the id, and the attributes that the rule
gives the properties, values and all, and the root names the activity besides.  Apart from tags
there are only blanks. -/
theorem markup_reads_back {table : Table} {activity : String} {screen : Node}
    (hrules : ∀ entry ∈ table, wellNamed entry.2 = true)
    (hactivity : isLegalText activity = true)
    (hvalues : ∀ p ∈ staying table screen, ((screenRule table p.2).attributes?
      ((screenRule table p.2).merged p.2.properties)).any allLegal = true) (a : Allocator) :
    let view := ofScreen table a screen
    let ids := view.walk.map View.id
    (∃ report, settle .unlimited (placingScreen table screen) = .ok report) ∧
    ids.length = (staying table screen).length ∧
    (∀ p ∈ staying table screen, (screenRule table p.2).attributes?
      ((screenRule table p.2).merged p.2.properties)
        = some (attributesOf (screenRule table p.2) p.2.properties)) ∧
    ∃ root tokens, Markup.read? (view.render activity) = some root ∧
      (root.places [0]).map (fun p => (p.2.name, p.2.attributes))
        = (List.zipWith (readElement table) (staying table screen) ids).modifyHead
          (withActivity activity) ∧
      (((root.places [0]).map Prod.fst).zip ((staying table screen).map Prod.fst)).Pairwise
        Address.Matches ∧
      (∀ p ∈ root.places [0], p.2.text.toList.all isSpace = true) ∧
      Markup.content? (view.render activity) = some ({}, tokens) ∧
      ∀ t ∈ tokens, isTagOrBlank t = true := by
  intro view ids
  have hspelled : view.IsSpelled activity := isSpelled_ofScreen hrules a activity screen
  have hattributes : ∀ p ∈ staying table screen, (screenRule table p.2).attributes?
      ((screenRule table p.2).merged p.2.properties)
        = some (attributesOf (screenRule table p.2) p.2.properties) := by
    intro p hp
    obtain ⟨attributes, hsome, -⟩ := (Option.any_eq_true _ _).1 (hvalues p hp)
    rw [attributesOf, hsome, Option.getD_some]
  have hlegal : view.isLegal activity := by
    rw [isLegal_ofScreen hrules, hactivity, Bool.true_and, all_eq_true]
    intro p hp
    have hany := hvalues p hp
    rwa [hattributes p hp, Option.any_some] at hany
  have hread : Markup.read? (view.render activity) = some (view.shapeScreen activity) := by
    rw [hspelled.read?, if_pos hlegal]
  refine ⟨settles_iff_bounded.2 fun p hp hunbounded => ?_, length_ids .., hattributes, _, _, hread,
    readings_shapeScreen .., ?_, all_isSpace_shapeScreen _ _, hspelled.content?,
    fun t => isTagOrBlank_of_mem⟩
  · have hnone := hattributes p hp
    rw [Component.Rule.attributes?_eq_none_iff.2 hunbounded] at hnone
    cases hnone
  · rw [View.places_shapeScreen]
    exact matches_addressPairs table a activity screen

/-- A screen with a button inside a component without a rule. -/
def markedScreen : Node := ⟨"Form", "Screen1", [], [⟨"Canvas", "", [],
  [⟨"Button", "Go", [("Text", .text "a < \"b\" & c\n")], []⟩]⟩]⟩

/-- Marks, quotes and line breaks in a text come back as they were. -/
theorem markedScreen_reads_back :
    (Table.packaged.all fun entry => wellNamed entry.2) = true ∧
    isLegalText "Main" = true ∧
    ((staying .packaged markedScreen).all fun p => ((screenRule .packaged p.2).attributes?
      ((screenRule .packaged p.2).merged p.2.properties)).any allLegal) = true ∧
    ∃ root, Markup.read? ((ofScreen .packaged .empty markedScreen).render "Main") = some root ∧
      (root.places [0]).map (fun p => (p.2.name, p.2.attributes.lookup (androidMark ++ "text")))
        = [("LinearLayout", none), ("Button", some "a < \"b\" & c\n")] := by
  have hactivity : isLegalText "Main" := by decide
  have hvalues : (staying .packaged markedScreen).all fun p =>
      ((screenRule .packaged p.2).attributes?
        ((screenRule .packaged p.2).merged p.2.properties)).any allLegal := by
    decide +kernel
  obtain ⟨-, -, -, root, -, hread, hreadings, -⟩ :=
    markup_reads_back (all_eq_true.1 wellNamed_packaged) hactivity
      (all_eq_true.1 hvalues) .empty
  refine ⟨wellNamed_packaged, hactivity, hvalues, root, hread, ?_⟩
  have hlookup := congrArg (List.map fun r : Opening => (r.1, r.2.lookup (androidMark ++ "text")))
    hreadings
  rw [map_map] at hlookup
  refine hlookup.trans ?_
  decide +kernel

end Layout
end ScreenForge
