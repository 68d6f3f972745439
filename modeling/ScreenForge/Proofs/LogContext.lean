/-
# What scopes leave bound

Entering a scope binds its keys over what is bound around it, and leaving it unbinds them.  Nothing
remembers the value that a key had before, so a scope that binds a key of a scope around it takes
that binding with it.
-/
import ScreenForge.LogContext
import ScreenForge.Proofs.Assoc

namespace ScreenForge
namespace LogContext

open List

variable {α : Type} {new bound : Bindings α} {b : String × α} {scope : Scope α}
  {scopes : List (Scope α)} {gone around : List String} {key : String}

/-- Induction over scopes: what is inside the first one, and those behind it. -/
theorem Scope.inductAll {P : List (Scope α) → Prop} (nil : P [])
    (cons : ∀ scope rest, P scope.inner → P rest → P (scope :: rest)) :
    (scopes : List (Scope α)) → P scopes
  | [] => nil
  | ⟨bindings, inner⟩ :: rest =>
    cons ⟨bindings, inner⟩ rest (inductAll nil cons inner) (inductAll nil cons rest)

theorem after_eq_leave (bound : Bindings α) (scope : Scope α) :
    after bound scope = leave (Assoc.keys scope.bindings)
      (afterAll (enter scope.bindings bound) scope.inner) := by
  obtain ⟨bindings, inner⟩ := scope
  rw [after]

theorem moves_eq (bound : Bindings α) (scope : Scope α) :
    moves bound scope = (.entered, enter scope.bindings bound)
      :: movesAll (enter scope.bindings bound) scope.inner ++ [(.left, after bound scope)] := by
  obtain ⟨bindings, inner⟩ := scope
  rw [moves, after]

/-! ### Binding and unbinding -/

theorem mem_leave_iff : b ∈ leave gone bound ↔ b ∈ bound ∧ b.1 ∉ gone := by
  simp [leave]

theorem leave_leave (first second : List String) (bound : Bindings α) :
    leave first (leave second bound) = leave (first ++ second) bound := by
  rw [leave, leave, filter_filter, leave]
  exact filter_congr fun b _ => by simp

/-- What is unbound anyway may have been bound before. -/
theorem leave_put (h : key ∈ gone) (value : α) (bound : Bindings α) :
    leave gone (Assoc.put key value bound) = leave gone bound := by
  induction bound with
  | nil => simp [leave, Assoc.put, h]
  | cons b rest ih =>
    rw [Assoc.put]
    split
    · next heq =>
      simp [leave, heq, h]
    · simp only [leave, filter_cons] at ih ⊢
      rw [ih]

/-- Leaving unbinds what was entered. -/
theorem leave_enter (h : Assoc.keys new ⊆ gone) (bound : Bindings α) :
    leave gone (enter new bound) = leave gone bound := by
  induction new generalizing bound with
  | nil => rfl
  | cons b rest ih =>
    obtain ⟨hb, hrest⟩ := cons_subset.1 h
    calc leave gone (enter (b :: rest) bound)
        = leave gone (enter rest (Assoc.put b.1 b.2 bound)) := rfl
      _ = leave gone (Assoc.put b.1 b.2 bound) := ih hrest _
      _ = leave gone bound := leave_put hb b.2 bound

theorem mem_keys_enter_iff :
    key ∈ Assoc.keys (enter new bound) ↔ key ∈ Assoc.keys new ∨ key ∈ Assoc.keys bound := by
  induction new generalizing bound with
  | nil => simp [enter, Assoc.keys]
  | cons b rest ih =>
    have hstep : enter (b :: rest) bound = enter rest (Assoc.put b.1 b.2 bound) := rfl
    have hkeys : Assoc.keys (b :: rest) = b.1 :: Assoc.keys rest := rfl
    rw [hstep, ih, Assoc.keys_put, hkeys, mem_cons]
    split <;> grind

/-- A binding whose key is not bound anew stays. -/
theorem mem_enter_of_not_mem (hnew : b.1 ∉ Assoc.keys new) (hb : b ∈ bound) :
    b ∈ enter new bound := by
  have hleft : b ∈ leave (Assoc.keys new) (enter new bound) := by
    rw [leave_enter (List.Subset.refl _)]
    exact mem_leave_iff.2 ⟨hb, hnew⟩
  exact (mem_leave_iff.1 hleft).1

/-! ### What a scope takes with it -/

mutual

/-- The keys that a scope and the scopes inside it bind. -/
def Scope.names (scope : Scope α) : List String :=
  match scope with
  | ⟨bindings, inner⟩ => Assoc.keys bindings ++ Scope.namesAll inner

/-- The keys that scopes and the scopes inside them bind. -/
def Scope.namesAll : List (Scope α) → List String
  | [] => []
  | s :: rest => Scope.names s ++ Scope.namesAll rest

end

theorem Scope.names_eq (scope : Scope α) :
    scope.names = Assoc.keys scope.bindings ++ namesAll scope.inner := by
  obtain ⟨bindings, inner⟩ := scope
  rw [names]

theorem after_eq_of_inner
    (h : afterAll (enter scope.bindings bound) scope.inner
      = leave (Scope.namesAll scope.inner) (enter scope.bindings bound)) :
    after bound scope = leave scope.names bound := by
  rw [after_eq_leave, h, leave_leave, ← Scope.names_eq, leave_enter]
  rw [Scope.names_eq]
  exact subset_append_left _ _

/-- Scopes leave what was bound before less all that is bound inside them. -/
theorem afterAll_eq (bound : Bindings α) (scopes : List (Scope α)) :
    afterAll bound scopes = leave (Scope.namesAll scopes) bound := by
  induction scopes using Scope.inductAll generalizing bound with
  | nil =>
    rw [afterAll, Scope.namesAll, leave, filter_eq_self.2]
    exact fun b _ => by simp
  | cons scope rest inside behind =>
    rw [afterAll, behind, after_eq_of_inner (inside _), leave_leave, Scope.namesAll]
    unfold leave
    exact filter_congr fun b _ => by simp [or_comm]

/-- **A scope leaves what was bound before, less all that is bound inside it.** -/
theorem after_eq (bound : Bindings α) (scope : Scope α) :
    after bound scope = leave scope.names bound :=
  after_eq_of_inner (afterAll_eq _ _)

/-! ### Scopes as they are entered -/

mutual

/-- A scope and the scopes inside it as they are entered, each with what is bound right before. -/
def entries (bound : Bindings α) (scope : Scope α) : List (Bindings α × Scope α) :=
  match scope with
  | ⟨bindings, inner⟩ =>
    (bound, ⟨bindings, inner⟩) :: entriesAll (enter bindings bound) inner

/-- Scopes and the scopes inside them as they are entered. -/
def entriesAll (bound : Bindings α) : List (Scope α) → List (Bindings α × Scope α)
  | [] => []
  | s :: rest => entries bound s ++ entriesAll (after bound s) rest

end

theorem entries_eq (bound : Bindings α) (scope : Scope α) :
    entries bound scope
      = (bound, scope) :: entriesAll (enter scope.bindings bound) scope.inner := by
  obtain ⟨bindings, inner⟩ := scope
  rw [entries]

/-- Whether a scope leaves bound what was bound before it was entered. -/
def Restores (bound : Bindings α) (scope : Scope α) : Prop :=
  ∀ b, b ∈ after bound scope ↔ b ∈ bound

/-- Whether all that is bound when a scope has been entered is bound after every move inside it. -/
def HoldsInside (bound : Bindings α) (scope : Scope α) : Prop :=
  ∀ m ∈ movesAll (enter scope.bindings bound) scope.inner,
    ∀ b ∈ enter scope.bindings bound, b ∈ m.2

mutual

/-- Whether a scope and the scopes inside it bind only keys that are not bound around them. -/
def Scope.Fresh (around : List String) (scope : Scope α) : Prop :=
  match scope with
  | ⟨bindings, inner⟩ =>
    (∀ key ∈ Assoc.keys bindings, key ∉ around) ∧
      Scope.FreshAll (Assoc.keys bindings ++ around) inner

/-- Whether scopes and the scopes inside them bind only keys that are not bound around them. -/
def Scope.FreshAll (around : List String) : List (Scope α) → Prop
  | [] => True
  | s :: rest => Scope.Fresh around s ∧ Scope.FreshAll around rest

end

theorem Scope.fresh_iff :
    scope.Fresh around ↔ (∀ key ∈ Assoc.keys scope.bindings, key ∉ around) ∧
      FreshAll (Assoc.keys scope.bindings ++ around) scope.inner := by
  obtain ⟨bindings, inner⟩ := scope
  rw [Fresh]

/-- Only which keys are around matters. -/
theorem Scope.freshAll_congr {other : List String} (h : ∀ key, key ∈ around ↔ key ∈ other)
    (scopes : List (Scope α)) : FreshAll around scopes ↔ FreshAll other scopes := by
  induction scopes using Scope.inductAll generalizing around other with
  | nil => simp [FreshAll]
  | cons scope rest inside behind =>
    have hinside : FreshAll (Assoc.keys scope.bindings ++ around) scope.inner ↔
        FreshAll (Assoc.keys scope.bindings ++ other) scope.inner :=
      inside fun key => by rw [mem_append, mem_append, h]
    rw [FreshAll, FreshAll, fresh_iff, fresh_iff, hinside, behind h]
    simp only [h]

theorem Scope.not_mem_of_freshAll (h : FreshAll around scopes) :
    ∀ key ∈ namesAll scopes, key ∉ around := by
  induction scopes using Scope.inductAll generalizing around with
  | nil => simp [namesAll]
  | cons scope rest inside behind =>
    obtain ⟨hscope, hrest⟩ := h
    obtain ⟨hown, hinner⟩ := fresh_iff.1 hscope
    intro key hkey
    rw [namesAll, names_eq, mem_append, mem_append] at hkey
    rcases hkey with (hkey | hkey) | hkey
    · exact hown key hkey
    · exact fun haround => inside hinner key hkey (mem_append_right _ haround)
    · exact behind hrest key hkey

/-- **A scope restores what was bound exactly if nothing bound inside it was.** -/
theorem restores_iff :
    Restores bound scope ↔ ∀ key ∈ scope.names, key ∉ Assoc.keys bound := by
  unfold Restores
  simp only [after_eq, mem_leave_iff]
  constructor
  · intro h key hkey hbound
    obtain ⟨b, hb, rfl⟩ := mem_map.1 hbound
    exact ((h b).2 hb).2 hkey
  · intro h b
    exact ⟨And.left, fun hb => ⟨hb, fun hname => h _ hname (Assoc.mem_keys hb)⟩⟩

/-- A scope of new keys leaves what was bound before. -/
theorem restores_of_fresh (h : scope.Fresh (Assoc.keys bound)) : Restores bound scope := by
  have hall : Scope.FreshAll (Assoc.keys bound) [scope] := ⟨h, trivial⟩
  have hnames := Scope.not_mem_of_freshAll hall
  rw [Scope.namesAll, Scope.namesAll, append_nil] at hnames
  exact restores_iff.2 hnames

/-- What is fresh behind a scope that restores what was bound is fresh before it. -/
theorem freshAll_after_iff (h : Restores bound scope) (rest : List (Scope α)) :
    Scope.FreshAll (Assoc.keys (after bound scope)) rest
      ↔ Scope.FreshAll (Assoc.keys bound) rest :=
  Scope.freshAll_congr (fun key => by simp only [Assoc.keys, mem_map, h _]) rest

/-- A scope is fresh if its own keys are, and if those inside it are where they are entered. -/
theorem fresh_iff_inside : scope.Fresh (Assoc.keys bound)
    ↔ (∀ key ∈ Assoc.keys scope.bindings, key ∉ Assoc.keys bound)
      ∧ Scope.FreshAll (Assoc.keys (enter scope.bindings bound)) scope.inner := by
  rw [Scope.fresh_iff, Scope.freshAll_congr fun key => ?_]
  rw [mem_keys_enter_iff, mem_append]

/-- **Fresh scopes are fresh where they are entered.** -/
theorem fresh_of_mem_entriesAll (h : Scope.FreshAll (Assoc.keys bound) scopes) :
    ∀ v ∈ entriesAll bound scopes, v.2.Fresh (Assoc.keys v.1) := by
  induction scopes using Scope.inductAll generalizing bound with
  | nil => simp [entriesAll]
  | cons scope rest inside behind =>
    obtain ⟨hscope, hrest⟩ := h
    intro v hv
    rw [entriesAll, entries_eq, mem_append, mem_cons] at hv
    rcases hv with (rfl | hv) | hv
    · exact hscope
    · exact inside (fresh_iff_inside.1 hscope).2 v hv
    · exact behind ((freshAll_after_iff (restores_of_fresh hscope) rest).2 hrest) v hv

/-- Scopes that all restore what was bound are fresh. -/
theorem freshAll_of_restores (h : ∀ v ∈ entriesAll bound scopes, Restores v.1 v.2) :
    Scope.FreshAll (Assoc.keys bound) scopes := by
  induction scopes using Scope.inductAll generalizing bound with
  | nil => trivial
  | cons scope rest inside behind =>
    simp only [entriesAll, entries_eq, forall_mem_append, forall_mem_cons] at h
    obtain ⟨⟨hscope, hinner⟩, hrest⟩ := h
    have hown := restores_iff.1 hscope
    rw [Scope.names_eq] at hown
    exact ⟨fresh_iff_inside.2 ⟨fun key hkey => hown key (mem_append_left _ hkey),
      inside hinner⟩, (freshAll_after_iff hscope rest).1 (behind hrest)⟩

/-- **What is bound around fresh scopes is bound after every move of theirs.** -/
theorem mem_of_mem_movesAll (h : Scope.FreshAll (Assoc.keys bound) scopes) :
    ∀ m ∈ movesAll bound scopes, ∀ b ∈ bound, b ∈ m.2 := by
  induction scopes using Scope.inductAll generalizing bound with
  | nil => simp [movesAll]
  | cons scope rest inside behind =>
    obtain ⟨hscope, hrest⟩ := h
    obtain ⟨hown, hinner⟩ := fresh_iff_inside.1 hscope
    have hrestores := restores_of_fresh hscope
    have hentered : ∀ b ∈ bound, b ∈ enter scope.bindings bound := fun b hb =>
      mem_enter_of_not_mem (fun hkey => hown _ hkey (Assoc.mem_keys hb)) hb
    intro m hm b hb
    simp only [movesAll, moves_eq, mem_append, mem_cons, not_mem_nil, or_false] at hm
    rcases hm with ((rfl | hm) | rfl) | hm
    · exact hentered b hb
    · exact inside hinner m hm b (hentered b hb)
    · exact (hrestores b).2 hb
    · exact behind ((freshAll_after_iff hrestores rest).2 hrest) m hm b ((hrestores b).2 hb)

/-- Inside a scope of new keys nothing that is bound is lost. -/
theorem holdsInside_of_fresh (h : scope.Fresh (Assoc.keys bound)) : HoldsInside bound scope :=
  mem_of_mem_movesAll (fresh_iff_inside.1 h).2

/-- **Log contexts nest like a stack exactly if no scope binds a key that is bound around it.**
Then each scope leaves bound what was bound before it, and what is bound when it has been entered
stays so inside it.  In any case a scope leaves what was bound before, less every key that is bound
inside it. -/
theorem contexts_nest_iff_fresh (bound : Bindings α) (scopes : List (Scope α)) :
    ((∀ v ∈ entriesAll bound scopes, Restores v.1 v.2 ∧ HoldsInside v.1 v.2) ↔
      Scope.FreshAll (Assoc.keys bound) scopes) ∧
    ∀ v ∈ entriesAll bound scopes, ∀ b, b ∈ after v.1 v.2 ↔ b ∈ v.1 ∧ b.1 ∉ v.2.names := by
  refine ⟨⟨fun h => freshAll_of_restores fun v hv => (h v hv).1, fun h v hv => ?_⟩, ?_⟩
  · have hfresh := fresh_of_mem_entriesAll h v hv
    exact ⟨restores_of_fresh hfresh, holdsInside_of_fresh hfresh⟩
  · intro v _ b
    rw [after_eq, mem_leave_iff]

/-- A scope inside another that binds the same key. -/
def doubled : List (Scope String) :=
  [⟨[("project", "outer")], [⟨[("project", "inner")], []⟩]⟩]

/-- The inner of two scopes takes the binding of the outer one with it. -/
theorem doubled_not_restored :
    ¬ ∀ v ∈ entriesAll [] doubled, Restores v.1 v.2 := by
  intro h
  have hinner : ([("project", "outer")], ⟨[("project", "inner")], []⟩) ∈ entriesAll [] doubled := by
    simp [doubled, entriesAll, entries, enter, Assoc.put]
  have hbound := (h _ hinner ("project", "outer")).2 (mem_singleton.2 rfl)
  rw [after_eq, mem_leave_iff] at hbound
  exact hbound.2 (by decide)

end LogContext
end ScreenForge
