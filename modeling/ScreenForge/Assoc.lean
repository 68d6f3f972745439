/-
# Lists of named values

Descriptors name things and keep them in order: members of an object, fields of a block, files of
a project.  Such a record is a list of pairs with distinct names; core's `List.lookup` reads it.
`put` gives a name a value: at its first position if the name is there, at the end otherwise.
-/

namespace ScreenForge
namespace Assoc

variable {β : Type}

/-- The names of a record, in order. -/
def keys (entries : List (String × β)) : List String := entries.map Prod.fst

/-- Gives a name a value: in place if it is there, at the end otherwise. -/
def put (name : String) (value : β) : List (String × β) → List (String × β)
  | [] => [(name, value)]
  | (n, v) :: rest => if n = name then (name, value) :: rest else (n, v) :: put name value rest

/-- A record from pairs in order of writing: first position, last value. -/
def ofList (pairs : List (String × β)) : List (String × β) :=
  pairs.foldl (fun entries p => put p.1 p.2 entries) []

/-- Whether a name is there. -/
def has (name : String) (entries : List (String × β)) : Bool := entries.any fun e => e.1 == name

/-- Positions never change. -/
theorem keys_put (name : String) (value : β) (entries : List (String × β)) :
    keys (put name value entries)
      = if name ∈ keys entries then keys entries else keys entries ++ [name] := by
  induction entries with
  | nil => simp [put, keys]
  | cons e rest ih =>
    obtain ⟨n, v⟩ := e
    by_cases h : n = name
    · simp [put, keys, h]
    · have h' : ¬ name = n := fun e => h e.symm
      simp only [keys] at ih
      by_cases hm : name ∈ rest.map Prod.fst
      · simp [put, keys, h, h', hm, ih]
      · simp [put, keys, h, h', hm, ih]

/-- What a look-up finds after `put`. -/
theorem lookup_put (name key : String) (value : β) (entries : List (String × β)) :
    (put name value entries).lookup key
      = if key = name then some value else entries.lookup key := by
  induction entries with
  | nil =>
    by_cases h : key = name
    · simp [put, h]
    · simp [put, List.lookup_cons, h, beq_eq_false_iff_ne.2 h]
  | cons e rest ih =>
    obtain ⟨n, v⟩ := e
    by_cases h : n = name
    · subst h
      by_cases hk : key = n
      · simp [put, hk]
      · simp [put, List.lookup_cons, hk, beq_eq_false_iff_ne.2 hk]
    · by_cases hk : key = n
      · subst hk
        simp [put, h]
      · simp [put, h, List.lookup_cons, beq_eq_false_iff_ne.2 hk, ih]

/-- Names stay distinct. -/
theorem nodup_keys_put {name : String} {value : β} {entries : List (String × β)}
    (h : (keys entries).Nodup) : (keys (put name value entries)).Nodup := by
  rw [keys_put]
  split
  · exact h
  · next hm => simpa [List.nodup_append] using ⟨h, fun a ha e => hm (e ▸ ha)⟩

theorem put_of_not_mem {name : String} {entries : List (String × β)} (h : name ∉ keys entries)
    (value : β) : put name value entries = entries ++ [(name, value)] := by
  induction entries with
  | nil => rfl
  | cons e rest ih =>
    obtain ⟨hne, hrest⟩ := not_or.1 fun hmem => h (List.mem_cons.2 hmem)
    rw [put, if_neg (Ne.symm hne), ih hrest, List.cons_append]

theorem not_mem_keys_front {front back : List (String × β)} {p : String × β}
    (h : (keys (front ++ p :: back)).Nodup) : p.1 ∉ keys front := by
  rw [keys, List.map_append, List.map_cons] at h
  exact fun hmem => (List.nodup_append.1 h).2.2 _ hmem _ List.mem_cons_self rfl

/-- A record from pairs with distinct names is the list of the pairs. -/
theorem ofList_eq_self {pairs : List (String × β)} (h : (keys pairs).Nodup) :
    ofList pairs = pairs := by
  -- the pairs put so far are a front of the list, and no later name is among them
  have hfold : ∀ front back : List (String × β), (keys (front ++ back)).Nodup →
      back.foldl (fun entries p => put p.1 p.2 entries) front = front ++ back := by
    intro front back
    induction back generalizing front with
    | nil => exact fun _ => (List.append_nil front).symm
    | cons p back ih =>
      intro hnodup
      have hsplit : front ++ p :: back = front ++ [p] ++ back := by simp
      rw [List.foldl_cons, put_of_not_mem (not_mem_keys_front hnodup), hsplit]
      exact ih (front ++ [p]) (hsplit ▸ hnodup)
  exact hfold [] pairs h

theorem mem_of_lookup {entries : List (String × β)} {name : String} {value : β}
    (h : entries.lookup name = some value) : (name, value) ∈ entries := by
  obtain ⟨before, after, rfl, -⟩ := List.lookup_eq_some_iff.1 h
  simp

/-- **A look-up finds exactly the names that are there.** -/
theorem isSome_lookup {entries : List (String × β)} {name : String} :
    (entries.lookup name).isSome ↔ name ∈ keys entries := by
  rw [List.lookup_isSome_iff, keys, List.mem_map]
  constructor
  · rintro ⟨e, he, hk⟩
    exact ⟨e, he, (beq_iff_eq.1 hk).symm⟩
  · rintro ⟨e, he, rfl⟩
    exact ⟨e, he, beq_self_eq_true _⟩

theorem isSome_lookup_eq_has (entries : List (String × β)) (name : String) :
    (entries.lookup name).isSome = has name entries := by
  rw [Bool.eq_iff_iff, isSome_lookup, has, List.any_eq_true, keys, List.mem_map]
  simp

end Assoc
end ScreenForge
