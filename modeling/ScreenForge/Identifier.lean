/-
# Handing out names

One run never gives a name twice, and two runs over the same input give the same names.  An
allocator knows the names it has given, and of each stem the number it gave last.

| call | answer |
| --- | --- |
| `claim name` | the name, or a collision if it has been given |
| `next stem` | the stem with the next number that makes a new name |
| `unique stem` | the stem itself if it is free, a numbered name otherwise |

A list of `n` names cannot hold all of `n + 1` numbered ones, so the search for a number looks at
no more than that many.
-/
import ScreenForge.Assoc

namespace ScreenForge

/-- The names that a run has given. -/
structure Allocator where
  /-- The names, last first. -/
  issued : List String := []
  /-- The number given last to each stem that was given one. -/
  counters : List (String × Nat) := []
  deriving DecidableEq, Repr

namespace Allocator

/-- A name that is claimed after it has been given. -/
structure Collision where
  name : String
  deriving DecidableEq, Repr

/-- What is said of a collision. -/
def Collision.message (c : Collision) : String := s!"Identifier '{c.name}' issued twice"

/-- No name given yet. -/
def empty : Allocator := {}

/-- Whether a name has been given. -/
def has (a : Allocator) (name : String) : Bool := a.issued.contains name

/-- Notes a name as given. -/
def add (a : Allocator) (name : String) : Allocator := { a with issued := name :: a.issued }

/-- The number given last to a stem, zero before the first. -/
def counter (a : Allocator) (stem : String) : Nat := (a.counters.lookup stem).getD 0

/-- Notes the number given last to a stem. -/
def advance (a : Allocator) (stem : String) (number : Nat) : Allocator :=
  { a with counters := Assoc.put stem number a.counters }

/-- The first number from `k` on, among so many, whose name with the stem is not in a list. -/
def firstFree (issued : List String) (stem : String) : Nat → Nat → Nat
  | 0, k => k
  | fuel + 1, k =>
    if issued.contains (stem ++ toString k) then firstFree issued stem fuel (k + 1) else k

/-- The number that a stem is given next. -/
def number (a : Allocator) (stem : String) : Nat :=
  firstFree a.issued stem a.issued.length (a.counter stem + 1)

/-- A stem with the next number that makes a new name. -/
def next (a : Allocator) (stem : String) : String × Allocator :=
  let name := stem ++ toString (a.number stem)
  (name, (a.advance stem (a.number stem)).add name)

/-- The stem itself if it is free, a numbered name otherwise. -/
def unique (a : Allocator) (stem : String) : String × Allocator :=
  if a.has stem then a.next stem else (stem, a.add stem)

/-- Takes an exact name; one that has been given is a collision. -/
def claim (a : Allocator) (name : String) : Except Collision String × Allocator :=
  if a.has name then (.error ⟨name⟩, a) else (.ok name, a.add name)

/-- A call on an allocator. -/
inductive Call where
  | next (stem : String)
  | claim (name : String)
  | unique (stem : String)
  deriving DecidableEq, Repr

/-- Finds the next number of a stem and claims the name that it makes. -/
def draw (a : Allocator) (stem : String) : Except Collision String × Allocator :=
  (a.advance stem (a.number stem)).claim (stem ++ toString (a.number stem))

/-- Answers a call; a name that is found for it is claimed. -/
def serve (a : Allocator) : Call → Except Collision String × Allocator
  | .next stem => a.draw stem
  | .claim name => a.claim name
  | .unique stem => if a.has stem then a.draw stem else a.claim stem

/-- Answers calls one after another. -/
def serveAll (a : Allocator) : List Call → List (Except Collision String) × Allocator
  | [] => ([], a)
  | call :: rest =>
    let (answer, a) := a.serve call
    let (answers, a) := a.serveAll rest
    (answer :: answers, a)

theorem counter_advance (a : Allocator) (stem other : String) (number : Nat) :
    (a.advance stem number).counter other = if other = stem then number else a.counter other := by
  rw [counter, advance, Assoc.lookup_put]
  split <;> rfl

theorem has_iff {a : Allocator} {name : String} : a.has name ↔ name ∈ a.issued :=
  List.contains_iff_mem

/-- **The search skips only names that are taken.** -/
theorem contains_of_lt_firstFree {issued : List String} {stem : String} {fuel k j : Nat}
    (hk : k ≤ j) (hj : j < firstFree issued stem fuel k) :
    issued.contains (stem ++ toString j) := by
  induction fuel generalizing k with
  | zero => simp only [firstFree] at hj; omega
  | succ fuel ih =>
    simp only [firstFree] at hj
    split at hj
    · next h =>
      rcases Nat.eq_or_lt_of_le hk with rfl | hlt
      · exact h
      · exact ih hlt hj
    · omega

end Allocator
end ScreenForge
