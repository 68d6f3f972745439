/-
# Where blocks stand, and what they see there

A program is walked block by block.  A `Site` is a block met on the walk together with the way to
it: the declaration that it belongs to (`Root`), the blocks around it with the part of each that
leads on (`Level`), and whether it is asked for a value or told to act (`Role`).

What a site sees (`Site.scope`) is what the levels show, innermost first, and then the parameters of
the event or of the procedure.  Only the body of a loop over a range or a list shows something, its
variable, and the body of a declaration of local variables, their names.  Siblings see the same.
-/
import ScreenForge.Kotlin.Activity
import ScreenForge.Proofs.Code.Parts

namespace ScreenForge

open List
open Block (Part)
open Kotlin (Scope Target)

/-- Whether a block is asked for a value or told to act. -/
inductive Site.Role where
  | value
  | act
  deriving DecidableEq, Repr

/-- A block, and the part of it that leads on. -/
structure Site.Level where
  owner : Block
  part : Part

/-- A declaration that blocks belong to. -/
inductive Site.Root where
  | initial (g : Block.Global)
  | handler (h : Block.Handler)
  | procedure (q : Block.Procedure)

/-- A block on the walk, with the levels around it, innermost first. -/
structure Site where
  root : Site.Root
  levels : List Site.Level
  role : Site.Role
  block : Block

namespace Block

/-- What is asked of the blocks in a part. -/
def Part.role : Part → Site.Role
  | .slot _ => .value
  | .body _ => .act

/-- The blocks in a part. -/
def inPart (b : Block) : Part → List Block
  | .slot name => (b.value? name).toList
  | .body name => b.body name

theorem sizeOf_lt_of_mem_inPart {b c : Block} {part : Part} (h : c ∈ b.inPart part) :
    sizeOf c < sizeOf b := by
  cases part with
  | slot name => exact sizeOf_lt_of_value? (Option.mem_toList.1 h)
  | body name => exact sizeOf_lt_of_mem_body h

/-- **Induction over blocks, part by part.** -/
theorem inductParts {P : Block → Prop} (h : ∀ b : Block, (∀ part, ∀ c ∈ b.inPart part, P c) → P b)
    (b : Block) : P b := by
  induction b using Block.induct with
  | h b hvalue hbody =>
    refine h b fun part c hc => ?_
    cases part with
    | slot name => exact hvalue name c (Option.mem_toList.1 hc)
    | body name => exact hbody name c hc

/-- The parts of a block in a role, in the order in which they are walked. -/
def partsIn (b : Block) : Site.Role → List Part
  | .value => b.operandSlots.map .slot
  | .act => b.parts

end Block

namespace Site

/-- The names that a declaration shows to its blocks: the parameters of the event, or its own. -/
def Root.names (t : Target) : Root → List String
  | .initial _ => []
  | .handler h => t.scopeOf (Code.Handler.ofBlock h)
  | .procedure q => q.params

/-- The names that levels within a declaration show. -/
def scopeIn (t : Target) (root : Root) (levels : List Level) : Scope :=
  (levels.flatMap fun l => l.owner.newNames l.part) ++ root.names t

/-- **What a site sees.** -/
def scope (t : Target) (s : Site) : Scope := scopeIn t s.root s.levels

/-- A level shows its new names in front of what is seen around it. -/
theorem scopeIn_cons (t : Target) (root : Root) (b : Block) (part : Part) (levels : List Level) :
    scopeIn t root (⟨b, part⟩ :: levels) = b.newNames part ++ scopeIn t root levels := by
  simp [scopeIn, append_assoc]

/-- The sites of a block and of what is in its parts. -/
def sitesIn (root : Root) (levels : List Level) (role : Role) (b : Block) : List Site :=
  ((b.partsIn role).flatMap fun part => (b.inPart part).attach.flatMap fun ⟨c, _⟩ =>
    sitesIn root (⟨b, part⟩ :: levels) part.role c) ++ [⟨root, levels, role, b⟩]
termination_by sizeOf b
decreasing_by exact Block.sizeOf_lt_of_mem_inPart ‹_›

/-- **A block is walked after its parts.** -/
theorem sitesIn_eq (root : Root) (levels : List Level) (role : Role) (b : Block) :
    sitesIn root levels role b = ((b.partsIn role).flatMap fun part =>
      (b.inPart part).flatMap (sitesIn root (⟨b, part⟩ :: levels) part.role))
        ++ [⟨root, levels, role, b⟩] := by
  rw [sitesIn]
  simp only [flatMap_subtype, unattach_attach]

variable {root : Root} {levels : List Level} {role : Role} {b : Block} {s : Site}

/-- A site in a block is that of the block itself, or one in a part of it. -/
theorem mem_sitesIn : s ∈ sitesIn root levels role b ↔ s = ⟨root, levels, role, b⟩ ∨
    ∃ part ∈ b.partsIn role, ∃ c ∈ b.inPart part,
      s ∈ sitesIn root (⟨b, part⟩ :: levels) part.role c := by
  rw [sitesIn_eq, mem_append, mem_singleton, or_comm]
  simp only [mem_flatMap]

theorem root_of_mem_sitesIn (h : s ∈ sitesIn root levels role b) : s.root = root := by
  induction b using Block.inductParts generalizing levels role with
  | h b ih =>
    obtain rfl | ⟨part, -, c, hc, h⟩ := mem_sitesIn.1 h
    · rfl
    · exact ih part c hc h

/-- A site in a value is asked for a value, and sees what the value does. -/
theorem scope_of_mem_sitesIn_value {t : Target} (h : s ∈ sitesIn root levels .value b) :
    s.scope t = scopeIn t root levels ∧ s.role = .value := by
  induction b using Block.inductParts generalizing levels with
  | h b ih =>
    obtain rfl | ⟨part, hpart, c, hc, h⟩ := mem_sitesIn.1 h
    · exact ⟨rfl, rfl⟩
    · obtain ⟨slot, -, rfl⟩ := mem_map.1 hpart
      obtain ⟨hscope, hrole⟩ := ih _ c hc h
      rw [scopeIn_cons] at hscope
      exact ⟨hscope, hrole⟩

/-- The sites of a declaration. -/
def Root.sites (root : Root) : List Site :=
  match root with
  | .initial g => g.value.toList.flatMap (sitesIn root [] .value)
  | .handler h => h.body.flatMap (sitesIn root [] .act)
  | .procedure q => q.body.flatMap (sitesIn root [] .act)
      ++ if q.returnsValue then q.result.toList.flatMap (sitesIn root [] .value) else []

theorem firstsAfter_map {α β : Type} (name : β → String) (f : α → β) (seen : List String)
    (items : List α) : Code.firstsAfter name seen (items.map f)
      = (Code.firstsAfter (fun a => name (f a)) seen items).map f := by
  induction items generalizing seen with
  | nil => rfl
  | cons a rest ih =>
    simp only [map_cons, Code.firstsAfter]
    split
    · exact ih seen
    · rw [ih, map_cons]

/-- The first of each name among the global variables of a program. -/
theorem firsts_globals (p : Block.Program) :
    Code.firsts Code.Global.name (Code.Program.ofBlocks p).globals
      = (Code.firsts Block.Global.name p.globals).map Code.Global.ofBlock :=
  firstsAfter_map _ _ _ _

/-- The first of each name among the procedures of a program. -/
theorem firsts_procedures (p : Block.Program) :
    Code.firsts Code.Procedure.name (Code.Program.ofBlocks p).procedures
      = (Code.firsts Block.Procedure.name p.procedures).map Code.Procedure.ofBlock :=
  firstsAfter_map _ _ _ _

/-- The declarations of a program that count: all handlers, and the first of each name among global
variables and procedures. -/
def roots (p : Block.Program) : List Root :=
  (Code.firsts Block.Global.name p.globals).map .initial ++ p.handlers.map .handler
    ++ (Code.firsts Block.Procedure.name p.procedures).map .procedure

end Site

/-- **The walk over a program.** -/
def Block.Program.sites (p : Block.Program) : List Site := (Site.roots p).flatMap Site.Root.sites

end ScreenForge
