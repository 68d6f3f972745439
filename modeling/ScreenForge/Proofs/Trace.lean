/-
# Spans form the call tree

A run of operations opens a span for each operation that it starts.  The spans that were open inside
one another are a tree (`Call`), and the log can be read off it:

| field of an event | is |
| --- | --- |
| `span_id` | the number of the span, drawn for it alone |
| `parent_id` | the number of the span right around it; absent outside all spans |
| `trace_id` | the trace of the span around it; one drawn for it alone outside all spans |

An event is logged when its span ends, so the events are those of the calls in the order in which
they are completed (`Call.completedAll`), and it tells of an error exactly if one left the operation
(`Operation.leaving`).
-/
import Mathlib.Data.List.Forall2
import ScreenForge.Proofs.Assoc
import ScreenForge.Trace

namespace ScreenForge
namespace Trace

open List

variable {op : Operation} {s : Run} {tags : List (String × String)} (around : Context)
  (calls others : List Call)

/-- Induction over operations: what is inside the first one, and those behind it. -/
theorem Operation.inductAll {P : List Operation → Prop} (nil : P [])
    (cons : ∀ op rest, P op.inner → P rest → P (op :: rest)) : (ops : List Operation) → P ops
  | [] => nil
  | ⟨name, tags, inner, error, propagate⟩ :: rest =>
    cons ⟨name, tags, inner, error, propagate⟩ rest (inductAll nil cons inner)
      (inductAll nil cons rest)

/-! ### One step -/

variable {tracer : Option Tracer} {t : Tracer} {clock : Clock}

theorem runOne_eq (tracer : Option Tracer) (clock : Clock) (s : Run) (op : Operation) :
    runOne tracer clock s op =
      match refusedTag? tracer op.tags, tracer with
      | some tag, _ => { s with raised := some (.taken tag) }
      | none, none =>
        let r := runAll none clock { s with opened := s.opened ++ [(op.name, false)] } op.inner
        { r with raised := passOn op.propagate (r.raised <|> op.error.map .raised) }
      | none, some t =>
        let r := runAll (some t) clock (s.enter (s.span op.name op.tags)) op.inner
        r.leave t clock (s.span op.name op.tags) (r.raised <|> op.error.map .raised)
          op.propagate := by
  obtain ⟨name, tags, inner, error, propagate⟩ := op
  cases tracer <;> rw [runOne] <;> split <;> simp_all

theorem runAll_cons_of_raised {e : Error} (h : (runOne tracer clock s op).raised = some e)
    (rest : List Operation) : runAll tracer clock s (op :: rest) = runOne tracer clock s op := by
  rw [runAll]
  simp only [h]

theorem runAll_cons_of_none (h : (runOne tracer clock s op).raised = none) (rest : List Operation) :
    runAll tracer clock s (op :: rest) = runAll tracer clock (runOne tracer clock s op) rest := by
  rw [runAll]
  simp only [h]

theorem context_runOne_of_inner
    (inside : ∀ s, (runAll tracer clock s op.inner).context = s.context) (s : Run) :
    (runOne tracer clock s op).context = s.context := by
  rw [runOne_eq]
  split
  · rfl
  · exact inside _
  · unfold Run.leave
    dsimp only
    split <;> rfl

/-- The context is set back behind every run, whatever its end. -/
theorem context_runAll (tracer : Option Tracer) (clock : Clock) (s : Run) (ops : List Operation) :
    (runAll tracer clock s ops).context = s.context := by
  induction ops using Operation.inductAll generalizing s with
  | nil => rw [runAll]
  | cons op rest inside behind =>
    have hone := context_runOne_of_inner inside s
    cases hraised : (runOne tracer clock s op).raised with
    | some e => rw [runAll_cons_of_raised hraised, hone]
    | none => rw [runAll_cons_of_none hraised, behind, hone]

/-- **The context behind an operation is the one before it**, however it ends. -/
theorem context_runOne (tracer : Option Tracer) (clock : Clock) (s : Run) (op : Operation) :
    (runOne tracer clock s op).context = s.context :=
  context_runOne_of_inner (fun s => context_runAll tracer clock s op.inner) s

/-! ### Errors -/

mutual

/-- **The error that leaves an operation**: one that passes on to it, or else its own. -/
def Operation.leaving (tracer : Option Tracer) (op : Operation) : Option Error :=
  match op with
  | ⟨_, tags, inner, error, _⟩ =>
    match refusedTag? tracer tags with
    | some tag => some (.taken tag)
    | none => Operation.passing tracer inner <|> error.map .raised

/-- The error that passes on from operations in order. -/
def Operation.passing (tracer : Option Tracer) : List Operation → Option Error
  | [] => none
  | op :: rest =>
    passOn op.propagate (Operation.leaving tracer op) <|> Operation.passing tracer rest

end

theorem Operation.leaving_eq (tracer : Option Tracer) (op : Operation) :
    op.leaving tracer = match refusedTag? tracer op.tags with
      | some tag => some (.taken tag)
      | none => passing tracer op.inner <|> op.error.map .raised := by
  obtain ⟨name, tags, inner, error, propagate⟩ := op
  rw [leaving]

/-! ### Tags apart from the fields of an event -/

mutual

/-- An operation and all that are inside it. -/
def Operation.walk (op : Operation) : List Operation :=
  match op with
  | ⟨name, tags, inner, error, propagate⟩ =>
    ⟨name, tags, inner, error, propagate⟩ :: Operation.walkAll inner

/-- Operations and all that are inside them. -/
def Operation.walkAll : List Operation → List Operation
  | [] => []
  | op :: rest => Operation.walk op ++ Operation.walkAll rest

end

theorem Operation.walk_eq (op : Operation) : op.walk = op :: walkAll op.inner := by
  obtain ⟨name, tags, inner, error, propagate⟩ := op
  rw [walk]

/-- The names that an event uses itself. -/
def ownFields : List String :=
  ["event", "error", "trace_id", "span_id", "operation", "service", "duration_ms", "parent_id"]

/-- Whether the tags of operations have other names than the fields of an event. -/
def Apart (ops : List Operation) : Prop :=
  ∀ op ∈ Operation.walkAll ops, ∀ tag ∈ op.tags, tag.1 ∉ ownFields

instance (ops : List Operation) : Decidable (Apart ops) :=
  decidable_of_iff ((Operation.walkAll ops).all fun op =>
    op.tags.all fun tag => !(ownFields.contains tag.1)) (by simp [Apart])

theorem apart_cons_iff {rest : List Operation} :
    Apart (op :: rest) ↔ (∀ tag ∈ op.tags, tag.1 ∉ ownFields) ∧ Apart op.inner ∧ Apart rest := by
  simp only [Apart, Operation.walkAll, Operation.walk_eq, cons_append, forall_mem_cons,
    forall_mem_append]

theorem tagAmong?_eq_none {names : List String} (h : ∀ tag ∈ tags, tag.1 ∉ names) :
    tagAmong? names tags = none := by
  rw [tagAmong?, List.find?_eq_none.2, Option.map_none]
  simpa using h

/-- **Tags apart from the fields of an event never keep it from being logged.** -/
theorem unloggedTag?_eq_none (h : ∀ tag ∈ tags, tag.1 ∉ ownFields) (level : Level) :
    unloggedTag? level tags = none := by
  have hsub : ∀ names, names ⊆ ownFields → tagAmong? names tags = none := fun names hnames =>
    tagAmong?_eq_none fun tag htag hmem => h tag htag (hnames hmem)
  cases level with
  | failed e | completed | slow => exact hsub _ (by simp [ownFields])

/-- The event of a span that an error leaves, or none, at a reading. -/
def Span.event (span : Span) (t : Tracer) (clock : Clock) (leaving : Option Error) (reading : Nat) :
    Event :=
  let level := levelOf t leaving (clock reading - clock span.start)
  ⟨level, span.fields t.service level⟩

theorem leave_of_apart {span : Span} (h : ∀ tag ∈ span.tags, tag.1 ∉ ownFields) (s : Run)
    (leaving : Option Error) (propagate : Bool) :
    s.leave t clock span leaving propagate =
      { s with
        reading := s.reading + 1
        context := span.before
        events := s.events ++ [span.event t clock leaving s.reading]
        raised := passOn propagate leaving } := by
  unfold Run.leave
  dsimp only
  rw [unloggedTag?_eq_none h]
  rfl

/-! ### What an event says -/

section Fields

variable {span : Span} (h : ∀ tag ∈ span.tags, tag.1 ∉ ownFields)

include h

theorem lookup_tags {name : String} (hname : name ∈ ownFields) :
    ((span.tags.map fun tag => (tag.1, Value.text tag.2)).reverse).lookup name = none := by
  rw [← Option.not_isSome_iff_eq_none, Assoc.isSome_lookup, Assoc.keys]
  simp only [map_reverse, map_map, mem_reverse, mem_map]
  rintro ⟨tag, htag, rfl⟩
  exact h tag htag hname

/-- A field of an event that is no error's: the parent's, or one of the first four. -/
theorem lookup_fields {name : String} (hname : name ∈ ownFields) (herror : name ≠ "error")
    (service : String) (level : Level) : (span.fields service level).lookup name
      = if name = "parent_id" then span.parent.map .id
        else [("service", .text service), ("operation", .text span.operation),
          ("span_id", .id span.id), ("trace_id", .id span.trace)].lookup name := by
  have hlast : level.errorField.reverse.lookup name = none := by
    cases level <;> simp [Level.errorField, lookup_cons, beq_eq_false_iff_ne.2 herror]
  rw [Span.fields, Assoc.lookup_ofList]
  simp only [reverse_append, lookup_append, hlast, lookup_tags h hname, Option.none_or]
  by_cases hparent : name = "parent_id"
  · subst hparent
    cases span.parent <;> simp
  · cases span.parent <;> simp [hparent, lookup_cons, beq_eq_false_iff_ne.2 hparent]

end Fields

/-! ### The call tree -/

/-- **A span that was open**: the operation it was for, its trace and its number, and the spans that
were open inside it. -/
structure Call where
  operation : Operation
  trace : Id
  span : Id
  inner : List Call := []

namespace Call

/-- Induction over calls: what is inside the first one, and those behind it. -/
theorem inductAll {P : List Call → Prop} (nil : P [])
    (cons : ∀ call rest, P call.inner → P rest → P (call :: rest)) : (calls : List Call) → P calls
  | [] => nil
  | ⟨operation, trace, span, inner⟩ :: rest =>
    cons ⟨operation, trace, span, inner⟩ rest (inductAll nil cons inner) (inductAll nil cons rest)

/-- The context inside a span. -/
def context (c : Call) : Context := ⟨some c.trace, some c.span⟩

mutual

/-- A call and those inside it in the order in which they open. -/
def entered (call : Call) : List Call :=
  match call with
  | ⟨operation, trace, span, inner⟩ => ⟨operation, trace, span, inner⟩ :: enteredAll inner

/-- Calls and those inside them in the order in which they open. -/
def enteredAll : List Call → List Call
  | [] => []
  | call :: rest => entered call ++ enteredAll rest

end

mutual

/-- A call and those inside it in the order in which they end, each with the context around it. -/
def completed (around : Context) (call : Call) : List (Context × Call) :=
  match call with
  | ⟨operation, trace, span, inner⟩ =>
    completedAll (context ⟨operation, trace, span, inner⟩) inner
      ++ [(around, ⟨operation, trace, span, inner⟩)]

/-- Calls and those inside them in the order in which they end, each with the context around it. -/
def completedAll (around : Context) : List Call → List (Context × Call)
  | [] => []
  | call :: rest => completed around call ++ completedAll around rest

end

theorem entered_eq (call : Call) : call.entered = call :: enteredAll call.inner := by
  obtain ⟨operation, trace, span, inner⟩ := call
  rw [entered]

theorem completed_eq (call : Call) :
    call.completed around = completedAll call.context call.inner ++ [(around, call)] := by
  obtain ⟨operation, trace, span, inner⟩ := call
  rw [completed]

theorem enteredAll_append :
    enteredAll (calls ++ others) = enteredAll calls ++ enteredAll others := by
  induction calls with
  | nil => rfl
  | cons call rest ih => rw [cons_append, enteredAll, ih, enteredAll, append_assoc]

theorem completedAll_append : completedAll around (calls ++ others)
    = completedAll around calls ++ completedAll around others := by
  induction calls with
  | nil => rfl
  | cons call rest ih => rw [cons_append, completedAll, ih, completedAll, append_assoc]

/-- **The calls that end are those that open**, each once. -/
theorem completedAll_perm (calls : List Call) :
    ((completedAll around calls).map Prod.snd).Perm (enteredAll calls) := by
  induction calls using inductAll generalizing around with
  | nil => exact List.Perm.nil
  | cons call rest inside behind =>
    rw [completedAll, completed_eq, enteredAll, entered_eq, map_append, map_append]
    refine List.Perm.append ?_ (behind around)
    exact perm_append_comm.trans ((inside call.context).cons call)

end Call

/-- **The calls of operations that run in order.**  A refused operation opens no span; behind one
that an error passes, nothing runs. -/
inductive Calls (t : Tracer) : List Operation → List Call → Prop where
  | nil : Calls t [] []
  | refused {op : Operation} {tag : String} (rest : List Operation)
      (hrefused : refusedTag? (some t) op.tags = some tag) : Calls t (op :: rest) []
  | stopped {op : Operation} {e : Error} {inner : List Call} (trace span : Id)
      (rest : List Operation) (hopen : refusedTag? (some t) op.tags = none)
      (inside : Calls t op.inner inner)
      (hpass : passOn op.propagate (op.leaving (some t)) = some e) :
      Calls t (op :: rest) [⟨op, trace, span, inner⟩]
  | next {op : Operation} {rest : List Operation} {inner calls : List Call} (trace span : Id)
      (hopen : refusedTag? (some t) op.tags = none) (inside : Calls t op.inner inner)
      (hpass : passOn op.propagate (op.leaving (some t)) = none) (behind : Calls t rest calls) :
      Calls t (op :: rest) (⟨op, trace, span, inner⟩ :: calls)

/-- **What the event of a call says**, given the context around it. -/
structure Logs (t : Tracer) (around : Context) (call : Call) (event : Event) : Prop where
  operation : event.fields.lookup "operation" = some (.text call.operation.name)
  span : event.fields.lookup "span_id" = some (.id call.span)
  parent : event.fields.lookup "parent_id" = around.span.map .id
  trace : event.fields.lookup "trace_id" = some (.id call.trace)
  /-- It is an error's event exactly if an error left the operation, and then tells that error. -/
  error : ∀ e, event.level = .failed e ↔ call.operation.leaving (some t) = some e

/-- **What a run adds**: the calls of a forest that opens in a context. -/
structure Traced (t : Tracer) (s r : Run) (around : Context) (forest : List Call) : Prop where
  next_le : s.next ≤ r.next
  opened : r.opened
    = s.opened ++ (Call.enteredAll forest).map fun c => (c.operation.name, true)
  logged : ∃ events, r.events = s.events ++ events ∧
    List.Forall₂ (fun c e => Logs t c.1 c.2 e) (Call.completedAll around forest) events
  drawn : ∀ c ∈ Call.enteredAll forest, s.next ≤ c.span ∧ c.span < r.next
  distinct : ((Call.enteredAll forest).map Call.span).Nodup
  /-- A trace is handed on to the spans inside. -/
  shared : ∀ c ∈ Call.completedAll around forest, ∀ trace ∈ c.1.trace, c.2.trace = trace
  /-- Outside all traces each span draws its own. -/
  traces : around.trace = none →
    (∀ c ∈ forest, s.next ≤ c.trace ∧ c.trace < r.next) ∧ (forest.map Call.trace).Nodup

/-- A run that goes on without a span. -/
theorem Traced.nil {r : Run} (hnext : r.next = s.next) (hopened : r.opened = s.opened)
    (hevents : r.events = s.events) (around : Context) : Traced t s r around [] where
  next_le := Nat.le_of_eq hnext.symm
  opened := hopened.trans (append_nil _).symm
  logged := ⟨[], hevents.trans (append_nil _).symm, List.Forall₂.nil⟩
  drawn := by simp [Call.enteredAll]
  distinct := nodup_nil
  shared := by simp [Call.completedAll]
  traces := by simp

/-- Numbers drawn one behind another are distinct if each draw's are. -/
theorem drawn_append {α : Type} {f : α → Id} {xs ys : List α} {a m b : Id} (ham : a ≤ m)
    (hmb : m ≤ b) (hxs : (∀ x ∈ xs, a ≤ f x ∧ f x < m) ∧ (xs.map f).Nodup)
    (hys : (∀ y ∈ ys, m ≤ f y ∧ f y < b) ∧ (ys.map f).Nodup) :
    (∀ x ∈ xs ++ ys, a ≤ f x ∧ f x < b) ∧ ((xs ++ ys).map f).Nodup := by
  have hapart : ∀ x ∈ xs, ∀ y ∈ ys, f x ≠ f y := fun x hx y hy =>
    Nat.ne_of_lt (Nat.lt_of_lt_of_le (hxs.1 x hx).2 (hys.1 y hy).1)
  rw [map_append, nodup_append, forall_mem_append]
  refine ⟨⟨fun x hx => ?_, fun y hy => ?_⟩, hxs.2, hys.2, by simpa using hapart⟩
  · exact ⟨(hxs.1 x hx).1, Nat.lt_of_lt_of_le (hxs.1 x hx).2 hmb⟩
  · exact ⟨Nat.le_trans ham (hys.1 y hy).1, (hys.1 y hy).2⟩

/-- **Runs one behind another add their forests.** -/
theorem Traced.append {m r : Run} {around : Context} {forest others : List Call}
    (h : Traced t s m around forest) (h' : Traced t m r around others) :
    Traced t s r around (forest ++ others) where
  next_le := Nat.le_trans h.next_le h'.next_le
  opened := by
    rw [h'.opened, h.opened, Call.enteredAll_append, map_append, append_assoc]
  logged := by
    obtain ⟨events, hevents, hlogs⟩ := h.logged
    obtain ⟨events', hevents', hlogs'⟩ := h'.logged
    refine ⟨events ++ events', by rw [hevents', hevents, append_assoc], ?_⟩
    rw [Call.completedAll_append]
    exact rel_append hlogs hlogs'
  drawn := by
    rw [Call.enteredAll_append]
    exact (drawn_append h.next_le h'.next_le ⟨h.drawn, h.distinct⟩ ⟨h'.drawn, h'.distinct⟩).1
  distinct := by
    rw [Call.enteredAll_append]
    exact (drawn_append h.next_le h'.next_le ⟨h.drawn, h.distinct⟩ ⟨h'.drawn, h'.distinct⟩).2
  shared := by
    rw [Call.completedAll_append, forall_mem_append]
    exact ⟨h.shared, h'.shared⟩
  traces htrace := drawn_append h.next_le h'.next_le (h.traces htrace) (h'.traces htrace)

/-! ### The run lemma -/

/-- An event tells of an error exactly if one left the operation. -/
theorem levelOf_eq_failed_iff {error : Option Error} {nanoseconds : Int} {e : Error} :
    levelOf t error nanoseconds = .failed e ↔ error = some e := by
  cases error with
  | some e' => simp [levelOf]
  | none =>
    simp only [levelOf, reduceCtorEq, iff_false]
    split <;> exact Level.noConfusion

/-- The call of an operation that opens at a run. -/
def Run.call (s : Run) (op : Operation) (inner : List Call) : Call :=
  ⟨op, (s.span op.name op.tags).trace, (s.span op.name op.tags).id, inner⟩

theorem next_le_span (s : Run) (name : String) (tags : List (String × String)) :
    s.next ≤ (s.span name tags).id := by
  unfold Run.span
  dsimp only
  split
  · exact Nat.le_refl _
  · exact Nat.le_succ _

/-- The event of an operation says what its call is. -/
theorem logs_event (htags : ∀ tag ∈ op.tags, tag.1 ∉ ownFields) (s : Run) (inner : List Call)
    {leaving : Option Error} (hleaving : leaving = op.leaving (some t)) (reading : Nat) :
    Logs t s.context (s.call op inner)
      ((s.span op.name op.tags).event t clock leaving reading) := by
  have hspan : ∀ tag ∈ (s.span op.name op.tags).tags, tag.1 ∉ ownFields := htags
  have hfield := fun (name : String) (hname : name ∈ ownFields) (herror : name ≠ "error") =>
    lookup_fields hspan hname herror t.service
      (levelOf t leaving (clock reading - clock s.reading))
  constructor
  case operation => exact (hfield "operation" (by decide) (by decide)).trans rfl
  case span => exact (hfield "span_id" (by decide) (by decide)).trans rfl
  case parent => exact (hfield "parent_id" (by decide) (by decide)).trans rfl
  case trace => exact (hfield "trace_id" (by decide) (by decide)).trans rfl
  case error => exact fun e => levelOf_eq_failed_iff.trans (by rw [hleaving]; rfl)

/-- **What one operation adds**: its call, around the calls of what ran inside it. -/
theorem Traced.single (htags : ∀ tag ∈ op.tags, tag.1 ∉ ownFields) {m : Run} {inner : List Call}
    (inside : Traced t (s.enter (s.span op.name op.tags)) m (s.call op inner).context inner)
    {leaving : Option Error} (hleaving : leaving = op.leaving (some t)) :
    Traced t s (m.leave t clock (s.span op.name op.tags) leaving op.propagate) s.context
      [s.call op inner] := by
  have hspan := next_le_span s op.name op.tags
  have hnext : (s.span op.name op.tags).id + 1 ≤ m.next := inside.next_le
  have hentered : Call.enteredAll [s.call op inner] = s.call op inner :: Call.enteredAll inner := by
    rw [Call.enteredAll, Call.entered_eq, Call.enteredAll, append_nil]
    rfl
  have hcompleted : Call.completedAll s.context [s.call op inner]
      = Call.completedAll (s.call op inner).context inner ++ [(s.context, s.call op inner)] := by
    rw [Call.completedAll, Call.completed_eq, Call.completedAll, append_nil]
    rfl
  have hapart : ∀ tag ∈ (s.span op.name op.tags).tags, tag.1 ∉ ownFields := htags
  rw [leave_of_apart hapart]
  constructor
  case next_le => exact Nat.le_trans hspan (Nat.le_of_succ_le hnext)
  case opened =>
    rw [hentered, map_cons]
    exact inside.opened.trans (append_assoc ..)
  case logged =>
    obtain ⟨events, hevents, hlogs⟩ := inside.logged
    refine ⟨events ++ [(s.span op.name op.tags).event t clock leaving m.reading], ?_, ?_⟩
    · exact (congrArg (· ++ _) hevents).trans (append_assoc ..)
    · rw [hcompleted]
      exact rel_append hlogs (.cons (logs_event htags s inner hleaving m.reading) .nil)
  case drawn =>
    rw [hentered, forall_mem_cons]
    refine ⟨⟨hspan, hnext⟩, fun c hc => ?_⟩
    obtain ⟨hle, hlt⟩ := inside.drawn c hc
    exact ⟨Nat.le_trans hspan (Nat.le_of_succ_le hle), hlt⟩
  case distinct =>
    rw [hentered, map_cons, nodup_cons]
    refine ⟨fun hmem => ?_, inside.distinct⟩
    -- what is inside was drawn behind the span itself
    obtain ⟨c, hc, heq⟩ := mem_map.1 hmem
    exact Nat.lt_irrefl _ (heq ▸ (inside.drawn c hc).1)
  case shared =>
    rw [hcompleted, forall_mem_append]
    refine ⟨inside.shared, fun c hc trace htrace => ?_⟩
    obtain rfl := mem_singleton.1 hc
    exact congrArg (Option.getD · s.next) htrace
  case traces =>
    intro htrace
    have hown : (s.call op inner).trace = s.next := congrArg (Option.getD · s.next) htrace
    refine ⟨fun c hc => ?_, pairwise_singleton _ _⟩
    rw [mem_singleton.1 hc, hown]
    exact ⟨Nat.le_refl _, Nat.lt_of_le_of_lt hspan hnext⟩

/-- **What operations in order add**: a forest of their calls, and the error that passes on. -/
theorem exists_traced (t : Tracer) (clock : Clock) {ops : List Operation} (htags : Apart ops)
    (hs : s.raised = none) :
    ∃ forest, Calls t ops forest ∧
      Traced t s (runAll (some t) clock s ops) s.context forest ∧
      (runAll (some t) clock s ops).raised = Operation.passing (some t) ops := by
  induction ops using Operation.inductAll generalizing s with
  | nil =>
    rw [runAll, Operation.passing]
    exact ⟨[], .nil, .nil rfl rfl rfl _, hs⟩
  | cons op rest inside behind =>
    obtain ⟨hown, hinner, hrest⟩ := apart_cons_iff.1 htags
    rw [Operation.passing]
    cases hrefused : refusedTag? (some t) op.tags with
    | some tag =>
      have hone : runOne (some t) clock s op = { s with raised := some (.taken tag) } := by
        rw [runOne_eq, hrefused]
      have hraised : (runOne (some t) clock s op).raised = some (.taken tag) := by rw [hone]
      rw [runAll_cons_of_raised hraised, Operation.leaving_eq, hrefused]
      refine ⟨[], .refused rest hrefused, .nil ?_ ?_ ?_ _, hraised⟩
      all_goals rw [hone]
    | none =>
      have hentered : (s.enter (s.span op.name op.tags)).raised = none := hs
      obtain ⟨inner, hcalls, htraced, hpassing⟩ := inside hinner hentered
      have hleaving := Operation.leaving_eq (some t) op
      rw [hrefused, ← hpassing] at hleaving
      have hsingle : Traced t s (runOne (some t) clock s op) s.context [s.call op inner] := by
        rw [runOne_eq, hrefused]
        exact .single hown htraced hleaving.symm
      have hraised : (runOne (some t) clock s op).raised
          = passOn op.propagate (op.leaving (some t)) := by
        have hapart : ∀ tag ∈ (s.span op.name op.tags).tags, tag.1 ∉ ownFields := hown
        rw [runOne_eq, hrefused, hleaving]
        exact congrArg Run.raised (leave_of_apart hapart ..)
      cases hpass : passOn op.propagate (op.leaving (some t)) with
      | some e =>
        rw [runAll_cons_of_raised (hraised.trans hpass)]
        exact ⟨_, .stopped _ _ rest hrefused hcalls hpass, hsingle, hraised.trans hpass⟩
      | none =>
        rw [runAll_cons_of_none (hraised.trans hpass)]
        obtain ⟨forest, hcalls', htraced', hpassing'⟩ := behind hrest (hraised.trans hpass)
        rw [context_runOne] at htraced'
        exact ⟨_, .next _ _ hrefused hcalls hpass hcalls', hsingle.append htraced', hpassing'⟩

/-- **Spans form the call tree.**  Outermost operations, however nested and whatever errors arise,
are swallowed or pass on, open the calls of a forest.  One event follows for each of them, in the
order in which they are completed: it names the span right around it or none, shares the trace of
that span or has one of its own, and tells an error exactly if one left the operation.  All numbers
are new and those of spans are distinct, as are the traces of outermost spans.  Behind every
operation the context is the one before it. -/
theorem spans_form_call_tree (t : Tracer) (clock : Clock) (ops : List Operation)
    (htags : Apart ops) (s : Run) (hraised : s.raised = none) (hcontext : s.context = {}) :
    (∃ forest, Calls t ops forest ∧
      Traced t s (runAll (some t) clock s ops) {} forest ∧
      ((Call.completedAll {} forest).map Prod.snd).Perm (Call.enteredAll forest) ∧
      (runAll (some t) clock s ops).raised = Operation.passing (some t) ops) ∧
    ∀ (tracer : Option Tracer) (before : Run) (op : Operation),
      (runOne tracer clock before op).context = before.context := by
  obtain ⟨forest, hcalls, htraced, hpassing⟩ := exists_traced t clock htags hraised
  rw [hcontext] at htraced
  exact ⟨⟨forest, hcalls, htraced, Call.completedAll_perm {} forest, hpassing⟩,
    fun tracer before op => context_runOne tracer clock before op⟩

/-- A failure that passes one operation and is caught outside the next, and one behind it. -/
def failingStep : List Operation :=
  [{ name := "convert_project", tags := [("project", "demo")],
     inner := [{ name := "convert_screen", error := some "boom", propagate := true },
       { name := "never" }] },
    { name := "behind" }]

/-- The operation behind the failure does not run, the one behind the catch does. -/
theorem failingStep_traced :
    Apart failingStep ∧
    (run (some ⟨"svc", .whole 1⟩) (.steady 1) failingStep).opened
      = [("convert_project", true), ("convert_screen", true), ("behind", true)] ∧
    ∃ forest, Traced ⟨"svc", .whole 1⟩ {} (run (some ⟨"svc", .whole 1⟩) (.steady 1) failingStep)
      {} forest := by
  have hapart : Apart failingStep := by decide
  obtain ⟨⟨forest, -, htraced, -, -⟩, -⟩ :=
    spans_form_call_tree ⟨"svc", .whole 1⟩ (.steady 1) failingStep hapart {} rfl rfl
  exact ⟨hapart, by decide, forest, htraced⟩

end Trace
end ScreenForge
