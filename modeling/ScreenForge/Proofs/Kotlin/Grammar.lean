/-
# The grammar of expressions

`Derives k ts a` says that the tokens `ts` are the phrase `a` at level `k` of the grammar:

| level | phrases |
| ---: | --- |
| 0 | `if (…) … else …`, and all below |
| 1, 2 | `||`, `&&` |
| 3, 4 | equality, comparison |
| 5, 6 | `+` and `-`, `*` and `/` |
| 7 | a prefix `-` or `!` |
| 8 | numerals, words, brackets, members and calls |

Operators of one level group to the left.  That a text has one reading is shown by a reader that
keeps what it has not finished on a stack and arrives at the phrase of any derivation, if nothing on
the stack binds the phrase from the left (`Fits`), and nothing behind it from the right (`Stops`).
-/
import ScreenForge.Proofs.Kotlin.Token

namespace ScreenForge
namespace Kotlin

open List

variable {st : List Frame} {k : Nat} {a b : Phrase}

/-- Signs in front of an operand. -/
inductive Sign where
  | minus
  | bang
  deriving DecidableEq, Repr

/-- The token of a sign. -/
def Sign.token : Sign → Token
  | .minus => .operator .minus
  | .bang => .bang

/-- The structure of an expression. -/
inductive Phrase where
  | number (value : Nat)
  | truth (value : Bool)
  | name (word : String)
  | self (label : String)
  | member (receiver : Phrase) (name : String)
  | call (callee : Phrase) (args : List Phrase)
  | signed (sign : Sign) (operand : Phrase)
  | binary (o : Operator) (left right : Phrase)
  | choose (test yes no : Phrase)

/-- Lists of tokens with commas between them. -/
def commas : List (List Token) → List Token
  | [] => []
  | [ts] => ts
  | ts :: rest => ts ++ .comma :: commas rest

/-- `Derives k ts a`: the tokens `ts` are the phrase `a` at level `k`. -/
inductive Derives : Nat → List Token → Phrase → Prop where
  | number (value : Nat) : Derives 8 [.number value] (.number value)
  | truth (value : Bool) : Derives 8 [.truth value] (.truth value)
  | name (word : String) : Derives 8 [.word word] (.name word)
  | self (label : String) : Derives 8 [.self label] (.self label)
  | group {ts : List Token} {a : Phrase} (h : Derives 0 ts a) :
      Derives 8 (.opening :: (ts ++ [.closing])) a
  | member {ts : List Token} {a : Phrase} (h : Derives 8 ts a) (word : String) :
      Derives 8 (ts ++ [.dot, .word word]) (.member a word)
  | call {ts : List Token} {a : Phrase} {args : List (List Token × Phrase)} (h : Derives 8 ts a)
      (hargs : ∀ arg ∈ args, Derives 0 arg.1 arg.2) :
      Derives 8 (ts ++ .opening :: (commas (args.map Prod.fst) ++ [.closing]))
        (.call a (args.map Prod.snd))
  | signed {ts : List Token} {a : Phrase} (s : Sign) (h : Derives 7 ts a) :
      Derives 7 (s.token :: ts) (.signed s a)
  | binary {ls rs : List Token} {a b : Phrase} (o : Operator) (hl : Derives o.level ls a)
      (hr : Derives (o.level + 1) rs b) :
      Derives o.level (ls ++ .operator o :: rs) (.binary o a b)
  | choose {ts ys ns : List Token} {a b c : Phrase} (ht : Derives 0 ts a) (hy : Derives 0 ys b)
      (hn : Derives 0 ns c) :
      Derives 0 (.choice :: .opening :: (ts ++ .closing :: (ys ++ .otherwise :: ns)))
        (.choose a b c)
  | tighter {k : Nat} {ts : List Token} {a : Phrase} (h : Derives (k + 1) ts a) : Derives k ts a

/-- `Reads s a`: the text `s` is the phrase `a`. -/
def Reads (s : String) (a : Phrase) : Prop := ∃ ts, tokens? s = some ts ∧ Derives 0 ts a

/-- What is not finished yet when a reader is inside a phrase. -/
inductive Frame where
  | left (o : Operator) (a : Phrase)
  | sign (s : Sign)
  | group
  | args (callee : Phrase) (done : List Phrase)
  | test
  | yes (test : Phrase)
  | no (test yes : Phrase)

/-- Finishes what binds at least as tightly as a level. -/
def fold (k : Nat) : List Frame → Phrase → List Frame × Phrase
  | .sign s :: st, a => fold k st (.signed s a)
  | .left o x :: st, a => if k ≤ o.level then fold k st (.binary o x a) else (.left o x :: st, a)
  | .no t y :: st, a => if k = 0 then fold k st (.choose t y a) else (.no t y :: st, a)
  | st, a => (st, a)

/-- Reads tokens with a stack of what is not finished, before an operand or behind one. -/
def run : List Frame → Option Phrase → List Token → Option Phrase
  | _, none, [] => none
  | st, some a, [] =>
    match fold 0 st a with
    | ([], a) => some a
    | _ => none
  | st, none, t :: ts =>
    match t with
    | .number n => run st (some (.number n)) ts
    | .truth b => run st (some (.truth b)) ts
    | .word w => run st (some (.name w)) ts
    | .self l => run st (some (.self l)) ts
    | .operator o => if o = .minus then run (.sign .minus :: st) none ts else none
    | .bang => run (.sign .bang :: st) none ts
    | .opening => run (.group :: st) none ts
    | .closing =>
      match st with
      | .args callee [] :: st => run st (some (.call callee [])) ts
      | _ => none
    | .choice =>
      match ts with
      | .opening :: ts => run (.test :: st) none ts
      | _ => none
    | _ => none
  | st, some a, t :: ts =>
    match t with
    | .dot =>
      match ts with
      | .word w :: ts => run st (some (.member a w)) ts
      | _ => none
    | .opening => run (.args a [] :: st) none ts
    | .operator o => run (.left o (fold o.level st a).2 :: (fold o.level st a).1) none ts
    | .closing =>
      match fold 0 st a with
      | (.group :: st, a) => run st (some a) ts
      | (.args callee done :: st, a) => run st (some (.call callee (done ++ [a]))) ts
      | (.test :: st, a) => run (.yes a :: st) none ts
      | _ => none
    | .comma =>
      match fold 0 st a with
      | (.args callee done :: st, a) => run (.args callee (done ++ [a]) :: st) none ts
      | _ => none
    | .otherwise =>
      match fold 0 st a with
      | (.yes t :: st, a) => run (.no t a :: st) none ts
      | _ => none
    | _ => none

/-- Nothing on the stack binds a phrase of a level from the left. -/
def Fits (k : Nat) : List Frame → Prop
  | .left o _ :: _ => o.level < k
  | .sign _ :: _ => 7 ≤ k
  | _ => True

/-- Nothing behind a phrase of a level binds it from the right. -/
def Stops (k : Nat) : List Token → Prop
  | .dot :: _ => 8 ≤ k
  | .opening :: _ => 8 ≤ k
  | .operator o :: _ => o.level ≤ k
  | _ => True

theorem Operator.level_pos (o : Operator) : 1 ≤ o.level := by cases o <;> decide

theorem Operator.level_lt (o : Operator) : o.level < 7 := by cases o <;> decide

theorem Fits.succ (h : Fits k st) : Fits (k + 1) st := by
  unfold Fits at *
  split
  · exact Nat.lt_succ_of_lt h
  · exact Nat.le_succ_of_le h
  · trivial

theorem Stops.succ {rest : List Token} (h : Stops k rest) : Stops (k + 1) rest := by
  unfold Stops at *
  split
  · exact Nat.le_succ_of_le h
  · exact Nat.le_succ_of_le h
  · exact Nat.le_succ_of_le h
  · trivial

theorem stops_eight (rest : List Token) : Stops 8 rest := by
  unfold Stops
  split
  · exact Nat.le_refl 8
  · exact Nat.le_refl 8
  · next o _ => have := o.level_lt; omega
  · trivial

theorem fold_of_fits {o : Operator} (h : Fits o.level st) (a : Phrase) :
    fold o.level st a = (st, a) := by
  have hpos := o.level_pos
  have hlt := o.level_lt
  unfold fold
  split
  · simp only [Fits] at h; omega
  · simp only [Fits] at h; rw [if_neg (by omega)]
  · rw [if_neg (by omega)]
  · rfl

/-- **A frame that is finished by whatever follows may be finished at once.** -/
theorem run_cons {f : Frame} {rest : List Token} (hk : k < 8)
    (hf : ∀ j ≤ k, fold j (f :: st) a = fold j st b) (hs : Stops k rest) :
    run (f :: st) (some a) rest = run st (some b) rest := by
  have h₀ : fold 0 (f :: st) a = fold 0 st b := hf 0 (Nat.zero_le k)
  cases rest with
  | nil => simp only [run, h₀]
  | cons t ts =>
    cases t with
    | dot | opening => simp only [Stops] at hs; omega
    | operator o => simp only [run, hf o.level hs]
    | closing | comma | otherwise => simp only [run, h₀]
    | number n | truth b | word w | self l | bang | choice => rfl

/-- The reader goes through phrases with commas between them and takes them as arguments. -/
theorem run_commas {args : List (List Token × Phrase)} (hne : args ≠ [])
    (h : ∀ arg ∈ args, ∀ st rest, Fits 0 st → Stops 0 rest →
      run st none (arg.1 ++ rest) = run st (some arg.2) rest)
    (callee : Phrase) (done : List Phrase) (st : List Frame) (rest : List Token) :
    run (.args callee done :: st) none (commas (args.map Prod.fst) ++ .closing :: rest)
      = run st (some (.call callee (done ++ args.map Prod.snd))) rest := by
  induction args generalizing done with
  | nil => exact absurd rfl hne
  | cons arg args ih =>
    have harg := h arg mem_cons_self (.args callee done :: st)
    cases args with
    | nil => exact (harg (.closing :: rest) trivial trivial).trans rfl
    | cons next args =>
      have hrest := ih (cons_ne_nil _ _) (fun a ha => h a (mem_cons_of_mem _ ha))
        (done ++ [arg.2])
      rw [append_assoc, singleton_append] at hrest
      have hread := harg
        (.comma :: (commas ((next :: args).map Prod.fst) ++ .closing :: rest)) trivial trivial
      rw [map_cons, map_cons, commas, append_assoc, cons_append]
      · exact hread.trans hrest
      · exact fun h => cons_ne_nil _ _ h

/-- **The reader arrives at the phrase of a derivation.** -/
theorem Derives.run_append {ts : List Token} {a : Phrase} (h : Derives k ts a) :
    ∀ st rest, Fits k st → Stops k rest → run st none (ts ++ rest) = run st (some a) rest := by
  induction h with
  | number value | truth value | name word | self label => intro st rest _ _; rfl
  | @group ts a _ ih =>
    intro st rest _ _
    rw [cons_append, append_assoc, singleton_append]
    exact (ih (.group :: st) (.closing :: rest) trivial trivial).trans rfl
  | @member ts a _ word ih =>
    intro st rest hst _
    rw [append_assoc, ih st _ hst (stops_eight _)]
    rfl
  | @call ts a args _ _ ih iha =>
    intro st rest hst _
    rw [append_assoc, ih st _ hst (stops_eight _), cons_append, append_assoc, singleton_append]
    cases args with
    | nil => rfl
    | cons arg args =>
      exact (run_commas (cons_ne_nil _ _) iha a [] st rest).trans rfl
  | @signed ts a s _ ih =>
    intro st rest _ hrest
    have hread : run st none (s.token :: ts ++ rest) = run (.sign s :: st) none (ts ++ rest) := by
      cases s <;> rfl
    rw [hread, ih (.sign s :: st) rest (Nat.le_refl 7) hrest]
    exact run_cons (by decide) (fun j _ => rfl) hrest
  | @binary ls rs a b o _ _ ihl ihr =>
    intro st rest hst hrest
    have hlt := o.level_lt
    -- nothing on the stack takes the left operand, so the operator is put on top of it
    have hleft : run st (some a) (.operator o :: (rs ++ rest))
        = run (.left o a :: st) none (rs ++ rest) := by
      simp only [run, fold_of_fits hst]
    rw [append_assoc, cons_append,
      ihl st (.operator o :: (rs ++ rest)) hst (Nat.le_refl o.level), hleft,
      ihr (.left o a :: st) rest (Nat.lt_succ_self o.level) hrest.succ]
    refine run_cons (k := o.level) (by omega) (fun j hj => ?_) hrest
    simp only [fold, if_pos hj]
  | @choose ts ys ns a b c _ _ _ iht ihy ihn =>
    intro st rest _ hrest
    have htest := iht (.test :: st) (.closing :: (ys ++ .otherwise :: (ns ++ rest))) trivial trivial
    have hyes := ihy (.yes a :: st) (.otherwise :: (ns ++ rest)) trivial trivial
    have hno := ihn (.no a b :: st) rest trivial hrest
    have hfold : run (.no a b :: st) (some c) rest = run st (some (.choose a b c)) rest :=
      run_cons (by decide) (fun j hj => by obtain rfl := Nat.le_zero.1 hj; rfl) hrest
    calc run st none (.choice :: .opening :: (ts ++ .closing :: (ys ++ .otherwise :: ns)) ++ rest)
        = run (.test :: st) none (ts ++ .closing :: (ys ++ .otherwise :: (ns ++ rest))) := by
          simp [run]
      _ = run (.yes a :: st) none (ys ++ .otherwise :: (ns ++ rest)) := htest.trans rfl
      _ = run (.no a b :: st) none (ns ++ rest) := hyes.trans rfl
      _ = run st (some (.choose a b c)) rest := hno.trans hfold
  | @tighter k ts a _ ih => intro st rest hst hrest; exact ih st rest hst.succ hrest.succ

/-- **A list of tokens has one reading.** -/
theorem Derives.unique {ts : List Token} (ha : Derives 0 ts a) (hb : Derives 0 ts b) : a = b := by
  have hread : ∀ {c}, Derives 0 ts c → run [] none ts = some c := by
    intro c hc
    have := hc.run_append [] [] trivial trivial
    rw [append_nil] at this
    exact this.trans rfl
  exact Option.some.inj ((hread ha).symm.trans (hread hb))

/-- A text has one reading. -/
theorem Reads.unique {s : String} (ha : Reads s a) (hb : Reads s b) : a = b := by
  obtain ⟨ts, hts, ha⟩ := ha
  obtain ⟨us, hus, hb⟩ := hb
  obtain rfl := Option.some.inj (hts.symm.trans hus)
  exact ha.unique hb

end Kotlin
end ScreenForge
