/-
# Deadlines only cut

A run looks at the clock between its steps and gives up at the first reading that has reached the
deadline.  Where it looks is settled by what it converts and not by the clock (`looked`), so a run
under a deadline takes the readings that a run without one takes, as far as it goes.  A clock does
not run backwards, so the last reading decides.
-/
import ScreenForge.Proofs.Block.Walk
import ScreenForge.Proofs.Conversion.Agreement
import ScreenForge.Proofs.Layout.Complete
import ScreenForge.Proofs.Layout.Survey
import ScreenForge.Proofs.Scope.Defect

namespace ScreenForge

open List

/-! ### Clocks -/

/-- A clock that does not run backwards. -/
def Clock.IsForward (clock : Clock) : Prop := ∀ i j : Nat, i ≤ j → clock i ≤ clock j

theorem Deadline.expired_mono {d : Deadline} {now later : Int} (h : now ≤ later)
    (hexpired : d.expired now) : d.expired later := by
  unfold Deadline.expired at hexpired ⊢
  cases hn : d.seconds.nanoseconds? with
  | none => simp only [hn, Bool.false_eq_true] at hexpired
  | some n =>
    simp only [hn, decide_eq_true_eq] at hexpired ⊢
    omega

/-- **Once late, always late.** -/
theorem Timer.expiredAt_mono {timer : Timer} (hclock : timer.clock.IsForward) {i j : Nat}
    (h : i ≤ j) (hlate : timer.expiredAt i) : timer.expiredAt j := by
  unfold Timer.expiredAt at hlate ⊢
  cases hd : timer.deadline with
  | none => simp only [hd, Bool.false_eq_true] at hlate
  | some d =>
    simp only [hd] at hlate ⊢
    exact Deadline.expired_mono (hclock i j h) hlate

namespace Journal

/-! ### Where a run looks -/

/-- The stages in which a run without a deadline looks at the clock, look by look: those up to the
first fault. -/
def looked : List Entry → List Stage
  | [] => []
  | .look stage :: rest => stage :: looked rest
  | .note _ :: rest => looked rest
  | .stop _ :: _ => []

/-- **A run whose readings are all in time ends as it does without a deadline.** -/
theorem stopped?_of_early {timer : Timer} {index : Nat} {journal : List Entry}
    (h : ∀ n < (looked journal).length, timer.expiredAt (index + n) = false) :
    stopped? timer index journal = stopped? .unlimited 0 journal := by
  induction journal generalizing index with
  | nil => rfl
  | cons e rest ih =>
    cases e with
    | note d => exact ih h
    | stop cause => rfl
    | look stage =>
      have hfirst := h 0 (Nat.succ_pos _)
      unfold Timer.expiredAt at hfirst
      cases hd : timer.deadline with
      | none =>
        have hnever : ∀ i, timer.expiredAt i = false := fun i => by rw [Timer.expiredAt, hd]
        simp only [stopped?, hd]
        exact ih fun n _ => hnever _
      | some d =>
        simp only [hd, Nat.add_zero] at hfirst
        simp only [stopped?, hd, hfirst, Bool.false_eq_true, if_false]
        refine ih fun n hn => ?_
        have := h (n + 1) (Nat.succ_lt_succ hn)
        rwa [Nat.add_assoc, Nat.add_comm 1 n]

/-- **A run with a late reading times out**, in the stage of the first one. -/
theorem stopped?_of_late {timer : Timer} {index n : Nat} {journal : List Entry}
    (hn : n < (looked journal).length) (hlate : timer.expiredAt (index + n)) :
    ∃ d, timer.deadline = some d ∧ ∃ m stage, (looked journal)[m]? = some stage
      ∧ timer.expiredAt (index + m) ∧ (∀ k < m, timer.expiredAt (index + k) = false)
      ∧ stopped? timer index journal = some (.timeout stage d.seconds) := by
  induction journal generalizing index n with
  | nil => exact absurd hn (Nat.not_lt_zero n)
  | cons e rest ih =>
    cases e with
    | note d => exact ih hn hlate
    | stop cause => exact absurd hn (Nat.not_lt_zero n)
    | look stage =>
      cases hd : timer.deadline with
      | none => simp only [Timer.expiredAt, hd, Bool.false_eq_true] at hlate
      | some d =>
        cases hfirst : timer.expiredAt index with
        | true =>
          refine ⟨d, rfl, 0, stage, rfl, hfirst, fun k hk => absurd hk (Nat.not_lt_zero k), ?_⟩
          simp only [Timer.expiredAt, hd] at hfirst
          simp only [stopped?, hd, hfirst, if_true]
        | false =>
          obtain _ | n := n
          · exact absurd (hfirst.symm.trans hlate) Bool.false_ne_true
          have hnext : timer.expiredAt (index + 1 + n) := by
            rwa [Nat.add_assoc, Nat.add_comm 1 n]
          obtain ⟨d', hd', m, stage', hm, hlate', hearly, hstopped⟩ :=
            ih (Nat.lt_of_succ_lt_succ hn) hnext
          obtain rfl : d' = d := Option.some.inj (hd'.symm.trans hd)
          refine ⟨d', rfl, m + 1, stage', hm, ?_, fun k hk => ?_, ?_⟩
          · rwa [Nat.add_comm m 1, ← Nat.add_assoc]
          · obtain _ | k := k
            · exact hfirst
            · rw [Nat.add_comm k 1, ← Nat.add_assoc]
              exact hearly k (Nat.lt_of_succ_lt_succ hk)
          · simp only [Timer.expiredAt, hd] at hfirst
            simp only [stopped?, hd, hfirst, Bool.false_eq_true, if_false]
            exact hstopped

end Journal

/-! ### The faults of the stages -/

namespace Layout

/-- Reading a form looks at the clock before it does anything that could stop it. -/
theorem looked_journalOf (screen : Option String) (form : Form) (rest : List Journal.Entry) :
    (Journal.looked (journalOf screen form ++ rest))[0]? = some .layoutParsing := by
  rw [journalOf, readingOf]
  cases form.repaired <;> rfl

end Layout

namespace Conversion

open Component (Table)
open Journal (looked stopped? stops)

/-- A run that gave up for lack of time. -/
def TimesOut {α : Type} (run : Except Fault α) : Prop :=
  ∃ stage seconds, run = .error (.timeout stage seconds)

/-- The handler of refused descriptors lets timeouts through, and makes none. -/
theorem endOf_eq_timeout_iff {name : String} {fault : Fault} {stage : Stage} {seconds : Seconds} :
    endOf name fault = .error (.timeout stage seconds) ↔ fault = .timeout stage seconds := by
  cases fault <;> simp [endOf, isRefusal]

theorem eq_tooDeep_of_mem_stops {limit : Int} {root : Option Markup.Element} {fault : Fault}
    (h : fault ∈ stops (visitingOf limit root)) :
    fault = .malformedBlocks (.tooDeep limit) := by
  cases root with
  | none => cases h
  | some root =>
    have hhere : ∀ depth, ∀ f ∈ stops (Block.visitingHere limit depth),
        f = .malformedBlocks (.tooDeep limit) := by
      intro depth f hf
      rw [Block.visitingHere, Journal.stops_look] at hf
      split at hf
      · exact mem_singleton.1 hf
      · cases hf
    change fault ∈ stops (Block.visitingRoot limit root) at h
    rw [Block.visitingRoot_eq, stops, filterMap_flatMap] at h
    obtain ⟨m, -, hm⟩ := mem_flatMap.1 h
    change fault ∈ stops (m.entries limit) at hm
    unfold Block.Met.entries at hm
    split at hm
    · split at hm <;> cases hm
    · split at hm
      · cases hm
      · exact hhere _ _ hm
    · exact hhere _ _ hm

section
variable {table : Table} {settings : Settings} {timer : Timer} {source : ScreenSource}
  {package : String}

/-- **No stage faults with a timeout of its own.** -/
theorem not_timeout_of_mem_stops {limits : Limits} {repair : Bool} {fault : Fault}
    (h : fault ∈ stops (draft table limits repair source package).journal) (stage : Stage)
    (seconds : Seconds) : fault ≠ .timeout stage seconds := by
  have hlayout : ∀ form, ∀ f ∈ stops (Layout.journalOf (some source.name) form
      ++ Layout.placingScreen table (Layout.screenOf form)), f = .unboundedNumber := by
    intro form f hf
    rw [Journal.stops_append, Layout.stops_journalOf, nil_append] at hf
    exact Layout.eq_unboundedNumber_of_mem_stops hf
  unfold draft at h
  split at h
  · cases h
  · next form _ =>
    dsimp only at h
    split at h
    · rw [hlayout form _ h]
      exact Fault.noConfusion
    · next root _ =>
      rw [Journal.stops_append, Journal.stops_append, mem_append, mem_append] at h
      obtain (h | h) | h := h
      · rw [hlayout form _ h]
        exact Fault.noConfusion
      · rw [eq_tooDeep_of_mem_stops h]
        exact Fault.noConfusion
      · rw [Site.stops_program_eq] at h
        obtain ⟨s, -, hs⟩ := mem_filterMap.1 h
        rintro rfl
        unfold Block.fault? at hs
        split at hs
        · split at hs <;> cases hs
        · split at hs <;> cases hs
        · cases hs

variable (table settings source package) in
/-- The stages in which the conversion of a screen looks at the clock, look by look, if nothing
cuts it short. -/
def readings : List Stage :=
  looked (draft table settings.limits settings.repairDescriptors source package).journal

/-- Without a deadline a conversion does not time out. -/
theorem not_timesOut_unlimited :
    ¬ TimesOut (convertScreen table settings .unlimited source package) := by
  rintro ⟨stage, seconds, h⟩
  unfold convertScreen Draft.settle at h
  split at h
  · next fault hfault =>
    rw [Journal.stopped?_unlimited] at hfault
    exact not_timeout_of_mem_stops (mem_of_mem_head? hfault) stage seconds
      (endOf_eq_timeout_iff.1 h)
  · split at h
    · next fault hfault =>
      obtain rfl := endOf_eq_timeout_iff.1 h
      unfold draft at hfault
      split at hfault
      · cases hfault
      · dsimp only at hfault
        split at hfault <;> cases hfault
    · cases h

/-- If every reading is in time, the run ends as it does without a deadline. -/
theorem convertScreen_of_early
    (h : ∀ n < (readings table settings source package).length, timer.expiredAt n = false) :
    convertScreen table settings timer source package
      = convertScreen table settings .unlimited source package := by
  have hstopped := @Journal.stopped?_of_early timer 0 _ fun n hn =>
    (Nat.zero_add n).symm ▸ h n hn
  unfold convertScreen Draft.settle
  rw [hstopped]

/-- If one is late, the run times out in the stage of the first that is. -/
theorem convertScreen_of_late {n : Nat}
    (hn : n < (readings table settings source package).length)
    (hlate : timer.expiredAt n) :
    ∃ d, timer.deadline = some d ∧ ∃ m stage,
      (readings table settings source package)[m]? = some stage ∧ timer.expiredAt m
      ∧ (∀ k < m, timer.expiredAt k = false)
      ∧ convertScreen table settings timer source package
        = .error (.timeout stage d.seconds) := by
  obtain ⟨d, hd, m, stage, hm, hlate, hearly, hstopped⟩ :=
    @Journal.stopped?_of_late timer 0 n _ hn ((Nat.zero_add n).symm ▸ hlate)
  simp only [Nat.zero_add] at hlate hearly
  refine ⟨d, hd, m, stage, hm, hlate, hearly, ?_⟩
  unfold convertScreen Draft.settle
  rw [hstopped]
  exact endOf_eq_timeout_iff.2 rfl

/-- **A conversion times out exactly if one of its readings is late.** -/
theorem timesOut_iff :
    TimesOut (convertScreen table settings timer source package)
      ↔ ∃ n < (readings table settings source package).length, timer.expiredAt n := by
  constructor
  · intro hout
    by_contra hnone
    have hearly : ∀ n < (readings table settings source package).length,
        timer.expiredAt n = false :=
      fun n hn => Bool.eq_false_iff.2 fun hlate => hnone ⟨n, hn, hlate⟩
    exact not_timesOut_unlimited (convertScreen_of_early hearly ▸ hout)
  · rintro ⟨n, hn, hlate⟩
    obtain ⟨d, -, m, stage, -, -, -, hout⟩ := convertScreen_of_late hn hlate
    exact ⟨stage, d.seconds, hout⟩

/-- A screen whose layout is refused takes no reading, and any other takes its first one when it
reads the layout. -/
theorem readings_head? (table : Table) (settings : Settings) (timer : Timer)
    (source : ScreenSource) (package : String) :
    (∃ cause, Layout.form source.layout settings.limits settings.repairDescriptors = .error cause
        ∧ convertScreen table settings timer source package
          = .ok (.failed ⟨source.name, .malformedLayout cause⟩))
      ∨ (readings table settings source package)[0]? = some .layoutParsing := by
  unfold convertScreen readings draft
  cases Layout.form source.layout settings.limits settings.repairDescriptors with
  | error cause => exact .inl ⟨cause, rfl, rfl⟩
  | ok form =>
    right
    dsimp only
    split
    · exact Layout.looked_journalOf ..
    · simp only [append_assoc]
      exact Layout.looked_journalOf ..

end

/-- **Deadlines only cut.**  For a clock that does not run backwards, a conversion times out or ends
just as it does without a deadline.  It times out exactly if the last reading that a run without a
deadline takes is late, and then in the stage of its first late reading.  If the deadline has passed
before the start nothing is converted: the layout is refused, or the reading of it times out. -/
theorem deadline_only_cuts (table : Table) (settings : Settings) (source : ScreenSource)
    (package : String) (timer : Timer) (hclock : timer.clock.IsForward) :
    (TimesOut (convertScreen table settings timer source package)
      ∨ convertScreen table settings timer source package
        = convertScreen table settings .unlimited source package)
    ∧ ¬ TimesOut (convertScreen table settings .unlimited source package)
    ∧ (TimesOut (convertScreen table settings timer source package)
      ↔ ∃ n, (readings table settings source package).length = n + 1
        ∧ timer.expiredAt n = true)
    ∧ (∀ stage seconds,
      convertScreen table settings timer source package = .error (.timeout stage seconds) →
        ∃ m, (readings table settings source package)[m]? = some stage
          ∧ timer.expiredAt m = true ∧ ∀ k < m, timer.expiredAt k = false)
    ∧ ∀ d now, timer.deadline = some d → now ≤ timer.clock 0 → d.expired now = true →
      (∀ screen, convertScreen table settings timer source package ≠ .ok (.converted screen))
      ∧ (convertScreen table settings timer source package
          = .error (.timeout .layoutParsing d.seconds)
        ∨ ∃ cause, convertScreen table settings timer source package
          = .ok (.failed ⟨source.name, .malformedLayout cause⟩)) := by
  refine ⟨?_, not_timesOut_unlimited, ?_, ?_, ?_⟩
  · refine (em _).imp_right fun h => convertScreen_of_early fun n hn => ?_
    exact Bool.eq_false_iff.2 fun hlate => h (timesOut_iff.2 ⟨n, hn, hlate⟩)
  · rw [timesOut_iff]
    constructor
    · rintro ⟨n, hn, hlate⟩
      obtain ⟨last, hlast⟩ := Nat.exists_eq_add_one_of_ne_zero (Nat.ne_zero_of_lt hn)
      exact ⟨last, hlast, Timer.expiredAt_mono hclock (by omega) hlate⟩
    · rintro ⟨last, hlast, hlate⟩
      exact ⟨last, by omega, hlate⟩
  · intro stage seconds hout
    obtain ⟨n, hn, hlate⟩ := timesOut_iff.1 ⟨stage, seconds, hout⟩
    obtain ⟨d, -, m, stage', hm, hlate, hearly, hout'⟩ := convertScreen_of_late hn hlate
    obtain ⟨rfl, -⟩ := Fault.timeout.inj (Except.error.inj (hout.symm.trans hout'))
    exact ⟨m, hm, hlate, hearly⟩
  · intro d now hd hnow hexpired
    have hfirst : timer.expiredAt 0 := by
      rw [Timer.expiredAt, hd]
      exact Deadline.expired_mono hnow hexpired
    obtain ⟨cause, -, hfailed⟩ | hhead :=
      readings_head? table settings timer source package
    · exact ⟨fun screen h => (by rw [hfailed] at h; cases h), .inr ⟨cause, hfailed⟩⟩
    · obtain ⟨hlength, -⟩ := List.getElem?_eq_some_iff.1 hhead
      obtain ⟨d', hd', m, stage, hm, -, hearly, hout⟩ := convertScreen_of_late hlength hfirst
      obtain rfl : d' = d := Option.some.inj (hd'.symm.trans hd)
      obtain rfl : m = 0 := by
        by_contra hne
        exact absurd (hearly 0 (Nat.pos_of_ne_zero hne)) (by rw [hfirst]; decide)
      obtain rfl : stage = .layoutParsing := Option.some.inj (hm.symm.trans hhead)
      exact ⟨fun screen h => (by rw [hout] at h; cases h), .inl hout⟩

/-- A screen is not converted if its one second is over at the start. -/
theorem late_start_not_converted :
    (Clock.steady 1000000000).IsForward
      ∧ ∀ screen, convertScreen .packaged {} ⟨some ⟨.whole 1, 0⟩, .steady 1000000000⟩
        clickScreen "app" ≠ .ok (.converted screen) := by
  have hclock : (Clock.steady 1000000000).IsForward := by
    intro i j h
    unfold Clock.steady
    omega
  obtain ⟨-, -, -, -, hstart⟩ := deadline_only_cuts .packaged {} clickScreen "app"
    ⟨some ⟨.whole 1, 0⟩, .steady 1000000000⟩ hclock
  exact ⟨hclock, (hstart ⟨.whole 1, 0⟩ 1000000000 rfl (by decide) (by decide)).1⟩

end Conversion
end ScreenForge
