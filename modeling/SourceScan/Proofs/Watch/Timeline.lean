import SourceScan.Proofs.Watch.Pending
import SourceScan.Watch.Timeline

/-!
# Timelines

On a timeline the calls of a debouncer are told apart by the time they are made at, and timers
wake when they are due.  What happens to the debouncer there is one of the interleavings that
may happen, so the slot of the session and the alarms that are set stay in step.
-/

namespace SourceScan

theorem LiveDebouncer.run_append (l : LiveDebouncer) (es more : List Stir) :
    l.run (es ++ more) = (l.run es).bind (run · more) :=
  List.foldlM_append

theorem Debouncer.mem_of_next? {b : Debouncer} {t : TimerId} {due : Nat}
    (h : b.next? = some (t, due)) : ∃ a ∈ b.sleeping, a.timer = t := by
  unfold next? at h
  revert h
  refine List.foldlRecOn (motive := fun best => best = some (t, due) →
    ∃ a ∈ b.sleeping, a.timer = t) b.sleeping _ (fun h => by cases h) ?_
  intro best ih a ha h
  split at h
  · exact ih h
  · cases h
    exact ⟨a, ha, rfl⟩
  · split at h
    · cases h
      exact ⟨a, ha, rfl⟩
    · exact ih h

namespace Timeline

variable {calls : Nat → Call} {delay : Option Nat} {l : Timeline} {t : TimerId}

/-- The debouncer of the timeline has come to where it is by happenings that may interleave. -/
def Follows (delay : Option Nat) (l : Timeline) : Prop :=
  ∃ es live, (LiveDebouncer.make delay .idle).run es = some live ∧
    live.debouncer = l.debouncer ∧ live.session = l.session

theorem next?_cases {due : Nat} {happen : Timeline → Timeline}
    (h : l.next? = some (due, happen)) :
    (∃ t, happen = (·.wake t) ∧ ∃ a ∈ l.debouncer.sleeping, a.timer = t) ∨
      ∀ l, (happen l).debouncer = l.debouncer ∧ (happen l).session = l.session := by
  unfold next? at h
  cases hnext : l.debouncer.next? with
  | none =>
      rw [hnext] at h
      obtain ⟨⟨⟨time, e⟩, rest⟩, -, heq⟩ := Option.map_eq_some_iff.1 h
      cases heq
      exact .inr fun l => by cases e <;> exact ⟨rfl, rfl⟩
  | some alarm =>
      obtain ⟨t, first⟩ := alarm
      have hsleeps := Debouncer.mem_of_next? hnext
      rw [hnext] at h
      cases hpop : l.endings.pop? with
      | none =>
          simp only [hpop, Option.map_none, Option.some.injEq, Prod.mk.injEq] at h
          exact .inl ⟨t, h.2.symm, hsleeps⟩
      | some popped =>
          obtain ⟨⟨time, e⟩, rest⟩ := popped
          simp only [hpop, Option.map_some] at h
          split at h
          · cases h
            exact .inl ⟨t, rfl, hsleeps⟩
          · cases h
            exact .inr fun l => by cases e <;> exact ⟨rfl, rfl⟩

namespace Follows

theorem of_same {l' : Timeline} (h : l.Follows delay) (hdebouncer : l'.debouncer = l.debouncer)
    (hsession : l'.session = l.session) : l'.Follows delay := by
  obtain ⟨es, live, hrun, hlive, hslot⟩ := h
  exact ⟨es, live, hrun, hlive.trans hdebouncer.symm, hslot.trans hsession.symm⟩

theorem next {l' : Timeline} (h : l.Follows delay)
    (hstep : ∀ live : LiveDebouncer, live.InStep → live.debouncer = l.debouncer →
      live.session = l.session → ∃ e live', live.step e = some live' ∧
        live'.debouncer = l'.debouncer ∧ live'.session = l'.session) : l'.Follows delay := by
  obtain ⟨es, live, hrun, hdebouncer, hsession⟩ := h
  obtain ⟨e, live', hnext, hafter⟩ :=
    hstep live ((LiveDebouncer.inStep_make delay rfl).run hrun) hdebouncer hsession
  refine ⟨es ++ [e], live', ?_, hafter⟩
  rw [LiveDebouncer.run_append, hrun, Option.bind_some]
  simp [LiveDebouncer.run, hnext]

theorem change (h : l.Follows delay) : l.change.Follows delay := by
  refine h.next fun live _ hdebouncer hsession => ⟨.change l.now, _, rfl, ?_, ?_⟩
  · rw [hdebouncer, hsession]
    rfl
  · rw [hdebouncer, hsession]
    rfl

theorem cancel (h : l.Follows delay) : l.cancel.2.Follows delay := by
  refine h.next fun live _ hdebouncer hsession => ⟨.cancel, _, rfl, ?_, ?_⟩
  · rw [hdebouncer, hsession]
    rfl
  · rw [hsession]
    rfl

theorem begin (h : l.Follows delay) (changes : Nat) : (l.begin changes).Follows delay := by
  refine h.of_same ?_ ?_ <;>
  · unfold Timeline.begin
    dsimp only
    split <;> rfl

theorem wake (h : l.Follows delay) (hsleeps : ∃ a ∈ l.debouncer.sleeping, a.timer = t) :
    (l.wake t).Follows delay := by
  refine begin (h.next fun live hlive hdebouncer hsession => ?_) _
  have hasleep : live.lives[t]? = some .asleep := by
    rw [hlive.asleep t, ← hlive.alarm t, hdebouncer]
    exact hsleeps
  refine ⟨.wake t, _, by simp [LiveDebouncer.step, LiveDebouncer.pass, hasleep]; rfl, ?_, ?_⟩
  · rw [hdebouncer, hsession]
    rfl
  · rw [hdebouncer, hsession]
    rfl

theorem run (h : l.Follows delay) (stop fuel : Nat) : (Timeline.run stop fuel l).Follows delay := by
  induction fuel generalizing l with
  | zero => exact h.of_same rfl rfl
  | succ fuel ih =>
      rw [Timeline.run]
      split
      · next due happen hnext =>
          split
          · rcases next?_cases hnext with ⟨t, rfl, hsleeps⟩ | hquiet
            · exact ih (wake (h.of_same rfl rfl) hsleeps)
            · obtain ⟨hdebouncer, hsession⟩ := hquiet { l with now := max l.now due }
              exact ih (h.of_same hdebouncer hsession)
          · exact h.of_same rfl rfl
      · exact h.of_same rfl rfl

theorem advance (h : l.Follows delay) (time : Nat) : (l.advance time).Follows delay := by
  unfold Timeline.advance
  dsimp only
  split
  · exact h.run _ _
  · have hwaits : Follows delay
        { l with endings := l.endings.push (l.now + time) .pause } := h.of_same rfl rfl
    exact hwaits.run _ _

theorem flush (h : l.Follows delay) : l.flush.2.Follows delay := by
  unfold Timeline.flush
  split
  · exact h
  · next b session hflush =>
      refine (begin (h.next fun live _ hdebouncer hsession => ⟨.flush, ?_⟩) _).run _ _
      rw [← hdebouncer, ← hsession] at hflush
      exact ⟨_, by rw [LiveDebouncer.step, hflush], rfl, rfl⟩

end Follows

inductive Reached (calls : Nat → Call) (delay : Option Nat) : Timeline → Prop
  | start : Reached calls delay (.make calls delay)
  | change {l : Timeline} (h : Reached calls delay l) : Reached calls delay l.change
  | advance {l : Timeline} (h : Reached calls delay l) (time : Nat) :
      Reached calls delay (l.advance time)
  | flush {l : Timeline} (h : Reached calls delay l) : Reached calls delay l.flush.2
  | cancel {l : Timeline} (h : Reached calls delay l) : Reached calls delay l.cancel.2

/-- What a timeline does to its debouncer are happenings that may interleave. -/
theorem follows_of_reached (h : Reached calls delay l) : l.Follows delay := by
  induction h with
  | start => exact ⟨[], _, rfl, rfl, rfl⟩
  | change _ ih => exact ih.change
  | advance _ time ih => exact ih.advance time
  | flush _ ih => exact ih.flush
  | cancel _ ih => exact ih.cancel

theorem alarm_iff_of_reached (h : Reached calls delay l) :
    (∀ t, (∃ a ∈ l.debouncer.sleeping, a.timer = t) ↔ l.session.timer = some t) ∧
      (l.session.timer.isSome = true ↔ 0 < l.debouncer.pendingEvents) := by
  obtain ⟨es, live, hrun, hdebouncer, hsession⟩ := follows_of_reached h
  have hlive := (LiveDebouncer.inStep_make delay rfl).run hrun
  rw [← hdebouncer, ← hsession]
  exact ⟨hlive.alarm, hlive.slot⟩

end Timeline

end SourceScan
