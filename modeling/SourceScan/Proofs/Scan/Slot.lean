import Mathlib.Data.List.Count
import SourceScan.Proofs.Steps
import SourceScan.Scan.Session

/-!
# Timers of a shared session

Callers that share a session put timers into its slot and take them out, in any order.  A call is
one step, except that a cancellation takes a timer out in one step and cancels it in a later one,
with steps of other callers between them.  No timer is lost, and none is let go twice.
-/

namespace SourceScan

inductive SlotCall (τ : Type) where
  | replaced (t : τ) (previous : Option τ)
  | cleared (t : τ) (found : Bool)
  /-- A cancellation, with the timer that it took out. -/
  | took (t : Option τ)
  deriving DecidableEq

/-- The caller was handed the timer as the one that was there before. -/
def SlotCall.returns {τ : Type} [DecidableEq τ] (t : τ) : SlotCall τ → Bool
  | .replaced _ previous => previous = some t
  | _ => false

structure SharedSlot (τ : Type) where
  session : Session τ
  /-- The calls so far, the first one first. -/
  calls : List (SlotCall τ)
  /-- The timers that are still to be cancelled, each with the number of the call that took it. -/
  owed : List (Nat × τ)
  /-- The timers that were cancelled, each time with the number of the call that did it. -/
  cancelled : List (Nat × τ)

inductive SlotStep (τ : Type) where
  | replace (t : τ)
  | clear (t : τ)
  /-- A cancellation begins. -/
  | take
  /-- A cancellation goes on. -/
  | cancel (k : Nat) (t : τ)
  /-- A scan takes or leaves the session. -/
  | work (scanning : Bool)
  deriving DecidableEq

/-- What may have become of a timer: it is in the slot, or it was returned to the caller that
replaced it, or it was cleared, or a cancellation took it out. -/
inductive TimerFate where
  | held
  | returned
  | cleared
  | cancelled
  deriving DecidableEq

namespace SharedSlot

variable {τ : Type} [DecidableEq τ]

def make (session : Session τ) : SharedSlot τ := ⟨session, [], [], []⟩

def step (l : SharedSlot τ) : SlotStep τ → Option (SharedSlot τ)
  | .replace t =>
      let r := l.session.replaceTimer t
      some { l with session := r.2, calls := l.calls ++ [.replaced t r.1] }
  | .clear t =>
      let r := l.session.clearTimer t
      some { l with session := r.2, calls := l.calls ++ [.cleared t r.1] }
  | .take =>
      let r := l.session.cancelTimer
      some
        { l with
          session := r.2
          calls := l.calls ++ [.took r.1]
          owed := l.owed ++ r.1.toList.map (l.calls.length, ·) }
  | .cancel k t =>
      if (k, t) ∈ l.owed then
        some { l with owed := l.owed.erase (k, t), cancelled := l.cancelled ++ [(k, t)] }
      else none
  | .work scanning => some { l with session := { l.session with scanning } }

def run (l : SharedSlot τ) (es : List (SlotStep τ)) : Option (SharedSlot τ) := es.foldlM step l

theorem run_append (l : SharedSlot τ) (es more : List (SlotStep τ)) :
    l.run (es ++ more) = (l.run es).bind (run · more) :=
  List.foldlM_append

def times (l : SharedSlot τ) (t : τ) : TimerFate → Nat
  | .held => if l.session.timer = some t then 1 else 0
  | .returned => l.calls.countP (·.returns t)
  | .cleared => l.calls.count (.cleared t true)
  | .cancelled => l.calls.count (.took (some t))

def total (l : SharedSlot τ) (t : τ) : Nat :=
  l.times t .held + l.times t .returned + l.times t .cleared + l.times t .cancelled

variable {l l' : SharedSlot τ} {e : SlotStep τ} {es : List (SlotStep τ)} {t : τ} {k : Nat}

/-! ## No timer is lost -/

/-- A step stores the timer, moves it from one fate to another, or leaves it where it is. -/
theorem total_step (hstep : l.step e = some l') (t : τ) :
    l'.total t = l.total t + if e = .replace t then 1 else 0 := by
  cases e with
  | replace s =>
      cases hstep
      -- What was in the slot is returned, so that the one timer comes for the other.
      by_cases hs : s = t <;> by_cases hslot : l.session.timer = some t <;>
        simp [total, times, Session.replaceTimer, SlotCall.returns, hs, hslot]
      all_goals omega
  | clear s =>
      cases hstep
      by_cases hslot : l.session.timer = some s
      · by_cases hs : s = t <;>
          simp [total, times, Session.clearTimer, SlotCall.returns, hs, hslot]
        omega
      · -- A call that does not find its timer in the slot counts for no fate.
        simp [total, times, Session.clearTimer, SlotCall.returns, hslot]
  | take =>
      cases hstep
      by_cases hslot : l.session.timer = some t <;>
        simp [total, times, Session.cancelTimer, SlotCall.returns, hslot]
      omega
  | cancel k s =>
      simp only [step] at hstep
      split at hstep
      · cases hstep
        rfl
      · cases hstep
  | work scanning =>
      cases hstep
      rfl

theorem total_run (hrun : l.run es = some l') (t : τ) :
    l'.total t = l.total t + es.count (.replace t) := by
  induction es generalizing l with
  | nil =>
      cases hrun
      rfl
  | cons e es ih =>
      obtain ⟨next, hnext, hrest⟩ := Option.bind_eq_some_iff.1 hrun
      rw [ih hrest, total_step hnext, List.count_cons]
      simp only [beq_iff_eq]
      omega

theorem total_make {session : Session τ} (hslot : session.timer = none) (t : τ) :
    (make session).total t = 0 := by
  simp [total, times, make, hslot]

theorem times_le_total (l : SharedSlot τ) (t : τ) (fate : TimerFate) :
    l.times t fate ≤ l.total t := by
  cases fate <;> simp only [total] <;> omega

theorem times_add_times_le (l : SharedSlot τ) (t : τ) {fate other : TimerFate}
    (hne : other ≠ fate) : l.times t fate + l.times t other ≤ l.total t := by
  cases fate <;> cases other <;> simp [total] at hne ⊢ <;> omega

theorem exists_fate (h : l.total t = 1) :
    ∃ fate, l.times t fate = 1 ∧ ∀ other, other ≠ fate → l.times t other = 0 := by
  obtain ⟨fate, hpos⟩ : ∃ fate, 0 < l.times t fate := by
    by_contra hnone
    simp only [not_exists, Nat.not_lt, Nat.le_zero] at hnone
    simp [total, hnone] at h
  refine ⟨fate, ?_, fun other hother => ?_⟩
  · have hle := l.times_le_total t fate
    omega
  · have hle := l.times_add_times_le t hother
    omega

/-! ## No timer is cancelled twice -/

/-- A call cancels the timer that it took out, once, and no other.  It may not have come to it. -/
def Settles (l : SharedSlot τ) : Prop :=
  ∀ k t, l.cancelled.count (k, t) + l.owed.count (k, t) =
    if l.calls[k]? = some (.took (some t)) then 1 else 0

omit [DecidableEq τ] in
theorem getElem?_concat_iff {calls : List (SlotCall τ)} {c d : SlotCall τ} :
    (calls ++ [c])[k]? = some d ↔ calls[k]? = some d ∨ k = calls.length ∧ c = d := by
  rw [List.getElem?_append]
  split
  · next hlt => simp [Nat.ne_of_lt hlt]
  · next hge =>
      rw [List.getElem?_eq_none (Nat.le_of_not_lt hge), List.getElem?_singleton]
      split <;> simp <;> omega

namespace Settles

theorem call (h : l.Settles) (c : SlotCall τ) (hc : ∀ t, c ≠ .took (some t))
    (session : Session τ) : Settles { l with session, calls := l.calls ++ [c] } := by
  intro k t
  simp only [getElem?_concat_iff, hc, and_false, or_false]
  exact h k t

theorem take (h : l.Settles) : Settles
    { l with
      session := l.session.cancelTimer.2
      calls := l.calls ++ [.took l.session.timer]
      owed := l.owed ++ l.session.timer.toList.map (l.calls.length, ·) } := by
  cases hslot : l.session.timer with
  | none => simpa using h.call (.took none) nofun l.session.cancelTimer.2
  | some s =>
      intro k t
      simp only [Option.toList_some, List.map_singleton]
      rw [List.count_append, ← Nat.add_assoc, h k t, List.count_singleton]
      by_cases hk : k = l.calls.length
      · subst hk
        simp
      · simp [getElem?_concat_iff, hk, Ne.symm hk]

theorem cancel (h : l.Settles) (howed : (k, t) ∈ l.owed) : Settles
    { l with owed := l.owed.erase (k, t), cancelled := l.cancelled ++ [(k, t)] } := by
  intro i s
  have hbefore := h i s
  have hpos := List.count_pos_iff.2 howed
  simp only [List.count_append, List.count_singleton, List.count_erase]
  by_cases hsame : (k, t) = (i, s)
  · rw [hsame] at hpos
    simp only [hsame, beq_self_eq_true, if_true]
    omega
  · simpa [hsame] using hbefore

theorem step (h : l.Settles) (hstep : l.step e = some l') : l'.Settles := by
  cases e with
  | replace s =>
      cases hstep
      exact h.call (.replaced s _) nofun _
  | clear s =>
      cases hstep
      exact h.call (.cleared s _) nofun _
  | take =>
      cases hstep
      exact h.take
  | cancel k s =>
      simp only [SharedSlot.step] at hstep
      split at hstep
      · next howed =>
          cases hstep
          exact h.cancel howed
      · cases hstep
  | work scanning =>
      cases hstep
      exact h

theorem run (h : l.Settles) (hrun : l.run es = some l') : l'.Settles :=
  keeps_of_foldlM_some (fun _ => step) h hrun

end Settles

theorem settles_make (session : Session τ) : (make session).Settles :=
  fun _ _ => by simp [make]

/-! ## Runs of a shared slot -/

/-- However calls on the slot interleave: a timer that was stored once has met one fate and no
other, and that once.  It is in the slot, or a call that replaced it has returned it, or a call
that cleared this very timer, or a cancellation, has taken it out; and none of that has happened
before it was stored.  A cancellation cancels the timer that it took out once, and no other call
cancels a timer.  To clear a timer that is not in the slot changes nothing. -/
theorem timer_fates {session : Session τ} (hslot : session.timer = none)
    (hrun : (make session).run es = some l) :
    (∀ t, es.count (.replace t) = 1 →
        ∃ fate, l.times t fate = 1 ∧ ∀ other, other ≠ fate → l.times t other = 0) ∧
      (∀ t before after, es = before ++ after → .replace t ∉ before →
        ∃ earlier, (make session).run before = some earlier ∧
          ∀ fate, earlier.times t fate = 0) ∧
      (∀ k t, l.cancelled.count (k, t) + l.owed.count (k, t) =
        if l.calls[k]? = some (.took (some t)) then 1 else 0) ∧
      (∀ t l', l.step (.replace t) = some l' ∨ l.step (.clear t) = some l' →
        l'.cancelled = l.cancelled ∧ l'.owed = l.owed) ∧
      ∀ t, l.session.timer ≠ some t →
        l.step (.clear t) = some { l with calls := l.calls ++ [.cleared t false] } := by
  refine ⟨fun t honce => exists_fate ?_, ?_, (settles_make session).run hrun,
    fun t l' hstep => ?_, fun t hout => ?_⟩
  · rw [total_run hrun, total_make hslot, honce]
  · rintro t before after rfl hnot
    rw [run_append] at hrun
    obtain ⟨earlier, hearlier, -⟩ := Option.bind_eq_some_iff.1 hrun
    refine ⟨earlier, hearlier, fun fate => Nat.eq_zero_of_le_zero ?_⟩
    have htotal : earlier.total t = 0 := by
      rw [total_run hearlier, total_make hslot, List.count_eq_zero.2 hnot]
    exact htotal ▸ earlier.times_le_total t fate
  · rcases hstep with hstep | hstep <;> cases hstep <;> exact ⟨rfl, rfl⟩
  · simp [step, Session.clearTimer, hout]

/-- The first timer is replaced, and clearing it afterwards does nothing.  While the second is
about to be cancelled, a third comes, which is cleared. -/
def slotRun : List (SlotStep Nat) :=
  [.replace 1, .replace 2, .clear 1, .take, .replace 3, .cancel 3 2, .clear 3, .replace 4]

def slotEnd : SharedSlot Nat :=
  ⟨⟨false, some 4⟩,
    [.replaced 1 none, .replaced 2 (some 1), .cleared 1 false, .took (some 2), .replaced 3 none,
      .cleared 3 true, .replaced 4 none], [], [(3, 2)]⟩

theorem timer_fates_overtaken : (make .idle).run slotRun = some slotEnd ∧
    (∀ t ∈ [1, 2, 3, 4], slotRun.count (.replace t) = 1 ∧
      ∃ fate, slotEnd.times t fate = 1 ∧ ∀ other, other ≠ fate → slotEnd.times t other = 0) ∧
    slotEnd.times 1 .returned = 1 ∧ slotEnd.times 2 .cancelled = 1 ∧
    slotEnd.times 3 .cleared = 1 ∧ slotEnd.times 4 .held = 1 := by
  have hrun : (make .idle).run slotRun = some slotEnd := rfl
  obtain ⟨hfate, -⟩ := timer_fates rfl hrun
  have honce : ∀ t ∈ [1, 2, 3, 4], slotRun.count (.replace t) = 1 := by decide
  exact ⟨hrun, fun t ht => ⟨honce t ht, hfate t (honce t ht)⟩, by decide⟩

end SharedSlot

end SourceScan
