import SourceScan.Proofs.Watch.Quiet

/-!
# What a pending trigger stands for

A debouncer is called while timers of its sleep and while calls of its trigger are under way,
in any order.  The slot of the session, the number of pending changes and the lives of the
timers stay in step: the timer in the slot is the only one that may still wake, there is one
exactly while changes are pending, and these are the changes since the trigger fired last or
was forgotten.  No call that a trigger has begun is ever cut short.
-/

namespace SourceScan

namespace Debouncer

variable {b : Debouncer} {session : Session TimerId}

theorem pendingEvents_drop? (b : Debouncer) (slot : Option TimerId) :
    (b.drop? slot).pendingEvents = b.pendingEvents := by
  cases slot <;> rfl

theorem started_drop? (b : Debouncer) (slot : Option TimerId) :
    (b.drop? slot).started = b.started := by
  cases slot <;> rfl

theorem pendingEvents_change (b : Debouncer) (now : Nat) (session : Session TimerId) :
    (b.change now session).1.pendingEvents = b.pendingEvents + 1 :=
  pendingEvents_drop? _ session.timer

theorem started_change (b : Debouncer) (now : Nat) (session : Session TimerId) :
    (b.change now session).1.started = b.started + 1 :=
  started_drop? _ session.timer

theorem timer_change (b : Debouncer) (now : Nat) (session : Session TimerId) :
    (b.change now session).2.timer = some b.started :=
  rfl

theorem exists_alarm_change {now : Nat} (hnew : session.timer ≠ some b.started) :
    ∃ a ∈ (b.change now session).1.sleeping, a.timer = b.started := by
  refine ⟨⟨b.started, b.delay.map (now + ·)⟩, ?_, rfl⟩
  cases hslot : session.timer with
  | none => simp [Debouncer.change, Session.replaceTimer, hslot, drop?]
  | some t =>
      have hne : b.started ≠ t := fun heq => hnew (heq ▸ hslot)
      simp [Debouncer.change, Session.replaceTimer, hslot, drop?, drop, hne]

end Debouncer

inductive Life where
  /-- It has not woken, though its sleep may have ended. -/
  | asleep
  /-- It was cancelled before it woke, and has not come to its end. -/
  | doomed
  /-- It has woken, and the call of its trigger is under way. -/
  | firing
  /-- It was cancelled while the call was under way. -/
  | cutShort
  | over
  deriving DecidableEq, Repr

def Life.cancel : Life → Life
  | .asleep => .doomed
  | .firing => .cutShort
  | life => life

inductive Mark where
  | change
  | fire
  | cancel
  deriving DecidableEq, Repr

structure LiveDebouncer where
  debouncer : Debouncer
  session : Session TimerId
  /-- What has become of each timer, by their numbers. -/
  lives : List Life
  /-- The number of flushes whose call is under way. -/
  flushing : Nat
  /-- What has been told and done, the latest first. -/
  marks : List Mark

inductive Stir where
  | change (now : Nat)
  | flush
  | cancel
  | wake (t : TimerId)
  /-- A timer that was cancelled comes to its end. -/
  | lapse (t : TimerId)
  /-- The call that a timer has begun ends or fails. -/
  | ended (t : TimerId) (failed : Bool)
  /-- The call that a flush has begun ends or fails. -/
  | flushed (failed : Bool)
  /-- A scan takes or leaves the session. -/
  | work (scanning : Bool)

namespace LiveDebouncer

def make (delay : Option Nat) (session : Session TimerId) : LiveDebouncer :=
  ⟨.make delay, session, [], 0, []⟩

def strike (slot : Option TimerId) (lives : List Life) : List Life :=
  match slot with
  | some t => lives.modify t Life.cancel
  | none => lives

/-- The timer goes on to another part of its life, if it has got to the one before. -/
def pass (l : LiveDebouncer) (t : TimerId) (before after : Life) : Option LiveDebouncer :=
  if l.lives[t]? = some before then some { l with lives := l.lives.set t after } else none

def step (l : LiveDebouncer) : Stir → Option LiveDebouncer
  | .change now =>
      let r := l.debouncer.change now l.session
      some
        { l with
          debouncer := r.1
          session := r.2
          lives := strike l.session.timer l.lives ++ [.asleep]
          marks := .change :: l.marks }
  | .flush =>
      match l.debouncer.flush l.session with
      | none => some l
      | some (debouncer, session) =>
          some
            { l with
              debouncer, session
              lives := strike l.session.timer l.lives
              flushing := l.flushing + 1
              marks := .fire :: l.marks }
  | .cancel =>
      let r := (l.debouncer.cancel l.session).2
      some
        { l with
          debouncer := r.1
          session := r.2
          lives := strike l.session.timer l.lives
          marks := .cancel :: l.marks }
  | .wake t =>
      (l.pass t .asleep .firing).map fun l =>
        let r := l.debouncer.wake t l.session
        { l with debouncer := r.1, session := r.2, marks := .fire :: l.marks }
  | .lapse t => l.pass t .doomed .over
  | .ended t _ => l.pass t .firing .over
  | .flushed _ =>
      match l.flushing with
      | 0 => none
      | flushing + 1 => some { l with flushing }
  | .work scanning => some { l with session := { l.session with scanning } }

def run (l : LiveDebouncer) (es : List Stir) : Option LiveDebouncer := es.foldlM step l

/-- The number of changes since the trigger fired last or was forgotten. -/
def changes (l : LiveDebouncer) : Nat := (l.marks.takeWhile (· = .change)).length

/-- What the slot, the pending changes and the lives of the timers have to do with each other. -/
structure InStep (l : LiveDebouncer) : Prop where
  started : l.lives.length = l.debouncer.started
  /-- The timer in the slot, and no other, may still wake. -/
  asleep : ∀ t, l.lives[t]? = some .asleep ↔ l.session.timer = some t
  alarm : ∀ t, (∃ a ∈ l.debouncer.sleeping, a.timer = t) ↔ l.session.timer = some t
  slot : l.session.timer.isSome = true ↔ 0 < l.debouncer.pendingEvents
  pending : l.debouncer.pendingEvents = l.changes
  whole : .cutShort ∉ l.lives

variable {l l' : LiveDebouncer} {es : List Stir} {t : TimerId}

namespace InStep

theorem inSlot (h : l.InStep) : l.debouncer.InSlot l.session :=
  fun a ha => (h.alarm a.timer).1 ⟨a, ha, rfl⟩

theorem empty_iff (h : l.InStep) : l.session.timer = none ↔ l.debouncer.pendingEvents = 0 := by
  have hslot := h.slot
  rw [← Option.not_isSome_iff_eq_none, hslot]
  omega

theorem lt_started (h : l.InStep) (hslot : l.session.timer = some t) :
    t < l.debouncer.started := by
  obtain ⟨hlt, -⟩ := List.getElem?_eq_some_iff.1 ((h.asleep t).2 hslot)
  exact h.started ▸ hlt

/-! ## Cancelling the timer in the slot -/

theorem getElem?_strike (slot : Option TimerId) (lives : List Life) (t : TimerId) :
    (strike slot lives)[t]? =
      if slot = some t then lives[t]?.map Life.cancel else lives[t]? := by
  cases slot with
  | none => rfl
  | some s =>
      rw [strike, List.getElem?_modify]
      by_cases hs : s = t <;> simp [hs]

theorem length_strike (slot : Option TimerId) (lives : List Life) :
    (strike slot lives).length = lives.length := by
  cases slot with
  | none => rfl
  | some s => simp [strike]

theorem strike_ne_asleep (h : l.InStep) (t : TimerId) :
    (strike l.session.timer l.lives)[t]? ≠ some .asleep := by
  rw [getElem?_strike]
  split
  · next hslot =>
      rw [(h.asleep t).2 hslot]
      simp [Life.cancel]
  · next hslot => exact fun hat => hslot ((h.asleep t).1 hat)

theorem cutShort_not_mem_strike (h : l.InStep) :
    .cutShort ∉ strike l.session.timer l.lives := by
  intro hmem
  obtain ⟨t, hat⟩ := List.mem_iff_getElem?.1 hmem
  rw [getElem?_strike] at hat
  split at hat
  · next hslot =>
      rw [(h.asleep t).2 hslot] at hat
      simp [Life.cancel] at hat
  · exact h.whole (List.mem_of_getElem? hat)

theorem struck (h : l.InStep) {b : Debouncer} {session : Session TimerId} {m : Mark}
    (hstarted : b.started = l.debouncer.started) (hsleeping : b.sleeping = [])
    (hpending : b.pendingEvents = 0) (hslot : session.timer = none) (hm : m ≠ .change)
    (flushing : Nat) (marks : List Mark) :
    InStep ⟨b, session, strike l.session.timer l.lives, flushing, m :: marks⟩ := by
  refine ⟨?_, fun t => ?_, fun t => ?_, ?_, ?_, h.cutShort_not_mem_strike⟩
  · rw [length_strike, h.started, hstarted]
  · simp [h.strike_ne_asleep t, hslot]
  · simp [hsleeping, hslot]
  · simp [hslot, hpending]
  · simp [changes, hm, hpending]

/-! ## One happening -/

theorem change (h : l.InStep) {now : Nat} (hstep : l.step (.change now) = some l') :
    l'.InStep := by
  cases hstep
  refine ⟨?_, fun t => ?_, fun t => ⟨?_, ?_⟩, ?_, ?_, ?_⟩
  · rw [List.length_append, length_strike, h.started, Debouncer.started_change]
    rfl
  · rw [List.getElem?_append, length_strike, h.started]
    split
    · next hlt => exact iff_of_false (h.strike_ne_asleep t) fun hslot =>
        Nat.ne_of_gt hlt (Option.some.inj hslot)
    · next hge =>
        rw [Debouncer.timer_change, Option.some.injEq, List.getElem?_singleton]
        split <;> simp <;> omega
  · rintro ⟨a, ha, rfl⟩
    exact h.inSlot.change now a ha
  · intro hslot
    obtain rfl := Option.some.inj hslot
    exact Debouncer.exists_alarm_change fun hold => Nat.lt_irrefl _ (h.lt_started hold)
  · simp [Debouncer.timer_change, Debouncer.pendingEvents_change]
  · rw [Debouncer.pendingEvents_change, h.pending]
    simp [changes]
  · rw [List.mem_append, not_or]
    exact ⟨h.cutShort_not_mem_strike, by simp⟩

theorem flush (h : l.InStep) (hstep : l.step .flush = some l') : l'.InStep := by
  cases hslot : l.session.timer with
  | none =>
      simp only [step, Debouncer.flush, Session.cancelTimer, hslot, Option.map_none,
        Option.some.injEq] at hstep
      exact hstep ▸ h
  | some t =>
      simp only [step, Debouncer.flush, Session.cancelTimer, hslot, Option.map_some,
        Option.some.injEq] at hstep
      subst hstep
      have hdrop := h.inSlot.drop_slot
      rw [hslot] at hdrop
      rw [← hslot]
      refine h.struck ?_ ?_ ?_ ?_ (by decide) _ _
      · rfl
      · exact hdrop
      · rfl
      · rfl

theorem cancel (h : l.InStep) (hstep : l.step .cancel = some l') : l'.InStep := by
  cases hstep
  refine h.struck ?_ ?_ ?_ ?_ (by decide) _ _
  · exact Debouncer.started_drop? _ l.session.timer
  · exact h.inSlot.cancel
  · rfl
  · rfl

/-- A timer goes on to a part of its life in which it does not sleep, and it is not cut short. -/
theorem pass (h : l.InStep) {before after : Life} (hbefore : before ≠ .asleep)
    (hafter : after ≠ .asleep) (hwhole : after ≠ .cutShort)
    (hpass : l.pass t before after = some l') : l'.InStep := by
  unfold LiveDebouncer.pass at hpass
  split at hpass
  · next hat =>
      cases hpass
      refine ⟨?_, fun s => ?_, h.alarm, h.slot, h.pending, fun hmem => ?_⟩
      · rw [List.length_set, h.started]
      · rw [← h.asleep s, List.getElem?_set]
        split
        · next heq =>
            subst heq
            rw [hat]
            split <;> simp [hbefore, hafter]
        · rfl
      · rcases List.mem_or_eq_of_mem_set hmem with hold | hnew
        · exact h.whole hold
        · exact hwhole hnew.symm
  · cases hpass

theorem wake (h : l.InStep) (hstep : l.step (.wake t) = some l') : l'.InStep := by
  obtain ⟨woken, hpass, rfl⟩ := Option.map_eq_some_iff.1 hstep
  unfold LiveDebouncer.pass at hpass
  split at hpass
  · next hat =>
      cases hpass
      have hslot := (h.asleep t).1 hat
      obtain ⟨hnone, hempty⟩ := h.inSlot.wake ((h.alarm t).2 hslot)
      refine ⟨?_, fun s => ?_, fun s => ?_, ?_, ?_, fun hmem => ?_⟩
      · rw [List.length_set, h.started]
        rfl
      · rw [hempty, List.getElem?_set]
        -- The timer in the slot was the only one that slept.
        split
        · split <;> simp
        · next hne =>
            rw [h.asleep s, hslot]
            simp [hne]
      · rw [hempty, hnone]
        simp
      · rw [hempty]
        simp [Debouncer.wake, Debouncer.fire]
      · simp [changes, Debouncer.wake, Debouncer.fire]
      · rcases List.mem_or_eq_of_mem_set hmem with hold | hnew
        · exact h.whole hold
        · cases hnew
  · cases hpass

theorem step {e : Stir} (h : l.InStep) (hstep : l.step e = some l') : l'.InStep := by
  cases e with
  | change now => exact h.change hstep
  | flush => exact h.flush hstep
  | cancel => exact h.cancel hstep
  | wake t => exact h.wake hstep
  | lapse t => exact h.pass (by decide) (by decide) (by decide) hstep
  | ended t failed => exact h.pass (by decide) (by decide) (by decide) hstep
  | flushed failed =>
      simp only [LiveDebouncer.step] at hstep
      split at hstep
      · cases hstep
      · cases hstep
        exact ⟨h.started, h.asleep, h.alarm, h.slot, h.pending, h.whole⟩
  | work scanning =>
      cases hstep
      exact ⟨h.started, h.asleep, h.alarm, h.slot, h.pending, h.whole⟩

theorem run (h : l.InStep) (hrun : l.run es = some l') : l'.InStep :=
  keeps_of_foldlM_some (fun _ => step) h hrun

theorem covered (h : l.InStep) {newer older : List Mark}
    (hmarks : l.marks = newer ++ .change :: older) :
    (∃ t, l.session.timer = some t ∧ l.lives[t]? = some .asleep) ∨
      .fire ∈ newer ∨ .cancel ∈ newer := by
  by_cases hnewer : ∀ m ∈ newer, m = .change
  · have hpos : 0 < l.changes := by
      rw [changes, hmarks, List.takeWhile_append_of_pos (by simpa using hnewer)]
      simp
    rw [← h.pending, ← h.slot] at hpos
    obtain ⟨t, hslot⟩ := Option.isSome_iff_exists.1 hpos
    exact .inl ⟨t, hslot, (h.asleep t).2 hslot⟩
  · simp only [not_forall] at hnewer
    obtain ⟨m, hm, hother⟩ := hnewer
    cases m with
    | change => exact absurd rfl hother
    | fire => exact .inr (.inl hm)
    | cancel => exact .inr (.inr hm)

end InStep

theorem inStep_make (delay : Option Nat) {session : Session TimerId}
    (hslot : session.timer = none) : (make delay session).InStep :=
  ⟨rfl, by simp [make, hslot], by simp [make, Debouncer.make, hslot],
    by simp [make, Debouncer.make, hslot], rfl, by simp [make]⟩

/-- However changes, flushes, cancellations, timers and the calls of triggers interleave: the
timer in the slot is the one that may still wake, and there is no other; there is one exactly
while changes are pending; the pending changes are those since the trigger fired last or was
forgotten, so that each change waits for the timer in the slot or is covered by a later firing
or cancellation; and no call that has begun is cut short. -/
theorem pending_run (delay : Option Nat) {session : Session TimerId}
    (hslot : session.timer = none) (hrun : (make delay session).run es = some l) :
    (∀ t, l.lives[t]? = some .asleep ↔ l.session.timer = some t) ∧
      (l.session.timer.isSome = true ↔ 0 < l.debouncer.pendingEvents) ∧
      l.debouncer.pendingEvents = (l.marks.takeWhile (· = .change)).length ∧
      (∀ newer older, l.marks = newer ++ .change :: older →
        (∃ t, l.session.timer = some t ∧ l.lives[t]? = some .asleep) ∨
          .fire ∈ newer ∨ .cancel ∈ newer) ∧
      .cutShort ∉ l.lives := by
  have h := (inStep_make delay hslot).run hrun
  exact ⟨h.asleep, h.slot, h.pending, fun _ _ => h.covered, h.whole⟩

/-- A second change replaces the timer of the first, a third comes while the call of the trigger
is under way, and that call fails. -/
def busyRun : List Stir :=
  [.change 0, .change 5, .lapse 0, .wake 1, .change 20, .ended 1 true]

def busyEnd : LiveDebouncer :=
  ⟨⟨some 10, 1, 3, [⟨2, some 30⟩]⟩, ⟨false, some 2⟩, [.over, .over, .asleep], 0,
    [.change, .fire, .change, .change]⟩

theorem pending_run_busy : (make (some 10) .idle).run busyRun = some busyEnd ∧
    busyEnd.session.timer = some 2 ∧ busyEnd.debouncer.pendingEvents = 1 ∧
    ∀ t, busyEnd.lives[t]? = some .asleep ↔ t = 2 := by
  have hrun : (make (some 10) .idle).run busyRun = some busyEnd := by
    cbv
  obtain ⟨hasleep, -⟩ := pending_run (some 10) rfl hrun
  refine ⟨hrun, rfl, rfl, fun t => (hasleep t).trans ?_⟩
  rw [show busyEnd.session.timer = some 2 from rfl, Option.some.injEq, eq_comm]

end LiveDebouncer

end SourceScan
