import Mathlib.Algebra.GroupWithZero.Nat
import Mathlib.Data.List.SplitBy
import SourceScan.Watch.Timeline

/-!
# Bursts of changes

Changes that come within the quiet period of one another are a burst.  On a timeline the
trigger fires once for each burst, when the quiet period after its last change is over, and
stands for all its changes, whatever becomes of the calls that it makes.
-/

namespace SourceScan

def Stage.isFire : Stage → Bool
  | .fire _ => true
  | _ => false

def LogEntry.changes (e : LogEntry) : Nat :=
  match e.stage with
  | .fire changes => changes
  | _ => 0

/-- Changes that come one after another: when the last one came, and how many there are. -/
structure Burst where
  last : Nat
  size : Nat

namespace Burst

def ofTimes (times : List Nat) : Burst := ⟨times.getLastD 0, times.length⟩

def entry (delay call : Nat) (b : Burst) : LogEntry := ⟨.fire b.size, call, b.last + delay⟩

def split (delay : Nat) (b : Burst) : List Nat → List Burst
  | [] => [b]
  | t :: times =>
      if t ≤ b.last + delay then split delay ⟨t, b.size + 1⟩ times
      else b :: split delay ⟨t, 1⟩ times

variable {delay : Nat} {b : Burst} {times : List Nat}

theorem map_loop (t : Nat) (burst : List Nat) (before : List (List Nat)) :
    (List.splitBy.loop (fun s t => decide (t ≤ s + delay)) times t burst before).map ofTimes =
      before.reverse.map ofTimes ++ split delay ⟨t, burst.length + 1⟩ times := by
  induction times generalizing t burst before with
  | nil =>
      simp [List.splitBy.loop, split, ofTimes]
  | cons next times ih =>
      rw [List.splitBy.loop, split]
      by_cases hnear : next ≤ t + delay
      · rw [if_pos hnear, decide_eq_true hnear]
        exact ih next (t :: burst) before
      · rw [if_neg hnear, decide_eq_false hnear]
        have hrest := ih next [] ((t :: burst).reverse :: before)
        rw [hrest]
        simp [ofTimes]

/-- The longest stretches of changes that come within the delay of one another. -/
def all (delay : Nat) (times : List Nat) : List Burst :=
  (times.splitBy fun s t => t ≤ s + delay).map ofTimes

theorem all_cons (t : Nat) (times : List Nat) :
    all delay (t :: times) = split delay ⟨t, 1⟩ times :=
  map_loop t [] []

theorem sum_split (delay : Nat) (b : Burst) (times : List Nat) :
    ((split delay b times).map (·.size)).sum = b.size + times.length := by
  induction times generalizing b with
  | nil => simp [split]
  | cons t times ih =>
      rw [split]
      split
      · rw [ih]
        exact Nat.succ_add b.size times.length
      · rw [List.map_cons, List.sum_cons, ih, List.length_cons]
        exact congrArg (b.size + ·) (Nat.add_comm 1 _)

/-- A change is the last of its burst if the delay is over before the next one. -/
def Closes (delay : Nat) (times : List Nat) (t : Nat) : Prop :=
  ∃ i, times[i]? = some t ∧ ∀ next, times[i + 1]? = some next → t + delay < next

theorem closes_singleton {s t : Nat} : Closes delay [s] t ↔ t = s := by
  constructor
  · rintro ⟨i, hi, -⟩
    cases i with
    | zero => exact (Option.some.inj hi).symm
    | succ i => cases hi
  · rintro rfl
    exact ⟨0, rfl, fun _ hnext => by cases hnext⟩

theorem closes_cons {s next t : Nat} : Closes delay (s :: next :: times) t ↔
    t = s ∧ s + delay < next ∨ Closes delay (next :: times) t := by
  constructor
  · rintro ⟨i, hi, hlast⟩
    cases i with
    | zero =>
        obtain rfl := Option.some.inj hi
        exact .inl ⟨rfl, hlast next rfl⟩
    | succ i => exact .inr ⟨i, hi, hlast⟩
  · rintro (⟨rfl, hlast⟩ | ⟨i, hi, hlast⟩)
    · exact ⟨0, rfl, fun _ hnext => Option.some.inj hnext ▸ hlast⟩
    · exact ⟨i + 1, hi, hlast⟩

theorem mem_split_iff {t : Nat} :
    t ∈ (split delay b times).map (·.last) ↔ Closes delay (b.last :: times) t := by
  induction times generalizing b with
  | nil =>
      rw [closes_singleton]
      simp [split]
  | cons next times ih =>
      rw [split, closes_cons]
      split
      · next hnear =>
          rw [ih]
          simp [Nat.not_lt.mpr hnear]
      · next hfar =>
          rw [List.map_cons, List.mem_cons, ih]
          simp [Nat.not_le.mp hfar]

theorem split_pairwise (hsorted : (b.last :: times).Pairwise (· ≤ ·)) :
    ((split delay b times).map (·.last)).Pairwise (· < ·) := by
  induction times generalizing b with
  | nil => exact List.pairwise_singleton _ _
  | cons next times ih =>
      rw [split]
      split
      · exact ih hsorted.tail
      · next hfar =>
          refine List.pairwise_cons.mpr ⟨fun t ht => ?_, ih hsorted.tail⟩
          obtain ⟨i, hi, -⟩ := mem_split_iff.mp ht
          have hle : next ≤ t := by
            rcases List.mem_cons.mp (List.mem_of_getElem? hi) with rfl | hmem
            · exact le_rfl
            · exact (List.pairwise_cons.mp hsorted.tail).1 t hmem
          have hlt : b.last < next := (Nat.le_add_right _ _).trans_lt (Nat.not_le.mp hfar)
          exact hlt.trans_le hle

theorem mem_all_iff {t : Nat} : t ∈ (all delay times).map (·.last) ↔ Closes delay times t := by
  cases times with
  | nil => simp [all, Closes]
  | cons s times =>
      rw [all_cons]
      exact mem_split_iff

theorem all_pairwise (hsorted : times.Pairwise (· ≤ ·)) :
    ((all delay times).map (·.last)).Pairwise (· < ·) := by
  cases times with
  | nil => exact List.Pairwise.nil
  | cons s times =>
      rw [all_cons]
      exact split_pairwise hsorted

theorem sum_all (delay : Nat) (times : List Nat) :
    ((all delay times).map (·.size)).sum = times.length := by
  cases times with
  | nil => rfl
  | cons s times =>
      rw [all_cons, sum_split]
      exact Nat.add_comm _ _

def entries (delay : Nat) (fired : List Burst) : List LogEntry :=
  fired.mapIdx fun i b => b.entry delay (i + 1)

theorem times_entries (fired : List Burst) :
    (entries delay fired).map (·.time) = (fired.map (·.last)).map (· + delay) := by
  apply List.ext_getElem <;> simp [entries, entry]

theorem changes_entries (fired : List Burst) :
    (entries delay fired).map (·.changes) = fired.map (·.size) := by
  apply List.ext_getElem <;> simp [entries, entry, LogEntry.changes]

end Burst

namespace Timeline

variable {calls : Nat → Call} {delay due stop : Nat} {l l' : Timeline} {t : TimerId} {b : Burst}
  {fired : List Burst} {waiting : Option Burst}

def play (l : Timeline) (times : List Nat) : Timeline :=
  times.foldl (fun l time => (l.advance (time - l.now)).change) l

def fires (l : Timeline) : List LogEntry := l.log.filter (·.stage.isFire)

/-! ## Time that passes the debouncer by -/

structure Still (l l' : Timeline) : Prop where
  debouncer : l'.debouncer = l.debouncer
  session : l'.session = l.session
  made : l'.made = l.made
  fires : l'.fires = l.fires

theorem Still.trans {l₁ l₂ l₃ : Timeline} (h : l₁.Still l₂) (h' : l₂.Still l₃) : l₁.Still l₃ :=
  ⟨h'.debouncer.trans h.debouncer, h'.session.trans h.session, h'.made.trans h.made,
    h'.fires.trans h.fires⟩

theorem fires_finish (l : Timeline) (call : Nat) : (l.finish call).fires = l.fires := by
  simp only [finish, note, fires, List.filter_append]
  cases (l.calls call).fails <;> exact List.append_nil _

theorem still_now (l : Timeline) (now : Nat) : l.Still { l with now := now } :=
  ⟨rfl, rfl, rfl, rfl⟩

theorem still_conclude (l : Timeline) (now : Nat) (rest : Agenda Ending) (e : Ending) :
    l.Still ({ l with now := now, endings := rest }.conclude e) := by
  refine ⟨?_, ?_, ?_, ?_⟩
  · cases e <;> rfl
  · cases e <;> rfl
  · cases e <;> rfl
  · cases e with
    | pause => rfl
    | call call => exact fires_finish _ call

theorem now_conclude (l : Timeline) (e : Ending) : (l.conclude e).now = l.now := by
  cases e <;> rfl

theorem endings_conclude (l : Timeline) (e : Ending) : (l.conclude e).endings = l.endings := by
  cases e <;> rfl

theorem next?_eq_some {happen : Timeline → Timeline} (h : l.next? = some (due, happen)) :
    (∃ t, l.debouncer.next? = some (t, due) ∧ happen = (·.wake t)) ∨
      ((∀ t first, l.debouncer.next? = some (t, first) → due < first) ∧
        ∃ e rest, l.endings.pop? = some ((due, e), rest) ∧
          happen = fun l => { l with endings := rest }.conclude e) := by
  unfold next? at h
  cases hnext : l.debouncer.next? with
  | none =>
      rw [hnext] at h
      obtain ⟨⟨⟨time, e⟩, rest⟩, hpop, heq⟩ := Option.map_eq_some_iff.1 h
      cases heq
      refine .inr ⟨?_, e, rest, hpop, rfl⟩
      rintro t first ⟨⟩
  | some alarm =>
      obtain ⟨t, first⟩ := alarm
      rw [hnext] at h
      cases hpop : l.endings.pop? with
      | none =>
          simp only [hpop, Option.map_none, Option.some.injEq, Prod.mk.injEq] at h
          obtain ⟨rfl, rfl⟩ := h
          exact .inl ⟨t, rfl, rfl⟩
      | some popped =>
          obtain ⟨⟨time, e⟩, rest⟩ := popped
          simp only [hpop, Option.map_some] at h
          split at h
          · cases h
            exact .inl ⟨t, rfl, rfl⟩
          · next hlater =>
              cases h
              refine .inr ⟨?_, e, rest, rfl, rfl⟩
              rintro s earliest ⟨⟩
              exact Nat.not_le.mp hlater

theorem next?_ne_none (hnext : l.debouncer.next? = some (t, due)) : l.next? ≠ none := by
  unfold next?
  rw [hnext]
  cases l.endings.pop? with
  | none => exact Option.some_ne_none _
  | some popped =>
      simp only [Option.map_some]
      split <;> exact Option.some_ne_none _

theorem run_still (fuel : Nat)
    (hearly : ∀ t due, l.debouncer.next? = some (t, due) → stop < due) (hnow : l.now ≤ stop) :
    l.Still (run stop fuel l) ∧ (run stop fuel l).now = stop := by
  induction fuel generalizing l with
  | zero => exact ⟨still_now l _, max_eq_right hnow⟩
  | succ fuel ih =>
      rw [run]
      split
      · next due happen hnext =>
          split
          · next hdue =>
              rcases next?_eq_some hnext with ⟨t, ht, -⟩ | ⟨-, e, rest, -, rfl⟩
              · exact absurd hdue (Nat.not_le.mpr (hearly t due ht))
              · have hstill := still_conclude l (max l.now due) rest e
                have hrest := ih (l := { l with now := max l.now due, endings := rest }.conclude e)
                  (fun t first hfirst => hearly t first (hstill.debouncer ▸ hfirst))
                  (by rw [now_conclude]; exact max_le hnow hdue)
                exact ⟨hstill.trans hrest.1, hrest.2⟩
          · exact ⟨still_now l _, max_eq_right hnow⟩
      · exact ⟨still_now l _, max_eq_right hnow⟩

theorem run_wakes {fuel : Nat} (hnext : l.debouncer.next? = some (t, due)) (hnow : l.now ≤ due)
    (hdue : due ≤ stop) (hfuel : l.endings.size < fuel) :
    ∃ l' fuel', l.Still l' ∧ l'.now = due ∧ run stop fuel l = run stop fuel' (l'.wake t) := by
  induction fuel generalizing l with
  | zero => exact absurd hfuel (Nat.not_lt_zero _)
  | succ fuel ih =>
      obtain ⟨⟨first, happen⟩, hfirst⟩ := Option.ne_none_iff_exists'.mp (next?_ne_none hnext)
      rcases next?_eq_some hfirst with ⟨s, hs, rfl⟩ | ⟨hbefore, e, rest, hpop, rfl⟩
      · obtain ⟨rfl, rfl⟩ := Prod.mk.inj (Option.some.inj (hnext.symm.trans hs))
        refine ⟨{ l with now := max l.now due }, fuel, still_now l _, max_eq_right hnow, ?_⟩
        rw [run, hfirst]
        exact if_pos hdue
      · have hlt : first < due := hbefore t due hnext
        have hstill := still_conclude l (max l.now first) rest e
        have hsize := Agenda.size_of_pop? hpop
        obtain ⟨l', fuel', hl', hnow', hrun⟩ := ih
          (l := { l with now := max l.now first, endings := rest }.conclude e)
          (by rw [hstill.debouncer]; exact hnext)
          (by rw [now_conclude]; exact max_le hnow hlt.le)
          (by rw [endings_conclude]; exact Nat.lt_of_succ_lt_succ (hsize.trans_lt hfuel))
        refine ⟨l', fuel', hstill.trans hl', hnow', ?_⟩
        rw [run, hfirst]
        exact (if_pos (hlt.le.trans hdue)).trans hrun

theorem advance_eq (l : Timeline) (time : Nat) : ∃ l' fuel, l.Still l' ∧ l'.now = l.now ∧
    (l.debouncer.sleeping ≠ [] → l'.endings.size < fuel) ∧
      l.advance time = run (l.now + time) fuel l' := by
  have hroom : ∀ l' : Timeline, l'.debouncer = l.debouncer → l.debouncer.sleeping ≠ [] →
      l'.endings.size < 2 * l'.debouncer.sleeping.length + l'.endings.size := by
    intro l' hsame hsleeping
    have hpos := List.length_pos_of_ne_nil hsleeping
    rw [hsame]
    omega
  unfold advance
  dsimp only
  split
  · next hzero =>
      refine ⟨l, _, still_now l l.now, rfl, hroom l rfl, ?_⟩
      rw [hzero]
      rfl
  · exact ⟨{ l with endings := l.endings.push (l.now + time) .pause }, _,
      ⟨rfl, rfl, rfl, rfl⟩, rfl, hroom _ rfl, rfl⟩

theorem begin_eq (l : Timeline) (changes : Nat) :
    (l.begin changes).debouncer = l.debouncer ∧ (l.begin changes).session = l.session ∧
      (l.begin changes).made = l.made + 1 ∧
        (l.begin changes).fires = l.fires ++ [⟨.fire changes, l.made + 1, l.now⟩] := by
  have hnoted : ({ l with made := l.made + 1 }.note (.fire changes) (l.made + 1)).fires =
      l.fires ++ [⟨.fire changes, l.made + 1, l.now⟩] := by
    simp [fires, note, Stage.isFire]
  unfold begin
  dsimp only
  split
  · exact ⟨rfl, rfl, rfl, (fires_finish _ _).trans hnoted⟩
  · exact ⟨rfl, rfl, rfl, hnoted⟩

theorem now_wake (l : Timeline) (t : TimerId) : (l.wake t).now = l.now := by
  unfold wake begin
  dsimp only
  split <;> rfl

theorem next?_of_idle (hsleeping : l.debouncer.sleeping = []) : l.debouncer.next? = none := by
  rw [Debouncer.next?, hsleeping]
  rfl

theorem next?_of_alarm (hsleeping : l.debouncer.sleeping = [⟨t, some due⟩]) :
    l.debouncer.next? = some (t, due) := by
  rw [Debouncer.next?, hsleeping]
  rfl

/-! ## What waits and what has fired -/

/-- The changes of a burst wait for the timer in the slot, and no other timer sleeps. -/
def Waits (delay : Nat) (l : Timeline) : Option Burst → Prop
  | none =>
      l.session.timer = none ∧ l.debouncer.sleeping = [] ∧ l.debouncer.pendingEvents = 0
  | some b => ∃ t < l.debouncer.started, l.session.timer = some t ∧
      l.debouncer.sleeping = [⟨t, some (b.last + delay)⟩] ∧ l.debouncer.pendingEvents = b.size

/-- The trigger has fired for some bursts, and one may wait for its timer. -/
structure Stands (quiet : Nat) (l : Timeline) (fired : List Burst) (waiting : Option Burst) :
    Prop where
  delay : l.debouncer.delay = some quiet
  waits : l.Waits quiet waiting
  made : l.made = fired.length
  fires : l.fires = Burst.entries quiet fired

theorem stands_make (calls : Nat → Call) (delay : Nat) :
    (make calls (some delay)).Stands delay [] none :=
  ⟨rfl, ⟨rfl, rfl, rfl⟩, rfl, rfl⟩

namespace Stands

theorem of_still (h : l.Stands delay fired waiting) (hstill : l.Still l') :
    l'.Stands delay fired waiting := by
  refine ⟨?_, ?_, hstill.made.trans h.made, hstill.fires.trans h.fires⟩
  · rw [hstill.debouncer]
    exact h.delay
  · have hwaits := h.waits
    cases waiting with
    | none =>
        rw [Waits, hstill.debouncer, hstill.session]
        exact hwaits
    | some b =>
        rw [Waits, hstill.debouncer, hstill.session]
        exact hwaits

theorem change (h : l.Stands delay fired waiting) :
    l.change.Stands delay fired (some ⟨l.now, waiting.elim 0 (·.size) + 1⟩) := by
  have hdelay := h.delay
  cases waiting with
  | none =>
      obtain ⟨hslot, hsleeping, hpending⟩ := h.waits
      refine ⟨?_, ⟨l.debouncer.started, ?_⟩, h.made, h.fires⟩ <;>
        simp [Timeline.change, Debouncer.change, Session.replaceTimer, Debouncer.drop?, *]
  | some b =>
      obtain ⟨t, hnew, hslot, hsleeping, hpending⟩ := h.waits
      refine ⟨?_, ⟨l.debouncer.started, ?_⟩, h.made, h.fires⟩ <;>
        simp [Timeline.change, Debouncer.change, Session.replaceTimer, Debouncer.drop?,
          Debouncer.drop, hnew.ne', *]

theorem wake (h : l.Stands delay fired (some b)) (hnow : l.now = b.last + delay)
    (hslot : l.session.timer = some t) : (l.wake t).Stands delay (fired ++ [b]) none := by
  obtain ⟨s, -, hs, hsleeping, hpending⟩ := h.waits
  obtain rfl := Option.some.inj (hs.symm.trans hslot)
  obtain ⟨hdebouncer, hsession, hmade, hfires⟩ := begin_eq
    { l with
      debouncer := (l.debouncer.wake s l.session).1
      session := (l.debouncer.wake s l.session).2 } l.debouncer.pendingEvents
  refine ⟨?_, ⟨?_, ?_, ?_⟩, ?_, ?_⟩
  · rw [Timeline.wake, hdebouncer]
    exact h.delay
  · rw [Timeline.wake, hsession]
    simp [Debouncer.wake, Session.clearTimer, hslot]
  · rw [Timeline.wake, hdebouncer]
    simp [Debouncer.wake, Debouncer.fire, Debouncer.drop, hsleeping]
  · rw [Timeline.wake, hdebouncer]
    rfl
  · rw [Timeline.wake, hmade, List.length_append]
    exact congrArg (· + 1) h.made
  · rw [Timeline.wake, hfires, Burst.entries, List.mapIdx_append]
    refine congr (congrArg _ h.fires) ?_
    rw [h.made, hpending, hnow]
    simp [Burst.entry, Nat.add_comm]

theorem early (h : l.Stands delay fired waiting) (time : Nat)
    (hearly : ∀ b, waiting = some b → l.now + time < b.last + delay) :
    (l.advance time).Stands delay fired waiting ∧ (l.advance time).now = l.now + time := by
  obtain ⟨l', fuel, hstill, hnow, -, hrun⟩ := advance_eq l time
  have h' := h.of_still hstill
  have hquiet : ∀ t due, l'.debouncer.next? = some (t, due) → l.now + time < due := by
    intro t due hnext
    cases waiting with
    | none =>
        rw [next?_of_idle h'.waits.2.1] at hnext
        cases hnext
    | some b =>
        obtain ⟨s, -, -, hsleeping, -⟩ := h'.waits
        rw [next?_of_alarm hsleeping] at hnext
        cases hnext
        exact hearly b rfl
  have hrest := run_still fuel hquiet (hnow ▸ Nat.le_add_right _ _)
  rw [hrun]
  exact ⟨h'.of_still hrest.1, hrest.2⟩

theorem onTime (h : l.Stands delay fired (some b)) (time : Nat) (hnow : l.now ≤ b.last + delay)
    (hdue : b.last + delay ≤ l.now + time) :
    (l.advance time).Stands delay (fired ++ [b]) none ∧ (l.advance time).now = l.now + time := by
  obtain ⟨l', fuel, hstill, hsame, hroom, hrun⟩ := advance_eq l time
  obtain ⟨t, -, hslot, hsleeping, -⟩ := (h.of_still hstill).waits
  have hsleeps : l.debouncer.sleeping ≠ [] := by
    rw [← hstill.debouncer, hsleeping]
    exact List.cons_ne_nil _ _
  obtain ⟨woken, fuel', hwoken, hat, hrest⟩ := run_wakes (next?_of_alarm hsleeping)
    (hsame ▸ hnow) hdue (hroom hsleeps)
  have hfired := ((h.of_still hstill).of_still hwoken).wake hat (hwoken.session ▸ hslot)
  have hidle : ∀ s first, (woken.wake t).debouncer.next? = some (s, first) →
      l.now + time < first := by
    intro s first hnext
    rw [next?_of_idle hfired.waits.2.1] at hnext
    cases hnext
  have hover := run_still fuel' hidle (by rw [now_wake, hat]; exact hdue)
  rw [hrun, hrest]
  exact ⟨hfired.of_still hover.1, hover.2⟩

theorem play (h : l.Stands delay fired (some b)) (hnow : l.now = b.last) {times : List Nat}
    (hsorted : (b.last :: times).Pairwise (· ≤ ·))
    (hgaps : (b.last :: times).IsChain fun s t => t ≠ s + delay) :
    ∃ before last, b.split delay times = before ++ [last] ∧
      (l.play times).Stands delay (fired ++ before) (some last) ∧
        (l.play times).now = last.last := by
  induction times generalizing l fired b with
  | nil =>
      refine ⟨[], b, rfl, ?_, hnow⟩
      rw [List.append_nil]
      exact h
  | cons t times ih =>
      have hle : l.now ≤ t := hnow ▸ (List.pairwise_cons.mp hsorted).1 t List.mem_cons_self
      have htime : l.now + (t - l.now) = t := Nat.add_sub_cancel' hle
      have hgap : t ≠ b.last + delay := (List.isChain_cons_cons.mp hgaps).1
      by_cases hnear : t ≤ b.last + delay
      · obtain ⟨hwaits, hcome⟩ := h.early (t - l.now) (by
          rintro c ⟨⟩
          rw [htime]
          exact Nat.lt_of_le_of_ne hnear hgap)
        have hchange := hwaits.change
        rw [hcome, htime] at hchange
        obtain ⟨before, last, hsplit, hrest⟩ := ih hchange (hcome.trans htime) hsorted.tail
          (List.isChain_cons_cons.mp hgaps).2
        refine ⟨before, last, ?_, hrest⟩
        rw [Burst.split, if_pos hnear]
        exact hsplit
      · obtain ⟨hidle, hcome⟩ := h.onTime (t - l.now) (hnow ▸ Nat.le_add_right _ _)
          (by rw [htime]; exact (Nat.lt_of_not_le hnear).le)
        have hchange := hidle.change
        rw [hcome, htime] at hchange
        obtain ⟨before, last, hsplit, hrest⟩ := ih hchange (hcome.trans htime) hsorted.tail
          (List.isChain_cons_cons.mp hgaps).2
        refine ⟨b :: before, last, ?_, ?_⟩
        · rw [Burst.split, if_neg hnear]
          exact congrArg (b :: ·) hsplit
        · rw [List.append_cons]
          exact hrest

end Stands

variable {times : List Nat} {wait : Nat}

/-- Once changes have come and the quiet period after the last one is over, all bursts have
fired. -/
theorem stands_play (calls : Nat → Call) (hsorted : times.Pairwise (· ≤ ·))
    (hgaps : times.IsChain fun s t => t ≠ s + delay) (hwait : delay ≤ wait) :
    (((make calls (some delay)).play times).advance wait).Stands delay
      (Burst.all delay times) none := by
  have hstart := stands_make calls delay
  cases times with
  | nil => exact (hstart.early _ (by rintro b ⟨⟩)).1
  | cons t times =>
      obtain ⟨hidle, hcome⟩ := hstart.early (t - 0) (by rintro b ⟨⟩)
      have hfirst := hidle.change
      have hnow : ((make calls (some delay)).advance (t - 0)).now = t :=
        hcome.trans (Nat.zero_add t)
      rw [hnow] at hfirst
      obtain ⟨before, last, hsplit, hrest, hlast⟩ :=
        hfirst.play hnow hsorted hgaps
      have hfired := (hrest.onTime wait (hlast ▸ Nat.le_add_right _ _)
        (by rw [hlast]; exact Nat.add_le_add_left hwait _)).1
      rw [List.nil_append, ← hsplit] at hfired
      rw [Burst.all_cons]
      exact hfired

/-- Whatever becomes of its calls, the trigger fires at the times at which the quiet period is
over after the last change of a burst, once for each burst, and stands for the changes of the
burst.  So each change is covered once, and at last none is pending. -/
theorem fires_of_bursts (calls : Nat → Call) (delay : Nat) (hsorted : times.Pairwise (· ≤ ·))
    (hgaps : times.IsChain fun s t => t ≠ s + delay) (hwait : delay ≤ wait) :
    let l := ((make calls (some delay)).play times).advance wait
    l.fires = (times.splitBy fun s t => t ≤ s + delay).mapIdx
        (fun i burst => ⟨.fire burst.length, i + 1, burst.getLastD 0 + delay⟩) ∧
      (∀ time, time ∈ l.fires.map (·.time) ↔
        ∃ i t, times[i]? = some t ∧ (∀ next, times[i + 1]? = some next → t + delay < next) ∧
          time = t + delay) ∧
      (l.fires.map (·.time)).Pairwise (· < ·) ∧
      (l.fires.map (·.changes)).sum = times.length ∧
      l.session.timer = none ∧ l.debouncer.pendingEvents = 0 := by
  have h := stands_play calls hsorted hgaps hwait
  intro l
  refine ⟨?_, fun time => ?_, ?_, ?_, h.waits.1, h.waits.2.2⟩
  · rw [h.fires, Burst.entries, Burst.all]
    apply List.ext_getElem <;> simp [Burst.entry, Burst.ofTimes]
  · rw [h.fires, Burst.times_entries, List.mem_map]
    constructor
    · rintro ⟨t, ht, rfl⟩
      obtain ⟨i, hi, hlast⟩ := Burst.mem_all_iff.mp ht
      exact ⟨i, t, hi, hlast, rfl⟩
    · rintro ⟨i, t, hi, hlast, rfl⟩
      exact ⟨t, Burst.mem_all_iff.mpr ⟨i, hi, hlast⟩, rfl⟩
  · rw [h.fires, Burst.times_entries]
    exact (Burst.all_pairwise hsorted).map _ fun s t hlt => Nat.add_lt_add_right hlt delay
  · rw [h.fires, Burst.changes_entries]
    exact Burst.sum_all delay times

/-- The second call fails, and each call goes on while the next changes come. -/
def slowCalls (number : Nat) : Call := ⟨25, number = 2⟩

theorem fires_of_bursts_slowCalls :
    ([0, 5, 30, 31, 60].Pairwise fun s t : Nat => s ≤ t) ∧
      ([0, 5, 30, 31, 60].IsChain fun s t : Nat => t ≠ s + 10) ∧
      (((make slowCalls (some 10)).play [0, 5, 30, 31, 60]).advance 10).fires =
        [⟨.fire 2, 1, 15⟩, ⟨.fire 2, 2, 41⟩, ⟨.fire 1, 3, 70⟩] := by
  have hsorted : [0, 5, 30, 31, 60].Pairwise fun s t : Nat => s ≤ t := by decide
  have hgaps : [0, 5, 30, 31, 60].IsChain fun s t : Nat => t ≠ s + 10 := by decide
  exact ⟨hsorted, hgaps, (fires_of_bursts slowCalls 10 hsorted hgaps le_rfl).1.trans (by decide)⟩

end Timeline

end SourceScan
