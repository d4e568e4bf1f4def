import SourceScan.Scan.Session
import SourceScan.Value.Use

/-!
# The debouncer

A debouncer turns a burst of changes into one trigger. Each change starts a timer
that takes the place of the one before it in the slot of the session, and the
trigger fires when a timer has slept through the quiet period. A timer that is
cancelled while it sleeps never wakes.
-/

namespace SourceScan

abbrev TimerId := Nat

/-- A timer that sleeps. One without a due time never wakes of itself. -/
structure Alarm where
  timer : TimerId
  due : Option Nat
  deriving DecidableEq, Repr, Inhabited

structure Debouncer where
  /-- The quiet period in milliseconds; none if it never ends. -/
  delay : Option Nat
  /-- The number of changes that the next trigger stands for. -/
  pendingEvents : Nat
  started : Nat
  sleeping : List Alarm
  deriving DecidableEq, Repr, Inhabited

namespace Debouncer

def standardDelay : Int := 2000

/-- The number of whole milliseconds after which a length of time is over. A length of no time or
less is over at once. -/
def delayOf : Value → Option Nat
  | .float x => x.ceil?.map Int.toNat
  | v => v.int?.map Int.toNat

def make (delay : Option Nat) : Debouncer := ⟨delay, 0, 0, []⟩

def drop (b : Debouncer) (t : TimerId) : Debouncer :=
  { b with sleeping := b.sleeping.filter (·.timer ≠ t) }

def drop? (b : Debouncer) : Option TimerId → Debouncer
  | some t => b.drop t
  | none => b

/-- Takes note of a change: a new timer starts, and the one before it is cancelled. -/
def change (b : Debouncer) (now : Nat) (s : Session TimerId) : Debouncer × Session TimerId :=
  let t := b.started
  let (previous, s) := s.replaceTimer t
  let b :=
    { b with
      pendingEvents := b.pendingEvents + 1
      started := t + 1
      sleeping := b.sleeping ++ [Alarm.mk t (b.delay.map (now + ·))] }
  (b.drop? previous, s)

def fire (b : Debouncer) : Debouncer := { b with pendingEvents := 0 }

def wake (b : Debouncer) (t : TimerId) (s : Session TimerId) : Debouncer × Session TimerId :=
  ((b.drop t).fire, (s.clearTimer t).2)

def flush (b : Debouncer) (s : Session TimerId) : Option (Debouncer × Session TimerId) :=
  let (t, s) := s.cancelTimer
  t.map fun t => ((b.drop t).fire, s)

def cancel (b : Debouncer) (s : Session TimerId) : Bool × Debouncer × Session TimerId :=
  let (t, s) := s.cancelTimer
  (t.isSome, { b.drop? t with pendingEvents := 0 }, s)

/-- The timer that wakes first, with its due time; of several the one that was started first. -/
def next? (b : Debouncer) : Option (TimerId × Nat) :=
  b.sleeping.foldl
    (fun best a =>
      match a.due, best with
      | none, _ => best
      | some due, none => some (a.timer, due)
      | some due, some (_, earliest) => if due < earliest then some (a.timer, due) else best)
    none

end Debouncer

end SourceScan
