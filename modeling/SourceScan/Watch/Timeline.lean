import SourceScan.Watch.Agenda
import SourceScan.Watch.Debouncer

/-!
# Debouncing on a timeline

A timeline runs a debouncer by a clock of its own, which only moves when it is told
to. Timers wake when they are due, and a call that a trigger makes takes its time,
during which the debouncer goes on. The calls are numbered from one on.
-/

namespace SourceScan

inductive Stage where
  /-- The trigger fires for a number of changes, and the call begins. -/
  | fire (changes : Nat)
  | done
  | fail
  deriving DecidableEq, Repr

def Stage.name : Stage → Text
  | .fire _ => "fire"
  | .done => "done"
  | .fail => "fail"

structure LogEntry where
  stage : Stage
  call : Nat
  time : Nat
  deriving DecidableEq, Repr

structure Timeline.Call where
  duration : Nat
  fails : Bool
  deriving Repr

structure Calls where
  duration : Nat
  failing : List Nat
  deriving Repr

def Calls.call (c : Calls) (number : Nat) : Timeline.Call := ⟨c.duration, number ∈ c.failing⟩

inductive Ending where
  | call (number : Nat)
  /-- The end of a time that was waited for. -/
  | pause
  deriving DecidableEq, Repr

structure Timeline where
  calls : Nat → Timeline.Call
  now : Nat
  debouncer : Debouncer
  session : Session TimerId
  endings : Agenda Ending
  /-- The number of calls that were made. -/
  made : Nat
  log : List LogEntry

namespace Timeline

def make (calls : Nat → Call) (delay : Option Nat) : Timeline :=
  ⟨calls, 0, .make delay, .idle, .empty, 0, []⟩

def start (calls : Calls) (delay : Option Nat) : Timeline := make calls.call delay

def note (l : Timeline) (stage : Stage) (call : Nat) : Timeline :=
  { l with log := l.log ++ [⟨stage, call, l.now⟩] }

def finish (l : Timeline) (call : Nat) : Timeline :=
  l.note (if (l.calls call).fails then .fail else .done) call

def conclude (l : Timeline) : Ending → Timeline
  | .call call => l.finish call
  | .pause => l

/-- The trigger makes its call for a number of changes. The call is over at once if it takes no
time. -/
def begin (l : Timeline) (changes : Nat) : Timeline :=
  let call := l.made + 1
  let l := { l with made := call }.note (.fire changes) call
  let duration := (l.calls call).duration
  if duration = 0 then l.finish call
  else { l with endings := l.endings.push (l.now + duration) (.call call) }

def wake (l : Timeline) (t : TimerId) : Timeline :=
  let (debouncer, session) := l.debouncer.wake t l.session
  { l with debouncer, session }.begin l.debouncer.pendingEvents

def next? (l : Timeline) : Option (Nat × (Timeline → Timeline)) :=
  let ending := l.endings.pop?.map fun ((time, e), rest) =>
    (time, fun l : Timeline => { l with endings := rest }.conclude e)
  match l.debouncer.next?, ending with
  | none, ending => ending
  | some (t, due), none => some (due, (·.wake t))
  | some (t, due), some (time, f) => if due ≤ time then some (due, (·.wake t)) else some (time, f)

def run (until_ : Nat) : Nat → Timeline → Timeline
  | 0, l => { l with now := max l.now until_ }
  | fuel + 1, l =>
      match l.next? with
      | some (due, happen) =>
          if due ≤ until_ then run until_ fuel (happen { l with now := max l.now due })
          else { l with now := max l.now until_ }
      | none => { l with now := max l.now until_ }

def runUntil (time : Nat) (l : Timeline) : Timeline :=
  -- Each step leaves a timer or an ending less; a timer that wakes leaves an ending more.
  run time (2 * l.debouncer.sleeping.length + l.endings.size) l

def settle (l : Timeline) : Timeline := l.runUntil l.now

def change (l : Timeline) : Timeline :=
  let (debouncer, session) := l.debouncer.change l.now l.session
  { l with debouncer, session }

def advance (l : Timeline) (time : Nat) : Timeline :=
  let stop := l.now + time
  if time = 0 then l.settle
  else { l with endings := l.endings.push stop .pause }.runUntil stop

def flush (l : Timeline) : Bool × Timeline :=
  match l.debouncer.flush l.session with
  | none => (false, l)
  | some (debouncer, session) =>
      let duration := (l.calls (l.made + 1)).duration
      (true, ({ l with debouncer, session }.begin l.debouncer.pendingEvents).runUntil
        (l.now + duration))

def cancel (l : Timeline) : Bool × Timeline :=
  let (r, debouncer, session) := l.debouncer.cancel l.session
  (r, { l with debouncer, session })

/-- Cancels the timer in the slot of the session, of which the debouncer takes no note. -/
def cancelTimer (l : Timeline) : Bool × Timeline :=
  let (t, session) := l.session.cancelTimer
  (t.isSome, { l with debouncer := l.debouncer.drop? t, session })

end Timeline

end SourceScan
