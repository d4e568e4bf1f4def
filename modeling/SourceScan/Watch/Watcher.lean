import SourceScan.Disk.Basic
import SourceScan.Watch.Event

/-!
# Watchers

A watcher tells a listener what happens to the files below a directory. One kind has
an observer report raw events and filters them; the other one hands on the events
that it is given.
-/

namespace SourceScan

inductive WatcherError where
  | alreadyRunning
  | notRunning
  | missing (path : Path)
  | notDirectory (path : Path)
  | circle (cause : LinkCircle)
  | disk (cause : DiskError)
  deriving DecidableEq, Repr

namespace WatcherError

def message : WatcherError → Text
  | .alreadyRunning => "File watcher is already running"
  | .notRunning => "File watcher is not running"
  | .missing path => ("Path does not exist: " : Text) ++ path.toRaw.shown
  | .notDirectory path => ("Path is not a directory: " : Text) ++ path.toRaw.shown
  | .circle cause => cause.message
  | .disk cause => cause.message

def unresolved : Unresolved → WatcherError
  | .circle cause => .circle cause
  | .disk cause => .disk cause

def systemError? : WatcherError → Option DiskError
  | .disk cause => if cause.fault.number?.isSome then some cause else none
  | _ => none

end WatcherError

inductive Listener where
  | service
  | other
  deriving DecidableEq, Repr

/-- What can be started for a directory and tells a listener of events until it is stopped. -/
class EventSource (ω : Type) where
  start : ω → Disk → Path → Listener → Except WatcherError ω
  stop : ω → ω
  isRunning : ω → Bool

inductive ObserverCall where
  /-- To report what happens in a directory and in all directories below it. -/
  | schedule (path : Path)
  | start
  | stop
  /-- To end, for which it is waited a while. -/
  | join
  deriving DecidableEq, Repr

structure FileWatcher where
  rules : List Rule
  matcher : Matcher
  /-- Whether the observer is alive, if there is one. -/
  observer : Option Bool
  listener : Option Listener
  /-- The filter for the directory that was watched last. -/
  filter : Option EventFilter
  /-- All that was asked of observers. -/
  calls : List ObserverCall

namespace FileWatcher

def joinTimeout : Nat := 5

def make (rules : List Rule) (matcher : Matcher) : FileWatcher :=
  ⟨rules, matcher, none, none, none, []⟩

def isRunning (w : FileWatcher) : Bool := w.observer = some true

def start (w : FileWatcher) (d : Disk) (p : Path) (listener : Listener) :
    Except WatcherError FileWatcher := do
  if w.isRunning then throw .alreadyRunning
  let p ← (d.resolve p).mapError WatcherError.unresolved
  if !(← (d.exists? p).mapError WatcherError.disk) then throw (.missing p)
  if !(← (d.isDir p).mapError WatcherError.disk) then throw (.notDirectory p)
  return { w with
    observer := some true
    listener := some listener
    filter := some ⟨p, w.rules, w.matcher⟩
    calls := w.calls ++ [.schedule p, .start] }

def stop (w : FileWatcher) : FileWatcher :=
  { w with
    observer := none
    listener := none
    calls := if w.observer.isSome then w.calls ++ [.stop, .join] else w.calls }

def die (w : FileWatcher) : FileWatcher := { w with observer := w.observer.map fun _ => false }

def deliver? (w : FileWatcher) (e : RawEvent) : Option (Listener × FileEvent) := do
  let filter ← w.filter
  let event ← filter.emit? e
  let listener ← w.listener
  return (listener, event)

instance : EventSource FileWatcher := ⟨start, stop, isRunning⟩

end FileWatcher

structure ManualWatcher where
  running : Bool
  listener : Option Listener
  path : Option Path
  /-- All events that were handed on. -/
  events : List FileEvent
  deriving Repr

namespace ManualWatcher

def idle : ManualWatcher := ⟨false, none, none, []⟩

/-- Starts for a path, which need not be there. -/
def start (w : ManualWatcher) (d : Disk) (p : Path) (listener : Listener) :
    Except WatcherError ManualWatcher := do
  if w.running then throw .alreadyRunning
  let p ← (d.resolve p).mapError WatcherError.unresolved
  return { w with running := true, listener := some listener, path := some p }

def stop (w : ManualWatcher) : ManualWatcher :=
  { w with running := false, listener := none, path := none }

def trigger (w : ManualWatcher) (e : FileEvent) :
    Except WatcherError (Option Listener × ManualWatcher) :=
  if w.running then .ok (w.listener, { w with events := w.events ++ [e] })
  else .error .notRunning

instance : EventSource ManualWatcher := ⟨start, stop, (·.running)⟩

end ManualWatcher

end SourceScan
