import SourceScan.Scan.Scanner
import SourceScan.Watch.Debouncer
import SourceScan.Watch.Watcher

/-!
# The watch service

A watch service scans a root again once its files have changed and settled. It is
started in two steps, between which the first scan runs. What its watcher reports
goes through a debouncer, whose trigger runs a scan; a trigger during a scan is
dropped. A service that is stopped drops its pending trigger.
-/

namespace SourceScan

structure WatchStats where
  received : Nat
  triggered : Nat
  rejected : Nat
  errors : Nat
  deriving DecidableEq, Repr, Inhabited

def WatchStats.zero : WatchStats := ⟨0, 0, 0, 0⟩

inductive ServiceError where
  | alreadyRunning
  | pathMissing (path : Path)
  | pathNotDirectory (path : Path)
  | watcherFailed (cause : WatcherError)
  | circle (cause : LinkCircle)
  | disk (cause : DiskError)
  | scan (cause : ScanError)
  deriving DecidableEq, Repr

namespace ServiceError

def message : ServiceError → Text
  | .alreadyRunning => "Watch service is already running"
  | .pathMissing path => ("Path does not exist: " : Text) ++ path.toRaw.shown
  | .pathNotDirectory path => ("Path is not a directory: " : Text) ++ path.toRaw.shown
  | .watcherFailed cause => ("Failed to start file watcher: " : Text) ++ cause.message
  | .circle cause => cause.message
  | .disk cause => cause.message
  | .scan cause => cause.message

def unresolved : Unresolved → ServiceError
  | .circle cause => .circle cause
  | .disk cause => .disk cause

def isExpected : ServiceError → Bool
  | .alreadyRunning | .pathMissing _ | .pathNotDirectory _ | .watcherFailed _ => true
  | _ => false

end ServiceError

structure WatchService (ω : Type) where
  settings : WatchSettings
  scanner : Scanner TimerId
  watcher : ω
  debouncer : Option Debouncer
  stats : WatchStats
  running : Bool
  /-- Whether signals can reach the service. -/
  attached : Bool

namespace WatchService

variable {ω : Type}

def make (settings : WatchSettings) (scanner : Scanner TimerId) (watcher : ω) : WatchService ω :=
  ⟨settings, scanner, watcher, none, .zero, false, false⟩

def setSession (s : WatchService ω) (session : Session TimerId) : WatchService ω :=
  { s with scanner := { s.scanner with session } }

/-! ## Scans -/

def count (s : WatchService ω) (f : WatchStats → WatchStats) : WatchService ω :=
  { s with stats := f s.stats }

/-- Counts how a scan went; an error that nobody is prepared for is not counted. -/
def noteScan (s : WatchService ω) (outcome : Except ScanError Report) :
    Except ScanError (WatchService ω) :=
  match outcome with
  | .ok _ => .ok (s.count fun n => { n with triggered := n.triggered + 1 })
  | .error .inProgress => .ok (s.count fun n => { n with rejected := n.rejected + 1 })
  | .error e =>
      if e.isExpected then .ok (s.count fun n => { n with errors := n.errors + 1 }) else .error e

def triggerScan (s : WatchService ω) (m : Moment) (d : Disk) :
    WatchService ω × Disk × Except ScanError Unit :=
  let (scanner, d, outcome) := s.scanner.run m d
  let s := { s with scanner }
  match s.noteScan outcome with
  | .ok s => (s, d, .ok ())
  | .error e => (s, d, .error e)

/-! ## Start and stop -/

/-- The first step of a start: the service counts as running from here on. Answers the path to
watch. -/
def beginStart (s : WatchService ω) (d : Disk) : Except ServiceError (Path × WatchService ω) := do
  if s.running then throw .alreadyRunning
  let p ← (d.resolve s.scanner.root).mapError ServiceError.unresolved
  if !(← (d.exists? p).mapError ServiceError.disk) then throw (.pathMissing p)
  if !(← (d.isDir p).mapError ServiceError.disk) then throw (.pathNotDirectory p)
  return (p, { s with attached := true, stats := .zero, running := true })

def finishStart [EventSource ω] (s : WatchService ω) (d : Disk) (p : Path) :
    WatchService ω × Except ServiceError Unit :=
  let s := { s with debouncer := some (.make (Debouncer.delayOf s.settings.debounceMs)) }
  match EventSource.start s.watcher d p .service with
  | .ok watcher => ({ s with watcher }, .ok ())
  | .error e =>
      match e.systemError? with
      | some cause => (s, .error (.disk cause))
      -- Only a refusal of the watcher takes the start back.
      | none =>
          ({ s with running := false, debouncer := none, attached := false },
            .error (.watcherFailed e))

def start [EventSource ω] (s : WatchService ω) (m : Moment) (d : Disk) :
    WatchService ω × Disk × Except ServiceError Unit :=
  match s.beginStart d with
  | .error e => (s, d, .error e)
  | .ok (p, s) =>
      let (s, d, scanned) :=
        if s.settings.scanOnStart.isTruthy then s.triggerScan m d else (s, d, .ok ())
      match scanned with
      -- The service has counted as running from the first step on, and goes on to do so.
      | .error e => (s, d, .error (.scan e))
      | .ok _ =>
          let (s, outcome) := s.finishStart d p
          (s, d, outcome)

def stop [EventSource ω] (s : WatchService ω) : WatchService ω :=
  if s.running then
    let session :=
      match s.debouncer with
      | some b => (b.cancel s.scanner.session).2.2
      | none => s.scanner.session
    { s.setSession session with
      running := false
      watcher := EventSource.stop s.watcher
      debouncer := none
      attached := false }
  else s

/-! ## Changes -/

def accepts (s : WatchService ω) : Bool := s.attached && s.running

/-- A signal arrives. It counts unless the service was stopped since it was sent. -/
def change (s : WatchService ω) (now : Nat) : WatchService ω :=
  match s.running, s.debouncer with
  | true, some b =>
      let (b, session) := b.change now s.scanner.session
      ({ s with debouncer := some b }.setSession session).count fun n =>
        { n with received := n.received + 1 }
  | _, _ => s

def pendingCount (s : WatchService ω) : Nat :=
  match s.debouncer with
  | some b => if s.scanner.session.timer.isSome then b.pendingEvents else 0
  | none => 0

def wake (s : WatchService ω) (t : TimerId) (m : Moment) (d : Disk) : WatchService ω × Disk :=
  match s.debouncer with
  | none => (s, d)
  | some b =>
      let (b, session) := b.wake t s.scanner.session
      let (s, d, _) := ({ s with debouncer := some b }.setSession session).triggerScan m d
      (s, d)

def runUntil (s : WatchService ω) (time : Nat) (m : Moment) (d : Disk) : WatchService ω × Disk :=
  go ((s.debouncer.map (·.sleeping.length)).getD 0) s d
where
  go : Nat → WatchService ω → Disk → WatchService ω × Disk
    | 0, s, d => (s, d)
    | fuel + 1, s, d =>
        match s.debouncer.bind (·.next?) with
        | some (t, due) =>
            if due ≤ time then
              let (s, d) := s.wake t m d
              go fuel s d
            else (s, d)
        | none => (s, d)

end WatchService

end SourceScan
