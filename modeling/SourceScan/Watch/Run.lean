import SourceScan.Watch.Service

/-!
# Runs of the watch service

A run has a service, whose watcher is told of events by hand, together with the disk
and a clock that only moves when it is told to. A signal is sent when something
happens and arrives later; scans take no time.
-/

namespace SourceScan

structure WatchRun where
  now : Nat
  disk : Disk
  service : WatchService ManualWatcher

namespace WatchRun

/-- Hands an event to the watcher a number of times, and answers how many signals are sent. -/
def trigger (r : WatchRun) (e : FileEvent) : Nat → Except WatcherError (Nat × WatchRun)
  | 0 => .ok (0, r)
  | n + 1 => do
      let (listener, watcher) ← r.service.watcher.trigger e
      let (sent, r) ← trigger { r with service := { r.service with watcher } } e n
      return (if listener = some .service && r.service.accepts then sent + 1 else sent, r)

def notify (r : WatchRun) (n : Nat) : Nat := if r.service.accepts then n else 0

def arrive (r : WatchRun) : Nat → WatchRun
  | 0 => r
  | n + 1 => { r with service := r.service.change r.now }.arrive n

def start (r : WatchRun) (m : Moment) : Except ServiceError Unit × WatchRun :=
  let (service, disk, outcome) := r.service.start m r.disk
  (outcome, { r with service, disk })

def stop (r : WatchRun) : WatchRun := { r with service := r.service.stop }

def startWatcher (r : WatchRun) (p : Path) : Except WatcherError WatchRun :=
  (r.service.watcher.start r.disk p .other).map fun watcher =>
    { r with service := { r.service with watcher } }

def stopWatcher (r : WatchRun) : WatchRun :=
  { r with service := { r.service with watcher := r.service.watcher.stop } }

def setScanner (r : WatchRun) (f : Scanner TimerId → Scanner TimerId) : WatchRun :=
  { r with service := { r.service with scanner := f r.service.scanner } }

def setSession (r : WatchRun) (session : Session TimerId) : WatchRun :=
  { r with service := r.service.setSession session }

def advance (r : WatchRun) (time : Nat) : WatchRun := { r with now := r.now + time }

def settle (r : WatchRun) (m : Moment) : WatchRun :=
  let (service, disk) := r.service.runUntil r.now m r.disk
  { r with service, disk }

end WatchRun

end SourceScan
