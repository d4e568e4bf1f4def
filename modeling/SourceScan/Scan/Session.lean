import SourceScan.Text.Basic

/-!
# The session

A session knows whether a scan is active, of which there is at most one, and holds
the timer that waits to start the next one. A timer that is replaced is handed back;
one that is cleared only leaves the slot if it is the timer in it.
-/

namespace SourceScan

structure Session (τ : Type) where
  scanning : Bool
  timer : Option τ
  deriving DecidableEq, Repr, Inhabited

namespace Session

variable {τ : Type}

def idle : Session τ := ⟨false, none⟩

def tryBegin (s : Session τ) : Bool × Session τ := (!s.scanning, { s with scanning := true })

def finish (s : Session τ) : Session τ := { s with scanning := false }

/-- Runs a body as the active scan; nothing if another scan is active. However the body ends, the
scan is over then. -/
def guarded {α : Type} (s : Session τ) (body : Session τ → α × Session τ) :
    Option (α × Session τ) :=
  if s.scanning then none
  else
    let (a, s) := body s.tryBegin.2
    some (a, s.finish)

def replaceTimer (s : Session τ) (t : τ) : Option τ × Session τ :=
  (s.timer, { s with timer := some t })

def clearTimer [DecidableEq τ] (s : Session τ) (t : τ) : Bool × Session τ :=
  if s.timer = some t then (true, { s with timer := none }) else (false, s)

def cancelTimer (s : Session τ) : Option τ × Session τ := (s.timer, { s with timer := none })

end Session

end SourceScan
