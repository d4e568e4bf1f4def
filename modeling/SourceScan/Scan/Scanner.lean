import SourceScan.Report.Artifact
import SourceScan.Scan.Session
import SourceScan.Scan.Walk

/-!
# The scanner

A scanner runs one scan after another for a root: it makes a plan, walks through the
tree and writes the report.
-/

namespace SourceScan

structure Scanner (τ : Type) where
  root : Path
  settings : Settings
  session : Session τ
  walker : Walker
  /-- Takes the place of the map in the settings. -/
  hostExcludes : Option Value
  /-- The report of the last scan that succeeded. -/
  lastReport : Option Report

/-- What scans depend on besides the files: the clock that deadlines are measured by, and the time
that is written into reports. -/
structure Moment where
  clock : Clock
  now : Calendar.DateTime

namespace Scanner

variable {τ : Type}

def plan (s : Scanner τ) (d : Disk) : Except ScanError Plan :=
  Plan.make d s.root s.settings.scanner s.hostExcludes

/-- The rules for a watcher: those of the scan, and in front of them rules for the report and for
the file that is written before it. -/
def watchRules (s : Scanner τ) (d : Disk) : Except ScanError (List Rule) := do
  let plan ← s.plan d
  let project ← (ProjectKind.rulesAt d plan.root).mapError ScanError.disk
  let rules :=
    project ++ plan.rules.filter fun r => !project.any (·.pattern = r.pattern)
  match plan.outputTarget.bind (·.relativeTo? plan.root) with
  | none => return rules
  | some names =>
      let output : Path := ⟨0, names⟩
      match output.staging? with
      | none => throw (.nameless output)
      | some staging =>
          return ⟨output.toRaw.shown, .builtin⟩ :: ⟨staging.toRaw.shown, .builtin⟩ :: rules

/-- One scan without regard to the session: the report that was written, or why there is none. -/
def scanOnce (s : Scanner τ) (m : Moment) (d : Disk) : Disk × Except ScanError Report :=
  let walked : Except ScanError (Plan × Report) := do
    let plan ← s.plan d
    return (plan, ← s.walker.walk d plan m.clock m.now)
  match walked with
  | .error e => (d, .error e)
  | .ok (plan, report) =>
      match plan.outputTarget with
      | none => (d, .ok report)
      | some target =>
          let (d, written) := report.write target d
          (d, written.map fun _ => report)

def run (s : Scanner τ) (m : Moment) (d : Disk) : Scanner τ × Disk × Except ScanError Report :=
  match s.session.guarded fun session => (s.scanOnce m d, session) with
  | none => (s, d, .error .inProgress)
  | some ((d, outcome), session) =>
      let last :=
        match outcome with
        | .ok report => some report
        | .error _ => s.lastReport
      ({ s with session, lastReport := last }, d, outcome)

end Scanner

end SourceScan
