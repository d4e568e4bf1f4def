import SourceScan.Command.Arguments
import SourceScan.Command.Markup
import SourceScan.Settings.Save
import SourceScan.Watch.Service

/-!
# Commands

The program scans a directory once, scans it whenever its files change, or shows the
settings. An error that a command is prepared for is shown, and the command ends with
a failure; any other error ends the program.
-/

namespace SourceScan

inductive Crash where
  | load (cause : LoadError)
  | misuse (cause : Misuse)
  | circle (cause : LinkCircle)
  | scan (cause : ScanError)
  | service (cause : ServiceError)
  | save (cause : SaveError)
  | markup (cause : MarkupError)
  deriving DecidableEq, Repr

def Crash.message : Crash → Text
  | .load cause => cause.message
  | .misuse cause => cause.message
  | .circle cause => cause.message
  | .scan cause => cause.message
  | .service cause => cause.message
  | .save cause => cause.message
  | .markup cause => cause.message

def Crash.unresolved : Unresolved → Crash
  | .circle cause => .circle cause
  | .disk cause => .scan (.disk cause)

inductive Halt where
  | failed
  | crashed (cause : Crash)
  deriving DecidableEq, Repr

structure Terminal where
  disk : Disk
  lines : List Text

abbrev Job := ExceptT Halt (StateM Terminal)

namespace Job

def crash {α : Type} (cause : Crash) : Job α := throw (.crashed cause)

def orCrash {α ε : Type} (cause : ε → Crash) (r : Except ε α) : Job α :=
  match r with
  | .ok a => pure a
  | .error e => crash (cause e)

def disk : Job Disk := return (← get).disk

def setDisk (disk : Disk) : Job Unit := modify ({ · with disk })

def print (s : Text) : Job Unit := do
  let shown ← orCrash .markup (Markup.render s)
  modify fun t => { t with lines := t.lines ++ Text.splitOn '\n' shown }

/-- Prints rows of two cells, all or none of them. -/
def printRows (title : Text) (rows : List (Text × Text)) : Job Unit := do
  let rows ← rows.mapM fun (name, cell) => do
    return name ++ [' '] ++ (← orCrash .markup (Markup.render cell))
  modify fun t => { t with lines := t.lines ++ title :: rows.flatMap (Text.splitOn '\n') }

def fail {α : Type} (message : Text) : Job α := do
  print (("[bold red]Error:[/bold red] " : Text) ++ message)
  throw .failed

def loadSettings (env : Environment) (given : Option Path) (root : Path) : Job Settings := do
  let settings ←
    match Settings.load (← disk) env given (some root) with
    | .ok settings => pure settings
    | .error e => if e.isExpected then fail e.message else crash (.load e)
  match settings.logging.level with
  | .str _ => return settings
  | .bytes _ => crash (.misuse (.notAttribute .bytes))
  | v => crash (.misuse (.noUpperCase v.kind))

def orFail {α : Type} (r : Except ScanError α) : Job α :=
  match r with
  | .ok a => pure a
  | .error e => if e.isExpected then fail e.message else crash (.scan e)

def summaryRows (r : Report) (target : Option Path) : List (Text × Text) :=
  let shown : Text :=
    match target with
    | some p => p.toRaw.shown
    | none => "None"
  let noted (holds : Bool) (name cell : Text) : List (Text × Text) :=
    if holds then [(name, ("[yellow]" : Text) ++ cell ++ ("[/yellow]" : Text))] else []
  let always : List (Text × Text) :=
    [("Files Scanned:", Text.ofInt r.fileCount), ("Scan Time:", "0.00s"), ("Output File:", shown)]
  always ++
    noted (!r.errors.isEmpty) "Unreadable Files:" (Text.ofNat r.errors.length) ++
    noted r.truncated "Truncated:" "max file limit reached" ++
    noted r.timedOut "Timed Out:" "scan deadline reached"

def printSummary (r : Report) (target : Option Path) : Job Unit := do
  printRows "Scan Complete" (summaryRows r target)
  let counts := r.languageCounts
  if !counts.isEmpty then
    printRows "File Types"
      (("Type", "Files") :: counts.map fun (name, n) => (name, Text.ofNat n))

def scan (o : ScanOptions) (env : Environment) (m : Moment) : Job Unit := do
  let settings ← loadSettings env o.settingsFile o.path
  let output ← o.output.mapM fun p => do orCrash .unresolved ((← disk).resolve p)
  let s := settings.scanner
  let s := (output.map fun p => { s with outputFile := .str p.toRaw.shown }).getD s
  let s := (o.maxFiles.map fun n => { s with maxFiles := .int n }).getD s
  let s := (o.maxFileSize.map fun n => { s with maxFileSize := .int n }).getD s
  let s := (o.useGitignore.map fun b => { s with useGitignore := .bool b }).getD s
  let scanner : Scanner TimerId :=
    ⟨o.path, { settings with scanner := s }, .idle, .standard, none, none⟩
  if !o.quiet then
    print (("[bold blue]Scanning[/bold blue] " : Text) ++ o.path.toRaw.shown ++ ("..." : Text))
  let plan ← orFail (scanner.plan (← disk))
  let (_, d, outcome) := scanner.run m (← disk)
  setDisk d
  let report ← orFail outcome
  if !o.quiet then printSummary report plan.outputTarget

/-- Starts to watch a directory. The program is interrupted once nothing is left to happen. -/
def watch (o : WatchOptions) (env : Environment) (m : Moment) : Job Unit := do
  let settings ← loadSettings env o.settingsFile o.path
  let w := settings.watch
  let w := (o.debounceMs.map fun n => { w with debounceMs := .int n }).getD w
  let settings := { settings with watch := w }
  let scanner : Scanner TimerId := ⟨o.path, settings, .idle, .standard, none, none⟩
  let rules ← orFail (scanner.watchRules (← disk))
  let delay ← orCrash .misuse w.debounceMs.shownText
  print (("[bold blue]Watching[/bold blue] " : Text) ++ o.path.toRaw.shown ++
    (" [dim](debounce " : Text) ++ delay ++ ("ms, Ctrl-C to stop)[/dim]" : Text))
  let service := WatchService.make w scanner (FileWatcher.make rules .standard)
  let (_, d, outcome) := service.start m (← disk)
  setDisk d
  match outcome with
  | .ok _ => print "\n[cyan]Stopped watching.[/cyan]"
  | .error e => if e.isExpected then fail e.message else crash (.service e)

def config (o : ConfigOptions) (env : Environment) : Job Unit := do
  let settings ← loadSettings env o.settingsFile (.ofText ("." : Text))
  let yaml ← orCrash .save settings.toYaml
  modify fun t => { t with lines := t.lines ++ ("Configuration" : Text) :: Text.splitOn '\n' yaml }

def perform (env : Environment) (m : Moment) : Request → Job Unit
  | .scan options => scan options env m
  | .watch options => watch options env m
  | .config options => config options env

end Job

structure Finished where
  exitCode : Nat
  crash : Option Crash
  /-- The lines that were printed, unless they only say how the program is used. -/
  lines : Option (List Text)
  disk : Disk

def runProgram (args : List Text) (env : Environment) (m : Moment) (d : Disk) : Finished :=
  match Arguments.read args with
  | .error .help => ⟨0, none, none, d⟩
  | .error .misused => ⟨2, none, none, d⟩
  | .ok request =>
      let (outcome, t) := Job.perform env m request ⟨d, []⟩
      match outcome with
      | .ok _ => ⟨0, none, some t.lines, t.disk⟩
      | .error .failed => ⟨1, none, some t.lines, t.disk⟩
      | .error (.crashed cause) => ⟨1, some cause, some t.lines, t.disk⟩

end SourceScan
