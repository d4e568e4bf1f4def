import SourceScan.Language.Defaults
import SourceScan.Language.Extract
import SourceScan.Rule.Match
import SourceScan.Scan.Plan
import SourceScan.Scan.Project

/-!
# The walk through a tree

Directories are gone through in the order of their names, files and directories
mixed. What a rule excludes is not entered. Links are followed to files inside the
root, and to directories inside the root if the plan says so; a directory inside
itself is not entered again. The walk stops early when it has enough files and when
the clock passes the deadline.
-/

namespace SourceScan

structure Walker where
  matcher : Matcher
  registry : Registry
  declarationLimit : Int

/-- The readings of a clock, in seconds: `clock n` is the reading number `n`. -/
abbrev Clock := Nat → Binary64

structure Progress where
  files : List Entry
  errors : List ReadFault
  /-- The real paths of the directories that the walk is in. -/
  visited : List Path
  /-- How often the clock was read. -/
  readings : Nat
  truncated : Bool
  timedOut : Bool
  stopped : Bool
  deriving Inhabited

structure Walk where
  walker : Walker
  disk : Disk
  plan : Plan
  /-- The real path of the root. -/
  root : Path
  rules : List Rule
  /-- Where the report is, if no rule can spell it. -/
  stray : Option RawText
  clock : Clock
  deadline : Option Binary64

namespace Walk

abbrev Step := Progress → Except ScanError Progress

def checkDeadline (w : Walk) (s : Progress) : Progress :=
  match w.deadline with
  | none => s
  | some deadline =>
      let s := { s with readings := s.readings + 1 }
      if (w.clock (s.readings - 1)).lt deadline then s
      else { s with timedOut := true, stopped := true }

/-- Whether a link is followed: it has to lead to something inside the root, and to a directory only
if the plan allows that. -/
def followsLink (w : Walk) (link : Path) : Except DiskError Bool :=
  match w.disk.resolveStrict? link with
  | none => return false
  | some target =>
      if (target.relativeTo? w.root).isNone then return false
      else return !(← w.disk.isDir target) || w.plan.followSymlinks.isTruthy

def addError (path : RawText) (reason : Text) (s : Progress) : Progress :=
  { s with errors := s.errors ++ [⟨path, reason⟩] }

def addEntry (e : Entry) (s : Progress) : Progress := { s with files := s.files ++ [e] }

def readFile (w : Walk) (file : Path) (path : RawText) (size : Nat) (s : Progress) : Progress :=
  match w.disk.readFile file with
  | .error e => addError path e.message s
  | .ok bytes =>
      match Utf8.decode bytes with
      | .error e => addError path (("decode error: " : Text) ++ e.fault.message) s
      | .ok content =>
          let registry := w.walker.registry
          let language := registry.classifyPath file
          addEntry
            (.record
              { path
                type := language.name
                size
                dependencies := registry.extractDependencies content language
                declarations :=
                  registry.extractDeclarations w.walker.declarationLimit content language })
            s

def visitFile (w : Walk) (file : Path) (path : RawText) (size : Nat) : Step := fun s => do
  if ← (w.plan.maxFileSize.isExceededBy size).mapError ScanError.misuse then return s
  if ← (w.plan.maxFiles.isReachedBy s.files.length).mapError ScanError.misuse then
    return { addEntry (.warning tooManyFiles) s with truncated := true, stopped := true }
  return readFile w file path size s

def excludes (w : Walk) (path : Text) (isDir : Bool) : Bool :=
  w.walker.matcher.excludes path (w.rules.map (·.pattern)) isDir ||
    (normalizePath path ≠ [] &&
      w.stray.any (w.walker.matcher.matchesStray (normalizePath path) · isDir))

/-- Whether the walk takes notice of an entry, and if so whether it is a directory. -/
def admits (w : Walk) (entry : Path) (path : Text) : Except DiskError (Option Bool) := do
  if w.disk.isLink entry then
    if !(← w.followsLink entry) then return none
  let isDir ← w.disk.isDir entry
  if w.excludes path isDir then return none
  return some isDir

/-- Visits one name of a directory. `descend` walks through a directory below. -/
def visitEntry (w : Walk) (descend : Path → List FileName → Step) (dir : Path)
    (names : List FileName) (s : Progress) (name : FileName) : Except ScanError Progress := do
  if s.stopped then return s
  let s := w.checkDeadline s
  if s.stopped then return s
  let names := names ++ [name]
  let path := Path.joined names
  match path.text? with
  | none => return addError path "path is not valid UTF-8" s
  | some text =>
      let entry := dir.child name
      match ← (w.admits entry text).mapError ScanError.disk with
      | none => return s
      | some true => descend entry names s
      | some false =>
          match ← (w.disk.look entry).mapError ScanError.disk with
          | some (.file content) => w.visitFile entry path content.length s
          | _ => return s

def sortNames (names : List FileName) : List FileName :=
  names.mergeSort fun a b => !RawText.lt b a

/-- Walks through a directory. `fuel` bounds how deep the walk may go. -/
def directory (w : Walk) : Nat → Path → List FileName → Step
  | 0, _, _, s => return s
  | fuel + 1, dir, names, s => do
      let real ← (w.disk.resolve dir).mapError ScanError.unresolved
      if real ∈ s.visited then return s
      let s := { s with visited := real :: s.visited }
      match w.disk.list dir with
      -- A directory below the root that cannot be listed counts as visited from here on.
      | .error e => if names.isEmpty then throw (.rootUnreadable e) else return s
      | .ok entries =>
          let s ← (sortNames entries).foldlM (w.visitEntry (directory w fuel) dir names) s
          return { s with visited := s.visited.filter (· ≠ real) }

/-- The rule that keeps a scan from reading its own report. -/
def outputRule (d : Disk) (root : Path) (target : Option Path) :
    Except ScanError (Option Rule) := do
  match target with
  | none => return none
  | some target =>
      match d.resolve target with
      | .ok real =>
          return (real.relativeTo? root).bind fun names =>
            (Path.mk 0 names).toRaw.text?.map (⟨·, .builtin⟩)
      -- A path that no file can have needs no rule.
      | .error (.disk _) => return none
      | .error (.circle cause) => throw (.circle cause)

/-- What takes the place of that rule if the report is at a path with a stray byte in it. -/
def strayOutput (d : Disk) (root : Path) (target : Option Path) : Option RawText := do
  let real ← (d.resolve (← target)).toOption
  let spelled := (Path.mk 0 (← real.relativeTo? root)).toRaw
  if spelled.text?.isNone then some spelled else none

def deadlineOf (clock : Clock) (timeout : Value) : Except Misuse (Option Binary64) :=
  match timeout with
  | .null => return none
  | timeout => return some ((clock 0).add (← timeout.number .notAddable))

end Walk

def Walker.walk (walker : Walker) (d : Disk) (plan : Plan) (clock : Clock)
    (now : Calendar.DateTime) : Except ScanError Report := do
  let root ← Plan.rootOf d plan.root
  let project ← (ProjectKind.rulesAt d root).mapError ScanError.disk
  let rules := Rule.extend project plan.rules
  let listed := (rules.filter (·.source ≠ .builtin)).map (·.pattern)
  let output ← Walk.outputRule d root plan.outputTarget
  let deadline ← (Walk.deadlineOf clock plan.scanTimeout).mapError ScanError.misuse
  let w : Walk := ⟨walker, d, plan, root, output.toList ++ rules,
    Walk.strayOutput d root plan.outputTarget, clock, deadline⟩
  let s ← w.directory (d.tree.dirCount + 1) root []
    ⟨[], [], [], if deadline.isSome then 1 else 0, false, false, false⟩
  let records := s.files.filterMap Entry.record?
  return {
    files := s.files
    fileCount := records.length
    scannedAt := now
    excludedPatterns := listed
    errors := s.errors
    truncated := s.truncated
    timedOut := s.timedOut }

def Walker.standard : Walker := ⟨Matcher.standard, Registry.standard, Registry.defaultLimit⟩

end SourceScan
