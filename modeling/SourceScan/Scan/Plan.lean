import SourceScan.IgnoreFile
import SourceScan.Rule.Basic
import SourceScan.Scan.Error
import SourceScan.Settings.Basic

/-!
# Plans of a scan

Before each scan the settings are turned into a plan: the real path of the root, the
rules from all sources in one list, and the place of the report.
-/

namespace SourceScan

structure Plan where
  root : Path
  maxFileSize : Value
  maxFiles : Value
  rules : List Rule
  outputTarget : Option Path
  followSymlinks : Value
  scanTimeout : Value
  deriving Repr, Inhabited

namespace IgnoreFile

/-- The patterns of an ignore file; none if the file is missing or cannot be read. -/
def load (d : Disk) (p : Path) : Except DiskError (List Text) := do
  if !(← d.isFile p) then return []
  match d.readFile p with
  | .error _ => return []
  | .ok bytes =>
      match Utf8.decode bytes with
      | .error _ => return []
      | .ok s => return patterns (Text.universalNewlines s)

end IgnoreFile

namespace Plan

def rootOf (d : Disk) (root : Path) : Except ScanError Path := do
  let root ← (d.resolve root).mapError ScanError.unresolved
  if !(← (d.exists? root).mapError ScanError.disk) then throw (.rootMissing root)
  if !(← (d.isDir root).mapError ScanError.disk) then throw (.rootNotDirectory root)
  return root

def enabled (v : Value) : Except Misuse (List Value) :=
  return ((← v.entries).filter (·.2.isTruthy)).map (·.1)

def addPatterns (rules : List Rule) (source : RuleSource) (vs : List Value) :
    Except Misuse (List Rule) :=
  return Rule.insertPatterns rules source (← vs.mapM Value.shownText)

/-- The plan for a root. `hostExcludes` takes the place of the map of the same name. -/
def make (d : Disk) (root : Path) (s : ScannerSettings) (hostExcludes : Option Value) :
    Except ScanError Plan := do
  let root ← rootOf d root
  let host ←
    if s.useHostExcludes.isTruthy then
      (enabled (hostExcludes.getD s.hostExcludes)).mapError ScanError.misuse
    else pure []
  let ignored ←
    if s.useGitignore.isTruthy then
      (IgnoreFile.load d (root.child (RawText.ofText IgnoreFile.defaultName))).mapError
        ScanError.disk
    else pure []
  let mergeAll : Except Misuse (List Rule) := do
    let rules ← addPatterns [] .legacy (← s.ignorePatterns.elements)
    let rules ← addPatterns rules .explicit (← s.excludePatterns.elements)
    let rules ← addPatterns rules .host host
    return Rule.insertPatterns rules .gitignore ignored
  let rules ← mergeAll.mapError ScanError.misuse
  let output ← s.outputFile.path.mapError ScanError.misuse
  return {
    root
    maxFileSize := s.maxFileSize
    maxFiles := s.maxFiles
    rules
    outputTarget := some (root.join output)
    followSymlinks := s.followSymlinks
    scanTimeout := s.scanTimeout }

end Plan

end SourceScan
