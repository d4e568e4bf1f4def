import SourceScan.Settings.Basic
import SourceScan.Text.Case

/-!
# Settings from environment variables

Some fields have a variable of their own, whose text is converted to the kind of
the field. A text that cannot be converted is ignored.
-/

namespace SourceScan

abbrev Environment := List (Text × Text)

namespace Environment

/-- The words that count as true, in any case; every other text counts as false. -/
def trueWords : List Text := ["true", "1", "yes", "on"]

def parseBool (s : Text) : Bool := trueWords.contains (Text.lower s)

def parseList (s : Text) : List Text :=
  ((Text.splitOn ',' s).map Text.strip).filter (· ≠ [])

inductive Target where
  | int
  | float
  | bool
  | list
  | text
  deriving DecidableEq, Repr

def Target.convert? : Target → Text → Option Value
  | .int, s => (Numeral.readInt s).toOption.map .int
  | .float, s => (Numeral.readDecimal? s).map .float
  | .bool, s => some (.bool (parseBool s))
  | .list, s => some (.list ((parseList s).map .str))
  | .text, s => some (.str s)

structure Variable where
  name : Text
  target : Target
  set : Value → Settings → Settings

def scannerVariable (name : String) (target : Target)
    (set : Value → ScannerSettings → ScannerSettings) : Variable :=
  ⟨"PCS_SCANNER_" ++ name.toList, target, fun v s => { s with scanner := set v s.scanner }⟩

def known : List Variable :=
  [scannerVariable "MAX_FILE_SIZE" .int fun v s => { s with maxFileSize := v },
   scannerVariable "MAX_FILES" .int fun v s => { s with maxFiles := v },
   scannerVariable "OUTPUT_FILE" .text fun v s => { s with outputFile := v },
   scannerVariable "EXCLUDE_PATTERNS" .list fun v s => { s with excludePatterns := v },
   scannerVariable "IGNORE_PATTERNS" .list fun v s => { s with ignorePatterns := v },
   scannerVariable "USE_GITIGNORE" .bool fun v s => { s with useGitignore := v },
   scannerVariable "USE_HOST_EXCLUDES" .bool fun v s => { s with useHostExcludes := v },
   scannerVariable "FOLLOW_SYMLINKS" .bool fun v s => { s with followSymlinks := v },
   scannerVariable "SCAN_TIMEOUT" .float fun v s => { s with scanTimeout := v },
   ⟨"PCS_WATCH_DEBOUNCE_MS", .int, fun v s => { s with watch.debounceMs := v }⟩,
   ⟨"PCS_WATCH_SCAN_ON_START", .bool, fun v s => { s with watch.scanOnStart := v }⟩,
   ⟨"PCS_LOGGING_LEVEL", .text, fun v s => { s with logging.level := v }⟩]

/-- The text of a variable; of several texts the last one holds. -/
def get? (env : Environment) (name : Text) : Option Text :=
  (env.reverse.find? (·.1 = name)).map (·.2)

def applyVariable (env : Environment) (s : Settings) (x : Variable) : Settings :=
  match (env.get? x.name).bind x.target.convert? with
  | some v => x.set v s
  | none => s

def apply (env : Environment) (s : Settings) : Settings := known.foldl (applyVariable env) s

end Environment

end SourceScan
