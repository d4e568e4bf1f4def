import SourceScan.Disk.Basic
import SourceScan.Report.Document
import SourceScan.Value.Use

/-!
# Errors of a scan

A scan fails in an expected way if its root cannot be scanned, if another scan is
active, or if the report cannot be written. The remaining errors come from settings
of a wrong kind and from paths that no file can have.
-/

namespace SourceScan

inductive PayloadError where
  | tooLong
  | notText (error : Utf8.EncodeError)
  deriving DecidableEq, Repr

def PayloadError.message : PayloadError → Text
  | .tooLong => Value.TooLong.message
  | .notText error => error.message

inductive ScanError where
  | rootMissing (root : Path)
  | rootNotDirectory (root : Path)
  | rootUnreadable (cause : DiskError)
  | inProgress
  | notSerialized (cause : PayloadError)
  | notWritten (target : Path) (cause : DiskError)
  | disk (cause : DiskError)
  | circle (cause : LinkCircle)
  | misuse (cause : Misuse)
  | nameless (target : Path)
  | timeOutOfRange
  deriving DecidableEq, Repr

namespace ScanError

def namedPath (p : Path) : Text := ("PosixPath(" : Text) ++ p.toRaw.quoted ++ [')']

def message : ScanError → Text
  | .rootMissing root => ("Root path does not exist: " : Text) ++ root.toRaw.shown
  | .rootNotDirectory root => ("Root path is not a directory: " : Text) ++ root.toRaw.shown
  | .rootUnreadable cause => ("Cannot read root directory: " : Text) ++ cause.message
  | .inProgress => "A scan is already in progress"
  | .notSerialized cause => ("Failed to serialize scan result: " : Text) ++ cause.message
  | .notWritten target cause =>
      ("Failed to write " : Text) ++ target.toRaw.shown ++ (": " : Text) ++ cause.message
  | .disk cause => cause.message
  | .circle cause => cause.message
  | .misuse cause => cause.message
  | .nameless target => namedPath target ++ (" has an empty name" : Text)
  | .timeOutOfRange => "date value out of range"

def unresolved : Unresolved → ScanError
  | .circle cause => .circle cause
  | .disk cause => .disk cause

/-- Whether callers of a scan are prepared for the error. -/
def isExpected : ScanError → Bool
  | .rootMissing _ | .rootNotDirectory _ | .rootUnreadable _ | .inProgress | .notSerialized _
  | .notWritten .. => true
  | _ => false

end ScanError

end SourceScan
