import SourceScan.Assoc
import SourceScan.Calendar.DateTime
import SourceScan.Language.Basic
import SourceScan.Text.Unit

/-!
# Reports

What a scan found: a record for each file in the order of the walk, a warning at the
end if there were too many files, and the files that could not be read.
-/

namespace SourceScan

structure FileRecord where
  path : RawText
  /-- The name of the language. -/
  type : Text
  size : Int
  dependencies : List Text
  declarations : List Text
  deriving DecidableEq, Repr

inductive Entry where
  | record (r : FileRecord)
  | warning (text : Text)
  deriving DecidableEq, Repr

def Entry.record? : Entry → Option FileRecord
  | .record r => some r
  | .warning _ => none

def tooManyFiles : Text := "Max file limit reached. Some files were not analyzed."

structure ReadFault where
  path : RawText
  reason : Text
  deriving DecidableEq, Repr

structure Report where
  files : List Entry
  fileCount : Int
  scannedAt : Calendar.DateTime
  excludedPatterns : List Text
  errors : List ReadFault
  /-- The walk stopped because of the number of files. -/
  truncated : Bool
  /-- The walk stopped at the deadline. -/
  timedOut : Bool
  deriving DecidableEq, Repr

namespace Report

def records (r : Report) : List FileRecord := r.files.filterMap Entry.record?

def textLe : Text → Text → Bool
  | [], _ => true
  | _ :: _, [] => false
  | c :: s, d :: t => c.toNat < d.toNat || (c = d && textLe s t)

def countOne (counts : List (Text × Nat)) (name : Text) : List (Text × Nat) :=
  Assoc.put name ((Assoc.get? name counts).getD 0 + 1) counts

def tally (names : List Text) : List (Text × Nat) := names.foldl countOne []

/-- The larger count comes first, and of the same counts the smaller text. -/
def countLe (a b : Text × Nat) : Bool := b.2 < a.2 || (a.2 = b.2 && textLe a.1 b.1)

def languageCounts (r : Report) : List (Text × Nat) :=
  (tally (r.records.map (·.type))).mergeSort countLe

end Report

end SourceScan
