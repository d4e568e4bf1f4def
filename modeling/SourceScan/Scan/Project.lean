import SourceScan.Disk.Basic
import SourceScan.Rule.Basic

/-!
# Kinds of projects

A file at the root of a project tells what kind of project it is, and with it the
directories that hold no sources of its own.
-/

namespace SourceScan

structure ProjectKind where
  name : Text
  /-- Any of these files at the root tells. -/
  markers : List Text
  excludes : List Text
  deriving DecidableEq, Repr

namespace ProjectKind

def all : List ProjectKind :=
  [⟨"go", ["go.mod", "go.sum"], ["vendor/"]⟩,
   ⟨"java", ["pom.xml", "build.gradle", "build.gradle.kts"], ["target/"]⟩]

def anyFile (d : Disk) (root : Path) : List Text → Except DiskError Bool
  | [] => return false
  | marker :: markers => do
      if ← d.isFile (root.child (RawText.ofText marker)) then return true
      else anyFile d root markers

def detect (d : Disk) (root : Path) : Except DiskError (List ProjectKind) :=
  all.filterM fun kind => anyFile d root kind.markers

def rules (kinds : List ProjectKind) : List Rule :=
  ((kinds.flatMap (·.excludes)).map (⟨·, .project⟩)).eraseDups

def rulesAt (d : Disk) (root : Path) : Except DiskError (List Rule) :=
  return rules (← detect d root)

end ProjectKind

end SourceScan
